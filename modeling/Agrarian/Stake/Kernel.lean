import Agrarian.Stake.Modifier

/-!
# The kernel of a proof-of-stake block

`CheckProofOfStake` with the look-ups it makes: the transaction of the staked
output, the block it is in and the stake modifier of a later block, or the
accumulator checkpoints for a zerocoin.

A node is what these look-ups read.  Checking a script, parsing a zerocoin
spend and hashing are parameters.  Where the source follows a null pointer or
reads beyond the end of a vector the model rejects the block.
-/

namespace Agrarian.Stake

open Agrarian.Validation

structure StakeParams where
  fRegTest : Bool
  nFirstPoSBlock : Int
  nZerocoinStartHeight : Int
  nBlockZerocoinV2 : Int
  nPublicZCSpends : Int
  nZerocoinRequiredStakeDepth : Int

/-- `CMainParams`. -/
def mainStakeParams : StakeParams where
  fRegTest := false
  nFirstPoSBlock := 2
  nZerocoinStartHeight := 0
  nBlockZerocoinV2 := 999999999
  nPublicZCSpends := 1
  nZerocoinRequiredStakeDepth := 200

def nStakeMinAge : UInt32 := 60 * 60

/-! ## The active chain -/

/-- `chainActive[nHeight]`. -/
def chainAt (chain : List CBlockIndex) (nHeight : Int) : Option CBlockIndex :=
  if nHeight < 0 then none else chain[nHeight.toNat]?

def chainHeight (chain : List CBlockIndex) : Int := chain.length - 1

/-- `chainActive.Contains`. -/
def chainContains (chain : List CBlockIndex) (pindex : CBlockIndex) : Bool :=
  chainAt chain pindex.nHeight = some pindex

/-- The blocks of the chain above a height. -/
def chainAbove (chain : List CBlockIndex) (nHeight : Int) :
    List CBlockIndex :=
  chain.drop (nHeight + 1).toNat

/-! ## The stake modifier -/

/-- The loop of `GetKernelStakeModifier` over the blocks that follow. -/
def kernelLoop (nTimeStop : Int) :
    Int → CBlockIndex → List CBlockIndex → Option UInt64
  | nStakeModifierTime, pindex, [] =>
      if nStakeModifierTime < nTimeStop then none
      else some pindex.nStakeModifier
  | nStakeModifierTime, pindex, pindexNext :: rest =>
      if nStakeModifierTime < nTimeStop then
        kernelLoop nTimeStop
          (if pindexNext.fGeneratedStakeModifier then pindexNext.getBlockTime
          else nStakeModifierTime) pindexNext rest
      else some pindex.nStakeModifier

/-- `GetKernelStakeModifier` once the block is found. -/
def kernelModifierFrom (params : StakeParams) (chain : List CBlockIndex)
    (pindexFrom : CBlockIndex) : Option UInt64 :=
  if pindexFrom.nHeight < params.nFirstPoSBlock then none
  else if params.fRegTest then some pindexFrom.nStakeModifier
  else
    kernelLoop (pindexFrom.getBlockTime + getStakeModifierSelectionInterval)
      pindexFrom.getBlockTime pindexFrom
      (chainAbove chain pindexFrom.nHeight)

def getKernelStakeModifier (params : StakeParams)
    (mapBlockIndex : Uint256 → Option CBlockIndex)
    (chain : List CBlockIndex) (hashBlockFrom : Uint256) : Option UInt64 :=
  match mapBlockIndex hashBlockFrom with
  | none => none
  | some pindexFrom => kernelModifierFrom params chain pindexFrom

/-- A modifier is found whatever blocks come later. -/
theorem kernelLoop_append {nTimeStop nStakeModifierTime : Int}
    {pindex : CBlockIndex} {rest : List CBlockIndex} {nStakeModifier : UInt64}
    (h : kernelLoop nTimeStop nStakeModifierTime pindex rest =
      some nStakeModifier) (more : List CBlockIndex) :
    kernelLoop nTimeStop nStakeModifierTime pindex (rest ++ more) =
      some nStakeModifier := by
  induction rest generalizing nStakeModifierTime pindex with
  | nil =>
      unfold kernelLoop at h
      split at h
      · cases h
      · rename_i hlate
        cases more with
        | nil =>
            rw [List.append_nil]
            unfold kernelLoop
            rw [if_neg hlate, h]
        | cons pindexNext more =>
            rw [List.nil_append]
            unfold kernelLoop
            rw [if_neg hlate, h]
  | cons pindexNext rest ih =>
      rw [List.cons_append]
      unfold kernelLoop at h ⊢
      split at h
      · rename_i hearly
        rw [if_pos hearly]
        exact ih h
      · rename_i hlate
        rw [if_neg hlate]
        exact h

theorem chainAt_append {chain more : List CBlockIndex} {nHeight : Int}
    {pindex : CBlockIndex} (h : chainAt chain nHeight = some pindex) :
    chainAt (chain ++ more) nHeight = some pindex := by
  unfold chainAt at h ⊢
  split at h
  · cases h
  · rename_i hnonneg
    rw [if_neg hnonneg]
    have hlt := (List.getElem?_eq_some_iff.mp h).1
    rw [List.getElem?_append_left hlt]
    exact h

theorem mem_of_chainAt {chain : List CBlockIndex} {nHeight : Int}
    {pindex : CBlockIndex} (h : chainAt chain nHeight = some pindex) :
    pindex ∈ chain := by
  unfold chainAt at h
  split at h
  · cases h
  · exact List.mem_of_getElem? h

theorem chainAbove_append (chain more : List CBlockIndex) (nHeight : Int) :
    ∃ later, chainAbove (chain ++ more) nHeight =
      chainAbove chain nHeight ++ later := by
  unfold chainAbove
  rw [List.drop_append]
  exact ⟨_, rfl⟩

theorem kernelModifierFrom_append {params : StakeParams}
    {chain : List CBlockIndex} {pindexFrom : CBlockIndex}
    {nStakeModifier : UInt64}
    (h : kernelModifierFrom params chain pindexFrom = some nStakeModifier)
    (more : List CBlockIndex) :
    kernelModifierFrom params (chain ++ more) pindexFrom =
      some nStakeModifier := by
  unfold kernelModifierFrom at h ⊢
  split at h
  · cases h
  · rename_i hstarted
    rw [if_neg hstarted]
    split at h
    · rename_i hregtest
      rw [if_pos hregtest]
      exact h
    · rename_i hregtest
      rw [if_neg hregtest]
      rcases chainAbove_append chain more pindexFrom.nHeight with
        ⟨later, hlater⟩
      rw [hlater]
      exact kernelLoop_append h later

/-! ## The staked coin -/

/-- What a node reads when it checks a stake. -/
structure Node where
  mapBlockIndex : Uint256 → Option CBlockIndex
  /-- The active chain, from the genesis block on. -/
  chainActive : List CBlockIndex
  keyed : ∀ hash pindex, mapBlockIndex hash = some pindex →
    pindex.hash = hash
  indexed : ∀ nHeight pindex, chainAt chainActive nHeight = some pindex →
    mapBlockIndex pindex.hash = some pindex
  /-- `mempool.lookup`. -/
  mempool : Uint256 → Option CTransaction := fun _ => none
  mempool_keyed : ∀ hash tx, mempool hash = some tx → tx.hash = hash
  fTxIndex : Bool := false
  /-- The block hash and the transaction that the transaction index leads
  to. -/
  readTxIndex : Uint256 → Option (Uint256 × CTransaction) := fun _ => none
  /-- The height of the record of a transaction in `pcoinsTip`. -/
  coinsHeight : Uint256 → Option Int
  readBlockFromDisk : CBlockIndex → Option StakeBlock

namespace Node

/-- `GetTransaction(hash, txOut, hashBlock, true)`. -/
def getTransaction (node : Node) (hash : Uint256) :
    Option (CTransaction × Uint256) :=
  match node.mempool hash with
  | some tx => some (tx, 0)
  | none =>
      if node.fTxIndex then
        match node.readTxIndex hash with
        | none => none
        | some (hashBlock, tx) =>
            if tx.getHash = hash then some (tx, hashBlock) else none
      else
        -- use the coin database to locate the block
        let nHeight := (node.coinsHeight hash).getD (-1)
        if nHeight ≤ 0 then none
        else
          match chainAt node.chainActive nHeight with
          | none => none
          | some pindexSlow =>
              match node.readBlockFromDisk pindexSlow with
              | none => none
              | some block =>
                  (block.vtx.find? fun tx => tx.getHash = hash).map
                    fun tx => (tx, pindexSlow.hash)

theorem getTransaction_hash {node : Node} {hash hashBlock : Uint256}
    {tx : CTransaction} (h : node.getTransaction hash = some (tx, hashBlock)) :
    tx.getHash = hash := by
  unfold getTransaction at h
  split at h
  · rename_i tx' hmempool
    cases h
    exact node.mempool_keyed hash tx hmempool
  · split at h
    · split at h
      · cases h
      · split at h
        · rename_i heq
          cases h
          exact heq
        · cases h
    · simp only at h
      split at h
      · cases h
      · split at h
        · cases h
        · split at h
          · cases h
          · rcases Option.map_eq_some_iff.mp h with ⟨found, hfound, heq⟩
            cases heq
            simpa using List.find?_some hfound

/-- `CPivStake::GetIndexFrom`: the block of the coin, if it is in the active
chain. -/
def getIndexFrom (node : Node) (txFrom : CTransaction) : Option CBlockIndex :=
  match node.getTransaction txFrom.getHash with
  | none => none
  | some (_, hashBlock) =>
      (node.mapBlockIndex hashBlock).filter (chainContains node.chainActive)

theorem getIndexFrom_eq_some {node : Node} {txFrom : CTransaction}
    {pindexFrom : CBlockIndex} :
    node.getIndexFrom txFrom = some pindexFrom ↔
      ∃ tx, node.getTransaction txFrom.getHash = some (tx, pindexFrom.hash) ∧
        chainAt node.chainActive pindexFrom.nHeight = some pindexFrom := by
  unfold getIndexFrom
  constructor
  · intro h
    split at h
    · cases h
    · rename_i tx hashBlock hlookup
      rw [Option.filter_eq_some_iff] at h
      have hhash := node.keyed _ _ h.1
      refine ⟨tx, ?_, by simpa [chainContains] using h.2⟩
      rw [hlookup, hhash]
  · rintro ⟨tx, hlookup, hactive⟩
    rw [hlookup]
    simp only
    rw [Option.filter_eq_some_iff]
    exact ⟨node.indexed _ _ hactive, by simpa [chainContains] using hactive⟩

end Node

/-! ## The staked zerocoin -/

/-- What a parsed zerocoin spend holds. -/
structure CoinSpend where
  /-- The spend type is `STAKE`. -/
  fStake : Bool
  nChecksum : BitVec 32
  denom : CoinDenomination
  nSerial : Uint256

/-- The position in `zerocoinDenomList`. -/
def denomPos : CoinDenomination → Nat
  | .ZQ_ONE => 0
  | .ZQ_FIVE => 1
  | .ZQ_TEN => 2
  | .ZQ_FIFTY => 3
  | .ZQ_ONE_HUNDRED => 4
  | .ZQ_FIVE_HUNDRED => 5
  | .ZQ_ONE_THOUSAND => 6
  | .ZQ_FIVE_THOUSAND => 7

def parseChecksum (nChecksum : Uint256) (denomination : CoinDenomination) :
    BitVec 32 :=
  (nChecksum >>> (32 * (7 - denomPos denomination))).setWidth 32

/-- The loop of `GetChecksumHeight`. -/
def checksumHeightFrom (chain : List CBlockIndex) (nChecksum : BitVec 32)
    (denomination : CoinDenomination) (nHeight : Nat) : Int :=
  match h : chain[nHeight]? with
  | none => 0
  | some pindex =>
      if parseChecksum pindex.nAccumulatorCheckpoint denomination =
          nChecksum then nHeight
      -- checkpoints only change every 10 blocks
      else if nHeight % 10 = 0 then
        if chain.length ≤ nHeight + 10 then 0
        else checksumHeightFrom chain nChecksum denomination (nHeight + 10)
      else checksumHeightFrom chain nChecksum denomination (nHeight + 1)
  termination_by chain.length - nHeight
  decreasing_by
    · have := (List.getElem?_eq_some_iff.mp h).1
      omega
    · have := (List.getElem?_eq_some_iff.mp h).1
      omega

def getChecksumHeight (params : StakeParams) (chain : List CBlockIndex)
    (nChecksum : BitVec 32) (denomination : CoinDenomination) : Int :=
  match chainAt chain params.nZerocoinStartHeight with
  | none => 0
  | some _ => checksumHeightFrom chain nChecksum denomination
      params.nZerocoinStartHeight.toNat

namespace CoinSpend

variable (params : StakeParams) (chain : List CBlockIndex) (spend : CoinSpend)

/-- `CZPivStake::GetIndexFrom`. -/
def getIndexFrom : Option CBlockIndex :=
  let nHeightChecksum :=
    getChecksumHeight params chain spend.nChecksum spend.denom
  if nHeightChecksum < params.nZerocoinStartHeight ∨
      chainHeight chain < nHeightChecksum then none
  else chainAt chain nHeightChecksum

/-- `CZPivStake::GetModifier`: the checkpoint of the first block more than an
hour later. -/
def getModifier : Option UInt64 :=
  match spend.getIndexFrom params chain with
  | none => none
  | some pindexFrom =>
      if params.fRegTest then some pindexFrom.nStakeModifier
      else
        ((pindexFrom :: chainAbove chain pindexFrom.nHeight).find?
          fun pindex =>
            60 * 60 < pindex.getBlockTime - pindexFrom.getBlockTime).map
          fun pindex => UInt64.ofBitVec
            (pindex.nAccumulatorCheckpoint.setWidth 64)

/-- `ContextualCheckZerocoinStake`. -/
def contextualCheck (nPreviousBlockHeight : Int) : Bool :=
  if nPreviousBlockHeight < params.nBlockZerocoinV2 then false
  else
    match spend.getIndexFrom params chain with
    | none => false
    | some pindexFrom =>
        if chainHeight chain - pindexFrom.nHeight <
            params.nZerocoinRequiredStakeDepth then false
        else
          match chainAt chain (nPreviousBlockHeight -
              params.nZerocoinRequiredStakeDepth) with
          | none => false
          | some pindex200 =>
              parseChecksum pindex200.nAccumulatorCheckpoint spend.denom =
                spend.nChecksum

end CoinSpend

/-! ## `CheckProofOfStake` -/

/-- What identifies a stake: the outpoint, or the hash of the serial. -/
inductive Uniqueness
  | coin (nPosition : Nat) (hash : Uint256)
  | zerocoin (nSerial : Uint256)
  deriving DecidableEq

/-- The code that the check calls: it only looks at its arguments. -/
structure Oracle where
  verifyScript : CTransaction → CTxIn → CScript → Bool
  coinSpendOf : CTxIn → CoinSpend
  kernelHash : UInt64 → UInt32 → Uniqueness → UInt32 → Uint256

def setCompact (nCompact : UInt32) : Uint256 :=
  let nSize := (nCompact >>> 24).toNat
  let nWord := (nCompact &&& 0x007fffff).toNat
  if nSize ≤ 3 then BitVec.ofNat 256 (nWord >>> (8 * (3 - nSize)))
  else BitVec.ofNat 256 nWord <<< (8 * (nSize - 3))

def stakeTargetHit (hashProofOfStake : Uint256) (nValueIn : Int)
    (bnTargetPerCoinDay : Uint256) : Bool :=
  let bnCoinDayWeight := (BitVec.ofInt 64 nValueIn).setWidth 256 / 100
  hashProofOfStake < bnCoinDayWeight * bnTargetPerCoinDay

/-- A stake that was found: its block, its modifier and what is hashed. -/
structure StakeInfo where
  pindexFrom : CBlockIndex
  nStakeModifier : Option UInt64
  uniqueness : Uniqueness
  nValue : Int

section Check

variable (params : StakeParams) (oracle : Oracle) (node : Node)

/-- The stake of a zerocoin spend. -/
def zerocoinStake (txin : CTxIn) (nPreviousBlockHeight : Int) :
    Option StakeInfo :=
  let spend := oracle.coinSpendOf txin
  if !spend.fStake then none
  else if !spend.contextualCheck params node.chainActive
      nPreviousBlockHeight then none
  else
    (spend.getIndexFrom params node.chainActive).map fun pindexFrom =>
      { pindexFrom
        nStakeModifier := spend.getModifier params node.chainActive
        uniqueness := .zerocoin spend.nSerial
        nValue := spend.denom.toInt * COIN }

/-- The stake of an output. -/
def coinStake (tx : CTransaction) (txin : CTxIn) : Option StakeInfo :=
  match node.getTransaction txin.prevout.hash with
  | none => none
  | some (txPrev, _) =>
      match txPrev.vout[txin.prevout.n]? with
      | none => none
      | some out =>
          if !oracle.verifyScript tx txin out.scriptPubKey then none
          else
            (node.getIndexFrom txPrev).map fun pindexFrom =>
              { pindexFrom
                nStakeModifier := getKernelStakeModifier params
                  node.mapBlockIndex node.chainActive pindexFrom.hash
                uniqueness := .coin txin.prevout.n txPrev.getHash
                nValue := out.nValue }

/-- The age of a staked output. -/
def checkAge (txin : CTxIn) (nPreviousBlockHeight : Int)
    (nBlockFromTime nTxTime : UInt32) : Bool :=
  if !txin.isZerocoinSpend &&
      params.nPublicZCSpends - 1 ≤ nPreviousBlockHeight then
    nBlockFromTime ≤ nTxTime && nBlockFromTime + nStakeMinAge ≤ nTxTime
  else true

/-- The kernel of a stake that was found. -/
def checkKernel (block : StakeBlock) (txin : CTxIn)
    (nPreviousBlockHeight : Int) (stake : StakeInfo) : Option Uint256 :=
  match node.readBlockFromDisk stake.pindexFrom with
  | none => none
  | some blockFrom =>
      match stake.nStakeModifier with
      | none => none
      | some nStakeModifier =>
          if !checkAge params txin nPreviousBlockHeight blockFrom.nTime
              block.nTime then none
          else
            let hashProofOfStake := oracle.kernelHash nStakeModifier
              blockFrom.nTime stake.uniqueness block.nTime
            if stakeTargetHit hashProofOfStake stake.nValue
                (setCompact block.nBits) then some hashProofOfStake
            else none

/-- The proof-of-stake hash of the block; `none` if the check fails. -/
def checkProofOfStake (block : StakeBlock) (nPreviousBlockHeight : Int) :
    Option Uint256 :=
  match block.vtx[1]? with
  | none => none
  | some tx =>
      if !tx.isCoinStake then none
      else
        match tx.vin.head? with
        | none => none
        | some txin =>
            let stake :=
              if txin.isZerocoinSpend then
                zerocoinStake params oracle node txin nPreviousBlockHeight
              else coinStake params oracle node tx txin
            stake.bind
              (checkKernel params oracle node block txin nPreviousBlockHeight)

end Check

/-! ## Two nodes -/

/-- The kernel of a block. -/
def kernelInput (block : StakeBlock) : Option CTxIn :=
  block.vtx[1]?.bind fun tx => tx.vin.head?

/-- The active chains begin alike, up to a block that decides the stake
modifier of a coin in the block of that hash. -/
def Settled (params : StakeParams) (node₁ node₂ : Node)
    (hashBlock : Uint256) : Prop :=
  ∃ common pindexFrom nStakeModifier,
    common <+: node₁.chainActive ∧ common <+: node₂.chainActive ∧
      chainAt common pindexFrom.nHeight = some pindexFrom ∧
      pindexFrom.hash = hashBlock ∧
      kernelModifierFrom params common pindexFrom = some nStakeModifier

/-- What the check reads is the same on both nodes: they find the same
transaction for the kernel and read the same blocks, and their active chains
are the same, or a coin is staked and its modifier is settled. -/
structure SameView (params : StakeParams) (node₁ node₂ : Node)
    (block : StakeBlock) : Prop where
  lookup : ∀ txin, kernelInput block = some txin →
    txin.isZerocoinSpend = false →
      node₁.getTransaction txin.prevout.hash =
        node₂.getTransaction txin.prevout.hash
  disk : ∀ pindex ∈ node₁.chainActive, pindex ∈ node₂.chainActive →
    node₁.readBlockFromDisk pindex = node₂.readBlockFromDisk pindex
  chain : node₁.chainActive = node₂.chainActive ∨
    ∃ txin tx hashBlock, kernelInput block = some txin ∧
      txin.isZerocoinSpend = false ∧
      node₁.getTransaction txin.prevout.hash = some (tx, hashBlock) ∧
      Settled params node₁ node₂ hashBlock

section Agree

variable {params : StakeParams} {oracle : Oracle} {node₁ node₂ : Node}
variable {block : StakeBlock}

theorem checkKernel_agree {txin : CTxIn} {nPreviousBlockHeight : Int}
    {stake : StakeInfo}
    (hdisk : node₁.readBlockFromDisk stake.pindexFrom =
      node₂.readBlockFromDisk stake.pindexFrom) :
    checkKernel params oracle node₁ block txin nPreviousBlockHeight stake =
      checkKernel params oracle node₂ block txin nPreviousBlockHeight
        stake := by
  unfold checkKernel
  rw [hdisk]

theorem getKernelStakeModifier_eq {node : Node} {pindexFrom : CBlockIndex}
    (h : chainAt node.chainActive pindexFrom.nHeight = some pindexFrom) :
    getKernelStakeModifier params node.mapBlockIndex node.chainActive
        pindexFrom.hash =
      kernelModifierFrom params node.chainActive pindexFrom := by
  unfold getKernelStakeModifier
  rw [node.indexed _ _ h]

/-- Both nodes find the same block for a coin, in both active chains. -/
theorem getIndexFrom_agree (hview : SameView params node₁ node₂ block)
    {txin : CTxIn} (hkernel : kernelInput block = some txin)
    (hcoin : txin.isZerocoinSpend = false) {txPrev : CTransaction}
    {hashBlock : Uint256}
    (hlookup : node₁.getTransaction txin.prevout.hash =
      some (txPrev, hashBlock)) :
    node₁.getIndexFrom txPrev = node₂.getIndexFrom txPrev := by
  have hhash := Node.getTransaction_hash hlookup
  have hlookup₂ := hview.lookup txin hkernel hcoin
  rw [hlookup] at hlookup₂
  rcases hview.chain with hchain | ⟨txin', tx, hashBlock', hkernel', _,
    hlookup', common, pindexFrom, nStakeModifier, hpre₁, hpre₂, hat, hfrom, _⟩
  · apply Option.ext
    intro pindexFrom
    rw [Node.getIndexFrom_eq_some, Node.getIndexFrom_eq_some, hhash, hlookup,
      ← hlookup₂, hchain]
  · rw [hkernel] at hkernel'
    cases hkernel'
    rw [hlookup] at hlookup'
    cases hlookup'
    rcases hpre₁ with ⟨more₁, hmore₁⟩
    rcases hpre₂ with ⟨more₂, hmore₂⟩
    have hfound₁ : node₁.getIndexFrom txPrev = some pindexFrom := by
      rw [Node.getIndexFrom_eq_some, hhash, hlookup, hfrom, ← hmore₁]
      exact ⟨_, rfl, chainAt_append hat⟩
    have hfound₂ : node₂.getIndexFrom txPrev = some pindexFrom := by
      rw [Node.getIndexFrom_eq_some, hhash, ← hlookup₂, hfrom, ← hmore₂]
      exact ⟨_, rfl, chainAt_append hat⟩
    rw [hfound₁, hfound₂]

/-- Both nodes find the same modifier for a coin. -/
theorem kernelModifier_agree (hview : SameView params node₁ node₂ block)
    {txin : CTxIn} (hkernel : kernelInput block = some txin)
    {txPrev : CTransaction} {pindexFrom : CBlockIndex}
    (hlookup : node₁.getTransaction txin.prevout.hash =
      some (txPrev, pindexFrom.hash))
    (hat₁ : chainAt node₁.chainActive pindexFrom.nHeight = some pindexFrom)
    (hat₂ : chainAt node₂.chainActive pindexFrom.nHeight = some pindexFrom) :
    getKernelStakeModifier params node₁.mapBlockIndex node₁.chainActive
        pindexFrom.hash =
      getKernelStakeModifier params node₂.mapBlockIndex node₂.chainActive
        pindexFrom.hash := by
  rw [getKernelStakeModifier_eq hat₁, getKernelStakeModifier_eq hat₂]
  rcases hview.chain with hchain | ⟨txin', tx, hashBlock, hkernel', _,
    hlookup', common, pindex, nStakeModifier, hpre₁, hpre₂, hat, hfrom,
    hmodifier⟩
  · rw [hchain]
  · rw [hkernel] at hkernel'
    cases hkernel'
    rw [hlookup] at hlookup'
    cases hlookup'
    rcases hpre₁ with ⟨more₁, hmore₁⟩
    rcases hpre₂ with ⟨more₂, hmore₂⟩
    -- one entry for each hash
    have hsame : pindex = pindexFrom := by
      have hactive : chainAt node₁.chainActive pindex.nHeight =
          some pindex := by
        rw [← hmore₁]
        exact chainAt_append hat
      have hindex := node₁.indexed _ _ hactive
      rw [hfrom, node₁.indexed _ _ hat₁] at hindex
      exact (Option.some_inj.mp hindex).symm
    subst hsame
    rw [← hmore₁, ← hmore₂, kernelModifierFrom_append hmodifier,
      kernelModifierFrom_append hmodifier]

/-- **The verdict** on a proof-of-stake block is the same on two nodes for
which all that it reads of them is the same. -/
theorem checkProofOfStake_agree (hview : SameView params node₁ node₂ block)
    (nPreviousBlockHeight : Int) :
    checkProofOfStake params oracle node₁ block nPreviousBlockHeight =
      checkProofOfStake params oracle node₂ block nPreviousBlockHeight := by
  unfold checkProofOfStake
  cases htx : block.vtx[1]? with
  | none => rfl
  | some tx =>
      simp only
      split
      · rfl
      cases htxin : tx.vin.head? with
      | none => rfl
      | some txin =>
          have hkernel : kernelInput block = some txin := by
            unfold kernelInput
            rw [htx, Option.bind_some, htxin]
          simp only
          cases hzerocoin : txin.isZerocoinSpend with
          | true =>
              have hchain : node₁.chainActive = node₂.chainActive := by
                rcases hview.chain with hchain | ⟨txin', _, _, hkernel',
                  hcoin, _⟩
                · exact hchain
                · rw [hkernel] at hkernel'
                  cases hkernel'
                  rw [hzerocoin] at hcoin
                  cases hcoin
              simp only [if_true]
              unfold zerocoinStake
              rw [hchain]
              simp only
              split
              · rfl
              split
              · rfl
              cases hfrom : (oracle.coinSpendOf txin).getIndexFrom params
                  node₂.chainActive with
              | none => rfl
              | some pindexFrom =>
                  simp only [Option.map_some, Option.bind_some]
                  apply checkKernel_agree
                  have hmem : pindexFrom ∈ node₂.chainActive := by
                    unfold CoinSpend.getIndexFrom at hfrom
                    simp only at hfrom
                    split at hfrom
                    · cases hfrom
                    · exact mem_of_chainAt hfrom
                  apply hview.disk
                  · rw [hchain]
                    exact hmem
                  · exact hmem
          | false =>
              simp only [Bool.false_eq_true, if_false]
              unfold coinStake
              have hlookups := hview.lookup txin hkernel hzerocoin
              cases hlookup : node₁.getTransaction txin.prevout.hash with
              | none =>
                  rw [hlookup] at hlookups
                  rw [← hlookups]
                  rfl
              | some found =>
                  rw [hlookup] at hlookups
                  rw [← hlookups]
                  simp only
                  cases hout : found.1.vout[txin.prevout.n]? with
                  | none => rfl
                  | some out =>
                      simp only
                      split
                      · rfl
                      have hindex := getIndexFrom_agree hview hkernel
                        hzerocoin hlookup
                      cases hfrom : node₁.getIndexFrom found.1 with
                      | none =>
                          rw [hfrom] at hindex
                          rw [← hindex]
                          rfl
                      | some pindexFrom =>
                          rw [hfrom] at hindex
                          rw [← hindex]
                          have hhash := Node.getTransaction_hash hlookup
                          have hfrom₁ := Node.getIndexFrom_eq_some.mp hfrom
                          have hfrom₂ :=
                            Node.getIndexFrom_eq_some.mp hindex.symm
                          rcases hfrom₁ with ⟨tx₁, hfound₁, hat₁⟩
                          rcases hfrom₂ with ⟨_, _, hat₂⟩
                          rw [hhash] at hfound₁
                          simp only [Option.map_some, Option.bind_some]
                          rw [kernelModifier_agree hview hkernel hfound₁ hat₁
                            hat₂]
                          apply checkKernel_agree
                          exact hview.disk pindexFrom (mem_of_chainAt hat₁)
                            (mem_of_chainAt hat₂)

end Agree

/-! ### A stake on a fork

The blocks at heights 0 and 1 are common; at height 2 the chain splits.  The
staked output is in the block at height 2 of the one branch, and the staking
block is at height 4 of that branch. -/

def stakedTx : CTransaction :=
  { hash := 7
    vin := [{ prevout := ⟨6, 0⟩ }]
    vout := [{ nValue := 100 * COIN, scriptPubKey := [CScript.OP_CHECKSIG] }] }

def entryAt (hash : Uint256) (nHeight : Int) (nMinutes : Nat) : CBlockIndex :=
  { hash
    nHeight
    nTime := UInt32.ofNat (1700000000 + 60 * nMinutes)
    fProofOfStake := false
    nStakeModifier := if nHeight < 3 then 0 else 0x55d0c0de1000
    fGeneratedStakeModifier := nHeight = 3 }

def commonEntries : List CBlockIndex := [entryAt 100 0 0, entryAt 101 1 1]

def stakedBranch : List CBlockIndex := [entryAt 102 2 2, entryAt 103 3 90]

def otherBranch : List CBlockIndex := [entryAt 202 2 2, entryAt 203 3 90]

/-- What every node below has in its index and on its disk. -/
def allEntries : List CBlockIndex :=
  commonEntries ++ stakedBranch ++ otherBranch ++ [entryAt 104 4 150]

def blockOf (pindex : CBlockIndex) : StakeBlock where
  hash := pindex.hash
  hashPrevBlock := 0
  hashMerkleRoot := 0
  vtx := if pindex.hash = 102 then [stakedTx] else []
  nTime := pindex.nTime

/-- A node by its active chain; only the one branch has the staked output. -/
def nodeOn (chainActive : List CBlockIndex)
    (hactive : ∀ pindex ∈ chainActive,
      allEntries.find? (fun p => p.hash = pindex.hash) = some pindex) :
    Node where
  mapBlockIndex hash := allEntries.find? fun p => p.hash = hash
  chainActive
  keyed _ _ h := by simpa using List.find?_some h
  indexed _ _ h := hactive _ (mem_of_chainAt h)
  mempool_keyed _ _ h := by cases h
  coinsHeight hash :=
    if hash = 7 ∧ entryAt 102 2 2 ∈ chainActive then some 2 else none
  readBlockFromDisk pindex := some (blockOf pindex)

theorem staked_indexed : ∀ pindex ∈ commonEntries ++ stakedBranch,
    allEntries.find? (fun p => p.hash = pindex.hash) = some pindex := by
  decide

theorem longer_indexed : ∀ pindex ∈ commonEntries ++ stakedBranch ++
    [entryAt 104 4 150],
    allEntries.find? (fun p => p.hash = pindex.hash) = some pindex := by
  decide

theorem other_indexed : ∀ pindex ∈ commonEntries ++ otherBranch,
    allEntries.find? (fun p => p.hash = pindex.hash) = some pindex := by
  decide

def easyOracle : Oracle where
  verifyScript _ _ _ := true
  coinSpendOf _ := ⟨true, 0, .ZQ_ONE, 0⟩
  kernelHash nStakeModifier _ _ _ := BitVec.ofNat 256 nStakeModifier.toNat

/-- The block at height 4, four hours after the staked output. -/
def stakingBlock : StakeBlock where
  hash := 300
  hashPrevBlock := 103
  hashMerkleRoot := 0
  vtx :=
    [coinbaseTx 301 0,
      { hash := 302
        vin := [{ prevout := ⟨7, 0⟩ }]
        vout := [{ nValue := 0, scriptPubKey := [] },
          { nValue := 110 * COIN, scriptPubKey := [CScript.OP_CHECKSIG] }] }]
  nTime := UInt32.ofNat (1700000000 + 60 * 240)
  nBits := 0x1d00ffff

/-- **A node accepts the stake** while it is on the branch of the block's
parent, and rejects it while it is on the other branch, with the same blocks
in its index and on its disk. -/
theorem verdicts_differ :
    (nodeOn (commonEntries ++ stakedBranch) staked_indexed).mapBlockIndex =
        (nodeOn (commonEntries ++ otherBranch) other_indexed).mapBlockIndex ∧
      (nodeOn (commonEntries ++ stakedBranch)
          staked_indexed).readBlockFromDisk =
        (nodeOn (commonEntries ++ otherBranch)
          other_indexed).readBlockFromDisk ∧
      (checkProofOfStake mainStakeParams easyOracle
        (nodeOn (commonEntries ++ stakedBranch) staked_indexed) stakingBlock
        3).isSome = true ∧
      checkProofOfStake mainStakeParams easyOracle
        (nodeOn (commonEntries ++ otherBranch) other_indexed) stakingBlock
        3 = none :=
  ⟨rfl, rfl, by decide, by decide⟩

/-- A block above the one that decides the modifier changes nothing. -/
theorem checkProofOfStake_agree_longer :
    checkProofOfStake mainStakeParams easyOracle
        (nodeOn (commonEntries ++ stakedBranch) staked_indexed) stakingBlock
        3 =
      checkProofOfStake mainStakeParams easyOracle
        (nodeOn (commonEntries ++ stakedBranch ++ [entryAt 104 4 150])
          longer_indexed) stakingBlock 3 := by
  apply checkProofOfStake_agree
  constructor
  · intro txin hkernel _
    cases hkernel
    decide
  · intro pindex _ _
    rfl
  · right
    refine ⟨_, stakedTx, 102, rfl, by decide, by decide,
      commonEntries ++ stakedBranch, entryAt 102 2 2, 0x55d0c0de1000, ?_, ?_,
      by decide, rfl, by decide⟩
    · exact List.prefix_rfl
    · exact List.prefix_append _ _

end Agrarian.Stake
