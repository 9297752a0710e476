import Agrarian.Stake.Kernel
import Agrarian.Coins.Unspent
import Agrarian.Lib.Checks
import Agrarian.Zerocoin.SpendDB

/-!
# Accepting a proof-of-stake block

`AcceptBlock` with all that it checks of a stake: on top of the tip, on top of
another block of the active chain, and on a fork, where it walks back to the
split.  What is stored and in which order is in the block index; here the
outcome is whether the block is written to disk.

The entries between a block and the genesis block come nearest first.  The
checks of other functions are parameters that only give a verdict.
-/

namespace Agrarian.Stake

open Agrarian.Lib Agrarian.Coins Agrarian.Validation Agrarian.Zerocoin

/-- `MaxReorganizationDepth`, on every network. -/
def nMaxReorganizationDepth : Nat := 100

/-- `state.DoS(nDoS, error(text))`; the level is 0 for an error alone. -/
structure Reject where
  nDoS : Nat
  text : String
  deriving DecidableEq, Repr

/-- The called function has reported the error. -/
def Reject.reported : Reject := ⟨0, ""⟩

/-! ## The state -/

/-- A node with the parts of its index that are not active, its blocks and its
coins. -/
structure BlockTree extends Node where
  hashGenesisBlock : Uint256
  /-- The entries that `pprev` leads to, nearest first. -/
  ancestors : CBlockIndex → List CBlockIndex
  /-- The block of an entry, whether or not it can be read. -/
  blockOf : CBlockIndex → StakeBlock
  /-- `nStatus & BLOCK_FAILED_MASK`. -/
  failed : CBlockIndex → Bool := fun _ => false
  pcoinsTip : Uint256 → Option CCoins
  /-- `zerocoinDB->ReadCoinSpend`. -/
  readCoinSpend : Uint256 → Option Uint256 := fun _ => none
  heights : ∀ (nHeight : Nat) pindex, chainActive[nHeight]? = some pindex →
    pindex.nHeight = nHeight
  linked : ∀ (nHeight : Nat) pindex, chainActive[nHeight]? = some pindex →
    ancestors pindex = (chainActive.take nHeight).reverse
  /-- `ReadBlockFromDisk` compares the hash. -/
  disk : ∀ pindex block, readBlockFromDisk pindex = some block →
    block = blockOf pindex
  height_coins : ∀ hash, coinsHeight hash =
    (pcoinsTip hash).map fun coins => coins.nHeight.toInt
  unspent_coins : ∀ out : COutPoint,
    ((pcoinsTip out.hash).any fun coins => coins.isAvailable out.n) =
      unspentIn (chainActive.reverse.flatMap fun pindex =>
        (blockOf pindex).vtx.reverse) out

/-- The other checks of `AcceptBlock`, and what parses a public spend. -/
structure BlockChecks where
  /-- A failed parent is in the checkpoints and is reconsidered. -/
  reconsiderBlock : CBlockIndex → Bool := fun _ => false
  checkWork : StakeBlock → CBlockIndex → Bool := fun _ _ => true
  acceptBlockHeader : StakeBlock → Bool := fun _ => true
  /-- `nStatus & BLOCK_HAVE_DATA`. -/
  haveData : StakeBlock → Bool := fun _ => false
  checkBlock : StakeBlock → Bool := fun _ => true
  contextualCheckBlock : StakeBlock → Bool := fun _ => true
  parseZerocoinPublicSpend : CTransaction → CTxIn → Option Uint256 :=
    fun _ _ => none
  contextualCheckZerocoinSpendNoSerialCheck : CTransaction → CTxIn → Int →
    Bool := fun _ _ _ => true
  /-- `ReadAccumulatorValue` of the spend's checksum. -/
  hasAccumulatorValue : CTxIn → Bool := fun _ => true
  verify : CTxIn → Int → Bool := fun _ _ => true
  writeBlock : StakeBlock → Bool := fun _ => true

namespace BlockTree

variable (tree : BlockTree)

def tip : Option CBlockIndex := tree.chainActive.getLast?

/-- The block and those before it. -/
def path (pindex : CBlockIndex) : List CBlockIndex :=
  pindex :: tree.ancestors pindex

def isActive (pindex : CBlockIndex) : Bool :=
  chainContains tree.chainActive pindex

/-- The blocks above the split, newest first. -/
def fork (pindex : CBlockIndex) : List CBlockIndex :=
  (tree.path pindex).takeWhile fun p => !tree.isActive p

/-- The blocks from the split down. -/
def common (pindex : CBlockIndex) : List CBlockIndex :=
  (tree.path pindex).dropWhile fun p => !tree.isActive p

/-- The transactions of the blocks, newest first. -/
def txsOf (entries : List CBlockIndex) : List CTransaction :=
  entries.flatMap fun pindex => (tree.blockOf pindex).vtx.reverse

/-- `IsSerialInBlockchain`, with the height of the spend. -/
def isSerialInBlockchain (nSerial : Uint256) : Option Int :=
  match tree.readCoinSpend nSerial with
  | none => none
  | some txHash =>
      match tree.getTransaction txHash with
      | none => none
      | some (_, hashBlock) =>
          if hashBlock = 0 then none
          else ((tree.mapBlockIndex hashBlock).filter
            (chainContains tree.chainActive)).map fun pindex => pindex.nHeight

end BlockTree

def checkPublicCoinSpendEnforced (params : StakeParams) (blockHeight : Int)
    (isPublicSpend : Bool) : Bool :=
  if params.nPublicZCSpends ≤ blockHeight then isPublicSpend
  else !isPublicSpend

/-- The inputs of a stake that are zerocoins. -/
def zAGRInputs (stakeTxIn : CTransaction) : List CTxIn :=
  stakeTxIn.vin.filter fun txin => txin.isZerocoinSpend

/-- The other inputs of a stake, public spends among them. -/
def agrInputs (stakeTxIn : CTransaction) : List CTxIn :=
  stakeTxIn.vin.filter fun txin => !txin.isZerocoinSpend

/-! ## `AcceptBlock` -/

section Accept

variable (params : StakeParams) (oracle : Oracle) (checks : BlockChecks)
variable (tree : BlockTree)

/-- The serial of a zerocoin input, if it can be parsed. -/
def serialOf (tx : CTransaction) (txin : CTxIn) : Option Uint256 :=
  if txin.isZerocoinPublicSpend then checks.parseZerocoinPublicSpend tx txin
  else some (oracle.coinSpendOf txin).nSerial

/-- The serial of an input of the block is new in it. -/
def addSerial (nHeight : Int) (inBlockSerials : List Uint256)
    (tx : CTransaction) (txin : CTxIn) : Except Reject (List Uint256) :=
  if params.nZerocoinStartHeight ≤ nHeight ∧ isZerocoin txin then
    if !checkPublicCoinSpendEnforced params nHeight
        txin.isZerocoinPublicSpend then .error Reject.reported
    else
      match serialOf oracle checks tx txin with
      | none => .error Reject.reported
      | some nSerial =>
          if inBlockSerials.contains nSerial then
            .error ⟨100, "serial double spent on the same block"⟩
          else .ok (inBlockSerials ++ [nSerial])
  else .ok inBlockSerials

/-- One step of the loop over the inputs of the block. -/
def checkOwnInput (nHeight : Int) (agrInputs : List CTxIn)
    (inBlockSerials : List Uint256) (p : CTransaction × CTxIn) :
    Except Reject (List Uint256) := do
  let inBlockSerials ←
    addSerial params oracle checks nHeight inBlockSerials p.1 p.2
  require (p.1.isCoinStake ||
    agrInputs.all fun agrIn => agrIn.prevout ≠ p.2.prevout)
    ⟨0, "double spent coinstake input inside block"⟩
  pure inBlockSerials

def checkOwnInputs (nHeight : Int) (agrInputs : List CTxIn)
    (block : StakeBlock) : Except Reject (List Uint256) :=
  (block.vtx.flatMap fun tx => tx.vin.map fun txin => (tx, txin)).foldlM
    (checkOwnInput params oracle checks nHeight agrInputs) []

/-- One input of a block on the fork, against the inputs that are staked. -/
def scanInput (vBlockSerials : List Uint256) (txin : CTxIn) :
    List CTxIn → Except Reject (List Uint256)
  | [] => .ok vBlockSerials
  | stakeIn :: agrInputs =>
      -- first regular staking check
      if stakeIn.prevout = txin.prevout then
        .error ⟨100, "input already spent on a previous block"⟩
      else
        -- if there is zPoS staking then store the serials for later check
        scanInput
          (if txin.isZerocoinSpend then
            vBlockSerials ++ [(oracle.coinSpendOf txin).nSerial]
          else vBlockSerials) txin agrInputs

/-- Backwards on the forked chain up to the split; the split block and the
serials that were stored. -/
def walkFork (agrInputs : List CTxIn) : List CBlockIndex → Nat →
    List Uint256 → Except Reject (CBlockIndex × List Uint256)
  | [], _, _ => .error Reject.reported
  | prev :: rest, readBlock, vBlockSerials =>
      match tree.readBlockFromDisk prev with
      | none => .error ⟨0, "previous block not on disk"⟩
      | some bl =>
          if tree.isActive prev then .ok (prev, vBlockSerials)
          else if readBlock + 1 = nMaxReorganizationDepth then
            .error ⟨0, "forked chain longer than maximum reorg limit"⟩
          else do
            let vBlockSerials ← (bl.vtx.flatMap fun t => t.vin).foldlM
              (fun serials txin => scanInput oracle serials txin agrInputs)
              vBlockSerials
            walkFork agrInputs rest (readBlock + 1) vBlockSerials

/-- A zerocoin that is staked on a fork. -/
def checkForkSpend (stakeTxIn : CTransaction) (nHeight splitHeight : Int)
    (vBlockSerials : List Uint256) (txin : CTxIn) : Except Reject Unit := do
  let nSerial := (oracle.coinSpendOf txin).nSerial
  -- first check if the serials were not already spent on the forked blocks
  require (!vBlockSerials.contains nSerial)
    ⟨100, "serial double spent on fork"⟩
  -- now check if the serial exists before the chain split
  require (!(tree.isSerialInBlockchain nSerial).any fun nHeightTx =>
    nHeightTx ≤ splitHeight) ⟨100, "serial double spent on main chain"⟩
  require (checks.contextualCheckZerocoinSpendNoSerialCheck stakeTxIn txin
    nHeight) ⟨100, "forked chain ContextualCheckZerocoinSpend failed for tx"⟩
  require (checks.hasAccumulatorValue txin)
    ⟨100, "stake zerocoinspend not ready to be spent"⟩
  require (checks.verify txin nHeight) ⟨100, "zerocoin spend did not verify"⟩

/-- An input of a stake without zerocoins, against the coins of the tip. -/
def checkCoin (isBlockFromFork : Bool) (txin : CTxIn) : Except Reject Unit :=
  match tree.pcoinsTip txin.prevout.hash with
  | none => require isBlockFromFork
      ⟨0, "coin stake inputs not available on main chain"⟩
  | some coin => require (coin.isAvailable txin.prevout.n || isBlockFromFork)
      ⟨0, "coin stake inputs already spent in main chain"⟩

/-- `ContextualCheckZerocoinSpend` of a zerocoin that is staked on the tip. -/
def checkTipSpend (stakeTxIn : CTransaction) (nHeight : Int) (txin : CTxIn) :
    Except Reject Unit :=
  require (checks.contextualCheckZerocoinSpendNoSerialCheck stakeTxIn txin
      nHeight &&
    (tree.isSerialInBlockchain (oracle.coinSpendOf txin).nSerial).isNone)
    ⟨100, "main chain ContextualCheckZerocoinSpend failed for tx"⟩

/-- The inputs of the stake, against the blocks of a fork. -/
def checkFork (pindexPrev : CBlockIndex) (stakeTxIn : CTransaction)
    (isBlockFromFork : Bool) : Except Reject Unit :=
  if !isBlockFromFork then .ok ()
  else do
    let split ← walkFork oracle tree (agrInputs stakeTxIn)
      (tree.path pindexPrev) 0 []
    forM (zAGRInputs stakeTxIn)
      (checkForkSpend oracle checks tree stakeTxIn (pindexPrev.nHeight + 1)
        split.1.nHeight split.2)

/-- The inputs of the stake, against the main chain. -/
def checkMainChain (pindexPrev : CBlockIndex) (stakeTxIn : CTransaction)
    (isBlockFromFork : Bool) : Except Reject Unit :=
  if !stakeTxIn.hasZerocoinSpendInputs then
    forM stakeTxIn.vin (checkCoin tree isBlockFromFork)
  else if !isBlockFromFork then
    forM (zAGRInputs stakeTxIn)
      (checkTipSpend oracle checks tree stakeTxIn (pindexPrev.nHeight + 1))
  else .ok ()

/-- The checks of the stake's inputs. -/
def checkStake (pindexPrev : CBlockIndex) (stakeTxIn : CTransaction)
    (block : StakeBlock) : Except Reject Unit := do
  let isBlockFromFork : Bool := tree.tip ≠ some pindexPrev
  let _ ← checkOwnInputs params oracle checks (pindexPrev.nHeight + 1)
    (agrInputs stakeTxIn) block
  checkFork oracle checks tree pindexPrev stakeTxIn isBlockFromFork
  checkMainChain oracle checks tree pindexPrev stakeTxIn isBlockFromFork

/-- `AcceptBlock` from the header on; whether the block is written. -/
def acceptData (fAlreadyCheckedBlock : Bool) (block : StakeBlock)
    (stake : Except Reject Unit) : Except Reject Bool :=
  if !checks.acceptBlockHeader block then .error Reject.reported
  else if checks.haveData block then .ok false
  else if !((fAlreadyCheckedBlock || checks.checkBlock block) &&
      checks.contextualCheckBlock block) then .error Reject.reported
  else do
    stake
    require (checks.writeBlock block) Reject.reported
    pure true

/-- Whether the block is written to disk, or why it is rejected. -/
def acceptBlock (fAlreadyCheckedBlock : Bool) (block : StakeBlock) :
    Except Reject Bool :=
  if block.hash = tree.hashGenesisBlock then
    if isProofOfStake block.toCBlock then .error Reject.reported
    else acceptData checks fAlreadyCheckedBlock block (.ok ())
  else
    match tree.mapBlockIndex block.hashPrevBlock with
    | none => .error ⟨0, "prev block not found"⟩
    | some pindexPrev =>
        if tree.failed pindexPrev then
          if checks.reconsiderBlock pindexPrev then .ok false
          else .error ⟨100, "prev block is invalid, unable to add block"⟩
        else if !checks.checkWork block pindexPrev then .error Reject.reported
        else if !isProofOfStake block.toCBlock then
          acceptData checks fAlreadyCheckedBlock block (.ok ())
        else if (checkProofOfStake params oracle tree.toNode block
            pindexPrev.nHeight).isNone then
          .error ⟨100, "proof of stake check failed"⟩
        else
          acceptData checks fAlreadyCheckedBlock block
            (match block.vtx[1]? with
            | none => .error Reject.reported
            | some stakeTxIn => checkStake params oracle checks tree
                pindexPrev stakeTxIn block)

end Accept

/-! ## The loop over a fork -/

section Walk

variable (oracle : Oracle) (tree : BlockTree)

/-- An input of the blocks names the output. -/
def BlockTree.SpentOn (entries : List CBlockIndex) (out : COutPoint) : Prop :=
  ∃ pindex ∈ entries, ∃ tx ∈ (tree.blockOf pindex).vtx, ∃ txin ∈ tx.vin,
    txin.prevout = out

/-- What the loop stores of one input: its serial, once for each input that is
staked and is no zerocoin. -/
def storedSerials (agrInputs : List CTxIn) (txin : CTxIn) : List Uint256 :=
  if txin.isZerocoinSpend then
    List.replicate agrInputs.length (oracle.coinSpendOf txin).nSerial
  else []

def forkSerials (agrInputs : List CTxIn) (entries : List CBlockIndex) :
    List Uint256 :=
  entries.flatMap fun pindex =>
    ((tree.blockOf pindex).vtx.flatMap fun t => t.vin).flatMap
      (storedSerials oracle agrInputs)

/-- Every block that the loop reads is on disk. -/
structure Walkable (fork : List CBlockIndex) (split : CBlockIndex) : Prop where
  disk : ∀ pindex ∈ fork, (tree.readBlockFromDisk pindex).isSome = true
  splitDisk : (tree.readBlockFromDisk split).isSome = true

variable {oracle tree}

theorem scanInput_eq_ok {agrInputs : List CTxIn} {txin : CTxIn}
    {serials serials' : List Uint256} :
    scanInput oracle serials txin agrInputs = .ok serials' ↔
      (∀ stakeIn ∈ agrInputs, stakeIn.prevout ≠ txin.prevout) ∧
        serials' = serials ++ storedSerials oracle agrInputs txin := by
  induction agrInputs generalizing serials with
  | nil =>
      unfold scanInput storedSerials
      simp only [Except.ok.injEq, List.length_nil, List.replicate_zero,
        ite_self, List.append_nil]
      simp [eq_comm]
  | cons stakeIn agrInputs ih =>
      unfold scanInput
      by_cases hspent : stakeIn.prevout = txin.prevout
      · simp [hspent]
      · rw [if_neg hspent, ih]
        simp only [List.mem_cons, forall_eq_or_imp, ne_eq, hspent,
          not_false_eq_true, true_and, storedSerials]
        by_cases hzerocoin : txin.isZerocoinSpend = true
        · simp [hzerocoin, List.replicate_succ]
        · simp [hzerocoin]

theorem scanBlock_eq_ok {agrInputs vin : List CTxIn}
    {serials serials' : List Uint256} :
    vin.foldlM (fun serials txin => scanInput oracle serials txin agrInputs)
        serials = .ok serials' ↔
      (∀ txin ∈ vin, ∀ stakeIn ∈ agrInputs,
        stakeIn.prevout ≠ txin.prevout) ∧
        serials' = serials ++
          vin.flatMap (storedSerials oracle agrInputs) := by
  have hstep : ∀ (serials : List Uint256) (txin : CTxIn)
      (serials' : List Uint256),
      scanInput oracle serials txin agrInputs = .ok serials' ↔
        (∀ stakeIn ∈ agrInputs, stakeIn.prevout ≠ txin.prevout) ∧
          serials' = serials ++ storedSerials oracle agrInputs txin :=
    fun _ _ _ => scanInput_eq_ok
  exact foldlM_eq_ok hstep

/-- The serials that are stored, if there is an input to store them for. -/
theorem mem_forkSerials {agrInputs : List CTxIn} {entries : List CBlockIndex}
    {nSerial : Uint256} :
    nSerial ∈ forkSerials oracle tree agrInputs entries ↔
      agrInputs ≠ [] ∧ ∃ pindex ∈ entries, ∃ tx ∈ (tree.blockOf pindex).vtx,
        ∃ txin ∈ tx.vin, txin.isZerocoinSpend = true ∧
          (oracle.coinSpendOf txin).nSerial = nSerial := by
  have hstored : ∀ txin : CTxIn,
      nSerial ∈ storedSerials oracle agrInputs txin ↔ agrInputs ≠ [] ∧
        txin.isZerocoinSpend = true ∧
          (oracle.coinSpendOf txin).nSerial = nSerial := by
    intro txin
    unfold storedSerials
    split
    · rename_i hzerocoin
      simp [List.mem_replicate, hzerocoin, eq_comm]
    · rename_i hzerocoin
      simp [hzerocoin]
  simp only [forkSerials, List.mem_flatMap, hstored]
  constructor
  · rintro ⟨pindex, hpindex, txin, ⟨tx, htx, htxin⟩, hagr, hserial⟩
    exact ⟨hagr, pindex, hpindex, tx, htx, txin, htxin, hserial⟩
  · rintro ⟨hagr, pindex, hpindex, tx, htx, txin, htxin, hserial⟩
    exact ⟨pindex, hpindex, txin, ⟨tx, htx, htxin⟩, hagr, hserial⟩

theorem spentOn_cons {p : CBlockIndex} {entries : List CBlockIndex}
    {out : COutPoint} :
    tree.SpentOn (p :: entries) out ↔
      (∃ txin ∈ (tree.blockOf p).vtx.flatMap fun t => t.vin,
        txin.prevout = out) ∨ tree.SpentOn entries out := by
  constructor
  · rintro ⟨pindex, hpindex, tx, htx, txin, htxin, hprevout⟩
    rcases List.mem_cons.mp hpindex with rfl | hpindex
    · exact Or.inl ⟨txin, List.mem_flatMap.mpr ⟨tx, htx, htxin⟩, hprevout⟩
    · exact Or.inr ⟨pindex, hpindex, tx, htx, txin, htxin, hprevout⟩
  · rintro (⟨txin, htxin, hprevout⟩ | ⟨pindex, hpindex, hrest⟩)
    · obtain ⟨tx, htx, htxin⟩ := List.mem_flatMap.mp htxin
      exact ⟨p, List.mem_cons_self, tx, htx, txin, htxin, hprevout⟩
    · exact ⟨pindex, List.mem_cons_of_mem _ hpindex, hrest⟩

theorem walkable_cons {p split : CBlockIndex} {fork : List CBlockIndex} :
    Walkable tree (p :: fork) split ↔
      (tree.readBlockFromDisk p).isSome = true ∧ Walkable tree fork split := by
  constructor
  · rintro ⟨hdisk, hsplit⟩
    exact ⟨hdisk p List.mem_cons_self,
      fun q hq => hdisk q (List.mem_cons_of_mem _ hq), hsplit⟩
  · rintro ⟨hp, hdisk, hsplit⟩
    refine ⟨fun q hq => ?_, hsplit⟩
    rcases List.mem_cons.mp hq with rfl | hq
    · exact hp
    · exact hdisk q hq

/-- **The walk over a fork**: it ends at the split, with the serials stored on
the way, unless a block is missing, the fork is too long or it has spent what
is staked. -/
theorem walkFork_eq_ok {agrInputs : List CTxIn} {path : List CBlockIndex}
    {readBlock : Nat} {serials serials' : List Uint256} {prev : CBlockIndex}
    (hread : readBlock < nMaxReorganizationDepth) :
    walkFork oracle tree agrInputs path readBlock serials =
        .ok (prev, serials') ↔
      (path.dropWhile fun p => !tree.isActive p).head? = some prev ∧
        Walkable tree (path.takeWhile fun p => !tree.isActive p) prev ∧
        readBlock + (path.takeWhile fun p => !tree.isActive p).length <
          nMaxReorganizationDepth ∧
        (∀ stakeIn ∈ agrInputs, ¬ tree.SpentOn
          (path.takeWhile fun p => !tree.isActive p) stakeIn.prevout) ∧
        serials' = serials ++ forkSerials oracle tree agrInputs
          (path.takeWhile fun p => !tree.isActive p) := by
  induction path generalizing readBlock serials with
  | nil => simp [walkFork]
  | cons p rest ih =>
      unfold walkFork
      by_cases hactive : tree.isActive p = true
      · have hdrop : (p :: rest).dropWhile (fun p => !tree.isActive p) =
            p :: rest := by
          simp [hactive]
        have htake : (p :: rest).takeWhile (fun p => !tree.isActive p) =
            [] := by
          simp [hactive]
        rw [hdrop, htake]
        cases hdisk : tree.readBlockFromDisk p with
        | none =>
            simp only [List.head?_cons, Option.some.injEq]
            constructor
            · intro h
              cases h
            · rintro ⟨rfl, hwalk, _⟩
              have hsplit := hwalk.splitDisk
              rw [hdisk] at hsplit
              cases hsplit
        | some bl =>
            simp only [hactive, if_true, Except.ok.injEq, Prod.mk.injEq,
              List.head?_cons, Option.some.injEq]
            constructor
            · rintro ⟨rfl, rfl⟩
              refine ⟨rfl, ⟨by simp, by rw [hdisk]; rfl⟩, hread, ?_, ?_⟩
              · rintro stakeIn _ ⟨pindex, hpindex, _⟩
                cases hpindex
              · simp [forkSerials]
            · rintro ⟨rfl, _, _, _, rfl⟩
              exact ⟨rfl, by simp [forkSerials]⟩
      · have hdrop : (p :: rest).dropWhile (fun p => !tree.isActive p) =
            rest.dropWhile (fun p => !tree.isActive p) := by
          simp [hactive]
        have htake : (p :: rest).takeWhile (fun p => !tree.isActive p) =
            p :: rest.takeWhile (fun p => !tree.isActive p) := by
          simp [hactive]
        rw [hdrop, htake]
        cases hdisk : tree.readBlockFromDisk p with
        | none =>
            simp only
            constructor
            · intro h
              cases h
            · rintro ⟨_, hwalk, _⟩
              have hp := hwalk.disk p List.mem_cons_self
              rw [hdisk] at hp
              cases hp
        | some bl =>
            have hbl := tree.disk p bl hdisk
            simp only [hactive, Bool.false_eq_true, if_false]
            by_cases hlimit : readBlock + 1 = nMaxReorganizationDepth
            · rw [if_pos hlimit, List.length_cons]
              constructor
              · intro h
                cases h
              · rintro ⟨_, _, hshort, _⟩
                omega
            · rw [if_neg hlimit, bind_eq_ok]
              have hread' : readBlock + 1 < nMaxReorganizationDepth := by
                omega
              simp only [scanBlock_eq_ok, ih hread', List.length_cons,
                walkable_cons, hdisk, Option.isSome_some, true_and,
                spentOn_cons]
              constructor
              · rintro ⟨_, ⟨hscan, rfl⟩, hsplit, hwalk, hshort, hspent, rfl⟩
                refine ⟨hsplit, hwalk, by omega, ?_, ?_⟩
                · rintro stakeIn hstakeIn (⟨txin, htxin, hprevout⟩ | hlater)
                  · rw [← hbl] at htxin
                    exact hscan txin htxin stakeIn hstakeIn hprevout.symm
                  · exact hspent stakeIn hstakeIn hlater
                · rw [List.append_assoc, hbl]
                  rfl
              · rintro ⟨hsplit, hwalk, hshort, hspent, rfl⟩
                refine ⟨_, ⟨?_, rfl⟩, hsplit, hwalk, by omega, ?_, ?_⟩
                · intro txin htxin stakeIn hstakeIn hprevout
                  rw [hbl] at htxin
                  exact hspent stakeIn hstakeIn
                    (Or.inl ⟨txin, htxin, hprevout.symm⟩)
                · intro stakeIn hstakeIn hlater
                  exact hspent stakeIn hstakeIn (Or.inr hlater)
                · rw [List.append_assoc, hbl]
                  rfl

end Walk

/-! ## What the checks ask of a stake -/

section Checks

variable (params : StakeParams) (oracle : Oracle) (checks : BlockChecks)
variable (tree : BlockTree)

/-- A transaction of the blocks spends the zerocoin. -/
def SerialSpentOn (entries : List CBlockIndex) (nSerial : Uint256) : Prop :=
  ∃ pindex ∈ entries, ∃ tx ∈ (tree.blockOf pindex).vtx, ∃ txin ∈ tx.vin,
    isZerocoin txin = true ∧ serialOf oracle checks tx txin = some nSerial

/-- And the spend does not show the mint. -/
def PrivatelySpentOn (entries : List CBlockIndex) (nSerial : Uint256) :
    Prop :=
  ∃ pindex ∈ entries, ∃ tx ∈ (tree.blockOf pindex).vtx, ∃ txin ∈ tx.vin,
    txin.isZerocoinSpend = true ∧ (oracle.coinSpendOf txin).nSerial = nSerial

/-- What is checked before the inputs of the stake, and after them. -/
structure HeaderChecks (fAlreadyCheckedBlock : Bool) (block : StakeBlock)
    (pindexPrev : CBlockIndex) : Prop where
  notGenesis : block.hash ≠ tree.hashGenesisBlock
  parent : tree.mapBlockIndex block.hashPrevBlock = some pindexPrev
  notFailed : tree.failed pindexPrev = false
  work : checks.checkWork block pindexPrev = true
  kernel : (checkProofOfStake params oracle tree.toNode block
    pindexPrev.nHeight).isSome = true
  header : checks.acceptBlockHeader block = true
  noData : checks.haveData block = false
  checked : ((fAlreadyCheckedBlock || checks.checkBlock block) &&
    checks.contextualCheckBlock block) = true
  written : checks.writeBlock block = true

/-- What is checked of the stake besides what its inputs spend. -/
structure StakeChecks (block : StakeBlock) (pindexPrev : CBlockIndex)
    (stakeTxIn : CTransaction) : Prop where
  ownInputs : (checkOwnInputs params oracle checks (pindexPrev.nHeight + 1)
    (agrInputs stakeTxIn) block).isOk = true
  zerocoins : ∀ txin ∈ zAGRInputs stakeTxIn,
    checks.contextualCheckZerocoinSpendNoSerialCheck stakeTxIn txin
      (pindexPrev.nHeight + 1) = true
  forkWalk : tree.tip ≠ some pindexPrev →
    (tree.fork pindexPrev).length < nMaxReorganizationDepth ∧
      ∃ split, (tree.common pindexPrev).head? = some split ∧
        Walkable tree (tree.fork pindexPrev) split
  forkZerocoins : tree.tip ≠ some pindexPrev →
    ∀ txin ∈ zAGRInputs stakeTxIn, checks.hasAccumulatorValue txin = true ∧
      checks.verify txin (pindexPrev.nHeight + 1) = true

/-- An input of the stake is found spent. -/
inductive Refused (pindexPrev : CBlockIndex) (stakeTxIn : CTransaction) :
    Prop
  | spentOnFork (hfork : tree.tip ≠ some pindexPrev) (txin : CTxIn)
      (hmem : txin ∈ agrInputs stakeTxIn)
      (hspent : tree.SpentOn (tree.fork pindexPrev) txin.prevout)
  /-- The serials of the fork are only stored next to such an input. -/
  | serialOnFork (hfork : tree.tip ≠ some pindexPrev)
      (hagr : agrInputs stakeTxIn ≠ []) (txin : CTxIn)
      (hmem : txin ∈ zAGRInputs stakeTxIn)
      (hspent : PrivatelySpentOn oracle tree (tree.fork pindexPrev)
        (oracle.coinSpendOf txin).nSerial)
  | serialInChain (txin : CTxIn) (hmem : txin ∈ zAGRInputs stakeTxIn)
      (nHeightTx : Int) (hfound : tree.isSerialInBlockchain
        (oracle.coinSpendOf txin).nSerial = some nHeightTx)
      (hbelow : tree.tip ≠ some pindexPrev →
        ∀ split, (tree.common pindexPrev).head? = some split →
          nHeightTx ≤ split.nHeight)
  | unavailable (htip : tree.tip = some pindexPrev)
      (hcoins : stakeTxIn.hasZerocoinSpendInputs = false) (txin : CTxIn)
      (hmem : txin ∈ stakeTxIn.vin)
      (hspent : ((tree.pcoinsTip txin.prevout.hash).any fun coins =>
        coins.isAvailable txin.prevout.n) = false)

variable {params oracle checks tree}
variable {block : StakeBlock} {pindexPrev : CBlockIndex}
variable {stakeTxIn : CTransaction}

theorem checkCoin_eq_ok {isBlockFromFork : Bool} {txin : CTxIn} :
    checkCoin tree isBlockFromFork txin = .ok () ↔
      isBlockFromFork = true ∨ ((tree.pcoinsTip txin.prevout.hash).any
        fun coins => coins.isAvailable txin.prevout.n) = true := by
  unfold checkCoin
  cases tree.pcoinsTip txin.prevout.hash with
  | none => simp
  | some coin => simp [or_comm]

theorem checkForkSpend_eq_ok {nHeight splitHeight : Int}
    {vBlockSerials : List Uint256} {txin : CTxIn} :
    checkForkSpend oracle checks tree stakeTxIn nHeight splitHeight
        vBlockSerials txin = .ok () ↔
      (oracle.coinSpendOf txin).nSerial ∉ vBlockSerials ∧
        (∀ nHeightTx, tree.isSerialInBlockchain
          (oracle.coinSpendOf txin).nSerial = some nHeightTx →
            splitHeight < nHeightTx) ∧
        checks.contextualCheckZerocoinSpendNoSerialCheck stakeTxIn txin
          nHeight = true ∧
        checks.hasAccumulatorValue txin = true ∧
        checks.verify txin nHeight = true := by
  unfold checkForkSpend
  simp only [check_bind_eq_ok, require_eq_ok, Bool.not_eq_true']
  cases tree.isSerialInBlockchain (oracle.coinSpendOf txin).nSerial with
  | none => simp
  | some nHeightTx => simp

theorem checkTipSpend_eq_ok {nHeight : Int} {txin : CTxIn} :
    checkTipSpend oracle checks tree stakeTxIn nHeight txin = .ok () ↔
      checks.contextualCheckZerocoinSpendNoSerialCheck stakeTxIn txin
          nHeight = true ∧
        tree.isSerialInBlockchain (oracle.coinSpendOf txin).nSerial =
          none := by
  unfold checkTipSpend
  simp

theorem checkFork_eq_ok :
    checkFork oracle checks tree pindexPrev stakeTxIn true = .ok () ↔
      ∃ split, (tree.common pindexPrev).head? = some split ∧
        Walkable tree (tree.fork pindexPrev) split ∧
        (tree.fork pindexPrev).length < nMaxReorganizationDepth ∧
        (∀ txin ∈ agrInputs stakeTxIn,
          ¬ tree.SpentOn (tree.fork pindexPrev) txin.prevout) ∧
        ∀ txin ∈ zAGRInputs stakeTxIn,
          checkForkSpend oracle checks tree stakeTxIn (pindexPrev.nHeight + 1)
            split.nHeight (forkSerials oracle tree (agrInputs stakeTxIn)
              (tree.fork pindexPrev)) txin = .ok () := by
  unfold checkFork
  simp only [Bool.not_true, Bool.false_eq_true, if_false, bind_eq_ok,
    forM_eq_ok, Prod.exists]
  have hwalk : ∀ split serials, walkFork oracle tree (agrInputs stakeTxIn)
      (tree.path pindexPrev) 0 [] = .ok (split, serials) ↔ _ :=
    fun split serials => walkFork_eq_ok (by decide)
  simp only [hwalk, Nat.zero_add, List.nil_append]
  constructor
  · rintro ⟨split, serials, ⟨hsplit, hdisk, hshort, hspent, rfl⟩, hspends⟩
    exact ⟨split, hsplit, hdisk, hshort, hspent, hspends⟩
  · rintro ⟨split, hsplit, hdisk, hshort, hspent, hspends⟩
    exact ⟨split, _, ⟨hsplit, hdisk, hshort, hspent, rfl⟩, hspends⟩

/-- A zerocoin input makes the transaction one with zerocoin inputs. -/
theorem hasZerocoinSpendInputs_of_mem {txin : CTxIn}
    (hmem : txin ∈ zAGRInputs stakeTxIn) :
    stakeTxIn.hasZerocoinSpendInputs = true := by
  unfold zAGRInputs at hmem
  rw [List.mem_filter] at hmem
  unfold CTransaction.hasZerocoinSpendInputs
  rw [List.any_eq_true]
  exact ⟨txin, hmem.1, by simp [hmem.2]⟩

theorem checkMainChain_fork :
    checkMainChain oracle checks tree pindexPrev stakeTxIn true =
      .ok () := by
  unfold checkMainChain
  split
  · rw [forM_eq_ok]
    intro txin _
    rw [checkCoin_eq_ok]
    exact Or.inl rfl
  · rfl

theorem checkMainChain_tip :
    checkMainChain oracle checks tree pindexPrev stakeTxIn false = .ok () ↔
      (stakeTxIn.hasZerocoinSpendInputs = false → ∀ txin ∈ stakeTxIn.vin,
        ((tree.pcoinsTip txin.prevout.hash).any fun coins =>
          coins.isAvailable txin.prevout.n) = true) ∧
        ∀ txin ∈ zAGRInputs stakeTxIn,
          checkTipSpend oracle checks tree stakeTxIn (pindexPrev.nHeight + 1)
            txin = .ok () := by
  unfold checkMainChain
  cases hcoins : stakeTxIn.hasZerocoinSpendInputs with
  | false =>
      simp only [Bool.not_false, if_true, forM_eq_ok, checkCoin_eq_ok,
        Bool.false_eq_true, false_or, forall_const]
      constructor
      · intro h
        refine ⟨h, fun txin hmem => ?_⟩
        rw [hasZerocoinSpendInputs_of_mem hmem] at hcoins
        cases hcoins
      · exact fun h => h.1
  | true => simp [forM_eq_ok]

theorem checkStake_tip (htip : tree.tip = some pindexPrev) :
    checkStake params oracle checks tree pindexPrev stakeTxIn block = .ok () ↔
      StakeChecks params oracle checks tree block pindexPrev stakeTxIn ∧
        ¬ Refused oracle tree pindexPrev stakeTxIn := by
  have hfork : decide (tree.tip ≠ some pindexPrev) = false := by
    simp [htip]
  unfold checkStake
  simp only [hfork]
  rw [bind_eq_ok]
  simp only [check_bind_eq_ok, checkMainChain_tip, checkTipSpend_eq_ok]
  constructor
  · rintro ⟨serials, hown, _, hcoins, hspends⟩
    constructor
    · refine ⟨?_, fun txin hmem => (hspends txin hmem).1,
        fun h => absurd htip h, fun h => absurd htip h⟩
      rw [hown]
      rfl
    · intro hrefused
      cases hrefused with
      | spentOnFork h => exact h htip
      | serialOnFork h => exact h htip
      | serialInChain txin hmem nHeightTx hfound =>
          rw [(hspends txin hmem).2] at hfound
          cases hfound
      | unavailable _ hnone txin hmem hspent =>
          rw [hcoins hnone txin hmem] at hspent
          cases hspent
  · rintro ⟨hchecks, hrefused⟩
    have hown := hchecks.ownInputs
    cases hserials : checkOwnInputs params oracle checks
        (pindexPrev.nHeight + 1) (agrInputs stakeTxIn) block with
    | error e =>
        rw [hserials] at hown
        cases hown
    | ok serials =>
        refine ⟨serials, rfl, rfl, ?_, ?_⟩
        · intro hcoins txin hmem
          by_contra hspent
          exact hrefused (.unavailable htip hcoins txin hmem
            (Bool.eq_false_iff.mpr hspent))
        · intro txin hmem
          refine ⟨hchecks.zerocoins txin hmem, ?_⟩
          by_contra hfound
          obtain ⟨nHeightTx, hfound⟩ := Option.ne_none_iff_exists'.mp hfound
          exact hrefused (.serialInChain txin hmem nHeightTx hfound
            fun h => absurd htip h)

theorem checkStake_fork (hfork : tree.tip ≠ some pindexPrev) :
    checkStake params oracle checks tree pindexPrev stakeTxIn block = .ok () ↔
      StakeChecks params oracle checks tree block pindexPrev stakeTxIn ∧
        ¬ Refused oracle tree pindexPrev stakeTxIn := by
  have hforkBool : decide (tree.tip ≠ some pindexPrev) = true := by
    simp [hfork]
  unfold checkStake
  simp only [hforkBool]
  rw [bind_eq_ok]
  simp only [check_bind_eq_ok, checkMainChain_fork, checkFork_eq_ok,
    checkForkSpend_eq_ok, mem_forkSerials, and_true]
  constructor
  · rintro ⟨serials, hown, split, hsplit, hwalk, hshort, hspent, hspends⟩
    constructor
    · refine ⟨?_, fun txin hmem => (hspends txin hmem).2.2.1,
        fun _ => ⟨hshort, split, hsplit, hwalk⟩,
        fun _ txin hmem => (hspends txin hmem).2.2.2⟩
      rw [hown]
      rfl
    · intro hrefused
      cases hrefused with
      | spentOnFork _ txin hmem hon => exact hspent txin hmem hon
      | serialOnFork _ hagr txin hmem hon =>
          exact (hspends txin hmem).1 ⟨hagr, hon⟩
      | serialInChain txin hmem nHeightTx hfound hbelow =>
          have hlt := (hspends txin hmem).2.1 nHeightTx hfound
          have hle := hbelow hfork split hsplit
          omega
      | unavailable htip => exact hfork htip
  · rintro ⟨hchecks, hrefused⟩
    have hown := hchecks.ownInputs
    obtain ⟨hshort, split, hsplit, hwalk⟩ := hchecks.forkWalk hfork
    cases hserials : checkOwnInputs params oracle checks
        (pindexPrev.nHeight + 1) (agrInputs stakeTxIn) block with
    | error e =>
        rw [hserials] at hown
        cases hown
    | ok serials =>
        refine ⟨serials, rfl, split, hsplit, hwalk, hshort, ?_, ?_⟩
        · intro txin hmem hon
          exact hrefused (.spentOnFork hfork txin hmem hon)
        · intro txin hmem
          refine ⟨?_, ?_, hchecks.zerocoins txin hmem,
            hchecks.forkZerocoins hfork txin hmem⟩
          · rintro ⟨hagr, hon⟩
            exact hrefused (.serialOnFork hfork hagr txin hmem hon)
          · intro nHeightTx hfound
            by_contra hle
            refine hrefused (.serialInChain txin hmem nHeightTx hfound ?_)
            intro _ split' hsplit'
            rw [hsplit] at hsplit'
            cases hsplit'
            omega

/-- **The checks of a stake**: it passes the checks that do not depend on what
was spent before, and no input is found spent. -/
theorem checkStake_eq_ok :
    checkStake params oracle checks tree pindexPrev stakeTxIn block = .ok () ↔
      StakeChecks params oracle checks tree block pindexPrev stakeTxIn ∧
        ¬ Refused oracle tree pindexPrev stakeTxIn := by
  by_cases htip : tree.tip = some pindexPrev
  · exact checkStake_tip htip
  · exact checkStake_fork htip

theorem acceptData_eq_true {fAlreadyCheckedBlock : Bool}
    {stake : Except Reject Unit} :
    acceptData checks fAlreadyCheckedBlock block stake = .ok true ↔
      checks.acceptBlockHeader block = true ∧ checks.haveData block = false ∧
        ((fAlreadyCheckedBlock || checks.checkBlock block) &&
          checks.contextualCheckBlock block) = true ∧
        stake = .ok () ∧ checks.writeBlock block = true := by
  unfold acceptData
  cases checks.acceptBlockHeader block with
  | false => simp
  | true =>
      cases checks.haveData block with
      | true => simp
      | false =>
          cases (fAlreadyCheckedBlock || checks.checkBlock block) &&
              checks.contextualCheckBlock block with
          | false => simp
          | true => simp [pure, Except.pure]

/-- **A proof-of-stake block is stored** when all checks pass and no input of
its stake is found spent. -/
theorem acceptBlock_stake_iff {fAlreadyCheckedBlock : Bool}
    (hstake : isProofOfStake block.toCBlock = true) :
    acceptBlock params oracle checks tree fAlreadyCheckedBlock block =
        .ok true ↔
      ∃ pindexPrev stakeTxIn, block.vtx[1]? = some stakeTxIn ∧
        HeaderChecks params oracle checks tree fAlreadyCheckedBlock block
          pindexPrev ∧
        StakeChecks params oracle checks tree block pindexPrev stakeTxIn ∧
        ¬ Refused oracle tree pindexPrev stakeTxIn := by
  unfold acceptBlock
  by_cases hgenesis : block.hash = tree.hashGenesisBlock
  · rw [if_pos hgenesis, if_pos hstake]
    constructor
    · intro h
      cases h
    · rintro ⟨_, _, _, hheader, _⟩
      exact absurd hgenesis hheader.notGenesis
  · rw [if_neg hgenesis]
    cases hparent : tree.mapBlockIndex block.hashPrevBlock with
    | none =>
        constructor
        · intro h
          cases h
        · rintro ⟨_, _, _, hheader, _⟩
          rw [hheader.parent] at hparent
          cases hparent
    | some pindexPrev =>
        simp only [hstake, Bool.not_true, Bool.false_eq_true, if_false]
        constructor
        · intro h
          split at h
          · split at h
            · cases h
            · cases h
          split at h
          · cases h
          split at h
          · cases h
          rename_i hfailed hwork hkernel
          rw [acceptData_eq_true] at h
          obtain ⟨hheader, hdata, hchecked, hstakes, hwritten⟩ := h
          cases htx : block.vtx[1]? with
          | none =>
              rw [htx] at hstakes
              cases hstakes
          | some stakeTxIn =>
              rw [htx] at hstakes
              have hpass := checkStake_eq_ok.mp hstakes
              exact ⟨pindexPrev, stakeTxIn, rfl,
                ⟨hgenesis, hparent, by simpa using hfailed,
                  by simpa using hwork,
                  by simpa [Option.isSome_iff_ne_none] using hkernel, hheader,
                  hdata, hchecked, hwritten⟩, hpass⟩
        · rintro ⟨pindexPrev', stakeTxIn, htx, hheader, hpass⟩
          have hsame := hheader.parent
          rw [hparent] at hsame
          cases hsame
          have hkernel : ¬ (checkProofOfStake params oracle tree.toNode block
              pindexPrev.nHeight).isNone = true := by
            have hsome := hheader.kernel
            rw [Option.isSome_iff_ne_none] at hsome
            simpa using hsome
          rw [if_neg (by simp [hheader.notFailed]),
            if_neg (by simp [hheader.work]), if_neg hkernel,
            acceptData_eq_true]
          refine ⟨hheader.header, hheader.noData, hheader.checked, ?_,
            hheader.written⟩
          rw [htx]
          exact checkStake_eq_ok.mpr hpass

end Checks

/-! ## A serial that the fork has spent -/

section Serials

variable (params : StakeParams) (oracle : Oracle) (checks : BlockChecks)
variable (tree : BlockTree)

/-- A proof-of-stake block whose parent is known and is not the tip. -/
structure OnFork (block : StakeBlock) (pindexPrev : CBlockIndex)
    (stakeTxIn : CTransaction) : Prop where
  stake : isProofOfStake block.toCBlock = true
  stakeTx : block.vtx[1]? = some stakeTxIn
  parent : tree.mapBlockIndex block.hashPrevBlock = some pindexPrev
  notTip : tree.tip ≠ some pindexPrev

/-- A zerocoin that is staked was spent between the split and the parent. -/
def StakesSpentSerial (pindexPrev : CBlockIndex) (stakeTxIn : CTransaction) :
    Prop :=
  ∃ txin ∈ zAGRInputs stakeTxIn, SerialSpentOn oracle checks tree
    (tree.fork pindexPrev) (oracle.coinSpendOf txin).nSerial

def RejectsSpentSerials (fAlreadyCheckedBlock : Bool) (block : StakeBlock) :
    Prop :=
  ∀ pindexPrev stakeTxIn, OnFork tree block pindexPrev stakeTxIn →
    StakesSpentSerial oracle checks tree pindexPrev stakeTxIn →
    acceptBlock params oracle checks tree fAlreadyCheckedBlock block ≠ .ok true

/-- Everything but the comparison with the serials of the fork. -/
structure OtherChecks (fAlreadyCheckedBlock : Bool) (block : StakeBlock)
    (pindexPrev : CBlockIndex) (stakeTxIn : CTransaction) : Prop where
  header : HeaderChecks params oracle checks tree fAlreadyCheckedBlock block
    pindexPrev
  stake : StakeChecks params oracle checks tree block pindexPrev stakeTxIn
  agrInputs : ∀ txin ∈ agrInputs stakeTxIn,
    ¬ tree.SpentOn (tree.fork pindexPrev) txin.prevout
  zAGRInputs : ∀ txin ∈ zAGRInputs stakeTxIn, ∀ nHeightTx,
    tree.isSerialInBlockchain (oracle.coinSpendOf txin).nSerial =
      some nHeightTx → ∃ split, (tree.common pindexPrev).head? = some split ∧
        split.nHeight < nHeightTx

/-- The loop stores the serials only for an input that is no zerocoin or is
spent publicly, and only those of private spends. -/
def ComparesSpentSerial (pindexPrev : CBlockIndex)
    (stakeTxIn : CTransaction) : Prop :=
  agrInputs stakeTxIn ≠ [] ∧ ∃ txin ∈ zAGRInputs stakeTxIn,
    PrivatelySpentOn oracle tree (tree.fork pindexPrev)
      (oracle.coinSpendOf txin).nSerial

variable {params oracle checks tree}
variable {fAlreadyCheckedBlock : Bool} {block : StakeBlock}
variable {pindexPrev : CBlockIndex} {stakeTxIn : CTransaction}

theorem OnFork.acceptBlock_iff
    (hfork : OnFork tree block pindexPrev stakeTxIn) :
    acceptBlock params oracle checks tree fAlreadyCheckedBlock block =
        .ok true ↔
      OtherChecks params oracle checks tree fAlreadyCheckedBlock block
        pindexPrev stakeTxIn ∧
        ¬ ComparesSpentSerial oracle tree pindexPrev stakeTxIn := by
  rw [acceptBlock_stake_iff hfork.stake]
  constructor
  · rintro ⟨pindexPrev', stakeTxIn', htx, hheader, hstake, hrefused⟩
    have hsame := hheader.parent
    rw [hfork.parent] at hsame
    cases hsame
    rw [hfork.stakeTx] at htx
    cases htx
    obtain ⟨-, split, hsplit, -⟩ := hstake.forkWalk hfork.notTip
    refine ⟨⟨hheader, hstake, ?_, ?_⟩, ?_⟩
    · intro txin hmem hspent
      exact hrefused (.spentOnFork hfork.notTip txin hmem hspent)
    · intro txin hmem nHeightTx hfound
      refine ⟨split, hsplit, ?_⟩
      by_contra hle
      refine hrefused (.serialInChain txin hmem nHeightTx hfound ?_)
      intro _ split' hsplit'
      rw [hsplit] at hsplit'
      cases hsplit'
      omega
    · rintro ⟨hagr, txin, hmem, hspent⟩
      exact hrefused (.serialOnFork hfork.notTip hagr txin hmem hspent)
  · rintro ⟨hother, hcompares⟩
    refine ⟨pindexPrev, stakeTxIn, hfork.stakeTx, hother.header,
      hother.stake, ?_⟩
    intro hrefused
    cases hrefused with
    | spentOnFork _ txin hmem hspent =>
        exact hother.agrInputs txin hmem hspent
    | serialOnFork _ hagr txin hmem hspent =>
        exact hcompares ⟨hagr, txin, hmem, hspent⟩
    | serialInChain txin hmem nHeightTx hfound hbelow =>
        obtain ⟨split, hsplit, hlt⟩ :=
          hother.zAGRInputs txin hmem nHeightTx hfound
        have hle := hbelow hfork.notTip split hsplit
        omega
    | unavailable htip => exact hfork.notTip htip

/-- **A serial that the fork has spent** is rejected exactly when another
check fails, or the stake has an input for which the serials of the fork are
stored and the fork's spend is private. -/
theorem rejectsSpentSerials_iff :
    RejectsSpentSerials params oracle checks tree fAlreadyCheckedBlock block ↔
      ∀ pindexPrev stakeTxIn, OnFork tree block pindexPrev stakeTxIn →
        OtherChecks params oracle checks tree fAlreadyCheckedBlock block
          pindexPrev stakeTxIn →
        StakesSpentSerial oracle checks tree pindexPrev stakeTxIn →
        ComparesSpentSerial oracle tree pindexPrev stakeTxIn := by
  constructor
  · intro hrejects pindexPrev stakeTxIn hfork hother hspent
    by_contra hcompares
    exact hrejects pindexPrev stakeTxIn hfork hspent
      (hfork.acceptBlock_iff.mpr ⟨hother, hcompares⟩)
  · intro hcovered pindexPrev stakeTxIn hfork hspent haccept
    obtain ⟨hother, hcompares⟩ := hfork.acceptBlock_iff.mp haccept
    exact hcompares (hcovered pindexPrev stakeTxIn hfork hother hspent)

/-! ### Where public spends are enforced -/

theorem isZerocoinPublicSpend_eq_false {txin : CTxIn}
    (h : txin.isZerocoinSpend = true) :
    txin.isZerocoinPublicSpend = false := by
  unfold CTxIn.isZerocoinSpend CScript.isZerocoinSpend
    CScript.startsWithOpcode at h
  unfold CTxIn.isZerocoinPublicSpend CScript.isZerocoinPublicSpend
    CScript.startsWithOpcode
  simp only [Bool.and_eq_true, beq_iff_eq] at h
  rw [h.2]
  rfl

/-- From the height on at which spends have to be public, no block with a
private one passes the loop over its own inputs. -/
theorem checkOwnInputs_no_private {nHeight : Int} {agr : List CTxIn}
    (hstart : params.nZerocoinStartHeight ≤ nHeight)
    (hpublic : params.nPublicZCSpends ≤ nHeight)
    (h : (checkOwnInputs params oracle checks nHeight agr block).isOk = true)
    {tx : CTransaction} (htx : tx ∈ block.vtx) {txin : CTxIn}
    (htxin : txin ∈ tx.vin) : txin.isZerocoinSpend = false := by
  by_contra hspend
  rw [Bool.not_eq_false] at hspend
  unfold checkOwnInputs at h
  have hmem : (tx, txin) ∈ block.vtx.flatMap fun tx =>
      tx.vin.map fun txin => (tx, txin) := by
    rw [List.mem_flatMap]
    exact ⟨tx, htx, List.mem_map.mpr ⟨txin, htxin, rfl⟩⟩
  cases hloop : (block.vtx.flatMap fun tx =>
      tx.vin.map fun txin => (tx, txin)).foldlM
      (checkOwnInput params oracle checks nHeight agr) [] with
  | error e =>
      rw [hloop] at h
      cases h
  | ok serials =>
      obtain ⟨before, after, hstep⟩ := exists_of_foldlM_eq_ok hloop hmem
      unfold checkOwnInput at hstep
      rw [bind_eq_ok] at hstep
      obtain ⟨added, hadded, -⟩ := hstep
      have hzerocoin : isZerocoin txin = true := by
        simp [isZerocoin, hspend]
      have hprivate := isZerocoinPublicSpend_eq_false hspend
      unfold addSerial at hadded
      rw [if_pos ⟨hstart, hzerocoin⟩, hprivate] at hadded
      simp [checkPublicCoinSpendEnforced, hpublic] at hadded

/-- **Main net** stores no stake of a zerocoin, and so none whose serial is
spent. -/
theorem rejectsSpentSerials_mainnet
    (hheight : ∀ pindexPrev, tree.mapBlockIndex block.hashPrevBlock =
      some pindexPrev → 0 ≤ pindexPrev.nHeight) :
    RejectsSpentSerials mainStakeParams oracle checks tree
      fAlreadyCheckedBlock block := by
  rintro pindexPrev stakeTxIn hfork ⟨txin, hmem, -⟩ haccept
  obtain ⟨hother, -⟩ := hfork.acceptBlock_iff.mp haccept
  have hnonneg := hheight pindexPrev hfork.parent
  have hmem' := List.mem_filter.mp hmem
  have hpublic := checkOwnInputs_no_private
    (show mainStakeParams.nZerocoinStartHeight ≤ pindexPrev.nHeight + 1 by
      simp only [mainStakeParams]
      omega)
    (show mainStakeParams.nPublicZCSpends ≤ pindexPrev.nHeight + 1 by
      simp only [mainStakeParams]
      omega)
    hother.stake.ownInputs (List.mem_of_getElem? hfork.stakeTx) hmem'.1
  rw [hmem'.2] at hpublic
  cases hpublic

end Serials

/-! ### A stake of a serial that the fork has spent

Regression-test net, where private spends are allowed in the blocks from
height 300 to 349 and `-maxreorg` lets a fork be that deep.  The active chain
has 531 blocks; its blocks below height 200 carry the accumulator checkpoint
that the blocks from height 320 on have, which nothing compares below height
300.  A coin of block 2 was minted into a zerocoin in block 301.  The fork
leaves the chain after height 320, and its only block spends the zerocoin. -/

/-- `CRegTestParams`. -/
def regTestStakeParams : StakeParams where
  fRegTest := true
  nFirstPoSBlock := 2
  nZerocoinStartHeight := 300
  nBlockZerocoinV2 := 300
  nPublicZCSpends := 350
  nZerocoinRequiredStakeDepth := 200

def regEntry (h : Nat) : CBlockIndex where
  hash := BitVec.ofNat 256 (1000 + h)
  nHeight := h
  nTime := UInt32.ofNat (1700000000 + 60 * h)
  nAccumulatorCheckpoint := if h < 200 ∨ 320 ≤ h then 5 <<< 224 else 0
  fProofOfStake := false
  nStakeModifier := 0

@[irreducible]
def regChain : List CBlockIndex := (List.range 531).map regEntry

def forkEntry : CBlockIndex where
  hash := 5000
  nHeight := 321
  nTime := UInt32.ofNat (1700000000 + 60 * 321)
  fProofOfStake := false

/-- The coinbases burn their value, but for that of block 2. -/
def regCoinbase (h : Nat) : CTransaction where
  hash := BitVec.ofNat 256 (10000 + h)
  vin := [{ prevout := COutPoint.null, scriptSig := [3, UInt8.ofNat h] }]
  vout := [{ nValue := 50 * COIN
             scriptPubKey := if h = 2 then [CScript.OP_CHECKSIG]
               else [CScript.OP_RETURN] }]

def mintTx : CTransaction where
  hash := 20000
  vin := [{ prevout := ⟨10002, 0⟩ }]
  vout := [{ nValue := COIN, scriptPubKey := [CScript.OP_ZEROCOINMINT] }]

def zerocoinInput (kind : UInt8) : CTxIn where
  prevout := ⟨0, 0xFFFFFFFF⟩
  scriptSig := [CScript.OP_ZEROCOINSPEND, kind]
  nSequence := 1

def spendTx : CTransaction where
  hash := 20001
  vin := [zerocoinInput 0]
  vout := [{ nValue := COIN, scriptPubKey := [CScript.OP_CHECKSIG] }]

def zerocoinStakeTx : CTransaction where
  hash := 20002
  vin := [zerocoinInput 1]
  vout := [{ nValue := 0, scriptPubKey := [] },
    { nValue := COIN, scriptPubKey := [CScript.OP_CHECKSIG] }]

def regBlock (pindex : CBlockIndex) : StakeBlock where
  hash := pindex.hash
  hashPrevBlock := 0
  hashMerkleRoot := 0
  vtx := regCoinbase pindex.nHeight.toNat ::
    (if pindex.hash = 5000 then [spendTx]
    else if pindex.hash = 1301 then [mintTx] else [])
  nTime := pindex.nTime

def regIndex (hash : Uint256) : Option CBlockIndex :=
  if hash = 5000 then some forkEntry
  else if 1000 ≤ hash.toNat ∧ hash.toNat < 1531 then
    some (regEntry (hash.toNat - 1000))
  else none

theorem regChain_getElem? (h : Nat) :
    regChain[h]? = if h < 531 then some (regEntry h) else none := by
  unfold regChain
  rw [List.getElem?_map]
  split
  · rename_i hlt
    rw [List.getElem?_range hlt]
    rfl
  · rename_i hge
    rw [List.getElem?_eq_none (by simpa using hge)]
    rfl

theorem regEntry_toNat {h : Nat} (hlt : h < 531) :
    (regEntry h).hash.toNat = 1000 + h := by
  unfold regEntry
  simp only [BitVec.toNat_ofNat]
  omega

theorem regEntry_hash_ne {n : Nat} (hn : n < 531) :
    (regEntry n).hash ≠ 5000 := by
  intro heq
  have hnat := congrArg BitVec.toNat heq
  have hfork : (5000 : Uint256).toNat = 5000 := by simp
  rw [regEntry_toNat hn] at hnat
  omega

theorem regIndex_regEntry {h : Nat} (hlt : h < 531) :
    regIndex (regEntry h).hash = some (regEntry h) := by
  have hrange : 1000 ≤ 1000 + h ∧ 1000 + h < 1531 := by omega
  have hback : 1000 + h - 1000 = h := by omega
  unfold regIndex
  rw [if_neg (regEntry_hash_ne hlt), regEntry_toNat hlt, hback,
    if_pos hrange]

theorem regIndex_hash {hash : Uint256} {pindex : CBlockIndex}
    (h : regIndex hash = some pindex) : pindex.hash = hash := by
  unfold regIndex at h
  split at h
  · rename_i hfork
    cases h
    exact hfork.symm
  · split at h
    · rename_i hrange
      have hentry := Option.some.inj h
      have hlt : hash.toNat - 1000 < 531 := by omega
      apply BitVec.eq_of_toNat_eq
      rw [← hentry, regEntry_toNat hlt]
      omega
    · cases h

theorem mem_regChain {pindex : CBlockIndex} (h : pindex ∈ regChain) :
    ∃ n < 531, pindex = regEntry n := by
  unfold regChain at h
  simp only [List.mem_map, List.mem_range] at h
  obtain ⟨n, hn, rfl⟩ := h
  exact ⟨n, hn, rfl⟩

/-- The transactions of an active block. -/
theorem regBlock_vtx {n : Nat} (hn : n < 531) {tx : CTransaction}
    (htx : tx ∈ (regBlock (regEntry n)).vtx) :
    tx = regCoinbase n ∨ (tx = mintTx ∧ n = 301) := by
  unfold regBlock at htx
  rw [if_neg (regEntry_hash_ne hn), List.mem_cons] at htx
  rcases htx with htx | htx
  · left
    simpa [regEntry] using htx
  · right
    split at htx
    · rename_i heq
      have hnat := congrArg BitVec.toNat heq
      rw [regEntry_toNat hn] at hnat
      simp at hnat
      exact ⟨List.mem_singleton.mp htx, by omega⟩
    · cases htx

theorem regCoinbase_creates {n : Nat} {out : COutPoint}
    (h : createsOutput (regCoinbase n) out = true) : n = 2 := by
  by_contra hn
  have hburnt : [CTxOut.null].rdropWhile CTxOut.isNull = [] := by decide
  unfold createsOutput CCoins.fromTx CCoins.clearUnspendable CCoins.cleanup
    regCoinbase at h
  simp [hn, CScript.isUnspendable, CScript.startsWithOpcode,
    CCoins.isAvailable, hburnt] at h

theorem regCoinbase_hash {n : Nat} (hn : n < 531) :
    (regCoinbase n).hash.toNat = 10000 + n := by
  unfold regCoinbase
  simp only [BitVec.toNat_ofNat]
  omega

theorem mintTx_creates (out : COutPoint) : createsOutput mintTx out = false := by
  have hvout : (CCoins.fromTx mintTx 0).vout = mintTx.vout := by decide
  unfold createsOutput CCoins.isAvailable
  rw [hvout]
  cases out.n with
  | zero =>
      have hmint : (!CTxOut.isNull { nValue := COIN
                                     scriptPubKey :=
                                       [CScript.OP_ZEROCOINMINT] } &&
          !CTxOut.isZerocoinMint { nValue := COIN
                                   scriptPubKey :=
                                     [CScript.OP_ZEROCOINMINT] }) =
          false := by
        decide
      simp [mintTx, hmint]
  | succ n => simp [mintTx]

theorem regCoinbase_two_creates {out : COutPoint}
    (h : createsOutput (regCoinbase 2) out = true) : out = ⟨10002, 0⟩ := by
  have hvout : (CCoins.fromTx (regCoinbase 2) 0).vout =
      (regCoinbase 2).vout := by
    decide
  unfold createsOutput CCoins.isAvailable at h
  rw [hvout] at h
  obtain ⟨hash, n⟩ := out
  cases n with
  | zero =>
      simp only [Bool.and_eq_true, decide_eq_true_eq] at h
      rw [← h.1]
      rfl
  | succ n => simp [regCoinbase] at h

theorem regChain_take_split {m : Nat} (hm : 301 < m) :
    regChain.take m =
      regChain.take 301 ++ regEntry 301 :: (regChain.take m).drop 302 := by
  have hget : (regChain.take m)[301]? = some (regEntry 301) := by
    rw [List.getElem?_take, if_pos hm, regChain_getElem?, if_pos (by omega)]
  obtain ⟨hlt, hentry⟩ := List.getElem?_eq_some_iff.mp hget
  have htake : (regChain.take m).take 301 = regChain.take 301 := by
    rw [List.take_take, min_eq_left (by omega)]
  rw [← htake, ← hentry, ← List.drop_eq_getElem_cons hlt,
    List.take_append_drop]

theorem mem_regChain_later {m : Nat} {pindex : CBlockIndex}
    (h : pindex ∈ (regChain.take m).drop 302) :
    ∃ n < 531, 302 ≤ n ∧ pindex = regEntry n := by
  obtain ⟨i, hi⟩ := List.mem_iff_getElem?.mp h
  rw [List.getElem?_drop, List.getElem?_take] at hi
  split at hi
  · rw [regChain_getElem?] at hi
    split at hi
    · rename_i hrange
      exact ⟨302 + i, hrange, by omega, (Option.some.inj hi).symm⟩
    · cases hi
  · cases hi

/-- From block 301 on the value of block 2 is in the zerocoin, and all other
values are burnt. -/
theorem regChain_unspent {m : Nat} (hm : 301 < m) (out : COutPoint) :
    unspentIn ((regChain.take m).reverse.flatMap fun pindex =>
      (regBlock pindex).vtx.reverse) out = false := by
  by_cases hout : ∃ n < 531, createsOutput (regCoinbase n) out = true
  · obtain ⟨n, hn, hcreates⟩ := hout
    have htwo := regCoinbase_creates hcreates
    rw [htwo] at hcreates
    rw [regCoinbase_two_creates hcreates]
    have hvtx : (regBlock (regEntry 301)).vtx.reverse =
        [mintTx, regCoinbase 301] := by
      decide
    rw [regChain_take_split hm, List.reverse_append, List.reverse_cons,
      List.append_assoc, List.flatMap_append, List.singleton_append,
      List.flatMap_cons, hvtx, List.cons_append]
    apply unspentIn_of_spent
    · decide
    · decide
    · intro tx htx heq
      simp only [List.mem_flatMap, List.mem_reverse] at htx
      obtain ⟨pindex, hpindex, htx⟩ := htx
      obtain ⟨n', hrange, hlater, rfl⟩ := mem_regChain_later hpindex
      have hnat := congrArg BitVec.toNat heq
      have hkey : (COutPoint.mk 10002 0).hash.toNat = 10002 := by simp
      rcases regBlock_vtx hrange htx with rfl | ⟨-, h301⟩
      · rw [regCoinbase_hash hrange] at hnat
        omega
      · omega
  · apply unspentIn_of_not_created
    intro tx htx
    simp only [List.mem_flatMap, List.mem_reverse] at htx
    obtain ⟨pindex, hpindex, htx⟩ := htx
    obtain ⟨n, hn, rfl⟩ := mem_regChain (List.mem_of_mem_take hpindex)
    rcases regBlock_vtx hn htx with rfl | ⟨rfl, -⟩
    · rw [Bool.eq_false_iff]
      exact fun h => hout ⟨n, hn, h⟩
    · exact mintTx_creates out

theorem regChain_length : regChain.length = 531 := by
  unfold regChain
  rw [List.length_map, List.length_range]

theorem regChain_entry {n : Nat} {pindex : CBlockIndex}
    (h : regChain[n]? = some pindex) : n < 531 ∧ pindex = regEntry n := by
  rw [regChain_getElem?] at h
  split at h
  · rename_i hlt
    exact ⟨hlt, (Option.some.inj h).symm⟩
  · cases h

def regAncestors (pindex : CBlockIndex) : List CBlockIndex :=
  (regChain.take pindex.nHeight.toNat).reverse

theorem regChain_indexed (nHeight : Int) (pindex : CBlockIndex)
    (h : chainAt regChain nHeight = some pindex) :
    regIndex pindex.hash = some pindex := by
  obtain ⟨n, hn, rfl⟩ := mem_regChain (mem_of_chainAt h)
  exact regIndex_regEntry hn

theorem regMempool_keyed (hash : Uint256) (tx : CTransaction)
    (h : (none : Option CTransaction) = some tx) : tx.hash = hash := by
  cases h

def regTree : BlockTree where
  mapBlockIndex := regIndex
  chainActive := regChain
  keyed _ _ h := regIndex_hash h
  indexed := regChain_indexed
  mempool_keyed := regMempool_keyed
  fTxIndex := true
  readTxIndex hash :=
    if hash = 10002 then some (1002, regCoinbase 2) else none
  coinsHeight _ := none
  readBlockFromDisk pindex := some (regBlock pindex)
  hashGenesisBlock := 1000
  ancestors := regAncestors
  blockOf := regBlock
  pcoinsTip _ := none
  heights n pindex h := by
    rw [(regChain_entry h).2]
    rfl
  linked n pindex h := by
    rw [(regChain_entry h).2]
    rfl
  disk _ _ h := (Option.some.inj h).symm
  height_coins _ := rfl
  unspent_coins out := by
    have htake : regChain.take 531 = regChain :=
      List.take_of_length_le (Nat.le_of_eq regChain_length)
    have hunspent := regChain_unspent (by omega : 301 < 531) out
    rw [htake] at hunspent
    exact hunspent.symm

/-- The stake's spend is of another type than the fork's, of the same
serial. -/
def regOracle : Oracle where
  verifyScript _ _ _ := true
  coinSpendOf txin := ⟨txin.scriptSig.contains 1, 5, .ZQ_ONE, 9⟩
  kernelHash _ _ _ _ := 0

def zerocoinBlock : StakeBlock where
  hash := 6000
  hashPrevBlock := 5000
  hashMerkleRoot := 0
  vtx := [regCoinbase 322, zerocoinStakeTx]
  nTime := UInt32.ofNat (1700000000 + 60 * 322)
  nBits := 0x1d00ffff

theorem checksumHeightFrom_eq {chain : List CBlockIndex}
    {nChecksum : BitVec 32} {denomination : CoinDenomination} {n : Nat}
    {pindex : CBlockIndex} (h : chain[n]? = some pindex) :
    checksumHeightFrom chain nChecksum denomination n =
      if parseChecksum pindex.nAccumulatorCheckpoint denomination =
          nChecksum then (n : Int)
      else if n % 10 = 0 then
        if chain.length ≤ n + 10 then 0
        else checksumHeightFrom chain nChecksum denomination (n + 10)
      else checksumHeightFrom chain nChecksum denomination (n + 1) := by
  rw [checksumHeightFrom]
  split
  · rename_i hnone
    rw [h] at hnone
    cases hnone
  · rename_i found hfound
    rw [h] at hfound
    cases hfound
    rfl

/-- The checkpoint is not there yet, and the search goes on ten blocks
later. -/
theorem regChain_checksum_step {n : Nat} (hten : n % 10 = 0)
    (hlow : 200 ≤ n) (hhigh : n < 320) :
    checksumHeightFrom regChain 5 .ZQ_ONE n =
      checksumHeightFrom regChain 5 .ZQ_ONE (n + 10) := by
  have hget : regChain[n]? = some (regEntry n) := by
    rw [regChain_getElem?, if_pos (by omega)]
  have hcheckpoint : (regEntry n).nAccumulatorCheckpoint = 0 := by
    unfold regEntry
    rw [if_neg (by omega)]
  have hother : parseChecksum 0 .ZQ_ONE ≠ 5 := by decide
  have hlength : ¬ regChain.length ≤ n + 10 := by
    rw [regChain_length]
    omega
  rw [checksumHeightFrom_eq hget, hcheckpoint, if_neg hother, if_pos hten,
    if_neg hlength]

theorem regChain_checksum :
    checksumHeightFrom regChain 5 .ZQ_ONE 300 = 320 := by
  have hget : regChain[320]? = some (regEntry 320) := by
    rw [regChain_getElem?, if_pos (by omega)]
  have hfound : parseChecksum (regEntry 320).nAccumulatorCheckpoint .ZQ_ONE =
      5 := by
    decide
  rw [regChain_checksum_step (by omega) (by omega) (by omega),
    regChain_checksum_step (by omega) (by omega) (by omega),
    checksumHeightFrom_eq hget, if_pos hfound]
  rfl

theorem regTree_path : regTree.path forkEntry =
    forkEntry :: regEntry 320 :: (regChain.take 320).reverse := by
  have hget : regChain[320]? = some (regEntry 320) := by
    rw [regChain_getElem?, if_pos (by omega)]
  have hancestors : regTree.ancestors forkEntry =
      (regChain.take (320 + 1)).reverse := rfl
  rw [BlockTree.path, hancestors, List.take_add_one, hget,
    Option.toList_some, List.reverse_append, List.reverse_singleton,
    List.singleton_append]

theorem regChain_at (n : Nat) :
    chainAt regChain n = if n < 531 then some (regEntry n) else none := by
  unfold chainAt
  rw [if_neg (by omega), Int.toNat_natCast, regChain_getElem?]

theorem regTree_isActive {n : Nat} (hn : n < 531) :
    regTree.isActive (regEntry n) = true := by
  have hchain : regTree.chainActive = regChain := rfl
  have hheight : (regEntry n).nHeight = (n : Int) := rfl
  rw [BlockTree.isActive, chainContains, hchain, hheight, regChain_at,
    if_pos hn, decide_eq_true_eq]

theorem regTree_forkEntry : regTree.isActive forkEntry = false := by
  have hchain : regTree.chainActive = regChain := rfl
  have hheight : forkEntry.nHeight = ((321 : Nat) : Int) := rfl
  have hlt : 321 < 531 := by omega
  rw [BlockTree.isActive, chainContains, hchain, hheight, regChain_at,
    if_pos hlt, decide_eq_false_iff_not]
  intro heq
  exact regEntry_hash_ne hlt
    (congrArg CBlockIndex.hash (Option.some.inj heq))

theorem regTree_fork : regTree.fork forkEntry = [forkEntry] := by
  unfold BlockTree.fork
  rw [regTree_path]
  simp [regTree_forkEntry, regTree_isActive (show 320 < 531 by omega)]

theorem regTree_common : (regTree.common forkEntry).head? =
    some (regEntry 320) := by
  unfold BlockTree.common
  rw [regTree_path]
  simp [regTree_forkEntry, regTree_isActive (show 320 < 531 by omega)]

theorem regTree_tip : regTree.tip ≠ some forkEntry := by
  intro htip
  rw [BlockTree.tip] at htip
  obtain ⟨n, hn, heq⟩ := mem_regChain (List.mem_of_getLast? htip)
  exact regEntry_hash_ne hn (congrArg CBlockIndex.hash heq).symm

theorem zerocoinBlock_onFork :
    OnFork regTree zerocoinBlock forkEntry zerocoinStakeTx where
  stake := by decide
  stakeTx := rfl
  parent := by
    have hindex : regTree.mapBlockIndex = regIndex := rfl
    have hfork : zerocoinBlock.hashPrevBlock = 5000 := rfl
    rw [hindex, regIndex, if_pos hfork]
  notTip := regTree_tip

theorem regSpend_getIndexFrom (txin : CTxIn) :
    (regOracle.coinSpendOf txin).getIndexFrom regTestStakeParams regChain =
      some (regEntry 320) := by
  have hstart : chainAt regChain ((300 : Nat) : Int) = some (regEntry 300) := by
    rw [regChain_at, if_pos (by omega)]
  have hheight : getChecksumHeight regTestStakeParams regChain 5 .ZQ_ONE =
      320 := by
    unfold getChecksumHeight
    have hparam : regTestStakeParams.nZerocoinStartHeight = ((300 : Nat) : Int) :=
      rfl
    rw [hparam, hstart]
    exact regChain_checksum
  have hlength : chainHeight regChain = 530 := by
    rw [chainHeight, regChain_length]
    rfl
  have hfrom : chainAt regChain ((320 : Nat) : Int) = some (regEntry 320) := by
    rw [regChain_at, if_pos (by omega)]
  have hparts : (regOracle.coinSpendOf txin).nChecksum = 5 ∧
      (regOracle.coinSpendOf txin).denom = .ZQ_ONE := ⟨rfl, rfl⟩
  unfold CoinSpend.getIndexFrom
  simp only [hparts.1, hparts.2, hheight, hlength]
  rw [if_neg (by decide)]
  exact hfrom

theorem regSpend_contextualCheck : (regOracle.coinSpendOf
    (zerocoinInput 1)).contextualCheck regTestStakeParams regChain 321 =
      true := by
  have hlength : chainHeight regChain = 530 := by
    rw [chainHeight, regChain_length]
    rfl
  have h200 : chainAt regChain ((121 : Nat) : Int) = some (regEntry 121) := by
    rw [regChain_at, if_pos (by omega)]
  have hback : (321 : Int) - regTestStakeParams.nZerocoinRequiredStakeDepth =
      ((121 : Nat) : Int) := by
    decide
  unfold CoinSpend.contextualCheck
  rw [if_neg (by decide), regSpend_getIndexFrom]
  simp only [hlength, hback, h200]
  decide

/-- The block's stake passes: its checksum is the one of block 320, and of the
block 200 blocks before its parent. -/
theorem zerocoinBlock_kernel : (checkProofOfStake regTestStakeParams regOracle
    regTree.toNode zerocoinBlock 321).isSome = true := by
  have hchain : regTree.toNode.chainActive = regChain := rfl
  have hmodifier : (regOracle.coinSpendOf (zerocoinInput 1)).getModifier
      regTestStakeParams regChain = some 0 := by
    unfold CoinSpend.getModifier
    rw [regSpend_getIndexFrom]
    rfl
  have hstake : zerocoinStake regTestStakeParams regOracle regTree.toNode
      (zerocoinInput 1) 321 = some
        { pindexFrom := regEntry 320
          nStakeModifier := some 0
          uniqueness := .zerocoin 9
          nValue := COIN } := by
    unfold zerocoinStake
    simp only [hchain, regSpend_contextualCheck, regSpend_getIndexFrom,
      hmodifier]
    rfl
  have htx : zerocoinBlock.vtx[1]? = some zerocoinStakeTx := rfl
  have htxin : zerocoinStakeTx.vin.head? = some (zerocoinInput 1) := rfl
  have hcoinstake : (!zerocoinStakeTx.isCoinStake) = false := by decide
  have hzerocoin : (zerocoinInput 1).isZerocoinSpend = true := by decide
  unfold checkProofOfStake
  simp only [htx, htxin, hcoinstake, hzerocoin, Bool.false_eq_true, if_false,
    if_true, hstake, Option.bind_some]
  unfold checkKernel
  have hread : regTree.toNode.readBlockFromDisk (regEntry 320) =
      some (regBlock (regEntry 320)) := rfl
  simp only [hread]
  decide

/-- **A zerocoin staked again**: the only block of the fork spends it, and the
stake of the same serial on top of it is stored. -/
theorem spent_serial_stored :
    ¬ RejectsSpentSerials regTestStakeParams regOracle {} regTree false
      zerocoinBlock := by
  intro hrejects
  have hagr : agrInputs zerocoinStakeTx = [] := by decide
  have hzerocoins : zAGRInputs zerocoinStakeTx = [zerocoinInput 1] := by
    decide
  have hspent : StakesSpentSerial regOracle {} regTree forkEntry
      zerocoinStakeTx := by
    refine ⟨zerocoinInput 1, by rw [hzerocoins]; exact List.mem_singleton_self _,
      forkEntry, by rw [regTree_fork]; exact List.mem_singleton_self _,
      spendTx, by decide, zerocoinInput 0, by decide, by decide, by decide⟩
  refine hrejects forkEntry zerocoinStakeTx zerocoinBlock_onFork hspent
    (zerocoinBlock_onFork.acceptBlock_iff.mpr ⟨⟨?_, ?_, ?_, ?_⟩, ?_⟩)
  · exact ⟨by decide, zerocoinBlock_onFork.parent, rfl, rfl,
      zerocoinBlock_kernel, rfl, rfl, rfl, rfl⟩
  · constructor
    · decide
    · exact fun _ _ => rfl
    · intro _
      rw [regTree_fork]
      exact ⟨by decide, regEntry 320, regTree_common, fun _ _ => rfl, rfl⟩
    · exact fun _ _ _ => ⟨rfl, rfl⟩
  · rw [hagr]
    intro txin hmem
    cases hmem
  · intro txin hmem nHeightTx hfound
    cases hfound
  · rintro ⟨hsome, -⟩
    exact hsome hagr

end Agrarian.Stake
