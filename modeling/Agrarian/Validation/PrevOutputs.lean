import Agrarian.Lib.Reads
import Agrarian.Mempool.Accept
import Agrarian.Stake.AcceptBlock
import Agrarian.Zerocoin.Denominations

/-!
# The outputs of previous transactions

The look-ups of a previous transaction by `GetTransaction` on the way of a
received transaction or block, and what they read at `prevout.n`: `GetOutput`
for public zerocoin spends, `CheckProofOfStake` and the staked input.  The
code is written once, for its verdict (in `Option`) and for the accesses it
makes (in `Reads`).

`GetOutput` refuses an index beyond the number of outputs, not the number
itself, and `CheckProofOfStake` refuses none.  `IsIXTXValid` reads only what
is there.
-/

namespace Agrarian.PrevOutputs

open Agrarian.Lib Agrarian.Lib.Indexing
open Agrarian.Validation (COIN CoinDenomination isProofOfStake)
open Agrarian.Zerocoin (isZerocoin zerocoinDenominationToAmount)
open Agrarian.Stake (StakeParams Oracle Node StakeBlock BlockChecks BlockTree
  CBlockIndex)

/-- A zerocoin spend that was parsed; the denomination `none` is
`ZQ_ERROR`. -/
structure Spend where
  denomination : Option CoinDenomination
  txOutHash : Uint256
  coinSerialNumber : Uint256

/-- What parses and verifies spends, and the checks of a transaction that are
about its size, its values and its mints. -/
structure SpendChecks where
  /-- The hash of the outputs alone. -/
  hashTxOut : CTransaction → Uint256
  /-- `TxInToZerocoinSpend`. -/
  coinSpendOf : CTxIn → Spend
  parseCoinSpend : CTxIn → CTransaction → CTxOut → Option Spend
  validateInput : CTxIn → CTxOut → CTransaction → Bool
  /-- The accumulator is known and the spend verifies, or signatures are
  skipped. -/
  verifySpend : CTxIn → Bool
  outputsValid : Bool → CTransaction → Bool
  nMaxSpends : Nat
  nMaxPublicSpends : Nat

section Code

variable {m : Type → Type} [Monad m] [Indexing m]

/-! ## `GetOutput` -/

/-- `GetOutput`: only an index beyond the number of outputs is refused. -/
def getOutput (node : Node) (hash : Uint256) (index : Nat) : m CTxOut := do
  let txPrev ← ofOption (node.getTransaction hash)
  check (!decide (index > txPrev.1.vout.length))
  get txPrev.1.vout index

variable (checks : SpendChecks) (node : Node)

def parseZerocoinPublicSpend (tx : CTransaction) (txIn : CTxIn) : m Spend := do
  let prevOut ← getOutput node txIn.prevout.hash txIn.prevout.n
  ofOption (checks.parseCoinSpend txIn tx prevOut)

/-- The spend of an input, as the loops over the inputs take it. -/
def spendOf (tx : CTransaction) (txIn : CTxIn) : m Spend :=
  if txIn.isZerocoinPublicSpend then
    parseZerocoinPublicSpend checks node tx txIn
  else pure (checks.coinSpendOf txIn)

/-! ## `CheckTransaction` -/

/-- What the loop of `CheckZerocoinSpend` keeps. -/
structure SpendScan where
  serials : List Uint256 := []
  nTotalRedeemed : Int := 0
  fValidated : Bool := false

/-- The spend of an input, with the output it spends if it is public. -/
def newSpend (tx : CTransaction) (txin : CTxIn) :
    m (Spend × Option CTxOut) :=
  if txin.isZerocoinPublicSpend then do
    let prevOut ← getOutput node txin.prevout.hash txin.prevout.n
    let publicSpend ← ofOption (checks.parseCoinSpend txin tx prevOut)
    pure (publicSpend, some prevOut)
  else pure (checks.coinSpendOf txin, none)

/-- The checks of a spend that is there. -/
def acceptSpend (tx : CTransaction) (txin : CTxIn) (s : SpendScan)
    (p : Spend × Option CTxOut) : Option SpendScan :=
  match p.1.denomination with
  | none => none
  | some denomination =>
      if denomination.toInt ≠ txin.nSequence.toNat then none
      -- make sure the txout has not changed
      else if p.1.txOutHash ≠ checks.hashTxOut tx then none
      else if !(p.2.elim (checks.verifySpend txin) fun prevOut =>
          checks.validateInput txin prevOut tx) then none
      else if s.serials.contains p.1.coinSerialNumber then none
      else some
        { serials := p.1.coinSerialNumber :: s.serials
          nTotalRedeemed :=
            s.nTotalRedeemed + zerocoinDenominationToAmount denomination
          fValidated := true }

/-- One round of the loop over the inputs. -/
def checkSpend (tx : CTransaction) (s : SpendScan) (txin : CTxIn) :
    m SpendScan :=
  if isZerocoin txin then do
    let spend ← newSpend checks node tx txin
    ofOption (acceptSpend checks tx txin s spend)
  else pure s

/-- At most two outputs that are no mints, except in a stake. -/
def fewOutputs (tx : CTransaction) : Bool :=
  !(decide (tx.vout.length > 2) &&
    decide ((tx.vout.filter fun out => !out.isZerocoinMint).length > 2) &&
    !tx.isCoinStake)

def checkZerocoinSpend (tx : CTransaction) : m Unit := do
  check (fewOutputs tx)
  let s ← tx.vin.foldlM (checkSpend checks node tx) {}
  check (tx.isCoinStake ||
    !decide (s.nTotalRedeemed < (tx.vout.map CTxOut.nValue).sum))
  check s.fValidated

/-- The loop over the inputs that looks for duplicates; the number of private
spends. -/
def countSpends : List CTxIn → List COutPoint → Nat → Option Nat
  | [], _, nZCSpendCount => some nZCSpendCount
  | txin :: vin, vInOutPoints, nZCSpendCount =>
      if vInOutPoints.contains txin.prevout then none
      else if !txin.isZerocoinSpend then
        countSpends vin (txin.prevout :: vInOutPoints) nZCSpendCount
      else if !txin.isZerocoinPublicSpend then
        countSpends vin vInOutPoints (nZCSpendCount + 1)
      else countSpends vin vInOutPoints nZCSpendCount

/-- `CheckTransaction` up to the spends. -/
def checkBeforeSpends (fZerocoinActive : Bool) (tx : CTransaction) : Bool :=
  !tx.vin.isEmpty && !tx.vout.isEmpty &&
    checks.outputsValid fZerocoinActive tx &&
    (countSpends tx.vin [] 0).any fun nZCSpendCount =>
      !fZerocoinActive || decide (nZCSpendCount ≤ checks.nMaxSpends) &&
        (!tx.hasZerocoinSpendInputs || tx.vin.all isZerocoin)

/-- `CheckTransaction` after the spends. -/
def checkAfterSpends (fZerocoinActive : Bool) (tx : CTransaction) : Bool :=
  if tx.isCoinBase then
    let size := (tx.vin.head?.map fun txin => txin.scriptSig.length).getD 0
    decide (2 ≤ size) && decide (size ≤ 150)
  else if fZerocoinActive && tx.hasZerocoinSpendInputs then
    if tx.hasZerocoinPublicSpendInputs then
      decide (tx.vin.length ≤ checks.nMaxPublicSpends)
    else decide (tx.vin.length ≤ checks.nMaxSpends)
  else tx.vin.all fun txin =>
    !(txin.prevout.isNull && (fZerocoinActive && !txin.isZerocoinSpend))

def checkTransaction (fZerocoinActive : Bool) (tx : CTransaction) : m Unit := do
  check (checkBeforeSpends checks fZerocoinActive tx)
  (if fZerocoinActive && tx.hasZerocoinSpendInputs then
    checkZerocoinSpend checks node tx
  else pure ())
  check (checkAfterSpends checks fZerocoinActive tx)

/-! ## A received transaction -/

section Pool

open Agrarian.Mempool

variable (view : NodeView) (pool : CTxMemPool)
  (contextual : CTransaction → CTxIn → Spend → Bool)

/-- The checks of `AcceptToMemoryPool` between `CheckTransaction` and the
inputs. -/
def poolChecks (tx : CTransaction) : Except AcceptError Unit := do
  require (!tx.isCoinBase) (.dos 100 REJECT_INVALID "coinbase")
  require (!tx.isCoinStake) (.dos 100 REJECT_INVALID "coinstake")
  require (view.checkFinalTx tx) (.dos 0 REJECT_NONSTANDARD "non-final")
  checkStandard view tx
  require (pool.mapTx.find? tx.getHash).isNone .refused
  tx.vin.forM fun txin =>
    require (((view.mapLockedInputs txin.prevout).map fun hash =>
      decide (hash = tx.getHash)).getD true)
      (.dos 0 REJECT_INVALID "tx-lock-conflict")
  checkConflicts pool tx

/-- One input in the loop over the serials. -/
def poolSpend (tx : CTransaction) (txIn : CTxIn) : m Unit := do
  check (isZerocoin txIn &&
    checkPublicCoinSpendEnforced view txIn.isZerocoinPublicSpend)
  let spend ← spendOf checks node tx txIn
  check (contextual tx txIn spend)

def poolSpends (tx : CTransaction) : m Unit := do
  check (!view.isTransactionInChain tx.getHash)
  forM tx.vin (poolSpend checks node view contextual tx)

/-- Whether the spork for maintenance lets the transaction through. -/
def notInMaintenance (tx : CTransaction) : Bool :=
  !(decide (view.sporkMaintenance < view.adjustedTime) && tx.containsZerocoins)

/-- `AcceptToMemoryPool` up to the value that comes in; what follows looks up
coins only. -/
def acceptToMemoryPool (tx : CTransaction) : m Int := do
  check (notInMaintenance view tx)
  checkTransaction checks node
    (decide (view.nZerocoinStartHeight ≤ view.chainHeight)) tx
  fromExcept (poolChecks view pool tx)
  if tx.hasZerocoinSpendInputs then do
    poolSpends checks node view contextual tx
    pure (getZerocoinSpent tx)
  else fromExcept (acceptInputs view pool tx)

end Pool

/-- One input in the loop of `IsIXTXValid`: the value that comes in, and
whether a transaction is missing. -/
def ixInput (s : Int × Bool) (i : CTxIn) : m (Int × Bool) :=
  match node.getTransaction i.prevout.hash with
  | none => pure (s.1, true)
  | some tx2 =>
      if tx2.1.vout.length > i.prevout.n then do
        let out ← get tx2.1.vout i.prevout.n
        pure (s.1 + out.nValue, s.2)
      else pure s

/-- `IsIXTXValid`; `nMaxValue` is that of the spork. -/
def isIXTXValid (nMaxValue : Int) (txCollateral : CTransaction) : m Bool :=
  if txCollateral.vout.length < 1 then pure false
  else if txCollateral.nLockTime ≠ 0 then pure false
  else do
    let nValueOut := (txCollateral.vout.map CTxOut.nValue).sum
    let s ← txCollateral.vin.foldlM (ixInput node) (0, false)
    if nValueOut > nMaxValue * COIN then pure false
    -- unknown inputs are left to the network
    else if s.2 then pure true
    else pure (!decide (s.1 - nValueOut < COIN / 100))

/-! ## `CheckBlock` -/

/-- What `CheckBlock` checks before and after the transactions. -/
structure BlockView where
  nZerocoinStartTime : Int
  /-- The header, the Merkle root, the size, the coinbase and the coinstake,
  the locks and the payee. -/
  blockValid : StakeBlock → Bool
  sigOpsValid : StakeBlock → Bool

section Block

variable (view : BlockView) (block : StakeBlock)

/-- One input in the loop over the serials of the block. -/
def blockSerial (tx : CTransaction) (vBlockSerials : List Uint256)
    (txIn : CTxIn) : m (List Uint256) :=
  if isZerocoin txIn then do
    let spend ← spendOf checks node tx txIn
    check (!vBlockSerials.contains spend.coinSerialNumber)
    pure (vBlockSerials ++ [spend.coinSerialNumber])
  else pure vBlockSerials

/-- One transaction of the block. -/
def checkBlockTx (vBlockSerials : List Uint256) (tx : CTransaction) :
    m (List Uint256) := do
  checkTransaction checks node
    (decide ((block.nTime.toNat : Int) > view.nZerocoinStartTime)) tx
  if tx.hasZerocoinSpendInputs then
    tx.vin.foldlM (blockSerial checks node tx) vBlockSerials
  else pure vBlockSerials

def checkBlock : m Unit := do
  check (view.blockValid block)
  let _ ← block.vtx.foldlM (checkBlockTx checks node view block) []
  check (view.sigOpsValid block)

end Block

/-! ## `CheckProofOfStake` -/

/-- The staked input. -/
structure CPivStake where
  txFrom : CTransaction
  nPosition : Nat

/-- `CPivStake::SetInput`. -/
def setInput (txPrev : CTransaction) (n : Nat) : CPivStake := ⟨txPrev, n⟩

/-- `CPivStake::GetValue`. -/
def CPivStake.getValue (input : CPivStake) : m Int := do
  let out ← get input.txFrom.vout input.nPosition
  pure out.nValue

section Stake

open Agrarian.Stake (nStakeMinAge zerocoinStake checkKernel checkAge
  getKernelStakeModifier stakeTargetHit setCompact)

variable (params : StakeParams) (oracle : Oracle) (block : StakeBlock)

/-- The kernel of a staked output. -/
def checkCoinKernel (txin : CTxIn) (nPreviousBlockHeight : Int)
    (input : CPivStake) : m Uint256 := do
  let pindexFrom ← ofOption (node.getIndexFrom input.txFrom)
  let blockFrom ← ofOption (node.readBlockFromDisk pindexFrom)
  let nStakeModifier ← ofOption (getKernelStakeModifier params
    node.mapBlockIndex node.chainActive pindexFrom.hash)
  check (checkAge params txin nPreviousBlockHeight blockFrom.nTime block.nTime)
  let nValue ← input.getValue
  let hashProofOfStake := oracle.kernelHash nStakeModifier blockFrom.nTime
    (.coin input.nPosition input.txFrom.getHash) block.nTime
  check (stakeTargetHit hashProofOfStake nValue (setCompact block.nBits))
  pure hashProofOfStake

/-- The kernel input with the script it spends. -/
def checkCoinStake (tx : CTransaction) (txin : CTxIn)
    (nPreviousBlockHeight : Int) : m Uint256 := do
  let txPrev ← ofOption (node.getTransaction txin.prevout.hash)
  let out ← get txPrev.1.vout txin.prevout.n
  check (oracle.verifyScript tx txin out.scriptPubKey)
  checkCoinKernel node params oracle block txin nPreviousBlockHeight
    (setInput txPrev.1 txin.prevout.n)

def checkProofOfStake (nPreviousBlockHeight : Int) : m Uint256 := do
  let tx ← ofOption block.vtx[1]?
  check tx.isCoinStake
  let txin ← ofOption tx.vin.head?
  if txin.isZerocoinSpend then
    ofOption ((zerocoinStake params oracle node txin nPreviousBlockHeight).bind
      (checkKernel params oracle node block txin nPreviousBlockHeight))
  else checkCoinStake node params oracle block tx txin nPreviousBlockHeight

end Stake

/-! ## A received block -/

section Accept

open Agrarian.Stake (checkPublicCoinSpendEnforced agrInputs checkFork
  checkMainChain)

variable (params : StakeParams) (oracle : Oracle) (view : BlockView)
variable (bchecks : BlockChecks) (tree : BlockTree) (block : StakeBlock)

/-- One input of the block, for its serial and against the staked inputs. -/
def ownInput (nHeight : Int) (agrInputs : List CTxIn)
    (inBlockSerials : List Uint256) (p : CTransaction × CTxIn) :
    m (List Uint256) := do
  let inBlockSerials ←
    (if params.nZerocoinStartHeight ≤ nHeight ∧ isZerocoin p.2 then do
      check (checkPublicCoinSpendEnforced params nHeight
        p.2.isZerocoinPublicSpend)
      blockSerial checks tree.toNode p.1 inBlockSerials p.2
    else pure inBlockSerials)
  check (p.1.isCoinStake ||
    agrInputs.all fun agrIn => agrIn.prevout ≠ p.2.prevout)
  pure inBlockSerials

/-- The checks of the stake's inputs. -/
def checkStake (pindexPrev : CBlockIndex) (stakeTxIn : CTransaction) :
    m Unit := do
  let isBlockFromFork : Bool := tree.tip ≠ some pindexPrev
  let _ ← (block.vtx.flatMap fun tx => tx.vin.map fun txin =>
    (tx, txin)).foldlM (ownInput checks params tree (pindexPrev.nHeight + 1)
      (agrInputs stakeTxIn)) []
  fromExcept (checkFork oracle bchecks tree pindexPrev stakeTxIn
    isBlockFromFork)
  fromExcept (checkMainChain oracle bchecks tree pindexPrev stakeTxIn
    isBlockFromFork)

/-- `AcceptBlock` from the header on. -/
def acceptData (fAlreadyCheckedBlock : Bool) (stake : m Unit) : m Bool :=
  if !bchecks.acceptBlockHeader block then refuse
  else if bchecks.haveData block then pure false
  else do
    (if fAlreadyCheckedBlock then pure ()
    else checkBlock checks tree.toNode view block)
    check (bchecks.contextualCheckBlock block)
    stake
    check (bchecks.writeBlock block)
    pure true

def acceptBlock (fAlreadyCheckedBlock : Bool) : m Bool :=
  if block.hash = tree.hashGenesisBlock then
    if isProofOfStake block.toCBlock then refuse
    else acceptData checks view bchecks tree block fAlreadyCheckedBlock
      (pure ())
  else
    match tree.mapBlockIndex block.hashPrevBlock with
    | none => refuse
    | some pindexPrev =>
        if tree.failed pindexPrev then
          if bchecks.reconsiderBlock pindexPrev then pure false else refuse
        else if !bchecks.checkWork block pindexPrev then refuse
        else if !isProofOfStake block.toCBlock then
          acceptData checks view bchecks tree block fAlreadyCheckedBlock
            (pure ())
        else do
          let _ ← checkProofOfStake tree.toNode params oracle block
            pindexPrev.nHeight
          let stakeTxIn ← ofOption block.vtx[1]?
          acceptData checks view bchecks tree block fAlreadyCheckedBlock
            (checkStake checks params oracle bchecks tree block pindexPrev
              stakeTxIn)

/-- `ProcessNewBlock` up to the activation of the best chain. -/
def processNewBlock (fSignature : Bool) : m Bool := do
  checkBlock checks node view block
  check fSignature
  check (decide (block.hash = tree.hashGenesisBlock) ||
    (tree.mapBlockIndex block.hashPrevBlock).isSome)
  acceptBlock checks params oracle view bchecks tree block true

end Accept

/-! ## `ConnectBlock` -/

/-- What `ConnectBlock` checks besides the spends. -/
structure ConnectView where
  nHeight : Int
  fGenesis : Bool
  blockValid : StakeBlock → Bool
  /-- The signature operations, the maintenance mode and, for spends, that
  the transaction is new. -/
  txBefore : CTransaction → Bool
  contextualCheckZerocoinSpend : CTransaction → CTxIn → Spend → Bool
  /-- The mints, or the inputs of the other transactions. -/
  txAfter : CTransaction → Bool

section Connect

open Agrarian.Stake (checkPublicCoinSpendEnforced)

variable (params : StakeParams) (view : BlockView) (cview : ConnectView)

/-- One input in the loop over the serials. -/
def connectSpend (tx : CTransaction) (txIn : CTxIn) : m Unit :=
  if isZerocoin txIn then do
    check (checkPublicCoinSpendEnforced params cview.nHeight
      txIn.isZerocoinPublicSpend)
    let spend ← spendOf checks node tx txIn
    check (cview.contextualCheckZerocoinSpend tx txIn spend)
  else pure ()

def connectTx (tx : CTransaction) : m Unit := do
  check (cview.txBefore tx)
  (if tx.hasZerocoinSpendInputs then
    forM tx.vin (connectSpend checks node params cview tx)
  else pure ())
  check (cview.txAfter tx)

/-- `ConnectBlock` up to the end of the loop over its transactions. -/
def connectBlock (block : StakeBlock) (fAlreadyChecked : Bool) : m Unit := do
  (if fAlreadyChecked then pure () else checkBlock checks node view block)
  if cview.fGenesis then pure ()
  else do
    check (cview.blockValid block)
    forM block.vtx (connectTx checks node params cview)

end Connect

end Code

/-! ## The verdict does not depend on keeping the accesses -/

section Value

variable (checks : SpendChecks) (node : Node)

theorem value_getOutput (hash : Uint256) (index : Nat) :
    (getOutput node hash index : Reads CTxOut).value =
      getOutput node hash index := by
  simp only [getOutput, Reads.value_bind, Reads.value_ofOption,
    Reads.value_check, Reads.value_get]

theorem value_spendOf (tx : CTransaction) (txIn : CTxIn) :
    (spendOf checks node tx txIn : Reads Spend).value =
      spendOf checks node tx txIn := by
  simp only [spendOf, parseZerocoinPublicSpend, Reads.value_ite,
    Reads.value_bind, value_getOutput, Reads.value_ofOption, Reads.value_pure]

theorem value_newSpend (tx : CTransaction) (txin : CTxIn) :
    (newSpend checks node tx txin : Reads (Spend × Option CTxOut)).value =
      newSpend checks node tx txin := by
  simp only [newSpend, Reads.value_ite, Reads.value_bind, value_getOutput,
    Reads.value_ofOption, Reads.value_pure]

theorem value_checkSpend (tx : CTransaction) (s : SpendScan) (txin : CTxIn) :
    (checkSpend checks node tx s txin : Reads SpendScan).value =
      checkSpend checks node tx s txin := by
  simp only [checkSpend, Reads.value_ite, Reads.value_bind, value_newSpend,
    Reads.value_ofOption, Reads.value_pure]

theorem value_checkTransaction (fZerocoinActive : Bool) (tx : CTransaction) :
    (checkTransaction checks node fZerocoinActive tx : Reads Unit).value =
      checkTransaction checks node fZerocoinActive tx := by
  simp only [checkTransaction, checkZerocoinSpend, Reads.value_ite,
    Reads.value_bind, Reads.value_check, Reads.value_pure,
    Reads.value_foldlM (value_checkSpend checks node tx)]

theorem value_blockSerial (tx : CTransaction) (serials : List Uint256)
    (txIn : CTxIn) :
    (blockSerial checks node tx serials txIn : Reads (List Uint256)).value =
      blockSerial checks node tx serials txIn := by
  simp only [blockSerial, Reads.value_ite, Reads.value_bind, value_spendOf,
    Reads.value_check, Reads.value_pure]

theorem value_checkBlockTx (view : BlockView) (block : StakeBlock)
    (serials : List Uint256) (tx : CTransaction) :
    (checkBlockTx checks node view block serials tx :
      Reads (List Uint256)).value =
        checkBlockTx checks node view block serials tx := by
  simp only [checkBlockTx, Reads.value_ite, Reads.value_bind,
    value_checkTransaction, Reads.value_pure,
    Reads.value_foldlM (value_blockSerial checks node tx)]

theorem value_checkBlock (view : BlockView) (block : StakeBlock) :
    (checkBlock checks node view block : Reads Unit).value =
      checkBlock checks node view block := by
  simp only [checkBlock, Reads.value_bind, Reads.value_check,
    Reads.value_foldlM (value_checkBlockTx checks node view block)]

theorem value_checkProofOfStake (params : StakeParams) (oracle : Oracle)
    (block : StakeBlock) (nPreviousBlockHeight : Int) :
    (checkProofOfStake node params oracle block nPreviousBlockHeight :
      Reads Uint256).value =
        checkProofOfStake node params oracle block nPreviousBlockHeight := by
  simp only [checkProofOfStake, checkCoinStake, checkCoinKernel,
    CPivStake.getValue, Reads.value_ite, Reads.value_bind,
    Reads.value_ofOption, Reads.value_check, Reads.value_get, Reads.value_pure]

theorem value_ownInput (params : StakeParams) (tree : BlockTree)
    (nHeight : Int) (agrInputs : List CTxIn) (serials : List Uint256)
    (p : CTransaction × CTxIn) :
    (ownInput checks params tree nHeight agrInputs serials p :
      Reads (List Uint256)).value =
        ownInput checks params tree nHeight agrInputs serials p := by
  simp only [ownInput, Reads.value_ite, Reads.value_bind, Reads.value_check,
    value_blockSerial, Reads.value_pure]

theorem value_connectSpend (params : StakeParams) (cview : ConnectView)
    (tx : CTransaction) (txIn : CTxIn) :
    (connectSpend checks node params cview tx txIn : Reads Unit).value =
      connectSpend checks node params cview tx txIn := by
  simp only [connectSpend, Reads.value_ite, Reads.value_bind, value_spendOf,
    Reads.value_check, Reads.value_pure]

theorem value_connectTx (params : StakeParams) (cview : ConnectView)
    (tx : CTransaction) :
    (connectTx checks node params cview tx : Reads Unit).value =
      connectTx checks node params cview tx := by
  simp only [connectTx, Reads.value_ite, Reads.value_bind, Reads.value_check,
    Reads.value_pure,
    Reads.value_forM (value_connectSpend checks node params cview tx)]

end Value

section Kernel

variable (node : Node) (params : StakeParams) (oracle : Oracle)
variable (block : StakeBlock)

theorem checkCoinKernel_eq (txin : CTxIn) (nPreviousBlockHeight : Int)
    (txPrev : CTransaction) {out : CTxOut}
    (hout : txPrev.vout[txin.prevout.n]? = some out) :
    (checkCoinKernel node params oracle block txin nPreviousBlockHeight
      (setInput txPrev txin.prevout.n) : Option Uint256) =
        ((node.getIndexFrom txPrev).map fun pindexFrom =>
          { pindexFrom
            nStakeModifier := Stake.getKernelStakeModifier params
              node.mapBlockIndex node.chainActive pindexFrom.hash
            uniqueness := .coin txin.prevout.n txPrev.getHash
            nValue := out.nValue }).bind
          (Stake.checkKernel params oracle node block txin
            nPreviousBlockHeight) := by
  simp only [checkCoinKernel, setInput, CPivStake.getValue, ofOption_option,
    Option.bind_eq_bind, check_bind, Option.pure_def]
  cases node.getIndexFrom txPrev with
  | none => rfl
  | some pindexFrom =>
      rw [Option.map_some, Option.bind_some, Option.bind_some,
        Stake.checkKernel]
      cases node.readBlockFromDisk pindexFrom with
      | none => rfl
      | some blockFrom =>
          rw [Option.bind_some]
          dsimp only
          cases Stake.getKernelStakeModifier params node.mapBlockIndex
              node.chainActive pindexFrom.hash with
          | none => rfl
          | some nStakeModifier =>
              rw [Option.bind_some]
              cases Stake.checkAge params txin nPreviousBlockHeight
                  blockFrom.nTime block.nTime with
              | false => rfl
              | true =>
                  have hget : (Indexing.get txPrev.vout txin.prevout.n :
                      Option CTxOut) = some out := hout
                  rw [hget]
                  rfl

theorem checkCoinStake_eq (tx : CTransaction) (txin : CTxIn)
    (nPreviousBlockHeight : Int) :
    (checkCoinStake node params oracle block tx txin nPreviousBlockHeight :
      Option Uint256) =
        (Stake.coinStake params oracle node tx txin).bind
          (Stake.checkKernel params oracle node block txin
            nPreviousBlockHeight) := by
  simp only [checkCoinStake, ofOption_option, Option.bind_eq_bind, check_bind]
  rw [Stake.coinStake]
  cases node.getTransaction txin.prevout.hash with
  | none => rfl
  | some txPrev =>
      obtain ⟨txPrev, hashBlock⟩ := txPrev
      rw [Option.bind_some]
      dsimp only
      cases hout : txPrev.vout[txin.prevout.n]? with
      | none =>
          have hget : (Indexing.get txPrev.vout txin.prevout.n :
              Option CTxOut) = none := hout
          rw [hget]
          rfl
      | some out =>
          have hget : (Indexing.get txPrev.vout txin.prevout.n :
              Option CTxOut) = some out := hout
          rw [hget, Option.bind_some, checkCoinKernel_eq node params oracle
            block txin nPreviousBlockHeight txPrev hout]
          dsimp only
          cases oracle.verifyScript tx txin out.scriptPubKey with
          | false => rfl
          | true => rfl

/-- The verdict on a block's kernel is that of the kernel's own check. -/
theorem checkProofOfStake_eq (nPreviousBlockHeight : Int) :
    (checkProofOfStake node params oracle block nPreviousBlockHeight :
      Option Uint256) =
        Stake.checkProofOfStake params oracle node block
          nPreviousBlockHeight := by
  simp only [checkProofOfStake, ofOption_option, Option.bind_eq_bind,
    check_bind, checkCoinStake_eq]
  rw [Stake.checkProofOfStake]
  cases block.vtx[1]? with
  | none => rfl
  | some tx =>
      rw [Option.bind_some]
      dsimp only
      cases tx.isCoinStake with
      | false => rfl
      | true =>
          cases tx.vin.head? with
          | none => rfl
          | some txin =>
              rw [Option.bind_some]
              dsimp only
              cases txin.isZerocoinSpend with
              | false => rfl
              | true => rfl

end Kernel

/-! ## Single accesses -/

/-- The transaction is found, and its outputs end just before the index. -/
def PastEnd (node : Node) (out : COutPoint) : Prop :=
  ∃ txPrev hashBlock,
    node.getTransaction out.hash = some (txPrev, hashBlock) ∧
      out.n = txPrev.vout.length

section Single

variable (checks : SpendChecks) (node : Node)

/-- **One past the end.**  `GetOutput` reads out of range exactly at the
number of outputs, which its comparison lets through. -/
theorem getOutput_safe (hash : Uint256) (index : Nat) :
    (getOutput node hash index : Reads CTxOut).Safe ↔
      ¬ PastEnd node ⟨hash, index⟩ := by
  rw [getOutput, Reads.safe_bind]
  simp only [Reads.safe_ofOption, true_and, Reads.value_ofOption,
    ofOption_option, Reads.safe_check_bind, Reads.safe_get,
    Bool.not_eq_true', decide_eq_false_iff_not]
  constructor
  · rintro h ⟨txPrev, hashBlock, hfound, hend⟩
    have hlt := h _ hfound
    dsimp only at hend hlt
    omega
  · rintro h ⟨txPrev, hashBlock⟩ hfound hle
    have hne : index ≠ txPrev.vout.length :=
      fun heq => h ⟨txPrev, hashBlock, hfound, heq⟩
    dsimp only at hle ⊢
    omega

theorem spendOf_safe (tx : CTransaction) (txIn : CTxIn) :
    (spendOf checks node tx txIn : Reads Spend).Safe ↔
      (txIn.isZerocoinPublicSpend = true → ¬ PastEnd node txIn.prevout) := by
  rw [spendOf, Reads.safe_ite_of_safe (Reads.safe_pure _),
    parseZerocoinPublicSpend,
    Reads.safe_bind_of_safe fun _ => Reads.safe_ofOption _, getOutput_safe]

theorem newSpend_safe (tx : CTransaction) (txin : CTxIn) :
    (newSpend checks node tx txin : Reads (Spend × Option CTxOut)).Safe ↔
      (txin.isZerocoinPublicSpend = true → ¬ PastEnd node txin.prevout) := by
  have hrest : ∀ prevOut, (ofOption (checks.parseCoinSpend txin tx prevOut) >>=
      fun publicSpend => pure (publicSpend, some prevOut) :
        Reads (Spend × Option CTxOut)).Safe := by
    intro prevOut
    rw [Reads.safe_bind_of_safe fun _ => Reads.safe_pure _]
    exact Reads.safe_ofOption _
  rw [newSpend, Reads.safe_ite_of_safe (Reads.safe_pure _),
    Reads.safe_bind_of_safe hrest, getOutput_safe]

theorem isZerocoin_of_public {txin : CTxIn}
    (h : txin.isZerocoinPublicSpend = true) : isZerocoin txin = true := by
  rw [isZerocoin, h, Bool.or_true]

theorem isZerocoin_public_imp {txin : CTxIn} {p : Prop} :
    (isZerocoin txin = true → txin.isZerocoinPublicSpend = true → p) ↔
      (txin.isZerocoinPublicSpend = true → p) :=
  ⟨fun h hpublic => h (isZerocoin_of_public hpublic) hpublic, fun h _ => h⟩

theorem checkSpend_safe (tx : CTransaction) (s : SpendScan) (txin : CTxIn) :
    (checkSpend checks node tx s txin : Reads SpendScan).Safe ↔
      (txin.isZerocoinPublicSpend = true → ¬ PastEnd node txin.prevout) := by
  rw [checkSpend, Reads.safe_ite_of_safe (Reads.safe_pure _),
    Reads.safe_bind_of_safe fun _ => Reads.safe_ofOption _, newSpend_safe,
    isZerocoin_public_imp]

theorem blockSerial_safe (tx : CTransaction) (serials : List Uint256)
    (txIn : CTxIn) :
    (blockSerial checks node tx serials txIn : Reads (List Uint256)).Safe ↔
      (txIn.isZerocoinPublicSpend = true → ¬ PastEnd node txIn.prevout) := by
  have hrest : ∀ spend : Spend, (check
      (!serials.contains spend.coinSerialNumber) >>= fun _ =>
        pure (serials ++ [spend.coinSerialNumber]) :
          Reads (List Uint256)).Safe := by
    intro spend
    rw [Reads.safe_bind_of_safe fun _ => Reads.safe_pure _]
    exact Reads.safe_check _
  rw [blockSerial, Reads.safe_ite_of_safe (Reads.safe_pure _),
    Reads.safe_bind_of_safe hrest, spendOf_safe, isZerocoin_public_imp]

/-- `IsIXTXValid` compares the index with the number of outputs first. -/
theorem isIXTXValid_safe (nMaxValue : Int) (txCollateral : CTransaction) :
    (isIXTXValid node nMaxValue txCollateral : Reads Bool).Safe := by
  have hinput : ∀ (s : Int × Bool) (i : CTxIn),
      (ixInput node s i : Reads (Int × Bool)).Safe := by
    intro s i
    rw [ixInput]
    split
    · exact Reads.safe_pure _
    · split
      · next hlt =>
          rw [Reads.safe_bind, Reads.safe_get]
          exact ⟨hlt, fun _ _ => Reads.safe_pure _⟩
      · exact Reads.safe_pure _
  rw [isIXTXValid]
  split
  · exact Reads.safe_pure _
  · split
    · exact Reads.safe_pure _
    · rw [Reads.safe_bind, Reads.safe_foldlM]
      refine ⟨fun _ _ _ _ _ _ => hinput _ _, fun s _ => ?_⟩
      split
      · exact Reads.safe_pure _
      · split
        · exact Reads.safe_pure _
        · exact Reads.safe_pure _

/-- The kernel input of a stake that is no private spend names an output of
the transaction it refers to. -/
def KernelInRange (block : StakeBlock) : Prop :=
  ∀ tx txin txPrev hashBlock, block.vtx[1]? = some tx →
    tx.isCoinStake = true → tx.vin.head? = some txin →
    txin.isZerocoinSpend = false →
    node.getTransaction txin.prevout.hash = some (txPrev, hashBlock) →
    txin.prevout.n < txPrev.vout.length

theorem checkCoinKernel_safe {params : StakeParams} {oracle : Oracle}
    {block : StakeBlock} {txin : CTxIn} {nPreviousBlockHeight : Int}
    {input : CPivStake} (h : input.nPosition < input.txFrom.vout.length) :
    (checkCoinKernel node params oracle block txin nPreviousBlockHeight input :
      Reads Uint256).Safe := by
  simp only [checkCoinKernel, CPivStake.getValue, Reads.safe_bind,
    Reads.safe_ofOption, Reads.safe_check, Reads.safe_get, Reads.safe_pure,
    h, implies_true, and_true]

/-- `CheckProofOfStake` and the staked input read in range exactly when the
kernel input does. -/
theorem checkProofOfStake_safe (params : StakeParams) (oracle : Oracle)
    (block : StakeBlock) (nPreviousBlockHeight : Int) :
    (checkProofOfStake node params oracle block nPreviousBlockHeight :
      Reads Uint256).Safe ↔ KernelInRange node block := by
  have hcoin : ∀ tx txin, (checkCoinStake node params oracle block tx txin
      nPreviousBlockHeight : Reads Uint256).Safe ↔
        ∀ txPrev hashBlock, node.getTransaction txin.prevout.hash =
          some (txPrev, hashBlock) → txin.prevout.n < txPrev.vout.length := by
    intro tx txin
    rw [checkCoinStake, Reads.safe_bind]
    simp only [Reads.safe_ofOption, true_and, Reads.value_ofOption,
      ofOption_option, Prod.forall]
    refine forall₂_congr fun txPrev hashBlock => imp_congr_right fun _ => ?_
    rw [Reads.safe_bind, Reads.safe_get]
    refine ⟨fun h => h.1, fun h => ⟨h, fun out _ => ?_⟩⟩
    rw [Reads.safe_check_bind]
    exact fun _ => checkCoinKernel_safe node h
  simp only [checkProofOfStake, Reads.safe_bind, Reads.safe_ofOption, true_and,
    Reads.value_ofOption, ofOption_option, Reads.safe_check,
    Reads.value_check, check_eq_some, forall_const]
  constructor
  · intro h tx txin txPrev hashBlock htx hstake htxin hcoinin hfound
    have hrest := h tx htx hstake txin htxin
    rw [if_neg (by rw [hcoinin]; decide), hcoin] at hrest
    exact hrest txPrev hashBlock hfound
  · intro h tx htx hstake txin htxin
    split
    · exact Reads.safe_ofOption _
    · next hcoinin =>
        rw [hcoin]
        exact fun txPrev hashBlock => h tx txin txPrev hashBlock htx hstake
          htxin (Bool.eq_false_iff.mpr hcoinin)

end Single

/-! ## The ways of a transaction and of a block -/

section Ways

variable (checks : SpendChecks) (node : Node)

/-- `CheckTransaction` comes to the look-up for a public spend: all that it
checks before passes. -/
def TransactionLooksUp (fZerocoinActive : Bool) (tx : CTransaction)
    (txin : CTxIn) : Prop :=
  checkBeforeSpends checks fZerocoinActive tx = true ∧
    (fZerocoinActive && tx.hasZerocoinSpendInputs) = true ∧
    fewOutputs tx = true ∧
    ∃ before after s, tx.vin = before ++ txin :: after ∧
      before.foldlM (checkSpend checks node tx) {} = some s ∧
      txin.isZerocoinPublicSpend = true

theorem checkTransaction_safe (fZerocoinActive : Bool) (tx : CTransaction) :
    (checkTransaction checks node fZerocoinActive tx : Reads Unit).Safe ↔
      ∀ txin, TransactionLooksUp checks node fZerocoinActive tx txin →
        ¬ PastEnd node txin.prevout := by
  have hspends : (checkZerocoinSpend checks node tx : Reads Unit).Safe ↔
      (fewOutputs tx = true → ∀ before txin after s,
        tx.vin = before ++ txin :: after →
        before.foldlM (checkSpend checks node tx) {} = some s →
        txin.isZerocoinPublicSpend = true → ¬ PastEnd node txin.prevout) := by
    have hrest : ∀ s : SpendScan, (check (tx.isCoinStake ||
        !decide (s.nTotalRedeemed < (tx.vout.map CTxOut.nValue).sum)) >>=
          fun _ => check s.fValidated : Reads Unit).Safe := by
      intro s
      rw [Reads.safe_bind_of_safe fun _ => Reads.safe_check _]
      exact Reads.safe_check _
    rw [checkZerocoinSpend, Reads.safe_check_bind,
      Reads.safe_bind_of_safe hrest, Reads.safe_foldlM]
    simp only [Reads.value_foldlM (value_checkSpend checks node tx),
      checkSpend_safe]
  rw [checkTransaction, Reads.safe_check_bind,
    Reads.safe_bind_of_safe fun _ => Reads.safe_check _,
    Reads.safe_ite_of_safe (Reads.safe_pure ()), hspends]
  constructor
  · rintro h txin ⟨hbefore, hactive, hfew, before, after, s, hvin, hs, hpublic⟩
    exact h hbefore hactive hfew before txin after s hvin hs hpublic
  · intro h hbefore hactive hfew before txin after s hvin hs hpublic
    exact h txin
      ⟨hbefore, hactive, hfew, before, after, s, hvin, hs, hpublic⟩

section Pool

open Agrarian.Mempool

variable (view : NodeView) (pool : CTxMemPool)
  (contextual : CTransaction → CTxIn → Spend → Bool)

/-- `AcceptToMemoryPool` comes to a look-up: in `CheckTransaction`, or in its
own loop over the serials. -/
def PoolLooksUp (tx : CTransaction) (txin : CTxIn) : Prop :=
  notInMaintenance view tx = true ∧
    (TransactionLooksUp checks node
        (decide (view.nZerocoinStartHeight ≤ view.chainHeight)) tx txin ∨
      checkTransaction checks node
          (decide (view.nZerocoinStartHeight ≤ view.chainHeight)) tx =
            some () ∧
        poolChecks view pool tx = .ok () ∧
        tx.hasZerocoinSpendInputs = true ∧
        (!view.isTransactionInChain tx.getHash) = true ∧
        ∃ before after, tx.vin = before ++ txin :: after ∧
          forM before (poolSpend checks node view contextual tx) = some () ∧
          (isZerocoin txin && checkPublicCoinSpendEnforced view
            txin.isZerocoinPublicSpend) = true ∧
          txin.isZerocoinPublicSpend = true)

theorem value_poolSpend (tx : CTransaction) (txIn : CTxIn) :
    (poolSpend checks node view contextual tx txIn : Reads Unit).value =
      poolSpend checks node view contextual tx txIn := by
  simp only [poolSpend, Reads.value_bind, value_spendOf, Reads.value_check]

theorem acceptToMemoryPool_safe (tx : CTransaction) :
    (acceptToMemoryPool checks node view pool contextual tx :
      Reads Int).Safe ↔
      ∀ txin, PoolLooksUp checks node view pool contextual tx txin →
        ¬ PastEnd node txin.prevout := by
  have hspends : (poolSpends checks node view contextual tx :
      Reads Unit).Safe ↔
      ((!view.isTransactionInChain tx.getHash) = true → ∀ before txin after,
        tx.vin = before ++ txin :: after →
        forM before (poolSpend checks node view contextual tx) = some () →
        (isZerocoin txin && checkPublicCoinSpendEnforced view
          txin.isZerocoinPublicSpend) = true →
        txin.isZerocoinPublicSpend = true → ¬ PastEnd node txin.prevout) := by
    rw [poolSpends, Reads.safe_check_bind, Reads.safe_forM]
    simp only [Reads.value_forM (value_poolSpend checks node view contextual tx),
      poolSpend, Reads.safe_bind, spendOf_safe, Reads.safe_check,
      Reads.value_check, check_eq_some, forall_const, implies_true, and_true,
      true_and]
  have hvalue : (if tx.hasZerocoinSpendInputs then do
      poolSpends checks node view contextual tx
      pure (getZerocoinSpent tx)
    else fromExcept (acceptInputs view pool tx) : Reads Int).Safe ↔
      (tx.hasZerocoinSpendInputs = true →
        (poolSpends checks node view contextual tx : Reads Unit).Safe) := by
    rw [Reads.safe_ite_of_safe (Reads.safe_fromExcept _),
      Reads.safe_bind_of_safe fun _ => Reads.safe_pure _]
  rw [acceptToMemoryPool]
  simp only [Reads.safe_bind, Reads.safe_check, Reads.value_check,
    check_eq_some, forall_const, true_and, checkTransaction_safe,
    value_checkTransaction, Reads.safe_fromExcept, Reads.value_fromExcept,
    fromExcept_eq_some, hvalue, hspends]
  constructor
  · rintro h txin ⟨hspork, hcheck | ⟨htx, hpool, hspend, hnew, before, after,
      hvin, hbefore, hinput, hpublic⟩⟩
    · exact (h hspork).1 txin hcheck
    · exact (h hspork).2 () htx () hpool hspend hnew before txin after hvin
        hbefore hinput hpublic
  · intro h hspork
    refine ⟨fun txin hcheck => h txin ⟨hspork, Or.inl hcheck⟩, ?_⟩
    intro _ htx _ hpool hspend hnew before txin after hvin hbefore hinput
      hpublic
    exact h txin ⟨hspork, Or.inr ⟨htx, hpool, hspend, hnew, before, after,
      hvin, hbefore, hinput, hpublic⟩⟩

end Pool

section Block

variable (view : BlockView) (block : StakeBlock)

/-- `CheckBlock` comes to a look-up for an input of one of its transactions:
in `CheckTransaction`, or in its own loop over the serials. -/
def BlockLooksUp (tx : CTransaction) (txin : CTxIn) : Prop :=
  view.blockValid block = true ∧
    ∃ before after serials, block.vtx = before ++ tx :: after ∧
      before.foldlM (checkBlockTx checks node view block) [] = some serials ∧
      (TransactionLooksUp checks node
          (decide ((block.nTime.toNat : Int) > view.nZerocoinStartTime)) tx
            txin ∨
        checkTransaction checks node
            (decide ((block.nTime.toNat : Int) > view.nZerocoinStartTime)) tx =
              some () ∧
          tx.hasZerocoinSpendInputs = true ∧
          ∃ before' after' serials', tx.vin = before' ++ txin :: after' ∧
            before'.foldlM (blockSerial checks node tx) serials =
              some serials' ∧
            txin.isZerocoinPublicSpend = true)

theorem checkBlock_safe :
    (checkBlock checks node view block : Reads Unit).Safe ↔
      ∀ tx txin, BlockLooksUp checks node view block tx txin →
        ¬ PastEnd node txin.prevout := by
  have hserials : ∀ (serials : List Uint256) (tx : CTransaction),
      (if tx.hasZerocoinSpendInputs then
        tx.vin.foldlM (blockSerial checks node tx) serials
      else pure serials : Reads (List Uint256)).Safe ↔
        (tx.hasZerocoinSpendInputs = true → ∀ before txin after serials',
          tx.vin = before ++ txin :: after →
          before.foldlM (blockSerial checks node tx) serials =
            some serials' →
          txin.isZerocoinPublicSpend = true →
          ¬ PastEnd node txin.prevout) := by
    intro serials tx
    rw [Reads.safe_ite_of_safe (Reads.safe_pure _), Reads.safe_foldlM]
    simp only [Reads.value_foldlM (value_blockSerial checks node tx),
      blockSerial_safe]
  rw [checkBlock]
  simp only [Reads.safe_bind, Reads.safe_check, Reads.value_check,
    check_eq_some, forall_const, true_and, implies_true, and_true,
    Reads.safe_foldlM,
    Reads.value_foldlM (value_checkBlockTx checks node view block)]
  simp only [checkBlockTx, Reads.safe_bind, checkTransaction_safe,
    value_checkTransaction, hserials]
  constructor
  · rintro h tx txin ⟨hvalid, before, after, serials, hvtx, hbefore,
      hcheck | ⟨htx, hspend, before', after', serials', hvin, hserials',
        hpublic⟩⟩
    · exact (h hvalid before tx after serials hvtx hbefore).1 txin hcheck
    · exact (h hvalid before tx after serials hvtx hbefore).2 () htx hspend
        before' txin after' serials' hvin hserials' hpublic
  · intro h hvalid before tx after serials hvtx hbefore
    refine ⟨fun txin hcheck => h tx txin
      ⟨hvalid, before, after, serials, hvtx, hbefore, Or.inl hcheck⟩, ?_⟩
    intro _ htx hspend before' txin after' serials' hvin hserials' hpublic
    exact h tx txin ⟨hvalid, before, after, serials, hvtx, hbefore,
      Or.inr ⟨htx, hspend, before', after', serials', hvin, hserials',
        hpublic⟩⟩

end Block

section Accept

open Agrarian.Stake (checkPublicCoinSpendEnforced agrInputs)

variable (params : StakeParams) (oracle : Oracle) (view : BlockView)
variable (bchecks : BlockChecks) (tree : BlockTree) (block : StakeBlock)

/-- `AcceptBlock` comes to `CheckProofOfStake`, on top of this block. -/
structure StakeReached (pindexPrev : CBlockIndex) : Prop where
  later : block.hash ≠ tree.hashGenesisBlock
  indexed : tree.mapBlockIndex block.hashPrevBlock = some pindexPrev
  valid : tree.failed pindexPrev = false
  work : bchecks.checkWork block pindexPrev = true
  stake : isProofOfStake block.toCBlock = true

/-- The loop over the inputs of the block, against those of the stake, comes
to a look-up. -/
def OwnLooksUp (nHeight : Int) (agrInputs : List CTxIn) (txin : CTxIn) : Prop :=
  ∃ before tx after serials,
    (block.vtx.flatMap fun tx => tx.vin.map fun txin => (tx, txin)) =
      before ++ (tx, txin) :: after ∧
    before.foldlM (ownInput checks params tree nHeight agrInputs) [] =
      some serials ∧
    params.nZerocoinStartHeight ≤ nHeight ∧
    checkPublicCoinSpendEnforced params nHeight
      txin.isZerocoinPublicSpend = true ∧
    txin.isZerocoinPublicSpend = true

/-- `AcceptBlock` comes to a look-up for a serial. -/
def StakeLooksUp (txin : CTxIn) : Prop :=
  ∃ pindexPrev stakeTxIn hashProofOfStake,
    StakeReached bchecks tree block pindexPrev ∧
    Stake.checkProofOfStake params oracle tree.toNode block
      pindexPrev.nHeight = some hashProofOfStake ∧
    block.vtx[1]? = some stakeTxIn ∧
    bchecks.acceptBlockHeader block = true ∧
    bchecks.haveData block = false ∧
    bchecks.contextualCheckBlock block = true ∧
    OwnLooksUp checks params tree block (pindexPrev.nHeight + 1)
      (agrInputs stakeTxIn) txin

theorem ownInput_safe (nHeight : Int) (agrInputs : List CTxIn)
    (serials : List Uint256) (p : CTransaction × CTxIn) :
    (ownInput checks params tree nHeight agrInputs serials p :
      Reads (List Uint256)).Safe ↔
      (params.nZerocoinStartHeight ≤ nHeight →
        checkPublicCoinSpendEnforced params nHeight
          p.2.isZerocoinPublicSpend = true →
        p.2.isZerocoinPublicSpend = true →
        ¬ PastEnd tree.toNode p.2.prevout) := by
  have hrest : ∀ inBlockSerials : List Uint256, (check (p.1.isCoinStake ||
      agrInputs.all fun agrIn => agrIn.prevout ≠ p.2.prevout) >>= fun _ =>
        pure inBlockSerials : Reads (List Uint256)).Safe := by
    intro inBlockSerials
    rw [Reads.safe_bind_of_safe fun _ => Reads.safe_pure _]
    exact Reads.safe_check _
  rw [ownInput, Reads.safe_bind_of_safe hrest,
    Reads.safe_ite_of_safe (Reads.safe_pure _), Reads.safe_check_bind,
    blockSerial_safe, and_imp]
  refine imp_congr_right fun _ => ⟨fun h hversion hpublic => ?_, fun h _ => h⟩
  exact h (isZerocoin_of_public hpublic) hversion hpublic

theorem acceptData_safe (stake : Reads Unit) :
    (acceptData checks view bchecks tree block true stake : Reads Bool).Safe ↔
      (bchecks.acceptBlockHeader block = true →
        bchecks.haveData block = false →
        bchecks.contextualCheckBlock block = true → stake.Safe) := by
  rw [acceptData]
  cases bchecks.acceptBlockHeader block with
  | false => exact ⟨fun _ h => (by cases h), fun _ => Reads.safe_refuse⟩
  | true =>
      cases bchecks.haveData block with
      | true => exact ⟨fun _ _ h => (by cases h), fun _ => Reads.safe_pure _⟩
      | false =>
          simp only [Bool.not_true, Bool.false_eq_true, if_false, if_true,
            Reads.safe_bind, Reads.safe_pure, Reads.safe_check,
            Reads.value_check, check_eq_some, forall_const, true_and,
            implies_true, and_true, Reads.value_pure]
          exact ⟨fun h => h () rfl, fun h _ _ => h⟩

theorem checkStake_safe (pindexPrev : CBlockIndex) (stakeTxIn : CTransaction) :
    (checkStake checks params oracle bchecks tree block pindexPrev stakeTxIn :
      Reads Unit).Safe ↔
      ∀ txin, OwnLooksUp checks params tree block (pindexPrev.nHeight + 1)
        (agrInputs stakeTxIn) txin → ¬ PastEnd tree.toNode txin.prevout := by
  simp only [checkStake, Reads.safe_bind, Reads.safe_fromExcept, implies_true,
    and_true, Reads.safe_foldlM, ownInput_safe, Reads.value_foldlM
      (value_ownInput checks params tree (pindexPrev.nHeight + 1)
        (agrInputs stakeTxIn))]
  constructor
  · rintro h txin ⟨before, tx, after, serials, hvin, hbefore, hstart, hversion,
      hpublic⟩
    exact h before (tx, txin) after serials hvin hbefore hstart hversion hpublic
  · rintro h before ⟨tx, txin⟩ after serials hvin hbefore hstart hversion hpublic
    exact h txin ⟨before, tx, after, serials, hvin, hbefore, hstart, hversion,
      hpublic⟩

/-- Short of the stake nothing is looked up. -/
theorem acceptBlock_short
    (h : ∀ pindexPrev, ¬ StakeReached bchecks tree block pindexPrev) :
    (acceptBlock checks params oracle view bchecks tree block true :
      Reads Bool).Safe := by
  have hnostake : (acceptData checks view bchecks tree block true (pure ()) :
      Reads Bool).Safe := by
    rw [acceptData_safe]
    exact fun _ _ _ => Reads.safe_pure ()
  rw [acceptBlock]
  split
  · split
    · exact Reads.safe_refuse
    · exact hnostake
  · next hlater =>
      split
      · exact Reads.safe_refuse
      · next pindexPrev hprev =>
          split
          · split
            · exact Reads.safe_pure _
            · exact Reads.safe_refuse
          · next hvalid =>
              split
              · exact Reads.safe_refuse
              · next hwork =>
                  split
                  · exact hnostake
                  · next hstake =>
                      refine absurd ⟨hlater, hprev, ?_, ?_, ?_⟩ (h pindexPrev)
                      · exact Bool.eq_false_iff.mpr hvalid
                      · simpa using hwork
                      · simpa using hstake

/-- A stake that is reached is checked, and then its inputs. -/
theorem acceptBlock_stake {pindexPrev : CBlockIndex}
    (h : StakeReached bchecks tree block pindexPrev) :
    (acceptBlock checks params oracle view bchecks tree block true :
      Reads Bool) = (do
        let _ ← checkProofOfStake tree.toNode params oracle block
          pindexPrev.nHeight
        let stakeTxIn ← ofOption block.vtx[1]?
        acceptData checks view bchecks tree block true (checkStake checks params
          oracle bchecks tree block pindexPrev stakeTxIn)) := by
  simp only [acceptBlock, if_neg h.later, h.indexed, h.valid, h.work, h.stake,
    Bool.not_true, Bool.false_eq_true, if_false]

/-- The look-ups of `AcceptBlock` for a block that was checked. -/
theorem acceptBlock_safe :
    (acceptBlock checks params oracle view bchecks tree block true :
      Reads Bool).Safe ↔
      ((∃ pindexPrev, StakeReached bchecks tree block pindexPrev) →
        KernelInRange tree.toNode block) ∧
      ∀ txin, StakeLooksUp checks params oracle bchecks tree block txin →
        ¬ PastEnd tree.toNode txin.prevout := by
  by_cases hreached : ∃ pindexPrev, StakeReached bchecks tree block pindexPrev
  · obtain ⟨pindexPrev, hstake⟩ := hreached
    have hsame : ∀ p, StakeReached bchecks tree block p → p = pindexPrev :=
      fun p h => Option.some.inj (h.indexed.symm.trans hstake.indexed)
    rw [acceptBlock_stake checks params oracle view bchecks tree block hstake]
    simp only [Reads.safe_bind, checkProofOfStake_safe, Reads.safe_ofOption,
      true_and, value_checkProofOfStake, checkProofOfStake_eq,
      Reads.value_ofOption, ofOption_option, acceptData_safe, checkStake_safe]
    refine and_congr ⟨fun h _ => h, fun h => h ⟨pindexPrev, hstake⟩⟩ ?_
    constructor
    · rintro h txin ⟨p, stakeTxIn, hashProofOfStake, hp, hkernel, htx, hheader,
        hdata, hcontext, hown⟩
      obtain rfl := hsame p hp
      exact h hashProofOfStake hkernel stakeTxIn htx hheader hdata hcontext
        txin hown
    · intro h hashProofOfStake hkernel stakeTxIn htx hheader hdata hcontext
        txin hown
      exact h txin ⟨pindexPrev, stakeTxIn, hashProofOfStake, hstake, hkernel,
        htx, hheader, hdata, hcontext, hown⟩
  · have hnone : ∀ p, ¬ StakeReached bchecks tree block p :=
      fun p h => hreached ⟨p, h⟩
    refine iff_of_true (acceptBlock_short checks params oracle view bchecks
      tree block hnone) ⟨fun h => absurd h hreached, ?_⟩
    rintro txin ⟨p, stakeTxIn, hashProofOfStake, hp, -⟩
    exact absurd hp (hnone p)

/-- `ProcessNewBlock` comes to `AcceptBlock`. -/
structure AcceptReached (fSignature : Bool) : Prop where
  checked : checkBlock checks node view block = some ()
  signed : fSignature = true
  connected : (decide (block.hash = tree.hashGenesisBlock) ||
    (tree.mapBlockIndex block.hashPrevBlock).isSome) = true

theorem processNewBlock_safe (fSignature : Bool) :
    (processNewBlock checks node params oracle view bchecks tree block
      fSignature : Reads Bool).Safe ↔
      (∀ tx txin, BlockLooksUp checks node view block tx txin →
        ¬ PastEnd node txin.prevout) ∧
      (AcceptReached checks node view tree block fSignature →
        ((∃ pindexPrev, StakeReached bchecks tree block pindexPrev) →
          KernelInRange tree.toNode block) ∧
        ∀ txin, StakeLooksUp checks params oracle bchecks tree block txin →
          ¬ PastEnd tree.toNode txin.prevout) := by
  rw [processNewBlock, Reads.safe_bind, checkBlock_safe, value_checkBlock]
  refine and_congr_right fun _ => ?_
  simp only [Reads.safe_check_bind, acceptBlock_safe]
  constructor
  · rintro h ⟨hchecked, hsigned, hconnected⟩
    exact h () hchecked hsigned hconnected
  · intro h _ hchecked hsigned hconnected
    exact h ⟨hchecked, hsigned, hconnected⟩

end Accept

section Connect

open Agrarian.Stake (checkPublicCoinSpendEnforced)

variable (params : StakeParams) (view : BlockView) (cview : ConnectView)
variable (block : StakeBlock)

/-- `ConnectBlock` comes to a look-up for an input of one of its
transactions. -/
def ConnectLooksUp (tx : CTransaction) (txin : CTxIn) : Prop :=
  cview.fGenesis = false ∧ cview.blockValid block = true ∧
    ∃ before after, block.vtx = before ++ tx :: after ∧
      forM before (connectTx checks node params cview) = some () ∧
      cview.txBefore tx = true ∧ tx.hasZerocoinSpendInputs = true ∧
      ∃ before' after', tx.vin = before' ++ txin :: after' ∧
        forM before' (connectSpend checks node params cview tx) = some () ∧
        checkPublicCoinSpendEnforced params cview.nHeight
          txin.isZerocoinPublicSpend = true ∧
        txin.isZerocoinPublicSpend = true

theorem connectSpend_safe (tx : CTransaction) (txIn : CTxIn) :
    (connectSpend checks node params cview tx txIn : Reads Unit).Safe ↔
      (checkPublicCoinSpendEnforced params cview.nHeight
          txIn.isZerocoinPublicSpend = true →
        txIn.isZerocoinPublicSpend = true → ¬ PastEnd node txIn.prevout) := by
  rw [connectSpend, Reads.safe_ite_of_safe (Reads.safe_pure ()),
    Reads.safe_check_bind,
    Reads.safe_bind_of_safe fun _ => Reads.safe_check _, spendOf_safe]
  refine ⟨fun h hversion hpublic => ?_, fun h _ => h⟩
  exact h (isZerocoin_of_public hpublic) hversion hpublic

theorem connectTx_safe (tx : CTransaction) :
    (connectTx checks node params cview tx : Reads Unit).Safe ↔
      (cview.txBefore tx = true → tx.hasZerocoinSpendInputs = true →
        ∀ before txin after, tx.vin = before ++ txin :: after →
          forM before (connectSpend checks node params cview tx) = some () →
          checkPublicCoinSpendEnforced params cview.nHeight
            txin.isZerocoinPublicSpend = true →
          txin.isZerocoinPublicSpend = true →
          ¬ PastEnd node txin.prevout) := by
  rw [connectTx, Reads.safe_check_bind,
    Reads.safe_bind_of_safe fun _ => Reads.safe_check _,
    Reads.safe_ite_of_safe (Reads.safe_pure ()), Reads.safe_forM]
  simp only [connectSpend_safe,
    Reads.value_forM (value_connectSpend checks node params cview tx)]

/-- The look-ups of `ConnectBlock`, with those of `CheckBlock` unless that has
passed before. -/
theorem connectBlock_safe (fAlreadyChecked : Bool) :
    (connectBlock checks node params view cview block fAlreadyChecked :
      Reads Unit).Safe ↔
      (fAlreadyChecked = false →
        ∀ tx txin, BlockLooksUp checks node view block tx txin →
          ¬ PastEnd node txin.prevout) ∧
      ((fAlreadyChecked = false →
          checkBlock checks node view block = some ()) →
        ∀ tx txin, ConnectLooksUp checks node params cview block tx txin →
          ¬ PastEnd node txin.prevout) := by
  have hrest : (if cview.fGenesis then pure ()
      else do
        check (cview.blockValid block)
        forM block.vtx (connectTx checks node params cview) :
          Reads Unit).Safe ↔
      ∀ tx txin, ConnectLooksUp checks node params cview block tx txin →
        ¬ PastEnd node txin.prevout := by
    cases hgenesis : cview.fGenesis with
    | true =>
        refine iff_of_true (Reads.safe_pure ()) ?_
        rintro tx txin ⟨hlater, -⟩
        rw [hgenesis] at hlater
        cases hlater
    | false =>
        rw [if_neg Bool.false_ne_true, Reads.safe_check_bind, Reads.safe_forM]
        simp only [connectTx_safe,
          Reads.value_forM (value_connectTx checks node params cview)]
        constructor
        · rintro h tx txin ⟨-, hvalid, before, after, hvtx, hbefore, htx,
            hspend, before', after', hvin, hbefore', hversion, hpublic⟩
          exact h hvalid before tx after hvtx hbefore htx hspend before' txin
            after' hvin hbefore' hversion hpublic
        · intro h hvalid before tx after hvtx hbefore htx hspend before' txin
            after' hvin hbefore' hversion hpublic
          exact h tx txin ⟨hgenesis, hvalid, before, after, hvtx, hbefore, htx,
            hspend, before', after', hvin, hbefore', hversion, hpublic⟩
  rw [connectBlock, Reads.safe_bind]
  simp only [hrest]
  cases fAlreadyChecked with
  | true =>
      simp only [if_true, Reads.safe_pure, Reads.value_pure, true_and,
        Bool.true_eq_false, false_implies]
      exact ⟨fun h _ => h () rfl, fun h _ _ => h trivial⟩
  | false =>
      simp only [Bool.false_eq_true, if_false, checkBlock_safe,
        value_checkBlock, true_implies]
      exact and_congr_right fun _ => ⟨fun h => h (), fun h _ => h⟩

end Connect

end Ways

/-! ## All accesses -/

/-- **The index is not always in range.**  All that is read on the way of a
received transaction or block is in range exactly when no look-up that is
reached names the output just past the end, and the kernel input of a stake
that is reached names an output. -/
theorem prevOutputs_inRange_iff (checks : SpendChecks) (node : Node) :
    (∀ (view : Mempool.NodeView) (pool : Mempool.CTxMemPool)
        (contextual : CTransaction → CTxIn → Spend → Bool) (tx : CTransaction),
      (acceptToMemoryPool checks node view pool contextual tx :
        Reads Int).Safe ↔
        ∀ txin, PoolLooksUp checks node view pool contextual tx txin →
          ¬ PastEnd node txin.prevout) ∧
    (∀ (nMaxValue : Int) (tx : CTransaction),
      (isIXTXValid node nMaxValue tx : Reads Bool).Safe) ∧
    (∀ (params : StakeParams) (oracle : Oracle) (view : BlockView)
        (bchecks : BlockChecks) (tree : BlockTree) (block : StakeBlock)
        (fSignature : Bool),
      (processNewBlock checks node params oracle view bchecks tree block
        fSignature : Reads Bool).Safe ↔
        (∀ tx txin, BlockLooksUp checks node view block tx txin →
          ¬ PastEnd node txin.prevout) ∧
        (AcceptReached checks node view tree block fSignature →
          ((∃ pindexPrev, StakeReached bchecks tree block pindexPrev) →
            KernelInRange tree.toNode block) ∧
          ∀ txin, StakeLooksUp checks params oracle bchecks tree block txin →
            ¬ PastEnd tree.toNode txin.prevout)) ∧
    ∀ (params : StakeParams) (view : BlockView) (cview : ConnectView)
        (block : StakeBlock) (fAlreadyChecked : Bool),
      (connectBlock checks node params view cview block fAlreadyChecked :
        Reads Unit).Safe ↔
        (fAlreadyChecked = false →
          ∀ tx txin, BlockLooksUp checks node view block tx txin →
            ¬ PastEnd node txin.prevout) ∧
        ((fAlreadyChecked = false →
            checkBlock checks node view block = some ()) →
          ∀ tx txin, ConnectLooksUp checks node params cview block tx txin →
            ¬ PastEnd node txin.prevout) := by
  refine ⟨?_, ?_, ?_, ?_⟩
  · intro view pool contextual tx
    exact acceptToMemoryPool_safe checks node view pool contextual tx
  · intro nMaxValue tx
    exact isIXTXValid_safe node nMaxValue tx
  · intro params oracle view bchecks tree block fSignature
    exact processNewBlock_safe checks node params oracle view bchecks tree block
      fSignature
  · intro params view cview block fAlreadyChecked
    exact connectBlock_safe checks node params view cview block fAlreadyChecked

/-! ## One past the end, and beyond -/

/-- A transaction of the pool with a single output. -/
def poolTx : CTransaction where
  hash := 7
  vin := []
  vout := [⟨100, [CScript.OP_DUP], -10⟩]

def genesisEntry : CBlockIndex where
  hash := 1000
  nTime := 1500000000
  fProofOfStake := false

def genesisIndex (hash : Uint256) : Option CBlockIndex :=
  if hash = 1000 then some genesisEntry else none

theorem genesisIndex_eq {hash : Uint256} {pindex : CBlockIndex}
    (h : genesisIndex hash = some pindex) :
    hash = 1000 ∧ pindex = genesisEntry := by
  rw [genesisIndex] at h
  split at h
  · next heq => exact ⟨heq, (Option.some.inj h).symm⟩
  · cases h

theorem genesis_indexed (nHeight : Int) (pindex : CBlockIndex)
    (h : Stake.chainAt [genesisEntry] nHeight = some pindex) :
    genesisIndex pindex.hash = some pindex := by
  rw [Stake.chainAt] at h
  split at h
  · cases h
  · obtain rfl := List.mem_singleton.mp (List.mem_of_getElem? h)
    rfl

theorem genesis_first {n : Nat} {pindex : CBlockIndex}
    (h : [genesisEntry][n]? = some pindex) : n = 0 ∧ pindex = genesisEntry := by
  cases n with
  | zero => exact ⟨rfl, (Option.some.inj h).symm⟩
  | succ n => cases h

def genesisBlock : StakeBlock where
  hash := 1000
  hashPrevBlock := 0
  hashMerkleRoot := 0
  vtx := []
  nTime := 1500000000

def poolLookup (hash : Uint256) : Option CTransaction :=
  if hash = 7 then some poolTx else none

theorem poolLookup_hash (hash : Uint256) (tx : CTransaction)
    (h : poolLookup hash = some tx) : tx.hash = hash := by
  rw [poolLookup] at h
  split at h
  · next heq =>
      rw [← Option.some.inj h, heq]
      rfl
  · cases h

theorem genesis_keyed (hash : Uint256) (pindex : CBlockIndex)
    (h : genesisIndex hash = some pindex) : pindex.hash = hash := by
  obtain ⟨rfl, rfl⟩ := genesisIndex_eq h
  rfl

theorem genesis_heights (n : Nat) (pindex : CBlockIndex)
    (h : [genesisEntry][n]? = some pindex) : pindex.nHeight = n := by
  obtain ⟨rfl, rfl⟩ := genesis_first h
  rfl

theorem genesis_linked (n : Nat) (pindex : CBlockIndex)
    (h : [genesisEntry][n]? = some pindex) :
    [] = ([genesisEntry].take n).reverse := by
  obtain ⟨rfl, -⟩ := genesis_first h
  rfl

theorem genesis_disk (_ : CBlockIndex) (block : StakeBlock)
    (h : some genesisBlock = some block) : block = genesisBlock :=
  (Option.some.inj h).symm

def noCoins (_ : Uint256) : Option Coins.CCoins := none

theorem noCoins_height (hash : Uint256) : none =
    (noCoins hash).map fun coins => coins.nHeight.toInt := rfl

theorem noCoins_unspent (out : COutPoint) :
    ((noCoins out.hash).any fun coins => coins.isAvailable out.n) =
      Coins.unspentIn ([genesisEntry].reverse.flatMap fun _ =>
        genesisBlock.vtx.reverse) out := rfl

/-- The genesis block, and a transaction in the pool. -/
def poolTree : BlockTree where
  mapBlockIndex := genesisIndex
  chainActive := [genesisEntry]
  keyed := genesis_keyed
  indexed := genesis_indexed
  mempool := poolLookup
  mempool_keyed := poolLookup_hash
  coinsHeight _ := none
  readBlockFromDisk _ := some genesisBlock
  hashGenesisBlock := 1000
  ancestors _ := []
  blockOf _ := genesisBlock
  pcoinsTip := noCoins
  heights := genesis_heights
  linked := genesis_linked
  disk := genesis_disk
  height_coins := noCoins_height
  unspent_coins := noCoins_unspent

/-- Checks that have nothing against any spend. -/
def openChecks : SpendChecks where
  hashTxOut _ := 0
  coinSpendOf _ := ⟨none, 0, 0⟩
  parseCoinSpend _ _ _ := some ⟨some .ZQ_ONE, 0, 9⟩
  validateInput _ _ _ := true
  verifySpend _ := true
  outputsValid _ _ := true
  nMaxSpends := 7
  nMaxPublicSpends := 637

/-- A public spend of the output after the single one. -/
def pastEndTx : CTransaction where
  hash := 11
  vin := [{ prevout := ⟨7, 1⟩
            scriptSig := [CScript.OP_ZEROCOINPUBLICSPEND]
            nSequence := 1 }]
  vout := [⟨1, [CScript.OP_DUP], -10⟩]

/-- A block with a kernel input far beyond the single output. -/
def pastEndBlock : StakeBlock where
  hash := 2000
  hashPrevBlock := 1000
  hashMerkleRoot := 0
  vtx :=
    [{ hash := 21
       vin := [{ prevout := COutPoint.null, scriptSig := [1, 1] }]
       vout := [⟨0, [], -10⟩] },
     { hash := 22
       vin := [{ prevout := ⟨7, 5⟩ }]
       vout := [⟨0, [], -10⟩, ⟨100, [CScript.OP_DUP], -10⟩] }]
  nTime := 1600000000

def openBlockView : BlockView where
  nZerocoinStartTime := 1500000000
  blockValid _ := true
  sigOpsValid _ := true

def openOracle : Oracle where
  verifyScript _ _ _ := true
  coinSpendOf txin := ⟨txin.scriptSig.contains 1, 5, .ZQ_ONE, 9⟩
  kernelHash _ _ _ _ := 0

/-- A received transaction makes `GetOutput` read the output after the last
one, a received block makes `CheckProofOfStake` read the sixth of one. -/
theorem prevOutputs_pastEnd :
    (acceptToMemoryPool openChecks poolTree.toNode Mempool.openView {}
      (fun _ _ _ => true) pastEndTx : Reads Int).accesses = [⟨1, 1⟩] ∧
    (processNewBlock openChecks poolTree.toNode Stake.mainStakeParams openOracle
      openBlockView {} poolTree pastEndBlock true : Reads Bool).accesses =
        [⟨5, 1⟩] ∧
    ¬ (acceptToMemoryPool openChecks poolTree.toNode Mempool.openView {}
      (fun _ _ _ => true) pastEndTx : Reads Int).Safe ∧
    ¬ (processNewBlock openChecks poolTree.toNode Stake.mainStakeParams
      openOracle openBlockView {} poolTree pastEndBlock true :
        Reads Bool).Safe := by
  have hpool : (acceptToMemoryPool openChecks poolTree.toNode Mempool.openView
      {} (fun _ _ _ => true) pastEndTx : Reads Int).accesses = [⟨1, 1⟩] := rfl
  have hblock : (processNewBlock openChecks poolTree.toNode
      Stake.mainStakeParams openOracle openBlockView {} poolTree pastEndBlock
      true : Reads Bool).accesses = [⟨5, 1⟩] := rfl
  refine ⟨hpool, hblock, fun h => ?_, fun h => ?_⟩
  · exact absurd (h ⟨1, 1⟩ (by rw [hpool]; exact List.mem_singleton_self _))
      (Nat.lt_irrefl 1)
  · exact absurd (h ⟨5, 1⟩ (by rw [hblock]; exact List.mem_singleton_self _))
      (by unfold Access.InRange; decide)

end Agrarian.PrevOutputs
