import Agrarian.Lib.Checks
import Agrarian.Lib.Run
import Agrarian.Mempool.TxMemPool
import Agrarian.Validation.ConnectBlock
import Agrarian.Zerocoin.SpendDB

/-!
# Accepting transactions into the memory pool

`AcceptToMemoryPool`, with what it looks up in the pool written out and what it
asks of the rest of the node as a view that may differ from call to call.  The
serial of a zerocoin spend is given by `serialOf`; a spend that does not parse,
like one whose coin is not found, is refused.

An ordinary transaction is refused when an input of it is in the index of the
pool.  The inputs of zerocoin spends are neither looked up there nor put into
it; their serials are only looked for in the chain.
-/

namespace Agrarian.Mempool

open Agrarian.Lib
open Agrarian.Zerocoin (isZerocoin)
open Agrarian.Zerocoin.Node (serials)
open Agrarian.Validation (COIN getValueOut)

def REJECT_INVALID : UInt8 := 0x10
def REJECT_DUPLICATE : UInt8 := 0x12
def REJECT_NONSTANDARD : UInt8 := 0x40
def REJECT_INSUFFICIENTFEE : UInt8 := 0x42

def MAX_TX_SIGOPS_CURRENT : Nat := MAX_BLOCK_SIZE_CURRENT / 50 / 5

/-- Why a transaction is not accepted. -/
inductive AcceptError where
  /-- `state.DoS`; `state.Invalid` is level 0. -/
  | dos (level : Nat) (chRejectCode : UInt8) (strRejectReason : String)
  /-- Only `false`, the state may have been set by a function below. -/
  | refused
  /-- `false`, with `*pfMissingInputs` set. -/
  | missingInputs
  deriving DecidableEq, Repr

/-- What a call sees of the node besides the pool. -/
structure NodeView where
  adjustedTime : Int
  /-- `SPORK_16_ZEROCOIN_MAINTENANCE_MODE`. -/
  sporkMaintenance : Int
  /-- `chainActive.Height()`. -/
  chainHeight : Int
  nZerocoinStartHeight : Int
  nBlockPublicSpendEnabled : Int
  nZerocoinMintFee : Int
  fRequireStandard : Bool
  /-- `CheckTransaction` without the serials of zerocoin spends. -/
  checkTransaction : CTransaction → Bool
  checkFinalTx : CTransaction → Bool
  /-- `IsStandardTx`, with the reason when it is not. -/
  nonStandardReason : CTransaction → Option String
  mapLockedInputs : COutPoint → Option Uint256
  isTransactionInChain : Uint256 → Bool
  /-- The coin and the spend of an input are found and can be parsed. -/
  parseSpend : CTransaction → CTxIn → Bool
  /-- `ContextualCheckZerocoinSpend` at the tip, with the serials that are in
  the chain. -/
  contextualCheckZerocoinSpend : CTransaction → CTxIn → Bool
  /-- `HaveCoins` of the coins of the tip. -/
  haveCoins : Uint256 → Bool
  validOutPoint : COutPoint → Bool
  /-- `TxOutToPublicCoin` and `ContextualCheckZerocoinMint`. -/
  checkMint : CTransaction → CTxOut → Bool
  /-- `HaveInputs` of the coins of the tip and the pool. -/
  haveInputs : CTransaction → Bool
  getValueIn : CTransaction → Int
  areInputsStandard : CTransaction → Bool
  /-- Legacy and P2SH signature operations. -/
  sigOpCount : CTransaction → Nat
  getTxSize : CTransaction → Nat
  mapObfuscationBroadcastTxes : Uint256 → Bool
  getMinRelayFee : CTransaction → Nat → Int
  /-- `minRelayTxFee.GetFee`. -/
  relayFee : Nat → Int
  /-- `-relaypriority`. -/
  fRelayPriority : Bool
  /-- `AllowFree` of the priority in the next block. -/
  allowFree : CTransaction → Bool
  /-- The rate limit for free transactions is reached. -/
  freeLimitReached : Bool
  /-- `CheckInputs` with the standard, and then the mandatory flags. -/
  checkInputsStandard : CTransaction → Bool
  checkInputsMandatory : CTransaction → Bool

/-- `GetZerocoinSpent`. -/
def getZerocoinSpent (tx : CTransaction) : Int :=
  ((tx.vin.filter CTxIn.isZerocoinSpend).map fun txin =>
    txin.nSequence.toNat * COIN).sum

/-- `GetZerocoinMintCount`. -/
def getZerocoinMintCount (tx : CTransaction) : Nat :=
  tx.vout.countP CTxOut.isZerocoinMint

section Accept

variable {Serial : Type} [DecidableEq Serial]
  (serialOf : CTransaction → CTxIn → Option Serial)

/-- The serials in the loop of `CheckZerocoinSpend`. -/
def checkSpendSerials (tx : CTransaction) :
    List CTxIn → List Serial → Bool
  | [], _ => true
  | txin :: vin, seen =>
      if isZerocoin txin then
        match serialOf tx txin with
        | none => false
        | some serial =>
            if seen.contains serial then false
            else checkSpendSerials tx vin (serial :: seen)
      else checkSpendSerials tx vin seen

/-- `CheckTransaction`: a zerocoin spend only has inputs that are zerocoins,
and no serial twice. -/
def checkTransaction (view : NodeView) (tx : CTransaction) : Bool :=
  view.checkTransaction tx &&
    (!(decide (view.nZerocoinStartHeight ≤ view.chainHeight)) ||
      !tx.hasZerocoinSpendInputs ||
      (tx.vin.all isZerocoin && checkSpendSerials serialOf tx tx.vin []))

/-- `CheckPublicCoinSpendEnforced`. -/
def checkPublicCoinSpendEnforced (view : NodeView) (isPublicSpend : Bool) : Bool :=
  if view.nBlockPublicSpendEnabled ≤ view.chainHeight then isPublicSpend
  else !isPublicSpend

/-- One input in the loop over the serials. -/
def acceptSpend (view : NodeView) (tx : CTransaction) (txin : CTxIn) :
    Except AcceptError Unit := do
  -- Only allow for zc spends inputs
  require (isZerocoin txin) (.dos 0 REJECT_INVALID "bad-txns-invalid-zagr")
  require (checkPublicCoinSpendEnforced view txin.isZerocoinPublicSpend)
    (.dos 0 REJECT_INVALID "bad-txns-invalid-zagr")
  require (view.parseSpend tx txin && (serialOf tx txin).isSome) .refused
  require (view.contextualCheckZerocoinSpend tx txin)
    (.dos 0 REJECT_INVALID "bad-txns-invalid-zagr")

/-- The inputs of a zerocoin spend; the value that comes in. -/
def acceptSpends (view : NodeView) (tx : CTransaction) : Except AcceptError Int := do
  require (!view.isTransactionInChain tx.getHash)
    (.dos 0 REJECT_DUPLICATE "bad-txns-inputs-spent")
  -- Check for double spending of serial #'s
  tx.vin.forM (acceptSpend serialOf view tx)
  return getZerocoinSpent tx

/-- The inputs of another transaction. -/
def acceptInputs (view : NodeView) (pool : CTxMemPool) (tx : CTransaction) :
    Except AcceptError Int := do
  let haveCoins := fun hash =>
    (pool.mapTx.find? hash).isSome || view.haveCoins hash
  -- do we already have it?
  require (!haveCoins tx.getHash) .refused
  -- do all inputs exist?
  tx.vin.forM fun txin => do
    require (haveCoins txin.prevout.hash) .missingInputs
    require (view.validOutPoint txin.prevout)
      (.dos 0 REJECT_INVALID "bad-txns-invalid-inputs")
  tx.vout.forM fun out =>
    require (!out.isZerocoinMint || view.checkMint tx out) (.dos 0 0 "")
  -- are the actual inputs available?
  require (view.haveInputs tx) (.dos 0 REJECT_DUPLICATE "bad-txns-inputs-spent")
  return view.getValueIn tx

/-- The fees, and the free transactions. -/
def acceptFees (view : NodeView) (tx : CTransaction) (fLimitFree ignoreFees : Bool)
    (nFees : Int) (nSize : Nat) : Except AcceptError Unit :=
  if view.mapObfuscationBroadcastTxes tx.getHash || ignoreFees then .ok () else do
    let spends := tx.hasZerocoinSpendInputs
    require (!(fLimitFree && decide (nFees < view.getMinRelayFee tx nSize) && !spends))
      (.dos 0 REJECT_INSUFFICIENTFEE "insufficient fee")
    if tx.hasZerocoinMintOutputs then
      require (decide (view.nZerocoinMintFee * getZerocoinMintCount tx ≤ nFees))
        (.dos 0 REJECT_INSUFFICIENTFEE "insufficient fee for zerocoinmint")
    else
      require (spends || !view.fRelayPriority ||
          decide (view.relayFee nSize ≤ nFees) || view.allowFree tx)
        (.dos 0 REJECT_INSUFFICIENTFEE "insufficient priority")
    require (!(fLimitFree && decide (nFees < view.relayFee nSize) && !spends &&
        view.freeLimitReached))
      (.dos 0 REJECT_INSUFFICIENTFEE "rate limited free transaction")

def checkStandard (view : NodeView) (tx : CTransaction) : Except AcceptError Unit :=
  match view.nonStandardReason tx with
  | some reason => require (!view.fRequireStandard) (.dos 0 REJECT_NONSTANDARD reason)
  | none => .ok ()

/-- Check for conflicts with in-memory transactions. -/
def checkConflicts (pool : CTxMemPool) (tx : CTransaction) : Except AcceptError Unit :=
  if !tx.hasZerocoinSpendInputs then
    tx.vin.forM fun txin =>
      require (pool.mapNextTx.find? txin.prevout).isNone .refused
  else .ok ()

/-- The checks that come before the inputs. -/
def acceptChecks (view : NodeView) (pool : CTxMemPool) (tx : CTransaction) :
    Except AcceptError Unit := do
  require (!(decide (view.sporkMaintenance < view.adjustedTime) &&
    tx.containsZerocoins)) (.dos 10 REJECT_INVALID "bad-tx")
  require (checkTransaction serialOf view tx) (.dos 100 REJECT_INVALID "bad-tx")
  require (!tx.isCoinBase) (.dos 100 REJECT_INVALID "coinbase")
  require (!tx.isCoinStake) (.dos 100 REJECT_INVALID "coinstake")
  require (view.checkFinalTx tx) (.dos 0 REJECT_NONSTANDARD "non-final")
  checkStandard view tx
  -- is it already in the memory pool?
  require (pool.mapTx.find? tx.getHash).isNone .refused
  tx.vin.forM fun txin =>
    require (((view.mapLockedInputs txin.prevout).map fun hash =>
      decide (hash = tx.getHash)).getD true)
      (.dos 0 REJECT_INVALID "tx-lock-conflict")
  checkConflicts pool tx

/-- The value that comes in. -/
def acceptValueIn (view : NodeView) (pool : CTxMemPool) (tx : CTransaction) :
    Except AcceptError Int :=
  if tx.hasZerocoinSpendInputs then acceptSpends serialOf view tx
  else acceptInputs view pool tx

def acceptToMemoryPool (view : NodeView) (pool : CTxMemPool) (tx : CTransaction)
    (fLimitFree fRejectInsaneFee ignoreFees : Bool) :
    Except AcceptError CTxMemPool := do
  acceptChecks serialOf view pool tx
  let nValueIn ← acceptValueIn serialOf view pool tx
  require (!view.fRequireStandard || view.areInputsStandard tx) .refused
  require (tx.hasZerocoinSpendInputs ||
      decide (view.sigOpCount tx ≤ MAX_TX_SIGOPS_CURRENT))
    (.dos 0 REJECT_NONSTANDARD "bad-txns-too-many-sigops")
  let nValueOut ← (getValueOut tx).elim (.error .refused) .ok
  let nFees := nValueIn - nValueOut
  let nSize := view.getTxSize tx
  acceptFees view tx fLimitFree ignoreFees nFees nSize
  require (!(fRejectInsaneFee && decide (view.relayFee nSize * 10000 < nFees))) .refused
  require (view.checkInputsStandard tx) .refused
  require (view.checkInputsMandatory tx) .refused
  return pool.addUnchecked tx.getHash ⟨tx, nSize⟩

/-! ## What a transaction in the pool has passed -/

variable {serialOf}

theorem checkSpendSerials_nodup {tx : CTransaction} {vin : List CTxIn}
    {seen : List Serial} (h : checkSpendSerials serialOf tx vin seen = true) :
    ((vin.filter isZerocoin).filterMap (serialOf tx)).Nodup ∧
      List.Disjoint seen ((vin.filter isZerocoin).filterMap (serialOf tx)) := by
  induction vin generalizing seen with
  | nil => simp
  | cons txin vin ih =>
      unfold checkSpendSerials at h
      by_cases hzero : isZerocoin txin = true
      · rw [if_pos hzero] at h
        cases hserial : serialOf tx txin with
        | none => simp [hserial] at h
        | some serial =>
            simp only [hserial, List.contains_eq_mem, decide_eq_true_eq] at h
            split at h
            · cases h
            · rename_i hfresh
              obtain ⟨hnodup, hdisjoint⟩ := ih h
              rw [List.disjoint_cons_left] at hdisjoint
              rw [List.filter_cons_of_pos hzero, List.filterMap_cons_some hserial,
                List.nodup_cons, List.disjoint_cons_right]
              exact ⟨⟨hdisjoint.1, hnodup⟩, hfresh, hdisjoint.2⟩
      · rw [if_neg hzero] at h
        rw [List.filter_cons_of_neg hzero]
        exact ih h

omit [DecidableEq Serial] in
theorem serials_eq_nil {tx : CTransaction} (h : tx.hasZerocoinSpendInputs = false) :
    serials serialOf tx = [] := by
  unfold serials
  have hnone : tx.vin.filter isZerocoin = [] := by
    rw [List.filter_eq_nil_iff]
    intro txin hmem
    have hzero := List.any_eq_false.mp h txin hmem
    simpa [isZerocoin] using hzero
  rw [hnone]
  rfl

/-- With zerocoin active a transaction that passes has no serial twice. -/
theorem nodup_serials_of_check {view : NodeView} {tx : CTransaction}
    (hactive : view.nZerocoinStartHeight ≤ view.chainHeight)
    (h : checkTransaction serialOf view tx = true) : (serials serialOf tx).Nodup := by
  cases hspends : tx.hasZerocoinSpendInputs with
  | false =>
      rw [serials_eq_nil hspends]
      exact List.nodup_nil
  | true =>
      simp only [checkTransaction, hspends, decide_eq_true hactive, Bool.not_true,
        Bool.false_or, Bool.and_eq_true] at h
      exact (checkSpendSerials_nodup h.2.2).1

theorem acceptToMemoryPool_eq_ok {view : NodeView} {pool pool' : CTxMemPool}
    {tx : CTransaction} {fLimitFree fRejectInsaneFee ignoreFees : Bool}
    (h : acceptToMemoryPool serialOf view pool tx fLimitFree fRejectInsaneFee
      ignoreFees = .ok pool') :
    checkTransaction serialOf view tx = true ∧
      pool.mapTx.find? tx.getHash = none ∧
      pool' = pool.addUnchecked tx.getHash ⟨tx, view.getTxSize tx⟩ := by
  unfold acceptToMemoryPool at h
  obtain ⟨hchecks, h⟩ := check_bind_eq_ok.mp h
  obtain ⟨nValueIn, -, h⟩ := bind_eq_ok.mp h
  obtain ⟨-, h⟩ := check_bind_eq_ok.mp h
  obtain ⟨-, h⟩ := check_bind_eq_ok.mp h
  obtain ⟨nValueOut, -, h⟩ := bind_eq_ok.mp h
  obtain ⟨-, h⟩ := check_bind_eq_ok.mp h
  obtain ⟨-, h⟩ := check_bind_eq_ok.mp h
  obtain ⟨-, h⟩ := check_bind_eq_ok.mp h
  obtain ⟨-, h⟩ := check_bind_eq_ok.mp h
  simp only [acceptChecks, check_bind_eq_ok, require_eq_ok,
    Option.isNone_iff_eq_none] at hchecks
  obtain ⟨-, htx, -, -, -, -, hnew, -⟩ := hchecks
  exact ⟨htx, hnew, (Except.ok.inj h).symm⟩

end Accept

/-! ## Removals -/

namespace CTxMemPool

/-- Every transaction of the first pool is in the second. -/
def Within (pool pool' : CTxMemPool) : Prop :=
  ∀ hash entry, pool.mapTx.find? hash = some entry →
    pool'.mapTx.find? hash = some entry

theorem Within.refl (pool : CTxMemPool) : pool.Within pool :=
  fun _ _ h => h

theorem removeStep_within {fRecursive : Bool} {pool : CTxMemPool} (s : Removal)
    (hash : Uint256) (h : s.pool.Within pool) :
    (removeStep fRecursive s hash).1.pool.Within pool := by
  unfold removeStep
  cases hfind : s.pool.mapTx.find? hash with
  | none => exact h
  | some entry =>
      intro hash' entry' hfind'
      apply h
      change (s.pool.mapTx.erase hash).find? hash' = some entry' at hfind'
      rw [KeyedMap.find?_erase] at hfind'
      split at hfind'
      · cases hfind'
      · exact hfind'

theorem remove_within {pool : CTxMemPool} {s : Removal} (tx : CTransaction)
    (fRecursive : Bool) (h : s.pool.Within pool) :
    ∃ s', remove s tx fRecursive = some s' ∧ s'.pool.Within pool :=
  Worklist.run_invariant (removeStep_pays fRecursive)
    removeStep_within h (Nat.le_refl _)

theorem removeConflicts_within {pool : CTxMemPool} {s : Removal} (tx : CTransaction)
    (h : s.pool.Within pool) :
    ∃ s', removeConflicts s tx = some s' ∧ s'.pool.Within pool := by
  apply foldlM_spec (fun s : Removal => s.pool.Within pool) _ tx.vin h
  intro s txin h
  cases hnext : s.pool.mapNextTx.find? txin.prevout with
  | none => exact ⟨s, rfl, h⟩
  | some it =>
      by_cases hconflict : it.ptx.getHash ≠ tx.getHash
      · simp only [if_pos hconflict]
        exact remove_within it.ptx true h
      · simp only [if_neg hconflict]
        exact ⟨s, rfl, h⟩

/-- No removal brings a transaction in. -/
theorem removal_within (pool : CTxMemPool) (op : PoolOp)
    (hremoval : ∀ entry, op ≠ .addUnchecked entry) :
    ∃ pool', pool.step op = some pool' ∧ pool'.Within pool := by
  cases op with
  | addUnchecked entry => exact absurd rfl (hremoval entry)
  | remove tx fRecursive =>
      obtain ⟨s, hs, h⟩ :=
        remove_within (s := { pool }) tx fRecursive (Within.refl pool)
      exact ⟨s.pool, by rw [step, hs, Option.map_some], h⟩
  | removeConflicts tx =>
      obtain ⟨s, hs, h⟩ := removeConflicts_within (s := { pool }) tx (Within.refl pool)
      exact ⟨s.pool, by rw [step, hs, Option.map_some], h⟩
  | removeForBlock vtx =>
      obtain ⟨s, hs, h⟩ : ∃ s, removeForBlock { pool } vtx = some s ∧
          s.pool.Within pool := by
        apply foldlM_spec (fun s : Removal => s.pool.Within pool) _ vtx
          (Within.refl pool)
        intro s tx h
        obtain ⟨dummy, hdummy, h'⟩ :=
          remove_within (s := { pool := s.pool }) tx false h
        rw [hdummy]
        exact removeConflicts_within (s := { s with pool := dummy.pool }) tx h'
      exact ⟨s.pool, by rw [step, hs, Option.map_some], h⟩
  | removeCoinbaseSpends pcoins nMemPoolHeight nMaturity =>
      apply foldlM_spec (fun pool' : CTxMemPool => pool'.Within pool) _ _
        (Within.refl pool)
      intro pool' tx h
      obtain ⟨s, hs, h'⟩ := remove_within (s := { pool := pool' }) tx true h
      exact ⟨s.pool, by rw [hs, Option.map_some], h'⟩
  | clear =>
      refine ⟨pool.clear, rfl, ?_⟩
      intro hash entry hfind
      cases hfind

end CTxMemPool

/-! ## Runs -/

inductive PoolCall where
  | acceptToMemoryPool (view : NodeView) (tx : CTransaction)
      (fLimitFree fRejectInsaneFee ignoreFees : Bool)
  | remove (op : CTxMemPool.PoolOp) (hremoval : ∀ entry, op ≠ .addUnchecked entry)

section Runs

variable {Serial : Type} [DecidableEq Serial]
  (serialOf : CTransaction → CTxIn → Option Serial)

/-- A transaction that is refused leaves the pool as it is. -/
def callStep (pool : CTxMemPool) : PoolCall → Option CTxMemPool
  | .acceptToMemoryPool view tx fLimitFree fRejectInsaneFee ignoreFees =>
      match acceptToMemoryPool serialOf view pool tx fLimitFree fRejectInsaneFee
        ignoreFees with
      | .ok pool => some pool
      | .error _ => some pool
  | .remove op _ => pool.step op

def runCalls (calls : List PoolCall) : Option CTxMemPool :=
  calls.foldl (fun pool call => pool.bind fun pool => callStep serialOf pool call)
    (some {})

/-- No serial is in the pool twice, and therefore in no block that takes
transactions of the pool. -/
structure SerialsOnce (pool : CTxMemPool) : Prop where
  apart : ∀ hash hash' entry entry',
    pool.mapTx.find? hash = some entry → pool.mapTx.find? hash' = some entry' →
    hash ≠ hash' → List.Disjoint (serials serialOf entry.tx) (serials serialOf entry'.tx)
  block : ∀ vtx : List CTransaction, vtx.Nodup →
    (∀ tx ∈ vtx, ∃ hash entry, pool.mapTx.find? hash = some entry ∧ entry.tx = tx) →
    (vtx.flatMap (serials serialOf)).Nodup

/-- Zerocoin is active, and the transaction has no serial of another one that
is in the pool. -/
def FreshSerials (pool : CTxMemPool) : PoolCall → Prop
  | .acceptToMemoryPool view tx _ _ _ =>
      view.nZerocoinStartHeight ≤ view.chainHeight ∧
        ∀ hash entry, pool.mapTx.find? hash = some entry → hash ≠ tx.getHash →
          List.Disjoint (serials serialOf entry.tx) (serials serialOf tx)
  | .remove _ _ => True

variable {serialOf}

omit [DecidableEq Serial] in
theorem SerialsOnce.of_apart {pool : CTxMemPool}
    (hnodup : ∀ hash entry, pool.mapTx.find? hash = some entry →
      (serials serialOf entry.tx).Nodup)
    (hapart : ∀ hash hash' entry entry',
      pool.mapTx.find? hash = some entry → pool.mapTx.find? hash' = some entry' →
      hash ≠ hash' →
        List.Disjoint (serials serialOf entry.tx) (serials serialOf entry'.tx)) :
    SerialsOnce serialOf pool := by
  refine ⟨hapart, ?_⟩
  intro vtx hvtx hpool
  rw [List.nodup_flatMap]
  constructor
  · intro tx hmem
    obtain ⟨hash, entry, hfind, rfl⟩ := hpool tx hmem
    exact hnodup hash entry hfind
  · apply List.Pairwise.imp_of_mem _ hvtx
    intro tx tx' hmem hmem' hne
    obtain ⟨hash, entry, hfind, rfl⟩ := hpool tx hmem
    obtain ⟨hash', entry', hfind', rfl⟩ := hpool tx' hmem'
    apply hapart hash hash' entry entry' hfind hfind'
    rintro rfl
    rw [hfind] at hfind'
    exact hne (by rw [Option.some.inj hfind'])

omit [DecidableEq Serial] in
theorem SerialsOnce.nodup {pool : CTxMemPool} (h : SerialsOnce serialOf pool)
    {hash : Uint256} {entry : CTxMemPoolEntry}
    (hfind : pool.mapTx.find? hash = some entry) :
    (serials serialOf entry.tx).Nodup := by
  have hone := h.block [entry.tx] (List.nodup_singleton _) (by
    intro tx hmem
    obtain rfl := List.mem_singleton.mp hmem
    exact ⟨hash, entry, hfind, rfl⟩)
  simpa using hone

omit [DecidableEq Serial] in
theorem SerialsOnce.of_within {pool pool' : CTxMemPool}
    (h : SerialsOnce serialOf pool) (hwithin : pool'.Within pool) :
    SerialsOnce serialOf pool' := by
  apply SerialsOnce.of_apart
  · intro hash entry hfind
    exact h.nodup (hwithin hash entry hfind)
  · intro hash hash' entry entry' hfind hfind'
    exact h.apart hash hash' entry entry' (hwithin _ _ hfind) (hwithin _ _ hfind')

theorem callStep_serials_once {pool : CTxMemPool} (h : SerialsOnce serialOf pool)
    (call : PoolCall) (hfresh : FreshSerials serialOf pool call) :
    ∃ pool', callStep serialOf pool call = some pool' ∧ SerialsOnce serialOf pool' := by
  cases call with
  | remove op hremoval =>
      obtain ⟨pool', hstep, hwithin⟩ := pool.removal_within op hremoval
      exact ⟨pool', hstep, h.of_within hwithin⟩
  | acceptToMemoryPool view tx fLimitFree fRejectInsaneFee ignoreFees =>
      obtain ⟨hactive, hfresh⟩ := hfresh
      cases haccept : acceptToMemoryPool serialOf view pool tx fLimitFree
        fRejectInsaneFee ignoreFees with
      | error e => exact ⟨pool, by simp only [callStep, haccept], h⟩
      | ok pool' =>
          refine ⟨pool', by simp only [callStep, haccept], ?_⟩
          obtain ⟨hcheck, hnew, rfl⟩ := acceptToMemoryPool_eq_ok haccept
          have hcases : ∀ hash entry,
              (pool.mapTx.insert tx.getHash ⟨tx, view.getTxSize tx⟩).find? hash =
                some entry →
              (hash = tx.getHash ∧ entry.tx = tx) ∨
                (hash ≠ tx.getHash ∧ pool.mapTx.find? hash = some entry) := by
            intro hash entry hfind
            rw [KeyedMap.find?_insert] at hfind
            split at hfind
            · rename_i hhash
              exact Or.inl ⟨hhash, by rw [← Option.some.inj hfind]⟩
            · rename_i hhash
              exact Or.inr ⟨hhash, hfind⟩
          apply SerialsOnce.of_apart
          · intro hash entry hfind
            rcases hcases hash entry hfind with ⟨-, htx⟩ | ⟨-, hfind⟩
            · rw [htx]
              exact nodup_serials_of_check hactive hcheck
            · exact h.nodup hfind
          · intro hash hash' entry entry' hfind hfind' hne
            rcases hcases hash entry hfind with ⟨rfl, htx⟩ | ⟨hhash, hfind⟩
            · rcases hcases hash' entry' hfind' with ⟨rfl, -⟩ | ⟨hhash', hfind'⟩
              · exact absurd rfl hne
              · rw [htx]
                exact (hfresh hash' entry' hfind' hhash').symm
            · rcases hcases hash' entry' hfind' with ⟨-, htx'⟩ | ⟨-, hfind'⟩
              · rw [htx']
                exact hfresh hash entry hfind hhash
              · exact h.apart hash hash' entry entry' hfind hfind' hne

/-- **No serial is in the pool twice** after a run in which no transaction is
handed in with a serial of another one that is in the pool. -/
theorem runs_serials_once (calls : List PoolCall)
    (h : EachAfter (fun before call => ∀ pool, runCalls serialOf before = some pool →
      FreshSerials serialOf pool call) calls) :
    ∃ pool, runCalls serialOf calls = some pool ∧ SerialsOnce serialOf pool := by
  apply h.induction
    (P := fun calls => ∃ pool, runCalls serialOf calls = some pool ∧
      SerialsOnce serialOf pool)
  · refine ⟨{}, rfl, SerialsOnce.of_apart ?_ ?_⟩
    · intro hash entry hfind
      cases hfind
    · intro hash hash' entry entry' hfind
      cases hfind
  · intro before call hpool hallowed
    obtain ⟨pool, hrun, honce⟩ := hpool
    obtain ⟨pool', hstep, honce'⟩ := callStep_serials_once honce call (hallowed pool hrun)
    refine ⟨pool', ?_, honce'⟩
    rw [runCalls, List.foldl_append]
    change ((runCalls serialOf before).bind fun pool => callStep serialOf pool call) = _
    rw [hrun]
    exact hstep

/-! ## Two spends of one serial -/

open Agrarian.Zerocoin.Node (serialByte)

/-- A node at height 10 that has nothing against any transaction; public
spends are enforced. -/
def openView : NodeView where
  adjustedTime := 1000
  sporkMaintenance := 4070908800
  chainHeight := 10
  nZerocoinStartHeight := 0
  nBlockPublicSpendEnabled := 1
  nZerocoinMintFee := 0
  fRequireStandard := true
  checkTransaction := fun _ => true
  checkFinalTx := fun _ => true
  nonStandardReason := fun _ => none
  mapLockedInputs := fun _ => none
  isTransactionInChain := fun _ => false
  parseSpend := fun _ _ => true
  contextualCheckZerocoinSpend := fun _ _ => true
  haveCoins := fun _ => false
  validOutPoint := fun _ => true
  checkMint := fun _ _ => true
  haveInputs := fun _ => true
  getValueIn := fun _ => 0
  areInputsStandard := fun _ => true
  sigOpCount := fun _ => 0
  getTxSize := fun _ => 1000
  mapObfuscationBroadcastTxes := fun _ => false
  getMinRelayFee := fun _ _ => 0
  relayFee := fun _ => 100
  fRelayPriority := true
  allowFree := fun _ => true
  freeLimitReached := false
  checkInputsStandard := fun _ => true
  checkInputsMandatory := fun _ => true

/-- A public spend of the mint that is output 0 of transaction `mint`. -/
def publicSpend (hash mint : Uint256) (serial : UInt8) : CTransaction where
  hash
  vin := [{ prevout := ⟨mint, 0⟩
            scriptSig := [CScript.OP_ZEROCOINPUBLICSPEND, serial] }]
  vout := [⟨1, [CScript.OP_DUP], -10⟩]

def acceptCall (tx : CTransaction) : PoolCall :=
  .acceptToMemoryPool openView tx true false false

theorem runs_serials_once_two : ∃ pool,
    runCalls serialByte [acceptCall (publicSpend 11 7 5),
      acceptCall (publicSpend 12 8 6)] = some pool ∧ SerialsOnce serialByte pool := by
  apply runs_serials_once
  rw [show [acceptCall (publicSpend 11 7 5), acceptCall (publicSpend 12 8 6)] =
      ([] ++ [acceptCall (publicSpend 11 7 5)]) ++
        [acceptCall (publicSpend 12 8 6)] from rfl,
    EachAfter.append_singleton_iff, EachAfter.append_singleton_iff]
  refine ⟨⟨EachAfter.nil, ?_⟩, ?_⟩
  · intro pool hpool
    obtain rfl := Option.some.inj hpool
    refine ⟨by decide, ?_⟩
    intro hash entry hfind
    cases hfind
  · intro pool hpool
    obtain rfl := Option.some.inj hpool
    refine ⟨by decide, ?_⟩
    intro hash entry hfind _
    have hmem := KeyedMap.mem_toList.mpr hfind
    rw [show entry = ⟨publicSpend 11 7 5, 1000⟩ from
      (Prod.mk.inj (List.mem_singleton.mp hmem)).2]
    show List.Disjoint [(5 : UInt8)] [6]
    simp

/-- Two spends of one mint, with serial 5, are both in the pool. -/
theorem same_serial_accepted : ∃ pool,
    runCalls serialByte [acceptCall (publicSpend 11 7 5),
      acceptCall (publicSpend 12 7 5)] = some pool ∧
      (pool.mapTx.find? 11).isSome ∧ (pool.mapTx.find? 12).isSome ∧
      ¬ SerialsOnce serialByte pool := by
  refine ⟨_, rfl, by decide +kernel, by decide +kernel, ?_⟩
  intro h
  have hapart := h.apart 11 12 ⟨publicSpend 11 7 5, 1000⟩ ⟨publicSpend 12 7 5, 1000⟩
    rfl rfl (by decide)
  change List.Disjoint [(5 : UInt8)] [5] at hapart
  simp at hapart

end Runs

end Agrarian.Mempool
