import Agrarian.Primitives
import Agrarian.Coins.Coins
import Agrarian.Lib.KeyedMap
import Agrarian.Lib.Worklist

/-!
# The memory pool

`CTxMemPool` keeps the transactions that wait for a block, an index from each
outpoint they spend to the spending transaction, and the total of their
sizes (`txmempool.cpp`).  Transactions come in through `addUnchecked`, after
the checks of `AcceptToMemoryPool`, and go out through `remove`, which takes
the spenders of a removed transaction along, and the functions that call it.

Zerocoin spends are not put into the index, but removing one erases the
outpoints of its inputs from it like any other's.  The index therefore stays
right only while no ordinary transaction spends an outpoint that an input of
a zerocoin spend names.  The checks that come with acceptance see to that:
such an input names the null hash, or the output of a mint, which ordinary
transactions cannot spend.

The fee deltas of `mapDeltas` are left out, nothing else depends on them, and
the sanity checks count as turned off, as by default.
-/

namespace Agrarian.Mempool

open Agrarian.Lib Agrarian.Coins

/-! ## The pool -/

structure CTxMemPoolEntry where
  tx : CTransaction
  nTxSize : Nat

/-- An inpoint: a transaction of the pool and an index into its inputs. -/
structure CInPoint where
  ptx : CTransaction
  n : Nat

structure CTxMemPool where
  mapTx : KeyedMap Uint256 CTxMemPoolEntry := KeyedMap.empty
  mapNextTx : KeyedMap COutPoint CInPoint := KeyedMap.empty
  nTransactionsUpdated : UInt32 := 0
  /-- The sum of all transactions' byte sizes. -/
  totalTxSize : UInt64 := 0

namespace CTxMemPool

/-- The entries of the index that a transaction's inputs make. -/
def inPoints (tx : CTransaction) : List (COutPoint × CInPoint) :=
  tx.vin.zipIdx.map fun (txin, i) => (txin.prevout, ⟨tx, i⟩)

def prevouts (tx : CTransaction) : List COutPoint :=
  tx.vin.map CTxIn.prevout

/-- Add to memory pool without checking anything. -/
def addUnchecked (pool : CTxMemPool) (hash : Uint256)
    (entry : CTxMemPoolEntry) : CTxMemPool where
  mapTx := pool.mapTx.insert hash entry
  mapNextTx :=
    if !entry.tx.hasZerocoinSpendInputs then
      pool.mapNextTx.insertAll (inPoints entry.tx)
    else pool.mapNextTx
  nTransactionsUpdated := pool.nTransactionsUpdated + 1
  totalTxSize := pool.totalTxSize + UInt64.ofNat entry.nTxSize

/-- The spenders the index knows for the outputs of a transaction. -/
def spenders (pool : CTxMemPool) (hash : Uint256) (tx : CTransaction) :
    List Uint256 :=
  (List.range tx.vout.length).filterMap fun i =>
    (pool.mapNextTx.find? ⟨hash, i⟩).map fun it => it.ptx.getHash

/-- Take one transaction out of the pool. -/
def eraseTx (pool : CTxMemPool) (hash : Uint256) (entry : CTxMemPoolEntry) :
    CTxMemPool where
  mapTx := pool.mapTx.erase hash
  mapNextTx := pool.mapNextTx.eraseAll (prevouts entry.tx)
  nTransactionsUpdated := pool.nTransactionsUpdated + 1
  totalTxSize := pool.totalTxSize - UInt64.ofNat entry.nTxSize

/-- The pool, and the transactions removed so far. -/
structure Removal where
  pool : CTxMemPool
  removed : List CTransaction := []

/-- One turn of the removal loop, and the hashes it queues. -/
def removeStep (fRecursive : Bool) (s : Removal) (hash : Uint256) :
    Removal × List Uint256 :=
  match s.pool.mapTx.find? hash with
  | none => (s, [])
  | some entry =>
      ({ pool := s.pool.eraseTx hash entry
         removed := s.removed ++ [entry.tx] },
        if fRecursive then s.pool.spenders hash entry.tx else [])

/-- The outputs left in the pool; each can queue one spender. -/
def outputsLeft (pool : CTxMemPool) : Nat :=
  pool.mapTx.sum fun entry => entry.tx.vout.length

/-- If recursively removing but the transaction isn't in the pool, its
children are removed that are. -/
def remove (s : Removal) (origTx : CTransaction) (fRecursive : Bool) :
    Option Removal :=
  let children :=
    if fRecursive && (s.pool.mapTx.find? origTx.getHash).isNone then
      s.pool.spenders origTx.getHash origTx
    else []
  let txToRemove := origTx.getHash :: children
  Worklist.run (removeStep fRecursive)
    (txToRemove.length + s.pool.outputsLeft) s txToRemove

/-- Remove transactions which depend on inputs of `tx`, recursively. -/
def removeConflicts (s : Removal) (tx : CTransaction) : Option Removal :=
  tx.vin.foldlM (fun s txin =>
    match s.pool.mapNextTx.find? txin.prevout with
    | none => some s
    | some it =>
        if it.ptx.getHash ≠ tx.getHash then remove s it.ptx true
        else some s) s

/-- Called when a block is connected; the removal holds the conflicts. -/
def removeForBlock (s : Removal) (vtx : List CTransaction) :
    Option Removal :=
  vtx.foldlM (fun s tx =>
    (remove { pool := s.pool } tx false).bind fun dummy =>
      removeConflicts { s with pool := dummy.pool } tx) s

/-- What the view shows of the coins an input spends, at the height of the
next block: missing, or immature. -/
def spendsImmature (pool : CTxMemPool) (pcoins : Uint256 → Option CCoins)
    (nMemPoolHeight nMaturity : UInt32) (txin : CTxIn) : Bool :=
  if (pool.mapTx.find? txin.prevout.hash).isSome then false
  else
    match pcoins txin.prevout.hash with
    | none => true
    | some coins => (coins.fCoinBase || coins.fCoinStake) &&
        decide (nMemPoolHeight - coins.nHeight.toUInt32 < nMaturity)

/-- Remove transactions spending a coinbase which are now immature. -/
def removeCoinbaseSpends (pool : CTxMemPool)
    (pcoins : Uint256 → Option CCoins) (nMemPoolHeight nMaturity : UInt32) :
    Option CTxMemPool :=
  let transactionsToRemove :=
    (pool.mapTx.toList.map fun entry => entry.2.tx).filter fun tx =>
      tx.vin.any (pool.spendsImmature pcoins nMemPoolHeight nMaturity)
  transactionsToRemove.foldlM (fun pool tx =>
    (remove { pool } tx true).map Removal.pool) pool

def clear (pool : CTxMemPool) : CTxMemPool :=
  { nTransactionsUpdated := pool.nTransactionsUpdated + 1 }

/-! ## Runs -/

inductive PoolOp where
  | addUnchecked (entry : CTxMemPoolEntry)
  | remove (tx : CTransaction) (fRecursive : Bool)
  | removeConflicts (tx : CTransaction)
  | removeForBlock (vtx : List CTransaction)
  | removeCoinbaseSpends (pcoins : Uint256 → Option CCoins)
      (nMemPoolHeight nMaturity : UInt32)
  | clear

def step (pool : CTxMemPool) : PoolOp → Option CTxMemPool
  | .addUnchecked entry => some (pool.addUnchecked entry.tx.getHash entry)
  | .remove tx fRecursive =>
      (CTxMemPool.remove { pool } tx fRecursive).map Removal.pool
  | .removeConflicts tx =>
      (CTxMemPool.removeConflicts { pool } tx).map Removal.pool
  | .removeForBlock vtx =>
      (CTxMemPool.removeForBlock { pool } vtx).map Removal.pool
  | .removeCoinbaseSpends pcoins nMemPoolHeight nMaturity =>
      pool.removeCoinbaseSpends pcoins nMemPoolHeight nMaturity
  | .clear => some pool.clear

/-- What `AcceptToMemoryPool` checks of the transaction against the pool: it
is new, all inputs of a zerocoin spend are zerocoins, and another's inputs
name outpoints that differ and that the index does not have. -/
def Acceptable (pool : CTxMemPool) (tx : CTransaction) : Prop :=
  pool.mapTx.find? tx.getHash = none ∧
    if tx.hasZerocoinSpendInputs then
      ∀ txin ∈ tx.vin, txin.isZerocoinSpend || txin.isZerocoinPublicSpend
    else (prevouts tx).Nodup ∧
      ∀ out ∈ prevouts tx, pool.mapNextTx.find? out = none

instance (pool : CTxMemPool) (tx : CTransaction) :
    Decidable (pool.Acceptable tx) := inferInstanceAs (Decidable (_ ∧ ite _ _ _))

/-- The outpoints of zerocoin spends and of other transactions are kept
apart. -/
def ApartFrom (pool : CTxMemPool) (tx : CTransaction) : Prop :=
  ∀ hash entry, pool.mapTx.find? hash = some entry →
    entry.tx.hasZerocoinSpendInputs ≠ tx.hasZerocoinSpendInputs →
    List.Disjoint (prevouts entry.tx) (prevouts tx)

/-- The states of runs in which every added transaction meets the guard. -/
inductive Reachable (guard : CTxMemPool → CTransaction → Prop) :
    CTxMemPool → Prop
  | empty : Reachable guard {}
  | step {pool pool' : CTxMemPool} (op : PoolOp) : Reachable guard pool →
      (∀ entry, op = .addUnchecked entry → guard pool entry.tx) →
      pool.step op = some pool' → Reachable guard pool'

/-- What `check` asserts of the pool's structures. -/
structure Consistent (pool : CTxMemPool) : Prop where
  /-- The index holds the inputs of the pool that are not zerocoins. -/
  mapNextTx : ∀ out it, pool.mapNextTx.find? out = some it ↔
    ∃ entry txin, pool.mapTx.find? it.ptx.getHash = some entry ∧
      entry.tx = it.ptx ∧ it.ptx.vin[it.n]? = some txin ∧
      txin.prevout = out ∧ txin.isZerocoinSpend = false ∧
      txin.isZerocoinPublicSpend = false
  noDoubleSpend : ∀ hash hash' entry entry' out,
    pool.mapTx.find? hash = some entry →
    pool.mapTx.find? hash' = some entry' →
    entry.tx.hasZerocoinSpendInputs = false →
    entry'.tx.hasZerocoinSpendInputs = false →
    out ∈ prevouts entry.tx → out ∈ prevouts entry'.tx → hash = hash'
  totalTxSize : pool.totalTxSize =
    UInt64.ofNat (pool.mapTx.sum CTxMemPoolEntry.nTxSize)

/-! ## The invariant -/

/-- `Consistent`, with what removing a transaction needs to know of the
others. -/
structure Inv (pool : CTxMemPool) : Prop where
  hash : ∀ hash entry, pool.mapTx.find? hash = some entry →
    entry.tx.getHash = hash
  zerocoins : ∀ hash entry, pool.mapTx.find? hash = some entry →
    entry.tx.hasZerocoinSpendInputs = true →
    ∀ txin ∈ entry.tx.vin, txin.isZerocoinSpend || txin.isZerocoinPublicSpend
  apart : ∀ hash entry, pool.mapTx.find? hash = some entry →
    ApartFrom pool entry.tx
  mapNextTx : ∀ out it, pool.mapNextTx.find? out = some it ↔
    ∃ entry, pool.mapTx.find? it.ptx.getHash = some entry ∧
      entry.tx = it.ptx ∧ it.ptx.hasZerocoinSpendInputs = false ∧
      (prevouts it.ptx)[it.n]? = some out
  totalTxSize : pool.totalTxSize =
    UInt64.ofNat (pool.mapTx.sum CTxMemPoolEntry.nTxSize)

theorem isZerocoin_eq_false {tx : CTransaction}
    (h : tx.hasZerocoinSpendInputs = false) {txin : CTxIn}
    (hmem : txin ∈ tx.vin) : txin.isZerocoinSpend = false ∧
      txin.isZerocoinPublicSpend = false := by
  have hall := List.any_eq_false.mp h txin hmem
  rwa [Bool.or_eq_true, not_or, Bool.not_eq_true, Bool.not_eq_true] at hall

theorem Inv.consistent {pool : CTxMemPool} (h : pool.Inv) :
    pool.Consistent := by
  constructor
  · intro out it
    rw [h.mapNextTx]
    constructor
    · rintro ⟨entry, hfind, htx, hordinary, hget⟩
      rw [prevouts, List.getElem?_map, Option.map_eq_some_iff] at hget
      obtain ⟨txin, hvin, hprevout⟩ := hget
      have hzero := isZerocoin_eq_false hordinary (List.mem_of_getElem? hvin)
      exact ⟨entry, txin, hfind, htx, hvin, hprevout, hzero.1, hzero.2⟩
    · rintro ⟨entry, txin, hfind, htx, hvin, hprevout, hspend, hpublic⟩
      refine ⟨entry, hfind, htx, ?_, ?_⟩
      · by_contra hzero
        rw [Bool.not_eq_false, ← htx] at hzero
        rw [← htx] at hvin
        have := h.zerocoins _ entry hfind hzero txin
          (List.mem_of_getElem? hvin)
        rw [hspend, hpublic] at this
        cases this
      · rw [prevouts, List.getElem?_map, hvin, Option.map_some, hprevout]
  · intro hash hash' entry entry' out hfind hfind' hord hord' hmem hmem'
    obtain ⟨n, hn⟩ := List.mem_iff_getElem?.mp hmem
    obtain ⟨n', hn'⟩ := List.mem_iff_getElem?.mp hmem'
    have hnext : pool.mapNextTx.find? out = some ⟨entry.tx, n⟩ := by
      apply (h.mapNextTx out ⟨entry.tx, n⟩).mpr
      refine ⟨entry, ?_, rfl, hord, hn⟩
      rw [h.hash hash entry hfind]
      exact hfind
    have hnext' : pool.mapNextTx.find? out = some ⟨entry'.tx, n'⟩ := by
      apply (h.mapNextTx out ⟨entry'.tx, n'⟩).mpr
      refine ⟨entry', ?_, rfl, hord', hn'⟩
      rw [h.hash hash' entry' hfind']
      exact hfind'
    have hsame := Option.some.inj (hnext.symm.trans hnext')
    have htx : entry.tx = entry'.tx := (CInPoint.mk.inj hsame).1
    rw [← h.hash hash entry hfind, htx, h.hash hash' entry' hfind']
  · exact h.totalTxSize

/-! ## Adding a transaction -/

theorem map_fst_inPoints (tx : CTransaction) :
    (inPoints tx).map Prod.fst = prevouts tx := by
  unfold inPoints prevouts
  rw [List.map_map]
  show tx.vin.zipIdx.map (CTxIn.prevout ∘ Prod.fst) = _
  rw [← List.map_map, List.zipIdx_map_fst]

theorem mem_inPoints {tx : CTransaction} {out : COutPoint} {it : CInPoint} :
    (out, it) ∈ inPoints tx ↔
      it.ptx = tx ∧ (prevouts tx)[it.n]? = some out := by
  unfold inPoints prevouts
  rw [List.mem_map, List.getElem?_map, Option.map_eq_some_iff]
  constructor
  · rintro ⟨⟨txin, i⟩, hmem, heq⟩
    obtain ⟨rfl, rfl⟩ := Prod.mk.inj heq
    exact ⟨rfl, txin, List.mem_zipIdx_iff_getElem?.mp hmem, rfl⟩
  · rintro ⟨rfl, txin, hget, rfl⟩
    exact ⟨(txin, it.n), List.mem_zipIdx_iff_getElem?.mpr hget, rfl⟩

theorem addUnchecked_inv {pool : CTxMemPool} (h : pool.Inv)
    {entry : CTxMemPoolEntry} (haccept : pool.Acceptable entry.tx)
    (hapart : pool.ApartFrom entry.tx) :
    (pool.addUnchecked entry.tx.getHash entry).Inv := by
  obtain ⟨hnew, hinputs⟩ := haccept
  have hcases : ∀ hash e,
      (pool.mapTx.insert entry.tx.getHash entry).find? hash = some e →
      (hash = entry.tx.getHash ∧ e = entry) ∨
        pool.mapTx.find? hash = some e := by
    intro hash e hfind
    rw [KeyedMap.find?_insert] at hfind
    by_cases hhash : hash = entry.tx.getHash
    · rw [if_pos hhash] at hfind
      exact Or.inl ⟨hhash, (Option.some.inj hfind).symm⟩
    · rw [if_neg hhash] at hfind
      exact Or.inr hfind
  have hold : ∀ hash e, pool.mapTx.find? hash = some e →
      (pool.mapTx.insert entry.tx.getHash entry).find? hash = some e := by
    intro hash e hfind
    rw [KeyedMap.find?_insert, if_neg]
    · exact hfind
    · intro hhash
      rw [hhash, hnew] at hfind
      cases hfind
  constructor
  case hash =>
    intro hash e hfind
    rcases hcases hash e hfind with ⟨rfl, rfl⟩ | hfind
    · rfl
    · exact h.hash hash e hfind
  case zerocoins =>
    intro hash e hfind hzero
    rcases hcases hash e hfind with ⟨rfl, rfl⟩ | hfind
    · rw [if_pos hzero] at hinputs
      exact hinputs
    · exact h.zerocoins hash e hfind hzero
  case apart =>
    intro hash e hfind hash' e' hfind' hkinds
    rcases hcases hash e hfind with ⟨rfl, rfl⟩ | hfind₁
    · rcases hcases hash' e' hfind' with ⟨rfl, rfl⟩ | hfind'
      · exact absurd rfl hkinds
      · exact hapart hash' e' hfind' hkinds
    · rcases hcases hash' e' hfind' with ⟨rfl, rfl⟩ | hfind₂
      · exact (hapart hash e hfind₁ hkinds.symm).symm
      · exact h.apart hash e hfind₁ hash' e' hfind₂ hkinds
  case mapNextTx =>
    intro out it
    show (if !entry.tx.hasZerocoinSpendInputs then
      pool.mapNextTx.insertAll (inPoints entry.tx)
      else pool.mapNextTx).find? out = some it ↔ _
    by_cases hzero : entry.tx.hasZerocoinSpendInputs = true
    · rw [hzero]
      show pool.mapNextTx.find? out = some it ↔ _
      rw [h.mapNextTx]
      constructor
      · rintro ⟨e, hfind, hrest⟩
        exact ⟨e, hold _ e hfind, hrest⟩
      · rintro ⟨e, hfind, htx, hordinary, hget⟩
        rcases hcases _ e hfind with ⟨-, rfl⟩ | hfind
        · rw [← htx, hzero] at hordinary
          cases hordinary
        · exact ⟨e, hfind, htx, hordinary, hget⟩
    · rw [if_neg hzero] at hinputs
      rw [Bool.not_eq_true] at hzero
      rw [hzero]
      show (pool.mapNextTx.insertAll (inPoints entry.tx)).find? out = some it ↔ _
      rw [KeyedMap.find?_insertAll_iff
          (by rw [map_fst_inPoints]; exact hinputs.1),
        mem_inPoints, map_fst_inPoints, h.mapNextTx]
      constructor
      · rintro (⟨hptx, hget⟩ | ⟨-, e, hfind, hrest⟩)
        · rw [hptx]
          exact ⟨entry, KeyedMap.find?_insert_self _ _ _, rfl, hzero, hget⟩
        · exact ⟨e, hold _ e hfind, hrest⟩
      · rintro ⟨e, hfind, htx, hordinary, hget⟩
        rcases hcases _ e hfind with ⟨-, rfl⟩ | hfind
        · rw [← htx] at hget
          exact Or.inl ⟨htx.symm, hget⟩
        · refine Or.inr ⟨fun hout => ?_, e, hfind, htx, hordinary, hget⟩
          have hspent := (h.mapNextTx out it).mpr
            ⟨e, hfind, htx, hordinary, hget⟩
          rw [hinputs.2 out hout] at hspent
          cases hspent
  case totalTxSize =>
    show pool.totalTxSize + _ = UInt64.ofNat (KeyedMap.sum _
      (pool.mapTx.insert _ _))
    rw [KeyedMap.sum_insert _ _ hnew, h.totalTxSize, UInt64.ofNat_add,
      UInt64.add_comm]

/-! ## Removing a transaction -/

theorem eraseTx_inv {pool : CTxMemPool} (h : pool.Inv) {hash : Uint256}
    {entry : CTxMemPoolEntry} (hentry : pool.mapTx.find? hash = some entry) :
    (pool.eraseTx hash entry).Inv := by
  have hcases : ∀ hash' e, (pool.mapTx.erase hash).find? hash' = some e →
      hash' ≠ hash ∧ pool.mapTx.find? hash' = some e := by
    intro hash' e hfind
    rw [KeyedMap.find?_erase] at hfind
    by_cases hhash : hash' = hash
    · rw [if_pos hhash] at hfind
      cases hfind
    · rw [if_neg hhash] at hfind
      exact ⟨hhash, hfind⟩
  constructor
  case hash =>
    intro hash' e hfind
    exact h.hash hash' e (hcases hash' e hfind).2
  case zerocoins =>
    intro hash' e hfind
    exact h.zerocoins hash' e (hcases hash' e hfind).2
  case apart =>
    intro hash₁ e₁ hfind₁ hash₂ e₂ hfind₂
    exact h.apart hash₁ e₁ (hcases hash₁ e₁ hfind₁).2 hash₂ e₂
      (hcases hash₂ e₂ hfind₂).2
  case mapNextTx =>
    intro out it
    show (pool.mapNextTx.eraseAll (prevouts entry.tx)).find? out = some it ↔ _
    rw [KeyedMap.find?_eraseAll]
    constructor
    · intro hfind
      by_cases hout : out ∈ prevouts entry.tx
      · rw [if_pos hout] at hfind
        cases hfind
      · rw [if_neg hout] at hfind
        obtain ⟨e, hfind, htx, hordinary, hget⟩ := (h.mapNextTx out it).mp hfind
        refine ⟨e, ?_, htx, hordinary, hget⟩
        show (pool.mapTx.erase hash).find? _ = _
        rw [KeyedMap.find?_erase, if_neg]
        · exact hfind
        · intro hhash
          rw [hhash, hentry] at hfind
          obtain rfl := Option.some.inj hfind
          rw [← htx] at hget
          exact hout (List.mem_of_getElem? hget)
    · rintro ⟨e, hfind, htx, hordinary, hget⟩
      obtain ⟨hne, hfind⟩ := hcases _ e hfind
      have hnext := (h.mapNextTx out it).mpr ⟨e, hfind, htx, hordinary, hget⟩
      rw [if_neg, hnext]
      intro hout
      rw [← htx] at hget hordinary
      have hout' := List.mem_of_getElem? hget
      -- an ordinary transaction is the only spender of its outpoints, and a
      -- zerocoin spend shares none with ordinary ones
      by_cases hzero : entry.tx.hasZerocoinSpendInputs = true
      · have hkinds : e.tx.hasZerocoinSpendInputs ≠
            entry.tx.hasZerocoinSpendInputs := by
          rw [hordinary, hzero]
          exact Bool.false_ne_true
        exact h.apart hash entry hentry _ e hfind hkinds hout' hout
      · rw [Bool.not_eq_true] at hzero
        exact hne (h.consistent.noDoubleSpend _ hash e entry out hfind hentry
          hordinary hzero hout' hout)
  case totalTxSize =>
    show pool.totalTxSize - _ = UInt64.ofNat (KeyedMap.sum _
      (pool.mapTx.erase _))
    rw [h.totalTxSize, KeyedMap.sum_erase _ hentry, UInt64.ofNat_add,
      UInt64.add_comm, UInt64.add_sub_cancel]

/-- Each removed transaction pays for the spenders of its outputs. -/
theorem removeStep_pays (fRecursive : Bool) :
    Worklist.Pays (removeStep fRecursive)
      (fun s : Removal => s.pool.outputsLeft) := by
  intro s hash
  unfold removeStep
  cases hfind : s.pool.mapTx.find? hash with
  | none => simp
  | some entry =>
      have hlength : (s.pool.spenders hash entry.tx).length ≤
          entry.tx.vout.length := by
        have h := List.length_filterMap_le (fun i =>
          (s.pool.mapNextTx.find? ⟨hash, i⟩).map fun it => it.ptx.getHash)
          (List.range entry.tx.vout.length)
        rwa [List.length_range] at h
      have hsum : s.pool.outputsLeft = entry.tx.vout.length +
          (s.pool.eraseTx hash entry).outputsLeft :=
        KeyedMap.sum_erase _ hfind
      show (if fRecursive then s.pool.spenders hash entry.tx
        else []).length + (s.pool.eraseTx hash entry).outputsLeft ≤
          s.pool.outputsLeft
      split
      · omega
      · rw [List.length_nil]
        omega

theorem removeStep_inv {fRecursive : Bool} {s : Removal} (hash : Uint256)
    (h : s.pool.Inv) : (removeStep fRecursive s hash).1.pool.Inv := by
  unfold removeStep
  cases hfind : s.pool.mapTx.find? hash with
  | none => exact h
  | some entry => exact eraseTx_inv h hfind

/-- The removal loop ends, and keeps the invariant. -/
theorem remove_spec {s : Removal} (tx : CTransaction) (fRecursive : Bool)
    (h : s.pool.Inv) :
    ∃ s', remove s tx fRecursive = some s' ∧ s'.pool.Inv :=
  Worklist.run_invariant (removeStep_pays fRecursive)
    (fun _ hash => removeStep_inv hash) h (Nat.le_refl _)

/-- A loop of calls that all succeed and keep the invariant. -/
theorem foldlM_spec {σ α : Type} {f : σ → α → Option σ} (inv : σ → Prop)
    (hf : ∀ s a, inv s → ∃ s', f s a = some s' ∧ inv s') (as : List α) {s : σ}
    (h : inv s) : ∃ s', as.foldlM f s = some s' ∧ inv s' := by
  induction as generalizing s with
  | nil => exact ⟨s, rfl, h⟩
  | cons a as ih =>
      obtain ⟨s₁, hs₁, h₁⟩ := hf s a h
      obtain ⟨s₂, hs₂, h₂⟩ := ih h₁
      refine ⟨s₂, ?_, h₂⟩
      rw [List.foldlM_cons, hs₁]
      exact hs₂

theorem removeConflicts_spec {s : Removal} (tx : CTransaction)
    (h : s.pool.Inv) :
    ∃ s', removeConflicts s tx = some s' ∧ s'.pool.Inv := by
  apply foldlM_spec (fun s : Removal => s.pool.Inv) _ tx.vin h
  intro s txin h
  cases hnext : s.pool.mapNextTx.find? txin.prevout with
  | none => exact ⟨s, rfl, h⟩
  | some it =>
      by_cases hconflict : it.ptx.getHash ≠ tx.getHash
      · simp only [if_pos hconflict]
        exact remove_spec it.ptx true h
      · simp only [if_neg hconflict]
        exact ⟨s, rfl, h⟩

theorem removeForBlock_spec {s : Removal} (vtx : List CTransaction)
    (h : s.pool.Inv) :
    ∃ s', removeForBlock s vtx = some s' ∧ s'.pool.Inv := by
  apply foldlM_spec (fun s : Removal => s.pool.Inv) _ vtx h
  intro s tx h
  obtain ⟨dummy, hdummy, h'⟩ := remove_spec (s := { pool := s.pool }) tx false h
  rw [hdummy]
  exact removeConflicts_spec (s := { s with pool := dummy.pool }) tx h'

theorem removeCoinbaseSpends_spec {pool : CTxMemPool}
    (pcoins : Uint256 → Option CCoins) (nMemPoolHeight nMaturity : UInt32)
    (h : pool.Inv) :
    ∃ pool', pool.removeCoinbaseSpends pcoins nMemPoolHeight nMaturity =
      some pool' ∧ pool'.Inv := by
  apply foldlM_spec Inv _ _ h
  intro pool tx h
  obtain ⟨s, hs, h'⟩ := remove_spec (s := { pool }) tx true h
  exact ⟨s.pool, by rw [hs, Option.map_some], h'⟩

theorem inv_empty (nTransactionsUpdated : UInt32) :
    Inv { nTransactionsUpdated } := by
  constructor
  · intro hash entry hfind
    cases hfind
  · intro hash entry hfind
    cases hfind
  · intro hash entry hfind
    cases hfind
  · intro out it
    constructor
    · intro hfind
      cases hfind
    · rintro ⟨entry, hfind, -⟩
      cases hfind
  · rfl

/-- **Every call ends and keeps the invariant**, an added transaction being
accepted and apart from the pool's zerocoin spends. -/
theorem step_inv {pool : CTxMemPool} (h : pool.Inv) (op : PoolOp)
    (hguard : ∀ entry, op = .addUnchecked entry →
      pool.Acceptable entry.tx ∧ pool.ApartFrom entry.tx) :
    ∃ pool', pool.step op = some pool' ∧ pool'.Inv := by
  cases op with
  | addUnchecked entry =>
      obtain ⟨haccept, hapart⟩ := hguard entry rfl
      exact ⟨_, rfl, addUnchecked_inv h haccept hapart⟩
  | remove tx fRecursive =>
      obtain ⟨s, hs, h'⟩ := remove_spec (s := { pool }) tx fRecursive h
      exact ⟨s.pool, by rw [step, hs, Option.map_some], h'⟩
  | removeConflicts tx =>
      obtain ⟨s, hs, h'⟩ := removeConflicts_spec (s := { pool }) tx h
      exact ⟨s.pool, by rw [step, hs, Option.map_some], h'⟩
  | removeForBlock vtx =>
      obtain ⟨s, hs, h'⟩ := removeForBlock_spec (s := { pool }) vtx h
      exact ⟨s.pool, by rw [step, hs, Option.map_some], h'⟩
  | removeCoinbaseSpends pcoins nMemPoolHeight nMaturity =>
      exact removeCoinbaseSpends_spec pcoins nMemPoolHeight nMaturity h
  | clear => exact ⟨_, rfl, inv_empty _⟩

theorem Reachable.inv {pool : CTxMemPool}
    (h : Reachable (fun pool tx => pool.Acceptable tx ∧ pool.ApartFrom tx)
      pool) : pool.Inv := by
  induction h with
  | empty => exact inv_empty 0
  | step op _ hguard hstep ih =>
      obtain ⟨pool', hstep', hinv⟩ := step_inv ih op hguard
      rw [hstep] at hstep'
      obtain rfl := Option.some.inj hstep'
      exact hinv

/-- **The pool's structures agree** in every state of every run whose added
transactions are accepted and kept apart from zerocoin spends, and every
further call ends. -/
theorem reachable_consistent {pool : CTxMemPool}
    (h : Reachable (fun pool tx => pool.Acceptable tx ∧ pool.ApartFrom tx)
      pool) :
    pool.Consistent ∧ ∀ op, (∀ entry, op = .addUnchecked entry →
      pool.Acceptable entry.tx ∧ pool.ApartFrom entry.tx) →
        ∃ pool', pool.step op = some pool' := by
  refine ⟨h.inv.consistent, fun op hguard => ?_⟩
  obtain ⟨pool', hstep, -⟩ := step_inv h.inv op hguard
  exact ⟨pool', hstep⟩

def ordinaryTx : CTransaction :=
  { hash := 1
    vin := [{ prevout := ⟨7, 0⟩ }]
    vout := [{ nValue := 5, scriptPubKey := [] }] }

def childTx : CTransaction :=
  { hash := 2
    vin := [{ prevout := ⟨1, 0⟩ }]
    vout := [{ nValue := 4, scriptPubKey := [] }] }

/-- A public spend that names the outpoint of `ordinaryTx`. -/
def publicSpendTx : CTransaction :=
  { hash := 3
    vin := [{
      prevout := ⟨7, 0⟩
      scriptSig := [CScript.OP_ZEROCOINPUBLICSPEND] }]
    vout := [{ nValue := 5, scriptPubKey := [] }] }

/-- A transaction and its child, removed together. -/
theorem reachable_consistent_child : ∃ pool : CTxMemPool,
    (pool.mapTx.find? ordinaryTx.getHash).isNone ∧
      (pool.mapTx.find? childTx.getHash).isNone ∧
      pool.nTransactionsUpdated = 4 ∧ pool.Consistent := by
  have h0 : Reachable
      (fun pool tx => pool.Acceptable tx ∧ pool.ApartFrom tx) {} :=
    Reachable.empty
  have h1 := h0.step (.addUnchecked ⟨ordinaryTx, 100⟩)
    (fun entry hentry => by
      obtain rfl := PoolOp.addUnchecked.inj hentry
      refine ⟨by decide, fun hash e hfind => ?_⟩
      cases hfind) rfl
  have h2 := h1.step (.addUnchecked ⟨childTx, 90⟩)
    (fun entry hentry => by
      obtain rfl := PoolOp.addUnchecked.inj hentry
      refine ⟨by decide, fun hash e hfind hkinds => ?_⟩
      have hmem := KeyedMap.mem_toList.mpr hfind
      rw [show e = ⟨ordinaryTx, 100⟩ from
        (Prod.mk.inj (List.mem_singleton.mp hmem)).2] at hkinds
      exact absurd rfl hkinds) rfl
  have h3 := h2.step (.remove ordinaryTx true) (fun _ h => by cases h) rfl
  exact ⟨_, rfl, rfl, rfl, (reachable_consistent h3).1⟩

/-- Removing the public spend takes the ordinary transaction's outpoint out of
the index. -/
theorem removed_spend_breaks_index : ∃ pool : CTxMemPool,
    Reachable Acceptable pool ∧ ¬ pool.Consistent := by
  have h0 : Reachable Acceptable {} := Reachable.empty
  have h1 := h0.step (.addUnchecked ⟨ordinaryTx, 100⟩)
    (fun entry hentry => by
      obtain rfl := PoolOp.addUnchecked.inj hentry
      decide) rfl
  have h2 := h1.step (.addUnchecked ⟨publicSpendTx, 200⟩)
    (fun entry hentry => by
      obtain rfl := PoolOp.addUnchecked.inj hentry
      decide) rfl
  have h3 := h2.step (.remove publicSpendTx false) (fun _ h => by cases h) rfl
  refine ⟨_, h3, fun hconsistent => ?_⟩
  have hindex := (hconsistent.mapNextTx ⟨7, 0⟩ ⟨ordinaryTx, 0⟩).mpr
    ⟨⟨ordinaryTx, 100⟩, { prevout := ⟨7, 0⟩ }, rfl, rfl, rfl, rfl, rfl, rfl⟩
  cases hindex

end CTxMemPool

end Agrarian.Mempool
