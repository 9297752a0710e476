import Agrarian.Coins.ViewCache

/-!
# Connecting and disconnecting the coins of a block

`UpdateCoins` spends the inputs of a transaction and adds its outputs;
`DisconnectBlock` takes a block's transactions back in reverse order, with
the undo data `UpdateCoins` recorded, and reports whether everything was as
it had to be.

Both work on a view of coins, here anything that shows a record and takes a
new one (`CoinsStore`); a stack of caches is one.  The steps of a block,
spending an output or creating a record, are a log, which `DisconnectBlock`
unwinds.

The undo data of a record's last output carries its coinstake flag, but
`DisconnectBlock` does not restore it, and a height of zero in the undo data
stands for an output that was not the last.  Where neither matters the block
is undone exactly (`unwind_restores`), and where one of them does the result
is either reported as unclean or differs from the view before
(`unwind_spoilt`).
-/

namespace Agrarian.Coins

open Agrarian.Lib

/-! ## Views that are modified -/

/-- A view as `UpdateCoins` and `DisconnectBlock` use it: `coins` is the
record a `CCoinsModifier` shows, `write` leaves a new one through it. -/
structure CoinsStore (V : Type) where
  coins : V → Uint256 → CCoins
  write : V → Uint256 → CCoins → V
  getBestBlock : V → Uint256
  setBestBlock : V → Uint256 → V

/-- A record is cleaned up when its modifier is released, and nothing else
changes. -/
structure CoinsStore.Lawful {V : Type} (store : CoinsStore V) : Prop where
  coins_write : ∀ v k c k', CCoins.Same (store.coins (store.write v k c) k')
    (if k' = k then c.cleanup else store.coins v k')
  coins_setBestBlock : ∀ v hash k,
    CCoins.Same (store.coins (store.setBestBlock v hash) k) (store.coins v k)

variable {V : Type} (store : CoinsStore V)

/-! ## `UpdateCoins` -/

/-- `CTxUndo`: the undo data of a transaction's inputs. -/
abbrev CTxUndo := List CTxInUndo

/-- Mark inputs spent; `none` when the assertion that they can be fails. -/
def spendInputs : V → List CTxIn → Option (V × CTxUndo)
  | v, [] => some (v, [])
  | v, txin :: vin =>
      match (store.coins v txin.prevout.hash).spend txin.prevout with
      | none => none
      | some (coins, undo) =>
          (spendInputs (store.write v txin.prevout.hash coins) vin).map
            fun (v, vprevout) => (v, undo :: vprevout)

/-- Coinbases and zerocoin spends have no traditional inputs. -/
def spendsOutputs (tx : CTransaction) : Bool :=
  !tx.isCoinBase && !tx.hasZerocoinSpendInputs

def updateCoins (v : V) (tx : CTransaction) (nHeight : Int32) :
    Option (V × CTxUndo) :=
  (if spendsOutputs tx then spendInputs store v tx.vin else some (v, [])).map
    fun (v, vprevout) =>
      (store.write v tx.getHash (CCoins.fromTx tx nHeight), vprevout)

/-- The transactions of a block, one after the other. -/
def updateBlock (nHeight : Int32) :
    V → List CTransaction → Option (V × List CTxUndo)
  | v, [] => some (v, [])
  | v, tx :: vtx =>
      match updateCoins store v tx nHeight with
      | none => none
      | some (v, txundo) =>
          (updateBlock nHeight v vtx).map
            fun (v, vtxundo) => (v, txundo :: vtxundo)

/-! ## `DisconnectBlock` -/

/-- `vout.resize(n)`. -/
def resize (vout : List CTxOut) (n : Nat) : List CTxOut :=
  vout.take n ++ List.replicate (n - vout.length) CTxOut.null

/-- The record with one input restored, and whether it was as expected. -/
def undoSpend (coins : CCoins) (out : COutPoint) (undo : CTxInUndo) :
    CCoins × Bool :=
  let fExpected :=
    if undo.nHeight ≠ 0 then coins.isPruned else !coins.isPruned
  let coins :=
    if undo.nHeight ≠ 0 then
      { CCoins.empty with
        fCoinBase := undo.fCoinBase
        nHeight := undo.nHeight.toInt32
        nVersion := undo.nVersion }
    else coins
  let fMissing := !coins.isAvailable out.n
  let vout :=
    if coins.vout.length < out.n + 1 then resize coins.vout (out.n + 1)
    else coins.vout
  ({ coins with vout := vout.set out.n undo.txout }, fExpected && fMissing)

/-- Whether the outputs found are those of the transaction; they are removed
either way. -/
def undoCreate (coins : CCoins) (tx : CTransaction) (nHeight : Int32) :
    CCoins × Bool :=
  let outs := coins.clearUnspendable
  let outsBlock := CCoins.fromTx tx nHeight
  let outs :=
    if outsBlock.nVersion < 0 then { outs with nVersion := outsBlock.nVersion }
    else outs
  (CCoins.empty, decide (CCoins.Same outs outsBlock))

/-- The view and `fClean`. -/
structure DisconnectState (V : Type) where
  view : V
  fClean : Bool

def restoreInput (s : DisconnectState V) (out : COutPoint)
    (undo : CTxInUndo) : DisconnectState V :=
  let r := undoSpend (store.coins s.view out.hash) out undo
  { view := store.write s.view out.hash r.1, fClean := s.fClean && r.2 }

def removeOutputs (nHeight : Int32) (s : DisconnectState V)
    (tx : CTransaction) : DisconnectState V :=
  let r := undoCreate (store.coins s.view tx.getHash) tx nHeight
  { view := store.write s.view tx.getHash r.1, fClean := s.fClean && r.2 }

/-- What `DisconnectBlock` needs besides the view: the undo data read from
disk, the reversal of a transaction's zerocoin entries, and of the block's
accumulator checkpoint, each with the error it can fail with. -/
structure DisconnectEnv where
  undo : Except String (List CTxUndo)
  eraseZerocoins : CTransaction → Except String Unit
  eraseCheckpoint : Except String Unit

def disconnectTx (env : DisconnectEnv) (nHeight : Int32)
    (s : DisconnectState V) (tx : CTransaction) (txundo : CTxUndo) :
    Except String (DisconnectState V) := do
  if tx.containsZerocoins then env.eraseZerocoins tx
  let s := removeOutputs store nHeight s tx
  if spendsOutputs tx then
    if txundo.length ≠ tx.vin.length then
      throw "DisconnectBlock() : transaction and undo data inconsistent"
    pure ((tx.vin.zip txundo).foldr
      (fun (txin, undo) s => restoreInput store s txin.prevout undo) s)
  else pure s

/-- The loop over the transactions, the last one first.  The first one has
no undo data. -/
def disconnectTxs (env : DisconnectEnv) (nHeight : Int32) :
    DisconnectState V → List CTransaction → List CTxUndo →
      Except String (DisconnectState V)
  | s, tx :: vtx, txundo :: vtxundo => do
      let s ← disconnectTxs env nHeight s vtx vtxundo
      disconnectTx store env nHeight s tx txundo
  | s, _, _ => pure s

structure BlockIndex where
  hash : Uint256
  hashPrev : Uint256
  nHeight : Int32

/-- `none` when the assertion on the best block fails; else the error, or
the view and whether the disconnect was clean. -/
def disconnectBlock (env : DisconnectEnv) (pindex : BlockIndex)
    (vtx : List CTransaction) (v : V) :
    Option (Except String (DisconnectState V)) :=
  if pindex.hash ≠ store.getBestBlock v then none
  else
    some do
      let vtxundo ← env.undo
      if vtxundo.length + 1 ≠ vtx.length then
        throw "DisconnectBlock() : block and undo data inconsistent"
      let s ← disconnectTxs store env pindex.nHeight ⟨v, true⟩ vtx
        ([] :: vtxundo)
      env.eraseCheckpoint
      pure { s with view := store.setBestBlock s.view pindex.hashPrev }

/-! ## Records -/

namespace CCoins

/-- A record as the operations keep it: no spent outputs at the end, and
spent outputs as `SetNull` leaves them.  A spent record may be anything. -/
def WellFormed (c : CCoins) : Prop :=
  c.isPruned = true ∨ (c.Clean ∧ NullsCanonical c.vout)

/-- Output `n` is the last one unspent. -/
def IsLastUnspent (c : CCoins) (n : Nat) : Prop :=
  isPruned { c with vout := c.vout.set n CTxOut.null } = true

/-- Spending the output drops the record, and with it a coinstake flag that
is not restored, or a height of zero that is not recognised. -/
def LosesRecord (c : CCoins) (n : Nat) : Prop :=
  c.IsLastUnspent n ∧ (c.fCoinStake = true ∨ c.nHeight = 0)

instance (c : CCoins) (n : Nat) : Decidable (c.LosesRecord n) :=
  inferInstanceAs (Decidable (_ = _ ∧ _))

theorem nullsCanonical_set {vout : List CTxOut} (h : NullsCanonical vout)
    (n : Nat) : NullsCanonical (vout.set n CTxOut.null) := by
  intro out hout hnull
  rcases List.mem_or_eq_of_mem_set hout with hmem | heq
  · exact h out hmem hnull
  · exact heq

theorem nullsCanonical_rdropWhile {vout : List CTxOut}
    (h : NullsCanonical vout) :
    NullsCanonical (vout.rdropWhile CTxOut.isNull) := by
  intro out hout hnull
  exact h out ((List.rdropWhile_prefix _ vout).subset hout) hnull

theorem getD_set (vout : List CTxOut) (n : Nat) (hn : n < vout.length)
    (out : CTxOut) (i : Nat) :
    (vout.set n out).getD i CTxOut.null =
      if i = n then out else vout.getD i CTxOut.null := by
  by_cases hi : i = n
  · rw [if_pos hi, hi, List.getD_eq_getElem?_getD, List.getElem?_set_self hn]
    rfl
  · rw [if_neg hi, List.getD_eq_getElem?_getD,
      List.getElem?_set_ne (Ne.symm hi), List.getD_eq_getElem?_getD]

/-- What `Spend` does to a record that is well formed. -/
structure Spends (c c' : CCoins) (out : COutPoint) (undo : CTxInUndo) :
    Prop where
  clean : c.Clean
  notPruned : c.isPruned = false
  txout : c.vout.getD out.n CTxOut.null = undo.txout
  notNull : undo.txout.isNull = false
  clean' : c'.Clean
  canonical' : NullsCanonical c'.vout
  isPruned_iff : c'.isPruned = true ↔ c.IsLastUnspent out.n
  record : c' = { c with vout := c'.vout }
  outputs : ∀ i, c'.vout.getD i CTxOut.null =
    if i = out.n then CTxOut.null else c.vout.getD i CTxOut.null
  kept : c'.isPruned = false → undo.nHeight = 0
  last : c'.isPruned = true → undo =
    { txout := undo.txout
      nHeight := c.nHeight.toUInt32
      fCoinBase := c.fCoinBase
      fCoinStake := c.fCoinStake
      nVersion := c.nVersion }

theorem spend_spec {c c' : CCoins} {out : COutPoint} {undo : CTxInUndo}
    (hwf : c.WellFormed) (hspend : c.spend out = some (c', undo)) :
    Spends c c' out undo := by
  unfold spend at hspend
  cases hget : c.vout[out.n]? with
  | none =>
      rw [hget] at hspend
      cases hspend
  | some txout =>
      rw [hget] at hspend
      have hmem : txout ∈ c.vout := List.mem_of_getElem? hget
      have hlt : out.n < c.vout.length :=
        (List.getElem?_eq_some_iff.mp hget).1
      have htxout : c.vout.getD out.n CTxOut.null = txout := by
        rw [List.getD_eq_getElem?_getD, hget]
        rfl
      by_cases hnull : txout.isNull = true
      · simp only [if_pos hnull] at hspend
        cases hspend
      · have hpruned : c.isPruned = false := by
          rw [isPruned, List.all_eq_false]
          exact ⟨txout, hmem, hnull⟩
        obtain ⟨hclean, hcanonical⟩ : c.Clean ∧ NullsCanonical c.vout := by
          rcases hwf with hp | h
          · rw [hpruned] at hp
            cases hp
          · exact h
        have hset := nullsCanonical_set hcanonical out.n
        simp only [if_neg hnull] at hspend
        generalize hspent :
          cleanup { c with vout := c.vout.set out.n CTxOut.null } = spent
          at hspend
        have hclean' : spent.Clean := hspent ▸ clean_cleanup _
        have hcanonical' : NullsCanonical spent.vout := by
          rw [← hspent]
          exact nullsCanonical_rdropWhile hset
        have hiff : spent.isPruned = true ↔ c.IsLastUnspent out.n := by
          rw [← hspent, isPruned_cleanup]
          rfl
        have hrecord : spent = { c with vout := spent.vout } := by
          rw [← hspent]
          rfl
        have houtputs : ∀ i, spent.vout.getD i CTxOut.null =
            if i = out.n then CTxOut.null else c.vout.getD i CTxOut.null := by
          intro i
          rw [← getD_set _ _ hlt, ← hspent]
          exact getD_rdropWhile hset i
        rw [Bool.not_eq_true] at hnull
        by_cases hempty : spent.vout.isEmpty = true
        · rw [if_pos hempty] at hspend
          obtain ⟨rfl, rfl⟩ := Prod.mk.inj (Option.some.inj hspend)
          refine ⟨hclean, hpruned, htxout, hnull, hclean', hcanonical', hiff,
            hrecord, houtputs, fun hlive => ?_, fun _ => rfl⟩
          rw [hclean'.isPruned_iff.mpr (List.isEmpty_iff.mp hempty)] at hlive
          cases hlive
        · rw [if_neg hempty] at hspend
          obtain ⟨rfl, rfl⟩ := Prod.mk.inj (Option.some.inj hspend)
          refine ⟨hclean, hpruned, htxout, hnull, hclean', hcanonical', hiff,
            hrecord, houtputs, fun _ => rfl, fun hlast => ?_⟩
          rw [hclean'.isPruned_iff.mp hlast] at hempty
          exact absurd rfl hempty

theorem Spends.wellFormed {c c' : CCoins} {out : COutPoint}
    {undo : CTxInUndo} (h : Spends c c' out undo) : c'.WellFormed :=
  Or.inr ⟨h.clean', h.canonical'⟩

end CCoins

/-! ## Restoring one output -/

/-- The output is put at its place, whatever was there. -/
theorem getD_restored (vout : List CTxOut) (n : Nat) (out : CTxOut)
    (i : Nat) :
    ((if vout.length < n + 1 then resize vout (n + 1) else vout).set n
        out).getD i CTxOut.null =
      if i = n then out else vout.getD i CTxOut.null := by
  by_cases hshort : vout.length < n + 1
  · have hlength : (resize vout (n + 1)).length = n + 1 := by
      simp only [resize, List.length_append, List.length_take,
        List.length_replicate]
      omega
    rw [if_pos hshort, CCoins.getD_set _ _ (by omega)]
    congr 1
    unfold resize
    rw [List.take_of_length_le (by omega)]
    rcases Nat.lt_or_ge i vout.length with hlt | hge
    · rw [List.getD_append _ _ _ _ hlt]
    · rw [List.getD_append_right _ _ _ _ hge, List.getD_eq_default _ _ hge,
        List.getD_eq_getElem?_getD, List.getElem?_replicate]
      split <;> rfl
  · rw [if_neg hshort, CCoins.getD_set _ _ (by omega)]

theorem isAvailable_of_getD_null {c : CCoins} {n : Nat}
    (h : c.vout.getD n CTxOut.null = CTxOut.null) :
    c.isAvailable n = false := by
  unfold CCoins.isAvailable
  rw [List.getD_eq_getElem?_getD] at h
  cases hget : c.vout[n]? with
  | none => rfl
  | some out =>
      rw [hget] at h
      simp only [Option.getD_some] at h
      simp [h]

theorem not_pruned_of_getD {c : CCoins} {n : Nat}
    (h : (c.vout.getD n CTxOut.null).isNull = false) :
    c.isPruned = false := by
  rw [CCoins.isPruned, List.all_eq_false]
  rw [List.getD_eq_getElem?_getD] at h
  cases hget : c.vout[n]? with
  | none =>
      rw [hget] at h
      cases h
  | some out =>
      rw [hget, Option.getD_some] at h
      exact ⟨out, List.mem_of_getElem? hget, by simp [h]⟩

section Restore

variable {c c' r : CCoins} {out : COutPoint} {undo : CTxInUndo}

/-- An output that was not the last is restored exactly. -/
theorem undoSpend_kept (h : CCoins.Spends c c' out undo)
    (hlive : c'.isPruned = false) :
    (undoSpend c' out undo).2 = true ∧
      (undoSpend c' out undo).1.cleanup = c := by
  have hheight := h.kept hlive
  have hgone : c'.isAvailable out.n = false := by
    apply isAvailable_of_getD_null
    rw [h.outputs, if_pos rfl]
  unfold undoSpend
  simp only [hheight, ne_eq, not_true_eq_false, if_false, hlive, hgone]
  constructor
  · rfl
  · have hvout : ∀ i, ((if c'.vout.length < out.n + 1 then
        resize c'.vout (out.n + 1) else c'.vout).set out.n undo.txout).getD i
          CTxOut.null = c.vout.getD i CTxOut.null := by
      intro i
      rw [getD_restored, h.outputs]
      by_cases hi : i = out.n
      · rw [if_pos hi, hi, h.txout]
      · rw [if_neg hi, if_neg hi]
    have hclean : c.vout.rdropWhile CTxOut.isNull = c.vout :=
      congrArg CCoins.vout h.clean
    rw [CCoins.cleanup, CCoins.rdropWhile_congr hvout, hclean, h.record]

/-- The last output of a record brings the record back, but for its coinstake
flag. -/
theorem undoSpend_last (h : CCoins.Spends c c' out undo)
    (hlast : c'.isPruned = true) (hr : r.isPruned = true)
    (hheight : c.nHeight ≠ 0) :
    (undoSpend r out undo).2 = true ∧
      (undoSpend r out undo).1.cleanup = { c with fCoinStake := false } := by
  have hundo := h.last hlast
  have hne : undo.nHeight ≠ 0 := by
    rw [hundo]
    intro hzero
    apply hheight
    have := congrArg UInt32.toInt32 hzero
    simpa using this
  unfold undoSpend
  simp only [hne, ne_eq, not_false_eq_true, if_true, hr]
  constructor
  · rfl
  · have hvout : ∀ i, ((if ([] : List CTxOut).length < out.n + 1 then
        resize [] (out.n + 1) else []).set out.n undo.txout).getD i
          CTxOut.null = c.vout.getD i CTxOut.null := by
      intro i
      rw [getD_restored]
      by_cases hi : i = out.n
      · rw [if_pos hi, hi, h.txout]
      · have hi' := h.outputs i
        rw [if_neg hi, h.clean'.isPruned_iff.mp hlast] at hi'
        rw [if_neg hi, ← hi']
    have hclean : c.vout.rdropWhile CTxOut.isNull = c.vout :=
      congrArg CCoins.vout h.clean
    have hdrop := (CCoins.rdropWhile_congr hvout).trans hclean
    apply (congrArg (fun vout => ({
      fCoinBase := undo.fCoinBase
      vout
      nHeight := undo.nHeight.toInt32
      nVersion := undo.nVersion } : CCoins)) hdrop).trans
    rw [hundo]
    simp

/-- Undo data without a height is not taken for a whole record. -/
theorem undoSpend_height_zero (h : CCoins.Spends c c' out undo)
    (hlast : c'.isPruned = true) (hr : r.isPruned = true)
    (hheight : c.nHeight = 0) : (undoSpend r out undo).2 = false := by
  have hzero : undo.nHeight = 0 := by
    rw [h.last hlast]
    show c.nHeight.toUInt32 = 0
    rw [hheight]
    rfl
  unfold undoSpend
  simp [hzero, hr]

/-- Restoring an output of a record that is still there keeps the record's
coinstake flag, whatever it is. -/
theorem undoSpend_fCoinStake (h : CCoins.Spends c c' out undo)
    (hlive : c'.isPruned = false) :
    (undoSpend r out undo).1.cleanup.isPruned = false ∧
      (undoSpend r out undo).1.cleanup.fCoinStake = r.fCoinStake := by
  have hheight := h.kept hlive
  unfold undoSpend
  simp only [hheight, ne_eq, not_true_eq_false, if_false]
  constructor
  · rw [CCoins.isPruned_cleanup]
    apply not_pruned_of_getD (n := out.n)
    rw [getD_restored, if_pos rfl]
    exact h.notNull
  · rfl

end Restore

/-! ## Removing a transaction's outputs -/

/-- Outputs as `CheckTransaction` admits them: none has a negative amount. -/
def NoNegativeOutputs (tx : CTransaction) : Prop :=
  ∀ out ∈ tx.vout, 0 ≤ out.nValue

theorem wellFormed_fromTx {tx : CTransaction} (h : NoNegativeOutputs tx)
    (nHeight : Int32) : (CCoins.fromTx tx nHeight).WellFormed := by
  right
  refine ⟨CCoins.clean_fromTx tx nHeight, ?_⟩
  apply CCoins.nullsCanonical_rdropWhile
  intro out hout hnull
  obtain ⟨out', hmem, rfl⟩ := List.mem_map.mp hout
  by_cases hdead : out'.scriptPubKey.isUnspendable = true
  · rw [if_pos hdead]
  · rw [if_neg hdead] at hnull
    have hpos := h out' hmem
    have hneg : out'.nValue = -1 := by simpa [CTxOut.isNull] using hnull
    omega

theorem clearUnspendable_fromTx (tx : CTransaction) (nHeight : Int32) :
    (CCoins.fromTx tx nHeight).clearUnspendable =
      CCoins.fromTx tx nHeight := by
  have hspendable : ∀ out ∈ (CCoins.fromTx tx nHeight).vout,
      out.scriptPubKey.isUnspendable = false := by
    intro out hout
    have hmem := (List.rdropWhile_prefix _ _).subset hout
    obtain ⟨out', -, rfl⟩ := List.mem_map.mp hmem
    split
    · rfl
    · next h => simpa using h
  have hmap : (CCoins.fromTx tx nHeight).vout.map (fun txout =>
      if txout.scriptPubKey.isUnspendable then CTxOut.null else txout) =
        (CCoins.fromTx tx nHeight).vout := by
    rw [List.map_congr_left (g := id), List.map_id]
    intro out hout
    rw [hspendable out hout, if_neg Bool.false_ne_true, id]
  rw [CCoins.clearUnspendable, hmap]
  exact CCoins.clean_fromTx tx nHeight

theorem isPruned_clearUnspendable {c : CCoins} (h : c.isPruned = true) :
    c.clearUnspendable.isPruned = true := by
  rw [CCoins.clearUnspendable, CCoins.isPruned_cleanup, CCoins.isPruned,
    List.all_map, List.all_eq_true]
  intro out hout
  rw [Function.comp_apply]
  split
  · rfl
  · exact List.all_eq_true.mp h out hout

/-- The outputs a transaction left are taken back without complaint. -/
theorem undoCreate_clean {r : CCoins} {tx : CTransaction} {nHeight : Int32}
    (hr : CCoins.Same r (CCoins.fromTx tx nHeight)) :
    (undoCreate r tx nHeight).2 = true := by
  unfold undoCreate
  simp only [decide_eq_true_eq]
  rcases hr with ⟨hpruned, hpruned'⟩ | rfl
  · apply CCoins.same_of_pruned _ hpruned'
    split
    · exact isPruned_clearUnspendable hpruned
    · exact isPruned_clearUnspendable hpruned
  · rw [clearUnspendable_fromTx]
    split
    · exact CCoins.Same.refl _
    · exact CCoins.Same.refl _

/-- A record without the coinstake flag is not one that has it. -/
theorem undoCreate_fCoinStake {r : CCoins} {tx : CTransaction}
    {nHeight : Int32} (hr : r.fCoinStake = false)
    (hstake : (CCoins.fromTx tx nHeight).fCoinStake = true)
    (hlive : (CCoins.fromTx tx nHeight).isPruned = false) :
    (undoCreate r tx nHeight).2 = false := by
  have hdiff : ∀ outs : CCoins, outs.fCoinStake = false →
      ¬ CCoins.Same outs (CCoins.fromTx tx nHeight) := by
    intro outs houts hsame
    have heq := hsame.symm.eq_of_not_pruned hlive
    rw [← heq, hstake] at houts
    cases houts
  unfold undoCreate
  simp only [decide_eq_false_iff_not]
  split
  · exact hdiff _ hr
  · exact hdiff _ hr

/-! ## The log of a block -/

/-- One change of the view: an output spent, or a transaction's record
created. -/
inductive CoinStep where
  | spend (out : COutPoint)
  | create (tx : CTransaction)

/-- The changes `UpdateCoins` makes for one transaction. -/
def coinSteps (tx : CTransaction) : List CoinStep :=
  (if spendsOutputs tx then
    tx.vin.map fun txin => CoinStep.spend txin.prevout
  else []) ++ [CoinStep.create tx]

/-- The view after one change; an output that is not there changes
nothing. -/
def CoinStep.apply (nHeight : Int32) (v : V) : CoinStep → V
  | .spend out =>
      match (store.coins v out.hash).spend out with
      | none => v
      | some (coins, _) => store.write v out.hash coins
  | .create tx => store.write v tx.getHash (CCoins.fromTx tx nHeight)

/-- Something holds of every change in the view just before it. -/
def EachStep (nHeight : Int32) (P : V → CoinStep → Prop) :
    V → List CoinStep → Prop
  | _, [] => True
  | v, step :: steps =>
      P v step ∧ EachStep nHeight P (step.apply store nHeight v) steps

/-- No record is overwritten while it has unspent outputs. -/
def NoOverwrite (v : V) : CoinStep → Prop
  | .spend _ => True
  | .create tx => (store.coins v tx.getHash).isPruned = true

/-- The spent output does not take with it what cannot be restored. -/
def KeepsRecord (v : V) : CoinStep → Prop
  | .spend out => ¬ (store.coins v out.hash).LosesRecord out.n
  | .create _ => True

instance (v : V) : (step : CoinStep) → Decidable (NoOverwrite store v step)
  | .spend _ => inferInstanceAs (Decidable True)
  | .create _ => inferInstanceAs (Decidable (_ = true))

instance (v : V) : (step : CoinStep) → Decidable (KeepsRecord store v step)
  | .spend _ => inferInstanceAs (Decidable (¬ _))
  | .create _ => inferInstanceAs (Decidable True)

instance EachStep.decidable (nHeight : Int32) (P : V → CoinStep → Prop)
    [∀ v step, Decidable (P v step)] :
    (v : V) → (steps : List CoinStep) →
      Decidable (EachStep store nHeight P v steps)
  | _, [] => inferInstanceAs (Decidable True)
  | v, step :: steps =>
      have := EachStep.decidable nHeight P (step.apply store nHeight v) steps
      inferInstanceAs (Decidable (_ ∧ _))

/-- A change as `DisconnectBlock` sees it, with its undo data. -/
inductive LogEntry where
  | spent (out : COutPoint) (undo : CTxInUndo)
  | created (tx : CTransaction)

def LogEntry.step : LogEntry → CoinStep
  | .spent out _ => .spend out
  | .created tx => .create tx

/-- A change makes the log entry, with the undo data `Spend` gives. -/
def Logged (v : V) : LogEntry → Prop
  | .spent out undo =>
      ∃ coins, (store.coins v out.hash).spend out = some (coins, undo)
  | .created tx =>
      (store.coins v tx.getHash).isPruned = true ∧ NoNegativeOutputs tx

/-- The log of changes made one after the other. -/
def Applies (nHeight : Int32) : V → List LogEntry → V → Prop
  | v, [], v' => v' = v
  | v, entry :: log, v' => Logged store v entry ∧
      Applies nHeight (entry.step.apply store nHeight v) log v'

/-- One step of `DisconnectBlock`. -/
def unwindEntry (nHeight : Int32) (s : DisconnectState V) :
    LogEntry → DisconnectState V
  | .spent out undo => restoreInput store s out undo
  | .created tx => removeOutputs store nHeight s tx

/-- The log taken back, the last entry first. -/
def unwind (nHeight : Int32) (s : DisconnectState V) (log : List LogEntry) :
    DisconnectState V :=
  log.foldr (fun entry s => unwindEntry store nHeight s entry) s

/-- Two views hold the same coins. -/
def SameCoins (v w : V) : Prop :=
  ∀ txid, CCoins.Same (store.coins v txid) (store.coins w txid)

def WellFormedView (v : V) : Prop :=
  ∀ txid, (store.coins v txid).WellFormed

/-- The state of a disconnect that took everything back so far. -/
def Restored (s : DisconnectState V) (v : V) : Prop :=
  s.fClean = true ∧ SameCoins store s.view v

/-- The state of a disconnect that cannot end well any more: it found
something unexpected, or some record has lost its coinstake flag. -/
def Spoilt (s : DisconnectState V) (v : V) : Prop :=
  s.fClean = false ∨ ∃ txid,
    (store.coins v txid).isPruned = false ∧
    (store.coins v txid).fCoinStake = true ∧
    (store.coins s.view txid).isPruned = false ∧
    (store.coins s.view txid).fCoinStake = false

variable {store}

theorem not_restored_of_spoilt {s : DisconnectState V} {v : V}
    (h : Spoilt store s v) : ¬ Restored store s v := by
  rintro ⟨hclean, hsame⟩
  rcases h with hdirty | ⟨txid, hlive, hstake, -, hlost⟩
  · rw [hclean] at hdirty
    cases hdirty
  · have heq := (hsame txid).symm.eq_of_not_pruned hlive
    rw [← heq, hstake] at hlost
    cases hlost

section Unwind

variable {nHeight : Int32} {s : DisconnectState V} {v v' : V}

theorem CoinsStore.Lawful.write_self (hstore : store.Lawful) (v : V)
    (k : Uint256) (c : CCoins) :
    CCoins.Same (store.coins (store.write v k c) k) c.cleanup := by
  have h := hstore.coins_write v k c k
  rwa [if_pos rfl] at h

theorem CoinsStore.Lawful.write_ne (hstore : store.Lawful) (v : V)
    {k k' : Uint256} (hne : k' ≠ k) (c : CCoins) :
    CCoins.Same (store.coins (store.write v k c) k') (store.coins v k') := by
  have h := hstore.coins_write v k c k'
  rwa [if_neg hne] at h

theorem CCoins.WellFormed.congr {a b : CCoins} (h : a.WellFormed)
    (hsame : CCoins.Same a b) : b.WellFormed := by
  rcases hsame with ⟨-, hb⟩ | rfl
  · exact Or.inl hb
  · exact h

theorem CCoins.WellFormed.cleanup {c : CCoins} (h : c.WellFormed) :
    c.cleanup.WellFormed := by
  rcases h with hpruned | ⟨hclean, hcanonical⟩
  · left
    rwa [CCoins.isPruned_cleanup]
  · right
    rw [show c.cleanup = c from hclean]
    exact ⟨hclean, hcanonical⟩

theorem wellFormedView_write (hstore : store.Lawful)
    (hwf : WellFormedView store v) {k : Uint256} {c : CCoins}
    (hc : c.WellFormed) : WellFormedView store (store.write v k c) := by
  intro k'
  by_cases hk : k' = k
  · rw [hk]
    exact hc.cleanup.congr (hstore.write_self v k c).symm
  · exact (hwf k').congr (hstore.write_ne v hk c).symm

variable (nHeight) in
theorem spends_of_spend (hwf : WellFormedView store v) {out : COutPoint}
    {coins : CCoins} {undo : CTxInUndo}
    (hspend : (store.coins v out.hash).spend out = some (coins, undo)) :
    CCoins.Spends (store.coins v out.hash) coins out undo ∧
      (CoinStep.spend out).apply store nHeight v =
        store.write v out.hash coins := by
  refine ⟨CCoins.spend_spec (hwf _) hspend, ?_⟩
  simp only [CoinStep.apply, hspend]

variable (nHeight) in
theorem Logged.wellFormedView (hstore : store.Lawful)
    (hwf : WellFormedView store v) {entry : LogEntry}
    (hlogged : Logged store v entry) :
    WellFormedView store (entry.step.apply store nHeight v) := by
  cases entry with
  | spent out undo =>
      obtain ⟨coins, hspend⟩ := hlogged
      obtain ⟨hspends, happly⟩ :=
        spends_of_spend nHeight hwf hspend
      rw [LogEntry.step, happly]
      exact wellFormedView_write hstore hwf hspends.wellFormed
  | created tx =>
      exact wellFormedView_write hstore hwf
        (wellFormed_fromTx hlogged.2 nHeight)

/-- A record written back to where a change was made takes the change
back. -/
theorem sameCoins_write_back (hstore : store.Lawful) {u : V} {k : Uint256}
    {c x : CCoins} (hsame : SameCoins store u (store.write v k c))
    (hx : CCoins.Same x.cleanup (store.coins v k)) :
    SameCoins store (store.write u k x) v := by
  intro k'
  by_cases hk : k' = k
  · rw [hk]
    exact (hstore.write_self u k x).trans hx
  · exact ((hstore.write_ne u hk x).trans (hsame k')).trans
      (hstore.write_ne v hk c)

/-- What the view shows of a spent record. -/
theorem same_spent (hstore : store.Lawful) {u : V} {out : COutPoint}
    {c c' : CCoins} {undo : CTxInUndo} (hspends : CCoins.Spends c c' out undo)
    (hsame : SameCoins store u (store.write v out.hash c')) :
    CCoins.Same (store.coins u out.hash) c' := by
  have h := (hsame out.hash).trans (hstore.write_self v out.hash c')
  rwa [show c'.cleanup = c' from hspends.clean'] at h

/-- One entry taken back. -/
theorem unwindEntry_restores (hstore : store.Lawful)
    (hwf : WellFormedView store v) {entry : LogEntry}
    (hlogged : Logged store v entry) (hkeeps : KeepsRecord store v entry.step)
    (hs : Restored store s (entry.step.apply store nHeight v)) :
    Restored store (unwindEntry store nHeight s entry) v := by
  obtain ⟨hclean, hsame⟩ := hs
  cases entry with
  | spent out undo =>
      obtain ⟨c', hspend⟩ := hlogged
      obtain ⟨hspends, happly⟩ :=
        spends_of_spend nHeight hwf hspend
      rw [LogEntry.step, happly] at hsame
      have hr := same_spent hstore hspends hsame
      have hundone : (undoSpend (store.coins s.view out.hash) out undo).2 =
            true ∧
          (undoSpend (store.coins s.view out.hash) out undo).1.cleanup =
            store.coins v out.hash := by
        by_cases hlast : c'.isPruned = true
        · have hr' : (store.coins s.view out.hash).isPruned = true := by
            rw [hr.isPruned_eq, hlast]
          have hkept : ¬ ((store.coins v out.hash).fCoinStake = true ∨
              (store.coins v out.hash).nHeight = 0) :=
            fun h => hkeeps ⟨hspends.isPruned_iff.mp hlast, h⟩
          rw [not_or, Bool.not_eq_true] at hkept
          obtain ⟨hok, hcleanup⟩ := undoSpend_last hspends hlast hr' hkept.2
          refine ⟨hok, hcleanup.trans ?_⟩
          rw [← hkept.1]
        · rw [Bool.not_eq_true] at hlast
          have heq := hr.symm.eq_of_not_pruned hlast
          rw [← heq]
          exact undoSpend_kept hspends hlast
      constructor
      · show (s.fClean && (undoSpend _ _ _).2) = true
        rw [hclean, hundone.1]
        rfl
      · apply sameCoins_write_back hstore hsame
        rw [hundone.2]
  | created tx =>
      have hr : CCoins.Same (store.coins s.view tx.getHash)
          (CCoins.fromTx tx nHeight) := by
        have h := (hsame tx.getHash).trans
          (hstore.write_self v tx.getHash (CCoins.fromTx tx nHeight))
        rwa [show (CCoins.fromTx tx nHeight).cleanup = _ from
          CCoins.clean_fromTx tx nHeight] at h
      constructor
      · show (s.fClean && (undoCreate _ _ _).2) = true
        rw [hclean, undoCreate_clean hr]
        rfl
      · apply sameCoins_write_back hstore hsame
        exact CCoins.same_of_pruned rfl hlogged.1

/-- An entry whose record cannot be restored. -/
theorem unwindEntry_spoils (hstore : store.Lawful)
    (hwf : WellFormedView store v) {entry : LogEntry}
    (hlogged : Logged store v entry)
    (hloses : ¬ KeepsRecord store v entry.step)
    (hs : Restored store s (entry.step.apply store nHeight v)) :
    Spoilt store (unwindEntry store nHeight s entry) v := by
  cases entry with
  | created tx => exact absurd trivial hloses
  | spent out undo =>
      obtain ⟨c', hspend⟩ := hlogged
      obtain ⟨hspends, happly⟩ :=
        spends_of_spend nHeight hwf hspend
      rw [LogEntry.step, happly] at hs
      obtain ⟨hlastUnspent, hlost⟩ := not_not.mp hloses
      have hlast := hspends.isPruned_iff.mpr hlastUnspent
      have hr : (store.coins s.view out.hash).isPruned = true := by
        rw [(same_spent hstore hspends hs.2).isPruned_eq, hlast]
      by_cases hheight : (store.coins v out.hash).nHeight = 0
      · left
        show (s.fClean && (undoSpend _ _ _).2) = false
        rw [undoSpend_height_zero hspends hlast hr hheight, Bool.and_false]
      · right
        have hstake := hlost.resolve_right hheight
        have hcleanup := (undoSpend_last hspends hlast hr hheight).2
        have hback := hstore.write_self s.view out.hash
          (undoSpend (store.coins s.view out.hash) out undo).1
        rw [hcleanup] at hback
        have heq := hback.symm.eq_of_not_pruned hspends.notPruned
        refine ⟨out.hash, hspends.notPruned, hstake, ?_, ?_⟩
        · show (store.coins (store.write _ _ _) _).isPruned = false
          rw [← heq]
          exact hspends.notPruned
        · show (store.coins (store.write _ _ _) _).fCoinStake = false
          rw [← heq]

/-- A record that has lost its flag is not touched by changes to others. -/
theorem spoilt_write_ne (hstore : store.Lawful) {u : V} {k txid : Uint256}
    (hne : txid ≠ k) (c x : CCoins)
    (hlive : (store.coins (store.write v k c) txid).isPruned = false)
    (hstake : (store.coins (store.write v k c) txid).fCoinStake = true)
    (hlive' : (store.coins u txid).isPruned = false)
    (hlost : (store.coins u txid).fCoinStake = false) :
    (store.coins v txid).isPruned = false ∧
      (store.coins v txid).fCoinStake = true ∧
      (store.coins (store.write u k x) txid).isPruned = false ∧
      (store.coins (store.write u k x) txid).fCoinStake = false := by
  have hv := (hstore.write_ne v hne c).eq_of_not_pruned hlive
  have hu := (hstore.write_ne u hne x).symm.eq_of_not_pruned hlive'
  rw [← hv, ← hu]
  exact ⟨hlive, hstake, hlive', hlost⟩

/-- Nothing that is taken back afterwards mends a spoilt state. -/
theorem unwindEntry_spoilt (hstore : store.Lawful)
    (hwf : WellFormedView store v) {entry : LogEntry}
    (hlogged : Logged store v entry)
    (hs : Spoilt store s (entry.step.apply store nHeight v)) :
    Spoilt store (unwindEntry store nHeight s entry) v := by
  rcases hs with hdirty | ⟨txid, hlive, hstake, hlive', hlost⟩
  · left
    cases entry with
    | spent out undo =>
        show (s.fClean && (undoSpend _ _ _).2) = false
        rw [hdirty, Bool.false_and]
    | created tx =>
        show (s.fClean && (undoCreate _ _ _).2) = false
        rw [hdirty, Bool.false_and]
  · cases entry with
    | spent out undo =>
        right
        obtain ⟨c', hspend⟩ := hlogged
        obtain ⟨hspends, happly⟩ :=
          spends_of_spend nHeight hwf hspend
        rw [LogEntry.step, happly] at hlive hstake
        by_cases htxid : txid = out.hash
        · subst htxid
          have hself := hstore.write_self v out.hash c'
          rw [show c'.cleanup = c' from hspends.clean'] at hself
          have heq := hself.eq_of_not_pruned hlive
          rw [heq] at hlive hstake
          obtain ⟨hback, hflag⟩ := undoSpend_fCoinStake
            (r := store.coins s.view out.hash) hspends hlive
          have heq' := (hstore.write_self s.view out.hash
            (undoSpend (store.coins s.view out.hash) out
              undo).1).symm.eq_of_not_pruned hback
          refine ⟨out.hash, hspends.notPruned, ?_, ?_, ?_⟩
          · rw [hspends.record] at hstake
            exact hstake
          · show (store.coins (store.write _ _ _) _).isPruned = false
            rw [← heq']
            exact hback
          · show (store.coins (store.write _ _ _) _).fCoinStake = false
            rw [← heq', hflag]
            exact hlost
        · exact ⟨txid, spoilt_write_ne hstore htxid _ _ hlive hstake hlive'
            hlost⟩
    | created tx =>
        by_cases htxid : txid = tx.getHash
        · left
          subst htxid
          have hself := hstore.write_self v tx.getHash
            (CCoins.fromTx tx nHeight)
          rw [show (CCoins.fromTx tx nHeight).cleanup = _ from
            CCoins.clean_fromTx tx nHeight] at hself
          have heq : store.coins ((LogEntry.created tx).step.apply store
              nHeight v) tx.getHash = _ := hself.eq_of_not_pruned hlive
          rw [heq] at hlive hstake
          show (s.fClean && (undoCreate _ _ _).2) = false
          rw [undoCreate_fCoinStake hlost hstake hlive, Bool.and_false]
        · right
          exact ⟨txid, spoilt_write_ne hstore htxid _ _ hlive hstake hlive'
            hlost⟩

/-- A log whose records can all be restored is taken back cleanly. -/
theorem unwind_restores (hstore : store.Lawful) {log : List LogEntry}
    (hwf : WellFormedView store v) (happlies : Applies store nHeight v log v')
    (hkeeps : EachStep store nHeight (KeepsRecord store) v
      (log.map LogEntry.step))
    (hs : Restored store s v') :
    Restored store (unwind store nHeight s log) v := by
  induction log generalizing v with
  | nil =>
      rw [show v' = v from happlies] at hs
      exact hs
  | cons entry log ih =>
      obtain ⟨hlogged, hrest⟩ := happlies
      apply unwindEntry_restores hstore hwf hlogged hkeeps.1
      exact ih (hlogged.wellFormedView nHeight hstore hwf) hrest hkeeps.2

/-- A log with a record that cannot be restored is not taken back. -/
theorem unwind_spoilt (hstore : store.Lawful) {log : List LogEntry}
    (hwf : WellFormedView store v) (happlies : Applies store nHeight v log v')
    (hloses : ¬ EachStep store nHeight (KeepsRecord store) v
      (log.map LogEntry.step))
    (hs : Restored store s v') :
    Spoilt store (unwind store nHeight s log) v := by
  induction log generalizing v with
  | nil => exact absurd trivial hloses
  | cons entry log ih =>
      obtain ⟨hlogged, hrest⟩ := happlies
      have hwf' := hlogged.wellFormedView nHeight hstore hwf
      by_cases hkeeps : EachStep store nHeight (KeepsRecord store)
          (entry.step.apply store nHeight v) (log.map LogEntry.step)
      · apply unwindEntry_spoils hstore hwf hlogged
        · exact fun h => hloses ⟨h, hkeeps⟩
        · exact unwind_restores hstore hwf' hrest hkeeps hs
      · apply unwindEntry_spoilt hstore hwf hlogged
        exact ih hwf' hrest hkeeps

/-- **A log is taken back cleanly exactly when no record is lost.** -/
theorem unwind_restores_iff (hstore : store.Lawful) {log : List LogEntry}
    (hwf : WellFormedView store v) (happlies : Applies store nHeight v log v')
    (hs : Restored store s v') :
    Restored store (unwind store nHeight s log) v ↔
      EachStep store nHeight (KeepsRecord store) v
        (log.map LogEntry.step) := by
  constructor
  · intro hrestored
    by_contra hloses
    exact not_restored_of_spoilt
      (unwind_spoilt hstore hwf happlies hloses hs) hrestored
  · intro hkeeps
    exact unwind_restores hstore hwf happlies hkeeps hs

end Unwind

/-! ## The log of `UpdateCoins` -/

/-- The log of one transaction, with the undo data of its inputs. -/
def txLog (tx : CTransaction) (txundo : CTxUndo) : List LogEntry :=
  (if spendsOutputs tx then
    (tx.vin.zip txundo).map fun (txin, undo) =>
      LogEntry.spent txin.prevout undo
  else []) ++ [LogEntry.created tx]

def blockLog : List CTransaction → List CTxUndo → List LogEntry
  | tx :: vtx, txundo :: vtxundo => txLog tx txundo ++ blockLog vtx vtxundo
  | _, _ => []

section Log

variable {nHeight : Int32} {v v' : V}

theorem Applies.append {v₁ v₂ : V} {log log' : List LogEntry}
    (h : Applies store nHeight v log v₁)
    (h' : Applies store nHeight v₁ log' v₂) :
    Applies store nHeight v (log ++ log') v₂ := by
  induction log generalizing v with
  | nil =>
      rw [show v₁ = v from h] at h'
      exact h'
  | cons entry log ih => exact ⟨h.1, ih h.2⟩

theorem Applies.eq_foldl {log : List LogEntry}
    (h : Applies store nHeight v log v') :
    v' = (log.map LogEntry.step).foldl
      (fun v step => step.apply store nHeight v) v := by
  induction log generalizing v with
  | nil => exact h
  | cons entry log ih => exact ih h.2

theorem eachStep_append {P : V → CoinStep → Prop} {xs ys : List CoinStep} :
    EachStep store nHeight P v (xs ++ ys) ↔
      EachStep store nHeight P v xs ∧ EachStep store nHeight P
        (xs.foldl (fun v step => step.apply store nHeight v) v) ys := by
  induction xs generalizing v with
  | nil => simp [EachStep]
  | cons step xs ih => simp only [List.cons_append, EachStep, List.foldl_cons,
      ih, and_assoc]

variable (nHeight) in
/-- The inputs of a transaction leave the log of its spends. -/
theorem spendInputs_applies {vin : List CTxIn} {txundo : CTxUndo}
    (h : spendInputs store v vin = some (v', txundo)) :
    txundo.length = vin.length ∧
      Applies store nHeight v ((vin.zip txundo).map fun (txin, undo) =>
        LogEntry.spent txin.prevout undo) v' := by
  induction vin generalizing v txundo with
  | nil =>
      obtain ⟨rfl, rfl⟩ := Prod.mk.inj (Option.some.inj h)
      exact ⟨rfl, rfl⟩
  | cons txin vin ih =>
      unfold spendInputs at h
      cases hspend : (store.coins v txin.prevout.hash).spend txin.prevout with
      | none =>
          rw [hspend] at h
          cases h
      | some r =>
          obtain ⟨coins, undo⟩ := r
          rw [hspend] at h
          obtain ⟨⟨v₁, vprevout⟩, hrest, heq⟩ := Option.map_eq_some_iff.mp h
          obtain ⟨rfl, rfl⟩ := Prod.mk.inj heq
          obtain ⟨hlength, happlies⟩ := ih hrest
          refine ⟨by simp [hlength], ⟨coins, hspend⟩, ?_⟩
          have happly : (CoinStep.spend txin.prevout).apply store nHeight v =
              store.write v txin.prevout.hash coins := by
            simp only [CoinStep.apply, hspend]
          show Applies store nHeight
            ((CoinStep.spend txin.prevout).apply store nHeight v) _ _
          rw [happly]
          exact happlies

theorem map_step_txLog {tx : CTransaction} {txundo : CTxUndo}
    (hlength : spendsOutputs tx = true → txundo.length = tx.vin.length) :
    (txLog tx txundo).map LogEntry.step = coinSteps tx := by
  unfold txLog coinSteps
  rw [List.map_append]
  congr 1
  by_cases hspends : spendsOutputs tx = true
  · rw [if_pos hspends, if_pos hspends, List.map_map]
    show (tx.vin.zip txundo).map
      ((fun txin : CTxIn => CoinStep.spend txin.prevout) ∘ Prod.fst) = _
    rw [← List.map_map, List.map_fst_zip (hlength hspends).ge]
  · rw [if_neg hspends, if_neg hspends]
    rfl

/-- What `UpdateCoins` did to a view, as a log. -/
structure TxApplied (store : CoinsStore V) (nHeight : Int32) (v : V)
    (tx : CTransaction) (v' : V) (txundo : CTxUndo) : Prop where
  length : spendsOutputs tx = true → txundo.length = tx.vin.length
  unspending : spendsOutputs tx = false → txundo = []
  applies : Applies store nHeight v (txLog tx txundo) v'

theorem updateCoins_applied {tx : CTransaction} {txundo : CTxUndo}
    (hfresh : EachStep store nHeight (NoOverwrite store) v (coinSteps tx))
    (houts : NoNegativeOutputs tx)
    (h : updateCoins store v tx nHeight = some (v', txundo)) :
    TxApplied store nHeight v tx v' txundo := by
  obtain ⟨⟨v₁, vprevout⟩, hspent, heq⟩ := Option.map_eq_some_iff.mp h
  obtain ⟨rfl, rfl⟩ := Prod.mk.inj heq
  by_cases hspends : spendsOutputs tx = true
  · rw [if_pos hspends] at hspent
    obtain ⟨hlength, happlies⟩ := spendInputs_applies nHeight hspent
    have hlog : txLog tx vprevout = ((tx.vin.zip vprevout).map
        fun (txin, undo) => LogEntry.spent txin.prevout undo) ++
          [LogEntry.created tx] := by
      rw [txLog, if_pos hspends]
    refine ⟨fun _ => hlength, (fun hno => ?_), ?_⟩
    · rw [hspends] at hno
      cases hno
    · rw [hlog]
      apply happlies.append
      refine ⟨⟨?_, houts⟩, rfl⟩
      unfold coinSteps at hfresh
      rw [if_pos hspends, eachStep_append] at hfresh
      have hv₁ := happlies.eq_foldl
      rw [List.map_map] at hv₁
      have hsteps : (tx.vin.zip vprevout).map
          (LogEntry.step ∘ fun (txin, undo) =>
            LogEntry.spent txin.prevout undo) =
          tx.vin.map fun txin => CoinStep.spend txin.prevout := by
        show (tx.vin.zip vprevout).map
          ((fun txin : CTxIn => CoinStep.spend txin.prevout) ∘ Prod.fst) = _
        rw [← List.map_map, List.map_fst_zip hlength.ge]
      rw [hsteps] at hv₁
      rw [hv₁]
      exact hfresh.2.1
  · rw [if_neg hspends] at hspent
    obtain ⟨rfl, rfl⟩ := Prod.mk.inj (Option.some.inj hspent)
    refine ⟨fun hyes => absurd hyes hspends, fun _ => rfl, ?_⟩
    unfold coinSteps at hfresh
    rw [if_neg hspends, List.nil_append] at hfresh
    rw [txLog, if_neg hspends]
    exact ⟨⟨hfresh.1, houts⟩, rfl⟩

/-- Every transaction that spends outputs has undo data for each input, and
every other one has none. -/
def UndoMatches (vtx : List CTransaction) (vtxundo : List CTxUndo) : Prop :=
  List.Forall₂ (fun tx txundo =>
    (spendsOutputs tx = true → txundo.length = tx.vin.length) ∧
      (spendsOutputs tx = false → txundo = [])) vtx vtxundo

/-- What `UpdateCoins` did for a block: its undo data, and the log. -/
structure BlockApplied (store : CoinsStore V) (nHeight : Int32) (v : V)
    (vtx : List CTransaction) (v' : V) (vtxundo : List CTxUndo) : Prop where
  undo : UndoMatches vtx vtxundo
  applies : Applies store nHeight v (blockLog vtx vtxundo) v'
  steps : (blockLog vtx vtxundo).map LogEntry.step = vtx.flatMap coinSteps

theorem updateBlock_applied {vtx : List CTransaction}
    {vtxundo : List CTxUndo}
    (hfresh : EachStep store nHeight (NoOverwrite store) v
      (vtx.flatMap coinSteps))
    (houts : ∀ tx ∈ vtx, NoNegativeOutputs tx)
    (h : updateBlock store nHeight v vtx = some (v', vtxundo)) :
    BlockApplied store nHeight v vtx v' vtxundo := by
  induction vtx generalizing v vtxundo with
  | nil =>
      obtain ⟨rfl, rfl⟩ := Prod.mk.inj (Option.some.inj h)
      exact ⟨List.Forall₂.nil, rfl, rfl⟩
  | cons tx vtx ih =>
      unfold updateBlock at h
      rw [List.flatMap_cons, eachStep_append] at hfresh
      cases hcoins : updateCoins store v tx nHeight with
      | none =>
          rw [hcoins] at h
          cases h
      | some r =>
          obtain ⟨v₁, txundo⟩ := r
          rw [hcoins] at h
          obtain ⟨⟨v₂, rest⟩, hrest, heq⟩ := Option.map_eq_some_iff.mp h
          obtain ⟨rfl, rfl⟩ := Prod.mk.inj heq
          have htx := updateCoins_applied hfresh.1
            (houts tx List.mem_cons_self) hcoins
          have hsteps := map_step_txLog htx.length
          have hv₁ := htx.applies.eq_foldl
          rw [hsteps] at hv₁
          rw [← hv₁] at hfresh
          have hblock := ih hfresh.2
            (fun tx' htx' => houts tx' (List.mem_cons_of_mem _ htx')) hrest
          refine ⟨List.Forall₂.cons ⟨htx.length, htx.unspending⟩ hblock.undo,
            htx.applies.append hblock.applies, ?_⟩
          rw [blockLog, List.map_append, hsteps, hblock.steps,
            List.flatMap_cons]

/-! ## `DisconnectBlock` unwinds the log -/

variable {s : DisconnectState V}

/-- Reading the undo data and reversing the zerocoin entries and the
accumulator checkpoint all succeed. -/
structure DisconnectEnv.Succeeds (env : DisconnectEnv)
    (vtx : List CTransaction) (vtxundo : List CTxUndo) : Prop where
  undo : env.undo = .ok vtxundo
  zerocoins : ∀ tx ∈ vtx, tx.containsZerocoins = true →
    env.eraseZerocoins tx = .ok ()
  checkpoint : env.eraseCheckpoint = .ok ()

theorem disconnectTx_eq {env : DisconnectEnv} {tx : CTransaction}
    {txundo : CTxUndo}
    (hzero : tx.containsZerocoins = true → env.eraseZerocoins tx = .ok ())
    (hlength : spendsOutputs tx = true → txundo.length = tx.vin.length) :
    disconnectTx store env nHeight s tx txundo =
      .ok (unwind store nHeight s (txLog tx txundo)) := by
  have hunwind : unwind store nHeight s (txLog tx txundo) =
      if spendsOutputs tx then
        (tx.vin.zip txundo).foldr
          (fun (txin, undo) s => restoreInput store s txin.prevout undo)
          (removeOutputs store nHeight s tx)
      else removeOutputs store nHeight s tx := by
    unfold unwind txLog
    split
    · rw [List.foldr_append, List.foldr_map]
      rfl
    · rfl
  unfold disconnectTx
  rw [hunwind]
  by_cases hcontains : tx.containsZerocoins = true
  · rw [if_pos hcontains, hzero hcontains]
    by_cases hspends : spendsOutputs tx = true
    · simp only [hspends, if_true, hlength hspends, ne_eq, not_true_eq_false,
        if_false]
      rfl
    · simp only [if_neg hspends]
      rfl
  · rw [if_neg hcontains]
    by_cases hspends : spendsOutputs tx = true
    · simp only [hspends, if_true, hlength hspends, ne_eq, not_true_eq_false,
        if_false]
      rfl
    · simp only [if_neg hspends]
      rfl

theorem unwind_append (log log' : List LogEntry) :
    unwind store nHeight s (log ++ log') =
      unwind store nHeight (unwind store nHeight s log') log :=
  List.foldr_append

theorem disconnectTxs_eq {env : DisconnectEnv} {vtx : List CTransaction}
    {vtxundo : List CTxUndo}
    (hzero : ∀ tx ∈ vtx, tx.containsZerocoins = true →
      env.eraseZerocoins tx = .ok ())
    (hundo : UndoMatches vtx vtxundo) :
    disconnectTxs store env nHeight s vtx vtxundo =
      .ok (unwind store nHeight s (blockLog vtx vtxundo)) := by
  induction hundo with
  | nil => rfl
  | @cons tx txundo vtx vtxundo htx _ ih =>
      have hrest := ih fun tx' htx' => hzero tx' (List.mem_cons_of_mem _ htx')
      unfold disconnectTxs
      rw [hrest]
      show disconnectTx store env nHeight _ tx txundo = _
      rw [disconnectTx_eq (hzero tx List.mem_cons_self) htx.1, blockLog,
        unwind_append]

/-- The first transaction of a block, a coinbase, spends nothing. -/
theorem undo_eq_cons {tx : CTransaction} {vtx : List CTransaction}
    {vtxundo : List CTxUndo} (hcoinbase : tx.isCoinBase = true)
    (hundo : UndoMatches (tx :: vtx) vtxundo) :
    vtxundo = [] :: vtxundo.tail := by
  obtain ⟨txundo, rest, htx, -, rfl⟩ := List.forall₂_cons_left_iff.mp hundo
  rw [htx.2 (by simp [spendsOutputs, hcoinbase])]
  rfl

/-- **`DisconnectBlock` unwinds the log** of the block, given the undo data
`ConnectBlock` writes: that of every transaction but the first. -/
theorem disconnectBlock_eq {env : DisconnectEnv} {pindex : BlockIndex}
    {tx : CTransaction} {vtx : List CTransaction} {vtxundo : List CTxUndo}
    (hcoinbase : tx.isCoinBase = true)
    (hbest : store.getBestBlock v' = pindex.hash)
    (hundo : UndoMatches (tx :: vtx) vtxundo)
    (henv : env.Succeeds (tx :: vtx) vtxundo.tail) :
    disconnectBlock store env pindex (tx :: vtx) v' =
      some (.ok
        (let s := unwind store pindex.nHeight ⟨v', true⟩
          (blockLog (tx :: vtx) vtxundo)
        { s with view := store.setBestBlock s.view pindex.hashPrev })) := by
  have hcons := undo_eq_cons hcoinbase hundo
  have hlength : vtxundo.tail.length + 1 = (tx :: vtx).length := by
    have h := List.Forall₂.length_eq hundo
    rw [hcons] at h
    exact h.symm
  have htxs : disconnectTxs store env pindex.nHeight ⟨v', true⟩ (tx :: vtx)
      vtxundo = .ok (unwind store pindex.nHeight ⟨v', true⟩
        (blockLog (tx :: vtx) vtxundo)) :=
    disconnectTxs_eq henv.zerocoins hundo
  rw [hcons] at htxs
  have hassert : ¬ pindex.hash ≠ store.getBestBlock v' := by
    rw [hbest]
    exact fun h => h rfl
  have hconsistent : ¬ vtxundo.tail.length + 1 ≠ (tx :: vtx).length :=
    fun h => h hlength
  rw [disconnectBlock, if_neg hassert, henv.undo]
  congr 1
  show (if vtxundo.tail.length + 1 ≠ (tx :: vtx).length then _ else _) = _
  rw [if_neg hconsistent, htxs, henv.checkpoint, ← hcons]
  rfl

/-- A block taken back, over any lawful view. -/
theorem restored_disconnectBlock_iff (hstore : store.Lawful)
    {env : DisconnectEnv} {pindex : BlockIndex} {tx : CTransaction}
    {vtx : List CTransaction} {w : V} {vtxundo : List CTxUndo}
    (hwf : WellFormedView store v)
    (houts : ∀ tx' ∈ tx :: vtx, NoNegativeOutputs tx')
    (hcoinbase : tx.isCoinBase = true)
    (hupdate : updateBlock store pindex.nHeight v (tx :: vtx) =
      some (v', vtxundo))
    (hfresh : EachStep store pindex.nHeight (NoOverwrite store) v
      ((tx :: vtx).flatMap coinSteps))
    (hw : SameCoins store w v') (hbest : store.getBestBlock w = pindex.hash)
    (henv : env.Succeeds (tx :: vtx) vtxundo.tail) :
    (∃ s, disconnectBlock store env pindex (tx :: vtx) w = some (.ok s) ∧
      Restored store s v) ↔
    EachStep store pindex.nHeight (KeepsRecord store) v
      ((tx :: vtx).flatMap coinSteps) := by
  have hblock := updateBlock_applied hfresh houts hupdate
  have hunwind := unwind_restores_iff (s := ⟨w, true⟩) hstore hwf
    hblock.applies ⟨rfl, hw⟩
  rw [disconnectBlock_eq hcoinbase hbest hblock.undo henv, ← hblock.steps,
    ← hunwind]
  constructor
  · rintro ⟨s, hs, hclean, hsame⟩
    obtain rfl := Except.ok.inj (Option.some.inj hs)
    exact ⟨hclean, fun txid =>
      (hstore.coins_setBestBlock _ _ txid).symm.trans (hsame txid)⟩
  · rintro ⟨hclean, hsame⟩
    exact ⟨_, rfl, hclean, fun txid =>
      (hstore.coins_setBestBlock _ _ txid).trans (hsame txid)⟩

end Log

/-! ## Caches -/

/-- A stack of caches over a base view, with no modifier alive. -/
structure CacheView {S : Type} (view : CCoinsView S) where
  views : Views S
  inStep : ∃ flat, Refines view views flat ∧ flat.modifier = none ∧
    2 ≤ flat.maps.length

section Cache

variable {S : Type} {view : CCoinsView S}

/-- A `CCoinsModifier` that leaves a record, from `ModifyCoins` to the end of
its life. -/
def writeCoins (view : CCoinsView S) (vs : Views S) (txid : Uint256)
    (coins : CCoins) : Option (Views S) :=
  ((vs.step view (.modify txid)).bind fun vs =>
    vs.step view (.write coins)).bind fun vs => vs.step view .release

theorem writeCoins_spec (cache : CacheView view) (txid : Uint256)
    (coins : CCoins) :
    ∃ vs, writeCoins view cache.views txid coins = some vs ∧
      (∃ flat, Refines view vs flat ∧ flat.modifier = none ∧
        2 ≤ flat.maps.length) ∧
      ∀ k, CCoins.Same (coinsAt view vs.base vs.stack k)
        (if k = txid then coins.cleanup
        else coinsAt view cache.views.base cache.views.stack k) := by
  obtain ⟨⟨stack, base⟩, flat, href, hmod, htwo⟩ := cache
  obtain ⟨c, below, rfl⟩ := exists_top href.agree htwo
  have hfree : c.modifier = none := href.live.1.trans hmod
  obtain ⟨stack', hmodify, href', hcoins⟩ := modifyCoins_spec txid href hfree
  obtain ⟨c', below', rfl⟩ := exists_top href'.agree htwo
  have hwrite := write_spec href' rfl coins
  obtain ⟨top, rest, hmaps, htop, -⟩ := href.agree
  have hflat : ({ flat with modifier := some txid } : FlatViews).step
      (.write coins) =
        { maps := Function.update top txid coins :: rest
          modifier := some txid } := by
    simp only [FlatViews.step, hmaps]
  rw [hflat] at hwrite
  have hrelease := release_spec hwrite rfl
  refine ⟨⟨(c'.write coins).release :: below', base⟩, ?_,
    ⟨_, hrelease, rfl, ?_⟩, ?_⟩
  · simp only [writeCoins, Views.step, hmodify, Option.map_some,
      Option.bind_some]
  · rw [hmaps] at htwo
    exact htwo
  · intro k
    obtain ⟨top', rest', hmaps', htop', -⟩ := hrelease.agree
    obtain ⟨rfl, rfl⟩ := List.cons.inj hmaps'
    have hk := htop' k
    by_cases hkey : k = txid
    · rw [if_pos hkey]
      rwa [hkey, Function.update_self, Function.update_self, ← hkey] at hk
    · rw [if_neg hkey]
      rw [Function.update_of_ne hkey, Function.update_of_ne hkey] at hk
      exact hk.trans (htop k).symm

theorem setBestBlock_spec (cache : CacheView view) (hashBlock : Uint256) :
    ∃ vs, cache.views.step view (.setBestBlock hashBlock) = some vs ∧
      (∃ flat, Refines view vs flat ∧ flat.modifier = none ∧
        2 ≤ flat.maps.length) ∧
      (∀ k, coinsAt view vs.base vs.stack k =
        coinsAt view cache.views.base cache.views.stack k) ∧
      (hashBlock ≠ 0 → (getBestBlock view vs.base vs.stack).1 = hashBlock) := by
  obtain ⟨⟨stack, base⟩, flat, href, hmod, htwo⟩ := cache
  obtain ⟨c, below, rfl⟩ := exists_top href.agree htwo
  obtain ⟨top, rest, hmaps, htop, -⟩ := href.agree
  have hlevel := href.inv.1
  refine ⟨⟨{ c with hashBlock } :: below, base⟩, rfl, ⟨flat, ?_, hmod, htwo⟩,
    fun _ => rfl, fun hne => ?_⟩
  · apply href.top hmaps hmaps
    · exact ⟨hlevel.fresh, hlevel.clean, hlevel.pulled⟩
    · exact htop
    · exact href.live
  · simp only [getBestBlock, if_neg hne]

def CacheView.write (cache : CacheView view) (txid : Uint256)
    (coins : CCoins) : CacheView view where
  views := (writeCoins view cache.views txid coins).getD cache.views
  inStep := by
    obtain ⟨vs, hvs, hstep, -⟩ := writeCoins_spec cache txid coins
    rw [hvs]
    exact hstep

def CacheView.setBestBlock (cache : CacheView view) (hashBlock : Uint256) :
    CacheView view where
  views := (cache.views.step view (.setBestBlock hashBlock)).getD cache.views
  inStep := by
    obtain ⟨vs, hvs, hstep, -⟩ := setBestBlock_spec cache hashBlock
    rw [hvs]
    exact hstep

theorem CacheView.stackInv (cache : CacheView view) :
    StackInv view cache.views.base cache.views.stack := by
  obtain ⟨flat, href, -⟩ := cache.inStep
  exact href.inv

variable (view) in
/-- A modifier shows what a read returns (`modifyEntry_spec`). -/
def cacheStore : CoinsStore (CacheView view) where
  coins cache txid := readCoins view cache.views.base cache.views.stack txid
  write := CacheView.write
  getBestBlock cache :=
    (getBestBlock view cache.views.base cache.views.stack).1
  setBestBlock := CacheView.setBestBlock

theorem cacheStore_coins (cache : CacheView view) (txid : Uint256) :
    (cacheStore view).coins cache txid =
      coinsAt view cache.views.base cache.views.stack txid :=
  readCoins_eq cache.stackInv txid

theorem cacheStore_lawful : (cacheStore view).Lawful where
  coins_write := by
    intro cache txid coins k
    rw [cacheStore_coins, cacheStore_coins]
    obtain ⟨vs, hvs, -, hcoins⟩ := writeCoins_spec cache txid coins
    show CCoins.Same (coinsAt view (CacheView.write cache txid coins).views.base
      (CacheView.write cache txid coins).views.stack k) _
    rw [CacheView.write]
    simp only [hvs, Option.getD_some]
    exact hcoins k
  coins_setBestBlock := by
    intro cache hashBlock k
    rw [cacheStore_coins, cacheStore_coins]
    obtain ⟨vs, hvs, -, hcoins, -⟩ := setBestBlock_spec cache hashBlock
    show CCoins.Same
      (coinsAt view (CacheView.setBestBlock cache hashBlock).views.base
        (CacheView.setBestBlock cache hashBlock).views.stack k) _
    rw [CacheView.setBestBlock]
    simp only [hvs, Option.getD_some]
    rw [hcoins k]

theorem cacheStore_getBestBlock (cache : CacheView view)
    {hashBlock : Uint256} (hne : hashBlock ≠ 0) :
    (cacheStore view).getBestBlock
      ((cacheStore view).setBestBlock cache hashBlock) = hashBlock := by
  obtain ⟨vs, hvs, -, -, hbest⟩ := setBestBlock_spec cache hashBlock
  show (getBestBlock view (CacheView.setBestBlock cache hashBlock).views.base
    (CacheView.setBestBlock cache hashBlock).views.stack).1 = hashBlock
  rw [CacheView.setBestBlock]
  simp only [hvs, Option.getD_some]
  exact hbest hne

/-- **A block is disconnected cleanly, to the view before it, exactly when no
input loses the record it spends from**: over every stack of caches and every
block that `UpdateCoins` accepts without overwriting a record. -/
theorem disconnectBlock_restores_iff {env : DisconnectEnv}
    {pindex : BlockIndex} {tx : CTransaction} {vtx : List CTransaction}
    {v v' : CacheView view} {vtxundo : List CTxUndo}
    (hwf : WellFormedView (cacheStore view) v)
    (houts : ∀ tx' ∈ tx :: vtx, NoNegativeOutputs tx')
    (hcoinbase : tx.isCoinBase = true) (hhash : pindex.hash ≠ 0)
    (hupdate : updateBlock (cacheStore view) pindex.nHeight v (tx :: vtx) =
      some (v', vtxundo))
    (hfresh : EachStep (cacheStore view) pindex.nHeight
      (NoOverwrite (cacheStore view)) v ((tx :: vtx).flatMap coinSteps))
    (henv : env.Succeeds (tx :: vtx) vtxundo.tail) :
    (∃ s, disconnectBlock (cacheStore view) env pindex (tx :: vtx)
        ((cacheStore view).setBestBlock v' pindex.hash) = some (.ok s) ∧
      s.fClean = true ∧
      ∀ txid, CCoins.Same ((cacheStore view).coins s.view txid)
        ((cacheStore view).coins v txid)) ↔
    EachStep (cacheStore view) pindex.nHeight (KeepsRecord (cacheStore view))
      v ((tx :: vtx).flatMap coinSteps) :=
  restored_disconnectBlock_iff cacheStore_lawful hwf houts hcoinbase hupdate
    hfresh (cacheStore_lawful.coins_setBestBlock v' pindex.hash)
    (cacheStore_getBestBlock v' hhash) henv

end Cache

/-- A cache over a database with one record, which has one output. -/
def oneRecord (fCoinStake : Bool) : CacheView CCoinsViewDB where
  views :=
    { stack := [{}]
      base :=
        { coins := KeyedMap.empty.insert 7
            { fCoinStake
              vout := [{ nValue := 5, scriptPubKey := [] }]
              nHeight := 3
              nVersion := 1 }
          hashBestChain := none } }
  inStep := ⟨_, (Reachable.init.step .push rfl rfl).refines CCoinsViewDB_lawful,
    rfl, Nat.le_refl 2⟩

theorem wellFormed_oneRecord (fCoinStake : Bool) :
    WellFormedView (cacheStore CCoinsViewDB) (oneRecord fCoinStake) := by
  intro txid
  rw [cacheStore_coins]
  show (((KeyedMap.empty.insert 7 _).find? txid).getD CCoins.empty).WellFormed
  rw [KeyedMap.find?_insert]
  split
  · right
    refine ⟨by cases fCoinStake <;> decide, fun out hout hnull => ?_⟩
    rw [Option.getD_some, List.mem_singleton] at hout
    rw [hout] at hnull
    cases hnull
  · exact Or.inl rfl

def coinbaseTx : CTransaction :=
  { hash := 100
    vin := [{ prevout := COutPoint.null }]
    vout := [{ nValue := 1, scriptPubKey := [] }] }

/-- It spends the output of the record. -/
def spendingTx : CTransaction :=
  { hash := 101
    vin := [{ prevout := ⟨7, 0⟩ }]
    vout := [{ nValue := 5, scriptPubKey := [] }] }

def blockFour : BlockIndex := { hash := 50, hashPrev := 49, nHeight := 4 }

def plainEnv (vtxundo : List CTxUndo) : DisconnectEnv :=
  { undo := .ok vtxundo
    eraseZerocoins := fun _ => .ok ()
    eraseCheckpoint := .ok () }

/-- The record of an ordinary transaction comes back. -/
theorem disconnectBlock_restores_iff_ordinary :
    ∃ v' vtxundo,
      updateBlock (cacheStore CCoinsViewDB) blockFour.nHeight (oneRecord false)
        [coinbaseTx, spendingTx] = some (v', vtxundo) ∧
      ∃ s, disconnectBlock (cacheStore CCoinsViewDB) (plainEnv vtxundo.tail)
          blockFour [coinbaseTx, spendingTx]
          ((cacheStore CCoinsViewDB).setBestBlock v' blockFour.hash) =
            some (.ok s) ∧
        s.fClean = true ∧
        ∀ txid, CCoins.Same ((cacheStore CCoinsViewDB).coins s.view txid)
          ((cacheStore CCoinsViewDB).coins (oneRecord false) txid) := by
  obtain ⟨v', vtxundo, hupdate⟩ : ∃ v' vtxundo,
      updateBlock (cacheStore CCoinsViewDB) blockFour.nHeight (oneRecord false)
        [coinbaseTx, spendingTx] = some (v', vtxundo) := ⟨_, _, rfl⟩
  refine ⟨v', vtxundo, hupdate, ?_⟩
  apply (disconnectBlock_restores_iff (wellFormed_oneRecord false) _ rfl
    (by decide) hupdate (by decide) ⟨rfl, fun _ _ _ => rfl, rfl⟩).mpr
  · decide
  · intro tx htx out hout
    simp only [List.mem_cons, List.not_mem_nil, or_false] at htx
    rcases htx with rfl | rfl
    · rw [List.mem_singleton.mp hout]
      decide
    · rw [List.mem_singleton.mp hout]
      decide

/-- The record of a coinstake comes back as that of an ordinary transaction,
and the disconnect counts as clean. -/
theorem disconnectBlock_loses_coinstake :
    ∃ v' vtxundo,
      updateBlock (cacheStore CCoinsViewDB) blockFour.nHeight (oneRecord true)
        [coinbaseTx, spendingTx] = some (v', vtxundo) ∧
      EachStep (cacheStore CCoinsViewDB) blockFour.nHeight
        (NoOverwrite (cacheStore CCoinsViewDB)) (oneRecord true)
        ([coinbaseTx, spendingTx].flatMap coinSteps) ∧
      ∃ s, disconnectBlock (cacheStore CCoinsViewDB) (plainEnv vtxundo.tail)
          blockFour [coinbaseTx, spendingTx]
          ((cacheStore CCoinsViewDB).setBestBlock v' blockFour.hash) =
            some (.ok s) ∧
        s.fClean = true ∧
        ¬ CCoins.Same ((cacheStore CCoinsViewDB).coins s.view 7)
          ((cacheStore CCoinsViewDB).coins (oneRecord true) 7) :=
  ⟨_, _, rfl, by decide, _, rfl, by decide, by decide⟩

end Agrarian.Coins
