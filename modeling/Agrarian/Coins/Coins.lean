import Agrarian.Primitives

/-!
# The coins of a transaction

`CCoins` holds the unspent outputs of one transaction, with the spent ones
nulled and dropped from the end (`coins.h`), and `CTxInUndo` what spending an
input leaves for a later disconnect (`undo.h`).

Two records that are completely spent count as equal whatever else they
hold: `CCoins.Same` is that equality, the one of the source's `operator==`.
-/

namespace Agrarian.Coins

structure CCoins where
  fCoinBase : Bool := false
  fCoinStake : Bool := false
  vout : List CTxOut := []
  nHeight : Int32 := 0
  nVersion : Int32 := 0
  deriving DecidableEq, Repr

/-- The height and the flags are set when the last output was spent. -/
structure CTxInUndo where
  txout : CTxOut
  fCoinBase : Bool := false
  fCoinStake : Bool := false
  nHeight : UInt32 := 0
  nVersion : Int32 := 0
  deriving DecidableEq, Repr

namespace CCoins

/-! ## Operations -/

/-- Remove spent outputs at the end of `vout`. -/
def cleanup (coins : CCoins) : CCoins :=
  { coins with vout := coins.vout.rdropWhile CTxOut.isNull }

def clearUnspendable (coins : CCoins) : CCoins :=
  cleanup { coins with
    vout := coins.vout.map fun txout =>
      if txout.scriptPubKey.isUnspendable then CTxOut.null else txout }

def fromTx (tx : CTransaction) (nHeightIn : Int32) : CCoins :=
  clearUnspendable
    { fCoinBase := tx.isCoinBase
      fCoinStake := tx.isCoinStake
      vout := tx.vout
      nHeight := nHeightIn
      nVersion := tx.nVersion }

/-- `Clear`, and the empty constructor. -/
def empty : CCoins := {}

def isPruned (coins : CCoins) : Bool := coins.vout.all CTxOut.isNull

/-- Zerocoin mints are not spent through their outpoints. -/
def isAvailable (coins : CCoins) (nPos : Nat) : Bool :=
  match coins.vout[nPos]? with
  | none => false
  | some out => !out.isNull && !out.isZerocoinMint

/-- Mark an outpoint spent, and construct undo information. -/
def spend (coins : CCoins) (out : COutPoint) : Option (CCoins × CTxInUndo) :=
  match coins.vout[out.n]? with
  | none => none
  | some txout =>
      if txout.isNull then none
      else
        let spent :=
          cleanup { coins with vout := coins.vout.set out.n CTxOut.null }
        if spent.vout.isEmpty then
          some (spent,
            { txout
              nHeight := coins.nHeight.toUInt32
              fCoinBase := coins.fCoinBase
              fCoinStake := coins.fCoinStake
              nVersion := coins.nVersion })
        else some (spent, { txout })

/-- `operator==`: records without unspent outputs are always equal. -/
def Same (a b : CCoins) : Prop :=
  (a.isPruned = true ∧ b.isPruned = true) ∨ a = b

instance (a b : CCoins) : Decidable (Same a b) :=
  inferInstanceAs (Decidable (_ ∨ _))

/-! ## `operator==` -/

@[refl] theorem Same.refl (a : CCoins) : Same a a := Or.inr rfl

theorem Same.symm {a b : CCoins} (h : Same a b) : Same b a := by
  rcases h with ⟨ha, hb⟩ | h
  · exact Or.inl ⟨hb, ha⟩
  · exact Or.inr h.symm

theorem Same.trans {a b c : CCoins} (hab : Same a b) (hbc : Same b c) :
    Same a c := by
  rcases hab with ⟨ha, hb⟩ | rfl
  · rcases hbc with ⟨_, hc⟩ | rfl
    · exact Or.inl ⟨ha, hc⟩
    · exact Or.inl ⟨ha, hb⟩
  · exact hbc

theorem Same.isPruned_eq {a b : CCoins} (h : Same a b) :
    a.isPruned = b.isPruned := by
  rcases h with ⟨ha, hb⟩ | rfl
  · rw [ha, hb]
  · rfl

theorem Same.eq_of_not_pruned {a b : CCoins} (h : Same a b)
    (ha : a.isPruned = false) : a = b := by
  rcases h with ⟨hp, _⟩ | h
  · rw [ha] at hp
    cases hp
  · exact h

theorem same_of_pruned {a b : CCoins} (ha : a.isPruned = true)
    (hb : b.isPruned = true) : Same a b := Or.inl ⟨ha, hb⟩

@[simp] theorem isPruned_empty : empty.isPruned = true := rfl

/-! ## `Cleanup` -/

theorem rdropWhile_append_replicate (vout : List CTxOut) (k : Nat) :
    (vout ++ List.replicate k CTxOut.null).rdropWhile CTxOut.isNull =
      vout.rdropWhile CTxOut.isNull := by
  induction k with
  | zero => simp
  | succ k ih =>
      rw [List.replicate_succ', ← List.append_assoc,
        List.rdropWhile_concat_pos _ _ _ CTxOut.isNull_null, ih]

theorem isPruned_cleanup (coins : CCoins) :
    coins.cleanup.isPruned = coins.isPruned := by
  have hdrop : ∀ vout : List CTxOut,
      (vout.rdropWhile CTxOut.isNull).all CTxOut.isNull =
        vout.all CTxOut.isNull := by
    intro vout
    induction vout using List.reverseRecOn with
    | nil => rfl
    | append_singleton vout out ih =>
        by_cases hnull : out.isNull = true
        · rw [List.rdropWhile_concat_pos _ _ _ hnull, ih, List.all_append]
          simp [hnull]
        · rw [List.rdropWhile_concat_neg _ _ _ hnull]
  exact hdrop coins.vout

theorem Same.cleanup {a b : CCoins} (h : Same a b) :
    Same a.cleanup b.cleanup := by
  rcases h with ⟨ha, hb⟩ | rfl
  · left
    rw [isPruned_cleanup, isPruned_cleanup]
    exact ⟨ha, hb⟩
  · exact Same.refl _

/-- No trailing nulls: what `Cleanup` leaves, and every operation keeps. -/
def Clean (coins : CCoins) : Prop := coins.cleanup = coins

instance (coins : CCoins) : Decidable coins.Clean :=
  inferInstanceAs (Decidable (_ = _))

theorem clean_cleanup (coins : CCoins) : coins.cleanup.Clean := by
  rw [Clean, cleanup, cleanup, List.rdropWhile_idempotent]

theorem clean_fromTx (tx : CTransaction) (nHeight : Int32) :
    (fromTx tx nHeight).Clean := clean_cleanup _

/-- Outputs that agree at every position, nulls counting as missing ones, are
cleaned up alike. -/
theorem rdropWhile_congr {xs ys : List CTxOut}
    (h : ∀ i, xs.getD i CTxOut.null = ys.getD i CTxOut.null) :
    xs.rdropWhile CTxOut.isNull = ys.rdropWhile CTxOut.isNull := by
  have hpad : xs ++ List.replicate ys.length CTxOut.null =
      ys ++ List.replicate xs.length CTxOut.null := by
    refine List.ext_getElem (by simp [Nat.add_comm]) (fun i hi hi' => ?_)
    have hleft : (xs ++ List.replicate ys.length CTxOut.null).getD i
        CTxOut.null = xs.getD i CTxOut.null := by
      rcases Nat.lt_or_ge i xs.length with hlt | hge
      · rw [List.getD_append _ _ _ _ hlt]
      · rw [List.getD_append_right _ _ _ _ hge, List.getD_eq_default _ _ hge]
        rw [List.getD_eq_getElem?_getD, List.getElem?_replicate]
        split <;> rfl
    have hright : (ys ++ List.replicate xs.length CTxOut.null).getD i
        CTxOut.null = ys.getD i CTxOut.null := by
      rcases Nat.lt_or_ge i ys.length with hlt | hge
      · rw [List.getD_append _ _ _ _ hlt]
      · rw [List.getD_append_right _ _ _ _ hge, List.getD_eq_default _ _ hge]
        rw [List.getD_eq_getElem?_getD, List.getElem?_replicate]
        split <;> rfl
    rw [← List.getD_eq_getElem _ CTxOut.null hi,
      ← List.getD_eq_getElem _ CTxOut.null hi', hleft, hright, h]
  rw [← rdropWhile_append_replicate xs ys.length, hpad,
    rdropWhile_append_replicate]

/-- Spent outputs are what `SetNull` leaves. -/
def NullsCanonical (vout : List CTxOut) : Prop :=
  ∀ out ∈ vout, out.isNull = true → out = CTxOut.null

/-- Dropping spent outputs at the end changes no position. -/
theorem getD_rdropWhile {vout : List CTxOut} (h : NullsCanonical vout)
    (i : Nat) :
    (vout.rdropWhile CTxOut.isNull).getD i CTxOut.null =
      vout.getD i CTxOut.null := by
  induction vout using List.reverseRecOn with
  | nil => rfl
  | append_singleton vout out ih =>
      by_cases hnull : out.isNull = true
      · have hout : out = CTxOut.null := h out (by simp) hnull
        rw [List.rdropWhile_concat_pos _ _ _ hnull,
          ih (fun o ho => h o (List.mem_append_left _ ho)), hout]
        rcases Nat.lt_or_ge i vout.length with hlt | hge
        · rw [List.getD_append _ _ _ _ hlt]
        · rw [List.getD_append_right _ _ _ _ hge, List.getD_eq_default _ _ hge]
          cases i - vout.length <;> rfl
      · rw [List.rdropWhile_concat_neg _ _ _ hnull]

/-- A clean record is pruned exactly when it has no outputs left. -/
theorem Clean.isPruned_iff {coins : CCoins} (h : coins.Clean) :
    coins.isPruned = true ↔ coins.vout = [] := by
  constructor
  · intro hp
    have hvout : coins.vout.rdropWhile CTxOut.isNull = coins.vout :=
      congrArg vout h
    rw [← hvout, List.rdropWhile_eq_nil_iff]
    simpa [isPruned] using hp
  · intro hnil
    simp [isPruned, hnil]

end CCoins

end Agrarian.Coins
