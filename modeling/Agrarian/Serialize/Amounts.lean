import Agrarian.Serialize.Compressor
import Agrarian.Validation.Subsidy

/-!
# Amounts that survive compression

The code of an amount that is not a multiple of ten is almost nine times the
amount, and `CompressAmount` computes it in 64 bits.  Amounts with a zero at
the end always fit; the others fit up to `maxOddAmount`, which is less than
the largest amount of money of the main network.
-/

namespace Agrarian.Serialize

open Agrarian.Validation

/-! ## The values computed -/

/-- What `CompressAmount` computes behind its loop, step by step, over
unbounded numbers. -/
def compressValues (n : Nat) : List Nat :=
  if n = 0 then [0]
  else
    let (n, e) := stripZeros 9 n 0
    if e < 9 then
      let d := n % 10
      let n := n / 10
      [n * 9, n * 9 + d, n * 9 + d - 1, (n * 9 + d - 1) * 10,
        1 + (n * 9 + d - 1) * 10, 1 + (n * 9 + d - 1) * 10 + e]
    else [n - 1, (n - 1) * 10, 1 + (n - 1) * 10, 1 + (n - 1) * 10 + 9]

/-- What `DecompressAmount` computes: the number without its zeros, and with
one more zero every round. -/
def decompressValues (x : Nat) : List Nat :=
  if x = 0 then [0]
  else
    let x := x - 1
    let e := x % 10
    let x := x / 10
    let n :=
      if e < 9 then
        let d := x % 9 + 1
        let x := x / 9
        x * 10 + d
      else x + 1
    (List.range (e + 1)).map fun i => n * 10 ^ i

/-- No step overflows, and the two functions undo each other. -/
def AmountRoundTrip (n : Nat) : Prop :=
  (∀ v ∈ compressValues n, v < 2 ^ 64) ∧
    (∀ v ∈ decompressValues (compressAmount n), v < 2 ^ 64) ∧
    decompressAmount (compressAmount n) = n ∧
    compressAmount (decompressAmount (compressAmount n)) = compressAmount n

/-- The largest amount without a zero at the end whose code fits. -/
def maxOddAmount : Nat := 2049638230412172402

/-! ## Overflow -/

/-- The last value is the code, and no other is larger. -/
theorem compressValues_lt_iff (n : Nat) :
    (∀ v ∈ compressValues n, v < 2 ^ 64) ↔ amountCode n < 2 ^ 64 := by
  by_cases hzero : n = 0
  · subst hzero
    decide
  unfold compressValues amountCode
  rw [if_neg hzero, if_neg hzero]
  generalize stripZeros 9 n 0 = stripped
  obtain ⟨m, e⟩ := stripped
  dsimp only
  split
  · simp only [List.forall_mem_cons, List.not_mem_nil, false_imp_iff,
      implies_true, and_true]
    omega
  · simp only [List.forall_mem_cons, List.not_mem_nil, false_imp_iff,
      implies_true, and_true]
    omega

/-- On a code, the rounds of `DecompressAmount` stay below the amount. -/
theorem decompressValues_amountCode (n : Nat) :
    ∀ v ∈ decompressValues (amountCode n), v ≤ n := by
  by_cases hzero : n = 0
  · subst hzero
    decide
  obtain ⟨hval, hne, he, hdigit⟩ := stripZeros_spec 9 n 0 hzero rfl
  unfold amountCode
  rw [if_neg hzero]
  generalize stripZeros 9 n 0 = stripped at hval hne he hdigit
  obtain ⟨m, e⟩ := stripped
  simp only [Nat.pow_zero, Nat.mul_one] at hval hne he hdigit ⊢
  have hrounds : ∀ v ∈ (List.range (e + 1)).map fun i => m * 10 ^ i,
      v ≤ n := by
    intro v hv
    obtain ⟨i, hi, rfl⟩ := List.mem_map.mp hv
    have hile : i ≤ e := Nat.lt_succ_iff.mp (List.mem_range.mp hi)
    rw [← hval]
    exact Nat.mul_le_mul_left m (Nat.pow_le_pow_right (by decide) hile)
  by_cases hlt : e < 9
  · have hd := hdigit hlt
    have hcode : (1 + (m / 10 * 9 + m % 10 - 1) * 10 + e - 1) % 10 = e ∧
        (1 + (m / 10 * 9 + m % 10 - 1) * 10 + e - 1) / 10 =
          m / 10 * 9 + m % 10 - 1 := by omega
    have hback : (m / 10 * 9 + m % 10 - 1) / 9 * 10 +
        ((m / 10 * 9 + m % 10 - 1) % 9 + 1) = m := by omega
    rw [if_pos hlt, decompressValues, if_neg (by omega)]
    simp only [hcode, hlt, if_true, hback]
    exact hrounds
  · have hnine : e = 9 := by omega
    subst hnine
    have hcode : (1 + (m - 1) * 10 + 9 - 1) % 10 = 9 ∧
        (1 + (m - 1) * 10 + 9 - 1) / 10 = m - 1 := by omega
    have hback : m - 1 + 1 = m := by omega
    rw [if_neg hlt, decompressValues, if_neg (by omega)]
    simp only [hcode, hback, Nat.lt_irrefl, if_false]
    exact hrounds

/-! ## The amounts whose code fits -/

theorem stripZeros_of_mod {n : Nat} (hn : n % 10 ≠ 0) :
    stripZeros 9 n 0 = (n, 0) := by
  rw [stripZeros, if_neg (fun h => hn h.1)]

/-- The exponent only grows. -/
theorem le_stripZeros (fuel : Nat) :
    ∀ n e, e ≤ (stripZeros fuel n e).2 := by
  induction fuel with
  | zero => exact fun n e => Nat.le_refl e
  | succ fuel ih =>
      intro n e
      rw [stripZeros]
      split
      · exact Nat.le_trans (Nat.le_succ e) (ih (n / 10) (e + 1))
      · exact Nat.le_refl e

/-- A zero at the end makes room: the number left is a tenth at most. -/
theorem amountCode_lt_of_mod {n : Nat} (hn : n < 2 ^ 64)
    (hmod : n % 10 = 0) : amountCode n < 2 ^ 64 := by
  by_cases hzero : n = 0
  · subst hzero
    decide
  obtain ⟨hval, hne, he, -⟩ := stripZeros_spec 9 n 0 hzero rfl
  have hone : 1 ≤ (stripZeros 9 n 0).2 := by
    rw [stripZeros, if_pos ⟨hmod, by decide⟩]
    exact le_stripZeros 8 (n / 10) 1
  unfold amountCode
  rw [if_neg hzero]
  generalize stripZeros 9 n 0 = stripped at hval hne he hone
  obtain ⟨m, e⟩ := stripped
  simp only [Nat.pow_zero, Nat.mul_one] at hval hne he hone ⊢
  have hten : m * 10 ≤ n := by
    rw [← hval]
    refine Nat.mul_le_mul_left m ?_
    calc 10 = 10 ^ 1 := rfl
      _ ≤ 10 ^ e := Nat.pow_le_pow_right (by decide) hone
  split
  · omega
  · omega

/-- **The amounts whose code fits in 64 bits.** -/
theorem amountCode_lt_iff {n : Nat} (hn : n < 2 ^ 64) :
    amountCode n < 2 ^ 64 ↔ n % 10 = 0 ∨ n ≤ maxOddAmount := by
  by_cases hmod : n % 10 = 0
  · exact iff_of_true (amountCode_lt_of_mod hn hmod) (Or.inl hmod)
  · have hcode : amountCode n = 1 + (n / 10 * 9 + n % 10 - 1) * 10 + 0 := by
      rw [amountCode, if_neg (by omega), stripZeros_of_mod hmod]
      rfl
    rw [hcode, maxOddAmount]
    omega

/-- **When compression is exact.**  For an amount of 64 bits neither function
overflows and each undoes the other exactly when the amount ends in a zero or
is at most `maxOddAmount`. -/
theorem amountRoundTrip_iff (n : UInt64) :
    AmountRoundTrip n.toNat ↔
      n.toNat % 10 = 0 ∨ n.toNat ≤ maxOddAmount := by
  have hn := n.toNat_lt
  rw [← amountCode_lt_iff hn, AmountRoundTrip, compressValues_lt_iff]
  constructor
  · exact fun h => h.1
  · intro hfit
    have hback := decompressAmount_compressAmount hn hfit
    refine ⟨hfit, fun v hv => ?_, hback, by rw [hback]⟩
    rw [compressAmount, Nat.mod_eq_of_lt hfit] at hv
    exact Nat.lt_of_le_of_lt (decompressValues_amountCode n.toNat v hv) hn

/-- The first amount that fails is in the money range of the main network;
its code wraps around to that of 10000. -/
theorem amountRoundTrip_wraps :
    moneyRange mainParams 2049638230412172403 = true ∧
      ¬ AmountRoundTrip 2049638230412172403 ∧
      decompressAmount (compressAmount 2049638230412172403) = 10000 := by
  refine ⟨by decide, fun h => ?_, by decide⟩
  have hfit := (compressValues_lt_iff _).mp h.1
  revert hfit
  decide

end Agrarian.Serialize
