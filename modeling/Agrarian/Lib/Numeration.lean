import Mathlib

/-!
# Bijective numeration

Digit lists in base `b` in which every digit but the last stands for one more
than its face value.  The shift leaves no room for leading zeros: every
number has exactly one nonempty digit list, whatever its length.
-/

namespace Agrarian.Lib.Numeration

/-- The value of a digit list, most significant digit first. -/
def value (b : Nat) : List Nat → Nat
  | [] => 0
  | [d] => d
  | d :: ds => b ^ ds.length * (d + 1) + value b ds

/-- The digits of `n`, most significant first. -/
def digits (b n : Nat) : List Nat :=
  if 1 < b ∧ b ≤ n then digits b (n / b - 1) ++ [n % b] else [n]
termination_by n
decreasing_by
  have : n / b < n := Nat.div_lt_self (by omega) (by omega)
  omega

theorem digits_of_lt {b n : Nat} (hn : n < b) : digits b n = [n] := by
  rw [digits, if_neg (by omega)]

theorem digits_of_le {b n : Nat} (hb : 1 < b) (hn : b ≤ n) :
    digits b n = digits b (n / b - 1) ++ [n % b] := by
  rw [digits, if_pos ⟨hb, hn⟩]

theorem digits_ne_nil (b n : Nat) : digits b n ≠ [] := by
  rw [digits]
  split <;> simp

theorem digits_lt {b : Nat} (hb : 1 < b) (n : Nat) :
    ∀ d ∈ digits b n, d < b := by
  induction n using Nat.strongRecOn with
  | ind n ih =>
      intro d hd
      by_cases hn : n < b
      · rw [digits_of_lt hn, List.mem_singleton] at hd
        omega
      · rw [digits_of_le hb (Nat.not_lt.mp hn), List.mem_append,
          List.mem_singleton] at hd
        rcases hd with hd | rfl
        · have hdiv : n / b < n := Nat.div_lt_self (by omega) hb
          exact ih (n / b - 1) (by omega) d hd
        · exact Nat.mod_lt n (by omega)

/-- A digit behind the others, as a reader meets it. -/
theorem value_concat (b d : Nat) {ds : List Nat} (hds : ds ≠ []) :
    value b (ds ++ [d]) = b * (value b ds + 1) + d := by
  induction ds with
  | nil => exact absurd rfl hds
  | cons e ds ih =>
      cases ds with
      | nil => simp [value]
      | cons e' ds =>
          have htail := ih (List.cons_ne_nil e' ds)
          have hlen : (e' :: ds ++ [d]).length = (e' :: ds).length + 1 :=
            List.length_append
          show b ^ (e' :: ds ++ [d]).length * (e + 1) +
              value b (e' :: ds ++ [d]) =
            b * (b ^ (e' :: ds).length * (e + 1) + value b (e' :: ds) + 1) + d
          rw [htail, hlen, Nat.pow_succ]
          ring

theorem value_digits {b : Nat} (hb : 1 < b) (n : Nat) :
    value b (digits b n) = n := by
  induction n using Nat.strongRecOn with
  | ind n ih =>
      by_cases hn : n < b
      · rw [digits_of_lt hn, value]
      · have hdiv : n / b < n := Nat.div_lt_self (by omega) hb
        have hpos : 1 ≤ n / b := Nat.div_pos (Nat.not_lt.mp hn) (by omega)
        have hsplit := Nat.div_add_mod n b
        rw [digits_of_le hb (Nat.not_lt.mp hn),
          value_concat b _ (digits_ne_nil b _), ih (n / b - 1) (by omega),
          Nat.sub_add_cancel hpos]
        exact hsplit

theorem digits_value {b : Nat} (hb : 1 < b) {ds : List Nat} (hds : ds ≠ [])
    (hlt : ∀ d ∈ ds, d < b) : digits b (value b ds) = ds := by
  induction ds using List.reverseRecOn with
  | nil => exact absurd rfl hds
  | append_singleton ds d ih =>
      have hd : d < b := hlt d (by simp)
      rcases List.eq_nil_or_concat ds with rfl | hcons
      · exact digits_of_lt hd
      · have hne : ds ≠ [] := by
          rintro rfl
          obtain ⟨l, x, hl⟩ := hcons
          simp at hl
        have hsub := ih hne fun e he => hlt e (List.mem_append_left _ he)
        have hdiv : (b * (value b ds + 1) + d) / b = value b ds + 1 := by
          rw [Nat.mul_add_div (by omega), Nat.div_eq_of_lt hd, Nat.add_zero]
        have hmod : (b * (value b ds + 1) + d) % b = d := by
          rw [Nat.mul_add_mod, Nat.mod_eq_of_lt hd]
        have hle : b ≤ b * (value b ds + 1) + d := by nlinarith
        rw [value_concat b d hne, digits_of_le hb hle, hdiv, hmod,
          Nat.add_sub_cancel, hsub]

/-- A number of `k + 1` digits is at least the `k`-th power of the base. -/
theorem pow_le_value (b : Nat) (hb : 0 < b) {ds : List Nat}
    (hds : 1 < ds.length) : b ^ (ds.length - 1) ≤ value b ds := by
  match ds, hds with
  | d :: e :: ds, _ =>
      show b ^ (e :: ds).length ≤
        b ^ (e :: ds).length * (d + 1) + value b (e :: ds)
      have hpos : 0 < b ^ (e :: ds).length := Nat.pow_pos hb
      nlinarith

end Agrarian.Lib.Numeration
