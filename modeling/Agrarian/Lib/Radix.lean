import Mathlib

/-!
# Changing the base of a numeral

A numeral is read digit by digit, the first one the highest, into a buffer of a fixed number of
digits in another base: the buffer is multiplied by the one base and the digit is added, with a
carry from place to place.  If the buffer has room for the largest numeral of the length, no carry
is left at the end of any step.
-/

namespace Agrarian.Lib.Radix

/-- The buffer in base `b`, the lowest digit first, times `a` plus the carry, and the carry that is
left. -/
def mulAdd (b a : Nat) : Nat → List Nat → List Nat × Nat
  | carry, [] => ([], carry)
  | carry, d :: rest =>
      let n := carry + a * d
      let (rest, carry) := mulAdd b a (n / b) rest
      (n % b :: rest, carry)

/-- The digits of a numeral in base `a`, one after the other; `none` if a carry is left. -/
def convert (b a : Nat) : List Nat → List Nat → Option (List Nat)
  | [], buffer => some buffer
  | d :: digits, buffer =>
      let (buffer, carry) := mulAdd b a d buffer
      if carry ≠ 0 then none else convert b a digits buffer

variable {a b : Nat}

@[simp] theorem length_mulAdd (b a carry : Nat) (buffer : List Nat) :
    (mulAdd b a carry buffer).1.length = buffer.length := by
  induction buffer generalizing carry with
  | nil => rfl
  | cons d rest ih => exact congrArg Nat.succ (ih _)

theorem ofDigits_mulAdd (b a carry : Nat) (buffer : List Nat) :
    Nat.ofDigits b (mulAdd b a carry buffer).1 + b ^ buffer.length * (mulAdd b a carry buffer).2 =
      a * Nat.ofDigits b buffer + carry := by
  induction buffer generalizing carry with
  | nil => simp [mulAdd, Nat.ofDigits]
  | cons d rest ih =>
      have hrest := ih ((carry + a * d) / b)
      have hdigit := Nat.mod_add_div (carry + a * d) b
      have hout : mulAdd b a carry (d :: rest) =
          ((carry + a * d) % b :: (mulAdd b a ((carry + a * d) / b) rest).1,
            (mulAdd b a ((carry + a * d) / b) rest).2) := rfl
      rw [hout, Nat.ofDigits_cons, Nat.ofDigits_cons, List.length_cons, Nat.pow_succ]
      generalize Nat.ofDigits b (mulAdd b a ((carry + a * d) / b) rest).1 = low at hrest ⊢
      generalize (mulAdd b a ((carry + a * d) / b) rest).2 = left at hrest ⊢
      generalize Nat.ofDigits b rest = value at hrest ⊢
      calc (carry + a * d) % b + b * low + b ^ rest.length * b * left
          = (carry + a * d) % b + b * (low + b ^ rest.length * left) := by ring
        _ = (carry + a * d) % b + b * (a * value + (carry + a * d) / b) := by rw [hrest]
        _ = a * (d + b * value) + carry := by
            rw [Nat.mul_add, Nat.add_left_comm, hdigit]
            ring

theorem mulAdd_lt (hb : 0 < b) (a carry : Nat) (buffer : List Nat) :
    ∀ d ∈ (mulAdd b a carry buffer).1, d < b := by
  induction buffer generalizing carry with
  | nil => exact fun d hd => nomatch hd
  | cons d rest ih =>
      intro d' hd'
      rcases List.mem_cons.mp hd' with rfl | hd'
      · exact Nat.mod_lt _ hb
      · exact ih _ d' hd'

/-- **The conversion leaves no carry** if the buffer has room for all numerals of the length. -/
theorem convert_eq (hb : 0 < b) {digits buffer : List Nat} (h : ∀ d ∈ digits, d < a)
    (hbuffer : ∀ d ∈ buffer, d < b)
    (hroom : (Nat.ofDigits b buffer + 1) * a ^ digits.length ≤ b ^ buffer.length) :
    ∃ buffer', convert b a digits buffer = some buffer' ∧ (∀ d ∈ buffer', d < b) ∧
      Nat.ofDigits b buffer' =
        Nat.ofDigits b buffer * a ^ digits.length + Nat.ofDigits a digits.reverse := by
  induction digits generalizing buffer with
  | nil => exact ⟨buffer, rfl, hbuffer, by simp⟩
  | cons d digits ih =>
      have hd := h d List.mem_cons_self
      have hstep := ofDigits_mulAdd b a d buffer
      have hlength := length_mulAdd b a d buffer
      have hlt := mulAdd_lt hb a d buffer
      rw [convert]
      generalize mulAdd b a d buffer = out at hstep hlength hlt ⊢
      obtain ⟨buffer', carry⟩ := out
      dsimp only at hstep hlength hlt ⊢
      have hpow : 1 ≤ a ^ digits.length := Nat.one_le_pow _ _ (by omega)
      have hgrow : (a * Nat.ofDigits b buffer + d + 1) * a ^ digits.length ≤
          b ^ buffer.length := by
        calc (a * Nat.ofDigits b buffer + d + 1) * a ^ digits.length
            ≤ (a * Nat.ofDigits b buffer + a) * a ^ digits.length :=
              Nat.mul_le_mul_right _ (by omega)
          _ = (Nat.ofDigits b buffer + 1) * a ^ (d :: digits).length := by
              rw [List.length_cons, Nat.pow_succ]
              ring
          _ ≤ b ^ buffer.length := hroom
      have hsmall : a * Nat.ofDigits b buffer + d < b ^ buffer.length := by
        calc a * Nat.ofDigits b buffer + d < (a * Nat.ofDigits b buffer + d + 1) * 1 := by omega
          _ ≤ (a * Nat.ofDigits b buffer + d + 1) * a ^ digits.length :=
              Nat.mul_le_mul_left _ hpow
          _ ≤ b ^ buffer.length := hgrow
      have hcarry : carry = 0 := by
        by_contra hne
        have hle : b ^ buffer.length * 1 ≤ b ^ buffer.length * carry :=
          Nat.mul_le_mul_left _ (Nat.one_le_iff_ne_zero.mpr hne)
        omega
      rw [hcarry, Nat.mul_zero, Nat.add_zero] at hstep
      rw [if_neg (not_not_intro hcarry)]
      obtain ⟨result, hresult, hresultLt, hvalue⟩ := ih
        (fun d hd => h d (List.mem_cons_of_mem _ hd)) hlt (by rw [hstep, hlength]; exact hgrow)
      refine ⟨result, hresult, hresultLt, ?_⟩
      rw [hvalue, hstep, Nat.ofDigits_reverse_cons, List.length_cons, Nat.pow_succ]
      ring

/-- Digits without a zero at the front are those of their value. -/
theorem digits_significant (ha : 1 < a) {digits : List Nat} (h : ∀ d ∈ digits, d < a)
    (hhead : digits.head? ≠ some 0) :
    (Nat.digits a (Nat.ofDigits a digits.reverse)).reverse = digits := by
  rw [Nat.digits_ofDigits a ha digits.reverse (fun d hd => h d (List.mem_reverse.mp hd)),
    List.reverse_reverse]
  intro hne hlast
  apply hhead
  rw [← List.getLast?_reverse, List.getLast?_eq_some_getLast hne, hlast]

/-- The digits of a buffer but for the zeros at its end, the highest first. -/
theorem dropWhile_reverse_eq (hb : 1 < b) {buffer : List Nat} (h : ∀ d ∈ buffer, d < b) :
    buffer.reverse.dropWhile (· = 0) = (Nat.digits b (Nat.ofDigits b buffer)).reverse := by
  obtain ⟨zeros, hsplit, hzeros⟩ : ∃ zeros, buffer.reverse =
      zeros ++ buffer.reverse.dropWhile (· = 0) ∧ ∀ d ∈ zeros, d = 0 :=
    ⟨buffer.reverse.takeWhile (· = 0), List.takeWhile_append_dropWhile.symm,
      fun d hd => by simpa using List.mem_takeWhile_imp hd⟩
  have hhead : (buffer.reverse.dropWhile (· = 0)).head? ≠ some 0 := by
    intro hhead
    have hfirst := List.head?_dropWhile_not (· = 0) buffer.reverse
    rw [hhead] at hfirst
    simp at hfirst
  generalize buffer.reverse.dropWhile (· = 0) = digits at hsplit hhead ⊢
  have hbuffer : buffer = digits.reverse ++ List.replicate zeros.length 0 := by
    rw [← List.reverse_reverse buffer, hsplit, List.reverse_append,
      List.eq_replicate_of_mem hzeros, List.reverse_replicate, List.length_replicate]
  have hdigits : ∀ d ∈ digits, d < b := fun d hd =>
    h d (List.mem_reverse.mp (hsplit ▸ List.mem_append_right zeros hd))
  rw [hbuffer, Nat.ofDigits_append_replicate_zero]
  exact (digits_significant hb hdigits hhead).symm

/-- The digits of a number start with no zero. -/
theorem reverse_digits (hb : 1 < b) (n : Nat) :
    (∀ d ∈ (Nat.digits b n).reverse, d < b) ∧ (Nat.digits b n).reverse.head? ≠ some 0 := by
  refine ⟨fun d hd => Nat.digits_lt_base hb (List.mem_reverse.mp hd), fun hhead => ?_⟩
  rw [List.head?_reverse] at hhead
  have hne : Nat.digits b n ≠ [] := by
    intro hnil
    rw [hnil] at hhead
    cases hhead
  have hn : n ≠ 0 := Nat.digits_ne_nil_iff_ne_zero.mp hne
  rw [List.getLast?_eq_some_getLast hne] at hhead
  exact Nat.getLast_digit_ne_zero b hn (Option.some.inj hhead)

end Agrarian.Lib.Radix
