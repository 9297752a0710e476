import Mathlib

/-!
# Decimal numerals

The text that an integer prints as, the texts that are such numerals, and when
two numerals written one after the other can be told apart again.
-/

namespace Agrarian.Lib

/-- The decimal numeral of an integer. -/
def decimal (x : Int) : List Char :=
  if x < 0 then '-' :: Nat.toDigits 10 x.natAbs
  else Nat.toDigits 10 x.natAbs

/-- Digits without a leading zero. -/
def isNatural (text : List Char) : Bool :=
  text == ['0'] ||
    !text.isEmpty && text.head? != some '0' && text.all Char.isDigit

/-- The text is the numeral of an integer. -/
def isInteger : List Char → Bool
  | '-' :: digits => digits != ['0'] && isNatural digits
  | digits => isNatural digits

/-- The integer that a numeral denotes. -/
def numeralValue : List Char → Int
  | '-' :: digits => -(Nat.ofDigitChars 10 digits 0 : Int)
  | digits => Nat.ofDigitChars 10 digits 0

section Numerals

variable {text : List Char}

/-! ## Natural numbers -/

theorem head?_toDigits_ne (n : Nat) : (Nat.toDigits 10 n).head? ≠ some '-' := by
  intro h
  have hdigit := Nat.isDigit_of_mem_toDigits (by decide) (by decide)
    (List.mem_of_mem_head? h)
  exact absurd hdigit (by decide)

theorem digitChar_eq_zero_iff {n : Nat} (h : n < 10) :
    n.digitChar = '0' ↔ n = 0 := by
  interval_cases n <;> decide

theorem head?_toDigits_pos {n : Nat} (h : 0 < n) :
    (Nat.toDigits 10 n).head? ≠ some '0' := by
  induction n using Nat.strongRecOn with
  | ind n ih =>
      rw [Nat.toDigits_eq_if (by decide)]
      split
      · rename_i hsmall
        intro hzero
        have hchar := Option.some.inj hzero
        rw [digitChar_eq_zero_iff hsmall] at hchar
        omega
      · rename_i hlarge
        rw [List.head?_append_of_ne_nil _ Nat.toDigits_ne_nil]
        exact ih (n / 10) (by omega) (by omega)

theorem isNatural_toDigits (n : Nat) : isNatural (Nat.toDigits 10 n) := by
  rcases Nat.eq_zero_or_pos n with rfl | hpos
  · decide
  · have hhead := head?_toDigits_pos hpos
    have hdigits : (Nat.toDigits 10 n).all Char.isDigit := by
      rw [List.all_eq_true]
      exact fun c hc => Nat.isDigit_of_mem_toDigits (by decide) (by decide) hc
    simp [isNatural, hhead, hdigits]

/-- A digit prints as itself. -/
theorem digitChar_sub_of_isDigit {c : Char} (h : c.isDigit) :
    c.toNat - '0'.toNat < 10 ∧ (c.toNat - '0'.toNat).digitChar = c := by
  simp only [Char.isDigit, Bool.and_eq_true, decide_eq_true_eq] at h
  obtain ⟨hlow, hhigh⟩ := h
  have hlow' : 48 ≤ c.toNat := hlow
  have hhigh' : c.toNat ≤ 57 := hhigh
  have hzero : '0'.toNat = 48 := rfl
  rw [hzero]
  refine ⟨by omega, ?_⟩
  have hc : c = Char.ofNat c.toNat := (Char.ofNat_toNat c).symm
  rw [hc]
  generalize c.toNat = n at hlow' hhigh'
  interval_cases n <;> decide

theorem toDigits_ofDigitChars (h : isNatural text) :
    Nat.toDigits 10 (Nat.ofDigitChars 10 text 0) = text := by
  simp only [isNatural, Bool.or_eq_true, beq_iff_eq, Bool.and_eq_true,
    Bool.not_eq_true', bne_iff_ne, List.all_eq_true] at h
  rcases h with rfl | ⟨⟨hne, hhead⟩, hdigits⟩
  · decide
  · -- the induction is on the last digit: what is before it is positive
    induction text using List.reverseRecOn with
    | nil => simp at hne
    | append_singleton front last ih =>
        obtain ⟨hlast, hprint⟩ := digitChar_sub_of_isDigit
          (hdigits last (by simp))
        rw [Nat.ofDigitChars_append, Nat.ofDigitChars_cons,
          Nat.ofDigitChars_nil]
        cases front with
        | nil =>
            rw [Nat.ofDigitChars_nil, Nat.mul_zero, Nat.zero_add,
              Nat.toDigits_of_lt_base hlast, hprint]
            rfl
        | cons c front =>
            have hfront := ih
              (fun d hd => hdigits d (List.mem_append_left [last] hd)) rfl hhead
            have hpos : 0 < Nat.ofDigitChars 10 (c :: front) 0 := by
              rw [Nat.pos_iff_ne_zero]
              intro hzero
              rw [hzero, Nat.toDigits_zero] at hfront
              rw [← hfront] at hhead
              exact hhead rfl
            rw [← Nat.toDigits_append_toDigits (by decide) hpos hlast, hfront,
              Nat.toDigits_of_lt_base hlast, hprint]

/-! ## Integers -/

theorem isInteger_of_head (h : text.head? ≠ some '-') :
    isInteger text = isNatural text := by
  unfold isInteger
  split
  · exact absurd rfl h
  · rfl

theorem numeralValue_of_head (h : text.head? ≠ some '-') :
    numeralValue text = Nat.ofDigitChars 10 text 0 := by
  unfold numeralValue
  split
  · exact absurd rfl h
  · rfl

theorem isInteger_decimal (x : Int) : isInteger (decimal x) := by
  unfold decimal
  split
  · rename_i hneg
    have hpos : 0 < x.natAbs := by omega
    have hne : Nat.toDigits 10 x.natAbs ≠ ['0'] := by
      intro heq
      have hhead := head?_toDigits_pos hpos
      rw [heq] at hhead
      exact hhead rfl
    simp [isInteger, hne, isNatural_toDigits]
  · rw [isInteger_of_head (head?_toDigits_ne _)]
    exact isNatural_toDigits _

theorem numeralValue_decimal (x : Int) : numeralValue (decimal x) = x := by
  unfold decimal
  split
  · simp only [numeralValue, Nat.ofDigitChars_ten_toDigits]
    omega
  · rw [numeralValue_of_head (head?_toDigits_ne _),
      Nat.ofDigitChars_ten_toDigits]
    omega

theorem decimal_injective : Function.Injective decimal :=
  Function.LeftInverse.injective numeralValue_decimal

theorem decimal_numeralValue (h : isInteger text) :
    decimal (numeralValue text) = text := by
  unfold isInteger at h
  split at h
  · rename_i digits
    rw [Bool.and_eq_true, bne_iff_ne] at h
    obtain ⟨hne, hnatural⟩ := h
    have hread := toDigits_ofDigitChars hnatural
    have hpos : 0 < Nat.ofDigitChars 10 digits 0 := by
      rw [Nat.pos_iff_ne_zero]
      intro hzero
      rw [hzero, Nat.toDigits_zero] at hread
      exact hne hread.symm
    simp only [numeralValue, decimal]
    rw [if_pos (by omega), Int.natAbs_neg, Int.natAbs_natCast, hread]
  · rename_i hhead
    have hnot : text.head? ≠ some '-' := by
      intro heq
      obtain ⟨tail, rfl⟩ := List.head?_eq_some_iff.mp heq
      exact hhead tail rfl
    rw [numeralValue_of_head hnot, decimal, if_neg (by omega),
      Int.natAbs_natCast, toDigits_ofDigitChars h]

end Numerals

/-! ## Two numerals in a row -/

/-- The numeral of a number that `fits`. -/
def isNumeral (fits : Int → Bool) (text : List Char) : Bool :=
  isInteger text && fits (numeralValue text)

/-- The text can be cut into two numerals after `n` characters only. -/
def cutsOnlyAt (fits : Int → Bool) (n : Nat) (text : List Char) : Bool :=
  (List.range (text.length + 1)).all fun k =>
    k == n || !(isNumeral fits (text.take k) && isNumeral fits (text.drop k))

section Cuts

variable {fits : Int → Bool} {x y x' y' : Int}

theorem isNumeral_decimal (h : fits x) : isNumeral fits (decimal x) := by
  rw [isNumeral, isInteger_decimal, numeralValue_decimal, h]
  rfl

theorem eq_of_cutsOnlyAt
    (h : cutsOnlyAt fits (decimal x).length (decimal x ++ decimal y))
    (hx : fits x') (hy : fits y')
    (heq : decimal x' ++ decimal y' = decimal x ++ decimal y) :
    x' = x ∧ y' = y := by
  simp only [cutsOnlyAt, List.all_eq_true, List.mem_range, Bool.or_eq_true,
    beq_iff_eq, Bool.not_eq_true', Bool.and_eq_false_iff] at h
  have hlength : (decimal x').length < (decimal x ++ decimal y).length + 1 := by
    rw [← heq, List.length_append]
    omega
  rcases h _ hlength with hcut | hcut
  · obtain ⟨hfirst, hsecond⟩ := List.append_inj heq hcut
    exact ⟨decimal_injective hfirst, decimal_injective hsecond⟩
  · rw [← heq, List.take_left, List.drop_left, isNumeral_decimal hx,
      isNumeral_decimal hy] at hcut
    simp at hcut

theorem cutsOnlyAt_of_eq
    (h : ∀ x' y', fits x' → fits y' →
      decimal x' ++ decimal y' = decimal x ++ decimal y → x' = x) :
    cutsOnlyAt fits (decimal x).length (decimal x ++ decimal y) := by
  simp only [cutsOnlyAt, List.all_eq_true, List.mem_range, Bool.or_eq_true,
    beq_iff_eq, Bool.not_eq_true']
  intro k hk
  by_contra hcut
  simp only [not_or, Bool.not_eq_false, Bool.and_eq_true, isNumeral] at hcut
  obtain ⟨hne, ⟨hfirst, hfits⟩, hsecond, hfits'⟩ := hcut
  have hsame := h _ _ hfits hfits' (by
    rw [decimal_numeralValue hfirst, decimal_numeralValue hsecond,
      List.take_append_drop])
  apply hne
  rw [← hsame, decimal_numeralValue hfirst, List.length_take]
  omega

end Cuts

end Agrarian.Lib
