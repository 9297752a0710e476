import Agrarian.Validation.BlockPayee

/-!
# Amounts as text

`FormatMoney` and `ParseMoney` of `utilmoneystr.cpp`.  An amount is written with two to eight
decimals, and read back from a whole part of at most ten digits.  The largest amount of the network
has eleven.
-/

namespace Agrarian.Util

open Agrarian.Validation

/-- `isspace` in the C locale. -/
def isspace (c : Char) : Bool := c == ' ' || 9 ≤ c.toNat && c.toNat ≤ 13

/-! ## `FormatMoney` -/

/-- `%d` of a number that is not negative. -/
def formatInt (n : Int) : List Char := Nat.toDigits 10 n.toNat

/-- `%08d` of a number that is not negative. -/
def formatInt08 (n : Int) : List Char :=
  List.replicate (8 - (formatInt n).length) '0' ++ formatInt n

/-- The loop that trims zeros from the end of the text, which is given backwards: a zero goes if
there is a digit two places before. -/
def trimZeros : List Char → List Char
  | c :: c₁ :: c₂ :: str =>
      if c = '0' ∧ c₂.isDigit then trimZeros (c₁ :: c₂ :: str) else c :: c₁ :: c₂ :: str
  | str => str

def formatMoney (n : Int) (fPlus : Bool) : List Char :=
  let n_abs := if 0 < n then n else -n
  let quotient := n_abs.tdiv COIN
  let remainder := n_abs.tmod COIN
  let str := (trimZeros (formatInt quotient ++ '.' :: formatInt08 remainder).reverse).reverse
  if n < 0 then '-' :: str
  else if fPlus && decide (0 < n) then '+' :: str
  else str

/-! ## `ParseMoney` -/

/-- `*p - '0'`. -/
def digitValue (c : Char) : Nat := c.toNat - '0'.toNat

/-- The loop over the decimals: the units, and what is behind the decimals. -/
def parseUnits : Int → Int → List Char → Int × List Char
  | _, nUnits, [] => (nUnits, [])
  | nMult, nUnits, c :: p =>
      if c.isDigit ∧ 0 < nMult then
        parseUnits (nMult.tdiv 10) (nUnits + nMult * digitValue c) p
      else (nUnits, c :: p)

/-- The loop over the text: the whole part, the units, and what is behind. -/
def parseWhole : List Char → List Char → Option (List Char × Int × List Char)
  | strWhole, [] => some (strWhole, 0, [])
  | strWhole, c :: p =>
      if c = '.' then
        let (nUnits, p) := parseUnits (CENT * 10) 0 p
        some (strWhole, nUnits, p)
      else if isspace c then some (strWhole, 0, c :: p)
      else if !c.isDigit then none
      else parseWhole (strWhole ++ [c]) p

/-- `strtoll` of digits. -/
def atoi64 (str : List Char) : Int := min (Nat.ofDigitChars 10 str 0 : Nat) (2 ^ 63 - 1)

def parseMoney (str : List Char) : Option Int := do
  let (strWhole, nUnits, p) ← parseWhole [] (str.dropWhile isspace)
  if !p.all isspace then none
  else if 10 < strWhole.length then none
  else if nUnits < 0 ∨ COIN < nUnits then none
  else some (atoi64 strWhole * COIN + nUnits)

/-! ## The text of an amount -/

/-- Only zeros are trimmed, and none of the first two decimals. -/
theorem trimZeros_decimals (str : List Char) {digits : List Char}
    (h : ∀ c ∈ digits, c.isDigit = true) (hlength : 2 ≤ digits.length) :
    ∃ k ≤ digits.length, trimZeros (digits ++ '.' :: str) = digits.drop k ++ '.' :: str ∧
      digits.take k = List.replicate k '0' := by
  induction digits with
  | nil => exact absurd hlength (by decide)
  | cons c digits ih =>
      match digits, hlength with
      | [c₁], _ => exact ⟨0, Nat.zero_le _, if_neg (fun hboth => absurd hboth.2 (by decide)), rfl⟩
      | c₁ :: c₂ :: digits, _ =>
          by_cases hzero : c = '0'
          · obtain ⟨k, hk, htrim, htake⟩ := ih
              (fun c hc => h c (List.mem_cons_of_mem _ hc)) (by simp)
            refine ⟨k + 1, Nat.succ_le_succ hk, ?_, ?_⟩
            · have hdigit : c₂.isDigit = true := h c₂ (by simp)
              show (if c = '0' ∧ c₂.isDigit then
                trimZeros (c₁ :: c₂ :: (digits ++ '.' :: str)) else _) = _
              rw [if_pos ⟨hzero, hdigit⟩]
              exact htrim
            · rw [List.take_succ_cons, htake, hzero]
              rfl
          · exact ⟨0, Nat.zero_le _, if_neg fun hboth => hzero hboth.1, rfl⟩

/-! ## Eight decimals -/

theorem isDigit_formatInt (n : Int) : ∀ c ∈ formatInt n, c.isDigit = true :=
  fun _ hc => Nat.isDigit_of_mem_toDigits (by decide) (by decide) hc

theorem isDigit_formatInt08 (n : Int) : ∀ c ∈ formatInt08 n, c.isDigit = true := by
  intro c hc
  rcases List.mem_append.mp hc with hc | hc
  · rw [List.eq_of_mem_replicate hc]
    rfl
  · exact isDigit_formatInt n c hc

theorem length_formatInt08 {r : Int} (h : r < COIN) : (formatInt08 r).length = 8 := by
  have hsmall : r.toNat < 10 ^ 8 := by
    unfold COIN at h
    omega
  have hle : (formatInt r).length ≤ 8 :=
    (Nat.length_toDigits_le_iff (by decide) (by decide)).mpr hsmall
  rw [formatInt08, List.length_append, List.length_replicate]
  omega

theorem ofDigitChars_formatInt08 (r : Int) :
    Nat.ofDigitChars 10 (formatInt08 r) 0 = r.toNat := by
  rw [formatInt08, Nat.ofDigitChars_append, Nat.ofDigitChars_replicate_zero, Nat.mul_zero]
  exact Nat.ofDigitChars_ten_toDigits

/-- The text of an amount that is not negative, with its last zeros left out. -/
theorem formatMoney_nonneg {n : Int} (h : 0 ≤ n) :
    ∃ (digits : List Char) (k : Nat), formatMoney n false =
        formatInt (n / COIN) ++ '.' :: digits ∧ (∀ c ∈ digits, c.isDigit = true) ∧
      digits.length + k = 8 ∧
      Nat.ofDigitChars 10 digits 0 * 10 ^ k = (n % COIN).toNat := by
  have habs : (if 0 < n then n else -n) = n := by
    split
    · rfl
    · omega
  have hlength : (formatInt08 (n % COIN)).length = 8 := length_formatInt08 (by
    unfold COIN
    omega)
  obtain ⟨k, hk, htrim, htake⟩ := trimZeros_decimals (formatInt (n / COIN)).reverse
    (fun c hc => isDigit_formatInt08 (n % COIN) c (List.mem_reverse.mp hc))
    (by rw [List.length_reverse, hlength]; decide)
  rw [List.length_reverse, hlength] at hk
  -- the digits that are left, and the zeros that are not
  have hsplit : formatInt08 (n % COIN) =
      ((formatInt08 (n % COIN)).reverse.drop k).reverse ++ List.replicate k '0' := by
    have hboth := List.take_append_drop k (formatInt08 (n % COIN)).reverse
    rw [htake] at hboth
    have hreverse := congrArg List.reverse hboth
    rw [List.reverse_append, List.reverse_reverse, List.reverse_replicate] at hreverse
    exact hreverse.symm
  refine ⟨((formatInt08 (n % COIN)).reverse.drop k).reverse, k, ?_, fun c hc => ?_, ?_, ?_⟩
  · unfold formatMoney
    dsimp only
    rw [habs, Int.tdiv_eq_ediv_of_nonneg h, Int.tmod_eq_emod_of_nonneg h, List.reverse_append,
      List.reverse_cons, List.append_assoc, List.singleton_append, htrim, List.reverse_append,
      List.reverse_cons, List.reverse_reverse, List.append_assoc, List.singleton_append,
      if_neg (by omega), Bool.false_and, if_neg Bool.false_ne_true]
  · exact isDigit_formatInt08 (n % COIN) c (hsplit ▸ List.mem_append_left _ hc)
  · rw [List.length_reverse, List.length_drop, List.length_reverse, hlength]
    omega
  · have hvalue := ofDigitChars_formatInt08 (n % COIN)
    rw [hsplit, Nat.ofDigitChars_append, Nat.ofDigitChars_replicate_zero] at hvalue
    rw [← hvalue, Nat.mul_comm]

/-! ## Reading it -/

/-- The units of at most as many decimals as there are places left. -/
theorem parseUnits_digits {digits : List Char} (h : ∀ c ∈ digits, c.isDigit = true) (k : Nat)
    (nUnits : Int) :
    parseUnits ((10 ^ (digits.length + k) : Nat) / 10 : Nat) nUnits digits =
      (nUnits + (Nat.ofDigitChars 10 digits 0 * 10 ^ k : Nat), []) := by
  induction digits generalizing nUnits with
  | nil => simp [parseUnits]
  | cons c digits ih =>
      have hpow : 10 ^ ((c :: digits).length + k) / 10 = 10 ^ (digits.length + k) := by
        rw [List.length_cons, Nat.add_right_comm, Nat.pow_succ]
        exact Nat.mul_div_cancel _ (by decide)
      have hpos : (0 : Int) < (10 ^ (digits.length + k) : Nat) := by positivity
      rw [hpow, parseUnits, if_pos ⟨h c List.mem_cons_self, hpos⟩]
      have htdiv : ((10 ^ (digits.length + k) : Nat) : Int).tdiv 10 =
          (10 ^ (digits.length + k) / 10 : Nat) := rfl
      have hvalue : Nat.ofDigitChars 10 (c :: digits) 0 =
          10 ^ digits.length * digitValue c + Nat.ofDigitChars 10 digits 0 := by
        rw [Nat.ofDigitChars_cons, Nat.mul_zero, Nat.zero_add]
        exact Nat.ofDigitChars_eq_ofDigitChars_zero
      rw [htdiv, ih (fun c hc => h c (List.mem_cons_of_mem _ hc)), hvalue]
      congr 1
      push_cast
      ring

theorem isspace_of_isDigit {c : Char} (h : c.isDigit = true) : isspace c = false := by
  have hlow : 48 ≤ c.toNat := by
    unfold Char.isDigit at h
    rw [Bool.and_eq_true, decide_eq_true_eq, decide_eq_true_eq] at h
    exact h.1
  have hblank : c ≠ ' ' := fun heq => absurd (heq ▸ hlow) (by decide)
  have hhigh : ¬ c.toNat ≤ 13 := by omega
  simp [isspace, hblank, hhigh]

theorem parseWhole_digits {digits : List Char} (h : ∀ c ∈ digits, c.isDigit = true)
    (strWhole p : List Char) :
    parseWhole strWhole (digits ++ p) = parseWhole (strWhole ++ digits) p := by
  induction digits generalizing strWhole with
  | nil => rw [List.nil_append, List.append_nil]
  | cons c digits ih =>
      have hdigit := h c List.mem_cons_self
      have hpoint : c ≠ '.' := fun heq => absurd (heq ▸ hdigit) (by decide)
      have hspace : isspace c = false := isspace_of_isDigit hdigit
      rw [List.cons_append, parseWhole, if_neg hpoint, hspace, if_neg Bool.false_ne_true, hdigit,
        if_neg (by decide), ih (fun c hc => h c (List.mem_cons_of_mem _ hc)), List.append_assoc,
        List.singleton_append]

/-- What is read from the text of an amount: the amount, if its whole part is short enough. -/
theorem parseMoney_formatMoney {n : Int} (h : 0 ≤ n) :
    parseMoney (formatMoney n false) = if n < 10 ^ 10 * COIN then some n else none := by
  obtain ⟨digits, k, htext, hdigits, hlength, hvalue⟩ := formatMoney_nonneg h
  have hwhole := isDigit_formatInt (n / COIN)
  have hspaces : (formatInt (n / COIN) ++ '.' :: digits).dropWhile isspace =
      formatInt (n / COIN) ++ '.' :: digits := by
    have hne : formatInt (n / COIN) ≠ [] := Nat.toDigits_ne_nil
    obtain ⟨c, rest, hcons⟩ := List.exists_cons_of_ne_nil hne
    have hfirst := isspace_of_isDigit (hwhole c (hcons ▸ List.mem_cons_self))
    rw [hcons, List.cons_append, List.dropWhile_cons_of_neg (by rw [hfirst]; decide)]
  have hunits := parseUnits_digits hdigits k 0
  rw [hlength, hvalue, Int.zero_add] at hunits
  have hparse : parseWhole [] (formatInt (n / COIN) ++ '.' :: digits) =
      some (formatInt (n / COIN), ((n % COIN).toNat : Int), []) := by
    rw [parseWhole_digits hwhole, parseWhole, if_pos rfl]
    show some (formatInt (n / COIN), (parseUnits (10 ^ 8 / 10 : Nat) 0 digits).1,
      (parseUnits (10 ^ 8 / 10 : Nat) 0 digits).2) = _
    rw [hunits]
  have hcount : 10 < (formatInt (n / COIN)).length ↔ ¬ n < 10 ^ 10 * COIN := by
    have hle : (formatInt (n / COIN)).length ≤ 10 ↔ (n / COIN).toNat < 10 ^ 10 :=
      Nat.length_toDigits_le_iff (by decide) (by decide)
    unfold COIN at hle ⊢
    omega
  unfold parseMoney
  rw [htext, hspaces, hparse]
  simp only [Option.bind_eq_bind, Option.bind_some, List.all_nil, Bool.not_true,
    Bool.false_eq_true, if_false, hcount]
  by_cases hshort : n < 10 ^ 10 * COIN
  · have hvalue : atoi64 (formatInt (n / COIN)) = n / COIN := by
      unfold atoi64 formatInt
      rw [Nat.ofDigitChars_ten_toDigits]
      unfold COIN at hshort ⊢
      omega
    have hrange : ¬ (((n % COIN).toNat : Int) < 0 ∨ COIN < ((n % COIN).toNat : Int)) := by
      unfold COIN
      omega
    have hsum : n / COIN * COIN + ((n % COIN).toNat : Int) = n := by
      unfold COIN
      omega
    rw [if_neg (not_not_intro hshort), if_neg hrange, if_pos hshort, hvalue, hsum]
  · rw [if_pos hshort, if_neg hshort]

/-- **Which amounts are read back**: those of at most ten digits before the point. -/
theorem parseMoney_formatMoney_iff {n : Int} (h : moneyRange mainParams n = true) :
    parseMoney (formatMoney n false) = some n ↔ n < 10 ^ 10 * COIN := by
  unfold moneyRange at h
  rw [Bool.and_eq_true, decide_eq_true_eq] at h
  rw [parseMoney_formatMoney h.1]
  split
  · next hlt => exact ⟨fun _ => hlt, fun _ => rfl⟩
  · next hlt => exact ⟨fun hnone => (nomatch hnone), fun hlt' => absurd hlt' hlt⟩

/-- An amount that is read back. -/
theorem parseMoney_formatMoney_cent :
    parseMoney (formatMoney 150000000 false) = some 150000000 ↔ (150000000 : Int) < 10 ^ 10 * COIN :=
  parseMoney_formatMoney_iff (by decide)

/-- **An amount of the network** whose whole part has eleven digits is not read back. -/
theorem parseMoney_formatMoney_long :
    moneyRange mainParams (10 ^ 18) = true ∧ parseMoney (formatMoney (10 ^ 18) false) = none := by
  refine ⟨by decide, ?_⟩
  rw [parseMoney_formatMoney (by decide)]
  exact if_neg (by decide)

end Agrarian.Util
