import Mathlib

/-!
# Unsigned integers of several words

An unsigned integer of a fixed number of 32-bit words, the least significant
word first, with the loops that compute on it word by word.  Every loop is
proved to compute the operation on the value of the number, up to multiples
of `2 ^ (32 * width)`; a carry never leaves the 64 bits it is computed in.
-/

namespace Agrarian.Lib.Words

/-- The words of a number, the least significant one first. -/
abbrev Limbs := List (BitVec 32)

def val : Limbs → Nat
  | [] => 0
  | word :: rest => word.toNat + 2 ^ 32 * val rest

/-- The lowest `width` words of a number. -/
def ofNat : Nat → Nat → Limbs
  | 0, _ => []
  | width + 1, n => BitVec.ofNat 32 n :: ofNat width (n / 2 ^ 32)

theorem val_lt (a : Limbs) : val a < 2 ^ (32 * a.length) := by
  induction a with
  | nil => simp [val]
  | cons word rest ih =>
      have hword := word.isLt
      have hpow : (2 : Nat) ^ (32 * (word :: rest).length) =
          2 ^ 32 * 2 ^ (32 * rest.length) := by
        rw [← Nat.pow_add, List.length_cons]
        congr 1
        omega
      rw [hpow, val]
      omega

@[simp] theorem length_ofNat (width n : Nat) : (ofNat width n).length = width := by
  induction width generalizing n with
  | zero => rfl
  | succ width ih => rw [ofNat, List.length_cons, ih]

theorem mod_succ_words (n width : Nat) :
    n % 2 ^ (32 * (width + 1)) =
      n % 2 ^ 32 + 2 ^ 32 * (n / 2 ^ 32 % 2 ^ (32 * width)) := by
  have hpow : (2 : Nat) ^ (32 * (width + 1)) = 2 ^ 32 * 2 ^ (32 * width) := by
    rw [← Nat.pow_add]
    congr 1
    omega
  rw [hpow, Nat.mod_mul]

theorem val_ofNat (width n : Nat) : val (ofNat width n) = n % 2 ^ (32 * width) := by
  induction width generalizing n with
  | zero => simp [ofNat, val, Nat.mod_one]
  | succ width ih =>
      rw [ofNat, val, ih, mod_succ_words, BitVec.toNat_ofNat]

/-- Bit `p` of the value is a bit of the word that holds it. -/
theorem testBit_val (a : Limbs) (p : Nat) :
    (val a).testBit p = (a.getD (p / 32) 0).getLsbD (p % 32) := by
  induction a generalizing p with
  | nil => simp [val]
  | cons word rest ih =>
      rw [val, Nat.add_comm, Nat.testBit_two_pow_mul_add _ word.isLt]
      by_cases hlow : p < 32
      · rw [if_pos hlow, Nat.div_eq_of_lt hlow, Nat.mod_eq_of_lt hlow]
        rfl
      · have hdiv : p / 32 = (p - 32) / 32 + 1 := by omega
        have hmod : p % 32 = (p - 32) % 32 := by omega
        rw [if_neg hlow, ih, hdiv, hmod]
        rfl

/-! ## Sums -/

/-- The sum with a carry from the words before. -/
def addFrom (carry : BitVec 64) : Limbs → Limbs → Limbs
  | a :: as, b :: bs =>
      let n := carry + a.setWidth 64 + b.setWidth 64
      n.setWidth 32 :: addFrom (n >>> 32) as bs
  | _, _ => []

def add (a b : Limbs) : Limbs := addFrom 0 a b

@[simp] theorem length_addFrom (carry : BitVec 64) {a b : Limbs}
    (h : a.length = b.length) : (addFrom carry a b).length = a.length := by
  induction a generalizing carry b with
  | nil => rfl
  | cons word rest ih =>
      cases b with
      | nil => cases h
      | cons word' rest' =>
          rw [addFrom, List.length_cons, ih _ (by simpa using h), List.length_cons]

/-- The parts of a 64-bit number that are kept and carried. -/
theorem word_and_carry (n : BitVec 64) :
    (n.setWidth 32).toNat = n.toNat % 2 ^ 32 ∧ (n >>> 32).toNat = n.toNat / 2 ^ 32 := by
  constructor
  · rw [BitVec.toNat_setWidth]
  · rw [BitVec.toNat_ushiftRight, Nat.shiftRight_eq_div_pow]

theorem toNat_widen (a : BitVec 32) : (a.setWidth 64).toNat = a.toNat := by
  have := a.isLt
  rw [BitVec.toNat_setWidth]
  omega

theorem val_addFrom (carry : BitVec 64) {a b : Limbs} (h : a.length = b.length)
    (hcarry : carry.toNat < 2 ^ 32) :
    val (addFrom carry a b) =
      (carry.toNat + val a + val b) % 2 ^ (32 * a.length) := by
  induction a generalizing carry b with
  | nil => simp [addFrom, val, Nat.mod_one]
  | cons a as ih =>
      cases b with
      | nil => cases h
      | cons b bs =>
          have ha := a.isLt
          have hb := b.isLt
          have hn : (carry + a.setWidth 64 + b.setWidth 64).toNat =
              carry.toNat + a.toNat + b.toNat := by
            rw [BitVec.toNat_add, BitVec.toNat_add, toNat_widen, toNat_widen]
            omega
          have hparts := word_and_carry (carry + a.setWidth 64 + b.setWidth 64)
          rw [hn] at hparts
          have hrest := ih ((carry + a.setWidth 64 + b.setWidth 64) >>> 32) (b := bs)
            (by simpa using h) (by rw [hparts.2]; omega)
          rw [addFrom, val, hrest, hparts.1, hparts.2, List.length_cons, mod_succ_words,
            val, val]
          congr 1
          · omega
          · congr 2
            omega

theorem val_add {a b : Limbs} (h : a.length = b.length) :
    val (add a b) = (val a + val b) % 2 ^ (32 * a.length) := by
  rw [add, val_addFrom 0 h (by decide)]
  congr 1
  simp

@[simp] theorem length_add {a b : Limbs} (h : a.length = b.length) :
    (add a b).length = a.length := length_addFrom 0 h

/-! ## Differences -/

/-- The prefix `++`: a word that becomes zero hands on to the next. -/
def increment : Limbs → Limbs
  | [] => []
  | word :: rest => if word + 1 = 0 then 0 :: increment rest else (word + 1) :: rest

def complement (a : Limbs) : Limbs := a.map (~~~ ·)

def neg (a : Limbs) : Limbs := increment (complement a)

/-- `a -= b` adds the negative of `b`. -/
def sub (a b : Limbs) : Limbs := add a (neg b)

@[simp] theorem length_increment (a : Limbs) : (increment a).length = a.length := by
  induction a with
  | nil => rfl
  | cons word rest ih =>
      rw [increment]
      split
      · rw [List.length_cons, ih, List.length_cons]
      · rfl

@[simp] theorem length_complement (a : Limbs) : (complement a).length = a.length := by
  simp [complement]

@[simp] theorem length_neg (a : Limbs) : (neg a).length = a.length := by
  simp [neg]

theorem val_increment (a : Limbs) :
    val (increment a) = (val a + 1) % 2 ^ (32 * a.length) := by
  induction a with
  | nil => simp [increment, val]
  | cons word rest ih =>
      have hword := word.isLt
      rw [increment, List.length_cons, mod_succ_words]
      by_cases hwrap : word + 1 = 0
      · have hmax : word.toNat = 2 ^ 32 - 1 := by
          have := congrArg BitVec.toNat hwrap
          rw [BitVec.toNat_add] at this
          simp at this
          omega
        rw [if_pos hwrap, val, ih, val]
        have hdiv : (word.toNat + 2 ^ 32 * val rest + 1) / 2 ^ 32 = val rest + 1 := by omega
        have hmod : (word.toNat + 2 ^ 32 * val rest + 1) % 2 ^ 32 = 0 := by omega
        rw [hdiv, hmod]
        rfl
      · have hmax : word.toNat + 1 < 2 ^ 32 := by
          by_contra hge
          apply hwrap
          apply BitVec.eq_of_toNat_eq
          rw [BitVec.toNat_add]
          simp
          omega
        have hsum : (word + 1).toNat = word.toNat + 1 := by
          rw [BitVec.toNat_add]
          simp
          omega
        rw [if_neg hwrap, val, hsum, val]
        have hdiv : (word.toNat + 2 ^ 32 * val rest + 1) / 2 ^ 32 = val rest := by omega
        have hmod : (word.toNat + 2 ^ 32 * val rest + 1) % 2 ^ 32 = word.toNat + 1 := by
          omega
        rw [hdiv, hmod, Nat.mod_eq_of_lt (val_lt rest)]

theorem val_complement (a : Limbs) :
    val (complement a) + val a + 1 = 2 ^ (32 * a.length) := by
  induction a with
  | nil => rfl
  | cons word rest ih =>
      have hword := word.isLt
      have hpow : (2 : Nat) ^ (32 * (word :: rest).length) =
          2 ^ 32 * 2 ^ (32 * rest.length) := by
        rw [← Nat.pow_add, List.length_cons]
        congr 1
        omega
      have hnot : (~~~word).toNat = 2 ^ 32 - 1 - word.toNat := BitVec.toNat_not
      show (~~~word).toNat + 2 ^ 32 * val (complement rest) +
        (word.toNat + 2 ^ 32 * val rest) + 1 = _
      rw [hnot, hpow, ← ih]
      omega

theorem val_neg (a : Limbs) :
    val (neg a) = (2 ^ (32 * a.length) - val a) % 2 ^ (32 * a.length) := by
  have hcomplement := val_complement a
  rw [neg, val_increment, length_complement]
  congr 1
  omega

@[simp] theorem length_sub {a b : Limbs} (h : a.length = b.length) :
    (sub a b).length = a.length := by
  rw [sub, length_add (by simpa using h)]

theorem val_sub {a b : Limbs} (h : a.length = b.length) (hle : val b ≤ val a) :
    val (sub a b) = val a - val b := by
  have ha := val_lt a
  have hb := val_lt b
  rw [sub, val_add (by simpa using h), val_neg, ← h, Nat.add_mod_mod]
  rw [← h] at hb
  have hsum : val a + (2 ^ (32 * a.length) - val b) =
      (val a - val b) + 2 ^ (32 * a.length) := by omega
  rw [hsum, Nat.add_mod_right, Nat.mod_eq_of_lt (by omega)]

/-! ## Products -/

/-- `carry + old + b * word` in 64 bits. -/
def mulStep (carry : BitVec 64) (old b word : BitVec 32) : BitVec 64 :=
  carry + old.setWidth 64 + b.setWidth 64 * word.setWidth 64

/-- The product with one word. -/
def mulWordFrom (b : BitVec 32) (carry : BitVec 64) : Limbs → Limbs
  | [] => []
  | word :: rest =>
      let n := mulStep carry 0 b word
      n.setWidth 32 :: mulWordFrom b (n >>> 32) rest

def mulWord (a : Limbs) (b : BitVec 32) : Limbs := mulWordFrom b 0 a

/-- The inner loop of a product: the word `a` times `b`, added to the words `pn`
from its position on, as far as they reach. -/
def mulRow (a : BitVec 32) (carry : BitVec 64) : Limbs → Limbs → Limbs
  | old :: pn, word :: b =>
      let n := mulStep carry old a word
      n.setWidth 32 :: mulRow a (n >>> 32) pn b
  | pn, _ => pn

/-- The outer loop: one row for each word of `a`, each a word further up. -/
def mulRows (b : Limbs) : Limbs → Limbs → Limbs
  | a :: as, pn =>
      match mulRow a 0 pn b with
      | [] => []
      | word :: rest => word :: mulRows b as rest
  | [], pn => pn

def mul (a b : Limbs) : Limbs := mulRows b a (List.replicate a.length 0)

theorem mul_word_lt (a b : BitVec 32) : a.toNat * b.toNat ≤ (2 ^ 32 - 1) * (2 ^ 32 - 1) := by
  have ha := a.isLt
  have hb := b.isLt
  exact Nat.mul_le_mul (by omega) (by omega)

/-- A row does not leave the 64 bits. -/
theorem toNat_mulStep {carry : BitVec 64} (old b word : BitVec 32)
    (hcarry : carry.toNat < 2 ^ 32) :
    (mulStep carry old b word).toNat =
      carry.toNat + old.toNat + b.toNat * word.toNat := by
  have hold := old.isLt
  have hmul := mul_word_lt b word
  rw [mulStep, BitVec.toNat_add, BitVec.toNat_add, BitVec.toNat_mul, toNat_widen,
    toNat_widen, toNat_widen]
  generalize b.toNat * word.toNat = product at hmul ⊢
  omega

theorem mulStep_carry_lt (carry : BitVec 64) (old b word : BitVec 32) :
    (mulStep carry old b word >>> 32).toNat < 2 ^ 32 := by
  have hn := (mulStep carry old b word).isLt
  rw [(word_and_carry _).2]
  omega

@[simp] theorem length_mulWordFrom (b : BitVec 32) (carry : BitVec 64) (a : Limbs) :
    (mulWordFrom b carry a).length = a.length := by
  induction a generalizing carry with
  | nil => rfl
  | cons word rest ih => rw [mulWordFrom, List.length_cons, ih, List.length_cons]

@[simp] theorem length_mulWord (a : Limbs) (b : BitVec 32) :
    (mulWord a b).length = a.length := length_mulWordFrom b 0 a

theorem val_mulWordFrom (b : BitVec 32) (carry : BitVec 64) (a : Limbs)
    (hcarry : carry.toNat < 2 ^ 32) :
    val (mulWordFrom b carry a) =
      (carry.toNat + b.toNat * val a) % 2 ^ (32 * a.length) := by
  induction a generalizing carry with
  | nil => simp [mulWordFrom, val, Nat.mod_one]
  | cons word rest ih =>
      have hn := toNat_mulStep 0 b word hcarry
      have hparts := word_and_carry (mulStep carry 0 b word)
      rw [hn] at hparts
      have hrest := ih _ (mulStep_carry_lt carry 0 b word)
      have hexpand : carry.toNat + b.toNat * val (word :: rest) =
          carry.toNat + b.toNat * word.toNat + 2 ^ 32 * (b.toNat * val rest) := by
        rw [val]
        ring
      have hzero : (0 : BitVec 32).toNat = 0 := rfl
      rw [hzero, Nat.add_zero] at hparts
      rw [mulWordFrom, val, hrest, hparts.1, hparts.2, List.length_cons, mod_succ_words,
        hexpand]
      generalize b.toNat * word.toNat = low
      generalize b.toNat * val rest = high
      congr 1
      · omega
      · congr 2
        omega

theorem val_mulWord (a : Limbs) (b : BitVec 32) :
    val (mulWord a b) = val a * b.toNat % 2 ^ (32 * a.length) := by
  rw [mulWord, val_mulWordFrom b 0 a (by decide), Nat.mul_comm]
  congr 1
  simp

@[simp] theorem length_mulRow (a : BitVec 32) (carry : BitVec 64) (pn b : Limbs) :
    (mulRow a carry pn b).length = pn.length := by
  induction pn generalizing carry b with
  | nil => cases b with
    | nil => rfl
    | cons word b => rfl
  | cons old pn ih => cases b with
    | nil => rfl
    | cons word b => rw [mulRow, List.length_cons, ih, List.length_cons]

theorem val_mulRow (a : BitVec 32) (carry : BitVec 64) {pn b : Limbs}
    (hlen : pn.length ≤ b.length) (hcarry : carry.toNat < 2 ^ 32) :
    val (mulRow a carry pn b) =
      (carry.toNat + val pn + a.toNat * val b) % 2 ^ (32 * pn.length) := by
  induction pn generalizing carry b with
  | nil => cases b with
    | nil => simp [mulRow, val, Nat.mod_one]
    | cons word b => simp [mulRow, val, Nat.mod_one]
  | cons old pn ih => cases b with
    | nil => simp at hlen
    | cons word b =>
        have hn := toNat_mulStep old a word hcarry
        have hparts := word_and_carry (mulStep carry old a word)
        rw [hn] at hparts
        have hrest := ih (mulStep carry old a word >>> 32) (b := b) (by simpa using hlen)
          (mulStep_carry_lt carry old a word)
        have hexpand : carry.toNat + val (old :: pn) + a.toNat * val (word :: b) =
            carry.toNat + old.toNat + a.toNat * word.toNat +
              2 ^ 32 * (val pn + a.toNat * val b) := by
          rw [val, val]
          ring
        rw [mulRow, val, hrest, hparts.1, hparts.2, List.length_cons, mod_succ_words,
          hexpand]
        generalize a.toNat * word.toNat = low
        generalize a.toNat * val b = high
        congr 1
        · omega
        · congr 2
          omega

@[simp] theorem length_mulRows (b a pn : Limbs) : (mulRows b a pn).length = pn.length := by
  induction a generalizing pn with
  | nil => rfl
  | cons word a ih =>
      have hlen := length_mulRow word 0 pn b
      rw [mulRows]
      split
      · rename_i heq
        rw [← hlen, heq]
      · rename_i first rest heq
        rw [← hlen, heq, List.length_cons, List.length_cons, ih]

theorem val_mulRows {b a pn : Limbs} (ha : a.length = pn.length)
    (hb : pn.length ≤ b.length) :
    val (mulRows b a pn) = (val pn + val a * val b) % 2 ^ (32 * pn.length) := by
  induction a generalizing pn with
  | nil =>
      have hnil : pn = [] := List.eq_nil_of_length_eq_zero ha.symm
      subst hnil
      simp [mulRows, val, Nat.mod_one]
  | cons word a ih =>
      have hrow := val_mulRow word 0 hb (by decide)
      have hlen := length_mulRow word 0 pn b
      rw [mulRows]
      cases hcase : mulRow word 0 pn b with
      | nil =>
          rw [hcase] at hlen
          rw [← hlen] at ha
          cases ha
      | cons first rest =>
          rw [hcase, List.length_cons] at hlen
          rw [hcase, val] at hrow
          rw [List.length_cons] at ha
          have hrest : val (mulRows b a rest) =
              (val rest + val a * val b) % 2 ^ (32 * rest.length) := ih (by omega) (by omega)
          have hfirst := first.isLt
          -- the row fixes the lowest word, what is left is one word shorter
          have hzero : (0 : BitVec 64).toNat = 0 := rfl
          rw [hzero, Nat.zero_add, ← hlen, mod_succ_words] at hrow
          have hlow : first.toNat = (val pn + word.toNat * val b) % 2 ^ 32 := by omega
          have hhigh : val rest =
              (val pn + word.toNat * val b) / 2 ^ 32 % 2 ^ (32 * rest.length) := by omega
          have hexpand : val pn + val (word :: a) * val b =
              val pn + word.toNat * val b + 2 ^ 32 * (val a * val b) := by
            rw [val]
            ring
          show first.toNat + 2 ^ 32 * val (mulRows b a rest) = _
          rw [hrest, hhigh, Nat.mod_add_mod, ← hlen, mod_succ_words, hexpand, hlow]
          generalize val pn + word.toNat * val b = row
          generalize val a * val b = high
          congr 1
          · omega
          · congr 2
            omega

theorem val_replicate_zero (width : Nat) : val (List.replicate width 0) = 0 := by
  induction width with
  | zero => rfl
  | succ width ih =>
      rw [List.replicate_succ, val, ih]
      rfl

@[simp] theorem length_mul (a b : Limbs) : (mul a b).length = a.length := by
  simp [mul]

theorem val_mul {a b : Limbs} (h : a.length = b.length) :
    val (mul a b) = val a * val b % 2 ^ (32 * a.length) := by
  rw [mul, val_mulRows (by simp) (by simp [h]), val_replicate_zero, Nat.zero_add,
    List.length_replicate]

/-! ## Comparison -/

/-- The sign of the comparison, decided by the highest words that differ. -/
def compareTo : Limbs → Limbs → Int
  | a :: as, b :: bs =>
      let high := compareTo as bs
      if high ≠ 0 then high
      else if a < b then -1
      else if b < a then 1
      else 0
  | _, _ => 0

theorem compareTo_spec {a b : Limbs} (h : a.length = b.length) :
    (compareTo a b < 0 ↔ val a < val b) ∧ (0 < compareTo a b ↔ val b < val a) := by
  induction a generalizing b with
  | nil => cases b with
    | nil => simp [compareTo]
    | cons word b => cases h
  | cons x a ih => cases b with
    | nil => cases h
    | cons y b =>
        have hx := x.isLt
        have hy := y.isLt
        have hhigh := ih (b := b) (by simpa using h)
        rw [compareTo, val, val]
        by_cases hne : compareTo a b ≠ 0
        · rw [if_pos hne]
          omega
        · rw [if_neg hne]
          by_cases hlt : x < y
          · rw [if_pos hlt]
            rw [BitVec.lt_def] at hlt
            omega
          · rw [if_neg hlt]
            by_cases hgt : y < x
            · rw [if_pos hgt]
              rw [BitVec.lt_def] at hgt
              omega
            · rw [if_neg hgt]
              rw [BitVec.lt_def] at hlt hgt
              omega

/-- `a >= b`. -/
def ge (a b : Limbs) : Bool := 0 ≤ compareTo a b

theorem ge_iff {a b : Limbs} (h : a.length = b.length) :
    ge a b = true ↔ val b ≤ val a := by
  have hspec := compareTo_spec h
  rw [ge, decide_eq_true_eq]
  omega

/-! ## The highest bit -/

/-- The highest bit set in a word that is not zero, looked for from `bit` down,
counted from 1. -/
def topBit (word : BitVec 32) : Nat → Nat
  | 0 => 1
  | bit + 1 => if word &&& (1#32 <<< (bit + 1)) ≠ 0 then bit + 2 else topBit word bit

/-- The position of the highest bit, counted from 1; zero for zero. -/
def bits : Limbs → Nat
  | [] => 0
  | word :: rest =>
      let high := bits rest
      if high ≠ 0 then 32 + high
      else if word ≠ 0 then topBit word 31
      else 0

theorem and_bit_ne_zero (word : BitVec 32) {bit : Nat} (h : bit < 32) :
    word &&& (1#32 <<< bit) ≠ 0 ↔ word.toNat.testBit bit = true := by
  have hone : (1#32 <<< bit).toNat = 2 ^ bit := by
    have hpow : (2 : Nat) ^ bit < 2 ^ 32 := Nat.pow_lt_pow_right (by omega) h
    rw [BitVec.toNat_shiftLeft, BitVec.toNat_ofNat, Nat.shiftLeft_eq,
      Nat.mod_eq_of_lt (by decide : 1 < 2 ^ 32), Nat.one_mul, Nat.mod_eq_of_lt hpow]
  have hand : (word &&& (1#32 <<< bit)).toNat = (word.toNat.testBit bit).toNat * 2 ^ bit := by
    rw [BitVec.toNat_and, hone, Nat.and_two_pow]
  have hpos : (2 : Nat) ^ bit ≠ 0 := by positivity
  rw [ne_eq, ← BitVec.toNat_inj, hand]
  cases word.toNat.testBit bit with
  | false => simp
  | true => simp

theorem topBit_spec {word : BitVec 32} {bit : Nat} (hbit : bit < 32)
    (hlt : word.toNat < 2 ^ (bit + 1)) (hne : word ≠ 0) :
    topBit word bit = word.toNat.size := by
  induction bit with
  | zero =>
      have hword : word.toNat ≠ 0 := fun h => hne (BitVec.eq_of_toNat_eq h)
      have hone : word.toNat = 1 := by omega
      rw [topBit, hone]
      rfl
  | succ bit ih =>
      rw [topBit]
      by_cases hset : word &&& (1#32 <<< (bit + 1)) ≠ 0
      · rw [if_pos hset]
        rw [and_bit_ne_zero word hbit] at hset
        have hge : 2 ^ (bit + 1) ≤ word.toNat := Nat.ge_two_pow_of_testBit hset
        have hlow := Nat.lt_size.mpr hge
        have hhigh := Nat.size_le.mpr hlt
        omega
      · rw [if_neg hset]
        rw [and_bit_ne_zero word hbit, Bool.not_eq_true] at hset
        apply ih (by omega)
        apply Nat.lt_of_testBit (bit + 1)
        · exact hset
        · simp
        · intro p hp
          rw [Nat.testBit_two_pow_of_ne (by omega)]
          exact Nat.testBit_lt_two_pow
            (hlt.trans_le (Nat.pow_le_pow_right (by omega) (by omega)))

theorem bits_eq_size (a : Limbs) : bits a = (val a).size := by
  induction a with
  | nil => rfl
  | cons word rest ih =>
      have hword := word.isLt
      rw [bits, ih]
      by_cases hrest : (val rest).size ≠ 0
      · rw [if_pos hrest]
        have hpos : 0 < val rest := by
          by_contra hzero
          apply hrest
          rw [Nat.eq_zero_of_not_pos hzero]
          rfl
        have hlow : 2 ^ ((val rest).size - 1) ≤ val rest := by
          apply Nat.lt_size.mp
          omega
        have hhigh := Nat.lt_size_self (val rest)
        have hsplit : (2 : Nat) ^ (32 + (val rest).size) = 2 ^ 32 * 2 ^ (val rest).size :=
          Nat.pow_add ..
        have hsplit' : (2 : Nat) ^ (32 + (val rest).size - 1) =
            2 ^ 32 * 2 ^ ((val rest).size - 1) := by
          rw [← Nat.pow_add]
          congr 1
          omega
        have hle : (val (word :: rest)).size ≤ 32 + (val rest).size := by
          apply Nat.size_le.mpr
          rw [hsplit, val]
          omega
        have hge : 32 + (val rest).size - 1 < (val (word :: rest)).size := by
          apply Nat.lt_size.mpr
          rw [hsplit', val]
          omega
        omega
      · rw [if_neg hrest]
        have hzero : val rest = 0 := by
          rw [not_not, Nat.size_eq_zero] at hrest
          exact hrest
        rw [val, hzero, Nat.mul_zero, Nat.add_zero]
        by_cases hne : word ≠ 0
        · rw [if_pos hne, topBit_spec (by omega) hword hne]
        · rw [if_neg hne, not_not.mp hne]
          rfl

/-! ## Shifts -/

/-- `pn[index] |= word`. -/
def orAt (pn : Limbs) (index : Nat) (word : BitVec 32) : Limbs :=
  pn.modify index (· ||| word)

/-- Bit `p` of the words. -/
def bit (a : Limbs) (p : Nat) : Bool := (a.getD (p / 32) 0).getLsbD (p % 32)

/-- One word of `a <<= 32 * k + shift`: its two parts go to two words. -/
def shiftLeftWord (a : Limbs) (k shift : Nat) (pn : Limbs) (i : Nat) : Limbs :=
  let pn :=
    if i + k + 1 < a.length ∧ shift ≠ 0 then
      orAt pn (i + k + 1) (a.getD i 0 >>> (32 - shift))
    else pn
  if i + k < a.length then orAt pn (i + k) (a.getD i 0 <<< shift) else pn

def shiftLeft (a : Limbs) (shift : Nat) : Limbs :=
  (List.range a.length).foldl (shiftLeftWord a (shift / 32) (shift % 32))
    (List.replicate a.length 0)

/-- One word of `a >>= 32 * k + shift`. -/
def shiftRightWord (a : Limbs) (k shift : Nat) (pn : Limbs) (i : Nat) : Limbs :=
  let pn :=
    if k + 1 ≤ i ∧ shift ≠ 0 then
      orAt pn (i - k - 1) (a.getD i 0 <<< (32 - shift))
    else pn
  if k ≤ i then orAt pn (i - k) (a.getD i 0 >>> shift) else pn

def shiftRight (a : Limbs) (shift : Nat) : Limbs :=
  (List.range a.length).foldl (shiftRightWord a (shift / 32) (shift % 32))
    (List.replicate a.length 0)

@[simp] theorem length_orAt (pn : Limbs) (index : Nat) (word : BitVec 32) :
    (orAt pn index word).length = pn.length := by
  simp [orAt]

theorem bit_orAt (pn : Limbs) (index : Nat) (word : BitVec 32) (p : Nat) :
    bit (orAt pn index word) p =
      (bit pn p ||
        (decide (p / 32 = index ∧ index < pn.length) && word.getLsbD (p % 32))) := by
  unfold bit orAt
  rw [List.getD_eq_getElem?_getD, List.getD_eq_getElem?_getD, List.getElem?_modify]
  by_cases heq : index = p / 32
  · by_cases hlt : p / 32 < pn.length
    · simp [heq, hlt]
    · simp [heq, hlt]
  · have hne : ¬ p / 32 = index := fun h => heq h.symm
    simp [heq, hne]

/-- A word that is put into place under a condition: `q` tells which bits it
sets. -/
theorem bit_orAt_if {c q : Prop} [Decidable c] [Decidable q] {pn : Limbs} {index : Nat}
    {word : BitVec 32} {p : Nat} {w : Bool}
    (hin : q → c ∧ p / 32 = index ∧ index < pn.length ∧ word.getLsbD (p % 32) = w)
    (hout : ¬ q → c → p / 32 = index → word.getLsbD (p % 32) = false) :
    bit (if c then orAt pn index word else pn) p = (bit pn p || (decide q && w)) := by
  by_cases hq : q
  · obtain ⟨hc, hindex, hlt, hw⟩ := hin hq
    rw [if_pos hc, bit_orAt, decide_eq_true ⟨hindex, hlt⟩, decide_eq_true hq, hw]
  · rw [decide_eq_false hq, Bool.false_and, Bool.or_false]
    by_cases hc : c
    · rw [if_pos hc, bit_orAt]
      by_cases hindex : p / 32 = index
      · rw [hout hq hc hindex, Bool.and_false, Bool.or_false]
      · rw [decide_eq_false fun h => hindex h.1, Bool.false_and, Bool.or_false]
    · rw [if_neg hc]

theorem testBit_val_eq_bit (a : Limbs) (p : Nat) : (val a).testBit p = bit a p :=
  testBit_val a p

theorem bit_replicate_zero (width p : Nat) : bit (List.replicate width 0) p = false := by
  rw [← testBit_val_eq_bit, val_replicate_zero, Nat.zero_testBit]

theorem bit_eq_false_of_ge {a : Limbs} {p : Nat} (h : 32 * a.length ≤ p) :
    bit a p = false := by
  rw [← testBit_val_eq_bit]
  exact Nat.testBit_lt_two_pow
    ((val_lt a).trans_le (Nat.pow_le_pow_right (by omega) h))

@[simp] theorem length_shiftLeftWord (a : Limbs) (k shift : Nat) (pn : Limbs) (i : Nat) :
    (shiftLeftWord a k shift pn i).length = pn.length := by
  unfold shiftLeftWord
  split
  · split
    · simp
    · simp
  · split
    · simp
    · rfl

/-- The bits that one word puts into place. -/
theorem bit_shiftLeftWord {a pn : Limbs} {k shift i : Nat} (hlen : pn.length = a.length)
    (hshift : shift < 32) (p : Nat) :
    bit (shiftLeftWord a k shift pn i) p =
      (bit pn p ||
        (decide (32 * k + shift ≤ p ∧ p < 32 * a.length ∧
          (p - (32 * k + shift)) / 32 = i) &&
            bit a (p - (32 * k + shift)))) := by
  have hbit : p % 32 < 32 := Nat.mod_lt _ (by omega)
  have hlow : ∀ pn' : Limbs, pn'.length = a.length →
      bit (if i + k < a.length then orAt pn' (i + k) (a.getD i 0 <<< shift) else pn') p =
        (bit pn' p || (decide (p / 32 = i + k ∧ p < 32 * a.length ∧ shift ≤ p % 32) &&
          (a.getD i 0).getLsbD (p % 32 - shift))) := by
    intro pn' hlen'
    apply bit_orAt_if
    · rintro ⟨hat, hlt, hge⟩
      refine ⟨by omega, hat, by omega, ?_⟩
      rw [BitVec.getLsbD_shiftLeft, decide_eq_true hbit, decide_eq_false (by omega)]
      rfl
    · intro hout hin hat
      rw [BitVec.getLsbD_shiftLeft, decide_eq_true (by omega : p % 32 < shift), Bool.not_true,
        Bool.and_false, Bool.false_and]
  have hhigh : bit (if i + k + 1 < a.length ∧ shift ≠ 0 then
        orAt pn (i + k + 1) (a.getD i 0 >>> (32 - shift)) else pn) p =
      (bit pn p || (decide (p / 32 = i + k + 1 ∧ p < 32 * a.length ∧ p % 32 < shift) &&
        (a.getD i 0).getLsbD (32 - shift + p % 32))) := by
    apply bit_orAt_if
    · rintro ⟨hat, hlt, hless⟩
      exact ⟨by omega, hat, by omega, BitVec.getLsbD_ushiftRight ..⟩
    · intro hout hin hat
      rw [BitVec.getLsbD_ushiftRight]
      exact BitVec.getLsbD_of_ge _ _ (by omega)
  unfold shiftLeftWord
  dsimp only
  rw [hlow _ (by split <;> simp [hlen]), hhigh, Bool.or_assoc]
  congr 1
  unfold bit
  by_cases hat : p / 32 = i + k ∧ p < 32 * a.length ∧ shift ≤ p % 32
  · have hnot : ¬ (p / 32 = i + k + 1 ∧ p < 32 * a.length ∧ p % 32 < shift) := by omega
    have hall : 32 * k + shift ≤ p ∧ p < 32 * a.length ∧
        (p - (32 * k + shift)) / 32 = i := by omega
    have hrem : (p - (32 * k + shift)) % 32 = p % 32 - shift := by omega
    rw [decide_eq_false hnot, decide_eq_true hat, decide_eq_true hall, hall.2.2, hrem]
    rfl
  · by_cases hat' : p / 32 = i + k + 1 ∧ p < 32 * a.length ∧ p % 32 < shift
    · have hall : 32 * k + shift ≤ p ∧ p < 32 * a.length ∧
          (p - (32 * k + shift)) / 32 = i := by omega
      have hrem : (p - (32 * k + shift)) % 32 = 32 - shift + p % 32 := by omega
      rw [decide_eq_true hat', decide_eq_false hat, decide_eq_true hall, hall.2.2, hrem]
      simp
    · have hnone : ¬ (32 * k + shift ≤ p ∧ p < 32 * a.length ∧
          (p - (32 * k + shift)) / 32 = i) := by omega
      rw [decide_eq_false hat', decide_eq_false hat, decide_eq_false hnone]
      rfl

@[simp] theorem length_shiftRightWord (a : Limbs) (k shift : Nat) (pn : Limbs) (i : Nat) :
    (shiftRightWord a k shift pn i).length = pn.length := by
  unfold shiftRightWord
  split
  · split
    · simp
    · simp
  · split
    · simp
    · rfl

theorem bit_shiftRightWord {a pn : Limbs} {k shift i : Nat} (hlen : pn.length = a.length)
    (hi : i < a.length) (hshift : shift < 32) (p : Nat) :
    bit (shiftRightWord a k shift pn i) p =
      (bit pn p ||
        (decide ((p + (32 * k + shift)) / 32 = i) && bit a (p + (32 * k + shift)))) := by
  have hbit : p % 32 < 32 := Nat.mod_lt _ (by omega)
  have hhigh : ∀ pn' : Limbs, pn'.length = a.length →
      bit (if k ≤ i then orAt pn' (i - k) (a.getD i 0 >>> shift) else pn') p =
        (bit pn' p || (decide (p / 32 + k = i ∧ p % 32 + shift < 32) &&
          (a.getD i 0).getLsbD (shift + p % 32))) := by
    intro pn' hlen'
    apply bit_orAt_if
    · rintro ⟨hat, hless⟩
      exact ⟨by omega, by omega, by omega, BitVec.getLsbD_ushiftRight ..⟩
    · intro hout hin hat
      rw [BitVec.getLsbD_ushiftRight]
      exact BitVec.getLsbD_of_ge _ _ (by omega)
  have hlow : bit (if k + 1 ≤ i ∧ shift ≠ 0 then
        orAt pn (i - k - 1) (a.getD i 0 <<< (32 - shift)) else pn) p =
      (bit pn p || (decide (p / 32 + k + 1 = i ∧ 32 ≤ p % 32 + shift) &&
        (a.getD i 0).getLsbD (p % 32 - (32 - shift)))) := by
    apply bit_orAt_if
    · rintro ⟨hat, hge⟩
      have hnot : ¬ p % 32 < 32 - shift := by omega
      refine ⟨by omega, by omega, by omega, ?_⟩
      rw [BitVec.getLsbD_shiftLeft, decide_eq_true hbit, decide_eq_false hnot]
      rfl
    · intro hout hin hat
      rw [BitVec.getLsbD_shiftLeft, decide_eq_true (by omega : p % 32 < 32 - shift),
        Bool.not_true, Bool.and_false, Bool.false_and]
  unfold shiftRightWord
  dsimp only
  rw [hhigh _ (by split <;> simp [hlen]), hlow, Bool.or_assoc]
  congr 1
  unfold bit
  by_cases hat : p / 32 + k = i ∧ p % 32 + shift < 32
  · have hnot : ¬ (p / 32 + k + 1 = i ∧ 32 ≤ p % 32 + shift) := by omega
    have hdiv : (p + (32 * k + shift)) / 32 = i := by omega
    have hrem : (p + (32 * k + shift)) % 32 = shift + p % 32 := by omega
    rw [decide_eq_false hnot, decide_eq_true hat, decide_eq_true hdiv, hdiv, hrem]
    rfl
  · by_cases hat' : p / 32 + k + 1 = i ∧ 32 ≤ p % 32 + shift
    · have hdiv : (p + (32 * k + shift)) / 32 = i := by omega
      have hrem : (p + (32 * k + shift)) % 32 = p % 32 - (32 - shift) := by omega
      rw [decide_eq_true hat', decide_eq_false hat, decide_eq_true hdiv, hdiv, hrem]
      simp
    · have hnone : ¬ (p + (32 * k + shift)) / 32 = i := by omega
      rw [decide_eq_false hat', decide_eq_false hat, decide_eq_false hnone]
      rfl

/-- A loop over the words that puts the bits of one word after the other into
place has put all of them there at its end. -/
theorem bit_scatter {step : Limbs → Nat → Limbs} {width : Nat} {source : Nat → Nat}
    {bits : Nat → Bool} {fits : Nat → Prop} [DecidablePred fits]
    (hlength : ∀ pn i, (step pn i).length = pn.length)
    (hstep : ∀ pn i, pn.length = width → i < width → ∀ p,
      bit (step pn i) p = (bit pn p || (decide (fits p ∧ source p = i) && bits p)))
    {count : Nat} (hcount : count ≤ width) :
    ((List.range count).foldl step (List.replicate width 0)).length = width ∧
      ∀ p, bit ((List.range count).foldl step (List.replicate width 0)) p =
        (decide (fits p ∧ source p < count) && bits p) := by
  induction count with
  | zero =>
      refine ⟨by simp, fun p => ?_⟩
      have hnone : ¬ (fits p ∧ source p < 0) := fun h => absurd h.2 (Nat.not_lt_zero _)
      rw [decide_eq_false hnone, Bool.false_and]
      exact bit_replicate_zero width p
  | succ count ih =>
      obtain ⟨hlen, hbits⟩ := ih (by omega)
      rw [List.range_succ, List.foldl_append, List.foldl_cons, List.foldl_nil]
      refine ⟨(hlength _ _).trans hlen, fun p => ?_⟩
      rw [hstep _ _ hlen (by omega), hbits, ← Bool.and_or_distrib_right]
      congr 1
      by_cases hfits : fits p
      · by_cases heq : source p = count
        · simp [hfits, heq]
        · have hlt : source p < count ↔ source p < count + 1 := by omega
          simp [hfits, heq, hlt]
      · simp [hfits]

theorem shiftLeft_spec (a : Limbs) (shift : Nat) :
    (shiftLeft a shift).length = a.length ∧
      ∀ p, bit (shiftLeft a shift) p =
        (decide (shift ≤ p ∧ p < 32 * a.length) && bit a (p - shift)) := by
  have hsum : 32 * (shift / 32) + shift % 32 = shift := Nat.div_add_mod shift 32
  have hstep : ∀ pn i, pn.length = a.length → i < a.length → ∀ p,
      bit (shiftLeftWord a (shift / 32) (shift % 32) pn i) p =
        (bit pn p || (decide ((shift ≤ p ∧ p < 32 * a.length) ∧ (p - shift) / 32 = i) &&
          bit a (p - shift))) := by
    intro pn i hlen hi p
    simp only [bit_shiftLeftWord hlen (Nat.mod_lt shift (by omega : 0 < 32)), hsum, and_assoc]
  obtain ⟨hlen, hbits⟩ := bit_scatter (fun pn i => length_shiftLeftWord a _ _ pn i) hstep
    (Nat.le_refl a.length)
  refine ⟨hlen, fun p => ?_⟩
  unfold shiftLeft
  rw [hbits]
  congr 2
  apply propext
  constructor
  · intro h
    exact h.1
  · intro h
    exact ⟨h, by omega⟩

theorem val_shiftLeft (a : Limbs) (shift : Nat) :
    val (shiftLeft a shift) = (val a <<< shift) % 2 ^ (32 * a.length) := by
  apply Nat.eq_of_testBit_eq
  intro p
  rw [testBit_val_eq_bit, (shiftLeft_spec a shift).2, Nat.testBit_mod_two_pow,
    Nat.testBit_shiftLeft, testBit_val_eq_bit]
  by_cases hlow : shift ≤ p
  · simp [hlow]
  · simp [hlow]

theorem shiftRight_spec (a : Limbs) (shift : Nat) :
    (shiftRight a shift).length = a.length ∧
      ∀ p, bit (shiftRight a shift) p = bit a (p + shift) := by
  have hsum : 32 * (shift / 32) + shift % 32 = shift := Nat.div_add_mod shift 32
  have hstep : ∀ pn i, pn.length = a.length → i < a.length → ∀ p,
      bit (shiftRightWord a (shift / 32) (shift % 32) pn i) p =
        (bit pn p || (decide (True ∧ (p + shift) / 32 = i) && bit a (p + shift))) := by
    intro pn i hlen hi p
    simp only [bit_shiftRightWord hlen hi (Nat.mod_lt shift (by omega : 0 < 32)), hsum,
      true_and]
  obtain ⟨hlen, hbits⟩ := bit_scatter (fun pn i => length_shiftRightWord a _ _ pn i) hstep
    (Nat.le_refl a.length)
  refine ⟨hlen, fun p => ?_⟩
  unfold shiftRight
  rw [hbits]
  by_cases hin : (p + shift) / 32 < a.length
  · simp [hin]
  · rw [bit_eq_false_of_ge (a := a) (by omega), Bool.and_false]

theorem val_shiftRight (a : Limbs) (shift : Nat) :
    val (shiftRight a shift) = val a >>> shift := by
  apply Nat.eq_of_testBit_eq
  intro p
  rw [testBit_val_eq_bit, (shiftRight_spec a shift).2, Nat.testBit_shiftRight,
    testBit_val_eq_bit, Nat.add_comm]

@[simp] theorem length_shiftLeft (a : Limbs) (shift : Nat) :
    (shiftLeft a shift).length = a.length := (shiftLeft_spec a shift).1

@[simp] theorem length_shiftRight (a : Limbs) (shift : Nat) :
    (shiftRight a shift).length = a.length := (shiftRight_spec a shift).1

/-! ## Division -/

/-- `pn[shift / 32] |= (1 << (shift & 31))`. -/
def setBit (pn : Limbs) (shift : Nat) : Limbs :=
  orAt pn (shift / 32) (1#32 <<< (shift % 32))

/-- The loop of the long division, with `shift + 1` steps to go: the divisor
`div` is taken from what is left in `num` where it fits. -/
def divLoop : Nat → Limbs → Limbs → Limbs → Limbs
  | 0, _, _, quotient => quotient
  | shift + 1, num, div, quotient =>
      if ge num div then
        divLoop shift (sub num div) (shiftRight div 1) (setBit quotient shift)
      else divLoop shift num (shiftRight div 1) quotient

/-- `a /= b`; `none` where the source throws. -/
def div (a b : Limbs) : Option Limbs :=
  let quotient := List.replicate a.length 0
  if bits b = 0 then none
  else if bits a < bits b then some quotient
  else
    let shift := bits a - bits b
    some (divLoop (shift + 1) a (shiftLeft b shift) quotient)

@[simp] theorem length_setBit (pn : Limbs) (shift : Nat) :
    (setBit pn shift).length = pn.length := by
  simp [setBit]

@[simp] theorem length_divLoop (steps : Nat) (num div quotient : Limbs) :
    (divLoop steps num div quotient).length = quotient.length := by
  induction steps generalizing num div quotient with
  | zero => rfl
  | succ shift ih =>
      rw [divLoop]
      split
      · rw [ih, length_setBit]
      · rw [ih]

/-- Above the bit that is set, the number does not change. -/
theorem val_setBit {pn : Limbs} {shift : Nat} (hshift : shift < 32 * pn.length)
    (hlow : 2 ^ (shift + 1) ∣ val pn) : val (setBit pn shift) = val pn + 2 ^ shift := by
  have hor : val (setBit pn shift) = val pn ||| 2 ^ shift := by
    apply Nat.eq_of_testBit_eq
    intro p
    have hbit : p % 32 < 32 := Nat.mod_lt _ (by omega)
    rw [testBit_val_eq_bit, setBit, bit_orAt, Nat.testBit_or, testBit_val_eq_bit,
      Nat.testBit_two_pow, BitVec.getLsbD_shiftLeft]
    congr 1
    by_cases heq : shift = p
    · have hword : p / 32 < pn.length := by omega
      simp [heq, hword, hbit]
    · by_cases hword : p / 32 = shift / 32
      · by_cases hlt : p % 32 < shift % 32
        · simp [heq, hlt]
        · have hne : p % 32 - shift % 32 ≠ 0 := by omega
          simp [heq, hne]
      · simp [heq, hword]
  obtain ⟨high, hhigh⟩ := hlow
  rw [hor, hhigh]
  exact (Nat.two_pow_add_eq_or_of_lt
    (Nat.pow_lt_pow_right (by omega) (by omega : shift < shift + 1)) high).symm

/-- What the loop keeps: `num` and the quotient account for the dividend, and
`num` is less than twice the divisor in its place. -/
theorem divLoop_val {steps : Nat} {num div quotient : Limbs} {divisor : Nat}
    (hnum : num.length = div.length) (hquotient : quotient.length = div.length)
    (hfits : steps ≤ 32 * div.length) (hpos : 0 < divisor)
    (hdiv : steps ≠ 0 → val div = divisor * 2 ^ (steps - 1))
    (hlt : val num < divisor * 2 ^ steps) (hlow : 2 ^ steps ∣ val quotient) :
    val (divLoop steps num div quotient) =
      (val num + val quotient * divisor) / divisor := by
  induction steps generalizing num div quotient with
  | zero =>
      rw [divLoop, Nat.add_mul_div_right _ _ hpos, Nat.div_eq_of_lt (by simpa using hlt),
        Nat.zero_add]
  | succ shift ih =>
      have hplace : val div = divisor * 2 ^ shift := hdiv (by omega)
      have hdouble : divisor * 2 ^ (shift + 1) = divisor * 2 ^ shift + divisor * 2 ^ shift := by
        rw [Nat.pow_succ]
        ring
      have hnext : shift ≠ 0 → val (shiftRight div 1) = divisor * 2 ^ (shift - 1) := by
        intro hne
        have hpow : (2 : Nat) ^ shift = 2 ^ (shift - 1) * 2 := by
          rw [← Nat.pow_succ]
          congr 1
          omega
        rw [val_shiftRight, hplace, hpow, Nat.shiftRight_eq_div_pow, ← Nat.mul_assoc]
        omega
      have hlow' : (2 : Nat) ^ shift ∣ val quotient :=
        (Nat.pow_dvd_pow 2 (by omega)).trans hlow
      rw [divLoop]
      by_cases hge : ge num div = true
      · rw [if_pos hge]
        rw [ge_iff hnum, hplace] at hge
        have hsub : val (sub num div) = val num - divisor * 2 ^ shift := by
          rw [val_sub hnum (by omega), hplace]
        have hset : val (setBit quotient shift) = val quotient + 2 ^ shift :=
          val_setBit (by omega) hlow
        rw [ih (by simp [hnum]) (by simp [hquotient]) (by simp; omega) hnext
          (by rw [hsub]; omega) (by rw [hset]; exact Nat.dvd_add hlow' (Nat.dvd_refl _)),
          hsub, hset]
        congr 1
        rw [Nat.add_mul, Nat.mul_comm (2 ^ shift) divisor]
        omega
      · rw [if_neg hge]
        rw [ge_iff hnum, hplace] at hge
        exact ih (by simp [hnum]) (by simp [hquotient]) (by simp; omega) hnext (by omega)
          hlow'

/-- **The long division finds the quotient**, and throws for zero only. -/
theorem div_val {a b : Limbs} (h : a.length = b.length) (hb : val b ≠ 0) :
    ∃ quotient, div a b = some quotient ∧ quotient.length = a.length ∧
      val quotient = val a / val b := by
  have hbpos : 0 < val b := by omega
  have hbits : bits b ≠ 0 := by
    rw [bits_eq_size, ne_eq, Nat.size_eq_zero]
    exact hb
  have hasize := Nat.lt_size_self (val a)
  have hbsize : 2 ^ ((val b).size - 1) ≤ val b := by
    apply Nat.lt_size.mp
    rw [bits_eq_size] at hbits
    omega
  rw [← bits_eq_size] at hasize hbsize
  rw [div, if_neg hbits]
  by_cases hshort : bits a < bits b
  · rw [if_pos hshort]
    refine ⟨_, rfl, by simp, ?_⟩
    have hle : (2 : Nat) ^ bits a ≤ 2 ^ (bits b - 1) :=
      Nat.pow_le_pow_right (by omega) (by omega)
    rw [val_replicate_zero, Nat.div_eq_of_lt (by omega)]
  · rw [if_neg hshort]
    have hwidth : bits a ≤ 32 * a.length := by
      rw [bits_eq_size]
      exact Nat.size_le.mpr (val_lt a)
    have hplace : val (shiftLeft b (bits a - bits b)) = val b * 2 ^ (bits a - bits b) := by
      have hblt := Nat.lt_size_self (val b)
      rw [← bits_eq_size] at hblt
      have htop : val b * 2 ^ (bits a - bits b) < 2 ^ (32 * b.length) := by
        calc val b * 2 ^ (bits a - bits b)
            < 2 ^ bits b * 2 ^ (bits a - bits b) :=
              Nat.mul_lt_mul_of_pos_right hblt (by positivity)
          _ = 2 ^ bits a := by
              rw [← Nat.pow_add]
              congr 1
              omega
          _ ≤ 2 ^ (32 * b.length) := Nat.pow_le_pow_right (by omega) (by omega)
      rw [val_shiftLeft, Nat.shiftLeft_eq, Nat.mod_eq_of_lt htop]
    have hstart : val a < val b * 2 ^ (bits a - bits b + 1) := by
      calc val a < 2 ^ bits a := hasize
        _ = 2 ^ (bits b - 1) * 2 ^ (bits a - bits b + 1) := by
            rw [← Nat.pow_add]
            congr 1
            omega
        _ ≤ val b * 2 ^ (bits a - bits b + 1) := Nat.mul_le_mul_right _ hbsize
    refine ⟨_, rfl, ?_, ?_⟩
    · rw [length_divLoop]
      simp
    · rw [divLoop_val (by simp [h]) (by simp [h]) (by simp; omega) hbpos
        (fun _ => hplace) hstart (by rw [val_replicate_zero]; exact Nat.dvd_zero _),
        val_replicate_zero, Nat.zero_mul, Nat.add_zero]

end Agrarian.Lib.Words
