import Agrarian.Lib.Words
import Agrarian.Uint256

/-!
# The operators of `base_uint<256>`

A `uint256` is an array of eight words, and the operators of `uint256.cpp`
loop over them.  What they compute is the arithmetic of 256-bit words: sums
and products up to multiples of `2 ^ 256`, and the exact quotient.
-/

namespace Agrarian.Uint256

open Agrarian.Lib

/-- `WIDTH`. -/
def WIDTH : Nat := 8

/-- `pn`. -/
def pn (v : Uint256) : Words.Limbs := Words.ofNat WIDTH v.toNat

def ofPn (limbs : Words.Limbs) : Uint256 := BitVec.ofNat 256 (Words.val limbs)

@[simp] theorem length_pn (v : Uint256) : (pn v).length = 8 := Words.length_ofNat ..

@[simp] theorem val_pn (v : Uint256) : Words.val (pn v) = v.toNat := by
  rw [pn, Words.val_ofNat]
  exact Nat.mod_eq_of_lt v.isLt

/-- The value of eight words is not cut off. -/
theorem toNat_ofPn {limbs : Words.Limbs} (h : limbs.length = 8) :
    (ofPn limbs).toNat = Words.val limbs := by
  have hlt := Words.val_lt limbs
  rw [h] at hlt
  rw [ofPn, BitVec.toNat_ofNat, Nat.mod_eq_of_lt hlt]

/-- `+`. -/
def add (a b : Uint256) : Uint256 := ofPn (Words.add (pn a) (pn b))

/-- `*`. -/
def mul (a b : Uint256) : Uint256 := ofPn (Words.mul (pn a) (pn b))

/-- `operator*=(uint32_t)`. -/
def mulWord (a : Uint256) (b32 : BitVec 32) : Uint256 := ofPn (Words.mulWord (pn a) b32)

/-- `/`; `none` where it throws. -/
def div (a b : Uint256) : Option Uint256 := (Words.div (pn a) (pn b)).map ofPn

/-- `~`. -/
def complement (a : Uint256) : Uint256 := ofPn (Words.complement (pn a))

/-- `<<`. -/
def shiftLeft (a : Uint256) (shift : Nat) : Uint256 := ofPn (Words.shiftLeft (pn a) shift)

/-- `>>`. -/
def shiftRight (a : Uint256) (shift : Nat) : Uint256 := ofPn (Words.shiftRight (pn a) shift)

def compareTo (a b : Uint256) : Int := Words.compareTo (pn a) (pn b)

/-! ## What they compute -/

@[simp] theorem add_eq (a b : Uint256) : add a b = a + b := by
  apply BitVec.eq_of_toNat_eq
  rw [add, toNat_ofPn (by simp), Words.val_add (by simp), BitVec.toNat_add, val_pn, val_pn,
    length_pn]

@[simp] theorem mul_eq (a b : Uint256) : mul a b = a * b := by
  apply BitVec.eq_of_toNat_eq
  rw [mul, toNat_ofPn (by simp), Words.val_mul (by simp), BitVec.toNat_mul, val_pn, val_pn,
    length_pn]

theorem toNat_mulWord (a : Uint256) (b32 : BitVec 32) :
    (mulWord a b32).toNat = a.toNat * b32.toNat % 2 ^ 256 := by
  rw [mulWord, toNat_ofPn (by simp), Words.val_mulWord, val_pn, length_pn]

theorem div_eq_some (a : Uint256) {b : Uint256} (h : b ≠ 0) : div a b = some (a / b) := by
  have hb : Words.val (pn b) ≠ 0 := by
    rw [val_pn]
    intro hzero
    exact h (BitVec.eq_of_toNat_eq hzero)
  obtain ⟨quotient, hdiv, hlen, hval⟩ :=
    Words.div_val (a := pn a) (by rw [length_pn, length_pn]) hb
  have heq : ofPn quotient = a / b := by
    apply BitVec.eq_of_toNat_eq
    rw [toNat_ofPn (hlen.trans (length_pn a)), hval, val_pn, val_pn, BitVec.toNat_udiv]
  rw [div, hdiv, Option.map_some, heq]

@[simp] theorem complement_eq (a : Uint256) : complement a = ~~~a := by
  have hval := Words.val_complement (pn a)
  rw [val_pn, length_pn] at hval
  apply BitVec.eq_of_toNat_eq
  rw [complement, toNat_ofPn (by simp), BitVec.toNat_not]
  omega

@[simp] theorem shiftLeft_eq (a : Uint256) (shift : Nat) : shiftLeft a shift = a <<< shift := by
  apply BitVec.eq_of_toNat_eq
  rw [shiftLeft, toNat_ofPn (by simp), Words.val_shiftLeft, val_pn, length_pn,
    BitVec.toNat_shiftLeft]

@[simp] theorem shiftRight_eq (a : Uint256) (shift : Nat) :
    shiftRight a shift = a >>> shift := by
  apply BitVec.eq_of_toNat_eq
  rw [shiftRight, toNat_ofPn (by simp), Words.val_shiftRight, val_pn, BitVec.toNat_ushiftRight]

theorem compareTo_lt (a b : Uint256) : compareTo a b < 0 ↔ a < b := by
  rw [compareTo, (Words.compareTo_spec (by simp)).1, val_pn, val_pn, BitVec.lt_def]

theorem compareTo_gt (a b : Uint256) : 0 < compareTo a b ↔ b < a := by
  rw [compareTo, (Words.compareTo_spec (by simp)).2, val_pn, val_pn, BitVec.lt_def]

/-- The loops of `bits()` find the highest bit. -/
theorem bits_pn (v : Uint256) : Words.bits (pn v) = bits v := by
  rw [Words.bits_eq_size, val_pn, bits]
  by_cases hzero : v = 0
  · rw [if_pos hzero, hzero]
    rfl
  · have hne : v.toNat ≠ 0 := fun h => hzero (BitVec.eq_of_toNat_eq h)
    rw [if_neg hzero]
    apply Nat.le_antisymm
    · exact Nat.size_le.mpr Nat.lt_log2_self
    · exact Nat.lt_size.mpr (Nat.log2_self_le hne)

end Agrarian.Uint256
