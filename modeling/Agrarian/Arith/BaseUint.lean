import Agrarian.Lib.Words

/-!
# Unsigned integers of any width

The template `base_uint<BITS>` of `uint256.h` and `uint256.cpp` for every number of words: 160,
256 and 512 bits are in use.  A number is its array of words, and the operators are the loops over
the words; the operand of `*=` and the others is another object than the one that is changed.
-/

namespace Agrarian

open Agrarian.Lib

/-- `base_uint<32 * WIDTH>`. -/
structure BaseUint (WIDTH : Nat) where
  pn : Words.Limbs
  length_pn : pn.length = WIDTH
  deriving DecidableEq, Repr

namespace BaseUint

variable {WIDTH : Nat}

attribute [simp] length_pn

def toNat (a : BaseUint WIDTH) : Nat := Words.val a.pn

/-- `operator+=`. -/
def add (a b : BaseUint WIDTH) : BaseUint WIDTH where
  pn := Words.add a.pn b.pn
  length_pn := by simp

/-- `operator-`. -/
def neg (a : BaseUint WIDTH) : BaseUint WIDTH where
  pn := Words.neg a.pn
  length_pn := by simp

/-- `operator-=`, which adds the negated operand. -/
def sub (a b : BaseUint WIDTH) : BaseUint WIDTH := a.add b.neg

/-- `operator*=(const base_uint&)`. -/
def mul (a b : BaseUint WIDTH) : BaseUint WIDTH where
  pn := Words.mul a.pn b.pn
  length_pn := by simp

/-- `operator*=(uint32_t)`. -/
def mulWord (a : BaseUint WIDTH) (b32 : BitVec 32) : BaseUint WIDTH where
  pn := Words.mulWord a.pn b32
  length_pn := by simp

/-- `operator<<=`. -/
def shiftLeft (a : BaseUint WIDTH) (shift : Nat) : BaseUint WIDTH where
  pn := Words.shiftLeft a.pn shift
  length_pn := by simp

/-- `operator>>=`. -/
def shiftRight (a : BaseUint WIDTH) (shift : Nat) : BaseUint WIDTH where
  pn := Words.shiftRight a.pn shift
  length_pn := by simp

/-- The quotient has as many words as the dividend. -/
theorem length_div {a b quotient : Words.Limbs} (h : Words.div a b = some quotient) :
    quotient.length = a.length := by
  unfold Words.div at h
  split_ifs at h
  · obtain rfl := Option.some.inj h
    simp
  · obtain rfl := Option.some.inj h
    simp

/-- `operator/=`; `none` where it throws. -/
def div (a b : BaseUint WIDTH) : Option (BaseUint WIDTH) :=
  match h : Words.div a.pn b.pn with
  | none => none
  | some quotient => some ⟨quotient, (length_div h).trans a.length_pn⟩

/-- `CompareTo`, which the comparison operators read. -/
def compareTo (a b : BaseUint WIDTH) : Int := Words.compareTo a.pn b.pn

theorem toNat_add (a b : BaseUint WIDTH) :
    (a.add b).toNat = (a.toNat + b.toNat) % 2 ^ (32 * WIDTH) := by
  show Words.val (Words.add a.pn b.pn) = _
  rw [Words.val_add (by simp), length_pn]
  rfl

theorem toNat_mul (a b : BaseUint WIDTH) :
    (a.mul b).toNat = a.toNat * b.toNat % 2 ^ (32 * WIDTH) := by
  show Words.val (Words.mul a.pn b.pn) = _
  rw [Words.val_mul (by simp), length_pn]
  rfl

theorem toNat_mulWord (a : BaseUint WIDTH) (b32 : BitVec 32) :
    (a.mulWord b32).toNat = a.toNat * b32.toNat % 2 ^ (32 * WIDTH) := by
  show Words.val (Words.mulWord a.pn b32) = _
  rw [Words.val_mulWord, length_pn]
  rfl

theorem toNat_shiftLeft (a : BaseUint WIDTH) (shift : Nat) :
    (a.shiftLeft shift).toNat = a.toNat * 2 ^ shift % 2 ^ (32 * WIDTH) := by
  show Words.val (Words.shiftLeft a.pn shift) = _
  rw [Words.val_shiftLeft, length_pn, Nat.shiftLeft_eq]
  rfl

theorem toNat_shiftRight (a : BaseUint WIDTH) (shift : Nat) :
    (a.shiftRight shift).toNat = a.toNat / 2 ^ shift := by
  show Words.val (Words.shiftRight a.pn shift) = _
  rw [Words.val_shiftRight, Nat.shiftRight_eq_div_pow]
  rfl

/-- A number is determined by its value. -/
theorem val_inj {a b : Words.Limbs} (h : a.length = b.length) (hval : Words.val a = Words.val b) :
    a = b := by
  induction a generalizing b with
  | nil => exact (List.length_eq_zero_iff.mp h.symm).symm
  | cons x a ih =>
      cases b with
      | nil => cases h
      | cons y b =>
          have hx := x.isLt
          have hy := y.isLt
          rw [Words.val, Words.val] at hval
          have hrest : Words.val a = Words.val b := by omega
          have hword : x = y := BitVec.eq_of_toNat_eq (by omega)
          rw [hword, ih (Nat.succ.inj h) hrest]

theorem toNat_inj {a b : BaseUint WIDTH} (h : a.toNat = b.toNat) : a = b := by
  obtain ⟨pn, hpn⟩ := a
  obtain ⟨pn', hpn'⟩ := b
  obtain rfl : pn = pn' := val_inj (hpn.trans hpn'.symm) h
  rfl

/-! ## Words of 64 bits -/

end BaseUint

end Agrarian
