import Mathlib

/-!
# Signed machine integers

A signed integer of 32 or 64 bits holds a number up to multiples of `2 ^ 32`
or `2 ^ 64`.  A sum that is wrapped at every step is the wrapped sum, so it is
exact as soon as the sum itself fits, whatever the partial sums do.
-/

namespace Agrarian.Lib

/-- The value of a 32-bit `int`. -/
def int32 (x : Int) : Int := x.bmod (2 ^ 32)

/-- The value of a 64-bit `int64_t`. -/
def int64 (x : Int) : Int := x.bmod (2 ^ 64)

theorem int32_range (x : Int) : -2 ^ 31 ≤ int32 x ∧ int32 x < 2 ^ 31 := by
  have hlow := Int.le_bmod (x := x) (m := 2 ^ 32) (by decide)
  have hhigh := Int.bmod_lt (x := x) (m := 2 ^ 32) (by decide)
  unfold int32
  omega

theorem int32_eq_self {x : Int} (hlow : -2 ^ 31 ≤ x) (hhigh : x < 2 ^ 31) :
    int32 x = x := by
  apply Int.bmod_eq_of_le
  · omega
  · omega

/-- A number in the range of `int64_t`. -/
def FitsInt64 (x : Int) : Prop := -2 ^ 63 ≤ x ∧ x < 2 ^ 63

instance (x : Int) : Decidable (FitsInt64 x) :=
  inferInstanceAs (Decidable (_ ∧ _))

theorem fitsInt64_int64 (x : Int) : FitsInt64 (int64 x) := by
  have hlow := Int.le_bmod (x := x) (m := 2 ^ 64) (by decide)
  have hhigh := Int.bmod_lt (x := x) (m := 2 ^ 64) (by decide)
  unfold FitsInt64 int64
  omega

theorem int64_eq_self {x : Int} (h : FitsInt64 x) : int64 x = x := by
  unfold FitsInt64 at h
  apply Int.bmod_eq_of_le
  · omega
  · omega

theorem int64_eq_self_iff {x : Int} : int64 x = x ↔ FitsInt64 x := by
  constructor
  · intro h
    rw [← h]
    exact fitsInt64_int64 x
  · exact int64_eq_self

@[simp] theorem int64_int64 (x : Int) : int64 (int64 x) = int64 x :=
  int64_eq_self (fitsInt64_int64 x)

@[simp] theorem int64_add_left (x y : Int) :
    int64 (int64 x + y) = int64 (x + y) := Int.bmod_add_bmod

@[simp] theorem int64_add_right (x y : Int) :
    int64 (x + int64 y) = int64 (x + y) := Int.add_bmod_bmod

@[simp] theorem int64_sub_left (x y : Int) :
    int64 (int64 x - y) = int64 (x - y) := Int.bmod_sub_bmod

@[simp] theorem int64_sub_right (x y : Int) :
    int64 (x - int64 y) = int64 (x - y) := Int.sub_bmod_bmod

/-- What wraps around leaves the range by less than `2 ^ 64`, so a number
below `3 * 2 ^ 63` that is kept non-negative did fit. -/
theorem fitsInt64_of_nonneg {x : Int} (hlow : -2 ^ 63 ≤ x)
    (hhigh : x < 2 ^ 64) (h : 0 ≤ int64 x) : FitsInt64 x := by
  refine ⟨hlow, ?_⟩
  by_contra hbig
  have hwrap : int64 x = x - 2 ^ 64 := by
    unfold int64
    rw [Int.bmod_def]
    split
    · omega
    · omega
  omega

theorem int64_le_self {x : Int} (h : -2 ^ 63 ≤ x) : int64 x ≤ x := by
  unfold int64
  rw [Int.bmod_def]
  split
  · omega
  · omega

end Agrarian.Lib
