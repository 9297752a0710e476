import Mathlib

/-!
# Powers modulo a number

Powers with integer exponents as libraries for big integers compute them: a negative exponent
inverts the base, and fails where there is no inverse.  Of a number that stands for a unit they
are the powers in the group of units, which its least residues represent.
-/

namespace Agrarian.Lib

/-- The inverse of a number modulo another, if there is one. -/
def invMod (x : Int) (m : Nat) : Option Int :=
  if x.gcd m = 1 then some (x.gcdA m % m) else none

/-- A power modulo a number. -/
def powMod (x e : Int) (m : Nat) : Option Int :=
  if 0 ≤ e then some (x ^ e.toNat % m)
  else (invMod x m).map fun y => y ^ (-e).toNat % m

/-- The product of some powers, each of which is reduced. -/
def powers (m : Nat) : List (Int × Int) → Option Int
  | [] => some 1
  | (x, e) :: rest => (powMod x e m).bind fun y => (powers m rest).map fun z => y * z

def powersMod (m : Nat) (l : List (Int × Int)) : Option Int := (powers m l).map (· % m)

variable {m : Nat}

theorem invMod_spec {x : Int} (h : x.gcd m = 1) :
    ∃ y k, invMod x m = some y ∧ x * y = 1 + m * k := by
  have hbezout := Int.gcd_eq_gcd_ab x m
  have hdiv := Int.emod_add_mul_ediv (x.gcdA m) m
  rw [h, Nat.cast_one] at hbezout
  refine ⟨_, -(x.gcdB m + x * (x.gcdA m / m)), if_pos h, ?_⟩
  linear_combination x * hdiv - hbezout

/-- The least residue of a unit. -/
def residue (u : (ZMod m)ˣ) : Int := ((u : ZMod m).val : Int)

/-- The number is a representative of the unit. -/
def StandsFor (x : Int) (u : (ZMod m)ˣ) : Prop := (x : ZMod m) = u

theorem exists_unit {x : Int} (h : x.gcd m = 1) : ∃ u : (ZMod m)ˣ, StandsFor x u := by
  have hunit : IsUnit (x : ZMod m) :=
    (ZMod.coe_int_isUnit_iff_isCoprime x m).mpr (Int.isCoprime_iff_gcd_eq_one.mpr h).symm
  exact ⟨hunit.unit, hunit.unit_spec.symm⟩

theorem gcd_eq_one {x : Int} {u : (ZMod m)ˣ} (h : StandsFor x u) : x.gcd m = 1 := by
  have hunit : IsUnit (x : ZMod m) := h ▸ u.isUnit
  exact Int.isCoprime_iff_gcd_eq_one.mp ((ZMod.coe_int_isUnit_iff_isCoprime x m).mp hunit).symm

theorem StandsFor.mul {x y : Int} {u v : (ZMod m)ˣ} (hx : StandsFor x u)
    (hy : StandsFor y v) : StandsFor (x * y) (u * v) := by
  unfold StandsFor at *
  push_cast
  rw [hx, hy]

/-- A number with a power equal to one stands for a unit. -/
theorem exists_unit_of_pow (hm : 1 < m) {x : Int} {n : Nat} (hn : 0 < n)
    (h : powMod x n m = some 1) : ∃ u : (ZMod m)ˣ, StandsFor x u ∧ u ^ n = 1 := by
  rw [powMod, if_pos (Int.natCast_nonneg n), Int.toNat_natCast, Option.some_inj] at h
  have hpow : (x : ZMod m) ^ n = 1 := by
    have hmod : x ^ n % m = 1 % m := by
      rw [h]
      exact (Int.emod_eq_of_lt (by decide) (by exact_mod_cast hm)).symm
    have hcast := (ZMod.intCast_eq_intCast_iff' (x ^ n) 1 m).mpr hmod
    push_cast at hcast
    exact hcast
  have hunit : IsUnit (x : ZMod m) := IsUnit.of_pow_eq_one hpow (by omega)
  have hvalue : (hunit.unit : ZMod m) = x := hunit.unit_spec
  refine ⟨hunit.unit, hvalue.symm, Units.ext ?_⟩
  rw [Units.val_pow_eq_pow_val, hvalue, hpow, Units.val_one]

/-- The powers can be computed, and their product stands for the unit. -/
def Product (m : Nat) (l : List (Int × Int)) (w : (ZMod m)ˣ) : Prop :=
  ∃ y, powers m l = some y ∧ StandsFor y w

theorem product_nil : Product m [] 1 := by
  have hone : StandsFor 1 (1 : (ZMod m)ˣ) := by
    unfold StandsFor
    push_cast
    rfl
  exact ⟨1, rfl, hone⟩

variable [NeZero m]

theorem standsFor_residue (u : (ZMod m)ˣ) : StandsFor (residue u) u := by
  rw [StandsFor, residue, Int.cast_natCast, ZMod.natCast_zmod_val]

/-- A number that stands for a unit is reduced to its residue. -/
theorem StandsFor.emod {x : Int} {u : (ZMod m)ˣ} (h : StandsFor x u) : x % m = residue u := by
  have hsame : (x : ZMod m) = (residue u : Int) := h.trans (standsFor_residue u).symm
  have hmod : x % m = residue u % m := (ZMod.intCast_eq_intCast_iff' x (residue u) m).mp hsame
  have hnonneg : 0 ≤ residue u := Int.natCast_nonneg _
  have hlt : residue u < m := Int.ofNat_lt.mpr (ZMod.val_lt (u : ZMod m))
  rw [hmod, Int.emod_eq_of_lt hnonneg hlt]

theorem residue_mul_emod (u v : (ZMod m)ˣ) : residue u * residue v % m = residue (u * v) :=
  ((standsFor_residue u).mul (standsFor_residue v)).emod

theorem invMod_eq {x : Int} {u : (ZMod m)ˣ} (h : StandsFor x u) :
    invMod x m = some (residue u⁻¹) := by
  have hcoprime := gcd_eq_one h
  have hbezout : (x : ZMod m) * (x.gcdA m : Int) = 1 := by
    have hab := Int.gcd_eq_gcd_ab x m
    rw [hcoprime] at hab
    have hcast := congrArg (fun n : Int => (n : ZMod m)) hab
    push_cast at hcast
    rw [ZMod.natCast_self, zero_mul, add_zero] at hcast
    exact hcast.symm
  rw [invMod, if_pos hcoprime]
  rw [show (x : ZMod m) = u from h] at hbezout
  exact congrArg some (StandsFor.emod (Units.eq_inv_of_mul_eq_one_left hbezout))

theorem powMod_eq {x : Int} {u : (ZMod m)ˣ} (h : StandsFor x u) (e : Int) :
    powMod x e m = some (residue (u ^ e)) := by
  have hpow : ∀ (y : Int) (v : (ZMod m)ˣ) (n : Nat), StandsFor y v →
      y ^ n % m = residue (v ^ n) := by
    intro y v n hy
    have hcast : StandsFor (y ^ n) (v ^ n) := by
      unfold StandsFor at *
      push_cast
      rw [hy]
    exact hcast.emod
  unfold powMod
  split
  · next hnonneg =>
      rw [hpow x u e.toNat h, ← zpow_natCast, Int.toNat_of_nonneg hnonneg]
  · next hneg =>
      rw [invMod_eq h, Option.map_some, hpow _ u⁻¹ _ (standsFor_residue _), ← zpow_natCast,
        Int.toNat_of_nonneg (by omega), inv_zpow', neg_neg]

theorem Product.cons {x e : Int} {l : List (Int × Int)} {u w : (ZMod m)ˣ}
    (hx : StandsFor x u) (hl : Product m l w) : Product m ((x, e) :: l) (u ^ e * w) := by
  rcases hl with ⟨y, hy, hw⟩
  have hpowers : powers m ((x, e) :: l) = some (residue (u ^ e) * y) := by
    rw [powers, powMod_eq hx, hy]
    rfl
  exact ⟨_, hpowers, (standsFor_residue _).mul hw⟩

theorem Product.mod {l : List (Int × Int)} {w : (ZMod m)ˣ} (h : Product m l w) :
    powersMod m l = some (residue w) := by
  rcases h with ⟨y, hy, hw⟩
  rw [powersMod, hy, Option.map_some, hw.emod]

end Agrarian.Lib
