import Agrarian.Lib.ByteCodec

/-!
# Sets of bits in a vector of bytes

Bit `i` of a vector is bit `i % 8` of byte `i / 8`.  Setting a bit and the bitwise or of two
vectors only add bits.

## Main results

* `hasBit_addBit` — a bit that is set is there, and so are the others.
* `hasBit_orBytes` — the or of two vectors has the bits of both.
* `not_hasBit_of_zero` — the vector without bits.
-/

namespace Agrarian.Lib.PackedBits

open Agrarian.Lib.ByteCodec

/-- The bit is set; a bit behind the end is not. -/
def hasBit (v : List UInt8) (i : Nat) : Bool := (v[i / 8]?).any fun b => bitAt b (i % 8)

/-- Sets a bit, if the vector reaches that far. -/
def addBit (v : List UInt8) (i : Nat) : Option (List UInt8) :=
  (v[i / 8]?).map fun b => v.set (i / 8) (setBit b (i % 8) true)

def orBytes (v w : List UInt8) : List UInt8 := List.zipWith (fun b c => b ||| c) v w

section AddBit

variable {v w : List UInt8} {i : Nat}

theorem exists_addBit (h : i < 8 * v.length) : ∃ w, addBit v i = some w := by
  have hlt : i / 8 < v.length := by omega
  rw [addBit, List.getElem?_eq_getElem hlt]
  exact ⟨_, rfl⟩

theorem length_addBit (h : addBit v i = some w) : w.length = v.length := by
  obtain ⟨b, -, rfl⟩ := Option.map_eq_some_iff.mp h
  exact List.length_set

/-- Setting a bit changes no other. -/
theorem hasBit_addBit (h : addBit v i = some w) (j : Nat) :
    hasBit w j = (hasBit v j || decide (i = j)) := by
  obtain ⟨b, hb, rfl⟩ := Option.map_eq_some_iff.mp h
  have hlt : i / 8 < v.length := (List.getElem?_eq_some_iff.mp hb).1
  by_cases hbyte : i / 8 = j / 8
  · rw [hasBit, hasBit, ← hbyte, List.getElem?_set_self hlt, hb, Option.any_some, Option.any_some,
      bitAt_setBit b true (Nat.mod_lt j (by decide)), Bool.true_and]
    have hiff : i % 8 = j % 8 ↔ i = j := by omega
    rw [decide_eq_decide.mpr hiff]
  · have hne : i ≠ j := fun heq => hbyte (heq ▸ rfl)
    rw [hasBit, hasBit, List.getElem?_set_ne hbyte, decide_eq_false hne, Bool.or_false]

end AddBit

theorem bitAt_or (b c : UInt8) (i : Nat) : bitAt (b ||| c) i = (bitAt b i || bitAt c i) := by
  rw [bitAt_eq_testBit, bitAt_eq_testBit, bitAt_eq_testBit, UInt8.toNat_or, Nat.testBit_or]

theorem hasBit_orBytes {v w : List UInt8} (h : v.length = w.length) (i : Nat) :
    hasBit (orBytes v w) i = (hasBit v i || hasBit w i) := by
  unfold hasBit orBytes
  rw [List.getElem?_zipWith]
  by_cases hlt : i / 8 < v.length
  · rw [List.getElem?_eq_getElem hlt, List.getElem?_eq_getElem (h ▸ hlt)]
    exact bitAt_or _ _ _
  · rw [List.getElem?_eq_none (Nat.le_of_not_lt hlt),
      List.getElem?_eq_none (h ▸ Nat.le_of_not_lt hlt)]
    rfl

theorem length_orBytes {v w : List UInt8} (h : v.length = w.length) :
    (orBytes v w).length = v.length := by
  rw [orBytes, List.length_zipWith, h, Nat.min_self]

theorem not_hasBit_of_zero {v : List UInt8} (h : v.all (· == 0) = true) (i : Nat) :
    hasBit v i = false := by
  unfold hasBit
  cases hbyte : v[i / 8]? with
  | none => rfl
  | some b =>
      have hzero : b = 0 := by
        simpa using List.all_eq_true.mp h b (List.mem_of_getElem? hbyte)
      rw [hzero]
      exact bitAt_zero _

end Agrarian.Lib.PackedBits
