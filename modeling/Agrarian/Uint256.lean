import Agrarian.Primitives

/-!
# Compact numbers

The part of `uint256.cpp` that packs a 256-bit number into 32 bits: a mantissa
of 23 bits and a length in bytes.  All other bits of the number are dropped.
-/

namespace Agrarian.Uint256

/-- The position of the highest bit, counted from 1. -/
def bits (v : Uint256) : Nat := if v = 0 then 0 else v.toNat.log2 + 1

/-- The mantissa and the length in bytes. -/
def compactParts (v : Uint256) : Nat × Nat :=
  let nSize := (bits v + 7) / 8
  let nCompact :=
    if nSize ≤ 3 then v.toNat <<< (8 * (3 - nSize))
    else v.toNat >>> (8 * (nSize - 3))
  -- a mantissa with the bit of the sign set is divided by 256
  if nCompact &&& 0x00800000 ≠ 0 then (nCompact >>> 8, nSize + 1)
  else (nCompact, nSize)

def getCompact (v : Uint256) (fNegative : Bool) : Nat :=
  let (nCompact, nSize) := compactParts v
  let nCompact := nCompact ||| nSize <<< 24
  nCompact ||| (if fNegative && nCompact &&& 0x007fffff != 0 then 0x00800000 else 0)

theorem bits_le (v : Uint256) : bits v ≤ 256 := by
  unfold bits
  split
  · omega
  · rename_i hne
    have hpos : v.toNat ≠ 0 := by
      intro hzero
      exact hne (BitVec.eq_of_toNat_eq hzero)
    have := (Nat.log2_lt hpos).mpr v.isLt
    omega

theorem lt_two_pow_bits (v : Uint256) : v.toNat < 2 ^ bits v := by
  unfold bits
  split
  · rename_i hzero
    simp [hzero]
  · exact Nat.lt_log2_self

/-- The assertions of `GetCompact` hold: the mantissa leaves the bit of the sign
free, and the length fits into a byte. -/
theorem compactParts_fits (v : Uint256) :
    (compactParts v).1 < 2 ^ 23 ∧ (compactParts v).2 ≤ 33 := by
  have hbits := bits_le v
  have hlt := lt_two_pow_bits v
  unfold compactParts
  generalize hsize : (bits v + 7) / 8 = nSize
  have hround : v.toNat < 2 ^ (8 * nSize) :=
    hlt.trans_le (Nat.pow_le_pow_right (by omega) (by omega))
  have hmantissa : (if nSize ≤ 3 then v.toNat <<< (8 * (3 - nSize))
      else v.toNat >>> (8 * (nSize - 3))) < 2 ^ 24 := by
    split
    · rename_i hsmall
      rw [Nat.shiftLeft_eq]
      calc v.toNat * 2 ^ (8 * (3 - nSize))
          < 2 ^ (8 * nSize) * 2 ^ (8 * (3 - nSize)) :=
            Nat.mul_lt_mul_of_pos_right hround (by positivity)
        _ = 2 ^ 24 := by
            rw [← Nat.pow_add]
            congr 1
            omega
    · rename_i hlarge
      rw [Nat.shiftRight_eq_div_pow]
      refine Nat.div_lt_of_lt_mul ?_
      rw [← Nat.pow_add]
      have hsum : 8 * (nSize - 3) + 24 = 8 * nSize := by omega
      rwa [hsum]
  dsimp only
  generalize (if nSize ≤ 3 then v.toNat <<< (8 * (3 - nSize))
    else v.toNat >>> (8 * (nSize - 3))) = nCompact at hmantissa ⊢
  have hsign : nCompact &&& 0x00800000 = (nCompact.testBit 23).toNat * 2 ^ 23 :=
    Nat.and_two_pow nCompact 23
  split
  · refine ⟨?_, by omega⟩
    rw [Nat.shiftRight_eq_div_pow]
    omega
  · rename_i hclear
    refine ⟨?_, by omega⟩
    have hbit : nCompact.testBit 23 = false := by
      by_contra hset
      simp [hsign, Bool.eq_true_of_not_eq_false hset] at hclear
    rw [Nat.testBit_eq_decide_div_mod_eq] at hbit
    simp only [decide_eq_false_iff_not] at hbit
    omega

end Agrarian.Uint256
