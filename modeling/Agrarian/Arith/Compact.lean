import Agrarian.Arith.Operators

/-!
# The compact format

`SetCompact` and `GetCompact` of `uint256.cpp`: a number as a length in bytes
and a mantissa of three bytes whose highest bit is a sign.  The length decides
by how much the mantissa is shifted, and a mantissa that would reach the sign
bit takes a byte more of length.
-/

namespace Agrarian.Uint256

open Agrarian.Lib

/-! ## `SetCompact` -/

/-- What `SetCompact` sets. -/
structure Decoded where
  bn : Uint256
  fNegative : Bool
  fOverflow : Bool

/-- `nSize`. -/
def compactSize (nCompact : UInt32) : Nat := nCompact.toNat >>> 24

/-- `nWord`, after the shift of a short number. -/
def compactWord (nCompact : UInt32) : Nat :=
  let nWord := nCompact.toNat &&& 0x007fffff
  if compactSize nCompact ≤ 3 then nWord >>> (8 * (3 - compactSize nCompact)) else nWord

def setCompact (nCompact : UInt32) : Decoded :=
  let nSize := compactSize nCompact
  let nWord := compactWord nCompact
  { bn :=
      if nSize ≤ 3 then BitVec.ofNat 256 nWord
      else shiftLeft (BitVec.ofNat 256 nWord) (8 * (nSize - 3))
    fNegative := nWord ≠ 0 && nCompact.toNat &&& 0x00800000 ≠ 0
    fOverflow := nWord ≠ 0 && (34 < nSize || (0xff < nWord && 33 < nSize) ||
      (0xffff < nWord && 32 < nSize)) }

theorem compactSize_eq (nCompact : UInt32) :
    compactSize nCompact = nCompact.toNat / 2 ^ 24 := by
  rw [compactSize, Nat.shiftRight_eq_div_pow]

theorem compactWord_eq (nCompact : UInt32) :
    compactWord nCompact =
      nCompact.toNat % 2 ^ 23 / 2 ^ (8 * (3 - compactSize nCompact)) := by
  have hmask : nCompact.toNat &&& 0x007fffff = nCompact.toNat % 2 ^ 23 :=
    Nat.and_two_pow_sub_one_eq_mod nCompact.toNat 23
  rw [compactWord, hmask]
  split
  · rw [Nat.shiftRight_eq_div_pow]
  · rename_i hlarge
    have hzero : 8 * (3 - compactSize nCompact) = 0 := by omega
    rw [hzero, Nat.pow_zero, Nat.div_one]

theorem compactWord_lt (nCompact : UInt32) : compactWord nCompact < 2 ^ 23 := by
  rw [compactWord_eq]
  exact (Nat.div_le_self _ _).trans_lt (Nat.mod_lt _ (by decide))

/-- The highest bit of the mantissa. -/
theorem and_sign_ne_zero (n : Nat) : n &&& 0x00800000 ≠ 0 ↔ n / 2 ^ 23 % 2 = 1 := by
  have hand : n &&& 0x00800000 = (n.testBit 23).toNat * 2 ^ 23 := Nat.and_two_pow n 23
  rw [hand, Nat.testBit_eq_decide_div_mod_eq]
  simp

theorem fNegative_iff (nCompact : UInt32) :
    (setCompact nCompact).fNegative = true ↔
      compactWord nCompact ≠ 0 ∧ nCompact.toNat / 2 ^ 23 % 2 = 1 := by
  have hsign := and_sign_ne_zero nCompact.toNat
  simp only [setCompact, Bool.and_eq_true, decide_eq_true_eq]
  rw [hsign]

theorem fOverflow_iff (nCompact : UInt32) :
    (setCompact nCompact).fOverflow = true ↔
      compactWord nCompact ≠ 0 ∧ (34 < compactSize nCompact ∨
        (0xff < compactWord nCompact ∧ 33 < compactSize nCompact) ∨
        (0xffff < compactWord nCompact ∧ 32 < compactSize nCompact)) := by
  simp [setCompact, or_assoc]

theorem toNat_setCompact (nCompact : UInt32) :
    (setCompact nCompact).bn.toNat =
      compactWord nCompact * 2 ^ (8 * (compactSize nCompact - 3)) % 2 ^ 256 := by
  have hword := compactWord_lt nCompact
  simp only [setCompact]
  split
  · rename_i hsmall
    have hzero : 8 * (compactSize nCompact - 3) = 0 := by omega
    rw [BitVec.toNat_ofNat, hzero, Nat.pow_zero, Nat.mul_one]
  · rw [shiftLeft_eq, BitVec.toNat_shiftLeft, BitVec.toNat_ofNat,
      Nat.mod_eq_of_lt (by omega : compactWord nCompact < 2 ^ 256), Nat.shiftLeft_eq]

/-- Where `SetCompact` reports no overflow, nothing is shifted out. -/
theorem toNat_setCompact_of_fits {nCompact : UInt32}
    (h : (setCompact nCompact).fOverflow = false) :
    (setCompact nCompact).bn.toNat =
      compactWord nCompact * 2 ^ (8 * (compactSize nCompact - 3)) := by
  have hword := compactWord_lt nCompact
  have hcases := (fOverflow_iff nCompact).not
  rw [h] at hcases
  have hfits := hcases.mp (by decide)
  rw [toNat_setCompact]
  apply Nat.mod_eq_of_lt
  by_cases hzero : compactWord nCompact = 0
  · rw [hzero, Nat.zero_mul]
    decide
  -- the longer the number, the shorter the word may be
  have hclass : ∃ t, compactWord nCompact < 2 ^ t ∧
      t + 8 * (compactSize nCompact - 3) ≤ 256 := by
    by_cases hone : compactWord nCompact ≤ 0xff
    · exact ⟨8, by omega, by omega⟩
    · by_cases htwo : compactWord nCompact ≤ 0xffff
      · exact ⟨16, by omega, by omega⟩
      · exact ⟨23, hword, by omega⟩
  obtain ⟨t, hlt, htop⟩ := hclass
  calc compactWord nCompact * 2 ^ (8 * (compactSize nCompact - 3))
      < 2 ^ t * 2 ^ (8 * (compactSize nCompact - 3)) :=
        Nat.mul_lt_mul_of_pos_right hlt (by positivity)
    _ = 2 ^ (t + 8 * (compactSize nCompact - 3)) := by rw [Nat.pow_add]
    _ ≤ 2 ^ 256 := Nat.pow_le_pow_right (by omega) htop

/-! ## `GetCompact` -/

/-- A number with its three highest bytes out of `length` before the point. -/
def scale (v length : Nat) : Nat :=
  if length ≤ 3 then v * 2 ^ (8 * (3 - length)) else v / 2 ^ (8 * (length - 3))

/-- The length in bytes, with one more where the highest bit would be the
sign. -/
def compactLength (v : Uint256) : Nat := if v = 0 then 0 else bits v / 8 + 1

theorem scale_lt {v b : Nat} (length t : Nat) (hv : v < 2 ^ b) (h : b + 24 ≤ 8 * length + t) :
    scale v length < 2 ^ t := by
  unfold scale
  split
  · rename_i hshort
    calc v * 2 ^ (8 * (3 - length)) < 2 ^ b * 2 ^ (8 * (3 - length)) :=
          Nat.mul_lt_mul_of_pos_right hv (by positivity)
      _ = 2 ^ (b + 8 * (3 - length)) := by rw [Nat.pow_add]
      _ ≤ 2 ^ t := Nat.pow_le_pow_right (by omega) (by omega)
  · rename_i hlong
    apply Nat.div_lt_of_lt_mul
    rw [← Nat.pow_add]
    exact hv.trans_le (Nat.pow_le_pow_right (by omega) (by omega))

theorem le_scale {v b : Nat} (length t : Nat) (hv : 2 ^ b ≤ v) (h : 8 * length + t ≤ b + 24) :
    2 ^ t ≤ scale v length := by
  unfold scale
  split
  · rename_i hshort
    calc 2 ^ t ≤ 2 ^ (b + 8 * (3 - length)) := Nat.pow_le_pow_right (by omega) (by omega)
      _ = 2 ^ b * 2 ^ (8 * (3 - length)) := by rw [Nat.pow_add]
      _ ≤ v * 2 ^ (8 * (3 - length)) := Nat.mul_le_mul_right _ hv
  · rename_i hlong
    rw [Nat.le_div_iff_mul_le (by positivity), ← Nat.pow_add]
    exact (Nat.pow_le_pow_right (by omega) (by omega)).trans hv

theorem scale_mono {v w : Nat} (length : Nat) (h : v ≤ w) : scale v length ≤ scale w length := by
  unfold scale
  split
  · exact Nat.mul_le_mul_right _ h
  · exact Nat.div_le_div_right h

/-- One byte more of length is one byte less of mantissa. -/
theorem scale_div (v length : Nat) : scale v length / 2 ^ 8 = scale v (length + 1) := by
  unfold scale
  by_cases hshort : length + 1 ≤ 3
  · have hpow : (2 : Nat) ^ (8 * (3 - length)) = 2 ^ (8 * (3 - (length + 1))) * 2 ^ 8 := by
      rw [← Nat.pow_add]
      congr 1
      omega
    rw [if_pos (by omega), if_pos hshort, hpow, ← Nat.mul_assoc,
      Nat.mul_div_cancel _ (by decide)]
  · rw [if_neg hshort]
    by_cases hthree : length ≤ 3
    · have heq : length = 3 := by omega
      subst heq
      simp
    · rw [if_neg hthree, Nat.div_div_eq_div_mul, ← Nat.pow_add]
      congr 2
      omega

theorem le_of_bits {v : Uint256} (h : v ≠ 0) : 2 ^ (bits v - 1) ≤ v.toNat := by
  have hne : v.toNat ≠ 0 := fun hzero => h (BitVec.eq_of_toNat_eq hzero)
  rw [bits, if_neg h, Nat.add_sub_cancel]
  exact Nat.log2_self_le hne

theorem bits_pos {v : Uint256} (h : v ≠ 0) : 0 < bits v := by
  rw [bits, if_neg h]
  omega

theorem bits_mono {v w : Uint256} (h : v ≤ w) : bits v ≤ bits w := by
  by_contra hlt
  have hv : v ≠ 0 := by
    intro hzero
    rw [hzero, bits, if_pos rfl] at hlt
    omega
  have hlow := le_of_bits hv
  have hhigh := lt_two_pow_bits w
  have hpow : (2 : Nat) ^ bits w ≤ 2 ^ (bits v - 1) :=
    Nat.pow_le_pow_right (by omega) (by omega)
  rw [BitVec.le_def] at h
  omega

/-- **The mantissa is the number scaled by its length.** -/
theorem compactParts_eq (v : Uint256) :
    compactParts v = (scale v.toNat (compactLength v), compactLength v) := by
  by_cases hzero : v = 0
  · subst hzero
    rfl
  have hpos := bits_pos hzero
  have hlow := le_of_bits hzero
  have hhigh := lt_two_pow_bits v
  have hscale : (if (bits v + 7) / 8 ≤ 3 then v.toNat <<< (8 * (3 - (bits v + 7) / 8))
      else v.toNat >>> (8 * ((bits v + 7) / 8 - 3))) = scale v.toNat ((bits v + 7) / 8) := by
    unfold scale
    split
    · rw [Nat.shiftLeft_eq]
    · rw [Nat.shiftRight_eq_div_pow]
  have hlt : scale v.toNat ((bits v + 7) / 8) < 2 ^ 24 := scale_lt _ _ hhigh (by omega)
  unfold compactParts compactLength
  dsimp only
  rw [hscale, if_neg hzero]
  by_cases hfull : bits v % 8 = 0
  · -- the highest bit of the highest byte is set
    have hbyte : (bits v + 7) / 8 = bits v / 8 := by omega
    have hset : 2 ^ 23 ≤ scale v.toNat ((bits v + 7) / 8) := le_scale _ _ hlow (by omega)
    rw [if_pos ((and_sign_ne_zero _).mpr (by omega)), Nat.shiftRight_eq_div_pow, scale_div,
      hbyte]
  · have hbyte : (bits v + 7) / 8 = bits v / 8 + 1 := by omega
    have hclear : scale v.toNat ((bits v + 7) / 8) < 2 ^ 23 := scale_lt _ _ hhigh (by omega)
    have hsign := (and_sign_ne_zero (scale v.toNat ((bits v + 7) / 8))).not.mpr (by omega)
    rw [if_neg hsign, hbyte]

theorem compactLength_le (v : Uint256) : compactLength v ≤ 33 := by
  have hbits := bits_le v
  unfold compactLength
  split
  · omega
  · omega

theorem scale_compactLength_lt (v : Uint256) : scale v.toNat (compactLength v) < 2 ^ 23 := by
  have h := (compactParts_fits v).1
  rw [compactParts_eq] at h
  exact h

theorem getCompact_eq (v : Uint256) :
    getCompact v false = 2 ^ 24 * compactLength v + scale v.toNat (compactLength v) := by
  have hlt := scale_compactLength_lt v
  rw [getCompact, compactParts_eq]
  simp only [Bool.false_and, Bool.false_eq_true, if_false, Nat.or_zero]
  rw [Nat.or_comm, Nat.shiftLeft_eq, Nat.mul_comm,
    Nat.two_pow_add_eq_or_of_lt (by omega : scale v.toNat (compactLength v) < 2 ^ 24)]

theorem getCompact_lt (v : Uint256) : getCompact v false < 2 ^ 32 := by
  have hlt := scale_compactLength_lt v
  have hlen := compactLength_le v
  rw [getCompact_eq]
  omega

/-- The result of `GetCompact` in the type it has. -/
def getCompact32 (v : Uint256) : UInt32 := UInt32.ofNat (getCompact v false)

theorem toNat_getCompact32 (v : Uint256) : (getCompact32 v).toNat = getCompact v false := by
  rw [getCompact32, UInt32.toNat_ofNat', Nat.mod_eq_of_lt (getCompact_lt v)]

theorem compactSize_getCompact32 (v : Uint256) :
    compactSize (getCompact32 v) = compactLength v := by
  have hlt := scale_compactLength_lt v
  rw [compactSize_eq, toNat_getCompact32, getCompact_eq]
  omega

/-- What `SetCompact` reads from what `GetCompact` wrote. -/
theorem compactWord_getCompact32 (v : Uint256) :
    compactWord (getCompact32 v) =
      if compactLength v ≤ 3 then v.toNat else v.toNat / 2 ^ (8 * (compactLength v - 3)) := by
  have hlt := scale_compactLength_lt v
  have hmod : getCompact v false % 2 ^ 23 = scale v.toNat (compactLength v) := by
    rw [getCompact_eq]
    omega
  rw [compactWord_eq, compactSize_getCompact32, toNat_getCompact32, hmod]
  unfold scale
  split
  · rw [Nat.mul_div_cancel _ (by positivity)]
  · rename_i hlong
    have hzero : 8 * (3 - compactLength v) = 0 := by omega
    rw [hzero, Nat.pow_zero, Nat.div_one]

theorem not_negative_getCompact (v : Uint256) :
    (setCompact (getCompact32 v)).fNegative = false := by
  have hlt := scale_compactLength_lt v
  rw [Bool.eq_false_iff, ne_eq, fNegative_iff, toNat_getCompact32, getCompact_eq]
  omega

theorem compactWord_getCompact32_lt (v : Uint256) (t : Nat) (h : 256 + 24 ≤ 8 * compactLength v + t)
    (hlong : 3 < compactLength v) : compactWord (getCompact32 v) < 2 ^ t := by
  have hscale : scale v.toNat (compactLength v) < 2 ^ t := scale_lt _ _ v.isLt h
  rw [compactWord_getCompact32, if_neg (by omega)]
  rwa [scale, if_neg (by omega)] at hscale

theorem not_overflow_getCompact (v : Uint256) :
    (setCompact (getCompact32 v)).fOverflow = false := by
  have hlen := compactLength_le v
  rw [Bool.eq_false_iff, ne_eq, fOverflow_iff, compactSize_getCompact32]
  rintro ⟨_, hlong | ⟨_, hlong⟩ | ⟨hword, hlong⟩⟩
  · omega
  · omega
  · have := compactWord_getCompact32_lt v 16 (by omega) (by omega)
    omega

/-- The round trip clears the bytes below the mantissa. -/
theorem toNat_bn_getCompact (v : Uint256) :
    (setCompact (getCompact32 v)).bn.toNat =
      v.toNat / 2 ^ (8 * (compactLength v - 3)) * 2 ^ (8 * (compactLength v - 3)) := by
  rw [toNat_setCompact_of_fits (not_overflow_getCompact v), compactSize_getCompact32,
    compactWord_getCompact32]
  split
  · rename_i hshort
    have hzero : 8 * (compactLength v - 3) = 0 := by omega
    rw [hzero, Nat.pow_zero, Nat.div_one]
  · rfl

theorem compactLength_mono {v w : Uint256} (h : v ≤ w) : compactLength v ≤ compactLength w := by
  have hbits := bits_mono h
  unfold compactLength
  by_cases hv : v = 0
  · rw [if_pos hv]
    omega
  · have hw : w ≠ 0 := by
      intro hzero
      rw [hzero] at h
      exact hv (BitVec.le_zero_iff.mp h)
    rw [if_neg hv, if_neg hw]
    omega

theorem getCompact_mono {v w : Uint256} (h : v ≤ w) :
    getCompact v false ≤ getCompact w false := by
  have hlen := compactLength_mono h
  have hv := scale_compactLength_lt v
  rw [getCompact_eq, getCompact_eq]
  by_cases heq : compactLength v = compactLength w
  · have hscale := scale_mono (compactLength w) (BitVec.le_def.mp h)
    rw [heq]
    omega
  · omega

/-! ## Round trips -/

/-- The number of bytes. -/
def byteLength (v : Uint256) : Nat := (bits v + 7) / 8

/-- The highest bit of the highest byte, where the mantissa has its sign. -/
def signBit (v : Uint256) : Bool := v.toNat.testBit (8 * byteLength v - 1)

/-- How many bytes the mantissa has room for. -/
def mantissaBytes (v : Uint256) : Nat := if signBit v then 2 else 3

/-- The number with all but its `count` highest bytes cleared. -/
def topBytes (count : Nat) (v : Uint256) : Uint256 :=
  let low := 8 * (byteLength v - count)
  (v >>> low) <<< low

/-- A code with a full mantissa: three bytes of which the highest or the one
after it, with its highest bit, is in use, and nothing behind the point. -/
def Normalised (nCompact : UInt32) : Prop :=
  nCompact = 0 ∨
    (2 ^ 15 ≤ nCompact.toNat % 2 ^ 23 ∧
      2 ^ (8 * (3 - compactSize nCompact)) ∣ nCompact.toNat % 2 ^ 23)

instance (nCompact : UInt32) : Decidable (Normalised nCompact) :=
  inferInstanceAs (Decidable (_ ∨ _))

theorem signBit_iff {v : Uint256} (h : v ≠ 0) : signBit v = true ↔ bits v % 8 = 0 := by
  have hpos := bits_pos h
  have hlow := le_of_bits h
  have hhigh := lt_two_pow_bits v
  unfold signBit byteLength
  by_cases hfull : bits v % 8 = 0
  · have hbit : 8 * ((bits v + 7) / 8) - 1 = bits v - 1 := by omega
    have hdouble : (2 : Nat) ^ bits v = 2 * 2 ^ (bits v - 1) := by
      rw [← Nat.pow_succ']
      congr 1
      omega
    have hone : v.toNat / 2 ^ (bits v - 1) = 1 := by
      apply Nat.div_eq_of_lt_le
      · omega
      · omega
    rw [hbit, Nat.testBit_eq_decide_div_mod_eq, hone]
    simp [hfull]
  · have hclear : v.toNat.testBit (8 * ((bits v + 7) / 8) - 1) = false :=
      Nat.testBit_lt_two_pow
        (hhigh.trans_le (Nat.pow_le_pow_right (by omega) (by omega)))
    rw [hclear]
    simp [hfull]

theorem byteLength_sub (v : Uint256) :
    byteLength v - mantissaBytes v = compactLength v - 3 := by
  by_cases hzero : v = 0
  · subst hzero
    rfl
  have hpos := bits_pos hzero
  have hsign := signBit_iff hzero
  unfold mantissaBytes byteLength compactLength
  rw [if_neg hzero]
  split
  · rename_i hset
    rw [hsign] at hset
    omega
  · rename_i hclear
    rw [hsign] at hclear
    omega

/-- The round trip of a number keeps its highest bytes. -/
theorem bn_getCompact (v : Uint256) :
    (setCompact (getCompact32 v)).bn = topBytes (mantissaBytes v) v := by
  apply BitVec.eq_of_toNat_eq
  have hle := Nat.div_mul_le_self v.toNat (2 ^ (8 * (compactLength v - 3)))
  have hlt := v.isLt
  rw [toNat_bn_getCompact, topBytes, byteLength_sub, BitVec.toNat_shiftLeft,
    BitVec.toNat_ushiftRight, Nat.shiftRight_eq_div_pow, Nat.shiftLeft_eq,
    Nat.mod_eq_of_lt (by omega)]

theorem bn_getCompact_le (v : Uint256) : (setCompact (getCompact32 v)).bn ≤ v := by
  rw [BitVec.le_def, toNat_bn_getCompact]
  exact Nat.div_mul_le_self ..

theorem compactLength_of_scale {v : Uint256} {length : Nat}
    (hlow : 2 ^ 15 ≤ scale v.toNat length) (hhigh : scale v.toNat length < 2 ^ 23) :
    compactLength v = length := by
  have hne : v ≠ 0 := by
    intro hzero
    have hscale : scale (0 : Uint256).toNat length = 0 := by
      unfold scale
      simp
    rw [hzero, hscale] at hlow
    omega
  have hge : 8 * length ≤ bits v + 8 := by
    by_contra hlt
    have := scale_lt length 15 (lt_two_pow_bits v) (by omega)
    omega
  have hlt : bits v < 8 * length := by
    by_contra hge
    have := le_scale length 23 (le_of_bits hne) (by omega)
    omega
  unfold compactLength
  rw [if_neg hne]
  omega

/-- A code that is its own normal form comes back. -/
theorem getCompact_setCompact {nCompact : UInt32} (hnorm : Normalised nCompact)
    (hnegative : (setCompact nCompact).fNegative = false)
    (hoverflow : (setCompact nCompact).fOverflow = false) :
    getCompact32 (setCompact nCompact).bn = nCompact := by
  rcases hnorm with hzero | ⟨hfull, hbehind⟩
  · subst hzero
    rfl
  have hbn := toNat_setCompact_of_fits hoverflow
  have hword : compactWord nCompact * 2 ^ (8 * (3 - compactSize nCompact)) =
      nCompact.toNat % 2 ^ 23 := by
    rw [compactWord_eq, Nat.div_mul_cancel hbehind]
  have hscale : scale (setCompact nCompact).bn.toNat (compactSize nCompact) =
      nCompact.toNat % 2 ^ 23 := by
    unfold scale
    split
    · rename_i hshort
      have hnone : 8 * (compactSize nCompact - 3) = 0 := by omega
      rw [hbn, hnone, Nat.pow_zero, Nat.mul_one, hword]
    · rename_i hlong
      have hnone : 8 * (3 - compactSize nCompact) = 0 := by omega
      rw [hnone, Nat.pow_zero, Nat.mul_one] at hword
      rw [hbn, Nat.mul_div_cancel _ (by positivity), hword]
  have hlength : compactLength (setCompact nCompact).bn = compactSize nCompact := by
    apply compactLength_of_scale
    · omega
    · rw [hscale]
      exact Nat.mod_lt _ (by decide)
  have hsign : nCompact.toNat / 2 ^ 23 % 2 ≠ 1 := by
    intro hset
    have hne : compactWord nCompact ≠ 0 := by
      intro hzero
      rw [hzero, Nat.zero_mul] at hword
      omega
    have hflag := (fNegative_iff nCompact).mpr ⟨hne, hset⟩
    rw [hnegative] at hflag
    cases hflag
  apply UInt32.toNat_inj.mp
  rw [toNat_getCompact32, getCompact_eq, hlength, hscale, compactSize_eq]
  omega

/-- **The laws of the compact format.**  Encoding rounds a number down to the
bytes the mantissa has room for and keeps the order, and a normal code that
stands for a number is the code of that number. -/
theorem compact_laws :
    (∀ x : Uint256, (setCompact (getCompact32 x)).bn ≤ x ∧
      (setCompact (getCompact32 x)).fNegative = false ∧
      (setCompact (getCompact32 x)).fOverflow = false ∧
      (setCompact (getCompact32 x)).bn = topBytes (mantissaBytes x) x) ∧
    (∀ x y : Uint256, x ≤ y → getCompact32 x ≤ getCompact32 y) ∧
    (∀ c : UInt32, Normalised c → (setCompact c).fNegative = false →
      (setCompact c).fOverflow = false → getCompact32 (setCompact c).bn = c) := by
  refine ⟨fun x => ⟨bn_getCompact_le x, not_negative_getCompact x, not_overflow_getCompact x,
    bn_getCompact x⟩, ?_, ?_⟩
  · intro x y hle
    rw [UInt32.le_iff_toNat_le, toNat_getCompact32, toNat_getCompact32]
    exact getCompact_mono hle
  · intro c hnorm hnegative hoverflow
    exact getCompact_setCompact hnorm hnegative hoverflow

/-- The code of the limit of the main network, there and back. -/
theorem compact_laws_main :
    (setCompact (getCompact32 (BitVec.allOnes 256 >>> 20))).bn ≤ BitVec.allOnes 256 >>> 20 ∧
      getCompact32 (setCompact 0x1e0ffff0).bn = 0x1e0ffff0 :=
  ⟨(compact_laws.1 _).1,
    compact_laws.2.2 0x1e0ffff0 (by decide +kernel) (by decide +kernel) (by decide +kernel)⟩

end Agrarian.Uint256
