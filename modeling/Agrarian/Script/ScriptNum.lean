import Agrarian.Lib.Canonical
import Agrarian.Lib.MachineInt

/-!
# Script numbers

`CScriptNum` of `script/script.h`: an operand is read from at most four bytes of a
stack element (five for a lock time).  A result may take more bytes, as long as no
operation reads it again.  Negation and the two assigning operators assert that
they do not overflow.
-/

namespace Agrarian.Script

open Agrarian.Lib Agrarian.Lib.ByteCodec

/-! ## Values of vectors -/

/-- `CScriptNum::set_vch`; the highest bit of the last byte is the sign. -/
def setVch (vch : List UInt8) : Int :=
  if vch.isEmpty then 0
  else if vch.getLastD 0 &&& 0x80 ≠ 0 then
    -((ofLE vch % 2 ^ (8 * vch.length - 1) : Nat) : Int)
  else ofLE vch

/-- `CScriptNum::getint`: the value, cut off at the ends of an `int`. -/
def getint (m_value : Int) : Int :=
  if 2 ^ 31 - 1 < m_value then 2 ^ 31 - 1
  else if m_value < -2 ^ 31 then -2 ^ 31
  else m_value

/-! ## Numbers -/

/-- A script number is an `int64_t`. -/
structure CScriptNum where
  m_value : Int
  fits : FitsInt64 m_value

namespace CScriptNum

def nDefaultMaxNumSize : Nat := 4

/-- `CScriptNum(const int64_t&)`. -/
def ofInt (n : Int) : CScriptNum := ⟨int64 n, fitsInt64_int64 n⟩

/-- A number from the result of a comparison. -/
def ofBool (b : Bool) : CScriptNum := ofInt (if b then 1 else 0)

/-- The last byte is there for the sign only, and the byte before it does not need
it. -/
def isPadded (vch : List UInt8) : Bool :=
  vch.getLastD 0 &&& 0x7f == 0 &&
    (vch.length ≤ 1 || vch.getD (vch.length - 2) 0 &&& 0x80 == 0)

/-- `CScriptNum(vch, fRequireMinimal, nMaxNumSize)`, with `none` where it throws a
`scriptnum_error`. -/
def ofVch (vch : List UInt8) (fRequireMinimal : Bool) (nMaxNumSize : Nat) :
    Option CScriptNum :=
  if vch.length > nMaxNumSize then none
  else if fRequireMinimal && decide (vch.length > 0) && isPadded vch then none
  else some (ofInt (setVch vch))

/-- `operator+` and `operator-` on two numbers. -/
def add (a b : CScriptNum) : CScriptNum := ofInt (a.m_value + b.m_value)

def sub (a b : CScriptNum) : CScriptNum := ofInt (a.m_value - b.m_value)

/-- `operator-`, with `none` where the assertion fails. -/
def neg (a : CScriptNum) : Option CScriptNum :=
  if a.m_value ≠ -2 ^ 63 then some (ofInt (-a.m_value)) else none

/-- `operator+=`. -/
def addAssign (a : CScriptNum) (rhs : Int) : Option CScriptNum :=
  if rhs = 0 ∨ (rhs > 0 ∧ a.m_value ≤ 2 ^ 63 - 1 - rhs) ∨
      (rhs < 0 ∧ a.m_value ≥ -2 ^ 63 - rhs) then
    some (ofInt (a.m_value + rhs))
  else none

/-- `operator-=`. -/
def subAssign (a : CScriptNum) (rhs : Int) : Option CScriptNum :=
  if rhs = 0 ∨ (rhs > 0 ∧ a.m_value ≥ -2 ^ 63 + rhs) ∨
      (rhs < 0 ∧ a.m_value ≤ 2 ^ 63 - 1 + rhs) then
    some (ofInt (a.m_value - rhs))
  else none

/-- `serialize`: the bytes of the absolute value, and the sign in the highest bit. -/
def serialize (value : Int) : List UInt8 :=
  if value = 0 then []
  else
    let result := shortLE value.natAbs
    let back := result.getLastD 0
    if back &&& 0x80 ≠ 0 then result ++ [if value < 0 then 0x80 else 0]
    else if value < 0 then result.dropLast ++ [back ||| 0x80]
    else result

def getvch (a : CScriptNum) : List UInt8 := serialize a.m_value

/-! ## Bytes and signs -/

section Bytes

/-- What the sign adds to the last byte. -/
def signByte (neg : Bool) : UInt8 := if neg then 0x80 else 0

theorem or_signByte_and_sign : ∀ (b : UInt8) (neg : Bool), b &&& 0x80 = 0 →
    ((b ||| signByte neg) &&& 0x80 ≠ 0 ↔ neg) := by
  decide +kernel

theorem or_signByte_and_rest : ∀ (b : UInt8) (neg : Bool), b &&& 0x80 = 0 →
    (b ||| signByte neg) &&& 0x7f = b := by
  decide +kernel

theorem rest_or_signByte : ∀ b : UInt8, (b &&& 0x7f) ||| signByte (b &&& 0x80 != 0) = b := by
  decide +kernel

theorem rest_and_sign : ∀ b : UInt8, (b &&& 0x7f) &&& 0x80 = 0 := by
  decide +kernel

theorem toNat_rest (b : UInt8) : (b &&& 0x7f).toNat = b.toNat % 128 := by
  rw [UInt8.toNat_and]
  exact Nat.and_two_pow_sub_one_eq_mod b.toNat 7

theorem sign_eq_zero_iff : ∀ b : UInt8, b &&& 0x80 = 0 ↔ b.toNat < 128 := by
  decide +kernel

end Bytes

/-! ## Writing -/

/-- A number whose absolute value leaves the highest bit free takes the sign there. -/
theorem serialize_of_free {value : Int} {bs : List UInt8} {b : UInt8} (hvalue : value ≠ 0)
    (hshort : shortLE value.natAbs = bs ++ [b]) (hb : b &&& 0x80 = 0) :
    serialize value = bs ++ [b ||| signByte (value < 0)] := by
  have hback : (bs ++ [b]).getLastD 0 = b := by simp
  rw [serialize, if_neg hvalue]
  dsimp only
  rw [hshort, hback, if_neg (not_not.mpr hb)]
  by_cases hneg : value < 0
  · rw [if_pos hneg, List.dropLast_concat, signByte, if_pos (decide_eq_true hneg)]
  · rw [if_neg hneg, signByte, if_neg (by simpa using hneg), UInt8.or_zero]

/-- Otherwise the sign takes a byte of its own. -/
theorem serialize_of_taken {value : Int} {bs : List UInt8} {b : UInt8} (hvalue : value ≠ 0)
    (hshort : shortLE value.natAbs = bs ++ [b]) (hb : b &&& 0x80 ≠ 0) :
    serialize value = (bs ++ [b]) ++ [signByte (value < 0)] := by
  have hback : (bs ++ [b]).getLastD 0 = b := by simp
  rw [serialize, if_neg hvalue]
  dsimp only
  rw [hshort, hback, if_pos hb, signByte]
  simp only [decide_eq_true_eq]

/-! ## Reading -/

/-- The absolute value of a vector with this last byte. -/
def magnitude (bs : List UInt8) (b : UInt8) : Nat :=
  ofLE bs + 256 ^ bs.length * (b &&& 0x7f).toNat

theorem magnitude_eq_mod (bs : List UInt8) (b : UInt8) :
    magnitude bs b = ofLE (bs ++ [b]) % 2 ^ (8 * (bs ++ [b]).length - 1) := by
  have hpow : 2 ^ (8 * (bs ++ [b]).length - 1) = 256 ^ bs.length * 128 := by
    have hlength : 8 * (bs ++ [b]).length - 1 = 8 * bs.length + 7 := by
      rw [List.length_append, List.length_singleton]
      omega
    rw [hlength, Nat.pow_add, Nat.pow_mul]
  have hlow : (ofLE bs + 256 ^ bs.length * b.toNat) % 256 ^ bs.length = ofLE bs := by
    rw [Nat.add_mul_mod_self_left, Nat.mod_eq_of_lt (ofLE_lt bs)]
  have hhigh : (ofLE bs + 256 ^ bs.length * b.toNat) / 256 ^ bs.length = b.toNat := by
    rw [Nat.add_mul_div_left _ _ (Nat.pow_pos (by decide)), Nat.div_eq_of_lt (ofLE_lt bs),
      Nat.zero_add]
  rw [hpow, Nat.mod_mul, ofLE_concat, hlow, hhigh, magnitude, toNat_rest]

/-- The value of a vector, by its last byte. -/
theorem setVch_concat (bs : List UInt8) (b : UInt8) :
    setVch (bs ++ [b]) =
      if b &&& 0x80 ≠ 0 then -(magnitude bs b : Int) else magnitude bs b := by
  have hne : (bs ++ [b]).isEmpty = false := by simp
  have hback : (bs ++ [b]).getLastD 0 = b := by simp
  rw [setVch, hne, if_neg Bool.false_ne_true, hback, ← magnitude_eq_mod]
  split
  · rfl
  · next hsign =>
      rw [not_not, sign_eq_zero_iff] at hsign
      rw [ofLE_concat, magnitude, toNat_rest, Nat.mod_eq_of_lt hsign]

/-- **What was written is read again.** -/
theorem setVch_serialize (value : Int) : setVch (serialize value) = value := by
  by_cases hvalue : value = 0
  · rw [hvalue]
    rfl
  · obtain ⟨bs, b, hshort, -⟩ := exists_shortLE_eq_concat (Int.natAbs_ne_zero.mpr hvalue)
    have habs : ofLE (bs ++ [b]) = value.natAbs := by rw [← hshort, ofLE_shortLE]
    by_cases hb : b &&& 0x80 = 0
    · have hmagnitude : magnitude bs (b ||| signByte (value < 0)) = value.natAbs := by
        rw [magnitude, or_signByte_and_rest b _ hb, ← ofLE_concat, habs]
      rw [serialize_of_free hvalue hshort hb, setVch_concat, hmagnitude]
      simp only [or_signByte_and_sign b _ hb, decide_eq_true_eq]
      split
      · omega
      · omega
    · have hmagnitude : magnitude (bs ++ [b]) (signByte (value < 0)) = value.natAbs := by
        have hrest := or_signByte_and_rest 0 (value < 0) rfl
        rw [UInt8.zero_or] at hrest
        rw [magnitude, hrest, habs]
        rfl
      have hsign := or_signByte_and_sign 0 (value < 0) rfl
      rw [UInt8.zero_or, decide_eq_true_eq] at hsign
      rw [serialize_of_taken hvalue hshort hb, setVch_concat, hmagnitude]
      simp only [hsign]
      split
      · omega
      · omega

/-! ## Shortest numbers -/

theorem isPadded_singleton (b : UInt8) : isPadded [b] = (b &&& 0x7f == 0) := by
  simp [isPadded]

theorem isPadded_concat (bs : List UInt8) (c b : UInt8) :
    isPadded (bs ++ [c] ++ [b]) = (b &&& 0x7f == 0 && c &&& 0x80 == 0) := by
  have hback : (bs ++ [c] ++ [b]).getLastD 0 = b := by simp
  have hlength : (bs ++ [c] ++ [b]).length = bs.length + 2 := by simp
  have hbefore : (bs ++ [c] ++ [b]).getD bs.length 0 = c := by simp
  rw [isPadded, hback, hlength, Nat.add_sub_cancel, hbefore]
  simp

/-- Without the sign the last byte is not zero, unless it is there for the sign. -/
theorem isPadded_eq_false_of_rest {bs : List UInt8} {b : UInt8} (hb : b &&& 0x7f ≠ 0) :
    isPadded (bs ++ [b]) = false := by
  have hback : (bs ++ [b]).getLastD 0 = b := by simp
  rw [isPadded, hback, beq_eq_false_iff_ne.mpr hb, Bool.false_and]

theorem isPadded_serialize {value : Int} (hvalue : value ≠ 0) :
    isPadded (serialize value) = false := by
  obtain ⟨bs, b, hshort, hb⟩ := exists_shortLE_eq_concat (Int.natAbs_ne_zero.mpr hvalue)
  by_cases hfree : b &&& 0x80 = 0
  · rw [serialize_of_free hvalue hshort hfree]
    refine isPadded_eq_false_of_rest ?_
    rwa [or_signByte_and_rest b _ hfree]
  · rw [serialize_of_taken hvalue hshort hfree, isPadded_concat,
      beq_eq_false_iff_ne.mpr hfree, Bool.and_false]

theorem natAbs_setVch_concat (bs : List UInt8) (b : UInt8) :
    (setVch (bs ++ [b])).natAbs = magnitude bs b := by
  rw [setVch_concat]
  split
  · omega
  · omega

/-- The sign of a vector whose number is not zero. -/
theorem decide_setVch_neg {bs : List UInt8} {b : UInt8} (h : setVch (bs ++ [b]) ≠ 0) :
    decide (setVch (bs ++ [b]) < 0) = (b &&& 0x80 != 0) := by
  rw [setVch_concat] at h ⊢
  by_cases hsign : b &&& 0x80 = 0
  · rw [if_neg (not_not.mpr hsign), bne_eq_false_iff_eq.mpr hsign, decide_eq_false_iff_not]
    omega
  · rw [if_pos hsign] at h ⊢
    rw [bne_iff_ne.mpr hsign, decide_eq_true_iff]
    omega

/-- The number of a vector is written with the same bytes, where these are not
padded. -/
theorem serialize_setVch {vch : List UInt8} (h : isPadded vch = false) :
    serialize (setVch vch) = vch := by
  rcases List.eq_nil_or_concat' vch with rfl | ⟨bs, b, rfl⟩
  · rfl
  · have habs := natAbs_setVch_concat bs b
    have hbyte := rest_or_signByte b
    by_cases hb : b &&& 0x7f = 0
    · rcases List.eq_nil_or_concat' bs with rfl | ⟨cs, c, rfl⟩
      · rw [List.nil_append, isPadded_singleton, hb] at h
        cases h
      · rw [isPadded_concat, hb] at h
        have hc : c &&& 0x80 ≠ 0 := by simpa using h
        have hne : c ≠ 0 := by
          rintro rfl
          exact hc rfl
        have hmagnitude : magnitude (cs ++ [c]) b = ofLE (cs ++ [c]) := by
          rw [magnitude, hb]
          rfl
        rw [hmagnitude] at habs
        have hshort : shortLE (setVch (cs ++ [c] ++ [b])).natAbs = cs ++ [c] := by
          rw [habs, shortLE_ofLE_concat cs hne]
        have hvalue := Int.natAbs_ne_zero.mp (ne_zero_of_shortLE hshort)
        rw [hb, UInt8.zero_or, ← decide_setVch_neg hvalue] at hbyte
        rw [serialize_of_taken hvalue hshort hc, hbyte]
    · have hmagnitude : magnitude bs b = ofLE (bs ++ [b &&& 0x7f]) := by
        rw [magnitude, ofLE_concat]
      rw [hmagnitude] at habs
      have hshort : shortLE (setVch (bs ++ [b])).natAbs = bs ++ [b &&& 0x7f] := by
        rw [habs, shortLE_ofLE_concat bs hb]
      have hvalue := Int.natAbs_ne_zero.mp (ne_zero_of_shortLE hshort)
      rw [← decide_setVch_neg hvalue] at hbyte
      rw [serialize_of_free hvalue hshort (rest_and_sign b), hbyte]

/-- **Minimal vectors** are the ones that are written. -/
theorem serialize_setVch_iff {vch : List UInt8} (hvch : vch ≠ []) :
    vch = serialize (setVch vch) ↔ isPadded vch = false := by
  constructor
  · intro h
    rw [h]
    refine isPadded_serialize fun hzero => hvch ?_
    rw [h, hzero]
    rfl
  · intro h
    exact (serialize_setVch h).symm

/-! ## Sizes -/

/-- The bytes of a number and the bit of its sign. -/
theorem length_serialize_le {value : Int} {k : Nat} (hk : 0 < k)
    (h : value.natAbs < 2 ^ (8 * k - 1)) : (serialize value).length ≤ k := by
  by_cases hvalue : value = 0
  · rw [hvalue]
    exact Nat.zero_le k
  · obtain ⟨bs, b, hshort, -⟩ := exists_shortLE_eq_concat (Int.natAbs_ne_zero.mpr hvalue)
    have hpow : 2 ^ (8 * k - 1) = 256 ^ (k - 1) * 128 := by
      have hexp : 8 * k - 1 = 8 * (k - 1) + 7 := by omega
      rw [hexp, Nat.pow_add, Nat.pow_mul]
    rw [hpow] at h
    have hlength : (bs ++ [b]).length ≤ k := by
      rw [← hshort, length_shortLE_le_iff]
      have hle : 256 ^ (k - 1) * 128 ≤ 256 ^ (k - 1) * 256 := Nat.mul_le_mul_left _ (by decide)
      have hsucc : 256 ^ k = 256 ^ (k - 1) * 256 := by
        rw [← Nat.pow_succ, Nat.succ_eq_add_one, Nat.sub_add_cancel hk]
      omega
    rw [List.length_append, List.length_singleton] at hlength
    by_cases hb : b &&& 0x80 = 0
    · rw [serialize_of_free hvalue hshort hb, List.length_append, List.length_singleton]
      exact hlength
    · rw [serialize_of_taken hvalue hshort hb]
      simp only [List.length_append, List.length_singleton]
      -- a last byte with its highest bit set leaves room for one more
      by_contra hlong
      obtain rfl : k = bs.length + 1 := by omega
      have hbyte := mt (sign_eq_zero_iff b).mpr hb
      have habs := ofLE_shortLE value.natAbs
      rw [hshort, ofLE_concat] at habs
      have hle : 256 ^ bs.length * 128 ≤ 256 ^ bs.length * b.toNat :=
        Nat.mul_le_mul_left _ (Nat.not_lt.mp hbyte)
      rw [Nat.add_sub_cancel] at h
      omega

/-- **Nine bytes** hold every number: eight of the absolute value and one for the
sign. -/
theorem length_getvch_le (a : CScriptNum) : a.getvch.length ≤ 9 := by
  refine length_serialize_le (by decide) ?_
  have hfits := a.fits
  unfold FitsInt64 at hfits
  omega

theorem natAbs_setVch_lt (vch : List UInt8) : (setVch vch).natAbs < 2 ^ (8 * vch.length - 1) := by
  rcases List.eq_nil_or_concat' vch with rfl | ⟨bs, b, rfl⟩
  · decide
  · rw [natAbs_setVch_concat, magnitude_eq_mod]
    exact Nat.mod_lt _ (Nat.pow_pos (by decide))

/-- A number of eight bytes at most is an `int64_t`. -/
theorem fits_setVch {vch : List UInt8} (h : vch.length ≤ 8) : FitsInt64 (setVch vch) := by
  have hlt := natAbs_setVch_lt vch
  have hpow : 2 ^ (8 * vch.length - 1) ≤ 2 ^ 63 := Nat.pow_le_pow_right (by decide) (by omega)
  unfold FitsInt64
  omega

/-- The number that is read from a vector of eight bytes at most. -/
theorem m_value_of_ofVch {vch : List UInt8} {fRequireMinimal : Bool} {nMaxNumSize : Nat}
    {a : CScriptNum} (hmax : nMaxNumSize ≤ 8)
    (h : ofVch vch fRequireMinimal nMaxNumSize = some a) :
    vch.length ≤ nMaxNumSize ∧ a.m_value = setVch vch := by
  unfold ofVch at h
  split at h
  · cases h
  · next hlength =>
      split at h
      · cases h
      · cases h
        have hle := Nat.le_of_not_lt hlength
        exact ⟨hle, int64_eq_self (fits_setVch (hle.trans hmax))⟩

/-- **An operand** of four bytes is below `2 ^ 31`. -/
theorem natAbs_lt_of_ofVch {vch : List UInt8} {fRequireMinimal : Bool} {a : CScriptNum}
    (h : ofVch vch fRequireMinimal nDefaultMaxNumSize = some a) :
    a.m_value.natAbs < 2 ^ 31 := by
  obtain ⟨hlength, hvalue⟩ := m_value_of_ofVch (by decide) h
  have hlt := natAbs_setVch_lt vch
  have hpow : 2 ^ (8 * vch.length - 1) ≤ 2 ^ 31 :=
    Nat.pow_le_pow_right (by decide) (Nat.sub_le_sub_right (Nat.mul_le_mul_left 8 hlength) 1)
  rw [hvalue]
  omega

/-! ## Assertions -/

section Assertions

variable {a : CScriptNum} (h : a.m_value.natAbs < 2 ^ 31)
include h

theorem exists_neg : ∃ b, a.neg = some b := by
  refine ⟨_, if_pos ?_⟩
  omega

theorem exists_addAssign_one : ∃ b, a.addAssign 1 = some b := by
  refine ⟨_, if_pos ?_⟩
  omega

theorem exists_subAssign_one : ∃ b, a.subAssign 1 = some b := by
  refine ⟨_, if_pos ?_⟩
  omega

end Assertions

end CScriptNum

end Agrarian.Script
