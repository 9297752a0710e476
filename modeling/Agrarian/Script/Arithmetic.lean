import Agrarian.Script.Interpreter

/-!
# Script arithmetic

The numeric operations of `EvalScript` compute the numbers they name.  An operand has
four bytes at most, so nothing overflows 64 bits, and a result takes five bytes.
-/

namespace Agrarian.Script

open Agrarian.Lib Opcode CScriptNum

def boolValue (b : Bool) : Int := if b then 1 else 0

/-- What an operation on one number stands for. -/
def numeric1Value (opcode : Opcode) (x : Int) : Int :=
  match opcode with
  | OP_1ADD => x + 1
  | OP_1SUB => x - 1
  | OP_NEGATE => -x
  | OP_ABS => |x|
  | OP_NOT => boolValue (x = 0)
  | _ => boolValue (x ≠ 0)

/-- What an operation on two numbers stands for. -/
def numeric2Value (opcode : Opcode) (x y : Int) : Int :=
  match opcode with
  | OP_ADD => x + y
  | OP_SUB => x - y
  | OP_BOOLAND => boolValue (x ≠ 0 ∧ y ≠ 0)
  | OP_BOOLOR => boolValue (x ≠ 0 ∨ y ≠ 0)
  | OP_NUMEQUAL | OP_NUMEQUALVERIFY => boolValue (x = y)
  | OP_NUMNOTEQUAL => boolValue (x ≠ y)
  | OP_LESSTHAN => boolValue (x < y)
  | OP_GREATERTHAN => boolValue (y < x)
  | OP_LESSTHANOREQUAL => boolValue (x ≤ y)
  | OP_GREATERTHANOREQUAL => boolValue (y ≤ x)
  | OP_MIN => min x y
  | _ => max x y

theorem m_value_ofInt {n : Int} (h : FitsInt64 n) : (ofInt n).m_value = n :=
  int64_eq_self h

theorem m_value_ofBool (b : Bool) : (ofBool b).m_value = boolValue b := by
  cases b with
  | false => rfl
  | true => rfl

theorem natAbs_boolValue_lt (b : Bool) : (boolValue b).natAbs < 2 ^ 32 := by
  cases b with
  | false => decide
  | true => decide

/-- The assertions leave no room for an overflow. -/
theorem m_value_addAssign {a r : CScriptNum} {rhs : Int} (h : a.addAssign rhs = some r) :
    r.m_value = a.m_value + rhs := by
  have hfits := a.fits
  unfold FitsInt64 at hfits
  unfold addAssign at h
  split at h
  · cases h
    refine m_value_ofInt ?_
    unfold FitsInt64
    omega
  · cases h

theorem m_value_subAssign {a r : CScriptNum} {rhs : Int} (h : a.subAssign rhs = some r) :
    r.m_value = a.m_value - rhs := by
  have hfits := a.fits
  unfold FitsInt64 at hfits
  unfold subAssign at h
  split at h
  · cases h
    refine m_value_ofInt ?_
    unfold FitsInt64
    omega
  · cases h

theorem m_value_neg {a r : CScriptNum} (h : a.neg = some r) : r.m_value = -a.m_value := by
  have hfits := a.fits
  unfold FitsInt64 at hfits
  unfold neg at h
  split at h
  · cases h
    refine m_value_ofInt ?_
    unfold FitsInt64
    omega
  · cases h

theorem numeric1_eq {opcode : Opcode} {a r : CScriptNum} (h : numeric1 opcode a = some r) :
    r.m_value = numeric1Value opcode a.m_value := by
  cases opcode with
  | OP_1ADD => exact m_value_addAssign h
  | OP_1SUB => exact m_value_subAssign h
  | OP_NEGATE => exact m_value_neg h
  | OP_ABS =>
      unfold numeric1 at h
      dsimp only at h
      split at h
      · next hneg =>
          rw [m_value_neg h]
          exact (abs_of_neg hneg).symm
      · next hneg =>
          cases h
          exact (abs_of_nonneg (Int.not_lt.mp hneg)).symm
  | OP_NOT | OP_0NOTEQUAL =>
      cases h
      exact m_value_ofBool _
  | _ => cases h

section Operands

variable {a b : CScriptNum} (ha : a.m_value.natAbs < 2 ^ 31) (hb : b.m_value.natAbs < 2 ^ 31)
include ha

theorem natAbs_numeric1Value_lt (opcode : Opcode) :
    (numeric1Value opcode a.m_value).natAbs < 2 ^ 32 := by
  unfold numeric1Value
  split
  · omega
  · omega
  · omega
  · rw [Int.natAbs_abs]
    omega
  · exact natAbs_boolValue_lt _
  · exact natAbs_boolValue_lt _

include hb

theorem numeric2_eq {opcode : Opcode} {r : CScriptNum} (h : numeric2 opcode a b = some r) :
    r.m_value = numeric2Value opcode a.m_value b.m_value := by
  cases opcode with
  | OP_ADD | OP_SUB =>
      cases h
      refine m_value_ofInt ?_
      unfold FitsInt64
      omega
  | OP_BOOLAND | OP_BOOLOR | OP_NUMEQUAL | OP_NUMEQUALVERIFY | OP_NUMNOTEQUAL | OP_LESSTHAN
  | OP_GREATERTHAN | OP_LESSTHANOREQUAL | OP_GREATERTHANOREQUAL =>
      cases h
      exact m_value_ofBool _
  | OP_MIN =>
      cases h
      show (if _ then a else b).m_value = min a.m_value b.m_value
      split
      · next hlt => exact (min_eq_left hlt.le).symm
      · next hlt => exact (min_eq_right (Int.not_lt.mp hlt)).symm
  | OP_MAX =>
      cases h
      show (if _ then a else b).m_value = max a.m_value b.m_value
      split
      · next hlt => exact (max_eq_left (le_of_lt hlt)).symm
      · next hlt => exact (max_eq_right (Int.not_lt.mp hlt)).symm
  | _ => cases h

theorem natAbs_numeric2Value_lt (opcode : Opcode) :
    (numeric2Value opcode a.m_value b.m_value).natAbs < 2 ^ 32 := by
  cases opcode with
  | OP_ADD =>
      show (a.m_value + b.m_value).natAbs < 2 ^ 32
      omega
  | OP_SUB =>
      show (a.m_value - b.m_value).natAbs < 2 ^ 32
      omega
  | OP_BOOLAND | OP_BOOLOR | OP_NUMEQUAL | OP_NUMEQUALVERIFY | OP_NUMNOTEQUAL | OP_LESSTHAN
  | OP_GREATERTHAN | OP_LESSTHANOREQUAL | OP_GREATERTHANOREQUAL =>
      exact natAbs_boolValue_lt _
  | OP_MIN =>
      show (min a.m_value b.m_value).natAbs < 2 ^ 32
      omega
  | _ =>
      show (max a.m_value b.m_value).natAbs < 2 ^ 32
      omega

end Operands

/-- A result is written with five bytes. -/
theorem length_getvch_le_five {a : CScriptNum} (h : a.m_value.natAbs < 2 ^ 32) :
    a.getvch.length ≤ 5 := by
  refine length_serialize_le (by decide) ?_
  omega

theorem isSome_ofVch_iff {vch : List UInt8} {nMaxNumSize : Nat} (h : vch.length ≤ nMaxNumSize) :
    (ofVch vch true nMaxNumSize).isSome ↔ vch = serialize (setVch vch) := by
  unfold ofVch
  rw [if_neg (Nat.not_lt.mpr h)]
  by_cases hvch : vch = []
  · rw [hvch]
    exact iff_of_true rfl rfl
  · have hpos : 0 < vch.length := List.length_pos_iff.mpr hvch
    rw [serialize_setVch_iff hvch, decide_eq_true hpos, Bool.true_and, Bool.true_and]
    cases isPadded vch with
    | false => simp
    | true => simp

theorem ofVch_serialize {n : Int} (hfits : FitsInt64 n) (hmin : n ≠ -2 ^ 63)
    (fRequireMinimal : Bool) :
    ∃ a, ofVch (serialize n) fRequireMinimal 8 = some a ∧ a.m_value = n := by
  have hlength : (serialize n).length ≤ 8 := by
    refine length_serialize_le (by decide) ?_
    unfold FitsInt64 at hfits
    omega
  have hminimal : (decide ((serialize n).length > 0) && isPadded (serialize n)) = false := by
    by_cases hn : n = 0
    · rw [hn]
      rfl
    · rw [isPadded_serialize hn, Bool.and_false]
  refine ⟨ofInt n, ?_, m_value_ofInt hfits⟩
  rw [ofVch, if_neg (Nat.not_lt.mpr hlength), Bool.and_assoc, hminimal, Bool.and_false,
    if_neg Bool.false_ne_true, setVch_serialize]

/-- **The numbers of scripts.**  With the check for minimal vectors just the written ones are
read, every number but the least is read as it was written, and arithmetic on four bytes is
exact and has results of five. -/
theorem scriptNum_canonical :
    (∀ nMaxNumSize ≤ 8, ∀ vch : List UInt8, vch.length ≤ nMaxNumSize →
      ((ofVch vch true nMaxNumSize).isSome ↔ vch = serialize (setVch vch))) ∧
    (∀ n, FitsInt64 n → n ≠ -2 ^ 63 → ∀ fRequireMinimal,
      ∃ a, ofVch (serialize n) fRequireMinimal 8 = some a ∧ a.m_value = n) ∧
    (∀ fRequireMinimal vch a, ofVch vch fRequireMinimal nDefaultMaxNumSize = some a →
      ∀ opcode r, numeric1 opcode a = some r →
        r.m_value = numeric1Value opcode a.m_value ∧ r.getvch.length ≤ 5) ∧
    (∀ fRequireMinimal vch1 vch2 a b,
      ofVch vch1 fRequireMinimal nDefaultMaxNumSize = some a →
      ofVch vch2 fRequireMinimal nDefaultMaxNumSize = some b →
      ∀ opcode r, numeric2 opcode a b = some r →
        r.m_value = numeric2Value opcode a.m_value b.m_value ∧ r.getvch.length ≤ 5) := by
  refine ⟨fun _ _ vch h => isSome_ofVch_iff h, fun n => ofVch_serialize, ?_, ?_⟩
  · intro fRequireMinimal vch a ha opcode r hr
    have hvalue := numeric1_eq hr
    refine ⟨hvalue, length_getvch_le_five ?_⟩
    rw [hvalue]
    exact natAbs_numeric1Value_lt (natAbs_lt_of_ofVch ha) opcode
  · intro fRequireMinimal vch1 vch2 a b ha hb opcode r hr
    have hvalue := numeric2_eq (natAbs_lt_of_ofVch ha) (natAbs_lt_of_ofVch hb) hr
    refine ⟨hvalue, length_getvch_le_five ?_⟩
    rw [hvalue]
    exact natAbs_numeric2Value_lt (natAbs_lt_of_ofVch ha) (natAbs_lt_of_ofVch hb) opcode

theorem scriptNum_canonical_bytes :
    ((ofVch [0x7f, 0x80] true 4).isSome ↔ [0x7f, 0x80] = serialize (setVch [0x7f, 0x80])) ∧
      (∃ a, ofVch (serialize (-255)) true 8 = some a ∧ a.m_value = -255) ∧
      (ofInt 128).m_value = numeric1Value OP_1ADD (ofInt 127).m_value ∧
      (ofInt (-1)).m_value = numeric2Value OP_SUB (ofInt 127).m_value (ofInt 128).m_value :=
  ⟨scriptNum_canonical.1 4 (by decide) _ (by decide),
    scriptNum_canonical.2.1 (-255) (by decide) (by decide) true,
    (scriptNum_canonical.2.2.1 true [0x7f] (ofInt 127) rfl OP_1ADD _ rfl).1,
    (scriptNum_canonical.2.2.2 true [0x7f] [0x80, 0x00] (ofInt 127) (ofInt 128) rfl rfl
      OP_SUB _ rfl).1⟩

end Agrarian.Script
