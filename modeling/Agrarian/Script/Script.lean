import Agrarian.Lib.ByteCodec
import Agrarian.Primitives

/-!
# The operations of a script

`GetOp2` of `script/script.h`, which takes the next operation off a script, the
script that pushes a vector, and `FindAndDelete`.  A position in a script is the
rest of the script from there on.
-/

namespace Agrarian.Script

open Agrarian.Lib.ByteCodec

def OP_0 : UInt8 := 0x00
def OP_PUSHDATA1 : UInt8 := 0x4c
def OP_PUSHDATA2 : UInt8 := 0x4d
def OP_PUSHDATA4 : UInt8 := 0x4e
def OP_1NEGATE : UInt8 := 0x4f
def OP_1 : UInt8 := 0x51
def OP_16 : UInt8 := 0x60

/-! ## Reading -/

/-- A size of so many bytes. -/
def readSize (nBytes : Nat) (pc : CScript) : Option (Nat × CScript) :=
  if pc.length < nBytes then none else some (ofLE (pc.take nBytes), pc.drop nBytes)

/-- The size of the immediate operand of a push. -/
def operandSize (opcode : UInt8) (pc : CScript) : Option (Nat × CScript) :=
  if opcode < OP_PUSHDATA1 then some (opcode.toNat, pc)
  else if opcode = OP_PUSHDATA1 then readSize 1 pc
  else if opcode = OP_PUSHDATA2 then readSize 2 pc
  else readSize 4 pc

/-- `GetOp2`: the opcode, what it pushes, and the position behind it. -/
def getOp2 : CScript → Option (UInt8 × List UInt8 × CScript)
  | [] => none
  | opcode :: pc =>
      if opcode ≤ OP_PUSHDATA4 then
        match operandSize opcode pc with
        | none => none
        | some (nSize, pc) =>
            if pc.length < nSize then none
            else some (opcode, pc.take nSize, pc.drop nSize)
      else some (opcode, [], pc)

theorem length_readSize_le {nBytes nSize : Nat} {pc pc' : CScript}
    (h : readSize nBytes pc = some (nSize, pc')) : pc'.length ≤ pc.length := by
  unfold readSize at h
  split at h
  · cases h
  · cases h
    rw [List.length_drop]
    exact Nat.sub_le _ _

theorem length_operandSize_le {opcode : UInt8} {nSize : Nat} {pc pc' : CScript}
    (h : operandSize opcode pc = some (nSize, pc')) : pc'.length ≤ pc.length := by
  unfold operandSize at h
  split at h
  · cases h
    exact Nat.le_refl _
  · split at h
    · exact length_readSize_le h
    · split at h
      · exact length_readSize_le h
      · exact length_readSize_le h

/-- An operation takes at least its opcode. -/
theorem length_getOp2_lt {pc pc' : CScript} {opcode : UInt8} {vch : List UInt8}
    (h : getOp2 pc = some (opcode, vch, pc')) : pc'.length < pc.length := by
  cases pc with
  | nil => cases h
  | cons first pc =>
      rw [getOp2] at h
      split at h
      · split at h
        · cases h
        · next nSize rest hsize =>
            have hrest := length_operandSize_le hsize
            split at h
            · cases h
            · cases h
              rw [List.length_drop, List.length_cons]
              omega
      · cases h
        exact Nat.lt_succ_self _

theorem suffix_of_readSize {nBytes nSize : Nat} {pc pc' : CScript}
    (h : readSize nBytes pc = some (nSize, pc')) : pc' <:+ pc := by
  unfold readSize at h
  split at h
  · cases h
  · cases h
    exact List.drop_suffix nBytes pc

theorem suffix_of_operandSize {opcode : UInt8} {nSize : Nat} {pc pc' : CScript}
    (h : operandSize opcode pc = some (nSize, pc')) : pc' <:+ pc := by
  unfold operandSize at h
  split at h
  · cases h
    exact List.suffix_refl pc
  · split at h
    · exact suffix_of_readSize h
    · split at h
      · exact suffix_of_readSize h
      · exact suffix_of_readSize h

/-- What an operation takes off: its opcode and the operand of a push. -/
theorem eq_of_getOp2 {pc pc' : CScript} {opcode : UInt8} {vch : List UInt8}
    (h : getOp2 pc = some (opcode, vch, pc')) :
    ∃ operand, pc = opcode :: (operand ++ pc') ∧ (OP_PUSHDATA4 < opcode → operand = []) := by
  cases pc with
  | nil => cases h
  | cons first pc =>
      rw [getOp2] at h
      split at h
      · next hpush =>
          split at h
          · cases h
          · next nSize rest hsize =>
              obtain ⟨size, rfl⟩ := suffix_of_operandSize hsize
              split at h
              · cases h
              · cases h
                refine ⟨size ++ rest.take nSize, ?_, fun hlt => ?_⟩
                · rw [List.append_assoc, List.take_append_drop]
                · exact absurd hpush (UInt8.not_le.mpr hlt)
      · cases h
        exact ⟨[], rfl, fun _ => rfl⟩

/-- Every operation of the script is complete. -/
inductive Parses : CScript → Prop
  | nil : Parses []
  | op {pc pc' : CScript} {opcode : UInt8} {vch : List UInt8} :
      getOp2 pc = some (opcode, vch, pc') → Parses pc' → Parses pc

/-! ## Pushes -/

/-- `CScript(vch)`: the script that pushes the vector. -/
def pushVector (b : List UInt8) : CScript :=
  if b.length < OP_PUSHDATA1.toNat then UInt8.ofNat b.length :: b
  else if b.length ≤ 0xff then OP_PUSHDATA1 :: UInt8.ofNat b.length :: b
  else if b.length ≤ 0xffff then OP_PUSHDATA2 :: natLE 2 b.length ++ b
  else OP_PUSHDATA4 :: natLE 4 b.length ++ b

/-! ## Deleting -/

/-- The loops of `FindAndDelete` from a position on, with as many rounds as the script
has bytes left. -/
def findAndDeleteLoop (b : CScript) : Nat → CScript → CScript
  | 0, pc => pc
  | fuel + 1, pc =>
      if b.isPrefixOf pc then findAndDeleteLoop b fuel (pc.drop b.length)
      else
        match getOp2 pc with
        | none => pc
        | some (_, _, pc') =>
            pc.take (pc.length - pc'.length) ++ findAndDeleteLoop b fuel pc'

/-- `FindAndDelete`: `b` goes wherever an operation starts with it. -/
def findAndDelete (script b : CScript) : CScript :=
  if b.isEmpty then script else findAndDeleteLoop b script.length script

end Agrarian.Script
