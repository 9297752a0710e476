import Agrarian.Coins.Serialize
import Agrarian.Serialize.VarInt

/-!
# Serialization of undo records

`CTxInUndo::Serialize` multiplexes the height and two flags into one
`unsigned int`, two bits of which the flags take.  The version follows only
when the height is not zero, which for records made by `Spend` means that the
last output was spent.
-/

namespace Agrarian.Coins

open Agrarian.Lib.ByteCodec
open Agrarian.Serialize

variable (ops : PubKeyOps)

namespace CTxInUndo

/-- `nHeight * 4 + (fCoinBase ? 2 : 0) + (fCoinStake ? 1 : 0)`. -/
def code (undo : CTxInUndo) : UInt32 :=
  undo.nHeight * 4 + (if undo.fCoinBase then 2 else 0) +
    (if undo.fCoinStake then 1 else 0)

def serialize (undo : CTxInUndo) : List UInt8 :=
  writeVarInt undo.code.toNat ++
    ((if undo.nHeight > 0 then writeVarInt32 undo.nVersion else []) ++
      writeTxOut ops undo.txout)

/-- Read into a new record. -/
def unserialize : Reader CTxInUndo := do
  let nCode ← UInt32.ofNat <$> readVarInt 32
  let nHeight := nCode >>> 2
  let fCoinBase := (nCode &&& 2) != 0
  let fCoinStake := (nCode &&& 1) != 0
  let nVersion ← (if nHeight > 0 then readVarInt32 else pure 0)
  let txout ← readTxOut ops
  pure { txout, fCoinBase, fCoinStake, nHeight, nVersion }

/-- What is left of a record's version when it is written. -/
def storedVersion (undo : CTxInUndo) : Int32 :=
  if undo.nHeight > 0 then undo.nVersion else 0

/-! ## The code -/

theorem code_eq (undo : CTxInUndo) :
    undo.code.toNat = 4 * (undo.nHeight.toNat % 2 ^ 30) +
      (if undo.fCoinBase then 2 else 0) +
        (if undo.fCoinStake then 1 else 0) := by
  have hheight := undo.nHeight.toNat_lt
  rw [code, UInt32.toNat_add, UInt32.toNat_add, UInt32.toNat_mul]
  cases undo.fCoinBase <;> cases undo.fCoinStake <;> simp <;> omega

private theorem and_ne_zero (nCode : UInt32) :
    ((nCode &&& 2) != 0) = decide (nCode.toNat / 2 % 2 = 1) ∧
      ((nCode &&& 1) != 0) = decide (nCode.toNat % 2 = 1) := by
  have hbit : ∀ i, nCode.toNat &&& 2 ^ i =
      (decide (nCode.toNat / 2 ^ i % 2 = 1)).toNat * 2 ^ i := by
    intro i
    rw [Nat.and_two_pow, Nat.testBit_eq_decide_div_mod_eq]
  have htwo := hbit 1
  have hone := hbit 0
  rw [Nat.pow_one] at htwo
  rw [Nat.pow_zero, Nat.div_one] at hone
  constructor
  · rw [Bool.eq_iff_iff, bne_iff_ne, decide_eq_true_iff, Ne,
      ← UInt32.toNat_inj, UInt32.toNat_and]
    simp only [UInt32.reduceToNat, htwo]
    by_cases h : nCode.toNat / 2 % 2 = 1 <;> simp [h]
  · rw [Bool.eq_iff_iff, bne_iff_ne, decide_eq_true_iff, Ne,
      ← UInt32.toNat_inj, UInt32.toNat_and]
    simp only [UInt32.reduceToNat, hone]
    by_cases h : nCode.toNat % 2 = 1 <;> simp [h]

/-- **What is read of the code.** -/
theorem unpack_code (undo : CTxInUndo) :
    (undo.code >>> 2).toNat = undo.nHeight.toNat % 2 ^ 30 ∧
      ((undo.code &&& 2) != 0) = undo.fCoinBase ∧
      ((undo.code &&& 1) != 0) = undo.fCoinStake := by
  have hcode := code_eq undo
  obtain ⟨htwo, hone⟩ := and_ne_zero undo.code
  refine ⟨?_, ?_, ?_⟩
  · have hfour : 2 ^ ((2 : UInt32).toNat % 32) = 4 := rfl
    rw [UInt32.toNat_shiftRight, Nat.shiftRight_eq_div_pow, hcode, hfour]
    split <;> split <;> omega
  · rw [htwo, hcode]
    cases undo.fCoinBase <;> cases undo.fCoinStake <;> simp <;> omega
  · rw [hone, hcode]
    cases undo.fCoinBase <;> cases undo.fCoinStake <;> simp <;> omega

/-! ## The record -/

/-- The height read is the one written, mod `2 ^ 30`, whatever follows. -/
theorem nHeight_of_read {undo read : CTxInUndo} {rest rest' : List UInt8}
    (h : (unserialize ops).run (undo.serialize ops ++ rest) =
      some (read, rest')) :
    read.nHeight.toNat = undo.nHeight.toNat % 2 ^ 30 := by
  have hcode : Reads (UInt32.ofNat <$> readVarInt 32)
      (writeVarInt undo.code.toNat) undo.code := by
    have hread := (reads_varInt (UInt32.toNat_lt undo.code)).map UInt32.ofNat
    rwa [UInt32.ofNat_toNat] at hread
  rw [unserialize, run_bind_eq_some, serialize, List.append_assoc] at h
  obtain ⟨nCode, mid, hfirst, h⟩ := h
  rw [hcode] at hfirst
  obtain ⟨rfl, rfl⟩ := Prod.mk.inj (Option.some.inj hfirst)
  obtain ⟨nVersion, mid, -, h⟩ := run_bind_eq_some.mp h
  obtain ⟨txout, mid, -, h⟩ := run_bind_eq_some.mp h
  obtain ⟨rfl, -⟩ := run_pure_eq_some.mp h
  exact (unpack_code undo).1

/-- **A record is read back** when its height leaves the flags their two
bits; of a version with height zero nothing is stored. -/
theorem reads_txInUndo {undo : CTxInUndo}
    (hheight : undo.nHeight.toNat < 2 ^ 30) (hversion : 0 ≤ undo.nVersion)
    (htxout : Reads (readTxOut ops) (writeTxOut ops undo.txout) undo.txout) :
    Reads (unserialize ops) (undo.serialize ops)
      { undo with nVersion := undo.storedVersion } := by
  obtain ⟨hcodeheight, hbase, hstake⟩ := unpack_code undo
  have hback : undo.code >>> 2 = undo.nHeight := by
    rw [← UInt32.toNat_inj, hcodeheight, Nat.mod_eq_of_lt hheight]
  have hcode : Reads (UInt32.ofNat <$> readVarInt 32)
      (writeVarInt undo.code.toNat) undo.code := by
    have hread := (reads_varInt (UInt32.toNat_lt undo.code)).map UInt32.ofNat
    rwa [UInt32.ofNat_toNat] at hread
  have hstored : Reads
      (if undo.nHeight > 0 then readVarInt32 else pure 0 : Reader Int32)
      (if undo.nHeight > 0 then writeVarInt32 undo.nVersion else [])
      undo.storedVersion := by
    rw [storedVersion]
    split
    · exact CCoins.reads_varInt32 hversion
    · exact reads_pure 0
  refine hcode.bind ?_
  simp only [hback, hbase, hstake]
  refine hstored.bind ?_
  exact htxout.bind_pure (reads_pure _)

end CTxInUndo

/-- **The codes of an undo record.**  Every number of a type is read back
from its variable-length integer, whatever follows; the size function counts
the bytes, the writer's buffer holds them, and no encoding is a prefix of
another.  A record with a height below `2 ^ 30` is read back, and its packed
code is the height times four and the flags, without overflow. -/
theorem varInt_txInUndo_codec :
    (∀ w n rest, n < 2 ^ w →
      (readVarInt w).run (writeVarInt n ++ rest) = some (n, rest)) ∧
    (∀ n, getSizeOfVarInt n = (writeVarInt n).length) ∧
    (∀ w n, 0 < w → n < 2 ^ w → (writeVarInt n).length ≤ (w + 6) / 7) ∧
    (∀ m n, writeVarInt m <+: writeVarInt n → m = n) ∧
    (∀ undo : CTxInUndo, undo.nHeight.toNat < 2 ^ 30 →
      undo.code.toNat = undo.nHeight.toNat * 4 +
        (if undo.fCoinBase then 2 else 0) +
          (if undo.fCoinStake then 1 else 0) ∧
      undo.code >>> 2 = undo.nHeight ∧
      ((undo.code &&& 2) != 0) = undo.fCoinBase ∧
      ((undo.code &&& 1) != 0) = undo.fCoinStake ∧
      (0 ≤ undo.nVersion →
        Reads (readTxOut ops) (writeTxOut ops undo.txout) undo.txout →
        Reads (CTxInUndo.unserialize ops) (undo.serialize ops)
          { undo with
            nVersion := if undo.nHeight > 0 then undo.nVersion else 0 })) := by
  refine ⟨fun w n rest hn => reads_varInt hn rest,
    fun n => (length_writeVarInt n).symm,
    fun w n hw hn => length_writeVarInt_le hw hn,
    fun m n h => writeVarInt_of_begins h, fun undo hheight => ?_⟩
  obtain ⟨hcodeheight, hbase, hstake⟩ := undo.unpack_code
  have hmod := Nat.mod_eq_of_lt hheight
  refine ⟨?_, ?_, hbase, hstake, fun hversion htxout =>
    undo.reads_txInUndo ops hheight hversion htxout⟩
  · rw [undo.code_eq, hmod, Nat.mul_comm]
  · rw [← UInt32.toNat_inj, hcodeheight, hmod]

/-- A height of `2 ^ 30` has the code of the height zero, and is read back as
that. -/
theorem varInt_txInUndo_overflow :
    ¬ ∀ undo : CTxInUndo, 0 ≤ undo.nVersion →
      undo.code >>> 2 = undo.nHeight ∧ ∀ rest,
        (CTxInUndo.unserialize CCoins.noUncompressedKeys).run
          (undo.serialize CCoins.noUncompressedKeys ++ rest) =
            some (undo, rest) := by
  intro h
  obtain ⟨-, hread⟩ := h { txout := CTxOut.null, nHeight := 2 ^ 30 }
    (by decide)
  have hheight := CTxInUndo.nHeight_of_read CCoins.noUncompressedKeys
    (hread [])
  revert hheight
  decide

end Agrarian.Coins
