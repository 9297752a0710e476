import Agrarian.Lib.ByteCodec
import Agrarian.Primitives

/-!
# Serialization of integers, vectors and hashes

The pieces of `serialize.h` that the serialized types of this development
are made of: the two variable-length integers (`CompactSize` in front of
vectors, `VARINT` inside the coin database), vectors and 256-bit values.
-/

namespace Agrarian.Serialize

open Agrarian.Lib.ByteCodec

/-- No vector longer than this is read. -/
def MAX_SIZE : Nat := 0x02000000

/-! ## Compact sizes -/

def writeCompactSize (nSize : Nat) : List UInt8 :=
  if nSize < 253 then natLE 1 nSize
  else if nSize ≤ 0xFFFF then 253 :: natLE 2 nSize
  else if nSize ≤ 0xFFFFFFFF then 254 :: natLE 4 nSize
  else 255 :: natLE 8 nSize

/-- The size behind a marker byte; a shorter form must not have held it. -/
def readSizeLE (width low : Nat) : Reader Nat := do
  let xSize ← readNatLE width
  guard (low ≤ xSize)
  pure xSize

/-- A size above `MAX_SIZE` is rejected as well. -/
def readCompactSize : Reader Nat := do
  let chSize ← readByte
  let nSizeRet ←
    (if chSize < 253 then pure chSize.toNat
    else if chSize = 253 then readSizeLE 2 253
    else if chSize = 254 then readSizeLE 4 0x10000
    else readSizeLE 8 0x100000000)
  guard (nSizeRet ≤ MAX_SIZE)
  pure nSizeRet

theorem reads_sizeLE {width low n : Nat} (hn : n < 256 ^ width)
    (hlow : low ≤ n) : Reads (readSizeLE width low) (natLE width n) n :=
  (reads_natLE hn).bind_pure ((reads_guard hlow).bind_pure (reads_pure n))

theorem reads_compactSize {n : Nat} (hn : n ≤ MAX_SIZE) :
    Reads readCompactSize (writeCompactSize n) n := by
  have hmax : n ≤ 0x02000000 := hn
  have hend : Reads (do guard (n ≤ MAX_SIZE); pure n) [] n :=
    (reads_guard hn).bind_pure (reads_pure n)
  unfold writeCompactSize readCompactSize
  by_cases hone : n < 253
  · rw [if_pos hone]
    have hval : (UInt8.ofNat n).toNat = n := by
      rw [UInt8.toNat_ofNat']
      omega
    have hbyte : UInt8.ofNat n < 253 := by
      rw [UInt8.lt_iff_toNat_lt, hval]
      exact hone
    refine (reads_byte (UInt8.ofNat n)).bind_pure ?_
    rw [if_pos hbyte, hval]
    exact (reads_pure n).bind_pure hend
  · rw [if_neg hone]
    by_cases htwo : n ≤ 0xFFFF
    · rw [if_pos htwo]
      refine (reads_byte 253).bind ?_
      rw [if_neg (by decide), if_pos rfl]
      exact (reads_sizeLE (by omega) (by omega)).bind_pure hend
    · rw [if_neg htwo, if_pos (by omega)]
      refine (reads_byte 254).bind ?_
      rw [if_neg (by decide), if_neg (by decide), if_pos rfl]
      exact (reads_sizeLE (by omega) (by omega)).bind_pure hend

/-! ## Variable-length integers -/

/-- The loop of `WriteVarInt`: `tmp` is filled from its end of the output
backwards, and every byte but the first one stored has its high bit set. -/
def writeVarIntLoop (n : Nat) (tmp : List UInt8) : List UInt8 :=
  let b := UInt8.ofNat ((n &&& 0x7F) ||| (if tmp.isEmpty then 0x00 else 0x80))
  if n ≤ 0x7F then b :: tmp
  else writeVarIntLoop ((n >>> 7) - 1) (b :: tmp)
termination_by n
decreasing_by
  rw [Nat.shiftRight_eq_div_pow]
  omega

def writeVarInt (n : Nat) : List UInt8 := writeVarIntLoop n []

/-- The loop of `ReadVarInt` for an unsigned type of `w` bits. -/
def readVarIntLoop (w : Nat) (n : Nat) : List UInt8 → Option (Nat × List UInt8)
  | [] => none
  | chData :: rest =>
      let n := ((n <<< 7) ||| (chData.toNat &&& 0x7F)) % 2 ^ w
      if chData.toNat &&& 0x80 ≠ 0 then
        readVarIntLoop w ((n + 1) % 2 ^ w) rest
      else some (n, rest)

def readVarInt (w : Nat) : Reader Nat := readVarIntLoop w 0

theorem and_low (n : Nat) : n &&& 0x7F = n % 128 := by
  rw [show (0x7F : Nat) = 2 ^ 7 - 1 from rfl, Nat.and_two_pow_sub_one_eq_mod]

theorem or_high {n : Nat} (hn : n < 128) : n ||| 0x80 = n + 128 := by
  rw [show (0x80 : Nat) = 2 ^ 7 * 1 from rfl, Nat.or_comm,
    ← Nat.two_pow_add_eq_or_of_lt (by omega)]
  omega

theorem shift_or (m n : Nat) :
    (m <<< 7) ||| (n % 128) = 128 * m + n % 128 := by
  rw [Nat.shiftLeft_eq, Nat.mul_comm,
    ← Nat.two_pow_add_eq_or_of_lt (Nat.mod_lt _ (by decide))]

theorem high_bit (b : UInt8) :
    b.toNat &&& 0x80 = 0 ↔ b.toNat < 128 := by
  have hbyte := b.toNat_lt
  have hbit : b.toNat &&& 0x80 = (b.toNat.testBit 7).toNat * 2 ^ 7 :=
    Nat.and_two_pow b.toNat 7
  rw [hbit, Nat.testBit_eq_decide_div_mod_eq]
  by_cases h : b.toNat < 128
  · have hzero : ¬ b.toNat / 2 ^ 7 % 2 = 1 := by omega
    rw [decide_eq_false hzero]
    simp [h]
  · have hone : b.toNat / 2 ^ 7 % 2 = 1 := by omega
    rw [decide_eq_true hone]
    simp [h]

/-- Numbers up to 127 are one byte. -/
theorem writeVarInt_of_le {n : Nat} (hn : n ≤ 0x7F) :
    writeVarInt n = [UInt8.ofNat n] := by
  rw [writeVarInt, writeVarIntLoop, if_pos hn, and_low]
  simp only [List.isEmpty_nil, if_true, Nat.or_zero]
  rw [Nat.mod_eq_of_lt (by omega)]

example : writeVarInt (2 ^ 32) = [0x8E, 0xFE, 0xFE, 0xFF, 0x00] := by
  simp [writeVarInt, writeVarIntLoop]

/-! ## Vectors and hashes -/

def writeVector {α : Type} (write : α → List UInt8) (v : List α) :
    List UInt8 :=
  writeCompactSize v.length ++ v.flatMap write

def readVector {α : Type} (read : Reader α) : Reader (List α) := do
  let nSize ← readCompactSize
  readMany read nSize

theorem reads_vector {α : Type} {read : Reader α} {write : α → List UInt8}
    {v : List α} (hr : ∀ a ∈ v, Reads read (write a) a)
    (hlen : v.length ≤ MAX_SIZE) :
    Reads (readVector read) (writeVector write v) v :=
  (reads_compactSize hlen).bind (reads_many hr)

/-- A vector of bytes is read and written in one piece. -/
def writeBytes (v : List UInt8) : List UInt8 := writeCompactSize v.length ++ v

def readByteVector : Reader (List UInt8) := do
  let nSize ← readCompactSize
  readBytes nSize

theorem reads_byteVector {v : List UInt8} (hlen : v.length ≤ MAX_SIZE) :
    Reads readByteVector (writeBytes v) v :=
  (reads_compactSize hlen).bind (reads_bytes v)

/-- A `uint256` is its 32 bytes, least significant first. -/
def writeUint256 (hash : Uint256) : List UInt8 := natLE 32 hash.toNat

def readUint256 : Reader Uint256 := BitVec.ofNat 256 <$> readNatLE 32

theorem reads_uint256 (hash : Uint256) :
    Reads readUint256 (writeUint256 hash) hash := by
  have hlt : hash.toNat < 256 ^ 32 := by
    have := hash.isLt
    omega
  have h := (reads_natLE hlt).map (BitVec.ofNat 256)
  rwa [BitVec.ofNat_toNat, BitVec.setWidth_eq] at h

/-! ## Transactions -/

/-- The size of a transaction as `SerializationOp` writes it. -/
def getSerializeSize (tx : CTransaction) : Nat :=
  let sizeOfCompactSize := fun n => (writeCompactSize n).length
  4 + (sizeOfCompactSize tx.vin.length +
      (tx.vin.map fun txin =>
        36 + (sizeOfCompactSize txin.scriptSig.length + txin.scriptSig.length) + 4).sum) +
    (sizeOfCompactSize tx.vout.length +
      (tx.vout.map fun txout =>
        8 + (sizeOfCompactSize txout.scriptPubKey.length + txout.scriptPubKey.length)).sum) + 4

end Agrarian.Serialize
