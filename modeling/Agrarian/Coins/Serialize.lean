import Agrarian.Coins.Coins
import Agrarian.Serialize.Compressor

/-!
# Serialization of coins

`CCoins::Serialize` packs two flags, the availability of the first two
outputs and the number of nonzero mask bytes into one code; the availability
of the other outputs follows in mask bytes, eight outputs a byte.  The code
counts the mask bytes that are not zero, less one when neither of the first
two outputs is available, and the reader stops after that many nonzero
bytes.
-/

namespace Agrarian.Coins

open Agrarian.Lib.ByteCodec
open Agrarian.Serialize

variable (ops : PubKeyOps)

/-! ## `Serialize` -/

/-- `VARINT` of an `int`.  A negative number is below `0x7F`, so that the
loop stops at its first byte. -/
def writeVarInt32 (n : Int32) : List UInt8 :=
  if n < 0 then [UInt8.ofNat (n.toUInt32.toNat &&& 0x7F)]
  else writeVarInt n.toUInt32.toNat

def readVarInt32 : Reader Int32 :=
  (fun n => (UInt32.ofNat n).toInt32) <$> readVarInt 32

namespace CCoins

/-- How many outputs the mask byte `b` is about: `i < 8` and
`2 + b * 8 + i < vout.size()`. -/
def maskBits (coins : CCoins) (b : Nat) : Nat :=
  min 8 (coins.vout.length - (2 + b * 8))

def isNullAt (coins : CCoins) (pos : Nat) : Bool :=
  (coins.vout.getD pos CTxOut.null).isNull

/-- The body of the loop of `CalcMaskSize`, on `nLastUsedByte` and
`nNonzeroBytes`. -/
def calcMaskBody (coins : CCoins) (s : Nat × Nat) (b : Nat) : Nat × Nat :=
  let fZero := (List.range (coins.maskBits b)).foldl
    (fun fZero i =>
      if !coins.isNullAt (2 + b * 8 + i) then false else fZero) true
  if !fZero then (b + 1, s.2 + 1) else s

/-- The size of the bitmask in bytes, and how many of them are not zero. -/
def calcMaskSize (coins : CCoins) : Nat × Nat :=
  (List.range ((coins.vout.length - 2 + 7) / 8)).foldl coins.calcMaskBody
    (0, 0)

/-- `chAvail` for the outputs from `2 + b * 8` on. -/
def maskByte (coins : CCoins) (b : Nat) : UInt8 :=
  (List.range (coins.maskBits b)).foldl
    (fun chAvail i =>
      if !coins.isNullAt (2 + b * 8 + i) then setBit chAvail i true
      else chAvail) 0

def fFirst (coins : CCoins) : Bool :=
  decide (0 < coins.vout.length) && !coins.isNullAt 0

def fSecond (coins : CCoins) : Bool :=
  decide (1 < coins.vout.length) && !coins.isNullAt 1

/-- The header code, an `unsigned int`. -/
def headerCode (coins : CCoins) (nMaskCode : Nat) : Nat :=
  (16 * (nMaskCode - (if coins.fFirst || coins.fSecond then 0 else 1)) +
    (if coins.fCoinBase then 1 else 0) + (if coins.fCoinStake then 2 else 0) +
    (if coins.fFirst then 4 else 0) + (if coins.fSecond then 8 else 0)) %
      2 ^ 32

/-- The stream written, unless the assertion that something is unspent
fails. -/
def serialize (coins : CCoins) : Option (List UInt8) :=
  let (nMaskSize, nMaskCode) := coins.calcMaskSize
  if coins.fFirst || coins.fSecond || decide (nMaskCode ≠ 0) then
    some (writeVarInt32 coins.nVersion ++
      (writeVarInt (coins.headerCode nMaskCode) ++
      ((List.range nMaskSize).map coins.maskByte ++
      (coins.vout.flatMap
        (fun txout => if txout.isNull then [] else writeTxOut ops txout) ++
      writeVarInt32 coins.nHeight))))
  else none

/-! ## `Unserialize` -/

/-- `while (nMaskCode > 0)`: every round takes one byte of the stream. -/
def readMaskLoop :
    List UInt8 → Nat → List Bool → Option (List Bool × List UInt8)
  | [], nMaskCode, vAvail => if nMaskCode > 0 then none else some (vAvail, [])
  | chAvail :: rest, nMaskCode, vAvail =>
      if nMaskCode > 0 then
        readMaskLoop rest
          (if chAvail ≠ 0 then nMaskCode - 1 else nMaskCode)
          (vAvail ++ (List.range 8).map (bitAt chAvail))
      else some (vAvail, chAvail :: rest)

def readMask (nMaskCode : Nat) (vAvail : List Bool) : Reader (List Bool) :=
  fun bs => readMaskLoop bs nMaskCode vAvail

/-- The outputs, a default one where none is available. -/
def readTxOuts : List Bool → Reader (List CTxOut)
  | [] => pure []
  | true :: vAvail => do
      let txout ← readTxOut ops
      let vout ← readTxOuts vAvail
      pure (txout :: vout)
  | false :: vAvail => do
      let vout ← readTxOuts vAvail
      pure (CTxOut.null :: vout)

def unserialize : Reader CCoins := do
  let nVersion ← readVarInt32
  let nCode ← readVarInt 32
  let fCoinBase := (nCode &&& 1) != 0
  let fCoinStake := (nCode &&& 2) != 0
  let nMaskCode := nCode / 16 + (if (nCode &&& 12) != 0 then 0 else 1)
  let vAvail ← readMask nMaskCode [(nCode &&& 4) != 0, (nCode &&& 8) != 0]
  let vout ← readTxOuts ops vAvail
  let nHeight ← readVarInt32
  pure (cleanup { fCoinBase, fCoinStake, vout, nHeight, nVersion })

/-! ## The mask -/

/-- Whether the output at a position is unspent. -/
def avail (coins : CCoins) (pos : Nat) : Bool := !coins.isNullAt pos

theorem avail_of_length_le {coins : CCoins} {pos : Nat}
    (h : coins.vout.length ≤ pos) : coins.avail pos = false := by
  rw [avail, isNullAt, List.getD_eq_default _ _ h, CTxOut.isNull_null]
  rfl

theorem fFirst_eq (coins : CCoins) : coins.fFirst = coins.avail 0 := by
  by_cases h : 0 < coins.vout.length
  · simp [fFirst, avail, h]
  · rw [avail_of_length_le (by omega), fFirst, decide_eq_false h]
    rfl

theorem fSecond_eq (coins : CCoins) : coins.fSecond = coins.avail 1 := by
  by_cases h : 1 < coins.vout.length
  · simp [fSecond, avail, h]
  · rw [avail_of_length_le (by omega), fSecond, decide_eq_false h]
    rfl

private theorem maskByte_steps (coins : CCoins) (b k : Nat) {i : Nat}
    (hi : i < 8) :
    bitAt ((List.range k).foldl
      (fun chAvail i =>
        if !coins.isNullAt (2 + b * 8 + i) then setBit chAvail i true
        else chAvail) 0) i =
      (decide (i < k) && coins.avail (2 + b * 8 + i)) := by
  induction k with
  | zero => simp
  | succ k ih =>
      rw [List.range_succ, List.foldl_append, List.foldl_cons,
        List.foldl_nil]
      have hlt : i < k + 1 ↔ i < k ∨ k = i := by omega
      by_cases havail : coins.avail (2 + b * 8 + k) = true
      · have hnull := havail
        rw [avail] at hnull
        rw [if_pos hnull, bitAt_setBit _ _ hi, ih]
        by_cases hk : k = i
        · subst hk
          simp [havail]
        · simp [hlt, hk]
      · have hnull := havail
        rw [avail] at hnull
        rw [if_neg hnull, ih]
        by_cases hk : k = i
        · subst hk
          simp [havail]
        · simp [hlt, hk]

/-- The bits of a mask byte are the availabilities of its outputs. -/
theorem bitAt_maskByte (coins : CCoins) (b : Nat) {i : Nat} (hi : i < 8) :
    bitAt (coins.maskByte b) i = coins.avail (2 + b * 8 + i) := by
  rw [maskByte, maskByte_steps coins b _ hi, maskBits]
  by_cases hin : i < coins.vout.length - (2 + b * 8)
  · have hlt : i < min 8 (coins.vout.length - (2 + b * 8)) := by omega
    rw [decide_eq_true hlt, Bool.true_and]
  · rw [avail_of_length_le (by omega), Bool.and_false]

/-- A mask byte is zero when none of its outputs is available. -/
theorem maskByte_eq_zero_iff (coins : CCoins) (b : Nat) :
    coins.maskByte b = 0 ↔ ∀ i < 8, coins.avail (2 + b * 8 + i) = false := by
  constructor
  · intro h i hi
    rw [← bitAt_maskByte coins b hi, h, bitAt_zero]
  · intro h
    refine eq_zero_of_bitAt (fun i hi => ?_)
    rw [bitAt_maskByte coins b hi, h i hi]

private theorem fZero_eq (coins : CCoins) (b : Nat) :
    (List.range (coins.maskBits b)).foldl
      (fun fZero i =>
        if !coins.isNullAt (2 + b * 8 + i) then false else fZero) true =
      decide (coins.maskByte b = 0) := by
  have hsteps : ∀ k, (List.range k).foldl
      (fun fZero i =>
        if !coins.isNullAt (2 + b * 8 + i) then false else fZero) true =
      (List.range k).all fun i => !coins.avail (2 + b * 8 + i) := by
    intro k
    induction k with
    | zero => rfl
    | succ k ih =>
        rw [List.range_succ, List.foldl_append, List.all_append, ← ih]
        cases hnull : coins.isNullAt (2 + b * 8 + k) <;> simp [avail, hnull]
  rw [hsteps, Bool.eq_iff_iff, List.all_eq_true, decide_eq_true_iff,
    maskByte_eq_zero_iff]
  constructor
  · intro h i hi
    by_cases hin : i < coins.maskBits b
    · simpa using h i (List.mem_range.mpr hin)
    · rw [maskBits] at hin
      exact avail_of_length_le (by omega)
  · intro h i hi
    have hin : i < coins.maskBits b := List.mem_range.mp hi
    rw [maskBits] at hin
    simp [h i (by omega)]

theorem calcMaskBody_eq (coins : CCoins) (s : Nat × Nat) (b : Nat) :
    coins.calcMaskBody s b =
      if coins.maskByte b = 0 then s else (b + 1, s.2 + 1) := by
  rw [calcMaskBody, fZero_eq]
  by_cases h : coins.maskByte b = 0 <;> simp [h]

/-- The loop of `CalcMaskSize` after `k` bytes: all bytes from `last` on are
zero, the byte before `last` is not, and `count` bytes are not zero. -/
private theorem calcMaskSize_steps (coins : CCoins) (k : Nat) :
    ∀ last count,
      (List.range k).foldl coins.calcMaskBody (0, 0) = (last, count) →
    last ≤ k ∧ (∀ b, last ≤ b → b < k → coins.maskByte b = 0) ∧
      ((List.range last).map coins.maskByte).getLast? ≠ some 0 ∧
      count = ((List.range last).map coins.maskByte).countP (· ≠ 0) := by
  induction k with
  | zero =>
      intro last count h
      obtain ⟨rfl, rfl⟩ := Prod.mk.inj h
      simp
  | succ k ih =>
      intro last count h
      rw [List.range_succ, List.foldl_append, List.foldl_cons,
        List.foldl_nil, calcMaskBody_eq] at h
      obtain ⟨⟨last', count'⟩, hs⟩ : ∃ s, (List.range k).foldl
          coins.calcMaskBody (0, 0) = s := ⟨_, rfl⟩
      obtain ⟨hle, hzero, hlast, hcount⟩ := ih last' count' hs
      rw [hs] at h
      by_cases hbyte : coins.maskByte k = 0
      · rw [if_pos hbyte] at h
        obtain ⟨rfl, rfl⟩ := Prod.mk.inj h
        refine ⟨by omega, fun b hb hlt => ?_, hlast, hcount⟩
        rcases Nat.eq_or_lt_of_le (Nat.le_of_lt_succ hlt) with rfl | hlt
        · exact hbyte
        · exact hzero b hb hlt
      · rw [if_neg hbyte] at h
        obtain ⟨rfl, rfl⟩ := Prod.mk.inj h
        -- the bytes skipped since the last nonzero one do not count
        have hskip : (List.range (k - last')).map
            (fun i => coins.maskByte (last' + i)) =
              List.replicate (k - last') 0 := by
          refine List.eq_replicate_iff.mpr ⟨by simp, fun b hb => ?_⟩
          obtain ⟨i, hi, rfl⟩ := List.mem_map.mp hb
          have hi' : i < k - last' := List.mem_range.mp hi
          exact hzero (last' + i) (by omega) (by omega)
        have hsplit : (List.range k).map coins.maskByte =
            (List.range last').map coins.maskByte ++
              List.replicate (k - last') 0 := by
          have hk : k = last' + (k - last') := by omega
          rw [← hskip]
          conv_lhs => rw [hk, List.range_add, List.map_append, List.map_map]
          rfl
        refine ⟨Nat.le_refl _, fun b hb hlt => absurd hlt (by omega), ?_, ?_⟩
        · rw [List.range_succ]
          simpa using hbyte
        · rw [List.range_succ, List.map_append, hsplit, List.countP_append,
            List.countP_append, ← hcount]
          simp [hbyte, List.countP_replicate]

/-- **The mask's size.**  The mask ends with its last nonzero byte, all
outputs behind it are spent, and the second number counts its nonzero
bytes. -/
theorem calcMaskSize_spec (coins : CCoins) :
    (∀ pos, 2 + coins.calcMaskSize.1 * 8 ≤ pos → coins.avail pos = false) ∧
      ((List.range coins.calcMaskSize.1).map coins.maskByte).getLast? ≠
        some 0 ∧
      coins.calcMaskSize.2 =
        ((List.range coins.calcMaskSize.1).map coins.maskByte).countP
          (· ≠ 0) ∧
      coins.calcMaskSize.1 ≤ (coins.vout.length - 2 + 7) / 8 := by
  obtain ⟨hle, hzero, hlast, hcount⟩ := calcMaskSize_steps coins
    ((coins.vout.length - 2 + 7) / 8) coins.calcMaskSize.1
    coins.calcMaskSize.2 rfl
  refine ⟨fun pos hpos => ?_, hlast, hcount, hle⟩
  by_cases hin : pos < coins.vout.length
  · have hb := hzero ((pos - 2) / 8) (by omega) (by omega)
    rw [maskByte_eq_zero_iff] at hb
    have h := hb ((pos - 2) % 8) (Nat.mod_lt _ (by decide))
    have hpos' : 2 + (pos - 2) / 8 * 8 + (pos - 2) % 8 = pos := by omega
    rwa [hpos'] at h
  · exact avail_of_length_le (Nat.not_lt.mp hin)

theorem reads_varInt32 {n : Int32} (hn : 0 ≤ n) :
    Reads readVarInt32 (writeVarInt32 n) n := by
  have hneg : ¬ n < 0 := Int32.not_lt.mpr hn
  have h := (reads_varInt (UInt32.toNat_lt n.toUInt32)).map
    (fun n => (UInt32.ofNat n).toInt32)
  rw [UInt32.ofNat_toNat, Int32.toInt32_toUInt32] at h
  rw [writeVarInt32, if_neg hneg]
  exact h

/-- Something is unspent: in the first two places or in the mask. -/
theorem assert_of_not_pruned {coins : CCoins} (h : coins.isPruned = false) :
    (coins.fFirst || coins.fSecond) = true ∨ coins.calcMaskSize.2 ≠ 0 := by
  obtain ⟨hbeyond, -, hcount, -⟩ := calcMaskSize_spec coins
  by_contra hnone
  rw [not_or, not_not, Bool.not_eq_true, Bool.or_eq_false_iff, fFirst_eq,
    fSecond_eq] at hnone
  obtain ⟨⟨hfirst, hsecond⟩, hzero⟩ := hnone
  have hall : ∀ pos, coins.avail pos = false := by
    intro pos
    by_cases hpos : 2 + coins.calcMaskSize.1 * 8 ≤ pos
    · exact hbeyond pos hpos
    · rcases Nat.lt_or_ge pos 2 with hlt | hge
      · interval_cases pos
        · exact hfirst
        · exact hsecond
      · have hbyte : coins.maskByte ((pos - 2) / 8) = 0 := by
          rw [hcount, List.countP_eq_zero] at hzero
          simpa using hzero _ (List.mem_map_of_mem
            (List.mem_range.mpr (by omega : (pos - 2) / 8 < _)))
        have h := (maskByte_eq_zero_iff coins _).mp hbyte ((pos - 2) % 8)
          (Nat.mod_lt _ (by decide))
        have hpos' : 2 + (pos - 2) / 8 * 8 + (pos - 2) % 8 = pos := by omega
        rwa [hpos'] at h
  have hpruned : coins.isPruned = true := by
    rw [isPruned, List.all_eq_true]
    intro txout hmem
    obtain ⟨pos, hpos, rfl⟩ := List.mem_iff_getElem.mp hmem
    have h := hall pos
    rw [avail, isNullAt, List.getD_eq_getElem _ _ hpos] at h
    simpa using h
  rw [h] at hpruned
  cases hpruned

/-- A library that knows no uncompressed keys. -/
def noUncompressedKeys : PubKeyOps :=
  { isFullyValid := fun _ => false, decompress := fun _ => none }

end CCoins

end Agrarian.Coins
