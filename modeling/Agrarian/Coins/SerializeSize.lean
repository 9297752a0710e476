import Agrarian.Coins.Serialize
import Agrarian.Serialize.VarInt

/-!
# The size of serialized coins

`CCoins::GetSerializeSize` adds up the sizes of what `CCoins::Serialize`
writes.  Both compute the header code for themselves, and they do not compute
the same one: the size function shifts the number of mask bytes by three
bits, where two flags of the first outputs and two of the transaction take
four.  The sizes agree as long as the two codes have variable-length integers
of one length.
-/

namespace Agrarian.Coins

open Agrarian.Lib.ByteCodec
open Agrarian.Serialize

variable (ops : PubKeyOps)

/-! ## Sizes of variable-length integers -/

/-- The largest numbers of one to four bytes. -/
def varIntBounds : List Nat := [127, 16511, 2113663, 270549119]

/-- Two numbers with variable-length integers of one length: no bound lies
between them. -/
def SameVarIntSize (m n : Nat) : Prop :=
  ∀ bound ∈ varIntBounds, m ≤ bound ↔ n ≤ bound

instance (m n : Nat) : Decidable (SameVarIntSize m n) :=
  inferInstanceAs (Decidable (∀ _ ∈ _, _))

private theorem getSizeOfVarIntLoop_eq (n nRet : Nat) :
    getSizeOfVarIntLoop n nRet =
      if n ≤ 127 then nRet + 1
      else getSizeOfVarIntLoop (n / 128 - 1) (nRet + 1) := by
  rw [getSizeOfVarIntLoop, Nat.shiftRight_eq_div_pow]

/-- One byte, and another one for every bound exceeded. -/
theorem getSizeOfVarInt_eq {n : Nat} (hn : n < 2 ^ 32) :
    getSizeOfVarInt n = 1 + varIntBounds.countP (· < n) := by
  simp only [varIntBounds, List.countP_cons, List.countP_nil,
    decide_eq_true_eq]
  rw [getSizeOfVarInt, getSizeOfVarIntLoop_eq]
  by_cases h1 : n ≤ 127
  · rw [if_pos h1, if_neg (by omega), if_neg (by omega), if_neg (by omega),
      if_neg (by omega)]
  rw [if_neg h1, getSizeOfVarIntLoop_eq]
  by_cases h2 : n ≤ 16511
  · rw [if_pos (by omega), if_neg (by omega), if_neg (by omega),
      if_neg (by omega), if_pos (by omega)]
  rw [if_neg (by omega), getSizeOfVarIntLoop_eq]
  by_cases h3 : n ≤ 2113663
  · rw [if_pos (by omega), if_neg (by omega), if_neg (by omega),
      if_pos (by omega), if_pos (by omega)]
  rw [if_neg (by omega), getSizeOfVarIntLoop_eq]
  by_cases h4 : n ≤ 270549119
  · rw [if_pos (by omega), if_neg (by omega), if_pos (by omega),
      if_pos (by omega), if_pos (by omega)]
  rw [if_neg (by omega), getSizeOfVarIntLoop_eq, if_pos (by omega),
    if_pos (by omega), if_pos (by omega), if_pos (by omega),
    if_pos (by omega)]

/-- Counts of a weaker and a stronger condition agree when the conditions
do. -/
private theorem countP_eq_iff {p q : Nat → Bool} {l : List Nat}
    (h : ∀ x ∈ l, p x = true → q x = true) :
    l.countP p = l.countP q ↔ ∀ x ∈ l, p x = q x := by
  constructor
  · intro hcount
    induction l with
    | nil => simp
    | cons x l ih =>
        have htail : ∀ y ∈ l, p y = true → q y = true :=
          fun y hy => h y (List.mem_cons_of_mem x hy)
        have hle : l.countP p ≤ l.countP q := List.countP_mono_left htail
        have hx := h x List.mem_cons_self
        rw [List.countP_cons, List.countP_cons] at hcount
        have hhead : p x = q x := by
          cases hp : p x <;> cases hq : q x <;> simp_all
        rw [hhead, Nat.add_right_cancel_iff] at hcount
        exact List.forall_mem_cons.mpr ⟨hhead, ih htail hcount⟩
  · intro heq
    exact List.countP_congr fun x hx => by rw [heq x hx]

theorem getSizeOfVarInt_eq_iff {m n : Nat} (hm : m < 2 ^ 32)
    (hn : n < 2 ^ 32) :
    getSizeOfVarInt m = getSizeOfVarInt n ↔ SameVarIntSize m n := by
  have hside : ∀ {k l : Nat}, k ≤ l →
      (varIntBounds.countP (· < k) = varIntBounds.countP (· < l) ↔
        SameVarIntSize k l) := by
    intro k l hle
    rw [countP_eq_iff fun bound _ hlt => by
      rw [decide_eq_true_eq] at hlt ⊢
      omega]
    refine forall₂_congr fun bound _ => ?_
    rw [decide_eq_decide]
    omega
  rw [getSizeOfVarInt_eq hm, getSizeOfVarInt_eq hn, Nat.add_left_cancel_iff]
  rcases Nat.le_total m n with hle | hle
  · exact hside hle
  · rw [eq_comm, hside hle]
    exact forall₂_congr fun _ _ => Iff.comm

/-- `GetSizeOfVarInt` of an `int`; a negative number is below `0x7F`. -/
def getSizeOfVarInt32 (n : Int32) : Nat :=
  if n < 0 then 1 else getSizeOfVarInt n.toUInt32.toNat

theorem length_writeVarInt32 (n : Int32) :
    (writeVarInt32 n).length = getSizeOfVarInt32 n := by
  rw [writeVarInt32, getSizeOfVarInt32]
  split
  · rfl
  · exact length_writeVarInt _

namespace CCoins

/-! ## `GetSerializeSize` -/

/-- The header code of `GetSerializeSize`, an `unsigned int`. -/
def sizeHeaderCode (coins : CCoins) (nMaskCode : Nat) : Nat :=
  (8 * (nMaskCode - (if coins.fFirst || coins.fSecond then 0 else 1)) +
    (if coins.fCoinBase then 1 else 0) + (if coins.fCoinStake then 2 else 0) +
    (if coins.fFirst then 4 else 0) + (if coins.fSecond then 8 else 0)) %
      2 ^ 32

/-- The size of one output, which the compressor measures by writing it. -/
def outSize (txout : CTxOut) : Nat :=
  if !txout.isNull then (writeTxOut ops txout).length else 0

/-- An `unsigned int`, unless the assertion that something is unspent
fails. -/
def getSerializeSize (coins : CCoins) : Option Nat :=
  let (nMaskSize, nMaskCode) := coins.calcMaskSize
  if coins.fFirst || coins.fSecond || decide (nMaskCode ≠ 0) then
    some ((getSizeOfVarInt32 coins.nVersion +
      getSizeOfVarInt (coins.sizeHeaderCode nMaskCode) +
      nMaskSize +
      (coins.vout.map (outSize ops)).sum +
      getSizeOfVarInt32 coins.nHeight) % 2 ^ 32)
  else none

/-! ## What the header codes are made of -/

/-- The flags in the low bits of the header code. -/
def headerFlags (coins : CCoins) : Nat :=
  (if coins.fCoinBase then 1 else 0) + (if coins.fCoinStake then 2 else 0) +
    (if coins.avail 0 then 4 else 0) + (if coins.avail 1 then 8 else 0)

/-- The groups of eight outputs, from the third output on, with something
unspent. -/
def unspentGroups (coins : CCoins) : Nat :=
  (List.range ((coins.vout.length - 2 + 7) / 8)).countP fun b =>
    (List.range 8).any fun i => coins.avail (2 + b * 8 + i)

/-- The groups as the header code counts them: one less when it says that
neither of the first two outputs is unspent. -/
def codedGroups (coins : CCoins) : Nat :=
  coins.unspentGroups - (if coins.avail 0 || coins.avail 1 then 0 else 1)

private theorem maskByte_ne_zero (coins : CCoins) (b : Nat) :
    decide (coins.maskByte b ≠ 0) =
      (List.range 8).any fun i => coins.avail (2 + b * 8 + i) := by
  rw [Bool.eq_iff_iff, decide_eq_true_iff, Ne, maskByte_eq_zero_iff,
    List.any_eq_true]
  simp

/-- The mask code counts the groups. -/
theorem calcMaskSize_snd (coins : CCoins) :
    coins.calcMaskSize.2 = coins.unspentGroups := by
  have hsteps : ∀ k, ((List.range k).foldl coins.calcMaskBody (0, 0)).2 =
      (List.range k).countP fun b =>
        (List.range 8).any fun i => coins.avail (2 + b * 8 + i) := by
    intro k
    induction k with
    | zero => rfl
    | succ k ih =>
        rw [List.range_succ, List.foldl_append, List.foldl_cons,
          List.foldl_nil, calcMaskBody_eq, List.countP_append, ← ih,
          List.countP_singleton, ← maskByte_ne_zero]
        by_cases hzero : coins.maskByte k = 0 <;> simp [hzero]
  exact hsteps _

theorem headerCode_eq (coins : CCoins) :
    coins.headerCode coins.calcMaskSize.2 =
      (16 * coins.codedGroups + coins.headerFlags) % 2 ^ 32 := by
  rw [headerCode, calcMaskSize_snd, codedGroups, headerFlags, fFirst_eq,
    fSecond_eq]
  simp only [Nat.add_assoc]

theorem sizeHeaderCode_eq (coins : CCoins) :
    coins.sizeHeaderCode coins.calcMaskSize.2 =
      (8 * coins.codedGroups + coins.headerFlags) % 2 ^ 32 := by
  rw [sizeHeaderCode, calcMaskSize_snd, codedGroups, headerFlags, fFirst_eq,
    fSecond_eq]
  simp only [Nat.add_assoc]

/-! ## The size and the bytes -/

/-- The bytes of the version, the mask, the unspent outputs and the
height. -/
def bodySize (coins : CCoins) : Nat :=
  getSizeOfVarInt32 coins.nVersion + coins.calcMaskSize.1 +
    (coins.vout.map (outSize ops)).sum + getSizeOfVarInt32 coins.nHeight

theorem length_flatMap_writeOut (vout : List CTxOut) :
    (vout.flatMap fun txout =>
      if txout.isNull then [] else writeTxOut ops txout).length =
        (vout.map (outSize ops)).sum := by
  rw [List.length_flatMap]
  refine congrArg List.sum (List.map_congr_left fun txout _ => ?_)
  rw [outSize]
  cases txout.isNull <;> rfl

/-- Both functions on a record with something unspent. -/
theorem sizes_of_not_pruned {coins : CCoins} (h : coins.isPruned = false) :
    coins.getSerializeSize ops =
        some ((getSizeOfVarInt
          ((8 * coins.codedGroups + coins.headerFlags) % 2 ^ 32) +
            coins.bodySize ops) % 2 ^ 32) ∧
      (coins.serialize ops).map List.length =
        some (getSizeOfVarInt
          ((16 * coins.codedGroups + coins.headerFlags) % 2 ^ 32) +
            coins.bodySize ops) := by
  have hcond : (coins.fFirst || coins.fSecond ||
      decide (coins.calcMaskSize.2 ≠ 0)) = true := by
    rcases assert_of_not_pruned h with h | h
    · rw [h, Bool.true_or]
    · rw [decide_eq_true h, Bool.or_true]
  constructor
  · have hsize : coins.getSerializeSize ops =
        some ((getSizeOfVarInt32 coins.nVersion +
          getSizeOfVarInt (coins.sizeHeaderCode coins.calcMaskSize.2) +
          coins.calcMaskSize.1 + (coins.vout.map (outSize ops)).sum +
          getSizeOfVarInt32 coins.nHeight) % 2 ^ 32) := if_pos hcond
    rw [hsize, sizeHeaderCode_eq, bodySize]
    refine congrArg (fun n => some (n % 2 ^ 32)) ?_
    ring
  · have hwritten : coins.serialize ops = some
        (writeVarInt32 coins.nVersion ++
          (writeVarInt (coins.headerCode coins.calcMaskSize.2) ++
          ((List.range coins.calcMaskSize.1).map coins.maskByte ++
          (coins.vout.flatMap (fun txout =>
            if txout.isNull then [] else writeTxOut ops txout) ++
          writeVarInt32 coins.nHeight)))) := if_pos hcond
    rw [hwritten, Option.map_some, headerCode_eq, bodySize]
    simp only [List.length_append, length_writeVarInt32, length_writeVarInt,
      length_flatMap_writeOut, List.length_map, List.length_range]
    refine congrArg some ?_
    ring

/-- Neither function returns for a record that is spent completely. -/
theorem sizes_of_pruned {coins : CCoins} (h : coins.isPruned = true) :
    coins.getSerializeSize ops = none ∧ coins.serialize ops = none := by
  have havail : ∀ pos, coins.avail pos = false := by
    intro pos
    by_cases hpos : pos < coins.vout.length
    · have hnull := List.all_eq_true.mp h _ (List.getElem_mem hpos)
      rw [avail, isNullAt, List.getD_eq_getElem _ _ hpos, hnull]
      rfl
    · exact avail_of_length_le (Nat.not_lt.mp hpos)
  have hcount : coins.calcMaskSize.2 = 0 := by
    rw [calcMaskSize_snd, unspentGroups, List.countP_eq_zero]
    simp [havail]
  have hcond : ¬ (coins.fFirst || coins.fSecond ||
      decide (coins.calcMaskSize.2 ≠ 0)) = true := by
    rw [fFirst_eq, fSecond_eq, havail, havail, hcount]
    decide
  exact ⟨if_neg hcond, if_neg hcond⟩

theorem getSizeOfVarInt_mod_bounds (n : Nat) :
    0 < getSizeOfVarInt (n % 2 ^ 32) ∧ getSizeOfVarInt (n % 2 ^ 32) ≤ 5 := by
  have hle : varIntBounds.countP (· < n % 2 ^ 32) ≤ 4 := List.countP_le_length
  rw [getSizeOfVarInt_eq (Nat.mod_lt n (by decide))]
  omega

/-- **When the size is right.**  `GetSerializeSize` is the number of bytes
`Serialize` writes exactly when the record is spent completely (and both
assertions fail), or its groups and flags make header codes of one length
under both factors and all the bytes can be counted in an `unsigned int`. -/
theorem getSerializeSize_iff (coins : CCoins) :
    coins.getSerializeSize ops = (coins.serialize ops).map List.length ↔
      coins.isPruned = true ∨
        SameVarIntSize ((8 * coins.codedGroups + coins.headerFlags) % 2 ^ 32)
            ((16 * coins.codedGroups + coins.headerFlags) % 2 ^ 32) ∧
          getSizeOfVarInt
              ((16 * coins.codedGroups + coins.headerFlags) % 2 ^ 32) +
            coins.bodySize ops < 2 ^ 32 := by
  cases hpruned : coins.isPruned with
  | true =>
      obtain ⟨hsize, hwritten⟩ := sizes_of_pruned ops hpruned
      simp [hsize, hwritten]
  | false =>
      obtain ⟨hsize, hwritten⟩ := sizes_of_not_pruned ops hpruned
      have h8 := getSizeOfVarInt_mod_bounds
        (8 * coins.codedGroups + coins.headerFlags)
      have h16 := getSizeOfVarInt_mod_bounds
        (16 * coins.codedGroups + coins.headerFlags)
      rw [hsize, hwritten, ← getSizeOfVarInt_eq_iff (Nat.mod_lt _ (by decide))
        (Nat.mod_lt _ (by decide)), Option.some_inj]
      constructor
      · intro h
        right
        omega
      · rintro (h | ⟨hsame, hfit⟩)
        · cases h
        · rw [hsame, Nat.mod_eq_of_lt hfit]

/-- Sixty-six unspent outputs: the first two and eight groups. -/
def longCoins : CCoins :=
  { vout := List.replicate 66 { nValue := 1, scriptPubKey := [] }
    nHeight := 1
    nVersion := 1 }

/-- Their header code is 140, of two bytes; the size function takes it for
76, of one. -/
theorem getSerializeSize_longCoins :
    longCoins.getSerializeSize noUncompressedKeys ≠
      (longCoins.serialize noUncompressedKeys).map List.length := by
  obtain ⟨hsize, hwritten⟩ := sizes_of_not_pruned noUncompressedKeys
    (by decide +kernel : longCoins.isPruned = false)
  have h8 : (8 * longCoins.codedGroups + longCoins.headerFlags) % 2 ^ 32 =
      76 := by decide +kernel
  have h16 : (16 * longCoins.codedGroups + longCoins.headerFlags) % 2 ^ 32 =
      140 := by decide +kernel
  rw [hsize, hwritten, h8, h16, getSizeOfVarInt_eq (by decide),
    getSizeOfVarInt_eq (by decide)]
  intro h
  have hsum := Option.some.inj h
  have hcount : varIntBounds.countP (· < 76) = 0 ∧
      varIntBounds.countP (· < 140) = 1 := by decide
  omega

end CCoins

end Agrarian.Coins
