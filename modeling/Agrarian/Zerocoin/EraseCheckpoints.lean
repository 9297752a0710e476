import Agrarian.Lib.KeyedMap
import Agrarian.Zerocoin.Supply

/-!
# Erasing accumulator checkpoints

The checkpoint of a block holds the checksums of eight accumulators, and most
of them it shares with the blocks around it.  `EraseCheckpoints` takes those of
a range of blocks out of the accumulator database, and means to leave the ones
of the block in front of the range.

The list it keeps for that is of checksums, but what it looks for there is the
checkpoint.  So a checksum that is shared goes with the others.
-/

namespace Agrarian.Zerocoin

open Agrarian.Lib Agrarian.Validation
open Agrarian.Stake (parseChecksum denomPos)

variable {Value : Type}

/-- Where the value of an accumulator is found under its checksum: in memory and
in the database. -/
structure ChecksumStore (Value : Type) where
  mapAccumulatorValues : KeyedMap (BitVec 32) Value
  zerocoinDB : KeyedMap (BitVec 32) Value

namespace ChecksumStore

/-- `EraseChecksum`: erase from both memory and database. -/
def eraseChecksum (s : ChecksumStore Value) (nChecksum : BitVec 32) :
    ChecksumStore Value where
  mapAccumulatorValues := s.mapAccumulatorValues.erase nChecksum
  zerocoinDB := s.zerocoinDB.erase nChecksum

/-- `GetAccumulatorValueFromChecksum`, where a value is found. -/
def accumulatorValue (s : ChecksumStore Value) (nChecksum : BitVec 32) :
    Option Value :=
  match s.mapAccumulatorValues.find? nChecksum with
  | some bnAccValue => some bnAccValue
  | none => s.zerocoinDB.find? nChecksum

/-- The inner loop of `EraseCheckpoints`. -/
def eraseCheckpoint (listCheckpointsPrev : List (BitVec 32))
    (nCheckpointDelete : Uint256) (s : ChecksumStore Value) : ChecksumStore Value :=
  zerocoinDenomList.foldl (fun s denom =>
    let nChecksumDelete := parseChecksum nCheckpointDelete denom
    -- the checkpoint is compared, as a number, with the checksums of the list
    if (listCheckpointsPrev.map (BitVec.setWidth 256)).count nCheckpointDelete ≠ 0
    then s else s.eraseChecksum nChecksumDelete) s

/-- The outer loop, at the block of a height: from there on the chain has the
checkpoints of the list, and at its end the next block is a null pointer. -/
def eraseLoop (listCheckpointsPrev : List (BitVec 32)) (nEndHeight : Int) :
    Int → List Uint256 → ChecksumStore Value → Option (ChecksumStore Value)
  | _, [], _ => none
  | nHeight, nCheckpointDelete :: rest, s =>
      let s := s.eraseCheckpoint listCheckpointsPrev nCheckpointDelete
      if nHeight + 1 ≤ nEndHeight then
        eraseLoop listCheckpointsPrev nEndHeight (nHeight + 1) rest s
      else some s

/-- `EraseCheckpoints` on the active chain with these checkpoints: the result
and what is left, unless a null pointer is followed. -/
def eraseCheckpoints (chainActive : List Uint256) (nStartHeight nEndHeight : Int)
    (s : ChecksumStore Value) : Option (Bool × ChecksumStore Value) :=
  let height : Int := (chainActive.length : Int) - 1
  if height < nStartHeight then some (false, s)
  else
    let nEndHeight := min height nEndHeight
    -- no block below the first, and none in front of it
    if nStartHeight < 1 then none
    else
      match chainActive[nStartHeight.toNat - 1]? with
      | none => none
      | some nCheckpointPrev =>
          let listCheckpointsPrev := zerocoinDenomList.map (parseChecksum nCheckpointPrev)
          (eraseLoop listCheckpointsPrev nEndHeight nStartHeight
            (chainActive.drop nStartHeight.toNat) s).map fun s => (true, s)

end ChecksumStore

/-! ## The checksums that are erased -/

/-- The checksums a checkpoint holds. -/
def checksumsOf (nCheckpoint : Uint256) : List (BitVec 32) :=
  zerocoinDenomList.map (parseChecksum nCheckpoint)

/-- The checkpoint is, as a number, one of the checksums of the previous one. -/
def Skipped (nCheckpointPrev nCheckpoint : Uint256) : Prop :=
  ∃ nChecksum ∈ checksumsOf nCheckpointPrev, nCheckpoint = nChecksum.setWidth 256

instance (nCheckpointPrev nCheckpoint : Uint256) :
    Decidable (Skipped nCheckpointPrev nCheckpoint) :=
  inferInstanceAs (Decidable (∃ nChecksum ∈ checksumsOf nCheckpointPrev, _))

/-- What is erased at one block. -/
def erasedAt (nCheckpointPrev nCheckpoint : Uint256) : List (BitVec 32) :=
  if Skipped nCheckpointPrev nCheckpoint then [] else checksumsOf nCheckpoint

namespace ChecksumStore

def eraseAll (s : ChecksumStore Value) (keys : List (BitVec 32)) :
    ChecksumStore Value where
  mapAccumulatorValues := s.mapAccumulatorValues.eraseAll keys
  zerocoinDB := s.zerocoinDB.eraseAll keys

theorem eraseAll_append (s : ChecksumStore Value) (keys keys' : List (BitVec 32)) :
    s.eraseAll (keys ++ keys') = (s.eraseAll keys).eraseAll keys' := by
  unfold eraseAll KeyedMap.eraseAll
  rw [List.foldl_append, List.foldl_append]

theorem foldl_eraseChecksum (s : ChecksumStore Value) (keys : List (BitVec 32)) :
    keys.foldl eraseChecksum s = s.eraseAll keys := by
  induction keys generalizing s with
  | nil => rfl
  | cons key keys ih =>
      rw [List.foldl_cons, ih]
      rfl

theorem eraseCheckpoint_eq (nCheckpointPrev nCheckpoint : Uint256)
    (s : ChecksumStore Value) :
    s.eraseCheckpoint (checksumsOf nCheckpointPrev) nCheckpoint =
      s.eraseAll (erasedAt nCheckpointPrev nCheckpoint) := by
  have hskipped : ((checksumsOf nCheckpointPrev).map (BitVec.setWidth 256)).count
      nCheckpoint ≠ 0 ↔ Skipped nCheckpointPrev nCheckpoint := by
    rw [← Nat.pos_iff_ne_zero, List.count_pos_iff, List.mem_map]
    constructor
    · rintro ⟨nChecksum, hmem, rfl⟩
      exact ⟨nChecksum, hmem, rfl⟩
    · rintro ⟨nChecksum, hmem, rfl⟩
      exact ⟨nChecksum, hmem, rfl⟩
  unfold eraseCheckpoint erasedAt
  simp only [hskipped]
  by_cases hskip : Skipped nCheckpointPrev nCheckpoint
  · simp only [hskip, if_true]
    exact List.foldl_fixed zerocoinDenomList
  · simp only [hskip, if_false]
    rw [← foldl_eraseChecksum, checksumsOf, List.foldl_map]

/-- **The loop** erases at the block it begins with, and at those up to the end
height. -/
theorem eraseLoop_eq (nCheckpointPrev : Uint256) {nEndHeight nHeight : Int}
    {rest : List Uint256} (hrest : rest ≠ [])
    (hend : nEndHeight < nHeight + rest.length) (s : ChecksumStore Value) :
    eraseLoop (checksumsOf nCheckpointPrev) nEndHeight nHeight rest s =
      some (s.eraseAll ((rest.take (max 1 (nEndHeight + 1 - nHeight).toNat)).flatMap
        (erasedAt nCheckpointPrev))) := by
  induction rest generalizing nHeight s with
  | nil => exact absurd rfl hrest
  | cons nCheckpointDelete rest ih =>
      rw [eraseLoop, eraseCheckpoint_eq]
      by_cases hnext : nHeight + 1 ≤ nEndHeight
      · have hmore : rest ≠ [] := by
          rintro rfl
          simp only [List.length_cons, List.length_nil] at hend
          omega
        have hcount : max 1 (nEndHeight + 1 - nHeight).toNat =
            max 1 (nEndHeight + 1 - (nHeight + 1)).toNat + 1 := by omega
        rw [if_pos hnext, ih hmore (by rw [List.length_cons] at hend; omega), hcount,
          List.take_succ_cons, List.flatMap_cons, eraseAll_append]
      · have hcount : max 1 (nEndHeight + 1 - nHeight).toNat = 1 := by omega
        rw [if_neg hnext, hcount, List.take_succ_cons, List.take_zero,
          List.flatMap_singleton]

/-- A value is kept under the checksum. -/
def Stored (s : ChecksumStore Value) (nChecksum : BitVec 32) : Prop :=
  s.mapAccumulatorValues.find? nChecksum ≠ none ∨ s.zerocoinDB.find? nChecksum ≠ none

end ChecksumStore

/-! ## What should be erased -/

section Range

variable (chainActive : List Uint256) (nStartHeight nEndHeight : Int)

/-- The block at a height of the range has the checkpoint. -/
def InRange (nCheckpoint : Uint256) : Prop :=
  ∃ h : Nat, nStartHeight ≤ h ∧ h ≤ nEndHeight ∧ chainActive[h]? = some nCheckpoint

/-- The block at a height the loop comes to has the checkpoint: those of the
range, and the first in any case. -/
def Visited (nCheckpoint : Uint256) : Prop :=
  InRange chainActive nStartHeight (max nStartHeight nEndHeight) nCheckpoint

/-- The block in front of the range has the checkpoint. -/
def Previous (nCheckpoint : Uint256) : Prop :=
  ∃ h : Nat, (h : Int) + 1 = nStartHeight ∧ chainActive[h]? = some nCheckpoint

/-- A checksum of the range that the block in front of it does not have. -/
structure ShouldErase (nChecksum : BitVec 32) : Prop where
  range : ∃ nCheckpoint, InRange chainActive nStartHeight nEndHeight nCheckpoint ∧
    nChecksum ∈ checksumsOf nCheckpoint
  fresh : ∀ nCheckpoint, Previous chainActive nStartHeight nCheckpoint →
    nChecksum ∉ checksumsOf nCheckpoint

/-- `EraseCheckpoints` erases what it should and nothing else, and the values of
the previous checkpoint can still be loaded. -/
def ErasesExactly (s : ChecksumStore Value) : Prop :=
  ∃ b s', s.eraseCheckpoints chainActive nStartHeight nEndHeight = some (b, s') ∧
    (∀ nChecksum, ShouldErase chainActive nStartHeight nEndHeight nChecksum →
      ¬ s'.Stored nChecksum) ∧
    (∀ nChecksum, ¬ ShouldErase chainActive nStartHeight nEndHeight nChecksum →
      s'.mapAccumulatorValues.find? nChecksum = s.mapAccumulatorValues.find? nChecksum ∧
        s'.zerocoinDB.find? nChecksum = s.zerocoinDB.find? nChecksum) ∧
    ∀ nCheckpoint, Previous chainActive nStartHeight nCheckpoint →
      ∀ nChecksum ∈ checksumsOf nCheckpoint,
        s'.accumulatorValue nChecksum = s.accumulatorValue nChecksum

/-- The block in front of the range does not share what is erased, and no
checksum is missed because a checkpoint was taken for one of its checksums: such
a checkpoint is a small number, and its other checksums are zero. -/
structure ErasesApart (s : ChecksumStore Value) : Prop where
  positive : 1 ≤ nStartHeight
  apart : ∀ nCheckpointPrev, Previous chainActive nStartHeight nCheckpointPrev →
    ∀ nCheckpoint, Visited chainActive nStartHeight nEndHeight nCheckpoint →
      ¬ Skipped nCheckpointPrev nCheckpoint →
      ∀ nChecksum ∈ checksumsOf nCheckpoint, s.Stored nChecksum →
        nStartHeight ≤ nEndHeight ∧ nChecksum ∉ checksumsOf nCheckpointPrev
  zero : ∀ nCheckpointPrev, Previous chainActive nStartHeight nCheckpointPrev →
    s.Stored 0 → 0 ∉ checksumsOf nCheckpointPrev →
    (∃ nCheckpoint, InRange chainActive nStartHeight nEndHeight nCheckpoint ∧
      Skipped nCheckpointPrev nCheckpoint) →
    ∃ nCheckpoint, InRange chainActive nStartHeight nEndHeight nCheckpoint ∧
      ¬ Skipped nCheckpointPrev nCheckpoint ∧ 0 ∈ checksumsOf nCheckpoint

end Range

/-- A checkpoint that is a checksum as a number holds it in the last place. -/
theorem parseChecksum_setWidth (nChecksum : BitVec 32) (denom : CoinDenomination) :
    parseChecksum (nChecksum.setWidth 256) denom =
      if denom = .ZQ_FIVE_THOUSAND then nChecksum else 0 := by
  have hlt := nChecksum.isLt
  have hwide : nChecksum.toNat % 2 ^ 256 = nChecksum.toNat :=
    Nat.mod_eq_of_lt (hlt.trans (Nat.pow_lt_pow_right (by decide) (by decide)))
  apply BitVec.eq_of_toNat_eq
  unfold parseChecksum
  rw [BitVec.toNat_setWidth, BitVec.toNat_ushiftRight, BitVec.toNat_setWidth, hwide,
    Nat.shiftRight_eq_div_pow]
  by_cases hlast : denom = .ZQ_FIVE_THOUSAND
  · rw [if_pos hlast, hlast]
    show nChecksum.toNat / 2 ^ 0 % 2 ^ 32 = nChecksum.toNat
    rw [Nat.pow_zero, Nat.div_one, Nat.mod_eq_of_lt hlt]
  · have hpos : 32 ≤ 32 * (7 - denomPos denom) := by
      cases denom with
      | ZQ_FIVE_THOUSAND => exact absurd rfl hlast
      | _ => decide
    have hsmall := hlt.trans_le (Nat.pow_le_pow_right (by decide : 0 < 2) hpos)
    rw [if_neg hlast, Nat.div_eq_of_lt hsmall]
    rfl

theorem mem_checksumsOf_of_skipped {nCheckpointPrev nCheckpoint : Uint256}
    (h : Skipped nCheckpointPrev nCheckpoint) {nChecksum : BitVec 32}
    (hmem : nChecksum ∈ checksumsOf nCheckpoint) :
    nChecksum ∈ checksumsOf nCheckpointPrev ∨ nChecksum = 0 := by
  obtain ⟨k, hk, rfl⟩ := h
  obtain ⟨denom, -, rfl⟩ := List.mem_map.mp hmem
  rw [parseChecksum_setWidth]
  split_ifs
  · exact Or.inl hk
  · exact Or.inr rfl

theorem zero_mem_checksumsOf_of_skipped {nCheckpointPrev nCheckpoint : Uint256}
    (h : Skipped nCheckpointPrev nCheckpoint) : 0 ∈ checksumsOf nCheckpoint := by
  obtain ⟨k, -, rfl⟩ := h
  refine List.mem_map.mpr ⟨.ZQ_ONE, by decide, ?_⟩
  rw [parseChecksum_setWidth]
  rfl

/-! ## What is erased -/

section Exact

variable {chainActive : List Uint256} {nStartHeight nEndHeight : Int}
  {s : ChecksumStore Value}

/-- The checksums of the blocks that the loop does not skip. -/
def Erased (chainActive : List Uint256) (nStartHeight nEndHeight : Int)
    (nCheckpointPrev : Uint256) (nChecksum : BitVec 32) : Prop :=
  ∃ nCheckpoint, Visited chainActive nStartHeight nEndHeight nCheckpoint ∧
    ¬ Skipped nCheckpointPrev nCheckpoint ∧ nChecksum ∈ checksumsOf nCheckpoint

theorem ChecksumStore.find?_eraseAll_of_not_mem {keys : List (BitVec 32)}
    {nChecksum : BitVec 32} (hmem : nChecksum ∉ keys) :
    (s.eraseAll keys).mapAccumulatorValues.find? nChecksum =
        s.mapAccumulatorValues.find? nChecksum ∧
      (s.eraseAll keys).zerocoinDB.find? nChecksum = s.zerocoinDB.find? nChecksum := by
  unfold eraseAll
  rw [KeyedMap.find?_eraseAll, KeyedMap.find?_eraseAll, if_neg hmem, if_neg hmem]
  exact ⟨rfl, rfl⟩

theorem ChecksumStore.stored_eraseAll (s : ChecksumStore Value)
    (keys : List (BitVec 32)) (nChecksum : BitVec 32) :
    (s.eraseAll keys).Stored nChecksum ↔ nChecksum ∉ keys ∧ s.Stored nChecksum := by
  unfold Stored
  by_cases hmem : nChecksum ∈ keys
  · unfold eraseAll
    rw [KeyedMap.find?_eraseAll, KeyedMap.find?_eraseAll, if_pos hmem, if_pos hmem]
    simp [hmem]
  · have hsame := find?_eraseAll_of_not_mem (s := s) hmem
    rw [hsame.1, hsame.2]
    exact (and_iff_right hmem).symm

theorem mem_take_drop {l : List Uint256} {a n : Nat} {x : Uint256} :
    x ∈ (l.drop a).take n ↔ ∃ h, a ≤ h ∧ h < a + n ∧ l[h]? = some x := by
  rw [List.mem_iff_getElem?]
  constructor
  · rintro ⟨i, hi⟩
    rw [List.getElem?_take] at hi
    split_ifs at hi with hlt
    rw [List.getElem?_drop] at hi
    exact ⟨a + i, by omega, by omega, hi⟩
  · rintro ⟨h, hlow, hhigh, hget⟩
    refine ⟨h - a, ?_⟩
    rw [List.getElem?_take_of_lt (by omega), List.getElem?_drop,
      Nat.add_sub_cancel' hlow, hget]

/-- Above the tip there is nothing to do. -/
theorem eraseCheckpoints_above
    (habove : (chainActive.length : Int) - 1 < nStartHeight) :
    ErasesExactly chainActive nStartHeight nEndHeight s := by
  have hnone : ∀ nChecksum,
      ¬ ShouldErase chainActive nStartHeight nEndHeight nChecksum := by
    rintro nChecksum ⟨⟨nCheckpoint, ⟨h, hlow, -, hget⟩, -⟩, -⟩
    have hlt := (List.getElem?_eq_some_iff.mp hget).1
    omega
  refine ⟨false, s, ?_, ?_, fun _ _ => ⟨rfl, rfl⟩, fun _ _ _ _ => rfl⟩
  · unfold ChecksumStore.eraseCheckpoints
    dsimp only
    rw [if_pos habove]
  · intro nChecksum hshould
    exact absurd hshould (hnone nChecksum)

/-- **The call** on a range that begins in the chain. -/
theorem eraseCheckpoints_eq (hlow : 1 ≤ nStartHeight)
    (hhigh : nStartHeight < chainActive.length) :
    ∃ nCheckpointPrev keys, Previous chainActive nStartHeight nCheckpointPrev ∧
      s.eraseCheckpoints chainActive nStartHeight nEndHeight =
        some (true, s.eraseAll keys) ∧
      ∀ nChecksum, nChecksum ∈ keys ↔
        Erased chainActive nStartHeight nEndHeight nCheckpointPrev nChecksum := by
  obtain ⟨start, rfl⟩ : ∃ start : Nat, nStartHeight = (start : Int) + 1 :=
    ⟨(nStartHeight - 1).toNat, by omega⟩
  have hprev : start < chainActive.length := by omega
  have hget : chainActive[start]? = some chainActive[start] :=
    List.getElem?_eq_getElem hprev
  have hdrop : chainActive.drop (start + 1) ≠ [] := by
    rw [ne_eq, List.drop_eq_nil_iff]
    omega
  have htoNat : ((start : Int) + 1).toNat = start + 1 := by omega
  obtain ⟨n, hn⟩ : ∃ n, n = max 1
      (min ((chainActive.length : Int) - 1) nEndHeight + 1 - ((start : Int) + 1)).toNat :=
    ⟨_, rfl⟩
  refine ⟨chainActive[start], ((chainActive.drop (start + 1)).take n).flatMap
    (erasedAt chainActive[start]), ⟨start, rfl, hget⟩, ?_, ?_⟩
  · unfold ChecksumStore.eraseCheckpoints
    dsimp only
    rw [if_neg (by omega), if_neg (by omega), htoNat, Nat.add_sub_cancel, hget]
    dsimp only
    have hinside : min ((chainActive.length : Int) - 1) nEndHeight <
        (start : Int) + 1 + (chainActive.drop (start + 1)).length := by
      rw [List.length_drop]
      omega
    have hloop := ChecksumStore.eraseLoop_eq chainActive[start] hdrop hinside s
    unfold checksumsOf at hloop
    rw [hloop, ← hn]
    rfl
  · intro nChecksum
    have hvisited : ∀ nCheckpoint,
        nCheckpoint ∈ (chainActive.drop (start + 1)).take n ↔
          Visited chainActive ((start : Int) + 1) nEndHeight nCheckpoint := by
      intro nCheckpoint
      rw [mem_take_drop]
      constructor
      · rintro ⟨h, hfrom, hto, hblock⟩
        exact ⟨h, by omega, by omega, hblock⟩
      · rintro ⟨h, hfrom, hto, hblock⟩
        have hlt := (List.getElem?_eq_some_iff.mp hblock).1
        exact ⟨h, by omega, by omega, hblock⟩
    rw [List.mem_flatMap]
    constructor
    · rintro ⟨nCheckpoint, hmem, herased⟩
      unfold erasedAt at herased
      split_ifs at herased with hskip
      · cases herased
      · exact ⟨nCheckpoint, (hvisited _).mp hmem, hskip, herased⟩
    · rintro ⟨nCheckpoint, hvisit, hskip, hmem⟩
      refine ⟨nCheckpoint, (hvisited _).mpr hvisit, ?_⟩
      unfold erasedAt
      rwa [if_neg hskip]

/-- There is one block in front of the range. -/
theorem Previous.unique {nCheckpoint nCheckpoint' : Uint256}
    (h : Previous chainActive nStartHeight nCheckpoint)
    (h' : Previous chainActive nStartHeight nCheckpoint') :
    nCheckpoint = nCheckpoint' := by
  obtain ⟨i, hi, hget⟩ := h
  obtain ⟨i', hi', hget'⟩ := h'
  obtain rfl : i = i' := by omega
  exact Option.some.inj (hget.symm.trans hget')

theorem InRange.visited {nCheckpoint : Uint256}
    (h : InRange chainActive nStartHeight nEndHeight nCheckpoint) :
    Visited chainActive nStartHeight nEndHeight nCheckpoint := by
  obtain ⟨i, hlow, hhigh, hget⟩ := h
  exact ⟨i, hlow, by omega, hget⟩

theorem Visited.inRange {nCheckpoint : Uint256}
    (h : Visited chainActive nStartHeight nEndHeight nCheckpoint)
    (hrange : nStartHeight ≤ nEndHeight) :
    InRange chainActive nStartHeight nEndHeight nCheckpoint := by
  obtain ⟨i, hlow, hhigh, hget⟩ := h
  exact ⟨i, hlow, by omega, hget⟩

/-- The call erases exactly what it should if of the values that are kept it
erases exactly those. -/
theorem erasesExactly_iff_erased (hlow : 1 ≤ nStartHeight)
    (hhigh : nStartHeight < chainActive.length) {nCheckpointPrev : Uint256}
    (hprev : Previous chainActive nStartHeight nCheckpointPrev) :
    ErasesExactly chainActive nStartHeight nEndHeight s ↔
      ∀ nChecksum, s.Stored nChecksum →
        (Erased chainActive nStartHeight nEndHeight nCheckpointPrev nChecksum ↔
          ShouldErase chainActive nStartHeight nEndHeight nChecksum) := by
  obtain ⟨nCheckpointPrev', keys, hprev', hcall, hkeys⟩ :=
    @eraseCheckpoints_eq _ _ _ nEndHeight s hlow hhigh
  obtain rfl := hprev.unique hprev'
  constructor
  · rintro ⟨b, s', hcall', hgone, hkept, -⟩ nChecksum hstored
    obtain ⟨-, rfl⟩ := Prod.mk.inj (Option.some.inj (hcall.symm.trans hcall'))
    rw [← hkeys]
    constructor
    · intro hmem
      by_contra hshould
      have hsame := hkept nChecksum hshould
      have hstored' : (s.eraseAll keys).Stored nChecksum := by
        unfold ChecksumStore.Stored
        rw [hsame.1, hsame.2]
        exact hstored
      exact ((s.stored_eraseAll keys nChecksum).mp hstored').1 hmem
    · intro hshould
      by_contra hmem
      exact hgone nChecksum hshould
        ((s.stored_eraseAll keys nChecksum).mpr ⟨hmem, hstored⟩)
  · intro hexact
    have hkept : ∀ nChecksum,
        ¬ ShouldErase chainActive nStartHeight nEndHeight nChecksum →
        (s.eraseAll keys).mapAccumulatorValues.find? nChecksum =
            s.mapAccumulatorValues.find? nChecksum ∧
          (s.eraseAll keys).zerocoinDB.find? nChecksum =
            s.zerocoinDB.find? nChecksum := by
      intro nChecksum hshould
      by_cases hmem : nChecksum ∈ keys
      · -- nothing is kept under a checksum that is erased although it should stay
        have hnone : ¬ s.Stored nChecksum := fun hstored =>
          hshould ((hexact _ hstored).mp ((hkeys _).mp hmem))
        obtain ⟨hmap, hdb⟩ := not_or.mp hnone
        unfold ChecksumStore.eraseAll
        rw [KeyedMap.find?_eraseAll, KeyedMap.find?_eraseAll, if_pos hmem, if_pos hmem,
          not_not.mp hmap, not_not.mp hdb]
        exact ⟨rfl, rfl⟩
      · exact ChecksumStore.find?_eraseAll_of_not_mem hmem
    refine ⟨true, s.eraseAll keys, hcall, ?_, hkept, ?_⟩
    · intro nChecksum hshould hstored'
      obtain ⟨hmem, hstored⟩ := (s.stored_eraseAll keys nChecksum).mp hstored'
      exact hmem ((hkeys _).mpr ((hexact _ hstored).mpr hshould))
    · intro nCheckpoint hprevious nChecksum hmem
      have hsame := hkept nChecksum fun hshould => hshould.fresh _ hprevious hmem
      unfold ChecksumStore.accumulatorValue
      rw [hsame.1, hsame.2]

/-- **When the previous checkpoint is spared.**  The call erases the checksums of
the range that the block in front of it does not have, and no others, exactly if
the range is above the tip, or it shares none of the checksums whose values are
kept with that block, other than in checkpoints that are skipped. -/
theorem erasesExactly_iff (chainActive : List Uint256) (nStartHeight nEndHeight : Int)
    (s : ChecksumStore Value) :
    ErasesExactly chainActive nStartHeight nEndHeight s ↔
      (chainActive.length : Int) - 1 < nStartHeight ∨
        ErasesApart chainActive nStartHeight nEndHeight s := by
  by_cases habove : (chainActive.length : Int) - 1 < nStartHeight
  · exact iff_of_true (eraseCheckpoints_above habove) (Or.inl habove)
  rw [or_iff_right habove]
  by_cases hlow : nStartHeight < 1
  · -- a null pointer is followed
    refine iff_of_false ?_ fun h => absurd h.positive (by omega)
    rintro ⟨b, s', hcall, -⟩
    unfold ChecksumStore.eraseCheckpoints at hcall
    dsimp only at hcall
    rw [if_neg habove, if_pos hlow] at hcall
    cases hcall
  obtain ⟨nCheckpointPrev, -, hprev, -⟩ :=
    @eraseCheckpoints_eq _ chainActive _ nEndHeight s (not_lt.mp hlow) (by omega)
  rw [erasesExactly_iff_erased (not_lt.mp hlow) (by omega) hprev]
  constructor
  · intro hexact
    refine ⟨not_lt.mp hlow, ?_, ?_⟩
    · intro nCheckpointPrev' hprev' nCheckpoint hvisit hskip nChecksum hmem hstored
      obtain rfl := hprev.unique hprev'
      have hshould := (hexact nChecksum hstored).mp ⟨nCheckpoint, hvisit, hskip, hmem⟩
      obtain ⟨_, ⟨h, hfrom, hto, -⟩, -⟩ := hshould.range
      exact ⟨by omega, hshould.fresh _ hprev⟩
    · rintro nCheckpointPrev' hprev' hstored hfresh ⟨nCheckpoint, hrange, hskip⟩
      obtain rfl := hprev.unique hprev'
      have hshould : ShouldErase chainActive nStartHeight nEndHeight 0 := by
        refine ⟨⟨nCheckpoint, hrange, zero_mem_checksumsOf_of_skipped hskip⟩, ?_⟩
        intro nCheckpointPrev' hprev'
        obtain rfl := hprev.unique hprev'
        exact hfresh
      obtain ⟨nCheckpoint', hvisit', hskip', hmem'⟩ := (hexact 0 hstored).mpr hshould
      obtain ⟨h, hfrom, hto, -⟩ := hrange
      exact ⟨nCheckpoint', hvisit'.inRange (by omega), hskip', hmem'⟩
  · intro hapart nChecksum hstored
    constructor
    · rintro ⟨nCheckpoint, hvisit, hskip, hmem⟩
      obtain ⟨hrange, hfresh⟩ :=
        hapart.apart _ hprev nCheckpoint hvisit hskip nChecksum hmem hstored
      refine ⟨⟨nCheckpoint, hvisit.inRange hrange, hmem⟩, ?_⟩
      intro nCheckpointPrev' hprev'
      obtain rfl := hprev.unique hprev'
      exact hfresh
    · rintro ⟨⟨nCheckpoint, hrange, hmem⟩, hfresh⟩
      by_cases hskip : Skipped nCheckpointPrev nCheckpoint
      · -- a skipped checkpoint has no other checksum than zero
        rcases mem_checksumsOf_of_skipped hskip hmem with hshared | rfl
        · exact absurd hshared (hfresh _ hprev)
        · obtain ⟨nCheckpoint', hrange', hskip', hmem'⟩ :=
            hapart.zero _ hprev hstored (hfresh _ hprev) ⟨nCheckpoint, hrange, hskip⟩
          exact ⟨nCheckpoint', hrange'.visited, hskip', hmem'⟩
      · exact ⟨nCheckpoint, hrange.visited, hskip, hmem⟩

end Exact

/-- A chain whose blocks have the same checkpoint, with one value kept: it is
lost with the last of them. -/
theorem erasesExactly_sameCheckpoint :
    ¬ ∀ (chainActive : List Uint256) (nStartHeight nEndHeight : Int)
      (s : ChecksumStore Nat), 1 ≤ nStartHeight → nStartHeight ≤ nEndHeight →
        ErasesExactly chainActive nStartHeight nEndHeight s := by
  intro h
  obtain ⟨b, s', hcall, -, -, hprev⟩ := h [5 <<< 224, 5 <<< 224] 1 1
    ⟨KeyedMap.empty, KeyedMap.empty.insert 5 7⟩ (by decide) (by decide)
  have hlost : (ChecksumStore.eraseCheckpoints [5 <<< 224, 5 <<< 224] 1 1
      ⟨KeyedMap.empty, KeyedMap.empty.insert 5 7⟩).map
        (fun result => result.2.accumulatorValue 5) = some (none : Option Nat) := by
    decide
  have hkept := hprev (5 <<< 224) ⟨0, rfl, rfl⟩ 5 (by decide)
  rw [hcall, Option.map_some, hkept] at hlost
  cases hlost

end Agrarian.Zerocoin
