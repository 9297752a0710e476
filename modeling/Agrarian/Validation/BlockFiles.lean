import Agrarian.Primitives
import Agrarian.Lib.Regions
import Agrarian.Lib.Run

/-!
# Places in the block files

`FindBlockPos` and `FindUndoPos` of `main.cpp` give out places in the files that
hold the blocks and in those that hold their undo data.  A block goes to the end
of the last block file, or of the next one that has room for it; undo data goes
to the end of the undo file with the number of the block's file.

Sizes are unsigned 32-bit numbers.  What a call asks the file system for, and
the set of records to be written, are not read by it and left out.
-/

namespace Agrarian.Validation

open Agrarian.Lib

/-- 128 MiB. -/
def MAX_BLOCKFILE_SIZE : Nat := 0x8000000

/-- 16 MiB. -/
def BLOCKFILE_CHUNK_SIZE : Nat := 0x1000000

/-- 1 MiB. -/
def UNDOFILE_CHUNK_SIZE : Nat := 0x100000

structure CDiskBlockPos where
  nFile : Nat
  nPos : Nat
  deriving DecidableEq, Repr

structure CBlockFileInfo where
  /-- The number of blocks stored in the file. -/
  nBlocks : Nat := 0
  /-- The number of used bytes of the block file. -/
  nSize : Nat := 0
  /-- The number of used bytes in the undo file. -/
  nUndoSize : Nat := 0
  nHeightFirst : Nat := 0
  nHeightLast : Nat := 0
  nTimeFirst : Nat := 0
  nTimeLast : Nat := 0
  deriving DecidableEq, Repr

/-- Update statistics (does not update `nSize`). -/
def CBlockFileInfo.addBlock (info : CBlockFileInfo) (nHeightIn nTimeIn : Nat) :
    CBlockFileInfo :=
  { info with
    nHeightFirst :=
      if info.nBlocks = 0 ∨ nHeightIn < info.nHeightFirst then nHeightIn
      else info.nHeightFirst
    nTimeFirst :=
      if info.nBlocks = 0 ∨ nTimeIn < info.nTimeFirst then nTimeIn
      else info.nTimeFirst
    nBlocks := (info.nBlocks + 1) % 2 ^ 32
    nHeightLast := max info.nHeightLast nHeightIn
    nTimeLast := max info.nTimeLast nTimeIn }

structure BlockFiles where
  vinfoBlockFile : List CBlockFileInfo := []
  nLastBlockFile : Nat := 0

namespace BlockFiles

/-- The record of a file; a new one where there is none. -/
def info (s : BlockFiles) (nFile : Nat) : CBlockFileInfo :=
  s.vinfoBlockFile[nFile]?.getD {}

/-- `vinfoBlockFile.resize`, which only grows here. -/
def resize (vinfoBlockFile : List CBlockFileInfo) (n : Nat) : List CBlockFileInfo :=
  vinfoBlockFile ++ List.replicate (n - vinfoBlockFile.length) ({} : CBlockFileInfo)

/-- The loop that leaves files without room for a block, over the records from
`nFile` on; behind the last one there is always a new one.  `none` where it
would go on for ever. -/
def leaveFull (nAddSize : Nat) : List CBlockFileInfo → Nat → Option Nat
  | [], nFile =>
      if MAX_BLOCKFILE_SIZE ≤ nAddSize % 2 ^ 32 then none else some nFile
  | info :: rest, nFile =>
      if MAX_BLOCKFILE_SIZE ≤ (info.nSize + nAddSize) % 2 ^ 32 then
        leaveFull nAddSize rest (nFile + 1)
      else some nFile

/-- Whether the chunks that are new can be had. -/
def allocateChunks (checkDiskSpace : Nat → Bool) (nChunkSize nPos nNewSize : Nat) : Bool :=
  let nOldChunks := (nPos + nChunkSize - 1) % 2 ^ 32 / nChunkSize
  let nNewChunks := (nNewSize + nChunkSize - 1) % 2 ^ 32 / nChunkSize
  if nOldChunks < nNewChunks then
    checkDiskSpace ((nNewChunks * nChunkSize + 2 ^ 32 - nPos) % 2 ^ 32)
  else true

/-- `FindBlockPos`, for a block with a known place or a new one: whether there
is space on the disk, the place and the records. -/
def findBlockPos (checkDiskSpace : Nat → Bool) (s : BlockFiles)
    (known : Option CDiskBlockPos) (nAddSize nHeight nTime : Nat) :
    Option (Bool × CDiskBlockPos × BlockFiles) :=
  match known with
  | some pos =>
      let vinfo := resize s.vinfoBlockFile (pos.nFile + 1)
      let info := (s.info pos.nFile).addBlock nHeight nTime
      let nSize := max ((pos.nPos + nAddSize) % 2 ^ 32) info.nSize
      some (true, pos,
        { vinfoBlockFile := vinfo.set pos.nFile { info with nSize := nSize }
          nLastBlockFile := pos.nFile })
  | none =>
      (leaveFull nAddSize (s.vinfoBlockFile.drop s.nLastBlockFile)
          s.nLastBlockFile).map fun nFile =>
        let vinfo := resize s.vinfoBlockFile (nFile + 1)
        let nPos := (s.info nFile).nSize
        let nSize := (nPos + nAddSize) % 2 ^ 32
        let info := (s.info nFile).addBlock nHeight nTime
        (allocateChunks checkDiskSpace BLOCKFILE_CHUNK_SIZE nPos nSize, ⟨nFile, nPos⟩,
          { vinfoBlockFile := vinfo.set nFile { info with nSize := nSize }
            nLastBlockFile := nFile })

/-- `FindUndoPos`, for a file that a block was stored in. -/
def findUndoPos (checkDiskSpace : Nat → Bool) (s : BlockFiles) (nFile nAddSize : Nat) :
    Option (Bool × CDiskBlockPos × BlockFiles) :=
  (s.vinfoBlockFile[nFile]?).map fun info =>
    let nNewSize := (info.nUndoSize + nAddSize) % 2 ^ 32
    (allocateChunks checkDiskSpace UNDOFILE_CHUNK_SIZE info.nUndoSize nNewSize,
      ⟨nFile, info.nUndoSize⟩,
      { s with
        vinfoBlockFile := s.vinfoBlockFile.set nFile { info with nUndoSize := nNewSize } })

/-! ## Runs -/

/-- A call for a new block, or for the undo data of a stored one. -/
inductive Call where
  | findBlockPos (nBlockSize : Nat) (hsize : nBlockSize ≤ MAX_BLOCK_SIZE_CURRENT)
      (nHeight nTime : Nat) (checkDiskSpace : Nat → Bool)
  | findUndoPos (nFile : Nat) (nAddSize : UInt32) (checkDiskSpace : Nat → Bool)

/-- The records, and the places given out so far. -/
structure Places where
  files : BlockFiles := {}
  blocks : List (Region Nat) := []
  undos : List (Region Nat) := []

/-- One call; the block is stored behind eight bytes of its own. -/
def Places.step (s : Places) : Call → Places
  | .findBlockPos nBlockSize _ nHeight nTime checkDiskSpace =>
      match s.files.findBlockPos checkDiskSpace none (nBlockSize + 8) nHeight nTime with
      | none => s
      | some (_, pos, files) =>
          { s with
            files := files
            blocks := s.blocks ++ [⟨pos.nFile, pos.nPos, nBlockSize + 8⟩] }
  | .findUndoPos nFile nAddSize checkDiskSpace =>
      match s.files.findUndoPos checkDiskSpace nFile nAddSize.toNat with
      | none => s
      | some (_, pos, files) =>
          { s with
            files := files
            undos := s.undos ++ [⟨pos.nFile, pos.nPos, nAddSize.toNat⟩] }

/-- The places are apart and inside of the recorded sizes, and no block file is
too large. -/
structure Sound (s : Places) : Prop where
  blocks : Packed (fun nFile => (s.files.info nFile).nSize) s.blocks
  undos : Packed (fun nFile => (s.files.info nFile).nUndoSize) s.undos
  bounded : ∀ nFile, (s.files.info nFile).nSize ≤ MAX_BLOCKFILE_SIZE

/-! ## Records -/

variable {s : BlockFiles}

theorem getD_resize (vinfoBlockFile : List CBlockFileInfo) (n nFile : Nat) :
    (resize vinfoBlockFile n)[nFile]?.getD {} = vinfoBlockFile[nFile]?.getD {} := by
  unfold resize
  by_cases hold : nFile < vinfoBlockFile.length
  · rw [List.getElem?_append_left hold]
  · rw [List.getElem?_append_right (by omega), List.getElem?_eq_none (by omega : _ ≤ nFile),
      List.getElem?_replicate]
    split
    · rfl
    · rfl

theorem getD_set_resize (vinfoBlockFile : List CBlockFileInfo) (n nFile : Nat)
    (info : CBlockFileInfo) :
    ((resize vinfoBlockFile (n + 1)).set n info)[nFile]?.getD {} =
      if nFile = n then info else vinfoBlockFile[nFile]?.getD {} := by
  by_cases hsame : nFile = n
  · have hlength : n < (resize vinfoBlockFile (n + 1)).length := by
      rw [resize, List.length_append, List.length_replicate]
      omega
    rw [if_pos hsame, hsame, List.getElem?_set_self hlength, Option.getD_some]
  · rw [if_neg hsame, List.getElem?_set_ne (Ne.symm hsame), getD_resize]

/-- The file in which the loop ends has room. -/
theorem leaveFull_eq_some {nAddSize nFile : Nat} {k : Nat}
    (h : leaveFull nAddSize (s.vinfoBlockFile.drop k) k = some nFile) :
    ((s.info nFile).nSize + nAddSize) % 2 ^ 32 < MAX_BLOCKFILE_SIZE := by
  generalize hrest : s.vinfoBlockFile.drop k = rest at h
  induction rest generalizing k with
  | nil =>
      unfold leaveFull at h
      split at h
      · cases h
      · rename_i hroom
        obtain rfl := Option.some.inj h
        have hnew : s.info k = {} := by
          rw [info, List.getElem?_eq_none (List.drop_eq_nil_iff.mp hrest)]
          rfl
        rw [hnew, Nat.zero_add]
        exact not_le.mp hroom
  | cons record rest ih =>
      unfold leaveFull at h
      split at h
      · refine ih ?_ h
        rw [← List.tail_drop, hrest, List.tail_cons]
      · rename_i hroom
        obtain rfl := Option.some.inj h
        have hrecord : s.info k = record := by
          rw [info, ← List.head?_drop, hrest]
          rfl
        rw [hrecord]
        exact not_le.mp hroom

/-- The loop ends for every block that fits into an empty file. -/
theorem leaveFull_isSome {nAddSize : Nat} (hfits : nAddSize < MAX_BLOCKFILE_SIZE)
    (records : List CBlockFileInfo) (k : Nat) :
    ∃ nFile, leaveFull nAddSize records k = some nFile := by
  induction records generalizing k with
  | nil =>
      have hsmall : nAddSize % 2 ^ 32 < MAX_BLOCKFILE_SIZE :=
        (Nat.mod_le _ _).trans_lt hfits
      exact ⟨k, by rw [leaveFull, if_neg (by omega)]⟩
  | cons record records ih =>
      unfold leaveFull
      split
      · exact ih (k + 1)
      · exact ⟨k, rfl⟩

/-- All that a new block does to the records. -/
theorem findBlockPos_ends {nBlockSize : Nat} (hsize : nBlockSize ≤ MAX_BLOCK_SIZE_CURRENT)
    (s : BlockFiles) (checkDiskSpace : Nat → Bool) (nHeight nTime : Nat) :
    ∃ ok nFile files,
      s.findBlockPos checkDiskSpace none (nBlockSize + 8) nHeight nTime =
        some (ok, ⟨nFile, (s.info nFile).nSize⟩, files) ∧
      ((s.info nFile).nSize + (nBlockSize + 8)) % 2 ^ 32 < MAX_BLOCKFILE_SIZE ∧
      (files.info nFile).nSize = ((s.info nFile).nSize + (nBlockSize + 8)) % 2 ^ 32 ∧
      (∀ other ≠ nFile, (files.info other).nSize = (s.info other).nSize) ∧
      ∀ other, (files.info other).nUndoSize = (s.info other).nUndoSize := by
  have hfits : nBlockSize + 8 < MAX_BLOCKFILE_SIZE := by
    unfold MAX_BLOCK_SIZE_CURRENT at hsize
    unfold MAX_BLOCKFILE_SIZE
    omega
  obtain ⟨nFile, hfile⟩ := leaveFull_isSome hfits
    (s.vinfoBlockFile.drop s.nLastBlockFile) s.nLastBlockFile
  refine ⟨_, nFile, _, by rw [findBlockPos, hfile, Option.map_some],
    leaveFull_eq_some hfile, ?_, ?_, ?_⟩
  · rw [info, getD_set_resize, if_pos rfl]
  · intro other hother
    rw [info, getD_set_resize, if_neg hother]
    rfl
  · intro other
    rw [info, getD_set_resize]
    split
    · rename_i hsame
      rw [hsame]
      rfl
    · rfl

/-- All that undo data does to the records. -/
theorem findUndoPos_spec (checkDiskSpace : Nat → Bool) {nFile : Nat} (nAddSize : Nat)
    (hfile : nFile < s.vinfoBlockFile.length) :
    ∃ ok files, s.findUndoPos checkDiskSpace nFile nAddSize =
        some (ok, ⟨nFile, (s.info nFile).nUndoSize⟩, files) ∧
      (files.info nFile).nUndoSize = ((s.info nFile).nUndoSize + nAddSize) % 2 ^ 32 ∧
      (∀ other ≠ nFile, (files.info other).nUndoSize = (s.info other).nUndoSize) ∧
      ∀ other, (files.info other).nSize = (s.info other).nSize := by
  have hrecord : s.vinfoBlockFile[nFile]? = some (s.info nFile) := by
    rw [info, List.getElem?_eq_getElem hfile, Option.getD_some]
  refine ⟨_, _, by rw [findUndoPos, hrecord, Option.map_some], ?_, ?_, ?_⟩
  · rw [info, List.getElem?_set_self hfile, Option.getD_some]
  · intro other hother
    rw [info, List.getElem?_set_ne (Ne.symm hother)]
    rfl
  · intro other
    by_cases hsame : other = nFile
    · rw [info, hsame, List.getElem?_set_self hfile, Option.getD_some]
    · rw [info, List.getElem?_set_ne (Ne.symm hsame)]
      rfl

/-! ## Places -/

/-- Undo data does not carry the size of its file beyond 32 bits. -/
def UndoFits (s : Places) : Call → Prop
  | .findBlockPos .. => True
  | .findUndoPos nFile nAddSize _ => nFile < s.files.vinfoBlockFile.length →
      (s.files.info nFile).nUndoSize + nAddSize.toNat < 2 ^ 32

/-- **One call** keeps the places sound if and only if the size of the undo file
does not wrap around. -/
theorem step_sound_iff {s : Places} (h : Sound s) (call : Call) :
    Sound (s.step call) ↔ UndoFits s call := by
  cases call with
  | findBlockPos nBlockSize hsize nHeight nTime checkDiskSpace =>
      refine iff_of_true ?_ trivial
      obtain ⟨ok, nFile, files, hcall, hroom, hgrown, hothers, hundo⟩ :=
        findBlockPos_ends hsize s.files checkDiskSpace nHeight nTime
      have hexact : ((s.files.info nFile).nSize + (nBlockSize + 8)) % 2 ^ 32 =
          (s.files.info nFile).nSize + (nBlockSize + 8) := by
        have hbound := h.bounded nFile
        unfold MAX_BLOCK_SIZE_CURRENT at hsize
        unfold MAX_BLOCKFILE_SIZE at hbound
        exact Nat.mod_eq_of_lt (by omega)
      simp only [Places.step, hcall]
      constructor
      · exact h.blocks.append rfl (by rw [Region.stop, hgrown, hexact]) hothers
      · exact h.undos.mono fun other => (hundo other).ge
      · intro other
        by_cases hsame : other = nFile
        · rw [hsame, hgrown]
          exact hroom.le
        · rw [hothers other hsame]
          exact h.bounded other
  | findUndoPos nFile nAddSize checkDiskSpace =>
      by_cases hfile : nFile < s.files.vinfoBlockFile.length
      · obtain ⟨ok, files, hcall, hgrown, hothers, hsizes⟩ :=
          findUndoPos_spec checkDiskSpace nAddSize.toNat hfile
        simp only [Places.step, hcall]
        by_cases hfits : (s.files.info nFile).nUndoSize + nAddSize.toNat < 2 ^ 32
        · refine iff_of_true ?_ fun _ => hfits
          rw [Nat.mod_eq_of_lt hfits] at hgrown
          constructor
          · exact h.blocks.mono fun other => (hsizes other).ge
          · exact h.undos.append rfl (by rw [Region.stop, hgrown]) hothers
          · intro other
            rw [hsizes]
            exact h.bounded other
        · refine iff_of_false ?_ fun hall => hfits (hall hfile)
          intro hsound
          refine Packed.not_append ?_ hsound.undos
          show (files.info nFile).nUndoSize < (s.files.info nFile).nUndoSize + nAddSize.toNat
          rw [hgrown]
          have hwrap := Nat.mod_lt
            ((s.files.info nFile).nUndoSize + nAddSize.toNat) (y := 2 ^ 32) (by decide)
          omega
      · have hcall : s.files.findUndoPos checkDiskSpace nFile nAddSize.toNat = none := by
          rw [findUndoPos, List.getElem?_eq_none (by omega), Option.map_none]
        simp only [Places.step, hcall]
        exact iff_of_true h fun hin => absurd hin hfile

/-- **In every run**, from files that are sound, the places of blocks and undo
data are apart and inside of the recorded sizes, and no block file is too large,
if and only if no undo file outgrows 32 bits. -/
theorem sound_iff {start : Places} (hstart : Sound start) (calls : List Call) :
    (∀ reached rest, calls = reached ++ rest → Sound (reached.foldl Places.step start)) ↔
      EachAfter (fun before call => UndoFits (before.foldl Places.step start) call) calls :=
  EachAfter.forall_reached_iff hstart fun _ call h => step_sound_iff h call

section Example

theorem sound_empty : Sound {} where
  blocks := Packed.nil
  undos := Packed.nil
  bounded := by
    intro nFile
    exact Nat.zero_le _

/-- A largest block and its undo data. -/
def blockAndUndo : List Call :=
  [.findBlockPos MAX_BLOCK_SIZE_CURRENT (Nat.le_refl _) 1 1 fun _ => true,
    .findUndoPos 0 400000040 fun _ => true]

theorem sound_blockAndUndo : Sound (blockAndUndo.foldl Places.step {}) := by
  refine (sound_iff sound_empty blockAndUndo).mpr ?_ blockAndUndo [] (by simp)
  intro before call after hcalls
  cases call with
  | findBlockPos => trivial
  | findUndoPos nFile nAddSize checkDiskSpace =>
      rcases before with _ | ⟨first, _ | ⟨second, before⟩⟩
      · cases hcalls
      · cases hcalls
        intro _
        decide
      · simp [blockAndUndo] at hcalls

/-- Eleven largest blocks go into the first file.  If the undo data of each has
400 MB, the eleventh is no longer inside of the recorded size. -/
theorem undo_file_wraps : ¬ Sound
    ((List.replicate 11 (Call.findBlockPos MAX_BLOCK_SIZE_CURRENT (Nat.le_refl _) 1 1 fun _ => true) ++
      List.replicate 11 (Call.findUndoPos 0 400000040 fun _ => true)).foldl Places.step {}) := by
  intro h
  have hinside := h.undos.inside ⟨0, 4000000400, 400000040⟩ (by decide)
  exact absurd hinside (by decide)

end Example

end BlockFiles

end Agrarian.Validation
