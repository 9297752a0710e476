import Agrarian.Lib.ByteCodec
import Agrarian.Primitives
import Agrarian.Serialize.BufferedFile

/-!
# Loading an external block file

`LoadExternalBlockFile` scans a file for the start of a message, reads the
block behind it, and begins again one byte further where that fails.  The scan
resumes with `SetPos`, whose result it does not look at, and it ends where the
buffer is at the end of the file, which a block that is cut off has brought it
to.
-/

namespace Agrarian.Validation

open Agrarian.Lib Agrarian.Lib.ByteCodec Agrarian.Lib.RingBuffer
open Agrarian.Serialize Agrarian.Serialize.CBufferedFile

/-- A file of the disk, whose size is an `off_t`. -/
structure SourceFile where
  bytes : List UInt8
  size_lt : bytes.length < 2 ^ 63

/-- A deserializer: how much it reads next depends on what it has read. -/
inductive Unserializer (β : Type)
  | done (b : β)
  | throws (text : String)
  | read (nSize : Nat) (next : List UInt8 → Unserializer β)

def Unserializer.run {β : Type} : Unserializer β → EStateM Stop CBufferedFile β
  | .done b => pure b
  | .throws text => throw (.failure text)
  | .read nSize next => do
      let bytes ← CBufferedFile.read nSize
      (next bytes).run

/-- What the loop is given: the start of a message, the deserializer of blocks,
what is done with a block at a position (and whether the loop goes on), and the
turns a search may take. -/
structure Loader (σ Block : Type) where
  MessageStart : List UInt8
  unserialize : Unserializer Block
  process : σ → Nat → Block → σ × Bool
  turns : Nat

/-- The loop at its head. -/
structure Scan (σ : Type) where
  blkdat : CBufferedFile
  nRewind : Nat
  node : σ

/-- How a turn of the loop ends. -/
inductive Turn (σ : Type)
  | goesOn (s : Scan σ)
  | ends (node : σ)
  /-- An access outside of the buffer, or a search that has not ended. -/
  | stuck

namespace Loader

variable {σ Block : Type} (l : Loader σ Block)

/-- Locate a header: where to begin next, and the size of the block if there
is one. -/
def locateHeader : EStateM Stop CBufferedFile (Nat × Option Nat) := do
  FindByte (l.MessageStart.headD 0) l.turns
  let pos ← GetPos
  let nRewind := pos + 1
  let buf ← CBufferedFile.read 4
  if buf ≠ l.MessageStart then pure (nRewind, none)
  else
    let bytes ← CBufferedFile.read 4
    let nSize := ofLE bytes
    if nSize < 80 ∨ nSize > MAX_BLOCK_SIZE_CURRENT then pure (nRewind, none)
    else pure (nRewind, some nSize)

/-- The start of a turn. -/
def resume (nRewind : Nat) : EStateM Stop CBufferedFile (Nat × Option Nat) := do
  let _ ← SetPos nRewind
  let _ ← SetLimit (2 ^ 64 - 1)  -- remove former limit
  l.locateHeader

/-- Read a block. -/
def readBlock (nSize : Nat) : EStateM Stop CBufferedFile (Nat × Block) := do
  let nBlockPos ← GetPos
  let _ ← SetLimit (uint64 (nBlockPos + nSize))
  let _ ← SetPos nBlockPos
  let block ← l.unserialize.run
  pure (nBlockPos, block)

/-- A turn of the loop of `LoadExternalBlockFile`. -/
def turn (s : Scan σ) : Turn σ :=
  match (l.resume s.nRewind).run s.blkdat with
  -- no valid block header found; don't complain
  | .error (.failure _) _ => .ends s.node
  | .error _ _ => .stuck
  | .ok (nRewind, none) f => .goesOn ⟨f, nRewind, s.node⟩
  | .ok (nRewind, some nSize) f =>
      match (l.readBlock nSize).run f with
      -- Deserialize or I/O error
      | .error (.failure _) f => .goesOn ⟨f, nRewind, s.node⟩
      | .error _ _ => .stuck
      | .ok (nBlockPos, block) f =>
          let result := l.process s.node nBlockPos block
          if result.2 then .goesOn ⟨f, f.nReadPos, result.1⟩
          else .ends result.1

/-- The loop as it is entered. -/
def start (file : SourceFile) (node : σ) : Scan σ where
  blkdat := CBufferedFile.new file.bytes (2 * MAX_BLOCK_SIZE_CURRENT)
    (MAX_BLOCK_SIZE_CURRENT + 8)
  nRewind := 0
  node := node

/-- A turn that is taken and after which the loop goes on. -/
def Goes (s s' : Scan σ) : Prop := s.blkdat.eof = false ∧ l.turn s = .goesOn s'

/-- What the loop comes to. -/
def Reached (file : SourceFile) (node : σ) (s : Scan σ) : Prop :=
  Relation.ReflTransGen l.Goes (start file node) s

/-- The turn found a header at `x` whose block does not parse. -/
def FailsAt (s : Scan σ) (x : Nat) (s' : Scan σ) : Prop :=
  ∃ nSize f text f', s.blkdat.eof = false ∧
    (l.resume s.nRewind).run s.blkdat = .ok (x + 1, some nSize) f ∧
    (l.readBlock nSize).run f = .error (.failure text) f' ∧
    s' = ⟨f', x + 1, s.node⟩

theorem FailsAt.goes {s s' : Scan σ} {x : Nat} (h : l.FailsAt s x s') :
    l.Goes s s' := by
  obtain ⟨nSize, f, text, f', hopen, hresume, hblock, rfl⟩ := h
  refine ⟨hopen, ?_⟩
  unfold turn
  rw [hresume]
  dsimp only
  rw [hblock]

end Loader

/-- Where the scan begins again, if it does. -/
def Scan.resumesAt {σ : Type} (s : Scan σ) : Option Nat :=
  if s.blkdat.eof then none
  else
    match (SetPos s.nRewind).run s.blkdat with
    | .ok _ f => some f.nReadPos
    | .error _ _ => none

/-! ## The loop keeps the buffer -/

section Keeps

variable {σ Block : Type} (l : Loader σ Block)
  {content : List UInt8} (hlen : content.length < 2 ^ 63)

/-- The buffer of the loader. -/
abbrev LoadInv (content : List UInt8) (h : Nat) (f : CBufferedFile) : Prop :=
  Inv content (2 * MAX_BLOCK_SIZE_CURRENT) (MAX_BLOCK_SIZE_CURRENT + 8) h f

abbrev LoadAt (content : List UInt8) (h p : Nat) (f : CBufferedFile) : Prop :=
  At content (2 * MAX_BLOCK_SIZE_CURRENT) (MAX_BLOCK_SIZE_CURRENT + 8) h p f

/-- A throw leaves the buffer of the loader. -/
abbrev LoadFailed (content : List UInt8) (h : Nat) : Stop → CBufferedFile → Prop :=
  Failed content (2 * MAX_BLOCK_SIZE_CURRENT) (MAX_BLOCK_SIZE_CURRENT + 8) h

theorem loadSize_lt : 2 * MAX_BLOCK_SIZE_CURRENT < 2 ^ 32 := by decide

theorem loadRewind_lt : MAX_BLOCK_SIZE_CURRENT + 8 < 2 * MAX_BLOCK_SIZE_CURRENT := by
  decide

include hlen

/-- A rewind within what the source has been read to keeps the buffer, also
where it does not get that far. -/
theorem ensures_setPos {h p : Nat} {pre : CBufferedFile → Prop}
    (hpre : ∀ f, pre f → LoadInv content h f ∧ p ≤ f.nSrcPos) :
    Ensures (LoadFailed content h) pre (SetPos p) (fun _ => LoadInv content h) := by
  apply ensures_iff.mpr
  intro f hf
  obtain ⟨hinv, hp⟩ := hpre f hf
  have hsmall := loadRewind_lt
  rw [hinv.setPos_eq hlen loadSize_lt loadRewind_lt hp]
  split_ifs with hback
  · exact hinv.moved hp (by omega)
  · exact hinv.moved (by omega) (by omega)

theorem ensures_read_inv {h nSize : Nat} :
    Ensures (LoadFailed content h) (LoadInv content h) (CBufferedFile.read nSize)
      (fun _ => LoadInv content h) :=
  ensures_anywhere fun p => (ensures_read hlen loadSize_lt loadRewind_lt nSize
    p).weaken_post fun _ _ hf => hf.2.inv

/-- Whatever is deserialized. -/
theorem ensures_unserialize {β : Type} (u : Unserializer β) {h : Nat} :
    Ensures (LoadFailed content h) (LoadInv content h) u.run
      (fun _ => LoadInv content h) := by
  induction u with
  | done b => exact Ensures.pure fun _ => id
  | throws text => exact Ensures.throw fun _ hf _ _ => hf
  | read nSize next ih => exact (ensures_read_inv hlen).bind ih

/-- What `locateHeader` leaves when it began at `p`: the header it found is at
the first such byte. -/
structure Loader.Located (l : Loader σ Block) (content : List UInt8) (h p : Nat)
    (found : Nat × Option Nat) (f : CBufferedFile) : Prop where
  inv : LoadInv content h f
  next : 0 < found.1
  reached : found.1 ≤ f.nSrcPos
  first : FirstFrom content p (l.MessageStart.headD 0) (found.1 - 1)
  start : found.2 ≠ none → slice content (found.1 - 1) 4 = l.MessageStart

omit hlen in
theorem ensures_getPos {h p : Nat} {ch : UInt8} :
    Ensures (LoadFailed content h)
      (fun f => LoadInv content h f ∧ FirstFrom content p ch f.nReadPos) GetPos
      (fun pos f => FirstFrom content p ch pos ∧ LoadAt content h pos f) := by
  refine Ensures.read.weaken_post ?_
  rintro _ f ⟨rfl, hf, hfirst⟩
  exact ⟨hfirst, hf, rfl⟩

theorem Loader.ensures_locateHeader {h p : Nat} :
    Ensures (LoadFailed content h) (LoadAt content h p) l.locateHeader
      (l.Located content h p) := by
  have hlocated : ∀ {pos k : Nat} {nSize : Option Nat} {f : CBufferedFile},
      FirstFrom content p (l.MessageStart.headD 0) pos →
      LoadAt content h (pos + (k + 1)) f →
      (nSize ≠ none → slice content pos 4 = l.MessageStart) →
      l.Located content h p (pos + 1, nSize) f := by
    intro pos k nSize f hfirst hf hstart
    have hbehind := hf.inv.behind
    have hpos := hf.pos
    exact ⟨hf.inv, Nat.succ_pos _, by dsimp only; omega, hfirst, hstart⟩
  unfold locateHeader
  refine (ensures_findByte hlen loadSize_lt loadRewind_lt _ _ p).bind fun _ => ?_
  refine ensures_getPos.bind_of fun pos hfirst => ?_
  refine (ensures_read hlen loadSize_lt loadRewind_lt 4 pos).bind_of fun buf hbuf => ?_
  refine Ensures.ite (fun _ => Ensures.pure fun f hf => ?_) fun hmagic => ?_
  · exact hlocated hfirst hf fun hsome => absurd rfl hsome
  · rw [not_not] at hmagic
    refine (ensures_read hlen loadSize_lt loadRewind_lt 4 _).bind_of fun _ _ => ?_
    refine Ensures.ite (fun _ => Ensures.pure fun f hf => ?_)
      fun _ => Ensures.pure fun f hf => ?_
    · exact hlocated hfirst hf fun hsome => absurd rfl hsome
    · exact hlocated hfirst hf fun _ => by rw [← hbuf, hmagic]

theorem Loader.ensures_readBlock {h nSize : Nat} :
    Ensures (LoadFailed content h) (LoadInv content h) (l.readBlock nSize)
      (fun _ => LoadInv content h) := by
  unfold readBlock
  apply ensures_anywhere
  intro p
  have hget : Ensures (LoadFailed content h) (LoadAt content h p) GetPos
      (fun pos f => pos = p ∧ LoadAt content h p f) :=
    Ensures.read.weaken_post fun pos f hf => ⟨hf.1.trans hf.2.pos, hf.2⟩
  refine hget.bind_of ?_
  rintro pos rfl
  have hset : Ensures (LoadFailed content h) (LoadAt content h pos) (SetPos pos)
      (fun _ => LoadInv content h) := by
    apply ensures_setPos hlen
    rintro f ⟨hf, rfl⟩
    exact ⟨hf, hf.behind⟩
  refine (ensures_setLimit _ _).bind fun _ => hset.bind fun _ => ?_
  exact (ensures_unserialize hlen l.unserialize).bind fun _ => Ensures.pure fun _ => id

/-- Where the rewind at the start of a turn leads. -/
def Scan.target (s : Scan σ) : Nat :=
  if s.blkdat.nSrcPos ≤ s.nRewind + (MAX_BLOCK_SIZE_CURRENT + 8) then s.nRewind
  else s.blkdat.nSrcPos - (MAX_BLOCK_SIZE_CURRENT + 8)

/-- At its head the loop has a good buffer and begins at what has been read. -/
abbrev ScanInv (content : List UInt8) (s : Scan σ) : Prop :=
  LoadInv content s.nRewind s.blkdat

theorem Scan.run_setPos {s : Scan σ} (hs : ScanInv content s) :
    ∃ b, (SetPos s.nRewind).run s.blkdat =
        .ok b { s.blkdat with nReadPos := s.target } ∧
      LoadAt content s.nRewind s.target { s.blkdat with nReadPos := s.target } := by
  have hreached := hs.reached
  have hsmall := loadRewind_lt
  unfold target
  rw [hs.setPos_eq hlen loadSize_lt loadRewind_lt hreached]
  split_ifs with hback
  · exact ⟨true, rfl, hs.moved hreached (by omega), rfl⟩
  · exact ⟨false, rfl, hs.moved (by omega) (by omega), rfl⟩

theorem Scan.resumesAt_eq {s : Scan σ} (hs : ScanInv content s) :
    s.resumesAt = if s.blkdat.eof then none else some s.target := by
  obtain ⟨b, hset, -⟩ := Scan.run_setPos hlen hs
  unfold resumesAt
  rw [hset]

/-- **When the scan resumes where it should.** -/
theorem Scan.resumesAt_iff {s : Scan σ} (hs : ScanInv content s) :
    s.resumesAt = some s.nRewind ↔ s.blkdat.eof = false ∧
      s.blkdat.nSrcPos ≤ s.nRewind + (MAX_BLOCK_SIZE_CURRENT + 8) := by
  rw [Scan.resumesAt_eq hlen hs]
  cases s.blkdat.eof with
  | true => simp
  | false =>
      rw [if_neg Bool.false_ne_true, Option.some_inj]
      unfold target
      split_ifs with hback
      · exact iff_of_true rfl ⟨rfl, hback⟩
      · refine iff_of_false (by omega) fun h => hback h.2

/-- The header that a turn finds is the first from where it resumes. -/
theorem Loader.located_resume {s : Scan σ} (hs : ScanInv content s) :
    Outcome (LoadFailed content s.nRewind) (l.Located content s.nRewind s.target)
      ((l.resume s.nRewind).run s.blkdat) := by
  obtain ⟨b, hset, hat⟩ := Scan.run_setPos hlen hs
  have hrest := (ensures_setLimit (2 ^ 64 - 1) s.target).bind fun _ =>
    l.ensures_locateHeader hlen (h := s.nRewind) (p := s.target)
  unfold resume
  rw [run_bind_of_ok hset]
  exact ensures_iff.mp hrest _ hat

/-- **One turn.** -/
theorem Loader.Goes.scanInv {s s' : Scan σ} (hgoes : l.Goes s s')
    (hs : ScanInv content s) : ScanInv content s' := by
  obtain ⟨-, hturn⟩ := hgoes
  have hlocated := l.located_resume hlen hs
  unfold turn at hturn
  split at hturn
  · cases hturn
  · cases hturn
  · next nRewind f hrun =>
      rw [hrun] at hlocated
      obtain rfl := Turn.goesOn.inj hturn
      exact { hlocated.inv with reached := hlocated.reached }
  · next nRewind nSize f hrun =>
      rw [hrun] at hlocated
      have hf : LoadInv content nRewind f :=
        { hlocated.inv with reached := hlocated.reached }
      have hkeeps : Ensures (LoadFailed content nRewind) (LoadInv content nRewind)
          (l.readBlock nSize) fun _ => LoadInv content nRewind :=
        l.ensures_readBlock hlen
      have hblock := ensures_iff.mp hkeeps f hf
      split at hturn
      · next text f' hrun' =>
          rw [hrun'] at hblock
          obtain rfl := Turn.goesOn.inj hturn
          exact hblock text rfl
      · cases hturn
      · next nBlockPos block f' hrun' =>
          rw [hrun'] at hblock
          dsimp only at hturn
          split_ifs at hturn
          obtain rfl := Turn.goesOn.inj hturn
          have hf' : LoadInv content nRewind f' := hblock
          exact { hf' with reached := hf'.behind }

end Keeps

/-- **The loop** keeps the buffer, whatever the file holds and whatever is done
with its blocks. -/
theorem Loader.reached_inv {σ Block : Type} (l : Loader σ Block) {file : SourceFile}
    {node : σ} {s : Scan σ} (h : l.Reached file node s) : ScanInv file.bytes s := by
  induction h with
  | refl => exact inv_new
  | tail _ hgoes ih => exact Loader.Goes.scanInv l file.size_lt hgoes ih

/-- **When the way back is there.**  After any successful calls the buffer keeps
its guarantee exactly if the source has not been read beyond the highest position
(or not beyond the rewind); and after a block that does not parse the scan of the
loader resumes one byte past its header exactly if the file has not come to its end
and the source has not been read by more than the rewind beyond that byte. -/
theorem rewind_guarantee_iff (file : SourceFile) :
    (∀ (B R : Nat) (calls : List Call) (f : CBufferedFile) (h : Nat),
      B < 2 ^ 32 → R < B →
      runCalls (CBufferedFile.new file.bytes B R, 0) calls = some (f, h) →
        (Guaranteed file.bytes R f h ↔ f.nSrcPos ≤ max R h)) ∧
    ∀ (σ Block : Type) (l : Loader σ Block) (node : σ) (s s' : Scan σ) (x : Nat),
      l.Reached file node s → l.FailsAt s x s' →
        (∃ q, s.resumesAt = some q ∧
          FirstFrom file.bytes q (l.MessageStart.headD 0) x) ∧
        slice file.bytes x 4 = l.MessageStart ∧
        (s'.resumesAt = some (x + 1) ↔ s'.blkdat.eof = false ∧
          s'.blkdat.nSrcPos ≤ x + 1 + (MAX_BLOCK_SIZE_CURRENT + 8)) := by
  constructor
  · intro B R calls f h hB hR hrun
    exact guaranteed_iff file.size_lt hB hR hrun
  · intro σ Block l node s s' x hreached hfails
    have hs := l.reached_inv hreached
    have hs' := Loader.Goes.scanInv l file.size_lt hfails.goes hs
    have hlocated := l.located_resume file.size_lt hs
    have hresume := Scan.resumesAt_eq file.size_lt hs
    have hiff := Scan.resumesAt_iff file.size_lt hs'
    obtain ⟨nSize, f, text, f', hopen, hrun, -, rfl⟩ := hfails
    rw [hrun] at hlocated
    have hsome : (some nSize : Option Nat) ≠ none := by simp
    refine ⟨⟨s.target, ?_, hlocated.first⟩, hlocated.start hsome, hiff⟩
    rw [hresume, hopen]
    rfl

section Example

/-- Three bytes. -/
private def threeBytes : SourceFile := ⟨[0, 0, 0], by decide⟩

/-- They are read ahead into a buffer of four. -/
private def readTo (nReadPos : Nat) : CBufferedFile where
  src := [0, 0, 0]
  feof := false
  nSrcPos := 3
  nReadPos := nReadPos
  nReadLimit := 2 ^ 64 - 1
  nRewind := 1
  vchBuf := [0, 0, 0, 0]

theorem rewind_guarantee_wholeFile : Guaranteed threeBytes.bytes 1 (readTo 3) 3 :=
  ((rewind_guarantee_iff threeBytes).1 4 1 [.read 3] (readTo 3) 3 (by decide)
    (by decide) (by decide +kernel)).mpr (by decide)

/-- After the first of the bytes the start cannot be gone back to. -/
theorem rewind_guarantee_readAhead :
    ¬ ∀ (file : SourceFile) (B R : Nat) (calls : List Call) (f : CBufferedFile)
      (h : Nat), R < B →
      runCalls (CBufferedFile.new file.bytes B R, 0) calls = some (f, h) →
        Guaranteed file.bytes R f h := by
  intro hall
  have hback := (hall threeBytes 4 1 [.read 1] (readTo 1) 1 (by decide)
    (by decide +kernel)).rewinds 0 (by decide) (by decide)
  rw [run_setPos, if_pos (by decide)] at hback
  cases hback

end Example

end Agrarian.Validation
