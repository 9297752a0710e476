import Agrarian.Lib.Ensures
import Agrarian.Lib.RingBuffer

/-!
# `CBufferedFile`

A file is read through a ring buffer, so that a reader may go back a number of
bytes.  `Fill` reads the source on, `read` and `FindByte` follow it, and
`SetPos` is what goes back.

The rewind is measured from where the source has been read to, not from where
the reader has been.  A `Fill` may read ahead by the size of the buffer less
the rewind, and what it is ahead is missing from the way back.
-/

namespace Agrarian.Serialize

open Agrarian.Lib Agrarian.Lib.RingBuffer

/-- The value of an `unsigned int`. -/
def uint (x : Nat) : Nat := x % 2 ^ 32

/-- The value of a `uint64_t`. -/
def uint64 (x : Nat) : Nat := x % 2 ^ 64

/-- A difference of `uint64_t` values. -/
def uint64Sub (x y : Nat) : Nat := uint64 (x + 2 ^ 64 - y)

structure CBufferedFile where
  /-- The content of the source file, which is read from its start. -/
  src : List UInt8
  /-- The end-of-file indicator of the source. -/
  feof : Bool
  /-- How many bytes have been read from source. -/
  nSrcPos : Nat
  /-- How many bytes have been read from this. -/
  nReadPos : Nat
  /-- Up to which position we're allowed to read. -/
  nReadLimit : Nat
  /-- How many bytes we guarantee to rewind. -/
  nRewind : Nat
  /-- The buffer. -/
  vchBuf : List UInt8
  deriving DecidableEq

/-- How a call may not return. -/
inductive Stop
  /-- `std::ios_base::failure`. -/
  | failure (text : String)
  /-- An access outside of the buffer. -/
  | undefined
  /-- A loop that has not ended. -/
  | running

namespace CBufferedFile

/-- `CBufferedFile::CBufferedFile`. -/
def new (fileIn : List UInt8) (nBufSize nRewindIn : Nat) : CBufferedFile where
  src := fileIn
  feof := false
  nSrcPos := 0
  nReadPos := 0
  nReadLimit := 2 ^ 64 - 1
  nRewind := nRewindIn
  vchBuf := List.replicate nBufSize 0

/-- How many bytes `Fill` asks for. -/
def readNow (f : CBufferedFile) : Nat :=
  let pos := uint (f.nSrcPos % f.vchBuf.length)
  let readNow := uint (f.vchBuf.length - pos)
  let nAvail := uint (uint64Sub
    (uint64Sub f.vchBuf.length (uint64Sub f.nSrcPos f.nReadPos)) f.nRewind)
  if nAvail < readNow then nAvail else readNow

/-- `CBufferedFile::Fill`: read data from the source to fill the buffer. -/
def Fill : EStateM Stop CBufferedFile Bool := do
  let f ← get
  if f.readNow = 0 then pure false
  else
    let data := slice f.src f.nSrcPos f.readNow
    let feof := f.feof || decide (data.length < f.readNow)
    if data.length = 0 then
      set { f with feof }
      throw (.failure (if feof then "CBufferedFile::Fill : end of file"
        else "CBufferedFile::Fill : fread failed"))
    else
      set { f with
        feof
        vchBuf := overwrite f.vchBuf (uint (f.nSrcPos % f.vchBuf.length)) data
        nSrcPos := f.nSrcPos + data.length }
      pure true

/-- `CBufferedFile::eof`. -/
def eof (f : CBufferedFile) : Bool := f.nReadPos = f.nSrcPos && f.feof

/-- How many of `nSize` bytes a turn of `read` copies. -/
def copyNow (f : CBufferedFile) (nSize : Nat) : Nat :=
  let pos := uint (f.nReadPos % f.vchBuf.length)
  let nNow := if uint64 (nSize + pos) > f.vchBuf.length then f.vchBuf.length - pos
    else nSize
  if uint64 (nNow + f.nReadPos) > f.nSrcPos then uint64Sub f.nSrcPos f.nReadPos
  else nNow

/-- The copy of a turn of `read`. -/
def copy (nSize : Nat) : EStateM Stop CBufferedFile (List UInt8) := do
  let f ← get
  let pos := uint (f.nReadPos % f.vchBuf.length)
  let nNow := f.copyNow nSize
  if nSize < nNow ∨ f.vchBuf.length < pos + nNow then throw .undefined
  else
    set { f with nReadPos := uint64 (f.nReadPos + nNow) }
    pure (slice f.vchBuf pos nNow)

/-- `if (nReadPos == nSrcPos) Fill();`. -/
def fillAtEnd : EStateM Stop CBufferedFile Unit := do
  let f ← get
  if f.nReadPos = f.nSrcPos then
    let _ ← Fill
    pure ()
  else pure ()

/-- The loop of `CBufferedFile::read`.  A turn that copies nothing changes
nothing, so after as many turns as there were bytes it goes on for ever. -/
def readLoop : Nat → Nat → EStateM Stop CBufferedFile (List UInt8)
  | _, 0 => pure []
  | 0, _ + 1 => throw .running
  | turns + 1, nSize + 1 => do
      fillAtEnd
      let bytes ← copy (nSize + 1)
      let rest ← readLoop turns (nSize + 1 - bytes.length)
      pure (bytes ++ rest)

/-- `CBufferedFile::read`: read a number of bytes. -/
def read (nSize : Nat) : EStateM Stop CBufferedFile (List UInt8) := do
  let f ← get
  if uint64 (nSize + f.nReadPos) > f.nReadLimit then
    throw (.failure "Read attempted past buffer limit")
  else if uint64 (nSize + f.nRewind) > f.vchBuf.length then
    throw (.failure "Read larger than buffer size")
  else readLoop nSize nSize

/-- `CBufferedFile::GetPos`: return the current reading position. -/
def GetPos : EStateM Stop CBufferedFile Nat := nReadPos <$> get

/-- `CBufferedFile::SetPos`: rewind to a given reading position. -/
def SetPos (nPos : Nat) : EStateM Stop CBufferedFile Bool := do
  let f ← get
  if uint64 (nPos + f.nRewind) < f.nSrcPos then
    set { f with nReadPos := uint64Sub f.nSrcPos f.nRewind }
    pure false
  else if nPos > f.nSrcPos then
    set { f with nReadPos := f.nSrcPos }
    pure false
  else
    set { f with nReadPos := nPos }
    pure true

/-- `CBufferedFile::SetLimit`: prevent reading beyond a certain position. -/
def SetLimit (nPos : Nat) : EStateM Stop CBufferedFile Bool := do
  let f ← get
  if nPos < f.nReadPos then pure false
  else
    set { f with nReadLimit := nPos }
    pure true

/-- `CBufferedFile::FindByte`: search for a given byte in the stream, and
remain positioned on it, in so many turns at most. -/
def FindByte (ch : UInt8) : Nat → EStateM Stop CBufferedFile Unit
  | 0 => throw .running
  | turns + 1 => do
      fillAtEnd
      let f ← get
      match f.vchBuf[f.nReadPos % f.vchBuf.length]? with
      | none => throw .undefined
      | some b =>
          if b = ch then pure ()
          else
            set { f with nReadPos := uint64 (f.nReadPos + 1) }
            FindByte ch turns

/-! ## What the buffer holds -/

/-- The buffer of `B` bytes over a file of this content: it holds the bytes
read from the source last, and the reader, who has been as far as `h`, is at
one of them or behind the last. -/
structure Inv (content : List UInt8) (B R h : Nat) (f : CBufferedFile) : Prop where
  src : f.src = content
  size : f.vchBuf.length = B
  rewind : f.nRewind = R
  source : f.nSrcPos ≤ content.length
  reached : h ≤ f.nSrcPos
  behind : f.nReadPos ≤ f.nSrcPos
  window : f.nSrcPos ≤ f.nReadPos + B
  holds : Holds f.vchBuf content f.nSrcPos

/-- The reader is at a position. -/
structure At (content : List UInt8) (B R h p : Nat) (f : CBufferedFile) : Prop where
  inv : Inv content B R h f
  pos : f.nReadPos = p

/-- A call that throws leaves the buffer as good as before. -/
def Failed (content : List UInt8) (B R h : Nat) (e : Stop) (f : CBufferedFile) :
    Prop :=
  ∀ text, e = .failure text → Inv content B R h f

variable {content : List UInt8} {B R h : Nat}

/-- What holds at every position holds wherever the reader is. -/
theorem ensures_anywhere {α : Type} {m : EStateM Stop CBufferedFile α}
    {post : α → CBufferedFile → Prop}
    (hm : ∀ p, Ensures (Failed content B R h) (At content B R h p) m post) :
    Ensures (Failed content B R h) (Inv content B R h) m post :=
  ensures_iff.mpr fun f hf => ensures_iff.mp (hm f.nReadPos) f ⟨hf, rfl⟩

theorem inv_new : Inv content B R 0 (new content B R) where
  src := rfl
  size := List.length_replicate
  rewind := rfl
  source := Nat.zero_le _
  reached := le_refl _
  behind := le_refl _
  window := Nat.zero_le _
  holds := holds_zero _ _

section Calls

variable (hlen : content.length < 2 ^ 63) (hB : B < 2 ^ 32) (hR : R < B)

theorem uint_eq {x : Nat} (h : x < 2 ^ 32) : uint x = x := Nat.mod_eq_of_lt h

theorem uint64_eq {x : Nat} (h : x < 2 ^ 64) : uint64 x = x := Nat.mod_eq_of_lt h

theorem uint64Sub_eq {x y : Nat} (hle : y ≤ x) (hx : x < 2 ^ 64) :
    uint64Sub x y = x - y := by
  unfold uint64Sub uint64
  omega

include hB in
/-- The position in the buffer fits an `unsigned int`. -/
theorem uint_mod (x : Nat) (hpos : 0 < B) : uint (x % B) = x % B :=
  uint_eq ((Nat.mod_lt x hpos).trans hB)

include hlen hB hR in
/-- A source that is asked is asked for what fits in front of the end of the
buffer, and never for what may be gone back to. -/
theorem Inv.readNow_eq {f : CBufferedFile} (hf : Inv content B R h f)
    (hend : f.nReadPos = f.nSrcPos) :
    f.readNow = min (B - f.nSrcPos % B) (B - R) := by
  have hsource := hf.source
  have hmod := Nat.mod_lt f.nSrcPos (by omega : 0 < B)
  unfold readNow
  dsimp only
  rw [hf.size, hf.rewind, hend, uint_mod hB _ (by omega),
    uint_eq (x := B - _) (by omega), uint64Sub_eq (le_refl _) (by omega),
    Nat.sub_self, uint64Sub_eq (Nat.zero_le _) (by omega), Nat.sub_zero,
    uint64Sub_eq (by omega) (by omega), uint_eq (x := B - R) (by omega)]
  split_ifs <;> omega

include hlen hB hR in
/-- `Fill` at the end of what was read brings something, or throws. -/
theorem ensures_fill (p : Nat) :
    Ensures (Failed content B R h)
      (fun f => At content B R h p f ∧ f.nReadPos = f.nSrcPos) Fill
      (fun _ f => At content B R h p f ∧ f.nReadPos < f.nSrcPos) := by
  unfold Fill
  apply Ensures.get_bind
  rintro f ⟨⟨hf, rfl⟩, hend⟩
  have hsource := hf.source
  have hmod := Nat.mod_lt f.nSrcPos (by omega : 0 < B)
  have hnow := hf.readNow_eq hlen hB hR hend
  have hdata := length_slice f.src f.nSrcPos f.readNow
  rw [if_neg (by omega)]
  dsimp only
  apply Ensures.ite
  · intro _
    refine Ensures.bind (@Ensures.set _ _ _ _ _ (Inv content B R h) ?_) ?_
    · exact ⟨hf.src, hf.size, hf.rewind, hf.source, hf.reached, hf.behind, hf.window,
        hf.holds⟩
    · intro _
      exact Ensures.throw fun f' hf' _ _ => hf'
  · intro hsome
    have hpos : uint (f.nSrcPos % f.vchBuf.length) = f.nSrcPos % f.vchBuf.length := by
      rw [hf.size]
      exact uint_mod hB _ (by omega)
    have hfits : f.nSrcPos % f.vchBuf.length + (slice f.src f.nSrcPos f.readNow).length ≤
        f.vchBuf.length := by
      rw [hf.size]
      omega
    have hbytes : ∀ i, i < (slice f.src f.nSrcPos f.readNow).length →
        (slice f.src f.nSrcPos f.readNow)[i]? = content[f.nSrcPos + i]? := by
      intro i hi
      rw [getElem?_slice, if_pos (by omega), hf.src]
    have hreached := hf.reached
    rw [hf.src] at hdata
    refine Ensures.bind (@Ensures.set _ _ _ _ _ (fun f' =>
      At content B R h f.nReadPos f' ∧ f'.nReadPos < f'.nSrcPos) ?_) ?_
    · refine ⟨⟨⟨hf.src, ?_, hf.rewind, ?_, ?_, ?_, ?_, ?_⟩, rfl⟩, ?_⟩
      · dsimp only
        rw [hpos, length_overwrite hfits, hf.size]
      · dsimp only
        rw [hf.src] at hsome ⊢
        omega
      · dsimp only
        omega
      · dsimp only
        omega
      · dsimp only
        rw [hf.src]
        omega
      · dsimp only
        rw [hpos]
        exact hf.holds.overwrite hbytes hfits
      · dsimp only
        omega
    · intro _
      exact Ensures.pure fun _ hf' => hf'

include hlen hB hR in
theorem ensures_fillAtEnd (p : Nat) :
    Ensures (Failed content B R h) (At content B R h p) fillAtEnd
      (fun _ f => At content B R h p f ∧ f.nReadPos < f.nSrcPos) := by
  unfold fillAtEnd
  apply Ensures.get_bind
  intro f hf
  have hbehind := hf.inv.behind
  apply Ensures.ite
  · intro hend
    refine Ensures.bind ((ensures_fill hlen hB hR p).weaken_pre ?_) ?_
    · rintro _ rfl
      exact ⟨hf, hend⟩
    · intro _
      exact Ensures.pure fun _ hf' => hf'
  · intro hbefore
    apply Ensures.pure
    rintro _ rfl
    exact ⟨hf, by omega⟩

include hlen hB in
/-- What a turn copies has been read from the source. -/
theorem Inv.copyNow_le {f : CBufferedFile} (hf : Inv content B R h f) {nSize : Nat}
    (hfits : f.copyNow nSize ≤ B) : f.nReadPos + f.copyNow nSize ≤ f.nSrcPos := by
  have hsource := hf.source
  have hbehind := hf.behind
  revert hfits
  unfold copyNow
  dsimp only
  generalize (if uint64 (nSize + uint (f.nReadPos % f.vchBuf.length)) >
      f.vchBuf.length then _ else nSize) = nNow
  intro hfits
  split_ifs at hfits ⊢ with hpast
  · rw [uint64Sub_eq hbehind (by omega)]
    omega
  · rw [uint64_eq (by omega)] at hpast
    omega

include hlen hB in
/-- The bytes that are copied are those at the position. -/
theorem ensures_copy (p nSize : Nat) (hpos : 0 < B) :
    Ensures (Failed content B R h) (At content B R h p) (copy nSize)
      (fun bytes f => (bytes = slice content p bytes.length ∧ bytes.length ≤ nSize) ∧
        At content B R h (p + bytes.length) f) := by
  unfold copy
  apply Ensures.get_bind
  rintro f ⟨hf, rfl⟩
  have hmod := uint_mod hB f.nReadPos hpos
  have hsize := hf.size
  dsimp only
  apply Ensures.ite
  · intro _
    exact Ensures.throw fun _ _ text htext => (by cases htext)
  · intro hin
    obtain ⟨hle, hfits⟩ := not_or.mp hin
    rw [hsize, hmod] at hfits ⊢
    have hthere : f.nReadPos + f.copyNow nSize ≤ f.nSrcPos :=
      hf.copyNow_le hlen hB (by omega)
    have hsource := hf.source
    have hwindow := hf.window
    have hslice : slice f.vchBuf (f.nReadPos % B) (f.copyNow nSize) =
        slice content f.nReadPos (f.copyNow nSize) := by
      have := hf.holds.slice hthere (by omega) (by rw [hsize]; omega)
      rwa [hsize] at this
    have hbytes : (slice content f.nReadPos (f.copyNow nSize)).length =
        f.copyNow nSize := by
      rw [length_slice]
      omega
    refine Ensures.bind (@Ensures.set _ _ _ _ _
      (At content B R h (f.nReadPos + f.copyNow nSize)) ?_) ?_
    · rw [uint64_eq (by omega)]
      exact ⟨⟨hf.src, hsize, hf.rewind, hsource, hf.reached, hthere,
        by dsimp only; omega, hf.holds⟩, rfl⟩
    · intro _
      apply Ensures.pure
      intro f' hf'
      rw [hslice, hbytes]
      exact ⟨⟨rfl, by omega⟩, hf'⟩

include hlen hB hR in
/-- **The loop of a read** returns the bytes at the position. -/
theorem ensures_readLoop (turns nSize p : Nat) :
    Ensures (Failed content B R h) (At content B R h p) (readLoop turns nSize)
      (fun bytes f => bytes = slice content p nSize ∧
        At content B R h (p + nSize) f) := by
  induction turns generalizing nSize p with
  | zero =>
      cases nSize with
      | zero => exact Ensures.pure fun f hf => ⟨rfl, hf⟩
      | succ nSize => exact Ensures.throw fun _ _ text htext => (by cases htext)
  | succ turns ih =>
      cases nSize with
      | zero => exact Ensures.pure fun f hf => ⟨rfl, hf⟩
      | succ nSize =>
          have hfill := (ensures_fillAtEnd hlen hB hR (h := h) p).weaken_post
            fun _ _ => And.left
          unfold readLoop
          refine hfill.bind fun _ => ?_
          refine Ensures.bind_of (ensures_copy hlen hB p (nSize + 1) (by omega)) ?_
          rintro bytes ⟨hbytes, hle⟩
          refine Ensures.bind_of (ih (nSize + 1 - bytes.length) (p + bytes.length)) ?_
          intro rest hrest
          apply Ensures.pure
          intro f hf
          have hsplit := slice_add content p bytes.length (nSize + 1 - bytes.length)
          have hnSize := Nat.add_sub_cancel' hle
          rw [hnSize] at hsplit
          rw [Nat.add_assoc, hnSize] at hf
          exact ⟨by rw [hsplit, ← hbytes, hrest], hf⟩

include hlen hB hR in
/-- **A read** returns the bytes at the position. -/
theorem ensures_read (nSize p : Nat) :
    Ensures (Failed content B R h) (At content B R h p) (read nSize)
      (fun bytes f => bytes = slice content p nSize ∧
        At content B R h (p + nSize) f) := by
  unfold read
  apply Ensures.get_bind
  intro f hf
  refine Ensures.ite (fun _ => Ensures.throw ?_) fun _ => ?_
  · rintro _ rfl _ _
    exact hf.inv
  · refine Ensures.ite (fun _ => Ensures.throw ?_) fun _ => ?_
    · rintro _ rfl _ _
      exact hf.inv
    · refine (ensures_readLoop hlen hB hR nSize nSize p).weaken_pre ?_
      rintro _ rfl
      exact hf

theorem ensures_setLimit (nPos p : Nat) :
    Ensures (Failed content B R h) (At content B R h p) (SetLimit nPos)
      (fun _ => At content B R h p) := by
  unfold SetLimit
  apply Ensures.get_bind
  rintro f ⟨hf, hp⟩
  refine Ensures.ite (fun _ => Ensures.pure ?_) fun _ => ?_
  · rintro _ rfl
    exact ⟨hf, hp⟩
  · refine (Ensures.set ?_).bind fun _ => Ensures.pure fun _ hf' => hf'
    exact ⟨⟨hf.src, hf.size, hf.rewind, hf.source, hf.reached, hf.behind, hf.window,
      hf.holds⟩, hp⟩

/-- The first place from `p` on where a byte stands. -/
structure FirstFrom (content : List UInt8) (p : Nat) (ch : UInt8) (x : Nat) : Prop where
  low : p ≤ x
  here : content[x]? = some ch
  least : ∀ y, p ≤ y → y < x → content[y]? ≠ some ch

include hlen hB hR in
/-- **`FindByte`** stops at the first such byte from the position on. -/
theorem ensures_findByte (ch : UInt8) (turns p : Nat) :
    Ensures (Failed content B R h) (At content B R h p) (FindByte ch turns)
      (fun _ f => Inv content B R h f ∧ FirstFrom content p ch f.nReadPos) := by
  induction turns generalizing p with
  | zero => exact Ensures.throw fun _ _ text htext => (by cases htext)
  | succ turns ih =>
      unfold FindByte
      refine Ensures.bind (ensures_fillAtEnd hlen hB hR p) ?_
      intro _
      apply Ensures.get_bind
      rintro f ⟨⟨hf, rfl⟩, hbefore⟩
      have hbyte := hf.holds f.nReadPos hbefore (by rw [hf.size]; exact hf.window)
      have hsource := hf.source
      have hwindow := hf.window
      rw [hbyte]
      cases hb : content[f.nReadPos]? with
      | none => exact Ensures.throw fun _ _ text htext => (by cases htext)
      | some b =>
          dsimp only
          refine Ensures.ite (fun hfound => Ensures.pure ?_) fun hother => ?_
          · rintro _ rfl
            refine ⟨hf, le_refl _, by rw [hb, hfound], ?_⟩
            intro x hlow hhigh
            exact absurd hhigh (Nat.not_lt.mpr hlow)
          · refine Ensures.bind (@Ensures.set _ _ _ _ _
              (At content B R h (f.nReadPos + 1)) ?_) fun _ => ?_
            · rw [uint64_eq (by omega)]
              exact ⟨⟨hf.src, hf.size, hf.rewind, hsource, hf.reached, hbefore,
                by dsimp only; omega, hf.holds⟩, rfl⟩
            · refine (ih (f.nReadPos + 1)).weaken_post ?_
              rintro _ f' ⟨hf', hfirst⟩
              refine ⟨hf', by have := hfirst.low; omega, hfirst.here, ?_⟩
              intro x hx hx'
              rcases Nat.eq_or_lt_of_le hx with rfl | hx
              · rw [hb]
                exact fun heq => hother (Option.some.inj heq)
              · exact hfirst.least x hx hx'

end Calls

/-! ## Going back -/

/-- The buffer with the reader at another of its bytes. -/
theorem Inv.moved {f : CBufferedFile} (hf : Inv content B R h f) {p : Nat}
    (hp : p ≤ f.nSrcPos) (hwindow : f.nSrcPos ≤ p + B) :
    Inv content B R h { f with nReadPos := p } :=
  ⟨hf.src, hf.size, hf.rewind, hf.source, hf.reached, hp, hwindow, hf.holds⟩

theorem run_setPos (p : Nat) (f : CBufferedFile) :
    (SetPos p).run f =
      if uint64 (p + f.nRewind) < f.nSrcPos then
        .ok false { f with nReadPos := uint64Sub f.nSrcPos f.nRewind }
      else if p > f.nSrcPos then .ok false { f with nReadPos := f.nSrcPos }
      else .ok true { f with nReadPos := p } := by
  unfold SetPos
  rw [EStateM.run_bind, EStateM.run_get]
  dsimp only
  split_ifs <;> rfl

/-- What `SetPos` does to a position that the source has been read to. -/
theorem Inv.setPos_eq (hlen : content.length < 2 ^ 63) (hB : B < 2 ^ 32) (hR : R < B)
    {f : CBufferedFile} (hf : Inv content B R h f) {p : Nat} (hp : p ≤ f.nSrcPos) :
    (SetPos p).run f =
      if f.nSrcPos ≤ p + R then .ok true { f with nReadPos := p }
      else .ok false { f with nReadPos := f.nSrcPos - R } := by
  have hsource := hf.source
  have hsum : uint64 (p + R) = p + R := uint64_eq (by omega)
  rw [run_setPos, hf.rewind, hsum]
  by_cases hback : f.nSrcPos ≤ p + R
  · rw [if_pos hback, if_neg (by omega), if_neg (by omega)]
  · rw [if_neg hback, if_pos (by omega), uint64Sub_eq (by omega) (by omega)]

/-- **A position is gone back to** if the source has not been read on by more
than the rewind from there. -/
theorem Inv.setPos_iff (hlen : content.length < 2 ^ 63) (hB : B < 2 ^ 32) (hR : R < B)
    {f : CBufferedFile} (hf : Inv content B R h f) {p : Nat} (hp : p ≤ f.nSrcPos) :
    (SetPos p).run f = .ok true { f with nReadPos := p } ↔ f.nSrcPos ≤ p + R := by
  rw [hf.setPos_eq hlen hB hR hp]
  constructor
  · intro hok
    by_contra hback
    rw [if_neg hback] at hok
    cases hok
  · exact fun hback => if_pos hback

/-- A rewind that succeeds is to a byte of the buffer. -/
theorem Inv.setPos_true (hlen : content.length < 2 ^ 63) (hB : B < 2 ^ 32) (hR : R < B)
    {f f' : CBufferedFile} (hf : Inv content B R h f) {p : Nat}
    (hok : (SetPos p).run f = .ok true f') : Inv content B R h f' := by
  have hp : p ≤ f.nSrcPos := by
    by_contra hpast
    rw [run_setPos] at hok
    split_ifs at hok
    · cases hok
    · cases hok
    · exact hpast (by omega)
  rw [hf.setPos_eq hlen hB hR hp] at hok
  split_ifs at hok with hback
  · obtain rfl := (EStateM.Result.ok.inj hok).2
    exact hf.moved hp (by omega)
  · cases hok

/-! ## Runs -/

/-- A call of a reader; `FindByte` is given the turns it takes. -/
inductive Call
  | read (nSize : Nat)
  | findByte (ch : UInt8) (turns : Nat)
  | setLimit (nPos : Nat)
  | setPos (nPos : Nat)

def Call.program : Call → EStateM Stop CBufferedFile Bool
  | .read nSize => do
      let _ ← CBufferedFile.read nSize
      pure true
  | .findByte ch turns => do
      FindByte ch turns
      pure true
  | .setLimit nPos => SetLimit nPos
  | .setPos nPos => SetPos nPos

/-- The file and the highest position reached after calls that are all
successful. -/
def runCalls : CBufferedFile × Nat → List Call → Option (CBufferedFile × Nat)
  | s, [] => some s
  | (f, h), c :: cs =>
      match c.program.run f with
      | .ok true f' => runCalls (f', max h f'.nReadPos) cs
      | _ => none

theorem Inv.reach {f : CBufferedFile} (hf : Inv content B R h f) :
    Inv content B R (max h f.nReadPos) f :=
  { hf with reached := max_le hf.reached hf.behind }

section Runs

variable (hlen : content.length < 2 ^ 63) (hB : B < 2 ^ 32) (hR : R < B)

include hlen hB hR

/-- **One call.** -/
theorem Inv.call {f f' : CBufferedFile} (hf : Inv content B R h f) {c : Call}
    (hok : c.program.run f = .ok true f') : Inv content B R h f' := by
  cases c with
  | read nSize =>
      have hread : Ensures (Failed content B R h) (At content B R h f.nReadPos)
          (Call.read nSize).program fun _ => Inv content B R h :=
        (ensures_read hlen hB hR nSize f.nReadPos).bind fun _ =>
          Ensures.pure fun _ hf' => hf'.2.inv
      have hend := ensures_iff.mp hread f ⟨hf, rfl⟩
      rwa [hok] at hend
  | findByte ch turns =>
      have hfind : Ensures (Failed content B R h) (At content B R h f.nReadPos)
          (Call.findByte ch turns).program fun _ => Inv content B R h :=
        (ensures_findByte hlen hB hR ch turns f.nReadPos).bind fun _ =>
          Ensures.pure fun _ hf' => hf'.1
      have hend := ensures_iff.mp hfind f ⟨hf, rfl⟩
      rwa [hok] at hend
  | setLimit nPos =>
      have hend := ensures_iff.mp (ensures_setLimit nPos f.nReadPos) f ⟨hf, rfl⟩
      change (SetLimit nPos).run f = _ at hok
      rw [hok] at hend
      exact hend.inv
  | setPos nPos => exact hf.setPos_true hlen hB hR hok

/-- **A run.** -/
theorem Inv.runCalls {calls : List Call} {f f' : CBufferedFile} {h h' : Nat}
    (hf : Inv content B R h f)
    (hrun : CBufferedFile.runCalls (f, h) calls = some (f', h')) :
    Inv content B R h' f' := by
  induction calls generalizing f h with
  | nil =>
      obtain ⟨rfl, rfl⟩ := Prod.mk.inj (Option.some.inj hrun)
      exact hf
  | cons c calls ih =>
      rw [CBufferedFile.runCalls] at hrun
      split at hrun
      · next f₁ hok => exact ih (hf.call hlen hB hR hok).reach hrun
      · cases hrun

/-- A read that is successful returns the bytes of the file at the position. -/
theorem Inv.read_eq {f f' : CBufferedFile} (hf : Inv content B R h f) {nSize : Nat}
    {bytes : List UInt8} (hok : (CBufferedFile.read nSize).run f = .ok bytes f') :
    bytes = slice content f.nReadPos nSize ∧ bytes.length = nSize ∧
      f'.nReadPos = f.nReadPos + nSize := by
  have hend := ensures_iff.mp (ensures_read hlen hB hR nSize f.nReadPos) f ⟨hf, rfl⟩
  rw [hok] at hend
  obtain ⟨rfl, hinv, hpos⟩ := hend
  have hsource := hinv.source
  have hbehind := hinv.behind
  refine ⟨rfl, ?_, hpos⟩
  rw [length_slice]
  omega

end Runs

/-- What a buffered file is for: reads are of the bytes at the position, and
each position down to `R` below the highest reached can be gone back to. -/
structure Guaranteed (content : List UInt8) (R : Nat) (f : CBufferedFile) (h : Nat) :
    Prop where
  reads : ∀ nSize bytes f', (CBufferedFile.read nSize).run f = .ok bytes f' →
    bytes = slice content f.nReadPos nSize ∧ bytes.length = nSize ∧
      f'.nReadPos = f.nReadPos + nSize
  rewinds : ∀ p, h - R ≤ p → p ≤ h →
    (SetPos p).run f = .ok true { f with nReadPos := p }

/-- **The runs that keep the rewind.**  After successful calls a file does what
it is for exactly if the source has not been read beyond the highest position,
or not beyond the rewind. -/
theorem guaranteed_iff (hlen : content.length < 2 ^ 63) (hB : B < 2 ^ 32) (hR : R < B)
    {calls : List Call} {f : CBufferedFile} {h : Nat}
    (hrun : runCalls (new content B R, 0) calls = some (f, h)) :
    Guaranteed content R f h ↔ f.nSrcPos ≤ max R h := by
  have hf : Inv content B R h f := inv_new.runCalls hlen hB hR hrun
  have hreached := hf.reached
  constructor
  · intro hall
    have hlast := (hf.setPos_iff hlen hB hR (by omega)).mp
      (hall.rewinds (h - R) (le_refl _) (by omega))
    omega
  · intro hnear
    refine ⟨fun nSize bytes f' hok => hf.read_eq hlen hB hR hok, ?_⟩
    intro p hlow hhigh
    exact (hf.setPos_iff hlen hB hR (by omega)).mpr (by omega)

end CBufferedFile

end Agrarian.Serialize
