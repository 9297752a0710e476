import Mathlib

/-!
# Frames of a stream

A stream is a sequence of frames: a header of a fixed length, and a payload
whose length the header tells.  A header may also be refused, and then nothing
that follows is read.

The frames are defined one symbol at a time, so that they cannot depend on how
the stream was cut.  A program that reads whole pieces is compared with this
through `feedAll_of_quiet`: a piece matters only through its last symbol, as
long as no frame and no header ends before.
-/

namespace Agrarian.Lib.Framing

variable {α : Type} (headerLength : Nat) (payloadLength : List α → Option Nat)

/-- The complete frames, and what has come of the next one. -/
structure State (α : Type) where
  frames : List (List α) := []
  current : List α := []
  refused : Bool := false

/-- What the last symbol completes. -/
def settle (s : State α) : State α :=
  if s.current.length < headerLength then s
  else
    match payloadLength (s.current.take headerLength) with
    | none => { s with refused := true }
    | some n =>
        if s.current.length = headerLength + n then
          { s with frames := s.frames ++ [s.current], current := [] }
        else s

def feed (s : State α) (a : α) : State α :=
  if s.refused then s
  else settle headerLength payloadLength { s with current := s.current ++ [a] }

def feedAll (s : State α) (as : List α) : State α :=
  as.foldl (feed headerLength payloadLength) s

/-- The frame is complete: its header is accepted and tells its length. -/
def IsFrame (frame : List α) : Prop :=
  headerLength ≤ frame.length ∧
    ∃ n, payloadLength (frame.take headerLength) = some n ∧
      frame.length = headerLength + n

variable {headerLength payloadLength}

theorem feedAll_append (s : State α) (as bs : List α) :
    feedAll headerLength payloadLength s (as ++ bs) =
      feedAll headerLength payloadLength (feedAll headerLength payloadLength s as) bs :=
  List.foldl_append

theorem feed_of_refused {s : State α} (h : s.refused = true) (a : α) :
    feed headerLength payloadLength s a = s := by
  unfold feed
  rw [if_pos h]

theorem feed_eq_settle {s : State α} (h : s.refused = false) (a : α) :
    feed headerLength payloadLength s a =
      settle headerLength payloadLength { s with current := s.current ++ [a] } := by
  unfold feed
  rw [h, if_neg Bool.false_ne_true]

/-- After a refusal nothing is read. -/
theorem feedAll_of_refused {s : State α} (h : s.refused = true) (as : List α) :
    feedAll headerLength payloadLength s as = s := by
  induction as with
  | nil => rfl
  | cons a as ih =>
      show feedAll headerLength payloadLength (feed headerLength payloadLength s a) as = s
      rw [feed_of_refused h, ih]

/-- A piece that completes nothing before its last symbol. -/
theorem feedAll_of_quiet {s : State α} (h : s.refused = false) {as : List α} (hne : as ≠ [])
    (hquiet : ∀ k, 0 < k → k < as.length →
      settle headerLength payloadLength { s with current := s.current ++ as.take k } =
        { s with current := s.current ++ as.take k }) :
    feedAll headerLength payloadLength s as =
      settle headerLength payloadLength { s with current := s.current ++ as } := by
  induction as generalizing s with
  | nil => exact absurd rfl hne
  | cons a as ih =>
      show feedAll headerLength payloadLength (feed headerLength payloadLength s a) as = _
      rw [feed_eq_settle h]
      by_cases hlast : as = []
      · rw [hlast]
        rfl
      · have hlength : 0 < as.length := List.length_pos_iff.mpr hlast
        have hfirst := hquiet 1 (by omega) (by rw [List.length_cons]; omega)
        rw [List.take_succ_cons, List.take_zero] at hfirst
        have hrest : ∀ k, 0 < k → k < as.length →
            settle headerLength payloadLength
                { s with current := s.current ++ [a] ++ as.take k } =
              { s with current := s.current ++ [a] ++ as.take k } := by
          intro k hk hlt
          have hnext := hquiet (k + 1) (by omega) (by rw [List.length_cons]; omega)
          rw [List.take_succ_cons, ← List.singleton_append, ← List.append_assoc] at hnext
          exact hnext
        have hrun := @ih { s with current := s.current ++ [a] } h hlast hrest
        rw [hfirst, hrun, List.append_assoc, List.singleton_append]

theorem settle_of_short {s : State α} (h : s.current.length < headerLength) :
    settle headerLength payloadLength s = s := by
  unfold settle
  rw [if_pos h]

theorem settle_of_refused {s : State α} (h : headerLength ≤ s.current.length)
    (hnone : payloadLength (s.current.take headerLength) = none) :
    settle headerLength payloadLength s = { s with refused := true } := by
  unfold settle
  rw [if_neg (by omega), hnone]

theorem settle_of_open {s : State α} {n : Nat} (h : headerLength ≤ s.current.length)
    (hsome : payloadLength (s.current.take headerLength) = some n)
    (hopen : s.current.length < headerLength + n) :
    settle headerLength payloadLength s = s := by
  unfold settle
  rw [if_neg (by omega), hsome]
  show (if _ then _ else _) = _
  rw [if_neg (by omega)]

theorem settle_of_complete {s : State α} {n : Nat}
    (hsome : payloadLength (s.current.take headerLength) = some n)
    (hlength : s.current.length = headerLength + n) :
    settle headerLength payloadLength s =
      { s with frames := s.frames ++ [s.current], current := [] } := by
  unfold settle
  rw [if_neg (by omega), hsome]
  show (if _ then _ else _) = _
  rw [if_pos hlength]

/-- A piece inside a header, up to its last symbol. -/
theorem feedAll_header {s : State α} (h : s.refused = false) {as : List α} (hne : as ≠ [])
    (hlength : s.current.length + as.length ≤ headerLength) :
    feedAll headerLength payloadLength s as =
      settle headerLength payloadLength { s with current := s.current ++ as } := by
  apply feedAll_of_quiet h hne
  intro k _ hk
  apply settle_of_short
  rw [List.length_append, List.length_take]
  omega

/-- A piece inside a payload, up to its last symbol. -/
theorem feedAll_payload {s : State α} (h : s.refused = false) {as : List α} (hne : as ≠ [])
    {n : Nat} (hheader : headerLength ≤ s.current.length)
    (hsome : payloadLength (s.current.take headerLength) = some n)
    (hlength : s.current.length + as.length ≤ headerLength + n) :
    feedAll headerLength payloadLength s as =
      settle headerLength payloadLength { s with current := s.current ++ as } := by
  apply feedAll_of_quiet h hne
  intro k _ hk
  apply settle_of_open (n := n)
  · rw [List.length_append]
    omega
  · rw [List.take_append_of_le_length hheader]
    exact hsome
  · rw [List.length_append, List.length_take]
    omega

/-! ## What the frames are -/

/-- Every frame is complete, and with what is left over they are what was read
of the stream: all of it unless a header was refused. -/
structure Sound (headerLength : Nat) (payloadLength : List α → Option Nat) (s : State α)
    (stream : List α) : Prop where
  isFrame : ∀ frame ∈ s.frames, IsFrame headerLength payloadLength frame
  isPrefix : s.frames.flatten ++ s.current <+: stream
  all : s.refused = false → s.frames.flatten ++ s.current = stream

theorem settle_flatten (s : State α) :
    (settle headerLength payloadLength s).frames.flatten ++
        (settle headerLength payloadLength s).current =
      s.frames.flatten ++ s.current := by
  unfold settle
  split
  · rfl
  · split
    · rfl
    · split
      · simp
      · rfl

theorem settle_isFrame {s : State α}
    (h : ∀ frame ∈ s.frames, IsFrame headerLength payloadLength frame) :
    ∀ frame ∈ (settle headerLength payloadLength s).frames,
      IsFrame headerLength payloadLength frame := by
  unfold settle
  split
  · exact h
  · rename_i hlong
    split
    · exact h
    · rename_i n hsome
      split
      · rename_i hlength
        intro frame hmem
        cases List.mem_append.mp hmem with
        | inl hold => exact h frame hold
        | inr hnew =>
            rw [List.mem_singleton.mp hnew]
            exact ⟨by omega, n, hsome, hlength⟩
      · exact h

theorem Sound.feed {s : State α} {stream : List α}
    (h : Sound headerLength payloadLength s stream) (a : α) :
    Sound headerLength payloadLength (feed headerLength payloadLength s a) (stream ++ [a]) := by
  cases hrefused : s.refused with
  | true =>
      rw [feed_of_refused hrefused]
      exact ⟨h.isFrame, h.isPrefix.trans (List.prefix_append _ _), fun hf => by
        rw [hrefused] at hf
        cases hf⟩
  | false =>
      rw [feed_eq_settle hrefused]
      have hflatten := @settle_flatten α headerLength payloadLength
        { s with current := s.current ++ [a] }
      have hstream : s.frames.flatten ++ (s.current ++ [a]) = stream ++ [a] := by
        rw [← List.append_assoc, h.all hrefused]
      exact ⟨settle_isFrame h.isFrame, by rw [hflatten, hstream],
        fun _ => hflatten.trans hstream⟩

/-- **The frames of a stream**. -/
theorem feedAll_sound (stream : List α) :
    Sound headerLength payloadLength (feedAll headerLength payloadLength {} stream) stream := by
  induction stream using List.reverseRecOn with
  | nil =>
      exact ⟨fun _ hmem => absurd hmem List.not_mem_nil, List.prefix_rfl, fun _ => rfl⟩
  | append_singleton stream a ih =>
      rw [feedAll_append]
      exact ih.feed a

end Agrarian.Lib.Framing
