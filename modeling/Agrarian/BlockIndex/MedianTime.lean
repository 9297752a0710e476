import Agrarian.Lib.Forest
import Agrarian.Lib.OrderStatistic

/-!
# The median time past

`GetMedianTimePast` and the check of a header's time against it.  The times of
a chain may go down, but a block that is later than the median time past of
its parent leaves the median where it was or moves it up: the window takes in
an entry above its middle and loses at most its oldest one.
-/

namespace Agrarian.BlockIndex

open Agrarian.Lib Agrarian.Lib.Forest

/-- What `GetMedianTimePast` reads of the entries. -/
structure TimeIndex (B : Type) where
  pprev : B → Option B
  nTime : B → UInt32

namespace TimeIndex

def nMedianTimeSpan : Nat := 11

variable {B : Type} (s : TimeIndex B)

/-- `CBlockIndex::GetBlockTime`. -/
def getBlockTime (b : B) : Int :=
  ((s.nTime b).toNat : Int)

/-- The loop of `GetMedianTimePast` with the times it wrote so far, from
`pbegin` to `pend`. -/
def window : Nat → Option B → List Int → List Int
  | 0, _, pmedian => pmedian
  | _ + 1, none, pmedian => pmedian
  | steps + 1, some pindex, pmedian =>
      window steps (s.pprev pindex) (s.getBlockTime pindex :: pmedian)

/-- `CBlockIndex::GetMedianTimePast`. -/
def getMedianTimePast (b : B) : Int :=
  let pmedian := s.window nMedianTimeSpan (some b) []
  (kthSmallest pmedian (pmedian.length / 2)).getD 0

/-! ## The window -/

theorem window_append (steps : Nat) (b : Option B) (pmedian : List Int) :
    s.window steps b pmedian = s.window steps b [] ++ pmedian := by
  induction steps generalizing b pmedian with
  | zero => rfl
  | succ steps ih =>
      cases b with
      | none => rfl
      | some b =>
          simp only [window]
          rw [ih, ih (s.pprev b) [_], List.append_assoc, List.singleton_append]

theorem window_succ (steps : Nat) (b : B) :
    s.window (steps + 1) (some b) [] =
      s.window steps (s.pprev b) [] ++ [s.getBlockTime b] :=
  s.window_append steps (s.pprev b) [s.getBlockTime b]

/-- A longer window goes further back. -/
theorem window_suffix (steps : Nat) (b : Option B) :
    s.window steps b [] <:+ s.window (steps + 1) b [] := by
  induction steps generalizing b with
  | zero => exact List.nil_suffix
  | succ steps ih =>
      cases b with
      | none => exact List.suffix_rfl
      | some b =>
          rw [window_succ, window_succ]
          rcases ih (s.pprev b) with ⟨older, holder⟩
          exact ⟨older, by rw [← List.append_assoc, holder]⟩

theorem length_window_succ_le (steps : Nat) (b : Option B) :
    (s.window (steps + 1) b []).length ≤ (s.window steps b []).length + 1 := by
  induction steps generalizing b with
  | zero =>
      cases b with
      | none => exact Nat.zero_le _
      | some b => exact Nat.le_refl 1
  | succ steps ih =>
      cases b with
      | none => exact Nat.zero_le _
      | some b =>
          have hle := ih (s.pprev b)
          rw [window_succ, window_succ, List.length_append, List.length_append]
          exact Nat.add_le_add_right hle 1

/-- The median is an entry of the window, which is never empty. -/
theorem getMedianTimePast_spec (b : B) :
    kthSmallest (s.window nMedianTimeSpan (some b) [])
        ((s.window nMedianTimeSpan (some b) []).length / 2) =
      some (s.getMedianTimePast b) := by
  have hpositive : 0 < (s.window nMedianTimeSpan (some b) []).length := by
    rw [nMedianTimeSpan, window_succ, List.length_append]
    exact Nat.succ_pos _
  rcases exists_kthSmallest (Nat.div_lt_self hpositive (by decide : 1 < 2))
    with ⟨m, hm⟩
  rw [hm, getMedianTimePast, hm]
  rfl

/-! ## One block, and a chain -/

/-- **One accepted block.**  The median time past of a block later than its
parent's median time past is at least that. -/
theorem getMedianTimePast_le_child {b p : B} (hp : s.pprev b = some p)
    (hlater : s.getMedianTimePast p < s.getBlockTime b) :
    s.getMedianTimePast p ≤ s.getMedianTimePast b := by
  have hwindow : s.window nMedianTimeSpan (some b) [] =
      s.window 10 (some p) [] ++ [s.getBlockTime b] := by
    rw [nMedianTimeSpan, window_succ, hp]
  have hlength := s.length_window_succ_le 10 (some p)
  apply kthSmallest_mono (s.getMedianTimePast_spec p) (s.getMedianTimePast_spec b)
  · rw [hwindow, List.length_append]
    exact Nat.div_le_div_right hlength
  · -- the new entry is not below the old median, and the others were there
    intro v hv
    have hnew : ¬ s.getBlockTime b ≤ v := by omega
    rw [hwindow, List.countP_append, List.countP_singleton,
      if_neg (by simpa using hnew), Nat.add_zero]
    exact (s.window_suffix 10 (some p)).sublist.countP_le

/-- **A chain.**  Where every block of a chain is later than the median time
past of its parent, the median time past does not go down along it. -/
theorem getMedianTimePast_mono {a b : B} (h : Ancestor s.pprev a b)
    (hlater : ∀ c p, Ancestor s.pprev c b → s.pprev c = some p →
      s.getMedianTimePast p < s.getBlockTime c) :
    s.getMedianTimePast a ≤ s.getMedianTimePast b := by
  induction h with
  | refl => exact le_refl _
  | step hp _ ih =>
      have hparent := ih fun c q hc => hlater c q (Ancestor.step hp hc)
      have hchild := s.getMedianTimePast_le_child hp
        (hlater _ _ Ancestor.refl hp)
      exact hparent.trans hchild

/-- The chain of blocks `0, 1, 2, …` with the given times. -/
def ofTimes (times : List UInt32) : TimeIndex Nat where
  pprev := fun b => if b = 0 then none else some (b - 1)
  nTime := fun b => times.getD b 0

theorem ofTimes_ancestor_le {times : List UInt32} {a b : Nat}
    (h : Ancestor (ofTimes times).pprev a b) : a ≤ b := by
  induction h with
  | refl => exact Nat.le_refl _
  | @step p b hp _ ih =>
      simp only [ofTimes] at hp
      split at hp
      · cases hp
      · have hle : b - 1 = p := Option.some.inj hp
        omega

/-- Fourteen blocks whose times go down four times. -/
def unsteadyTimes : List UInt32 :=
  [100, 105, 106, 108, 107, 120, 130, 111, 125, 140, 150, 126, 160, 131]

theorem unsteadyTimes_later : ∀ c < 14, c ≠ 0 →
    (ofTimes unsteadyTimes).getMedianTimePast (c - 1) <
      (ofTimes unsteadyTimes).getBlockTime c := by
  decide

theorem getMedianTimePast_mono_unsteady :
    (ofTimes unsteadyTimes).getMedianTimePast 2 ≤
      (ofTimes unsteadyTimes).getMedianTimePast 13 := by
  have hancestor : Ancestor (ofTimes unsteadyTimes).pprev 2 13 := by
    iterate 11 refine Ancestor.step rfl ?_
    exact Ancestor.refl
  refine getMedianTimePast_mono _ hancestor fun c p hc hp => ?_
  have hle := ofTimes_ancestor_le hc
  simp only [ofTimes] at hp
  split at hp
  · cases hp
  · rw [← Option.some.inj hp]
    exact unsteadyTimes_later c (by omega) (by assumption)

end TimeIndex

end Agrarian.BlockIndex
