import Agrarian.Lib.Selection

/-!
# Ranks over buckets

Samples lie in a row of buckets, and all of them are sorted downwards.  The
sample for a bucket is the one whose rank is the number of samples in the
buckets before plus half of those in the bucket itself.  Later buckets get lower
samples, whatever the sizes of the buckets, and even if the sorted list is of
other samples.
-/

namespace Agrarian.Lib

variable {α : Type}

/-- The rank for a bucket. -/
def rankIndex (buckets : List (List α)) (n : Nat) : Nat :=
  ((buckets.take n).map List.length).sum + (buckets.getD n []).length / 2

theorem sum_take_succ (buckets : List (List α)) (n : Nat) :
    ((buckets.take (n + 1)).map List.length).sum =
      ((buckets.take n).map List.length).sum + (buckets.getD n []).length := by
  induction buckets generalizing n with
  | nil => simp
  | cons bucket buckets ih =>
      cases n with
      | zero => simp
      | succ n =>
          have hrest := ih n
          simp only [List.take_succ_cons, List.map_cons, List.sum_cons,
            List.getD_cons_succ] at hrest ⊢
          omega

theorem rankIndex_mono (buckets : List (List α)) : Monotone (rankIndex buckets) := by
  apply monotone_nat_of_le_succ
  intro n
  unfold rankIndex
  rw [sum_take_succ]
  omega

/-! ## Samples -/

/-- A list that is sorted downwards. -/
structure SortedSamples (α : Type) [LinearOrder α] where
  toList : List α
  sorted : toList.Pairwise fun a b => b ≤ a

namespace SortedSamples

variable [LinearOrder α]

def empty : SortedSamples α := ⟨[], List.Pairwise.nil⟩

/-- The samples that a sort puts in order. -/
def ofSort (byValue : StdSort fun a b : α => decide (b < a)) (l : List α) :
    SortedSamples α :=
  ⟨byValue.sort l, (byValue.sorted l).imp fun h => not_lt.mp (of_decide_eq_false h)⟩

variable {β : Type} [Preorder β]

/-- What is read off at a rank, the lowest sample for a rank that is too high. -/
def sampleAt (samples : SortedSamples α) (value : α → β) (low : β) (index : Nat) : β :=
  (samples.toList.map value).getD (min index (samples.toList.length - 1)) low

/-- **A higher rank gives a lower sample.** -/
theorem sampleAt_antitone (samples : SortedSamples α) {value : α → β}
    (hvalue : Monotone value) (low : β) {i j : Nat} (hij : i ≤ j) :
    samples.sampleAt value low j ≤ samples.sampleAt value low i := by
  unfold sampleAt
  obtain ⟨l, hsorted⟩ := samples
  dsimp only
  cases l with
  | nil => exact le_refl _
  | cons a l =>
      have hdown : ((a :: l).map value).Pairwise fun x y => y ≤ x :=
        hsorted.map value fun x y hxy => hvalue hxy
      have hi : min i ((a :: l).length - 1) < ((a :: l).map value).length := by
        rw [List.length_map, List.length_cons]
        omega
      have hj : min j ((a :: l).length - 1) < ((a :: l).map value).length := by
        rw [List.length_map, List.length_cons]
        omega
      rw [List.getD_eq_getElem _ _ hi, List.getD_eq_getElem _ _ hj]
      have hmin : min i ((a :: l).length - 1) ≤ min j ((a :: l).length - 1) := by omega
      rcases Nat.eq_or_lt_of_le hmin with heq | hlt
      · simp only [heq]
        exact le_refl _
      · exact List.pairwise_iff_getElem.mp hdown _ _ hi hj hlt

theorem low_le_sampleAt (samples : SortedSamples α) {value : α → β} {low : β}
    (hlow : ∀ a, low ≤ value a) (index : Nat) : low ≤ samples.sampleAt value low index := by
  unfold sampleAt
  rcases Nat.lt_or_ge (min index (samples.toList.length - 1))
    (samples.toList.map value).length with hlt | hge
  · rw [List.getD_eq_getElem _ _ hlt, List.getElem_map]
    exact hlow _
  · rw [List.getD_eq_default _ _ hge]

end SortedSamples

end Agrarian.Lib
