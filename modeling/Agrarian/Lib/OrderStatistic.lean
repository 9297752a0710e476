import Mathlib

/-!
# Order statistics

The entry of a list at a position of its sorted order, and how it moves when
the list does.  Which values it does not exceed is a matter of counting the
entries, so that two lists are compared without being sorted.
-/

namespace Agrarian.Lib

variable {α : Type*} [LinearOrder α]

/-- The entry at position `k` of the sorted list. -/
def kthSmallest (l : List α) (k : Nat) : Option α :=
  (l.insertionSort (· ≤ ·))[k]?

/-- In a sorted list an entry is at most a value if the entries that are, are
more than its position. -/
theorem getElem_le_iff {s : List α} (hsorted : s.Pairwise (· ≤ ·)) {k : Nat}
    (hk : k < s.length) (v : α) :
    s[k] ≤ v ↔ k < s.countP (· ≤ v) := by
  induction s generalizing k with
  | nil => exact absurd hk (Nat.not_lt_zero k)
  | cons a s ih =>
      obtain ⟨hhead, htail⟩ := List.pairwise_cons.mp hsorted
      by_cases ha : a ≤ v
      · rw [List.countP_cons_of_pos (by simpa using ha)]
        cases k with
        | zero =>
            rw [List.getElem_cons_zero]
            exact iff_of_true ha (Nat.succ_pos _)
        | succ k =>
            rw [List.getElem_cons_succ, ih htail (Nat.lt_of_succ_lt_succ hk),
              Nat.succ_lt_succ_iff]
      · -- nothing behind a large entry is small
        have hlarge : ∀ x ∈ a :: s, ¬ x ≤ v := by
          intro x hx hxv
          rcases List.mem_cons.mp hx with rfl | hx
          · exact ha hxv
          · exact ha ((hhead x hx).trans hxv)
        have hnone : (a :: s).countP (· ≤ v) = 0 :=
          List.countP_eq_zero.mpr fun x hx => by simpa using hlarge x hx
        rw [hnone]
        exact iff_of_false (hlarge _ (List.getElem_mem hk)) (Nat.not_lt_zero k)

theorem exists_kthSmallest {l : List α} {k : Nat} (hk : k < l.length) :
    ∃ m, kthSmallest l k = some m := by
  have hlen : k < (l.insertionSort (· ≤ ·)).length := by
    rwa [List.length_insertionSort]
  exact ⟨_, List.getElem?_eq_getElem hlen⟩

/-- **By counting.**  The statistic is at most a value if more than `k` entries
are. -/
theorem kthSmallest_le_iff {l : List α} {k : Nat} {m : α}
    (hm : kthSmallest l k = some m) (v : α) :
    m ≤ v ↔ k < l.countP (· ≤ v) := by
  obtain ⟨hk, rfl⟩ := List.getElem?_eq_some_iff.mp hm
  rw [getElem_le_iff (List.pairwise_insertionSort (· ≤ ·) l) hk v,
    (List.perm_insertionSort (· ≤ ·) l).countP_eq]

/-- The statistic does not go down when its position does not, and no more
entries than before are below it. -/
theorem kthSmallest_mono {l l' : List α} {k k' : Nat} {m m' : α}
    (hm : kthSmallest l k = some m) (hm' : kthSmallest l' k' = some m')
    (hk : k ≤ k')
    (hcount : ∀ v < m, l'.countP (· ≤ v) ≤ l.countP (· ≤ v)) : m ≤ m' := by
  by_contra hless
  have hbelow := (kthSmallest_le_iff hm' m').mp (le_refl m')
  have habove := mt (kthSmallest_le_iff hm m').mpr hless
  have hcount' := hcount m' (not_le.mp hless)
  omega

end Agrarian.Lib
