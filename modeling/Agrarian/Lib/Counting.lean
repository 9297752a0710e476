import Mathlib

/-!
# Counts that change in one place

How many numbers below a bound have a property, when the property changes at
one number only.

## Main results

* `count_eq_succ` — one number loses the property.
* `ncard_eq_count` — the size of a set that is bounded.
* `length_eq_count_add` — a list of the numbers that have one of two properties.
-/

namespace Agrarian.Lib

variable {p q : Nat → Prop} [DecidablePred p] [DecidablePred q] {n a : Nat}

theorem count_congr (h : ∀ x < n, p x ↔ q x) : Nat.count p n = Nat.count q n := by
  rw [Nat.count_eq_card_filter_range, Nat.count_eq_card_filter_range]
  congr 1
  apply Finset.filter_congr
  intro x hx
  exact h x (Finset.mem_range.mp hx)

theorem count_eq_succ (ha : a < n) (hp : p a) (hq : ¬ q a)
    (h : ∀ x < n, x ≠ a → (p x ↔ q x)) : Nat.count p n = Nat.count q n + 1 := by
  have hnew : a ∉ (Finset.range n).filter q := fun hmem => hq (Finset.mem_filter.mp hmem).2
  have hinsert : (Finset.range n).filter p = insert a ((Finset.range n).filter q) := by
    ext x
    rw [Finset.mem_insert, Finset.mem_filter, Finset.mem_filter, Finset.mem_range]
    by_cases hx : x = a
    · rw [hx]
      exact ⟨fun _ => Or.inl rfl, fun _ => ⟨ha, hp⟩⟩
    · constructor
      · exact fun hmem => Or.inr ⟨hmem.1, (h x hmem.1 hx).mp hmem.2⟩
      · intro hmem
        have hmem' := hmem.resolve_left hx
        exact ⟨hmem'.1, (h x hmem'.1 hx).mpr hmem'.2⟩
  rw [Nat.count_eq_card_filter_range, Nat.count_eq_card_filter_range, hinsert,
    Finset.card_insert_of_notMem hnew]

theorem count_eq_zero (h : ∀ x < n, ¬ p x) : Nat.count p n = 0 :=
  Nat.count_iff_forall_not.mpr h

theorem ncard_eq_count (h : ∀ x, p x → x < n) : {x | p x}.ncard = Nat.count p n := by
  have hset : {x | p x} = ↑((Finset.range n).filter p) := by
    ext x
    rw [Finset.mem_coe, Finset.mem_filter, Finset.mem_range]
    exact ⟨fun hx => ⟨h x hx, hx⟩, fun hx => hx.2⟩
  rw [hset, Set.ncard_coe_finset, Nat.count_eq_card_filter_range]

theorem length_eq_count_add {l : List Nat} (hnodup : l.Nodup)
    (hmem : ∀ x, x ∈ l ↔ x < n ∧ (p x ∨ q x)) (hdisjoint : ∀ x, ¬ (p x ∧ q x)) :
    l.length = Nat.count p n + Nat.count q n := by
  have hset : l.toFinset = (Finset.range n).filter p ∪ (Finset.range n).filter q := by
    ext x
    rw [List.mem_toFinset, hmem, Finset.mem_union, Finset.mem_filter, Finset.mem_filter,
      Finset.mem_range, ← and_or_left]
  have hsplit : Disjoint ((Finset.range n).filter p) ((Finset.range n).filter q) := by
    refine Finset.disjoint_left.mpr fun x hp hq => hdisjoint x ?_
    exact ⟨(Finset.mem_filter.mp hp).2, (Finset.mem_filter.mp hq).2⟩
  rw [← List.toFinset_card_of_nodup hnodup, hset, Finset.card_union_of_disjoint hsplit,
    Nat.count_eq_card_filter_range, Nat.count_eq_card_filter_range]

end Agrarian.Lib
