import Mathlib

/-!
# Matching two lists in order

Each item of one list is to be given an item of another that fits it, the ones further
on to items further on.  Going through both lists from the front and giving an item the
first one that fits misses no such matching: where an item is left that fits, the first
one that fits leaves at least as much for the others.
-/

namespace Agrarian.Lib

variable {α β : Type} {r : α → β → Bool}

/-- The search, which gives up where fewer items are left than have to be matched. -/
def greedyMatch (r : α → β → Bool) : List α → List β → Bool
  | [], _ => true
  | _ :: _, [] => false
  | a :: as, b :: bs =>
      let rest := if r a b then as else a :: as
      if rest.length > bs.length then false else greedyMatch r rest bs

/-- The list of the items matched, in order. -/
abbrev Matches (r : α → β → Bool) : List α → List β → Prop :=
  List.SublistForall₂ fun a b => r a b

theorem Matches.length_le {as : List α} {bs : List β} (h : Matches r as bs) :
    as.length ≤ bs.length := by
  induction h with
  | nil => exact Nat.zero_le _
  | cons _ _ ih => exact Nat.succ_le_succ ih
  | cons_right _ ih => exact ih.trans (Nat.le_succ _)

theorem Matches.of_cons {a : α} {as : List α} {bs : List β} (h : Matches r (a :: as) bs) :
    Matches r as bs := by
  induction bs with
  | nil => cases h
  | cons b bs ih =>
      cases h with
      | cons _ htail => exact .cons_right htail
      | cons_right htail => exact .cons_right (ih htail)

/-- What fits first may be taken. -/
theorem matches_cons_of_fits {a : α} {b : β} {as : List α} {bs : List β} (h : r a b) :
    Matches r (a :: as) (b :: bs) ↔ Matches r as bs := by
  constructor
  · intro hmatch
    cases hmatch with
    | cons _ htail => exact htail
    | cons_right htail => exact Matches.of_cons htail
  · exact List.SublistForall₂.cons h

/-- What does not fit is passed over. -/
theorem matches_cons_of_not_fits {a : α} {b : β} {as : List α} {bs : List β} (h : ¬ r a b) :
    Matches r (a :: as) (b :: bs) ↔ Matches r (a :: as) bs := by
  constructor
  · intro hmatch
    cases hmatch with
    | cons hfits _ => exact absurd hfits h
    | cons_right htail => exact htail
  · exact List.SublistForall₂.cons_right

theorem greedyMatch_iff {as : List α} {bs : List β} :
    greedyMatch r as bs = true ↔ Matches r as bs := by
  induction bs generalizing as with
  | nil =>
      cases as with
      | nil => exact iff_of_true rfl .nil
      | cons a as =>
          refine iff_of_false Bool.false_ne_true fun h => ?_
          cases h
  | cons b bs ih =>
      cases as with
      | nil => exact iff_of_true rfl .nil
      | cons a as =>
          have hrest : Matches r (a :: as) (b :: bs) ↔
              Matches r (if r a b then as else a :: as) bs := by
            split
            · next hfits => exact matches_cons_of_fits hfits
            · next hfits => exact matches_cons_of_not_fits hfits
          rw [hrest, greedyMatch]
          generalize (if r a b then as else a :: as) = rest
          split
          · next hlong =>
              refine iff_of_false Bool.false_ne_true fun h => ?_
              exact absurd h.length_le (Nat.not_le.mpr hlong)
          · exact ih

/-- **A matching is a strictly increasing map** from positions to positions. -/
theorem sublistForall₂_iff_exists_strictMono {R : α → β → Prop} {as : List α} {bs : List β} :
    List.SublistForall₂ R as bs ↔
      ∃ f : Fin as.length → Fin bs.length, StrictMono f ∧ ∀ i, R (as.get i) (bs.get (f i)) := by
  rw [List.sublistForall₂_iff]
  constructor
  · rintro ⟨cs, hfits, hsub⟩
    obtain ⟨f, hf⟩ := List.sublist_iff_exists_fin_orderEmbedding_get_eq.mp hsub
    have hlength := hfits.length_eq
    refine ⟨fun i => f (i.cast hlength), fun i j hij => f.strictMono hij, fun i => ?_⟩
    rw [← hf]
    exact hfits.get _ _
  · rintro ⟨f, hmono, hf⟩
    refine ⟨List.ofFn fun i => bs.get (f i), ?_, ?_⟩
    · rw [List.forall₂_iff_get]
      refine ⟨(List.length_ofFn).symm, fun i hi _ => ?_⟩
      rw [List.get_ofFn]
      exact hf ⟨i, hi⟩
    · rw [List.sublist_iff_exists_fin_orderEmbedding_get_eq]
      refine ⟨OrderEmbedding.ofStrictMono (fun i => f (i.cast List.length_ofFn)) ?_, fun i => ?_⟩
      · exact fun i j hij => hmono hij
      · rw [List.get_ofFn]
        rfl

end Agrarian.Lib
