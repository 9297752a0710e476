import Mathlib

/-!
# Forests of parent pointers

Nodes that point to their parents, on a domain that is closed under the
pointers and has a rank that grows by one from parent to child.  A node's
ancestors, itself among them, form a chain: `pathTo` lists it from the root.
-/

namespace Agrarian.Lib.Forest

variable {B : Type} (parent : B → Option B)

/-- `Ancestor parent a b`: `a` is `b` or an ancestor of it. -/
inductive Ancestor (a : B) : B → Prop
  | refl : Ancestor a a
  | step {p b : B} : parent b = some p → Ancestor a p → Ancestor a b

/-- The path from the root down to a node, at most `fuel` steps long. -/
def pathTo : Nat → B → List B
  | 0, b => [b]
  | fuel + 1, b =>
      match parent b with
      | none => [b]
      | some p => pathTo fuel p ++ [b]

structure Ranked (dom : B → Prop) (rank : B → Nat) : Prop where
  closed : ∀ {b p}, dom b → parent b = some p → dom p
  rank_some : ∀ {b p}, dom b → parent b = some p → rank b = rank p + 1
  rank_none : ∀ {b}, dom b → parent b = none → rank b = 0

variable {parent}

/-! ## Ancestors -/

theorem Ancestor.trans {a b c : B} (hab : Ancestor parent a b)
    (hbc : Ancestor parent b c) : Ancestor parent a c := by
  induction hbc with
  | refl => exact hab
  | step hp _ ih => exact Ancestor.step hp ih

theorem Ancestor.eq_or_parent {a b : B} (h : Ancestor parent a b) :
    a = b ∨ ∃ p, parent b = some p ∧ Ancestor parent a p := by
  cases h with
  | refl => exact Or.inl rfl
  | step hp h => exact Or.inr ⟨_, hp, h⟩

/-- Two ancestors of one node are on one path. -/
theorem Ancestor.comparable {a a' b : B} (h : Ancestor parent a b)
    (h' : Ancestor parent a' b) :
    Ancestor parent a a' ∨ Ancestor parent a' a := by
  induction h with
  | refl => exact Or.inr h'
  | step hp h ih =>
      rcases h'.eq_or_parent with rfl | ⟨p', hp', h''⟩
      · exact Or.inl (Ancestor.step hp h)
      · rw [hp] at hp'
        rw [← Option.some.inj hp'] at h''
        exact ih h''

/-- Pointers that agree on the path to a node give it the same ancestors. -/
theorem Ancestor.congr {parent' : B → Option B} {a b : B}
    (h : Ancestor parent a b)
    (hagree : ∀ x, Ancestor parent x b → parent' x = parent x) :
    Ancestor parent' a b := by
  induction h with
  | refl => exact Ancestor.refl
  | step hp _ ih =>
      apply Ancestor.step
      · rw [hagree _ Ancestor.refl, hp]
      · exact ih fun x hx => hagree x (Ancestor.step hp hx)

section Ranked

variable {dom : B → Prop} {rank : B → Nat} (hrank : Ranked parent dom rank)
include hrank

theorem Ancestor.mem {a b : B} (h : Ancestor parent a b) (hb : dom b) :
    dom a := by
  induction h with
  | refl => exact hb
  | step hp _ ih => exact ih (hrank.closed hb hp)

theorem Ancestor.rank_le {a b : B} (h : Ancestor parent a b) (hb : dom b) :
    rank a ≤ rank b := by
  induction h with
  | refl => exact Nat.le_refl _
  | step hp _ ih =>
      have hle := ih (hrank.closed hb hp)
      have hstep := hrank.rank_some hb hp
      omega

theorem Ancestor.eq_of_rank_le {a b : B} (h : Ancestor parent a b)
    (hb : dom b) (hle : rank b ≤ rank a) : a = b := by
  rcases h.eq_or_parent with rfl | ⟨p, hp, h'⟩
  · rfl
  · have hrank' := h'.rank_le hrank (hrank.closed hb hp)
    have hstep := hrank.rank_some hb hp
    omega

/-- Of two ancestors of one node the lower one in rank is the other's
ancestor. -/
theorem Ancestor.of_rank_le {a a' b : B} (h : Ancestor parent a b)
    (h' : Ancestor parent a' b) (hb : dom b) (hle : rank a ≤ rank a') :
    Ancestor parent a a' := by
  rcases h.comparable h' with haa' | ha'a
  · exact haa'
  · rw [ha'a.eq_of_rank_le hrank (h.mem hrank hb) hle]
    exact Ancestor.refl

/-- A node has an ancestor of every rank up to its own. -/
theorem exists_ancestor {b : B} (hb : dom b) {n : Nat} (hle : n ≤ rank b) :
    ∃ a, Ancestor parent a b ∧ rank a = n := by
  obtain ⟨count, hcount⟩ := Nat.exists_eq_add_of_le hle
  induction count generalizing b with
  | zero => exact ⟨b, Ancestor.refl, hcount⟩
  | succ count ih =>
      cases hp : parent b with
      | none =>
          have hzero := hrank.rank_none hb hp
          omega
      | some p =>
          have hstep := hrank.rank_some hb hp
          rcases ih (hrank.closed hb hp) (by omega) (by omega) with ⟨a, ha, harank⟩
          exact ⟨a, Ancestor.step hp ha, harank⟩

/-! ## Paths -/

theorem pathTo_none {b : B} (hb : dom b) (hp : parent b = none) :
    pathTo parent (rank b) b = [b] := by
  rw [hrank.rank_none hb hp]
  rfl

theorem pathTo_some {b p : B} (hb : dom b) (hp : parent b = some p) :
    pathTo parent (rank b) b = pathTo parent (rank p) p ++ [b] := by
  rw [hrank.rank_some hb hp]
  show (match parent b with
    | none => [b]
    | some p' => pathTo parent (rank p) p' ++ [b]) = _
  rw [hp]

/-- Induction along the path to a node. -/
theorem path_induction {P : B → Prop}
    (hroot : ∀ b, dom b → parent b = none → P b)
    (hchild : ∀ b p, dom b → parent b = some p → P p → P b) {b : B}
    (hb : dom b) : P b := by
  induction hn : rank b using Nat.strong_induction_on generalizing b with
  | _ n ih =>
      cases hp : parent b with
      | none => exact hroot b hb hp
      | some p =>
          have hstep := hrank.rank_some hb hp
          apply hchild b p hb hp
          exact ih (rank p) (by omega) (hrank.closed hb hp) rfl

theorem mem_pathTo {a b : B} (hb : dom b) :
    a ∈ pathTo parent (rank b) b ↔ Ancestor parent a b := by
  apply path_induction hrank _ _ hb
  · intro b hb hp
    rw [pathTo_none hrank hb hp, List.mem_singleton]
    constructor
    · rintro rfl
      exact Ancestor.refl
    · intro h
      rcases h.eq_or_parent with rfl | ⟨p, hp', -⟩
      · rfl
      · rw [hp] at hp'
        cases hp'
  · intro b p hb hp ih
    rw [pathTo_some hrank hb hp, List.mem_append, ih, List.mem_singleton]
    constructor
    · rintro (h | rfl)
      · exact Ancestor.step hp h
      · exact Ancestor.refl
    · intro h
      rcases h.eq_or_parent with rfl | ⟨p', hp', h'⟩
      · exact Or.inr rfl
      · rw [hp] at hp'
        rw [← Option.some.inj hp'] at h'
        exact Or.inl h'

theorem length_pathTo {b : B} (hb : dom b) :
    (pathTo parent (rank b) b).length = rank b + 1 := by
  apply path_induction hrank _ _ hb
  · intro b hb hp
    rw [pathTo_none hrank hb hp, hrank.rank_none hb hp]
    rfl
  · intro b p hb hp ih
    rw [pathTo_some hrank hb hp, List.length_append, ih,
      hrank.rank_some hb hp]
    rfl

/-- A path climbs. -/
theorem pathTo_pairwise {b : B} (hb : dom b) :
    (pathTo parent (rank b) b).Pairwise (rank · < rank ·) := by
  apply path_induction hrank _ _ hb
  · intro b hb hp
    rw [pathTo_none hrank hb hp]
    exact List.pairwise_singleton _ _
  · intro b p hb hp ih
    have hpdom := hrank.closed hb hp
    rw [pathTo_some hrank hb hp, List.pairwise_append]
    refine ⟨ih, List.pairwise_singleton _ _, fun x hx y hy => ?_⟩
    rw [List.mem_singleton.mp hy]
    have hle := ((mem_pathTo hrank hpdom).mp hx).rank_le hrank hpdom
    have hstep := hrank.rank_some hb hp
    omega

/-- **A path continues the path of every ancestor.** -/
theorem Ancestor.path_eq {a b : B} (h : Ancestor parent a b) (hb : dom b) :
    ∃ l, pathTo parent (rank b) b = pathTo parent (rank a) a ++ l := by
  induction h with
  | refl => exact ⟨[], (List.append_nil _).symm⟩
  | step hp _ ih =>
      rcases ih (hrank.closed hb hp) with ⟨l, hl⟩
      exact ⟨l ++ [_], by rw [pathTo_some hrank hb hp, hl, List.append_assoc]⟩

theorem getElem?_pathTo {a b : B} (hb : dom b) :
    (pathTo parent (rank b) b)[rank a]? = some a ↔ Ancestor parent a b := by
  constructor
  · intro h
    exact (mem_pathTo hrank hb).mp (List.mem_of_getElem? h)
  · intro h
    rcases h.path_eq hrank hb with ⟨l, hl⟩
    have ha := h.mem hrank hb
    have hlast : pathTo parent (rank a) a =
        (pathTo parent (rank a) a).dropLast ++ [a] := by
      cases hp : parent a with
      | none => rw [pathTo_none hrank ha hp]; rfl
      | some p => rw [pathTo_some hrank ha hp, List.dropLast_concat]
    have hlength := length_pathTo hrank ha
    rw [hlast, List.length_append, List.length_singleton] at hlength
    rw [hl, hlast, List.append_assoc,
      List.getElem?_append_right (by omega)]
    have hzero : rank a - (pathTo parent (rank a) a).dropLast.length = 0 := by
      omega
    rw [hzero]
    rfl

end Ranked

end Agrarian.Lib.Forest
