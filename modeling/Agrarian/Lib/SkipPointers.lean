import Agrarian.Lib.Forest

/-!
# Skip pointers

A node of a forest may point to an ancestor far below it, whose rank is a
function of its own rank.  The walk to the ancestor of some rank takes the
pointer when it does not lead too far down, and the parent otherwise; by which
of the two it goes does not change where it ends.
-/

namespace Agrarian.Lib.SkipPointers

open Agrarian.Lib.Forest

variable {B : Type} (parent skip : B → Option B) (rank : B → Nat)
  (skipRank : Nat → Nat)

/-- The pointer of a node at rank `walk` is taken: it does not lead below
`target`, and the pointer of the parent is not better. -/
def takesSkip (target walk : Nat) : Bool :=
  skipRank walk = target ||
    (target < skipRank walk &&
      !(skipRank (walk - 1) + 2 < skipRank walk && target ≤ skipRank (walk - 1)))

/-- The walk from a node at rank `walk` down to rank `target`, at most `fuel`
steps long; `none` when a pointer that it takes is missing. -/
def walkDown (target : Nat) : Nat → B → Nat → Option B
  | 0, b, _ => some b
  | fuel + 1, b, walk =>
      if walk ≤ target then some b
      else if takesSkip skipRank target walk then
        (skip b).bind fun next => walkDown target fuel next (skipRank walk)
      else (parent b).bind fun next => walkDown target fuel next (walk - 1)

/-- One step of the walk, from a node and the rank the walk has for it. -/
def walkStep (target : Nat) (s : B × Nat) : Option (B × Nat) :=
  if takesSkip skipRank target s.2 then (skip s.1).map fun next => (next, skipRank s.2)
  else (parent s.1).map fun next => (next, s.2 - 1)

/-- The walk as a loop: at most `steps` steps while the rank is above the
target. -/
def walkSteps (target : Nat) : Nat → B × Nat → Option (B × Nat)
  | 0, s => some s
  | steps + 1, s =>
      if s.2 ≤ target then some s
      else (walkStep parent skip skipRank target s).bind (walkSteps target steps)

def getAncestor (b : B) (target : Nat) : Option B :=
  if rank b < target then none
  else walkDown parent skip skipRank target (rank b) b (rank b)

/-- The skip pointer of a node leads to its ancestor with the right rank; a
root has none. -/
def SkipRight (b : B) : Prop :=
  if rank b = 0 then skip b = none
  else ∃ a, skip b = some a ∧ Ancestor parent a b ∧ rank a = skipRank (rank b)

variable {parent skip rank skipRank}

/-- Right pointers stay right where the path to the node stays. -/
theorem SkipRight.congr {parent' skip' : B → Option B} {rank' : B → Nat} {b : B}
    (h : SkipRight parent skip rank skipRank b) (hskip : skip' b = skip b)
    (hagree : ∀ x, Ancestor parent x b → parent' x = parent x ∧ rank' x = rank x) :
    SkipRight parent' skip' rank' skipRank b := by
  unfold SkipRight at *
  rw [(hagree b Ancestor.refl).2, hskip]
  by_cases hzero : rank b = 0
  · rw [if_pos hzero] at h ⊢
    exact h
  · rw [if_neg hzero] at h ⊢
    obtain ⟨a, ha, hanc, harank⟩ := h
    exact ⟨a, ha, hanc.congr fun x hx => (hagree x hx).1, (hagree a hanc).2.trans harank⟩

section Map

variable {P : Type} {ptr : B → P} {parent' skip' : P → Option P} {rank' : P → Nat}

theorem ancestor_map {a b : B} (h : Ancestor parent a b)
    (hagree : ∀ x, Ancestor parent x b → parent' (ptr x) = (parent x).map ptr) :
    Ancestor parent' (ptr a) (ptr b) := by
  induction h with
  | refl => exact Ancestor.refl
  | @step p b hp _ ih =>
      have hpar := hagree b Ancestor.refl
      rw [hp] at hpar
      exact Ancestor.step hpar (ih fun x hx => hagree x (Ancestor.step hp hx))

/-- Right pointers of a forest are right in a copy of it. -/
theorem SkipRight.map {b : B} (h : SkipRight parent skip rank skipRank b)
    (hskip : skip' (ptr b) = (skip b).map ptr)
    (hagree : ∀ x, Ancestor parent x b →
      parent' (ptr x) = (parent x).map ptr ∧ rank' (ptr x) = rank x) :
    SkipRight parent' skip' rank' skipRank (ptr b) := by
  unfold SkipRight at *
  rw [(hagree b Ancestor.refl).2, hskip]
  by_cases hzero : rank b = 0
  · rw [if_pos hzero] at h ⊢
    rw [h]
    rfl
  · rw [if_neg hzero] at h ⊢
    obtain ⟨a, ha, hanc, harank⟩ := h
    refine ⟨ptr a, by rw [ha]; rfl, ?_, (hagree a hanc).2.trans harank⟩
    exact ancestor_map hanc fun x hx => (hagree x hx).1

end Map

theorem le_of_takesSkip {target walk : Nat} (h : takesSkip skipRank target walk = true) :
    target ≤ skipRank walk := by
  simp only [takesSkip, Bool.or_eq_true, Bool.and_eq_true, decide_eq_true_eq] at h
  omega

section Ranked

variable {dom : B → Prop} (hrank : Ranked parent dom rank)
  (hlow : ∀ n, n ≠ 0 → skipRank n < n)
include hrank

theorem ancestor_unique {a a' b : B} (hb : dom b) (h : Ancestor parent a b)
    (h' : Ancestor parent a' b) (heq : rank a = rank a') : a = a' := by
  have haa' := h.of_rank_le hrank h' hb (Nat.le_of_eq heq)
  exact haa'.eq_of_rank_le hrank (h'.mem hrank hb) (Nat.le_of_eq heq.symm)

include hlow in
/-- The loop is over after one step for each rank above the target, or less. -/
theorem walkSteps_spec {target steps : Nat} {b : B} (hb : dom b)
    (htarget : target ≤ rank b) (hsteps : rank b - target ≤ steps)
    (hskip : ∀ a, Ancestor parent a b → SkipRight parent skip rank skipRank a) :
    ∃ a, walkSteps parent skip skipRank target steps (b, rank b) = some (a, target) ∧
      Ancestor parent a b ∧ rank a = target := by
  induction steps generalizing b with
  | zero =>
      have heq : rank b = target := by omega
      exact ⟨b, by rw [walkSteps, heq], Ancestor.refl, heq⟩
  | succ steps ih =>
      rw [walkSteps]
      by_cases hdone : rank b ≤ target
      · have heq : rank b = target := by omega
        rw [if_pos hdone]
        exact ⟨b, by rw [heq], Ancestor.refl, heq⟩
      rw [if_neg hdone, walkStep]
      have hpos : rank b ≠ 0 := by omega
      by_cases htakes : takesSkip skipRank target (rank b) = true
      · rw [if_pos htakes]
        have hright := hskip b Ancestor.refl
        rw [SkipRight, if_neg hpos] at hright
        obtain ⟨c, hc, hanc, hcrank⟩ := hright
        have hle := le_of_takesSkip htakes
        have hlt := hlow (rank b) hpos
        obtain ⟨a, ha, hac, harank⟩ := ih (hanc.mem hrank hb) (by omega) (by omega)
          fun x hx => hskip x (hx.trans hanc)
        refine ⟨a, ?_, hac.trans hanc, harank⟩
        rw [hc, Option.map_some, Option.bind_some, ← hcrank]
        exact ha
      · rw [if_neg htakes]
        cases hp : parent b with
        | none =>
            have hzero := hrank.rank_none hb hp
            omega
        | some p =>
            have hstep := hrank.rank_some hb hp
            have hanc : Ancestor parent p b := Ancestor.step hp Ancestor.refl
            obtain ⟨a, ha, hap, harank⟩ := ih (hrank.closed hb hp) (by omega) (by omega)
              fun x hx => hskip x (hx.trans hanc)
            refine ⟨a, ?_, hap.trans hanc, harank⟩
            rw [Option.map_some, Option.bind_some, show rank b - 1 = rank p by omega]
            exact ha

omit hrank in
/-- The recursive walk makes the steps of the loop. -/
theorem walkDown_eq_walkSteps (target fuel : Nat) (b : B) (walk : Nat) :
    walkDown parent skip skipRank target fuel b walk =
      (walkSteps parent skip skipRank target fuel (b, walk)).map Prod.fst := by
  induction fuel generalizing b walk with
  | zero => rfl
  | succ fuel ih =>
      rw [walkDown, walkSteps]
      by_cases hdone : walk ≤ target
      · rw [if_pos hdone, if_pos hdone]
        rfl
      · rw [if_neg hdone, if_neg hdone, walkStep]
        by_cases htakes : takesSkip skipRank target walk = true
        · rw [if_pos htakes, if_pos htakes]
          cases skip b with
          | none => rfl
          | some next => exact ih next (skipRank walk)
        · rw [if_neg htakes, if_neg htakes]
          cases parent b with
          | none => rfl
          | some next => exact ih next (walk - 1)

include hlow in
theorem walkDown_spec {target : Nat} {fuel : Nat} {b : B} (hb : dom b)
    (htarget : target ≤ rank b) (hfuel : rank b ≤ fuel)
    (hskip : ∀ a, Ancestor parent a b → SkipRight parent skip rank skipRank a) :
    ∃ a, walkDown parent skip skipRank target fuel b (rank b) = some a ∧
      Ancestor parent a b ∧ rank a = target := by
  obtain ⟨a, hrun, hanc, harank⟩ := walkSteps_spec hrank hlow hb htarget
    (show rank b - target ≤ fuel by omega) hskip
  refine ⟨a, ?_, hanc, harank⟩
  rw [walkDown_eq_walkSteps, hrun]
  rfl

include hlow in
/-- The walk ends at the ancestor with the rank. -/
theorem getAncestor_spec {b : B} {target : Nat} (hb : dom b) (htarget : target ≤ rank b)
    (hskip : ∀ a, Ancestor parent a b → SkipRight parent skip rank skipRank a) :
    ∃ a, getAncestor parent skip rank skipRank b target = some a ∧
      Ancestor parent a b ∧ rank a = target := by
  rw [getAncestor, if_neg (by omega)]
  exact walkDown_spec hrank hlow hb htarget (Nat.le_refl _) hskip

include hlow in
/-- A pointer that the walk from the parent found is right. -/
theorem skipRight_of_getAncestor {skip' : B → Option B} {b p : B} (hb : dom b)
    (hp : parent b = some p)
    (hskip : ∀ a, Ancestor parent a p → SkipRight parent skip rank skipRank a)
    (hset : skip' b = getAncestor parent skip rank skipRank p (skipRank (rank b))) :
    SkipRight parent skip' rank skipRank b := by
  have hstep := hrank.rank_some hb hp
  have hlt := hlow (rank b) (by omega)
  obtain ⟨a, ha, hanc, harank⟩ := getAncestor_spec hrank hlow (hrank.closed hb hp)
    (show skipRank (rank b) ≤ rank p by omega) hskip
  rw [SkipRight, if_neg (by omega)]
  exact ⟨a, hset.trans ha, Ancestor.step hp hanc, harank⟩

/-- Right pointers are determined by the forest. -/
theorem SkipRight.unique {skip' : B → Option B} {b : B} (hb : dom b)
    (h : SkipRight parent skip rank skipRank b)
    (h' : SkipRight parent skip' rank skipRank b) : skip b = skip' b := by
  unfold SkipRight at h h'
  by_cases hzero : rank b = 0
  · rw [if_pos hzero] at h h'
    rw [h, h']
  · rw [if_neg hzero] at h h'
    obtain ⟨a, ha, hanc, harank⟩ := h
    obtain ⟨a', ha', hanc', harank'⟩ := h'
    rw [ha, ha', ancestor_unique hrank hb hanc hanc' (harank.trans harank'.symm)]

end Ranked

end Agrarian.Lib.SkipPointers
