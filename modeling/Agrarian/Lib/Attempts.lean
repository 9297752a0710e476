import Mathlib

/-!
# Attempts one after the other

A loop over attempts with a state: an attempt either leaves a state to the next one, or ends the
loop with a result.  The attempts before the last one of a run have all gone on.
-/

namespace Agrarian.Lib

/-- How an attempt ends. -/
inductive Attempted (σ ρ : Type)
  | next (s : σ)
  | stop (r : ρ)

variable {α σ ρ : Type} (step : σ → α → Attempted σ ρ)

/-- The loop, with its result if no attempt ends it. -/
def tryEach (none : ρ) : List α → σ → ρ
  | [], _ => none
  | a :: rest, s =>
      match step s a with
      | .next s => tryEach none rest s
      | .stop r => r

/-- The attempts all go on, from a state to another. -/
inductive Passes : List α → σ → σ → Prop
  | nil (s : σ) : Passes [] s s
  | cons {a : α} {rest : List α} {s s' s'' : σ} (hstep : step s a = .next s')
      (hrest : Passes rest s' s'') : Passes (a :: rest) s s''

variable {step}

/-- The attempt that ends the loop, and the state it starts from. -/
theorem exists_stop {none r : ρ} {l : List α} {s : σ} (h : tryEach step none l s = r)
    (hr : r ≠ none) :
    ∃ before a rest s', l = before ++ a :: rest ∧ Passes step before s s' ∧
      step s' a = .stop r := by
  induction l generalizing s with
  | nil => exact absurd h.symm hr
  | cons a rest ih =>
      rw [tryEach] at h
      cases hstep : step s a with
      | stop r' =>
          rw [hstep] at h
          exact ⟨[], a, rest, s, rfl, Passes.nil s, h ▸ hstep⟩
      | next s₁ =>
          rw [hstep] at h
          obtain ⟨before, b, rest', s', rfl, hpasses, hstop⟩ := ih h
          exact ⟨a :: before, b, rest', s', rfl, Passes.cons hstep hpasses, hstop⟩

/-- Attempts that do not end the loop. -/
theorem Passes.forall_next {before : List α} {s s' : σ} (h : Passes step before s s') :
    ∀ a ∈ before, ∃ s₁ s₂, step s₁ a = .next s₂ := by
  induction h with
  | nil s => exact fun a ha => nomatch ha
  | cons hstep hrest ih => exact List.forall_mem_cons.mpr ⟨⟨_, _, hstep⟩, ih⟩

/-- No attempt has changed the state. -/
theorem Passes.unchanged {changes : α → Prop}
    (hkeep : ∀ s a s', step s a = .next s' → ¬ changes a → s' = s) {before : List α} {s s' : σ}
    (h : Passes step before s s') (hnone : ∀ a ∈ before, ¬ changes a) : s' = s := by
  induction h with
  | nil s => rfl
  | cons hstep hrest ih =>
      obtain ⟨hfirst, hothers⟩ := List.forall_mem_cons.mp hnone
      rw [ih hothers]
      exact hkeep _ _ _ hstep hfirst

/-- What every attempt keeps. -/
theorem Passes.invariant {I : σ → Prop} (hkeep : ∀ s a s', step s a = .next s' → I s → I s')
    {before : List α} {s s' : σ} (h : Passes step before s s') (hs : I s) : I s' := by
  induction h with
  | nil s => exact hs
  | cons hstep hrest ih => exact ih (hkeep _ _ _ hstep hs)

/-- Some attempt has changed the state, and none takes that back. -/
theorem Passes.changed {changes : α → Prop} {changed : σ → Prop}
    (hkeep : ∀ s a s', step s a = .next s' → ¬ changes a → s' = s)
    (hchange : ∀ s a s', step s a = .next s' → changes a → changed s')
    {before : List α} {s s' : σ} (h : Passes step before s s') {a : α} (ha : a ∈ before)
    (hchanges : changes a) : changed s' := by
  have hstays : ∀ s a s', step s a = .next s' → changed s → changed s' := by
    intro s b s' hstep hs
    by_cases hb : changes b
    · exact hchange s b s' hstep hb
    · exact hkeep s b s' hstep hb ▸ hs
  induction h with
  | nil s => cases ha
  | cons hstep hrest ih =>
      rcases List.mem_cons.mp ha with rfl | ha
      · exact hrest.invariant hstays (hchange _ _ _ hstep hchanges)
      · exact ih ha

/-- The attempts before the first one with a property. -/
theorem takeWhile_eq_of_first {p : α → Bool} {before rest : List α} {a : α}
    (hbefore : ∀ b ∈ before, p b = false) (ha : p a = true) :
    (before ++ a :: rest).takeWhile (fun b => !p b) = before ∧
      (before ++ a :: rest).find? p = some a := by
  induction before with
  | nil => simp [ha]
  | cons b before ih =>
      obtain ⟨hb, hothers⟩ := List.forall_mem_cons.mp hbefore
      obtain ⟨htake, hfind⟩ := ih hothers
      rw [List.cons_append, List.takeWhile_cons_of_pos (by simp [hb]), htake,
        List.find?_cons_of_neg (by simp [hb]), hfind]
      exact ⟨rfl, rfl⟩

end Agrarian.Lib
