import Agrarian.Lib.Attempts

/-!
# Trying again

A loop that is repeated from a new state until it stops with a result.  It may go on for ever;
a measure that every repetition raises, but not above a bound, rules that out.
-/

namespace Agrarian.Lib

variable {σ ρ : Type} (step : σ → Attempted σ ρ)

/-- The loop with a bound on the repetitions; `none` when it runs out. -/
def retry : Nat → σ → Option ρ
  | 0, _ => none
  | tries + 1, s =>
      match step s with
      | .next s' => retry tries s'
      | .stop r => some r

/-- The states that the loop reaches. -/
inductive Retried (start : σ) : σ → Prop
  | refl : Retried start start
  | next {s s' : σ} (h : Retried start s) (hstep : step s = .next s') : Retried start s'

variable {step} {start : σ}

theorem Retried.head {s s' : σ} (hstep : step start = .next s) (h : Retried step s s') :
    Retried step start s' := by
  induction h with
  | refl => exact .next .refl hstep
  | next _ hnext ih => exact .next ih hnext

/-- What holds at the start and is kept holds of every state that is reached. -/
theorem Retried.invariant {I : σ → Prop} {s : σ} (h : Retried step start s) (hstart : I start)
    (hkeep : ∀ s s', I s → step s = .next s' → I s') : I s := by
  induction h with
  | refl => exact hstart
  | next _ hstep ih => exact hkeep _ _ ih hstep

/-- A loop that stops from a state that is reached stops from the start. -/
theorem Retried.exists_retry {s : σ} {tries : Nat} {r : ρ} (h : Retried step start s)
    (hretry : retry step tries s = some r) : ∃ tries', retry step tries' start = some r := by
  induction h generalizing tries with
  | refl => exact ⟨tries, hretry⟩
  | next _ hstep ih =>
      refine @ih (tries + 1) ?_
      rw [retry, hstep]
      exact hretry

/-- **The results** of the loop. -/
theorem exists_retry_iff {r : ρ} :
    (∃ tries, retry step tries start = some r) ↔
      ∃ s, Retried step start s ∧ step s = .stop r := by
  constructor
  · rintro ⟨tries, h⟩
    induction tries generalizing start with
    | zero => cases h
    | succ tries ih =>
        rw [retry] at h
        cases hstep : step start with
        | stop r' =>
            rw [hstep] at h
            cases h
            exact ⟨start, .refl, hstep⟩
        | next s' =>
            rw [hstep] at h
            obtain ⟨s, hreached, hstop⟩ := ih h
            exact ⟨s, hreached.head hstep, hstop⟩
  · rintro ⟨s, hreached, hstop⟩
    refine @Retried.exists_retry _ _ _ _ s 1 r hreached ?_
    rw [retry, hstop]

/-- **The loop stops**, if every repetition raises a measure that has a bound. -/
theorem exists_retry_of_bounded {I : σ → Prop} {measure : σ → Int} {bound : Int}
    (hstart : I start) (hkeep : ∀ s s', I s → step s = .next s' → I s')
    (hraise : ∀ s s', I s → step s = .next s' → measure s < measure s' ∧ measure s' ≤ bound) :
    ∃ tries r, retry step tries start = some r := by
  have hgap : ∀ gap s, I s → (bound - measure s).toNat ≤ gap →
      ∃ tries r, retry step tries s = some r := by
    intro gap
    induction gap with
    | zero =>
        intro s hs hle
        cases hstep : step s with
        | stop r => exact ⟨1, r, by rw [retry, hstep]⟩
        | next s' =>
            have h := hraise s s' hs hstep
            omega
    | succ gap ih =>
        intro s hs hle
        cases hstep : step s with
        | stop r => exact ⟨1, r, by rw [retry, hstep]⟩
        | next s' =>
            have h := hraise s s' hs hstep
            obtain ⟨tries, r, hretry⟩ := ih s' (hkeep s s' hs hstep) (by omega)
            refine ⟨tries + 1, r, ?_⟩
            rw [retry, hstep]
            exact hretry
  exact hgap _ start hstart (Nat.le_refl _)

/-- **Total correctness**: the loop stops, and with a right result. -/
theorem retry_correct_iff {P : ρ → Prop} :
    ((∃ tries r, retry step tries start = some r) ∧
        ∀ tries r, retry step tries start = some r → P r) ↔
      (∃ s r, Retried step start s ∧ step s = .stop r) ∧
        ∀ s r, Retried step start s → step s = .stop r → P r := by
  constructor
  · rintro ⟨⟨tries, r, hretry⟩, hall⟩
    constructor
    · obtain ⟨s, hreached, hstop⟩ := exists_retry_iff.mp ⟨tries, hretry⟩
      exact ⟨s, r, hreached, hstop⟩
    · intro s r hreached hstop
      obtain ⟨tries, h⟩ := exists_retry_iff.mpr ⟨s, hreached, hstop⟩
      exact hall tries r h
  · rintro ⟨⟨s, r, hreached, hstop⟩, hall⟩
    constructor
    · obtain ⟨tries, h⟩ := exists_retry_iff.mpr ⟨s, hreached, hstop⟩
      exact ⟨tries, r, h⟩
    · intro tries r hretry
      obtain ⟨s, hreached, hstop⟩ := exists_retry_iff.mp ⟨tries, hretry⟩
      exact hall s r hreached hstop

end Agrarian.Lib
