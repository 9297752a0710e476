import Mathlib

/-!
# Worklists

The loop that takes an item from the front of a queue, changes its state, and
puts new items at the end, until the queue is empty.  It ends when every step
uses up at least what it pushes: a measure of the state pays for the items
that are still to come.
-/

namespace Agrarian.Lib.Worklist

variable {σ α : Type}

/-- The loop with a bound on the items it takes; `none` when it runs out. -/
def run (step : σ → α → σ × List α) : Nat → σ → List α → Option σ
  | _, s, [] => some s
  | 0, _, _ :: _ => none
  | fuel + 1, s, a :: queue =>
      run step fuel (step s a).1 (queue ++ (step s a).2)

/-- The measure pays for what is pushed. -/
def Pays (step : σ → α → σ × List α) (measure : σ → Nat) : Prop :=
  ∀ s a, (step s a).2.length + measure (step s a).1 ≤ measure s

/-- **The loop ends** within its bound, and what every step keeps holds at
the end. -/
theorem run_spec {step : σ → α → σ × List α} {measure : σ → Nat}
    (hpays : Pays step measure) (inv : σ → List α → Prop)
    (hstep : ∀ s a queue, inv s (a :: queue) →
      inv (step s a).1 (queue ++ (step s a).2))
    {fuel : Nat} {s : σ} {queue : List α} (hinv : inv s queue)
    (hfuel : queue.length + measure s ≤ fuel) :
    ∃ s', run step fuel s queue = some s' ∧ inv s' [] := by
  induction fuel generalizing s queue with
  | zero =>
      cases queue with
      | nil => exact ⟨s, by rw [run], hinv⟩
      | cons a queue =>
          rw [List.length_cons] at hfuel
          omega
  | succ fuel ih =>
      cases queue with
      | nil => exact ⟨s, by rw [run], hinv⟩
      | cons a queue =>
          rw [run]
          apply ih (hstep s a queue hinv)
          have hpay := hpays s a
          rw [List.length_cons] at hfuel
          rw [List.length_append]
          omega

/-- An invariant of the state alone. -/
theorem run_invariant {step : σ → α → σ × List α} {measure : σ → Nat}
    (hpays : Pays step measure) {inv : σ → Prop}
    (hstep : ∀ s a, inv s → inv (step s a).1) {fuel : Nat} {s : σ}
    {queue : List α} (hinv : inv s)
    (hfuel : queue.length + measure s ≤ fuel) :
    ∃ s', run step fuel s queue = some s' ∧ inv s' := by
  exact run_spec hpays (fun s _ => inv s) (fun s a _ => hstep s a) hinv hfuel

end Agrarian.Lib.Worklist
