import Mathlib

/-!
# Runs of a machine

A machine takes events one after the other.  A condition on the events of a
run may depend on everything that came before: `EachAfter ok` asks it of every
event after the events that precede it.
-/

namespace Agrarian.Lib

variable {σ ε : Type}

/-- Each event of the run is `ok` after the events before it. -/
def EachAfter (ok : List ε → ε → Prop) (events : List ε) : Prop :=
  ∀ before event after, events = before ++ event :: after → ok before event

namespace EachAfter

variable {ok : List ε → ε → Prop}

theorem nil : EachAfter ok [] := by
  intro before event after h
  simp at h

theorem append_singleton_iff {events : List ε} {event : ε} :
    EachAfter ok (events ++ [event]) ↔ EachAfter ok events ∧ ok events event := by
  constructor
  · intro h
    constructor
    · intro before e after heq
      exact h before e (after ++ [event]) (by simp [heq])
    · exact h events event [] rfl
  · intro h before e after heq
    rcases List.eq_nil_or_concat' after with rfl | ⟨after', last, rfl⟩
    · obtain ⟨rfl, hlast⟩ := List.append_inj' heq rfl
      obtain rfl : event = e := by simpa using hlast
      exact h.2
    · rw [← List.cons_append, ← List.append_assoc] at heq
      obtain ⟨hinit, -⟩ := List.append_inj' heq rfl
      exact h.1 before e after' hinit

theorem of_append {events rest : List ε} (h : EachAfter ok (events ++ rest)) :
    EachAfter ok events := by
  intro before event after heq
  exact h before event (after ++ rest) (by simp [heq])

theorem induction {P : List ε → Prop} {events : List ε}
    (h : EachAfter ok events) (hstart : P [])
    (hstep : ∀ before event, P before → ok before event →
      P (before ++ [event])) : P events := by
  induction events using List.reverseRecOn with
  | nil => exact hstart
  | append_singleton events event ih =>
      rw [append_singleton_iff] at h
      exact hstep events event (ih h.1) h.2

theorem foldl_invariant {step : σ → ε → σ} {Inv : σ → Prop} {s : σ}
    {allowed : σ → ε → Prop} {events : List ε}
    (h : EachAfter (fun before => allowed (before.foldl step s)) events)
    (hstart : Inv s)
    (hstep : ∀ s e, Inv s → allowed s e → Inv (step s e)) :
    Inv (events.foldl step s) := by
  apply h.induction (P := fun events => Inv (events.foldl step s)) hstart
  intro before event hinv hok
  rw [List.foldl_append]
  exact hstep _ _ hinv hok

/-- Where the allowed events are just those that keep an invariant, it holds
in every state reached if and only if every event is allowed. -/
theorem forall_reached_iff {step : σ → ε → σ} {Inv : σ → Prop} {s : σ}
    {allowed : σ → ε → Prop} {events : List ε} (hstart : Inv s)
    (hstep : ∀ s e, Inv s → (Inv (step s e) ↔ allowed s e)) :
    (∀ reached rest, events = reached ++ rest → Inv (reached.foldl step s)) ↔
      EachAfter (fun before => allowed (before.foldl step s)) events := by
  constructor
  · rintro h before event after rfl
    rw [← hstep _ _ (h before (event :: after) rfl)]
    have hnext := h (before ++ [event]) after (by simp)
    rwa [List.foldl_append] at hnext
  · rintro h reached rest rfl
    apply foldl_invariant h.of_append hstart
    exact fun s e hinv hallowed => (hstep s e hinv).mpr hallowed

end EachAfter

end Agrarian.Lib
