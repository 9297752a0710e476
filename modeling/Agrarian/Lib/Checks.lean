import Mathlib

/-!
# Checks that pass or give a reason

A validation is a sequence of checks and loops of checks, and ends with the
first that fails.  It passes exactly when all of them do.
-/

namespace Agrarian.Lib

variable {ε α β σ : Type}

def require (b : Bool) (e : ε) : Except ε Unit :=
  if b then .ok () else .error e

@[simp] theorem require_eq_ok {b : Bool} {e : ε} :
    require b e = .ok () ↔ b = true := by
  cases b <;> simp [require]

theorem bind_eq_ok {x : Except ε α} {f : α → Except ε β} {b : β} :
    x >>= f = .ok b ↔ ∃ a, x = .ok a ∧ f a = .ok b := by
  cases x with
  | error e => simp [bind, Except.bind]
  | ok a => simp [bind, Except.bind]

/-- The rest of a sequence after a check. -/
@[simp] theorem check_bind_eq_ok {x : Except ε Unit} {y : Except ε β} {b : β} :
    (x >>= fun _ => y) = .ok b ↔ x = .ok () ∧ y = .ok b := by
  cases x with
  | error e => simp [bind, Except.bind]
  | ok a => simp [bind, Except.bind]

theorem forM_eq_ok {l : List α} {f : α → Except ε Unit} :
    forM l f = .ok () ↔ ∀ a ∈ l, f a = .ok () := by
  induction l with
  | nil => simp [pure, Except.pure]
  | cons a l ih =>
      rw [List.forM_cons, check_bind_eq_ok, ih]
      simp

/-- A loop in which each item must pass and adds something to what was
collected. -/
theorem foldlM_eq_ok {f : List σ → α → Except ε (List σ)} {pass : α → Prop}
    {adds : α → List σ}
    (hf : ∀ s a s', f s a = .ok s' ↔ pass a ∧ s' = s ++ adds a)
    {l : List α} {s s' : List σ} :
    l.foldlM f s = .ok s' ↔
      (∀ a ∈ l, pass a) ∧ s' = s ++ l.flatMap adds := by
  induction l generalizing s with
  | nil => simp [pure, Except.pure, eq_comm]
  | cons a l ih =>
      rw [List.foldlM_cons, bind_eq_ok]
      simp only [hf, ih, List.mem_cons, forall_eq_or_imp, List.flatMap_cons]
      constructor
      · rintro ⟨s₁, ⟨ha, rfl⟩, hl, rfl⟩
        exact ⟨⟨ha, hl⟩, by rw [List.append_assoc]⟩
      · rintro ⟨⟨ha, hl⟩, rfl⟩
        exact ⟨s ++ adds a, ⟨ha, rfl⟩, hl, by rw [List.append_assoc]⟩

/-- A loop in which each item adds something to a state, seen through what is
in the state. -/
theorem foldlM_mem_iff {f : σ → α → Except ε σ} (isIn : β → σ → Prop)
    (adds : α → β → Prop) {l : List α}
    (hf : ∀ a ∈ l, ∀ s s', f s a = .ok s' → ∀ b, isIn b s' ↔ isIn b s ∨ adds a b)
    {s s' : σ} (h : l.foldlM f s = .ok s') (b : β) :
    isIn b s' ↔ isIn b s ∨ ∃ a ∈ l, adds a b := by
  induction l generalizing s with
  | nil =>
      obtain rfl := Except.ok.inj h
      simp
  | cons a l ih =>
      rw [List.foldlM_cons, bind_eq_ok] at h
      obtain ⟨s₁, ha, hl⟩ := h
      rw [ih (fun a' ha' => hf a' (List.mem_cons_of_mem _ ha')) hl,
        hf a List.mem_cons_self s s₁ ha]
      simp [or_assoc]

/-- Every item of a loop that passes has passed. -/
theorem exists_of_foldlM_eq_ok {f : β → α → Except ε β} {l : List α}
    {s s' : β} (h : l.foldlM f s = .ok s') {a : α} (ha : a ∈ l) :
    ∃ t t', f t a = .ok t' := by
  induction l generalizing s with
  | nil => cases ha
  | cons b l ih =>
      rw [List.foldlM_cons, bind_eq_ok] at h
      obtain ⟨t, hb, hl⟩ := h
      rcases List.mem_cons.mp ha with rfl | ha
      · exact ⟨s, t, hb⟩
      · exact ih hl ha

end Agrarian.Lib
