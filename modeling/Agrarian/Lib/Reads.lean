import Mathlib

/-!
# Computations that index lists

A computation that may be given up and that reads lists at an index, written
once for every monad that can do both.  `Option` runs it for its value alone;
`Reads` keeps the accesses it makes, and gives it up at one that is out of
range.  A computation is `Safe` when all its accesses are in range.
-/

namespace Agrarian.Lib

/-- Monads in which a computation may be given up and a list is indexed. -/
class Indexing (m : Type → Type) where
  refuse {α : Type} : m α
  get {β : Type} : List β → Nat → m β

instance : Indexing Option where
  refuse := none
  get l i := l[i]?

namespace Indexing

variable {m : Type → Type} [Monad m] [Indexing m] {ε α : Type}

def check (b : Bool) : m Unit := if b then pure () else refuse

def ofOption : Option α → m α
  | some a => pure a
  | none => refuse

def fromExcept : Except ε α → m α
  | .ok a => pure a
  | .error _ => refuse

@[simp] theorem ofOption_option (x : Option α) : (ofOption x : Option α) = x := by
  cases x <;> rfl

theorem check_bind {β : Type} (b : Bool) (f : Unit → Option β) :
    (check b : Option Unit).bind f = if b then f () else none := by
  cases b <;> rfl

@[simp] theorem check_eq_some {b : Bool} {u : Unit} :
    (check b : Option Unit) = some u ↔ b = true := by
  cases b
  · exact ⟨fun h => (by cases h), fun h => (by cases h)⟩
  · exact ⟨fun _ => rfl, fun _ => rfl⟩

@[simp] theorem fromExcept_eq_some {x : Except ε α} {a : α} :
    (fromExcept x : Option α) = some a ↔ x = .ok a := by
  cases x with
  | error e => exact ⟨fun h => (by cases h), fun h => (by cases h)⟩
  | ok b =>
      exact ⟨fun h => congrArg _ (Option.some.inj h),
        fun h => congrArg _ (Except.ok.inj h)⟩

/-- Every item of a loop that is not given up has passed. -/
theorem exists_of_foldlM_eq_some {σ : Type} {f : σ → α → Option σ} {l : List α} {s s' : σ}
    (h : l.foldlM f s = some s') {a : α} (ha : a ∈ l) : ∃ t t', f t a = some t' := by
  induction l generalizing s with
  | nil => cases ha
  | cons b l ih =>
      rw [List.foldlM_cons, Option.bind_eq_bind, Option.bind_eq_some_iff] at h
      obtain ⟨t, hb, hl⟩ := h
      rcases List.mem_cons.mp ha with rfl | ha
      · exact ⟨s, t, hb⟩
      · exact ih hl ha

end Indexing

/-- An index into a list and the length of the list. -/
structure Access where
  index : Nat
  length : Nat
  deriving DecidableEq, Repr

def Access.InRange (a : Access) : Prop := a.index < a.length

/-- The accesses a computation makes, and its value if it is not given up. -/
structure Reads (α : Type) where
  accesses : List Access
  value : Option α

namespace Reads

open Indexing

variable {ε α β σ : Type}

def bind (x : Reads α) (f : α → Reads β) : Reads β :=
  match x.value with
  | none => ⟨x.accesses, none⟩
  | some a => ⟨x.accesses ++ (f a).accesses, (f a).value⟩

instance : Monad Reads where
  pure a := ⟨[], some a⟩
  bind := Reads.bind

instance : Indexing Reads where
  refuse := ⟨[], none⟩
  get l i := ⟨[⟨i, l.length⟩], l[i]?⟩

/-- All accesses are in range. -/
def Safe (x : Reads α) : Prop := ∀ a ∈ x.accesses, a.InRange

/-! ## The value -/

@[simp] theorem value_pure (a : α) : (pure a : Reads α).value = pure a := rfl

@[simp] theorem value_refuse : (refuse : Reads α).value = none := rfl

@[simp] theorem value_get (l : List β) (i : Nat) :
    (get l i : Reads β).value = get l i := rfl

@[simp] theorem value_bind (x : Reads α) (f : α → Reads β) :
    (x >>= f).value = x.value >>= fun a => (f a).value := by
  show (Reads.bind x f).value = _
  rw [Reads.bind]
  cases x.value <;> rfl

@[simp] theorem value_check (b : Bool) :
    (check b : Reads Unit).value = check b := by
  cases b <;> rfl

@[simp] theorem value_ofOption (x : Option α) :
    (ofOption x : Reads α).value = ofOption x := by
  cases x <;> rfl

@[simp] theorem value_fromExcept (x : Except ε α) :
    (fromExcept x : Reads α).value = fromExcept x := by
  cases x <;> rfl

theorem value_ite (p : Prop) [Decidable p] (x y : Reads α) :
    (if p then x else y).value = if p then x.value else y.value :=
  apply_ite _ _ _ _

theorem value_foldlM {f : σ → α → Reads σ} {g : σ → α → Option σ}
    (h : ∀ s a, (f s a).value = g s a) (l : List α) (s : σ) :
    (l.foldlM f s).value = l.foldlM g s := by
  induction l generalizing s with
  | nil => rfl
  | cons a l ih =>
      rw [List.foldlM_cons, List.foldlM_cons, value_bind, h]
      exact congrArg _ (funext ih)

theorem value_forM {f : α → Reads Unit} {g : α → Option Unit}
    (h : ∀ a, (f a).value = g a) (l : List α) :
    (forM l f).value = forM l g := by
  induction l with
  | nil => rfl
  | cons a l ih =>
      rw [List.forM_cons, List.forM_cons, value_bind, h]
      exact congrArg _ (funext fun _ => ih)

/-! ## The accesses -/

@[simp] theorem safe_pure (a : α) : (pure a : Reads α).Safe :=
  fun _ h => absurd h List.not_mem_nil

@[simp] theorem safe_refuse : (refuse : Reads α).Safe :=
  fun _ h => absurd h List.not_mem_nil

@[simp] theorem safe_get (l : List β) (i : Nat) :
    (get l i : Reads β).Safe ↔ i < l.length :=
  List.forall_mem_singleton

@[simp] theorem safe_check (b : Bool) : (check b : Reads Unit).Safe := by
  cases b
  · exact safe_refuse
  · exact safe_pure ()

@[simp] theorem safe_ofOption (x : Option α) : (ofOption x : Reads α).Safe := by
  cases x with
  | none => exact safe_refuse
  | some a => exact safe_pure a

@[simp] theorem safe_fromExcept (x : Except ε α) :
    (fromExcept x : Reads α).Safe := by
  cases x with
  | error e => exact safe_refuse
  | ok a => exact safe_pure a

/-- A sequence is safe when its first part is, and the second after any value
of the first. -/
theorem safe_bind {x : Reads α} {f : α → Reads β} :
    (x >>= f).Safe ↔ x.Safe ∧ ∀ a, x.value = some a → (f a).Safe := by
  show (Reads.bind x f).Safe ↔ _
  rw [Reads.bind]
  cases hx : x.value with
  | none => exact ⟨fun h => ⟨h, fun _ ha => by cases ha⟩, fun h => h.1⟩
  | some a =>
      constructor
      · intro h
        refine ⟨fun b hb => h b (List.mem_append_left _ hb), ?_⟩
        rintro a' heq
        obtain rfl := Option.some.inj heq
        exact fun b hb => h b (List.mem_append_right _ hb)
      · rintro ⟨hfirst, hrest⟩ b hb
        rcases List.mem_append.mp hb with hb | hb
        · exact hfirst b hb
        · exact hrest a rfl b hb

/-- What comes after a check is safe where the check passes. -/
theorem safe_check_bind {b : Bool} {f : Unit → Reads β} :
    (check b >>= f).Safe ↔ (b = true → (f ()).Safe) := by
  cases b with
  | false => exact ⟨fun _ h => (by cases h), fun _ => safe_refuse⟩
  | true =>
      rw [safe_bind]
      exact ⟨fun h _ => h.2 () rfl, fun h => ⟨safe_pure (), fun _ _ => h rfl⟩⟩

theorem safe_bind_of_safe {x : Reads α} {f : α → Reads β}
    (h : ∀ a, (f a).Safe) : (x >>= f).Safe ↔ x.Safe := by
  rw [safe_bind]
  exact ⟨fun hx => hx.1, fun hx => ⟨hx, fun a _ => h a⟩⟩

theorem safe_ite_of_safe {p : Prop} [Decidable p] {x y : Reads α}
    (hy : y.Safe) : (if p then x else y).Safe ↔ (p → x.Safe) := by
  split
  · next hp => exact ⟨fun hx _ => hx, fun hx => hx hp⟩
  · next hp => exact ⟨fun _ h => absurd h hp, fun _ => hy⟩

/-- **Loops.**  A loop is safe when each of its rounds is, after any rounds
before it that come through. -/
theorem safe_foldlM {f : σ → α → Reads σ} {l : List α} {s : σ} :
    (l.foldlM f s).Safe ↔ ∀ before a after s',
      l = before ++ a :: after → (before.foldlM f s).value = some s' →
      (f s' a).Safe := by
  induction l generalizing s with
  | nil =>
      refine ⟨fun _ before a after _ hl _ => ?_, fun _ => safe_pure s⟩
      exact absurd hl.symm (List.append_ne_nil_of_right_ne_nil _
        (List.cons_ne_nil a after))
  | cons x l ih =>
      rw [List.foldlM_cons, safe_bind]
      constructor
      · rintro ⟨hfirst, hrest⟩ before a after s' hl hs'
        cases before with
        | nil =>
            obtain ⟨rfl, -⟩ := List.cons.inj hl
            obtain rfl := Option.some.inj hs'
            exact hfirst
        | cons y before =>
            obtain ⟨rfl, rfl⟩ := List.cons.inj hl
            rw [List.foldlM_cons, value_bind] at hs'
            obtain ⟨s₁, hs₁, hs'⟩ := Option.bind_eq_some_iff.mp hs'
            exact ih.mp (hrest s₁ hs₁) before a after s' rfl hs'
      · intro h
        refine ⟨h [] x l s rfl rfl, fun s₁ hs₁ => ih.mpr ?_⟩
        intro before a after s' hl hs'
        refine h (x :: before) a after s' (by rw [hl]; rfl) ?_
        rw [List.foldlM_cons, value_bind, hs₁]
        exact hs'

/-- A loop without a state. -/
theorem safe_forM {f : α → Reads Unit} {l : List α} :
    (forM l f).Safe ↔ ∀ before a after, l = before ++ a :: after →
      (forM before f).value = some () → (f a).Safe := by
  induction l with
  | nil =>
      refine ⟨fun _ before a after hl _ => ?_, fun _ => safe_pure ()⟩
      exact absurd hl.symm (List.append_ne_nil_of_right_ne_nil _
        (List.cons_ne_nil a after))
  | cons x l ih =>
      rw [List.forM_cons, safe_bind]
      constructor
      · rintro ⟨hfirst, hrest⟩ before a after hl hbefore
        cases before with
        | nil =>
            obtain ⟨rfl, -⟩ := List.cons.inj hl
            exact hfirst
        | cons y before =>
            obtain ⟨rfl, rfl⟩ := List.cons.inj hl
            rw [List.forM_cons, value_bind] at hbefore
            obtain ⟨_, hone, hbefore⟩ := Option.bind_eq_some_iff.mp hbefore
            exact ih.mp (hrest () hone) before a after rfl hbefore
      · intro h
        refine ⟨h [] x l rfl rfl, fun _ hone => ih.mpr ?_⟩
        intro before a after hl hbefore
        refine h (x :: before) a after (by rw [hl]; rfl) ?_
        rw [List.forM_cons, value_bind, hone]
        exact hbefore

end Reads

end Agrarian.Lib
