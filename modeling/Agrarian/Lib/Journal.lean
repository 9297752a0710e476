import Mathlib

/-!
# Computations that store

A computation that may fail and that makes stores on the way: its journal keeps
the stores that it has made when it returns or fails.  Nothing is taken back.

What the stores mean is left open.  A state is left alone by a journal if it
is, whatever the stores do, as long as those that do not count do nothing.
-/

namespace Agrarian.Lib

structure Journal (e ε α : Type) where
  stores : List e
  result : Except ε α

namespace Journal

variable {e ε α β : Type}

instance : Monad (Journal e ε) where
  pure a := ⟨[], .ok a⟩
  bind x f :=
    match x.result with
    | .ok a => ⟨x.stores ++ (f a).stores, (f a).result⟩
    | .error err => ⟨x.stores, .error err⟩

def storeAll (stores : List e) : Journal e ε Unit := ⟨stores, .ok ()⟩

def fail (err : ε) : Journal e ε α := ⟨[], .error err⟩

def require (c : Bool) (err : ε) : Journal e ε Unit :=
  if c then pure () else fail err

def ofOption (err : ε) : Option α → Journal e ε α
  | none => fail err
  | some a => pure a

/-! ## Results -/

@[simp] theorem result_pure (a : α) :
    (pure a : Journal e ε α).result = .ok a :=
  rfl

@[simp] theorem result_storeAll (stores : List e) :
    (storeAll stores : Journal e ε Unit).result = .ok () :=
  rfl

@[simp] theorem result_fail (err : ε) :
    (fail err : Journal e ε α).result = .error err :=
  rfl

theorem result_require (c : Bool) (err : ε) :
    (require c err : Journal e ε Unit).result =
      if c then .ok () else .error err := by
  cases c <;> rfl

@[simp] theorem result_require_ok (c : Bool) (err : ε) (u : Unit) :
    (require c err : Journal e ε Unit).result = .ok u ↔ c = true := by
  cases c <;> simp [require]

@[simp] theorem result_require_error (c : Bool) (err err' : ε) :
    (require c err : Journal e ε Unit).result = .error err' ↔
      c = false ∧ err = err' := by
  cases c <;> simp [require]

@[simp] theorem result_ofOption_ok (err : ε) (a? : Option α) (a : α) :
    (ofOption err a? : Journal e ε α).result = .ok a ↔ a? = some a := by
  cases a? <;> simp [ofOption]

@[simp] theorem result_ofOption_error (err err' : ε) (a? : Option α) :
    (ofOption err a? : Journal e ε α).result = .error err' ↔
      a? = none ∧ err = err' := by
  cases a? <;> simp [ofOption]

theorem bind_of_ok {x : Journal e ε α} {a : α} (h : x.result = .ok a)
    (f : α → Journal e ε β) :
    x >>= f = ⟨x.stores ++ (f a).stores, (f a).result⟩ := by
  obtain ⟨stores, result⟩ := x
  obtain rfl : result = .ok a := h
  rfl

theorem bind_of_error {x : Journal e ε α} {err : ε} (h : x.result = .error err)
    (f : α → Journal e ε β) : x >>= f = ⟨x.stores, .error err⟩ := by
  obtain ⟨stores, result⟩ := x
  obtain rfl : result = .error err := h
  rfl

theorem result_bind (x : Journal e ε α) (f : α → Journal e ε β) :
    (x >>= f).result = x.result.bind fun a => (f a).result := by
  cases hresult : x.result with
  | ok a =>
      rw [bind_of_ok hresult]
      rfl
  | error err =>
      rw [bind_of_error hresult]
      rfl

/-- A sequence returns what its second part returns. -/
theorem ok_bind (x : Journal e ε α) (f : α → Journal e ε β) (b : β) :
    (x >>= f).result = .ok b ↔
      ∃ a, x.result = .ok a ∧ (f a).result = .ok b := by
  cases hresult : x.result with
  | ok a => simp [bind_of_ok hresult]
  | error err => simp [bind_of_error hresult]

/-- A sequence fails where one of its parts fails. -/
theorem error_bind (x : Journal e ε α) (f : α → Journal e ε β) (err : ε) :
    (x >>= f).result = .error err ↔
      x.result = .error err ∨
        ∃ a, x.result = .ok a ∧ (f a).result = .error err := by
  cases hresult : x.result with
  | ok a => simp [bind_of_ok hresult]
  | error err => simp [bind_of_error hresult]

/-! ## Stores -/

/-- All stores are of one kind. -/
def Only (P : e → Prop) (x : Journal e ε α) : Prop := ∀ s ∈ x.stores, P s

variable {P : e → Prop}

@[simp] theorem only_pure (a : α) : Only P (pure a : Journal e ε α) := by
  simp [Only, pure]

@[simp] theorem only_fail (err : ε) : Only P (fail err : Journal e ε α) := by
  simp [Only, fail]

@[simp] theorem only_storeAll (stores : List e) :
    Only P (storeAll stores : Journal e ε Unit) ↔ ∀ s ∈ stores, P s :=
  Iff.rfl

@[simp] theorem only_require (c : Bool) (err : ε) :
    Only P (require c err : Journal e ε Unit) := by
  cases c <;> simp [require]

@[simp] theorem only_ofOption (err : ε) (a? : Option α) :
    Only P (ofOption err a? : Journal e ε α) := by
  cases a? <;> simp [ofOption]

/-- A sequence makes the stores of its first part, and those of its second part
if it comes to that. -/
theorem only_bind (x : Journal e ε α) (f : α → Journal e ε β) :
    Only P (x >>= f) ↔ Only P x ∧ ∀ a, x.result = .ok a → Only P (f a) := by
  cases hresult : x.result with
  | ok a => simp [bind_of_ok hresult, Only, or_imp, forall_and]
  | error err => simp [bind_of_error hresult, Only]

theorem only_seq (x : Journal e ε Unit) (y : Journal e ε β) :
    Only P (x >>= fun _ => y) ↔ Only P x ∧ (x.result = .ok () → Only P y) := by
  rw [only_bind]
  constructor
  · exact fun h => ⟨h.1, h.2 ()⟩
  · exact fun h => ⟨h.1, fun _ => h.2⟩

/-! ## States -/

/-- The state after all stores. -/
def replay {S : Type} (apply : S → e → S) (s : S) (x : Journal e ε α) : S :=
  x.stores.foldl apply s

section Replay

variable {S : Type} (apply : S → e → S) (s : S)

@[simp] theorem replay_pure (a : α) : (pure a : Journal e ε α).replay apply s = s :=
  rfl

@[simp] theorem replay_fail (err : ε) : (fail err : Journal e ε α).replay apply s = s :=
  rfl

@[simp] theorem replay_require (c : Bool) (err : ε) :
    (require c err : Journal e ε Unit).replay apply s = s := by
  cases c <;> rfl

/-- A sequence replays its first part and goes on if that returns. -/
theorem replay_bind (x : Journal e ε α) (f : α → Journal e ε β) :
    (x >>= f).replay apply s =
      match x.result with
      | .ok a => (f a).replay apply (x.replay apply s)
      | .error _ => x.replay apply s := by
  cases hresult : x.result with
  | ok a =>
      rw [bind_of_ok hresult]
      exact List.foldl_append
  | error err =>
      rw [bind_of_error hresult]
      rfl

/-- After stores that cannot fail the rest is replayed. -/
theorem replay_storeAll_bind (stores : List e) (f : Unit → Journal e ε β) :
    (storeAll stores >>= f).replay apply s = (f ()).replay apply (stores.foldl apply s) :=
  replay_bind apply s (storeAll stores) f

end Replay

/-- Every state is left alone, whatever the stores do, where those of kind `P`
do nothing. -/
def LeavesAlone (P : e → Prop) (x : Journal e ε α) : Prop :=
  ∀ (S : Type) (apply : S → e → S), (∀ s store, P store → apply s store = s) →
    ∀ s, x.replay apply s = s

theorem foldl_count [DecidablePred P] (stores : List e) (n : Nat) :
    stores.foldl (fun n s => if P s then n else n + 1) n =
      n + stores.countP fun s => ¬P s := by
  induction stores generalizing n with
  | nil => rfl
  | cons s stores ih =>
      by_cases hs : P s
      · simp [hs, ih]
      · simp [hs, ih]
        omega

/-- **States are left alone** if and only if all stores are of the kind that
does nothing. -/
theorem leavesAlone_iff (x : Journal e ε α) : LeavesAlone P x ↔ Only P x := by
  classical
  obtain ⟨stores, result⟩ := x
  unfold LeavesAlone replay Only
  constructor
  · intro halone
    have hzero := halone Nat (fun n s => if P s then n else n + 1)
      (fun n s hs => if_pos hs) 0
    rw [foldl_count, Nat.zero_add, List.countP_eq_zero] at hzero
    intro s hs
    simpa using hzero s hs
  · intro honly S apply hnothing s
    induction stores with
    | nil => rfl
    | cons first stores ih =>
        rw [List.foldl_cons, hnothing s first (honly first (by simp))]
        exact ih fun s hs => honly s (by simp [hs])

end Journal

end Agrarian.Lib
