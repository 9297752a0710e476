import Mathlib

/-!
# Routes

A loop that goes from place to place by a plan of its own, and does at each
place what it has come for.  The plan does not look at what was done, so the
places can be listed first: the loop is the same as doing the work along that
list.
-/

namespace Agrarian.Lib

variable {κ β : Type*} (plan : κ → Option (β × κ))

/-- The places of a route of so many turns at most, and where it has ended, if
it has. -/
def follow : Nat → κ → List β × Option κ
  | 0, _ => ([], none)
  | turns + 1, k =>
      match plan k with
      | none => ([], some k)
      | some (b, k') => (b :: (follow turns k').1, (follow turns k').2)

variable {plan}

theorem follow_end {k : κ} (h : plan k = none) (turns : Nat) :
    follow plan (turns + 1) k = ([], some k) := by
  rw [follow, h]

theorem follow_next {k k' : κ} {b : β} (h : plan k = some (b, k')) (turns : Nat) :
    follow plan (turns + 1) k =
      (b :: (follow plan turns k').1, (follow plan turns k').2) := by
  rw [follow, h]

/-- More turns take a route further. -/
theorem follow_prefix (turns more : Nat) (k : κ) :
    (follow plan turns k).1 <+: (follow plan (turns + more) k).1 := by
  induction turns generalizing k with
  | zero => exact List.nil_prefix
  | succ turns ih =>
      rw [Nat.succ_add]
      cases hk : plan k with
      | none =>
          rw [follow_end hk]
          exact List.nil_prefix
      | some next =>
          obtain ⟨b, k'⟩ := next
          rw [follow_next hk, follow_next hk]
          exact List.cons_prefix_cons.mpr ⟨rfl, ih k'⟩

/-- A route that has ended stays as it is. -/
theorem follow_ends {turns : Nat} {k last : κ}
    (h : (follow plan turns k).2 = some last) (more : Nat) :
    follow plan (turns + more) k = follow plan turns k := by
  induction turns generalizing k with
  | zero => cases h
  | succ turns ih =>
      rw [Nat.succ_add]
      cases hk : plan k with
      | none => rw [follow_end hk, follow_end hk]
      | some next =>
          obtain ⟨b, k'⟩ := next
          rw [follow_next hk] at h
          rw [follow_next hk, follow_next hk, ih h]

/-- A route is a part of every one from there that has ended. -/
theorem follow_prefix_of_ends {turns turns' : Nat} {k last : κ}
    (h : (follow plan turns k).2 = some last) :
    (follow plan turns' k).1 <+: (follow plan turns k).1 := by
  rcases Nat.le_total turns' turns with hle | hle
  · obtain ⟨more, rfl⟩ := Nat.exists_eq_add_of_le hle
    exact follow_prefix turns' more k
  · obtain ⟨more, rfl⟩ := Nat.exists_eq_add_of_le hle
    rw [follow_ends h]

/-- Along a stretch of `n` places, one after the other. -/
theorem follow_straight {place : Nat → κ} {b : Nat → β} {n : Nat}
    (hplan : ∀ i, i < n → plan (place i) = some (b i, place (i + 1))) (turns : Nat) :
    follow plan (n + turns) (place 0) =
      ((List.range n).map b ++ (follow plan turns (place n)).1,
        (follow plan turns (place n)).2) := by
  induction n generalizing place b with
  | zero => simp
  | succ n ih =>
      have hrest := @ih (fun i => place (i + 1)) (fun i => b (i + 1))
        fun i hi => hplan (i + 1) (by omega)
      rw [Nat.succ_add, follow_next (hplan 0 (Nat.succ_pos n)), hrest,
        List.range_succ_eq_map, List.map_cons, List.map_map]
      rfl

end Agrarian.Lib
