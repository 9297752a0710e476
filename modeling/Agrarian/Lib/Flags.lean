import Mathlib

/-!
# Items picked by flags

A selection from a list is kept as one flag for each item.  Setting a flag adds the item to the
selection, and clearing it takes the item out again, whatever the order in which that is done.
-/

namespace Agrarian.Lib

variable {α : Type}

/-- The items whose flag is set. -/
def chosen : List Bool → List α → List α
  | flag :: flags, a :: l => if flag then a :: chosen flags l else chosen flags l
  | _, _ => []

theorem chosen_sublist (flags : List Bool) (l : List α) : (chosen flags l).Sublist l := by
  induction flags generalizing l with
  | nil => exact List.nil_sublist l
  | cons flag flags ih =>
      cases l with
      | nil => exact List.Sublist.refl []
      | cons a l =>
          cases flag with
          | true => exact (ih l).cons_cons a
          | false => exact (ih l).cons a

@[simp] theorem chosen_replicate_true (l : List α) :
    chosen (List.replicate l.length true) l = l := by
  induction l with
  | nil => rfl
  | cons a l ih => rw [List.length_cons, List.replicate_succ, chosen, if_pos rfl, ih]

@[simp] theorem chosen_replicate_false (n : Nat) (l : List α) :
    chosen (List.replicate n false) l = [] := by
  induction n generalizing l with
  | zero => rfl
  | succ n ih =>
      cases l with
      | nil => rfl
      | cons a l =>
          rw [List.replicate_succ, chosen, if_neg Bool.false_ne_true]
          exact ih l

/-- A flag that is set adds its item. -/
theorem chosen_set_perm {flags : List Bool} {l : List α} {i : Nat} {a : α}
    (hflag : flags[i]? = some false) (hitem : l[i]? = some a) :
    (chosen (flags.set i true) l).Perm (a :: chosen flags l) := by
  induction flags generalizing l i with
  | nil => cases hflag
  | cons flag flags ih =>
      cases l with
      | nil => cases hitem
      | cons b l =>
          cases i with
          | zero =>
              cases hflag
              cases hitem
              exact List.Perm.refl _
          | succ i =>
              rw [List.getElem?_cons_succ] at hflag hitem
              have hrest := ih hflag hitem
              rw [List.set_cons_succ]
              cases flag with
              | true => exact (hrest.cons b).trans (List.Perm.swap a b _)
              | false => exact hrest

theorem set_set_self {flags : List Bool} {i : Nat} (hflag : flags[i]? = some false) :
    (flags.set i true).set i false = flags := by
  obtain ⟨hlt, hfalse⟩ := List.getElem?_eq_some_iff.mp hflag
  have hsame := List.set_getElem_self hlt
  rwa [List.set_set, ← hfalse]

end Agrarian.Lib
