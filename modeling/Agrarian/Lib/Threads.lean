import Mathlib

/-!
# Totals over threads

A number of threads, each with a state of its own, of which one moves at a
time.  What is counted over all threads changes by what the moving thread
contributes before and after.
-/

namespace Agrarian.Lib

variable {θ σ M : Type} [Fintype θ] [DecidableEq θ] [AddCommMonoid M]

/-- The sum of what the threads contribute. -/
def threadTotal (f : σ → M) (threads : θ → σ) : M := ∑ t, f (threads t)

/-- What all threads but one contribute. -/
def threadRest (f : σ → M) (threads : θ → σ) (t : θ) : M :=
  ∑ u ∈ Finset.univ.erase t, f (threads u)

theorem threadTotal_eq (f : σ → M) (threads : θ → σ) (t : θ) :
    threadTotal f threads = f (threads t) + threadRest f threads t :=
  (Finset.add_sum_erase _ _ (Finset.mem_univ t)).symm

theorem threadRest_update (f : σ → M) (threads : θ → σ) (t : θ) (s : σ) :
    threadRest f (Function.update threads t s) t = threadRest f threads t := by
  apply Finset.sum_congr rfl
  intro u hu
  rw [Function.update_of_ne (Finset.ne_of_mem_erase hu)]

theorem threadTotal_update (f : σ → M) (threads : θ → σ) (t : θ) (s : σ) :
    threadTotal f (Function.update threads t s) = f s + threadRest f threads t := by
  rw [threadTotal_eq f _ t, threadRest_update, Function.update_self]

theorem threadRest_eq_zero {f : σ → M} {threads : θ → σ} {t : θ}
    (h : ∀ u, u ≠ t → f (threads u) = 0) : threadRest f threads t = 0 :=
  Finset.sum_eq_zero fun u hu => h u (Finset.ne_of_mem_erase hu)

theorem eq_zero_of_threadRest {f : σ → ℕ} {threads : θ → σ} {t u : θ}
    (h : threadRest f threads t = 0) (hu : u ≠ t) : f (threads u) = 0 :=
  Finset.sum_eq_zero_iff.mp h u (Finset.mem_erase.mpr ⟨hu, Finset.mem_univ u⟩)

omit [DecidableEq θ] in
theorem threadTotal_const (f : σ → M) {s : σ} (h : f s = 0) :
    threadTotal f (fun _ : θ => s) = 0 :=
  Finset.sum_eq_zero fun _ _ => h

end Agrarian.Lib
