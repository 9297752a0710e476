import Mathlib

/-!
# Regions of growing files

Files that only grow at their ends, and the regions of them that were given
out.  A region that starts where its file ends, and after which the file ends
where the region does, is apart from all that was given out before.
-/

namespace Agrarian.Lib

variable {κ : Type}

/-- A range of bytes of a file. -/
structure Region (κ : Type) where
  file : κ
  pos : Nat
  size : Nat
  deriving DecidableEq, Repr

namespace Region

def stop (r : Region κ) : Nat := r.pos + r.size

/-- Regions that share no byte. -/
def Apart (a b : Region κ) : Prop :=
  a.file = b.file → a.stop ≤ b.pos ∨ b.stop ≤ a.pos

end Region

/-- The regions are inside of what the files have used, and apart. -/
structure Packed (used : κ → Nat) (regions : List (Region κ)) : Prop where
  inside : ∀ r ∈ regions, r.stop ≤ used r.file
  apart : regions.Pairwise Region.Apart

namespace Packed

variable {used used' : κ → Nat} {regions : List (Region κ)}

theorem nil : Packed used [] where
  inside := by
    intro r hr
    cases hr
  apart := List.Pairwise.nil

theorem mono (h : Packed used regions) (hgrows : ∀ file, used file ≤ used' file) :
    Packed used' regions where
  inside := fun r hr => (h.inside r hr).trans (hgrows r.file)
  apart := h.apart

/-- The region from the end of a file on, which the file ends with now. -/
theorem append (h : Packed used regions) {r : Region κ} (hpos : r.pos = used r.file)
    (hstop : r.stop = used' r.file) (hothers : ∀ file ≠ r.file, used' file = used file) :
    Packed used' (regions ++ [r]) := by
  have hgrows : ∀ file, used file ≤ used' file := by
    intro file
    by_cases hfile : file = r.file
    · rw [hfile, ← hpos, ← hstop]
      exact Nat.le_add_right r.pos r.size
    · exact (hothers file hfile).ge
  constructor
  · intro other hother
    rcases List.mem_append.mp hother with hold | hnew
    · exact (h.mono hgrows).inside other hold
    · rw [List.mem_singleton.mp hnew]
      exact hstop.le
  · rw [List.pairwise_append]
    refine ⟨h.apart, List.pairwise_singleton _ _, ?_⟩
    intro other hother new hnew hfile
    rw [List.mem_singleton.mp hnew] at hfile ⊢
    left
    rw [hpos, ← hfile]
    exact h.inside other hother

/-- A file cannot end before a region of it. -/
theorem not_append (hstop : used' (r : Region κ).file < r.stop) :
    ¬ Packed used' (regions ++ [r]) := by
  intro h
  exact absurd (h.inside r (by simp)) (not_le.mpr hstop)

end Packed

end Agrarian.Lib
