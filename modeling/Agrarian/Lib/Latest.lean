import Mathlib

/-!
# Keeping the latest message

A register that takes a message when its time is at least `gap` after the time
of the one it holds.  In general what it holds in the end depends on the order
of the messages.  If the latest message is at least `gap` after all others,
then only that one counts: neither order nor repetitions matter.
-/

namespace Agrarian.Lib

variable {α : Type} (time : α → Int) (gap : Int)

/-- A message replaces one that is older by the gap. -/
def adopt (held : Option α) (m : α) : Option α :=
  match held with
  | none => some m
  | some old => if time m < time old + gap then some old else some m

/-- What is held after a sequence of messages. -/
def latest (held : Option α) (ms : List α) : Option α :=
  ms.foldl (adopt time gap) held

/-- All other messages are older by the gap. -/
def Separated (m : α) (ms : List α) : Prop :=
  ∀ m' ∈ ms, m' ≠ m → time m' + gap ≤ time m

section Latest

variable {time} {gap} {held : Option α} {m old : α} {ms : List α}

theorem adopt_mono (hgap : 0 ≤ gap) (h : held = some old) (m : α) :
    ∃ new, adopt time gap held m = some new ∧ time old ≤ time new := by
  subst h
  unfold adopt
  by_cases hle : time m < time old + gap
  · exact ⟨old, if_pos hle, le_refl _⟩
  · exact ⟨m, if_neg hle, by omega⟩

/-- The time never decreases. -/
theorem latest_mono (hgap : 0 ≤ gap) (h : held = some old) (ms : List α) :
    ∃ new, latest time gap held ms = some new ∧ time old ≤ time new := by
  induction ms generalizing held old with
  | nil => exact ⟨old, h, le_refl _⟩
  | cons m ms ih =>
      obtain ⟨next, hnext, hle⟩ := adopt_mono hgap h m
      obtain ⟨new, hnew, hle'⟩ := ih hnext
      exact ⟨new, hnew, hle.trans hle'⟩

/-- Once the latest message was offered, no other changes anything. -/
theorem adopt_adopt_of_later (hgap : 0 < gap) {m' : α}
    (h : m' ≠ m → time m' + gap ≤ time m) :
    adopt time gap (adopt time gap held m) m' = adopt time gap held m := by
  have hle : time m' ≤ time m := by
    by_cases heq : m' = m
    · rw [heq]
    · have := h heq
      omega
  cases held with
  | none => exact if_pos (by omega)
  | some old =>
      by_cases hold : time m < time old + gap
      · simp only [adopt, if_pos hold]
        by_cases heq : m' = m
        · rw [heq, if_pos hold]
        · have := h heq
          exact if_pos (by omega)
      · simp only [adopt, if_neg hold]
        exact if_pos (by omega)

/-- What was offered before the latest message does not matter. -/
theorem adopt_adopt_of_earlier (hgap : 0 ≤ gap) {m' : α}
    (h : time m' + gap ≤ time m) :
    adopt time gap (adopt time gap held m') m = adopt time gap held m := by
  cases held with
  | none => exact if_neg (by omega)
  | some old =>
      by_cases hold : time m' < time old + gap
      · simp only [adopt, if_pos hold]
      · simp only [adopt, if_neg hold]
        rw [if_neg (by omega), if_neg (by omega)]

/-- **Only the latest counts**, if all others are older by the gap. -/
theorem latest_eq_adopt (hgap : 0 < gap) (hm : m ∈ ms)
    (h : Separated time gap m ms) :
    latest time gap held ms = adopt time gap held m := by
  induction ms generalizing held with
  | nil => cases hm
  | cons first ms ih =>
      have hrest : Separated time gap m ms :=
        fun m' hin => h m' (List.mem_cons_of_mem _ hin)
      show latest time gap (adopt time gap held first) ms = _
      by_cases hfirst : first = m
      · subst hfirst
        clear ih
        -- nothing after the latest message changes what is held
        induction ms with
        | nil => rfl
        | cons second ms ih =>
            show latest time gap (adopt time gap (adopt time gap held first)
              second) ms = _
            rw [adopt_adopt_of_later hgap (hrest second (by simp))]
            apply ih (by simp)
            · intro m' hin
              apply h
              rcases List.mem_cons.mp hin with rfl | hin
              · simp
              · simp [hin]
            · exact fun m' hin => hrest m' (List.mem_cons_of_mem _ hin)
      · have hin : m ∈ ms := (List.mem_cons.mp hm).resolve_left (Ne.symm hfirst)
        rw [ih hin hrest,
          adopt_adopt_of_earlier hgap.le (h first (by simp) hfirst)]

theorem exists_latest (time : α → Int) (h : ms ≠ []) :
    ∃ m ∈ ms, ∀ m' ∈ ms, time m' ≤ time m := by
  induction ms with
  | nil => exact absurd rfl h
  | cons first ms ih =>
      by_cases hrest : ms = []
      · exact ⟨first, by simp, by simp [hrest]⟩
      · obtain ⟨m, hm, hmax⟩ := ih hrest
        rcases le_total (time m) (time first) with hle | hle
        · refine ⟨first, by simp, ?_⟩
          intro m' hin
          rcases List.mem_cons.mp hin with rfl | hin
          · exact le_refl _
          · exact (hmax m' hin).trans hle
        · refine ⟨m, by simp [hm], ?_⟩
          intro m' hin
          rcases List.mem_cons.mp hin with rfl | hin
          · exact hle
          · exact hmax m' hin

/-- **Order and repetition do not matter** if each message with the latest
time is `gap` after all others. -/
theorem latest_eq (hgap : 0 < gap) {ms₁ ms₂ : List α}
    (hsame : ∀ m, m ∈ ms₁ ↔ m ∈ ms₂)
    (hlatest : ∀ m ∈ ms₁, (∀ m' ∈ ms₁, time m' ≤ time m) →
      Separated time gap m ms₁) :
    latest time gap held ms₁ = latest time gap held ms₂ := by
  by_cases hempty : ms₁ = []
  · have hempty₂ : ms₂ = [] := by
      rw [List.eq_nil_iff_forall_not_mem]
      intro m hm
      have := (hsame m).mpr hm
      simp [hempty] at this
    rw [hempty, hempty₂]
  · obtain ⟨m, hm, hmax⟩ := exists_latest time hempty
    have hseparated := hlatest m hm hmax
    rw [latest_eq_adopt hgap hm hseparated,
      latest_eq_adopt hgap ((hsame m).mp hm)
        fun m' hin => hseparated m' ((hsame m').mpr hin)]

end Latest

end Agrarian.Lib
