import Agrarian.Lib.KeyedMap

/-!
# Stores with ordered keys

A finite map whose entries can be walked through in the order of their keys:
a cursor starts at the first key that is not below a given one and goes on to
the next.  A walk over a range of keys that starts at or before the range, and
ends at the first key outside of it, meets every entry of the range.
-/

namespace Agrarian.Lib

namespace KeyedMap

variable {κ β γ ρ : Type} [DecidableEq κ] [LinearOrder ρ]

/-- The entries in the order of their keys, from `start` on. -/
def seek (rank : κ → ρ) (m : KeyedMap κ β) (start : ρ) : List (κ × β) :=
  (m.toList.mergeSort fun a b => rank a.1 ≤ rank b.1).dropWhile
    fun entry => rank entry.1 < start

private theorem mem_dropWhile_of_sorted {α : Type} (rank : α → ρ) {start : ρ} {l : List α}
    (hl : l.Pairwise fun a b => rank a ≤ rank b) {a : α} :
    a ∈ l.dropWhile (fun a => rank a < start) ↔ a ∈ l ∧ start ≤ rank a := by
  induction l with
  | nil => simp
  | cons b l ih =>
      rw [List.pairwise_cons] at hl
      rw [List.dropWhile_cons]
      split
      · next hbelow =>
          rw [decide_eq_true_eq] at hbelow
          rw [ih hl.2, List.mem_cons]
          constructor
          · exact fun h => ⟨Or.inr h.1, h.2⟩
          · rintro ⟨rfl | hmem, hle⟩
            · exact absurd hbelow (not_lt.mpr hle)
            · exact ⟨hmem, hle⟩
      · next hbelow =>
          rw [decide_eq_true_eq, not_lt] at hbelow
          refine ⟨fun h => ⟨h, ?_⟩, And.left⟩
          rcases List.mem_cons.mp h with rfl | hmem
          · exact hbelow
          · exact hbelow.trans (hl.1 a hmem)

private theorem mem_takeWhile_of_range {α : Type} {rank : α → ρ} {start : ρ}
    {inside : α → Bool} (hrange : ∀ a b, start ≤ rank a → rank a ≤ rank b →
      inside b = true → inside a = true) {l : List α}
    (hl : l.Pairwise fun a b => rank a ≤ rank b) (hstart : ∀ a ∈ l, start ≤ rank a)
    {a : α} (hmem : a ∈ l) (hinside : inside a = true) : a ∈ l.takeWhile inside := by
  induction l with
  | nil => cases hmem
  | cons b l ih =>
      rw [List.pairwise_cons] at hl
      rcases List.mem_cons.mp hmem with rfl | hmem
      · rw [List.takeWhile_cons_of_pos hinside]
        exact List.mem_cons_self
      · have hb := hrange b a (hstart b List.mem_cons_self) (hl.1 a hmem) hinside
        rw [List.takeWhile_cons_of_pos hb]
        exact List.mem_cons_of_mem _
          (ih hl.2 (fun c hc => hstart c (List.mem_cons_of_mem _ hc)) hmem)

private theorem mem_takeWhile_dropWhile {α : Type} (rank : α → ρ) {start : ρ}
    {inside : α → Bool} (hstart : ∀ a, inside a = true → start ≤ rank a)
    (hrange : ∀ a b, start ≤ rank a → rank a ≤ rank b → inside b = true →
      inside a = true) {l : List α} (hl : l.Pairwise fun a b => rank a ≤ rank b)
    {a : α} : a ∈ (l.dropWhile fun a => rank a < start).takeWhile inside ↔
      a ∈ l ∧ inside a = true := by
  constructor
  · intro h
    exact ⟨(List.dropWhile_sublist _).subset ((List.takeWhile_sublist _).subset h),
      List.mem_takeWhile_imp h⟩
  · rintro ⟨hmem, hinside⟩
    induction l with
    | nil => cases hmem
    | cons b l ih =>
        rw [List.dropWhile_cons]
        split
        · rename_i hbelow
          rw [List.pairwise_cons] at hl
          rcases List.mem_cons.mp hmem with rfl | hmem
          · have hle := hstart a hinside
            exact absurd (of_decide_eq_true hbelow) (not_lt.mpr hle)
          · exact ih hl.2 hmem
        · rename_i hbelow
          rw [decide_eq_true_eq, not_lt] at hbelow
          -- from here on nothing is below the start
          apply mem_takeWhile_of_range hrange hl _ hmem hinside
          intro c hc
          rcases List.mem_cons.mp hc with rfl | hc
          · exact hbelow
          · exact le_trans hbelow ((List.pairwise_cons.mp hl).1 c hc)

omit [DecidableEq κ] in
private theorem pairwise_sorted (rank : κ → ρ) (m : KeyedMap κ β) :
    (m.toList.mergeSort fun a b => rank a.1 ≤ rank b.1).Pairwise
      fun a b => rank a.1 ≤ rank b.1 := by
  have h := @List.pairwise_mergeSort (κ × β) (fun a b => decide (rank a.1 ≤ rank b.1))
    (fun a b c => by simpa using fun hab hbc => le_trans hab hbc)
    (fun a b => by simpa using le_total _ _) m.toList
  simpa using h

theorem mem_seek (rank : κ → ρ) (m : KeyedMap κ β) (start : ρ) {k : κ} {b : β} :
    (k, b) ∈ seek rank m start ↔ m.find? k = some b ∧ start ≤ rank k := by
  unfold seek
  rw [mem_dropWhile_of_sorted (fun entry : κ × β => rank entry.1) (pairwise_sorted rank m),
    (List.mergeSort_perm _ _).mem_iff, mem_toList]

/-- The cursor starts at the first entry that is not below the start. -/
theorem head?_seek_some {rank : κ → ρ} {m : KeyedMap κ β} {start : ρ} {k : κ} {b : β}
    (h : (seek rank m start).head? = some (k, b)) :
    m.find? k = some b ∧ start ≤ rank k ∧
      ∀ k' b', m.find? k' = some b' → start ≤ rank k' → rank k ≤ rank k' := by
  have hspec := (mem_seek rank m start).mp (List.mem_of_head? h)
  refine ⟨hspec.1, hspec.2, fun k' b' hfind hle => ?_⟩
  have hmem := (mem_seek rank m start).mpr ⟨hfind, hle⟩
  have hsorted := (pairwise_sorted rank m).sublist
    (List.dropWhile_sublist fun entry : κ × β => decide (rank entry.1 < start))
  change (seek rank m start).Pairwise _ at hsorted
  cases hlist : seek rank m start with
  | nil =>
      rw [hlist] at hmem
      cases hmem
  | cons entry rest =>
      rw [hlist] at h hmem hsorted
      have hentry : entry = (k, b) := Option.some.inj h
      rcases List.mem_cons.mp hmem with heq | hrest
      · have hkey : k' = k := (Prod.mk.inj (heq.trans hentry)).1
        rw [hkey]
      · have hle := (List.pairwise_cons.mp hsorted).1 _ hrest
        rw [hentry] at hle
        exact hle

theorem head?_seek_none {rank : κ → ρ} {m : KeyedMap κ β} {start : ρ}
    (h : (seek rank m start).head? = none) {k : κ} {b : β} (hfind : m.find? k = some b) :
    rank k < start := by
  by_contra hle
  have hmem := (mem_seek rank m start).mpr ⟨hfind, not_lt.mp hle⟩
  rw [List.head?_eq_none_iff.mp h] at hmem
  cases hmem

/-- How many entries are not below the start. -/
def countFrom (rank : κ → ρ) (m : KeyedMap κ β) (start : ρ) : Nat :=
  (m.toList.filter fun entry => start ≤ rank entry.1).length

omit [DecidableEq κ] in
theorem countFrom_le (rank : κ → ρ) {m m' : KeyedMap κ β} {start start' : ρ}
    (hsub : m'.toList.Sublist m.toList) (hle : start ≤ start') :
    countFrom rank m' start' ≤ countFrom rank m start := by
  apply List.Sublist.length_le
  apply (hsub.filter _).trans
  apply List.monotone_filter_right
  intro entry hentry
  rw [decide_eq_true_eq] at hentry ⊢
  exact hle.trans hentry

/-- A cursor that goes past an entry leaves fewer of them. -/
theorem countFrom_lt (rank : κ → ρ) {m : KeyedMap κ β} {k : κ} {b : β} {start' : ρ}
    (hfind : m.find? k = some b) (hlt : rank k < start') :
    countFrom rank m start' < countFrom rank m (rank k) := by
  have hfilter : (m.toList.filter fun entry => start' ≤ rank entry.1) =
      (m.toList.filter fun entry => rank k ≤ rank entry.1).filter
        fun entry => start' ≤ rank entry.1 := by
    rw [List.filter_filter]
    apply List.filter_congr
    intro entry _
    rw [← Bool.decide_and, decide_eq_decide]
    exact ⟨fun h => ⟨h, hlt.le.trans h⟩, And.left⟩
  rw [countFrom, countFrom, hfilter, List.length_filter_lt_length_iff_exists]
  refine ⟨(k, b), List.mem_filter.mpr ⟨mem_toList.mpr hfind, by simp⟩, ?_⟩
  simpa using hlt

/-- The entries that a walk over a range of keys meets. -/
theorem mem_takeWhile_seek (rank : κ → ρ) (start : ρ) (inside : κ → Bool)
    (hstart : ∀ k, inside k = true → start ≤ rank k)
    (hrange : ∀ k k', start ≤ rank k → rank k ≤ rank k' → inside k' = true →
      inside k = true) (m : KeyedMap κ β) {k : κ} {b : β} :
    (k, b) ∈ (seek rank m start).takeWhile (fun entry => inside entry.1) ↔
      m.find? k = some b ∧ inside k = true := by
  unfold seek
  rw [mem_takeWhile_dropWhile (fun entry : κ × β => rank entry.1)
    (fun entry => hstart entry.1) (fun a b => hrange a.1 b.1) (pairwise_sorted rank m),
    (List.mergeSort_perm _ _).mem_iff, mem_toList]

/-- The walk: `read` takes something from every value, or fails. -/
def collect (read : β → Option γ) (inside : κ → Bool) :
    List (κ × β) → Option (List γ)
  | [] => some []
  | (k, b) :: entries =>
      if inside k then
        match read b with
        | none => none
        | some c => (collect read inside entries).map (c :: ·)
      else some []

omit [DecidableEq κ] in
theorem collect_eq_some {read : β → Option γ} {inside : κ → Bool}
    {entries : List (κ × β)} {cs : List γ}
    (h : collect read inside entries = some cs) :
    (∀ c, c ∈ cs ↔ ∃ entry ∈ entries.takeWhile (fun entry => inside entry.1),
      read entry.2 = some c) ∧
    ∀ entry ∈ entries.takeWhile (fun entry => inside entry.1),
      (read entry.2).isSome := by
  induction entries generalizing cs with
  | nil =>
      obtain rfl := Option.some.inj h
      simp
  | cons entry entries ih =>
      obtain ⟨k, b⟩ := entry
      unfold collect at h
      by_cases hinside : inside k = true
      · rw [if_pos hinside] at h
        cases hread : read b with
        | none => simp [hread] at h
        | some c =>
            simp only [hread, Option.map_eq_some_iff] at h
            obtain ⟨rest, hrest, rfl⟩ := h
            obtain ⟨hmem, hsome⟩ := ih hrest
            rw [List.takeWhile_cons_of_pos (p := fun entry : κ × β => inside entry.1) hinside]
            constructor
            · intro c'
              rw [List.mem_cons, hmem]
              simp [hread, eq_comm]
            · intro entry hentry
              rcases List.mem_cons.mp hentry with rfl | hentry
              · simp [hread]
              · exact hsome entry hentry
      · rw [if_neg hinside] at h
        obtain rfl := Option.some.inj h
        rw [List.takeWhile_cons_of_neg (p := fun entry : κ × β => inside entry.1) hinside]
        simp

end KeyedMap

end Agrarian.Lib
