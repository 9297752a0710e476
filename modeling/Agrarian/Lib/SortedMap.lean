import Mathlib

/-!
# Sorted maps and positions in them

A map lists its entries in the order of their keys.  A position in it is the key of an
entry, or `none` behind the last one, and reading a position where there is no entry
gives nothing.  A loop that erases entries while it walks over the map keeps a position,
moves it on before it erases the entry, and may do something before and after that.
-/

namespace Agrarian.Lib

/-- A map in the order that `rank` gives its keys. -/
structure SortedMap {κ ρ : Type} [LinearOrder ρ] (rank : κ → ρ) (β : Type) where
  entries : List (κ × β)
  sorted : entries.Pairwise fun a b => rank a.1 < rank b.1

namespace SortedMap

variable {κ ρ β σ : Type} [LinearOrder ρ] [DecidableEq κ] {rank : κ → ρ}

omit [DecidableEq κ] in
@[ext] theorem ext {m m' : SortedMap rank β} (h : m.entries = m'.entries) : m = m' := by
  cases m
  cases m'
  cases h
  rfl

def filter (m : SortedMap rank β) (p : κ × β → Bool) : SortedMap rank β where
  entries := m.entries.filter p
  sorted := m.sorted.filter p

def erase (m : SortedMap rank β) (k : κ) : SortedMap rank β :=
  m.filter fun entry => entry.1 ≠ k

def first (m : SortedMap rank β) : Option κ := m.entries.head?.map Prod.fst

/-- The position behind that of a key. -/
def next (m : SortedMap rank β) (k : κ) : Option κ :=
  (m.entries.find? fun entry => rank k < rank entry.1).map Prod.fst

/-- The entry at a position. -/
def deref (m : SortedMap rank β) (it : Option κ) : Option (κ × β) :=
  it.bind fun k => m.entries.find? fun entry => entry.1 = k

/-! ## Positions -/

section Positions

variable {m : SortedMap rank β} {done rest : List (κ × β)} {entry : κ × β}

omit [DecidableEq κ] in
theorem rank_lt_of_mem (h : m.entries = done ++ entry :: rest) :
    (∀ a ∈ done, rank a.1 < rank entry.1) ∧ ∀ a ∈ rest, rank entry.1 < rank a.1 := by
  have hsorted := m.sorted
  rw [h, List.pairwise_append, List.pairwise_cons] at hsorted
  exact ⟨fun a ha => hsorted.2.2 a ha entry List.mem_cons_self, hsorted.2.1.1⟩

theorem deref_eq (h : m.entries = done ++ entry :: rest) :
    m.deref (some entry.1) = some entry := by
  show m.entries.find? _ = _
  have hdone : done.find? (fun a => decide (a.1 = entry.1)) = none := by
    refine List.find?_eq_none.mpr fun a ha heq => ?_
    have hlt := (rank_lt_of_mem h).1 a ha
    rw [of_decide_eq_true heq] at hlt
    exact lt_irrefl _ hlt
  rw [h, List.find?_append, hdone, List.find?_cons_of_pos (by simp)]
  rfl

/-- The position at the head of what is left. -/
theorem deref_head (h : m.entries = done ++ rest) :
    m.deref (rest.head?.map Prod.fst) = rest.head? := by
  cases rest with
  | nil => rfl
  | cons entry rest => exact deref_eq h

omit [DecidableEq κ] in
theorem next_eq (h : m.entries = done ++ entry :: rest) :
    m.next entry.1 = rest.head?.map Prod.fst := by
  unfold next
  have hdone : done.find? (fun a => decide (rank entry.1 < rank a.1)) = none := by
    refine List.find?_eq_none.mpr fun a ha hlt => ?_
    exact lt_asymm ((rank_lt_of_mem h).1 a ha) (of_decide_eq_true hlt)
  rw [h, List.find?_append, hdone, List.find?_cons_of_neg (by simp)]
  cases rest with
  | nil => rfl
  | cons following rest =>
      have hlt := (rank_lt_of_mem h).2 following List.mem_cons_self
      rw [List.find?_cons_of_pos (by simpa using hlt)]
      rfl

theorem erase_entries (h : m.entries = done ++ entry :: rest) :
    (m.erase entry.1).entries = done ++ rest := by
  have hne : ∀ a ∈ done ++ rest, decide (a.1 ≠ entry.1) = true := by
    intro a ha
    rw [decide_eq_true_iff]
    intro heq
    rcases List.mem_append.mp ha with ha | ha
    · have hlt := (rank_lt_of_mem h).1 a ha
      rw [heq] at hlt
      exact lt_irrefl _ hlt
    · have hlt := (rank_lt_of_mem h).2 a ha
      rw [heq] at hlt
      exact lt_irrefl _ hlt
  show m.entries.filter _ = _
  rw [h, List.filter_append, List.filter_cons_of_neg (by simp), ← List.filter_append]
  exact List.filter_eq_self.mpr hne

end Positions

/-! ## Looking up and writing -/

section Lookup

variable {γ : Type}

omit [DecidableEq κ] in
theorem nodup_keys (m : SortedMap rank β) : (m.entries.map Prod.fst).Nodup :=
  List.pairwise_map.mpr (m.sorted.imp fun hlt heq => by rw [heq] at hlt; exact lt_irrefl _ hlt)

def find? (m : SortedMap rank β) (k : κ) : Option β :=
  (m.entries.find? fun entry => entry.1 = k).map Prod.snd

theorem find?_eq_some_iff {m : SortedMap rank β} {k : κ} {b : β} :
    m.find? k = some b ↔ (k, b) ∈ m.entries := by
  unfold find?
  constructor
  · intro h
    obtain ⟨entry, hfind, rfl⟩ := Option.map_eq_some_iff.mp h
    have hkey : entry.1 = k := by simpa using List.find?_some hfind
    have hmem := List.mem_of_find?_eq_some hfind
    rwa [← hkey]
  · intro hmem
    cases hfind : m.entries.find? fun entry => entry.1 = k with
    | none => exact absurd (decide_eq_true rfl) (List.find?_eq_none.mp hfind (k, b) hmem)
    | some entry =>
        have hkey : entry.1 = k := by simpa using List.find?_some hfind
        have hsame : entry = (k, b) :=
          List.inj_on_of_nodup_map m.nodup_keys (List.mem_of_find?_eq_some hfind) hmem hkey
        rw [hsame]
        rfl

/-- A map is determined by what is found in it. -/
theorem ext_find? {m m' : SortedMap rank β} (h : ∀ k, m.find? k = m'.find? k) : m = m' := by
  have hmem : ∀ entry, entry ∈ m.entries ↔ entry ∈ m'.entries := fun entry => by
    rw [← find?_eq_some_iff, ← find?_eq_some_iff, h]
  have hperm : m.entries.Perm m'.entries :=
    (List.perm_ext_iff_of_nodup m.nodup_keys.of_map m'.nodup_keys.of_map).mpr hmem
  exact ext (hperm.eq_of_pairwise (fun a b _ _ hab hba => absurd hba (lt_asymm hab))
    m.sorted m'.sorted)

def mapVals (f : κ → β → γ) (m : SortedMap rank β) : SortedMap rank γ where
  entries := m.entries.map fun entry => (entry.1, f entry.1 entry.2)
  sorted := List.pairwise_map.mpr m.sorted

theorem find?_mapVals (f : κ → β → γ) (m : SortedMap rank β) (k : κ) :
    (m.mapVals f).find? k = (m.find? k).map (f k) := by
  apply Option.ext
  intro c
  rw [find?_eq_some_iff, Option.map_eq_some_iff]
  constructor
  · intro hmem
    obtain ⟨entry, hentry, heq⟩ := List.mem_map.mp hmem
    cases heq
    exact ⟨entry.2, find?_eq_some_iff.mpr hentry, rfl⟩
  · intro ⟨b, hb, hc⟩
    exact List.mem_map.mpr ⟨(k, b), find?_eq_some_iff.mp hb, by rw [hc]⟩

/-- Changes the value of a key, if it is there. -/
def modify (m : SortedMap rank β) (k : κ) (f : β → β) : SortedMap rank β :=
  m.mapVals fun k' b => if k' = k then f b else b

theorem find?_modify_self (m : SortedMap rank β) (k : κ) (f : β → β) :
    (m.modify k f).find? k = (m.find? k).map f := by
  rw [modify, find?_mapVals]
  simp only [if_true]

theorem find?_modify_ne (m : SortedMap rank β) {k k' : κ} (f : β → β) (h : k' ≠ k) :
    (m.modify k f).find? k' = m.find? k' := by
  rw [modify, find?_mapVals]
  simp only [h, if_false, Option.map_id']

/-- Writes the value of a key. -/
def insert (m : SortedMap rank β) (k : κ) (b : β) : SortedMap rank β where
  entries := (m.entries.filter fun entry => rank entry.1 < rank k) ++
    (k, b) :: m.entries.filter fun entry => rank k < rank entry.1
  sorted := by
    refine List.pairwise_append.mpr ⟨m.sorted.filter _, ?_, ?_⟩
    · refine List.pairwise_cons.mpr ⟨fun entry hentry => ?_, m.sorted.filter _⟩
      exact of_decide_eq_true (List.mem_filter.mp hentry).2
    · intro below hbelow entry hentry
      have hlt : rank below.1 < rank k := of_decide_eq_true (List.mem_filter.mp hbelow).2
      rcases List.mem_cons.mp hentry with rfl | hentry
      · exact hlt
      · exact hlt.trans (of_decide_eq_true (List.mem_filter.mp hentry).2)

theorem find?_insert (hrank : Function.Injective rank) (m : SortedMap rank β) (k k' : κ) (b : β) :
    (m.insert k b).find? k' = if k' = k then some b else m.find? k' := by
  apply Option.ext
  intro c
  rw [find?_eq_some_iff]
  show (k', c) ∈ _ ++ (k, b) :: _ ↔ _
  rw [List.mem_append, List.mem_cons, List.mem_filter, List.mem_filter, ← find?_eq_some_iff,
    decide_eq_true_iff, decide_eq_true_iff, Prod.mk.injEq]
  by_cases hk : k' = k
  · rw [if_pos hk, hk]
    simp [eq_comm]
  · rw [if_neg hk]
    have hne : rank k' ≠ rank k := fun heq => hk (hrank heq)
    rcases lt_or_gt_of_ne hne with hlt | hgt
    · simp [hk, hlt, lt_asymm hlt]
    · simp [hk, hgt, lt_asymm hgt]

end Lookup

/-! ## Erasing on the way -/

section Loop

variable (old : κ × β → Bool) (before : κ × β → σ → σ)
  (after : Option (κ × β) → σ → Option σ)

/-- The loop `while (it != end())`, which erases the entries that are old with
`erase(it++)` and steps over the others.  Before it erases one, it does something with it, and
then something with what its position is at.  It fails where it reads a position
without an entry. -/
def pruneFrom : Nat → SortedMap rank β → Option κ → σ → Option (SortedMap rank β × σ)
  | _, m, none, s => some (m, s)
  | 0, _, some _, _ => none
  | fuel + 1, m, some k, s =>
      match m.deref (some k) with
      | none => none
      | some entry =>
          if old entry then
            let it := m.next k
            let m := m.erase k
            match after (m.deref it) (before entry s) with
            | none => none
            | some s => pruneFrom fuel m it s
          else pruneFrom fuel m (m.next k) s

def prune (m : SortedMap rank β) (s : σ) : Option (SortedMap rank β × σ) :=
  pruneFrom old before after m.entries.length m m.first s

/-- The loop that only erases. -/
def eraseOld (m : SortedMap rank β) : Option (SortedMap rank β) :=
  (prune old (fun _ => id) (fun _ => some) m ()).map Prod.fst

/-- What the loop does besides erasing. -/
def sweep : List (κ × β) → σ → Option σ
  | [], s => some s
  | entry :: rest, s =>
      if old entry then (after rest.head? (before entry s)).bind (sweep rest)
      else sweep rest s

/-- From the position at the head of what is left, with enough rounds for it. -/
theorem pruneFrom_eq {fuel : Nat} {m : SortedMap rank β} {done rest : List (κ × β)}
    (h : m.entries = done ++ rest) (hfuel : rest.length ≤ fuel) (s : σ) :
    (pruneFrom old before after fuel m (rest.head?.map Prod.fst) s).map
        (fun r => (r.1.entries, r.2)) =
      (sweep old before after rest s).map
        fun s => (done ++ rest.filter fun entry => !old entry, s) := by
  induction rest generalizing fuel m done s with
  | nil =>
      have hstop : pruneFrom old before after fuel m none s = some (m, s) := by
        cases fuel <;> rfl
      rw [List.head?_nil, Option.map_none, hstop, Option.map_some, h]
      rfl
  | cons entry rest ih =>
      obtain ⟨fuel, rfl⟩ : ∃ fuel', fuel = fuel' + 1 :=
        ⟨fuel - 1, by rw [List.length_cons] at hfuel; omega⟩
      have hfuel' : rest.length ≤ fuel := Nat.le_of_succ_le_succ hfuel
      rw [List.head?_cons, Option.map_some, pruneFrom, deref_eq h, next_eq h, sweep]
      dsimp only
      cases hold : old entry with
      | true =>
          have hleft := erase_entries h
          rw [if_pos rfl, if_pos rfl, deref_head hleft,
            List.filter_cons_of_neg (by simp [hold])]
          cases after rest.head? (before entry s) with
          | none => rfl
          | some s => exact ih hleft hfuel' s
      | false =>
          have hleft : m.entries = (done ++ [entry]) ++ rest := by
            rw [h, List.append_assoc, List.singleton_append]
          rw [if_neg Bool.false_ne_true, if_neg Bool.false_ne_true, ih hleft hfuel' s,
            List.filter_cons_of_pos (by simp [hold]), List.append_assoc,
            List.singleton_append]

/-- **The loop keeps the entries that are not old**, and fails only with what it does
after it erased one. -/
theorem prune_eq (m : SortedMap rank β) (s : σ) :
    prune old before after m s =
      (sweep old before after m.entries s).map
        fun s => (m.filter fun entry => !old entry, s) := by
  have hloop := pruneFrom_eq old before after (List.nil_append m.entries).symm
    (Nat.le_refl m.entries.length) s
  unfold prune first
  cases hprune : pruneFrom old before after m.entries.length m
      (m.entries.head?.map Prod.fst) s with
  | none =>
      rw [hprune] at hloop
      cases hsweep : sweep old before after m.entries s with
      | none => rfl
      | some s' =>
          rw [hsweep] at hloop
          cases hloop
  | some r =>
      rw [hprune] at hloop
      cases hsweep : sweep old before after m.entries s with
      | none =>
          rw [hsweep] at hloop
          cases hloop
      | some s' =>
          rw [hsweep] at hloop
          simp only [Option.map_some, Option.some.injEq, Prod.mk.injEq, List.nil_append] at hloop
          rw [Option.map_some, Option.some.injEq]
          exact Prod.ext (SortedMap.ext hloop.1) hloop.2

end Loop

/-! ## What is done on the way -/

section Sweep

variable (old : κ × β → Bool)

omit [DecidableEq κ] [LinearOrder ρ] in
/-- With nothing to do afterwards, every old entry is used once, in order. -/
theorem sweep_before (before : κ × β → σ → σ) (l : List (κ × β)) (s : σ) :
    sweep old before (fun _ => some) l s =
      some ((l.filter old).foldl (fun s entry => before entry s) s) := by
  induction l generalizing s with
  | nil => rfl
  | cons entry l ih =>
      rw [sweep]
      cases hold : old entry with
      | true =>
          rw [if_pos rfl, Option.bind_some, ih, List.filter_cons_of_pos hold, List.foldl_cons]
      | false =>
          rw [if_neg Bool.false_ne_true, ih, List.filter_cons_of_neg (by simp [hold])]

/-- The entries that follow an old one; `b` says whether the one before the list is. -/
def behind : Bool → List (κ × β) → List (κ × β)
  | _, [] => []
  | b, entry :: rest =>
      if b then entry :: behind (old entry) rest else behind (old entry) rest

omit [DecidableEq κ] [LinearOrder ρ] in
/-- If the entry is used that the position is at afterwards, there has to be one behind
every old entry. -/
theorem sweep_behind (use : σ → κ × β → σ) (l : List (κ × β)) (s : σ) :
    sweep old (fun _ => id) (fun entry s => entry.map (use s)) l s =
      if l.getLast?.any old then none else some ((behind old false l).foldl use s) := by
  induction l generalizing s with
  | nil => rfl
  | cons entry l ih =>
      rw [sweep]
      cases l with
      | nil => cases hold : old entry <;> simp [hold, sweep, behind]
      | cons following l =>
          rw [List.getLast?_cons_cons, behind, if_neg Bool.false_ne_true]
          cases hold : old entry with
          | true =>
              rw [if_pos rfl, behind, if_pos rfl, List.foldl_cons]
              exact ih _
          | false =>
              rw [if_neg Bool.false_ne_true]
              exact ih s

/-- The entries that are old where the one before is not, or the other way round. -/
def turns : Bool → List (κ × β) → List (κ × β)
  | _, [] => []
  | b, entry :: rest =>
      if old entry = b then turns (old entry) rest else entry :: turns (old entry) rest

omit [DecidableEq κ] [LinearOrder ρ] in
theorem mem_of_mem_behind {b : Bool} {l : List (κ × β)} {entry : κ × β}
    (h : entry ∈ behind old b l) : entry ∈ l := by
  induction l generalizing b with
  | nil => cases h
  | cons first l ih =>
      rw [behind] at h
      split at h
      · rcases List.mem_cons.mp h with rfl | h
        · exact List.mem_cons_self
        · exact List.mem_cons_of_mem _ (ih h)
      · exact List.mem_cons_of_mem _ (ih h)

omit [DecidableEq κ] [LinearOrder ρ] in
theorem mem_of_mem_turns {b : Bool} {l : List (κ × β)} {entry : κ × β}
    (h : entry ∈ turns old b l) : entry ∈ l := by
  induction l generalizing b with
  | nil => cases h
  | cons first l ih =>
      rw [turns] at h
      split at h
      · exact List.mem_cons_of_mem _ (ih h)
      · rcases List.mem_cons.mp h with rfl | h
        · exact List.mem_cons_self
        · exact List.mem_cons_of_mem _ (ih h)

omit [DecidableEq κ] [LinearOrder ρ] in
/-- A key is one of an old entry just when it is one behind an old entry, unless it is one
of a turn. -/
theorem behind_iff_old_iff {l : List (κ × β)} (hnodup : (l.map Prod.fst).Nodup) (b : Bool)
    (k : κ) :
    ((∃ entry ∈ behind old b l, entry.1 = k) ↔ ∃ entry ∈ l, old entry = true ∧ entry.1 = k) ↔
      ¬ ∃ entry ∈ turns old b l, entry.1 = k := by
  induction l generalizing b with
  | nil => simp [behind, turns]
  | cons entry l ih =>
      rw [List.map_cons, List.nodup_cons] at hnodup
      have hrest := ih hnodup.2 (old entry)
      by_cases hk : entry.1 = k
      · -- no other entry has the key
        have hother : ∀ other ∈ l, other.1 ≠ k := fun other hmem heq =>
          hnodup.1 (hk ▸ heq ▸ List.mem_map_of_mem hmem)
        have hbehind : ¬ ∃ other ∈ behind old (old entry) l, other.1 = k :=
          fun ⟨other, hmem, heq⟩ => hother other (mem_of_mem_behind old hmem) heq
        have hturns : ¬ ∃ other ∈ turns old (old entry) l, other.1 = k :=
          fun ⟨other, hmem, heq⟩ => hother other (mem_of_mem_turns old hmem) heq
        have hold : (∃ other ∈ entry :: l, old other = true ∧ other.1 = k) ↔
            old entry = true := by
          rw [List.exists_mem_cons_iff]
          exact ⟨fun h => h.elim And.left fun ⟨other, hmem, _, heq⟩ =>
            (hother other hmem heq).elim, fun h => Or.inl ⟨h, hk⟩⟩
        rw [hold, behind, turns]
        cases b <;> cases holdEntry : old entry <;>
          simp_all
      · have hold : (∃ other ∈ entry :: l, old other = true ∧ other.1 = k) ↔
            ∃ other ∈ l, old other = true ∧ other.1 = k := by
          rw [List.exists_mem_cons_iff, or_iff_right fun h => hk h.2]
        have hbehind : (∃ other ∈ behind old b (entry :: l), other.1 = k) ↔
            ∃ other ∈ behind old (old entry) l, other.1 = k := by
          rw [behind]
          split
          · rw [List.exists_mem_cons_iff, or_iff_right hk]
          · rfl
        have hturns : (∃ other ∈ turns old b (entry :: l), other.1 = k) ↔
            ∃ other ∈ turns old (old entry) l, other.1 = k := by
          rw [turns]
          split
          · rfl
          · rw [List.exists_mem_cons_iff, or_iff_right hk]
        rw [hold, hbehind, hturns]
        exact hrest

theorem eraseOld_eq (m : SortedMap rank β) :
    m.eraseOld old = some (m.filter fun entry => !old entry) := by
  rw [eraseOld, prune_eq, sweep_before]
  rfl

end Sweep

end SortedMap

end Agrarian.Lib
