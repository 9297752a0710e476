import Agrarian.Lib.KeyedMap

/-!
# Maps that are indexed by value

A multimap keeps its entries in the order of their keys, equal keys in the
order they came in.  One that holds the keys of another map under their values
is an index of it, and stays one while both are changed together.
-/

namespace Agrarian.Lib

/-- A sorted list of entries whose keys need not differ. -/
structure Multimap (ν β : Type) [LinearOrder ν] where
  entries : List (ν × β)
  sorted : entries.Pairwise fun entry entry' => entry.1 ≤ entry'.1

namespace Multimap

variable {ν β : Type} [LinearOrder ν]

def empty : Multimap ν β := ⟨[], List.Pairwise.nil⟩

/-- The entry at the front. -/
def first (r : Multimap ν β) : Option (ν × β) := r.entries.head?

/-- The entries under a key, in the order they came in. -/
def equalRange (r : Multimap ν β) (v : ν) : List (ν × β) :=
  r.entries.filter fun entry => entry.1 = v

/-- A new entry goes behind those with the same key. -/
def insert (r : Multimap ν β) (v : ν) (b : β) : Multimap ν β where
  entries := (r.entries.filter fun entry => entry.1 ≤ v) ++
    (v, b) :: r.entries.filter fun entry => ¬ entry.1 ≤ v
  sorted := by
    refine List.pairwise_append.mpr ⟨r.sorted.filter _, ?_, ?_⟩
    · refine List.pairwise_cons.mpr ⟨?_, r.sorted.filter _⟩
      intro entry hentry
      have hlarge := of_decide_eq_true (List.mem_filter.mp hentry).2
      exact (not_le.mp hlarge).le
    · intro below hbelow entry hentry
      have hsmall := of_decide_eq_true (List.mem_filter.mp hbelow).2
      rcases List.mem_cons.mp hentry with rfl | hentry
      · exact hsmall
      · have hlarge := of_decide_eq_true (List.mem_filter.mp hentry).2
        exact hsmall.trans (not_le.mp hlarge).le

theorem insert_perm (r : Multimap ν β) (v : ν) (b : β) :
    (r.insert v b).entries.Perm ((v, b) :: r.entries) := by
  apply List.perm_middle.trans
  apply List.Perm.cons
  have hparts := List.filter_append_perm (fun entry => entry.1 ≤ v) r.entries
  simpa only [decide_not] using hparts

variable [DecidableEq β]

/-- Takes an entry out. -/
def erase (r : Multimap ν β) (entry : ν × β) : Multimap ν β where
  entries := r.entries.erase entry
  sorted := r.sorted.sublist List.erase_sublist

end Multimap

section Indexes

variable {κ ν : Type} [DecidableEq κ] [LinearOrder ν]

/-- The multimap refers to every key of the map exactly once, under its value,
and to no other. -/
structure Indexes (m : KeyedMap κ ν) (r : Multimap ν κ) : Prop where
  nodup : (r.entries.map Prod.snd).Nodup
  mem_iff : ∀ k v, (v, k) ∈ r.entries ↔ m.find? k = some v

variable {m m' : KeyedMap κ ν} {r : Multimap ν κ} {k : κ} {v : ν}

theorem Indexes.empty :
    Indexes (KeyedMap.empty : KeyedMap κ ν) Multimap.empty where
  nodup := List.nodup_nil
  mem_iff := by simp [Multimap.empty]

/-- Only the lookups of the map matter. -/
theorem Indexes.congr (h : Indexes m r)
    (hfind : ∀ k, m'.find? k = m.find? k) : Indexes m' r where
  nodup := h.nodup
  mem_iff := by
    intro k v
    rw [h.mem_iff, hfind]

theorem Indexes.length_eq (h : Indexes m r) :
    m.toList.length = r.entries.length := by
  have hperm : m.toList.Perm (r.entries.map Prod.swap) := by
    apply (List.perm_ext_iff_of_nodup m.nodup_keys_toList.of_map
      (h.nodup.of_map.map Prod.swap_injective)).mpr
    rintro ⟨k, v⟩
    rw [KeyedMap.mem_toList, ← h.mem_iff, List.mem_map]
    constructor
    · intro hmem
      exact ⟨(v, k), hmem, rfl⟩
    · rintro ⟨⟨v', k'⟩, hmem, heq⟩
      obtain ⟨rfl, rfl⟩ := Prod.mk.inj heq
      exact hmem
  rw [hperm.length_eq, List.length_map]

/-- A new key goes into both. -/
theorem Indexes.insert (h : Indexes m r) (hk : m.find? k = none) (v : ν) :
    Indexes (m.insert k v) (r.insert v k) := by
  have hperm := r.insert_perm v k
  have hfresh : k ∉ r.entries.map Prod.snd := by
    intro hmem
    obtain ⟨⟨v', k'⟩, hentry, rfl⟩ := List.mem_map.mp hmem
    rw [(h.mem_iff _ _).mp hentry] at hk
    cases hk
  constructor
  · rw [(hperm.map Prod.snd).nodup_iff, List.map_cons, List.nodup_cons]
    exact ⟨hfresh, h.nodup⟩
  · intro k' v'
    rw [hperm.mem_iff, List.mem_cons, h.mem_iff, KeyedMap.find?_insert,
      Prod.mk.injEq]
    by_cases hkk : k' = k
    · subst hkk
      rw [if_pos rfl, hk]
      simp [eq_comm]
    · rw [if_neg hkk]
      simp [hkk]

/-- A key leaves both. -/
theorem Indexes.erase (h : Indexes m r) (hk : m.find? k = some v) :
    Indexes (m.erase k) (r.erase (v, k)) := by
  have hmem := (h.mem_iff k v).mpr hk
  have hperm := List.perm_cons_erase hmem
  have hnodup := (hperm.map Prod.snd).nodup_iff.mp h.nodup
  rw [List.map_cons, List.nodup_cons] at hnodup
  refine ⟨hnodup.2, ?_⟩
  intro k' v'
  have hold := h.mem_iff k' v'
  rw [hperm.mem_iff, List.mem_cons, Prod.mk.injEq] at hold
  show (v', k') ∈ r.entries.erase (v, k) ↔ _
  rw [KeyedMap.find?_erase]
  by_cases hkk : k' = k
  · subst hkk
    rw [if_pos rfl]
    refine iff_of_false ?_ (by simp)
    intro hleft
    exact hnodup.1 (List.mem_map.mpr ⟨_, hleft, rfl⟩)
  · rw [if_neg hkk, ← hold]
    simp [hkk]

/-- The entry that refers to a key is found under its value. -/
theorem Indexes.find?_equalRange (h : Indexes m r)
    (hk : m.find? k = some v) :
    (r.equalRange v).find? (fun entry => entry.2 = k) = some (v, k) := by
  have hmem : (v, k) ∈ r.equalRange v :=
    List.mem_filter.mpr ⟨(h.mem_iff k v).mpr hk, by simp⟩
  cases hfind : (r.equalRange v).find? fun entry => entry.2 = k with
  | none => exact absurd (List.find?_eq_none.mp hfind _ hmem) (by simp)
  | some entry =>
      have hentry := List.mem_filter.mp (List.mem_of_find?_eq_some hfind)
      have hsnd : entry.2 = k := by simpa using List.find?_some hfind
      have hfst := of_decide_eq_true hentry.2
      obtain ⟨v', k'⟩ := entry
      dsimp only at hsnd hfst
      rw [hsnd, hfst]

/-- The entry at the front refers to a key with a least value. -/
theorem Indexes.least (h : Indexes m r) (hfirst : r.first = some (v, k)) :
    m.find? k = some v ∧ ∀ k' v', m.find? k' = some v' → v ≤ v' := by
  obtain ⟨rest, hrest⟩ := List.head?_eq_some_iff.mp hfirst
  refine ⟨(h.mem_iff k v).mp (by rw [hrest]; exact List.mem_cons_self), ?_⟩
  intro k' v' hk'
  have hmem := (h.mem_iff k' v').mpr hk'
  have hsorted := r.sorted
  rw [hrest] at hmem hsorted
  rcases List.mem_cons.mp hmem with heq | hmem
  · exact le_of_eq (Prod.mk.inj heq).1.symm
  · exact (List.pairwise_cons.mp hsorted).1 _ hmem

/-- Only an empty map has nothing at the front of its index. -/
theorem Indexes.first_eq_none_iff (h : Indexes m r) :
    r.first = none ↔ m.toList.length = 0 := by
  rw [h.length_eq, List.length_eq_zero_iff]
  exact List.head?_eq_none_iff

end Indexes

end Agrarian.Lib
