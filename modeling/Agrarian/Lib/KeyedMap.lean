import Mathlib

/-!
# Finite maps that are written in batches

Maps from keys to values with the lookup rules, and the loop that walks over
one map and updates another slot by slot.  Since a map holds every key once,
the order in which such a batch is applied does not matter: each slot of the
result is determined by the slot's old content and the batch's entry.
-/

namespace Agrarian.Lib

/-- A finite map: a list of entries without repeated keys. -/
def KeyedMap (κ β : Type) : Type := AList fun _ : κ => β

namespace KeyedMap

variable {κ β γ : Type} [DecidableEq κ]

def empty : KeyedMap κ β := (∅ : AList fun _ : κ => β)

def find? (m : KeyedMap κ β) (k : κ) : Option β := AList.lookup k m

def insert (m : KeyedMap κ β) (k : κ) (b : β) : KeyedMap κ β :=
  AList.insert k b m

def erase (m : KeyedMap κ β) (k : κ) : KeyedMap κ β := AList.erase k m

@[simp] theorem find?_empty (k : κ) : (empty : KeyedMap κ β).find? k = none :=
  AList.lookup_empty k

@[simp] theorem find?_insert_self (m : KeyedMap κ β) (k : κ) (b : β) :
    (m.insert k b).find? k = some b := AList.lookup_insert m

theorem find?_insert_ne (m : KeyedMap κ β) {k k' : κ} (b : β) (h : k' ≠ k) :
    (m.insert k b).find? k' = m.find? k' := AList.lookup_insert_ne h

theorem find?_insert (m : KeyedMap κ β) (k k' : κ) (b : β) :
    (m.insert k b).find? k' = if k' = k then some b else m.find? k' := by
  by_cases h : k' = k
  · rw [if_pos h, h, find?_insert_self]
  · rw [if_neg h, find?_insert_ne m b h]

theorem insert_insert (m : KeyedMap κ β) (k : κ) (b b' : β) :
    (m.insert k b).insert k b' = m.insert k b' := AList.insert_insert m

@[simp] theorem find?_erase_self (m : KeyedMap κ β) (k : κ) :
    (m.erase k).find? k = none := AList.lookup_erase k m

theorem find?_erase_ne (m : KeyedMap κ β) {k k' : κ} (h : k' ≠ k) :
    (m.erase k).find? k' = m.find? k' := AList.lookup_erase_ne h

theorem find?_erase (m : KeyedMap κ β) (k k' : κ) :
    (m.erase k).find? k' = if k' = k then none else m.find? k' := by
  by_cases h : k' = k
  · rw [if_pos h, h, find?_erase_self]
  · rw [if_neg h, find?_erase_ne m h]

/-- Write a slot: `none` empties it. -/
def setSlot (m : KeyedMap κ β) (k : κ) : Option β → KeyedMap κ β
  | none => m.erase k
  | some b => m.insert k b

theorem find?_setSlot (m : KeyedMap κ β) (k k' : κ) (o : Option β) :
    (m.setSlot k o).find? k' = if k' = k then o else m.find? k' := by
  cases o with
  | none => exact find?_erase m k k'
  | some b => exact find?_insert m k k' b

/-! ## Several slots at once -/

def insertAll (m : KeyedMap κ β) (entries : List (κ × β)) : KeyedMap κ β :=
  entries.foldl (fun m entry => m.insert entry.1 entry.2) m

def eraseAll (m : KeyedMap κ β) (keys : List κ) : KeyedMap κ β :=
  keys.foldl erase m

theorem find?_insertAll_of_not_mem {m : KeyedMap κ β}
    {entries : List (κ × β)} {k : κ} (h : k ∉ entries.map Prod.fst) :
    (m.insertAll entries).find? k = m.find? k := by
  induction entries generalizing m with
  | nil => rfl
  | cons entry entries ih =>
      rw [List.map_cons, List.mem_cons, not_or] at h
      show ((m.insert entry.1 entry.2).insertAll entries).find? k = _
      rw [ih h.2, find?_insert_ne _ _ h.1]

theorem find?_insertAll_of_mem {m : KeyedMap κ β} {entries : List (κ × β)}
    (hnodup : (entries.map Prod.fst).Nodup) {k : κ} {b : β}
    (h : (k, b) ∈ entries) : (m.insertAll entries).find? k = some b := by
  induction entries generalizing m with
  | nil => cases h
  | cons entry entries ih =>
      rw [List.map_cons, List.nodup_cons] at hnodup
      show ((m.insert entry.1 entry.2).insertAll entries).find? k = _
      rcases List.mem_cons.mp h with rfl | h
      · rw [find?_insertAll_of_not_mem hnodup.1, find?_insert_self]
      · exact ih hnodup.2 h

/-- With distinct keys, what is found is what is written, or was there and is
not written over. -/
theorem find?_insertAll_iff {m : KeyedMap κ β} {entries : List (κ × β)}
    (hnodup : (entries.map Prod.fst).Nodup) {k : κ} {b : β} :
    (m.insertAll entries).find? k = some b ↔
      (k, b) ∈ entries ∨ k ∉ entries.map Prod.fst ∧ m.find? k = some b := by
  by_cases hk : k ∈ entries.map Prod.fst
  · obtain ⟨⟨k', b'⟩, hmem, rfl⟩ := List.mem_map.mp hk
    have hwritten := find?_insertAll_of_mem (m := m) hnodup hmem
    rw [hwritten]
    constructor
    · intro h
      rw [← Option.some.inj h]
      exact Or.inl hmem
    · rintro (h | ⟨hno, -⟩)
      · rw [← hwritten, find?_insertAll_of_mem hnodup h]
      · exact absurd hk hno
  · rw [find?_insertAll_of_not_mem hk]
    constructor
    · exact fun h => Or.inr ⟨hk, h⟩
    · rintro (h | ⟨-, h⟩)
      · exact absurd (List.mem_map_of_mem h) hk
      · exact h

theorem insertAll_append (m : KeyedMap κ β) (entries entries' : List (κ × β)) :
    m.insertAll (entries ++ entries') = (m.insertAll entries).insertAll entries' :=
  List.foldl_append

/-- A key that is written has one of the values written for it. -/
theorem exists_find?_insertAll {m : KeyedMap κ β} {entries : List (κ × β)} {k : κ}
    (h : ∃ b, (k, b) ∈ entries) :
    ∃ b, (k, b) ∈ entries ∧ (m.insertAll entries).find? k = some b := by
  induction entries using List.reverseRecOn with
  | nil =>
      obtain ⟨b, hb⟩ := h
      cases hb
  | append_singleton entries entry ih =>
      obtain ⟨k', b'⟩ := entry
      rw [insertAll_append]
      show ∃ b, _ ∧ ((m.insertAll entries).insert k' b').find? k = some b
      rw [find?_insert]
      by_cases hk : k = k'
      · exact ⟨b', by simp [hk], by rw [if_pos hk]⟩
      · obtain ⟨b, hb⟩ := h
        have hold : (k, b) ∈ entries := by simpa [hk] using hb
        obtain ⟨b₁, hmem, hfind⟩ := ih ⟨b, hold⟩
        exact ⟨b₁, List.mem_append_left _ hmem, by rw [if_neg hk, hfind]⟩

theorem find?_eraseAll (m : KeyedMap κ β) (keys : List κ) (k : κ) :
    (m.eraseAll keys).find? k = if k ∈ keys then none else m.find? k := by
  induction keys generalizing m with
  | nil => simp [eraseAll]
  | cons key keys ih =>
      show ((m.erase key).eraseAll keys).find? k = _
      rw [ih, find?_erase]
      by_cases hkey : k = key
      · simp [hkey]
      · simp [hkey]

/-! ## Entries -/

def toList (m : KeyedMap κ β) : List (κ × β) :=
  (AList.entries m).map fun entry => (entry.1, entry.2)

theorem mem_toList {m : KeyedMap κ β} {k : κ} {b : β} :
    (k, b) ∈ m.toList ↔ m.find? k = some b := by
  have hlookup : m.find? k = some b ↔ ⟨k, b⟩ ∈ AList.entries m :=
    List.mem_dlookup_iff (AList.nodupKeys m)
  rw [hlookup]
  unfold toList
  rw [List.mem_map]
  constructor
  · rintro ⟨⟨k', b'⟩, hmem, heq⟩
    obtain ⟨rfl, rfl⟩ := Prod.mk.inj heq
    exact hmem
  · intro hmem
    exact ⟨⟨k, b⟩, hmem, rfl⟩

omit [DecidableEq κ] in
theorem nodup_keys_toList (m : KeyedMap κ β) :
    (m.toList.map Prod.fst).Nodup := by
  unfold toList
  rw [List.map_map]
  exact m.nodupKeys

theorem toList_erase_sublist (m : KeyedMap κ β) (k : κ) :
    (m.erase k).toList.Sublist m.toList :=
  (List.kerase_sublist k (AList.entries m)).map _

/-- The sum of a size over the entries. -/
def sum (size : β → Nat) (m : KeyedMap κ β) : Nat :=
  ((AList.entries m).map fun entry => size entry.2).sum

theorem sum_insert (size : β → Nat) {m : KeyedMap κ β} {k : κ} (b : β)
    (h : m.find? k = none) : (m.insert k b).sum size = size b + m.sum size := by
  have hfresh : k ∉ (AList.entries m).keys := List.dlookup_eq_none.mp h
  show ((⟨k, b⟩ :: (AList.entries m).kerase k).map
    fun entry : Sigma fun _ : κ => β => size entry.2).sum = _
  rw [List.kerase_of_notMem_keys hfresh]
  rfl

private theorem sum_kerase (size : β → Nat) {k : κ} {b : β}
    {entries : List (Sigma fun _ : κ => β)}
    (h : List.dlookup k entries = some b) :
    (entries.map fun entry => size entry.2).sum =
      size b + ((entries.kerase k).map fun entry => size entry.2).sum := by
  induction entries with
  | nil => cases h
  | cons entry entries ih =>
      obtain ⟨k', b'⟩ := entry
      by_cases hk : k = k'
      · subst hk
        rw [List.dlookup_cons_eq] at h
        obtain rfl := Option.some.inj h
        have hkerase : List.kerase k
            ((⟨k, b'⟩ : Sigma fun _ : κ => β) :: entries) = entries :=
          List.kerase_cons_eq rfl
        rw [hkerase]
        rfl
      · rw [List.dlookup_cons_ne entries ⟨k', b'⟩ hk] at h
        have hkerase : List.kerase k
            ((⟨k', b'⟩ : Sigma fun _ : κ => β) :: entries) =
              ⟨k', b'⟩ :: List.kerase k entries := List.kerase_cons_ne hk
        rw [hkerase, List.map_cons, List.sum_cons, List.map_cons,
          List.sum_cons, ih h]
        omega

theorem sum_erase (size : β → Nat) {m : KeyedMap κ β} {k : κ} {b : β}
    (h : m.find? k = some b) :
    m.sum size = size b + (m.erase k).sum size :=
  sum_kerase size h

omit [DecidableEq κ] in
theorem sum_one (m : KeyedMap κ β) : m.sum (fun _ => 1) = m.toList.length := by
  simp [sum, toList]

theorem length_toList_erase {m : KeyedMap κ β} {k : κ} {b : β} (h : m.find? k = some b) :
    m.toList.length = 1 + (m.erase k).toList.length := by
  rw [← sum_one, ← sum_one]
  exact sum_erase (fun _ => 1) h

theorem sum_insert_eq (size : β → Nat) (m : KeyedMap κ β) (k : κ) (b : β) :
    (m.insert k b).sum size = size b + (m.erase k).sum size := rfl

theorem sum_eq_zero (size : β → Nat) {m : KeyedMap κ β}
    (h : ∀ k b, m.find? k = some b → size b = 0) : m.sum size = 0 := by
  unfold sum
  rw [List.sum_eq_zero_iff]
  intro x hx
  obtain ⟨⟨k, b⟩, hmem, rfl⟩ := List.mem_map.mp hx
  exact h k b ((List.mem_dlookup_iff (AList.nodupKeys m)).mpr hmem)

section Values

variable {γ : Type}

omit [DecidableEq κ] in
theorem nodupKeys_mapVals (f : β → γ) (m : KeyedMap κ β) :
    ((AList.entries m).map fun entry => (⟨entry.1, f entry.2⟩ : Sigma fun _ : κ =>
      γ)).NodupKeys := by
  unfold List.NodupKeys List.keys
  rw [List.map_map]
  exact m.nodupKeys

/-- Every value is replaced. -/
def mapVals (f : β → γ) (m : KeyedMap κ β) : KeyedMap κ γ :=
  ⟨(AList.entries m).map fun entry => ⟨entry.1, f entry.2⟩, nodupKeys_mapVals f m⟩

omit [DecidableEq κ] in
theorem toList_mapVals (f : β → γ) (m : KeyedMap κ β) :
    (m.mapVals f).toList = m.toList.map fun entry => (entry.1, f entry.2) := by
  unfold toList mapVals
  rw [List.map_map, List.map_map]
  rfl

omit [DecidableEq κ] in
theorem sum_mapVals (size : γ → Nat) (f : β → γ) (m : KeyedMap κ β) :
    (m.mapVals f).sum size = m.sum fun b => size (f b) := by
  unfold sum mapVals
  rw [List.map_map]
  rfl

omit [DecidableEq κ] in
theorem sum_le_sum {size size' : β → Nat} (h : ∀ b, size b ≤ size' b)
    (m : KeyedMap κ β) : m.sum size ≤ m.sum size' :=
  List.sum_le_sum fun entry _ => h entry.2

end Values

/-! ## Batches -/

/-- The loop over the entries of a batch.  `slot old new` is the new content
of an entry's slot, or a failure. -/
def writeEntries (slot : Option β → γ → Option (Option β)) :
    List (Sigma fun _ : κ => γ) → KeyedMap κ β → Option (KeyedMap κ β)
  | [], m => some m
  | ⟨k, new⟩ :: rest, m =>
      match slot (m.find? k) new with
      | none => none
      | some o => writeEntries slot rest (m.setSlot k o)

def writeAll (slot : Option β → γ → Option (Option β))
    (batch : KeyedMap κ γ) (m : KeyedMap κ β) : Option (KeyedMap κ β) :=
  writeEntries slot (AList.entries batch) m

private theorem writeEntries_spec (slot : Option β → γ → Option (Option β))
    (result : κ → Option β) (entries : List (Sigma fun _ : κ => γ)) :
    ∀ m : KeyedMap κ β, entries.NodupKeys →
      (∀ k new, List.dlookup k entries = some new →
        slot (m.find? k) new = some (result k)) →
      (∀ k, List.dlookup k entries = none → m.find? k = result k) →
      ∃ m', writeEntries slot entries m = some m' ∧
        ∀ k, m'.find? k = result k := by
  induction entries with
  | nil =>
      intro m _ _ hrest
      exact ⟨m, rfl, fun k => hrest k rfl⟩
  | cons entry entries ih =>
      intro m hnodup hslot hrest
      obtain ⟨key, new⟩ := entry
      rw [List.nodupKeys_cons] at hnodup
      have hkey := hslot key new (List.dlookup_cons_eq entries key new)
      have habsent : List.dlookup key entries = none :=
        List.dlookup_eq_none.mpr hnodup.1
      unfold writeEntries
      rw [hkey]
      apply ih (m.setSlot key (result key)) hnodup.2
      · intro k new' hnew
        have hne : k ≠ key := by
          intro h
          rw [h, habsent] at hnew
          cases hnew
        rw [find?_setSlot, if_neg hne]
        apply hslot
        rw [List.dlookup_cons_ne entries ⟨key, new⟩ hne]
        exact hnew
      · intro k hnone
        rw [find?_setSlot]
        by_cases h : k = key
        · rw [if_pos h, h]
        · rw [if_neg h]
          apply hrest
          rw [List.dlookup_cons_ne entries ⟨key, new⟩ h]
          exact hnone

/-- **Batches write slot by slot.**  When every entry of the batch turns its
slot into the expected one, and the other slots are as expected already, the
batch succeeds and leaves the expected map. -/
theorem writeAll_spec (slot : Option β → γ → Option (Option β))
    (batch : KeyedMap κ γ) (m : KeyedMap κ β) (result : κ → Option β)
    (hslot : ∀ k new, batch.find? k = some new →
      slot (m.find? k) new = some (result k))
    (hrest : ∀ k, batch.find? k = none → m.find? k = result k) :
    ∃ m', writeAll slot batch m = some m' ∧ ∀ k, m'.find? k = result k :=
  writeEntries_spec slot result (AList.entries batch) m batch.nodupKeys
    hslot hrest

/-- A batch whose entries cannot fail. -/
theorem writeAll_total (slot : Option β → γ → Option β)
    (batch : KeyedMap κ γ) (m : KeyedMap κ β) :
    ∃ m', writeAll (fun old new => some (slot old new)) batch m = some m' ∧
      ∀ k, m'.find? k = (batch.find? k).elim (m.find? k)
        (slot (m.find? k)) := by
  apply writeAll_spec
  · intro k new hnew
    rw [hnew]
    rfl
  · intro k hnone
    rw [hnone]
    rfl

end KeyedMap

end Agrarian.Lib
