import Agrarian.Lib.Multimap

/-!
# `limitedmap`

A map that is meant to keep the `N` elements with the highest value.  Its
second container lists iterators into the first in the order of the values; an
iterator is the key it stands at.

An insertion evicts when the map has reached `N` elements with the new one,
and then the lowest of the others.  So the last place is never filled by an
insertion, a map that is full already grows past its limit, and with a limit of
one there is nothing to evict.
-/

namespace Agrarian.Net

open Agrarian.Lib

variable {K V : Type} [DecidableEq K] [LinearOrder V]

/-- What must not happen in a call. -/
inductive LimitedMap.Fault
  /-- `*rmap.begin()` of an empty `rmap`. -/
  | emptyRmap
  /-- An iterator to an element that is gone. -/
  | danglingIterator
  /-- `assert(0)`. -/
  | assertion
  deriving DecidableEq

structure LimitedMap (K V : Type) [DecidableEq K] [LinearOrder V] where
  map : KeyedMap K V
  rmap : Multimap V K
  nMaxSize : Nat

namespace LimitedMap

/-- `limitedmap::limitedmap`. -/
def new (nMaxSizeIn : Nat) : LimitedMap K V where
  map := KeyedMap.empty
  rmap := Multimap.empty
  nMaxSize := nMaxSizeIn

/-- `limitedmap::size`. -/
def size (m : LimitedMap K V) : Nat := m.map.toList.length

/-- `map.erase(rmap.begin()->second); rmap.erase(rmap.begin());`. -/
def eraseBegin (m : LimitedMap K V) : Except Fault (LimitedMap K V) :=
  match m.rmap.first with
  | none => .error .emptyRmap
  | some entry =>
      match m.map.find? entry.2 with
      | none => .error .danglingIterator
      | some _ =>
          .ok { m with map := m.map.erase entry.2, rmap := m.rmap.erase entry }

/-- `limitedmap::insert`. -/
def insert (m : LimitedMap K V) (k : K) (v : V) :
    Except Fault (LimitedMap K V) :=
  match m.map.find? k with
  | some _ => .ok m
  | none => do
      let m := { m with map := m.map.insert k v }
      let m ← if m.nMaxSize ≠ 0 ∧ m.size = m.nMaxSize then m.eraseBegin
        else .ok m
      .ok { m with rmap := m.rmap.insert v k }

/-- `limitedmap::erase`. -/
def erase (m : LimitedMap K V) (k : K) : Except Fault (LimitedMap K V) :=
  match m.map.find? k with
  | none => .ok m
  | some v =>
      match (m.rmap.equalRange v).find? fun entry => entry.2 = k with
      | none => .error .assertion
      | some entry =>
          .ok { m with map := m.map.erase k, rmap := m.rmap.erase entry }

/-- `limitedmap::update`, with an iterator at `k`. -/
def update (m : LimitedMap K V) (k : K) (v : V) :
    Except Fault (LimitedMap K V) :=
  match m.map.find? k with
  | none => .ok m
  | some old =>
      match (m.rmap.equalRange old).find? fun entry => entry.2 = k with
      | none => .error .assertion
      | some entry =>
          .ok { m with
            map := m.map.insert k v
            rmap := (m.rmap.erase entry).insert v k }

/-- The loop of `limitedmap::max_size`, of at most `fuel` turns. -/
def eraseDownTo (s : Nat) : Nat → LimitedMap K V → Except Fault (LimitedMap K V)
  | 0, m => .ok m
  | fuel + 1, m =>
      if m.size > s then do
        let m ← m.eraseBegin
        eraseDownTo s fuel m
      else .ok m

/-- `limitedmap::max_size`.  Every turn of the loop takes an element away. -/
def max_size (m : LimitedMap K V) (s : Nat) : Except Fault (LimitedMap K V) := do
  let m ← if s ≠ 0 then eraseDownTo s m.size m else .ok m
  .ok { m with nMaxSize := s }

/-- A call that changes a map. -/
inductive Call (K V : Type)
  | insert (k : K) (v : V)
  | erase (k : K)
  | update (k : K) (v : V)
  | max_size (s : Nat)

def step (m : LimitedMap K V) : Call K V → Except Fault (LimitedMap K V)
  | .insert k v => m.insert k v
  | .erase k => m.erase k
  | .update k v => m.update k v
  | .max_size s => m.max_size s

/-- The map after a sequence of calls. -/
def run (nMaxSizeIn : Nat) (calls : List (Call K V)) :
    Except Fault (LimitedMap K V) :=
  calls.foldlM step (new nMaxSizeIn)

/-! ## The index -/

/-- `map` and `rmap` are in bijection. -/
def Linked (m : LimitedMap K V) : Prop := Indexes m.map m.rmap

section Index

variable {m m' : LimitedMap K V} {k : K} {v : V}

theorem linked_new (N : Nat) : (new N : LimitedMap K V).Linked :=
  Indexes.empty

theorem Linked.size_eq (h : m.Linked) : m.size = m.rmap.entries.length :=
  Indexes.length_eq h

theorem Linked.size_insert (h : m.Linked) (hk : m.map.find? k = none) :
    (m.map.insert k v).toList.length = m.size + 1 := by
  rw [(Indexes.insert h hk v).length_eq, h.size_eq,
    (m.rmap.insert_perm v k).length_eq, List.length_cons]

/-- The front of the index can be taken out of a map that has an element. -/
theorem Linked.eraseBegin (h : m.Linked) (hpos : 0 < m.size) :
    ∃ k v, m.map.find? k = some v ∧ m.rmap.first = some (v, k) ∧
      m.eraseBegin = .ok { m with
        map := m.map.erase k, rmap := m.rmap.erase (v, k) } := by
  cases hfirst : m.rmap.first with
  | none =>
      exact absurd ((Indexes.first_eq_none_iff h).mp hfirst) hpos.ne'
  | some entry =>
      obtain ⟨v, k⟩ := entry
      have hk := (Indexes.least h hfirst).1
      refine ⟨k, v, hk, rfl, ?_⟩
      unfold LimitedMap.eraseBegin
      rw [hfirst]
      dsimp only
      rw [hk]

/-- The loop ends at the size it is given, or below it. -/
theorem Linked.eraseDownTo (h : m.Linked) {s fuel : Nat}
    (hfuel : m.size ≤ fuel) :
    ∃ m', LimitedMap.eraseDownTo s fuel m = .ok m' ∧ m'.Linked ∧
      m'.size ≤ s := by
  induction fuel generalizing m with
  | zero => exact ⟨m, rfl, h, by omega⟩
  | succ fuel ih =>
      unfold LimitedMap.eraseDownTo
      by_cases hlarge : m.size > s
      · rw [if_pos hlarge]
        obtain ⟨k, v, hk, -, heq⟩ := h.eraseBegin (by omega)
        have hlen := KeyedMap.length_toList_erase hk
        have hlinked : Linked { m with
            map := m.map.erase k, rmap := m.rmap.erase (v, k) } :=
          Indexes.erase h hk
        rw [heq]
        apply ih hlinked
        unfold LimitedMap.size at hfuel ⊢
        dsimp only
        omega
      · rw [if_neg hlarge]
        exact ⟨m, rfl, h, by omega⟩

/-- `max_size` sets the limit and keeps it. -/
theorem Linked.max_size (h : m.Linked) (s : Nat) :
    ∃ m', m.max_size s = .ok m' ∧ m'.Linked ∧ m'.nMaxSize = s ∧
      (s ≠ 0 → m'.size ≤ s) := by
  unfold LimitedMap.max_size
  by_cases hs : s ≠ 0
  · obtain ⟨m', heq, hlinked, hsize⟩ := h.eraseDownTo (s := s) (le_refl m.size)
    rw [if_pos hs, heq]
    exact ⟨_, rfl, hlinked, rfl, fun _ => hsize⟩
  · rw [if_neg hs]
    exact ⟨_, rfl, h, rfl, fun h => absurd h hs⟩

theorem Linked.erase (h : m.Linked) (k : K) :
    ∃ m', m.erase k = .ok m' ∧ m'.Linked ∧ m'.nMaxSize = m.nMaxSize ∧
      m'.size ≤ m.size := by
  unfold LimitedMap.erase
  cases hk : m.map.find? k with
  | none => exact ⟨m, rfl, h, rfl, le_refl _⟩
  | some v =>
      dsimp only
      rw [Indexes.find?_equalRange h hk]
      have hlen := KeyedMap.length_toList_erase hk
      refine ⟨_, rfl, Indexes.erase h hk, rfl, ?_⟩
      unfold LimitedMap.size
      dsimp only
      omega

theorem Linked.update (h : m.Linked) (k : K) (v : V) :
    ∃ m', m.update k v = .ok m' ∧ m'.Linked ∧ m'.nMaxSize = m.nMaxSize ∧
      m'.size = m.size := by
  unfold LimitedMap.update
  cases hk : m.map.find? k with
  | none => exact ⟨m, rfl, h, rfl, rfl⟩
  | some old =>
      dsimp only
      rw [Indexes.find?_equalRange h hk]
      have hgone : Linked { m with
          map := m.map.erase k, rmap := m.rmap.erase (old, k) } :=
        Indexes.erase h hk
      have hback := Indexes.insert hgone (KeyedMap.find?_erase_self m.map k) v
      have hlinked : Linked { m with
          map := m.map.insert k v,
          rmap := (m.rmap.erase (old, k)).insert v k } := by
        apply Indexes.congr hback
        intro k'
        dsimp only
        rw [KeyedMap.find?_insert, KeyedMap.find?_insert, KeyedMap.find?_erase]
        split_ifs <;> rfl
      refine ⟨_, rfl, hlinked, rfl, ?_⟩
      have hlen := KeyedMap.length_toList_erase hk
      have hsize := hgone.size_insert
        (KeyedMap.find?_erase_self m.map k) (v := v)
      rw [hlinked.size_eq, ← Indexes.length_eq hback, hsize]
      unfold LimitedMap.size
      dsimp only
      omega

end Index

/-! ## Insertions -/

section Insertions

variable {m m' : LimitedMap K V} {k : K}

/-- Both containers with a new element. -/
def inserted (m : LimitedMap K V) (k : K) (v : V) : LimitedMap K V where
  map := m.map.insert k v
  rmap := m.rmap.insert v k
  nMaxSize := m.nMaxSize

theorem insert_known {old : V} (hk : m.map.find? k = some old) (v : V) :
    m.insert k v = .ok m := by
  unfold insert
  rw [hk]

/-- Away from the limit nothing is dropped. -/
theorem Linked.insert_new (h : m.Linked) (hk : m.map.find? k = none) (v : V)
    (haway : m.nMaxSize = 0 ∨ m.size + 1 ≠ m.nMaxSize) :
    m.insert k v = .ok (m.inserted k v) := by
  have hsize := h.size_insert hk (v := v)
  unfold LimitedMap.insert LimitedMap.size
  rw [hk]
  dsimp only
  rw [hsize, if_neg (by omega)]
  rfl

/-- With a limit of one there is nothing to evict. -/
theorem Linked.insert_one (h : m.Linked) (hk : m.map.find? k = none) (v : V)
    (hlimit : m.nMaxSize = 1) (hempty : m.size = 0) :
    m.insert k v = .error .emptyRmap := by
  have hsize := h.size_insert hk (v := v)
  have hfirst := (Indexes.first_eq_none_iff h).mpr hempty
  unfold LimitedMap.insert LimitedMap.size LimitedMap.eraseBegin
  rw [hk]
  dsimp only
  rw [hsize, if_pos (by omega), hfirst]
  rfl

/-- At the limit an element is dropped that was there before. -/
theorem Linked.insert_full (h : m.Linked) (hk : m.map.find? k = none) (v : V)
    (hlimit : m.size + 1 = m.nMaxSize) (hpos : 0 < m.size) :
    ∃ m' k₀ v₀, m.insert k v = .ok m' ∧ m.map.find? k₀ = some v₀ ∧
      m'.Linked ∧ m'.map = (m.map.insert k v).erase k₀ := by
  have hsize := h.size_insert hk (v := v)
  obtain ⟨k₀, v₀, hk₀, hfirst, -⟩ := h.eraseBegin hpos
  have hne : k₀ ≠ k := by
    rintro rfl
    rw [hk] at hk₀
    cases hk₀
  have hthere : (m.map.insert k v).find? k₀ = some v₀ := by
    rw [KeyedMap.find?_insert_ne _ _ hne, hk₀]
  have hlinked : Indexes ((m.map.erase k₀).insert k v)
      ((m.rmap.erase (v₀, k₀)).insert v k) := by
    apply Indexes.insert (Indexes.erase h hk₀)
    rw [KeyedMap.find?_erase_ne _ hne.symm, hk]
  refine ⟨⟨(m.map.insert k v).erase k₀, (m.rmap.erase (v₀, k₀)).insert v k,
    m.nMaxSize⟩, k₀, v₀, ?_, hk₀, ?_, rfl⟩
  · unfold LimitedMap.insert LimitedMap.size LimitedMap.eraseBegin
    rw [hk]
    dsimp only
    rw [hsize, if_pos (by omega), hfirst]
    dsimp only
    rw [hthere]
    rfl
  · apply Indexes.congr hlinked
    intro k'
    dsimp only
    rw [KeyedMap.find?_erase, KeyedMap.find?_insert, KeyedMap.find?_insert,
      KeyedMap.find?_erase]
    by_cases hkk : k' = k₀
    · rw [if_pos hkk, if_pos hkk, if_neg (hkk ▸ hne)]
    · rw [if_neg hkk, if_neg hkk]

/-- **One call.**  Whatever the limit does, the index is kept, and the only
fault is an eviction from a map that has nothing else. -/
theorem step_linked (h : m.Linked) (c : Call K V) :
    (∃ m', m.step c = .ok m' ∧ m'.Linked) ∨
      m.step c = .error .emptyRmap ∧ m.nMaxSize = 1 ∧ m.size = 0 := by
  cases c with
  | insert k v =>
      cases hk : m.map.find? k with
      | some old => exact Or.inl ⟨m, insert_known hk v, h⟩
      | none =>
          by_cases haway : m.nMaxSize = 0 ∨ m.size + 1 ≠ m.nMaxSize
          · exact Or.inl ⟨_, h.insert_new hk v haway, Indexes.insert h hk v⟩
          · obtain ⟨-, hlimit⟩ := not_or.mp haway
            rcases Nat.eq_zero_or_pos m.size with hempty | hpos
            · have hone : m.nMaxSize = 1 := by omega
              exact Or.inr ⟨h.insert_one hk v hone hempty, hone, hempty⟩
            · obtain ⟨m', -, -, heq, -, hlinked, -⟩ :=
                h.insert_full hk v (not_not.mp hlimit) hpos
              exact Or.inl ⟨m', heq, hlinked⟩
  | erase k =>
      obtain ⟨m', heq, hlinked, -⟩ := h.erase k
      exact Or.inl ⟨m', heq, hlinked⟩
  | update k v =>
      obtain ⟨m', heq, hlinked, -⟩ := h.update k v
      exact Or.inl ⟨m', heq, hlinked⟩
  | max_size s =>
      obtain ⟨m', heq, hlinked, -⟩ := h.max_size s
      exact Or.inl ⟨m', heq, hlinked⟩

/-! ## What the map promises -/

/-- The containers are in bijection, and a limit is kept. -/
structure Kept (m : LimitedMap K V) : Prop where
  linked : m.Linked
  within : m.nMaxSize ≠ 0 → m.size ≤ m.nMaxSize

/-- The new map is the old one with the new element and without one of the
lowest among all of them. -/
def DropsLowest (m : LimitedMap K V) (k : K) (v : V) (m' : LimitedMap K V) :
    Prop :=
  ∃ k₀ v₀, (m.map.insert k v).find? k₀ = some v₀ ∧
    (∀ k' v', (m.map.insert k v).find? k' = some v' → v₀ ≤ v') ∧
    ∀ k', m'.map.find? k' = ((m.map.insert k v).erase k₀).find? k'

/-- What an insertion leaves in the map. -/
def InsertsWell (m : LimitedMap K V) (k : K) (v : V) (m' : LimitedMap K V) :
    Prop :=
  if m.map.find? k ≠ none then ∀ k', m'.map.find? k' = m.map.find? k'
  else if m.nMaxSize ≠ 0 ∧ m.nMaxSize < m.size + 1 then m.DropsLowest k v m'
  else ∀ k', m'.map.find? k' = (m.map.insert k v).find? k'

/-- A call without a fault that leaves the map as it should. -/
def StepsWell (m : LimitedMap K V) (c : Call K V) : Prop :=
  ∃ m', m.step c = .ok m' ∧ m'.Kept ∧
    match c with
    | .insert k v => m.InsertsWell k v m'
    | _ => True

/-- A run whose every call does. -/
def RunsWell (nMaxSizeIn : Nat) (calls : List (Call K V)) : Prop :=
  ∀ p c, p ++ [c] <+: calls →
    ∃ m, run nMaxSizeIn p = .ok m ∧ m.StepsWell c

/-- A new element leaves room for another one below the limit. -/
def HasRoom (m : LimitedMap K V) : Call K V → Prop
  | .insert k _ =>
      m.map.find? k ≠ none ∨ m.nMaxSize = 0 ∨ m.size + 1 < m.nMaxSize
  | _ => True

/-- An insertion is well done exactly with room. -/
theorem insert_stepsWell_iff (h : m.Kept) (k : K) (v : V) :
    m.StepsWell (.insert k v) ↔ m.HasRoom (.insert k v) := by
  cases hk : m.map.find? k with
  | some old =>
      have hknown : m.map.find? k ≠ none := by simp [hk]
      refine iff_of_true ⟨m, insert_known hk v, h, ?_⟩ (Or.inl hknown)
      dsimp only
      unfold InsertsWell
      rw [if_pos hknown]
      exact fun _ => rfl
  | none =>
      have hnew : ¬ m.map.find? k ≠ none := not_not.mpr hk
      have hsize := h.linked.size_insert hk (v := v)
      constructor
      · rintro ⟨m', heq, hkept, hwell⟩
        dsimp only at hwell
        unfold InsertsWell at hwell
        rw [if_neg hnew] at hwell
        by_contra hroom
        obtain ⟨-, hroom⟩ := not_or.mp hroom
        obtain ⟨hlimit, hroom⟩ := not_or.mp hroom
        have hwithin := h.within hlimit
        rcases Nat.lt_or_ge m.size m.nMaxSize with hless | hfull
        · -- the last place: what was evicted should have stayed
          rw [if_neg (by omega)] at hwell
          rcases Nat.eq_zero_or_pos m.size with hempty | hpos
          · have hfault := h.linked.insert_one hk v (by omega) hempty
            cases heq.symm.trans hfault
          · obtain ⟨m'', k₀, v₀, heq', hk₀, -, hmap⟩ :=
              h.linked.insert_full hk v (by omega) hpos
            obtain rfl := Except.ok.inj (heq.symm.trans heq')
            have hgone := hwell k₀
            rw [hmap, KeyedMap.find?_erase_self, KeyedMap.find?_insert] at hgone
            split_ifs at hgone
            rw [hk₀] at hgone
            cases hgone
        · -- a full map: nothing was evicted
          have hnone := h.linked.insert_new hk v (Or.inr (by omega))
          obtain rfl := Except.ok.inj (heq.symm.trans hnone)
          have hover := hkept.within hlimit
          unfold LimitedMap.size inserted at hover
          rw [hsize] at hover
          dsimp only at hover
          omega
      · rintro (hknown | hroom)
        · exact absurd hk hknown
        · refine ⟨_, h.linked.insert_new hk v (by omega),
            ⟨Indexes.insert h.linked hk v, ?_⟩, ?_⟩
          · intro hlimit
            unfold LimitedMap.size inserted at *
            dsimp only at *
            omega
          · dsimp only
            unfold InsertsWell
            rw [if_neg hnew, if_neg (by omega)]
            exact fun _ => rfl

theorem stepsWell_iff (h : m.Kept) (c : Call K V) :
    m.StepsWell c ↔ m.HasRoom c := by
  cases c with
  | insert k v => exact insert_stepsWell_iff h k v
  | erase k =>
      obtain ⟨m', heq, hlinked, hlimit, hsize⟩ := h.linked.erase k
      refine iff_of_true ⟨m', heq, ⟨hlinked, ?_⟩, trivial⟩ trivial
      rw [hlimit]
      exact fun hne => hsize.trans (h.within hne)
  | update k v =>
      obtain ⟨m', heq, hlinked, hlimit, hsize⟩ := h.linked.update k v
      refine iff_of_true ⟨m', heq, ⟨hlinked, ?_⟩, trivial⟩ trivial
      rw [hlimit, hsize]
      exact h.within
  | max_size s =>
      obtain ⟨m', heq, hlinked, hlimit, hsize⟩ := h.linked.max_size s
      refine iff_of_true ⟨m', heq, ⟨hlinked, ?_⟩, trivial⟩ trivial
      rw [hlimit]
      exact hsize

theorem kept_new (N : Nat) : (new N : LimitedMap K V).Kept where
  linked := linked_new N
  within := fun _ => Nat.zero_le _

theorem run_append_singleton (N : Nat) (p : List (Call K V)) (c : Call K V) :
    run N (p ++ [c]) = run N p >>= fun m => m.step c := by
  unfold run
  rw [List.foldlM_append]
  simp

/-- **No sequence of calls breaks the index**, whatever the limits: the containers are in
bijection, unless a call has found nothing to evict. -/
theorem run_linked (N : Nat) (calls : List (Call K V)) :
    (∃ m, run N calls = .ok m ∧ m.Linked) ∨ run N calls = .error .emptyRmap := by
  induction calls using List.reverseRecOn with
  | nil => exact Or.inl ⟨_, rfl, linked_new N⟩
  | append_singleton calls c ih =>
      rw [run_append_singleton]
      rcases ih with ⟨m, hrun, hlinked⟩ | herror
      · rw [hrun]
        rcases step_linked hlinked c with hstep | ⟨hfault, -, -⟩
        · exact Or.inl hstep
        · exact Or.inr hfault
      · rw [herror]
        exact Or.inr rfl

/-- While the calls are well done the map is kept. -/
theorem kept_run {N : Nat} {calls : List (Call K V)}
    (hsteps : ∀ p c, p ++ [c] <+: calls →
      ∀ m, run N p = .ok m → m.Kept → m.StepsWell c) :
    ∀ p, p <+: calls → ∃ m, run N p = .ok m ∧ m.Kept := by
  intro p
  induction p using List.reverseRecOn with
  | nil =>
      intro _
      exact ⟨_, rfl, kept_new N⟩
  | append_singleton p c ih =>
      intro hp
      obtain ⟨m, hrun, hkept⟩ := ih ((List.prefix_append p [c]).trans hp)
      obtain ⟨m', hstep, hkept', -⟩ := hsteps p c hp m hrun hkept
      refine ⟨m', ?_, hkept'⟩
      rw [run_append_singleton, hrun]
      exact hstep

/-- **The runs that keep what `limitedmap` says.**  Every call is without a
fault and leaves the containers in bijection, the limit kept and the right
elements in the map, exactly if no new element is inserted into a map that
would reach its limit with it. -/
theorem runsWell_iff (N : Nat) (calls : List (Call K V)) :
    RunsWell N calls ↔
      ∀ p c, p ++ [c] <+: calls → ∀ m, run N p = .ok m → m.HasRoom c := by
  constructor
  · intro hwell p c hp m hrun
    have hsteps : ∀ p c, p ++ [c] <+: calls →
        ∀ m, run N p = .ok m → m.Kept → m.StepsWell c := by
      intro p c hp m hrun _
      obtain ⟨m', hrun', hstep⟩ := hwell p c hp
      obtain rfl := Except.ok.inj (hrun.symm.trans hrun')
      exact hstep
    obtain ⟨m', hrun', hkept⟩ :=
      kept_run hsteps p ((List.prefix_append p [c]).trans hp)
    obtain rfl := Except.ok.inj (hrun.symm.trans hrun')
    exact (stepsWell_iff hkept c).mp (hsteps p c hp m hrun hkept)
  · intro hroom p c hp
    have hsteps : ∀ p c, p ++ [c] <+: calls →
        ∀ m, run N p = .ok m → m.Kept → m.StepsWell c := by
      intro p c hp m hrun hkept
      exact (stepsWell_iff hkept c).mpr (hroom p c hp m hrun)
    obtain ⟨m, hrun, hkept⟩ :=
      kept_run hsteps p ((List.prefix_append p [c]).trans hp)
    exact ⟨m, hrun, hsteps p c hp m hrun hkept⟩

/-- With a limit of one the first insertion reads an empty `rmap`. -/
theorem runsWell_limitOne :
    ¬ ∀ (N : Nat) (calls : List (Call Nat Nat)), RunsWell N calls := by
  intro h
  obtain ⟨m, hrun, m', hstep, -⟩ :=
    h 1 [.insert 0 0] [] (.insert 0 0) (List.prefix_refl _)
  obtain rfl := Except.ok.inj hrun
  cases hstep

end Insertions

end LimitedMap

end Agrarian.Net
