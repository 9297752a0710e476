import Agrarian.Net.AddrMan

/-!
# The address manager stays consistent

`CAddrMan::Check_` compares the structures of the address manager with each
other.  The conditions are five independent groups here: the indexes of the
entries, the new table, the tried table, the two counters and the times.  In the
middle of a call an entry may be in neither table; `loose` says which ones, and
`uncounted` how many of them the counters leave out.

`Net.AddrManTables` has what one change of a table does to them,
`Net.AddrManOperations` what the operations keep, and `Net.AddrManCalls` that the
conditions hold after every call.
-/

namespace Agrarian.Net

open Agrarian.Lib

variable {CNetAddr : Type}

/-! ## The conditions -/

structure CAddrInfo.Timed (info : CAddrInfo CNetAddr) : Prop where
  lastTry : 0 ≤ info.nLastTry
  lastSuccess : 0 ≤ info.nLastSuccess
  tried : info.fInTried = true → 0 < info.nLastSuccess

namespace CAddrMan

/-- The numbers, the addresses and the random order index the same entries. -/
structure Indexed [DecidableEq CNetAddr] (s : CAddrMan CNetAddr) : Prop where
  fresh : ∀ {nId info}, s.mapInfo.find? nId = some info → nId < s.nIdCount
  address : ∀ {nId info}, s.mapInfo.find? nId = some info →
    s.mapAddr.find? info.ip = some nId
  entry : ∀ {addr nId}, s.mapAddr.find? addr = some nId →
    ∃ info, s.mapInfo.find? nId = some info ∧ info.ip = addr
  place : ∀ {nId info}, s.mapInfo.find? nId = some info →
    ∃ k : Nat, info.nRandomPos = k ∧ s.vRandom[k]? = some nId
  random : ∀ {k : Nat} {nId}, s.vRandom[k]? = some nId →
    ∃ info, s.mapInfo.find? nId = some info ∧ info.nRandomPos = k

/-- How many new buckets hold an entry, each at the place that is its own. -/
def newBuckets (hashes : AddrHashes CNetAddr) (s : CAddrMan CNetAddr) (nId : Nat)
    (info : CAddrInfo CNetAddr) : Nat :=
  Nat.count (fun n => s.vvNew n (info.getBucketPosition hashes s.nKey true n) = some nId)
    ADDRMAN_NEW_BUCKET_COUNT

/-- The new table, with entries that may be in no bucket for now. -/
structure NewTable (hashes : AddrHashes CNetAddr) (loose : Nat → Prop)
    (s : CAddrMan CNetAddr) : Prop where
  slot : ∀ {n i nId}, s.vvNew n i = some nId → n < ADDRMAN_NEW_BUCKET_COUNT ∧
    ∃ info, s.mapInfo.find? nId = some info ∧
      i = info.getBucketPosition hashes s.nKey true n
  count : ∀ {nId info}, s.mapInfo.find? nId = some info →
    info.nRefCount = s.newBuckets hashes nId info
  bound : ∀ {nId info}, s.mapInfo.find? nId = some info →
    info.nRefCount ≤ ADDRMAN_NEW_BUCKETS_PER_ADDRESS
  tried : ∀ {nId info}, s.mapInfo.find? nId = some info → info.fInTried = true →
    info.nRefCount = 0
  held : ∀ {nId info}, s.mapInfo.find? nId = some info → info.fInTried = false →
    ¬ loose nId → 0 < info.nRefCount

structure TriedTable (hashes : AddrHashes CNetAddr) (s : CAddrMan CNetAddr) : Prop where
  slot : ∀ {n i nId}, s.vvTried n i = some nId →
    ∃ info, s.mapInfo.find? nId = some info ∧ info.fInTried = true ∧
      n = info.getTriedBucket hashes s.nKey ∧
      i = info.getBucketPosition hashes s.nKey false n
  held : ∀ {nId info}, s.mapInfo.find? nId = some info → info.fInTried = true →
    s.vvTried (info.getTriedBucket hashes s.nKey)
      (info.getBucketPosition hashes s.nKey false (info.getTriedBucket hashes s.nKey)) =
        some nId

def isTried (s : CAddrMan CNetAddr) (nId : Nat) : Bool :=
  (s.mapInfo.find? nId).any CAddrInfo.fInTried

def isNew (s : CAddrMan CNetAddr) (nId : Nat) : Bool :=
  (s.mapInfo.find? nId).any fun info => !info.fInTried

/-- The counters, where `nNew` leaves some entries out for now. -/
structure Counted (uncounted : Nat) (s : CAddrMan CNetAddr) : Prop where
  tried : s.nTried = Nat.count (fun nId => s.isTried nId = true) s.nIdCount
  new : s.nNew + uncounted = Nat.count (fun nId => s.isNew nId = true) s.nIdCount

structure Timed (s : CAddrMan CNetAddr) : Prop where
  entry : ∀ {nId info}, s.mapInfo.find? nId = some info → info.Timed

/-- The conditions, where `loose` may be in neither table and `uncounted` of them
are not in the counters. -/
structure Inv [DecidableEq CNetAddr] (hashes : AddrHashes CNetAddr) (loose : Nat → Prop)
    (uncounted : Nat) (s : CAddrMan CNetAddr) : Prop where
  indexed : s.Indexed
  newTable : s.NewTable hashes loose
  triedTable : s.TriedTable hashes
  counted : s.Counted uncounted
  timed : s.Timed
  keyed : s.nKey ≠ 0

/-! ## Entries that change in place -/

variable {hashes : AddrHashes CNetAddr} {s s' : CAddrMan CNetAddr}
variable {loose : Nat → Prop} {uncounted : Nat}
variable {g : Nat → CAddrInfo CNetAddr → CAddrInfo CNetAddr}

/-- The entries of the second are those of the first, each changed by `g`. -/
def Maps (g : Nat → CAddrInfo CNetAddr → CAddrInfo CNetAddr) (s s' : CAddrMan CNetAddr) :
    Prop :=
  ∀ nId, s'.mapInfo.find? nId = (s.mapInfo.find? nId).map (g nId)

theorem Maps.exists_find (h : Maps g s s') {nId : Nat} {info' : CAddrInfo CNetAddr}
    (hfind : s'.mapInfo.find? nId = some info') :
    ∃ info, s.mapInfo.find? nId = some info ∧ g nId info = info' := by
  rw [h nId] at hfind
  exact Option.map_eq_some_iff.mp hfind

theorem Maps.find (h : Maps g s s') {nId : Nat} {info : CAddrInfo CNetAddr}
    (hfind : s.mapInfo.find? nId = some info) :
    s'.mapInfo.find? nId = some (g nId info) := by
  rw [h nId, hfind, Option.map_some]

theorem find?_modifyInfo (s : CAddrMan CNetAddr) (nId : Nat)
    (f : CAddrInfo CNetAddr → CAddrInfo CNetAddr) (nId' : Nat) :
    (s.modifyInfo nId f).mapInfo.find? nId' =
      if nId' = nId then (s.mapInfo.find? nId).map f else s.mapInfo.find? nId' := by
  unfold modifyInfo
  cases hfind : s.mapInfo.find? nId with
  | none =>
      by_cases heq : nId' = nId
      · rw [if_pos heq, heq]
        exact hfind
      · rw [if_neg heq]
  | some info =>
      show (s.mapInfo.insert nId (f info)).find? nId' = _
      rw [KeyedMap.find?_insert]
      rfl

theorem modifyInfo_nKey (s : CAddrMan CNetAddr) (nId : Nat)
    (f : CAddrInfo CNetAddr → CAddrInfo CNetAddr) : (s.modifyInfo nId f).nKey = s.nKey := rfl

/-- One entry changes. -/
def changeAt (nId : Nat) (f : CAddrInfo CNetAddr → CAddrInfo CNetAddr) (nId' : Nat) :
    CAddrInfo CNetAddr → CAddrInfo CNetAddr :=
  if nId' = nId then f else id

theorem changeAt_self (nId : Nat) (f : CAddrInfo CNetAddr → CAddrInfo CNetAddr)
    (info : CAddrInfo CNetAddr) : changeAt nId f nId info = f info := by
  unfold changeAt
  rw [if_pos rfl]

theorem changeAt_of_ne {nId nId' : Nat} (hne : nId' ≠ nId)
    (f : CAddrInfo CNetAddr → CAddrInfo CNetAddr) (info : CAddrInfo CNetAddr) :
    changeAt nId f nId' info = info := by
  unfold changeAt
  rw [if_neg hne, id]

/-- A field that the change keeps is kept in every entry. -/
theorem changeAt_field {β : Type} (proj : CAddrInfo CNetAddr → β)
    {f : CAddrInfo CNetAddr → CAddrInfo CNetAddr} (hf : ∀ info, proj (f info) = proj info)
    (nId nId' : Nat) (info : CAddrInfo CNetAddr) :
    proj (changeAt nId f nId' info) = proj info := by
  by_cases heq : nId' = nId
  · rw [heq, changeAt_self, hf]
  · rw [changeAt_of_ne heq]

/-- A field that is not the one that is set is kept in every entry. -/
theorem changeAt_update {β γ : Type}
    (update : γ → CAddrInfo CNetAddr → CAddrInfo CNetAddr)
    {f : CAddrInfo CNetAddr → CAddrInfo CNetAddr} (hf : ∀ info, ∃ c, f info = update c info)
    (proj : CAddrInfo CNetAddr → β) (hproj : ∀ info c, proj (update c info) = proj info)
    (nId nId' : Nat) (info : CAddrInfo CNetAddr) :
    proj (changeAt nId f nId' info) = proj info := by
  refine changeAt_field proj (fun info => ?_) nId nId' info
  obtain ⟨c, hc⟩ := hf info
  rw [hc, hproj]

theorem maps_modifyInfo (s : CAddrMan CNetAddr) (nId : Nat)
    (f : CAddrInfo CNetAddr → CAddrInfo CNetAddr) :
    Maps (changeAt nId f) s (s.modifyInfo nId f) := by
  intro nId'
  rw [find?_modifyInfo]
  unfold changeAt
  by_cases heq : nId' = nId
  · rw [if_pos heq, if_pos heq, heq]
  · rw [if_neg heq, if_neg heq, Option.map_id_fun, id]

theorem newBuckets_congr {info info' : CAddrInfo CNetAddr}
    (haddr : info'.toCService = info.toCService) (hnew : s'.vvNew = s.vvNew)
    (hkey : s'.nKey = s.nKey) (nId : Nat) :
    s'.newBuckets hashes nId info' = s.newBuckets hashes nId info := by
  unfold newBuckets CAddrInfo.getBucketPosition
  rw [haddr, hnew, hkey]

/-- What the tables look at: the address, the count and the table. -/
structure SameTables (info info' : CAddrInfo CNetAddr) : Prop where
  service : info'.toCService = info.toCService
  refCount : info'.nRefCount = info.nRefCount
  inTried : info'.fInTried = info.fInTried

theorem NewTable.congr (h : s.NewTable hashes loose) (hmaps : Maps g s s')
    (hsame : ∀ {nId info}, s.mapInfo.find? nId = some info → SameTables info (g nId info))
    (hnew : s'.vvNew = s.vvNew) (hkey : s'.nKey = s.nKey) : s'.NewTable hashes loose where
  slot := by
    intro n i nId hslot
    rw [hnew] at hslot
    obtain ⟨hn, info, hfind, hi⟩ := h.slot hslot
    refine ⟨hn, _, hmaps.find hfind, ?_⟩
    rw [hi, hkey]
    unfold CAddrInfo.getBucketPosition
    rw [(hsame hfind).service]
  count := by
    intro nId info' hfind'
    obtain ⟨info, hfind, hinfo⟩ := hmaps.exists_find hfind'
    rw [← hinfo, (hsame hfind).refCount, newBuckets_congr (hsame hfind).service hnew hkey]
    exact h.count hfind
  bound := by
    intro nId info' hfind'
    obtain ⟨info, hfind, hinfo⟩ := hmaps.exists_find hfind'
    rw [← hinfo, (hsame hfind).refCount]
    exact h.bound hfind
  tried := by
    intro nId info' hfind' htried
    obtain ⟨info, hfind, hinfo⟩ := hmaps.exists_find hfind'
    rw [← hinfo, (hsame hfind).inTried] at htried
    rw [← hinfo, (hsame hfind).refCount]
    exact h.tried hfind htried
  held := by
    intro nId info' hfind' hnot hloose
    obtain ⟨info, hfind, hinfo⟩ := hmaps.exists_find hfind'
    rw [← hinfo, (hsame hfind).inTried] at hnot
    rw [← hinfo, (hsame hfind).refCount]
    exact h.held hfind hnot hloose

theorem TriedTable.congr (h : s.TriedTable hashes) (hmaps : Maps g s s')
    (hservice : ∀ {nId info}, s.mapInfo.find? nId = some info →
      (g nId info).toCService = info.toCService)
    (hinTried : ∀ {nId info}, s.mapInfo.find? nId = some info →
      (g nId info).fInTried = info.fInTried)
    (htried : s'.vvTried = s.vvTried) (hkey : s'.nKey = s.nKey) : s'.TriedTable hashes where
  slot := by
    intro n i nId hslot
    rw [htried] at hslot
    obtain ⟨info, hfind, hin, hn, hi⟩ := h.slot hslot
    refine ⟨_, hmaps.find hfind, by rw [hinTried hfind, hin], ?_, ?_⟩
    · rw [hn, hkey]
      unfold CAddrInfo.getTriedBucket
      rw [← hservice hfind]
    · rw [hi, hkey]
      unfold CAddrInfo.getBucketPosition
      rw [← hservice hfind]
  held := by
    intro nId info' hfind' hin
    obtain ⟨info, hfind, hinfo⟩ := hmaps.exists_find hfind'
    rw [← hinfo, hinTried hfind] at hin
    have hheld := h.held hfind hin
    rw [← hinfo, htried, hkey]
    unfold CAddrInfo.getTriedBucket CAddrInfo.getBucketPosition at hheld ⊢
    rw [← hservice hfind] at hheld
    exact hheld

theorem Counted.congr (h : s.Counted uncounted) (hmaps : Maps g s s')
    (hinTried : ∀ {nId info}, s.mapInfo.find? nId = some info →
      (g nId info).fInTried = info.fInTried)
    (hcount : s'.nIdCount = s.nIdCount) (htried : s'.nTried = s.nTried)
    (hnew : s'.nNew = s.nNew) : s'.Counted uncounted := by
  have hentries : ∀ nId, s'.isTried nId = s.isTried nId ∧ s'.isNew nId = s.isNew nId := by
    intro nId
    unfold isTried isNew
    rw [hmaps nId]
    cases hfind : s.mapInfo.find? nId with
    | none => exact ⟨rfl, rfl⟩
    | some info =>
        show (g nId info).fInTried = info.fInTried ∧
          (!(g nId info).fInTried) = !info.fInTried
        rw [hinTried hfind]
        exact ⟨rfl, rfl⟩
  constructor
  · rw [htried, hcount, h.tried]
    exact congrArg _ (count_congr fun nId _ => by rw [(hentries nId).1])
  · rw [hnew, hcount, h.new]
    exact congrArg _ (count_congr fun nId _ => by rw [(hentries nId).2])

theorem Timed.congr (h : s.Timed) (hmaps : Maps g s s')
    (hsame : ∀ {nId info}, s.mapInfo.find? nId = some info →
      (g nId info).nLastTry = info.nLastTry ∧
        (g nId info).nLastSuccess = info.nLastSuccess ∧
        (g nId info).fInTried = info.fInTried) : s'.Timed := by
  constructor
  intro nId info' hfind'
  obtain ⟨info, hfind, hinfo⟩ := hmaps.exists_find hfind'
  obtain ⟨htry, hsuccess, hinTried⟩ := hsame hfind
  have htimed := h.entry hfind
  rw [← hinfo]
  refine ⟨?_, ?_, fun hin => ?_⟩
  · rw [htry]
    exact htimed.lastTry
  · rw [hsuccess]
    exact htimed.lastSuccess
  · rw [hinTried] at hin
    rw [hsuccess]
    exact htimed.tried hin

theorem Indexed.congr [DecidableEq CNetAddr] (h : s.Indexed) (hmaps : Maps g s s')
    (hsame : ∀ {nId info}, s.mapInfo.find? nId = some info →
      (g nId info).ip = info.ip ∧ (g nId info).nRandomPos = info.nRandomPos)
    (hcount : s'.nIdCount = s.nIdCount) (haddr : s'.mapAddr = s.mapAddr)
    (hrandom : s'.vRandom = s.vRandom) : s'.Indexed where
  fresh := by
    intro nId info' hfind'
    obtain ⟨info, hfind, _⟩ := hmaps.exists_find hfind'
    rw [hcount]
    exact h.fresh hfind
  address := by
    intro nId info' hfind'
    obtain ⟨info, hfind, hinfo⟩ := hmaps.exists_find hfind'
    rw [← hinfo, (hsame hfind).1, haddr]
    exact h.address hfind
  entry := by
    intro addr nId hfind'
    rw [haddr] at hfind'
    obtain ⟨info, hfind, hip⟩ := h.entry hfind'
    exact ⟨_, hmaps.find hfind, by rw [(hsame hfind).1, hip]⟩
  place := by
    intro nId info' hfind'
    obtain ⟨info, hfind, hinfo⟩ := hmaps.exists_find hfind'
    rw [← hinfo, (hsame hfind).2, hrandom]
    exact h.place hfind
  random := by
    intro k nId hk
    rw [hrandom] at hk
    obtain ⟨info, hfind, hpos⟩ := h.random hk
    exact ⟨_, hmaps.find hfind, by rw [(hsame hfind).2, hpos]⟩

/-! ## The random order -/

/-- Each entry is in one place of the random order. -/
theorem Indexed.random_inj [DecidableEq CNetAddr] (h : s.Indexed) {i j nId : Nat}
    (hi : s.vRandom[i]? = some nId) (hj : s.vRandom[j]? = some nId) : i = j := by
  obtain ⟨info, hfind, hpos⟩ := h.random hi
  obtain ⟨info', hfind', hpos'⟩ := h.random hj
  rw [hfind] at hfind'
  cases hfind'
  rw [hpos] at hpos'
  exact Int.ofNat_inj.mp hpos'

/-- Where a place goes when two places are swapped. -/
def swapPlaces (i j k : Nat) : Nat := if k = i then j else if k = j then i else k

theorem getElem?_swap {l : List Nat} {i j : Nat} {a b : Nat} (hi : l[i]? = some a)
    (hj : l[j]? = some b) (k : Nat) :
    ((l.set i b).set j a)[k]? = l[swapPlaces i j k]? := by
  have hi' : i < l.length := (List.getElem?_eq_some_iff.mp hi).1
  have hj' : j < l.length := (List.getElem?_eq_some_iff.mp hj).1
  unfold swapPlaces
  rw [List.getElem?_set, List.getElem?_set, List.length_set]
  by_cases hkj : k = j
  · rw [if_pos hkj.symm, if_pos (hkj ▸ hj')]
    by_cases hki : k = i
    · rw [if_pos hki, ← hkj, hki, hi]
    · rw [if_neg hki, if_pos hkj, hi]
  · rw [if_neg fun h => hkj h.symm]
    by_cases hki : k = i
    · rw [if_pos hki.symm, if_pos (hki ▸ hi'), if_pos hki, hj]
    · rw [if_neg fun h => hki h.symm, if_neg hki, if_neg hkj]

theorem swapPlaces_swapPlaces (i j k : Nat) : swapPlaces i j (swapPlaces i j k) = k := by
  unfold swapPlaces
  split_ifs <;> omega

/-- What an entry has when its place changes. -/
def movePlace (i j : Nat) (info : CAddrInfo CNetAddr) : CAddrInfo CNetAddr :=
  { info with nRandomPos := swapPlaces i j info.nRandomPos.toNat }

/-- Entries whose places are swapped are indexed by the swapped order. -/
theorem Indexed.swap [DecidableEq CNetAddr] (h : s.Indexed) {i j : Nat}
    (hmaps : Maps (fun _ => movePlace i j) s s')
    (hrandom : ∀ k, s'.vRandom[k]? = s.vRandom[swapPlaces i j k]?)
    (hcount : s'.nIdCount = s.nIdCount) (haddr : s'.mapAddr = s.mapAddr) : s'.Indexed where
  fresh := by
    intro nId info' hfind'
    obtain ⟨info, hfind, _⟩ := hmaps.exists_find hfind'
    rw [hcount]
    exact h.fresh hfind
  address := by
    intro nId info' hfind'
    obtain ⟨info, hfind, hinfo⟩ := hmaps.exists_find hfind'
    rw [← hinfo, haddr]
    show s.mapAddr.find? info.ip = some nId
    exact h.address hfind
  entry := by
    intro addr nId hfind'
    rw [haddr] at hfind'
    obtain ⟨info, hfind, hip⟩ := h.entry hfind'
    exact ⟨_, hmaps.find hfind, hip⟩
  place := by
    intro nId info' hfind'
    obtain ⟨info, hfind, hinfo⟩ := hmaps.exists_find hfind'
    obtain ⟨k, hpos, hk⟩ := h.place hfind
    refine ⟨swapPlaces i j k, ?_, ?_⟩
    · rw [← hinfo]
      show ((swapPlaces i j info.nRandomPos.toNat : Nat) : Int) = _
      rw [hpos, Int.toNat_natCast]
    · rw [hrandom, swapPlaces_swapPlaces]
      exact hk
  random := by
    intro k nId hk
    rw [hrandom] at hk
    obtain ⟨info, hfind, hpos⟩ := h.random hk
    refine ⟨_, hmaps.find hfind, ?_⟩
    show ((swapPlaces i j info.nRandomPos.toNat : Nat) : Int) = _
    rw [hpos, Int.toNat_natCast, swapPlaces_swapPlaces]

theorem movePlace_eq {i j k : Nat} {info : CAddrInfo CNetAddr} (hpos : info.nRandomPos = k) :
    movePlace i j info = { info with nRandomPos := swapPlaces i j k } := by
  unfold movePlace
  rw [hpos, Int.toNat_natCast]

/-- Two places of the random order are swapped. -/
structure Swapped (i j : Nat) (s s' : CAddrMan CNetAddr) : Prop where
  maps : Maps (fun _ => movePlace i j) s s'
  random : ∀ k, s'.vRandom[k]? = s.vRandom[swapPlaces i j k]?
  length : s'.vRandom.length = s.vRandom.length
  fields : s' = { s with mapInfo := s'.mapInfo, vRandom := s'.vRandom }

/-- A swap in the random order succeeds, and moves the places of the entries. -/
theorem Indexed.swapRandom [DecidableEq CNetAddr] (h : s.Indexed) {i j : Nat}
    (hi : i < s.vRandom.length) (hj : j < s.vRandom.length) :
    ∃ s', s.swapRandom i j = some s' ∧ s'.Indexed ∧ Swapped i j s s' := by
  unfold CAddrMan.swapRandom
  by_cases heq : i = j
  · rw [if_pos heq]
    have hsame : ∀ k, swapPlaces i j k = k := by
      intro k
      unfold swapPlaces
      split_ifs <;> omega
    have hmaps : Maps (fun _ => movePlace i j) s s := by
      intro nId
      show _ = (s.mapInfo.find? nId).map (movePlace i j)
      cases hfind : s.mapInfo.find? nId with
      | none => rfl
      | some info =>
          obtain ⟨k, hpos, _⟩ := h.place hfind
          rw [Option.map_some, movePlace_eq hpos, hsame, ← hpos]
    exact ⟨s, rfl, h, hmaps, fun k => by rw [hsame], rfl, rfl⟩
  · rw [if_neg heq]
    obtain ⟨nId1, hnId1⟩ : ∃ nId, s.vRandom[i]? = some nId :=
      ⟨_, List.getElem?_eq_getElem hi⟩
    obtain ⟨nId2, hnId2⟩ : ∃ nId, s.vRandom[j]? = some nId :=
      ⟨_, List.getElem?_eq_getElem hj⟩
    obtain ⟨info1, hfind1, hpos1⟩ := h.random hnId1
    obtain ⟨info2, hfind2, hpos2⟩ := h.random hnId2
    have hne : nId2 ≠ nId1 := fun hid => heq (h.random_inj hnId1 (hid ▸ hnId2))
    rw [hnId1, hnId2]
    simp only [hfind1, hfind2, Option.isSome_some, and_self, if_true]
    have hmaps : Maps (fun _ => movePlace i j) s
        ((s.modifyInfo nId1 fun info => { info with nRandomPos := (j : Int) }).modifyInfo nId2
          fun info => { info with nRandomPos := (i : Int) }) := by
      intro nId
      show _ = (s.mapInfo.find? nId).map (movePlace i j)
      rw [find?_modifyInfo, find?_modifyInfo, find?_modifyInfo, if_neg hne]
      by_cases hid2 : nId = nId2
      · rw [if_pos hid2, hid2, hfind2, Option.map_some, Option.map_some, movePlace_eq hpos2]
        unfold swapPlaces
        rw [if_neg fun h => heq h.symm, if_pos rfl]
      · rw [if_neg hid2]
        by_cases hid1 : nId = nId1
        · rw [if_pos hid1, hid1, hfind1, Option.map_some, Option.map_some, movePlace_eq hpos1]
          unfold swapPlaces
          rw [if_pos rfl]
        · rw [if_neg hid1]
          cases hfind : s.mapInfo.find? nId with
          | none => rfl
          | some info =>
              obtain ⟨k, hpos, hk⟩ := h.place hfind
              have hki : k ≠ i := fun hki => hid1 (by
                rw [hki, hnId1] at hk
                exact (Option.some.inj hk).symm)
              have hkj : k ≠ j := fun hkj => hid2 (by
                rw [hkj, hnId2] at hk
                exact (Option.some.inj hk).symm)
              rw [Option.map_some, movePlace_eq hpos]
              unfold swapPlaces
              rw [if_neg hki, if_neg hkj, ← hpos]
    have hrandom := getElem?_swap hnId1 hnId2
    have hlength : ((s.vRandom.set i nId2).set j nId1).length = s.vRandom.length := by
      rw [List.length_set, List.length_set]
    exact ⟨_, rfl, h.swap hmaps hrandom rfl rfl, hmaps, hrandom, hlength, rfl⟩

/-! ## An entry goes -/

/-- The entries of the second are those of the first but for one. -/
def Drops (nId : Nat) (s s' : CAddrMan CNetAddr) : Prop :=
  ∀ nId', s'.mapInfo.find? nId' = if nId' = nId then none else s.mapInfo.find? nId'

theorem Drops.find {nId nId' : Nat} (h : Drops nId s s') {info : CAddrInfo CNetAddr}
    (hfind : s'.mapInfo.find? nId' = some info) :
    nId' ≠ nId ∧ s.mapInfo.find? nId' = some info := by
  rw [h nId'] at hfind
  by_cases heq : nId' = nId
  · rw [if_pos heq] at hfind
    cases hfind
  · rw [if_neg heq] at hfind
    exact ⟨heq, hfind⟩

theorem Drops.keeps {nId nId' : Nat} (h : Drops nId s s') (hne : nId' ≠ nId) :
    s'.mapInfo.find? nId' = s.mapInfo.find? nId' := by
  rw [h nId', if_neg hne]

variable {nId : Nat} {info : CAddrInfo CNetAddr}

theorem Indexed.erase [DecidableEq CNetAddr] (h : s.Indexed)
    (hfind : s.mapInfo.find? nId = some info)
    (hlast : s.vRandom[s.vRandom.length - 1]? = some nId) (hdrops : Drops nId s s')
    (hcount : s'.nIdCount = s.nIdCount) (haddr : s'.mapAddr = s.mapAddr.erase info.ip)
    (hrandom : s'.vRandom = s.vRandom.dropLast) : s'.Indexed where
  fresh := by
    intro nId' info' hfind'
    rw [hcount]
    exact h.fresh (hdrops.find hfind').2
  address := by
    intro nId' info' hfind'
    obtain ⟨hne, hfind''⟩ := hdrops.find hfind'
    have hip : info'.ip ≠ info.ip := by
      intro hip
      have hsame := h.address hfind''
      rw [hip, h.address hfind] at hsame
      exact hne (Option.some.inj hsame).symm
    rw [haddr, KeyedMap.find?_erase_ne _ hip]
    exact h.address hfind''
  entry := by
    intro addr nId' haddr'
    rw [haddr, KeyedMap.find?_erase] at haddr'
    by_cases hip : addr = info.ip
    · rw [if_pos hip] at haddr'
      cases haddr'
    · rw [if_neg hip] at haddr'
      obtain ⟨info', hfind', hip'⟩ := h.entry haddr'
      have hne : nId' ≠ nId := by
        intro heq
        rw [heq, hfind] at hfind'
        cases hfind'
        exact hip hip'.symm
      exact ⟨info', by rw [hdrops.keeps hne, hfind'], hip'⟩
  place := by
    intro nId' info' hfind'
    obtain ⟨hne, hfind''⟩ := hdrops.find hfind'
    obtain ⟨k, hpos, hk⟩ := h.place hfind''
    have hlt : k < s.vRandom.length := (List.getElem?_eq_some_iff.mp hk).1
    have hk' : k ≠ s.vRandom.length - 1 := by
      intro heq
      rw [heq, hlast] at hk
      exact hne (Option.some.inj hk).symm
    refine ⟨k, hpos, ?_⟩
    rw [hrandom, List.getElem?_dropLast, if_pos (by omega)]
    exact hk
  random := by
    intro k nId' hk
    rw [hrandom, List.getElem?_dropLast] at hk
    by_cases hlt : k < s.vRandom.length - 1
    · rw [if_pos hlt] at hk
      obtain ⟨info', hfind', hpos⟩ := h.random hk
      have hne : nId' ≠ nId := by
        intro heq
        have hsame := h.random_inj (heq ▸ hk) hlast
        omega
      exact ⟨info', by rw [hdrops.keeps hne, hfind'], hpos⟩
    · rw [if_neg hlt] at hk
      cases hk

/-- An entry that is counted in no bucket is in none. -/
theorem NewTable.not_mem (h : s.NewTable hashes loose) (hfind : s.mapInfo.find? nId = some info)
    (hzero : info.nRefCount = 0) (n i : Nat) : s.vvNew n i ≠ some nId := by
  intro hslot
  obtain ⟨hn, info', hfind', hi⟩ := h.slot hslot
  rw [hfind] at hfind'
  cases hfind'
  have hcount := h.count hfind
  rw [hzero] at hcount
  have hnone := Nat.count_iff_forall_not.mp (Int.ofNat_inj.mp hcount).symm n hn
  exact hnone (hi ▸ hslot)

theorem NewTable.erase (h : s.NewTable hashes loose) (hfind : s.mapInfo.find? nId = some info)
    (hzero : info.nRefCount = 0) (hdrops : Drops nId s s') (hnew : s'.vvNew = s.vvNew)
    (hkey : s'.nKey = s.nKey) :
    s'.NewTable hashes fun nId' => loose nId' ∧ nId' ≠ nId where
  slot := by
    intro n i nId' hslot
    rw [hnew] at hslot
    obtain ⟨hn, info', hfind', hi⟩ := h.slot hslot
    have hne : nId' ≠ nId := fun heq => h.not_mem hfind hzero n i (heq ▸ hslot)
    exact ⟨hn, info', by rw [hdrops.keeps hne, hfind'], by rw [hi, hkey]⟩
  count := by
    intro nId' info' hfind'
    rw [newBuckets_congr rfl hnew hkey]
    exact h.count (hdrops.find hfind').2
  bound := fun hfind' => h.bound (hdrops.find hfind').2
  tried := fun hfind' => h.tried (hdrops.find hfind').2
  held := by
    intro nId' info' hfind' hnot hloose
    obtain ⟨hne, hfind''⟩ := hdrops.find hfind'
    exact h.held hfind'' hnot fun hl => hloose ⟨hl, hne⟩

theorem TriedTable.erase (h : s.TriedTable hashes) (hfind : s.mapInfo.find? nId = some info)
    (hnot : info.fInTried = false) (hdrops : Drops nId s s') (htried : s'.vvTried = s.vvTried)
    (hkey : s'.nKey = s.nKey) : s'.TriedTable hashes where
  slot := by
    intro n i nId' hslot
    rw [htried] at hslot
    obtain ⟨info', hfind', hin, hn, hi⟩ := h.slot hslot
    have hne : nId' ≠ nId := by
      intro heq
      rw [heq, hfind] at hfind'
      cases hfind'
      rw [hnot] at hin
      cases hin
    exact ⟨info', by rw [hdrops.keeps hne, hfind'], hin, by rw [hn, hkey], by rw [hi, hkey]⟩
  held := by
    intro nId' info' hfind' hin
    rw [htried, hkey]
    exact h.held (hdrops.find hfind').2 hin

theorem Counted.erase (h : s.Counted uncounted) (hfind : s.mapInfo.find? nId = some info)
    (hlt : nId < s.nIdCount) (hnot : info.fInTried = false) (hdrops : Drops nId s s')
    (hcount : s'.nIdCount = s.nIdCount) (htried : s'.nTried = s.nTried)
    (hnew : s'.nNew = s.nNew - 1) : s'.Counted uncounted := by
  have hold : s.isTried nId = false ∧ s.isNew nId = true := by
    unfold isTried isNew
    rw [hfind]
    show info.fInTried = false ∧ (!info.fInTried) = true
    rw [hnot]
    exact ⟨rfl, rfl⟩
  have hgone : s'.isTried nId = false ∧ s'.isNew nId = false := by
    unfold isTried isNew
    rw [hdrops nId, if_pos rfl]
    exact ⟨rfl, rfl⟩
  have hkept : ∀ nId' ≠ nId, s'.isTried nId' = s.isTried nId' ∧ s'.isNew nId' = s.isNew nId' := by
    intro nId' hne
    unfold isTried isNew
    rw [hdrops.keeps hne]
    exact ⟨rfl, rfl⟩
  constructor
  · rw [htried, hcount, h.tried]
    refine congrArg _ (count_congr fun nId' _ => ?_)
    by_cases heq : nId' = nId
    · rw [heq, hold.1, hgone.1]
    · rw [(hkept nId' heq).1]
  · have hsucc := count_eq_succ (p := fun nId' => s.isNew nId' = true)
      (q := fun nId' => s'.isNew nId' = true) hlt hold.2 (by rw [hgone.2]; decide)
      fun nId' _ hne => by rw [(hkept nId' hne).2]
    have hall := h.new
    rw [hnew, hcount]
    omega

theorem Timed.erase (h : s.Timed) (hdrops : Drops nId s s') : s'.Timed where
  entry := fun hfind => h.entry (hdrops.find hfind).2

end CAddrMan

end Agrarian.Net
