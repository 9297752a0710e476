import Agrarian.Net.AddrManCheck

/-!
# One change of a table of the address manager

A slot of a table is written or cleared, and the entry whose number is in it
changes with it; or an entry comes that is in no slot yet.
-/

namespace Agrarian.Net

open Agrarian.Lib

namespace CAddrMan

variable {CNetAddr : Type}
variable {hashes : AddrHashes CNetAddr} {s s' : CAddrMan CNetAddr}
variable {loose : Nat → Prop} {uncounted : Nat}

/-! ## References in the tables -/

theorem getNewBucket_lt (hashes : AddrHashes CNetAddr) (nKey : Uint256)
    (info : CAddrInfo CNetAddr) (src : CNetAddr) :
    info.getNewBucket hashes nKey src < ADDRMAN_NEW_BUCKET_COUNT :=
  Nat.mod_lt _ (by decide)

theorem NewTable.mono {loose' : Nat → Prop} (h : s.NewTable hashes loose)
    (hloose : ∀ {nId info}, s.mapInfo.find? nId = some info → loose nId →
      info.fInTried = false → loose' nId ∨ 0 < info.nRefCount) :
    s.NewTable hashes loose' where
  slot := h.slot
  count := h.count
  bound := h.bound
  tried := h.tried
  held := by
    intro nId info hfind hnot hnew
    by_cases hold : loose nId
    · exact (hloose hfind hold hnot).resolve_left hnew
    · exact h.held hfind hnot hold

/-- What is in a slot of the new table has a reference, and is not tried. -/
theorem NewTable.refCount_pos (h : s.NewTable hashes loose) {n i nId : Nat}
    {info : CAddrInfo CNetAddr} (hslot : s.vvNew n i = some nId)
    (hfind : s.mapInfo.find? nId = some info) : 0 < info.nRefCount ∧ info.fInTried = false := by
  have hne : info.nRefCount ≠ 0 := fun hzero => h.not_mem hfind hzero n i hslot
  have hcount := h.count hfind
  refine ⟨by omega, ?_⟩
  by_contra htried
  exact hne (h.tried hfind (Bool.eq_true_of_not_eq_false htried))

/-- The second table lacks one entry of the first. -/
structure Lacks (n i nId : Nat) (table table' : Nat → Nat → Option Nat) : Prop where
  held : table n i = some nId
  empty : table' n i = none
  other : ∀ {m j}, ¬ (m = n ∧ j = i) → table' m j = table m j

theorem lacks_cleared {table : Nat → Nat → Option Nat} {n i nId : Nat}
    (hslot : table n i = some nId) : Lacks n i nId table (setSlot table n i none) where
  held := hslot
  empty := if_pos ⟨rfl, rfl⟩
  other := fun hne => if_neg hne

theorem lacks_written {table : Nat → Nat → Option Nat} {n i : Nat} (nId : Nat)
    (hslot : table n i = none) : Lacks n i nId (setSlot table n i (some nId)) table where
  held := if_pos ⟨rfl, rfl⟩
  empty := hslot
  other := fun hne => (if_neg hne).symm

theorem Lacks.iff {n i nId : Nat} {table table' : Nat → Nat → Option Nat}
    (h : Lacks n i nId table table') (m j nId' : Nat) :
    table' m j = some nId' ↔ table m j = some nId' ∧ ¬ (m = n ∧ j = i) := by
  by_cases heq : m = n ∧ j = i
  · rw [heq.1, heq.2, h.empty]
    exact ⟨fun hnone => (by cases hnone), fun hmem => absurd ⟨rfl, rfl⟩ hmem.2⟩
  · rw [h.other heq]
    exact ⟨fun hmem => ⟨hmem, heq⟩, fun hmem => hmem.1⟩

theorem newBuckets_of_ne {n i nId nId' : Nat} {info info' : CAddrInfo CNetAddr}
    (h : Lacks n i nId s.vvNew s'.vvNew) (hservice : info'.toCService = info.toCService)
    (hkey : s'.nKey = s.nKey) (hne : nId' ≠ nId) :
    s'.newBuckets hashes nId' info' = s.newBuckets hashes nId' info := by
  unfold newBuckets CAddrInfo.getBucketPosition
  rw [hservice, hkey]
  refine count_congr fun m _ => ?_
  rw [h.iff]
  refine ⟨fun hmem => hmem.1, fun hmem => ⟨hmem, ?_⟩⟩
  rintro ⟨hm, hj⟩
  rw [hj, hm, h.held] at hmem
  exact hne (Option.some.inj hmem).symm

theorem newBuckets_of_eq {n i nId : Nat} {info info' : CAddrInfo CNetAddr}
    (h : Lacks n i nId s.vvNew s'.vvNew) (hservice : info'.toCService = info.toCService)
    (hkey : s'.nKey = s.nKey) (hn : n < ADDRMAN_NEW_BUCKET_COUNT)
    (hi : i = info.getBucketPosition hashes s.nKey true n) :
    s.newBuckets hashes nId info = s'.newBuckets hashes nId info' + 1 := by
  unfold newBuckets CAddrInfo.getBucketPosition
  unfold CAddrInfo.getBucketPosition at hi
  rw [hservice, hkey]
  refine count_eq_succ hn ?_ ?_ fun m _ hm => ?_
  · rw [← hi]
    exact h.held
  · rw [← hi, h.empty]
    exact fun hnone => by cases hnone
  · rw [h.iff]
    exact ⟨fun hmem => ⟨hmem, fun heq => hm heq.1⟩, fun hmem => hmem.1⟩

/-- The entry has `d` references more. -/
structure Recounts (d : Int) (f : CAddrInfo CNetAddr → CAddrInfo CNetAddr) : Prop where
  service : ∀ info, (f info).toCService = info.toCService
  refCount : ∀ info, (f info).nRefCount = info.nRefCount + d
  inTried : ∀ info, (f info).fInTried = info.fInTried

section References

variable {n i nId : Nat} {info : CAddrInfo CNetAddr}
variable {f : CAddrInfo CNetAddr → CAddrInfo CNetAddr}

theorem NewTable.loses (h : s.NewTable hashes loose) (hf : Recounts (-1) f)
    (hmaps : Maps (changeAt nId f) s s') (hlacks : Lacks n i nId s.vvNew s'.vvNew)
    (hkey : s'.nKey = s.nKey) :
    s'.NewTable hashes fun nId' => loose nId' ∨ nId' = nId where
  slot := by
    intro m j nId' hslot
    obtain ⟨hm, info', hfind', hj⟩ := h.slot ((hlacks.iff m j nId').mp hslot).1
    refine ⟨hm, _, hmaps.find hfind', ?_⟩
    rw [hj, hkey]
    unfold CAddrInfo.getBucketPosition
    rw [changeAt_field (fun info => info.toCService) hf.service]
  count := by
    intro nId' info' hfind'
    obtain ⟨info, hfind, hinfo⟩ := hmaps.exists_find hfind'
    by_cases heq : nId' = nId
    · rw [heq, changeAt_self] at hinfo
      rw [heq] at hfind ⊢
      obtain ⟨hn, info'', hfind'', hi⟩ := h.slot hlacks.held
      rw [hfind] at hfind''
      cases hfind''
      have hbuckets := newBuckets_of_eq hlacks (hf.service info) hkey hn hi
      have hcount := h.count hfind
      rw [← hinfo, hf.refCount]
      omega
    · rw [changeAt_of_ne heq] at hinfo
      rw [← hinfo, newBuckets_of_ne hlacks rfl hkey heq]
      exact h.count hfind
  bound := by
    intro nId' info' hfind'
    obtain ⟨info, hfind, hinfo⟩ := hmaps.exists_find hfind'
    have hbound := h.bound hfind
    by_cases heq : nId' = nId
    · rw [← hinfo, heq, changeAt_self, hf.refCount]
      omega
    · rw [← hinfo, changeAt_of_ne heq]
      exact hbound
  tried := by
    intro nId' info' hfind' htried
    obtain ⟨info, hfind, hinfo⟩ := hmaps.exists_find hfind'
    rw [← hinfo, changeAt_field (fun info => info.fInTried) hf.inTried] at htried
    by_cases heq : nId' = nId
    · -- an entry that is in the new table is not tried
      rw [heq] at hfind
      have hpos := h.refCount_pos hlacks.held hfind
      rw [hpos.2] at htried
      cases htried
    · rw [← hinfo, changeAt_of_ne heq]
      exact h.tried hfind htried
  held := by
    intro nId' info' hfind' hnot hloose
    obtain ⟨info, hfind, hinfo⟩ := hmaps.exists_find hfind'
    have hne : nId' ≠ nId := fun heq => hloose (Or.inr heq)
    rw [changeAt_of_ne hne] at hinfo
    rw [← hinfo] at hnot ⊢
    exact h.held hfind hnot fun hl => hloose (Or.inl hl)

theorem NewTable.gains (h : s.NewTable hashes loose) (hf : Recounts 1 f)
    (hmaps : Maps (changeAt nId f) s s') (hlacks : Lacks n i nId s'.vvNew s.vvNew)
    (hkey : s'.nKey = s.nKey) (hfind : s.mapInfo.find? nId = some info)
    (hnot : info.fInTried = false) (hn : n < ADDRMAN_NEW_BUCKET_COUNT)
    (hi : i = info.getBucketPosition hashes s.nKey true n)
    (hlt : info.nRefCount < ADDRMAN_NEW_BUCKETS_PER_ADDRESS) :
    s'.NewTable hashes fun nId' => loose nId' ∧ nId' ≠ nId where
  slot := by
    intro m j nId' hslot
    have hposition : ∀ nId' info', CAddrInfo.getBucketPosition hashes s.nKey
        (changeAt nId f nId' info') true m = info'.getBucketPosition hashes s.nKey true m := by
      intro nId' info'
      unfold CAddrInfo.getBucketPosition
      rw [changeAt_field (fun info => info.toCService) hf.service]
    rw [hkey]
    by_cases heq : m = n ∧ j = i
    · rw [heq.1, heq.2, hlacks.held] at hslot
      cases hslot
      exact ⟨heq.1 ▸ hn, _, hmaps.find hfind, by rw [hposition, heq.2, heq.1, hi]⟩
    · obtain ⟨hm, info', hfind', hj⟩ :=
        h.slot ((hlacks.iff m j nId').mpr ⟨hslot, heq⟩)
      exact ⟨hm, _, hmaps.find hfind', by rw [hposition, hj]⟩
  count := by
    intro nId' info' hfind'
    obtain ⟨info₀, hfind₀, hinfo⟩ := hmaps.exists_find hfind'
    by_cases heq : nId' = nId
    · rw [heq, hfind] at hfind₀
      cases hfind₀
      rw [heq, changeAt_self] at hinfo
      rw [heq, ← hinfo, hf.refCount]
      have hi' : i = (f info).getBucketPosition hashes s'.nKey true n := by
        rw [hi, hkey]
        unfold CAddrInfo.getBucketPosition
        rw [hf.service]
      have hbuckets := newBuckets_of_eq hlacks (hf.service info).symm hkey.symm hn hi'
      have hcount := h.count hfind
      omega
    · rw [changeAt_of_ne heq] at hinfo
      have hbuckets : s.newBuckets hashes nId' info₀ = s'.newBuckets hashes nId' info₀ :=
        newBuckets_of_ne hlacks rfl hkey.symm heq
      rw [← hinfo, ← hbuckets]
      exact h.count hfind₀
  bound := by
    intro nId' info' hfind'
    obtain ⟨info₀, hfind₀, hinfo⟩ := hmaps.exists_find hfind'
    by_cases heq : nId' = nId
    · rw [heq, hfind] at hfind₀
      cases hfind₀
      rw [← hinfo, heq, changeAt_self, hf.refCount]
      omega
    · rw [← hinfo, changeAt_of_ne heq]
      exact h.bound hfind₀
  tried := by
    intro nId' info' hfind' htried
    obtain ⟨info₀, hfind₀, hinfo⟩ := hmaps.exists_find hfind'
    rw [← hinfo, changeAt_field (fun info => info.fInTried) hf.inTried] at htried
    have hne : nId' ≠ nId := by
      intro heq
      rw [heq, hfind] at hfind₀
      cases hfind₀
      rw [hnot] at htried
      cases htried
    rw [← hinfo, changeAt_of_ne hne]
    exact h.tried hfind₀ htried
  held := by
    intro nId' info' hfind' hnot' hloose
    obtain ⟨info₀, hfind₀, hinfo⟩ := hmaps.exists_find hfind'
    by_cases heq : nId' = nId
    · rw [heq, hfind] at hfind₀
      cases hfind₀
      rw [← hinfo, heq, changeAt_self, hf.refCount]
      have hcount := h.count hfind
      omega
    · rw [changeAt_of_ne heq] at hinfo
      rw [← hinfo] at hnot' ⊢
      exact h.held hfind₀ hnot' fun hl => hloose ⟨hl, heq⟩

/-- An entry that is in no bucket moves to the tried table, or back from it. -/
theorem NewTable.retag {loose' : Nat → Prop} (h : s.NewTable hashes loose)
    (hmaps : Maps (changeAt nId f) s s')
    (hservice : ∀ info, (f info).toCService = info.toCService)
    (hrefCount : ∀ info, (f info).nRefCount = info.nRefCount)
    (hnew : s'.vvNew = s.vvNew) (hkey : s'.nKey = s.nKey)
    (hfind : s.mapInfo.find? nId = some info) (hzero : info.nRefCount = 0)
    (htag : (f info).fInTried = false → loose' nId)
    (hloose : ∀ nId' ≠ nId, loose nId' → loose' nId') : s'.NewTable hashes loose' where
  slot := by
    intro n i nId' hslot
    rw [hnew] at hslot
    obtain ⟨hn, info', hfind', hi⟩ := h.slot hslot
    refine ⟨hn, _, hmaps.find hfind', ?_⟩
    rw [hi, hkey]
    unfold CAddrInfo.getBucketPosition
    rw [changeAt_field (fun info => info.toCService) hservice]
  count := by
    intro nId' info' hfind'
    obtain ⟨info₀, hfind₀, hinfo⟩ := hmaps.exists_find hfind'
    rw [← hinfo, changeAt_field (fun info => info.nRefCount) hrefCount,
      newBuckets_congr (changeAt_field (fun info => info.toCService) hservice _ _ _) hnew hkey]
    exact h.count hfind₀
  bound := by
    intro nId' info' hfind'
    obtain ⟨info₀, hfind₀, hinfo⟩ := hmaps.exists_find hfind'
    rw [← hinfo, changeAt_field (fun info => info.nRefCount) hrefCount]
    exact h.bound hfind₀
  tried := by
    intro nId' info' hfind' htried
    obtain ⟨info₀, hfind₀, hinfo⟩ := hmaps.exists_find hfind'
    by_cases heq : nId' = nId
    · rw [heq, hfind] at hfind₀
      cases hfind₀
      rw [← hinfo, changeAt_field (fun info => info.nRefCount) hrefCount, hzero]
    · rw [changeAt_of_ne heq] at hinfo
      rw [← hinfo] at htried ⊢
      exact h.tried hfind₀ htried
  held := by
    intro nId' info' hfind' hnot hnew'
    obtain ⟨info₀, hfind₀, hinfo⟩ := hmaps.exists_find hfind'
    by_cases heq : nId' = nId
    · rw [heq, hfind] at hfind₀
      cases hfind₀
      rw [← hinfo, heq, changeAt_self] at hnot
      exact absurd (heq ▸ htag hnot) hnew'
    · rw [changeAt_of_ne heq] at hinfo
      rw [← hinfo] at hnot ⊢
      exact h.held hfind₀ hnot fun hl => hnew' (hloose nId' heq hl)

theorem TriedTable.loses (h : s.TriedTable hashes) (hmaps : Maps (changeAt nId f) s s')
    (hnot : ∀ info, (f info).fInTried = false) (hlacks : Lacks n i nId s.vvTried s'.vvTried)
    (hkey : s'.nKey = s.nKey) : s'.TriedTable hashes where
  slot := by
    intro m j nId' hslot
    obtain ⟨hslot', hne⟩ := (hlacks.iff m j nId').mp hslot
    obtain ⟨info', hfind', hin, hm, hj⟩ := h.slot hslot'
    have hid : nId' ≠ nId := by
      -- an entry has one place in the table
      intro heq
      obtain ⟨info'', hfind'', _, hn, hi⟩ := h.slot hlacks.held
      rw [heq, hfind''] at hfind'
      cases hfind'
      rw [← hn] at hm
      rw [hm, ← hi] at hj
      exact hne ⟨hm, hj⟩
    refine ⟨info', ?_, hin, by rw [hm, hkey], by rw [hj, hkey]⟩
    rw [hmaps.find hfind', changeAt_of_ne hid]
  held := by
    intro nId' info' hfind' hin
    obtain ⟨info₀, hfind₀, hinfo⟩ := hmaps.exists_find hfind'
    have hid : nId' ≠ nId := by
      intro heq
      rw [← hinfo, heq, changeAt_self, hnot] at hin
      cases hin
    rw [changeAt_of_ne hid] at hinfo
    rw [← hinfo] at hin ⊢
    rw [hkey, hlacks.iff]
    have hheld := h.held hfind₀ hin
    refine ⟨hheld, ?_⟩
    rintro ⟨hn, hi⟩
    rw [hi, hn, hlacks.held] at hheld
    exact hid (Option.some.inj hheld).symm

theorem TriedTable.gains (h : s.TriedTable hashes) (hmaps : Maps (changeAt nId f) s s')
    (hservice : ∀ info, (f info).toCService = info.toCService)
    (hin : ∀ info, (f info).fInTried = true) (hlacks : Lacks n i nId s'.vvTried s.vvTried)
    (hkey : s'.nKey = s.nKey) (hfind : s.mapInfo.find? nId = some info)
    (hnot : info.fInTried = false) (hn : n = info.getTriedBucket hashes s.nKey)
    (hi : i = info.getBucketPosition hashes s.nKey false n) : s'.TriedTable hashes where
  slot := by
    intro m j nId' hslot
    by_cases heq : m = n ∧ j = i
    · rw [heq.1, heq.2, hlacks.held] at hslot
      cases hslot
      refine ⟨_, hmaps.find hfind, ?_, ?_, ?_⟩
      · rw [changeAt_self, hin]
      · rw [heq.1, hn, hkey, changeAt_self]
        unfold CAddrInfo.getTriedBucket
        rw [← hservice info]
      · rw [heq.2, heq.1, hi, hkey, changeAt_self]
        unfold CAddrInfo.getBucketPosition
        rw [hservice]
    · obtain ⟨info', hfind', hin', hm, hj⟩ :=
        h.slot ((hlacks.iff m j nId').mpr ⟨hslot, heq⟩)
      have hid : nId' ≠ nId := by
        intro heq'
        rw [heq', hfind] at hfind'
        cases hfind'
        rw [hnot] at hin'
        cases hin'
      refine ⟨info', ?_, hin', by rw [hm, hkey], by rw [hj, hkey]⟩
      rw [hmaps.find hfind', changeAt_of_ne hid]
  held := by
    intro nId' info' hfind' hin'
    obtain ⟨info₀, hfind₀, hinfo⟩ := hmaps.exists_find hfind'
    by_cases hid : nId' = nId
    · rw [hid, hfind] at hfind₀
      cases hfind₀
      have hbucket : info'.getTriedBucket hashes s'.nKey = n := by
        rw [← hinfo, hid, changeAt_self, hkey, hn]
        unfold CAddrInfo.getTriedBucket
        rw [← hservice info]
      have hposition : info'.getBucketPosition hashes s'.nKey false n = i := by
        rw [← hinfo, hid, changeAt_self, hkey, hi]
        unfold CAddrInfo.getBucketPosition
        rw [hservice]
      rw [hbucket, hposition, hid]
      exact hlacks.held
    · rw [changeAt_of_ne hid] at hinfo
      rw [← hinfo] at hin' ⊢
      rw [hkey]
      exact ((hlacks.iff _ _ _).mp (h.held hfind₀ hin')).1

theorem Timed.change (h : s.Timed) (hmaps : Maps (changeAt nId f) s s')
    (hf : ∀ {info}, s.mapInfo.find? nId = some info → (f info).Timed) : s'.Timed := by
  constructor
  intro nId' info' hfind'
  obtain ⟨info₀, hfind₀, hinfo⟩ := hmaps.exists_find hfind'
  by_cases heq : nId' = nId
  · rw [heq] at hfind₀
    rw [← hinfo, heq, changeAt_self]
    exact hf hfind₀
  · rw [← hinfo, changeAt_of_ne heq]
    exact h.entry hfind₀

end References

/-! ### The counters -/

theorem isTried_of_find {nId : Nat} {info : CAddrInfo CNetAddr}
    (hfind : s.mapInfo.find? nId = some info) : s.isTried nId = info.fInTried := by
  unfold isTried
  rw [hfind]
  rfl

theorem isNew_of_find {nId : Nat} {info : CAddrInfo CNetAddr}
    (hfind : s.mapInfo.find? nId = some info) : s.isNew nId = !info.fInTried := by
  unfold isNew
  rw [hfind]
  rfl

/-- An entry is tried in the first, and new in the second. -/
structure Moves (nId : Nat) (s s' : CAddrMan CNetAddr) : Prop where
  lt : nId < s.nIdCount
  idCount : s'.nIdCount = s.nIdCount
  tried : ∃ info, s.mapInfo.find? nId = some info ∧ info.fInTried = true
  new : ∃ info, s'.mapInfo.find? nId = some info ∧ info.fInTried = false
  other : ∀ nId' ≠ nId, s'.mapInfo.find? nId' = s.mapInfo.find? nId'

theorem Moves.count_tried {nId : Nat} (h : Moves nId s s') :
    Nat.count (fun nId => s.isTried nId = true) s.nIdCount =
      Nat.count (fun nId => s'.isTried nId = true) s'.nIdCount + 1 := by
  obtain ⟨info, hfind, hin⟩ := h.tried
  obtain ⟨info', hfind', hnot⟩ := h.new
  rw [h.idCount]
  refine count_eq_succ h.lt ?_ ?_ fun nId' _ hne => ?_
  · rw [isTried_of_find hfind, hin]
  · rw [isTried_of_find hfind', hnot]
    decide
  · unfold isTried
    rw [h.other nId' hne]

theorem Moves.count_new {nId : Nat} (h : Moves nId s s') :
    Nat.count (fun nId => s'.isNew nId = true) s'.nIdCount =
      Nat.count (fun nId => s.isNew nId = true) s.nIdCount + 1 := by
  obtain ⟨info, hfind, hin⟩ := h.tried
  obtain ⟨info', hfind', hnot⟩ := h.new
  rw [h.idCount]
  refine count_eq_succ h.lt ?_ ?_ fun nId' _ hne => ?_
  · rw [isNew_of_find hfind', hnot]
    rfl
  · rw [isNew_of_find hfind, hin]
    decide
  · unfold isNew
    rw [h.other nId' hne]

theorem Counted.loses {nId : Nat} (h : s.Counted uncounted) (hmoves : Moves nId s s')
    (htried : s'.nTried = s.nTried - 1) (hnew : s'.nNew = s.nNew) :
    s'.Counted (uncounted + 1) := by
  have hcountTried := hmoves.count_tried
  have hcountNew := hmoves.count_new
  have hallTried := h.tried
  have hallNew := h.new
  constructor
  · omega
  · omega

theorem Counted.gains {nId : Nat} (h : s.Counted (uncounted + 1)) (hmoves : Moves nId s' s)
    (htried : s'.nTried = s.nTried + 1) (hnew : s'.nNew = s.nNew) :
    s'.Counted uncounted := by
  have hcountTried := hmoves.count_tried
  have hcountNew := hmoves.count_new
  have hallTried := h.tried
  have hallNew := h.new
  constructor
  · omega
  · omega

/-! ## An entry comes -/

/-- The second has the next number for an entry that is in no table. -/
structure Adds (info : CAddrInfo CNetAddr) (s s' : CAddrMan CNetAddr) : Prop where
  maps : ∀ nId, s'.mapInfo.find? nId =
    if nId = s.nIdCount then some info else s.mapInfo.find? nId
  refCount : info.nRefCount = 0
  inTried : info.fInTried = false
  idCount : s'.nIdCount = s.nIdCount + 1
  nKey : s'.nKey = s.nKey

section Adding

variable {info : CAddrInfo CNetAddr}

theorem Adds.self (h : Adds info s s') : s'.mapInfo.find? s.nIdCount = some info := by
  rw [h.maps, if_pos rfl]

theorem Adds.old (h : Adds info s s') {nId : Nat} {info' : CAddrInfo CNetAddr}
    (hlt : nId < s.nIdCount) (hfind : s.mapInfo.find? nId = some info') :
    s'.mapInfo.find? nId = some info' := by
  rw [h.maps, if_neg (by omega), hfind]

theorem Adds.find (h : Adds info s s') {nId : Nat} {info' : CAddrInfo CNetAddr}
    (hfind : s'.mapInfo.find? nId = some info') :
    (nId = s.nIdCount ∧ info' = info) ∨
      (nId ≠ s.nIdCount ∧ s.mapInfo.find? nId = some info') := by
  rw [h.maps] at hfind
  by_cases heq : nId = s.nIdCount
  · rw [if_pos heq] at hfind
    exact Or.inl ⟨heq, (Option.some.inj hfind).symm⟩
  · rw [if_neg heq] at hfind
    exact Or.inr ⟨heq, hfind⟩

theorem Indexed.adds [DecidableEq CNetAddr] (h : s.Indexed) (hadds : Adds info s s')
    (hnone : s.mapAddr.find? info.ip = none) (hpos : info.nRandomPos = s.vRandom.length)
    (haddr : s'.mapAddr = s.mapAddr.insert info.ip s.nIdCount)
    (hrandom : s'.vRandom = s.vRandom ++ [s.nIdCount]) : s'.Indexed where
  fresh := by
    intro nId info' hfind'
    rw [hadds.idCount]
    rcases hadds.find hfind' with ⟨heq, _⟩ | ⟨_, hfind⟩
    · omega
    · exact Nat.lt_succ_of_lt (h.fresh hfind)
  address := by
    intro nId info' hfind'
    rw [haddr, KeyedMap.find?_insert]
    rcases hadds.find hfind' with ⟨heq, hinfo⟩ | ⟨_, hfind⟩
    · rw [hinfo, if_pos rfl, heq]
    · have hold := h.address hfind
      have hip : info'.ip ≠ info.ip := fun hip => by
        rw [hip, hnone] at hold
        cases hold
      rw [if_neg hip, hold]
  entry := by
    intro addr nId haddr'
    rw [haddr, KeyedMap.find?_insert] at haddr'
    by_cases hip : addr = info.ip
    · rw [if_pos hip] at haddr'
      cases haddr'
      exact ⟨info, hadds.self, hip.symm⟩
    · rw [if_neg hip] at haddr'
      obtain ⟨info', hfind, hip'⟩ := h.entry haddr'
      exact ⟨info', hadds.old (h.fresh hfind) hfind, hip'⟩
  place := by
    intro nId info' hfind'
    rw [hrandom]
    rcases hadds.find hfind' with ⟨heq, hinfo⟩ | ⟨_, hfind⟩
    · rw [heq, hinfo]
      exact ⟨s.vRandom.length, hpos, List.getElem?_concat_length⟩
    · obtain ⟨k, hk, hplace⟩ := h.place hfind
      exact ⟨k, hk, by
        rw [List.getElem?_append_left (List.getElem?_eq_some_iff.mp hplace).1, hplace]⟩
  random := by
    intro k nId hk
    rw [hrandom] at hk
    by_cases hlt : k < s.vRandom.length
    · rw [List.getElem?_append_left hlt] at hk
      obtain ⟨info', hfind, hpos'⟩ := h.random hk
      exact ⟨info', hadds.old (h.fresh hfind) hfind, hpos'⟩
    · have hlen := (List.getElem?_eq_some_iff.mp hk).1
      rw [List.length_append, List.length_singleton] at hlen
      have hlast : k = s.vRandom.length := by omega
      rw [hlast, List.getElem?_concat_length] at hk
      cases hk
      exact ⟨info, hadds.self, by rw [hpos, hlast]⟩

theorem NewTable.adds (h : s.NewTable hashes loose) (hadds : Adds info s s')
    (hfresh : ∀ {nId info}, s.mapInfo.find? nId = some info → nId < s.nIdCount)
    (hnew : s'.vvNew = s.vvNew) :
    s'.NewTable hashes fun nId => loose nId ∨ nId = s.nIdCount where
  slot := by
    intro n i nId hslot
    rw [hnew] at hslot
    obtain ⟨hn, info', hfind, hi⟩ := h.slot hslot
    exact ⟨hn, info', hadds.old (hfresh hfind) hfind, by rw [hi, hadds.nKey]⟩
  count := by
    intro nId info' hfind'
    rw [newBuckets_congr rfl hnew hadds.nKey]
    rcases hadds.find hfind' with ⟨heq, hinfo⟩ | ⟨_, hfind⟩
    · -- no slot has a number that was never given
      have hnone : s.newBuckets hashes nId info' = 0 := by
        refine count_eq_zero fun n _ hslot => ?_
        obtain ⟨_, info'', hfind, _⟩ := h.slot hslot
        have hlt := hfresh hfind
        omega
      rw [hnone, hinfo, hadds.refCount]
      rfl
    · exact h.count hfind
  bound := by
    intro nId info' hfind'
    rcases hadds.find hfind' with ⟨_, hinfo⟩ | ⟨_, hfind⟩
    · rw [hinfo, hadds.refCount]
      decide
    · exact h.bound hfind
  tried := by
    intro nId info' hfind' htried
    rcases hadds.find hfind' with ⟨_, hinfo⟩ | ⟨_, hfind⟩
    · rw [hinfo, hadds.refCount]
    · exact h.tried hfind htried
  held := by
    intro nId info' hfind' hnot hloose
    rcases hadds.find hfind' with ⟨heq, _⟩ | ⟨_, hfind⟩
    · exact absurd (Or.inr heq) hloose
    · exact h.held hfind hnot fun hl => hloose (Or.inl hl)

theorem TriedTable.adds (h : s.TriedTable hashes) (hadds : Adds info s s')
    (hfresh : ∀ {nId info}, s.mapInfo.find? nId = some info → nId < s.nIdCount)
    (htried : s'.vvTried = s.vvTried) : s'.TriedTable hashes where
  slot := by
    intro n i nId hslot
    rw [htried] at hslot
    obtain ⟨info', hfind, hin, hn, hi⟩ := h.slot hslot
    exact ⟨info', hadds.old (hfresh hfind) hfind, hin, by rw [hn, hadds.nKey],
      by rw [hi, hadds.nKey]⟩
  held := by
    intro nId info' hfind' hin
    rcases hadds.find hfind' with ⟨_, hinfo⟩ | ⟨_, hfind⟩
    · rw [hinfo, hadds.inTried] at hin
      cases hin
    · rw [htried, hadds.nKey]
      exact h.held hfind hin

theorem Counted.adds (h : s.Counted uncounted) (hadds : Adds info s s')
    (htried : s'.nTried = s.nTried) (hnew : s'.nNew = s.nNew) :
    s'.Counted (uncounted + 1) := by
  have hold : ∀ nId < s.nIdCount, s'.mapInfo.find? nId = s.mapInfo.find? nId := by
    intro nId hlt
    rw [hadds.maps, if_neg (by omega)]
  constructor
  · rw [htried, h.tried, hadds.idCount, Nat.count_succ, isTried_of_find hadds.self,
      hadds.inTried, if_neg (by decide), Nat.add_zero]
    refine congrArg _ (count_congr fun nId hlt => ?_)
    unfold isTried
    rw [hold nId hlt]
  · have hcount : Nat.count (fun nId => s'.isNew nId = true) s.nIdCount =
        Nat.count (fun nId => s.isNew nId = true) s.nIdCount := by
      refine count_congr fun nId hlt => ?_
      unfold isNew
      rw [hold nId hlt]
    have hall := h.new
    rw [hnew, hadds.idCount, Nat.count_succ, hcount, isNew_of_find hadds.self, hadds.inTried,
      Bool.not_false, if_pos rfl]
    omega

theorem Timed.adds (h : s.Timed) (hadds : Adds info s s') (hinfo : info.Timed) :
    s'.Timed := by
  constructor
  intro nId info' hfind'
  rcases hadds.find hfind' with ⟨_, heq⟩ | ⟨_, hfind⟩
  · rw [heq]
    exact hinfo
  · exact h.entry hfind

end Adding

end CAddrMan

end Agrarian.Net
