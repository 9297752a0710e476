import Agrarian.Net.AddrManTables

/-!
# What the operations of the address manager keep

Each operation succeeds where the conditions hold, and they hold after it.  In
`MakeTried` an entry is in neither table while another one is put back in the
new table, which may delete a third.
-/

namespace Agrarian.Net

open Agrarian.Lib

namespace CAddrMan

variable {CNetAddr : Type} [DecidableEq CNetAddr]
variable {hashes : AddrHashes CNetAddr} {s s' : CAddrMan CNetAddr}
variable {loose loose' : Nat → Prop} {uncounted uncounted' : Nat}

/-- What the operations on the new table leave as it is: the entries but for
their places and for some that change, and the tried table. -/
structure Keeps (changed : Nat → Prop) (s s' : CAddrMan CNetAddr) : Prop where
  entry : ∀ {nId info}, s.mapInfo.find? nId = some info → ¬ changed nId →
    ∃ p : Int, s'.mapInfo.find? nId = some { info with nRandomPos := p }
  vvTried : s'.vvTried = s.vvTried
  nKey : s'.nKey = s.nKey

theorem Inv.mono (h : s.Inv hashes loose uncounted)
    (hloose : ∀ {nId info}, s.mapInfo.find? nId = some info → loose nId →
      info.fInTried = false → loose' nId ∨ 0 < info.nRefCount) :
    s.Inv hashes loose' uncounted where
  indexed := h.indexed
  newTable := h.newTable.mono hloose
  triedTable := h.triedTable
  counted := h.counted
  timed := h.timed
  keyed := h.keyed

/-! ## The random order and the entries -/

theorem Inv.swapRandom (h : s.Inv hashes loose uncounted) {i j : Nat}
    (hi : i < s.vRandom.length) (hj : j < s.vRandom.length) :
    ∃ s', s.swapRandom i j = some s' ∧ s'.Inv hashes loose uncounted ∧ Swapped i j s s' := by
  obtain ⟨s', hswap, hindexed, hswapped⟩ := h.indexed.swapRandom hi hj
  have hfields := hswapped.fields
  have hmaps := hswapped.maps
  refine ⟨s', hswap, ⟨hindexed, ?_, ?_, ?_, ?_, ?_⟩, hswapped⟩
  · exact h.newTable.congr hmaps (fun _ => ⟨rfl, rfl, rfl⟩) (by rw [hfields]) (by rw [hfields])
  · exact h.triedTable.congr hmaps (fun _ => rfl) (fun _ => rfl) (by rw [hfields])
      (by rw [hfields])
  · exact h.counted.congr hmaps (fun _ => rfl) (by rw [hfields]) (by rw [hfields])
      (by rw [hfields])
  · exact h.timed.congr hmaps fun _ => ⟨rfl, rfl, rfl⟩
  · rw [hfields]
    exact h.keyed

/-- An entry that is in no table is deleted. -/
theorem Inv.delete (h : s.Inv hashes loose uncounted) {nId : Nat} {info : CAddrInfo CNetAddr}
    (hfind : s.mapInfo.find? nId = some info) (hnot : info.fInTried = false)
    (hzero : info.nRefCount = 0) :
    ∃ s', s.delete nId = some s' ∧
      s'.Inv hashes (fun nId' => loose nId' ∧ nId' ≠ nId) uncounted ∧
      Keeps (fun nId' => nId' = nId) s s' ∧ s'.vvNew = s.vvNew := by
  obtain ⟨k, hpos, hk⟩ := h.indexed.place hfind
  have hlt : k < s.vRandom.length := (List.getElem?_eq_some_iff.mp hk).1
  obtain ⟨s₁, hswap, hinv, hswapped⟩ :=
    h.swapRandom hlt (show s.vRandom.length - 1 < s.vRandom.length by omega)
  have hmaps := hswapped.maps
  have hfields := hswapped.fields
  have hfind₁ := hmaps.find hfind
  have hlast : s₁.vRandom[s₁.vRandom.length - 1]? = some nId := by
    rw [hswapped.length, hswapped.random, ← hk]
    congr 1
    unfold swapPlaces
    split_ifs <;> omega
  obtain ⟨s', hs'⟩ : ∃ s', s' = { s₁ with
      vRandom := s₁.vRandom.dropLast
      mapAddr := s₁.mapAddr.erase info.ip
      mapInfo := s₁.mapInfo.erase nId
      nNew := s₁.nNew - 1 } := ⟨_, rfl⟩
  have hdelete : s.delete nId = some s' := by
    unfold CAddrMan.delete
    simp only [hfind, hnot, hzero]
    rw [if_neg (by simp), hpos, Int.toNat_natCast, hswap, hs']
    rfl
  have hdrops : Drops nId s₁ s' := by
    intro nId'
    rw [hs']
    exact KeyedMap.find?_erase _ _ _
  refine ⟨s', hdelete, ⟨?_, ?_, ?_, ?_, ?_, ?_⟩, ⟨?_, ?_, ?_⟩, ?_⟩
  · exact hinv.indexed.erase hfind₁ hlast hdrops (by rw [hs']) (by rw [hs']; rfl) (by rw [hs'])
  · exact hinv.newTable.erase hfind₁ hzero hdrops (by rw [hs']) (by rw [hs'])
  · exact hinv.triedTable.erase hfind₁ hnot hdrops (by rw [hs']) (by rw [hs'])
  · exact hinv.counted.erase hfind₁ (hinv.indexed.fresh hfind₁) hnot hdrops (by rw [hs'])
      (by rw [hs']) (by rw [hs'])
  · exact hinv.timed.erase hdrops
  · rw [hs']
    exact hinv.keyed
  · intro nId' info' hfind' hne
    exact ⟨_, by rw [hdrops.keeps hne, hmaps.find hfind']; rfl⟩
  · rw [hs', hfields]
  · rw [hs', hfields]
  · rw [hs', hfields]

/-- Only the number of new entries changes, and how many it leaves out. -/
theorem Inv.setNew (h : s.Inv hashes loose uncounted) (m : Int)
    (hm : m + uncounted' = s.nNew + uncounted) :
    ({ s with nNew := m } : CAddrMan CNetAddr).Inv hashes loose uncounted' where
  indexed := ⟨h.indexed.fresh, h.indexed.address, h.indexed.entry, h.indexed.place,
    h.indexed.random⟩
  newTable := ⟨h.newTable.slot, h.newTable.count, h.newTable.bound, h.newTable.tried,
    h.newTable.held⟩
  triedTable := ⟨h.triedTable.slot, h.triedTable.held⟩
  counted := ⟨h.counted.tried, hm.trans h.counted.new⟩
  timed := ⟨h.timed.entry⟩
  keyed := h.keyed

/-! ## The new table -/

/-- Only the new table and the count of an entry's references change. -/
theorem Inv.recount (h : s.Inv hashes loose uncounted) {nId : Nat}
    {f : CAddrInfo CNetAddr → CAddrInfo CNetAddr} (hmaps : Maps (changeAt nId f) s s')
    (hf : ∀ info, ∃ r : Int, f info = { info with nRefCount := r })
    (hfields : s' = { s with mapInfo := s'.mapInfo, vvNew := s'.vvNew })
    (hnew : s'.NewTable hashes loose') : s'.Inv hashes loose' uncounted := by
  have hfield := fun {β : Type} (proj : CAddrInfo CNetAddr → β) hproj =>
    changeAt_update (fun (r : Int) info => { info with nRefCount := r }) hf proj hproj nId
  have hinTried := hfield CAddrInfo.fInTried fun _ _ => rfl
  refine ⟨?_, hnew, ?_, ?_, ?_, ?_⟩
  · exact h.indexed.congr hmaps
      (fun _ => ⟨hfield (fun info => info.ip) (fun _ _ => rfl) _ _,
        hfield CAddrInfo.nRandomPos (fun _ _ => rfl) _ _⟩)
      (by rw [hfields]) (by rw [hfields]) (by rw [hfields])
  · exact h.triedTable.congr hmaps
      (fun _ => hfield (fun info => info.toCService) (fun _ _ => rfl) _ _)
      (fun _ => hinTried _ _) (by rw [hfields]) (by rw [hfields])
  · exact h.counted.congr hmaps (fun _ => hinTried _ _) (by rw [hfields]) (by rw [hfields])
      (by rw [hfields])
  · exact h.timed.congr hmaps fun _ => ⟨hfield CAddrInfo.nLastTry (fun _ _ => rfl) _ _,
      hfield CAddrInfo.nLastSuccess (fun _ _ => rfl) _ _, hinTried _ _⟩
  · rw [hfields]
    exact h.keyed

theorem Inv.dropNew (h : s.Inv hashes loose uncounted) {n i nId : Nat}
    (hslot : s.vvNew n i = some nId) :
    (s.dropNew n i nId).Inv hashes (fun nId' => loose nId' ∨ nId' = nId) uncounted := by
  have hmaps : Maps _ s (s.dropNew n i nId) := maps_modifyInfo s nId _
  have hcounts : Recounts (-1) fun info : CAddrInfo CNetAddr =>
      { info with nRefCount := info.nRefCount - 1 } :=
    ⟨fun _ => rfl, fun _ => rfl, fun _ => rfl⟩
  have htable := h.newTable.loses hcounts hmaps (lacks_cleared hslot) rfl
  exact h.recount hmaps (fun info => ⟨info.nRefCount - 1, rfl⟩) rfl htable

theorem Inv.enterNew (h : s.Inv hashes loose uncounted) {n i nId : Nat}
    {info : CAddrInfo CNetAddr} (hslot : s.vvNew n i = none)
    (hfind : s.mapInfo.find? nId = some info) (hnot : info.fInTried = false)
    (hn : n < ADDRMAN_NEW_BUCKET_COUNT)
    (hi : i = info.getBucketPosition hashes s.nKey true n)
    (hlt : info.nRefCount < ADDRMAN_NEW_BUCKETS_PER_ADDRESS) :
    (s.enterNew n i nId).Inv hashes (fun nId' => loose nId' ∧ nId' ≠ nId) uncounted := by
  have hmaps : Maps _ s (s.enterNew n i nId) := maps_modifyInfo s nId _
  have hcounts : Recounts 1 fun info : CAddrInfo CNetAddr =>
      { info with nRefCount := info.nRefCount + 1 } :=
    ⟨fun _ => rfl, fun _ => rfl, fun _ => rfl⟩
  have htable :=
    h.newTable.gains hcounts hmaps (lacks_written nId hslot) rfl hfind hnot hn hi hlt
  exact h.recount hmaps (fun info => ⟨info.nRefCount + 1, rfl⟩) rfl htable

/-- A slot of the new table is cleared, and what was in it deleted if that was
its last reference. -/
theorem Inv.clearNew (h : s.Inv hashes loose uncounted) (n i : Nat) :
    ∃ s', s.clearNew n i = some s' ∧ s'.Inv hashes loose uncounted ∧ s'.vvNew n i = none ∧
      Keeps (fun nId => s.vvNew n i = some nId) s s' := by
  unfold CAddrMan.clearNew
  cases hslot : s.vvNew n i with
  | none => exact ⟨s, rfl, h, hslot, fun {_ info} hfind _ => ⟨info.nRandomPos, hfind⟩, rfl, rfl⟩
  | some nIdDelete =>
      obtain ⟨_, info, hfind, _⟩ := h.newTable.slot hslot
      obtain ⟨hpos, hnot⟩ := h.newTable.refCount_pos hslot hfind
      have hdrop := h.dropNew hslot
      have hempty : (s.dropNew n i nIdDelete).vvNew n i = none := (lacks_cleared hslot).empty
      have hmaps : Maps (changeAt nIdDelete fun info : CAddrInfo CNetAddr =>
          { info with nRefCount := info.nRefCount - 1 }) s (s.dropNew n i nIdDelete) :=
        maps_modifyInfo s nIdDelete _
      have hfind' := hmaps.find hfind
      rw [changeAt_self] at hfind'
      have hkept : ∀ {nId info}, s.mapInfo.find? nId = some info → nId ≠ nIdDelete →
          (s.dropNew n i nIdDelete).mapInfo.find? nId = some info := by
        intro nId info hfind hne
        rw [hmaps.find hfind, changeAt_of_ne hne]
      simp only [hfind]
      rw [if_neg (not_not_intro hpos)]
      by_cases hlast : info.nRefCount - 1 = 0
      · rw [if_pos hlast]
        obtain ⟨s', hdelete, hinv, hkeeps, hvvNew⟩ := hdrop.delete hfind' hnot hlast
        refine ⟨s', hdelete, hinv.mono ?_, by rw [hvvNew, hempty], ?_, ?_, ?_⟩
        · intro nId _ _ hl _
          exact Or.inl (hl.1.resolve_right hl.2)
        · intro nId info hfind hne
          have hid : nId ≠ nIdDelete := fun heq => hne (by rw [heq])
          exact hkeeps.entry (hkept hfind hid) hid
        · exact hkeeps.vvTried
        · exact hkeeps.nKey
      · rw [if_neg hlast]
        refine ⟨_, rfl, hdrop.mono ?_, hempty, ?_, rfl, rfl⟩
        · intro nId info'' hfind'' hl _
          by_cases hid : nId = nIdDelete
          · rw [hid, hfind'] at hfind''
            cases hfind''
            refine Or.inr ?_
            show 0 < info.nRefCount - 1
            omega
          · exact Or.inl (hl.resolve_right hid)
        · intro nId info hfind hne
          exact ⟨info.nRandomPos, hkept hfind fun heq => hne (by rw [heq])⟩

/-! ## The tried table -/

/-- Only the tried table and the mark of an entry change. -/
theorem Inv.retag (h : s.Inv hashes loose uncounted) {nId : Nat} {info : CAddrInfo CNetAddr}
    {b : Bool} {f : CAddrInfo CNetAddr → CAddrInfo CNetAddr}
    (hmaps : Maps (changeAt nId f) s s') (hf : ∀ info, f info = { info with fInTried := b })
    (hfields : s' = { s with mapInfo := s'.mapInfo, vvTried := s'.vvTried,
                             nTried := s'.nTried })
    (hfind : s.mapInfo.find? nId = some info) (hzero : info.nRefCount = 0)
    (htag : b = false → loose' nId) (hloose : ∀ nId' ≠ nId, loose nId' → loose' nId')
    (htime : b = true → 0 < info.nLastSuccess) (htable : s'.TriedTable hashes)
    (hcounted : s'.Counted uncounted') : s'.Inv hashes loose' uncounted' := by
  have hfield := fun {β : Type} (proj : CAddrInfo CNetAddr → β) hproj =>
    changeAt_update (fun (b : Bool) info => { info with fInTried := b })
      (fun info => ⟨b, hf info⟩) proj hproj nId
  refine ⟨?_, ?_, htable, hcounted, ?_, ?_⟩
  · exact h.indexed.congr hmaps
      (fun _ => ⟨hfield (fun info => info.ip) (fun _ _ => rfl) _ _,
        hfield CAddrInfo.nRandomPos (fun _ _ => rfl) _ _⟩)
      (by rw [hfields]) (by rw [hfields]) (by rw [hfields])
  · refine h.newTable.retag hmaps (fun info => by rw [hf]) (fun info => by rw [hf])
      (by rw [hfields]) (by rw [hfields]) hfind hzero (fun hnot => ?_) hloose
    rw [hf] at hnot
    exact htag hnot
  · refine h.timed.change hmaps fun hfind' => ?_
    rw [hfind] at hfind'
    cases hfind'
    have htimed := h.timed.entry hfind
    rw [hf]
    exact ⟨htimed.lastTry, htimed.lastSuccess, htime⟩
  · rw [hfields]
    exact h.keyed

/-- An entry leaves its slot of the tried table. -/
theorem Inv.leaveTried (h : s.Inv hashes loose uncounted) {n i nId : Nat}
    {info : CAddrInfo CNetAddr} (hslot : s.vvTried n i = some nId)
    (hfind : s.mapInfo.find? nId = some info)
    (hs' : s' = { s.modifyInfo nId fun info => { info with fInTried := false } with
                  vvTried := setSlot s.vvTried n i none
                  nTried := s.nTried - 1 }) :
    s'.Inv hashes (fun nId' => loose nId' ∨ nId' = nId) (uncounted + 1) := by
  obtain ⟨info', hfind', hin, _⟩ := h.triedTable.slot hslot
  rw [hfind] at hfind'
  cases hfind'
  have hmaps : Maps (changeAt nId fun info => { info with fInTried := false }) s s' := by
    rw [hs']
    exact maps_modifyInfo s nId _
  have hlacks : Lacks n i nId s.vvTried s'.vvTried := by
    rw [hs']
    exact lacks_cleared hslot
  have hnew := hmaps.find hfind
  rw [changeAt_self] at hnew
  have hmoves : Moves nId s s' := by
    refine ⟨h.indexed.fresh hfind, by rw [hs']; rfl, ⟨info, hfind, hin⟩, ⟨_, hnew, rfl⟩, ?_⟩
    intro nId' hne
    rw [hmaps nId']
    unfold changeAt
    rw [if_neg hne, Option.map_id_fun, id]
  refine h.retag hmaps (fun _ => rfl) (by rw [hs']; rfl) hfind (h.newTable.tried hfind hin)
    (fun _ => Or.inr rfl) (fun _ _ hl => Or.inl hl) (fun hb => by cases hb) ?_ ?_
  · exact h.triedTable.loses hmaps (fun _ => rfl) hlacks (by rw [hs']; rfl)
  · exact h.counted.loses hmoves (by rw [hs']) (by rw [hs']; rfl)

/-- An entry that is in no bucket enters the tried table. -/
theorem Inv.joinTried (h : s.Inv hashes loose (uncounted + 1)) {n i nId : Nat}
    {info : CAddrInfo CNetAddr} (hslot : s.vvTried n i = none)
    (hfind : s.mapInfo.find? nId = some info) (hnot : info.fInTried = false)
    (hzero : info.nRefCount = 0) (htime : 0 < info.nLastSuccess)
    (hn : n = info.getTriedBucket hashes s.nKey)
    (hi : i = info.getBucketPosition hashes s.nKey false n)
    (hs' : s' = { s.modifyInfo nId fun info => { info with fInTried := true } with
                  vvTried := setSlot s.vvTried n i (some nId)
                  nTried := s.nTried + 1 }) :
    s'.Inv hashes (fun nId' => loose nId' ∧ nId' ≠ nId) uncounted := by
  have hmaps : Maps (changeAt nId fun info => { info with fInTried := true }) s s' := by
    rw [hs']
    exact maps_modifyInfo s nId _
  have hlacks : Lacks n i nId s'.vvTried s.vvTried := by
    rw [hs']
    exact lacks_written nId hslot
  have hnew := hmaps.find hfind
  rw [changeAt_self] at hnew
  have hcount : s'.nIdCount = s.nIdCount := by
    rw [hs']
    rfl
  have hmoves : Moves nId s' s := by
    refine ⟨?_, hcount.symm, ⟨_, hnew, rfl⟩, ⟨info, hfind, hnot⟩, ?_⟩
    · rw [hcount]
      exact h.indexed.fresh hfind
    · intro nId' hne
      rw [hmaps nId']
      unfold changeAt
      rw [if_neg hne, Option.map_id_fun, id]
  refine h.retag hmaps (fun _ => rfl) (by rw [hs']; rfl) hfind hzero (fun hb => by cases hb)
    (fun _ hne hl => ⟨hl, hne⟩) (fun _ => htime) ?_ ?_
  · exact h.triedTable.gains hmaps (fun _ => rfl) (fun _ => rfl) hlacks (by rw [hs']; rfl) hfind
      hnot hn hi
  · exact h.counted.gains hmoves (by rw [hs']) (by rw [hs']; rfl)

/-- What is in a slot of the tried table goes back to the new table, while an
entry that is in neither keeps its place there. -/
theorem Inv.evict {nId : Nat} {info : CAddrInfo CNetAddr}
    (h : s.Inv hashes (fun nId' => nId' = nId) uncounted)
    (hfind : s.mapInfo.find? nId = some info) (hnot : info.fInTried = false)
    (hzero : info.nRefCount = 0) (n i : Nat) :
    ∃ s', s.evict hashes n i = some s' ∧
      s'.Inv hashes (fun nId' => nId' = nId) uncounted ∧ s'.vvTried n i = none ∧
      s'.nKey = s.nKey ∧
      ∃ p : Int, s'.mapInfo.find? nId = some { info with nRandomPos := p } := by
  unfold CAddrMan.evict
  cases hslot : s.vvTried n i with
  | none => exact ⟨s, rfl, h, hslot, rfl, info.nRandomPos, hfind⟩
  | some nIdEvict =>
      obtain ⟨infoOld, hfindOld, hin, _⟩ := h.triedTable.slot hslot
      have hzeroOld := h.newTable.tried hfindOld hin
      have hne : nId ≠ nIdEvict := by
        intro heq
        rw [heq, hfindOld] at hfind
        cases hfind
        rw [hin] at hnot
        cases hnot
      simp only [hfindOld]
      -- the entry leaves the tried table
      obtain ⟨s₁, hs₁⟩ : ∃ s₁, s₁ =
          { s.modifyInfo nIdEvict fun info => { info with fInTried := false } with
            vvTried := setSlot s.vvTried n i none
            nTried := s.nTried - 1 } := ⟨_, rfl⟩
      have hkey₁ : s₁.nKey = s.nKey := by rw [hs₁]; rfl
      have hinv₁ := h.leaveTried hslot hfindOld hs₁
      have hmaps₁ : Maps (changeAt nIdEvict fun info => { info with fInTried := false }) s s₁ := by
        rw [hs₁]
        exact maps_modifyInfo s nIdEvict _
      have hevict₁ := hmaps₁.find hfindOld
      have hfind₁ := hmaps₁.find hfind
      rw [changeAt_self] at hevict₁
      rw [changeAt_of_ne hne] at hfind₁
      rw [← hs₁]
      -- a slot of the new table is cleared, where neither entry is
      obtain ⟨nU, hnU⟩ : ∃ nU, nU = infoOld.getNewBucket hashes s.nKey infoOld.source :=
        ⟨_, rfl⟩
      obtain ⟨iU, hiU⟩ : ∃ iU, iU = infoOld.getBucketPosition hashes s.nKey true nU :=
        ⟨_, rfl⟩
      obtain ⟨s₂, hclear, hinv₂, hempty, hkeeps⟩ := hinv₁.clearNew nU iU
      obtain ⟨p, hfind₂⟩ := hkeeps.entry hfind₁ (hinv₁.newTable.not_mem hfind₁ hzero nU iU)
      obtain ⟨q, hevict₂⟩ :=
        hkeeps.entry hevict₁ (hinv₁.newTable.not_mem hevict₁ hzeroOld nU iU)
      rw [modifyInfo_nKey, ← hnU, ← hiU, hclear, Option.bind_some, if_neg (not_not_intro hempty)]
      -- the entry enters the new table
      have henter : s₂.enterNew nU iU nIdEvict =
          { s₂.modifyInfo nIdEvict fun info => { info with nRefCount := 1 } with
            vvNew := setSlot s₂.vvNew nU iU (some nIdEvict) } := by
        unfold CAddrMan.enterNew modifyInfo
        simp only [hevict₂, hzeroOld, Int.zero_add]
      have hinv₃ := hinv₂.enterNew hempty hevict₂ rfl
        (hnU ▸ getNewBucket_lt hashes s.nKey infoOld infoOld.source)
        (by rw [hiU, hkeeps.nKey, hkey₁]; rfl) (by
          show infoOld.nRefCount < ADDRMAN_NEW_BUCKETS_PER_ADDRESS
          rw [hzeroOld]
          decide)
      have hcounted : s₂.nNew + 1 + (uncounted : Int) = s₂.nNew + (uncounted + 1 : Nat) := by
        omega
      have hinv₄ := hinv₃.setNew (s₂.nNew + 1) hcounted
      have hmaps₃ : Maps _ s₂ (s₂.enterNew nU iU nIdEvict) := maps_modifyInfo s₂ nIdEvict _
      have hfind₃ := hmaps₃.find hfind₂
      rw [changeAt_of_ne hne] at hfind₃
      rw [henter] at hinv₄ hfind₃
      refine ⟨_, rfl, hinv₄.mono ?_, ?_, ?_, p, hfind₃⟩
      · intro nId' _ _ hl _
        exact Or.inl (hl.1.resolve_right hl.2)
      · show s₂.vvTried n i = none
        rw [hkeeps.vvTried, hs₁]
        exact (lacks_cleared hslot).empty
      · show s₂.nKey = s.nKey
        rw [hkeeps.nKey, hkey₁]

/-! ## From the new table to the tried one -/

/-- An entry is in none of the first `b` new buckets, and has changed only in how
many references it has. -/
structure Forgotten (hashes : AddrHashes CNetAddr) (nId b : Nat) (info : CAddrInfo CNetAddr)
    (s : CAddrMan CNetAddr) : Prop where
  inv : s.Inv hashes (fun nId' => nId' = nId) 0
  find : ∃ r : Int, s.mapInfo.find? nId = some { info with nRefCount := r }
  empty : ∀ {n}, n < b → ∀ i, s.vvNew n i ≠ some nId

theorem Forgotten.step {nId b : Nat} {info : CAddrInfo CNetAddr}
    (h : Forgotten hashes nId b info s) :
    Forgotten hashes nId (b + 1) info (s.forgetNew hashes nId b) := by
  obtain ⟨r, hfind⟩ := h.find
  have hplace : ∀ {i}, s.vvNew b i = some nId →
      i = info.getBucketPosition hashes s.nKey true b := by
    intro i hslot
    obtain ⟨_, info', hfind', hi⟩ := h.inv.newTable.slot hslot
    rw [hfind] at hfind'
    cases hfind'
    exact hi
  unfold CAddrMan.forgetNew
  simp only [hfind]
  show Forgotten hashes nId (b + 1) info
    (if s.vvNew b (info.getBucketPosition hashes s.nKey true b) = some nId then _ else s)
  by_cases hslot : s.vvNew b (info.getBucketPosition hashes s.nKey true b) = some nId
  · rw [if_pos hslot]
    have hlacks := lacks_cleared hslot
    refine ⟨(h.inv.dropNew hslot).mono ?_, ?_, ?_⟩
    · intro nId' _ _ hl _
      exact Or.inl (hl.elim id id)
    · have hmaps : Maps _ s _ := maps_modifyInfo s nId
        fun info => { info with nRefCount := info.nRefCount - 1 }
      have hfind' := hmaps.find hfind
      rw [changeAt_self] at hfind'
      exact ⟨r - 1, hfind'⟩
    · intro n hn i hmem
      obtain ⟨hold, hne⟩ := (hlacks.iff n i nId).mp hmem
      by_cases heq : n = b
      · rw [heq] at hold
        exact hne ⟨heq, hplace hold⟩
      · exact h.empty (by omega) i hold
  · rw [if_neg hslot]
    refine ⟨h.inv, h.find, ?_⟩
    intro n hn i hmem
    by_cases heq : n = b
    · rw [heq] at hmem
      exact hslot (hplace hmem ▸ hmem)
    · exact h.empty (by omega) i hmem

theorem Forgotten.loop {nId : Nat} {info : CAddrInfo CNetAddr}
    (h : s.Inv hashes (fun nId' => nId' = nId) 0) (hfind : s.mapInfo.find? nId = some info)
    (b : Nat) :
    Forgotten hashes nId b info ((List.range b).foldl (forgetNew hashes nId) s) := by
  induction b with
  | zero => exact ⟨h, ⟨info.nRefCount, hfind⟩, fun hn => absurd hn (Nat.not_lt_zero _)⟩
  | succ b ih =>
      rw [List.range_succ, List.foldl_append]
      exact ih.step

/-- An entry is removed from all new buckets. -/
theorem Inv.forgetAll {nId : Nat} {info : CAddrInfo CNetAddr}
    (h : s.Inv hashes (fun _ => False) 0) (hfind : s.mapInfo.find? nId = some info)
    (hs' : s' = (List.range ADDRMAN_NEW_BUCKET_COUNT).foldl (forgetNew hashes nId) s) :
    s'.Inv hashes (fun nId' => nId' = nId) 0 ∧
      s'.mapInfo.find? nId = some { info with nRefCount := 0 } := by
  have hloose : s.Inv hashes (fun nId' => nId' = nId) 0 := h.mono fun _ hl _ => hl.elim
  have hforgotten := Forgotten.loop hloose hfind ADDRMAN_NEW_BUCKET_COUNT
  rw [← hs'] at hforgotten
  obtain ⟨r, hr⟩ := hforgotten.find
  have hcount := hforgotten.inv.newTable.count hr
  have hnone : s'.newBuckets hashes nId { info with nRefCount := r } = 0 :=
    count_eq_zero fun n hn => hforgotten.empty hn _
  rw [hnone] at hcount
  have hzero : r = 0 := hcount
  rw [hzero] at hr
  exact ⟨hforgotten.inv, hr⟩

theorem Inv.enterTried {nId : Nat} {info : CAddrInfo CNetAddr}
    (h : s.Inv hashes (fun nId' => nId' = nId) 0) (hfind : s.mapInfo.find? nId = some info)
    (hzero : info.nRefCount = 0) (hnot : info.fInTried = false)
    (htime : 0 < info.nLastSuccess) :
    ∃ s', s.enterTried hashes nId = some s' ∧ s'.Inv hashes (fun _ => False) 0 := by
  have hcounted : s.nNew - 1 + ((0 + 1 : Nat) : Int) = s.nNew + (0 : Nat) := by omega
  have hinv := h.setNew (s.nNew - 1) hcounted
  unfold CAddrMan.enterTried
  simp only [hfind]
  rw [if_neg (not_not_intro hzero)]
  obtain ⟨nK, hnK⟩ : ∃ nK, nK = info.getTriedBucket hashes s.nKey := ⟨_, rfl⟩
  obtain ⟨iK, hiK⟩ : ∃ iK, iK = info.getBucketPosition hashes s.nKey false nK := ⟨_, rfl⟩
  obtain ⟨s₁, hevict, hinv₁, hempty, hkey, p, hfind₁⟩ := hinv.evict hfind hnot hzero nK iK
  rw [← hnK, ← hiK, hevict, Option.bind_some, if_neg (not_not_intro hempty)]
  have hinv₂ := hinv₁.joinTried hempty hfind₁ hnot hzero htime
    (by rw [hnK, hkey]; rfl) (by rw [hiK, hkey]; rfl) rfl
  exact ⟨_, rfl, hinv₂.mono fun _ hl _ => absurd hl.1 hl.2⟩

theorem Inv.makeTried {nId : Nat} {info : CAddrInfo CNetAddr}
    (h : s.Inv hashes (fun _ => False) 0) (hfind : s.mapInfo.find? nId = some info)
    (hnot : info.fInTried = false) (htime : 0 < info.nLastSuccess) :
    ∃ s', s.makeTried hashes nId = some s' ∧ s'.Inv hashes (fun _ => False) 0 := by
  obtain ⟨hinv, hfind'⟩ := h.forgetAll hfind rfl
  exact hinv.enterTried hfind' rfl hnot htime

end CAddrMan

end Agrarian.Net
