import Agrarian.Net.AddrManOperations

/-!
# The address manager is consistent after every call

## Main results

* `Inv.good`, `Inv.addToNew`, `Inv.add`, `Inv.getAddr` — what the calls keep.
* `addrman_check` — what `CAddrMan::Check_` tests holds after every call, and no
  assertion fails.
-/

namespace Agrarian.Net

open Agrarian.Lib

namespace CAddrMan

variable {CNetAddr : Type} [DecidableEq CNetAddr]
variable {hashes : AddrHashes CNetAddr} {s s' : CAddrMan CNetAddr}
variable {loose : Nat → Prop} {uncounted : Nat}

/-! ## Entries that are found -/

theorem Indexed.find_cases (h : s.Indexed) (addr : CNetAddr) :
    (s.find addr = none ∧ s.mapAddr.find? addr = none) ∨
      ∃ nId info, s.find addr = some (nId, info) ∧ s.mapInfo.find? nId = some info := by
  unfold CAddrMan.find
  cases hid : s.mapAddr.find? addr with
  | none => exact Or.inl ⟨rfl, rfl⟩
  | some nId =>
      obtain ⟨info, hfind, _⟩ := h.entry hid
      refine Or.inr ⟨nId, info, ?_, hfind⟩
      show (s.mapInfo.find? nId).map _ = _
      rw [hfind, Option.map_some]

/-- The times, the services and the attempts of an entry change. -/
theorem Inv.modifyInfo (h : s.Inv hashes loose uncounted) (nId : Nat)
    {f : CAddrInfo CNetAddr → CAddrInfo CNetAddr} (hsame : ∀ info, SameTables info (f info))
    (hpos : ∀ info, (f info).nRandomPos = info.nRandomPos)
    (htimed : ∀ {info}, s.mapInfo.find? nId = some info → (f info).Timed) :
    (s.modifyInfo nId f).Inv hashes loose uncounted := by
  have hmaps := maps_modifyInfo s nId f
  have hservice := changeAt_field (fun info => info.toCService) (fun info => (hsame info).service)
    nId
  have hinTried := changeAt_field CAddrInfo.fInTried (fun info => (hsame info).inTried) nId
  have hrefCount := changeAt_field CAddrInfo.nRefCount (fun info => (hsame info).refCount) nId
  refine ⟨?_, ?_, ?_, ?_, ?_, h.keyed⟩
  · exact h.indexed.congr hmaps (fun _ => ⟨congrArg CService.ip (hservice _ _),
      changeAt_field CAddrInfo.nRandomPos hpos nId _ _⟩) rfl rfl rfl
  · exact h.newTable.congr hmaps
      (fun _ => ⟨hservice _ _, hrefCount _ _, hinTried _ _⟩) rfl rfl
  · exact h.triedTable.congr hmaps (fun _ => hservice _ _) (fun _ => hinTried _ _) rfl rfl
  · exact h.counted.congr hmaps (fun _ => hinTried _ _) rfl rfl rfl
  · exact h.timed.change hmaps htimed

/-- The time and the services of an entry's address change. -/
theorem Inv.setAddress (h : s.Inv hashes loose uncounted) (nId : Nat)
    {f : CAddrInfo CNetAddr → CAddrInfo CNetAddr}
    (hf : ∀ info, ∃ addr : CAddress CNetAddr, addr.toCService = info.toCService ∧
      f info = { info with toCAddress := addr }) :
    (s.modifyInfo nId f).Inv hashes loose uncounted ∧
      ∀ {info}, s.mapInfo.find? nId = some info →
        ∃ info', (s.modifyInfo nId f).mapInfo.find? nId = some info' ∧
          SameTables info info' := by
  have hsame : ∀ info, SameTables info (f info) := by
    intro info
    obtain ⟨addr, hservice, hinfo⟩ := hf info
    rw [hinfo]
    exact ⟨hservice, rfl, rfl⟩
  refine ⟨h.modifyInfo nId hsame ?_ ?_, ?_⟩
  · intro info
    obtain ⟨addr, _, hinfo⟩ := hf info
    rw [hinfo]
  · intro info hfind
    obtain ⟨addr, _, hinfo⟩ := hf info
    have htimed := h.timed.entry hfind
    rw [hinfo]
    exact ⟨htimed.lastTry, htimed.lastSuccess, htimed.tried⟩
  · intro info hfind
    have hfind' := (maps_modifyInfo s nId f).find hfind
    rw [changeAt_self] at hfind'
    exact ⟨f info, hfind', hsame info⟩

/-! ## The calls -/

theorem Inv.attempt (h : s.Inv hashes loose uncounted) (addr : CService CNetAddr) {nTime : Int}
    (htime : 0 < nTime) : (s.attempt addr nTime).Inv hashes loose uncounted := by
  unfold CAddrMan.attempt
  rcases h.indexed.find_cases addr.ip with ⟨hnone, _⟩ | ⟨nId, info, hfind, _⟩
  · rw [hnone]
    exact h
  · rw [hfind]
    show CAddrMan.Inv hashes loose uncounted (if info.toCService ≠ addr then s else _)
    by_cases hsame : info.toCService ≠ addr
    · rw [if_pos hsame]
      exact h
    · rw [if_neg hsame]
      refine h.modifyInfo nId (fun _ => ⟨rfl, rfl, rfl⟩) (fun _ => rfl) fun hfind => ?_
      have htimed := h.timed.entry hfind
      exact ⟨htime.le, htimed.lastSuccess, htimed.tried⟩

theorem Inv.connected (h : s.Inv hashes loose uncounted) (addr : CService CNetAddr)
    (nTime : Int) : (s.connected addr nTime).Inv hashes loose uncounted := by
  unfold CAddrMan.connected
  rcases h.indexed.find_cases addr.ip with ⟨hnone, _⟩ | ⟨nId, info, hfind, _⟩
  · rw [hnone]
    exact h
  · rw [hfind]
    show CAddrMan.Inv hashes loose uncounted (if info.toCService ≠ addr then s
      else if 20 * 60 < nTime - (info.nTime.toNat : Int) then _ else s)
    by_cases hsame : info.toCService ≠ addr
    · rw [if_pos hsame]
      exact h
    · rw [if_neg hsame]
      by_cases hlate : 20 * 60 < nTime - (info.nTime.toNat : Int)
      · rw [if_pos hlate]
        exact (h.setAddress nId fun info =>
          ⟨{ info.toCAddress with nTime := toUnsigned nTime }, rfl, rfl⟩).1
      · rw [if_neg hlate]
        exact h

theorem Inv.good (h : s.Inv hashes (fun _ => False) 0) (addr : CService CNetAddr) {nTime : Int}
    (htime : 0 < nTime) (draw : Nat) :
    ∃ s', s.good hashes addr nTime draw = some s' ∧ s'.Inv hashes (fun _ => False) 0 := by
  unfold CAddrMan.good
  rcases h.indexed.find_cases addr.ip with ⟨hnone, _⟩ | ⟨nId, info, hfind, hentry⟩
  · rw [hnone]
    exact ⟨s, rfl, h⟩
  · rw [hfind]
    show ∃ s', (if info.toCService ≠ addr then some s else _) = some s' ∧ _
    by_cases hsame : info.toCService ≠ addr
    · rw [if_pos hsame]
      exact ⟨s, rfl, h⟩
    · rw [if_neg hsame]
      have hinv := h.modifyInfo nId
        (f := fun info => { info with nLastSuccess := nTime, nLastTry := nTime, nAttempts := 0 })
        (fun _ => ⟨rfl, rfl, rfl⟩) (fun _ => rfl) fun _ => ⟨htime.le, htime.le, fun _ => htime⟩
      have hentry' := (maps_modifyInfo s nId fun info =>
        { info with nLastSuccess := nTime, nLastTry := nTime, nAttempts := 0 }).find hentry
      rw [changeAt_self] at hentry'
      by_cases htried : info.fInTried = true
      · rw [if_pos htried]
        exact ⟨_, rfl, hinv⟩
      · rw [if_neg htried]
        show ∃ s', (if Option.isNone _ = true then some _ else _) = some s' ∧ _
        -- an entry that no bucket is found for stays as it is
        split_ifs
        · exact ⟨_, rfl, hinv⟩
        · exact hinv.makeTried hentry' (Bool.eq_false_of_not_eq_true htried) htime

/-- Where no reference was entered, the entry has one already or is deleted. -/
theorem Inv.addToNew {nId : Nat} {info : CAddrInfo CNetAddr}
    (h : s.Inv hashes (fun nId' => nId' = nId) 0) (hfind : s.mapInfo.find? nId = some info)
    (hnot : info.fInTried = false) (hlt : info.nRefCount < ADDRMAN_NEW_BUCKETS_PER_ADDRESS)
    (source : CNetAddr) (nNow : Int) :
    ∃ s', s.addToNew hashes nId source nNow = some s' ∧ s'.Inv hashes (fun _ => False) 0 := by
  -- an entry with a reference is in the new table
  have hstays : info.nRefCount ≠ 0 → s.Inv hashes (fun _ => False) 0 := by
    intro hne
    refine h.mono fun {nId' info'} hfind' hid _ => Or.inr ?_
    rw [show nId' = nId from hid, hfind] at hfind'
    cases hfind'
    have hcount := h.newTable.count hfind
    omega
  obtain ⟨n, hn⟩ : ∃ n, n = info.getNewBucket hashes s.nKey source := ⟨_, rfl⟩
  obtain ⟨i, hi⟩ : ∃ i, i = info.getBucketPosition hashes s.nKey true n := ⟨_, rfl⟩
  have hbucket : n < ADDRMAN_NEW_BUCKET_COUNT := hn ▸ getNewBucket_lt hashes s.nKey info source
  unfold CAddrMan.addToNew
  simp only [hfind]
  rw [← hn, ← hi]
  cases hslot : s.vvNew n i with
  | none =>
      have henter := h.enterNew hslot hfind hnot hbucket hi hlt
      exact ⟨_, rfl, henter.mono fun _ hl _ => absurd hl.1 hl.2⟩
  | some nIdExisting =>
      obtain ⟨_, infoExisting, hexisting, _⟩ := h.newTable.slot hslot
      show ∃ s', (if nIdExisting = nId then some s else _) = some s' ∧ _
      by_cases heq : nIdExisting = nId
      · rw [if_pos heq]
        rw [heq] at hslot
        have hpos := (h.newTable.refCount_pos hslot hfind).1
        exact ⟨s, rfl, hstays (by omega)⟩
      · rw [if_neg heq]
        simp only [hexisting]
        split_ifs with hover hzero
        · obtain ⟨s', hclear, hinv, hempty, hkeeps⟩ := h.clearNew n i
          have hmem : s.vvNew n i ≠ some nId := by
            rw [hslot]
            exact fun hmem => heq (Option.some.inj hmem)
          obtain ⟨p, hfind'⟩ := hkeeps.entry hfind hmem
          have henter := hinv.enterNew hempty hfind' hnot hbucket
            (by rw [hi, hkeeps.nKey]; rfl) hlt
          rw [hclear, Option.map_some]
          exact ⟨_, rfl, henter.mono fun _ hl _ => absurd hl.1 hl.2⟩
        · obtain ⟨s', hdelete, hinv, _, _⟩ := h.delete hfind hnot hzero
          exact ⟨s', hdelete, hinv.mono fun _ hl _ => absurd hl.1 hl.2⟩
        · exact ⟨s, rfl, hstays hzero⟩

/-- An entry for an address that has none is in no table yet. -/
theorem Inv.create (h : s.Inv hashes (fun _ => False) 0) (addr : CAddress CNetAddr)
    (source : CNetAddr) (hnone : s.mapAddr.find? addr.ip = none) :
    (s.create addr source).2.Inv hashes (fun nId => nId = s.nIdCount) 1 := by
  obtain ⟨info, hinfo⟩ : ∃ info : CAddrInfo CNetAddr, info =
      { toCAddress := addr, source := source, nRandomPos := s.vRandom.length } := ⟨_, rfl⟩
  have hadds : Adds info s (s.create addr source).2 := by
    refine ⟨fun nId => ?_, by rw [hinfo], by rw [hinfo], rfl, rfl⟩
    rw [hinfo]
    exact KeyedMap.find?_insert _ _ _ _
  have hip : info.ip = addr.ip := by rw [hinfo]
  have htimed : info.Timed := by
    rw [hinfo]
    exact ⟨le_refl 0, le_refl 0, fun hin => by cases hin⟩
  refine ⟨?_, ?_, ?_, ?_, ?_, h.keyed⟩
  · exact h.indexed.adds hadds (hip ▸ hnone) (by rw [hinfo]) (hip ▸ rfl) rfl
  · exact (h.newTable.adds hadds h.indexed.fresh rfl).mono fun _ hl _ =>
      Or.inl (hl.resolve_left id)
  · exact h.triedTable.adds hadds h.indexed.fresh rfl
  · exact h.counted.adds hadds rfl rfl
  · exact h.timed.adds hadds htimed

theorem Inv.add (h : s.Inv hashes (fun _ => False) 0) (addr : CAddress CNetAddr)
    (source : CNetAddr) (nTimePenalty : Int) (view : AddView CNetAddr) :
    ∃ fNew s', s.add hashes addr source nTimePenalty view = some (fNew, s') ∧
      s'.Inv hashes (fun _ => False) 0 := by
  unfold CAddrMan.add
  by_cases hroutable : (!view.isRoutable addr) = true
  · rw [if_pos hroutable]
    exact ⟨false, s, rfl, h⟩
  · rw [if_neg hroutable]
    rcases h.indexed.find_cases addr.ip with ⟨hnone, hfresh⟩ | ⟨nId, info, hsome, hfind⟩
    · rw [hnone]
      have hcreate := h.create addr source hfresh
      obtain ⟨s₁, hs₁⟩ : ∃ s₁, s₁ = (s.create addr source).2 := ⟨_, rfl⟩
      have hfind₁ : ∃ info, s₁.mapInfo.find? s.nIdCount = some info ∧
          info.fInTried = false ∧ info.nRefCount = 0 := by
        rw [hs₁]
        exact ⟨_, KeyedMap.find?_insert_self _ _ _, rfl, rfl⟩
      obtain ⟨info, hfind, hnot, hzero⟩ := hfind₁
      rw [← hs₁] at hcreate
      obtain ⟨f, hf⟩ : ∃ f : CAddrInfo CNetAddr → CAddrInfo CNetAddr, f = fun info =>
          { info with
            nTime := toUnsigned (max 0 ((info.nTime.toNat : Int) - nTimePenalty)) } := ⟨_, rfl⟩
      obtain ⟨hinv, hentry⟩ := hcreate.setAddress s.nIdCount (f := f) fun info =>
        ⟨{ info.toCAddress with
            nTime := toUnsigned (max 0 ((info.nTime.toNat : Int) - nTimePenalty)) }, rfl,
          by rw [hf]⟩
      obtain ⟨info', hfind', hsame⟩ := hentry hfind
      have hcounted : (s₁.modifyInfo s.nIdCount f).nNew + 1 + ((0 : Nat) : Int) =
          (s₁.modifyInfo s.nIdCount f).nNew + (1 : Nat) := by omega
      have hlt : info'.nRefCount < ADDRMAN_NEW_BUCKETS_PER_ADDRESS := by
        rw [hsame.refCount, hzero]
        decide
      obtain ⟨s', hadd, hinv'⟩ := (hinv.setNew _ hcounted).addToNew hfind'
        (by rw [hsame.inTried, hnot]) hlt source view.nNowTerrible
      refine ⟨true, s', ?_, hinv'⟩
      rw [hf, hs₁] at hadd
      exact congrArg (Option.map fun s => (true, s)) hadd
    · rw [hsome]
      obtain ⟨f, hf⟩ : ∃ f : CAddrInfo CNetAddr → CAddrInfo CNetAddr, f = fun info' =>
          { info' with
            nTime := info.refreshTime addr nTimePenalty view.nNow
            nServices := info'.nServices ||| addr.nServices } := ⟨_, rfl⟩
      obtain ⟨hinv, hentry⟩ := h.setAddress nId (f := f) fun info' =>
        ⟨{ info'.toCAddress with
            nTime := info.refreshTime addr nTimePenalty view.nNow
            nServices := info'.nServices ||| addr.nServices }, rfl, by rw [hf]⟩
      obtain ⟨info', hfind', hsame⟩ := hentry hfind
      dsimp only
      rw [← hf]
      split_ifs with hknown htried hmax hdraw
      · exact ⟨_, _, rfl, hinv⟩
      · exact ⟨_, _, rfl, hinv⟩
      · exact ⟨_, _, rfl, hinv⟩
      · exact ⟨_, _, rfl, hinv⟩
      · have hbound := h.newTable.bound hfind
        obtain ⟨s', hadd, hinv'⟩ := (hinv.mono fun _ hl _ => hl.elim).addToNew hfind'
          (by rw [hsame.inTried, Bool.eq_false_of_not_eq_true htried])
          (by
            rw [hsame.refCount]
            omega) source view.nNowTerrible
        exact ⟨false, s', congrArg (Option.map fun s => (false, s)) hadd, hinv'⟩

/-- The loop swaps the place that it is at with a later one. -/
theorem Inv.gather (nNodes : Nat) (draws : Nat → Nat × Int) (left n : Nat)
    (vAddr : List (CAddress CNetAddr)) (h : s.Inv hashes loose uncounted)
    (hlen : n + left = s.vRandom.length) :
    ∃ vAddr' s', CAddrMan.gather nNodes draws left n vAddr s = some (vAddr', s') ∧
      s'.Inv hashes loose uncounted := by
  induction left generalizing n vAddr s with
  | zero => exact ⟨vAddr, s, rfl, h⟩
  | succ left ih =>
      unfold CAddrMan.gather
      by_cases hfull : nNodes ≤ vAddr.length
      · rw [if_pos hfull]
        exact ⟨vAddr, s, rfl, h⟩
      · rw [if_neg hfull]
        obtain ⟨j, hj⟩ : ∃ j, j = (draws n).1 % (s.vRandom.length - n) + n := ⟨_, rfl⟩
        have hrest : 0 < s.vRandom.length - n := by omega
        have hmod := Nat.mod_lt (draws n).1 hrest
        have hn : n < s.vRandom.length := by omega
        have hlt : j < s.vRandom.length := by omega
        obtain ⟨s', hswap, hinv, hswapped⟩ := h.swapRandom hn hlt
        have hlen' := hswapped.length
        obtain ⟨nId, hid⟩ : ∃ nId, s'.vRandom[n]? = some nId :=
          ⟨_, List.getElem?_eq_getElem (by omega)⟩
        obtain ⟨ai, hfind, _⟩ := hinv.indexed.random hid
        dsimp only
        rw [← hj, hswap]
        simp only [hid, hfind]
        exact ih (n + 1) _ hinv (by omega)

theorem Inv.getAddr (h : s.Inv hashes loose uncounted) (draws : Nat → Nat × Int) :
    ∃ vAddr s', s.getAddr draws = some (vAddr, s') ∧ s'.Inv hashes loose uncounted :=
  h.gather _ draws _ 0 [] (Nat.zero_add _)

/-! ## What `Check_` tests -/

/-- The conditions of `Check_`, with the codes that it returns where they fail. -/
structure Checked (hashes : AddrHashes CNetAddr) (s : CAddrMan CNetAddr) : Prop where
  /-- `-7` -/
  size : (s.vRandom.length : Int) = s.nTried + s.nNew
  nodup : s.vRandom.Nodup
  ids : ∀ nId, nId ∈ s.vRandom ↔ ∃ info, s.mapInfo.find? nId = some info
  /-- `-14` -/
  place : ∀ {nId info}, s.mapInfo.find? nId = some info →
    ∃ k : Nat, info.nRandomPos = k ∧ s.vRandom[k]? = some nId
  /-- `-5` -/
  address : ∀ {nId info}, s.mapInfo.find? nId = some info →
    s.mapAddr.find? info.ip = some nId
  /-- `-6` and `-8` -/
  times : ∀ {nId info}, s.mapInfo.find? nId = some info →
    0 ≤ info.nLastTry ∧ 0 ≤ info.nLastSuccess
  /-- `-1`, `-2`, `-13`, `-17` and `-18`: an entry is in its own tried slot only. -/
  tried : ∀ {nId info}, s.mapInfo.find? nId = some info → info.fInTried = true →
    info.nLastSuccess ≠ 0 ∧ info.nRefCount = 0 ∧
      (∀ n i, s.vvTried n i = some nId ↔ n = info.getTriedBucket hashes s.nKey ∧
        i = info.getBucketPosition hashes s.nKey false n) ∧
      ∀ n i, s.vvNew n i ≠ some nId
  /-- `-3`, `-4`, `-15` and `-19`: an entry is in `nRefCount` new buckets only. -/
  new : ∀ {nId info}, s.mapInfo.find? nId = some info → info.fInTried = false →
    1 ≤ info.nRefCount ∧ info.nRefCount ≤ ADDRMAN_NEW_BUCKETS_PER_ADDRESS ∧
      ({n | ∃ i, s.vvNew n i = some nId}.ncard : Int) = info.nRefCount ∧
      (∀ n i, s.vvNew n i = some nId → n < ADDRMAN_NEW_BUCKET_COUNT ∧
        i = info.getBucketPosition hashes s.nKey true n) ∧
      ∀ n i, s.vvTried n i ≠ some nId
  /-- `-11` -/
  triedSlot : ∀ {n i nId}, s.vvTried n i = some nId →
    ∃ info, s.mapInfo.find? nId = some info ∧ info.fInTried = true
  /-- `-12` -/
  newSlot : ∀ {n i nId}, s.vvNew n i = some nId →
    ∃ info, s.mapInfo.find? nId = some info ∧ info.fInTried = false
  /-- `-9` -/
  nTried : s.nTried = ({nId | ∃ info, s.mapInfo.find? nId = some info ∧
    info.fInTried = true}.ncard : Int)
  /-- `-10` -/
  nNew : s.nNew = ({nId | ∃ info, s.mapInfo.find? nId = some info ∧
    info.fInTried = false}.ncard : Int)
  /-- `-16` -/
  nKey : s.nKey ≠ 0

omit [DecidableEq CNetAddr] in
theorem isTried_iff (s : CAddrMan CNetAddr) (nId : Nat) :
    s.isTried nId = true ↔ ∃ info, s.mapInfo.find? nId = some info ∧ info.fInTried = true := by
  unfold isTried
  rw [Option.any_eq_true]

omit [DecidableEq CNetAddr] in
theorem isNew_iff (s : CAddrMan CNetAddr) (nId : Nat) :
    s.isNew nId = true ↔ ∃ info, s.mapInfo.find? nId = some info ∧ info.fInTried = false := by
  unfold isNew
  rw [Option.any_eq_true]
  simp only [Bool.not_eq_true']

theorem Indexed.mem_random (h : s.Indexed) (nId : Nat) :
    nId ∈ s.vRandom ↔ ∃ info, s.mapInfo.find? nId = some info := by
  rw [List.mem_iff_getElem?]
  constructor
  · rintro ⟨k, hk⟩
    obtain ⟨info, hfind, _⟩ := h.random hk
    exact ⟨info, hfind⟩
  · rintro ⟨info, hfind⟩
    obtain ⟨k, _, hk⟩ := h.place hfind
    exact ⟨k, hk⟩

theorem Indexed.nodup_random (h : s.Indexed) : s.vRandom.Nodup := by
  refine List.nodup_iff_getElem?_ne_getElem?.mpr fun i j hij hj heq => ?_
  obtain ⟨nId, hid⟩ : ∃ nId, s.vRandom[j]? = some nId := ⟨_, List.getElem?_eq_getElem hj⟩
  have hsame := h.random_inj (heq.trans hid) hid
  omega

/-- The buckets that an entry is in are those where its own place holds it. -/
theorem Inv.ncard_buckets (h : s.Inv hashes loose uncounted) {nId : Nat}
    {info : CAddrInfo CNetAddr} (hfind : s.mapInfo.find? nId = some info) :
    ({n | ∃ i, s.vvNew n i = some nId}.ncard : Int) = info.nRefCount := by
  have hset : {n | ∃ i, s.vvNew n i = some nId} =
      {n | s.vvNew n (info.getBucketPosition hashes s.nKey true n) = some nId} := by
    ext n
    constructor
    · rintro ⟨i, hslot⟩
      obtain ⟨_, info', hfind', hi⟩ := h.newTable.slot hslot
      rw [hfind] at hfind'
      cases hfind'
      show s.vvNew n (info.getBucketPosition hashes s.nKey true n) = some nId
      rw [← hi]
      exact hslot
    · exact fun hslot => ⟨_, hslot⟩
  rw [hset, ncard_eq_count fun n hslot => (h.newTable.slot hslot).1, h.newTable.count hfind]
  rfl

theorem Inv.checked (h : s.Inv hashes (fun _ => False) 0) : s.Checked hashes where
  size := by
    have hmem : ∀ nId, nId ∈ s.vRandom ↔
        nId < s.nIdCount ∧ (s.isTried nId = true ∨ s.isNew nId = true) := by
      intro nId
      rw [h.indexed.mem_random, isTried_iff, isNew_iff]
      constructor
      · rintro ⟨info, hfind⟩
        refine ⟨h.indexed.fresh hfind, ?_⟩
        cases hin : info.fInTried with
        | true => exact Or.inl ⟨info, hfind, hin⟩
        | false => exact Or.inr ⟨info, hfind, hin⟩
      · rintro ⟨_, ⟨info, hfind, _⟩ | ⟨info, hfind, _⟩⟩
        · exact ⟨info, hfind⟩
        · exact ⟨info, hfind⟩
    have hdisjoint : ∀ nId, ¬ (s.isTried nId = true ∧ s.isNew nId = true) := by
      rintro nId ⟨htried, hnew⟩
      obtain ⟨info, hfind, hin⟩ := (isTried_iff s nId).mp htried
      rw [isNew_of_find hfind, hin] at hnew
      cases hnew
    have hlength := length_eq_count_add h.indexed.nodup_random hmem hdisjoint
    have htried := h.counted.tried
    have hnew := h.counted.new
    omega
  nodup := h.indexed.nodup_random
  ids := h.indexed.mem_random
  place := h.indexed.place
  address := h.indexed.address
  times := fun hfind => ⟨(h.timed.entry hfind).lastTry, (h.timed.entry hfind).lastSuccess⟩
  tried := by
    intro nId info hfind hin
    have hzero := h.newTable.tried hfind hin
    refine ⟨((h.timed.entry hfind).tried hin).ne', hzero, fun n i => ?_,
      h.newTable.not_mem hfind hzero⟩
    constructor
    · intro hslot
      obtain ⟨info', hfind', _, hn, hi⟩ := h.triedTable.slot hslot
      rw [hfind] at hfind'
      cases hfind'
      exact ⟨hn, hi⟩
    · rintro ⟨hn, hi⟩
      rw [hi, hn]
      exact h.triedTable.held hfind hin
  new := by
    intro nId info hfind hnot
    refine ⟨h.newTable.held hfind hnot id, h.newTable.bound hfind, h.ncard_buckets hfind,
      fun n i hslot => ?_, fun n i hslot => ?_⟩
    · obtain ⟨hn, info', hfind', hi⟩ := h.newTable.slot hslot
      rw [hfind] at hfind'
      cases hfind'
      exact ⟨hn, hi⟩
    · obtain ⟨info', hfind', hin, _⟩ := h.triedTable.slot hslot
      rw [hfind] at hfind'
      cases hfind'
      rw [hnot] at hin
      cases hin
  triedSlot := by
    intro n i nId hslot
    obtain ⟨info, hfind, hin, _⟩ := h.triedTable.slot hslot
    exact ⟨info, hfind, hin⟩
  newSlot := by
    intro n i nId hslot
    obtain ⟨_, info, hfind, _⟩ := h.newTable.slot hslot
    exact ⟨info, hfind, (h.newTable.refCount_pos hslot hfind).2⟩
  nTried := by
    simp only [← isTried_iff]
    rw [ncard_eq_count fun nId htried => ?_, h.counted.tried]
    obtain ⟨info, hfind, _⟩ := (isTried_iff s nId).mp htried
    exact h.indexed.fresh hfind
  nNew := by
    have hnew := h.counted.new
    simp only [← isNew_iff]
    rw [ncard_eq_count fun nId hnew => ?_, ← hnew]
    · exact (Int.add_zero _).symm
    · obtain ⟨info, hfind, _⟩ := (isNew_iff s nId).mp hnew
      exact h.indexed.fresh hfind
  nKey := h.keyed

/-! ## Runs -/

/-- A call, with the numbers that are drawn in it and the times that it sees. -/
inductive Call (CNetAddr : Type)
  | add (addr : CAddress CNetAddr) (source : CNetAddr) (nTimePenalty : Int)
      (view : AddView CNetAddr)
  | good (addr : CService CNetAddr) (nTime : {t : Int // 0 < t}) (draw : Nat)
  | attempt (addr : CService CNetAddr) (nTime : {t : Int // 0 < t})
  | connected (addr : CService CNetAddr) (nTime : {t : Int // 0 < t})
  | getAddr (draws : Nat → Nat × Int)

/-- A call has no result where an assertion fails in it. -/
def call (hashes : AddrHashes CNetAddr) (s : CAddrMan CNetAddr) :
    Call CNetAddr → Option (CAddrMan CNetAddr)
  | .add addr source nTimePenalty view =>
      (s.add hashes addr source nTimePenalty view).map Prod.snd
  | .good addr nTime draw => s.good hashes addr nTime draw
  | .attempt addr nTime => some (s.attempt addr nTime)
  | .connected addr nTime => some (s.connected addr nTime)
  | .getAddr draws => (s.getAddr draws).map Prod.snd

def run (hashes : AddrHashes CNetAddr) (nKey : Uint256) (calls : List (Call CNetAddr)) :
    Option (CAddrMan CNetAddr) :=
  calls.foldlM (call hashes) (clear nKey)

theorem Inv.clear (hashes : AddrHashes CNetAddr) {nKey : Uint256} (hkey : nKey ≠ 0) :
    (clear nKey : CAddrMan CNetAddr).Inv hashes (fun _ => False) 0 := by
  have hnone : ∀ {nId info},
      (CAddrMan.clear nKey : CAddrMan CNetAddr).mapInfo.find? nId ≠ some info := by
    intro nId info hfind
    cases hfind
  refine ⟨⟨?_, ?_, ?_, ?_, ?_⟩, ⟨?_, ?_, ?_, ?_, ?_⟩, ⟨?_, ?_⟩, ⟨?_, ?_⟩, ⟨?_⟩, hkey⟩
  · exact fun hfind => absurd hfind hnone
  · exact fun hfind => absurd hfind hnone
  · exact fun haddr => by cases haddr
  · exact fun hfind => absurd hfind hnone
  · exact fun hk => by cases hk
  · exact fun hslot => by cases hslot
  · exact fun hfind => absurd hfind hnone
  · exact fun hfind => absurd hfind hnone
  · exact fun hfind => absurd hfind hnone
  · exact fun hfind => absurd hfind hnone
  · exact fun hslot => by cases hslot
  · exact fun hfind => absurd hfind hnone
  · rfl
  · rfl
  · exact fun hfind => absurd hfind hnone

theorem Inv.call (h : s.Inv hashes (fun _ => False) 0) (c : Call CNetAddr) :
    ∃ s', s.call hashes c = some s' ∧ s'.Inv hashes (fun _ => False) 0 := by
  cases c with
  | add addr source nTimePenalty view =>
      obtain ⟨fNew, s', hadd, hinv⟩ := h.add addr source nTimePenalty view
      exact ⟨s', congrArg (Option.map Prod.snd) hadd, hinv⟩
  | good addr nTime draw => exact h.good addr nTime.property draw
  | attempt addr nTime => exact ⟨_, rfl, h.attempt addr nTime.property⟩
  | connected addr nTime => exact ⟨_, rfl, h.connected addr nTime⟩
  | getAddr draws =>
      obtain ⟨vAddr, s', hget, hinv⟩ := h.getAddr draws
      exact ⟨s', congrArg (Option.map Prod.snd) hget, hinv⟩

theorem Inv.calls (h : s.Inv hashes (fun _ => False) 0) (calls : List (Call CNetAddr)) :
    ∃ s', calls.foldlM (CAddrMan.call hashes) s = some s' ∧
      s'.Inv hashes (fun _ => False) 0 := by
  induction calls generalizing s with
  | nil => exact ⟨s, rfl, h⟩
  | cons c calls ih =>
      obtain ⟨s', hcall, hinv⟩ := h.call c
      obtain ⟨s'', hcalls, hinv'⟩ := ih hinv
      refine ⟨s'', ?_, hinv'⟩
      rw [List.foldlM_cons, hcall]
      exact hcalls

end CAddrMan

end Agrarian.Net
