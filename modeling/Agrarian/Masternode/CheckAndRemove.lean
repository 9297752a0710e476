import Agrarian.Masternode.Pings
import Agrarian.Lib.SortedMap

/-!
# Removing old entries

`CMasternodeMan::CheckAndRemove` of `masternodeman.cpp` with its loops, which erase entries of the
list and of the maps while they walk over them.  A loop that reads a position where there
is no entry fails, and the whole call with it.

The loop over the broadcasts with an old ping erases a hash of `mapSeenSyncMNB` after it has
moved on, so it reads the entry behind the erased one.
-/

namespace Agrarian.Masternode

open Agrarian.Lib

/-! ## The maps -/

/-- An address in network byte order. -/
abbrev CNetAddr := BitVec 128

/-- The order of addresses, by `memcmp`. -/
def addrRank (addr : CNetAddr) : Nat := addr.toNat

def hashRank (hash : Uint256) : Nat := hash.toNat

/-- The order of outputs. -/
def outPointRank (out : COutPoint) : Nat ×ₗ Nat := toLex (out.hash.toNat, out.n)

/-- The list and the maps of `CMasternodeMan`, and the hashes of the synchronisation. -/
structure ManagerMaps where
  vMasternodes : List MasternodeEntry
  mAskedUsForMasternodeList : SortedMap addrRank Int
  mWeAskedForMasternodeList : SortedMap addrRank Int
  mWeAskedForMasternodeListEntry : SortedMap outPointRank Int
  mapSeenMasternodeBroadcast : SortedMap hashRank CMasternodeBroadcast
  mapSeenMasternodePing : SortedMap hashRank SignedPing
  /-- `masternodeSync.mapSeenSyncMNB`. -/
  mapSeenSyncMNB : KeyedMap Uint256 Int

namespace ManagerMaps

variable (hashes : MessageHashes) (node : MessageView)

def check (s : ManagerMaps) : ManagerMaps :=
  { s with vMasternodes := s.vMasternodes.map (MasternodeEntry.checkEntry node false) }

/-- The loop over the broadcasts of a masternode that is removed. -/
def eraseBroadcasts (vin : CTxIn) (s : ManagerMaps) : Option ManagerMaps := do
  let (broadcasts, sync) ← s.mapSeenMasternodeBroadcast.prune
    (fun entry => entry.2.vin = vin) (fun entry sync => sync.erase entry.1) (fun _ => some)
    s.mapSeenSyncMNB
  return { s with mapSeenMasternodeBroadcast := broadcasts, mapSeenSyncMNB := sync }

/-- The loop that allows to ask for the masternode again. -/
def eraseAsked (prevout : COutPoint) (s : ManagerMaps) : Option ManagerMaps := do
  let asked ← s.mWeAskedForMasternodeListEntry.eraseOld fun entry => entry.1 = prevout
  return { s with mWeAskedForMasternodeListEntry := asked }

/-- The loop over the masternodes, at the index `it`. -/
def removeLoop (forceExpiredRemoval : Bool) : Nat → Nat → ManagerMaps → Option ManagerMaps
  | fuel, it, s =>
      if it = s.vMasternodes.length then some s
      else
        match fuel, s.vMasternodes[it]? with
        | fuel + 1, some mn =>
            if ManState.isOutdated node forceExpiredRemoval mn then do
              let s ← s.eraseBroadcasts mn.vin
              let s ← s.eraseAsked mn.vin.prevout
              removeLoop forceExpiredRemoval fuel it
                { s with vMasternodes := s.vMasternodes.eraseIdx it }
            else removeLoop forceExpiredRemoval fuel (it + 1) s
        | _, _ => none

/-- The ping of the broadcast is older than twice the removal time. -/
def isOld (entry : Uint256 × CMasternodeBroadcast) : Bool :=
  entry.2.lastPing.sigTime < node.getTime - MASTERNODE_REMOVAL_SECONDS * 2

/-- The loop over the broadcasts with an old ping.  It has moved on when it erases the
hash. -/
def eraseOldBroadcasts (s : ManagerMaps) : Option ManagerMaps := do
  let (broadcasts, sync) ← s.mapSeenMasternodeBroadcast.prune (isOld node) (fun _ => id)
    (fun entry sync => entry.map fun entry => sync.erase (entry.2.getHash hashes))
    s.mapSeenSyncMNB
  return { s with mapSeenMasternodeBroadcast := broadcasts, mapSeenSyncMNB := sync }

/-- `CheckAndRemove`. -/
def checkAndRemove (forceExpiredRemoval : Bool) (s : ManagerMaps) : Option ManagerMaps := do
  let s := s.check node
  let s ← removeLoop node forceExpiredRemoval s.vMasternodes.length 0 s
  -- who asked for the list, whom it was asked from, and which masternodes were asked for
  let askedUs ← s.mAskedUsForMasternodeList.eraseOld fun entry => entry.2 < node.getTime
  let weAsked ← s.mWeAskedForMasternodeList.eraseOld fun entry => entry.2 < node.getTime
  let asked ← s.mWeAskedForMasternodeListEntry.eraseOld fun entry => entry.2 < node.getTime
  let s := { s with
    mAskedUsForMasternodeList := askedUs
    mWeAskedForMasternodeList := weAsked
    mWeAskedForMasternodeListEntry := asked }
  let s ← s.eraseOldBroadcasts hashes node
  let pings ← s.mapSeenMasternodePing.eraseOld fun entry =>
    entry.2.sigTime < node.getTime - MASTERNODE_REMOVAL_SECONDS * 2
  return { s with mapSeenMasternodePing := pings }

/-! ## What goes -/

/-- The broadcasts that are `gone`, and their hashes, have been erased from both maps, and
nothing else has. -/
structure Cleaned (gone : Uint256 × CMasternodeBroadcast → Bool) (s s' : ManagerMaps) :
    Prop where
  broadcasts : s'.mapSeenMasternodeBroadcast =
    s.mapSeenMasternodeBroadcast.filter fun entry => !gone entry
  sync : ∀ hash, s'.mapSeenSyncMNB.find? hash =
    if ∃ entry ∈ s.mapSeenMasternodeBroadcast.entries, gone entry = true ∧ entry.1 = hash
    then none else s.mapSeenSyncMNB.find? hash

/-- The broadcast is one of a masternode of the list that is removed. -/
def isRemoved (forceExpiredRemoval : Bool) (mns : List MasternodeEntry)
    (entry : Uint256 × CMasternodeBroadcast) : Bool :=
  mns.any fun mn => ManState.isOutdated node forceExpiredRemoval mn && entry.2.vin = mn.vin

/-- The call reads entries of the maps only, and erases the broadcasts of removed masternodes
and those with an old ping from both maps. -/
def CleansUp (forceExpiredRemoval : Bool) (s : ManagerMaps) : Prop :=
  ∃ s', s.checkAndRemove hashes node forceExpiredRemoval = some s' ∧
    Cleaned (fun entry =>
      isRemoved node forceExpiredRemoval (s.check node).vMasternodes entry ||
        isOld node entry) s s'

/-! ## The loop over the masternodes -/

section Removal

variable {hashes : MessageHashes} {node : MessageView} {s s' : ManagerMaps}
variable {gone gone' : Uint256 × CMasternodeBroadcast → Bool}

theorem find?_foldl_erase (entries : List (Uint256 × CMasternodeBroadcast))
    (key : Uint256 × CMasternodeBroadcast → Uint256) (sync : KeyedMap Uint256 Int)
    (hash : Uint256) :
    (entries.foldl (fun sync entry => sync.erase (key entry)) sync).find? hash =
      if ∃ entry ∈ entries, key entry = hash then none else sync.find? hash := by
  rw [← List.foldl_map (f := key) (g := KeyedMap.erase)]
  show (sync.eraseAll (entries.map key)).find? hash = _
  rw [KeyedMap.find?_eraseAll]
  simp only [List.mem_map]

theorem Cleaned.refl (s : ManagerMaps) : Cleaned (fun _ => false) s s where
  broadcasts := SortedMap.ext (List.filter_eq_self.mpr fun _ _ => rfl).symm
  sync := fun hash => by simp

theorem Cleaned.trans {s'' : ManagerMaps} (h : Cleaned gone s s') (h' : Cleaned gone' s' s'') :
    Cleaned (fun entry => gone entry || gone' entry) s s'' where
  broadcasts := by
    rw [h'.broadcasts, h.broadcasts]
    refine SortedMap.ext ?_
    show (s.mapSeenMasternodeBroadcast.entries.filter _).filter _ = _
    rw [List.filter_filter]
    refine List.filter_congr fun entry _ => ?_
    cases gone entry <;> cases gone' entry <;> rfl
  sync := by
    intro hash
    have hmem : ∀ entry, entry ∈ s'.mapSeenMasternodeBroadcast.entries ↔
        entry ∈ s.mapSeenMasternodeBroadcast.entries ∧ gone entry = false := by
      intro entry
      rw [h.broadcasts]
      show entry ∈ s.mapSeenMasternodeBroadcast.entries.filter _ ↔ _
      rw [List.mem_filter, Bool.not_eq_true']
    rw [h'.sync, h.sync]
    by_cases hgone : ∃ entry ∈ s.mapSeenMasternodeBroadcast.entries,
        gone entry = true ∧ entry.1 = hash
    · have hboth : ∃ entry ∈ s.mapSeenMasternodeBroadcast.entries,
          (gone entry || gone' entry) = true ∧ entry.1 = hash := by
        obtain ⟨entry, hentry, holds, hkey⟩ := hgone
        exact ⟨entry, hentry, by rw [holds, Bool.true_or], hkey⟩
      rw [if_pos hgone, ite_self, if_pos hboth]
    · rw [if_neg hgone]
      refine if_congr ⟨?_, ?_⟩ rfl rfl
      · intro ⟨entry, hentry, holds, hkey⟩
        exact ⟨entry, ((hmem entry).mp hentry).1, by rw [holds, Bool.or_true], hkey⟩
      · intro ⟨entry, hentry, holds, hkey⟩
        have hstays : gone entry = false := by
          rw [← Bool.not_eq_true]
          exact fun holds' => hgone ⟨entry, hentry, holds', hkey⟩
        rw [hstays, Bool.false_or] at holds
        exact ⟨entry, (hmem entry).mpr ⟨hentry, hstays⟩, holds, hkey⟩

theorem Cleaned.congr (h : Cleaned gone s s') (heq : ∀ entry, gone entry = gone' entry) :
    Cleaned gone' s s' := funext heq ▸ h

/-- The loop over the broadcasts of a masternode. -/
theorem eraseBroadcasts_spec (vin : CTxIn) (s : ManagerMaps) :
    ∃ s', s.eraseBroadcasts vin = some s' ∧ s'.vMasternodes = s.vMasternodes ∧
      Cleaned (fun entry => entry.2.vin = vin) s s' := by
  let ofVin : Uint256 × CMasternodeBroadcast → Bool := fun entry => entry.2.vin = vin
  let s' : ManagerMaps := { s with
    mapSeenMasternodeBroadcast := s.mapSeenMasternodeBroadcast.filter fun entry => !ofVin entry
    mapSeenSyncMNB := (s.mapSeenMasternodeBroadcast.entries.filter ofVin).foldl
      (fun sync entry => sync.erase entry.1) s.mapSeenSyncMNB }
  have heq : s.eraseBroadcasts vin = some s' := by
    rw [eraseBroadcasts, SortedMap.prune_eq, SortedMap.sweep_before]
    rfl
  refine ⟨s', heq, rfl, rfl, fun hash => ?_⟩
  have hfind := find?_foldl_erase (s.mapSeenMasternodeBroadcast.entries.filter ofVin) Prod.fst
    s.mapSeenSyncMNB hash
  simp only [List.mem_filter, and_assoc] at hfind
  exact hfind

theorem eraseAsked_spec (prevout : COutPoint) (s : ManagerMaps) :
    ∃ s', s.eraseAsked prevout = some s' ∧ s'.vMasternodes = s.vMasternodes ∧
      Cleaned (fun _ => false) s s' := by
  let s' : ManagerMaps := { s with
    mWeAskedForMasternodeListEntry :=
      s.mWeAskedForMasternodeListEntry.filter fun entry => !decide (entry.1 = prevout) }
  have heq : s.eraseAsked prevout = some s' := by
    rw [eraseAsked, SortedMap.eraseOld_eq]
    rfl
  exact ⟨s', heq, rfl, (Cleaned.refl s).broadcasts, (Cleaned.refl s).sync⟩

theorem removeLoop_round (forceExpiredRemoval : Bool) (fuel : Nat) {it : Nat} {mn : MasternodeEntry}
    (h : s.vMasternodes[it]? = some mn) :
    removeLoop node forceExpiredRemoval (fuel + 1) it s =
      if ManState.isOutdated node forceExpiredRemoval mn then do
        let s ← s.eraseBroadcasts mn.vin
        let s ← s.eraseAsked mn.vin.prevout
        removeLoop node forceExpiredRemoval fuel it
          { s with vMasternodes := s.vMasternodes.eraseIdx it }
      else removeLoop node forceExpiredRemoval fuel (it + 1) s := by
  have hmore : ¬ it = s.vMasternodes.length := by
    obtain ⟨hlt, -⟩ := List.getElem?_eq_some_iff.mp h
    exact Nat.ne_of_lt hlt
  rw [removeLoop.eq_def]
  dsimp only
  rw [if_neg hmore, h]

/-- **The loop over the masternodes** stays in the list and the maps, and erases what belongs
to the masternodes it removes. -/
theorem removeLoop_spec (forceExpiredRemoval : Bool) {fuel : Nat} {s : ManagerMaps}
    {stays rest : List MasternodeEntry} (h : s.vMasternodes = stays ++ rest)
    (hfuel : rest.length ≤ fuel) :
    ∃ s', removeLoop node forceExpiredRemoval fuel stays.length s = some s' ∧
      Cleaned (isRemoved node forceExpiredRemoval rest) s s' := by
  induction rest generalizing fuel s stays with
  | nil =>
      refine ⟨s, ?_, Cleaned.refl s⟩
      rw [removeLoop.eq_def]
      exact if_pos (by rw [h, List.append_nil])
  | cons mn rest ih =>
      obtain ⟨fuel, rfl⟩ : ∃ fuel', fuel = fuel' + 1 :=
        ⟨fuel - 1, by rw [List.length_cons] at hfuel; omega⟩
      have hfuel' : rest.length ≤ fuel := Nat.le_of_succ_le_succ hfuel
      have hread : s.vMasternodes[stays.length]? = some mn := by
        rw [h, List.getElem?_append_right (Nat.le_refl _), Nat.sub_self]
        rfl
      rw [removeLoop_round forceExpiredRemoval fuel hread]
      cases hold : ManState.isOutdated node forceExpiredRemoval mn with
      | true =>
          obtain ⟨s₁, hs₁, hmns₁, hclean₁⟩ := eraseBroadcasts_spec mn.vin s
          obtain ⟨s₂, hs₂, hmns₂, hclean₂⟩ := eraseAsked_spec mn.vin.prevout s₁
          have hleft : s₂.vMasternodes.eraseIdx stays.length = stays ++ rest := by
            rw [hmns₂, hmns₁, h, List.eraseIdx_append_of_length_le (Nat.le_refl _), Nat.sub_self]
            rfl
          have hrest := ih (s := { s₂ with
            vMasternodes := s₂.vMasternodes.eraseIdx stays.length }) hleft hfuel'
          obtain ⟨s', hs', hclean'⟩ := hrest
          refine ⟨s', ?_, ?_⟩
          · rw [if_pos rfl, hs₁, Option.bind_eq_bind, Option.bind_some, hs₂]
            exact hs'
          · have herased : Cleaned (isRemoved node forceExpiredRemoval rest) s₂ s' :=
              ⟨hclean'.broadcasts, hclean'.sync⟩
            refine ((hclean₁.trans hclean₂).trans herased).congr fun entry => ?_
            rw [isRemoved, isRemoved, List.any_cons, hold, Bool.or_false, Bool.true_and]
      | false =>
          have hleft : s.vMasternodes = (stays ++ [mn]) ++ rest := by
            rw [h, List.append_assoc, List.singleton_append]
          obtain ⟨s', hs', hclean'⟩ := ih hleft hfuel'
          refine ⟨s', ?_, hclean'.congr fun entry => ?_⟩
          · rw [List.length_append, List.length_singleton] at hs'
            rw [if_neg Bool.false_ne_true]
            exact hs'
          · rw [isRemoved, isRemoved, List.any_cons, hold, Bool.false_and, Bool.false_or]

/-! ## The whole call -/

/-- The broadcasts that the loop over the masternodes leaves, in the order of their hashes. -/
def left (node : MessageView) (forceExpiredRemoval : Bool) (s : ManagerMaps) :
    List (Uint256 × CMasternodeBroadcast) :=
  s.mapSeenMasternodeBroadcast.entries.filter fun entry =>
    !isRemoved node forceExpiredRemoval (s.check node).vMasternodes entry

/-- The loop over the broadcasts with an old ping reads behind the last of them, or erases the
hash of the broadcast behind each. -/
theorem eraseOldBroadcasts_eq (s : ManagerMaps) :
    s.eraseOldBroadcasts hashes node =
      if s.mapSeenMasternodeBroadcast.entries.getLast?.any (isOld node) then none
      else some { s with
        mapSeenMasternodeBroadcast :=
          s.mapSeenMasternodeBroadcast.filter fun entry => !isOld node entry
        mapSeenSyncMNB :=
          (SortedMap.behind (isOld node) false s.mapSeenMasternodeBroadcast.entries).foldl
            (fun sync entry => sync.erase (entry.2.getHash hashes)) s.mapSeenSyncMNB } := by
  have hsweep := SortedMap.sweep_behind (isOld node)
    (fun (sync : KeyedMap Uint256 Int) entry => sync.erase (entry.2.getHash hashes))
    s.mapSeenMasternodeBroadcast.entries s.mapSeenSyncMNB
  rw [eraseOldBroadcasts, SortedMap.prune_eq, hsweep]
  split
  · rfl
  · rfl

/-- What the call comes to. -/
theorem checkAndRemove_spec (forceExpiredRemoval : Bool) (s : ManagerMaps) :
    if (s.left node forceExpiredRemoval).getLast?.any (isOld node) then
      s.checkAndRemove hashes node forceExpiredRemoval = none
    else
      ∃ s', s.checkAndRemove hashes node forceExpiredRemoval = some s' ∧
        s'.mapSeenMasternodeBroadcast = s.mapSeenMasternodeBroadcast.filter (fun entry =>
          !(isRemoved node forceExpiredRemoval (s.check node).vMasternodes entry ||
            isOld node entry)) ∧
        ∀ hash, s'.mapSeenSyncMNB.find? hash =
          if (∃ entry ∈ s.mapSeenMasternodeBroadcast.entries,
              isRemoved node forceExpiredRemoval (s.check node).vMasternodes entry = true ∧
                entry.1 = hash) ∨
            ∃ entry ∈ SortedMap.behind (isOld node) false (s.left node forceExpiredRemoval),
              entry.2.getHash hashes = hash
          then none else s.mapSeenSyncMNB.find? hash := by
  have hloop : ∃ s₁, removeLoop node forceExpiredRemoval (s.check node).vMasternodes.length 0
      (s.check node) = some s₁ ∧
        Cleaned (isRemoved node forceExpiredRemoval (s.check node).vMasternodes)
          (s.check node) s₁ :=
    removeLoop_spec forceExpiredRemoval
      (show (s.check node).vMasternodes = [] ++ (s.check node).vMasternodes from rfl)
      (Nat.le_refl _)
  obtain ⟨s₁, hs₁, hclean⟩ := hloop
  have hleft : s₁.mapSeenMasternodeBroadcast.entries = s.left node forceExpiredRemoval := by
    rw [hclean.broadcasts]
    rfl
  simp only [checkAndRemove, hs₁, SortedMap.eraseOld_eq, eraseOldBroadcasts_eq, hleft,
    Option.bind_eq_bind, Option.bind_some]
  split
  · rfl
  · refine ⟨_, rfl, ?_, fun hash => ?_⟩
    · rw [hclean.broadcasts]
      refine SortedMap.ext ?_
      show (s.mapSeenMasternodeBroadcast.entries.filter _).filter _ = _
      rw [List.filter_filter]
      refine List.filter_congr fun entry _ => ?_
      rw [Bool.not_or, Bool.and_comm]
    · have hfind := find?_foldl_erase
        (SortedMap.behind (isOld node) false (s.left node forceExpiredRemoval))
        (fun entry => entry.2.getHash hashes) s₁.mapSeenSyncMNB hash
      refine hfind.trans ?_
      rw [hclean.sync]
      split
      · next hbehind => rw [if_pos (Or.inr hbehind)]
      · next hbehind => exact if_congr (or_iff_left hbehind).symm rfl rfl

theorem or_iff_or_iff {p q r : Prop} : (p ∨ q ↔ p ∨ r) ↔ (¬ p → (q ↔ r)) := by
  tauto

/-- Two ways to forget a value agree if they forget the same. -/
theorem ite_none_eq_iff {α : Type} {p q : Prop} [Decidable p] [Decidable q] {x : Option α} :
    ((if p then none else x) = if q then none else x) ↔ (x.isSome → (p ↔ q)) := by
  cases x with
  | none => simp
  | some a =>
      by_cases hp : p
      · by_cases hq : q
        · simp [hp, hq]
        · simp [hp, hq]
      · by_cases hq : q
        · simp [hp, hq]
        · simp [hp, hq]

/-- The hash is one of a broadcast of a masternode that is removed. -/
def HashRemoved (node : MessageView) (forceExpiredRemoval : Bool) (s : ManagerMaps)
    (hash : Uint256) : Prop :=
  ∃ entry ∈ s.mapSeenMasternodeBroadcast.entries,
    isRemoved node forceExpiredRemoval (s.check node).vMasternodes entry = true ∧
      entry.1 = hash

theorem exists_gone_iff (forceExpiredRemoval : Bool) (s : ManagerMaps) (hash : Uint256) :
    (∃ entry ∈ s.mapSeenMasternodeBroadcast.entries,
      (isRemoved node forceExpiredRemoval (s.check node).vMasternodes entry ||
        isOld node entry) = true ∧ entry.1 = hash) ↔
      s.HashRemoved node forceExpiredRemoval hash ∨
        ∃ entry ∈ s.left node forceExpiredRemoval, isOld node entry = true ∧ entry.1 = hash := by
  constructor
  · intro ⟨entry, hentry, hgone, hkey⟩
    cases hremoved : isRemoved node forceExpiredRemoval (s.check node).vMasternodes entry with
    | true => exact Or.inl ⟨entry, hentry, hremoved, hkey⟩
    | false =>
        rw [hremoved, Bool.false_or] at hgone
        exact Or.inr ⟨entry, List.mem_filter.mpr ⟨hentry, by rw [hremoved]; rfl⟩, hgone, hkey⟩
  · intro h
    rcases h with ⟨entry, hentry, hremoved, hkey⟩ | ⟨entry, hentry, hold, hkey⟩
    · exact ⟨entry, hentry, by rw [hremoved, Bool.true_or], hkey⟩
    · exact ⟨entry, (List.mem_filter.mp hentry).1, by rw [hold, Bool.or_true], hkey⟩

/-- The hashes that the loop over the old broadcasts erases are those of the old broadcasts, as
far as they are remembered. -/
def ErasesOldHashes (hashes : MessageHashes) (node : MessageView) (forceExpiredRemoval : Bool)
    (s : ManagerMaps) : Prop :=
  ∀ hash, (s.mapSeenSyncMNB.find? hash).isSome → ¬ s.HashRemoved node forceExpiredRemoval hash →
    ((∃ entry ∈ SortedMap.behind (isOld node) false (s.left node forceExpiredRemoval),
        entry.2.getHash hashes = hash) ↔
      ∃ entry ∈ s.left node forceExpiredRemoval, isOld node entry = true ∧ entry.1 = hash)

/-- The call cleans up if its loop over the old broadcasts does. -/
theorem cleansUp_iff (forceExpiredRemoval : Bool) (s : ManagerMaps) :
    s.CleansUp hashes node forceExpiredRemoval ↔
      (s.left node forceExpiredRemoval).getLast?.any (isOld node) = false ∧
        s.ErasesOldHashes hashes node forceExpiredRemoval := by
  have hspec := @checkAndRemove_spec hashes node forceExpiredRemoval s
  rw [CleansUp]
  cases hlast : (s.left node forceExpiredRemoval).getLast?.any (isOld node) with
  | true =>
      rw [hlast, if_pos rfl] at hspec
      rw [hspec]
      constructor
      · intro ⟨s', hnone, _⟩
        cases hnone
      · intro ⟨hfalse, _⟩
        cases hfalse
  | false =>
      rw [hlast, if_neg Bool.false_ne_true] at hspec
      obtain ⟨s', hs', hbroadcasts, hsync⟩ := hspec
      rw [hs']
      have hagree : ∀ hash, (s'.mapSeenSyncMNB.find? hash =
          if ∃ entry ∈ s.mapSeenMasternodeBroadcast.entries,
            (isRemoved node forceExpiredRemoval (s.check node).vMasternodes entry ||
              isOld node entry) = true ∧ entry.1 = hash
          then none else s.mapSeenSyncMNB.find? hash) ↔
        ((s.mapSeenSyncMNB.find? hash).isSome → ¬ s.HashRemoved node forceExpiredRemoval hash →
          ((∃ entry ∈ SortedMap.behind (isOld node) false (s.left node forceExpiredRemoval),
              entry.2.getHash hashes = hash) ↔
            ∃ entry ∈ s.left node forceExpiredRemoval,
              isOld node entry = true ∧ entry.1 = hash)) := by
        intro hash
        rw [hsync hash, ite_none_eq_iff, exists_gone_iff]
        exact forall_congr' fun _ => or_iff_or_iff
      constructor
      · intro ⟨s'', hsome, hclean⟩
        cases hsome
        exact ⟨rfl, fun hash => (hagree hash).mp (hclean.sync hash)⟩
      · intro ⟨_, herases⟩
        exact ⟨s', rfl, hbroadcasts, fun hash => (hagree hash).mpr (herases hash)⟩

/-- Broadcasts that are stored under their own hashes. -/
theorem erasesOldHashes_iff {forceExpiredRemoval : Bool} {s : ManagerMaps}
    (hstored : ∀ entry ∈ s.mapSeenMasternodeBroadcast.entries,
      entry.2.getHash hashes = entry.1) :
    s.ErasesOldHashes hashes node forceExpiredRemoval ↔
      ∀ entry ∈ SortedMap.turns (isOld node) false (s.left node forceExpiredRemoval),
        s.mapSeenSyncMNB.find? entry.1 = none := by
  have hnodup : ((s.left node forceExpiredRemoval).map Prod.fst).Nodup :=
    s.mapSeenMasternodeBroadcast.nodup_keys.sublist (List.filter_sublist.map _)
  have hown : ∀ entry ∈ s.left node forceExpiredRemoval, entry.2.getHash hashes = entry.1 :=
    fun entry hentry => hstored entry (List.mem_filter.mp hentry).1
  have hbehind : ∀ hash,
      (∃ entry ∈ SortedMap.behind (isOld node) false (s.left node forceExpiredRemoval),
        entry.2.getHash hashes = hash) ↔
      ∃ entry ∈ SortedMap.behind (isOld node) false (s.left node forceExpiredRemoval),
        entry.1 = hash := by
    intro hash
    refine exists_congr fun entry => and_congr_right fun hmem => ?_
    rw [hown entry (SortedMap.mem_of_mem_behind _ hmem)]
  -- the hash of a broadcast that stays is not one of a broadcast that goes
  have hstays : ∀ entry ∈ s.left node forceExpiredRemoval,
      ¬ s.HashRemoved node forceExpiredRemoval entry.1 := by
    intro entry hentry hgone
    obtain ⟨other, hother, hremoved, hkey⟩ := hgone
    obtain ⟨hmem, hnot⟩ := List.mem_filter.mp hentry
    obtain rfl : other = entry :=
      List.inj_on_of_nodup_map s.mapSeenMasternodeBroadcast.nodup_keys hother hmem hkey
    rw [hremoved] at hnot
    cases hnot
  rw [ErasesOldHashes]
  simp only [hbehind, SortedMap.behind_iff_old_iff _ hnodup]
  constructor
  · intro h entry hentry
    have hmem := SortedMap.mem_of_mem_turns _ hentry
    rw [← Option.not_isSome_iff_eq_none]
    exact fun hsome => h entry.1 hsome (hstays entry hmem) ⟨entry, hentry, rfl⟩
  · intro h hash hsome _ hturned
    obtain ⟨entry, hentry, hkey⟩ := hturned
    rw [← hkey, h entry hentry] at hsome
    cases hsome

end Removal

/-- **When the call cleans up.**  The last broadcast that the loop over the masternodes leaves
is not old, and a remembered hash is one of an old broadcast just if it is one behind an
old broadcast.  If every broadcast is stored under its own hash, these are the states in
which no hash is remembered of a broadcast that is old where the one before is not, or the
other way round. -/
theorem checkAndRemove_cleansUp_iff (hashes : MessageHashes) (node : MessageView)
    (forceExpiredRemoval : Bool) (s : ManagerMaps) :
    (s.CleansUp hashes node forceExpiredRemoval ↔
      (s.left node forceExpiredRemoval).getLast?.any (isOld node) = false ∧
        s.ErasesOldHashes hashes node forceExpiredRemoval) ∧
    ((∀ entry ∈ s.mapSeenMasternodeBroadcast.entries, entry.2.getHash hashes = entry.1) →
      (s.CleansUp hashes node forceExpiredRemoval ↔
        (s.left node forceExpiredRemoval).getLast?.any (isOld node) = false ∧
        ∀ entry ∈ SortedMap.turns (isOld node) false (s.left node forceExpiredRemoval),
          s.mapSeenSyncMNB.find? entry.1 = none)) := by
  refine ⟨cleansUp_iff forceExpiredRemoval s, fun hstored => ?_⟩
  rw [cleansUp_iff, erasesOldHashes_iff hstored]

/-! ## An old broadcast in front of a new one -/

/-- A broadcast with a ping at a time, under its hash. -/
def broadcastAt (sigTime pingTime : Int) : Uint256 × CMasternodeBroadcast :=
  (BitVec.ofInt 256 sigTime,
    { vin := { prevout := ⟨1, 0⟩ }, sigTime, lastPing := { blockHash := 3, sigTime := pingTime } })

/-- Broadcasts without a masternode, all of whose hashes are remembered. -/
def ofBroadcasts (broadcasts : SortedMap hashRank CMasternodeBroadcast) : ManagerMaps where
  vMasternodes := []
  mAskedUsForMasternodeList := ⟨[], List.Pairwise.nil⟩
  mWeAskedForMasternodeList := ⟨[], List.Pairwise.nil⟩
  mWeAskedForMasternodeListEntry := ⟨[], List.Pairwise.nil⟩
  mapSeenMasternodeBroadcast := broadcasts
  mapSeenMasternodePing := ⟨[], List.Pairwise.nil⟩
  mapSeenSyncMNB := KeyedMap.empty.insertAll (broadcasts.entries.map fun entry => (entry.1, 1))

def lateView : MessageView := { openView with getTime := 100000 }

/-- The old broadcast is erased from one map, and the hash of the new one from the other. -/
theorem checkAndRemove_cleansUp_iff_two :
    ¬ (ofBroadcasts ⟨[broadcastAt 1 0, broadcastAt 2 99999], by decide⟩).CleansUp plainHashes
      lateView false := by
  have hstored : ∀ entry ∈ [broadcastAt 1 0, broadcastAt 2 99999],
      entry.2.getHash plainHashes = entry.1 := by decide
  rw [(checkAndRemove_cleansUp_iff plainHashes lateView false _).2 hstored]
  intro h
  have hfirst := h.2 (broadcastAt 1 0) (by decide)
  exact absurd hfirst (by decide)

/-- Behind the only broadcast there is nothing to read. -/
theorem old_broadcast_reads_end :
    ¬ (ofBroadcasts ⟨[broadcastAt 1 0], List.pairwise_singleton _ _⟩).CleansUp plainHashes
      lateView false := by
  have hfault : (ofBroadcasts ⟨[broadcastAt 1 0], List.pairwise_singleton _ _⟩).checkAndRemove
      plainHashes lateView false = none := by rfl
  intro ⟨s', hs', _⟩
  rw [hfault] at hs'
  cases hs'

end ManagerMaps

end Agrarian.Masternode
