import Agrarian.Lib.Run
import Agrarian.Masternode.Payments

/-!
# Block hashes for the masternode scores

`GetBlockHash` of `masternode.cpp` looks up the hash of the block below a
height.  It remembers every answer in `mapCacheBlockHashes`, which nothing ever
clears: a block that is disconnected keeps its place there.

The chain is the list of its hashes, from the genesis block on; connecting and
disconnecting the tip stand for all that happens to it.
-/

namespace Agrarian.Masternode

open Agrarian.Lib

/-- The active chain, and the hashes that were looked up. -/
structure ChainHashes where
  chainActive : List Uint256
  mapCacheBlockHashes : KeyedMap Int Uint256 := KeyedMap.empty

/-- The loop of `GetBlockHash` over the hashes from the tip down; it ends at the
genesis block. -/
def walkBack (nBlocksAgo : Int) : List Uint256 → Int → Option Uint256
  | hash :: below :: rest, n =>
      if nBlocksAgo ≤ n then some hash
      else walkBack nBlocksAgo (below :: rest) (n + 1)
  | _, _ => none

namespace ChainHashes

def nTip (s : ChainHashes) : Int := s.chainActive.length - 1

def remember (s : ChainHashes) (nBlockHeight : Int) (hash : Uint256) :
    ChainHashes :=
  { s with mapCacheBlockHashes := s.mapCacheBlockHashes.insert nBlockHeight hash }

/-- `GetBlockHash` for a height that is not 0. -/
def lookUp (s : ChainHashes) (nBlockHeight : Int) :
    Option Uint256 × ChainHashes :=
  match s.mapCacheBlockHashes.find? nBlockHeight with
  | some hash => (some hash, s)
  | none =>
      if s.nTip = 0 ∨ s.nTip + 1 < nBlockHeight then (none, s)
      else
        let nBlocksAgo := if 0 < nBlockHeight then s.nTip + 1 - nBlockHeight else 0
        match walkBack nBlocksAgo s.chainActive.reverse 0 with
        | none => (none, s)
        | some hash => (some hash, s.remember nBlockHeight hash)

def getBlockHash (s : ChainHashes) (nBlockHeight : Int) :
    Option Uint256 × ChainHashes :=
  if s.chainActive = [] then (none, s)
  else s.lookUp (if nBlockHeight = 0 then s.nTip else nBlockHeight)

section Score

variable (blockHash : Uint256 → Uint256) (scoreHash : Uint256 → Uint256 → Uint256)

/-- The score of an output for the hash of a block. -/
def scoreOf (hash : Uint256) (prevout : COutPoint) : Uint256 :=
  let aux := prevout.hash + BitVec.ofNat 256 prevout.n
  let hash2 := blockHash hash
  let hash3 := scoreHash hash aux
  if hash2 < hash3 then hash3 - hash2 else hash2 - hash3

/-- `CMasternode::CalculateScore`. -/
def calculateScore (s : ChainHashes) (prevout : COutPoint) (nBlockHeight : Int) :
    Uint256 × ChainHashes :=
  match s.getBlockHash nBlockHeight with
  | (none, s) => (0, s)
  | (some hash, s) => (scoreOf blockHash scoreHash hash prevout, s)

end Score

/-! ## Answers -/

variable {s : ChainHashes}

theorem walkBack_eq {nBlocksAgo : Int} {hashes : List Uint256} {n : Int}
    (hn : n ≤ nBlocksAgo) : walkBack nBlocksAgo hashes n =
      if (nBlocksAgo - n).toNat + 1 < hashes.length then
        hashes[(nBlocksAgo - n).toNat]?
      else none := by
  induction hashes generalizing n with
  | nil => simp [walkBack]
  | cons hash rest ih =>
      cases rest with
      | nil => simp [walkBack]
      | cons below rest =>
          unfold walkBack
          by_cases hstop : nBlocksAgo ≤ n
          · have hzero : (nBlocksAgo - n).toNat = 0 := by omega
            simp [hstop, hzero]
          · have hnext : (nBlocksAgo - n).toNat =
              (nBlocksAgo - (n + 1)).toNat + 1 := by omega
            rw [if_neg hstop, ih (by omega), hnext]
            simp

/-- The heights at which the chain has a block below that is not the genesis
block. -/
def InRange (s : ChainHashes) (h : Nat) : Prop :=
  2 ≤ h ∧ h ≤ s.chainActive.length

/-- The walk finds the block below the height. -/
theorem walkBack_reverse {h : Nat} (hh : s.InRange h) :
    walkBack (s.nTip + 1 - h) s.chainActive.reverse 0 =
      s.chainActive[h - 1]? := by
  obtain ⟨hlow, hhigh⟩ := hh
  have hago : (s.nTip + 1 - h - 0).toNat = s.chainActive.length - h := by
    unfold nTip
    omega
  rw [walkBack_eq (by unfold nTip; omega), hago, if_pos (by simp; omega),
    List.getElem?_reverse (by omega)]
  congr 1
  omega

theorem exists_below {h : Nat} (hh : s.InRange h) :
    ∃ hash, s.chainActive[h - 1]? = some hash := by
  obtain ⟨hlow, hhigh⟩ := hh
  exact ⟨_, List.getElem?_eq_getElem (by omega)⟩

/-- **An answer** comes from the cache, or from the chain and is remembered. -/
theorem getBlockHash_eq {h : Nat} {hash : Uint256} (hh : s.InRange h)
    (hbelow : s.chainActive[h - 1]? = some hash) :
    s.getBlockHash h =
      match s.mapCacheBlockHashes.find? h with
      | some cached => (some cached, s)
      | none => (some hash, s.remember h hash) := by
  have hwalk := walkBack_reverse hh
  obtain ⟨hlow, hhigh⟩ := hh
  have hempty : s.chainActive ≠ [] := by
    rintro hnil
    simp [hnil] at hhigh
    omega
  have hzero : (h : Int) ≠ 0 := by omega
  have hpos : 0 < (h : Int) := by omega
  have hrange : ¬(s.nTip = 0 ∨ s.nTip + 1 < h) := by
    unfold nTip
    omega
  unfold getBlockHash
  rw [if_neg hempty, if_neg hzero]
  unfold lookUp
  cases hcached : s.mapCacheBlockHashes.find? h with
  | some cached => rfl
  | none => simp only [if_neg hrange, if_pos hpos, hwalk, hbelow]

/-- All answers are the hashes of the active chain. -/
def Current (s : ChainHashes) : Prop :=
  ∀ h, s.InRange h → (s.getBlockHash h).1 = s.chainActive[h - 1]?

theorem current_iff : s.Current ↔ ∀ h, s.InRange h → ∀ cached,
    s.mapCacheBlockHashes.find? h = some cached →
      s.chainActive[h - 1]? = some cached := by
  constructor
  · intro hcurrent h hh cached hcached
    obtain ⟨hash, hbelow⟩ := exists_below hh
    rw [← hcurrent h hh, getBlockHash_eq hh hbelow, hcached]
  · intro hcache h hh
    obtain ⟨hash, hbelow⟩ := exists_below hh
    rw [getBlockHash_eq hh hbelow]
    cases hcached : s.mapCacheBlockHashes.find? h with
    | none => exact hbelow.symm
    | some cached => exact (hcache h hh cached hcached).symm

/-! ## Runs -/

/-- What happens to the chain and its hashes; scores are calls as well. -/
inductive Event
  | connectTip (hash : Uint256)
  | disconnectTip
  | getBlockHash (nBlockHeight : Int)

def step (s : ChainHashes) : Event → ChainHashes
  | .connectTip hash => { s with chainActive := s.chainActive ++ [hash] }
  | .disconnectTip => { s with chainActive := s.chainActive.dropLast }
  | .getBlockHash nBlockHeight => (s.getBlockHash nBlockHeight).2

def run (s : ChainHashes) (events : List Event) : ChainHashes :=
  events.foldl step s

/-- No other hash is remembered for the height above a block that is
connected. -/
def Fresh (s : ChainHashes) : Event → Prop
  | .connectTip hash => s.chainActive ≠ [] → ∀ cached,
      s.mapCacheBlockHashes.find? (s.chainActive.length + 1 : Nat) =
        some cached → cached = hash
  | _ => True

theorem connectTip_current {hash : Uint256} (h : s.Current) :
    (s.step (.connectTip hash)).Current ↔ s.Fresh (.connectTip hash) := by
  rw [current_iff] at h ⊢
  show (∀ h, 2 ≤ h ∧ h ≤ (s.chainActive ++ [hash]).length → ∀ cached,
    s.mapCacheBlockHashes.find? h = some cached →
      (s.chainActive ++ [hash])[h - 1]? = some cached) ↔ _
  simp only [List.length_append, List.length_singleton]
  constructor
  · intro hcache hne cached hcached
    have hpos := List.length_pos_iff.mpr hne
    have hlast := hcache (s.chainActive.length + 1) (by omega) cached hcached
    simpa using hlast.symm
  · intro hfresh height hrange cached hcached
    by_cases hlast : height = s.chainActive.length + 1
    · subst hlast
      have hne : s.chainActive ≠ [] := List.length_pos_iff.mp (by omega)
      simp [hfresh hne cached hcached]
    · rw [List.getElem?_append_left (by omega)]
      exact h height ⟨hrange.1, by omega⟩ cached hcached

theorem disconnectTip_current (h : s.Current) : (s.step .disconnectTip).Current := by
  rw [current_iff] at h ⊢
  intro height hrange cached hcached
  have hhigh : height ≤ s.chainActive.dropLast.length := hrange.2
  rw [List.length_dropLast] at hhigh
  show s.chainActive.dropLast[height - 1]? = some cached
  have hlow := hrange.1
  rw [List.getElem?_dropLast, if_pos (by omega)]
  exact h height ⟨hlow, by omega⟩ cached hcached

/-- A call remembers at most the hash of the chain. -/
theorem getBlockHash_cases (s : ChainHashes) (nBlockHeight : Int) :
    (s.getBlockHash nBlockHeight).2 = s ∨
      ∃ key hash, (s.getBlockHash nBlockHeight).2 = s.remember key hash ∧
        ∀ h : Nat, s.InRange h → key = h →
          s.chainActive[h - 1]? = some hash := by
  unfold getBlockHash
  split
  · exact Or.inl rfl
  · generalize (if nBlockHeight = 0 then s.nTip else nBlockHeight) = key
    unfold lookUp
    dsimp only
    split
    · exact Or.inl rfl
    · split
      · exact Or.inl rfl
      · split
        · exact Or.inl rfl
        · rename_i hash hfound
          refine Or.inr ⟨key, hash, rfl, ?_⟩
          rintro h hh rfl
          have hlow := hh.1
          rwa [if_pos (by omega), walkBack_reverse hh] at hfound

theorem getBlockHash_current (h : s.Current) (nBlockHeight : Int) :
    (s.step (.getBlockHash nBlockHeight)).Current := by
  show (s.getBlockHash nBlockHeight).2.Current
  rcases getBlockHash_cases s nBlockHeight with hsame | ⟨key, hash, hafter, hkey⟩
  · rw [hsame]
    exact h
  · rw [hafter]
    rw [current_iff] at h ⊢
    intro height hh cached hcached
    have hfind : (s.mapCacheBlockHashes.insert key hash).find? height =
      some cached := hcached
    rw [KeyedMap.find?_insert] at hfind
    split_ifs at hfind with heq
    · rw [← Option.some.inj hfind]
      exact hkey height hh heq.symm
    · exact h height hh cached hfind

theorem step_current_iff (s : ChainHashes) (e : Event) (h : s.Current) :
    (s.step e).Current ↔ s.Fresh e := by
  cases e with
  | connectTip hash => exact connectTip_current h
  | disconnectTip => exact iff_of_true (disconnectTip_current h) trivial
  | getBlockHash nBlockHeight =>
      exact iff_of_true (getBlockHash_current h nBlockHeight) trivial

/-- **All answers are right** in every state of a run if and only if no block
is connected below a height that another hash is remembered for. -/
theorem getBlockHash_current_iff (chainActive : List Uint256)
    (events : List Event) :
    (∀ reached rest, events = reached ++ rest →
      (run { chainActive } reached).Current) ↔
    EachAfter (fun before event =>
      (run { chainActive } before).Fresh event) events := by
  apply EachAfter.forall_reached_iff _ step_current_iff
  rw [current_iff]
  intro h hh cached hcached
  simp at hcached

/-- A block is looked up, disconnected and replaced: its hash stays. -/
theorem stale_hash_returned :
    ¬(run { chainActive := [1, 2, 3] }
      [.getBlockHash 3, .disconnectTip, .connectTip 4]).Current := by
  intro hcurrent
  exact absurd (hcurrent 3 ⟨by decide, by decide⟩) (by decide)

end ChainHashes

end Agrarian.Masternode
