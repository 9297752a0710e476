import Agrarian.Primitives
import Agrarian.Lib.KeyedMap
import Agrarian.Lib.LinkedList
import Agrarian.Lib.Run

/-!
# Blocks in flight

The part of `main.cpp` that keeps track of the blocks that were requested from
peers: every peer has a list of the blocks queued with it, and
`mapBlocksInFlight` holds, for each block, the peer and the iterator into its
list.  A peer that is not known is a null pointer: `State` gives `none`, and a
step that would go through a null pointer, a failed assertion or an iterator
that is not valid has no result.
-/

namespace Agrarian.Net

open Agrarian.Lib

abbrev NodeId := Int

structure QueuedBlock where
  hash : Uint256
  /-- Optional. -/
  pindex : Option Nat
  /-- Time of "getdata" request in microseconds. -/
  nTime : Int
  /-- Number of blocks queued with validated headers (globally) at the time
  this one is requested. -/
  nValidatedQueuedBefore : Int
  /-- Whether this block has validated headers at the time of request. -/
  fValidatedHeaders : Bool

/-- The members of `CNodeState` that the functions below use. -/
structure CNodeState where
  address : String := ""
  fCurrentlyConnected : Bool := false
  nMisbehavior : Int := 0
  name : String := ""
  fSyncStarted : Bool := false
  nStallingSince : Int := 0
  vBlocksInFlight : LinkedList QueuedBlock := .empty
  nBlocksInFlight : Int := 0
  fPreferredDownload : Bool := false

/-- What is passed on to other parts of the node. -/
inductive NodeCall where
  | addressCurrentlyConnected (address : String)
  | eraseOrphansFor (nodeid : NodeId)

/-- The variables of `main.cpp` around the peers, and the calls made so far. -/
structure PeerState where
  mapNodeState : KeyedMap NodeId CNodeState := .empty
  mapBlocksInFlight : KeyedMap Uint256 (NodeId × Nat) := .empty
  /-- Number of blocks in flight with validated headers. -/
  nQueuedValidatedHeaders : Int := 0
  nSyncStarted : Int := 0
  nPreferredDownload : Int := 0
  calls : List NodeCall := []

namespace PeerState

/-- `State`, with `none` for the null pointer. -/
def state (m : PeerState) (pnode : NodeId) : Option CNodeState :=
  m.mapNodeState.find? pnode

/-- The peer with this id is changed in place. -/
def setState (m : PeerState) (pnode : NodeId) (state : CNodeState) : PeerState :=
  { m with mapNodeState := m.mapNodeState.insert pnode state }

/-- `InitializeNode`: a peer that is there already only gets its name and
address. -/
def initializeNode (m : PeerState) (nodeid : NodeId) (addrName addr : String) :
    PeerState :=
  let state := (m.state nodeid).getD {}
  m.setState nodeid { state with name := addrName, address := addr }

def finalizeNode (m : PeerState) (nodeid : NodeId) : Option PeerState := do
  let state ← m.state nodeid
  let calls :=
    if state.nMisbehavior = 0 && state.fCurrentlyConnected then
      m.calls ++ [.addressCurrentlyConnected state.address]
    else m.calls
  return { m with
    nSyncStarted := m.nSyncStarted - state.fSyncStarted.toInt
    mapBlocksInFlight :=
      m.mapBlocksInFlight.eraseAll (state.vBlocksInFlight.toList.map QueuedBlock.hash)
    calls := calls ++ [.eraseOrphansFor nodeid]
    nPreferredDownload := m.nPreferredDownload - state.fPreferredDownload.toInt
    mapNodeState := m.mapNodeState.erase nodeid }

def markBlockAsReceived (m : PeerState) (hash : Uint256) : Option PeerState :=
  match m.mapBlocksInFlight.find? hash with
  | none => some m
  | some (nodeid, it) => do
      let state ← m.state nodeid
      let entry ← state.vBlocksInFlight.get? it
      let m := m.setState nodeid { state with
        vBlocksInFlight := state.vBlocksInFlight.erase it
        nBlocksInFlight := state.nBlocksInFlight - 1
        nStallingSince := 0 }
      return { m with
        nQueuedValidatedHeaders :=
          m.nQueuedValidatedHeaders - entry.fValidatedHeaders.toInt
        mapBlocksInFlight := m.mapBlocksInFlight.erase hash }

def markBlockAsInFlight (m : PeerState) (nodeid : NodeId) (hash : Uint256)
    (pindex : Option Nat) (now : Int) : Option PeerState := do
  -- assert(state != NULL)
  guard (m.state nodeid).isSome
  -- Make sure it's not listed somewhere already.
  let m ← m.markBlockAsReceived hash
  let state ← m.state nodeid
  let newentry : QueuedBlock :=
    ⟨hash, pindex, now, m.nQueuedValidatedHeaders, pindex.isSome⟩
  let it := state.vBlocksInFlight.next
  let m := m.setState nodeid { state with
    vBlocksInFlight := state.vBlocksInFlight.pushBack newentry
    nBlocksInFlight := state.nBlocksInFlight + 1 }
  return { m with
    nQueuedValidatedHeaders :=
      m.nQueuedValidatedHeaders + newentry.fValidatedHeaders.toInt
    mapBlocksInFlight := m.mapBlocksInFlight.insert hash (nodeid, it) }

end PeerState

inductive PeerEvent where
  | initializeNode (nodeid : NodeId) (addrName addr : String)
  | finalizeNode (nodeid : NodeId)
  | markBlockAsReceived (hash : Uint256)
  | markBlockAsInFlight (nodeid : NodeId) (hash : Uint256) (pindex : Option Nat)
      (now : Int)

namespace PeerState

def step (m : PeerState) : PeerEvent → Option PeerState
  | .initializeNode nodeid addrName addr => some (m.initializeNode nodeid addrName addr)
  | .finalizeNode nodeid => m.finalizeNode nodeid
  | .markBlockAsReceived hash => m.markBlockAsReceived hash
  | .markBlockAsInFlight nodeid hash pindex now =>
      m.markBlockAsInFlight nodeid hash pindex now

/-- The node starts without peers; after a step without a result it is gone. -/
def run (events : List PeerEvent) : Option PeerState :=
  events.foldl (fun m event => m.bind fun m => m.step event) (some {})

/-! ## Single operations -/

section Operations

variable {m m' : PeerState} {nodeid : NodeId} {hash : Uint256}

/-- The hash of the entry that an iterator into the list of a peer points to. -/
def hashAt (m : PeerState) (nodeid : NodeId) (it : Nat) : Option Uint256 :=
  (m.state nodeid).bind fun state =>
    (state.vBlocksInFlight.get? it).map QueuedBlock.hash

@[simp] theorem state_setState (m : PeerState) (pnode nodeid : NodeId)
    (state : CNodeState) : (m.setState pnode state).state nodeid =
      if nodeid = pnode then some state else m.state nodeid :=
  KeyedMap.find?_insert _ _ _ _

theorem hashAt_of_state {state : CNodeState} (h : m.state nodeid = some state)
    (it : Nat) : m.hashAt nodeid it =
      (state.vBlocksInFlight.get? it).map QueuedBlock.hash := by
  simp [hashAt, h]

/-- A peer that is not there has nothing in flight. -/
def peer (m : PeerState) (nodeid : NodeId) : CNodeState :=
  (m.state nodeid).getD {}

theorem peer_of_state {state : CNodeState} (h : m.state nodeid = some state) :
    m.peer nodeid = state := by
  simp [peer, h]

@[simp] theorem peer_setState (m : PeerState) (pnode nodeid : NodeId)
    (state : CNodeState) : (m.setState pnode state).peer nodeid =
      if nodeid = pnode then state else m.peer nodeid := by
  simp only [peer, state_setState]
  split <;> rfl

theorem hashAt_eq (m : PeerState) (nodeid : NodeId) (it : Nat) :
    m.hashAt nodeid it =
      ((m.peer nodeid).vBlocksInFlight.get? it).map QueuedBlock.hash := by
  cases hstate : m.state nodeid with
  | none => simp [hashAt, peer, hstate]
  | some state => rw [hashAt_of_state hstate, peer_of_state hstate]

/-- What `MarkBlockAsReceived` does with a block that is in flight. -/
def dequeueBlock (m : PeerState) (nodeid : NodeId) (state : CNodeState) (it : Nat)
    (hash : Uint256) (fValidatedHeaders : Bool) : PeerState :=
  { m.setState nodeid { state with
      vBlocksInFlight := state.vBlocksInFlight.erase it
      nBlocksInFlight := state.nBlocksInFlight - 1
      nStallingSince := 0 } with
    nQueuedValidatedHeaders :=
      m.nQueuedValidatedHeaders - fValidatedHeaders.toInt
    mapBlocksInFlight := m.mapBlocksInFlight.erase hash }

theorem markBlockAsReceived_cases (h : m.markBlockAsReceived hash = some m') :
    (m.mapBlocksInFlight.find? hash = none ∧ m' = m) ∨
    ∃ nodeid it state entry, m.mapBlocksInFlight.find? hash = some (nodeid, it) ∧
      m.state nodeid = some state ∧
      state.vBlocksInFlight.get? it = some entry ∧
      m' = m.dequeueBlock nodeid state it hash entry.fValidatedHeaders := by
  unfold markBlockAsReceived at h
  split at h
  · rename_i hfind
    exact Or.inl ⟨hfind, (Option.some.inj h).symm⟩
  · rename_i nodeid it hfind
    obtain ⟨state, hstate, h⟩ := Option.bind_eq_some_iff.mp h
    obtain ⟨entry, hentry, h⟩ := Option.bind_eq_some_iff.mp h
    exact Or.inr ⟨nodeid, it, state, entry, hfind, hstate, hentry,
      (Option.some.inj h).symm⟩

/-- What `MarkBlockAsInFlight` does once the block is listed nowhere. -/
def queueBlock (m : PeerState) (nodeid : NodeId) (state : CNodeState)
    (entry : QueuedBlock) : PeerState :=
  { m.setState nodeid { state with
      vBlocksInFlight := state.vBlocksInFlight.pushBack entry
      nBlocksInFlight := state.nBlocksInFlight + 1 } with
    nQueuedValidatedHeaders :=
      m.nQueuedValidatedHeaders + entry.fValidatedHeaders.toInt
    mapBlocksInFlight :=
      m.mapBlocksInFlight.insert entry.hash (nodeid, state.vBlocksInFlight.next) }

theorem markBlockAsInFlight_cases {pindex : Option Nat} {now : Int}
    (h : m.markBlockAsInFlight nodeid hash pindex now = some m') :
    ∃ received state, m.markBlockAsReceived hash = some received ∧
      received.state nodeid = some state ∧
      m' = received.queueBlock nodeid state
        ⟨hash, pindex, now, received.nQueuedValidatedHeaders, pindex.isSome⟩ := by
  obtain ⟨-, -, h⟩ := Option.bind_eq_some_iff.mp h
  obtain ⟨received, hreceived, h⟩ := Option.bind_eq_some_iff.mp h
  obtain ⟨state, hstate, h⟩ := Option.bind_eq_some_iff.mp h
  exact ⟨received, state, hreceived, hstate, (Option.some.inj h).symm⟩

theorem finalizeNode_cases (h : m.finalizeNode nodeid = some m') :
    ∃ state, m.state nodeid = some state ∧
      m'.mapNodeState = m.mapNodeState.erase nodeid ∧
      m'.mapBlocksInFlight = m.mapBlocksInFlight.eraseAll
        (state.vBlocksInFlight.toList.map QueuedBlock.hash) ∧
      m'.nQueuedValidatedHeaders = m.nQueuedValidatedHeaders := by
  obtain ⟨state, hstate, h⟩ := Option.bind_eq_some_iff.mp h
  obtain rfl := Option.some.inj h
  exact ⟨state, hstate, rfl, rfl, rfl⟩

theorem isSome_state_markBlockAsReceived (h : m.markBlockAsReceived hash = some m')
    (nodeid : NodeId) : (m'.state nodeid).isSome = (m.state nodeid).isSome := by
  rcases markBlockAsReceived_cases h with
    ⟨-, rfl⟩ | ⟨nodeid', it, state, entry, -, hstate, -, rfl⟩
  · rfl
  · show ((m.setState nodeid' _).state nodeid).isSome = _
    rw [state_setState]
    split
    · rename_i hid
      simp [hid, hstate]
    · rfl

theorem peer_dequeueBlock (m : PeerState) (nodeid : NodeId) (state : CNodeState)
    (it : Nat) (hash : Uint256) (fValidatedHeaders : Bool) (nodeid' : NodeId) :
    (m.dequeueBlock nodeid state it hash fValidatedHeaders).peer nodeid' =
      if nodeid' = nodeid then { state with
        vBlocksInFlight := state.vBlocksInFlight.erase it
        nBlocksInFlight := state.nBlocksInFlight - 1
        nStallingSince := 0 } else m.peer nodeid' :=
  peer_setState m nodeid nodeid' _

theorem peer_queueBlock (m : PeerState) (nodeid : NodeId) (state : CNodeState)
    (entry : QueuedBlock) (nodeid' : NodeId) :
    (m.queueBlock nodeid state entry).peer nodeid' =
      if nodeid' = nodeid then { state with
        vBlocksInFlight := state.vBlocksInFlight.pushBack entry
        nBlocksInFlight := state.nBlocksInFlight + 1 } else m.peer nodeid' :=
  peer_setState m nodeid nodeid' _

theorem hashAt_dequeueBlock {state : CNodeState} (hstate : m.state nodeid = some state)
    (it : Nat) (hash : Uint256) (fValidatedHeaders : Bool) (nodeid' : NodeId)
    (it' : Nat) :
    (m.dequeueBlock nodeid state it hash fValidatedHeaders).hashAt nodeid' it' =
      if nodeid' = nodeid ∧ it' = it then none else m.hashAt nodeid' it' := by
  rw [hashAt_eq, hashAt_eq, peer_dequeueBlock]
  by_cases hid : nodeid' = nodeid
  · simp only [hid, if_true, LinkedList.get?_erase, peer_of_state hstate, true_and]
    split <;> rfl
  · simp [hid]

theorem hashAt_queueBlock {state : CNodeState} (hstate : m.state nodeid = some state)
    (entry : QueuedBlock) (nodeid' : NodeId) (it' : Nat) :
    (m.queueBlock nodeid state entry).hashAt nodeid' it' =
      if nodeid' = nodeid ∧ it' = state.vBlocksInFlight.next then some entry.hash
      else m.hashAt nodeid' it' := by
  rw [hashAt_eq, hashAt_eq, peer_queueBlock]
  by_cases hid : nodeid' = nodeid
  · simp only [hid, if_true, LinkedList.get?_pushBack, peer_of_state hstate, true_and]
    split <;> rfl
  · simp [hid]

end Operations

/-! ## The map and the lists -/

/-- The map and the lists are in bijection: an iterator stored for a hash
points to the entry with this hash, and every entry is stored so.  No list has
a hash twice, and the lengths of the lists are counted. -/
structure Correspond (m : PeerState) : Prop where
  stored_iff : ∀ hash nodeid it,
    m.mapBlocksInFlight.find? hash = some (nodeid, it) ↔
      m.hashAt nodeid it = some hash
  hashes_nodup : ∀ nodeid state, m.state nodeid = some state →
    (state.vBlocksInFlight.toList.map QueuedBlock.hash).Nodup
  nBlocksInFlight_eq : ∀ nodeid state, m.state nodeid = some state →
    state.nBlocksInFlight = state.vBlocksInFlight.length

section Invariant

variable {m m' : PeerState} {nodeid : NodeId} {hash : Uint256}

theorem Correspond.of_stored
    (hstored : ∀ hash nodeid it,
      m.mapBlocksInFlight.find? hash = some (nodeid, it) ↔
        m.hashAt nodeid it = some hash)
    (hlength : ∀ nodeid, (m.peer nodeid).nBlocksInFlight =
      (m.peer nodeid).vBlocksInFlight.length) :
    m.Correspond := by
  refine ⟨hstored, ?_, fun nodeid state hstate => peer_of_state hstate ▸ hlength nodeid⟩
  intro nodeid state hstate
  apply LinkedList.nodup_map
  intro it it' entry entry' hit hit' heq
  have hhash : m.hashAt nodeid it = some entry.hash := by
    simp [hashAt_of_state hstate, hit]
  have hhash' : m.hashAt nodeid it' = some entry.hash := by
    simp [hashAt_of_state hstate, hit', heq]
  have hsame := ((hstored _ _ _).mpr hhash).symm.trans ((hstored _ _ _).mpr hhash')
  simpa using hsame

theorem Correspond.nBlocksInFlight_peer (h : m.Correspond) (nodeid : NodeId) :
    (m.peer nodeid).nBlocksInFlight = (m.peer nodeid).vBlocksInFlight.length := by
  cases hstate : m.state nodeid with
  | none =>
      rw [peer, hstate]
      rfl
  | some state =>
      rw [peer_of_state hstate]
      exact h.nBlocksInFlight_eq nodeid state hstate

theorem mem_hashes_iff (h : m.Correspond) {state : CNodeState}
    (hstate : m.state nodeid = some state) (hash : Uint256) :
    hash ∈ state.vBlocksInFlight.toList.map QueuedBlock.hash ↔
      ∃ it, m.mapBlocksInFlight.find? hash = some (nodeid, it) := by
  simp only [h.stored_iff, hashAt_of_state hstate, List.mem_map,
    LinkedList.mem_toList, Option.map_eq_some_iff]
  constructor
  · rintro ⟨entry, ⟨it, hit⟩, hhash⟩
    exact ⟨it, entry, hit, hhash⟩
  · rintro ⟨it, entry, hit, hhash⟩
    exact ⟨entry, ⟨it, hit⟩, hhash⟩

theorem correspond_start : Correspond {} := by
  apply Correspond.of_stored
  · intro hash nodeid it
    simp [hashAt, state]
  · intro nodeid
    rfl

theorem correspond_initializeNode (h : m.Correspond) (nodeid : NodeId)
    (addrName addr : String) :
    (m.initializeNode nodeid addrName addr).Correspond := by
  have hpeer : ∀ nodeid', let new := (m.initializeNode nodeid addrName addr).peer nodeid'
      new.vBlocksInFlight = (m.peer nodeid').vBlocksInFlight ∧
        new.nBlocksInFlight = (m.peer nodeid').nBlocksInFlight := by
    intro nodeid'
    by_cases hid : nodeid' = nodeid
    · simp [initializeNode, hid, peer]
    · simp [initializeNode, hid]
  apply Correspond.of_stored
  · intro hash nodeid' it
    rw [hashAt_eq, (hpeer nodeid').1, ← hashAt_eq, ← h.stored_iff]
    rfl
  · intro nodeid'
    rw [(hpeer nodeid').1, (hpeer nodeid').2, h.nBlocksInFlight_peer]

theorem correspond_finalizeNode (h : m.Correspond)
    (hstep : m.finalizeNode nodeid = some m') : m'.Correspond := by
  obtain ⟨state, hstate, hnodes, hblocks, -⟩ := finalizeNode_cases hstep
  have hpeer : ∀ nodeid', m'.peer nodeid' =
      if nodeid' = nodeid then {} else m.peer nodeid' := by
    intro nodeid'
    simp only [peer, PeerState.state, hnodes, KeyedMap.find?_erase]
    split <;> rfl
  apply Correspond.of_stored
  · intro hash nodeid' it
    rw [hblocks, KeyedMap.find?_eraseAll, hashAt_eq, hpeer]
    by_cases hid : nodeid' = nodeid
    · -- no block of the peer is left
      simp only [hid, if_true, LinkedList.get?_empty, Option.map_none, reduceCtorEq,
        iff_false]
      split
      · simp
      · rename_i hnot
        intro hfind
        exact hnot ((mem_hashes_iff h hstate hash).mpr ⟨it, hfind⟩)
    · rw [if_neg hid, ← hashAt_eq, ← h.stored_iff]
      split
      · rename_i hlisted
        obtain ⟨it', hlisted⟩ := (mem_hashes_iff h hstate hash).mp hlisted
        simp [hlisted, Ne.symm hid]
      · rfl
  · intro nodeid'
    rw [hpeer]
    split
    · rfl
    · exact h.nBlocksInFlight_peer nodeid'

theorem correspond_markBlockAsReceived (h : m.Correspond)
    (hstep : m.markBlockAsReceived hash = some m') :
    m'.Correspond ∧ m'.mapBlocksInFlight.find? hash = none := by
  rcases markBlockAsReceived_cases hstep with
    ⟨hfind, rfl⟩ | ⟨nodeid, it, state, entry, hfind, hstate, hentry, rfl⟩
  · exact ⟨h, hfind⟩
  refine ⟨?_, KeyedMap.find?_erase_self _ _⟩
  apply Correspond.of_stored
  · intro hash' nodeid' it'
    rw [hashAt_dequeueBlock hstate]
    show (m.mapBlocksInFlight.erase hash).find? hash' = _ ↔ _
    rw [KeyedMap.find?_erase]
    have hat := (h.stored_iff hash nodeid it).mp hfind
    by_cases hhere : nodeid' = nodeid ∧ it' = it
    · obtain ⟨rfl, rfl⟩ := hhere
      have hother : hash' ≠ hash →
          m.mapBlocksInFlight.find? hash' ≠ some (nodeid', it') := by
        intro hne hfind'
        rw [h.stored_iff, hat] at hfind'
        exact hne (Option.some.inj hfind').symm
      simpa using hother
    · rw [if_neg hhere, ← h.stored_iff]
      by_cases hhash : hash' = hash
      · have hne : (nodeid, it) ≠ (nodeid', it') := by
          intro heq
          obtain ⟨rfl, rfl⟩ := Prod.mk.inj heq
          exact hhere ⟨rfl, rfl⟩
        simpa [hhash, hfind] using hne
      · rw [if_neg hhash]
  · intro nodeid'
    rw [peer_dequeueBlock]
    split
    · have hcount := h.nBlocksInFlight_eq nodeid state hstate
      have hlength := LinkedList.length_erase hentry
      show state.nBlocksInFlight - 1 =
        ((state.vBlocksInFlight.erase it).length : Int)
      omega
    · exact h.nBlocksInFlight_peer nodeid'

theorem correspond_queueBlock (h : m.Correspond) {state : CNodeState}
    (hstate : m.state nodeid = some state) (entry : QueuedBlock)
    (hfind : m.mapBlocksInFlight.find? entry.hash = none) :
    (m.queueBlock nodeid state entry).Correspond := by
  apply Correspond.of_stored
  · intro hash nodeid' it
    rw [hashAt_queueBlock hstate]
    show (m.mapBlocksInFlight.insert entry.hash _).find? hash = _ ↔ _
    rw [KeyedMap.find?_insert]
    by_cases hhash : hash = entry.hash
    · have hnowhere : m.hashAt nodeid' it ≠ some entry.hash := by
        rw [Ne, ← h.stored_iff, hfind]
        simp
      rw [if_pos hhash, hhash]
      by_cases hhere : nodeid' = nodeid ∧ it = state.vBlocksInFlight.next
      · simp [hhere]
      · rw [if_neg hhere]
        have hne : (nodeid, state.vBlocksInFlight.next) ≠ (nodeid', it) := by
          intro heq
          obtain ⟨rfl, rfl⟩ := Prod.mk.inj heq
          exact hhere ⟨rfl, rfl⟩
        simpa [hnowhere] using hne
    · rw [if_neg hhash, h.stored_iff]
      by_cases hhere : nodeid' = nodeid ∧ it = state.vBlocksInFlight.next
      · obtain ⟨rfl, rfl⟩ := hhere
        rw [hashAt_of_state hstate, LinkedList.get?_next]
        simp [Ne.symm hhash]
      · rw [if_neg hhere]
  · intro nodeid'
    rw [peer_queueBlock]
    split
    · have hcount := h.nBlocksInFlight_eq nodeid state hstate
      have hlength := LinkedList.length_pushBack state.vBlocksInFlight entry
      show state.nBlocksInFlight + 1 =
        ((state.vBlocksInFlight.pushBack entry).length : Int)
      omega
    · exact h.nBlocksInFlight_peer nodeid'

theorem correspond_step (h : m.Correspond) (event : PeerEvent)
    (hstep : m.step event = some m') : m'.Correspond := by
  cases event with
  | initializeNode nodeid addrName addr =>
      obtain rfl := Option.some.inj hstep
      exact correspond_initializeNode h nodeid addrName addr
  | finalizeNode nodeid => exact correspond_finalizeNode h hstep
  | markBlockAsReceived hash => exact (correspond_markBlockAsReceived h hstep).1
  | markBlockAsInFlight nodeid hash pindex now =>
      obtain ⟨received, state, hreceived, hstate, rfl⟩ := markBlockAsInFlight_cases hstep
      obtain ⟨h, hfind⟩ := correspond_markBlockAsReceived h hreceived
      exact correspond_queueBlock h hstate _ hfind

/-- The event is not about a peer that is unknown. -/
def Addressed (m : PeerState) : PeerEvent → Prop
  | .initializeNode _ _ _ => True
  | .finalizeNode nodeid => (m.state nodeid).isSome
  | .markBlockAsReceived _ => True
  | .markBlockAsInFlight nodeid _ _ _ => (m.state nodeid).isSome

/-- The iterators that are stored are valid, and so are the peers. -/
theorem markBlockAsReceived_isSome (h : m.Correspond) (hash : Uint256) :
    (m.markBlockAsReceived hash).isSome := by
  unfold markBlockAsReceived
  split
  · rfl
  · rename_i nodeid it hfind
    have hat := (h.stored_iff hash nodeid it).mp hfind
    obtain ⟨state, hstate, hat⟩ := Option.bind_eq_some_iff.mp hat
    obtain ⟨entry, hentry, -⟩ := Option.map_eq_some_iff.mp hat
    simp [hstate, hentry]

theorem step_isSome_iff (h : m.Correspond) (event : PeerEvent) :
    (m.step event).isSome ↔ m.Addressed event := by
  cases event with
  | initializeNode nodeid addrName addr => simp [step, Addressed]
  | finalizeNode nodeid =>
      cases hstate : m.state nodeid with
      | none => simp [step, Addressed, finalizeNode, hstate]
      | some state => simp [step, Addressed, finalizeNode, hstate]
  | markBlockAsReceived hash =>
      simpa [step, Addressed] using markBlockAsReceived_isSome h hash
  | markBlockAsInFlight nodeid hash pindex now =>
      obtain ⟨received, hreceived⟩ :=
        Option.isSome_iff_exists.mp (markBlockAsReceived_isSome h hash)
      have hpeer := isSome_state_markBlockAsReceived hreceived nodeid
      cases hstate : m.state nodeid with
      | none => simp [step, Addressed, markBlockAsInFlight, hstate]
      | some state =>
          rw [hstate] at hpeer
          obtain ⟨state', hstate'⟩ := Option.isSome_iff_exists.mp hpeer
          simp [step, Addressed, markBlockAsInFlight, hstate, hreceived, hstate']

end Invariant

/-! ## Runs -/

theorem run_append_singleton (events : List PeerEvent) (event : PeerEvent) :
    run (events ++ [event]) = (run events).bind fun m => m.step event := by
  simp [run]

theorem correspond_run (events : List PeerEvent) :
    ∀ m, run events = some m → m.Correspond := by
  induction events using List.reverseRecOn with
  | nil =>
      intro m h
      obtain rfl := Option.some.inj h
      exact correspond_start
  | append_singleton events event ih =>
      intro m' h
      rw [run_append_singleton] at h
      obtain ⟨m, hm, hstep⟩ := Option.bind_eq_some_iff.mp h
      exact correspond_step (ih m hm) event hstep

/-- **The map and the lists stay in bijection** in every run, and the run goes
on as long as no event is about a peer that is unknown. -/
theorem blocksInFlight_correspond (events : List PeerEvent) :
    (∀ m, run events = some m → m.Correspond) ∧
      ((run events).isSome ↔ EachAfter (fun before event =>
        ∃ m, run before = some m ∧ m.Addressed event) events) := by
  refine ⟨correspond_run events, ?_⟩
  induction events using List.reverseRecOn with
  | nil => simpa [run] using EachAfter.nil
  | append_singleton events event ih =>
      rw [EachAfter.append_singleton_iff, ← ih, run_append_singleton]
      cases hm : run events with
      | none => simp
      | some m =>
          have hstep := step_isSome_iff (correspond_run events m hm) event
          simpa using hstep

/-! ## The counter of validated headers -/

end PeerState

/-- The number of entries in the list of a peer that have validated headers. -/
def CNodeState.nValidated (state : CNodeState) : Nat :=
  state.vBlocksInFlight.toList.countP QueuedBlock.fValidatedHeaders

namespace PeerState

/-- The number of such entries over all peers. -/
def nValidatedInFlight (m : PeerState) : Nat :=
  m.mapNodeState.sum CNodeState.nValidated

/-- The counter is right, and zero when nothing is in flight. -/
structure CountsValidated (m : PeerState) : Prop where
  counted : m.nQueuedValidatedHeaders = m.nValidatedInFlight
  zero : (∀ nodeid state, m.state nodeid = some state →
    state.vBlocksInFlight.toList = []) → m.nQueuedValidatedHeaders = 0

/-- How far the counter is ahead. -/
def drift (m : PeerState) : Int :=
  m.nQueuedValidatedHeaders - m.nValidatedInFlight

/-- A peer that goes has no entry with validated headers in its list. -/
def DropsNoValidated (m : PeerState) (event : PeerEvent) : Prop :=
  ∀ nodeid state, event = .finalizeNode nodeid → m.state nodeid = some state →
    ∀ entry ∈ state.vBlocksInFlight.toList, entry.fValidatedHeaders = false

section Counter

variable {m m' : PeerState} {nodeid : NodeId} {hash : Uint256}

theorem countsValidated_iff : m.CountsValidated ↔ m.drift = 0 := by
  constructor
  · intro h
    have hcounted := h.counted
    unfold drift
    omega
  · intro h
    have hcounted : m.nQueuedValidatedHeaders = m.nValidatedInFlight := by
      unfold drift at h
      omega
    refine ⟨hcounted, fun hnothing => ?_⟩
    have hzero : m.nValidatedInFlight = 0 := by
      apply KeyedMap.sum_eq_zero
      intro nodeid state hstate
      simp [CNodeState.nValidated, hnothing nodeid state hstate]
    rw [hcounted, hzero]
    rfl

theorem nValidatedInFlight_setState (m : PeerState) (nodeid : NodeId)
    (state : CNodeState) :
    (m.setState nodeid state).nValidatedInFlight + (m.peer nodeid).nValidated =
      m.nValidatedInFlight + state.nValidated := by
  unfold nValidatedInFlight setState
  cases hold : m.mapNodeState.find? nodeid with
  | none =>
      have hpeer : (m.peer nodeid).nValidated = 0 := by
        simp [peer, PeerState.state, hold, CNodeState.nValidated]
      simp only [KeyedMap.sum_insert _ _ hold]
      omega
  | some old =>
      have hsum := KeyedMap.sum_erase CNodeState.nValidated hold
      rw [peer_of_state hold, KeyedMap.sum_insert_eq]
      omega

theorem drift_initializeNode (m : PeerState) (nodeid : NodeId)
    (addrName addr : String) : (m.initializeNode nodeid addrName addr).drift = m.drift := by
  have hsum := nValidatedInFlight_setState m nodeid
    { m.peer nodeid with name := addrName, address := addr }
  have hsame : (CNodeState.nValidated
      { m.peer nodeid with name := addrName, address := addr }) =
        (m.peer nodeid).nValidated := rfl
  rw [hsame] at hsum
  show m.nQueuedValidatedHeaders - ((m.setState nodeid
    { m.peer nodeid with name := addrName, address := addr }).nValidatedInFlight : Int) =
      m.nQueuedValidatedHeaders - m.nValidatedInFlight
  omega

theorem drift_markBlockAsReceived (h : m.markBlockAsReceived hash = some m') :
    m'.drift = m.drift := by
  rcases markBlockAsReceived_cases h with
    ⟨-, rfl⟩ | ⟨nodeid, it, state, entry, -, hstate, hentry, rfl⟩
  · rfl
  have hsum := nValidatedInFlight_setState m nodeid { state with
    vBlocksInFlight := state.vBlocksInFlight.erase it
    nBlocksInFlight := state.nBlocksInFlight - 1
    nStallingSince := 0 }
  have herase : state.nValidated = CNodeState.nValidated { state with
      vBlocksInFlight := state.vBlocksInFlight.erase it
      nBlocksInFlight := state.nBlocksInFlight - 1
      nStallingSince := 0 } + entry.fValidatedHeaders.toNat := by
    unfold CNodeState.nValidated
    rw [(LinkedList.toList_perm_erase hentry).countP_eq, List.countP_cons]
    cases entry.fValidatedHeaders <;> rfl
  have hbool : entry.fValidatedHeaders.toInt = entry.fValidatedHeaders.toNat := by
    cases entry.fValidatedHeaders <;> rfl
  rw [peer_of_state hstate] at hsum
  show m.nQueuedValidatedHeaders - entry.fValidatedHeaders.toInt -
    ((m.setState nodeid _).nValidatedInFlight : Int) = _
  unfold drift
  omega

theorem drift_queueBlock {state : CNodeState} (hstate : m.state nodeid = some state)
    (entry : QueuedBlock) : (m.queueBlock nodeid state entry).drift = m.drift := by
  have hsum := nValidatedInFlight_setState m nodeid { state with
    vBlocksInFlight := state.vBlocksInFlight.pushBack entry
    nBlocksInFlight := state.nBlocksInFlight + 1 }
  have hpush : CNodeState.nValidated { state with
      vBlocksInFlight := state.vBlocksInFlight.pushBack entry
      nBlocksInFlight := state.nBlocksInFlight + 1 } =
        state.nValidated + entry.fValidatedHeaders.toNat := by
    unfold CNodeState.nValidated
    rw [LinkedList.toList_pushBack, List.countP_append]
    cases hflag : entry.fValidatedHeaders <;> simp [hflag]
  have hbool : entry.fValidatedHeaders.toInt = entry.fValidatedHeaders.toNat := by
    cases entry.fValidatedHeaders <;> rfl
  rw [peer_of_state hstate] at hsum
  show m.nQueuedValidatedHeaders + entry.fValidatedHeaders.toInt -
    ((m.setState nodeid _).nValidatedInFlight : Int) = _
  unfold drift
  omega

/-- The entries of a peer that goes are not taken off the counter. -/
theorem drift_finalizeNode (h : m.finalizeNode nodeid = some m') {state : CNodeState}
    (hstate : m.state nodeid = some state) : m'.drift = m.drift + state.nValidated := by
  obtain ⟨state', hstate', hnodes, -, hcounter⟩ := finalizeNode_cases h
  have hsum := KeyedMap.sum_erase CNodeState.nValidated hstate
  unfold drift nValidatedInFlight
  rw [hnodes, hcounter]
  omega

theorem drift_step {event : PeerEvent} (hgo : ∀ nodeid, event ≠ .finalizeNode nodeid)
    (hstep : m.step event = some m') : m'.drift = m.drift := by
  cases event with
  | initializeNode nodeid addrName addr =>
      obtain rfl := Option.some.inj hstep
      exact drift_initializeNode m nodeid addrName addr
  | finalizeNode nodeid => exact absurd rfl (hgo nodeid)
  | markBlockAsReceived hash => exact drift_markBlockAsReceived hstep
  | markBlockAsInFlight nodeid hash pindex now =>
      obtain ⟨received, state, hreceived, hstate, rfl⟩ := markBlockAsInFlight_cases hstep
      rw [drift_queueBlock hstate, drift_markBlockAsReceived hreceived]

theorem nValidated_eq_zero_iff {state : CNodeState} : state.nValidated = 0 ↔
    ∀ entry ∈ state.vBlocksInFlight.toList, entry.fValidatedHeaders = false := by
  simp [CNodeState.nValidated]

theorem countsValidated_step (hstart : m.CountsValidated) (event : PeerEvent) :
    (∀ m', m.step event = some m' → m'.CountsValidated) ↔
      m.DropsNoValidated event := by
  simp only [countsValidated_iff] at hstart ⊢
  by_cases hgo : ∃ nodeid, event = .finalizeNode nodeid
  · obtain ⟨nodeid, rfl⟩ := hgo
    constructor
    · rintro h nodeid' state heq hstate
      obtain rfl := PeerEvent.finalizeNode.inj heq
      have hsome : (m.finalizeNode nodeid).isSome := by
        simp [finalizeNode, hstate]
      obtain ⟨m', hm'⟩ := Option.isSome_iff_exists.mp hsome
      have hdrift := drift_finalizeNode hm' hstate
      rw [h m' hm', hstart] at hdrift
      rw [← nValidated_eq_zero_iff]
      omega
    · intro h m' hm'
      obtain ⟨state, hstate, -⟩ := finalizeNode_cases hm'
      have hnone := nValidated_eq_zero_iff.mpr (h nodeid state rfl hstate)
      rw [drift_finalizeNode hm' hstate, hstart, hnone]
      rfl
  · push Not at hgo
    constructor
    · intro _ nodeid state heq
      exact absurd heq (hgo nodeid)
    · intro _ m' hm'
      rw [drift_step hgo hm', hstart]

end Counter

/-- **The counter of validated headers** is right in every state of a run if
and only if no peer goes while blocks with validated headers are queued with
it. -/
theorem nQueuedValidatedHeaders_iff (events : List PeerEvent) :
    (∀ reached rest, events = reached ++ rest → ∀ m, run reached = some m →
      m.CountsValidated) ↔
      EachAfter (fun before event => ∀ m, run before = some m →
        m.DropsNoValidated event) events := by
  apply @EachAfter.forall_reached_iff (Option PeerState) PeerEvent
    (fun o event => o.bind fun m => m.step event)
    (fun o => ∀ m, o = some m → m.CountsValidated) (some {})
    (fun o event => ∀ m, o = some m → m.DropsNoValidated event)
  · intro m h
    obtain rfl := Option.some.inj h
    exact countsValidated_iff.mpr rfl
  · intro o event hcounts
    cases o with
    | none => simp
    | some m => simpa using countsValidated_step (hcounts m rfl) event

/-- A peer that goes with one block in flight leaves the counter at 1. -/
theorem finalized_peer_leaves_counter : ∃ m,
    run [.initializeNode 1 "peer" "10.0.0.1:8333",
      .markBlockAsInFlight 1 7 (some 0) 1000, .finalizeNode 1] = some m ∧
    m.mapNodeState.toList.length = 0 ∧ m.nQueuedValidatedHeaders = 1 ∧
    ¬ m.CountsValidated := by
  refine ⟨_, rfl, by decide +kernel, by decide +kernel, ?_⟩
  rw [countsValidated_iff]
  decide +kernel

end PeerState

end Agrarian.Net
