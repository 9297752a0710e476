import Agrarian.Primitives
import Agrarian.Lib.KeyedMap
import Agrarian.Lib.Latest

/-!
# Votes on proposals and finalized budgets

How `masternode-budget.cpp` takes votes: a vote on a known proposal updates
the proposal's map of votes, a vote on an unknown one waits in a map of orphan
votes until the proposal arrives.  Votes on finalized budgets are handled by
the same code once more; both are instances of one book of votes.

Hashes and signature checks are parameters.  Relaying, asking peers for what
is missing, the synchronisation's counters and the logged reasons are left
out, and so are times so far apart that their difference does not fit.
-/

namespace Agrarian.Masternode.Votes

open Agrarian.Lib

def BUDGET_VOTE_UPDATE_MIN : Int := 60 * 60

def VOTE_ABSTAIN : Int := 0
def VOTE_YES : Int := 1
def VOTE_NO : Int := 2

structure CBudgetVote where
  /-- Whether the vote counts at present. -/
  fValid : Bool := true
  vin : CTxIn
  nProposalHash : Uint256
  nVote : Int
  nTime : Int
  vchSig : List UInt8 := []
  deriving DecidableEq, Repr

structure CFinalizedBudgetVote where
  vin : CTxIn
  nBudgetHash : Uint256
  nTime : Int
  vchSig : List UInt8 := []
  deriving DecidableEq, Repr

/-- What one message finds around the votes. -/
structure World where
  fLiteMode : Bool := false
  fBlockchainSynced : Bool := true
  /-- `masternodeSync.IsSynced()`. -/
  fSynced : Bool := true
  /-- `GetTime()`. -/
  nTime : Int := 0
  /-- `mnodeman.Find` finds the masternode. -/
  findMasternode : COutPoint → Bool := fun _ => true
  proposalSignatureValid : CBudgetVote → Bool := fun _ => true
  finalizedSignatureValid : CFinalizedBudgetVote → Bool := fun _ => true

/-- The hashes that votes are kept under. -/
structure Hashes where
  /-- `COutPoint::GetHash`. -/
  outpoint : COutPoint → Uint256
  proposalVote : CTxIn → Uint256 → Int → Int → Uint256
  finalizedVote : CTxIn → Uint256 → Int → Uint256

/-- What the code reads of a kind of votes. -/
structure VoteKind (V : Type) where
  vin : V → CTxIn
  /-- The proposal or budget that the vote is on. -/
  target : V → Uint256
  nTime : V → Int
  getHash : V → Uint256
  /-- The key of the masternode in the map of votes. -/
  voter : V → Uint256
  signatureValid : World → V → Bool

/-- The signature is not hashed. -/
def proposalVotes (hashes : Hashes) : VoteKind CBudgetVote where
  vin := CBudgetVote.vin
  target := CBudgetVote.nProposalHash
  nTime := CBudgetVote.nTime
  getHash := fun vote =>
    hashes.proposalVote vote.vin vote.nProposalHash vote.nVote vote.nTime
  voter := fun vote => hashes.outpoint vote.vin.prevout
  signatureValid := World.proposalSignatureValid

def finalizedVotes (hashes : Hashes) : VoteKind CFinalizedBudgetVote where
  vin := CFinalizedBudgetVote.vin
  target := CFinalizedBudgetVote.nBudgetHash
  nTime := CFinalizedBudgetVote.nTime
  getHash := fun vote =>
    hashes.finalizedVote vote.vin vote.nBudgetHash vote.nTime
  voter := fun vote => hashes.outpoint vote.vin.prevout
  signatureValid := World.finalizedSignatureValid

/-- The known items of one kind with their `mapVotes`, and the votes seen and
waiting. -/
structure VoteBook (V : Type) where
  mapItems : KeyedMap Uint256 (KeyedMap Uint256 V) := KeyedMap.empty
  mapSeenVotes : KeyedMap Uint256 V := KeyedMap.empty
  mapOrphanVotes : KeyedMap Uint256 V := KeyedMap.empty

section Book

variable {V : Type} (kind : VoteKind V)

/-- `AddOrUpdateVote`; `none` where the source returns `false`. -/
def addOrUpdateVote (world : World) (mapVotes : KeyedMap Uint256 V)
    (vote : V) : Option (KeyedMap Uint256 V) :=
  let stored :=
    if world.nTime + 60 * 60 < kind.nTime vote then none
    else some (mapVotes.insert (kind.voter vote) vote)
  match mapVotes.find? (kind.voter vote) with
  | none => stored
  | some old =>
      if kind.nTime vote < kind.nTime old then none
      else if kind.nTime vote - kind.nTime old < BUDGET_VOTE_UPDATE_MIN then
        none
      else stored

/-- `UpdateProposal` and `UpdateFinalizedBudget`; `fPeer` says whether the vote
comes from a peer. -/
def updateProposal (world : World) (book : VoteBook V) (vote : V)
    (fPeer : Bool) : VoteBook V × Bool :=
  match book.mapItems.find? (kind.target vote) with
  | none =>
      if fPeer && world.fSynced then
        ({ book with mapOrphanVotes :=
            book.mapOrphanVotes.insert (kind.target vote) vote }, false)
      else (book, false)
  | some mapVotes =>
      match addOrUpdateVote kind world mapVotes vote with
      | none => (book, false)
      | some mapVotes =>
          ({ book with mapItems :=
              book.mapItems.insert (kind.target vote) mapVotes }, true)

/-- The messages `mvote` and `fbvote`.  The vote is seen from here on, whatever
its signature. -/
def processVote (world : World) (book : VoteBook V) (vote : V) : VoteBook V :=
  if (book.mapSeenVotes.find? (kind.getHash vote)).isSome then book
  else if !world.findMasternode (kind.vin vote).prevout then book
  else
    let book := { book with mapSeenVotes :=
      book.mapSeenVotes.insert (kind.getHash vote) vote }
    if !kind.signatureValid world vote then book
    else (updateProposal kind world book vote true).1

/-- One turn of `CheckOrphanVotes`. -/
def replayOrphan (world : World) (book : VoteBook V) (entry : Uint256 × V) :
    VoteBook V :=
  let updated := updateProposal kind world book entry.2 false
  if updated.2 then
    { updated.1 with
      mapOrphanVotes := updated.1.mapOrphanVotes.erase entry.1 }
  else updated.1

def checkOrphanVotes (world : World) (book : VoteBook V) : VoteBook V :=
  book.mapOrphanVotes.toList.foldl (replayOrphan kind world) book

/-- `AddProposal` and `AddFinalizedBudget` for an item that is valid. -/
def addItem (book : VoteBook V) (hash : Uint256) : VoteBook V :=
  if (book.mapItems.find? hash).isSome then book
  else { book with mapItems := book.mapItems.insert hash KeyedMap.empty }

/-- What a message means for one of the two books. -/
inductive Action (V : Type)
  | nothing
  /-- An item that was waiting for its collateral to mature. -/
  | add (hash : Uint256)
  /-- A new item from a peer. -/
  | addAndCheck (hash : Uint256)
  | check
  | vote (vote : V)

def act (world : World) (book : VoteBook V) : Action V → VoteBook V
  | .nothing => book
  | .add hash => addItem book hash
  | .addAndCheck hash => checkOrphanVotes kind world (addItem book hash)
  | .check => checkOrphanVotes kind world book
  | .vote vote => processVote kind world book vote

/-- The state of the book after actions, each in a world of its own. -/
def runBook (book : VoteBook V) (actions : List (World × Action V)) :
    VoteBook V :=
  actions.foldl (fun book action => act kind action.1 book action.2) book

/-! ## Stored votes -/

/-- The vote in `mapVotes` of an item under the key of a masternode. -/
def VoteBook.storedVote (book : VoteBook V) (item voter : Uint256) : Option V :=
  (book.mapItems.find? item).bind fun mapVotes => mapVotes.find? voter

def VoteBook.Known (book : VoteBook V) (item : Uint256) : Prop :=
  (book.mapItems.find? item).isSome

variable {kind} {world : World} {book : VoteBook V} {vote : V}
  {item voter : Uint256}

/-- Both checks against the stored vote ask for one gap between the times. -/
theorem addOrUpdateVote_of_stored {mapVotes : KeyedMap Uint256 V} {old : V}
    (hold : mapVotes.find? (kind.voter vote) = some old)
    (htime : kind.nTime vote ≤ world.nTime + 60 * 60) :
    addOrUpdateVote kind world mapVotes vote =
      if kind.nTime vote < kind.nTime old + BUDGET_VOTE_UPDATE_MIN then none
      else some (mapVotes.insert (kind.voter vote) vote) := by
  unfold addOrUpdateVote
  simp only [hold, if_neg (Int.not_lt.mpr htime)]
  by_cases holder : kind.nTime vote < kind.nTime old
  · have hmin : (0 : Int) ≤ BUDGET_VOTE_UPDATE_MIN := by decide
    rw [if_pos holder, if_pos (by omega)]
  · rw [if_neg holder]
    by_cases hsoon : kind.nTime vote - kind.nTime old < BUDGET_VOTE_UPDATE_MIN
    · rw [if_pos hsoon, if_pos (by omega)]
    · rw [if_neg hsoon, if_neg (by omega)]

/-- A vote that is not too far in the future replaces one that is older by
`BUDGET_VOTE_UPDATE_MIN`. -/
theorem addOrUpdateVote_find? (mapVotes : KeyedMap Uint256 V)
    (htime : kind.nTime vote ≤ world.nTime + 60 * 60) :
    ((addOrUpdateVote kind world mapVotes vote).getD mapVotes).find? voter =
      if voter = kind.voter vote then
        adopt kind.nTime BUDGET_VOTE_UPDATE_MIN (mapVotes.find? voter) vote
      else mapVotes.find? voter := by
  cases hold : mapVotes.find? (kind.voter vote) with
  | none =>
      simp only [addOrUpdateVote, hold, if_neg (Int.not_lt.mpr htime)]
      by_cases hvoter : voter = kind.voter vote
      · simp [hvoter, hold, adopt]
      · simp [hvoter, KeyedMap.find?_insert]
  | some old =>
      rw [addOrUpdateVote_of_stored hold htime]
      by_cases hvoter : voter = kind.voter vote
      · subst hvoter
        rw [if_pos rfl, hold]
        by_cases hsoon : kind.nTime vote < kind.nTime old + BUDGET_VOTE_UPDATE_MIN
        · simp only [adopt, if_pos hsoon]
          exact hold
        · simp only [adopt, if_neg hsoon]
          exact KeyedMap.find?_insert_self _ _ _
      · rw [if_neg hvoter]
        split_ifs
        · simp
        · simp [KeyedMap.find?_insert, hvoter]

theorem updateProposal_mapItems (fPeer : Bool) :
    (updateProposal kind world book vote fPeer).1.mapItems =
      match book.mapItems.find? (kind.target vote) with
      | none => book.mapItems
      | some mapVotes =>
          (addOrUpdateVote kind world mapVotes vote).elim book.mapItems
            (book.mapItems.insert (kind.target vote)) := by
  unfold updateProposal
  cases book.mapItems.find? (kind.target vote) with
  | none => simp only; split <;> rfl
  | some mapVotes =>
      simp only
      cases addOrUpdateVote kind world mapVotes vote <;> rfl

@[simp] theorem updateProposal_known (fPeer : Bool) :
    (updateProposal kind world book vote fPeer).1.Known item ↔
      book.Known item := by
  unfold VoteBook.Known
  rw [updateProposal_mapItems]
  cases htarget : book.mapItems.find? (kind.target vote) with
  | none => rfl
  | some mapVotes =>
      dsimp only
      cases addOrUpdateVote kind world mapVotes vote with
      | none => rfl
      | some mapVotes' =>
          by_cases hitem : item = kind.target vote
          · simp [hitem, htarget]
          · simp [KeyedMap.find?_insert, hitem]

theorem updateProposal_storedVote (fPeer : Bool) (hknown : book.Known item)
    (htime : kind.nTime vote ≤ world.nTime + 60 * 60) :
    (updateProposal kind world book vote fPeer).1.storedVote item voter =
      if kind.target vote = item ∧ kind.voter vote = voter then
        adopt kind.nTime BUDGET_VOTE_UPDATE_MIN (book.storedVote item voter) vote
      else book.storedVote item voter := by
  unfold VoteBook.storedVote
  rw [updateProposal_mapItems]
  cases htarget : book.mapItems.find? (kind.target vote) with
  | none =>
      have hother : kind.target vote ≠ item := by
        rintro rfl
        simp [VoteBook.Known, htarget] at hknown
      rw [if_neg fun h => hother h.1]
  | some mapVotes =>
      have hfind : ((addOrUpdateVote kind world mapVotes vote).getD
          mapVotes).find? voter = _ := addOrUpdateVote_find? mapVotes htime
      dsimp only
      by_cases hitem : kind.target vote = item
      · subst hitem
        simp only [htarget, Option.bind_some, true_and, eq_comm (b := voter)]
        rw [← hfind]
        cases addOrUpdateVote kind world mapVotes vote with
        | none => simp [htarget]
        | some mapVotes' => simp
      · cases addOrUpdateVote kind world mapVotes vote with
        | none => simp [hitem]
        | some mapVotes' => simp [KeyedMap.find?_insert, hitem, Ne.symm hitem]

/-! ## Seen votes -/

variable (kind) in
def VoteBook.Seen (book : VoteBook V) (vote : V) : Prop :=
  (book.mapSeenVotes.find? (kind.getHash vote)).isSome

variable (kind) in
/-- The book once the vote is seen. -/
def VoteBook.see (book : VoteBook V) (vote : V) : VoteBook V :=
  { book with mapSeenVotes :=
      book.mapSeenVotes.insert (kind.getHash vote) vote }

instance (book : VoteBook V) (vote : V) : Decidable (book.Seen kind vote) :=
  inferInstanceAs (Decidable (_ = true))

theorem see_seen {other : V} : (book.see kind vote).Seen kind other ↔
    kind.getHash other = kind.getHash vote ∨ book.Seen kind other := by
  unfold VoteBook.Seen VoteBook.see
  by_cases h : kind.getHash other = kind.getHash vote
  · simp [h]
  · simp [KeyedMap.find?_insert, h]

@[simp] theorem updateProposal_mapSeenVotes (fPeer : Bool) :
    (updateProposal kind world book vote fPeer).1.mapSeenVotes =
      book.mapSeenVotes := by
  unfold updateProposal
  cases book.mapItems.find? (kind.target vote) with
  | none => simp only; split <;> rfl
  | some mapVotes =>
      simp only
      cases addOrUpdateVote kind world mapVotes vote <;> rfl

variable (kind) (world) (vote) in
/-- A signed vote of a known masternode that is not too far in the future. -/
structure ValidVote : Prop where
  masternode : world.findMasternode (kind.vin vote).prevout = true
  signature : kind.signatureValid world vote = true
  time : kind.nTime vote ≤ world.nTime + 60 * 60

/-- A vote of a known masternode that was not seen is seen now, and used if its
signature is valid. -/
theorem processVote_of_unseen (hseen : ¬book.Seen kind vote)
    (hmasternode : world.findMasternode (kind.vin vote).prevout = true) :
    processVote kind world book vote =
      if kind.signatureValid world vote then
        (updateProposal kind world (book.see kind vote) vote true).1
      else book.see kind vote := by
  unfold processVote
  rw [if_neg (show ¬(book.mapSeenVotes.find? (kind.getHash vote)).isSome from
    hseen)]
  simp only [hmasternode, Bool.not_true, Bool.false_eq_true, if_false]
  cases kind.signatureValid world vote <;> rfl

theorem processVote_of_unknownMasternode
    (hmasternode : ¬world.findMasternode (kind.vin vote).prevout = true) :
    processVote kind world book vote = book := by
  simp [processVote, hmasternode]

theorem processVote_of_seen (hseen : book.Seen kind vote) :
    processVote kind world book vote = book := if_pos hseen

/-! ## Known items -/

theorem addItem_known {hash : Uint256} :
    (addItem book hash).Known item ↔ item = hash ∨ book.Known item := by
  unfold addItem VoteBook.Known
  by_cases hhave : (book.mapItems.find? hash).isSome
  · rw [if_pos hhave]
    constructor
    · exact Or.inr
    · rintro (rfl | h)
      · exact hhave
      · exact h
  · rw [if_neg hhave]
    by_cases hitem : item = hash
    · simp [hitem]
    · simp [KeyedMap.find?_insert, hitem]

@[simp] theorem processVote_known :
    (processVote kind world book vote).Known item ↔ book.Known item := by
  by_cases hseen : book.Seen kind vote
  · rw [processVote_of_seen hseen]
  · by_cases hmasternode : world.findMasternode (kind.vin vote).prevout = true
    · rw [processVote_of_unseen hseen hmasternode]
      split_ifs
      · rw [updateProposal_known]
        rfl
      · rfl
    · rw [processVote_of_unknownMasternode hmasternode]

@[simp] theorem replayOrphan_known {entry : Uint256 × V} :
    (replayOrphan kind world book entry).Known item ↔ book.Known item := by
  unfold replayOrphan
  dsimp only
  split
  · exact updateProposal_known false
  · exact updateProposal_known false

@[simp] theorem checkOrphanVotes_known :
    (checkOrphanVotes kind world book).Known item ↔ book.Known item := by
  unfold checkOrphanVotes
  generalize book.mapOrphanVotes.toList = entries
  induction entries generalizing book with
  | nil => rfl
  | cons entry entries ih => exact ih.trans replayOrphan_known

theorem act_known {action : Action V} (h : book.Known item) :
    (act kind world book action).Known item := by
  cases action with
  | nothing => exact h
  | add hash => exact addItem_known.mpr (Or.inr h)
  | addAndCheck hash =>
      exact checkOrphanVotes_known.mpr (addItem_known.mpr (Or.inr h))
  | check => exact checkOrphanVotes_known.mpr h
  | vote vote => exact processVote_known.mpr h

theorem runBook_known {actions : List (World × Action V)}
    (h : book.Known item) : (runBook kind book actions).Known item := by
  induction actions generalizing book with
  | nil => exact h
  | cons action actions ih => exact ih (act_known h)

end Book

/-! ## The manager -/

/-- The two books of `CBudgetManager`. -/
structure BudgetVotes where
  proposals : VoteBook CBudgetVote := {}
  budgets : VoteBook CFinalizedBudgetVote := {}

/-- Proposals and budgets stand for messages that are new and valid. -/
inductive Message
  | mprop (hash : Uint256)
  | mvote (vote : CBudgetVote)
  | fbs (hash : Uint256)
  | fbvote (vote : CFinalizedBudgetVote)
  /-- `NewBlock` adds a proposal whose collateral has matured. -/
  | matureProposal (hash : Uint256)
  | matureBudget (hash : Uint256)

structure Event where
  world : World
  msg : Message

/-- `ProcessMessage` takes messages of peers. -/
def handles (world : World) : Bool :=
  !world.fLiteMode && world.fBlockchainSynced

/-- What an event means for the proposals. -/
def Event.onProposals (event : Event) : Action CBudgetVote :=
  match event.msg with
  | .mprop hash => if handles event.world then .addAndCheck hash else .nothing
  | .mvote vote =>
      if handles event.world then .vote { vote with fValid := true }
      else .nothing
  -- both kinds of orphan votes are checked for a new item of either kind
  | .fbs _ => if handles event.world then .check else .nothing
  | .fbvote _ => .nothing
  | .matureProposal hash => .add hash
  | .matureBudget _ => .nothing

/-- What an event means for the finalized budgets. -/
def Event.onBudgets (event : Event) : Action CFinalizedBudgetVote :=
  match event.msg with
  | .mprop _ => if handles event.world then .check else .nothing
  | .mvote _ => .nothing
  | .fbs hash => if handles event.world then .addAndCheck hash else .nothing
  | .fbvote vote => if handles event.world then .vote vote else .nothing
  | .matureProposal _ => .nothing
  | .matureBudget hash => .add hash

def processMessage (hashes : Hashes) (mgr : BudgetVotes) (event : Event) :
    BudgetVotes where
  proposals := act (proposalVotes hashes) event.world mgr.proposals
    event.onProposals
  budgets := act (finalizedVotes hashes) event.world mgr.budgets
    event.onBudgets

def run (hashes : Hashes) (mgr : BudgetVotes) (events : List Event) :
    BudgetVotes :=
  events.foldl (processMessage hashes) mgr

def proposalActions (events : List Event) : List (World × Action CBudgetVote) :=
  events.map fun event => (event.world, event.onProposals)

def finalizedActions (events : List Event) :
    List (World × Action CFinalizedBudgetVote) :=
  events.map fun event => (event.world, event.onBudgets)

/-- The run of the manager is a run of each of its books. -/
theorem run_eq (hashes : Hashes) (mgr : BudgetVotes) (events : List Event) :
    run hashes mgr events =
      { proposals := runBook (proposalVotes hashes) mgr.proposals
          (proposalActions events)
        budgets := runBook (finalizedVotes hashes) mgr.budgets
          (finalizedActions events) } := by
  induction events generalizing mgr with
  | nil => rfl
  | cons event events ih => exact ih (processMessage hashes mgr event)

/-- `GetYeas`. -/
def getYeas (mapVotes : KeyedMap Uint256 CBudgetVote) : Nat :=
  mapVotes.toList.countP fun entry =>
    entry.2.nVote == VOTE_YES && entry.2.fValid

/-- `GetNays`. -/
def getNays (mapVotes : KeyedMap Uint256 CBudgetVote) : Nat :=
  mapVotes.toList.countP fun entry =>
    entry.2.nVote == VOTE_NO && entry.2.fValid

end Agrarian.Masternode.Votes
