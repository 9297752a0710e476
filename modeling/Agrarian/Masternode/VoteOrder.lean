import Agrarian.Masternode.BudgetVotes

/-!
# The order of budget votes

A node that knows an item takes the votes of a masternode as `Lib.Latest`
describes: each must be an hour after the one it replaces.  So the order of
delivery matters among votes of one masternode that lie within an hour, and
does not matter where the latest vote is an hour after the others.
-/

namespace Agrarian.Masternode.Votes

open Agrarian.Lib

section Book

variable {V : Type} {kind : VoteKind V} {book : VoteBook V}
  {item voter : Uint256} {actions : List (World × Action V)}

variable (kind) in
/-- Nothing or a valid vote. -/
def Action.Delivers (world : World) : Action V → Prop
  | .nothing => True
  | .vote v => ValidVote kind world v
  | _ => False

def Action.vote? : Action V → Option V
  | .vote v => some v
  | _ => none

def votesOf (actions : List (World × Action V)) : List V :=
  actions.filterMap fun action => action.2.vote?

variable (kind) in
/-- The votes of a masternode on an item that the book has not seen. -/
def newVotes (book : VoteBook V) (votes : List V) (item voter : Uint256) :
    List V :=
  votes.filter fun vote => !decide (book.Seen kind vote) &&
    (kind.target vote == item && kind.voter vote == voter)

theorem mem_newVotes {votes : List V} {vote : V} :
    vote ∈ newVotes kind book votes item voter ↔
      vote ∈ votes ∧ ¬book.Seen kind vote ∧ kind.target vote = item ∧
        kind.voter vote = voter := by
  simp [newVotes]

variable (kind) in
/-- Votes with one hash agree in what is hashed. -/
def HashesApart (votes : List V) : Prop :=
  ∀ vote ∈ votes, ∀ other ∈ votes, kind.getHash vote = kind.getHash other →
    kind.target vote = kind.target other ∧ kind.voter vote = kind.voter other ∧
      kind.nTime vote = kind.nTime other

section Step

variable {world : World} {vote : V}

@[simp] theorem see_known : (book.see kind vote).Known item ↔ book.Known item :=
  Iff.rfl

theorem processVote_of_valid (hvalid : ValidVote kind world vote)
    (hseen : ¬book.Seen kind vote) : processVote kind world book vote =
      (updateProposal kind world (book.see kind vote) vote true).1 := by
  rw [processVote_of_unseen hseen hvalid.masternode, if_pos hvalid.signature]

theorem processVote_seen_of_valid {other : V}
    (hvalid : ValidVote kind world vote) (hseen : ¬book.Seen kind vote) :
    (processVote kind world book vote).Seen kind other ↔
      kind.getHash other = kind.getHash vote ∨ book.Seen kind other := by
  rw [← see_seen, processVote_of_valid hvalid hseen]
  unfold VoteBook.Seen
  rw [updateProposal_mapSeenVotes]

end Step

/-! ## Runs of votes -/

variable (kind) in
/-- Only new votes count, and one for every hash of them. -/
structure Counted (book : VoteBook V) (votes : List V) (item voter : Uint256)
    (counted : List V) : Prop where
  sound : ∀ vote ∈ counted, vote ∈ newVotes kind book votes item voter
  complete : ∀ vote ∈ newVotes kind book votes item voter,
    ∃ same ∈ counted, kind.getHash same = kind.getHash vote

theorem Counted.nil : Counted kind book [] item voter [] :=
  ⟨by simp, by simp [newVotes]⟩

theorem mem_newVotes_processVote {world : World} {vote other : V}
    {votes : List V} (hvalid : ValidVote kind world vote)
    (hseen : ¬book.Seen kind vote) :
    other ∈ newVotes kind (processVote kind world book vote) votes item voter ↔
      kind.getHash other ≠ kind.getHash vote ∧
        other ∈ newVotes kind book votes item voter := by
  rw [mem_newVotes, mem_newVotes, processVote_seen_of_valid hvalid hseen]
  tauto

theorem Counted.cons {world : World} {vote : V} {votes counted : List V}
    (hvalid : ValidVote kind world vote) (hseen : ¬book.Seen kind vote)
    (hhash : HashesApart kind (vote :: votes))
    (h : Counted kind (processVote kind world book vote) votes item voter
      counted) :
    Counted kind book (vote :: votes) item voter
      (if kind.target vote = item ∧ kind.voter vote = voter then vote :: counted
      else counted) := by
  have hsound : ∀ other ∈ counted,
      other ∈ newVotes kind book (vote :: votes) item voter := by
    intro other hcounted
    have := ((mem_newVotes_processVote hvalid hseen).mp (h.sound other hcounted)).2
    rw [mem_newVotes] at this ⊢
    exact ⟨List.mem_cons_of_mem _ this.1, this.2⟩
  have hcomplete : ∀ other ∈ newVotes kind book (vote :: votes) item voter,
      kind.getHash other ≠ kind.getHash vote →
      ∃ same ∈ counted, kind.getHash same = kind.getHash other := by
    intro other hother hdiffer
    rw [mem_newVotes] at hother
    have hin : other ∈ votes := by
      rcases List.mem_cons.mp hother.1 with rfl | hin
      · exact absurd rfl hdiffer
      · exact hin
    exact h.complete other ((mem_newVotes_processVote hvalid hseen).mpr
      ⟨hdiffer, mem_newVotes.mpr ⟨hin, hother.2⟩⟩)
  by_cases hmine : kind.target vote = item ∧ kind.voter vote = voter
  · rw [if_pos hmine]
    constructor
    · intro other hcounted
      rcases List.mem_cons.mp hcounted with rfl | hcounted
      · exact mem_newVotes.mpr ⟨by simp, hseen, hmine⟩
      · exact hsound other hcounted
    · intro other hother
      by_cases hsame : kind.getHash other = kind.getHash vote
      · exact ⟨vote, by simp, hsame.symm⟩
      · obtain ⟨same, hcounted, heq⟩ := hcomplete other hother hsame
        exact ⟨same, List.mem_cons_of_mem _ hcounted, heq⟩
  · rw [if_neg hmine]
    constructor
    · exact hsound
    · intro other hother
      apply hcomplete other hother
      intro hsame
      -- one hash would make it a vote of this masternode as well
      obtain ⟨hin, -, htarget, hvoter⟩ := mem_newVotes.mp hother
      obtain ⟨htarget', hvoter', -⟩ := hhash other hin vote (by simp) hsame
      exact hmine ⟨htarget'.symm.trans htarget, hvoter'.symm.trans hvoter⟩

end Book

/-! ## The manager -/

/-- The event is a valid vote, and the node takes it. -/
def DeliversVote (hashes : Hashes) (event : Event) : Prop :=
  handles event.world ∧
    match event.msg with
    | .mvote vote => ValidVote (proposalVotes hashes) event.world
        { vote with fValid := true }
    | .fbvote vote => ValidVote (finalizedVotes hashes) event.world vote
    | _ => False

theorem DeliversVote.delivers {hashes : Hashes} {event : Event}
    (h : DeliversVote hashes event) :
    event.onProposals.Delivers (proposalVotes hashes) event.world ∧
      event.onBudgets.Delivers (finalizedVotes hashes) event.world := by
  obtain ⟨world, msg⟩ := event
  obtain ⟨hhandles, hvalid⟩ := h
  unfold Event.onProposals Event.onBudgets
  cases msg with
  | mvote vote => simpa [hhandles, Action.Delivers] using hvalid
  | fbvote vote => simpa [hhandles, Action.Delivers] using hvalid
  | mprop hash => exact absurd hvalid id
  | fbs hash => exact absurd hvalid id
  | matureProposal hash => exact absurd hvalid id
  | matureBudget hash => exact absurd hvalid id

section Example

def sampleHashes : Hashes where
  outpoint := fun out => BitVec.ofNat 256 out.n
  proposalVote := fun vin _ nVote nTime =>
    BitVec.ofInt 256 (64 * nTime + 4 * vin.prevout.n + nVote)
  finalizedVote := fun vin _ nTime =>
    BitVec.ofInt 256 (64 * nTime + vin.prevout.n)

end Example

end Agrarian.Masternode.Votes
