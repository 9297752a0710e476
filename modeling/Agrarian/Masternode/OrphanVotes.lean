import Agrarian.Lib.Run
import Agrarian.Masternode.VoteOrder

/-!
# Votes that wait for their item

A vote on an unknown item waits in a map that has one place for each item, and
`CheckOrphanVotes` offers the waiting votes to the items known by then.  A vote
is marked as seen before its signature is checked, and the mark is a hash
without the signature.

So votes are lost: the vote of one masternode takes the place of another's,
and a forged copy keeps the genuine vote out.  The run theorem names the steps
that lose votes, and says that nothing is lost in runs without them.
-/

namespace Agrarian.Masternode.Votes

open Agrarian.Lib

section Book

variable {V : Type} {kind : VoteKind V} {world : World} {book : VoteBook V}
  {vote waiting : V} {item voter : Uint256}

/-! ## Stored votes stay -/

theorem addOrUpdateVote_eq_some {mapVotes mapVotes' : KeyedMap Uint256 V}
    (h : addOrUpdateVote kind world mapVotes vote = some mapVotes') :
    mapVotes' = mapVotes.insert (kind.voter vote) vote := by
  unfold addOrUpdateVote at h
  cases hold : mapVotes.find? (kind.voter vote) with
  | none =>
      simp only [hold] at h
      split_ifs at h
      exact (Option.some.inj h).symm
  | some old =>
      simp only [hold] at h
      split_ifs at h
      exact (Option.some.inj h).symm

theorem updateProposal_stored (fPeer : Bool)
    (h : (book.storedVote item voter).isSome) :
    ((updateProposal kind world book vote fPeer).1.storedVote item
      voter).isSome := by
  unfold VoteBook.storedVote at h ⊢
  rw [updateProposal_mapItems]
  cases htarget : book.mapItems.find? (kind.target vote) with
  | none => exact h
  | some mapVotes =>
      dsimp only
      cases hadd : addOrUpdateVote kind world mapVotes vote with
      | none => exact h
      | some mapVotes' =>
          rw [addOrUpdateVote_eq_some hadd]
          by_cases hitem : item = kind.target vote
          · subst hitem
            rw [htarget] at h
            by_cases hvoter : voter = kind.voter vote
            · simp [hvoter]
            · simpa [KeyedMap.find?_insert, hvoter] using h
          · simpa [KeyedMap.find?_insert, hitem] using h

/-- A vote that a known item takes is stored, or the one it is too close to. -/
theorem updateProposal_stored_self (fPeer : Bool)
    (hknown : book.Known (kind.target vote))
    (htime : kind.nTime vote ≤ world.nTime + 60 * 60) :
    ((updateProposal kind world book vote fPeer).1.storedVote (kind.target vote)
      (kind.voter vote)).isSome := by
  rw [updateProposal_storedVote fPeer hknown htime, if_pos ⟨rfl, rfl⟩]
  unfold adopt
  split
  · rfl
  · split_ifs <;> rfl

theorem updateProposal_stored_of_updated {fPeer : Bool}
    (h : (updateProposal kind world book vote fPeer).2 = true) :
    ((updateProposal kind world book vote fPeer).1.storedVote (kind.target vote)
      (kind.voter vote)).isSome := by
  unfold updateProposal at h ⊢
  cases htarget : book.mapItems.find? (kind.target vote) with
  | none =>
      rw [htarget] at h
      dsimp only at h
      split_ifs at h
  | some mapVotes =>
      rw [htarget] at h
      dsimp only at h ⊢
      cases hadd : addOrUpdateVote kind world mapVotes vote with
      | none => simp [hadd] at h
      | some mapVotes' =>
          rw [addOrUpdateVote_eq_some hadd]
          simp [VoteBook.storedVote]

@[simp] theorem addItem_storedVote {hash : Uint256} :
    (addItem book hash).storedVote item voter = book.storedVote item voter := by
  unfold addItem VoteBook.storedVote
  by_cases hhave : (book.mapItems.find? hash).isSome
  · rw [if_pos hhave]
  · rw [if_neg hhave]
    by_cases hitem : item = hash
    · rw [hitem, Option.not_isSome_iff_eq_none.mp hhave]
      simp
    · simp [KeyedMap.find?_insert, hitem]

@[simp] theorem addItem_mapOrphanVotes {hash : Uint256} :
    (addItem book hash).mapOrphanVotes = book.mapOrphanVotes := by
  unfold addItem
  split_ifs <;> rfl

@[simp] theorem addItem_mapSeenVotes {hash : Uint256} :
    (addItem book hash).mapSeenVotes = book.mapSeenVotes := by
  unfold addItem
  split_ifs <;> rfl

/-! ## Waiting votes -/

variable (kind) in
/-- A vote of the masternode waits for the item. -/
def VoteBook.Waits (book : VoteBook V) (item voter : Uint256) : Prop :=
  ∃ waiting, book.mapOrphanVotes.find? item = some waiting ∧
    kind.voter waiting = voter

variable (kind) in
/-- Waiting votes are kept under the item that they are on. -/
def VoteBook.OrphansKeyed (book : VoteBook V) : Prop :=
  ∀ item waiting, book.mapOrphanVotes.find? item = some waiting →
    kind.target waiting = item

/-- Only a vote of a peer on an unknown item waits. -/
theorem updateProposal_mapOrphanVotes (fPeer : Bool) :
    (updateProposal kind world book vote fPeer).1.mapOrphanVotes =
      if (book.mapItems.find? (kind.target vote)).isNone ∧ fPeer = true ∧
          world.fSynced = true then
        book.mapOrphanVotes.insert (kind.target vote) vote
      else book.mapOrphanVotes := by
  unfold updateProposal
  cases book.mapItems.find? (kind.target vote) with
  | none =>
      cases fPeer with
      | false => rfl
      | true => cases hsynced : world.fSynced <;> simp
  | some mapVotes =>
      dsimp only
      cases addOrUpdateVote kind world mapVotes vote <;> simp

variable (kind) (world) (book) in
/-- One replayed vote: it is stored and stops waiting, or still waits. -/
theorem replayOrphan_mapOrphanVotes (entry : Uint256 × V) :
    (replayOrphan kind world book entry).mapOrphanVotes = book.mapOrphanVotes ∨
    (replayOrphan kind world book entry).mapOrphanVotes =
        book.mapOrphanVotes.erase entry.1 ∧
      ((replayOrphan kind world book entry).storedVote (kind.target entry.2)
        (kind.voter entry.2)).isSome := by
  have horphans : (updateProposal kind world book entry.2 false).1.mapOrphanVotes =
      _ := updateProposal_mapOrphanVotes false
  unfold replayOrphan
  dsimp only
  split
  · rename_i hupdated
    right
    constructor
    · simp [horphans]
    · exact updateProposal_stored_of_updated hupdated
  · left
    simp [horphans]

theorem replayOrphan_stored {entry : Uint256 × V}
    (h : (book.storedVote item voter).isSome) :
    ((replayOrphan kind world book entry).storedVote item voter).isSome := by
  unfold replayOrphan
  dsimp only
  split
  · exact updateProposal_stored false h
  · exact updateProposal_stored false h

@[simp] theorem replayOrphan_mapSeenVotes {entry : Uint256 × V} :
    (replayOrphan kind world book entry).mapSeenVotes = book.mapSeenVotes := by
  unfold replayOrphan
  dsimp only
  split
  · exact updateProposal_mapSeenVotes false
  · exact updateProposal_mapSeenVotes false

theorem replayOrphan_stored_self {entry : Uint256 × V}
    (hknown : book.Known (kind.target entry.2))
    (htime : kind.nTime entry.2 ≤ world.nTime + 60 * 60) :
    ((replayOrphan kind world book entry).storedVote (kind.target entry.2)
      (kind.voter entry.2)).isSome := by
  have hstored := updateProposal_stored_self false hknown htime
  unfold replayOrphan
  dsimp only
  split
  · exact hstored
  · exact hstored

/-! ## The replay -/

section Replay

variable {entries : List (Uint256 × V)}

theorem replay_stored (h : (book.storedVote item voter).isSome) :
    ((entries.foldl (replayOrphan kind world) book).storedVote item
      voter).isSome := by
  induction entries generalizing book with
  | nil => exact h
  | cons entry entries ih => exact ih (replayOrphan_stored h)

theorem replay_mapSeenVotes :
    (entries.foldl (replayOrphan kind world) book).mapSeenVotes =
      book.mapSeenVotes := by
  induction entries generalizing book with
  | nil => rfl
  | cons entry entries ih => exact ih.trans replayOrphan_mapSeenVotes

theorem replay_mapOrphanVotes
    (h : (entries.foldl (replayOrphan kind world) book).mapOrphanVotes.find?
      item = some waiting) :
    book.mapOrphanVotes.find? item = some waiting := by
  induction entries generalizing book with
  | nil => exact h
  | cons entry entries ih =>
      have hnext := ih h
      rcases replayOrphan_mapOrphanVotes kind world book entry with heq | ⟨heq, -⟩
      · rwa [heq] at hnext
      · rw [heq, KeyedMap.find?_erase] at hnext
        split_ifs at hnext
        exact hnext

/-- A waiting vote still waits or its masternode has a vote stored. -/
theorem replay_waits (hwaiting : book.mapOrphanVotes.find? item = some waiting)
    (hkeyed : kind.target waiting = item)
    (hentries : ∀ entry ∈ entries, entry.1 = item → entry.2 = waiting) :
    (entries.foldl (replayOrphan kind world) book).mapOrphanVotes.find? item =
        some waiting ∨
      ((entries.foldl (replayOrphan kind world) book).storedVote item
        (kind.voter waiting)).isSome := by
  induction entries generalizing book with
  | nil => exact Or.inl hwaiting
  | cons entry entries ih =>
      have hrest : ∀ entry ∈ entries, entry.1 = item → entry.2 = waiting :=
        fun entry hmem => hentries entry (List.mem_cons_of_mem _ hmem)
      rw [List.foldl_cons]
      rcases replayOrphan_mapOrphanVotes kind world book entry with heq | ⟨heq, hstored⟩
      · exact ih (by rw [heq]; exact hwaiting) hrest
      · by_cases hitem : entry.1 = item
        · right
          rw [hentries entry (by simp) hitem, hkeyed] at hstored
          exact replay_stored hstored
        · apply ih _ hrest
          rw [heq, KeyedMap.find?_erase_ne _ (Ne.symm hitem)]
          exact hwaiting

theorem replay_stored_self (hentry : (item, waiting) ∈ entries)
    (hkeyed : kind.target waiting = item) (hknown : book.Known item)
    (htime : kind.nTime waiting ≤ world.nTime + 60 * 60) :
    ((entries.foldl (replayOrphan kind world) book).storedVote item
      (kind.voter waiting)).isSome := by
  induction entries generalizing book with
  | nil => cases hentry
  | cons entry entries ih =>
      rw [List.foldl_cons]
      rcases List.mem_cons.mp hentry with rfl | hmem
      · have hstored : ((replayOrphan kind world book
            (item, waiting)).storedVote (kind.target waiting)
            (kind.voter waiting)).isSome :=
          replayOrphan_stored_self (hkeyed.symm ▸ hknown) htime
        rw [hkeyed] at hstored
        exact replay_stored hstored
      · exact ih hmem (replayOrphan_known.mpr hknown)

end Replay

theorem checkOrphanVotes_waits (hkeyed : book.OrphansKeyed kind)
    (hwaits : book.Waits kind item voter) :
    (checkOrphanVotes kind world book).Waits kind item voter ∨
      ((checkOrphanVotes kind world book).storedVote item voter).isSome := by
  obtain ⟨waiting, hwaiting, rfl⟩ := hwaits
  have hentries : ∀ entry ∈ book.mapOrphanVotes.toList, entry.1 = item →
      entry.2 = waiting := by
    rintro ⟨key, other⟩ hmem rfl
    rw [KeyedMap.mem_toList, hwaiting] at hmem
    exact (Option.some.inj hmem).symm
  rcases replay_waits hwaiting (hkeyed item waiting hwaiting) hentries
    with hstill | hstored
  · exact Or.inl ⟨waiting, hstill, rfl⟩
  · exact Or.inr hstored

theorem checkOrphanVotes_stored (hkeyed : book.OrphansKeyed kind)
    (hwaiting : book.mapOrphanVotes.find? item = some waiting)
    (hknown : book.Known item)
    (htime : kind.nTime waiting ≤ world.nTime + 60 * 60) :
    ((checkOrphanVotes kind world book).storedVote item
      (kind.voter waiting)).isSome :=
  replay_stored_self (KeyedMap.mem_toList.mpr hwaiting)
    (hkeyed item waiting hwaiting) hknown htime

/-! ## Runs -/

variable (kind)

/-- The actions deliver a valid vote of the masternode on the item. -/
def Voted (actions : List (World × Action V)) (item voter : Uint256) : Prop :=
  ∃ world vote, (world, Action.vote vote) ∈ actions ∧
    ValidVote kind world vote ∧ kind.target vote = item ∧
    kind.voter vote = voter

/-- The actions deliver a validly signed vote with the fields of the vote. -/
def SignedFor (actions : List (World × Action V)) (vote : V) : Prop :=
  ∃ world other, (world, Action.vote other) ∈ actions ∧
    world.findMasternode (kind.vin other).prevout = true ∧
    kind.signatureValid world other = true ∧
    kind.getHash other = kind.getHash vote

def Action.Checks : Action V → Prop
  | .addAndCheck _ => True
  | .check => True
  | _ => False

/-- `CheckOrphanVotes` has run when the item was known. -/
def Checked (actions : List (World × Action V)) (item : Uint256) : Prop :=
  ∃ before action after, actions = before ++ action :: after ∧
    action.2.Checks ∧ (runBook kind {} (before ++ [action])).Known item

/-- After the actions no vote is lost: every masternode with a valid vote on a
checked item has a vote stored, and a vote whose fields no valid signature came
with so far is handed to its item. -/
structure NothingLost (actions : List (World × Action V)) (book : VoteBook V) :
    Prop where
  stored : ∀ item voter, Checked kind actions item → Voted kind actions item voter →
    (book.storedVote item voter).isSome
  genuine : ∀ world vote,
    world.findMasternode (kind.vin vote).prevout = true →
    kind.signatureValid world vote = true → ¬SignedFor kind actions vote →
    processVote kind world book vote =
      (updateProposal kind world (book.see kind vote) vote true).1

/-- What a vote must meet after the actions before it. -/
structure VoteKept (before : List (World × Action V)) (world : World)
    (vote : V) : Prop where
  /-- A forged vote does not come first. -/
  forged : world.findMasternode (kind.vin vote).prevout = true →
    kind.signatureValid world vote = false →
    (runBook kind {} before).Seen kind vote
  /-- A valid vote that no other vote stands for is taken. -/
  taken : ValidVote kind world vote →
    ((runBook kind {} before).storedVote (kind.target vote)
      (kind.voter vote)).isSome ∨
    (runBook kind {} before).Waits kind (kind.target vote) (kind.voter vote) ∧
      ¬Checked kind before (kind.target vote) ∨
    ¬(runBook kind {} before).Seen kind vote ∧
      ((runBook kind {} before).Known (kind.target vote) ∨ world.fSynced = true)
  /-- A vote that will wait leaves the waiting votes of others in place. -/
  place : world.findMasternode (kind.vin vote).prevout = true →
    kind.signatureValid world vote = true →
    ¬(runBook kind {} before).Seen kind vote →
    ¬(runBook kind {} before).Known (kind.target vote) →
    ∀ waiting, (runBook kind {} before).mapOrphanVotes.find? (kind.target vote) =
      some waiting → kind.voter waiting = kind.voter vote ∨
      ¬Voted kind before (kind.target vote) (kind.voter waiting)

/-- The votes that `CheckOrphanVotes` offers are not too far in the future. -/
def ReplayKept (before : List (World × Action V)) (world : World)
    (book : VoteBook V) : Prop :=
  ∀ item waiting, book.mapOrphanVotes.find? item = some waiting →
    book.Known item → kind.nTime waiting ≤ world.nTime + 60 * 60 ∨
      (book.storedVote item (kind.voter waiting)).isSome ∨
      ¬Voted kind before item (kind.voter waiting)

/-- A step at which no vote is lost. -/
def Keeps (before : List (World × Action V)) (action : World × Action V) : Prop :=
  match action.2 with
  | .vote vote => VoteKept kind before action.1 vote
  | .addAndCheck hash =>
      ReplayKept kind before action.1 (addItem (runBook kind {} before) hash)
  | .check => ReplayKept kind before action.1 (runBook kind {} before)
  | _ => True

/-- What holds after steps that keep all votes. -/
structure Held (actions : List (World × Action V)) : Prop where
  keyed : (runBook kind {} actions).OrphansKeyed kind
  kept : ∀ item voter, Voted kind actions item voter →
    ((runBook kind {} actions).storedVote item voter).isSome ∨
      (runBook kind {} actions).Waits kind item voter
  stored : ∀ item voter, Checked kind actions item → Voted kind actions item voter →
    ((runBook kind {} actions).storedVote item voter).isSome
  seen : ∀ vote, (runBook kind {} actions).Seen kind vote →
    SignedFor kind actions vote

variable {kind} {before : List (World × Action V)} {action : World × Action V}

theorem runBook_append_singleton :
    runBook kind book (before ++ [action]) =
      act kind action.1 (runBook kind book before) action.2 := by
  simp [runBook]

theorem voted_append_singleton : Voted kind (before ++ [action]) item voter ↔
    Voted kind before item voter ∨
      ∃ vote, action.2 = Action.vote vote ∧ ValidVote kind action.1 vote ∧
        kind.target vote = item ∧ kind.voter vote = voter := by
  constructor
  · rintro ⟨world, vote, hmem, hvote⟩
    rcases List.mem_append.mp hmem with hmem | hmem
    · exact Or.inl ⟨world, vote, hmem, hvote⟩
    · obtain rfl := List.mem_singleton.mp hmem
      exact Or.inr ⟨vote, rfl, hvote⟩
  · rintro (⟨world, vote, hmem, hvote⟩ | ⟨vote, haction, hvote⟩)
    · exact ⟨world, vote, List.mem_append_left _ hmem, hvote⟩
    · obtain ⟨world, what⟩ := action
      obtain rfl : what = Action.vote vote := haction
      exact ⟨world, vote, by simp, hvote⟩

theorem checked_append_singleton : Checked kind (before ++ [action]) item ↔
    Checked kind before item ∨
      action.2.Checks ∧ (runBook kind {} (before ++ [action])).Known item := by
  constructor
  · rintro ⟨first, action', after, heq, hchecks, hknown⟩
    rcases List.eq_nil_or_concat' after with rfl | ⟨after', last, rfl⟩
    · obtain ⟨rfl, hlast⟩ := List.append_inj' heq rfl
      obtain rfl : action = action' := by simpa using hlast
      exact Or.inr ⟨hchecks, hknown⟩
    · rw [← List.cons_append, ← List.append_assoc] at heq
      obtain ⟨hinit, -⟩ := List.append_inj' heq rfl
      exact Or.inl ⟨first, action', after', hinit, hchecks, hknown⟩
  · rintro (⟨first, action', after, rfl, hchecks, hknown⟩ | ⟨hchecks, hknown⟩)
    · exact ⟨first, action', after ++ [action], by simp, hchecks, hknown⟩
    · exact ⟨before, action, [], by simp, hchecks, hknown⟩

theorem SignedFor.append {vote : V} (h : SignedFor kind before vote) :
    SignedFor kind (before ++ [action]) vote := by
  obtain ⟨world, other, hmem, hother⟩ := h
  exact ⟨world, other, List.mem_append_left _ hmem, hother⟩

theorem Checked.known (h : Checked kind before item) :
    (runBook kind {} before).Known item := by
  obtain ⟨first, action, after, rfl, -, hknown⟩ := h
  have hsplit : first ++ action :: after = (first ++ [action]) ++ after := by simp
  rw [hsplit, runBook, List.foldl_append]
  exact runBook_known hknown

theorem Held.nil : Held kind ([] : List (World × Action V)) where
  keyed := by
    intro item waiting h
    simp [runBook] at h
  kept := by
    rintro item voter ⟨world, vote, hmem, -⟩
    cases hmem
  stored := by
    rintro item voter - ⟨world, vote, hmem, -⟩
    cases hmem
  seen := by
    intro vote h
    simp [VoteBook.Seen, runBook] at h

theorem voted_of_no_vote (h : ∀ vote, action.2 ≠ Action.vote vote) :
    Voted kind (before ++ [action]) item voter ↔ Voted kind before item voter := by
  rw [voted_append_singleton]
  constructor
  · rintro (hvoted | ⟨vote, haction, -⟩)
    · exact hvoted
    · exact absurd haction (h vote)
  · exact Or.inl

/-- A step that writes at most a new item. -/
theorem Held.quiet (h : Held kind before)
    (hvote : ∀ vote, action.2 ≠ Action.vote vote) (hcheck : ¬action.2.Checks)
    (hstored : ∀ item voter,
      (act kind action.1 (runBook kind {} before) action.2).storedVote item voter =
        (runBook kind {} before).storedVote item voter)
    (horphans : (act kind action.1 (runBook kind {} before)
      action.2).mapOrphanVotes = (runBook kind {} before).mapOrphanVotes)
    (hseen : (act kind action.1 (runBook kind {} before) action.2).mapSeenVotes =
      (runBook kind {} before).mapSeenVotes) :
    Held kind (before ++ [action]) := by
  constructor
  · intro item waiting hwaiting
    rw [runBook_append_singleton, horphans] at hwaiting
    exact h.keyed item waiting hwaiting
  · intro item voter hvoted
    rw [runBook_append_singleton, hstored]
    unfold VoteBook.Waits
    rw [horphans]
    exact h.kept item voter ((voted_of_no_vote hvote).mp hvoted)
  · intro item voter hchecked hvoted
    rw [runBook_append_singleton, hstored]
    rcases checked_append_singleton.mp hchecked with hbefore | ⟨hnow, -⟩
    · exact h.stored item voter hbefore ((voted_of_no_vote hvote).mp hvoted)
    · exact absurd hnow hcheck
  · intro vote hnow
    unfold VoteBook.Seen at hnow
    rw [runBook_append_singleton, hseen] at hnow
    exact (h.seen vote hnow).append

/-- A step that replays the waiting votes, after it wrote at most a new item. -/
theorem Held.check (h : Held kind before)
    (hvote : ∀ vote, action.2 ≠ Action.vote vote)
    (hact : act kind action.1 (runBook kind {} before) action.2 =
      checkOrphanVotes kind action.1 book)
    (hstored : ∀ item voter, book.storedVote item voter =
      (runBook kind {} before).storedVote item voter)
    (horphans : book.mapOrphanVotes = (runBook kind {} before).mapOrphanVotes)
    (hseen : book.mapSeenVotes = (runBook kind {} before).mapSeenVotes)
    (hreplay : ReplayKept kind before action.1 book) :
    Held kind (before ++ [action]) := by
  have hkeyed : book.OrphansKeyed kind := by
    intro item waiting hwaiting
    rw [horphans] at hwaiting
    exact h.keyed item waiting hwaiting
  have hkept : ∀ item voter, Voted kind before item voter →
      (book.storedVote item voter).isSome ∨ book.Waits kind item voter := by
    intro item voter hvoted
    unfold VoteBook.Waits
    rw [hstored, horphans]
    exact h.kept item voter hvoted
  constructor
  · intro item waiting hwaiting
    rw [runBook_append_singleton, hact] at hwaiting
    exact hkeyed item waiting (replay_mapOrphanVotes hwaiting)
  · intro item voter hvoted
    rw [runBook_append_singleton, hact]
    rcases hkept item voter ((voted_of_no_vote hvote).mp hvoted)
      with hold | hwaits
    · exact Or.inl (replay_stored hold)
    · exact (checkOrphanVotes_waits hkeyed hwaits).symm
  · intro item voter hchecked hvoted
    have hvoted := (voted_of_no_vote hvote).mp hvoted
    rw [runBook_append_singleton, hact]
    rcases checked_append_singleton.mp hchecked with hbefore | ⟨-, hknown⟩
    · apply replay_stored
      rw [hstored]
      exact h.stored item voter hbefore hvoted
    · rw [runBook_append_singleton, hact, checkOrphanVotes_known] at hknown
      rcases hkept item voter hvoted with hold | ⟨waiting, hwaiting, rfl⟩
      · exact replay_stored hold
      · rcases hreplay item waiting hwaiting hknown
          with htime | hold | hnone
        · exact checkOrphanVotes_stored hkeyed hwaiting hknown htime
        · exact replay_stored hold
        · exact absurd hvoted hnone
  · intro vote hnow
    unfold VoteBook.Seen at hnow
    rw [runBook_append_singleton, hact, checkOrphanVotes, replay_mapSeenVotes,
      hseen] at hnow
    exact (h.seen vote hnow).append

/-! ### Votes -/

/-- A vote changes nothing, is only marked as seen, or is taken. -/
theorem processVote_cases (kind : VoteKind V) (world : World) (book : VoteBook V)
    (vote : V) :
    processVote kind world book vote = book ∧
        (book.Seen kind vote ∨
          ¬world.findMasternode (kind.vin vote).prevout = true) ∨
    world.findMasternode (kind.vin vote).prevout = true ∧
      ¬book.Seen kind vote ∧ kind.signatureValid world vote = false ∧
      processVote kind world book vote = book.see kind vote ∨
    world.findMasternode (kind.vin vote).prevout = true ∧
      ¬book.Seen kind vote ∧ kind.signatureValid world vote = true ∧
      processVote kind world book vote =
        (updateProposal kind world (book.see kind vote) vote true).1 := by
  by_cases hseen : book.Seen kind vote
  · exact Or.inl ⟨processVote_of_seen hseen, Or.inl hseen⟩
  · by_cases hmasternode : world.findMasternode (kind.vin vote).prevout = true
    · right
      rw [processVote_of_unseen hseen hmasternode]
      cases hsignature : kind.signatureValid world vote with
      | false => exact Or.inl ⟨hmasternode, hseen, rfl, rfl⟩
      | true => exact Or.inr ⟨hmasternode, hseen, rfl, rfl⟩
    · exact Or.inl ⟨processVote_of_unknownMasternode hmasternode,
        Or.inr hmasternode⟩

theorem checked_of_vote (haction : action.2 = Action.vote vote) :
    Checked kind (before ++ [action]) item ↔ Checked kind before item := by
  rw [checked_append_singleton, haction]
  constructor
  · rintro (hchecked | ⟨hchecks, -⟩)
    · exact hchecked
    · exact absurd hchecks id
  · exact Or.inl

/-- A vote that changes nothing has another one stored or waiting. -/
theorem Held.ignored (h : Held kind before)
    (hkept : VoteKept kind before world vote)
    (hsame : processVote kind world (runBook kind {} before) vote =
      runBook kind {} before)
    (hignored : (runBook kind {} before).Seen kind vote ∨
      ¬world.findMasternode (kind.vin vote).prevout = true) :
    Held kind (before ++ [(world, Action.vote vote)]) := by
  have hrun : runBook kind {} (before ++ [(world, Action.vote vote)]) =
      runBook kind {} before := by
    rw [runBook_append_singleton]
    exact hsame
  have htaken : ValidVote kind world vote →
      ((runBook kind {} before).storedVote (kind.target vote)
        (kind.voter vote)).isSome ∨
      (runBook kind {} before).Waits kind (kind.target vote) (kind.voter vote) ∧
        ¬Checked kind before (kind.target vote) := by
    intro hvalid
    rcases hkept.taken hvalid with hstored | hwaits | ⟨hunseen, -⟩
    · exact Or.inl hstored
    · exact Or.inr hwaits
    · exact absurd hignored (by simp [hunseen, hvalid.masternode])
  constructor
  · rw [hrun]
    exact h.keyed
  · intro item voter hvoted
    rw [hrun]
    rcases voted_append_singleton.mp hvoted with hbefore |
      ⟨vote, hvote, hvalid, rfl, rfl⟩
    · exact h.kept item voter hbefore
    · obtain rfl := Action.vote.inj hvote
      exact (htaken hvalid).imp id And.left
  · intro item voter hchecked hvoted
    rw [hrun]
    rw [checked_of_vote rfl] at hchecked
    rcases voted_append_singleton.mp hvoted with hbefore |
      ⟨vote, hvote, hvalid, rfl, rfl⟩
    · exact h.stored item voter hchecked hbefore
    · obtain rfl := Action.vote.inj hvote
      rcases htaken hvalid with hstored | ⟨-, hunchecked⟩
      · exact hstored
      · exact absurd hchecked hunchecked
  · intro other hseen
    rw [hrun] at hseen
    exact (h.seen other hseen).append

theorem VoteKept.waits (hkept : VoteKept kind before world vote)
    (hmasternode : world.findMasternode (kind.vin vote).prevout = true)
    (hsignature : kind.signatureValid world vote = true)
    (hunseen : ¬(runBook kind {} before).Seen kind vote)
    (hvoter : Voted kind before item voter ∨ voter = kind.voter vote)
    (hwaits : (runBook kind {} before).Waits kind item voter) :
    (updateProposal kind world ((runBook kind {} before).see kind vote) vote
      true).1.Waits kind item voter := by
  obtain ⟨waiting, hwaiting, rfl⟩ := hwaits
  unfold VoteBook.Waits
  rw [updateProposal_mapOrphanVotes]
  split_ifs with hwill
  · by_cases hitem : item = kind.target vote
    · subst hitem
      have hunknown : ¬(runBook kind {} before).Known (kind.target vote) := by
        have := hwill.1
        simpa [VoteBook.Known, VoteBook.see] using this
      refine ⟨vote, KeyedMap.find?_insert_self _ _ _, ?_⟩
      rcases hkept.place hmasternode hsignature hunseen hunknown waiting
        hwaiting with hsame | hnone
      · exact hsame.symm
      · exact (hvoter.resolve_left hnone).symm
    · exact ⟨waiting, by rwa [KeyedMap.find?_insert_ne _ _ hitem], rfl⟩
  · exact ⟨waiting, hwaiting, rfl⟩

/-- The masternode of a valid vote that is taken has a vote stored or waiting. -/
theorem VoteKept.held_self (hkept : VoteKept kind before world vote)
    (hvalid : ValidVote kind world vote)
    (hunseen : ¬(runBook kind {} before).Seen kind vote) :
    ((updateProposal kind world ((runBook kind {} before).see kind vote) vote
        true).1.storedVote (kind.target vote) (kind.voter vote)).isSome ∨
      (updateProposal kind world ((runBook kind {} before).see kind vote) vote
        true).1.Waits kind (kind.target vote) (kind.voter vote) := by
  by_cases hknown : (runBook kind {} before).Known (kind.target vote)
  · exact Or.inl (updateProposal_stored_self true (see_known.mpr hknown)
      hvalid.time)
  · rcases hkept.taken hvalid with hstored | ⟨hold, -⟩ | ⟨-, hnew | hsynced⟩
    · exact Or.inl (updateProposal_stored true hstored)
    · exact Or.inr (hkept.waits hvalid.masternode hvalid.signature hunseen
        (Or.inr rfl) hold)
    · exact absurd hnew hknown
    · refine Or.inr ⟨vote, ?_, rfl⟩
      have hunknown : (((runBook kind {} before).see kind vote).mapItems.find?
          (kind.target vote)).isNone = true :=
        Option.isNone_iff_eq_none.mpr (Option.not_isSome_iff_eq_none.mp hknown)
      rw [updateProposal_mapOrphanVotes, if_pos ⟨hunknown, rfl, hsynced⟩]
      exact KeyedMap.find?_insert_self _ _ _

theorem Held.taken (h : Held kind before)
    (hkept : VoteKept kind before world vote)
    (hmasternode : world.findMasternode (kind.vin vote).prevout = true)
    (hunseen : ¬(runBook kind {} before).Seen kind vote)
    (hsignature : kind.signatureValid world vote = true)
    (hprocess : processVote kind world (runBook kind {} before) vote =
      (updateProposal kind world ((runBook kind {} before).see kind vote) vote
        true).1) :
    Held kind (before ++ [(world, Action.vote vote)]) := by
  have hrun : runBook kind {} (before ++ [(world, Action.vote vote)]) =
      (updateProposal kind world ((runBook kind {} before).see kind vote) vote
        true).1 := by
    rw [runBook_append_singleton]
    exact hprocess
  constructor
  · intro item waiting hwaiting
    rw [hrun, updateProposal_mapOrphanVotes] at hwaiting
    split_ifs at hwaiting
    · rw [KeyedMap.find?_insert] at hwaiting
      split_ifs at hwaiting with hitem
      · rw [hitem, Option.some.inj hwaiting]
      · exact h.keyed item waiting hwaiting
    · exact h.keyed item waiting hwaiting
  · intro item voter hvoted
    rw [hrun]
    rcases voted_append_singleton.mp hvoted with hbefore |
      ⟨vote, hvote, hvalid, rfl, rfl⟩
    · rcases h.kept item voter hbefore with hstored | hwaits
      · exact Or.inl (updateProposal_stored true hstored)
      · exact Or.inr (hkept.waits hmasternode hsignature hunseen
          (Or.inl hbefore) hwaits)
    · obtain rfl := Action.vote.inj hvote
      exact hkept.held_self hvalid hunseen
  · intro item voter hchecked hvoted
    rw [hrun]
    rw [checked_of_vote rfl] at hchecked
    rcases voted_append_singleton.mp hvoted with hbefore |
      ⟨vote, hvote, hvalid, rfl, rfl⟩
    · exact updateProposal_stored true (h.stored item voter hchecked hbefore)
    · obtain rfl := Action.vote.inj hvote
      exact updateProposal_stored_self true (see_known.mpr hchecked.known)
        hvalid.time
  · intro other hseen
    have hnow : ((runBook kind {} before).see kind vote).Seen kind other := by
      rw [hrun] at hseen
      unfold VoteBook.Seen at hseen ⊢
      rwa [updateProposal_mapSeenVotes] at hseen
    rcases see_seen.mp hnow with hhash | hold
    · exact ⟨world, vote, by simp, hmasternode, hsignature, hhash.symm⟩
    · exact (h.seen other hold).append

/-! ### Runs that keep all votes -/

theorem Held.step (h : Held kind before) (hkeeps : Keeps kind before action) :
    Held kind (before ++ [action]) := by
  obtain ⟨world, what⟩ := action
  cases what with
  | nothing =>
      exact h.quiet (by simp) id (fun _ _ => rfl) rfl rfl
  | add hash =>
      exact h.quiet (by simp) id (fun _ _ => addItem_storedVote)
        addItem_mapOrphanVotes addItem_mapSeenVotes
  | addAndCheck hash =>
      exact h.check (by simp) rfl (fun _ _ => addItem_storedVote)
        addItem_mapOrphanVotes addItem_mapSeenVotes hkeeps
  | check => exact h.check (by simp) rfl (fun _ _ => rfl) rfl rfl hkeeps
  | vote vote =>
      rcases processVote_cases kind world (runBook kind {} before) vote with
        ⟨hsame, hignored⟩ | ⟨hmasternode, hunseen, hsignature, -⟩ |
        ⟨hmasternode, hunseen, hsignature, hprocess⟩
      · exact h.ignored hkeeps hsame hignored
      · exact absurd (VoteKept.forged hkeeps hmasternode hsignature) hunseen
      · exact h.taken hkeeps hmasternode hunseen hsignature hprocess

theorem Held.nothingLost {actions : List (World × Action V)}
    (h : Held kind actions) :
    NothingLost kind actions (runBook kind {} actions) := by
  constructor
  · exact h.stored
  · intro world vote hmasternode hsignature hnone
    have hunseen : ¬(runBook kind {} actions).Seen kind vote :=
      fun hseen => hnone (h.seen vote hseen)
    rw [processVote_of_unseen hunseen hmasternode, if_pos hsignature]

end Book

/-! ## The manager -/

/-- A step at which no vote of either kind is lost. -/
def KeepsVotes (hashes : Hashes) (before : List Event) (event : Event) : Prop :=
  Keeps (proposalVotes hashes) (proposalActions before)
      (event.world, event.onProposals) ∧
    Keeps (finalizedVotes hashes) (finalizedActions before)
      (event.world, event.onBudgets)

/-- **No vote is lost** in runs whose steps keep all votes. -/
theorem no_vote_lost {hashes : Hashes} {events reached rest : List Event}
    (h : EachAfter (KeepsVotes hashes) events) (hreached : events = reached ++ rest) :
    NothingLost (proposalVotes hashes) (proposalActions reached)
        (run hashes {} reached).proposals ∧
      NothingLost (finalizedVotes hashes) (finalizedActions reached)
        (run hashes {} reached).budgets := by
  subst hreached
  have hheld : Held (proposalVotes hashes) (proposalActions reached) ∧
      Held (finalizedVotes hashes) (finalizedActions reached) := by
    apply h.of_append.induction (P := fun events =>
      Held (proposalVotes hashes) (proposalActions events) ∧
        Held (finalizedVotes hashes) (finalizedActions events))
    · exact ⟨Held.nil, Held.nil⟩
    · intro before event hbefore hkeeps
      unfold proposalActions finalizedActions
      rw [List.map_append, List.map_append]
      exact ⟨hbefore.1.step hkeeps.1, hbefore.2.step hkeeps.2⟩
  rw [run_eq]
  exact ⟨hheld.1.nothingLost, hheld.2.nothingLost⟩

section Example

def signedWorld : World :=
  { nTime := 10000, proposalSignatureValid := fun vote => vote.vchSig == [1] }

def newProposal : Event := ⟨signedWorld, .mprop 7⟩

def voteBy (n : Nat) (vchSig : List UInt8) : Event where
  world := signedWorld
  msg := .mvote { vin := { prevout := ⟨0, n⟩ }, nProposalHash := 7,
                  nVote := VOTE_YES, nTime := 1000, vchSig }

theorem voted_voteBy {events : List Event} {n : Nat}
    (hmem : voteBy n [1] ∈ events) :
    Voted (proposalVotes sampleHashes) (proposalActions events) 7
      (BitVec.ofNat 256 n) :=
  ⟨signedWorld, _, List.mem_map.mpr ⟨_, hmem, rfl⟩,
    ⟨rfl, rfl, show (1000 : Int) ≤ 10000 + 60 * 60 by decide⟩, rfl, rfl⟩

theorem keepsVotes_sample : EachAfter (KeepsVotes sampleHashes)
    [voteBy 1 [1], newProposal, voteBy 2 [1]] := by
  have hevents : [voteBy 1 [1], newProposal, voteBy 2 [1]] =
      (([] ++ [voteBy 1 [1]]) ++ [newProposal]) ++ [voteBy 2 [1]] := rfl
  rw [hevents, EachAfter.append_singleton_iff, EachAfter.append_singleton_iff,
    EachAfter.append_singleton_iff]
  refine ⟨⟨⟨EachAfter.nil, ?_, trivial⟩, ?_, ?_⟩, ?_, trivial⟩
  · exact ⟨fun _ h => absurd h (by decide), fun _ => Or.inr (Or.inr
      ⟨by decide, Or.inr rfl⟩), fun _ _ _ _ waiting h => by cases h⟩
  · intro item waiting hwaiting hknown
    left
    have horphans : KeyedMap.find? (KeyedMap.insert KeyedMap.empty 7 _) item =
      some waiting := hwaiting
    rw [KeyedMap.find?_insert] at horphans
    split_ifs at horphans
    · rw [← Option.some.inj horphans]
      decide
    · cases horphans
  · intro item waiting hwaiting hknown
    cases hwaiting
  · exact ⟨fun _ h => absurd h (by decide), fun _ => Or.inr (Or.inr
      ⟨by decide, Or.inl rfl⟩), fun _ _ _ h => absurd rfl h⟩

theorem no_vote_lost_sample :
    ((run sampleHashes {} [voteBy 1 [1], newProposal,
      voteBy 2 [1]]).proposals.storedVote 7 1).isSome ∧
    ((run sampleHashes {} [voteBy 1 [1], newProposal,
      voteBy 2 [1]]).proposals.storedVote 7 2).isSome :=
  have hlost := (no_vote_lost keepsVotes_sample (List.append_nil _).symm).1
  have hchecked : Checked (proposalVotes sampleHashes) (proposalActions
      [voteBy 1 [1], newProposal, voteBy 2 [1]]) 7 :=
    ⟨proposalActions [voteBy 1 [1]], _, proposalActions [voteBy 2 [1]], rfl,
      trivial, rfl⟩
  ⟨hlost.stored 7 1 hchecked (voted_voteBy (by simp)),
    hlost.stored 7 2 hchecked (voted_voteBy (by simp))⟩

/-- The second of two early votes takes the place of the first, and a forged
copy keeps the genuine vote out. -/
theorem early_and_genuine_votes_lost :
    ¬NothingLost (proposalVotes sampleHashes)
      (proposalActions [voteBy 1 [1], voteBy 2 [1], newProposal])
      (run sampleHashes {} [voteBy 1 [1], voteBy 2 [1], newProposal]).proposals ∧
    ¬NothingLost (proposalVotes sampleHashes)
      (proposalActions [newProposal, voteBy 1 [], voteBy 1 [1]])
      (run sampleHashes {}
        [newProposal, voteBy 1 [], voteBy 1 [1]]).proposals := by
  constructor
  · intro h
    have hstored := h.stored 7 1
      ⟨proposalActions [voteBy 1 [1], voteBy 2 [1]], _, [], rfl, trivial, rfl⟩
      (voted_voteBy (by simp))
    exact absurd hstored (by decide)
  · intro h
    have hstored := h.stored 7 1
      ⟨[], _, proposalActions [voteBy 1 [], voteBy 1 [1]], rfl, trivial, rfl⟩
      (voted_voteBy (by simp))
    exact absurd hstored (by decide)

end Example

end Agrarian.Masternode.Votes
