import Agrarian.Primitives
import Agrarian.Lib.KeyedMap
import Agrarian.Lib.MachineInt

/-!
# Masternode winners

The votes of `masternode-payments.cpp`: which payee a masternode names for a
block height, how `ProcessMessageMasternodePayments` admits such a message and
how `CleanPaymentList` forgets old ones.

What the node knows besides the votes (its chain, the list of masternodes,
the state of the synchronisation) is an environment that may be a different
one at every call.  Relaying, the punishment of peers and log lines are left
out: none of them is read by the code below.
-/

namespace Agrarian.Masternode

open Agrarian.Lib

def MNPAYMENTS_SIGNATURES_REQUIRED : Int := 6
def MNPAYMENTS_SIGNATURES_TOTAL : Int := 10

structure CMasternodePayee where
  scriptPubKey : CScript
  nVotes : Int
  deriving DecidableEq, Repr

/-- The payees that masternodes voted for at one height. -/
structure CMasternodeBlockPayees where
  nBlockHeight : Int := 0
  vecPayments : List CMasternodePayee := []
  deriving DecidableEq, Repr

structure CMasternodePaymentWinner where
  vinMasternode : CTxIn
  nBlockHeight : Int
  payee : CScript
  vchSig : List UInt8 := []
  deriving DecidableEq, Repr

structure CMasternodePayments where
  mapMasternodePayeeVotes : KeyedMap Uint256 CMasternodePaymentWinner :=
    KeyedMap.empty
  mapMasternodeBlocks : KeyedMap Int CMasternodeBlockPayees := KeyedMap.empty
  /-- The height a masternode voted for last, by `prevout.hash + prevout.n`. -/
  mapMasternodesLastVote : KeyedMap Uint256 Int := KeyedMap.empty

/-- What one call finds around the votes. -/
structure Env where
  fBlockchainSynced : Bool := true
  fLiteMode : Bool := false
  /-- The protocol version of the peer. -/
  nVersion : Int := 0
  nActiveProtocol : Int := 0
  /-- `TRY_LOCK(cs_main)` succeeds. -/
  fLocked : Bool := true
  /-- The hashes of the active chain, from the genesis block on. -/
  chainActive : List Uint256
  mapCacheBlockHashes : KeyedMap Int Uint256 := KeyedMap.empty
  nCountEnabled : Nat := 0
  /-- `mnodeman.size()`. -/
  nMasternodes : Nat := 0
  /-- The protocol version of the masternode that `Find` finds. -/
  protocolVersion : COutPoint → Option Int
  getMasternodeRank : COutPoint → Int → Int → Int
  verifyMessage : CMasternodePaymentWinner → Bool

namespace Env

/-- The height of the tip, if it can be read. -/
def tipHeight (env : Env) : Option Nat :=
  if !env.fLocked || env.chainActive.isEmpty then none
  else some (env.chainActive.length - 1)

/-- `GetBlockHash`: the hash of the block before a height. -/
def getBlockHash (env : Env) (nBlockHeight : Int) : Option Uint256 :=
  if env.chainActive.isEmpty then none
  else
    let nTip : Int := env.chainActive.length - 1
    let nHeight := if nBlockHeight = 0 then nTip else nBlockHeight
    match env.mapCacheBlockHashes.find? nHeight with
    | some hash => some hash
    | none =>
        if nTip = 0 ∨ nTip + 1 < nHeight then none
        else
          let nBlocksAgo := if 0 < nHeight then nTip + 1 - nHeight else 0
          -- the walk from the tip down stops before the genesis block
          env.chainActive.tail.reverse[nBlocksAgo.toNat]?

end Env

/-! ## The payees of one height -/

/-- The loop of `AddPayee`. -/
def addPayment (payeeIn : CScript) (nIncrement : Int) :
    List CMasternodePayee → List CMasternodePayee
  | [] => [⟨payeeIn, nIncrement⟩]
  | payee :: rest =>
      if payee.scriptPubKey = payeeIn then
        { payee with nVotes := payee.nVotes + nIncrement } :: rest
      else payee :: addPayment payeeIn nIncrement rest

namespace CMasternodeBlockPayees

def addPayee (payees : CMasternodeBlockPayees) (payeeIn : CScript)
    (nIncrement : Int) : CMasternodeBlockPayees :=
  { payees with
    vecPayments := addPayment payeeIn nIncrement payees.vecPayments }

/-- The votes of a payee; none if nobody voted for it. -/
def votesFor (payees : CMasternodeBlockPayees) (payee : CScript) : Int :=
  match payees.vecPayments.find? fun p => p.scriptPubKey = payee with
  | none => 0
  | some p => p.nVotes

/-- The loop of `GetPayee`: the first payee with the most votes. -/
def getPayeeFrom : List CMasternodePayee → Option CMasternodePayee →
    Option CMasternodePayee
  | [], best => best
  | p :: rest, best =>
      if (best.elim (-1) CMasternodePayee.nVotes) < p.nVotes then
        getPayeeFrom rest (some p)
      else getPayeeFrom rest best

def getPayee (payees : CMasternodeBlockPayees) : Option CScript :=
  (getPayeeFrom payees.vecPayments none).map CMasternodePayee.scriptPubKey

end CMasternodeBlockPayees

theorem find?_addPayment (payeeIn payee : CScript) (nIncrement : Int)
    (vec : List CMasternodePayee) :
    (addPayment payeeIn nIncrement vec).find?
        (fun p => p.scriptPubKey = payee) =
      if payee = payeeIn then
        some ⟨payee, ((vec.find? fun p => p.scriptPubKey = payee).elim 0
          CMasternodePayee.nVotes) + nIncrement⟩
      else vec.find? fun p => p.scriptPubKey = payee := by
  induction vec with
  | nil =>
      by_cases h : payee = payeeIn
      · simp [addPayment, h]
      · simp [addPayment, h, Ne.symm h]
  | cons p vec ih =>
      by_cases hp : p.scriptPubKey = payeeIn
      · by_cases h : payee = payeeIn
        · simp [addPayment, hp, h]
        · have hne : p.scriptPubKey ≠ payee := by
            rw [hp]
            exact Ne.symm h
          simp [addPayment, hp, h, Ne.symm h]
      · by_cases hpay : p.scriptPubKey = payee
        · have h : payee ≠ payeeIn := by
            rw [← hpay]
            exact hp
          simp [addPayment, hpay, h]
        · simp only [addPayment, if_neg hp, List.find?_cons, hpay,
            decide_false, ih]

theorem votesFor_addPayee (payees : CMasternodeBlockPayees)
    (payeeIn payee : CScript) (nIncrement : Int) :
    (payees.addPayee payeeIn nIncrement).votesFor payee =
      payees.votesFor payee + if payee = payeeIn then nIncrement else 0 := by
  unfold CMasternodeBlockPayees.addPayee CMasternodeBlockPayees.votesFor
  simp only [find?_addPayment]
  by_cases h : payee = payeeIn
  · cases payees.vecPayments.find? fun p => p.scriptPubKey = payee with
    | none => simp [h]
    | some p => simp [h]
  · simp [h]

theorem scripts_addPayment (payeeIn : CScript) (nIncrement : Int)
    (vec : List CMasternodePayee) :
    (addPayment payeeIn nIncrement vec).map CMasternodePayee.scriptPubKey =
      if payeeIn ∈ vec.map CMasternodePayee.scriptPubKey then
        vec.map CMasternodePayee.scriptPubKey
      else vec.map CMasternodePayee.scriptPubKey ++ [payeeIn] := by
  induction vec with
  | nil => simp [addPayment]
  | cons p vec ih =>
      by_cases hp : p.scriptPubKey = payeeIn
      · simp [addPayment, hp]
      · have hne : payeeIn ≠ p.scriptPubKey := Ne.symm hp
        simp only [addPayment, if_neg hp, List.map_cons, ih, List.mem_cons,
          hne, false_or]
        split
        · rfl
        · rfl

theorem nodup_addPayment (payeeIn : CScript) (nIncrement : Int)
    {vec : List CMasternodePayee}
    (h : (vec.map CMasternodePayee.scriptPubKey).Nodup) :
    ((addPayment payeeIn nIncrement vec).map
      CMasternodePayee.scriptPubKey).Nodup := by
  rw [scripts_addPayment]
  split
  · exact h
  · rename_i hnew
    exact List.nodup_append.mpr ⟨h, List.nodup_singleton payeeIn, by
      intro a ha b hb hab
      rw [List.mem_singleton] at hb
      exact hnew (by rw [← hb, ← hab]; exact ha)⟩

/-! ## Messages -/

/-- The key of `mapMasternodesLastVote`. -/
def voteKey (outMasternode : COutPoint) : Uint256 :=
  outMasternode.hash + BitVec.ofNat 256 outMasternode.n

namespace CMasternodePayments

variable (winnerHash : CScript → Int → COutPoint → Uint256)

/-- `CMasternodePaymentWinner::GetHash`; the signature is not hashed. -/
def getHash (winner : CMasternodePaymentWinner) : Uint256 :=
  winnerHash winner.payee winner.nBlockHeight winner.vinMasternode.prevout

/-- `CMasternodePaymentWinner::IsValid`. -/
def isValid (env : Env) (winner : CMasternodePaymentWinner) : Bool :=
  match env.protocolVersion winner.vinMasternode.prevout with
  | none => false
  | some protocolVersion =>
      if protocolVersion < env.nActiveProtocol then false
      else
        env.getMasternodeRank winner.vinMasternode.prevout
          (int32 (winner.nBlockHeight - 100)) env.nActiveProtocol ≤
            MNPAYMENTS_SIGNATURES_TOTAL

def signatureValid (env : Env) (winner : CMasternodePaymentWinner) : Bool :=
  (env.protocolVersion winner.vinMasternode.prevout).isSome &&
    env.verifyMessage winner

/-- Whether the masternode may vote, with the height recorded if it may. -/
def canVote (s : CMasternodePayments) (outMasternode : COutPoint)
    (nBlockHeight : Int) : Option CMasternodePayments :=
  if s.mapMasternodesLastVote.find? (voteKey outMasternode) =
      some nBlockHeight then none
  else some { s with
    mapMasternodesLastVote :=
      s.mapMasternodesLastVote.insert (voteKey outMasternode) nBlockHeight }

/-- `none` where the source returns `false`; nothing has changed then. -/
def addWinningMasternode (env : Env) (s : CMasternodePayments)
    (winnerIn : CMasternodePaymentWinner) : Option CMasternodePayments :=
  match env.getBlockHash (int32 (winnerIn.nBlockHeight - 100)) with
  | none => none
  | some _ =>
      if (s.mapMasternodePayeeVotes.find?
          (getHash winnerHash winnerIn)).isSome then none
      else
        let blocks :=
          if (s.mapMasternodeBlocks.find? winnerIn.nBlockHeight).isSome then
            s.mapMasternodeBlocks
          else s.mapMasternodeBlocks.insert winnerIn.nBlockHeight
            { nBlockHeight := winnerIn.nBlockHeight }
        let payees := (blocks.find? winnerIn.nBlockHeight).getD {}
        some { s with
          mapMasternodePayeeVotes := s.mapMasternodePayeeVotes.insert
            (getHash winnerHash winnerIn) winnerIn
          mapMasternodeBlocks := blocks.insert winnerIn.nBlockHeight
            (payees.addPayee winnerIn.payee 1) }

/-- The messages of the protocol: a request for all winners, and a winner. -/
inductive Message
  | mnget (nCountNeeded : Int)
  | mnw (winner : CMasternodePaymentWinner)

/-- The winner is for a height that votes are taken for. -/
def inRange (env : Env) (nHeight : Nat) (nBlockHeight : Int) : Bool :=
  -- `static_cast<int>(mnodeman.CountEnabled() * 1.25)`
  (nHeight : Int) - (env.nCountEnabled * 5 / 4 : Nat) ≤ nBlockHeight &&
    nBlockHeight ≤ nHeight + 20

/-- A winner up to the test whether its masternode may vote. -/
def passesChecks (env : Env) (s : CMasternodePayments)
    (winner : CMasternodePaymentWinner) : Bool :=
  env.nActiveProtocol ≤ env.nVersion &&
    match env.tipHeight with
    | none => false
    | some nHeight =>
        (s.mapMasternodePayeeVotes.find? (getHash winnerHash winner)).isNone &&
          inRange env nHeight winner.nBlockHeight && isValid env winner

def processWinner (env : Env) (s : CMasternodePayments)
    (winner : CMasternodePaymentWinner) : CMasternodePayments :=
  if !passesChecks winnerHash env s winner then s
  else
    match canVote s winner.vinMasternode.prevout winner.nBlockHeight with
    | none => s
    | some s' =>
        -- the vote stays recorded when the signature turns out to be wrong
        if !signatureValid env winner then s'
        else (addWinningMasternode winnerHash env s' winner).getD s'

def processMessageMasternodePayments (env : Env) (s : CMasternodePayments) :
    Message → CMasternodePayments
  | .mnget _ => s
  | .mnw winner =>
      if !env.fBlockchainSynced || env.fLiteMode then s
      else processWinner winnerHash env s winner

/-! ## Pruning -/

/-- The limit of `CleanPaymentList` is passed. -/
def tooOld (env : Env) (nHeight : Nat) (nBlockHeight : Int) : Bool :=
  let nLimit := max (env.nMasternodes * 5 / 4) 1000
  int32 (nHeight - nBlockHeight) > nLimit

/-- The loop of `CleanPaymentList`.  The height is read through a reference
into the element that was erased a line before: `freed` is what that read
yields, for each key. -/
def cleanEntries (old : Int → Bool) (freed : Uint256 → Int) :
    List (Uint256 × CMasternodePaymentWinner) → CMasternodePayments →
      CMasternodePayments
  | [], s => s
  | (hash, winner) :: rest, s =>
      if old winner.nBlockHeight then
        cleanEntries old freed rest { s with
          mapMasternodePayeeVotes := s.mapMasternodePayeeVotes.erase hash
          mapMasternodeBlocks := s.mapMasternodeBlocks.erase (freed hash) }
      else cleanEntries old freed rest s

def cleanPaymentList (env : Env) (freed : Uint256 → Int)
    (s : CMasternodePayments) : CMasternodePayments :=
  match env.tipHeight with
  | none => s
  | some nHeight =>
      cleanEntries (tooOld env nHeight) freed
        s.mapMasternodePayeeVotes.toList s

/-! ## One vote for each height -/

section Votes

variable {winnerHash} {env : Env} {s s' : CMasternodePayments}
variable {winner : CMasternodePaymentWinner}

theorem canVote_eq_some {out : COutPoint} {nBlockHeight : Int}
    (h : canVote s out nBlockHeight = some s') :
    s.mapMasternodesLastVote.find? (voteKey out) ≠ some nBlockHeight ∧
      s'.mapMasternodePayeeVotes = s.mapMasternodePayeeVotes ∧
      s'.mapMasternodeBlocks = s.mapMasternodeBlocks := by
  unfold canVote at h
  split at h
  · cases h
  · rename_i hlast
    cases h
    exact ⟨hlast, rfl, rfl⟩

theorem addWinningMasternode_eq_some
    (h : addWinningMasternode winnerHash env s winner = some s') :
    s.mapMasternodePayeeVotes.find? (getHash winnerHash winner) = none ∧
      s'.mapMasternodePayeeVotes = s.mapMasternodePayeeVotes.insert
        (getHash winnerHash winner) winner ∧
      s'.mapMasternodeBlocks.find? winner.nBlockHeight =
        some (((s.mapMasternodeBlocks.find? winner.nBlockHeight).getD
          { nBlockHeight := winner.nBlockHeight }).addPayee winner.payee 1) ∧
      ∀ nBlockHeight, nBlockHeight ≠ winner.nBlockHeight →
        s'.mapMasternodeBlocks.find? nBlockHeight =
          s.mapMasternodeBlocks.find? nBlockHeight := by
  unfold addWinningMasternode at h
  split at h
  · cases h
  split at h
  · cases h
  rename_i hfresh
  cases h
  refine ⟨by simpa using hfresh, rfl, ?_, fun nBlockHeight hne => ?_⟩
  · cases hfind : s.mapMasternodeBlocks.find? winner.nBlockHeight with
    | none => simp
    | some payees => simp [hfind]
  · simp only [KeyedMap.find?_insert_ne _ _ hne]
    split
    · rfl
    · exact KeyedMap.find?_insert_ne _ _ hne

/-- All that a message does to the votes: nothing, or it adds a winner whose
masternode may vote. -/
theorem processMessage_votes (env : Env) (s : CMasternodePayments)
    (msg : Message) :
    (processMessageMasternodePayments winnerHash env s
        msg).mapMasternodePayeeVotes = s.mapMasternodePayeeVotes ∨
      ∃ winner, msg = .mnw winner ∧
        s.mapMasternodesLastVote.find?
          (voteKey winner.vinMasternode.prevout) ≠ some winner.nBlockHeight ∧
        (processMessageMasternodePayments winnerHash env s
          msg).mapMasternodePayeeVotes = s.mapMasternodePayeeVotes.insert
            (getHash winnerHash winner) winner := by
  cases msg with
  | mnget => exact Or.inl rfl
  | mnw winner =>
      simp only [processMessageMasternodePayments]
      split
      · exact Or.inl rfl
      unfold processWinner
      split
      · exact Or.inl rfl
      split
      · exact Or.inl rfl
      rename_i s₁ hvote
      have hvoted := canVote_eq_some hvote
      split
      · exact Or.inl hvoted.2.1
      cases hadd : addWinningMasternode winnerHash env s₁ winner with
      | none => exact Or.inl hvoted.2.1
      | some s₂ =>
          have hadded := addWinningMasternode_eq_some hadd
          rw [hvoted.2.1] at hadded
          exact Or.inr ⟨winner, rfl, hvoted.1, hadded.2.1⟩

end Votes

/-- Each masternode has one vote for each height. -/
def OneVotePerHeight (s : CMasternodePayments) : Prop :=
  ∀ hash₁ hash₂ winner₁ winner₂,
    s.mapMasternodePayeeVotes.find? hash₁ = some winner₁ →
    s.mapMasternodePayeeVotes.find? hash₂ = some winner₂ →
    winner₁.vinMasternode.prevout = winner₂.vinMasternode.prevout →
    winner₁.nBlockHeight = winner₂.nBlockHeight → hash₁ = hash₂

/-- If the masternode of a message has voted for its height, then this is the
height recorded last: it does not return to the height from another one. -/
def StaysOnHeight (s : CMasternodePayments) : Message → Prop
  | .mnget _ => True
  | .mnw winner => ∀ hash vote,
      s.mapMasternodePayeeVotes.find? hash = some vote →
      vote.vinMasternode.prevout = winner.vinMasternode.prevout →
      vote.nBlockHeight = winner.nBlockHeight →
      s.mapMasternodesLastVote.find? (voteKey winner.vinMasternode.prevout) =
        some winner.nBlockHeight

/-- The states after messages in any order, each in an environment of its
own, none of which returns to a height. -/
inductive Run : CMasternodePayments → Prop
  | start : Run {}
  | message {s : CMasternodePayments} {env : Env} {msg : Message} :
      Run s → StaysOnHeight s msg →
      Run (processMessageMasternodePayments winnerHash env s msg)

section Runs

variable {winnerHash} {env : Env} {s : CMasternodePayments}

theorem oneVotePerHeight_insert {winner : CMasternodePaymentWinner}
    {votes : KeyedMap Uint256 CMasternodePaymentWinner} {hash : Uint256}
    (h : OneVotePerHeight s)
    (hnew : ∀ key vote, s.mapMasternodePayeeVotes.find? key = some vote →
      vote.vinMasternode.prevout = winner.vinMasternode.prevout →
      vote.nBlockHeight ≠ winner.nBlockHeight)
    (hvotes : votes = s.mapMasternodePayeeVotes.insert hash winner)
    {s' : CMasternodePayments} (hs' : s'.mapMasternodePayeeVotes = votes) :
    OneVotePerHeight s' := by
  intro hash₁ hash₂ winner₁ winner₂ h₁ h₂ hprev hheight
  rw [hs', hvotes, KeyedMap.find?_insert] at h₁ h₂
  split at h₁
  · rename_i hfirst
    cases h₁
    split at h₂
    · rename_i hsecond
      rw [hfirst, hsecond]
    · exact absurd hheight.symm (hnew hash₂ winner₂ h₂ hprev.symm)
  · split at h₂
    · cases h₂
      exact absurd hheight (hnew hash₁ winner₁ h₁ hprev)
    · exact h hash₁ hash₂ winner₁ winner₂ h₁ h₂ hprev hheight

/-- **One step.**  A message that does not return to a height leaves one vote
for each masternode and height. -/
theorem processMessage_oneVotePerHeight {msg : Message}
    (h : OneVotePerHeight s) (hstays : StaysOnHeight s msg) :
    OneVotePerHeight
      (processMessageMasternodePayments winnerHash env s msg) := by
  rcases processMessage_votes env s msg with
    hsame | ⟨winner, rfl, hlast, hadded⟩
  · unfold OneVotePerHeight
    rw [hsame]
    exact h
  · apply oneVotePerHeight_insert h _ hadded rfl
    intro hash vote hvote hprev hheight
    exact hlast (hstays hash vote hvote hprev hheight)

/-- **One vote per masternode and height**, as long as no masternode returns
to a height it has voted for after it voted for another one. -/
theorem Run.oneVotePerHeight (h : Run winnerHash s) : OneVotePerHeight s := by
  induction h with
  | start =>
      intro hash₁ hash₂ winner₁ winner₂ h₁
      cases h₁
  | message _ hstays ih => exact processMessage_oneVotePerHeight ih hstays

/-- **Exactly then.**  For a message that passes everything else, one vote
for each masternode and height is left if and only if the masternode does not
return to the height. -/
theorem oneVotePerHeight_iff {winner : CMasternodePaymentWinner}
    (h : OneVotePerHeight s) (hsynced : env.fBlockchainSynced = true)
    (hlite : env.fLiteMode = false)
    (hpasses : passesChecks winnerHash env s winner = true)
    (hsig : signatureValid env winner = true)
    (hblock : (env.getBlockHash
      (int32 (winner.nBlockHeight - 100))).isSome = true) :
    OneVotePerHeight (processMessageMasternodePayments winnerHash env s
      (.mnw winner)) ↔ StaysOnHeight s (.mnw winner) := by
  constructor
  · intro hafter hash vote hvote hprev hheight
    by_contra hlast
    have hfresh : s.mapMasternodePayeeVotes.find?
        (getHash winnerHash winner) = none := by
      unfold passesChecks at hpasses
      rw [Bool.and_eq_true] at hpasses
      split at hpasses
      · exact absurd hpasses.2 Bool.false_ne_true
      · simp only [Bool.and_eq_true, Option.isNone_iff_eq_none] at hpasses
        exact hpasses.2.1.1
    rcases Option.isSome_iff_exists.mp hblock with ⟨blockHash, hblockHash⟩
    have hvotes : (processMessageMasternodePayments winnerHash env s
        (.mnw winner)).mapMasternodePayeeVotes =
          s.mapMasternodePayeeVotes.insert (getHash winnerHash winner)
            winner := by
      simp [processMessageMasternodePayments, processWinner, canVote,
        addWinningMasternode, hsynced, hlite, hpasses, hlast, hsig,
        hblockHash, hfresh]
    have hold : hash ≠ getHash winnerHash winner := by
      intro heq
      rw [heq, hfresh] at hvote
      cases hvote
    apply hold
    apply hafter hash (getHash winnerHash winner) vote winner _ _ hprev hheight
    · rw [hvotes, KeyedMap.find?_insert_ne _ _ hold]
      exact hvote
    · rw [hvotes, KeyedMap.find?_insert_self]
  · exact processMessage_oneVotePerHeight h

end Runs

section Example

/-- A node that takes every winner of masternode `⟨1, 0⟩`. -/
def trustingEnv : Env where
  chainActive := [1, 2, 3]
  protocolVersion := fun out => if out = ⟨1, 0⟩ then some 0 else none
  getMasternodeRank := fun _ _ _ => 1
  verifyMessage := fun _ => true

/-- A hash for the winners below. -/
def lengthHash (payee : CScript) (nBlockHeight : Int) (_ : COutPoint) :
    Uint256 :=
  BitVec.ofNat 256 (payee.length + 100 * nBlockHeight.toNat)

def winnerFor (nBlockHeight : Int) (payee : CScript) :
    CMasternodePaymentWinner where
  vinMasternode := { prevout := ⟨1, 0⟩ }
  nBlockHeight
  payee

theorem run_oneVotePerHeight :
    (processMessageMasternodePayments lengthHash trustingEnv {}
      (.mnw (winnerFor 5 [1]))).mapMasternodePayeeVotes.find? 501 =
        some (winnerFor 5 [1]) ∧
    OneVotePerHeight (processMessageMasternodePayments lengthHash trustingEnv
      {} (.mnw (winnerFor 5 [1]))) :=
  ⟨by decide, Run.oneVotePerHeight (Run.message Run.start
    (fun _ _ h => by cases h))⟩

/-- Height 5, height 6 and height 5 again: the masternode votes for two
payees at height 5. -/
theorem returning_masternode_votes_twice :
    ¬ OneVotePerHeight
      ([winnerFor 5 [1], winnerFor 6 [1], winnerFor 5 [1, 2]].foldl
        (fun s winner => processMessageMasternodePayments lengthHash
          trustingEnv s (.mnw winner)) {}) := by
  intro h
  have hsame := h 501 502 (winnerFor 5 [1]) (winnerFor 5 [1, 2]) (by decide)
    (by decide) rfl rfl
  exact absurd hsame (by decide)

end Example

/-! ## The two maps -/

/-- The stored winners for a height and a payee. -/
def countVotes (s : CMasternodePayments) (nBlockHeight : Int)
    (payee : CScript) : Nat :=
  s.mapMasternodePayeeVotes.sum fun winner =>
    if winner.nBlockHeight = nBlockHeight ∧ winner.payee = payee then 1 else 0

/-- The two maps agree: a payee has as many votes at a height as there are
winners stored for it, and a height has payees exactly if it has winners. -/
structure Consistent (s : CMasternodePayments) : Prop where
  votes : ∀ nBlockHeight payees payee,
    s.mapMasternodeBlocks.find? nBlockHeight = some payees →
    payees.votesFor payee = s.countVotes nBlockHeight payee
  nodup : ∀ nBlockHeight payees,
    s.mapMasternodeBlocks.find? nBlockHeight = some payees →
    (payees.vecPayments.map CMasternodePayee.scriptPubKey).Nodup
  together : ∀ nBlockHeight,
    (s.mapMasternodeBlocks.find? nBlockHeight).isSome ↔
      ∃ hash winner, s.mapMasternodePayeeVotes.find? hash = some winner ∧
        winner.nBlockHeight = nBlockHeight

/-- The read of the height of every erased winner yields that height. -/
def ReadsHeights (env : Env) (freed : Uint256 → Int)
    (s : CMasternodePayments) : Prop :=
  ∀ nHeight hash winner, env.tipHeight = some nHeight →
    s.mapMasternodePayeeVotes.find? hash = some winner →
    tooOld env nHeight winner.nBlockHeight = true →
    freed hash = winner.nBlockHeight

/-- The states after calls in any order, each in an environment of its own,
where the reads through an erased element yield its height. -/
inductive Calls : CMasternodePayments → Prop
  | start : Calls {}
  | add {s s' : CMasternodePayments} {env : Env}
      {winner : CMasternodePaymentWinner} :
      Calls s → addWinningMasternode winnerHash env s winner = some s' →
      Calls s'
  | clean {s : CMasternodePayments} {env : Env} {freed : Uint256 → Int} :
      Calls s → ReadsHeights env freed s →
      Calls (cleanPaymentList env freed s)

section Maps

variable {winnerHash} {env : Env} {s s' : CMasternodePayments}

theorem countVotes_insert {winner : CMasternodePaymentWinner} {hash : Uint256}
    (hfresh : s.mapMasternodePayeeVotes.find? hash = none)
    (hvotes : s'.mapMasternodePayeeVotes =
      s.mapMasternodePayeeVotes.insert hash winner)
    (nBlockHeight : Int) (payee : CScript) :
    s'.countVotes nBlockHeight payee = s.countVotes nBlockHeight payee +
      if winner.nBlockHeight = nBlockHeight ∧ winner.payee = payee then 1
      else 0 := by
  unfold countVotes
  rw [hvotes, KeyedMap.sum_insert _ _ hfresh]
  exact Nat.add_comm _ _

theorem countVotes_erase {winner : CMasternodePaymentWinner} {hash : Uint256}
    (hfind : s.mapMasternodePayeeVotes.find? hash = some winner)
    (hvotes : s'.mapMasternodePayeeVotes = s.mapMasternodePayeeVotes.erase hash)
    {nBlockHeight : Int} (hne : winner.nBlockHeight ≠ nBlockHeight)
    (payee : CScript) :
    s'.countVotes nBlockHeight payee = s.countVotes nBlockHeight payee := by
  unfold countVotes
  rw [hvotes, KeyedMap.sum_erase _ hfind, if_neg (fun h => hne h.1)]
  simp

theorem countVotes_eq_zero {nBlockHeight : Int} {payee : CScript}
    (h : ∀ hash winner, s.mapMasternodePayeeVotes.find? hash = some winner →
      winner.nBlockHeight ≠ nBlockHeight) :
    s.countVotes nBlockHeight payee = 0 := by
  unfold countVotes
  apply KeyedMap.sum_eq_zero
  intro hash winner hfind
  exact if_neg fun hmatch => h hash winner hfind hmatch.1

theorem add_consistent {winner : CMasternodePaymentWinner}
    (h : Consistent s)
    (hadd : addWinningMasternode winnerHash env s winner = some s') :
    Consistent s' := by
  have hadded := addWinningMasternode_eq_some hadd
  have hcount := countVotes_insert hadded.1 hadded.2.1
  constructor
  · intro nBlockHeight payees payee hpayees
    rw [hcount]
    by_cases hheight : nBlockHeight = winner.nBlockHeight
    · rw [hheight, hadded.2.2.1] at hpayees
      cases hpayees
      rw [votesFor_addPayee, hheight]
      have hbefore : ((s.mapMasternodeBlocks.find? winner.nBlockHeight).getD
          { nBlockHeight := winner.nBlockHeight }).votesFor payee =
            s.countVotes winner.nBlockHeight payee := by
        cases hfind : s.mapMasternodeBlocks.find? winner.nBlockHeight with
        | some payees => exact h.votes _ payees payee hfind
        | none =>
            rw [countVotes_eq_zero]
            · rfl
            · intro hash vote hvote heq
              have hsome := (h.together winner.nBlockHeight).mpr
                ⟨hash, vote, hvote, heq⟩
              rw [hfind] at hsome
              cases hsome
      rw [hbefore]
      by_cases hpayee : payee = winner.payee
      · simp [hpayee]
      · simp [hpayee, Ne.symm hpayee]
    · rw [hadded.2.2.2 nBlockHeight hheight] at hpayees
      rw [h.votes nBlockHeight payees payee hpayees,
        if_neg (fun hmatch => hheight hmatch.1.symm), Nat.add_zero]
  · intro nBlockHeight payees hpayees
    by_cases hheight : nBlockHeight = winner.nBlockHeight
    · rw [hheight, hadded.2.2.1] at hpayees
      cases hpayees
      apply nodup_addPayment
      cases hfind : s.mapMasternodeBlocks.find? winner.nBlockHeight with
      | some payees => exact h.nodup _ payees hfind
      | none => exact List.nodup_nil
    · rw [hadded.2.2.2 nBlockHeight hheight] at hpayees
      exact h.nodup nBlockHeight payees hpayees
  · intro nBlockHeight
    rw [hadded.2.1]
    by_cases hheight : nBlockHeight = winner.nBlockHeight
    · rw [hheight, hadded.2.2.1]
      simp only [Option.isSome_some, true_iff]
      exact ⟨getHash winnerHash winner, winner, KeyedMap.find?_insert_self _ _ _,
        rfl⟩
    · rw [hadded.2.2.2 nBlockHeight hheight, h.together]
      constructor
      · rintro ⟨hash, vote, hvote, heq⟩
        refine ⟨hash, vote, ?_, heq⟩
        rw [KeyedMap.find?_insert_ne]
        · exact hvote
        · intro hhash
          rw [hhash, hadded.1] at hvote
          cases hvote
      · rintro ⟨hash, vote, hvote, heq⟩
        rw [KeyedMap.find?_insert] at hvote
        split at hvote
        · cases hvote
          exact absurd heq.symm hheight
        · exact ⟨hash, vote, hvote, heq⟩

section Clean

variable {old : Int → Bool} {freed : Uint256 → Int}

theorem cleanEntries_votes
    (entries : List (Uint256 × CMasternodePaymentWinner))
    (s : CMasternodePayments) (hash : Uint256)
    (winner : CMasternodePaymentWinner) :
    (cleanEntries old freed entries s).mapMasternodePayeeVotes.find? hash =
        some winner ↔
      s.mapMasternodePayeeVotes.find? hash = some winner ∧
        ∀ winner', (hash, winner') ∈ entries →
          old winner'.nBlockHeight = false := by
  induction entries generalizing s with
  | nil => simp [cleanEntries]
  | cons entry rest ih =>
      unfold cleanEntries
      cases hold : old entry.2.nBlockHeight with
      | false =>
          rw [if_neg Bool.false_ne_true, ih]
          constructor
          · rintro ⟨hfind, hrest⟩
            refine ⟨hfind, fun winner' hmem => ?_⟩
            rcases List.mem_cons.mp hmem with heq | hmem
            · rw [← heq] at hold
              exact hold
            · exact hrest winner' hmem
          · rintro ⟨hfind, hrest⟩
            exact ⟨hfind, fun winner' hmem =>
              hrest winner' (List.mem_cons_of_mem _ hmem)⟩
      | true =>
          rw [if_pos rfl, ih]
          simp only [KeyedMap.find?_erase]
          constructor
          · rintro ⟨hfind, hrest⟩
            split at hfind
            · cases hfind
            rename_i hne
            refine ⟨hfind, fun winner' hmem => ?_⟩
            rcases List.mem_cons.mp hmem with heq | hmem
            · rw [← heq] at hne
              exact absurd rfl hne
            · exact hrest winner' hmem
          · rintro ⟨hfind, hrest⟩
            have hne : hash ≠ entry.1 := by
              intro heq
              have hmem : (hash, entry.2) ∈ entry :: rest := by
                rw [heq]
                exact List.mem_cons_self
              have hkeep := hrest entry.2 hmem
              rw [hold] at hkeep
              cases hkeep
            exact ⟨by rw [if_neg hne]; exact hfind, fun winner' hmem =>
              hrest winner' (List.mem_cons_of_mem _ hmem)⟩

theorem cleanEntries_blocks
    (entries : List (Uint256 × CMasternodePaymentWinner))
    (s : CMasternodePayments) (nBlockHeight : Int)
    (payees : CMasternodeBlockPayees) :
    (cleanEntries old freed entries s).mapMasternodeBlocks.find?
        nBlockHeight = some payees ↔
      s.mapMasternodeBlocks.find? nBlockHeight = some payees ∧
        ∀ hash winner, (hash, winner) ∈ entries →
          old winner.nBlockHeight = true → freed hash ≠ nBlockHeight := by
  induction entries generalizing s with
  | nil => simp [cleanEntries]
  | cons entry rest ih =>
      unfold cleanEntries
      cases hold : old entry.2.nBlockHeight with
      | false =>
          rw [if_neg Bool.false_ne_true, ih]
          constructor
          · rintro ⟨hfind, hrest⟩
            refine ⟨hfind, fun hash winner hmem hwinner => ?_⟩
            rcases List.mem_cons.mp hmem with heq | hmem
            · rw [← heq, hwinner] at hold
              cases hold
            · exact hrest hash winner hmem hwinner
          · rintro ⟨hfind, hrest⟩
            exact ⟨hfind, fun hash winner hmem =>
              hrest hash winner (List.mem_cons_of_mem _ hmem)⟩
      | true =>
          rw [if_pos rfl, ih]
          simp only [KeyedMap.find?_erase]
          constructor
          · rintro ⟨hfind, hrest⟩
            split at hfind
            · cases hfind
            rename_i hne
            refine ⟨hfind, fun hash winner hmem hwinner => ?_⟩
            rcases List.mem_cons.mp hmem with heq | hmem
            · rw [← heq] at hne
              exact Ne.symm hne
            · exact hrest hash winner hmem hwinner
          · rintro ⟨hfind, hrest⟩
            have hne : freed entry.1 ≠ nBlockHeight :=
              hrest entry.1 entry.2 List.mem_cons_self hold
            exact ⟨by rw [if_neg (Ne.symm hne)]; exact hfind,
              fun hash winner hmem =>
                hrest hash winner (List.mem_cons_of_mem _ hmem)⟩

/-- Pruning leaves the winners of the other heights. -/
theorem cleanEntries_countVotes {nBlockHeight : Int}
    (hkept : old nBlockHeight = false) (payee : CScript)
    (entries : List (Uint256 × CMasternodePaymentWinner))
    (s : CMasternodePayments) (hnodup : (entries.map Prod.fst).Nodup)
    (hentries : ∀ hash winner, (hash, winner) ∈ entries →
      s.mapMasternodePayeeVotes.find? hash = some winner) :
    (cleanEntries old freed entries s).countVotes nBlockHeight payee =
      s.countVotes nBlockHeight payee := by
  induction entries generalizing s with
  | nil => rfl
  | cons entry rest ih =>
      rw [List.map_cons, List.nodup_cons] at hnodup
      have hrest : ∀ hash winner, (hash, winner) ∈ rest →
          s.mapMasternodePayeeVotes.find? hash = some winner :=
        fun hash winner hmem =>
          hentries hash winner (List.mem_cons_of_mem _ hmem)
      unfold cleanEntries
      split
      · rename_i hold
        have hne : entry.2.nBlockHeight ≠ nBlockHeight := by
          intro heq
          rw [heq, hkept] at hold
          cases hold
        rw [ih _ hnodup.2]
        · exact countVotes_erase
            (hentries entry.1 entry.2 List.mem_cons_self) rfl hne payee
        · intro hash winner hmem
          have hkey : hash ≠ entry.1 := by
            intro heq
            apply hnodup.1
            rw [← heq]
            exact List.mem_map.mpr ⟨(hash, winner), hmem, rfl⟩
          show (s.mapMasternodePayeeVotes.erase entry.1).find? hash = _
          rw [KeyedMap.find?_erase_ne _ hkey]
          exact hrest hash winner hmem
      · exact ih s hnodup.2 hrest

theorem clean_consistent (h : Consistent s)
    (hreads : ReadsHeights env freed s) :
    Consistent (cleanPaymentList env freed s) := by
  unfold cleanPaymentList
  cases htip : env.tipHeight with
  | none => exact h
  | some nHeight =>
      have hreads' : ∀ hash winner,
          s.mapMasternodePayeeVotes.find? hash = some winner →
          tooOld env nHeight winner.nBlockHeight = true →
          freed hash = winner.nBlockHeight :=
        fun hash winner => hreads nHeight hash winner htip
      -- what the loop leaves at a height is not old
      have hkept : ∀ nBlockHeight payees,
          (cleanEntries (tooOld env nHeight) freed
            s.mapMasternodePayeeVotes.toList s).mapMasternodeBlocks.find?
              nBlockHeight = some payees →
          tooOld env nHeight nBlockHeight = false := by
        intro nBlockHeight payees hpayees
        have hleft := (cleanEntries_blocks _ s nBlockHeight payees).mp hpayees
        have hsome : (s.mapMasternodeBlocks.find? nBlockHeight).isSome := by
          rw [hleft.1]
          rfl
        rcases (h.together nBlockHeight).mp hsome with
          ⟨hash, winner, hwinner, heq⟩
        rw [← heq]
        by_contra hold
        rw [Bool.not_eq_false] at hold
        exact hleft.2 hash winner (KeyedMap.mem_toList.mpr hwinner) hold
          ((hreads' hash winner hwinner hold).trans heq)
      constructor
      · intro nBlockHeight payees payee hpayees
        have hleft := (cleanEntries_blocks _ s nBlockHeight payees).mp hpayees
        rw [cleanEntries_countVotes (hkept nBlockHeight payees hpayees) payee
          _ s (KeyedMap.nodup_keys_toList _)
          (fun hash winner hmem => KeyedMap.mem_toList.mp hmem)]
        exact h.votes nBlockHeight payees payee hleft.1
      · intro nBlockHeight payees hpayees
        exact h.nodup nBlockHeight payees
          ((cleanEntries_blocks _ s nBlockHeight payees).mp hpayees).1
      · intro nBlockHeight
        constructor
        · intro hsome
          rcases Option.isSome_iff_exists.mp hsome with ⟨payees, hpayees⟩
          have hyoung := hkept nBlockHeight payees hpayees
          have hleft :=
            (cleanEntries_blocks _ s nBlockHeight payees).mp hpayees
          rcases (h.together nBlockHeight).mp (by rw [hleft.1]; rfl) with
            ⟨hash, winner, hwinner, heq⟩
          refine ⟨hash, winner, ?_, heq⟩
          rw [cleanEntries_votes]
          refine ⟨hwinner, fun winner' hmem => ?_⟩
          have hsame := KeyedMap.mem_toList.mp hmem
          rw [hwinner] at hsame
          cases hsame
          rw [heq]
          exact hyoung
        · rintro ⟨hash, winner, hwinner, heq⟩
          have hleft := (cleanEntries_votes _ s hash winner).mp hwinner
          have hyoung :=
            hleft.2 winner (KeyedMap.mem_toList.mpr hleft.1)
          rcases Option.isSome_iff_exists.mp ((h.together nBlockHeight).mpr
            ⟨hash, winner, hleft.1, heq⟩) with ⟨payees, hpayees⟩
          apply Option.isSome_iff_exists.mpr
          refine ⟨payees, (cleanEntries_blocks _ s nBlockHeight payees).mpr
            ⟨hpayees, fun hash' winner' hmem hold hfreed => ?_⟩⟩
          have hheight := hreads' hash' winner'
            (KeyedMap.mem_toList.mp hmem) hold
          rw [← hheight, hfreed, ← heq, hyoung] at hold
          cases hold

/-- **The maps agree in every run** in which the read through an erased
element yields the erased winner's height. -/
theorem Calls.mapsConsistent (h : Calls winnerHash s) : Consistent s := by
  induction h with
  | start =>
      constructor
      · intro _ _ _ hfind
        cases hfind
      · intro _ _ hfind
        cases hfind
      · intro nBlockHeight
        constructor
        · intro hsome
          cases hsome
        · rintro ⟨_, _, hfind, _⟩
          cases hfind
  | add _ hadd ih => exact add_consistent ih hadd
  | clean _ hreads ih => exact clean_consistent ih hreads

/-- **Whatever the read yields**, the maps agree after a call if and only if
it finds nothing to erase. -/
theorem cleanPaymentList_consistent_iff (h : Consistent s) {nHeight : Nat}
    (htip : env.tipHeight = some nHeight) :
    (∀ freed, Consistent (cleanPaymentList env freed s)) ↔
      ∀ hash winner, s.mapMasternodePayeeVotes.find? hash = some winner →
        tooOld env nHeight winner.nBlockHeight = false := by
  constructor
  · intro hall hash winner hwinner
    by_contra hold
    rw [Bool.not_eq_false] at hold
    have hafter := hall fun _ => winner.nBlockHeight + 1
    unfold cleanPaymentList at hafter
    rw [htip] at hafter
    rcases Option.isSome_iff_exists.mp ((h.together winner.nBlockHeight).mpr
      ⟨hash, winner, hwinner, rfl⟩) with ⟨payees, hpayees⟩
    have hleft : (cleanEntries (tooOld env nHeight)
        (fun _ => winner.nBlockHeight + 1) s.mapMasternodePayeeVotes.toList
          s).mapMasternodeBlocks.find? winner.nBlockHeight = some payees := by
      rw [cleanEntries_blocks]
      refine ⟨hpayees, fun _ _ _ _ hread => ?_⟩
      have hread' : winner.nBlockHeight + 1 = winner.nBlockHeight := hread
      omega
    rcases (hafter.together winner.nBlockHeight).mp (by rw [hleft]; rfl) with
      ⟨hash', winner', hwinner', heq⟩
    have hkept := (cleanEntries_votes _ s hash' winner').mp hwinner'
    have hyoung := hkept.2 winner' (KeyedMap.mem_toList.mpr hkept.1)
    rw [heq, hold] at hyoung
    cases hyoung
  · intro hyoung freed
    apply clean_consistent h
    intro nHeight' hash winner htip' hwinner hold
    rw [htip] at htip'
    cases htip'
    rw [hyoung hash winner hwinner] at hold
    cases hold

end Clean

end Maps

section Example

/-- The node above, a thousand blocks and more later. -/
def laterEnv : Env :=
  { trustingEnv with chainActive := List.replicate 1101 1 }

theorem tipHeight_laterEnv : laterEnv.tipHeight = some 1100 := by
  have hlength : laterEnv.chainActive.length = 1101 := List.length_replicate
  have hempty : laterEnv.chainActive.isEmpty = false := rfl
  have hlocked : laterEnv.fLocked = true := rfl
  unfold Env.tipHeight
  rw [hlength, hempty, hlocked]
  rfl

/-- One winner, for height 5. -/
def oneWinner : CMasternodePayments :=
  (addWinningMasternode lengthHash trustingEnv {} (winnerFor 5 [1])).getD {}

theorem oneWinner_calls : Calls lengthHash oneWinner :=
  have hadd : addWinningMasternode lengthHash trustingEnv {}
      (winnerFor 5 [1]) = some oneWinner := rfl
  Calls.add Calls.start hadd

theorem calls_mapsConsistent :
    Consistent (cleanPaymentList laterEnv (fun _ => 5) oneWinner) :=
  Calls.mapsConsistent (Calls.clean oneWinner_calls (by
    intro nHeight hash winner _ hwinner _
    have hvotes : (oneWinner.mapMasternodePayeeVotes.find? hash) =
        if hash = 501 then some (winnerFor 5 [1]) else none :=
      KeyedMap.find?_insert _ _ _ _
    rw [hvotes] at hwinner
    split at hwinner
    · cases hwinner
      rfl
    · cases hwinner))

/-- If the read yields another height, the payees of height 5 keep a vote
that is not stored any more. -/
theorem erased_winner_read :
    ¬ Consistent (cleanPaymentList laterEnv (fun _ => 7) oneWinner) := by
  intro h
  have hclean : cleanPaymentList laterEnv (fun _ => 7) oneWinner =
      cleanEntries (tooOld laterEnv 1100) (fun _ => 7)
        [(501, winnerFor 5 [1])] oneWinner := by
    unfold cleanPaymentList
    rw [tipHeight_laterEnv]
    rfl
  rw [hclean] at h
  have hvotes := h.votes 5 ⟨5, [⟨[1], 1⟩]⟩ [1] (by decide)
  exact absurd hvotes (by decide)

end Example

end CMasternodePayments

end Agrarian.Masternode
