import Agrarian.Lib.Run
import Agrarian.Masternode.Ranks

/-!
# Which winners are counted

A winner that arrives is recorded in three maps by
`ProcessMessageMasternodePayments`.  `CanVote` records the height a masternode
voted for before the signature is looked at, and `IsValid` only asks whether the
rank is above ten, while a masternode without a rank has the rank `-1`.
-/

namespace Agrarian.Masternode

open Agrarian.Lib

namespace CMasternodePayments

variable {winnerHash : CScript → Int → COutPoint → Uint256}

/-! ## Winners that should not count -/

/-- The rank of the masternode of a winner, for its height less 100. -/
def winnerRank (env : Env) (winner : CMasternodePaymentWinner) : Int :=
  env.getMasternodeRank winner.vinMasternode.prevout
    (int32 (winner.nBlockHeight - 100)) env.nActiveProtocol

/-- The masternode of the winner has one of the best ranks. -/
def InTopTen (env : Env) (winner : CMasternodePaymentWinner) : Prop :=
  1 ≤ winnerRank env winner ∧ winnerRank env winner ≤ MNPAYMENTS_SIGNATURES_TOTAL

/-- The message is dropped before `CanVote`, or `CanVote` refuses it. -/
def Dropped (winnerHash : CScript → Int → COutPoint → Uint256) (env : Env)
    (s : CMasternodePayments) (winner : CMasternodePaymentWinner) : Prop :=
  env.fBlockchainSynced = false ∨ env.fLiteMode = true ∨
    passesChecks winnerHash env s winner = false ∨
    s.mapMasternodesLastVote.find? (voteKey winner.vinMasternode.prevout) =
      some winner.nBlockHeight

/-- The height that a winner is for is recorded. -/
def recordVote (s : CMasternodePayments) (winner : CMasternodePaymentWinner) :
    CMasternodePayments :=
  { s with
    mapMasternodesLastVote := s.mapMasternodesLastVote.insert
      (voteKey winner.vinMasternode.prevout) winner.nBlockHeight }

/-- All that a winner can do: it is dropped, its vote is recorded only, or it is
recorded and counted. -/
theorem processMessage_cases (winnerHash : CScript → Int → COutPoint → Uint256)
    (env : Env) (s : CMasternodePayments) (winner : CMasternodePaymentWinner) :
    Dropped winnerHash env s winner ∧
        processMessageMasternodePayments winnerHash env s (.mnw winner) = s ∨
    ¬Dropped winnerHash env s winner ∧
      (signatureValid env winner = false ∨
        addWinningMasternode winnerHash env (recordVote s winner) winner = none) ∧
        processMessageMasternodePayments winnerHash env s (.mnw winner) =
          recordVote s winner ∨
    ¬Dropped winnerHash env s winner ∧ signatureValid env winner = true ∧
      ∃ s', addWinningMasternode winnerHash env (recordVote s winner) winner = some s' ∧
        processMessageMasternodePayments winnerHash env s (.mnw winner) = s' := by
  unfold Dropped processMessageMasternodePayments processWinner canVote
  by_cases hsynced : env.fBlockchainSynced = true
  · by_cases hlite : env.fLiteMode = true
    · simp [hlite]
    · by_cases hpasses : passesChecks winnerHash env s winner = true
      · by_cases hlast : s.mapMasternodesLastVote.find?
            (voteKey winner.vinMasternode.prevout) = some winner.nBlockHeight
        · simp [hlast]
        · simp only [hsynced, hlite, hpasses, hlast, Bool.not_true, Bool.or_self,
            Bool.false_eq_true, if_false, or_self, not_false_eq_true, true_and,
            false_and, false_or, Bool.true_eq_false]
          rw [show ({ s with
              mapMasternodesLastVote := s.mapMasternodesLastVote.insert
                (voteKey winner.vinMasternode.prevout) winner.nBlockHeight } :
              CMasternodePayments) = recordVote s winner from rfl]
          cases hsig : signatureValid env winner with
          | false => simp
          | true =>
              cases hadd : addWinningMasternode winnerHash env (recordVote s winner)
                  winner with
              | none => simp
              | some s' => simp
      · simp [hpasses]
  · simp [hsynced]

theorem addWinningMasternode_lastVote {env : Env} {s s' : CMasternodePayments}
    {winner : CMasternodePaymentWinner}
    (hadd : addWinningMasternode winnerHash env s winner = some s') :
    s'.mapMasternodesLastVote = s.mapMasternodesLastVote := by
  unfold addWinningMasternode at hadd
  split at hadd
  · cases hadd
  · split at hadd
    · cases hadd
    · cases hadd
      rfl

/-- A message that is not dropped changes the height recorded. -/
theorem changed_of_not_dropped {env : Env} {s : CMasternodePayments}
    {winner : CMasternodePaymentWinner} (hkept : ¬Dropped winnerHash env s winner) :
    processMessageMasternodePayments winnerHash env s (.mnw winner) ≠ s := by
  have hlast : s.mapMasternodesLastVote.find? (voteKey winner.vinMasternode.prevout) ≠
      some winner.nBlockHeight := fun h => hkept (Or.inr (Or.inr (Or.inr h)))
  have hrecorded : (recordVote s winner).mapMasternodesLastVote.find?
      (voteKey winner.vinMasternode.prevout) = some winner.nBlockHeight :=
    KeyedMap.find?_insert_self _ _ _
  intro hsame
  rcases processMessage_cases winnerHash env s winner with
    ⟨hdropped, -⟩ | ⟨-, -, hafter⟩ | ⟨-, -, s', hadd, hafter⟩
  · exact hkept hdropped
  · rw [← hsame, hafter] at hlast
    exact hlast hrecorded
  · rw [← hsame, hafter, addWinningMasternode_lastVote hadd] at hlast
    exact hlast hrecorded

/-- **A winner that should not count**, because its signature is wrong or its
masternode is not ranked high enough, leaves the maps unchanged if and only if
it is dropped before the check of the signature. -/
theorem unchanged_iff (env : Env) (s : CMasternodePayments)
    (winner : CMasternodePaymentWinner) :
    ((signatureValid env winner = false ∨ ¬InTopTen env winner) →
      processMessageMasternodePayments winnerHash env s (.mnw winner) = s) ↔
    (signatureValid env winner = true ∧ InTopTen env winner) ∨
      Dropped winnerHash env s winner := by
  constructor
  · intro hunchanged
    by_cases hgood : signatureValid env winner = true ∧ InTopTen env winner
    · exact Or.inl hgood
    · right
      by_contra hkept
      refine changed_of_not_dropped hkept (hunchanged ?_)
      rwa [← Bool.not_eq_true, ← not_and_or]
  · rintro (⟨hsig, htop⟩ | hdropped) hbad
    · rcases hbad with hforged | hunranked
      · rw [hsig] at hforged
        cases hforged
      · exact absurd htop hunranked
    · rcases processMessage_cases winnerHash env s winner with
        ⟨-, hafter⟩ | ⟨hkept, -⟩ | ⟨hkept, -⟩
      · exact hafter
      · exact absurd hdropped hkept
      · exact absurd hdropped hkept

section Example

/-- A node that takes the signature `[1]` of masternode `⟨1, 0⟩` only. -/
def carefulEnv : Env :=
  { trustingEnv with verifyMessage := fun winner => winner.vchSig = [1] }

def forgedWinner : CMasternodePaymentWinner := winnerFor 5 [9]

def genuineWinner : CMasternodePaymentWinner := { winnerFor 5 [1] with vchSig := [1] }

/-- A winner with a wrong signature is recorded as the vote of the masternode,
whose own winner for the height is dropped afterwards. -/
theorem forged_winner_blocks :
    signatureValid carefulEnv forgedWinner = false ∧
      processMessageMasternodePayments lengthHash carefulEnv {} (.mnw forgedWinner) ≠ {} ∧
      (processMessageMasternodePayments lengthHash carefulEnv {}
        (.mnw genuineWinner)).mapMasternodeBlocks.find? 5 = some ⟨5, [⟨[1], 1⟩]⟩ ∧
      (processMessageMasternodePayments lengthHash carefulEnv
        (processMessageMasternodePayments lengthHash carefulEnv {} (.mnw forgedWinner))
        (.mnw genuineWinner)).mapMasternodeBlocks.find? 5 = none := by
  refine ⟨by decide, changed_of_not_dropped ?_, by decide, by decide⟩
  unfold Dropped
  decide

end Example

/-! ## Ranks of the winners that are counted -/

/-- What a message finds around the votes, with the masternodes themselves. -/
structure MessageView where
  fBlockchainSynced : Bool := true
  fLiteMode : Bool := false
  nVersion : Int := 0
  nActiveProtocol : Int := 0
  verifyMessage : CMasternodePaymentWinner → Bool
  node : NodeView
  man : CMasternodeMan

namespace MessageView

variable (sort : List Entry → List Entry) (view : MessageView)

/-- The environment of the message handler. -/
def env : Env where
  fBlockchainSynced := view.fBlockchainSynced
  fLiteMode := view.fLiteMode
  nVersion := view.nVersion
  nActiveProtocol := view.nActiveProtocol
  fLocked := view.node.fLocked
  chainActive := view.node.hashes.chainActive
  mapCacheBlockHashes := view.node.hashes.mapCacheBlockHashes
  nCountEnabled := (view.man.countEnabled view.node (-1)).1.toNat
  nMasternodes := view.man.vMasternodes.length
  protocolVersion := fun out =>
    (view.man.find { prevout := out }).map CMasternode.protocolVersion
  getMasternodeRank := fun out nBlockHeight minProtocol =>
    view.man.getMasternodeRank view.node sort { prevout := out } nBlockHeight
      minProtocol true
  verifyMessage := view.verifyMessage

/-- The masternode of an output is enabled, and old enough where the payments
are enforced. -/
def Ranked (out : COutPoint) : Prop :=
  ∃ mn ∈ view.man.vMasternodes, mn.vin.prevout = out ∧
    (mn.check view.node false).isEnabled = true ∧
    (view.node.fPaymentEnforcement = true →
      MN_WINNER_MINIMUM_AGE ≤ view.node.getAdjustedTime - mn.sigTime)

variable {sort} {view}

/-- The handler and the ranks look up the same hash. -/
theorem getBlockHash_env (nBlockHeight : Int) :
    (view.env sort).getBlockHash nBlockHeight =
      (view.node.hashes.getBlockHash nBlockHeight).1 := by
  have hdrop : ∀ (l : List Uint256) (n : Nat),
      l.tail.reverse[n]? = if n + 1 < l.reverse.length then l.reverse[n]? else none := by
    intro l n
    rw [← List.dropLast_reverse, List.getElem?_dropLast]
    congr 1
    rw [eq_iff_iff]
    omega
  unfold Env.getBlockHash ChainHashes.getBlockHash ChainHashes.lookUp
  by_cases hempty : view.node.hashes.chainActive = []
  · simp [env, hempty]
  · have hcache : (view.env sort).mapCacheBlockHashes =
        view.node.hashes.mapCacheBlockHashes := rfl
    have hchain : (view.env sort).chainActive = view.node.hashes.chainActive := rfl
    simp only [hchain, List.isEmpty_iff, hempty, if_false, hcache]
    rw [show (view.node.hashes.chainActive.length : Int) - 1 = view.node.hashes.nTip
      from rfl]
    generalize (if nBlockHeight = 0 then view.node.hashes.nTip else nBlockHeight) = key
    cases view.node.hashes.mapCacheBlockHashes.find? key with
    | some hash => rfl
    | none =>
        by_cases hrange : view.node.hashes.nTip = 0 ∨ view.node.hashes.nTip + 1 < key
        · simp only [if_pos hrange]
        · simp only [if_neg hrange]
          have hwalk : view.node.hashes.chainActive.tail.reverse[
                (if 0 < key then view.node.hashes.nTip + 1 - key else 0).toNat]? =
              walkBack (if 0 < key then view.node.hashes.nTip + 1 - key else 0)
                view.node.hashes.chainActive.reverse 0 := by
            rw [ChainHashes.walkBack_eq (by split <;> omega), hdrop, Int.sub_zero]
          rw [hwalk]
          cases walkBack (if 0 < key then view.node.hashes.nTip + 1 - key else 0)
              view.node.hashes.chainActive.reverse 0 with
          | none => rfl
          | some hash => rfl

theorem rankEntry_isSome_iff {node : NodeView} {nBlockHeight minProtocol : Int}
    {mn : CMasternode} :
    (∃ s, CMasternodeMan.rankEntry node nBlockHeight minProtocol true mn = some s) ↔
      minProtocol ≤ mn.protocolVersion ∧ (mn.check node false).isEnabled = true ∧
        (node.fPaymentEnforcement = true →
          MN_WINNER_MINIMUM_AGE ≤ node.getAdjustedTime - mn.sigTime) := by
  unfold CMasternodeMan.rankEntry
  by_cases hproto : mn.protocolVersion < minProtocol
  · simp [hproto]
  · by_cases hyoung : node.fPaymentEnforcement = true ∧
        node.getAdjustedTime - mn.sigTime < MN_WINNER_MINIMUM_AGE
    · simp [hproto, hyoung]
    · have hold : node.fPaymentEnforcement = true →
          MN_WINNER_MINIMUM_AGE ≤ node.getAdjustedTime - mn.sigTime :=
        fun henforced => not_lt.mp fun hlt => hyoung ⟨henforced, hlt⟩
      simp only [hproto, hyoung, if_false, not_lt.mp hproto, true_and]
      cases (mn.check node false).isEnabled with
      | false => simp
      | true => simpa using hold

/-- A rank is a position from 1 on exactly if the block is known and the
masternode is one of those that are ranked. -/
theorem getMasternodeRank_pos_iff {node : NodeView} {man : CMasternodeMan}
    (hsort : SortsDown Prod.fst sort) (vin : CTxIn) (nBlockHeight minProtocol : Int) :
    1 ≤ man.getMasternodeRank node sort vin nBlockHeight minProtocol true ↔
      (node.hashes.getBlockHash nBlockHeight).1.isSome = true ∧
      ∃ mn ∈ man.vMasternodes, mn.vin.prevout = vin.prevout ∧ ∃ s,
        CMasternodeMan.rankEntry node nBlockHeight minProtocol true mn = some s := by
  unfold CMasternodeMan.getMasternodeRank
  cases (node.hashes.getBlockHash nBlockHeight).1 with
  | none => simp
  | some hash =>
      have hmem : vin.prevout ∈ (sort (man.vecMasternodeScores node nBlockHeight
            minProtocol true)).map (fun s => s.2.prevout) ↔
          ∃ mn ∈ man.vMasternodes, mn.vin.prevout = vin.prevout ∧ ∃ s,
            CMasternodeMan.rankEntry node nBlockHeight minProtocol true mn = some s := by
        rw [((hsort.perm _).map _).mem_iff, List.mem_map]
        constructor
        · rintro ⟨s, hs, hprevout⟩
          obtain ⟨mn, hmn, hentry⟩ := List.mem_filterMap.mp hs
          refine ⟨mn, hmn, ?_, s, hentry⟩
          rw [← CMasternodeMan.rankEntry_vin hentry, hprevout]
        · rintro ⟨mn, hmn, hprevout, s, hentry⟩
          refine ⟨s, List.mem_filterMap.mpr ⟨mn, hmn, hentry⟩, ?_⟩
          rw [CMasternodeMan.rankEntry_vin hentry, hprevout]
      simp only [CMasternodeMan.rankLoop_eq, Option.isSome_some, true_and]
      split
      · rename_i hranked
        refine iff_of_true ?_ (hmem.mp hranked)
        omega
      · rename_i hunranked
        exact iff_of_false (by decide) fun h => hunranked (hmem.mpr h)

/-- Where the masternode of a winner has a sufficient protocol and the block is
known, its rank is a position exactly if it is ranked. -/
theorem winnerRank_pos_iff (hsort : SortsDown Prod.fst sort)
    {winner : CMasternodePaymentWinner}
    (hvalid : isValid (view.env sort) winner = true)
    (hblock : ((view.env sort).getBlockHash
      (int32 (winner.nBlockHeight - 100))).isSome = true) :
    1 ≤ winnerRank (view.env sort) winner ↔ view.Ranked winner.vinMasternode.prevout := by
  rw [getBlockHash_env] at hblock
  unfold winnerRank
  rw [show (view.env sort).getMasternodeRank = fun out nBlockHeight minProtocol =>
      view.man.getMasternodeRank view.node sort { prevout := out } nBlockHeight
        minProtocol true from rfl]
  rw [getMasternodeRank_pos_iff hsort]
  simp only [rankEntry_isSome_iff, hblock, true_and]
  constructor
  · rintro ⟨mn, hmn, hprevout, -, henabled, hage⟩
    exact ⟨mn, hmn, hprevout, henabled, hage⟩
  · rintro ⟨mn, hmn, hprevout, henabled, hage⟩
    refine ⟨mn, hmn, hprevout, ?_, henabled, hage⟩
    have hfind : view.man.find { prevout := winner.vinMasternode.prevout } = some mn :=
      (CMasternodeMan.find_eq_some_iff _ _ _).mpr ⟨hmn, hprevout⟩
    have hproto : (view.env sort).protocolVersion winner.vinMasternode.prevout =
        some mn.protocolVersion := by
      simp only [env, hfind, Option.map_some]
    unfold isValid at hvalid
    rw [hproto] at hvalid
    simp only at hvalid
    split at hvalid
    · cases hvalid
    · rename_i hold
      exact not_lt.mp hold

end MessageView

/-- The votes for a payee at a height. -/
def votesAt (s : CMasternodePayments) (nBlockHeight : Int) (payee : CScript) : Int :=
  (s.mapMasternodeBlocks.find? nBlockHeight).elim 0 fun payees => payees.votesFor payee

/-- The maps, and a log of the winners whose vote was counted with the ranks of
their masternodes at that time. -/
structure Tally where
  votes : CMasternodePayments := {}
  counted : List (CMasternodePaymentWinner × Int) := []

/-- A message that reaches the handler. -/
structure Arrival where
  view : MessageView
  msg : Message

/-- The handler takes a message; a winner is logged if the votes for its payee
change. -/
def Tally.receive (winnerHash : CScript → Int → COutPoint → Uint256)
    (sort : List Entry → List Entry) (t : Tally) (arrival : Arrival) : Tally :=
  let votes := processMessageMasternodePayments winnerHash (arrival.view.env sort)
    t.votes arrival.msg
  match arrival.msg with
  | .mnget _ => { t with votes := votes }
  | .mnw winner =>
      if votes.votesAt winner.nBlockHeight winner.payee =
          t.votes.votesAt winner.nBlockHeight winner.payee then { t with votes := votes }
      else
        { votes := votes
          counted := t.counted ++ [(winner, winnerRank (arrival.view.env sort) winner)] }

/-- The winner passes all that the handler asks of it. -/
def Admitted (winnerHash : CScript → Int → COutPoint → Uint256) (env : Env)
    (s : CMasternodePayments) (winner : CMasternodePaymentWinner) : Prop :=
  ¬Dropped winnerHash env s winner ∧ signatureValid env winner = true ∧
    (env.getBlockHash (int32 (winner.nBlockHeight - 100))).isSome = true

/-- Every vote is logged, and every logged masternode was ranked high enough. -/
structure AllRanked (t : Tally) : Prop where
  logged : ∀ nBlockHeight payee, t.votes.votesAt nBlockHeight payee =
    (t.counted.countP fun c => c.1.nBlockHeight = nBlockHeight ∧ c.1.payee = payee : Nat)
  ranked : ∀ c ∈ t.counted, 1 ≤ c.2 ∧ c.2 ≤ MNPAYMENTS_SIGNATURES_TOTAL

theorem isValid_of_not_dropped {env : Env} {s : CMasternodePayments}
    {winner : CMasternodePaymentWinner} (hkept : ¬Dropped winnerHash env s winner) :
    isValid env winner = true ∧
      s.mapMasternodePayeeVotes.find? (getHash winnerHash winner) = none := by
  have hpasses : passesChecks winnerHash env s winner = true := by
    by_contra hfails
    exact hkept (Or.inr (Or.inr (Or.inl (Bool.not_eq_true _ ▸ hfails))))
  unfold passesChecks at hpasses
  rw [Bool.and_eq_true] at hpasses
  split at hpasses
  · exact absurd hpasses.2 Bool.false_ne_true
  · simp only [Bool.and_eq_true, Option.isNone_iff_eq_none] at hpasses
    exact ⟨hpasses.2.2, hpasses.2.1.1⟩

theorem addWinningMasternode_isSome_iff {env : Env} {s : CMasternodePayments}
    {winner : CMasternodePaymentWinner} :
    (∃ s', addWinningMasternode winnerHash env s winner = some s') ↔
      (env.getBlockHash (int32 (winner.nBlockHeight - 100))).isSome = true ∧
        s.mapMasternodePayeeVotes.find? (getHash winnerHash winner) = none := by
  unfold addWinningMasternode
  cases env.getBlockHash (int32 (winner.nBlockHeight - 100)) with
  | none => simp
  | some hash =>
      cases hseen : s.mapMasternodePayeeVotes.find? (getHash winnerHash winner) with
      | none => simp
      | some vote => simp

theorem votesAt_addWinningMasternode {env : Env} {s s' : CMasternodePayments}
    {winner : CMasternodePaymentWinner}
    (hadd : addWinningMasternode winnerHash env s winner = some s')
    (nBlockHeight : Int) (payee : CScript) :
    s'.votesAt nBlockHeight payee = s.votesAt nBlockHeight payee +
      if winner.nBlockHeight = nBlockHeight ∧ winner.payee = payee then 1 else 0 := by
  obtain ⟨-, -, hblock, hothers⟩ := addWinningMasternode_eq_some hadd
  by_cases hheight : winner.nBlockHeight = nBlockHeight
  · subst hheight
    have hbefore : s.votesAt winner.nBlockHeight payee =
        ((s.mapMasternodeBlocks.find? winner.nBlockHeight).getD
          { nBlockHeight := winner.nBlockHeight }).votesFor payee := by
      unfold votesAt
      cases s.mapMasternodeBlocks.find? winner.nBlockHeight with
      | none => rfl
      | some payees => rfl
    rw [votesAt, hblock, Option.elim_some, votesFor_addPayee, hbefore]
    by_cases hpayee : winner.payee = payee
    · simp [hpayee]
    · simp [hpayee, Ne.symm hpayee]
  · rw [votesAt, hothers nBlockHeight (Ne.symm hheight), if_neg fun h => hheight h.1,
      Int.add_zero]
    rfl

/-- What a winner does to the votes: one more for its payee if it passes
everything, and nothing otherwise. -/
theorem votesAt_processMessage (winnerHash : CScript → Int → COutPoint → Uint256)
    (env : Env) (s : CMasternodePayments) (winner : CMasternodePaymentWinner) :
    (Admitted winnerHash env s winner ∧ ∀ nBlockHeight payee,
      (processMessageMasternodePayments winnerHash env s (.mnw winner)).votesAt
          nBlockHeight payee = s.votesAt nBlockHeight payee +
        if winner.nBlockHeight = nBlockHeight ∧ winner.payee = payee then 1 else 0) ∨
    (¬Admitted winnerHash env s winner ∧ ∀ nBlockHeight payee,
      (processMessageMasternodePayments winnerHash env s (.mnw winner)).votesAt
          nBlockHeight payee = s.votesAt nBlockHeight payee) := by
  rcases processMessage_cases winnerHash env s winner with
    ⟨hdropped, hafter⟩ | ⟨hkept, hrefused, hafter⟩ | ⟨hkept, hsig, s', hadd, hafter⟩
  · refine Or.inr ⟨fun h => h.1 hdropped, fun nBlockHeight payee => ?_⟩
    rw [hafter]
  · refine Or.inr ⟨fun h => ?_, fun nBlockHeight payee => ?_⟩
    · rcases hrefused with hforged | hnone
      · rw [h.2.1] at hforged
        cases hforged
      · have hfresh : (recordVote s winner).mapMasternodePayeeVotes.find?
            (getHash winnerHash winner) = none := (isValid_of_not_dropped hkept).2
        obtain ⟨s', hadd⟩ := addWinningMasternode_isSome_iff.mpr ⟨h.2.2, hfresh⟩
        rw [hnone] at hadd
        cases hadd
    · rw [hafter]
      rfl
  · refine Or.inl ⟨⟨hkept, hsig, ?_⟩, fun nBlockHeight payee => ?_⟩
    · exact (addWinningMasternode_isSome_iff.mp ⟨s', hadd⟩).1
    · rw [hafter, votesAt_addWinningMasternode hadd]
      rfl

/-- One message keeps every logged rank high enough, if and only if a winner
that is counted is from a masternode that is ranked. -/
theorem receive_allRanked_iff {sort : List Entry → List Entry}
    (hsort : SortsDown Prod.fst sort) {t : Tally} (h : AllRanked t) (arrival : Arrival) :
    AllRanked (t.receive winnerHash sort arrival) ↔
      ∀ winner, arrival.msg = .mnw winner →
        Admitted winnerHash (arrival.view.env sort) t.votes winner →
        arrival.view.Ranked winner.vinMasternode.prevout := by
  obtain ⟨view, msg⟩ := arrival
  cases msg with
  | mnget nCountNeeded =>
      refine iff_of_true ⟨h.logged, h.ranked⟩ ?_
      intro winner hmsg
      cases hmsg
  | mnw winner =>
      rcases votesAt_processMessage winnerHash (view.env sort) t.votes
        winner with ⟨hadmitted, hvotes⟩ | ⟨hrefused, hvotes⟩
      · have hreceive : t.receive winnerHash sort ⟨view, .mnw winner⟩ =
            { votes := processMessageMasternodePayments winnerHash (view.env sort)
                t.votes (.mnw winner)
              counted := t.counted ++ [(winner, winnerRank (view.env sort) winner)] } := by
          unfold Tally.receive
          simp only
          rw [if_neg]
          rw [hvotes, if_pos ⟨rfl, rfl⟩]
          omega
        have hvalid := (isValid_of_not_dropped hadmitted.1).1
        have hpos := MessageView.winnerRank_pos_iff hsort hvalid hadmitted.2.2
        have htop : winnerRank (view.env sort) winner ≤ MNPAYMENTS_SIGNATURES_TOTAL := by
          unfold isValid at hvalid
          split at hvalid
          · cases hvalid
          · split at hvalid
            · cases hvalid
            · exact of_decide_eq_true hvalid
        rw [hreceive]
        constructor
        · intro hafter winner' hmsg _
          cases hmsg
          have hlogged := hafter.ranked (winner, winnerRank (view.env sort) winner)
            (List.mem_append_right _ (List.mem_singleton_self _))
          exact hpos.mp hlogged.1
        · intro hranked
          constructor
          · intro nBlockHeight payee
            rw [hvotes, h.logged, List.countP_append]
            by_cases hsame : winner.nBlockHeight = nBlockHeight ∧ winner.payee = payee
            · simp [hsame]
            · simp [hsame]
          · intro c hc
            rcases List.mem_append.mp hc with hold | hnew
            · exact h.ranked c hold
            · rw [List.mem_singleton.mp hnew]
              exact ⟨hpos.mpr (hranked winner rfl hadmitted), htop⟩
      · have hreceive : t.receive winnerHash sort ⟨view, .mnw winner⟩ =
            { t with
              votes := processMessageMasternodePayments winnerHash (view.env sort)
                t.votes (.mnw winner) } := by
          unfold Tally.receive
          simp only
          rw [if_pos (hvotes _ _)]
        rw [hreceive]
        refine iff_of_true ⟨?_, h.ranked⟩ ?_
        · intro nBlockHeight payee
          rw [hvotes, h.logged]
        · intro winner' hmsg hadmitted
          cases hmsg
          exact absurd hadmitted hrefused

/-- **Every vote that is counted**, in every run of messages, is from one of the
ten masternodes with the best ranks, if and only if no winner that passes
everything is from a masternode that is not ranked. -/
theorem allRanked_iff {sort : List Entry → List Entry}
    (hsort : SortsDown Prod.fst sort) (arrivals : List Arrival) :
    (∀ reached rest, arrivals = reached ++ rest →
      AllRanked (reached.foldl (Tally.receive winnerHash sort) {})) ↔
    EachAfter (fun before arrival => ∀ winner, arrival.msg = .mnw winner →
      Admitted winnerHash (arrival.view.env sort)
        (before.foldl (Tally.receive winnerHash sort) {}).votes winner →
      arrival.view.Ranked winner.vinMasternode.prevout) arrivals := by
  have hstart : AllRanked {} := by
    constructor
    · intro nBlockHeight payee
      rfl
    · intro c hc
      cases hc
  exact EachAfter.forall_reached_iff hstart fun t arrival h =>
    receive_allRanked_iff hsort h arrival

section Example

/-- A node with one masternode, which was last seen at a time. -/
def viewSeenAt (sigTime : Int) : MessageView where
  verifyMessage := fun _ => true
  node := { getTime := 20000, getAdjustedTime := 20000, hashes := { chainActive := [1, 2, 3] } }
  man :=
    { vMasternodes :=
        [{ vin := { prevout := ⟨1, 0⟩ }, lastPing := { blockHash := 1, sigTime := sigTime } }]
      distinct := List.nodup_singleton _ }

theorem allRanked_pinged :
    AllRanked ([Arrival.mk (viewSeenAt 19000) (.mnw (winnerFor 5 [1]))].foldl
      (Tally.receive lengthHash (sortDown Prod.fst)) {}) ∧
    ([Arrival.mk (viewSeenAt 19000) (.mnw (winnerFor 5 [1]))].foldl
      (Tally.receive lengthHash (sortDown Prod.fst)) {}).votes.votesAt 5 [1] = 1 := by
  refine ⟨(allRanked_iff sortDown_sortsDown _).mpr ?_ _ [] rfl, by decide⟩
  intro before arrival after heq winner hmsg _
  obtain ⟨rfl, hrest⟩ := List.append_eq_singleton_iff.mp heq.symm |>.resolve_right
    fun h => List.cons_ne_nil _ _ h.2
  obtain ⟨rfl, rfl⟩ := List.cons.inj hrest
  cases hmsg
  exact ⟨_, List.mem_singleton_self _, rfl, by decide, by decide⟩

/-- A masternode that was last seen too long ago is not ranked, and its vote is
counted. -/
theorem unranked_vote_counted :
    ¬ AllRanked ([Arrival.mk (viewSeenAt 12500) (.mnw (winnerFor 5 [1]))].foldl
      (Tally.receive lengthHash (sortDown Prod.fst)) {}) := by
  intro h
  have hranked := h.ranked (winnerFor 5 [1], -1) (by decide)
  exact absurd hranked.1 (by decide)

end Example

end CMasternodePayments

end Agrarian.Masternode
