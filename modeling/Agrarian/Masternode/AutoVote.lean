import Agrarian.Lib.Selection
import Agrarian.Masternode.FinalizedBudgets
import Agrarian.Script.Text

/-!
# Voting on finalized budgets by itself

`CFinalizedBudget::CheckAndVote` of `masternode-budget.cpp`, by which a
masternode votes on a finalized budget that pays what `CBudgetManager::GetBudget`
finds: the passing proposals in the order of their votes, as long as the total
budget lasts.  Both lists are sorted by hash and compared item by item, the
payees as they print.

A proposal is kept under its hash, so no two of those that `GetBudget` returns
have the same hash.  What the sorts do with ties is left open.  The amounts that
are marked as allotted are left out, and so is what `SubmitVote` itself does.
-/

namespace Agrarian.Masternode.AutoVote

open Agrarian.Lib Agrarian.Validation

/-! ## Proposals -/

structure CBudgetProposal where
  fValid : Bool := true
  strProposalName : String
  strURL : String
  nBlockStart : Int
  nBlockEnd : Int
  nAmount : Int
  address : CScript
  nTime : Int
  nFeeTXHash : Uint256
  mapVotes : KeyedMap Uint256 Votes.CBudgetVote := KeyedMap.empty

/-- The hash of the serialized name, URL, first and last block, amount and payee. -/
abbrev ProposalHash := String → String → Int → Int → Int → CScript → Uint256

/-- What a node finds around its budgets. -/
structure View extends Finalized.BudgetView where
  nProposalEstablishmentTime : Int
  node : NodeView
  man : CMasternodeMan
  nActiveProtocol : Int
  /-- `VerifyMessage` for the signature of a vote. -/
  verifyMessage : Votes.CBudgetVote → Bool
  fMasterNode : Bool
  strBudgetMode : String
  /-- What `rand()` returns. -/
  rand : Int

/-- `CBudgetVote::SignatureValid`. -/
def signatureValid (view : View) (vote : Votes.CBudgetVote) (fSignatureCheck : Bool) :
    Bool :=
  match view.man.find vote.vin with
  | none => false
  | some _ => !fSignatureCheck || view.verifyMessage vote

namespace CBudgetProposal

def getHash (hash : ProposalHash) (p : CBudgetProposal) : Uint256 :=
  hash p.strProposalName p.strURL p.nBlockStart p.nBlockEnd p.nAmount p.address

def getPayee (p : CBudgetProposal) : CScript := p.address

def getAmount (p : CBudgetProposal) : Int := p.nAmount

def getYeas (p : CBudgetProposal) : Int := Votes.getYeas p.mapVotes

def getNays (p : CBudgetProposal) : Int := Votes.getNays p.mapVotes

def cleanAndRemove (view : View) (fSignatureCheck : Bool) (p : CBudgetProposal) :
    CBudgetProposal :=
  { p with
    mapVotes := p.mapVotes.mapVals fun vote =>
      { vote with fValid := signatureValid view vote fSignatureCheck } }

def isEstablished (view : View) (p : CBudgetProposal) : Bool :=
  p.nTime < view.node.getAdjustedTime - view.nProposalEstablishmentTime

def isPassing (view : View) (nBlockStartBudget nBlockEndBudget mnCount : Int)
    (p : CBudgetProposal) : Bool :=
  if !p.fValid then false
  else if view.tipHeight.isNone then false
  else if nBlockStartBudget < p.nBlockStart then false
  else if p.nBlockEnd < nBlockEndBudget then false
  else if p.getYeas - p.getNays ≤ mnCount / 10 then false
  else if !p.isEstablished view then false
  else true

end CBudgetProposal

/-! ## The budget -/

variable (hash : ProposalHash)

/-- The proposals of the manager, each under its hash. -/
structure CBudgetManager where
  mapProposals : KeyedMap Uint256 CBudgetProposal
  underHash : ∀ entry ∈ mapProposals.toList, entry.2.getHash hash = entry.1

/-- By votes, and for a tie by the hash of the fee transaction. -/
def sortProposalsByVotes (left right : CBudgetProposal × Int) : Bool :=
  if left.2 ≠ right.2 then right.2 < left.2
  else right.1.nFeeTXHash.toNat < left.1.nFeeTXHash.toNat

def sortProposalsByHash (left right : CBudgetProposal) : Bool :=
  decide ((left.getHash hash).toNat < (right.getHash hash).toNat)

def sortPaymentsByHash (left right : CTxBudgetPayment) : Bool :=
  decide (left.nProposalHash.toNat < right.nProposalHash.toNat)

/-- The sorts of the code. -/
structure Sorts where
  byVotes : StdSort sortProposalsByVotes
  proposalsByHash : StdSort (sortProposalsByHash hash)
  paymentsByHash : StdSort sortPaymentsByHash

/-- The loop that grabs the proposals in order. -/
def grabProposals (isPassing : CBudgetProposal → Bool) (nTotalBudget : Int) :
    List CBudgetProposal → Int → List CBudgetProposal
  | [], _ => []
  | p :: rest, nBudgetAllocated =>
      if isPassing p then
        if int64 (p.getAmount + nBudgetAllocated) ≤ nTotalBudget then
          p :: grabProposals isPassing nTotalBudget rest
            (int64 (nBudgetAllocated + p.getAmount))
        else grabProposals isPassing nTotalBudget rest nBudgetAllocated
      else grabProposals isPassing nTotalBudget rest nBudgetAllocated

namespace CBudgetManager

variable {hash}

/-- `CleanAndRemove(false)` for every proposal. -/
def cleanProposals (view : View) (mgr : CBudgetManager hash) : CBudgetManager hash where
  mapProposals := mgr.mapProposals.mapVals (CBudgetProposal.cleanAndRemove view false)
  underHash := by
    intro entry hentry
    rw [KeyedMap.toList_mapVals] at hentry
    obtain ⟨old, hold, rfl⟩ := List.mem_map.mp hentry
    exact mgr.underHash old hold

/-- `GetBudget`, and the manager it leaves. -/
def getBudget (view : View) (sorts : Sorts hash) (mgr : CBudgetManager hash) :
    List CBudgetProposal × CBudgetManager hash :=
  let mgr := mgr.cleanProposals view
  let vBudgetProposalsSort := sorts.byVotes.sort
    (mgr.mapProposals.toList.map fun entry => (entry.2, entry.2.getYeas - entry.2.getNays))
  match view.tipHeight with
  | none => ([], mgr)
  | some nHeight =>
      let nCycle := view.params.nBudgetCycleBlocks
      let nBlockStart := nHeight - nHeight.tmod nCycle + nCycle
      let nBlockEnd := nBlockStart + nCycle - 1
      let mnCount := (view.man.countEnabled view.node view.nActiveProtocol).1
      let nTotalBudget := Finalized.getTotalBudget view.toBudgetView nBlockStart
      (grabProposals (CBudgetProposal.isPassing view nBlockStart nBlockEnd mnCount)
        nTotalBudget (vBudgetProposalsSort.map Prod.fst) 0, mgr)

end CBudgetManager

/-! ## The vote -/

structure CFinalizedBudget extends Finalized.CFinalizedBudget where
  fAutoChecked : Bool := false

/-- The items of two sorted lists are the same. -/
def sameItems : List CTxBudgetPayment → List CBudgetProposal → Bool
  | [], _ => true
  | _ :: _, [] => false
  | payment :: payments, p :: proposals =>
      if payment.nProposalHash ≠ p.getHash hash then false
      else if Script.toString payment.payee ≠ Script.toString p.getPayee then false
      else if payment.nAmount ≠ p.getAmount then false
      else sameItems payments proposals

/-- What `CheckAndVote` leaves. -/
structure Outcome where
  budget : CFinalizedBudget
  mgr : CBudgetManager hash
  /-- `SubmitVote` is called. -/
  fSubmitVote : Bool

variable {hash}

def checkAndVote (view : View) (sorts : Sorts hash) (mgr : CBudgetManager hash)
    (b : CFinalizedBudget) : Outcome hash :=
  if view.tipHeight.isNone then ⟨b, mgr, false⟩
  else if !view.fMasterNode || b.fAutoChecked then ⟨b, mgr, false⟩
  -- spread out the voting activity
  else if view.rand.tmod 4 ≠ 0 then ⟨b, mgr, false⟩
  else
    let b := { b with fAutoChecked := true }
    if view.strBudgetMode = "auto" then
      let found := mgr.getBudget view sorts
      let proposals := sorts.proposalsByHash.sort found.1
      let payments := sorts.paymentsByHash.sort b.vecBudgetPayments
      if proposals.length = 0 then ⟨b, found.2, false⟩
      else if proposals.length ≠ payments.length then ⟨b, found.2, false⟩
      else ⟨b, found.2, sameItems hash payments proposals⟩
    else ⟨b, mgr, false⟩

/-! ## The items that are compared -/

/-- A payment as the comparison sees it. -/
def printedPayment (payment : CTxBudgetPayment) : Uint256 × List Char × Int :=
  (payment.nProposalHash, Script.toString payment.payee, payment.nAmount)

variable (hash) in
def printedProposal (p : CBudgetProposal) : Uint256 × List Char × Int :=
  (p.getHash hash, Script.toString p.getPayee, p.getAmount)

/-- A payment itself. -/
def exactPayment (payment : CTxBudgetPayment) : Uint256 × CScript × Int :=
  (payment.nProposalHash, payment.payee, payment.nAmount)

variable (hash) in
def exactProposal (p : CBudgetProposal) : Uint256 × CScript × Int :=
  (p.getHash hash, p.getPayee, p.getAmount)

theorem sameItems_iff {payments : List CTxBudgetPayment}
    {proposals : List CBudgetProposal} (hlength : proposals.length = payments.length) :
    sameItems hash payments proposals = true ↔
      payments.map printedPayment = proposals.map (printedProposal hash) := by
  induction payments generalizing proposals with
  | nil =>
      obtain rfl : proposals = [] := List.length_eq_zero_iff.mp hlength
      exact ⟨fun _ => rfl, fun _ => rfl⟩
  | cons payment payments ih =>
      cases proposals with
      | nil => cases hlength
      | cons p proposals =>
          have hrest := ih (Nat.succ.inj hlength)
          rw [List.map_cons, List.map_cons, List.cons.injEq, ← hrest, sameItems]
          unfold printedPayment printedProposal
          rw [Prod.mk.injEq, Prod.mk.injEq]
          split_ifs with hhash hpayee hamount
          · exact ⟨fun h => h.elim, fun h => absurd h.1.1 hhash⟩
          · exact ⟨fun h => h.elim, fun h => absurd h.1.2.1 hpayee⟩
          · exact ⟨fun h => h.elim, fun h => absurd h.1.2.2 hamount⟩
          · exact ⟨fun h => ⟨⟨not_not.mp hhash, not_not.mp hpayee, not_not.mp hamount⟩, h⟩,
              And.right⟩

/-! ## Distinct hashes -/

theorem grabProposals_sublist (isPassing : CBudgetProposal → Bool) (nTotalBudget : Int)
    (proposals : List CBudgetProposal) (nBudgetAllocated : Int) :
    (grabProposals isPassing nTotalBudget proposals nBudgetAllocated).Sublist proposals := by
  induction proposals generalizing nBudgetAllocated with
  | nil => exact List.Sublist.refl []
  | cons p rest ih =>
      unfold grabProposals
      split
      · split
        · exact (ih _).cons_cons p
        · exact (ih _).cons p
      · exact (ih _).cons p

/-- **The proposals of a budget** have distinct hashes. -/
theorem getBudget_hashes_nodup (view : View) (sorts : Sorts hash)
    (mgr : CBudgetManager hash) :
    ((mgr.getBudget view sorts).1.map fun p => (p.getHash hash).toNat).Nodup := by
  unfold CBudgetManager.getBudget
  dsimp only
  split
  · exact List.nodup_nil
  · refine List.Nodup.sublist ((grabProposals_sublist _ _ _ _).map _) ?_
    have hperm := ((sorts.byVotes.perm ((mgr.cleanProposals view).mapProposals.toList.map
      fun entry => (entry.2, entry.2.getYeas - entry.2.getNays))).map
        Prod.fst).map fun p => (p.getHash hash).toNat
    rw [hperm.nodup_iff, List.map_map, List.map_map]
    have hkeys := (mgr.cleanProposals view).mapProposals.nodup_keys_toList.map
      (f := BitVec.toNat) fun _ _ h => BitVec.eq_of_toNat_eq h
    rw [List.map_map] at hkeys
    refine (List.map_congr_left fun entry hentry => ?_) ▸ hkeys
    exact congrArg BitVec.toNat ((mgr.cleanProposals view).underHash entry hentry).symm

/-! ## When a masternode votes -/

/-- The budget is looked at. -/
def Checks (view : View) (b : CFinalizedBudget) : Prop :=
  view.tipHeight.isSome ∧ view.fMasterNode = true ∧ b.fAutoChecked = false ∧
    view.rand.tmod 4 = 0

/-- The sorted lists agree when they hold the same items. -/
theorem sorted_items_iff (view : View) (sorts : Sorts hash) (mgr : CBudgetManager hash)
    (payments : List CTxBudgetPayment) :
    (sorts.paymentsByHash.sort payments).map printedPayment =
        (sorts.proposalsByHash.sort (mgr.getBudget view sorts).1).map
          (printedProposal hash) ↔
      (payments.map printedPayment).Perm
        ((mgr.getBudget view sorts).1.map (printedProposal hash)) :=
  map_stdSort_eq_iff (fun item : Uint256 × List Char × Int => item.1.toNat) printedPayment
    (printedProposal hash) sorts.paymentsByHash sorts.proposalsByHash
    (getBudget_hashes_nodup view sorts mgr)

theorem submits_iff (view : View) (sorts : Sorts hash) (mgr : CBudgetManager hash)
    (b : CFinalizedBudget) :
    (checkAndVote view sorts mgr b).fSubmitVote = true ↔
      Checks view b ∧ view.strBudgetMode = "auto" ∧
        (mgr.getBudget view sorts).1 ≠ [] ∧
        (b.vecBudgetPayments.map printedPayment).Perm
          ((mgr.getBudget view sorts).1.map (printedProposal hash)) := by
  have hproposals := sorts.proposalsByHash.perm (mgr.getBudget view sorts).1
  have hpayments := sorts.paymentsByHash.perm b.vecBudgetPayments
  have hitems := sorted_items_iff view sorts mgr b.vecBudgetPayments
  unfold checkAndVote Checks
  dsimp only
  split_ifs with htip hskip hwait hmode hnone hlength
  · simp [Option.isNone_iff_eq_none.mp htip]
  · rw [Bool.or_eq_true, Bool.not_eq_true'] at hskip
    constructor
    · exact fun h => h.elim
    · rintro ⟨⟨-, hmaster, hchecked, -⟩, -⟩
      rw [hmaster, hchecked] at hskip
      simp at hskip
  · constructor
    · exact fun h => h.elim
    · exact fun h => absurd h.1.2.2.2 hwait
  · constructor
    · exact fun h => h.elim
    · rintro ⟨-, -, hsome, -⟩
      rw [hproposals.length_eq, List.length_eq_zero_iff] at hnone
      exact absurd hnone hsome
  · constructor
    · exact fun h => h.elim
    · rintro ⟨-, -, -, hsame⟩
      have hequal := hsame.length_eq
      rw [List.length_map, List.length_map] at hequal
      rw [hproposals.length_eq, hpayments.length_eq] at hlength
      exact absurd hequal.symm hlength
  · rw [sameItems_iff (not_not.mp hlength), hitems]
    rw [hproposals.length_eq, List.length_eq_zero_iff] at hnone
    rw [Bool.or_eq_true, Bool.not_eq_true', not_or, Bool.not_eq_false,
      Bool.not_eq_true] at hskip
    have htipSome : view.tipHeight.isSome = true := by
      rwa [Option.isNone_iff_eq_none, ← ne_eq, ← Option.isSome_iff_ne_none] at htip
    constructor
    · exact fun hsame => ⟨⟨htipSome, hskip.1, hskip.2, not_not.mp hwait⟩, hmode, hnone, hsame⟩
    · exact fun h => h.2.2.2
  · constructor
    · exact fun h => h.elim
    · exact fun h => absurd h.2.1 hmode

/-- **A masternode that looks at a finalized budget** votes on it if and only if
there are proposals and the payments are the proposals, as hash, printed payee
and amount. -/
theorem checkAndVote_submits_iff (view : View) (sorts : Sorts hash)
    (mgr : CBudgetManager hash) (b : CFinalizedBudget) :
    (checkAndVote view sorts mgr b).fSubmitVote = true ↔
      Checks view b ∧ view.strBudgetMode = "auto" ∧
        (mgr.getBudget view sorts).1 ≠ [] ∧
        (b.vecBudgetPayments.map printedPayment).Perm
          ((mgr.getBudget view sorts).1.map (printedProposal hash)) :=
  submits_iff view sorts mgr b

section Example

/-- A masternode at height 4000 of the main network that checks a budget. -/
def votingView : View where
  params := mainParams
  tipHeight := some 4000
  collateralValid := fun _ => true
  nProposalEstablishmentTime := 60 * 60 * 24
  node := { getAdjustedTime := 100000, hashes := { chainActive := [] } }
  man := { vMasternodes := [{ vin := { prevout := ⟨8, 0⟩ } }], distinct := by decide }
  nActiveProtocol := 0
  verifyMessage := fun _ => true
  fMasterNode := true
  strBudgetMode := "auto"
  rand := 8

def constantHash : ProposalHash := fun _ _ _ _ _ _ => 5

/-- A proposal for the next budget with the vote of the masternode. -/
def proposalPaying (address : CScript) : CBudgetProposal where
  strProposalName := "proposal"
  strURL := "url"
  nBlockStart := 4320
  nBlockEnd := 8639
  nAmount := 10 * COIN
  address := address
  nTime := 0
  nFeeTXHash := 7
  mapVotes := KeyedMap.empty.insert 3
    { vin := { prevout := ⟨8, 0⟩ }, nProposalHash := 5, nVote := Votes.VOTE_YES, nTime := 0 }

def noProposals : CBudgetManager constantHash where
  mapProposals := KeyedMap.empty
  underHash := by decide

def oneProposal (address : CScript) : CBudgetManager constantHash where
  mapProposals := KeyedMap.empty.insert 5 (proposalPaying address)
  underHash := by
    intro entry hentry
    obtain rfl := List.mem_singleton.mp hentry
    rfl

/-- A finalized budget with these payees. -/
def budgetPayingTo (payees : List CScript) : CFinalizedBudget where
  strBudgetName := "main"
  nBlockStart := 4320
  vecBudgetPayments := payees.map fun payee =>
    { nProposalHash := 5, payee := payee, nAmount := 10 * COIN }
  nFeeTXHash := 7

def stableSorts : Sorts constantHash where
  byVotes := stableSort sortProposalsByVotes
    (by
      intro a b
      unfold sortProposalsByVotes
      split_ifs <;> simp <;> omega)
    (by
      intro a b c
      unfold sortProposalsByVotes
      split_ifs <;> simp <;> omega)
  proposalsByHash := stableSort (sortProposalsByHash constantHash)
    (by
      intro a b
      exact Or.inl (decide_eq_false (lt_irrefl 5)))
    (by
      intro a b c _ _
      exact decide_eq_false (lt_irrefl 5))
  paymentsByHash := stableSort sortPaymentsByHash
    (by
      intro a b
      unfold sortPaymentsByHash
      simp only [decide_eq_false_iff_not, not_lt]
      exact le_total _ _)
    (by
      intro a b c
      unfold sortPaymentsByHash
      simp only [decide_eq_false_iff_not, not_lt]
      exact le_trans)

/-- A payment to a public key, and the same with its size in a byte of its own. -/
def payToKey : CScript := 33 :: List.replicate 33 2 ++ [CScript.OP_CHECKSIG]

def payToKeyPushed : CScript := Script.OP_PUSHDATA1 :: payToKey

/-- A masternode votes on a budget that pays to another script than the proposal
does, and does not vote on an empty budget when there are no proposals. -/
theorem vote_not_exact :
    ¬ ((checkAndVote votingView stableSorts (oneProposal payToKey)
          (budgetPayingTo [payToKeyPushed])).fSubmitVote = true ↔
        ((budgetPayingTo [payToKeyPushed]).vecBudgetPayments.map exactPayment).Perm
          (((oneProposal payToKey).getBudget votingView stableSorts).1.map
            (exactProposal constantHash))) ∧
      ¬ ((checkAndVote votingView stableSorts noProposals
          (budgetPayingTo [])).fSubmitVote = true ↔
        ((budgetPayingTo []).vecBudgetPayments.map exactPayment).Perm
          ((noProposals.getBudget votingView stableSorts).1.map
            (exactProposal constantHash))) := by
  refine ⟨fun h => ?_, fun h => ?_⟩
  · exact absurd (h.mp (by decide +kernel)) (by decide +kernel)
  · exact absurd (h.mpr (by decide +kernel)) (by decide +kernel)

end Example

end Agrarian.Masternode.AutoVote
