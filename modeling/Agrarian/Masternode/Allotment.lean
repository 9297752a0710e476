import Agrarian.Lib.SortedMap
import Agrarian.Masternode.AutoVote

/-!
# The proposals that are paid

`CBudgetManager::GetBudget` of `masternode-budget.cpp` with the amounts that it marks as
allotted: the proposals are sorted by their votes, and those that pass get their amount as long
as the total budget of the next cycle lasts.  A proposal is known when it has passed `IsValid`,
which bounds its amount, so the sums do not overflow.

The amount of a proposal that does not pass is left as it was.
-/

namespace Agrarian.Masternode.AutoVote

open Agrarian.Lib Agrarian.Validation

/-! ## Known proposals -/

/-- A proposal with the amount that `SetAllotted` set, which is anything before. -/
structure Proposal extends CBudgetProposal where
  nAlloted : Int

/-- The order of `mapProposals`. -/
def proposalRank (hash : Uint256) : Nat := hash.toNat

theorem proposalRank_injective : Function.Injective proposalRank :=
  fun _ _ h => BitVec.eq_of_toNat_eq h

/-- The most that `GetTotalBudget` comes to. -/
def maxTotalBudget : Int := 21600 * COIN

/-- The proposals of the manager; `IsValid` looked at the amount of each. -/
structure KnownProposals where
  mapProposals : SortedMap proposalRank Proposal
  amounts : ∀ hash p, mapProposals.find? hash = some p →
    10 * COIN ≤ p.nAmount ∧ p.nAmount ≤ maxTotalBudget

/-- A node with its parameters and its chain. -/
structure BudgetNode extends View where
  cycle_pos : 0 < params.nBudgetCycleBlocks
  tip_nonneg : ∀ nHeight, tipHeight = some nHeight → 0 ≤ nHeight
  hash : ProposalHash
  /-- `IsBudgetCollateralValid`, and the time of the collateral. -/
  proposalCollateral : CBudgetProposal → Bool × Int

inductive ProposalError
  | activeRemoval
  | invalidProposal
  | invalidBlockEnd
  | invalidAmount
  | invalidPaymentAddress
  | invalidCollateral
  | multisig
  | paymentMoreThanMax
  | tooOld
  deriving DecidableEq, Repr

/-! ### The total budget -/

section Total

variable {view : Finalized.BudgetView}

theorem getTotalBudget_le (nHeight : Int) :
    Finalized.getTotalBudget view nHeight ≤ maxTotalBudget := by
  unfold Finalized.getTotalBudget
  dsimp only
  split_ifs <;> decide

/-- It overflows for the genesis block only. -/
theorem getTotalBudget_nonneg {nHeight : Int} (h : nHeight ≠ 0) :
    0 ≤ Finalized.getTotalBudget view nHeight := by
  unfold Finalized.getTotalBudget
  dsimp only
  rw [if_neg h]
  split_ifs <;> decide

end Total

namespace BudgetNode

variable (node : BudgetNode)

def mnCount : Int := (node.man.countEnabled node.toView.node node.nActiveProtocol).1

/-- `GetTotalPaymentCount`. -/
def totalPaymentCount (p : CBudgetProposal) : Int :=
  let nCycle := node.params.nBudgetCycleBlocks
  (p.nBlockEnd - (p.nBlockStart - p.nBlockStart.tmod nCycle)).tdiv nCycle

def isPayToScriptHash (address : CScript) : Bool :=
  address.length = 23 && address.getD 0 0 = CScript.OP_HASH160 && address.getD 1 0 = 20 &&
    address.getD 22 0 = CScript.OP_EQUAL

/-- `IsValid` with the check of the collateral, which sets the time of the proposal. -/
def isValid (p : Proposal) : Except ProposalError Proposal :=
  if node.mnCount / 10 < p.getNays - p.getYeas then .error .activeRemoval
  else if p.nBlockStart < 0 then .error .invalidProposal
  else if p.nBlockEnd < p.nBlockStart then .error .invalidBlockEnd
  else if p.nAmount < 10 * COIN then .error .invalidAmount
  else if p.address = [] then .error .invalidPaymentAddress
  else
    let collateral := node.proposalCollateral p.toCBudgetProposal
    let p := { p with nTime := collateral.2 }
    if !collateral.1 then .error .invalidCollateral
    else if isPayToScriptHash p.address then .error .multisig
    else if Finalized.getTotalBudget node.toBudgetView p.nBlockStart < p.nAmount then
      .error .paymentMoreThanMax
    else
      match node.tipHeight with
      | none => .ok p
      | some nHeight =>
          let nProposalEnd := p.nBlockStart +
            node.params.nBudgetCycleBlocks * node.totalPaymentCount p.toCBudgetProposal
          if nProposalEnd < nHeight then .error .tooOld else .ok p

/-- A proposal that is valid has an amount within bounds. -/
theorem amounts_of_isValid {node : BudgetNode} {p p' : Proposal}
    (h : node.isValid p = .ok p') : 10 * COIN ≤ p'.nAmount ∧ p'.nAmount ≤ maxTotalBudget := by
  have hmax : Finalized.getTotalBudget node.toBudgetView p.nBlockStart ≤ maxTotalBudget :=
    getTotalBudget_le p.nBlockStart
  unfold isValid at h
  dsimp only at h
  split_ifs at h with hvotes hstart hend hamount haddress hcollateral hmultisig hpayment
  have hbounds := And.intro (not_lt.mp hamount) ((not_lt.mp hpayment).trans hmax)
  split at h
  · cases h
    exact hbounds
  · split at h
    · cases h
    · cases h
      exact hbounds

end BudgetNode

namespace KnownProposals

variable (node : BudgetNode)

/-- `AddProposal`; the copy in the map counts as valid. -/
def addProposal (p : Proposal) (mgr : KnownProposals) : KnownProposals :=
  match hvalid : node.isValid p with
  | .error _ => mgr
  | .ok p' =>
      match mgr.mapProposals.find? (p'.getHash node.hash) with
      | some _ => mgr
      | none =>
          { mapProposals :=
              mgr.mapProposals.insert (p'.getHash node.hash) { p' with fValid := true }
            amounts := by
              intro hash q hfind
              rw [SortedMap.find?_insert proposalRank_injective] at hfind
              split at hfind
              · cases hfind
                obtain ⟨hlow, hhigh⟩ := BudgetNode.amounts_of_isValid hvalid
                exact ⟨hlow, hhigh⟩
              · exact mgr.amounts hash q hfind }

/-- Proposals received one after the other. -/
def receive (proposals : List Proposal) (mgr : KnownProposals) : KnownProposals :=
  proposals.foldl (fun mgr p => mgr.addProposal node p) mgr

variable {node} {mgr mgr' : KnownProposals}

theorem ext_find? (h : ∀ hash, mgr.mapProposals.find? hash = mgr'.mapProposals.find? hash) :
    mgr = mgr' := by
  have hmap : mgr.mapProposals = mgr'.mapProposals := SortedMap.ext_find? h
  cases mgr
  cases mgr'
  cases hmap
  rfl

/-- `IsValid` sets the time, which is not in the hash. -/
theorem getHash_of_isValid {p p' : Proposal} (h : node.isValid p = .ok p') :
    p'.getHash node.hash = p.getHash node.hash := by
  unfold BudgetNode.isValid at h
  dsimp only at h
  split_ifs at h
  split at h
  · cases h
    rfl
  · split at h
    · cases h
    · cases h
      rfl

/-- The map after a proposal has arrived: the first one under its hash stays. -/
theorem find?_addProposal (p : Proposal) (hash : Uint256) :
    (mgr.addProposal node p).mapProposals.find? hash =
      (mgr.mapProposals.find? hash).or
        (if hash = p.getHash node.hash then
          (node.isValid p).toOption.map fun p' => { p' with fValid := true }
        else none) := by
  unfold addProposal
  split
  · next hvalid =>
      have hnone : (node.isValid p).toOption = none := by
        rw [hvalid]
        rfl
      rw [hnone, Option.map_none, ite_self, Option.or_none]
  · next p' hvalid =>
      have hhash := getHash_of_isValid hvalid
      have hsome : (node.isValid p).toOption = some p' := by
        rw [hvalid]
        rfl
      rw [hsome]
      split
      · next q hq =>
          rw [hhash] at hq
          by_cases hsame : hash = p.getHash node.hash
          · rw [hsame, hq, Option.some_or]
          · rw [if_neg hsame, Option.or_none]
      · next hnone =>
          rw [hhash] at hnone
          rw [SortedMap.find?_insert proposalRank_injective, hhash]
          by_cases hsame : hash = p.getHash node.hash
          · rw [if_pos hsame, if_pos hsame, hsame, hnone, Option.none_or]
            rfl
          · rw [if_neg hsame, if_neg hsame, Option.or_none]

/-- Two proposals with different hashes arrive in either order. -/
theorem addProposal_comm {p q : Proposal} (h : p.getHash node.hash ≠ q.getHash node.hash) :
    (mgr.addProposal node p).addProposal node q = (mgr.addProposal node q).addProposal node p := by
  refine ext_find? fun hash => ?_
  rw [find?_addProposal, find?_addProposal, find?_addProposal, find?_addProposal]
  by_cases hp : hash = p.getHash node.hash
  · have hq : hash ≠ q.getHash node.hash := hp ▸ h
    rw [if_neg hq, Option.or_none, Option.or_none]
  · rw [if_neg hp, Option.or_none, Option.or_none]

/-- Proposals with different hashes are known alike in whatever order they arrive. -/
theorem receive_perm {proposals proposals' : List Proposal} (hperm : proposals.Perm proposals')
    (hdistinct : (proposals.map fun p => p.getHash node.hash).Nodup) :
    mgr.receive node proposals = mgr.receive node proposals' := by
  refine hperm.foldl_eq' (fun p hp q hq mgr => ?_) mgr
  by_cases hsame : p = q
  · rw [hsame]
  · exact addProposal_comm fun hhash => hsame (List.inj_on_of_nodup_map hdistinct hp hq hhash)

end KnownProposals

/-! ## The budget of a cycle -/

/-- A proposal as the sort sees it, with its key and its votes. -/
abbrev Voted := (Uint256 × Proposal) × Int

def byVotes (left right : Voted) : Bool :=
  sortProposalsByVotes (left.1.2.toCBudgetProposal, left.2) (right.1.2.toCBudgetProposal, right.2)

namespace Proposal

def clean (node : BudgetNode) (p : Proposal) : Proposal :=
  { p with toCBudgetProposal := p.toCBudgetProposal.cleanAndRemove node.toView false }

/-- Yes votes without the no votes. -/
def netVotes (p : Proposal) : Int := p.getYeas - p.getNays

def setAllotted (nAllotedIn : Int) (p : Proposal) : Proposal := { p with nAlloted := nAllotedIn }

end Proposal

/-- The loop that grabs the proposals in order and marks their amounts.  A pointer to a
proposal is its key. -/
def allotProposals (isPassing : Proposal → Bool) (nTotalBudget : Int) :
    List (Uint256 × Proposal) → Int → SortedMap proposalRank Proposal →
      List (Uint256 × Proposal) × SortedMap proposalRank Proposal
  | [], _, mapProposals => ([], mapProposals)
  | (hash, p) :: rest, nBudgetAllocated, mapProposals =>
      if isPassing p then
        if int64 (p.nAmount + nBudgetAllocated) ≤ nTotalBudget then
          let (ret, mapProposals) := allotProposals isPassing nTotalBudget rest
            (int64 (nBudgetAllocated + p.nAmount))
            (mapProposals.modify hash (Proposal.setAllotted p.nAmount))
          ((hash, p) :: ret, mapProposals)
        else
          allotProposals isPassing nTotalBudget rest nBudgetAllocated
            (mapProposals.modify hash (Proposal.setAllotted 0))
      else allotProposals isPassing nTotalBudget rest nBudgetAllocated mapProposals

namespace BudgetNode

variable (node : BudgetNode)

/-- The first block of the next budget cycle. -/
def nextBlockStart : Int :=
  match node.tipHeight with
  | none => 0
  | some nHeight =>
      nHeight - nHeight.tmod node.params.nBudgetCycleBlocks + node.params.nBudgetCycleBlocks

def nextBlockEnd : Int := node.nextBlockStart + node.params.nBudgetCycleBlocks - 1

/-- `IsPassing` for the next budget cycle. -/
def isPassing (p : Proposal) : Bool :=
  p.toCBudgetProposal.isPassing node.toView node.nextBlockStart node.nextBlockEnd node.mnCount

end BudgetNode

/-- `GetBudget`: the keys of the proposals it returns, and the map it leaves. -/
def KnownProposals.getBudget (node : BudgetNode) (sort : StdSort byVotes)
    (mgr : KnownProposals) : List Uint256 × SortedMap proposalRank Proposal :=
  let mapProposals := mgr.mapProposals.mapVals fun _ p => p.clean node
  let vBudgetProposalsSort :=
    sort.sort (mapProposals.entries.map fun entry => (entry, entry.2.netVotes))
  match node.tipHeight with
  | none => ([], mapProposals)
  | some _ =>
      let nTotalBudget := Finalized.getTotalBudget node.toBudgetView node.nextBlockStart
      let (ret, mapProposals) := allotProposals node.isPassing nTotalBudget
        (vBudgetProposalsSort.map Prod.fst) 0 mapProposals
      (ret.map Prod.fst, mapProposals)

/-! ### The loop -/

section Loop

variable {isPassing : Proposal → Bool} {nTotalBudget nBudgetAllocated : Int}
variable {proposals : List (Uint256 × Proposal)} {mapProposals : SortedMap proposalRank Proposal}

/-- What the loop returns and marks, from what has been allocated on. -/
structure Allots (isPassing : Proposal → Bool) (nTotalBudget nBudgetAllocated : Int)
    (proposals : List (Uint256 × Proposal)) (mapProposals : SortedMap proposalRank Proposal)
    (r : List (Uint256 × Proposal) × SortedMap proposalRank Proposal) : Prop where
  sublist : r.1.Sublist proposals
  passing : ∀ entry ∈ r.1, isPassing entry.2 = true
  within : nBudgetAllocated + (r.1.map fun entry => entry.2.nAmount).sum ≤ nTotalBudget
  returned : ∀ entry ∈ r.1,
    r.2.find? entry.1 = (mapProposals.find? entry.1).map (Proposal.setAllotted entry.2.nAmount)
  unaffordable : ∀ entry ∈ proposals, entry ∉ r.1 → isPassing entry.2 = true →
    r.2.find? entry.1 = (mapProposals.find? entry.1).map (Proposal.setAllotted 0)
  notPassing : ∀ entry ∈ proposals, isPassing entry.2 = false →
    r.2.find? entry.1 = mapProposals.find? entry.1
  others : ∀ hash ∉ proposals.map Prod.fst, r.2.find? hash = mapProposals.find? hash

theorem Allots.nil (h : nBudgetAllocated ≤ nTotalBudget) :
    Allots isPassing nTotalBudget nBudgetAllocated [] mapProposals ([], mapProposals) where
  sublist := List.Sublist.refl []
  passing _ hentry := nomatch hentry
  within := by simpa using h
  returned _ hentry := nomatch hentry
  unaffordable _ hentry := nomatch hentry
  notPassing _ hentry := nomatch hentry
  others _ _ := rfl

variable {hash : Uint256} {p : Proposal} {r : List (Uint256 × Proposal) × SortedMap proposalRank Proposal}

/-- The proposal in front does not pass. -/
theorem Allots.skip (h : Allots isPassing nTotalBudget nBudgetAllocated proposals mapProposals r)
    (hnew : hash ∉ proposals.map Prod.fst) (hpass : isPassing p = false) :
    Allots isPassing nTotalBudget nBudgetAllocated ((hash, p) :: proposals) mapProposals r where
  sublist := h.sublist.cons _
  passing := h.passing
  within := h.within
  returned := h.returned
  unaffordable entry hentry hnot hpass' := by
    rcases List.mem_cons.mp hentry with rfl | hentry
    · rw [hpass] at hpass'
      cases hpass'
    · exact h.unaffordable entry hentry hnot hpass'
  notPassing entry hentry hpass' := by
    rcases List.mem_cons.mp hentry with rfl | hentry
    · exact h.others hash hnew
    · exact h.notPassing entry hentry hpass'
  others hash' hnot := h.others hash' fun hmem => hnot (List.mem_cons_of_mem _ hmem)

/-- The proposal in front passes, and is marked with some amount. -/
theorem Allots.find?_eq {nAmount : Int}
    (h : Allots isPassing nTotalBudget nBudgetAllocated proposals
      (mapProposals.modify hash (Proposal.setAllotted nAmount)) r)
    (hnew : hash ∉ proposals.map Prod.fst) :
    r.2.find? hash = (mapProposals.find? hash).map (Proposal.setAllotted nAmount) := by
  rw [h.others hash hnew, SortedMap.find?_modify_self]

theorem find?_modify_of_mem {nAmount : Int} (hnew : hash ∉ proposals.map Prod.fst)
    {entry : Uint256 × Proposal} (hentry : entry ∈ proposals) :
    (mapProposals.modify hash (Proposal.setAllotted nAmount)).find? entry.1 =
      mapProposals.find? entry.1 :=
  SortedMap.find?_modify_ne _ _ fun heq => hnew (heq ▸ List.mem_map_of_mem hentry)

/-- The proposal in front gets its amount. -/
theorem Allots.take
    (h : Allots isPassing nTotalBudget (nBudgetAllocated + p.nAmount) proposals
      (mapProposals.modify hash (Proposal.setAllotted p.nAmount)) r)
    (hnew : hash ∉ proposals.map Prod.fst) (hpass : isPassing p = true) :
    Allots isPassing nTotalBudget nBudgetAllocated ((hash, p) :: proposals) mapProposals
      ((hash, p) :: r.1, r.2) where
  sublist := h.sublist.cons_cons _
  passing := List.forall_mem_cons.mpr ⟨hpass, h.passing⟩
  within := by
    have hrest := h.within
    rw [List.map_cons, List.sum_cons, ← Int.add_assoc]
    exact hrest
  returned entry hentry := by
    rcases List.mem_cons.mp hentry with rfl | hentry
    · exact h.find?_eq hnew
    · rw [h.returned entry hentry, find?_modify_of_mem hnew (h.sublist.subset hentry)]
  unaffordable entry hentry hnot hpass' := by
    rw [List.mem_cons, not_or] at hnot
    have hrest := (List.mem_cons.mp hentry).resolve_left hnot.1
    rw [h.unaffordable entry hrest hnot.2 hpass', find?_modify_of_mem hnew hrest]
  notPassing entry hentry hpass' := by
    rcases List.mem_cons.mp hentry with rfl | hentry
    · rw [hpass] at hpass'
      cases hpass'
    · rw [h.notPassing entry hentry hpass', find?_modify_of_mem hnew hentry]
  others hash' hnot := by
    rw [List.map_cons, List.mem_cons, not_or] at hnot
    rw [h.others hash' hnot.2, SortedMap.find?_modify_ne _ _ hnot.1]

/-- The proposal in front asks for too much. -/
theorem Allots.refuse
    (h : Allots isPassing nTotalBudget nBudgetAllocated proposals
      (mapProposals.modify hash (Proposal.setAllotted 0)) r)
    (hnew : hash ∉ proposals.map Prod.fst) (hpass : isPassing p = true) :
    Allots isPassing nTotalBudget nBudgetAllocated ((hash, p) :: proposals) mapProposals r where
  sublist := h.sublist.cons _
  passing := h.passing
  within := h.within
  returned entry hentry := by
    rw [h.returned entry hentry, find?_modify_of_mem hnew (h.sublist.subset hentry)]
  unaffordable entry hentry hnot hpass' := by
    rcases List.mem_cons.mp hentry with rfl | hentry
    · exact h.find?_eq hnew
    · rw [h.unaffordable entry hentry hnot hpass', find?_modify_of_mem hnew hentry]
  notPassing entry hentry hpass' := by
    rcases List.mem_cons.mp hentry with rfl | hentry
    · rw [hpass] at hpass'
      cases hpass'
    · rw [h.notPassing entry hentry hpass', find?_modify_of_mem hnew hentry]
  others hash' hnot := by
    rw [List.map_cons, List.mem_cons, not_or] at hnot
    rw [h.others hash' hnot.2, SortedMap.find?_modify_ne _ _ hnot.1]

/-- The loop only marks amounts. -/
theorem Allots.known (h : Allots isPassing nTotalBudget nBudgetAllocated proposals mapProposals r)
    (hash : Uint256) :
    (r.2.find? hash).map Proposal.toCBudgetProposal =
      (mapProposals.find? hash).map Proposal.toCBudgetProposal := by
  have hmark : ∀ nAmount, r.2.find? hash =
      (mapProposals.find? hash).map (Proposal.setAllotted nAmount) →
      (r.2.find? hash).map Proposal.toCBudgetProposal =
        (mapProposals.find? hash).map Proposal.toCBudgetProposal := by
    intro nAmount heq
    rw [heq, Option.map_map]
    rfl
  by_cases hmem : hash ∈ proposals.map Prod.fst
  · obtain ⟨entry, hentry, rfl⟩ := List.mem_map.mp hmem
    by_cases hret : entry ∈ r.1
    · exact hmark _ (h.returned entry hret)
    · cases hpass : isPassing entry.2 with
      | true => exact hmark _ (h.unaffordable entry hentry hret hpass)
      | false => rw [h.notPassing entry hentry hpass]
  · rw [h.others hash hmem]

/-- Amounts within bounds do not overflow. -/
theorem int64_add_allocated {nAmount : Int} (hamount : 0 ≤ nAmount ∧ nAmount ≤ maxTotalBudget)
    (hallocated : 0 ≤ nBudgetAllocated ∧ nBudgetAllocated ≤ maxTotalBudget) :
    int64 (nAmount + nBudgetAllocated) = nAmount + nBudgetAllocated := by
  have hmax : maxTotalBudget = 2160000000000 := by decide
  apply int64_eq_self
  unfold FitsInt64
  omega

/-- **The loop** goes through proposals with distinct hashes whose amounts are within
bounds. -/
theorem allotProposals_spec (hnodup : (proposals.map Prod.fst).Nodup)
    (htotal : nTotalBudget ≤ maxTotalBudget)
    (hamounts : ∀ entry ∈ proposals, 0 ≤ entry.2.nAmount ∧ entry.2.nAmount ≤ maxTotalBudget)
    (hallocated : 0 ≤ nBudgetAllocated ∧ nBudgetAllocated ≤ nTotalBudget) :
    Allots isPassing nTotalBudget nBudgetAllocated proposals mapProposals
      (allotProposals isPassing nTotalBudget proposals nBudgetAllocated mapProposals) := by
  induction proposals generalizing nBudgetAllocated mapProposals with
  | nil => exact Allots.nil hallocated.2
  | cons entry rest ih =>
      obtain ⟨hash, p⟩ := entry
      rw [List.map_cons, List.nodup_cons] at hnodup
      obtain ⟨hamount, hrest⟩ := List.forall_mem_cons.mp hamounts
      have hlow : 0 ≤ p.nAmount := hamount.1
      have hsum : int64 (p.nAmount + nBudgetAllocated) = p.nAmount + nBudgetAllocated :=
        int64_add_allocated hamount ⟨hallocated.1, hallocated.2.trans htotal⟩
      rw [allotProposals, Int.add_comm nBudgetAllocated, hsum]
      cases hpass : isPassing p with
      | true =>
          rw [if_pos rfl]
          split
          · next hfits =>
              refine Allots.take ?_ hnodup.1 hpass
              rw [Int.add_comm nBudgetAllocated]
              exact ih hnodup.2 hrest ⟨by omega, hfits⟩
          · exact (ih hnodup.2 hrest hallocated).refuse hnodup.1 hpass
      | false =>
          rw [if_neg Bool.false_ne_true]
          exact (ih hnodup.2 hrest hallocated).skip hnodup.1 hpass

end Loop

/-! ### The call -/

/-- What the map has under a hash. -/
def netVotesOf (mapProposals : SortedMap proposalRank Proposal) (hash : Uint256) : Int :=
  (mapProposals.find? hash).elim 0 Proposal.netVotes

def allottedTo (mapProposals : SortedMap proposalRank Proposal) (hash : Uint256) : Int :=
  (mapProposals.find? hash).elim 0 Proposal.nAlloted

/-- What holds of the returned proposals and of the map after the call. -/
structure Settled (node : BudgetNode) (mgr : KnownProposals) (ret : List Uint256)
    (after : SortedMap proposalRank Proposal) : Prop where
  /-- Nothing but votes and allotted amounts has changed. -/
  known : ∀ hash, (after.find? hash).map Proposal.toCBudgetProposal =
    (mgr.mapProposals.find? hash).map fun p => (p.clean node).toCBudgetProposal
  distinct : ret.Nodup
  passing : ∀ hash ∈ ret, ∃ p, after.find? hash = some p ∧ p.fValid = true ∧
    p.isEstablished node.toView = true ∧ p.nBlockStart ≤ node.nextBlockStart ∧
    node.nextBlockEnd ≤ p.nBlockEnd ∧ p.nAlloted = p.nAmount
  sorted : ret.Pairwise fun hash hash' => netVotesOf after hash' ≤ netVotesOf after hash
  within : (ret.map (allottedTo after)).sum ≤
    Finalized.getTotalBudget node.toBudgetView node.nextBlockStart
  others : ∀ hash p, after.find? hash = some p → hash ∉ ret → p.nAlloted = 0

/-- The call settles the budget.  Any manager that knows the same proposals gets the same
result, so the order in which proposals arrive does not matter. -/
structure KnownProposals.Settles (node : BudgetNode) (sort : StdSort byVotes)
    (mgr : KnownProposals) : Prop where
  settled : Settled node mgr (mgr.getBudget node sort).1 (mgr.getBudget node sort).2
  same : ∀ mgr' : KnownProposals,
    (∀ hash, mgr'.mapProposals.find? hash = mgr.mapProposals.find? hash) →
    mgr'.getBudget node sort = mgr.getBudget node sort
  anyOrder : ∀ proposals proposals' : List Proposal, proposals.Perm proposals' →
    (proposals.map fun p => p.getHash node.hash).Nodup →
    (mgr.receive node proposals').getBudget node sort =
      (mgr.receive node proposals).getBudget node sort

section Call

variable {node : BudgetNode} {sort : StdSort byVotes} {mgr : KnownProposals}

theorem nextBlockStart_pos {nHeight : Int} (h : node.tipHeight = some nHeight) :
    0 < node.nextBlockStart := by
  have hheight := node.tip_nonneg nHeight h
  have hrest := Int.emod_lt_of_pos nHeight node.cycle_pos
  rw [BudgetNode.nextBlockStart, h]
  dsimp only
  rw [Int.tmod_eq_emod_of_nonneg hheight]
  omega

theorem totalBudget_nonneg :
    0 ≤ Finalized.getTotalBudget node.toBudgetView node.nextBlockStart := by
  cases htip : node.tipHeight with
  | none =>
      rw [Finalized.getTotalBudget, htip]
      exact Int.le_refl 0
  | some nHeight => exact getTotalBudget_nonneg (nextBlockStart_pos htip).ne'

theorem isPassing_of_no_tip (htip : node.tipHeight = none) (p : Proposal) :
    node.isPassing p = false := by
  unfold BudgetNode.isPassing CBudgetProposal.isPassing
  rw [htip]
  cases p.fValid with
  | false => rfl
  | true => rfl

theorem passes_of_isPassing {p : Proposal} (h : node.isPassing p = true) :
    p.fValid = true ∧ p.isEstablished node.toView = true ∧
      p.nBlockStart ≤ node.nextBlockStart ∧ node.nextBlockEnd ≤ p.nBlockEnd := by
  unfold BudgetNode.isPassing CBudgetProposal.isPassing at h
  split_ifs at h with hvalid htip hstart hend hvotes hestablished
  exact ⟨by simpa using hvalid, by simpa using hestablished, not_lt.mp hstart, not_lt.mp hend⟩

/-- The proposals with the votes that count. -/
def cleaned (node : BudgetNode) (mgr : KnownProposals) : SortedMap proposalRank Proposal :=
  mgr.mapProposals.mapVals fun _ p => p.clean node

/-- The proposals in the order of the sort. -/
def inOrder (node : BudgetNode) (sort : StdSort byVotes) (mgr : KnownProposals) :
    List (Uint256 × Proposal) :=
  (sort.sort ((cleaned node mgr).entries.map fun entry => (entry, entry.2.netVotes))).map
    Prod.fst

/-- The loop without a tip, when nothing passes. -/
theorem allotProposals_of_none {isPassing : Proposal → Bool} (h : ∀ p, isPassing p = false)
    (nTotalBudget nBudgetAllocated : Int) (proposals : List (Uint256 × Proposal))
    (mapProposals : SortedMap proposalRank Proposal) :
    allotProposals isPassing nTotalBudget proposals nBudgetAllocated mapProposals =
      ([], mapProposals) := by
  induction proposals with
  | nil => rfl
  | cons entry rest ih =>
      rw [allotProposals, h, if_neg Bool.false_ne_true]
      exact ih

theorem getBudget_eq (node : BudgetNode) (sort : StdSort byVotes) (mgr : KnownProposals) :
    mgr.getBudget node sort =
      (allotProposals node.isPassing
        (Finalized.getTotalBudget node.toBudgetView node.nextBlockStart)
        (inOrder node sort mgr) 0 (cleaned node mgr)).map (List.map Prod.fst) id := by
  rw [KnownProposals.getBudget]
  cases htip : node.tipHeight with
  | none =>
      rw [allotProposals_of_none (isPassing_of_no_tip htip)]
      rfl
  | some nHeight => rfl

theorem inOrder_perm : (inOrder node sort mgr).Perm (cleaned node mgr).entries := by
  have hperm := (sort.perm ((cleaned node mgr).entries.map fun entry =>
    (entry, entry.2.netVotes))).map Prod.fst
  rwa [List.map_map, show Prod.fst ∘ (fun entry : Uint256 × Proposal =>
    (entry, entry.2.netVotes)) = id from rfl, List.map_id] at hperm

theorem inOrder_sorted :
    (inOrder node sort mgr).Pairwise fun a b => b.2.netVotes ≤ a.2.netVotes := by
  have hsorted := sort.sorted ((cleaned node mgr).entries.map fun entry =>
    (entry, entry.2.netVotes))
  have hvotes : ∀ voted ∈ sort.sort ((cleaned node mgr).entries.map fun entry =>
      (entry, entry.2.netVotes)), voted.2 = voted.1.2.netVotes := by
    intro voted hvoted
    obtain ⟨entry, -, rfl⟩ := List.mem_map.mp ((sort.perm _).mem_iff.mp hvoted)
    rfl
  refine List.pairwise_map.mpr (hsorted.imp_of_mem fun {a b} ha hb hless => ?_)
  rw [← hvotes a ha, ← hvotes b hb]
  unfold byVotes sortProposalsByVotes at hless
  dsimp only at hless
  split at hless
  · exact not_lt.mp (of_decide_eq_false hless)
  · next heq => exact (not_not.mp heq).le

theorem find?_cleaned (hash : Uint256) :
    (cleaned node mgr).find? hash =
      (mgr.mapProposals.find? hash).map fun p => p.clean node :=
  SortedMap.find?_mapVals _ _ hash

/-- A proposal of the sorted list is the one of the map. -/
theorem find?_of_mem_inOrder {entry : Uint256 × Proposal} (h : entry ∈ inOrder node sort mgr) :
    (cleaned node mgr).find? entry.1 = some entry.2 :=
  SortedMap.find?_eq_some_iff.mpr (inOrder_perm.mem_iff.mp h)

theorem allots_getBudget (node : BudgetNode) (sort : StdSort byVotes) (mgr : KnownProposals) :
    Allots node.isPassing (Finalized.getTotalBudget node.toBudgetView node.nextBlockStart) 0
      (inOrder node sort mgr) (cleaned node mgr)
      (allotProposals node.isPassing
        (Finalized.getTotalBudget node.toBudgetView node.nextBlockStart)
        (inOrder node sort mgr) 0 (cleaned node mgr)) := by
  refine allotProposals_spec ?_ (getTotalBudget_le _) (fun entry hentry => ?_)
    ⟨Int.le_refl 0, totalBudget_nonneg⟩
  · exact (inOrder_perm.map Prod.fst).nodup_iff.mpr (cleaned node mgr).nodup_keys
  · have hfind := find?_of_mem_inOrder hentry
    rw [find?_cleaned] at hfind
    obtain ⟨p, hp, hclean⟩ := Option.map_eq_some_iff.mp hfind
    obtain ⟨hlow, hhigh⟩ := mgr.amounts entry.1 p hp
    rw [← hclean]
    have hcoin : (0 : Int) ≤ 10 * COIN := by decide
    exact ⟨hcoin.trans hlow, hhigh⟩

theorem find?_of_returned {r : List (Uint256 × Proposal) × SortedMap proposalRank Proposal}
    {nTotalBudget : Int} (h : Allots node.isPassing nTotalBudget 0 (inOrder node sort mgr)
      (cleaned node mgr) r) {entry : Uint256 × Proposal} (hentry : entry ∈ r.1) :
    r.2.find? entry.1 = some (entry.2.setAllotted entry.2.nAmount) := by
  rw [h.returned entry hentry, find?_of_mem_inOrder (h.sublist.subset hentry), Option.map_some]

/-- The budget is settled if no amount is left over from before. -/
theorem settled_iff {r : List (Uint256 × Proposal) × SortedMap proposalRank Proposal}
    (h : Allots node.isPassing
      (Finalized.getTotalBudget node.toBudgetView node.nextBlockStart) 0 (inOrder node sort mgr)
      (cleaned node mgr) r) :
    Settled node mgr (r.1.map Prod.fst) r.2 ↔
      ∀ hash p, mgr.mapProposals.find? hash = some p → node.isPassing (p.clean node) = false →
        p.nAlloted = 0 := by
  have hkeys : ((inOrder node sort mgr).map Prod.fst).Nodup :=
    (inOrder_perm.map Prod.fst).nodup_iff.mpr (cleaned node mgr).nodup_keys
  have hlisted : ∀ {hash p}, (cleaned node mgr).find? hash = some p →
      (hash, p) ∈ inOrder node sort mgr := fun hfind =>
    inOrder_perm.mem_iff.mpr (SortedMap.find?_eq_some_iff.mp hfind)
  constructor
  · intro hsettled hash p hp hpass
    have hclean : (cleaned node mgr).find? hash = some (p.clean node) := by
      rw [find?_cleaned, hp, Option.map_some]
    have hmem := hlisted hclean
    have hafter : r.2.find? hash = some (p.clean node) := by
      rw [h.notPassing _ hmem hpass, hclean]
    have hnot : hash ∉ r.1.map Prod.fst := by
      intro hret
      obtain ⟨entry, hentry, hkey⟩ := List.mem_map.mp hret
      have hsame : entry = (hash, p.clean node) :=
        List.inj_on_of_nodup_map hkeys (h.sublist.subset hentry) hmem hkey
      have hpassing := h.passing entry hentry
      rw [hsame, hpass] at hpassing
      cases hpassing
    have hzero := hsettled.others hash (p.clean node) hafter hnot
    exact hzero
  · intro hleft
    refine ⟨fun hash => ?_, hkeys.sublist (h.sublist.map Prod.fst), ?_, ?_, ?_, ?_⟩
    · rw [h.known, find?_cleaned, Option.map_map]
      rfl
    · intro hash hret
      obtain ⟨entry, hentry, rfl⟩ := List.mem_map.mp hret
      obtain ⟨hvalid, hestablished, hstart, hend⟩ :=
        passes_of_isPassing (h.passing entry hentry)
      exact ⟨_, find?_of_returned h hentry, hvalid, hestablished, hstart, hend, rfl⟩
    · refine List.pairwise_map.mpr ((inOrder_sorted.sublist h.sublist).imp_of_mem
        fun {a b} ha hb hle => ?_)
      rw [netVotesOf, netVotesOf, find?_of_returned h ha, find?_of_returned h hb]
      exact hle
    · have hamounts : (r.1.map Prod.fst).map (allottedTo r.2) =
          r.1.map fun entry => entry.2.nAmount := by
        rw [List.map_map]
        refine List.map_congr_left fun entry hentry => ?_
        show allottedTo r.2 entry.1 = _
        rw [allottedTo, find?_of_returned h hentry]
        rfl
      have hwithin := h.within
      rw [hamounts]
      omega
    · intro hash q hq hnot
      by_cases hmem : hash ∈ (inOrder node sort mgr).map Prod.fst
      · obtain ⟨entry, hentry, rfl⟩ := List.mem_map.mp hmem
        have hfind := find?_of_mem_inOrder hentry
        have hret : entry ∉ r.1 := fun hret => hnot (List.mem_map_of_mem hret)
        cases hpass : node.isPassing entry.2 with
        | true =>
            rw [h.unaffordable entry hentry hret hpass, hfind] at hq
            cases hq
            rfl
        | false =>
            rw [h.notPassing entry hentry hpass, hfind] at hq
            cases hq
            rw [find?_cleaned] at hfind
            obtain ⟨p, hp, hclean⟩ := Option.map_eq_some_iff.mp hfind
            rw [← hclean] at hpass ⊢
            exact hleft entry.1 p hp hpass
      · rw [h.others hash hmem] at hq
        exact absurd (List.mem_map_of_mem (hlisted hq)) hmem

end Call

/-- **When the budget is settled.**  Every proposal that does not pass for the next cycle, which
is every proposal if there is no tip, has no amount allotted before. -/
theorem getBudget_settles_iff (node : BudgetNode) (sort : StdSort byVotes)
    (mgr : KnownProposals) :
    mgr.Settles node sort ↔
      ∀ hash p, mgr.mapProposals.find? hash = some p → node.isPassing (p.clean node) = false →
        p.nAlloted = 0 := by
  have hsettled := settled_iff (allots_getBudget node sort mgr)
  have heq := getBudget_eq node sort mgr
  constructor
  · intro h
    have hafter := h.settled
    rw [heq] at hafter
    exact hsettled.mp hafter
  · intro hleft
    refine ⟨?_, fun mgr' hknown => ?_, fun proposals proposals' hperm hdistinct => ?_⟩
    · rw [heq]
      exact hsettled.mpr hleft
    · rw [KnownProposals.ext_find? hknown]
    · rw [KnownProposals.receive_perm hperm hdistinct]

section Example

/-- A node whose tip is at height 4000. -/
def budgetNode : BudgetNode where
  toView := votingView
  cycle_pos := by decide
  tip_nonneg := by
    intro nHeight h
    cases h
    decide
  hash := constantHash
  proposalCollateral := fun _ => (true, 0)

def stableByVotes : StdSort byVotes :=
  stableSort byVotes
    (by
      intro a b
      unfold byVotes sortProposalsByVotes
      split_ifs <;> simp <;> omega)
    (by
      intro a b c
      unfold byVotes sortProposalsByVotes
      split_ifs <;> simp <;> omega)

/-- A proposal that nobody votes for any more, with the amount of an earlier cycle. -/
def abandonedProposal : Proposal where
  toCBudgetProposal := { proposalPaying payToKey with mapVotes := KeyedMap.empty }
  nAlloted := 10 * COIN

def abandoned : KnownProposals where
  mapProposals :=
    { entries := [(5, abandonedProposal)]
      sorted := List.pairwise_singleton _ _ }
  amounts := by
    intro hash p h
    rw [SortedMap.find?_eq_some_iff, List.mem_singleton] at h
    cases h
    decide

/-- The proposal is not returned, and keeps the amount. -/
theorem abandoned_keeps_amount : ¬ abandoned.Settles budgetNode stableByVotes := by
  intro h
  have hkept : (abandoned.getBudget budgetNode stableByVotes).1 = [] ∧
      ((abandoned.getBudget budgetNode stableByVotes).2.find? 5).map Proposal.nAlloted =
        some (10 * COIN) := by
    decide +kernel
  obtain ⟨p, hp, hamount⟩ := Option.map_eq_some_iff.mp hkept.2
  have hzero := h.settled.others 5 p hp (by rw [hkept.1]; exact List.not_mem_nil)
  rw [hamount] at hzero
  exact absurd hzero (by decide)

end Example

end Agrarian.Masternode.AutoVote
