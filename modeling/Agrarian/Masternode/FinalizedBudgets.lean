import Agrarian.Masternode.Budget
import Agrarian.Masternode.BudgetVotes
import Agrarian.Masternode.Manager

/-!
# Finalized budgets and their votes

`CFinalizedBudget` of `masternode-budget.cpp` with its votes: the checks of
`IsValid`, the votes that `CleanAndRemove` marks, and `IsBudgetPaymentBlock`,
which counts all votes.

`IsValid` compares the sum of the payments in 64-bit arithmetic with the total
budget; neither the sign of an amount nor the sum itself is looked at.  The
texts of its errors are left out, and the check of the collateral is a function
of the node.
-/

namespace Agrarian.Masternode.Finalized

open Agrarian.Lib Agrarian.Validation

structure CFinalizedBudgetVote extends Votes.CFinalizedBudgetVote where
  /-- Whether the vote is currently valid. -/
  fValid : Bool := true

structure CFinalizedBudget where
  strBudgetName : String
  nBlockStart : Int
  vecBudgetPayments : List CTxBudgetPayment
  mapVotes : KeyedMap Uint256 CFinalizedBudgetVote := KeyedMap.empty
  nFeeTXHash : Uint256

/-- What the checks find around a budget. -/
structure BudgetView where
  params : CChainParams
  /-- The height of the tip, if there is one. -/
  tipHeight : Option Int
  /-- `IsBudgetCollateralValid`. -/
  collateralValid : CFinalizedBudget → Bool

inductive BudgetError
  | invalidBlockStart
  | invalidBlockEnd
  | tooManyPayments
  | invalidBudgetName
  | blockStartIsZero
  | feeTxIsZero
  | payoutMoreThanMax
  | invalidCollateral
  | tooOld
  deriving DecidableEq, Repr

/-- `CBudgetManager::GetTotalBudget`. -/
def getTotalBudget (view : BudgetView) (nHeight : Int) : Int :=
  if view.tipHeight.isNone then 0
  else
    let nSubsidy :=
      if nHeight = 0 then 5000000000 * COIN
      else if nHeight ≤ view.params.nLastPOWBlock ∧ 0 < nHeight then 50 * COIN
      else if view.params.nLastPOWBlock < nHeight then 10 * COIN
      else 0
    int64 (int64 (nSubsidy / 100 * 10 * 144) * 30)

/-- The loop of `GetTotalPayout`. -/
def totalPayout (payments : List CTxBudgetPayment) (ret : Int) : Int :=
  payments.foldl (fun ret payment => int64 (ret + payment.nAmount)) ret

namespace CFinalizedBudget

def getVoteCount (b : CFinalizedBudget) : Nat := b.mapVotes.toList.length

/-- The budget as the payment of a block sees it. -/
def counted (b : CFinalizedBudget) : Masternode.CFinalizedBudget where
  nBlockStart := b.nBlockStart
  vecBudgetPayments := b.vecBudgetPayments
  nVoteCount := b.getVoteCount

def getBlockEnd (b : CFinalizedBudget) : Int := b.counted.getBlockEnd

def getTotalPayout (b : CFinalizedBudget) : Int := totalPayout b.vecBudgetPayments 0

def isValid (view : BudgetView) (b : CFinalizedBudget) (fCheckCollateral : Bool) :
    Except BudgetError Unit :=
  -- must be the correct block for payment to happen
  if b.nBlockStart.tmod view.params.nBudgetCycleBlocks ≠ 0 then
    .error .invalidBlockStart
  else if 100 < b.getBlockEnd - b.nBlockStart then .error .invalidBlockEnd
  else if 100 < b.vecBudgetPayments.length then .error .tooManyPayments
  else if b.strBudgetName = "" then .error .invalidBudgetName
  else if b.nBlockStart = 0 then .error .blockStartIsZero
  else if b.nFeeTXHash = 0 then .error .feeTxIsZero
  else if getTotalBudget view b.nBlockStart < b.getTotalPayout then
    .error .payoutMoreThanMax
  else if fCheckCollateral && !view.collateralValid b then .error .invalidCollateral
  else
    match view.tipHeight with
    | none => .ok ()
    | some nCurrentHeight =>
        -- the last payment ends before two budget cycles before the current one
        let nCycle := view.params.nBudgetCycleBlocks
        let nBlockStart := nCurrentHeight - nCurrentHeight.tmod nCycle + nCycle
        let nMaxAge := nBlockStart - 2 * nCycle
        if b.getBlockEnd < nMaxAge then .error .tooOld else .ok ()

end CFinalizedBudget

/-! ## Payouts -/

/-- The payments are amounts whose exact sum stays within the total budget, with
every sum on the way a 64-bit number, for at most 100 blocks from a cycle's
start. -/
structure PaysWithinBudget (view : BudgetView) (b : CFinalizedBudget) : Prop where
  nonneg : ∀ payment ∈ b.vecBudgetPayments, 0 ≤ payment.nAmount
  within : (b.vecBudgetPayments.map CTxBudgetPayment.nAmount).sum ≤
    getTotalBudget view b.nBlockStart
  noOverflow : ∀ n,
    FitsInt64 ((b.vecBudgetPayments.take n).map CTxBudgetPayment.nAmount).sum
  blocks : b.getBlockEnd < b.nBlockStart + 100
  cycleStart : view.params.nBudgetCycleBlocks ∣ b.nBlockStart

theorem totalPayout_eq (payments : List CTxBudgetPayment) (ret : Int) :
    int64 (totalPayout payments ret) =
      int64 (ret + (payments.map CTxBudgetPayment.nAmount).sum) := by
  induction payments generalizing ret with
  | nil => simp [totalPayout]
  | cons payment payments ih =>
      have hrest := ih (int64 (ret + payment.nAmount))
      rw [int64_add_left] at hrest
      rw [totalPayout, List.foldl_cons, List.map_cons, List.sum_cons, ← Int.add_assoc]
      exact hrest

theorem fits_totalPayout (payments : List CTxBudgetPayment) {ret : Int}
    (hret : FitsInt64 ret) : FitsInt64 (totalPayout payments ret) := by
  induction payments generalizing ret with
  | nil => exact hret
  | cons payment payments ih => exact ih (fitsInt64_int64 _)

/-- The payout is the sum of the payments up to multiples of `2 ^ 64`. -/
theorem getTotalPayout_eq (b : CFinalizedBudget) :
    b.getTotalPayout = int64 (b.vecBudgetPayments.map CTxBudgetPayment.nAmount).sum := by
  have heq := totalPayout_eq b.vecBudgetPayments 0
  rw [int64_eq_self (fits_totalPayout _ (by decide)), Int.zero_add] at heq
  exact heq

/-- What an accepted budget has passed. -/
theorem isValid_eq_ok {view : BudgetView} {b : CFinalizedBudget} {fCheckCollateral : Bool}
    (h : b.isValid view fCheckCollateral = .ok ()) :
    view.params.nBudgetCycleBlocks ∣ b.nBlockStart ∧ b.vecBudgetPayments.length ≤ 100 ∧
      b.getTotalPayout ≤ getTotalBudget view b.nBlockStart := by
  unfold CFinalizedBudget.isValid at h
  split_ifs at h with hstart hend hmany hname hzero hfee hpayout
  exact ⟨Int.dvd_of_tmod_eq_zero (not_not.mp hstart), not_lt.mp hmany, not_lt.mp hpayout⟩

/-- The sum of a part of the payments, if none is negative. -/
theorem sum_take_bounds {payments : List CTxBudgetPayment}
    (hnonneg : ∀ payment ∈ payments, 0 ≤ payment.nAmount) (n : Nat) :
    0 ≤ ((payments.take n).map CTxBudgetPayment.nAmount).sum ∧
      ((payments.take n).map CTxBudgetPayment.nAmount).sum ≤
        (payments.map CTxBudgetPayment.nAmount).sum := by
  have hpart : ∀ l : List CTxBudgetPayment, l ⊆ payments →
      0 ≤ (l.map CTxBudgetPayment.nAmount).sum := by
    intro l hl
    apply List.sum_nonneg
    intro amount hamount
    obtain ⟨payment, hpayment, rfl⟩ := List.mem_map.mp hamount
    exact hnonneg payment (hl hpayment)
  have hrest := hpart _ (List.drop_subset n payments)
  have hsplit : (payments.map CTxBudgetPayment.nAmount).sum =
      ((payments.take n).map CTxBudgetPayment.nAmount).sum +
        ((payments.drop n).map CTxBudgetPayment.nAmount).sum := by
    rw [← List.sum_append, ← List.map_append, List.take_append_drop]
  exact ⟨hpart _ (List.take_subset n payments), by omega⟩

/-- **A budget that is accepted** pays out within the total budget if and only if
no amount is negative and their sum fits into 64 bits. -/
theorem paysWithinBudget_iff {view : BudgetView} {b : CFinalizedBudget}
    {fCheckCollateral : Bool} (hvalid : b.isValid view fCheckCollateral = .ok ()) :
    PaysWithinBudget view b ↔
      (∀ payment ∈ b.vecBudgetPayments, 0 ≤ payment.nAmount) ∧
        (b.vecBudgetPayments.map CTxBudgetPayment.nAmount).sum < 2 ^ 63 := by
  obtain ⟨hstart, hmany, hpayout⟩ := isValid_eq_ok hvalid
  constructor
  · intro h
    have hall := h.noOverflow b.vecBudgetPayments.length
    rw [List.take_length] at hall
    exact ⟨h.nonneg, hall.2⟩
  · rintro ⟨hnonneg, hsum⟩
    have hfits : ∀ n,
        FitsInt64 ((b.vecBudgetPayments.take n).map CTxBudgetPayment.nAmount).sum := by
      intro n
      have hbounds := sum_take_bounds hnonneg n
      exact ⟨by omega, by omega⟩
    have hexact := hfits b.vecBudgetPayments.length
    rw [List.take_length] at hexact
    rw [getTotalPayout_eq, int64_eq_self hexact] at hpayout
    refine ⟨hnonneg, hpayout, hfits, ?_, hstart⟩
    show b.nBlockStart + ((b.vecBudgetPayments.length : Int) - 1) < b.nBlockStart + 100
    omega

section Example

/-- A node at height 4000 of the main network. -/
def viewAtHeight : BudgetView where
  params := mainParams
  tipHeight := some 4000
  collateralValid := fun _ => true

/-- A budget for the cycle that starts at height 4320. -/
def budgetPaying (amounts : List Int) : CFinalizedBudget where
  strBudgetName := "main"
  nBlockStart := 4320
  vecBudgetPayments := amounts.map fun nAmount =>
    { nProposalHash := 1, payee := [0x51], nAmount := nAmount }
  nFeeTXHash := 7

theorem paysWithinBudget_two : PaysWithinBudget viewAtHeight
    (budgetPaying [1000000000, 2000000000]) := by
  have hvalid : (budgetPaying [1000000000, 2000000000]).isValid viewAtHeight true =
      .ok () := by decide
  exact (paysWithinBudget_iff hvalid).mpr ⟨by decide, by decide⟩

/-- Two payments of `2 ^ 62` wrap around to a negative payout, and the budget is
accepted. -/
theorem wrapped_payout_accepted :
    (budgetPaying [2 ^ 62, 2 ^ 62]).isValid viewAtHeight true = .ok () ∧
      ¬ PaysWithinBudget viewAtHeight (budgetPaying [2 ^ 62, 2 ^ 62]) := by
  refine ⟨by decide, fun h => ?_⟩
  exact absurd h.within (by decide)

end Example

/-! ## Votes -/

section Votes

variable (man : CMasternodeMan) (verifyMessage : CFinalizedBudgetVote → Bool)
variable (fSignatureCheck : Bool)

/-- `SignatureValid`: the masternode is known, and the signature right if it is to
be checked. -/
def CFinalizedBudgetVote.signatureValid (vote : CFinalizedBudgetVote) : Bool :=
  match man.find vote.vin with
  | none => false
  | some _ => !fSignatureCheck || verifyMessage vote

/-- Mark the votes of masternodes which are not valid or existent anymore. -/
def CFinalizedBudget.cleanAndRemove (b : CFinalizedBudget) : CFinalizedBudget :=
  { b with
    mapVotes := b.mapVotes.mapVals fun vote =>
      { vote with fValid := vote.signatureValid man verifyMessage fSignatureCheck } }

/-- The votes that are marked as valid. -/
def CFinalizedBudget.validVotes (b : CFinalizedBudget) : Nat :=
  b.mapVotes.sum fun vote => if vote.fValid then 1 else 0

/-- `IsBudgetPaymentBlock` of the manager with these budgets. -/
def isBudgetPaymentBlock (node : NodeView) (nActiveProtocol : Int)
    (mapFinalizedBudgets : List CFinalizedBudget) (nBlockHeight : Int) : Bool :=
  ({ mapFinalizedBudgets := mapFinalizedBudgets.map CFinalizedBudget.counted } :
    CBudgetManager).isBudgetPaymentBlock
      (man.countEnabled node nActiveProtocol).1.toNat nBlockHeight

/-- The budget has a payment for the height, and more votes than five per cent of
the enabled masternodes. -/
def Supported (node : NodeView) (nActiveProtocol : Int) (nBlockHeight : Int)
    (b : CFinalizedBudget) (nVotes : Nat) : Prop :=
  b.counted.inCycle nBlockHeight = true ∧
    (man.countEnabled node nActiveProtocol).1 < 20 * nVotes

variable {man} {verifyMessage} {fSignatureCheck}
variable {node : NodeView} {nActiveProtocol nBlockHeight : Int}
variable {mapFinalizedBudgets : List CFinalizedBudget}

/-- The code decides by all votes of a budget. -/
theorem isBudgetPaymentBlock_eq_true :
    isBudgetPaymentBlock man node nActiveProtocol mapFinalizedBudgets nBlockHeight = true ↔
      ∃ b ∈ mapFinalizedBudgets,
        Supported man node nActiveProtocol nBlockHeight b b.getVoteCount := by
  obtain ⟨n, hn⟩ : ∃ n : Nat, (man.countEnabled node nActiveProtocol).1 = n :=
    Int.eq_ofNat_of_zero_le (Int.natCast_nonneg _)
  unfold isBudgetPaymentBlock CBudgetManager.isBudgetPaymentBlock Supported
  rw [hn, Int.toNat_natCast, decide_eq_true_eq]
  show ((n / 20 : Nat) : Int) < CBudgetManager.highestCount nBlockHeight
    (mapFinalizedBudgets.map CFinalizedBudget.counted) (-1) ↔ _
  obtain ⟨-, hall, hfound⟩ := CBudgetManager.highestCount_spec nBlockHeight
    (mapFinalizedBudgets.map CFinalizedBudget.counted) (-1)
  constructor
  · intro hhigh
    rcases hfound with hnone | ⟨c, hc, hcycle, hcount⟩
    · omega
    · obtain ⟨b, hb, rfl⟩ := List.mem_map.mp hc
      refine ⟨b, hb, hcycle, ?_⟩
      have hvotes : b.counted.nVoteCount = b.getVoteCount := rfl
      rw [hcount, hvotes] at hhigh
      omega
  · rintro ⟨b, hb, hcycle, hvotes⟩
    have hcount := hall b.counted (List.mem_map_of_mem hb) hcycle
    have hsame : b.counted.nVoteCount = b.getVoteCount := rfl
    rw [hsame] at hcount
    omega

theorem validVotes_cleanAndRemove_le (man : CMasternodeMan)
    (verifyMessage : CFinalizedBudgetVote → Bool) (fSignatureCheck : Bool)
    (b : CFinalizedBudget) :
    (b.cleanAndRemove man verifyMessage fSignatureCheck).validVotes ≤ b.getVoteCount := by
  unfold CFinalizedBudget.validVotes CFinalizedBudget.cleanAndRemove
    CFinalizedBudget.getVoteCount
  rw [KeyedMap.sum_mapVals, ← KeyedMap.sum_one]
  apply KeyedMap.sum_le_sum
  intro vote
  split
  · exact Nat.le_refl 1
  · exact Nat.zero_le 1

/-- **The blocks with a budget payment** are those for which some budget has
currently valid votes of more than five per cent of the enabled masternodes, if
and only if stale votes do not lift a budget over that limit where no budget
passes it with its valid votes. -/
theorem paymentBlock_exact_iff (man : CMasternodeMan)
    (verifyMessage : CFinalizedBudgetVote → Bool) (fSignatureCheck : Bool)
    (node : NodeView) (nActiveProtocol : Int)
    (mapFinalizedBudgets : List CFinalizedBudget) (nBlockHeight : Int) :
    ((isBudgetPaymentBlock man node nActiveProtocol mapFinalizedBudgets
        nBlockHeight = true) ↔
      ∃ b ∈ mapFinalizedBudgets, Supported man node nActiveProtocol nBlockHeight b
        (b.cleanAndRemove man verifyMessage fSignatureCheck).validVotes) ↔
    ((∃ b ∈ mapFinalizedBudgets,
        Supported man node nActiveProtocol nBlockHeight b b.getVoteCount) →
      ∃ b ∈ mapFinalizedBudgets, Supported man node nActiveProtocol nBlockHeight b
        (b.cleanAndRemove man verifyMessage fSignatureCheck).validVotes) := by
  rw [isBudgetPaymentBlock_eq_true]
  constructor
  · exact Iff.mp
  · intro hstale
    refine ⟨hstale, ?_⟩
    rintro ⟨b, hb, hcycle, hvotes⟩
    refine ⟨b, hb, hcycle, hvotes.trans_le ?_⟩
    have hle := validVotes_cleanAndRemove_le man verifyMessage fSignatureCheck b
    omega

section Example

/-- A list without masternodes. -/
def noMasternodes : CMasternodeMan where
  vMasternodes := []
  distinct := List.nodup_nil

/-- A budget for height 4320 with the vote of a masternode that has left. -/
def budgetWithStaleVote : CFinalizedBudget :=
  { budgetPaying [1000000000] with
    mapVotes := KeyedMap.empty.insert 5
      { vin := { prevout := ⟨8, 0⟩ }, nBudgetHash := 3, nTime := 0 } }

/-- The vote still counts for the block at height 4320. -/
theorem stale_votes_count :
    ¬ ((isBudgetPaymentBlock noMasternodes { hashes := { chainActive := [] } } 0
        [budgetWithStaleVote] 4320 = true) ↔
      ∃ b ∈ [budgetWithStaleVote],
        Supported noMasternodes { hashes := { chainActive := [] } } 0 4320 b
          (b.cleanAndRemove noMasternodes (fun _ => true) false).validVotes) := by
  intro h
  obtain ⟨b, hb, -, hvotes⟩ := h.mp (by decide)
  rw [List.mem_singleton.mp hb] at hvotes
  exact absurd hvotes (by decide)

end Example

end Votes

end Agrarian.Masternode.Finalized
