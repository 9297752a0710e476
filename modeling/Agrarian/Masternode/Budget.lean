import Agrarian.Validation.Subsidy

/-!
# Finalized budgets

The decisions of `CBudgetManager` about the block at a height: whether it is
a budget payment block, which payment the producer of the block adds, and
whether a transaction makes a payment that is due.

The budgets are listed in the order of `mapFinalizedBudgets`; of the votes
only their number is read.  `mapPayment_History` is changed by the check: it
remembers for each proposal the height at which its payment was seen.
-/

namespace Agrarian.Masternode

open Agrarian.Validation

structure CTxBudgetPayment where
  nProposalHash : Uint256
  payee : CScript
  nAmount : Int
  deriving DecidableEq, Repr

structure CFinalizedBudget where
  nBlockStart : Int
  vecBudgetPayments : List CTxBudgetPayment
  /-- `GetVoteCount()`. -/
  nVoteCount : Nat
  deriving DecidableEq, Repr

inductive TrxValidationStatus
  | InValid
  | Valid
  | DoublePayment
  | VoteThreshold
  deriving DecidableEq, Repr

/-- `mapPayment_History`. -/
abbrev PaymentHistory := Uint256 → Option Int

namespace CFinalizedBudget

def getBlockEnd (b : CFinalizedBudget) : Int :=
  b.nBlockStart + (b.vecBudgetPayments.length - 1)

/-- The payments of the budget include one for the height. -/
def inCycle (b : CFinalizedBudget) (nBlockHeight : Int) : Bool :=
  b.nBlockStart ≤ nBlockHeight && nBlockHeight ≤ b.getBlockEnd

def getPayeeAndAmount (b : CFinalizedBudget) (nBlockHeight : Int) :
    Option CTxBudgetPayment :=
  let i := nBlockHeight - b.nBlockStart
  if i < 0 then none
  else if b.vecBudgetPayments.length - 1 < i then none
  else b.vecBudgetPayments[i.toNat]?

/-- The payments that belong to this cycle. -/
def cleanHistory (b : CFinalizedBudget) (history : PaymentHistory) :
    PaymentHistory :=
  fun nProposalHash => (history nProposalHash).filter b.inCycle

/-- Whether the proposal was paid in this cycle; if not, it is now. -/
def isPaidAlready (b : CFinalizedBudget) (history : PaymentHistory)
    (nProposalHash : Uint256) (nBlockHeight : Int) : Bool × PaymentHistory :=
  let history := b.cleanHistory history
  if (history nProposalHash).isNone then
    (false, Function.update history nProposalHash (some nBlockHeight))
  else (true, history)

/-- The output makes the payment. -/
def isPayment (payment : CTxBudgetPayment) (out : CTxOut) : Bool :=
  payment.payee = out.scriptPubKey && payment.nAmount = out.nValue

/-- The loop over the outputs. -/
def checkOutputs (b : CFinalizedBudget) (payment : CTxBudgetPayment)
    (nBlockHeight : Int) : List CTxOut → TrxValidationStatus →
      PaymentHistory → TrxValidationStatus × PaymentHistory
  | [], status, history => (status, history)
  | out :: vout, status, history =>
      if isPayment payment out then
        let (paid, history) :=
          b.isPaidAlready history payment.nProposalHash nBlockHeight
        if paid then (.DoublePayment, history)
        else b.checkOutputs payment nBlockHeight vout .Valid history
      else b.checkOutputs payment nBlockHeight vout status history

def isTransactionValid (b : CFinalizedBudget) (history : PaymentHistory)
    (vout : List CTxOut) (nBlockHeight : Int) :
    TrxValidationStatus × PaymentHistory :=
  match b.getPayeeAndAmount nBlockHeight with
  | none => (.InValid, history)
  | some payment =>
      b.checkOutputs payment nBlockHeight vout .InValid history

theorem getPayeeAndAmount_of_inCycle {b : CFinalizedBudget}
    {nBlockHeight : Int} (h : b.inCycle nBlockHeight = true) :
    ∃ payment, b.getPayeeAndAmount nBlockHeight = some payment := by
  unfold inCycle getBlockEnd at h
  rw [Bool.and_eq_true, decide_eq_true_eq, decide_eq_true_eq] at h
  have hlt : (nBlockHeight - b.nBlockStart).toNat <
      b.vecBudgetPayments.length := by omega
  refine ⟨b.vecBudgetPayments[(nBlockHeight - b.nBlockStart).toNat], ?_⟩
  unfold getPayeeAndAmount
  rw [if_neg (by omega), if_neg (by omega)]
  exact List.getElem?_eq_getElem hlt

end CFinalizedBudget

structure CBudgetManager where
  mapFinalizedBudgets : List CFinalizedBudget := []
  mapPayment_History : PaymentHistory := fun _ => none

namespace CBudgetManager

open CFinalizedBudget

/-- The loops for the highest vote count, which differ in the count they
start from. -/
def highestCount (nBlockHeight : Int) :
    List CFinalizedBudget → Int → Int
  | [], nHighestCount => nHighestCount
  | b :: rest, nHighestCount =>
      if nHighestCount < b.nVoteCount ∧ b.inCycle nBlockHeight then
        highestCount nBlockHeight rest b.nVoteCount
      else highestCount nBlockHeight rest nHighestCount

def isBudgetPaymentBlock (mgr : CBudgetManager) (nCountEnabled : Nat)
    (nBlockHeight : Int) : Bool :=
  let nFivePercent : Int := (nCountEnabled / 20 : Nat)
  nFivePercent < highestCount nBlockHeight mgr.mapFinalizedBudgets (-1)

/-- The loop of `FillBlockPayee`: the highest count, with the budget it was
found in. -/
def paysLoop (nBlockHeight : Int) : List CFinalizedBudget →
    Option (CFinalizedBudget × CTxBudgetPayment) →
      Option (CFinalizedBudget × CTxBudgetPayment)
  | [], best => best
  | b :: rest, best =>
      let nHighestCount : Int := best.elim 0 fun p => p.1.nVoteCount
      match b.getPayeeAndAmount nBlockHeight with
      | none => paysLoop nBlockHeight rest best
      | some payment =>
          if nHighestCount < b.nVoteCount ∧ b.inCycle nBlockHeight then
            paysLoop nBlockHeight rest (some (b, payment))
          else paysLoop nBlockHeight rest best

/-- The budget that the producer of a block pays, with the payment. -/
def pays (mgr : CBudgetManager) (nBlockHeight : Int) :
    Option (CFinalizedBudget × CTxBudgetPayment) :=
  paysLoop nBlockHeight mgr.mapFinalizedBudgets none

/-- `FillBlockPayee` on the outputs of the coinbase or coinstake for the block
after height `nHeight`.  The block value is that of the block before. -/
def fillBlockPayee (params : CChainParams) (mgr : CBudgetManager)
    (nHeight : Int) (vout : List CTxOut) (fProofOfStake : Bool) :
    List CTxOut :=
  let blockValue := getBlockValueOfHeight params nHeight
  let paid := mgr.pays (nHeight + 1)
  if fProofOfStake then
    match paid with
    | none => vout
    | some (_, payment) =>
        vout ++ [{ CTxOut.null with
          nValue := payment.nAmount, scriptPubKey := payment.payee }]
  else
    -- miners get the full amount on these blocks
    let vout := vout.modify 0 fun out => { out with nValue := blockValue }
    match paid with
    | none => vout
    | some (_, payment) =>
        vout.take 1 ++ [{ vout.getD 1 CTxOut.null with
          nValue := payment.nAmount, scriptPubKey := payment.payee }]

/-- The loop over the budgets that are close to the highest count. -/
def checkBudgets (vout : List CTxOut) (nBlockHeight nCountThreshold : Int) :
    List CFinalizedBudget → TrxValidationStatus → Bool → PaymentHistory →
      TrxValidationStatus × PaymentHistory
  | [], status, fThreshold, history =>
      -- not enough masternodes voted for any of the budgets
      (if fThreshold then status else .VoteThreshold, history)
  | b :: rest, status, fThreshold, history =>
      if nCountThreshold < b.nVoteCount then
        if b.inCycle nBlockHeight then
          let (status, history) :=
            b.isTransactionValid history vout nBlockHeight
          if status = .Valid then (.Valid, history)
          else checkBudgets vout nBlockHeight nCountThreshold rest status true
            history
        else checkBudgets vout nBlockHeight nCountThreshold rest status true
          history
      else checkBudgets vout nBlockHeight nCountThreshold rest status
        fThreshold history

def isTransactionValid (mgr : CBudgetManager) (nCountEnabled : Nat)
    (vout : List CTxOut) (nBlockHeight : Int) :
    TrxValidationStatus × PaymentHistory :=
  let nHighestCount := highestCount nBlockHeight mgr.mapFinalizedBudgets 0
  let nFivePercent : Int := (nCountEnabled / 20 : Nat)
  if nHighestCount < nFivePercent then (.InValid, mgr.mapPayment_History)
  else
    let nCountThreshold := nHighestCount - (nCountEnabled / 10 : Nat)
    checkBudgets vout nBlockHeight nCountThreshold mgr.mapFinalizedBudgets
      .InValid false mgr.mapPayment_History

/-! ### Vote counts -/

theorem highestCount_spec (nBlockHeight : Int) (budgets : List CFinalizedBudget)
    (nStart : Int) :
    nStart ≤ highestCount nBlockHeight budgets nStart ∧
      (∀ b ∈ budgets, b.inCycle nBlockHeight = true →
        b.nVoteCount ≤ highestCount nBlockHeight budgets nStart) ∧
      (highestCount nBlockHeight budgets nStart = nStart ∨
        ∃ b ∈ budgets, b.inCycle nBlockHeight = true ∧
          highestCount nBlockHeight budgets nStart = b.nVoteCount) := by
  induction budgets generalizing nStart with
  | nil => simp [highestCount]
  | cons b rest ih =>
      unfold highestCount
      split
      · rename_i hb
        have hrest := ih b.nVoteCount
        refine ⟨by omega, fun c hc hcycle => ?_, ?_⟩
        · rcases List.mem_cons.mp hc with rfl | hc
          · exact hrest.1
          · exact hrest.2.1 c hc hcycle
        · right
          rcases hrest.2.2 with heq | ⟨c, hc, hcycle, heq⟩
          · exact ⟨b, List.mem_cons_self, hb.2, heq⟩
          · exact ⟨c, List.mem_cons_of_mem _ hc, hcycle, heq⟩
      · rename_i hb
        have hrest := ih nStart
        refine ⟨hrest.1, fun c hc hcycle => ?_, ?_⟩
        · rcases List.mem_cons.mp hc with rfl | hc
          · by_contra hlt
            exact hb ⟨by omega, hcycle⟩
          · exact hrest.2.1 c hc hcycle
        · rcases hrest.2.2 with heq | ⟨c, hc, hcycle, heq⟩
          · exact Or.inl heq
          · exact Or.inr ⟨c, List.mem_cons_of_mem _ hc, hcycle, heq⟩

/-- The producer's loop finds the highest count. -/
theorem paysLoop_count (nBlockHeight : Int) (budgets : List CFinalizedBudget)
    (best : Option (CFinalizedBudget × CTxBudgetPayment)) :
    ((paysLoop nBlockHeight budgets best).elim 0 fun p => (p.1.nVoteCount : Int)) =
      highestCount nBlockHeight budgets
        (best.elim 0 fun p => p.1.nVoteCount) := by
  induction budgets generalizing best with
  | nil => rfl
  | cons b rest ih =>
      unfold paysLoop highestCount
      cases hpay : b.getPayeeAndAmount nBlockHeight with
      | none =>
          have hout : ¬ b.inCycle nBlockHeight = true := by
            intro hcycle
            rcases getPayeeAndAmount_of_inCycle hcycle with ⟨payment, heq⟩
            rw [hpay] at heq
            cases heq
          simp only [hout, and_false, if_false, ih, Bool.false_eq_true]
      | some payment =>
          simp only
          split
          · exact ih (some (b, payment))
          · exact ih best

theorem isBudgetPaymentBlock_pays {mgr : CBudgetManager}
    {nCountEnabled : Nat} {nBlockHeight : Int}
    (h : mgr.isBudgetPaymentBlock nCountEnabled nBlockHeight = true) :
    ((nCountEnabled / 20 : Nat) : Int) <
        highestCount nBlockHeight mgr.mapFinalizedBudgets 0 ∧
      ∃ b payment, mgr.pays nBlockHeight = some (b, payment) := by
  have hfive : ((nCountEnabled / 20 : Nat) : Int) <
      highestCount nBlockHeight mgr.mapFinalizedBudgets (-1) := by
    simpa [isBudgetPaymentBlock] using h
  have hhigh : ((nCountEnabled / 20 : Nat) : Int) <
      highestCount nBlockHeight mgr.mapFinalizedBudgets 0 := by
    rcases (highestCount_spec nBlockHeight mgr.mapFinalizedBudgets (-1)).2.2
      with heq | ⟨b, hb, hcycle, heq⟩
    · omega
    · have hle := (highestCount_spec nBlockHeight mgr.mapFinalizedBudgets
        0).2.1 b hb hcycle
      omega
  refine ⟨hhigh, ?_⟩
  have hcount := paysLoop_count nBlockHeight mgr.mapFinalizedBudgets none
  cases hpays : mgr.pays nBlockHeight with
  | none =>
      have hnone : paysLoop nBlockHeight mgr.mapFinalizedBudgets none = none :=
        hpays
      rw [hnone] at hcount
      simp only [Option.elim_none] at hcount
      omega
  | some p => exact ⟨p.1, p.2, rfl⟩

/-! ### The payment is accepted -/

/-- The proposal has no payment in the cycle of the budget. -/
def Unpaid (b : CFinalizedBudget) (history : PaymentHistory)
    (payment : CTxBudgetPayment) : Prop :=
  ∀ nHeight, history payment.nProposalHash = some nHeight →
    b.inCycle nHeight = false

theorem cleanHistory_eq_some {b : CFinalizedBudget} {history : PaymentHistory}
    {hash : Uint256} {nHeight : Int}
    (h : b.cleanHistory history hash = some nHeight) :
    history hash = some nHeight ∧ b.inCycle nHeight = true := by
  unfold cleanHistory at h
  rw [Option.filter_eq_some_iff] at h
  exact h

theorem checkOutputs_of_forall {b : CFinalizedBudget}
    {payment : CTxBudgetPayment} {nBlockHeight : Int} {vout : List CTxOut}
    (hnone : ∀ out ∈ vout, isPayment payment out = false)
    (status : TrxValidationStatus) (history : PaymentHistory) :
    b.checkOutputs payment nBlockHeight vout status history =
      (status, history) := by
  induction vout with
  | nil => rfl
  | cons out vout ih =>
      unfold checkOutputs
      rw [if_neg (by rw [hnone out List.mem_cons_self]; exact Bool.false_ne_true)]
      exact ih fun o ho => hnone o (List.mem_cons_of_mem _ ho)

/-- With one output that makes the payment, the check finds it valid, or it
finds the proposal paid already and only forgets old payments. -/
theorem checkOutputs_of_one (b : CFinalizedBudget)
    {payment : CTxBudgetPayment} (nBlockHeight : Int) {vout : List CTxOut}
    (hone : vout.countP (isPayment payment) = 1)
    (status : TrxValidationStatus) (history : PaymentHistory) :
    (Unpaid b history payment ∧
      (b.checkOutputs payment nBlockHeight vout status history).1 = .Valid) ∨
    (¬ Unpaid b history payment ∧
      b.checkOutputs payment nBlockHeight vout status history =
        (.DoublePayment, b.cleanHistory history)) := by
  induction vout with
  | nil => simp at hone
  | cons out vout ih =>
      unfold checkOutputs
      cases hout : isPayment payment out with
      | false =>
          rw [if_neg Bool.false_ne_true]
          rw [List.countP_cons_of_neg (by rw [hout]; exact Bool.false_ne_true)] at hone
          exact ih hone
      | true =>
          rw [if_pos rfl]
          rw [List.countP_cons_of_pos hout] at hone
          have hrest : ∀ o ∈ vout, isPayment payment o = false := by
            intro o ho
            have hzero : vout.countP (isPayment payment) = 0 := by omega
            exact Bool.eq_false_of_not_eq_true
              (List.countP_eq_zero.mp hzero o ho)
          unfold isPaidAlready
          cases hpaid : b.cleanHistory history payment.nProposalHash with
          | none =>
              refine Or.inl ⟨fun nHeight hheight => ?_, ?_⟩
              · by_contra hcycle
                rw [Bool.not_eq_false] at hcycle
                have hsome : b.cleanHistory history payment.nProposalHash =
                    some nHeight := by
                  unfold cleanHistory
                  rw [hheight, Option.filter_some, if_pos hcycle]
                rw [hpaid] at hsome
                cases hsome
              · simp only [Option.isNone_none, if_true, hpaid,
                  Bool.false_eq_true, if_false]
                rw [checkOutputs_of_forall hrest]
          | some nHeight =>
              refine Or.inr ⟨fun hunpaid => ?_, ?_⟩
              · have hsome := cleanHistory_eq_some hpaid
                rw [hunpaid nHeight hsome.1] at hsome
                cases hsome.2
              · simp only [hpaid, Option.isNone_some, Bool.false_eq_true,
                  if_false, if_true]

/-- The budgets that the loop checks the transaction for. -/
def checkedBudgets (budgets : List CFinalizedBudget)
    (nBlockHeight nCountThreshold : Int) : List CFinalizedBudget :=
  budgets.filter fun c =>
    nCountThreshold < c.nVoteCount && c.inCycle nBlockHeight

end CBudgetManager

end Agrarian.Masternode
