import Agrarian.Lib.Run
import Agrarian.Validation.BlockPayee

/-!
# Validating a block again

`CFinalizedBudget::IsTransactionValid` records the payments that it sees in
`mapPayment_History`, where later checks find them.  A check that is made once
more finds the payment it recorded itself, whatever its height, and a check for
another cycle forgets what this one recorded.

The verdict on a transaction reads the history only at the proposals of the
payments that the transaction makes, and only the heights inside the cycles of
their budgets.
-/

namespace Agrarian.Masternode

namespace CFinalizedBudget

open CBudgetManager

section Check

variable {b : CFinalizedBudget} {history history' : PaymentHistory}
  {payment : CTxBudgetPayment} {nBlockHeight : Int} {vout : List CTxOut}
  {hash nProposalHash : Uint256}

theorem inCycle_of_getPayeeAndAmount
    (h : b.getPayeeAndAmount nBlockHeight = some payment) :
    b.inCycle nBlockHeight = true := by
  unfold getPayeeAndAmount at h
  dsimp only at h
  split_ifs at h
  unfold inCycle getBlockEnd
  rw [Bool.and_eq_true, decide_eq_true_eq, decide_eq_true_eq]
  omega

/-! ### The history after a check -/

/-- The payment is added where the cycle has none. -/
theorem isPaidAlready_history (b : CFinalizedBudget) (history : PaymentHistory)
    (nProposalHash : Uint256) (nBlockHeight : Int) (hash : Uint256) :
    (b.isPaidAlready history nProposalHash nBlockHeight).2 hash =
      (b.cleanHistory history hash).or
        (if hash = nProposalHash then some nBlockHeight else none) := by
  unfold isPaidAlready
  cases hpaid : b.cleanHistory history nProposalHash with
  | none =>
      by_cases hhash : hash = nProposalHash
      · simp [hhash, hpaid]
      · simp [hhash, hpaid]
  | some nHeight =>
      by_cases hhash : hash = nProposalHash
      · simp [hhash, hpaid]
      · simp [hhash, hpaid]

theorem isPaidAlready_paid : (b.isPaidAlready history nProposalHash
    nBlockHeight).1 = (b.cleanHistory history nProposalHash).isSome := by
  unfold isPaidAlready
  cases hpaid : b.cleanHistory history nProposalHash with
  | none => simp [hpaid]
  | some nHeight => simp [hpaid]

/-- A second look at the history changes nothing. -/
theorem isPaidAlready_again (hcycle : b.inCycle nBlockHeight = true) :
    (b.isPaidAlready (b.isPaidAlready history nProposalHash nBlockHeight).2
        nProposalHash nBlockHeight) =
      (true, (b.isPaidAlready history nProposalHash nBlockHeight).2) := by
  have hclean : b.cleanHistory
      (b.isPaidAlready history nProposalHash nBlockHeight).2 =
        (b.isPaidAlready history nProposalHash nBlockHeight).2 := by
    funext hash
    show Option.filter b.inCycle _ = _
    rw [isPaidAlready_history]
    cases hclean : b.cleanHistory history hash with
    | none =>
        rw [Option.none_or]
        split_ifs
        · simp [hcycle]
        · rfl
    | some nHeight => simp [(cleanHistory_eq_some hclean).2]
  have hsome : ((b.isPaidAlready history nProposalHash nBlockHeight).2
      nProposalHash).isSome = true := by
    rw [isPaidAlready_history, if_pos rfl]
    cases b.cleanHistory history nProposalHash <;> rfl
  generalize (b.isPaidAlready history nProposalHash nBlockHeight).2 = after
    at hclean hsome
  unfold isPaidAlready
  rw [hclean]
  simp [Option.isSome_iff_ne_none.mp hsome]

theorem checkOutputs_history (hcycle : b.inCycle nBlockHeight = true)
    (hmade : vout.any (isPayment payment) = true)
    (status : TrxValidationStatus) (history : PaymentHistory) :
    (b.checkOutputs payment nBlockHeight vout status history).2 =
      (b.isPaidAlready history payment.nProposalHash nBlockHeight).2 := by
  induction vout generalizing status history with
  | nil => cases hmade
  | cons out vout ih =>
      unfold checkOutputs
      by_cases hout : isPayment payment out = true
      · rw [if_pos hout]
        dsimp only
        split
        · rfl
        · by_cases hrest : vout.any (isPayment payment) = true
          · rw [ih hrest, isPaidAlready_again hcycle]
          · rw [checkOutputs_of_forall]
            intro o ho
            by_contra hpays
            exact hrest (List.any_eq_true.mpr ⟨o, ho, by simpa using hpays⟩)
      · rw [if_neg hout]
        rw [List.any_cons, Bool.eq_false_of_not_eq_true hout, Bool.false_or]
          at hmade
        exact ih hmade status history

/-- **What a check leaves**: nothing new, or the payment that was due. -/
theorem isTransactionValid_history (b : CFinalizedBudget)
    (history : PaymentHistory) (vout : List CTxOut) (nBlockHeight : Int) :
    (b.isTransactionValid history vout nBlockHeight).2 = history ∧
        (∀ payment, b.getPayeeAndAmount nBlockHeight = some payment →
          vout.any (isPayment payment) = false) ∨
      ∃ payment, b.getPayeeAndAmount nBlockHeight = some payment ∧
        vout.any (isPayment payment) = true ∧
        (b.isTransactionValid history vout nBlockHeight).2 =
          (b.isPaidAlready history payment.nProposalHash nBlockHeight).2 := by
  unfold CFinalizedBudget.isTransactionValid
  cases hdue : b.getPayeeAndAmount nBlockHeight with
  | none => exact Or.inl ⟨rfl, by simp⟩
  | some payment =>
      dsimp only
      cases hmade : vout.any (isPayment payment) with
      | true =>
          exact Or.inr ⟨payment, rfl, hmade, checkOutputs_history
            (inCycle_of_getPayeeAndAmount hdue) hmade _ _⟩
      | false =>
          left
          have hnone : ∀ out ∈ vout, isPayment payment out = false := by
            simpa using hmade
          rw [checkOutputs_of_forall hnone]
          refine ⟨rfl, ?_⟩
          rintro other hother
          rw [← Option.some.inj hother]
          exact hmade

/-! ### The verdict -/

/-- The verdict reads the history at the proposal, in the cycle. -/
theorem checkOutputs_congr {history history' : PaymentHistory}
    (h : b.cleanHistory history payment.nProposalHash =
      b.cleanHistory history' payment.nProposalHash)
    (status : TrxValidationStatus) :
    (b.checkOutputs payment nBlockHeight vout status history).1 =
      (b.checkOutputs payment nBlockHeight vout status history').1 := by
  induction vout generalizing status history history' with
  | nil => rfl
  | cons out vout ih =>
      unfold checkOutputs
      by_cases hout : isPayment payment out = true
      · rw [if_pos hout, if_pos hout]
        dsimp only
        rw [isPaidAlready_paid, isPaidAlready_paid, h]
        split
        · rfl
        · apply ih
          unfold cleanHistory at h ⊢
          rw [isPaidAlready_history, isPaidAlready_history]
          unfold cleanHistory
          rw [h]
      · rw [if_neg hout, if_neg hout]
        exact ih h status

theorem cleanHistory_eq_none_iff :
    b.cleanHistory history payment.nProposalHash = none ↔
      Unpaid b history payment := by
  constructor
  · intro hnone nHeight hheight
    by_contra hin
    unfold cleanHistory at hnone
    rw [hheight, Option.filter_some, if_pos (by simpa using hin)] at hnone
    cases hnone
  · intro hunpaid
    cases hclean : b.cleanHistory history payment.nProposalHash with
    | none => rfl
    | some nHeight =>
        have hsome := cleanHistory_eq_some hclean
        rw [hunpaid nHeight hsome.1] at hsome
        cases hsome.2

/-- Where the proposal is paid, an output that pays it is a double payment. -/
theorem checkOutputs_of_paid (hpaid : ¬Unpaid b history payment)
    (hmade : vout.any (isPayment payment) = true) (status : TrxValidationStatus) :
    (b.checkOutputs payment nBlockHeight vout status history).1 =
      .DoublePayment := by
  induction vout generalizing status with
  | nil => cases hmade
  | cons out vout ih =>
      unfold checkOutputs
      by_cases hout : isPayment payment out = true
      · rw [if_pos hout]
        dsimp only
        rw [isPaidAlready_paid, if_pos]
        rw [← Option.ne_none_iff_isSome, ne_eq, cleanHistory_eq_none_iff]
        exact hpaid
      · rw [if_neg hout]
        rw [List.any_cons, Bool.eq_false_of_not_eq_true hout, Bool.false_or]
          at hmade
        exact ih hmade status

/-- A second output that makes the payment finds the first one. -/
theorem checkOutputs_of_several (hcycle : b.inCycle nBlockHeight = true)
    (hmade : 2 ≤ vout.countP (isPayment payment)) (status : TrxValidationStatus) :
    (b.checkOutputs payment nBlockHeight vout status history).1 =
      .DoublePayment := by
  induction vout generalizing status with
  | nil => simp at hmade
  | cons out vout ih =>
      unfold checkOutputs
      by_cases hout : isPayment payment out = true
      · rw [if_pos hout]
        dsimp only
        split
        · rfl
        · rw [List.countP_cons_of_pos hout] at hmade
          have hrest : 0 < vout.countP (isPayment payment) := by omega
          apply checkOutputs_of_paid
          · rw [← cleanHistory_eq_none_iff, ← ne_eq, Option.ne_none_iff_isSome,
              ← isPaidAlready_paid, isPaidAlready_again hcycle]
          · rw [List.any_eq_true]
            exact List.countP_pos_iff.mp hrest
      · rw [if_neg hout]
        rw [List.countP_cons_of_neg hout] at hmade
        exact ih hmade status

theorem isTransactionValid_eq (hdue : b.getPayeeAndAmount nBlockHeight =
      some payment) (history : PaymentHistory) :
    b.isTransactionValid history vout nBlockHeight =
      b.checkOutputs payment nBlockHeight vout .InValid history := by
  unfold CFinalizedBudget.isTransactionValid
  rw [hdue]

/-- **Checked once more** a transaction has the verdict of before, except for
one that makes a payment once that was not made in the cycle. -/
theorem isTransactionValid_again (b : CFinalizedBudget)
    (history : PaymentHistory) (vout : List CTxOut) (nBlockHeight : Int) :
    (b.isTransactionValid (b.isTransactionValid history vout nBlockHeight).2 vout
        nBlockHeight).1 = (b.isTransactionValid history vout nBlockHeight).1 ↔
      ∀ payment, b.getPayeeAndAmount nBlockHeight = some payment →
        vout.countP (isPayment payment) = 1 →
        ¬Unpaid b history payment := by
  rcases isTransactionValid_history b history vout nBlockHeight with
    ⟨hsame, hnone⟩ | ⟨payment, hdue, hmade, hafter⟩
  · rw [hsame]
    simp only [true_iff]
    intro payment hdue hone
    have hpos : 0 < vout.countP (isPayment payment) := by omega
    rw [List.countP_pos_iff, ← List.any_eq_true, hnone payment hdue] at hpos
    cases hpos
  · have hcycle := inCycle_of_getPayeeAndAmount hdue
    have hpaid : ¬Unpaid b (b.isPaidAlready history payment.nProposalHash
        nBlockHeight).2 payment := by
      rw [← cleanHistory_eq_none_iff, ← ne_eq, Option.ne_none_iff_isSome,
        ← isPaidAlready_paid, isPaidAlready_again hcycle]
    have hsecond : (b.isTransactionValid (b.isTransactionValid history vout
        nBlockHeight).2 vout nBlockHeight).1 = .DoublePayment := by
      rw [hafter, isTransactionValid_eq hdue]
      exact checkOutputs_of_paid hpaid hmade _
    have hpos : 0 < vout.countP (isPayment payment) :=
      List.countP_pos_iff.mpr (List.any_eq_true.mp hmade)
    rw [hsecond, isTransactionValid_eq hdue]
    by_cases hold : Unpaid b history payment
    · by_cases hone : vout.countP (isPayment payment) = 1
      · -- valid the first time only
        rcases checkOutputs_of_one b nBlockHeight hone .InValid history with
          ⟨-, hvalid⟩ | ⟨hpaid, -⟩
        · rw [hvalid]
          simp only [reduceCtorEq, false_iff]
          exact fun h => h payment hdue hone hold
        · exact absurd hold hpaid
      · rw [checkOutputs_of_several hcycle (by omega)]
        simp only [true_iff]
        intro other hother hcount
        rw [hdue] at hother
        rw [← Option.some.inj hother] at hcount
        exact absurd hcount hone
    · rw [checkOutputs_of_paid hold hmade]
      simp only [true_iff]
      intro other hother _
      rw [hdue] at hother
      rw [← Option.some.inj hother]
      exact hold

end Check

end CFinalizedBudget

/-! ## The budgets of a node -/

namespace CBudgetManager

open CFinalizedBudget

/-- The transaction makes the payment that is due for the budget. -/
structure MakesPayment (budgets : List CFinalizedBudget) (vout : List CTxOut)
    (nBlockHeight : Int) (b : CFinalizedBudget) (payment : CTxBudgetPayment) :
    Prop where
  mem : b ∈ budgets
  due : b.getPayeeAndAmount nBlockHeight = some payment
  made : vout.any (isPayment payment) = true

/-- The histories agree on the proposals of the payments that the transaction
makes, in the cycles of their budgets. -/
def SamePayments (budgets : List CFinalizedBudget) (vout : List CTxOut)
    (nBlockHeight : Int) (history history' : PaymentHistory) : Prop :=
  ∀ b payment c paid, MakesPayment budgets vout nBlockHeight b payment →
    MakesPayment budgets vout nBlockHeight c paid →
    b.cleanHistory history paid.nProposalHash =
      b.cleanHistory history' paid.nProposalHash

section Same

variable {budgets : List CFinalizedBudget} {vout : List CTxOut}
  {nBlockHeight : Int} {history history' history'' : PaymentHistory}

theorem SamePayments.refl : SamePayments budgets vout nBlockHeight history
    history :=
  fun _ _ _ _ _ _ => rfl

theorem SamePayments.trans
    (h : SamePayments budgets vout nBlockHeight history history')
    (h' : SamePayments budgets vout nBlockHeight history' history'') :
    SamePayments budgets vout nBlockHeight history history'' :=
  fun b payment c paid hb hc =>
    (h b payment c paid hb hc).trans (h' b payment c paid hb hc)

/-- The check of one budget has the same verdict on both histories, and leaves
the same payments. -/
theorem SamePayments.check {d : CFinalizedBudget} (hd : d ∈ budgets)
    (h : SamePayments budgets vout nBlockHeight history history') :
    (d.isTransactionValid history vout nBlockHeight).1 =
        (d.isTransactionValid history' vout nBlockHeight).1 ∧
      SamePayments budgets vout nBlockHeight
        (d.isTransactionValid history vout nBlockHeight).2
        (d.isTransactionValid history' vout nBlockHeight).2 := by
  cases hdue : d.getPayeeAndAmount nBlockHeight with
  | none =>
      unfold CFinalizedBudget.isTransactionValid
      rw [hdue]
      exact ⟨rfl, h⟩
  | some payment =>
      rw [isTransactionValid_eq hdue, isTransactionValid_eq hdue]
      cases hmade : vout.any (isPayment payment) with
      | false =>
          have hnone : ∀ out ∈ vout, isPayment payment out = false := by
            simpa using hmade
          rw [checkOutputs_of_forall hnone, checkOutputs_of_forall hnone]
          exact ⟨rfl, h⟩
      | true =>
          have hmakes : MakesPayment budgets vout nBlockHeight d payment :=
            ⟨hd, hdue, hmade⟩
          have hcycle := inCycle_of_getPayeeAndAmount hdue
          refine ⟨checkOutputs_congr (h d payment d payment hmakes hmakes) _, ?_⟩
          intro b due c paid hb hc
          have hkept := h d payment c paid hmakes hc
          rw [checkOutputs_history hcycle hmade, checkOutputs_history hcycle hmade]
          show Option.filter b.inCycle _ = Option.filter b.inCycle _
          rw [isPaidAlready_history, isPaidAlready_history, hkept]

/-- **The verdict on the transaction** is the same on both histories. -/
theorem SamePayments.checkBudgets {nCountThreshold : Int}
    {checked : List CFinalizedBudget} (hchecked : ∀ b ∈ checked, b ∈ budgets)
    (h : SamePayments budgets vout nBlockHeight history history')
    (status : TrxValidationStatus) (fThreshold : Bool) :
    (CBudgetManager.checkBudgets vout nBlockHeight nCountThreshold checked status
        fThreshold history).1 =
      (CBudgetManager.checkBudgets vout nBlockHeight nCountThreshold checked
        status fThreshold history').1 := by
  induction checked generalizing status fThreshold history history' with
  | nil => rfl
  | cons d rest ih =>
      have hrest := fun b hb => hchecked b (List.mem_cons_of_mem _ hb)
      have hboth := h.check (hchecked d List.mem_cons_self)
      unfold CBudgetManager.checkBudgets
      split
      · split
        · dsimp only
          rw [hboth.1]
          split
          · rfl
          · exact ih hrest hboth.2 _ _
        · exact ih hrest h _ _
      · exact ih hrest h _ _

/-! ### Other transactions -/

/-- Another transaction makes no payment that is recorded anew, or for a budget
whose cycle leaves recorded payments out. -/
def LeavesPayments (budgets : List CFinalizedBudget) (vout : List CTxOut)
    (nBlockHeight : Int) (history : PaymentHistory)
    (checked : List CFinalizedBudget) (vout' : List CTxOut)
    (nBlockHeight' : Int) : Prop :=
  ∀ d payment', MakesPayment checked vout' nBlockHeight' d payment' →
    ∀ b payment c paid, MakesPayment budgets vout nBlockHeight b payment →
      MakesPayment budgets vout nBlockHeight c paid →
      (∀ nHeight, b.cleanHistory history paid.nProposalHash = some nHeight →
        d.inCycle nHeight = true) ∧
      (payment'.nProposalHash = paid.nProposalHash →
        b.inCycle nBlockHeight' = true →
        (b.cleanHistory history paid.nProposalHash).isSome)

theorem LeavesPayments.congr {checked : List CFinalizedBudget}
    {vout' : List CTxOut} {nBlockHeight' : Int}
    (hleaves : LeavesPayments budgets vout nBlockHeight history checked vout'
      nBlockHeight')
    (h : SamePayments budgets vout nBlockHeight history history') :
    LeavesPayments budgets vout nBlockHeight history' checked vout'
      nBlockHeight' := by
  intro d payment' hd b payment c paid hb hc
  rw [← h b payment c paid hb hc]
  exact hleaves d payment' hd b payment c paid hb hc

theorem LeavesPayments.check {checked : List CFinalizedBudget}
    {vout' : List CTxOut} {nBlockHeight' : Int} {d : CFinalizedBudget}
    (hd : d ∈ checked)
    (hleaves : LeavesPayments budgets vout nBlockHeight history checked vout'
      nBlockHeight') :
    SamePayments budgets vout nBlockHeight history
      (d.isTransactionValid history vout' nBlockHeight').2 := by
  rcases isTransactionValid_history d history vout' nBlockHeight' with
    ⟨hsame, -⟩ | ⟨payment', hdue, hmade, hafter⟩
  · rw [hsame]
    exact SamePayments.refl
  · intro b payment c paid hb hc
    obtain ⟨hkept, hnew⟩ := hleaves d payment' ⟨hd, hdue, hmade⟩ b payment c paid
      hb hc
    rw [hafter]
    show Option.filter b.inCycle _ = Option.filter b.inCycle _
    rw [isPaidAlready_history]
    -- a payment in the cycle of `b` stays, and none is added to it
    cases hold : b.cleanHistory history paid.nProposalHash with
    | some nHeight =>
        have hrecorded := (cleanHistory_eq_some hold).1
        have hstays : d.cleanHistory history paid.nProposalHash = some nHeight := by
          unfold cleanHistory
          rw [hrecorded, Option.filter_some, if_pos (hkept nHeight hold)]
        rw [hstays, hrecorded, Option.some_or]
    | none =>
        have hnone : Option.filter b.inCycle (history paid.nProposalHash) = none :=
          hold
        rw [hnone]
        symm
        rw [Option.filter_eq_none_iff]
        intro nHeight hor hin
        rcases Option.or_eq_some_iff.mp hor with hstays | ⟨-, hadded⟩
        · have hrecorded := (cleanHistory_eq_some hstays).1
          rw [hrecorded, Option.filter_some, if_pos hin] at hnone
          cases hnone
        · split_ifs at hadded with hhash
          rw [← Option.some.inj hadded] at hin
          have := hnew hhash.symm hin
          rw [hold] at this
          cases this

/-- The loop over the budgets leaves the payments. -/
theorem LeavesPayments.checkBudgets {nCountThreshold : Int}
    {checked rest : List CFinalizedBudget} {vout' : List CTxOut}
    {nBlockHeight' : Int}
    (hrest : ∀ d ∈ checkedBudgets rest nBlockHeight' nCountThreshold, d ∈ checked)
    (hleaves : LeavesPayments budgets vout nBlockHeight history checked vout'
      nBlockHeight')
    (status : TrxValidationStatus) (fThreshold : Bool) :
    SamePayments budgets vout nBlockHeight history
      (CBudgetManager.checkBudgets vout' nBlockHeight' nCountThreshold rest
        status fThreshold history).2 := by
  induction rest generalizing status fThreshold history with
  | nil => exact SamePayments.refl
  | cons d rest ih =>
      have htail : ∀ e ∈ checkedBudgets rest nBlockHeight' nCountThreshold,
          e ∈ checked := by
        intro e he
        apply hrest
        unfold checkedBudgets at he ⊢
        rw [List.mem_filter] at he ⊢
        exact ⟨List.mem_cons_of_mem _ he.1, he.2⟩
      unfold CBudgetManager.checkBudgets
      by_cases hcount : nCountThreshold < d.nVoteCount
      · rw [if_pos hcount]
        by_cases hcycle : d.inCycle nBlockHeight' = true
        · rw [if_pos hcycle]
          have hd : d ∈ checked := by
            apply hrest
            unfold checkedBudgets
            rw [List.mem_filter]
            exact ⟨List.mem_cons_self, by simp [hcount, hcycle]⟩
          have hcheck := hleaves.check hd
          dsimp only
          split
          · exact hcheck
          · exact hcheck.trans (ih htail (hleaves.congr hcheck) _ _)
        · rw [if_neg hcycle]
          exact ih htail hleaves _ _
      · rw [if_neg hcount]
        exact ih htail hleaves _ _

end Same

end CBudgetManager

end Agrarian.Masternode

namespace Agrarian.Validation

open Agrarian.Lib Agrarian.Masternode

/-! ## The node -/

namespace Node

def withHistory (node : Node) (history : PaymentHistory) : Node :=
  { node with budget := { node.budget with mapPayment_History := history } }

/-- The node looks up whether a block makes the budget's payment. -/
def checksBudget (node : Node) (nBlockHeight : Int) : Bool :=
  node.fSynced && (node.fSuperblocks &&
    node.budget.isBudgetPaymentBlock node.nCountEnabled nBlockHeight)

/-- The node after `IsBlockPayeeValid`. -/
def validated (node : Node) (vout : List CTxOut) (nBlockHeight : Int) : Node :=
  if node.checksBudget nBlockHeight then
    node.withHistory (node.budget.isTransactionValid node.nCountEnabled vout
      nBlockHeight).2
  else node

/-- What is read of a block: the outputs that pay, and the height. -/
structure PayingBlock where
  vout : List CTxOut
  nBlockHeight : Int

/-- The node after it validated blocks. -/
def validatedAll (node : Node) (blocks : List PayingBlock) : Node :=
  blocks.foldl (fun node block => node.validated block.vout block.nBlockHeight)
    node

/-- The budgets that are checked at a height. -/
def checkedAt (node : Node) (nBlockHeight : Int) : List CFinalizedBudget :=
  CBudgetManager.checkedBudgets node.budget.mapFinalizedBudgets nBlockHeight
    (CBudgetManager.highestCount nBlockHeight node.budget.mapFinalizedBudgets 0 -
      (node.nCountEnabled / 10 : Nat))

/-- The validation of another block leaves the payments of this one. -/
def Leaves (node : Node) (block other : PayingBlock) : Prop :=
  node.checksBudget other.nBlockHeight = true →
  CBudgetManager.LeavesPayments node.budget.mapFinalizedBudgets block.vout
    block.nBlockHeight node.budget.mapPayment_History
    (node.checkedAt other.nBlockHeight) other.vout other.nBlockHeight

section Same

variable {params : CChainParams} {node : Node} {history history' : PaymentHistory}
  {block other : PayingBlock}

/-- The histories agree on the payments of the block. -/
def SameFor (node : Node) (block : PayingBlock)
    (history history' : PaymentHistory) : Prop :=
  CBudgetManager.SamePayments node.budget.mapFinalizedBudgets block.vout
    block.nBlockHeight history history'

theorem isBlockPayeeValid_congr (h : node.SameFor block history history') :
    (node.withHistory history).isBlockPayeeValid params block.vout
        block.nBlockHeight =
      (node.withHistory history').isBlockPayeeValid params block.vout
        block.nBlockHeight := by
  have hverdict : ((node.withHistory history).budget.isTransactionValid
      (node.withHistory history).nCountEnabled block.vout block.nBlockHeight).1 =
        ((node.withHistory history').budget.isTransactionValid
          (node.withHistory history').nCountEnabled block.vout
          block.nBlockHeight).1 := by
    unfold CBudgetManager.isTransactionValid
    dsimp only [withHistory]
    split
    · rfl
    · exact h.checkBudgets (fun _ hb => hb) _ _
  unfold isBlockPayeeValid
  rw [hverdict]
  rfl

/-- A validation that leaves the payments. -/
theorem Leaves.validated (h : (node.withHistory history).Leaves block other) :
    ∃ history', (node.withHistory history).validated other.vout
        other.nBlockHeight = node.withHistory history' ∧
      node.SameFor block history history' := by
  unfold Node.validated
  by_cases hchecks : (node.withHistory history).checksBudget
      other.nBlockHeight = true
  · rw [if_pos hchecks]
    refine ⟨_, rfl, ?_⟩
    unfold CBudgetManager.isTransactionValid
    dsimp only
    split
    · exact CBudgetManager.SamePayments.refl
    · exact (h hchecks).checkBudgets (fun _ hd => hd) _ _
  · rw [if_neg hchecks]
    exact ⟨history, rfl, CBudgetManager.SamePayments.refl⟩

theorem validatedAll_same {blocks : List PayingBlock}
    (h : EachAfter (fun before other =>
      (node.validatedAll before).Leaves block other) blocks) :
    ∃ history', node.validatedAll blocks = node.withHistory history' ∧
      node.SameFor block node.budget.mapPayment_History history' := by
  apply h.induction (P := fun blocks => ∃ history',
    node.validatedAll blocks = node.withHistory history' ∧
      node.SameFor block node.budget.mapPayment_History history')
  · exact ⟨_, rfl, CBudgetManager.SamePayments.refl⟩
  · rintro before other ⟨history, hnode, hsame⟩ hleaves
    rw [hnode] at hleaves
    obtain ⟨history', hnode', hsame'⟩ := hleaves.validated
    refine ⟨history', ?_, hsame.trans hsame'⟩
    rw [validatedAll, List.foldl_append, List.foldl_cons, List.foldl_nil,
      ← hnode', ← hnode]
    rfl

/-- The node gives the block the verdicts of the other node. -/
structure SameVerdicts (params : CChainParams) (node node' : Node)
    (block : PayingBlock) : Prop where
  budget : ∀ b ∈ node.budget.mapFinalizedBudgets,
    (b.isTransactionValid node'.budget.mapPayment_History block.vout
        block.nBlockHeight).1 =
      (b.isTransactionValid node.budget.mapPayment_History block.vout
        block.nBlockHeight).1
  payee : node'.isBlockPayeeValid params block.vout block.nBlockHeight =
    node.isBlockPayeeValid params block.vout block.nBlockHeight

/-- **The verdicts on a block do not change** in validations that leave its
payments. -/
theorem verdict_unchanged (params : CChainParams) {node : Node}
    {block : PayingBlock} {blocks reached rest : List PayingBlock}
    (h : EachAfter (fun before other =>
      (node.validatedAll before).Leaves block other) blocks)
    (hreached : blocks = reached ++ rest) :
    SameVerdicts params node (node.validatedAll reached) block := by
  subst hreached
  obtain ⟨history', hnode, hsame⟩ := validatedAll_same h.of_append
  rw [hnode]
  constructor
  · intro b hb
    exact (hsame.check hb).1.symm
  · exact (isBlockPayeeValid_congr hsame).symm

end Same

end Node

section Example

/-- Its ten masternodes decided on a budget and on a payee. -/
def budgetNetwork : Node :=
  { smallNetwork with nCountEnabled := 10 }

/-- The block makes the payment of the budget. -/
def payingBlock : Node.PayingBlock where
  vout := [{ nValue := COIN, scriptPubKey := [CScript.OP_DUP] }]
  nBlockHeight := 5000

/-- A block that pays nobody. -/
def otherBlock : Node.PayingBlock where
  vout := []
  nBlockHeight := 5000

theorem verdict_unchanged_otherBlock :
    (budgetNetwork.validatedAll [otherBlock]).isBlockPayeeValid mainParams
        payingBlock.vout payingBlock.nBlockHeight =
      budgetNetwork.isBlockPayeeValid mainParams payingBlock.vout
        payingBlock.nBlockHeight := by
  have hleaves : EachAfter (fun before other =>
      (budgetNetwork.validatedAll before).Leaves payingBlock other)
      ([] ++ [otherBlock]) := by
    rw [EachAfter.append_singleton_iff]
    refine ⟨EachAfter.nil, ?_⟩
    rintro - d payment hd
    exact absurd hd.made (by simp [otherBlock])
  exact (Node.verdict_unchanged mainParams hleaves
    (List.append_nil _).symm).payee

/-- The second validation of a block finds the payment of the first. -/
theorem second_validation_rejects :
    ¬Node.SameVerdicts mainParams budgetNetwork
      (budgetNetwork.validatedAll [payingBlock]) payingBlock ∧
    budgetNetwork.isBlockPayeeValid mainParams payingBlock.vout
      payingBlock.nBlockHeight = true ∧
    (budgetNetwork.validatedAll [payingBlock]).isBlockPayeeValid mainParams
      payingBlock.vout payingBlock.nBlockHeight = false := by
  have hfirst : budgetNetwork.isBlockPayeeValid mainParams payingBlock.vout
      payingBlock.nBlockHeight = true := by decide
  have hsecond : (budgetNetwork.validatedAll [payingBlock]).isBlockPayeeValid
      mainParams payingBlock.vout payingBlock.nBlockHeight = false := by decide
  refine ⟨fun hsame => ?_, hfirst, hsecond⟩
  have := hsame.payee
  rw [hfirst, hsecond] at this
  cases this

end Example

end Agrarian.Validation
