import Agrarian.Validation.ConnectBlock
import Agrarian.Masternode.Payments

/-!
# Who a block pays

The node decides twice about the payments of a block: `FillBlockPayee`
completes the transaction that pays in a block of its own, and
`IsBlockPayeeValid` and `IsBlockValueValid` check a block.  Both read the
finalized budgets, the masternode winners and the sporks.

A node is here what the two decisions read.  The outputs that the wallet makes
for a stake are given by the scripts it chooses.
-/

namespace Agrarian.Masternode

open Agrarian.Lib Agrarian.Validation

namespace CMasternodeBlockPayees

/-- The loop over the votes in `IsTransactionValid`. -/
def maxSignatures : List CMasternodePayee → Int → Int
  | [], nMaxSignatures => nMaxSignatures
  | p :: rest, nMaxSignatures =>
      if nMaxSignatures ≤ p.nVotes ∧
          MNPAYMENTS_SIGNATURES_REQUIRED ≤ p.nVotes then
        maxSignatures rest p.nVotes
      else maxSignatures rest nMaxSignatures

/-- An output pays the payee what a masternode gets. -/
def isPaid (requiredMasternodePayment : Int) (vout : List CTxOut)
    (payee : CMasternodePayee) : Bool :=
  vout.any fun out =>
    payee.scriptPubKey = out.scriptPubKey &&
      requiredMasternodePayment ≤ out.nValue

variable (params : CChainParams)

def isTransactionValid (payees : CMasternodeBlockPayees)
    (vout : List CTxOut) : Bool :=
  let nReward := getBlockValueOfHeight params payees.nBlockHeight
  let requiredMasternodePayment :=
    getMasternodePayment params payees.nBlockHeight nReward
  -- approve whichever is the longest chain
  if maxSignatures payees.vecPayments 0 < MNPAYMENTS_SIGNATURES_REQUIRED then
    true
  else
    payees.vecPayments.any fun payee =>
      MNPAYMENTS_SIGNATURES_REQUIRED ≤ payee.nVotes &&
        isPaid requiredMasternodePayment vout payee

end CMasternodeBlockPayees

namespace CMasternodePayments

variable (params : CChainParams)

def getBlockPayee (s : CMasternodePayments) (nBlockHeight : Int) :
    Option CScript :=
  match s.mapMasternodeBlocks.find? nBlockHeight with
  | none => none
  | some payees => payees.getPayee

def isTransactionValid (s : CMasternodePayments) (vout : List CTxOut)
    (nBlockHeight : Int) : Bool :=
  match s.mapMasternodeBlocks.find? nBlockHeight with
  | none => true
  | some payees => payees.isTransactionValid params vout

/-- The masternode that the node pays: the winner, or else the one that is
next by the node's own list. -/
def payee (s : CMasternodePayments) (winningNode : Option CScript)
    (nBlockHeight : Int) : Option CScript :=
  (s.getBlockPayee nBlockHeight).orElse fun _ => winningNode

/-- `FillBlockPayee` on the outputs of the coinbase or coinstake for the block
after height `nHeight`. -/
def fillBlockPayee (s : CMasternodePayments) (winningNode : Option CScript)
    (nHeight : Int) (vout : List CTxOut) (fProofOfStake : Bool) :
    List CTxOut :=
  let payHeight := nHeight + 1
  let blockValue := getBlockValueOfHeight params payHeight
  let masternodePayment := getMasternodePayment params payHeight blockValue
  match s.payee winningNode payHeight with
  | none => vout
  | some payee =>
      if fProofOfStake then
        let i := vout.length
        let paid := vout ++ [{ CTxOut.null with
          nValue := masternodePayment, scriptPubKey := payee }]
        -- subtract the payment from the stake reward
        if 0 < i ∧ (paid.getD 1 CTxOut.null).isZerocoinMint = false then
          paid.modify (i - 1) fun out =>
            { out with nValue := out.nValue - masternodePayment }
        else paid
      else
        [{ vout.getD 0 CTxOut.null with
            nValue := blockValue - masternodePayment },
          { vout.getD 1 CTxOut.null with
            nValue := masternodePayment, scriptPubKey := payee }]

/-! ### The heights of the winners -/

/-- The payees of a height know it. -/
def KeyedByHeight (s : CMasternodePayments) : Prop :=
  ∀ nBlockHeight payees,
    s.mapMasternodeBlocks.find? nBlockHeight = some payees →
      payees.nBlockHeight = nBlockHeight

variable {params}
variable {winnerHash : CScript → Int → COutPoint → Uint256}
variable {s s' : CMasternodePayments}

theorem addWinningMasternode_keyedByHeight {env : Env}
    {winner : CMasternodePaymentWinner} (hkeyed : s.KeyedByHeight)
    (h : addWinningMasternode winnerHash env s winner = some s') :
    s'.KeyedByHeight := by
  have hadded := addWinningMasternode_eq_some h
  intro nBlockHeight payees hfind
  by_cases heq : nBlockHeight = winner.nBlockHeight
  · rw [heq, hadded.2.2.1] at hfind
    cases hfind
    rw [heq]
    unfold CMasternodeBlockPayees.addPayee
    cases hold : s.mapMasternodeBlocks.find? winner.nBlockHeight with
    | none => rfl
    | some old =>
        have hheight := hkeyed _ _ hold
        exact hheight
  · rw [hadded.2.2.2 nBlockHeight heq] at hfind
    exact hkeyed _ _ hfind

theorem processMessage_keyedByHeight {env : Env} (hkeyed : s.KeyedByHeight)
    (msg : Message) :
    (processMessageMasternodePayments winnerHash env s msg).KeyedByHeight := by
  cases msg with
  | mnget => exact hkeyed
  | mnw winner =>
      simp only [processMessageMasternodePayments]
      split
      · exact hkeyed
      unfold processWinner
      split
      · exact hkeyed
      split
      · exact hkeyed
      rename_i s₁ hvote
      have hvoted : s₁.KeyedByHeight := by
        unfold KeyedByHeight
        rw [(canVote_eq_some hvote).2.2]
        exact hkeyed
      split
      · exact hvoted
      cases hadd : addWinningMasternode winnerHash env s₁ winner with
      | none => exact hvoted
      | some s₂ => exact addWinningMasternode_keyedByHeight hvoted hadd

theorem cleanPaymentList_keyedByHeight {env : Env} {freed : Uint256 → Int}
    (hkeyed : s.KeyedByHeight) :
    (cleanPaymentList env freed s).KeyedByHeight := by
  have hentries : ∀ old entries (s : CMasternodePayments), s.KeyedByHeight →
      (cleanEntries old freed entries s).KeyedByHeight := by
    intro old entries
    induction entries with
    | nil => exact fun s h => h
    | cons entry rest ih =>
        intro s hs
        unfold cleanEntries
        split
        · apply ih
          intro nBlockHeight payees hfind
          rw [KeyedMap.find?_erase] at hfind
          split at hfind
          · cases hfind
          · exact hs _ _ hfind
        · exact ih s hs
  unfold cleanPaymentList
  split
  · exact hkeyed
  · exact hentries _ _ _ hkeyed

end CMasternodePayments

end Agrarian.Masternode

namespace Agrarian.Validation

open Agrarian.Lib Agrarian.Coins Agrarian.Masternode

/-! ## The node -/

/-- What a node reads when it pays for a block or checks the payments. -/
structure Node where
  hashTip : Uint256
  nTip : Int
  nTip_nonneg : 0 ≤ nTip
  /-- `masternodeSync.IsSynced()`. -/
  fSynced : Bool
  /-- `SPORK_13_ENABLE_SUPERBLOCKS`. -/
  fSuperblocks : Bool
  /-- `SPORK_9_MASTERNODE_BUDGET_ENFORCEMENT`. -/
  fBudgetEnforcement : Bool
  /-- `SPORK_8_MASTERNODE_PAYMENT_ENFORCEMENT`. -/
  fPaymentEnforcement : Bool
  budget : CBudgetManager
  nCountEnabled : Nat
  payments : CMasternodePayments
  keyedByHeight : payments.KeyedByHeight
  /-- The script of `GetCurrentMasterNode`. -/
  winningNode : Option CScript
  /-- `nStakeSplitThreshold` of the wallet. -/
  nStakeSplitThreshold : Nat

variable (params : CChainParams)

namespace Node

variable (node : Node)

/-- The height of the next block. -/
def nHeight : Int := node.nTip + 1

def env : ValueEnv where
  tip := some (node.hashTip, node.nTip)
  fSynced := node.fSynced
  fSuperblocks := node.fSuperblocks
  budget := node.budget
  nCountEnabled := node.nCountEnabled

/-- The next block is for the budget. -/
def isBudgetBlock : Bool :=
  node.fSuperblocks &&
    node.budget.isBudgetPaymentBlock node.nCountEnabled node.nHeight

/-- `FillBlockPayee`. -/
def fillBlockPayee (vout : List CTxOut) (fProofOfStake : Bool) :
    List CTxOut :=
  if node.isBudgetBlock then
    node.budget.fillBlockPayee params node.nTip vout fProofOfStake
  else
    node.payments.fillBlockPayee params node.winningNode node.nTip vout
      fProofOfStake

/-- The check of the masternode's payment. -/
def masternodePaid (vout : List CTxOut) (nBlockHeight : Int) : Bool :=
  node.payments.isTransactionValid params vout nBlockHeight ||
    !node.fPaymentEnforcement

/-- `IsBlockPayeeValid` on the outputs of the transaction that pays. -/
def isBlockPayeeValid (vout : List CTxOut) (nBlockHeight : Int) : Bool :=
  if !node.fSynced then true
  else if node.fSuperblocks &&
      node.budget.isBudgetPaymentBlock node.nCountEnabled nBlockHeight then
    match (node.budget.isTransactionValid node.nCountEnabled vout
        nBlockHeight).1 with
    | .Valid => true
    | .InValid =>
        if node.fBudgetEnforcement then false
        else node.masternodePaid params vout nBlockHeight
    | _ => node.masternodePaid params vout nBlockHeight
  else node.masternodePaid params vout nBlockHeight

end Node

/-! ## The blocks it completes -/

def CENT : Int := 1000000

/-- A coinbase with the script of the miner, and the fees of the block.  They
are paid from coins, and with the block value fit into 64 bits. -/
structure CoinbaseTemplate where
  scriptPubKeyIn : CScript
  nFees : Int
  nFees_nonneg : 0 ≤ nFees
  nFees_fit : FitsInt64 (5000000000 * COIN + nFees)

/-- `CPivStake` and `CZPivStake`, with the scripts of the outputs: a public
key, and the new mints. -/
inductive StakeInput
  | agr (nValue : Int) (scriptPubKey : CScript)
      (hkey : scriptPubKey.isZerocoinMint = false)
  | zagr (denom : CoinDenomination) (pubCoin : Nat → List UInt8)

/-- The first output of a coinstake. -/
def emptyOut : CTxOut := { nValue := 0, scriptPubKey := [] }

namespace StakeInput

def getValue : StakeInput → Int
  | agr nValue _ _ => nValue
  | zagr denom _ => denom.toInt * COIN

/-- `CreateZAGROutPut`. -/
def mintOut (denom : CoinDenomination) (pubCoin : List UInt8) : CTxOut where
  nValue := denom.toInt * COIN
  scriptPubKey := CScript.OP_ZEROCOINMINT :: pubCoin

def createTxOuts (nStakeSplitThreshold : Nat) (nTotal : Int) :
    StakeInput → List CTxOut
  | agr _ scriptPubKey _ =>
      { nValue := 0, scriptPubKey } ::
        if nStakeSplitThreshold * COIN < nTotal.tdiv 2 then
          [{ nValue := 0, scriptPubKey }]
        else []
  | zagr denom pubCoin =>
      [mintOut denom (pubCoin 0), mintOut .ZQ_ONE (pubCoin 1),
        mintOut .ZQ_ONE (pubCoin 2), mintOut .ZQ_ONE (pubCoin 3)]

/-- The output amounts that `CreateCoinStake` sets. -/
def setAmounts (nCredit : Int) (vout : List CTxOut) : StakeInput → List CTxOut
  | agr _ _ _ =>
      if vout.length = 3 then
        let nFirst := (nCredit.tdiv 2).tdiv CENT * CENT
        (vout.modify 1 fun out => { out with nValue := nFirst }).modify 2
          fun out => { out with nValue := nCredit - nFirst }
      else vout.modify 1 fun out => { out with nValue := nCredit }
  | zagr _ _ => vout

end StakeInput

namespace Node

variable (node : Node)

/-- The outputs of `CreateCoinStake` before the payment. -/
def stakeOuts (input : StakeInput) : List CTxOut :=
  -- the reward is that of a proof-of-work block
  let nCredit := input.getValue + getBlockValueOfHeight params node.nHeight
  input.setAmounts nCredit
    (emptyOut :: input.createTxOuts node.nStakeSplitThreshold nCredit)

/-- The outputs of `CreateCoinStake`. -/
def createCoinStake (input : StakeInput) : List CTxOut :=
  node.fillBlockPayee params (node.stakeOuts params input) true

/-- The outputs of the coinbase that `CreateNewBlock` makes for a proof-of-work
block. -/
def createCoinBase (t : CoinbaseTemplate) : List CTxOut :=
  let vout := node.fillBlockPayee params
    [{ nValue := -1, scriptPubKey := t.scriptPubKeyIn }] false
  if 1 < vout.length then vout
  else vout.modify 0 fun out =>
    { out with
      nValue := int64 (t.nFees + getBlockValue params node.nHeight false) }

end Node

/-- The blocks that the node completes, by the transaction that pays. -/
inductive Template
  | work (t : CoinbaseTemplate)
  | stake (input : StakeInput)

namespace Template

def fProofOfStake : Template → Bool
  | work _ => false
  | stake _ => true

def nFees : Template → Int
  | work t => t.nFees
  | stake _ => 0

/-- The value that the transaction spends. -/
def valueIn : Template → Int
  | work _ => 0
  | stake input => input.getValue

end Template

namespace Node

variable (node : Node)

/-- The outputs of the transaction that pays. -/
def completed : Template → List CTxOut
  | .work t => node.createCoinBase params t
  | .stake input => node.createCoinStake params input

/-- What the block mints. -/
def minted (t : Template) : Int :=
  ((node.completed params t).map CTxOut.nValue).sum - t.valueIn

/-- The node accepts the payee and the value of the block it completed. -/
structure Accepted (t : Template) : Prop where
  payee : node.isBlockPayeeValid params (node.completed params t)
    node.nHeight = true
  value : isBlockValueValid params node.env node.hashTip
    (expectedMint params node.nHeight t.fProofOfStake t.nFees)
    (int64 (node.minted params t)) = true

/-! ## When it accepts them -/

/-- The payment of the budget. -/
def budgetPayment : Int := budgetAmount node.env node.nHeight

/-- The masternode that is paid. -/
def payee : Option CScript :=
  node.payments.payee node.winningNode node.nHeight

/-- The outputs next to the payment of a budget. -/
def ownOuts : Template → List CTxOut
  | .work t =>
      [{ nValue := getBlockValueOfHeight params node.nTip
         scriptPubKey := t.scriptPubKeyIn }]
  | .stake input => node.stakeOuts params input

def paymentOut (payment : CTxBudgetPayment) : CTxOut :=
  { CTxOut.null with
    nValue := payment.nAmount, scriptPubKey := payment.payee }

end Node

section Lemmas

variable {params} {node : Node}

/-! ### The completed transaction -/

theorem Node.nHeight_pos : 1 ≤ node.nHeight := by
  have := node.nTip_nonneg
  unfold Node.nHeight
  omega

theorem getBlockValue_stake :
    getBlockValue params node.nHeight true = 10 * COIN := by
  have := node.nHeight_pos
  unfold getBlockValue
  rw [if_neg (by omega), if_pos rfl]

theorem getBlockValueOfHeight_next :
    getBlockValueOfHeight params node.nHeight =
      if node.nHeight ≤ params.nLastPOWBlock then 50 * COIN else 0 := by
  have := node.nHeight_pos
  unfold getBlockValueOfHeight getBlockValue
  rw [if_neg (by omega), if_neg Bool.false_ne_true]
  by_cases h : node.nHeight ≤ params.nLastPOWBlock
  · rw [if_pos ⟨by omega, h⟩, if_pos h]
  · rw [if_neg (by omega), if_neg h]

theorem pays_of_isBudgetBlock (h : node.isBudgetBlock = true) :
    ∃ b payment, node.budget.pays node.nHeight = some (b, payment) := by
  unfold Node.isBudgetBlock at h
  rw [Bool.and_eq_true] at h
  exact (CBudgetManager.isBudgetPaymentBlock_pays h.2).2

theorem completed_of_budget {b : CFinalizedBudget}
    {payment : CTxBudgetPayment} (hblock : node.isBudgetBlock = true)
    (hpays : node.budget.pays node.nHeight = some (b, payment))
    (t : Template) :
    node.completed params t =
      node.ownOuts params t ++ [Node.paymentOut payment] := by
  have hpays' : node.budget.pays (node.nTip + 1) = some (b, payment) := hpays
  cases t with
  | work t =>
      show node.createCoinBase params t = _
      unfold Node.createCoinBase Node.fillBlockPayee
        CBudgetManager.fillBlockPayee
      simp only [hblock, if_true, hpays', Bool.false_eq_true, if_false]
      rfl
  | stake input =>
      show node.createCoinStake params input = _
      unfold Node.createCoinStake Node.fillBlockPayee
        CBudgetManager.fillBlockPayee
      simp only [hblock, if_true, hpays']
      rfl

/-- A stake of coins gives the stake and the reward to one or two outputs of
the staker. -/
theorem stakeOuts_agr (params : CChainParams) (node : Node) (nValue : Int)
    (scriptPubKey : CScript) (hkey : scriptPubKey.isZerocoinMint = false) :
    ∃ vout, node.stakeOuts params (.agr nValue scriptPubKey hkey) =
        emptyOut :: vout ∧
      (vout.map CTxOut.nValue).sum =
        nValue + getBlockValueOfHeight params node.nHeight ∧
      ((∃ x, vout = [{ nValue := x, scriptPubKey }]) ∨
        ∃ x y, vout = [{ nValue := x, scriptPubKey },
          { nValue := y, scriptPubKey }]) := by
  unfold Node.stakeOuts
  simp only [StakeInput.getValue]
  generalize nValue + getBlockValueOfHeight params node.nHeight = nCredit
  unfold StakeInput.createTxOuts
  by_cases hsplit : node.nStakeSplitThreshold * COIN < nCredit.tdiv 2
  · refine ⟨[{ nValue := (nCredit.tdiv 2).tdiv CENT * CENT, scriptPubKey },
      { nValue := nCredit - (nCredit.tdiv 2).tdiv CENT * CENT,
        scriptPubKey }], ?_, ?_, Or.inr ⟨_, _, rfl⟩⟩
    · simp only [if_pos hsplit]
      rfl
    · simp
  · refine ⟨[{ nValue := nCredit, scriptPubKey }], ?_, ?_, Or.inl ⟨_, rfl⟩⟩
    · simp only [if_neg hsplit]
      rfl
    · simp

/-- Something is taken from the output before the last one. -/
theorem sum_modify_append (x : CTxOut) {outs : List CTxOut}
    {f : CTxOut → CTxOut} {nTaken : Int}
    (hf : ∀ out, (f out).nValue = out.nValue - nTaken) (hne : outs ≠ []) :
    (((outs ++ [x]).modify (outs.length - 1) f).map CTxOut.nValue).sum =
      (outs.map CTxOut.nValue).sum + x.nValue - nTaken := by
  induction outs with
  | nil => exact absurd rfl hne
  | cons out rest ih =>
      cases rest with
      | nil =>
          simp [hf]
          omega
      | cons out' rest =>
          have hrest := ih (by simp)
          simp only [List.length_cons, Nat.add_sub_cancel, List.cons_append,
            List.modify_succ_cons, List.map_cons, List.sum_cons] at hrest ⊢
          omega

/-- A masternode is paid out of the reward of the staker, if that is not a
mint. -/
theorem sum_fillBlockPayee_stake (out : CTxOut) (rest : List CTxOut) :
    ((node.payments.fillBlockPayee params node.winningNode node.nTip
      (emptyOut :: out :: rest) true).map CTxOut.nValue).sum =
      ((out :: rest).map CTxOut.nValue).sum + node.payee.elim 0 fun _ =>
        if out.isZerocoinMint then
          getMasternodePayment params node.nHeight
            (getBlockValueOfHeight params node.nHeight)
        else 0 := by
  unfold CMasternodePayments.fillBlockPayee Node.payee Node.nHeight
  cases hpayee : node.payments.payee node.winningNode (node.nTip + 1) with
  | none => simp [hpayee, emptyOut]
  | some payee =>
      simp only [hpayee, if_true, Option.elim_some]
      cases hmint : out.isZerocoinMint with
      | true =>
          rw [if_neg (by simp [hmint])]
          simp [emptyOut]
          omega
      | false =>
          rw [if_pos (by simp [hmint])]
          rw [sum_modify_append _ (fun _ => rfl) (by simp)]
          simp [emptyOut]

/-- What a coinstake creates over the stake. -/
theorem sum_createCoinStake (input : StakeInput) :
    ((node.createCoinStake params input).map CTxOut.nValue).sum -
        input.getValue =
      match input with
      | .agr _ _ _ => getBlockValueOfHeight params node.nHeight +
          if node.isBudgetBlock then node.budgetPayment else 0
      | .zagr _ _ => 3 * COIN +
          if node.isBudgetBlock then node.budgetPayment
          else node.payee.elim 0 fun _ =>
            getMasternodePayment params node.nHeight
              (getBlockValueOfHeight params node.nHeight) := by
  have hbudget : node.isBudgetBlock = true →
      ((node.createCoinStake params input).map CTxOut.nValue).sum =
        ((node.stakeOuts params input).map CTxOut.nValue).sum +
          node.budgetPayment := by
    intro hblock
    rcases pays_of_isBudgetBlock hblock with ⟨b, payment, hpays⟩
    have hcompleted : node.completed params (.stake input) = _ :=
      completed_of_budget hblock hpays (.stake input)
    have hamount : node.budgetPayment = payment.nAmount := by
      unfold Node.budgetPayment budgetAmount
      simp only [Node.env, hpays, Option.elim_some]
    unfold Node.completed Node.ownOuts at hcompleted
    simp only at hcompleted
    rw [hcompleted, hamount]
    simp [Node.paymentOut]
  have hmasternode : node.isBudgetBlock = false →
      node.createCoinStake params input =
        node.payments.fillBlockPayee params node.winningNode node.nTip
          (node.stakeOuts params input) true := by
    intro hblock
    unfold Node.createCoinStake Node.fillBlockPayee
    rw [hblock, if_neg Bool.false_ne_true]
  cases input with
  | agr nValue scriptPubKey hkey =>
      rcases stakeOuts_agr params node nValue scriptPubKey hkey with
        ⟨vout, houts, hsum, hshape⟩
      cases hblock : node.isBudgetBlock with
      | true =>
          rw [hbudget hblock, houts, List.map_cons, List.sum_cons, hsum]
          simp [emptyOut, StakeInput.getValue]
          omega
      | false =>
          have hhead : ∃ out rest, vout = out :: rest ∧
              out.isZerocoinMint = false := by
            rcases hshape with ⟨x, rfl⟩ | ⟨x, y, rfl⟩
            · exact ⟨_, _, rfl, hkey⟩
            · exact ⟨_, _, rfl, hkey⟩
          rcases hhead with ⟨out, rest, rfl, hmint⟩
          rw [hmasternode hblock, houts, sum_fillBlockPayee_stake, hsum, hmint]
          cases node.payee with
          | none => simp [StakeInput.getValue]
          | some payee => simp [StakeInput.getValue]
  | zagr denom pubCoin =>
      have houts : node.stakeOuts params (.zagr denom pubCoin) =
          emptyOut :: StakeInput.mintOut denom (pubCoin 0) ::
            [StakeInput.mintOut .ZQ_ONE (pubCoin 1),
              StakeInput.mintOut .ZQ_ONE (pubCoin 2),
              StakeInput.mintOut .ZQ_ONE (pubCoin 3)] := rfl
      have hmint : (StakeInput.mintOut denom (pubCoin 0)).isZerocoinMint =
          true := by
        simp [StakeInput.mintOut, CTxOut.isZerocoinMint,
          CScript.isZerocoinMint, CScript.startsWithOpcode]
      cases hblock : node.isBudgetBlock with
      | true =>
          rw [hbudget hblock, houts]
          simp [emptyOut, StakeInput.mintOut, StakeInput.getValue,
            CoinDenomination.toInt]
          omega
      | false =>
          rw [hmasternode hblock, houts, sum_fillBlockPayee_stake, hmint]
          simp [StakeInput.mintOut, StakeInput.getValue,
            CoinDenomination.toInt]
          omega

end Lemmas

/-! ### The completed block in `ConnectBlock` -/

section Mint

variable {params} {V : Type} {store : CoinsStore V}
variable {denominationOf : CTransaction → CTxIn → Option CoinDenomination}
variable {fValid : CTransaction → Bool} {v v₁ : V} {env : ValueEnv}
variable {nMoneySupplyPrev nHeight : Int} {block : CBlock} {r : Connected V}
variable {coinbase coinstake : CTransaction} {vtx : List CTransaction}

theorem nMint_work {node : Node} {t : CoinbaseTemplate}
    (h : connectBlock params store denominationOf fValid env v
      nMoneySupplyPrev nHeight block = some r)
    (hvtx : block.vtx = coinbase :: vtx)
    (hcoinbase : coinbase.isCoinBase = true)
    (hordinary : ∀ tx ∈ vtx, Ordinary tx)
    (hvout : coinbase.vout = node.createCoinBase params t) :
    r.nMint = int64 (node.minted params (.work t)) := by
  rw [nMint_coinbase h hvtx hcoinbase hordinary]
  unfold exactOut
  rw [hvout]
  congr 1
  exact (Int.sub_zero _).symm

theorem nMint_stake {node : Node} {input : StakeInput} {txundo : CTxUndo}
    (h : connectBlock params store denominationOf fValid env v
      nMoneySupplyPrev nHeight block = some r)
    (hvtx : block.vtx = coinbase :: coinstake :: vtx)
    (hcoinbase : coinbase.isCoinBase = true)
    (hempty : coinbase.vout = [emptyOut])
    (hupdate : updateCoins store v coinbase (Int32.ofInt nHeight) =
      some (v₁, txundo))
    (hcoinstake : coinstake.isCoinStake = true)
    (hordinary : ∀ tx ∈ vtx, Ordinary tx)
    (hvout : coinstake.vout = node.createCoinStake params input)
    (hvin : exactIn store denominationOf v₁ coinstake = input.getValue) :
    r.nMint = int64 (node.minted params (.stake input)) := by
  have hnothing : exactOut coinbase = 0 := by
    unfold exactOut
    rw [hempty]
    rfl
  rw [nMint_coinstake h hvtx hcoinbase hnothing hupdate hcoinstake hordinary,
    hvin]
  unfold exactOut
  rw [hvout]
  rfl

end Mint

/-! ### Blocks of its own that the node rejects -/

/-- A synced node before height 5000. -/
def plainNode : Node where
  hashTip := 1
  nTip := 4999
  nTip_nonneg := by decide
  fSynced := true
  fSuperblocks := false
  fBudgetEnforcement := true
  fPaymentEnforcement := true
  budget := {}
  nCountEnabled := 5
  payments := {}
  keyedByHeight := fun _ _ h => by cases h
  winningNode := none
  nStakeSplitThreshold := 2000

/-- A stake of a hundred coins. -/
def smallStake : StakeInput :=
  .agr (100 * COIN) [CScript.OP_CHECKSIG] rfl

/-- Six masternodes voted for a payee at height 5000. -/
def sixVotes : CMasternodePayments where
  mapMasternodeBlocks := KeyedMap.empty.insert 5000
    { nBlockHeight := 5000, vecPayments := [⟨[CScript.OP_HASH160], 6⟩] }

theorem sixVotes_keyedByHeight : sixVotes.KeyedByHeight := by
  intro nBlockHeight payees hfind
  unfold sixVotes at hfind
  by_cases h : nBlockHeight = 5000
  · rw [h, KeyedMap.find?_insert_self] at hfind
    cases hfind
    exact h.symm
  · rw [KeyedMap.find?_insert_ne _ _ h] at hfind
    cases hfind

/-- Its five masternodes decided on a budget and on a payee. -/
def smallNetwork : Node :=
  { plainNode with
    fSuperblocks := true
    budget := { mapFinalizedBudgets := [smallBudget] }
    payments := sixVotes
    keyedByHeight := sixVotes_keyedByHeight }

end Agrarian.Validation
