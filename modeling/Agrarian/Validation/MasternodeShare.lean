import Agrarian.Validation.BlockPayee

/-!
# The masternode's share of the reward

What `CMasternodePayments::FillBlockPayee` gives a masternode, next to the reward
that `GetBlockValue` has for a block of the kind.  The payment is a quarter of the
value of a proof-of-work block whatever the kind of the block: more than a
proof-of-stake block may create, and nothing beyond the last proof-of-work block.
-/

namespace Agrarian.Validation

open Agrarian.Masternode

variable (params : CChainParams)

namespace Node

variable (node : Node)

/-- The payment to a masternode in the next block. -/
def masternodePayment : Int :=
  getMasternodePayment params node.nHeight (getBlockValueOfHeight params node.nHeight)

/-- What the next block may create. -/
def reward (t : Template) : Int := getBlockValue params node.nHeight t.fProofOfStake

/-- The outputs before `FillBlockPayee`. -/
def unfilled : Template → List CTxOut
  | .work t => [{ nValue := -1, scriptPubKey := t.scriptPubKeyIn }]
  | .stake input => node.stakeOuts params input

/-- The outputs that `FillBlockPayee` of the masternode payments leaves. -/
def filled (t : Template) : List CTxOut :=
  node.payments.fillBlockPayee params node.winningNode node.nTip
    (node.unfilled params t) t.fProofOfStake

/-- The payment is positive and at most the reward, and the outputs are amounts that
make up the reward and the stake.  The value of a coinbase without a payment is set
later. -/
structure PaysFromReward (t : Template) : Prop where
  payment : ∀ payee, node.payee = some payee →
    ∃ out, (node.filled params t).getLast? = some out ∧ out.scriptPubKey = payee ∧
      0 < out.nValue ∧ out.nValue ≤ node.reward params t
  total : node.payee ≠ none ∨ t.fProofOfStake = true →
    ((node.filled params t).map CTxOut.nValue).sum = t.valueIn + node.reward params t
  nonneg : node.payee ≠ none ∨ t.fProofOfStake = true →
    ∀ out ∈ node.filled params t, 0 ≤ out.nValue

end Node

section Lemmas

variable {params} {node : Node}

/-! ## The payment -/

/-- A quarter of 50 coins, or nothing. -/
theorem masternodePayment_eq (params : CChainParams) (node : Node) :
    node.masternodePayment params =
      if node.nHeight ≤ params.nLastPOWBlock ∧ ¬ (params.fTestNet = true ∧ node.nHeight < 200)
      then 1250000000 else 0 := by
  unfold Node.masternodePayment getMasternodePayment
  rw [getBlockValueOfHeight_next]
  by_cases htest : params.fTestNet = true ∧ node.nHeight < 200
  · rw [if_pos htest, if_neg fun h => h.2 htest]
  · rw [if_neg htest]
    by_cases hwork : node.nHeight ≤ params.nLastPOWBlock
    · rw [if_pos hwork, if_pos ⟨hwork, htest⟩]
      rfl
    · rw [if_neg hwork, if_neg fun h => hwork h.1]
      rfl

theorem masternodePayment_pos_iff :
    0 < node.masternodePayment params ↔
      node.nHeight ≤ params.nLastPOWBlock ∧
        ¬ (params.fTestNet = true ∧ node.nHeight < 200) := by
  rw [masternodePayment_eq]
  split
  · next h => exact ⟨fun _ => h, fun _ => by decide⟩
  · next h => exact ⟨fun hpos => absurd hpos (by decide), fun h' => absurd h' h⟩

theorem filled_of_none (t : Template) (h : node.payee = none) :
    node.filled params t = node.unfilled params t := by
  have hnone : node.payments.payee node.winningNode (node.nTip + 1) = none := h
  unfold Node.filled CMasternodePayments.fillBlockPayee
  simp only [hnone]

/-- The two outputs of a coinbase with a payment. -/
theorem filled_work (t : CoinbaseTemplate) {payee : CScript} (h : node.payee = some payee) :
    node.filled params (.work t) =
      [{ nValue := getBlockValueOfHeight params node.nHeight - node.masternodePayment params
         scriptPubKey := t.scriptPubKeyIn },
        { CTxOut.null with
          nValue := node.masternodePayment params, scriptPubKey := payee }] := by
  have hsome : node.payments.payee node.winningNode (node.nTip + 1) = some payee := h
  unfold Node.filled CMasternodePayments.fillBlockPayee
  simp only [hsome]
  rfl

/-- The payment is the last output. -/
theorem getLast?_filled (t : Template) {payee : CScript} (h : node.payee = some payee) :
    (node.filled params t).getLast? =
      some { CTxOut.null with
        nValue := node.masternodePayment params, scriptPubKey := payee } := by
  cases t with
  | work t =>
      rw [filled_work t h]
      rfl
  | stake input =>
      have hsome : node.payments.payee node.winningNode (node.nTip + 1) = some payee := h
      unfold Node.filled CMasternodePayments.fillBlockPayee
      simp only [hsome, Template.fProofOfStake, if_true]
      split
      · next htake =>
          -- what is changed stands before the payment
          rw [List.getLast?_eq_getElem?, List.length_modify, List.length_append,
            List.length_singleton, Nat.add_sub_cancel, List.getElem?_modify_ne _ _ (by omega),
            List.getElem?_concat_length]
          rfl
      · rw [List.getLast?_concat]
        rfl

/-! ## Stakes -/

/-- The node when no block is for the budget. -/
def Node.withoutBudgets (node : Node) : Node := { node with fSuperblocks := false }

theorem createCoinStake_withoutBudgets (params : CChainParams) (node : Node)
    (input : StakeInput) :
    node.withoutBudgets.createCoinStake params input =
      node.filled params (.stake input) := by
  unfold Node.createCoinStake Node.fillBlockPayee
  rw [show node.withoutBudgets.isBudgetBlock = false from rfl, if_neg Bool.false_ne_true]
  rfl

/-- The payment is taken from the last output of the staker. -/
theorem filled_stake {input : StakeInput} {payee : CScript} (h : node.payee = some payee)
    {first second : CTxOut} {rest : List CTxOut}
    (houts : node.stakeOuts params input = first :: second :: rest)
    (hmint : second.isZerocoinMint = false) :
    node.filled params (.stake input) =
      ((first :: second :: rest) ++ [{ CTxOut.null with
        nValue := node.masternodePayment params, scriptPubKey := payee }]).modify
        (rest.length + 1) fun out =>
          { out with nValue := out.nValue - node.masternodePayment params } := by
  have hsome : node.payments.payee node.winningNode (node.nTip + 1) = some payee := h
  have hunfilled : node.unfilled params (.stake input) = first :: second :: rest := houts
  unfold Node.filled CMasternodePayments.fillBlockPayee
  rw [hunfilled]
  simp only [hsome, Template.fProofOfStake, if_true]
  rw [if_pos ⟨Nat.succ_pos _, hmint⟩]
  rfl

/-- The total of a coinstake: only the payment next to a mint comes on top. -/
theorem sum_filled_stake (params : CChainParams) (node : Node) (input : StakeInput) :
    ((node.filled params (.stake input)).map CTxOut.nValue).sum - input.getValue =
      match input with
      | .agr _ _ _ => getBlockValueOfHeight params node.nHeight
      | .zagr _ _ => 3 * COIN + node.payee.elim 0 fun _ => node.masternodePayment params := by
  rw [← createCoinStake_withoutBudgets, sum_createCoinStake]
  rw [show node.withoutBudgets.isBudgetBlock = false from rfl]
  cases input with
  | agr nValue scriptPubKey hkey => exact Int.add_zero _
  | zagr denom pubCoin => rfl

/-- The amounts of a stake of coins, which may be split. -/
theorem stakeOuts_amounts (params : CChainParams) (node : Node) {nValue nCredit : Int}
    (hcredit : nCredit = nValue + getBlockValueOfHeight params node.nHeight)
    (scriptPubKey : CScript) (hkey : scriptPubKey.isZerocoinMint = false) :
    node.stakeOuts params (.agr nValue scriptPubKey hkey) =
        [emptyOut, { nValue := nCredit, scriptPubKey }] ∨
      node.stakeOuts params (.agr nValue scriptPubKey hkey) =
        [emptyOut, { nValue := (nCredit.tdiv 2).tdiv CENT * CENT, scriptPubKey },
          { nValue := nCredit - (nCredit.tdiv 2).tdiv CENT * CENT, scriptPubKey }] := by
  subst hcredit
  unfold Node.stakeOuts StakeInput.createTxOuts
  by_cases hsplit : node.nStakeSplitThreshold * COIN <
      ((StakeInput.agr nValue scriptPubKey hkey).getValue +
        getBlockValueOfHeight params node.nHeight).tdiv 2
  · right
    simp only [if_pos hsplit]
    rfl
  · left
    simp only [if_neg hsplit]
    rfl

theorem four_payments_le (params : CChainParams) (node : Node) :
    4 * node.masternodePayment params ≤ getBlockValueOfHeight params node.nHeight ∧
      0 ≤ node.masternodePayment params := by
  rw [masternodePayment_eq, getBlockValueOfHeight_next]
  split
  · next h =>
      rw [if_pos h.1]
      decide
  · split
    · decide
    · decide

/-- **A stake of coins** keeps its value and the reward it was given, in amounts that
are not negative, whether or not it is split over two outputs. -/
theorem fill_stake_preserves (params : CChainParams) (node : Node) {nValue : Int}
    (hvalue : 0 ≤ nValue) (scriptPubKey : CScript)
    (hkey : scriptPubKey.isZerocoinMint = false) :
    ((node.filled params (.stake (.agr nValue scriptPubKey hkey))).map CTxOut.nValue).sum =
        nValue + getBlockValueOfHeight params node.nHeight ∧
      ∀ out ∈ node.filled params (.stake (.agr nValue scriptPubKey hkey)),
        0 ≤ out.nValue := by
  constructor
  · have hsum := sum_filled_stake params node (.agr nValue scriptPubKey hkey)
    simp only [StakeInput.getValue] at hsum
    omega
  · obtain ⟨hfour, hpay⟩ := four_payments_le params node
    obtain ⟨nCredit, hcredit⟩ : ∃ nCredit, nCredit =
      nValue + getBlockValueOfHeight params node.nHeight := ⟨_, rfl⟩
    have hhalf : 0 ≤ (nCredit.tdiv 2).tdiv CENT * CENT ∧
        2 * ((nCredit.tdiv 2).tdiv CENT * CENT) ≤ nCredit := by
      have hnonneg : 0 ≤ nCredit := by omega
      rw [Int.tdiv_eq_ediv_of_nonneg hnonneg, Int.tdiv_eq_ediv_of_nonneg (by omega)]
      unfold CENT
      omega
    have houts := stakeOuts_amounts params node hcredit scriptPubKey hkey
    cases hpayee : node.payee with
    | none =>
        rw [filled_of_none _ hpayee]
        show ∀ out ∈ node.stakeOuts params (.agr nValue scriptPubKey hkey), 0 ≤ out.nValue
        rcases houts with houts | houts
        · rw [houts]
          simp [emptyOut]
          omega
        · rw [houts]
          simp [emptyOut]
          omega
    | some payee =>
        rcases houts with houts | houts
        · rw [filled_stake hpayee houts hkey]
          simp [emptyOut, List.modify_succ_cons]
          omega
        · rw [filled_stake hpayee houts hkey]
          simp [emptyOut, List.modify_succ_cons]
          omega

/-! ## When the payment comes out of the reward -/

/-- A proof-of-stake block has a reward of ten coins, and its coinstake another total. -/
theorem sum_filled_stake_ne (params : CChainParams) (node : Node) (input : StakeInput) :
    ((node.filled params (.stake input)).map CTxOut.nValue).sum ≠
      input.getValue + node.reward params (.stake input) := by
  intro htotal
  have hsum := sum_filled_stake params node input
  have hreward : node.reward params (.stake input) = 10 * COIN := getBlockValue_stake
  rw [htotal, hreward, add_sub_cancel_left] at hsum
  cases input with
  | agr nValue scriptPubKey hkey =>
      simp only [getBlockValueOfHeight_next, COIN] at hsum
      split at hsum
      · omega
      · omega
  | zagr denom pubCoin =>
      simp only [masternodePayment_eq, COIN] at hsum
      cases hpayee : node.payee with
      | none =>
          simp only [hpayee, Option.elim_none] at hsum
          omega
      | some payee =>
          simp only [hpayee, Option.elim_some] at hsum
          split at hsum
          · omega
          · omega

/-- **The payment comes out of the block's reward** in the proof-of-work blocks that
have one, from height 200 on in the test network, and in no proof-of-stake block. -/
theorem paysFromReward_iff (params : CChainParams) (node : Node) (t : Template) :
    node.PaysFromReward params t ↔
      t.fProofOfStake = false ∧
        (node.payee = none ∨
          node.nHeight ≤ params.nLastPOWBlock ∧
            ¬ (params.fTestNet = true ∧ node.nHeight < 200)) := by
  cases t with
  | stake input =>
      constructor
      · intro h
        exact absurd (h.total (Or.inr rfl)) (sum_filled_stake_ne params node input)
      · exact fun h => absurd h.1 Bool.noConfusion
  | work t =>
      rw [← masternodePayment_pos_iff]
      have hreward : node.reward params (.work t) =
          getBlockValueOfHeight params node.nHeight := rfl
      obtain ⟨hfour, hpay⟩ := four_payments_le params node
      cases hpayee : node.payee with
      | none =>
          constructor
          · exact fun _ => ⟨rfl, Or.inl rfl⟩
          · intro _
            refine ⟨fun payee h => ?_, fun h => ?_, fun h => ?_⟩
            · rw [hpayee] at h
              cases h
            · exact absurd h (by simp [hpayee, Template.fProofOfStake])
            · exact absurd h (by simp [hpayee, Template.fProofOfStake])
      | some payee =>
          constructor
          · intro h
            obtain ⟨out, hlast, -, hpos, -⟩ := h.payment payee hpayee
            rw [getLast?_filled _ hpayee] at hlast
            obtain rfl := Option.some.inj hlast
            exact ⟨rfl, Or.inr hpos⟩
          · rintro ⟨-, hnone | hpos⟩
            · cases hnone
            · refine ⟨fun payee' h => ?_, fun _ => ?_, fun _ => ?_⟩
              · refine ⟨_, getLast?_filled _ hpayee, ?_, hpos, ?_⟩
                · exact Option.some.inj (hpayee.symm.trans h)
                · show node.masternodePayment params ≤ _
                  omega
              · rw [filled_work t hpayee, hreward]
                simp [Template.valueIn]
              · rw [filled_work t hpayee]
                simp
                omega

section Example

/-- A synced node before height 5000 with a masternode to pay. -/
def payingNode : Node := { plainNode with winningNode := some [CScript.OP_HASH160] }

theorem fill_stake_preserves_hundred :
    ((payingNode.filled mainParams (.stake (.agr (100 * COIN) [] rfl))).map CTxOut.nValue).sum =
        100 * COIN + getBlockValueOfHeight mainParams payingNode.nHeight ∧
      ∀ out ∈ payingNode.filled mainParams (.stake (.agr (100 * COIN) [] rfl)),
        0 ≤ out.nValue :=
  fill_stake_preserves mainParams payingNode (by decide) [] rfl

/-- In its proof-of-stake block the masternode gets more than the reward of ten coins,
and the coinstake of a hundred coins makes up a hundred and fifty. -/
theorem payment_above_reward :
    payingNode.reward mainParams (.stake smallStake) = 10 * COIN ∧
      payingNode.masternodePayment mainParams = 1250000000 ∧
      ((payingNode.filled mainParams (.stake smallStake)).map CTxOut.nValue).sum =
        150 * COIN ∧
      ¬ payingNode.PaysFromReward mainParams (.stake smallStake) := by
  refine ⟨by decide, by decide, by decide, fun h => ?_⟩
  exact absurd (h.total (Or.inr rfl)) (by decide)

end Example

end Lemmas

end Agrarian.Validation
