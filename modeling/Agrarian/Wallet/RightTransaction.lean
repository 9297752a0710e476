import Agrarian.Wallet.CreateTransaction

/-!
# Right transactions

What `CWallet::CreateTransaction` is for: the inputs pay for the outputs and the fee, each
recipient gets the amount without a share of the fee, change is added to an output only if coin
control says so, and no input is used twice.  The fee is taken from the change; where it is
subtracted from the recipients as well, it is paid twice.
-/

namespace Agrarian.Wallet

open Agrarian.Lib Agrarian.Validation

/-- The transaction is what it should be. -/
structure RightTransaction (payment : Payment) (tx : Created) : Prop where
  /-- What the inputs are worth more than the outputs is the fee. -/
  balanced : (tx.setCoins.map OutPtr.nValue).sum - (tx.vout.map CTxOut.nValue).sum = tx.nFeeRet
  /-- Each recipient gets the amount without a share of the fee. -/
  paid : ∃ nShare : Nat → Int, (∀ i, 0 ≤ nShare i) ∧
    (∀ i : Nat, (i : Int) ∉ payment.setSubtractFeeFromOutputs → nShare i = 0) ∧
    (payment.fSubtractFeeFromAmount = true →
      ((List.range payment.vecSend.length).map nShare).sum = tx.nFeeRet) ∧
    tx.payouts.length = payment.vecSend.length ∧
    ∀ i s outs, payment.vecSend[i]? = some s → tx.payouts[i]? = some outs →
      Receives s (nShare i) outs
  /-- What is added to an output is the change for the destination of coin control. -/
  directed : ∀ index nChange, tx.change = .combined index nChange →
    ∃ out, tx.payouts.flatten[index]? = some out ∧ payment.destChange = some out.scriptPubKey
  distinct : tx.vin.Nodup

section Draft

variable {wallet : PayingWallet} {payment : Payment} {nValue : Int} {pass : Pass}
  {payouts : List (List CTxOut)} {r : Selected}

/-- What a pass has to meet, with the coins that are selected.  If the recipients pay the fee,
it has been taken from the change before: the two agree only if there is no change, or no fee. -/
structure RightDraft (wallet : PayingWallet) (payment : Payment) (nValue : Int) (pass : Pass)
    (payouts : List (List CTxOut)) (r : Selected) : Prop where
  splits : payment.Splits
  shared : payment.fSubtractFeeFromAmount = true →
    if payment.coin_type = .ONLY_DENOMINATED then
      r.nValueRet = nValue ∧ payment.shares pass.nFeeRet = 0
    else
      payment.shares pass.nFeeRet = pass.nFeeRet ∧
        (r.nValueRet = nValue ∨ pass.nFeeRet = 0 ∧
          changeOf wallet payment pass.nPass (r.nValueRet - nValue - pass.nFeeRet)
            payouts.flatten ≠ .none)

/-- No output of the wallet is spent twice. -/
theorem Selected.Funds.nodup_vin {nTargetValue : Int}
    (h : r.Funds nTargetValue wallet.coins.vCoins) :
    (r.setCoinsRet.map fun out => (out.1.hash, out.2)).Nodup := by
  refine List.Nodup.map_on (fun out hout out' hout' hsame => ?_) h.distinct
  obtain ⟨output, houtput, rfl, -⟩ := h.spendable out hout
  obtain ⟨output', houtput', rfl, -⟩ := h.spendable out' hout'
  rw [List.inj_on_of_nodup_map wallet.keyed houtput houtput' hsame]

theorem draft_setCoins :
    (draft wallet payment nValue pass payouts r).setCoins = r.setCoinsRet := by
  unfold draft
  dsimp only
  split <;> rfl

theorem draft_payouts : (draft wallet payment nValue pass payouts r).payouts = payouts := by
  unfold draft
  dsimp only
  split <;> rfl

theorem draft_change :
    (draft wallet payment nValue pass payouts r).change =
      if payment.coin_type = .ONLY_DENOMINATED then .none
      else changeOf wallet payment pass.nPass (r.nValueRet - nValue - pass.nFeeRet)
        payouts.flatten := by
  unfold draft
  dsimp only
  split <;> rfl

theorem draft_nFeeRet_denominated (h : payment.coin_type = .ONLY_DENOMINATED) :
    (draft wallet payment nValue pass payouts r).nFeeRet = r.nValueRet - nValue := by
  unfold draft
  dsimp only
  rw [if_pos h]
  dsimp only
  omega

/-- Dust is added to the fee. -/
theorem draft_nFeeRet (h : payment.coin_type ≠ .ONLY_DENOMINATED) :
    (draft wallet payment nValue pass payouts r).nFeeRet = pass.nFeeRet +
      if 0 < r.nValueRet - nValue - pass.nFeeRet ∧
          changeOf wallet payment pass.nPass (r.nValueRet - nValue - pass.nFeeRet)
            payouts.flatten = .none then
        r.nValueRet - nValue - pass.nFeeRet
      else 0 := by
  unfold draft
  dsimp only
  rw [if_neg h]
  dsimp only
  congr 1
  by_cases hpos : 0 < r.nValueRet - nValue - pass.nFeeRet
  · rw [if_pos hpos]
    by_cases hnone : changeOf wallet payment pass.nPass (r.nValueRet - nValue - pass.nFeeRet)
        payouts.flatten = .none
    · rw [if_pos ⟨hpos, hnone⟩, hnone]
      exact Int.sub_zero _
    · rw [if_neg fun hboth => hnone hboth.2, changeOf_nValue hnone, Int.sub_self]
  · rw [if_neg hpos, if_neg fun hboth => hpos hboth.1]

/-- **The balance of a draft**: the shares of the recipients are paid on top of the fee, and
change that would be negative is not there. -/
theorem draft_balance {nTargetValue : Int} (hfunds : r.Funds nTargetValue wallet.coins.vCoins)
    (hsum : nValue = (payment.vecSend.map Prod.snd).sum) (hsplits : payment.Splits)
    (hpayees : payees wallet payment pass.nFeeRet 0 payment.vecSend = .ok payouts) :
    let tx := draft wallet payment nValue pass payouts r
    (tx.setCoins.map OutPtr.nValue).sum - (tx.vout.map CTxOut.nValue).sum =
      tx.nFeeRet + payment.shares pass.nFeeRet +
        if payment.coin_type = .ONLY_DENOMINATED then 0
        else min 0 (r.nValueRet - nValue - pass.nFeeRet) := by
  intro tx
  have hcoins : tx.setCoins = r.setCoinsRet := draft_setCoins
  have hpayouts : tx.payouts = payouts := draft_payouts
  have hpaid : (payouts.flatten.map CTxOut.nValue).sum =
      nValue - payment.shares pass.nFeeRet := by
    rw [payees_sum hsplits hpayees, hsum, Payment.shares, List.range_eq_range']
  have hvout : (tx.vout.map CTxOut.nValue).sum =
      nValue - payment.shares pass.nFeeRet + tx.change.nValue := by
    have hfits : tx.change.Fits payouts.flatten := by
      show (draft wallet payment nValue pass payouts r).change.Fits _
      rw [draft_change]
      split
      · trivial
      · exact changeOf_fits
    rw [Created.vout, hpayouts, Change.sum_apply hfits, hpaid]
  rw [hvout, hcoins, ← hfunds.exact]
  by_cases hdenominated : payment.coin_type = .ONLY_DENOMINATED
  · have hchange : tx.change = .none := draft_change.trans (if_pos hdenominated)
    have hfee : tx.nFeeRet = r.nValueRet - nValue := draft_nFeeRet_denominated hdenominated
    rw [hchange, hfee, if_pos hdenominated, Change.nValue]
    omega
  · have hchange : tx.change = changeOf wallet payment pass.nPass
        (r.nValueRet - nValue - pass.nFeeRet) payouts.flatten :=
      draft_change.trans (if_neg hdenominated)
    have hfee : tx.nFeeRet = pass.nFeeRet +
        if 0 < r.nValueRet - nValue - pass.nFeeRet ∧
            changeOf wallet payment pass.nPass (r.nValueRet - nValue - pass.nFeeRet)
              payouts.flatten = .none then
          r.nValueRet - nValue - pass.nFeeRet
        else 0 := draft_nFeeRet hdenominated
    rw [hchange, hfee, if_neg hdenominated]
    by_cases hnone : changeOf wallet payment pass.nPass
        (r.nValueRet - nValue - pass.nFeeRet) payouts.flatten = .none
    · rw [hnone, Change.nValue]
      by_cases hpos : 0 < r.nValueRet - nValue - pass.nFeeRet
      · rw [if_pos ⟨hpos, rfl⟩]
        omega
      · rw [if_neg fun hboth => hpos hboth.1]
        omega
    · have hpos : 0 < r.nValueRet - nValue - pass.nFeeRet := by
        by_contra hle
        exact hnone (changeOf_of_nonpos (not_lt.mp hle))
      rw [changeOf_nValue hnone, if_neg fun hboth => hnone hboth.2]
      omega

/-- The shares of a right transaction are those of the fee of the pass. -/
theorem sum_share_eq {nShare : Nat → Int} (hsplits : payment.Splits)
    (hpayees : payees wallet payment pass.nFeeRet 0 payment.vecSend = .ok payouts)
    (hreceives : ∀ i s outs, payment.vecSend[i]? = some s → payouts[i]? = some outs →
      Receives s (nShare i) outs) :
    ((List.range payment.vecSend.length).map nShare).sum = payment.shares pass.nFeeRet := by
  obtain ⟨hlength, hpaid⟩ := payees_spec hpayees
  refine congrArg List.sum (List.map_congr_left fun i hi => ?_)
  have hlt := List.mem_range.mp hi
  have hsend := List.getElem?_eq_getElem hlt
  have houts := List.getElem?_eq_getElem (hlength ▸ hlt : i < payouts.length)
  have hshare := (hreceives i _ _ hsend houts).exact
  have hpayee := (payee_receives hsplits (hpaid i _ _ hsend houts)).exact
  rw [Nat.zero_add] at hpayee
  dsimp only at hpayee
  omega

/-- A recipient gets nothing if the amount is split in no part. -/
theorem splits_of_receives {nShare : Nat → Int} (hsend : payment.vecSend ≠ [])
    (hpayees : payees wallet payment pass.nFeeRet 0 payment.vecSend = .ok payouts)
    (hreceives : ∀ i s outs, payment.vecSend[i]? = some s → payouts[i]? = some outs →
      Receives s (nShare i) outs) : payment.Splits := by
  intro n hsplit
  by_contra hn
  obtain ⟨hlength, hpaid⟩ := payees_spec hpayees
  have hlt : 0 < payment.vecSend.length := List.length_pos_of_ne_nil hsend
  have hfirst := List.getElem?_eq_getElem hlt
  have houts := List.getElem?_eq_getElem (hlength ▸ hlt : 0 < payouts.length)
  exact (hreceives 0 _ _ hfirst houts).some
    (payee_eq_nil hsplit (not_le.mp hn) (hpaid 0 _ _ hfirst houts))

/-- What the fee, the shares and the change of a draft with subtracted fee are, if both the
balance and the shares are right. -/
theorem shared_iff {nFeeRet nShares nChange : Int} {dust : Prop} [Decidable dust]
    (hfee : 0 ≤ nFeeRet) (hshares : 0 ≤ nShares) (hchange : -nFeeRet ≤ nChange) :
    nShares + min 0 nChange = 0 ∧ nShares = nFeeRet + (if 0 < nChange ∧ dust then nChange else 0) ↔
      nShares = nFeeRet ∧ (nChange = -nFeeRet ∨ nFeeRet = 0 ∧ ¬ dust) := by
  constructor
  · rintro ⟨hbalance, hshared⟩
    by_cases hpos : 0 < nChange
    · by_cases hdust : dust
      · rw [if_pos ⟨hpos, hdust⟩] at hshared
        omega
      · rw [if_neg fun hboth => hdust hboth.2] at hshared
        exact ⟨by omega, Or.inr ⟨by omega, hdust⟩⟩
    · rw [if_neg fun hboth => hpos hboth.1] at hshared
      exact ⟨by omega, Or.inl (by omega)⟩
  · rintro ⟨hshared, hnone | ⟨hzero, hdust⟩⟩
    · rw [if_neg fun hboth => by omega]
      omega
    · rw [if_neg fun hboth => hdust hboth.2]
      omega

/-- **A draft is right** if and only if the pass meets `RightDraft`. -/
theorem rightTransaction_iff
    (hfunds : r.Funds (payment.totalValue nValue pass.nFeeRet) wallet.coins.vCoins)
    (hsum : nValue = (payment.vecSend.map Prod.snd).sum) (hsend : payment.vecSend ≠ [])
    (hfee : 0 ≤ pass.nFeeRet)
    (hpayees : payees wallet payment pass.nFeeRet 0 payment.vecSend = .ok payouts) :
    RightTransaction payment (draft wallet payment nValue pass payouts r) ↔
      RightDraft wallet payment nValue pass payouts r := by
  have henough : payment.totalValue nValue pass.nFeeRet ≤ r.nValueRet := hfunds.enough
  have hnonneg : 0 ≤ payment.shares pass.nFeeRet :=
    List.sum_nonneg fun n hn => by
      obtain ⟨i, -, rfl⟩ := List.mem_map.mp hn
      exact subtractFee_nonneg hfee i
  unfold Payment.totalValue at henough
  constructor
  · intro h
    obtain ⟨nShare, -, -, hshares, -, hreceives⟩ := h.paid
    rw [draft_payouts] at hreceives
    have hsplits := splits_of_receives hsend hpayees hreceives
    refine ⟨hsplits, fun hsubtract => ?_⟩
    have hbalance := draft_balance hfunds hsum hsplits hpayees
    have hbalanced := h.balanced
    have hshared := hshares hsubtract
    rw [sum_share_eq hsplits hpayees hreceives] at hshared
    rw [if_pos hsubtract] at henough
    dsimp only at hbalance
    by_cases hdenominated : payment.coin_type = .ONLY_DENOMINATED
    · rw [if_pos hdenominated] at hbalance ⊢
      rw [draft_nFeeRet_denominated hdenominated] at hbalance hbalanced hshared
      omega
    · rw [if_neg hdenominated] at hbalance ⊢
      rw [draft_nFeeRet hdenominated] at hbalance hbalanced hshared
      obtain ⟨hsame, hchange⟩ :=
        (shared_iff hfee hnonneg (by omega)).mp ⟨by omega, hshared⟩
      exact ⟨hsame, hchange.imp_left fun hnone => by omega⟩
  · intro h
    have hbalance := draft_balance hfunds hsum h.splits hpayees
    dsimp only at hbalance
    obtain ⟨hlength, hpaid⟩ := payees_spec hpayees
    -- the balance, and the shares if the fee is subtracted
    have hagree : (payment.fSubtractFeeFromAmount = true → payment.shares pass.nFeeRet =
        (draft wallet payment nValue pass payouts r).nFeeRet) ∧
        payment.shares pass.nFeeRet +
          (if payment.coin_type = .ONLY_DENOMINATED then 0
          else min 0 (r.nValueRet - nValue - pass.nFeeRet)) = 0 := by
      cases hsubtract : payment.fSubtractFeeFromAmount with
      | false =>
          rw [hsubtract, if_neg Bool.false_ne_true] at henough
          refine ⟨nofun, ?_⟩
          rw [shares_eq_zero hsubtract]
          split <;> omega
      | true =>
          rw [hsubtract, if_pos rfl] at henough
          have hshared := h.shared hsubtract
          by_cases hdenominated : payment.coin_type = .ONLY_DENOMINATED
          · rw [if_pos hdenominated] at hshared ⊢
            rw [draft_nFeeRet_denominated hdenominated]
            omega
          · rw [if_neg hdenominated] at hshared ⊢
            rw [draft_nFeeRet hdenominated]
            have hlow : -pass.nFeeRet ≤ r.nValueRet - nValue - pass.nFeeRet := by omega
            have hboth := (shared_iff hfee hnonneg hlow).mpr
              ⟨hshared.1, hshared.2.imp_left fun hnone => by omega⟩
            exact ⟨fun _ => hboth.2, hboth.1⟩
    constructor
    · omega
    · refine ⟨payment.subtractFee pass.nFeeRet, subtractFee_nonneg hfee,
        fun i hi => subtractFee_of_notMem hi, hagree.1, ?_, ?_⟩
      · rw [draft_payouts, hlength]
      · intro i s outs hs houts
        rw [draft_payouts] at houts
        have hpayee := payee_receives h.splits (hpaid i s outs hs houts)
        rw [Nat.zero_add] at hpayee
        exact ⟨hpayee.some, hpayee.script, hpayee.exact.trans (Int.sub_zero _)⟩
    · intro index nChange hchange
      rw [draft_change] at hchange
      rw [draft_payouts]
      split at hchange
      · cases hchange
      · rcases changeOf_cases with hnone | ⟨index', hindex, hcombined⟩ | ⟨_, _, -, -, hout⟩
        · rw [hnone] at hchange
          cases hchange
        · rw [hcombined] at hchange
          cases hchange
          exact combineIndex_spec hindex
        · rw [hout] at hchange
          cases hchange
    · rw [Created.vin, draft_setCoins]
      exact hfunds.nodup_vin

end Draft

/-! ## The passes -/

section Passes

variable {wallet : PayingWallet} {payment : Payment} {nValue : Int} {pass : Pass}

/-- No amount of a pass overflows. -/
structure PassFits (wallet : PayingWallet) (payment : Payment) (nValue : Int) (pass : Pass) :
    Prop where
  total : FitsInt64 (payment.totalValue nValue pass.nFeeRet)
  amounts : payees wallet payment pass.nFeeRet 0 payment.vecSend ≠ .error .overflow
  search : ∀ payouts, payees wallet payment pass.nFeeRet 0 payment.vecSend = .ok payouts →
    selectOverflows wallet payment (payment.totalValue nValue pass.nFeeRet) = false

theorem payee_error {scriptPubKey : CScript} {nAmount : Int} {tx : Created} :
    payee wallet payment scriptPubKey nAmount ≠ .error (.created tx) := by
  intro h
  unfold payee at h
  cases hsplit : payment.splitBlock with
  | none =>
      rw [hsplit] at h
      dsimp only at h
      split_ifs at h <;> cases h
  | some n =>
      rw [hsplit] at h
      dsimp only at h
      split_ifs at h <;> cases h

theorem payees_error {nFeeRet : Int} {i : Nat} {l : List (CScript × Int)} {tx : Created} :
    payees wallet payment nFeeRet i l ≠ .error (.created tx) := by
  induction l generalizing i with
  | nil => exact nofun
  | cons s rest ih =>
      intro h
      rw [payees] at h
      cases hfirst : payee wallet payment s.1 (s.2 - payment.subtractFee nFeeRet i) with
      | error result =>
          rw [hfirst] at h
          cases h
          exact payee_error hfirst
      | ok out =>
          rw [hfirst] at h
          dsimp only at h
          cases hothers : payees wallet payment nFeeRet (i + 1) rest with
          | error result =>
              rw [hothers] at h
              cases h
              exact ih hothers
          | ok outs =>
              rw [hothers] at h
              cases h

/-- What a pass goes through before its transaction is signed. -/
structure Drafts (wallet : PayingWallet) (payment : Payment) (nValue : Int) (pass : Pass)
    (payouts : List (List CTxOut)) : Prop where
  total : FitsInt64 (payment.totalValue nValue pass.nFeeRet)
  recipients : payees wallet payment pass.nFeeRet 0 payment.vecSend = .ok payouts
  fits : selectOverflows wallet payment (payment.totalValue nValue pass.nFeeRet) = false
  success : (selectCoins wallet payment pass.nPass
    (payment.totalValue nValue pass.nFeeRet)).fSuccess = true

/-- The coins that a pass selects. -/
def selected (wallet : PayingWallet) (payment : Payment) (nValue : Int) (pass : Pass) : Selected :=
  selectCoins wallet payment pass.nPass (payment.totalValue nValue pass.nFeeRet)

/-- A pass stops before its draft, for an overflow or another reason, or it finishes it. -/
theorem createPass_cases :
    (createPass wallet payment nValue pass = .stop .overflow ∧
        ¬ PassFits wallet payment nValue pass) ∨
      PassFits wallet payment nValue pass ∧
        ((∃ strFailReason, createPass wallet payment nValue pass = .stop (.failed strFailReason)) ∨
          ∃ payouts, Drafts wallet payment nValue pass payouts ∧
            createPass wallet payment nValue pass = finishPass wallet payment pass
              (draft wallet payment nValue pass payouts (selected wallet payment nValue pass))) := by
  unfold createPass
  dsimp only
  by_cases htotal : FitsInt64 (payment.totalValue nValue pass.nFeeRet)
  · rw [if_neg (not_not.mpr htotal)]
    cases hpayees : payees wallet payment pass.nFeeRet 0 payment.vecSend with
    | error result =>
        dsimp only
        cases result with
        | created tx => exact absurd hpayees payees_error
        | overflow => exact Or.inl ⟨rfl, fun h => h.amounts hpayees⟩
        | failed strFailReason =>
            refine Or.inr ⟨⟨htotal, ?_, ?_⟩, Or.inl ⟨strFailReason, rfl⟩⟩
            · rw [hpayees]
              exact nofun
            · rw [hpayees]
              exact nofun
    | ok payouts =>
        dsimp only
        cases hoverflows : selectOverflows wallet payment
            (payment.totalValue nValue pass.nFeeRet) with
        | true =>
            refine Or.inl ⟨if_pos rfl, fun h => ?_⟩
            rw [h.search payouts hpayees] at hoverflows
            cases hoverflows
        | false =>
            rw [if_neg Bool.false_ne_true]
            refine Or.inr ⟨⟨htotal, ?_, fun _ _ => hoverflows⟩, ?_⟩
            · rw [hpayees]
              exact nofun
            · cases hsuccess : (selectCoins wallet payment pass.nPass
                  (payment.totalValue nValue pass.nFeeRet)).fSuccess with
              | true =>
                  exact Or.inr ⟨payouts, ⟨htotal, hpayees, hoverflows, hsuccess⟩, if_pos rfl⟩
              | false => exact Or.inl ⟨_, if_neg Bool.false_ne_true⟩
  · rw [if_pos htotal]
    exact Or.inl ⟨rfl, fun h => htotal h.total⟩

/-- `nFeeNeeded`, for a transaction of a size. -/
def feeNeeded (wallet : PayingWallet) (payment : Payment) (nBytes : Nat) : Int :=
  max payment.feePay (wallet.getMinimumFee nBytes)

/-- It can be completed as a free transaction. -/
def SentFree (wallet : PayingWallet) (tx : Created) (nBytes : Nat) : Prop :=
  wallet.fSendFreeTransactions ∧ nBytes ≤ MAX_FREE_TRANSACTION_CREATE_SIZE ∧
    wallet.enoughPriority tx.setCoins nBytes

/-- The draft is signed, small enough, and either free or with enough fee. -/
def Completes (wallet : PayingWallet) (payment : Payment) (pass : Pass) (tx : Created) : Prop :=
  ∃ nBytes < MAX_STANDARD_TX_SIZE, wallet.signedSize pass.nPass tx.vin tx.vout = some nBytes ∧
    (SentFree wallet tx nBytes ∨
      wallet.relayFee nBytes ≤ feeNeeded wallet payment nBytes ∧
        feeNeeded wallet payment nBytes ≤ tx.nFeeRet)

/-- It has the size that is named, but its fee is not enough for that. -/
def NeedsMore (wallet : PayingWallet) (payment : Payment) (pass : Pass) (tx : Created)
    (nBytes : Nat) : Prop :=
  nBytes < MAX_STANDARD_TX_SIZE ∧ wallet.signedSize pass.nPass tx.vin tx.vout = some nBytes ∧
    ¬ SentFree wallet tx nBytes ∧ wallet.relayFee nBytes ≤ feeNeeded wallet payment nBytes ∧
    tx.nFeeRet < feeNeeded wallet payment nBytes

theorem finishPass_cases {tx : Created} :
    (∃ strFailReason, finishPass wallet payment pass tx = .stop (.failed strFailReason)) ∨
      (finishPass wallet payment pass tx = .stop (.created tx) ∧
        Completes wallet payment pass tx) ∨
      ∃ nBytes, NeedsMore wallet payment pass tx nBytes ∧
        finishPass wallet payment pass tx = .next
          { nPass := pass.nPass + 1, nFeeRet := feeNeeded wallet payment nBytes } := by
  unfold finishPass
  cases hsigned : wallet.signedSize pass.nPass tx.vin tx.vout with
  | none => exact Or.inl ⟨_, rfl⟩
  | some nBytes =>
      dsimp only
      split
      · exact Or.inl ⟨_, rfl⟩
      · next hsize =>
          split
          · next hfree =>
              exact Or.inr (Or.inl ⟨rfl, nBytes, not_le.mp hsize, hsigned, Or.inl hfree⟩)
          · next hfree =>
              split
              · exact Or.inl ⟨_, rfl⟩
              · next hrelay =>
                  split
                  · next henough =>
                      exact Or.inr (Or.inl ⟨rfl, nBytes, not_le.mp hsize, hsigned,
                        Or.inr ⟨not_lt.mp hrelay, henough⟩⟩)
                  · next hmore =>
                      exact Or.inr (Or.inr ⟨nBytes, ⟨not_le.mp hsize, hsigned, hfree,
                        not_lt.mp hrelay, not_le.mp hmore⟩, rfl⟩)

theorem finishPass_of_completes {tx : Created} (h : Completes wallet payment pass tx) :
    finishPass wallet payment pass tx = .stop (.created tx) := by
  obtain ⟨nBytes, hsize, hsigned, hend⟩ := h
  unfold finishPass
  rw [hsigned]
  dsimp only
  rw [if_neg (not_le.mpr hsize)]
  by_cases hfree : SentFree wallet tx nBytes
  · exact if_pos hfree
  · obtain ⟨hrelay, henough⟩ := hend.resolve_left hfree
    exact (if_neg hfree).trans ((if_neg (not_lt.mpr hrelay)).trans (if_pos henough))

theorem finishPass_of_needsMore {tx : Created} {nBytes : Nat}
    (h : NeedsMore wallet payment pass tx nBytes) :
    finishPass wallet payment pass tx = .next
      { nPass := pass.nPass + 1, nFeeRet := feeNeeded wallet payment nBytes } := by
  obtain ⟨hsize, hsigned, hfree, hrelay, hmore⟩ := h
  unfold finishPass
  rw [hsigned]
  dsimp only
  rw [if_neg (not_le.mpr hsize)]
  exact (if_neg hfree).trans ((if_neg (not_lt.mpr hrelay)).trans (if_neg (not_le.mpr hmore)))

theorem Drafts.createPass_eq {payouts : List (List CTxOut)}
    (h : Drafts wallet payment nValue pass payouts) :
    createPass wallet payment nValue pass = finishPass wallet payment pass
      (draft wallet payment nValue pass payouts (selected wallet payment nValue pass)) := by
  unfold createPass
  dsimp only
  rw [if_neg (not_not.mpr h.total), h.recipients]
  dsimp only
  rw [h.fits, if_neg Bool.false_ne_true]
  exact if_pos h.success

/-- How a pass ends: it overflows, it fails, it creates its draft, or there is another one. -/
theorem createPass_outcome :
    (createPass wallet payment nValue pass = .stop .overflow ∧
        ¬ PassFits wallet payment nValue pass) ∨
      PassFits wallet payment nValue pass ∧
        ((∃ strFailReason, createPass wallet payment nValue pass = .stop (.failed strFailReason)) ∨
          ∃ payouts, Drafts wallet payment nValue pass payouts ∧
            let tx := draft wallet payment nValue pass payouts
              (selected wallet payment nValue pass)
            (createPass wallet payment nValue pass = .stop (.created tx) ∧
              Completes wallet payment pass tx) ∨
            ∃ nBytes, NeedsMore wallet payment pass tx nBytes ∧
              createPass wallet payment nValue pass = .next
                { nPass := pass.nPass + 1, nFeeRet := feeNeeded wallet payment nBytes }) := by
  rcases createPass_cases with hoverflow | ⟨hfits, hfailed | ⟨payouts, hdrafts, hfinish⟩⟩
  · exact Or.inl hoverflow
  · exact Or.inr ⟨hfits, Or.inl hfailed⟩
  · refine Or.inr ⟨hfits, ?_⟩
    rw [hfinish]
    rcases finishPass_cases with hfailed | hcreated | hnext
    · exact Or.inl hfailed
    · exact Or.inr ⟨payouts, hdrafts, Or.inl hcreated⟩
    · exact Or.inr ⟨payouts, hdrafts, Or.inr hnext⟩

theorem createPass_created {tx : Created}
    (h : createPass wallet payment nValue pass = .stop (.created tx)) :
    PassFits wallet payment nValue pass ∧
      ∃ payouts, Drafts wallet payment nValue pass payouts ∧
        tx = draft wallet payment nValue pass payouts (selected wallet payment nValue pass) ∧
        Completes wallet payment pass tx := by
  rcases createPass_outcome with ⟨hoverflow, -⟩ | ⟨hfits, ⟨reason, hfailed⟩ |
    ⟨payouts, hdrafts, ⟨hcreated, hcompletes⟩ | ⟨nBytes, -, hnext⟩⟩⟩
  · rw [hoverflow] at h
    cases h
  · rw [hfailed] at h
    cases h
  · rw [hcreated] at h
    cases h
    exact ⟨hfits, payouts, hdrafts, rfl, hcompletes⟩
  · rw [hnext] at h
    cases h

theorem createPass_next {pass' : Pass}
    (h : createPass wallet payment nValue pass = .next pass') :
    PassFits wallet payment nValue pass ∧
      ∃ payouts nBytes, Drafts wallet payment nValue pass payouts ∧
        NeedsMore wallet payment pass (draft wallet payment nValue pass payouts
          (selected wallet payment nValue pass)) nBytes ∧
        pass'.nFeeRet = feeNeeded wallet payment nBytes := by
  rcases createPass_outcome with ⟨hoverflow, -⟩ | ⟨hfits, ⟨reason, hfailed⟩ |
    ⟨payouts, hdrafts, ⟨hcreated, -⟩ | ⟨nBytes, hmore, hnext⟩⟩⟩
  · rw [hoverflow] at h
    cases h
  · rw [hfailed] at h
    cases h
  · rw [hcreated] at h
    cases h
  · rw [hnext] at h
    cases h
    exact ⟨hfits, payouts, nBytes, hdrafts, hmore, rfl⟩

theorem createPass_overflow_iff :
    createPass wallet payment nValue pass = .stop .overflow ↔
      ¬ PassFits wallet payment nValue pass := by
  rcases createPass_outcome with ⟨hoverflow, hnot⟩ | ⟨hfits, ⟨reason, hfailed⟩ |
    ⟨payouts, -, ⟨hcreated, -⟩ | ⟨nBytes, -, hnext⟩⟩⟩
  · exact ⟨fun _ => hnot, fun _ => hoverflow⟩
  · rw [hfailed]
    exact ⟨nofun, fun hnot => absurd hfits hnot⟩
  · rw [hcreated]
    exact ⟨nofun, fun hnot => absurd hfits hnot⟩
  · rw [hnext]
    exact ⟨nofun, fun hnot => absurd hfits hnot⟩

/-- A pass that ends the loop needs no more fee. -/
theorem Drafts.not_needsMore {payouts : List (List CTxOut)} {nBytes : Nat} {result : CreateEnd}
    (h : Drafts wallet payment nValue pass payouts)
    (hstops : createPass wallet payment nValue pass = .stop result) :
    ¬ NeedsMore wallet payment pass (draft wallet payment nValue pass payouts
      (selected wallet payment nValue pass)) nBytes := by
  intro hmore
  rw [h.createPass_eq, finishPass_of_needsMore hmore] at hstops
  cases hstops

theorem createPass_stops
    (hless : ∀ payouts nBytes, Drafts wallet payment nValue pass payouts →
      ¬ NeedsMore wallet payment pass (draft wallet payment nValue pass payouts
        (selected wallet payment nValue pass)) nBytes) :
    ∃ result, createPass wallet payment nValue pass = .stop result := by
  cases hpass : createPass wallet payment nValue pass with
  | stop result => exact ⟨result, rfl⟩
  | next pass' =>
      obtain ⟨-, payouts, nBytes, hdrafts, hmore, -⟩ := createPass_next hpass
      exact absurd hmore (hless payouts nBytes hdrafts)

end Passes

/-! ## The whole call -/

section Call

variable {wallet : PayingWallet} {payment : Payment} {nValue : Int} {pass : Pass}

theorem addAmounts_sum {total : Int} {l : List (CScript × Int)}
    (h : addAmounts nValue l = .ok total) : total = nValue + (l.map Prod.snd).sum := by
  induction l generalizing nValue with
  | nil =>
      cases h
      exact (Int.add_zero _).symm
  | cons s rest ih =>
      rw [addAmounts] at h
      split_ifs at h
      rw [ih h, List.map_cons, List.sum_cons, Int.add_assoc]

theorem firstPass_nonneg : 0 ≤ payment.firstPass.nFeeRet := le_max_left _ _

theorem createPass_nonneg {pass' : Pass}
    (h : createPass wallet payment nValue pass = .next pass') : 0 ≤ pass'.nFeeRet := by
  obtain ⟨-, payouts, nBytes, -, ⟨-, -, -, hrelay, -⟩, hneeded⟩ := createPass_next h
  rw [hneeded]
  exact (wallet.relayFee_nonneg nBytes).trans hrelay

theorem reached_nonneg (h : Retried (createPass wallet payment nValue) payment.firstPass pass) :
    0 ≤ pass.nFeeRet :=
  h.invariant firstPass_nonneg fun _ _ _ hstep => createPass_nonneg hstep

theorem Drafts.funds {payouts : List (List CTxOut)}
    (h : Drafts wallet payment nValue pass payouts) (hvalue : 0 ≤ nValue)
    (hfee : 0 ≤ pass.nFeeRet) :
    (selected wallet payment nValue pass).Funds (payment.totalValue nValue pass.nFeeRet)
      wallet.coins.vCoins := by
  have hlow : 0 ≤ payment.totalValue nValue pass.nFeeRet := by
    unfold Payment.totalValue
    split <;> omega
  exact selectCoins_spec h.fits hlow h.success

/-- The fee of a pass is not lowered by its draft, unless the coins are denominated and the
recipients pay the fee. -/
theorem le_draft_nFeeRet {payouts : List (List CTxOut)}
    (hplain : ¬ (payment.coin_type = .ONLY_DENOMINATED ∧ payment.fSubtractFeeFromAmount = true))
    (h : Drafts wallet payment nValue pass payouts) (hvalue : 0 ≤ nValue)
    (hfee : 0 ≤ pass.nFeeRet) :
    pass.nFeeRet ≤ (draft wallet payment nValue pass payouts
      (selected wallet payment nValue pass)).nFeeRet := by
  by_cases hdenominated : payment.coin_type = .ONLY_DENOMINATED
  · have henough := (h.funds hvalue hfee).enough
    unfold Payment.totalValue at henough
    rw [if_neg fun hsubtract => hplain ⟨hdenominated, hsubtract⟩] at henough
    rw [draft_nFeeRet_denominated hdenominated]
    omega
  · rw [draft_nFeeRet hdenominated]
    split <;> omega

/-- **The loop ends**: every pass asks for a higher fee than the one before, and the fees for
the sizes that are allowed have a bound. -/
theorem createPass_ends (hvalue : 0 ≤ nValue)
    (hplain : ¬ (payment.coin_type = .ONLY_DENOMINATED ∧ payment.fSubtractFeeFromAmount = true)) :
    ∃ passes result,
      retry (createPass wallet payment nValue) passes payment.firstPass = some result := by
  obtain ⟨bound, hbound⟩ :=
    ((Finset.range MAX_STANDARD_TX_SIZE).image (feeNeeded wallet payment)).exists_le
  refine @exists_retry_of_bounded _ _ _ _ (fun pass => 0 ≤ pass.nFeeRet) Pass.nFeeRet bound
    firstPass_nonneg (fun _ _ _ hstep => createPass_nonneg hstep) ?_
  intro pass pass' hfee hstep
  obtain ⟨-, payouts, nBytes, hdrafts, ⟨hsize, -, -, -, hmore⟩, hneeded⟩ :=
    createPass_next hstep
  have hle := le_draft_nFeeRet hplain hdrafts hvalue hfee
  rw [hneeded]
  refine ⟨hle.trans_lt hmore, ?_⟩
  exact hbound _ (Finset.mem_image_of_mem _ (Finset.mem_range.mpr hsize))

/-- The end of a call is right. -/
def RightEnd (payment : Payment) : CreateEnd → Prop
  | .created tx => RightTransaction payment tx
  | .failed _ => True
  | .overflow => False

/-- What a pass has to meet: nothing overflows, and the draft is right if it completes it. -/
structure RightPass (wallet : PayingWallet) (payment : Payment) (nValue : Int) (pass : Pass) :
    Prop where
  fits : PassFits wallet payment nValue pass
  draft : ∀ payouts, Drafts wallet payment nValue pass payouts →
    Completes wallet payment pass
      (draft wallet payment nValue pass payouts (selected wallet payment nValue pass)) →
    RightDraft wallet payment nValue pass payouts (selected wallet payment nValue pass)

/-- A pass that creates nothing, but does not overflow. -/
theorem rightPass_of_not_created (hoverflow : createPass wallet payment nValue pass ≠ .stop .overflow)
    (hcreated : ∀ tx, createPass wallet payment nValue pass ≠ .stop (.created tx)) :
    RightPass wallet payment nValue pass := by
  have hfits : PassFits wallet payment nValue pass := by
    by_contra hnot
    exact hoverflow (createPass_overflow_iff.mpr hnot)
  refine ⟨hfits, fun payouts hdrafts hcompletes => ?_⟩
  exact absurd (hdrafts.createPass_eq.trans (finishPass_of_completes hcompletes))
    (hcreated _)

/-- A pass ends the call rightly if and only if it is right. -/
theorem rightEnd_iff {result : CreateEnd} (hvalue : 0 ≤ nValue)
    (hsum : nValue = (payment.vecSend.map Prod.snd).sum) (hsend : payment.vecSend ≠ [])
    (hfee : 0 ≤ pass.nFeeRet) (h : createPass wallet payment nValue pass = .stop result) :
    RightEnd payment result ↔ RightPass wallet payment nValue pass := by
  cases result with
  | overflow =>
      exact ⟨False.elim, fun hright => createPass_overflow_iff.mp h hright.fits⟩
  | failed strFailReason =>
      refine ⟨fun _ => rightPass_of_not_created ?_ ?_, fun _ => trivial⟩
      · rw [h]
        exact nofun
      · rw [h]
        exact fun _ => nofun
  | created tx =>
      obtain ⟨hfits, payouts, hdrafts, rfl, hcompletes⟩ := createPass_created h
      have hiff := rightTransaction_iff (hdrafts.funds hvalue hfee) hsum hsend hfee
        hdrafts.recipients
      constructor
      · refine fun hright => ⟨hfits, fun payouts' hdrafts' _ => ?_⟩
        have hsame := hdrafts.recipients.symm.trans hdrafts'.recipients
        cases hsame
        exact hiff.mp hright
      · exact fun hright => hiff.mpr (hright.draft payouts hdrafts hcompletes)

/-- The loop is entered, with the sum of the amounts. -/
structure Payment.Enters (payment : Payment) (nValue : Int) : Prop where
  amounts : addAmounts 0 payment.vecSend = .ok nValue
  some : payment.vecSend ≠ []
  nonneg : 0 ≤ nValue

theorem addAmounts_error {l : List (CScript × Int)} {tx : Created} :
    addAmounts nValue l ≠ .error (.created tx) := by
  induction l generalizing nValue with
  | nil => exact nofun
  | cons s rest ih =>
      intro h
      rw [addAmounts] at h
      split_ifs at h with hneg hfits
      · cases h
      · exact ih h
      · cases h

theorem createTransaction_enters (h : payment.Enters nValue) (passes : Nat) :
    createTransaction wallet payment passes =
      retry (createPass wallet payment nValue) passes payment.firstPass := by
  have hnot : ¬ (payment.vecSend.isEmpty = true ∨ nValue < 0) := by
    rintro (hempty | hneg)
    · exact h.some (List.isEmpty_iff.mp hempty)
    · exact absurd h.nonneg (not_le.mpr hneg)
  unfold createTransaction
  rw [h.amounts]
  exact if_neg hnot

/-- Without entering the loop the call fails, or the amounts overflow. -/
theorem createTransaction_stays (h : ∀ nValue, ¬ payment.Enters nValue) :
    ∃ result, (∀ passes, createTransaction wallet payment passes = some result) ∧
      (RightEnd payment result ↔ addAmounts 0 payment.vecSend ≠ .error .overflow) := by
  unfold createTransaction
  cases hamounts : addAmounts 0 payment.vecSend with
  | error result =>
      refine ⟨result, fun _ => rfl, ?_⟩
      cases result with
      | created tx => exact absurd hamounts addAmounts_error
      | failed strFailReason => exact ⟨fun _ => nofun, fun _ => trivial⟩
      | overflow => exact ⟨False.elim, fun hne => hne rfl⟩
  | ok nValue =>
      have hstays : payment.vecSend.isEmpty = true ∨ nValue < 0 := by
        by_contra hnot
        obtain ⟨hsome, hnonneg⟩ := not_or.mp hnot
        exact h nValue ⟨hamounts, fun hempty => hsome (List.isEmpty_iff.mpr hempty),
          not_lt.mp hnonneg⟩
      exact ⟨_, fun _ => if_pos hstays, fun _ => nofun, fun _ => trivial⟩

/-- The call ends, and rightly. -/
def CreatesRight (wallet : PayingWallet) (payment : Payment) : Prop :=
  (∃ passes result, createTransaction wallet payment passes = some result) ∧
    ∀ passes result, createTransaction wallet payment passes = some result →
      RightEnd payment result

/-- When it does: the amounts do not overflow, some pass needs no more fee, and the passes that
are reached are right.  Only denominated coins with a subtracted fee may keep the loop going. -/
structure RightPayment (wallet : PayingWallet) (payment : Payment) : Prop where
  amounts : addAmounts 0 payment.vecSend ≠ .error .overflow
  ends : ∀ nValue, payment.Enters nValue → payment.coin_type = .ONLY_DENOMINATED →
    payment.fSubtractFeeFromAmount = true →
      ∃ pass, Retried (createPass wallet payment nValue) payment.firstPass pass ∧
        ∀ payouts nBytes, Drafts wallet payment nValue pass payouts →
          ¬ NeedsMore wallet payment pass (draft wallet payment nValue pass payouts
            (selected wallet payment nValue pass)) nBytes
  passes : ∀ nValue, payment.Enters nValue → ∀ pass,
    Retried (createPass wallet payment nValue) payment.firstPass pass →
      RightPass wallet payment nValue pass

/-- **`CreateTransaction`** ends, with a transaction that balances and pays the recipients if it
creates one, if and only if nothing overflows and every pass that is reached is right. -/
theorem createsRight_iff (wallet : PayingWallet) (payment : Payment) :
    CreatesRight wallet payment ↔ RightPayment wallet payment := by
  by_cases henters : ∃ nValue, payment.Enters nValue
  · obtain ⟨nValue, henters⟩ := henters
    have honly : ∀ n, payment.Enters n → n = nValue := by
      intro n hn
      have hsame := hn.amounts.symm.trans henters.amounts
      cases hsame
      rfl
    have hsum : nValue = (payment.vecSend.map Prod.snd).sum :=
      (addAmounts_sum henters.amounts).trans (Int.zero_add _)
    have hstop : ∀ pass result,
        Retried (createPass wallet payment nValue) payment.firstPass pass →
        createPass wallet payment nValue pass = .stop result →
        (RightEnd payment result ↔ RightPass wallet payment nValue pass) :=
      fun pass result hreached h =>
        rightEnd_iff henters.nonneg hsum henters.some (reached_nonneg hreached) h
    unfold CreatesRight
    simp only [createTransaction_enters henters]
    rw [retry_correct_iff]
    constructor
    · rintro ⟨⟨last, result, hlast, hstops⟩, hright⟩
      refine ⟨?_, ?_, ?_⟩
      · rw [henters.amounts]
        exact nofun
      · intro n hn _ _
        rw [honly n hn]
        exact ⟨last, hlast, fun payouts nBytes hdrafts => hdrafts.not_needsMore hstops⟩
      · intro n hn pass hreached
        rw [honly n hn] at hreached ⊢
        cases hpass : createPass wallet payment nValue pass with
        | stop result =>
            exact (hstop pass result hreached hpass).mp (hright pass result hreached hpass)
        | next pass' =>
            refine rightPass_of_not_created ?_ ?_
            · rw [hpass]
              exact nofun
            · rw [hpass]
              exact fun _ => nofun
    · intro hright
      constructor
      · by_cases hplain : payment.coin_type = .ONLY_DENOMINATED ∧
            payment.fSubtractFeeFromAmount = true
        · obtain ⟨pass, hreached, hless⟩ := hright.ends nValue henters hplain.1 hplain.2
          obtain ⟨result, hpass⟩ := createPass_stops hless
          exact ⟨pass, result, hreached, hpass⟩
        · obtain ⟨passes, result, hretry⟩ := createPass_ends henters.nonneg hplain
          obtain ⟨pass, hreached, hpass⟩ := exists_retry_iff.mp ⟨passes, hretry⟩
          exact ⟨pass, result, hreached, hpass⟩
      · intro pass result hreached hpass
        exact (hstop pass result hreached hpass).mpr
          (hright.passes nValue henters pass hreached)
  · have hnot : ∀ nValue, ¬ payment.Enters nValue := not_exists.mp henters
    obtain ⟨result, hcreate, hiff⟩ := @createTransaction_stays wallet payment hnot
    unfold CreatesRight
    constructor
    · rintro ⟨-, hright⟩
      exact ⟨hiff.mp (hright 0 result (hcreate 0)), fun n hn => absurd hn (hnot n),
        fun n hn => absurd hn (hnot n)⟩
    · intro hright
      refine ⟨⟨0, result, hcreate 0⟩, fun passes result' h => ?_⟩
      rw [hcreate passes] at h
      cases h
      exact hiff.mpr hright.amounts

end Call

section Example

/-- A transaction with an output of seven cents. -/
def sevenCentsTx : CWalletTx where
  hash := 1
  vout := [⟨7 * CENT, [], -10⟩]
  isFromMe := false

/-- A wallet with this output, in which every transaction has 200 bytes and a fee of 10000. -/
def sevenCents : PayingWallet where
  coins :=
    { vCoins := [⟨sevenCentsTx, 0, 6, true, by decide⟩]
      distinct := by decide
      nonneg := by decide
      fits := by decide }
  keyed := by decide
  selector _ _ := leaveLargest
  bSpendZeroConfChange := true
  isDust out := out.nValue < 5460
  scriptReserved := [1]
  getRandInt _ _ := 0
  randInt_lt _ _ h := h
  signedSize _ _ _ := some 200
  fSendFreeTransactions := false
  enoughPriority _ _ := false
  getMinimumFee _ := 10000
  relayFee _ := 10000
  relayFee_nonneg _ := by decide

/-- Six cents are sent, and the fee is subtracted from them. -/
def sixCentsWithoutFee : Payment where
  vecSend := [([2], 6 * CENT)]
  setSubtractFeeFromOutputs := [0]

/-- The fee is paid twice: it is subtracted from the amount and from the change. -/
theorem createsRight_sixCents : ¬ CreatesRight sevenCents sixCentsWithoutFee := by
  rintro ⟨-, hright⟩
  have hcreated : createTransaction sevenCents sixCentsWithoutFee 2 = some (.created
      { setCoins := [(sevenCentsTx, 0)]
        payouts := [[⟨6 * CENT - 10000, [2], -10⟩]]
        change := .output 0 ⟨1 * CENT - 10000, [1], -10⟩
        nFeeRet := 10000 }) := by
    rfl
  have hbalanced := (hright 2 _ hcreated).balanced
  revert hbalanced
  decide +kernel

end Example

end Agrarian.Wallet
