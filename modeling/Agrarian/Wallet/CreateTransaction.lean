import Agrarian.Lib.Retry
import Agrarian.Wallet.SelectCoins

/-!
# Creating a transaction

`CWallet::CreateTransaction` of `wallet.cpp` with `SelectCoins`.  The fee depends on the
size of the transaction, whose inputs and change depend on the fee, so every pass builds
the transaction anew with the fee that the last one has asked for.
-/

namespace Agrarian.Wallet

open Agrarian.Lib Agrarian.Validation

/-! ## The payment and the wallet -/

inductive AvailableCoinsType
  | ALL_COINS
  | ONLY_DENOMINATED
  | ONLY_NOT10000IFMN
  | ONLY_NONDENOMINATED_NOT10000IFMN
  | ONLY_10000
  | STAKABLE_COINS
  deriving DecidableEq

/-- What is read of a `CCoinControl`. -/
structure CCoinControl where
  /-- `GetScriptForDestination(destChange)`, if it is a destination. -/
  destChange : Option CScript := none
  fSplitBlock : Bool := false
  nSplitBlock : Int := 1
  fHasSelected : Bool := false

/-- The arguments of `CreateTransaction`. -/
structure Payment where
  vecSend : List (CScript × Int)
  coinControl : Option CCoinControl := none
  coin_type : AvailableCoinsType := .ALL_COINS
  useIX : Bool := false
  nFeePay : Int := 0
  /-- In the order of the set; a null pointer is the same as an empty set. -/
  setSubtractFeeFromOutputs : List Int := []
  sorted : setSubtractFeeFromOutputs.Pairwise (· < ·) := by decide

/-- What the wallet has for a payment, and what is drawn for it. -/
structure PayingWallet where
  /-- What `AvailableCoins` gives. -/
  coins : CoinList
  /-- The transactions of the wallet are kept by their hashes. -/
  keyed : (coins.vCoins.map fun output => (output.tx.hash, output.i)).Nodup
  /-- What is drawn in a pass, in each of the searches. -/
  selector : Nat → Nat → Selector
  bSpendZeroConfChange : Bool
  /-- `CTxOut::IsDust`, at the minimal fee of the relay. -/
  isDust : CTxOut → Bool
  /-- The script of the key that is reserved for the change. -/
  scriptReserved : CScript
  /-- `GetRandInt`, in a pass. -/
  getRandInt : Nat → Nat → Nat
  randInt_lt : ∀ nPass nMax, 0 < nMax → getRandInt nPass nMax < nMax
  /-- The size of the transaction of a pass once it is signed, if it is. -/
  signedSize : Nat → List (Uint256 × Nat) → List CTxOut → Option Nat
  fSendFreeTransactions : Bool
  /-- The priority of the inputs in a transaction of a size is enough to send it free. -/
  enoughPriority : List OutPtr → Nat → Bool
  /-- `GetMinimumFee`, for a size. -/
  getMinimumFee : Nat → Int
  /-- `minRelayTxFee.GetFee`. -/
  relayFee : Nat → Int
  relayFee_nonneg : ∀ nBytes, 0 ≤ relayFee nBytes

def MAX_STANDARD_TX_SIZE : Nat := 100000

def MAX_FREE_TRANSACTION_CREATE_SIZE : Nat := 1000

/-! ## What is created -/

/-- What becomes of the change. -/
inductive Change
  /-- There is none, or it has gone to the fee. -/
  | none
  /-- It is added to the output with this index. -/
  | combined (index : Nat) (nChange : Int)
  /-- It is an output at this position. -/
  | output (position : Nat) (out : CTxOut)
  deriving DecidableEq

def Change.apply : Change → List CTxOut → List CTxOut
  | none, vout => vout
  | combined index nChange, vout =>
      vout.modify index fun out => { out with nValue := out.nValue + nChange }
  | output position out, vout => vout.insertIdx position out

def Change.nValue : Change → Int
  | none => 0
  | combined _ nChange => nChange
  | output _ out => out.nValue

/-- A transaction as it is created: its inputs, the outputs to the recipients one by one,
and the change. -/
structure Created where
  setCoins : List OutPtr
  payouts : List (List CTxOut)
  change : Change
  nFeeRet : Int

namespace Created

def vin (tx : Created) : List (Uint256 × Nat) := tx.setCoins.map fun out => (out.1.hash, out.2)

def vout (tx : Created) : List CTxOut := tx.change.apply tx.payouts.flatten

end Created

/-- How the call ends. -/
inductive CreateEnd
  | created (tx : Created)
  | failed (strFailReason : String)
  /-- An amount overflows, which is undefined behaviour. -/
  | overflow

/-- A pass of the loop: its number, and the fee that it includes. -/
structure Pass where
  nPass : Nat
  nFeeRet : Int

section Create

variable (wallet : PayingWallet) (payment : Payment)

/-! ## The inputs -/

/-- `HasSelected`, with coin control. -/
def Payment.hasSelected : Bool := (payment.coinControl.map CCoinControl.fHasSelected).getD false

/-- `SelectCoins`: with coin control all that is selected, else what one of the searches
finds. -/
def selectCoins (nPass : Nat) (nTargetValue : Int) : Selected :=
  let minConf (search : Nat) (nConfMine nConfTheirs : Int) : Selected :=
    (wallet.selector nPass search).selectCoinsMinConf nTargetValue nConfMine nConfTheirs
      wallet.coins.vCoins
  if payment.hasSelected then
    let r := Selected.ofCoins ((wallet.coins.vCoins.filter COutput.fSpendable).map COutput.coin)
    { r with fSuccess := nTargetValue ≤ r.nValueRet }
  else if (minConf 0 1 6).fSuccess then minConf 0 1 6
  else if (minConf 1 1 1).fSuccess then minConf 1 1 1
  else if wallet.bSpendZeroConfChange then minConf 2 0 1
  else minConf 1 1 1

/-- `nTargetValue + CENT` overflows in one of the searches, which compares an output with it. -/
def selectOverflows (nTargetValue : Int) : Bool :=
  !payment.hasSelected && !decide (FitsInt64 (nTargetValue + CENT)) &&
    wallet.coins.vCoins.any
      (COutput.eligible (if wallet.bSpendZeroConfChange then 0 else 1) 1)

/-! ## The outputs -/

/-- `fSubtractFeeFromAmount`. -/
def Payment.fSubtractFeeFromAmount : Bool := !payment.setSubtractFeeFromOutputs.isEmpty

/-- `nSubtractFee`: what a recipient pays of a fee. -/
def Payment.subtractFee (nFeeRet : Int) (i : Nat) : Int :=
  if (i : Int) ∈ payment.setSubtractFeeFromOutputs then
    nFeeRet / payment.setSubtractFeeFromOutputs.length +
      if payment.setSubtractFeeFromOutputs.head? = some (i : Int) then
        nFeeRet % payment.setSubtractFeeFromOutputs.length
      else 0
  else 0

/-- `nSplitBlock`, if the amounts are split: they are also without coin control. -/
def Payment.splitBlock : Option Int :=
  match payment.coinControl with
  | none => some 1
  | some control => if control.fSplitBlock then some control.nSplitBlock else none

/-- The outputs to a recipient who is sent an amount. -/
def payee (scriptPubKey : CScript) (nAmount : Int) : Except CreateEnd (List CTxOut) :=
  if ¬ FitsInt64 nAmount then .error .overflow
  else if nAmount ≤ 0 then
    .error (.failed "The transaction amount is too small to pay the fee")
  else
    match payment.splitBlock with
    | none =>
        if wallet.isDust { nValue := nAmount, scriptPubKey } then
          .error (.failed "Transaction amount too small")
        else .ok [{ nValue := nAmount, scriptPubKey }]
    | some nSplitBlock =>
        .ok ((List.range nSplitBlock.toNat).map fun (j : Nat) =>
          { nValue :=
              if (j : Int) = nSplitBlock - 1 then
                nAmount / nSplitBlock + nAmount % nSplitBlock
              else nAmount / nSplitBlock
            scriptPubKey })

/-- The outputs to the recipients from one on. -/
def payees (nFeeRet : Int) : Nat → List (CScript × Int) → Except CreateEnd (List (List CTxOut))
  | _, [] => .ok []
  | i, s :: rest =>
      match payee wallet payment s.1 (s.2 - payment.subtractFee nFeeRet i) with
      | .error result => .error result
      | .ok out =>
          match payees nFeeRet (i + 1) rest with
          | .error result => .error result
          | .ok outs => .ok (out :: outs)

/-! ## The change -/

/-- The destination of coin control for the change. -/
def Payment.destChange : Option CScript := payment.coinControl.bind CCoinControl.destChange

/-- The output that the change is combined with: the first one to the destination. -/
def combineIndex (vout : List CTxOut) : Option Nat :=
  payment.destChange.bind fun scriptChange =>
    vout.findIdx? fun out => scriptChange = out.scriptPubKey

/-- The change of a pass, if there is any; dust is never created, but goes to the fee. -/
def changeOf (nPass : Nat) (nChange : Int) (vout : List CTxOut) : Change :=
  if nChange > 0 then
    match combineIndex payment vout with
    | some index => .combined index nChange
    | none =>
        let out : CTxOut :=
          { nValue := nChange
            scriptPubKey := payment.destChange.getD wallet.scriptReserved }
        if wallet.isDust out then .none
        else .output (wallet.getRandInt nPass (vout.length + 1)) out
  else .none

/-! ## A pass -/

/-- Why there is not enough. -/
def insufficientReason : String :=
  (match payment.coin_type with
    | .ALL_COINS => "Insufficient funds."
    | .ONLY_NOT10000IFMN => "Unable to locate enough funds for this transaction that are not equal 10000 AGR."
    | .ONLY_NONDENOMINATED_NOT10000IFMN => "Unable to locate enough Obfuscation non-denominated funds for this transaction that are not equal 10000 AGR."
    | _ => "Unable to locate enough Obfuscation denominated funds for this transaction. Obfuscation uses exact denominated amounts to send funds, you might simply need to anonymize some more coins.") ++
  if payment.useIX then
    " SwiftX requires inputs with at least 6 confirmations, you might need to wait a few minutes and try again."
  else ""

/-- `nFeePay`, which is at least a cent for SwiftX. -/
def Payment.feePay : Int :=
  if payment.useIX ∧ payment.nFeePay < CENT then CENT else payment.nFeePay

variable (nValue : Int)

/-- `nTotalValue`. -/
def Payment.totalValue (nFeeRet : Int) : Int :=
  nValue + if payment.fSubtractFeeFromAmount then 0 else nFeeRet

/-- The transaction that a pass makes of the coins it has selected, before it is signed.
For denominated transactions all that is left is the fee. -/
def draft (pass : Pass) (payouts : List (List CTxOut)) (r : Selected) : Created :=
  let nChange := r.nValueRet - nValue - pass.nFeeRet
  if payment.coin_type = .ONLY_DENOMINATED then
    { setCoins := r.setCoinsRet
      payouts
      change := .none
      nFeeRet := pass.nFeeRet + nChange }
  else
    let change := changeOf wallet payment pass.nPass nChange payouts.flatten
    { setCoins := r.setCoinsRet
      payouts
      change
      nFeeRet := pass.nFeeRet + if nChange > 0 then nChange - change.nValue else 0 }

/-- What is done with it: it is signed, and the fee is compared with the one it needs.  If that
is more, the next pass includes it. -/
def finishPass (pass : Pass) (tx : Created) : Attempted Pass CreateEnd :=
  match wallet.signedSize pass.nPass tx.vin tx.vout with
  | none => .stop (.failed "Signing transaction failed")
  | some nBytes =>
      if nBytes ≥ MAX_STANDARD_TX_SIZE then .stop (.failed "Transaction too large")
      -- can it be completed as a free transaction?
      else if wallet.fSendFreeTransactions ∧ nBytes ≤ MAX_FREE_TRANSACTION_CREATE_SIZE ∧
          wallet.enoughPriority tx.setCoins nBytes then .stop (.created tx)
      else
        let nFeeNeeded := max payment.feePay (wallet.getMinimumFee nBytes)
        if nFeeNeeded < wallet.relayFee nBytes then
          .stop (.failed "Transaction too large for fee policy")
        else if tx.nFeeRet ≥ nFeeNeeded then .stop (.created tx)
        else .next { nPass := pass.nPass + 1, nFeeRet := nFeeNeeded }

/-- A pass of the loop. -/
def createPass (pass : Pass) : Attempted Pass CreateEnd :=
  let nTotalValue := payment.totalValue nValue pass.nFeeRet
  if ¬ FitsInt64 nTotalValue then .stop .overflow
  else
    match payees wallet payment pass.nFeeRet 0 payment.vecSend with
    | .error result => .stop result
    | .ok payouts =>
        if selectOverflows wallet payment nTotalValue then .stop .overflow
        else
          let r := selectCoins wallet payment pass.nPass nTotalValue
          if r.fSuccess then
            finishPass wallet payment pass (draft wallet payment nValue pass payouts r)
          else .stop (.failed (insufficientReason payment))

/-! ## The call -/

omit nValue in
/-- The sum of the amounts, as it is checked. -/
def addAmounts : Int → List (CScript × Int) → Except CreateEnd Int
  | nValue, [] => .ok nValue
  | nValue, s :: rest =>
      if nValue < 0 then .error (.failed "Transaction amounts must be positive")
      else if ¬ FitsInt64 (nValue + s.2) then .error .overflow
      else addAmounts (nValue + s.2) rest

/-- The first pass, with the fee that is to be paid. -/
def Payment.firstPass : Pass := { nPass := 0, nFeeRet := max 0 payment.feePay }

omit nValue in
/-- `CreateTransaction`, with a bound on the passes. -/
def createTransaction (passes : Nat) : Option CreateEnd :=
  match addAmounts 0 payment.vecSend with
  | .error result => some result
  | .ok nValue =>
      if payment.vecSend.isEmpty ∨ nValue < 0 then
        some (.failed "Transaction amounts must be positive")
      else retry (createPass wallet payment nValue) passes payment.firstPass

end Create

/-! ## What is selected -/

section Selection

variable {wallet : PayingWallet} {payment : Payment} {nTargetValue nConfMine nConfTheirs : Int}

/-- Outputs none of which may be spent do not reach a target. -/
theorem selectCoinsMinConf_none {env : Selector} {vCoins : List COutput}
    (hnone : eligibleCoins nConfMine nConfTheirs vCoins = []) (hpos : 0 < nTargetValue) :
    (env.selectCoinsMinConf nTargetValue nConfMine nConfTheirs vCoins).fSuccess = false := by
  have hperm : (env.byDenom.sort (env.randomShuffle vCoins)).Perm vCoins :=
    (env.byDenom.perm _).trans (env.shuffle_perm _)
  have hsorted : eligibleCoins nConfMine nConfTheirs
      (env.byDenom.sort (env.randomShuffle vCoins)) = [] := by
    have hcoins := (hperm.filter (COutput.eligible nConfMine nConfTheirs)).map COutput.coin
    exact List.perm_nil.mp (hnone ▸ hcoins)
  unfold Selector.selectCoinsMinConf
  generalize env.byDenom.sort (env.randomShuffle vCoins) = vSorted at hsorted
  have hscan : ∀ tryDenom, env.scanCoins nTargetValue nConfMine nConfTheirs tryDenom vSorted
      ⟨[], 0, none⟩ = .ok ⟨[], 0, none⟩ := by
    intro tryDenom
    have hconsidered : env.consideredCoins nConfMine nConfTheirs tryDenom vSorted = [] :=
      List.sublist_nil.mp (hsorted ▸ Selector.consideredCoins_sublist)
    have hcollects : Selector.Collects nTargetValue
        (env.consideredCoins nConfMine nConfTheirs tryDenom vSorted) ⟨[], 0, none⟩
        (env.scanCoins nTargetValue nConfMine nConfTheirs tryDenom vSorted ⟨[], 0, none⟩) :=
      Selector.scanCoins_collects vSorted _ rfl
    rw [hconsidered] at hcollects
    revert hcollects
    cases env.scanCoins nTargetValue nConfMine nConfTheirs tryDenom vSorted ⟨[], 0, none⟩ with
    | error coin => exact fun h => absurd h.1 List.not_mem_nil
    | ok s =>
        intro h
        obtain ⟨vValue, nTotalLower, coinLowestLarger⟩ := s
        have hsmall : vValue = [] := h.small
        have hsum : nTotalLower = int64 (total vValue) := h.sum
        have hlarger : coinLowestLarger = none := by
          cases coinLowestLarger with
          | none => rfl
          | some coin =>
              rcases h.larger coin rfl with hbefore | hin
              · cases hbefore
              · exact absurd hin.1 List.not_mem_nil
        rw [hlarger, hsum, hsmall]
        rfl
  have hdenoms : ∀ tryDenom, env.tryDenoms nTargetValue nConfMine nConfTheirs vSorted tryDenom
      none = if tryDenom = 0 then .next ⟨[], 0, none⟩ else .ret Selected.failed := by
    intro tryDenom
    rw [Selector.tryDenoms, hscan tryDenom]
    dsimp only
    rw [if_neg hpos.ne, if_pos hpos]
  unfold Selector.trySorted
  rw [hdenoms 0, if_pos rfl]
  dsimp only
  rw [hdenoms 1]
  rfl

/-- Distinct outputs of a list that may be spent, with the sum of their values, which reaches
the target. -/
structure Selected.Funds (nTargetValue : Int) (vCoins : List COutput) (r : Selected) : Prop where
  distinct : r.setCoinsRet.Nodup
  spendable : ∀ out ∈ r.setCoinsRet, ∃ output ∈ vCoins, output.out = out ∧
    output.fSpendable = true
  exact : r.nValueRet = (r.setCoinsRet.map OutPtr.nValue).sum
  enough : nTargetValue ≤ r.nValueRet

theorem Selected.Pays.funds {vCoins : List COutput} {r : Selected}
    (h : r.Pays nTargetValue nConfMine nConfTheirs vCoins) : r.Funds nTargetValue vCoins where
  distinct := h.distinct
  spendable out hout := by
    obtain ⟨output, houtput, hsame, heligible⟩ := h.eligible out hout
    exact ⟨output, houtput, hsame, (Bool.and_eq_true _ _ ▸ heligible).1⟩
  exact := h.exact
  enough := h.enough

/-- All outputs that may be spent, however deep they are. -/
theorem funds_all {coins : CoinList}
    (henough : nTargetValue ≤ (Selected.ofCoins
      ((coins.vCoins.filter COutput.fSpendable).map COutput.coin)).nValueRet) :
    (Selected.ofCoins ((coins.vCoins.filter COutput.fSpendable).map COutput.coin)).Funds
      nTargetValue coins.vCoins := by
  obtain ⟨nConf, hdeep⟩ : ∃ nConf, ∀ output ∈ coins.vCoins, nConf ≤ output.nDepth := by
    induction coins.vCoins with
    | nil => exact ⟨0, fun output h => nomatch h⟩
    | cons output rest ih =>
        obtain ⟨nConf, hrest⟩ := ih
        refine ⟨min output.nDepth nConf, List.forall_mem_cons.mpr ⟨min_le_left _ _, ?_⟩⟩
        exact fun other hother => (min_le_right _ _).trans (hrest other hother)
  have hall : (coins.vCoins.filter COutput.fSpendable).map COutput.coin =
      eligibleCoins nConf nConf coins.vCoins := by
    refine congrArg (List.map _) (List.filter_congr fun output houtput => ?_)
    have hdepth := hdeep output houtput
    simp [COutput.eligible, hdepth]
  rw [hall] at henough ⊢
  rw [ofCoins_eq nodup_eligibleCoins, int64_total (List.Subperm.refl _)] at henough
  exact (pays_ofCoins (List.Subperm.refl _) henough).2.funds

theorem not_eligible_of_not_overflows (h : selectOverflows wallet payment nTargetValue = false)
    (hcontrol : payment.hasSelected = false) (hfit : ¬ FitsInt64 (nTargetValue + CENT))
    (hmine : (if wallet.bSpendZeroConfChange then 0 else 1) ≤ nConfMine) (htheirs : 1 ≤ nConfTheirs) :
    eligibleCoins nConfMine nConfTheirs wallet.coins.vCoins = [] := by
  rw [eligibleCoins, List.map_eq_nil_iff, List.filter_eq_nil_iff]
  intro output houtput heligible
  have hnone : wallet.coins.vCoins.any
      (COutput.eligible (if wallet.bSpendZeroConfChange then 0 else 1) 1) = false := by
    simpa [selectOverflows, hcontrol, hfit] using h
  have hnot := List.any_eq_false.mp hnone output houtput
  refine hnot ?_
  simp only [COutput.eligible, Bool.and_eq_true, Bool.not_eq_true', decide_eq_false_iff_not,
    not_lt] at heligible ⊢
  refine ⟨heligible.1, le_trans ?_ heligible.2⟩
  split
  · exact hmine
  · exact htheirs

theorem search_funds {env : Selector}
    (hfits : selectOverflows wallet payment nTargetValue = false)
    (hcontrol : payment.hasSelected = false) (hlow : 0 ≤ nTargetValue)
    (hmine : (if wallet.bSpendZeroConfChange then 0 else 1) ≤ nConfMine) (htheirs : 1 ≤ nConfTheirs)
    (hsuccess : (env.selectCoinsMinConf nTargetValue nConfMine nConfTheirs
      wallet.coins.vCoins).fSuccess = true) :
    (env.selectCoinsMinConf nTargetValue nConfMine nConfTheirs wallet.coins.vCoins).Funds
      nTargetValue wallet.coins.vCoins := by
  by_cases hfit : FitsInt64 (nTargetValue + CENT)
  · exact ((selectCoinsMinConf_spec env wallet.coins nTargetValue nConfMine nConfTheirs hfit).1
      hsuccess).funds
  · have hpos : 0 < nTargetValue := by
      have hcent : CENT = 1000000 := rfl
      unfold FitsInt64 at hfit
      omega
    rw [selectCoinsMinConf_none
      (not_eligible_of_not_overflows hfits hcontrol hfit hmine htheirs) hpos] at hsuccess
    cases hsuccess

/-- **`SelectCoins`**: if it succeeds, with or without coin control, it has selected distinct
outputs of the wallet that reach the target. -/
theorem selectCoins_spec {nPass : Nat}
    (hfits : selectOverflows wallet payment nTargetValue = false) (hlow : 0 ≤ nTargetValue)
    (hsuccess : (selectCoins wallet payment nPass nTargetValue).fSuccess = true) :
    (selectCoins wallet payment nPass nTargetValue).Funds nTargetValue wallet.coins.vCoins := by
  have hone : (if wallet.bSpendZeroConfChange then (0 : Int) else 1) ≤ 1 := by
    split <;> decide
  unfold selectCoins at hsuccess ⊢
  dsimp only at hsuccess ⊢
  cases hcontrol : payment.hasSelected with
  | true =>
      rw [hcontrol, if_pos rfl] at hsuccess
      rw [if_pos rfl]
      have hall := funds_all (of_decide_eq_true hsuccess)
      exact ⟨hall.distinct, hall.spendable, hall.exact, hall.enough⟩
  | false =>
      rw [hcontrol, if_neg Bool.false_ne_true] at hsuccess
      rw [if_neg Bool.false_ne_true]
      split_ifs at hsuccess ⊢ with hdeep hshallow hzero
      · exact search_funds hfits hcontrol hlow hone (by decide) hdeep
      · exact search_funds hfits hcontrol hlow hone (by decide) hshallow
      · exact search_funds hfits hcontrol hlow (by rw [if_pos hzero]) (by decide) hsuccess
      · exact absurd hsuccess hshallow

end Selection

/-! ## What the recipients get -/

section Recipients

variable {wallet : PayingWallet} {payment : Payment} {nFeeRet : Int}

/-- If the amounts are split, then in one part at least. -/
def Payment.Splits (payment : Payment) : Prop := ∀ n, payment.splitBlock = some n → 1 ≤ n

/-- What the shares of a fee add up to. -/
def Payment.shares (payment : Payment) (nFeeRet : Int) : Int :=
  ((List.range payment.vecSend.length).map (payment.subtractFee nFeeRet)).sum

/-- The outputs to a recipient who pays a share of the fee. -/
structure Receives (s : CScript × Int) (nShare : Int) (outs : List CTxOut) : Prop where
  some : outs ≠ []
  script : ∀ out ∈ outs, out.scriptPubKey = s.1
  exact : (outs.map CTxOut.nValue).sum = s.2 - nShare

theorem subtractFee_nonneg (hfee : 0 ≤ nFeeRet) (i : Nat) : 0 ≤ payment.subtractFee nFeeRet i := by
  unfold Payment.subtractFee
  split
  · next hmem =>
      have hpos : (0 : Int) < payment.setSubtractFeeFromOutputs.length := by
        exact_mod_cast List.length_pos_of_mem hmem
      have hpart := Int.ediv_nonneg hfee hpos.le
      have hrest := Int.emod_nonneg nFeeRet hpos.ne'
      split <;> omega
  · exact le_refl 0

theorem subtractFee_of_notMem {i : Nat}
    (h : (i : Int) ∉ payment.setSubtractFeeFromOutputs) : payment.subtractFee nFeeRet i = 0 :=
  if_neg h

theorem shares_eq_zero (h : payment.fSubtractFeeFromAmount = false) :
    payment.shares nFeeRet = 0 := by
  have hempty : payment.setSubtractFeeFromOutputs = [] := by
    simpa [Payment.fSubtractFeeFromAmount] using h
  refine List.sum_eq_zero fun n hn => ?_
  obtain ⟨i, -, rfl⟩ := List.mem_map.mp hn
  exact subtractFee_of_notMem (hempty ▸ List.not_mem_nil)

/-- The parts of an amount; what is left over is in the last one. -/
theorem sum_split {n nAmount : Int} (hn : 1 ≤ n) :
    ((List.range n.toNat).map fun (j : Nat) =>
      if (j : Int) = n - 1 then nAmount / n + nAmount % n else nAmount / n).sum = nAmount := by
  obtain ⟨m, rfl⟩ : ∃ m : Nat, n = m + 1 := ⟨(n - 1).toNat, by omega⟩
  have hlast : ((m : Int) + 1).toNat = m + 1 := by omega
  have hothers : ((List.range m).map fun (j : Nat) =>
      if (j : Int) = (m : Int) + 1 - 1 then nAmount / (m + 1) + nAmount % (m + 1)
      else nAmount / (m + 1)) = List.replicate m (nAmount / (m + 1)) := by
    refine List.eq_replicate_iff.mpr ⟨by simp, fun b hb => ?_⟩
    obtain ⟨j, hj, rfl⟩ := List.mem_map.mp hb
    have hlt := List.mem_range.mp hj
    exact if_neg (by omega)
  rw [hlast, List.range_succ, List.map_append, List.sum_append, hothers, List.sum_replicate]
  have hdiv := Int.mul_ediv_add_emod nAmount (m + 1)
  rw [List.map_singleton, List.sum_singleton, if_pos (by omega), nsmul_eq_mul]
  linarith

theorem payee_receives {scriptPubKey : CScript} {nAmount : Int} {outs : List CTxOut}
    (hsplits : payment.Splits) (h : payee wallet payment scriptPubKey nAmount = .ok outs) :
    Receives (scriptPubKey, nAmount) 0 outs := by
  unfold payee at h
  cases hsplit : payment.splitBlock with
  | none =>
      rw [hsplit] at h
      dsimp only at h
      split_ifs at h
      cases h
      exact ⟨List.cons_ne_nil _ _, by simp, by simp⟩
  | some n =>
      rw [hsplit] at h
      dsimp only at h
      split_ifs at h
      cases h
      have hn := hsplits n hsplit
      refine ⟨?_, ?_, ?_⟩
      · rw [Ne, List.map_eq_nil_iff, List.range_eq_nil]
        omega
      · intro out hout
        obtain ⟨j, -, rfl⟩ := List.mem_map.mp hout
        rfl
      · rw [List.map_map]
        exact (sum_split hn).trans (Int.sub_zero nAmount).symm

theorem payee_eq_nil {scriptPubKey : CScript} {nAmount n : Int} {outs : List CTxOut}
    (hsplit : payment.splitBlock = some n) (hn : n < 1)
    (h : payee wallet payment scriptPubKey nAmount = .ok outs) : outs = [] := by
  unfold payee at h
  rw [hsplit] at h
  dsimp only at h
  split_ifs at h
  cases h
  rw [List.map_eq_nil_iff, List.range_eq_nil]
  omega

theorem payees_cons {i : Nat} {s : CScript × Int} {rest : List (CScript × Int)}
    {outs : List (List CTxOut)} (h : payees wallet payment nFeeRet i (s :: rest) = .ok outs) :
    ∃ first others, outs = first :: others ∧
      payee wallet payment s.1 (s.2 - payment.subtractFee nFeeRet i) = .ok first ∧
      payees wallet payment nFeeRet (i + 1) rest = .ok others := by
  rw [payees] at h
  cases hfirst : payee wallet payment s.1 (s.2 - payment.subtractFee nFeeRet i) with
  | error result =>
      rw [hfirst] at h
      cases h
  | ok first =>
      rw [hfirst] at h
      dsimp only at h
      cases hothers : payees wallet payment nFeeRet (i + 1) rest with
      | error result =>
          rw [hothers] at h
          cases h
      | ok others =>
          rw [hothers] at h
          cases h
          exact ⟨first, others, rfl, rfl, rfl⟩

/-- The outputs of each recipient are those to him. -/
theorem payees_spec {i : Nat} {l : List (CScript × Int)} {outs : List (List CTxOut)}
    (h : payees wallet payment nFeeRet i l = .ok outs) :
    outs.length = l.length ∧ ∀ j s out, l[j]? = some s → outs[j]? = some out →
      payee wallet payment s.1 (s.2 - payment.subtractFee nFeeRet (i + j)) = .ok out := by
  induction l generalizing i outs with
  | nil =>
      cases h
      exact ⟨rfl, fun j s out hs => nomatch hs⟩
  | cons first rest ih =>
      obtain ⟨out, others, rfl, hfirst, hothers⟩ := payees_cons h
      obtain ⟨hlength, hrest⟩ := ih hothers
      refine ⟨congrArg Nat.succ hlength, fun j s out' hs hout => ?_⟩
      cases j with
      | zero =>
          cases hs
          cases hout
          exact hfirst
      | succ j =>
          rw [← Nat.succ_add_eq_add_succ]
          exact hrest j s out' hs hout

/-- All that is paid: the amounts without the shares of the fee. -/
theorem payees_sum {i : Nat} {l : List (CScript × Int)} {outs : List (List CTxOut)}
    (hsplits : payment.Splits) (h : payees wallet payment nFeeRet i l = .ok outs) :
    (outs.flatten.map CTxOut.nValue).sum = (l.map Prod.snd).sum -
      ((List.range' i l.length).map (payment.subtractFee nFeeRet)).sum := by
  induction l generalizing i outs with
  | nil =>
      cases h
      rfl
  | cons first rest ih =>
      obtain ⟨out, others, rfl, hfirst, hothers⟩ := payees_cons h
      have hpaid := (payee_receives hsplits hfirst).exact
      rw [List.flatten_cons, List.map_append, List.sum_append, ih hothers, hpaid,
        List.length_cons, List.range'_succ, List.map_cons, List.map_cons, List.sum_cons,
        List.sum_cons]
      dsimp only
      ring

end Recipients

/-! ## What becomes of the change -/

section TheChange

variable {wallet : PayingWallet} {payment : Payment} {nPass : Nat} {nChange : Int}
  {vout : List CTxOut}

/-- The change has a place among the outputs. -/
def Change.Fits (vout : List CTxOut) : Change → Prop
  | none => True
  | combined index _ => index < vout.length
  | output position _ => position ≤ vout.length

theorem Change.sum_apply {change : Change} (h : change.Fits vout) :
    ((change.apply vout).map CTxOut.nValue).sum =
      (vout.map CTxOut.nValue).sum + change.nValue := by
  cases change with
  | none => exact (Int.add_zero _).symm
  | combined index nChange =>
      obtain ⟨before, out, after, rfl, -, hmodify⟩ := List.exists_of_modify
        (fun out : CTxOut => { out with nValue := out.nValue + nChange }) h
      rw [apply, hmodify]
      simp only [List.map_append, List.map_cons, List.sum_append, List.sum_cons, nValue]
      ring
  | output position out =>
      have hperm := (List.perm_insertIdx out vout h).map CTxOut.nValue
      rw [apply, hperm.sum_eq, List.map_cons, List.sum_cons, Int.add_comm]
      rfl

theorem combineIndex_spec {index : Nat} (h : combineIndex payment vout = some index) :
    ∃ out, vout[index]? = some out ∧ payment.destChange = some out.scriptPubKey := by
  obtain ⟨scriptChange, hdest, hfind⟩ := Option.bind_eq_some_iff.mp h
  obtain ⟨hlt, hscript, -⟩ := List.findIdx?_eq_some_iff_getElem.mp hfind
  refine ⟨vout[index], List.getElem?_eq_getElem hlt, ?_⟩
  rw [hdest, of_decide_eq_true hscript]

theorem changeOf_of_nonpos (h : nChange ≤ 0) :
    changeOf wallet payment nPass nChange vout = .none := if_neg (not_lt.mpr h)

theorem changeOf_cases :
    changeOf wallet payment nPass nChange vout = .none ∨
      (∃ index, combineIndex payment vout = some index ∧
        changeOf wallet payment nPass nChange vout = .combined index nChange) ∨
      ∃ position out, position ≤ vout.length ∧ out.nValue = nChange ∧
        changeOf wallet payment nPass nChange vout = .output position out := by
  unfold changeOf
  split
  · cases hcombine : combineIndex payment vout with
    | some index => exact Or.inr (Or.inl ⟨index, rfl, rfl⟩)
    | none =>
        dsimp only
        split
        · exact Or.inl rfl
        · have hlt := wallet.randInt_lt nPass (vout.length + 1) (Nat.succ_pos _)
          exact Or.inr (Or.inr ⟨_, _, Nat.le_of_lt_succ hlt, rfl, rfl⟩)
  · exact Or.inl rfl

theorem changeOf_fits : (changeOf wallet payment nPass nChange vout).Fits vout := by
  rcases changeOf_cases with hnone | ⟨index, hindex, hcombined⟩ | ⟨position, out, hle, -, hout⟩
  · rw [hnone]
    trivial
  · rw [hcombined]
    obtain ⟨out, hout, -⟩ := combineIndex_spec hindex
    exact (List.getElem?_eq_some_iff.mp hout).1
  · rw [hout]
    exact hle

theorem changeOf_nValue (h : changeOf wallet payment nPass nChange vout ≠ .none) :
    (changeOf wallet payment nPass nChange vout).nValue = nChange := by
  rcases changeOf_cases with hnone | ⟨index, -, hcombined⟩ | ⟨position, out, -, hvalue, hout⟩
  · exact absurd hnone h
  · rw [hcombined]
    rfl
  · rw [hout]
    exact hvalue

end TheChange

end Agrarian.Wallet
