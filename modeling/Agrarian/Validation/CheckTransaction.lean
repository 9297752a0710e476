import Agrarian.Serialize.Stream
import Agrarian.Validation.ConnectBlock
import Agrarian.Validation.PrevOutputs

/-!
# What `CheckTransaction` makes sure of

`CheckTransaction` with its size limit and its loop over the outputs; the checks
of the inputs and of the spends are those of `PrevOutputs`.

A zerocoin spend has no previous output, so that the prevout of its input may be
null; and that a transaction with a zerocoin spend has no other inputs is
checked only where zerocoin is active.
-/

namespace Agrarian.Validation

open Agrarian.Lib Agrarian.Lib.Indexing
open Agrarian.Zerocoin (isZerocoin)
open Agrarian.PrevOutputs (SpendChecks countSpends checkBeforeSpends checkAfterSpends
  checkZerocoinSpend)

def MAX_ZEROCOIN_TX_SIZE : Nat := 150000

section Code

variable (params : CChainParams) (checkZerocoinMint : CTransaction → CTxOut → Bool)

/-- The loop of `CheckTransaction` over the outputs. -/
def outputsLoop (fZerocoinActive : Bool) (tx : CTransaction) : List CTxOut → Int → Bool
  | [], _ => true
  | txout :: vout, nValueOut =>
      if txout.isEmpty && !tx.isCoinBase && !tx.isCoinStake then false
      else if txout.nValue < 0 then false
      else if txout.nValue > params.nMaxMoneyOut then false
      else
        let nValueOut := int64 (nValueOut + txout.nValue)
        if !moneyRange params nValueOut then false
        else if fZerocoinActive && txout.isZerocoinMint && !checkZerocoinMint tx txout then false
        else outputsLoop fZerocoinActive tx vout nValueOut

/-- The size limit and the outputs. -/
def outputsValid (fZerocoinActive : Bool) (tx : CTransaction) : Bool :=
  !decide (Serialize.getSerializeSize tx > MAX_ZEROCOIN_TX_SIZE) &&
    outputsLoop params checkZerocoinMint fZerocoinActive tx tx.vout 0

/-- `CheckTransaction`. -/
def checkTransaction (checks : SpendChecks) (node : Stake.Node) (fZerocoinActive : Bool)
    (tx : CTransaction) : Option Unit :=
  PrevOutputs.checkTransaction
    { checks with outputsValid := outputsValid params checkZerocoinMint } node fZerocoinActive tx

end Code

variable {params : CChainParams} {checkZerocoinMint : CTransaction → CTxOut → Bool}

/-! ## The outputs -/

/-- The amounts that the loop adds up, before and after each output. -/
structure RunningSum (params : CChainParams) (nStart nValue : Int) : Prop where
  before : moneyRange params nStart = true
  value : moneyRange params nValue = true
  after : moneyRange params (nStart + nValue) = true
  exact : int64 (nStart + nValue) = nStart + nValue

/-- **The running sum** never leaves the money range, and is the exact sum. -/
theorem outputsLoop_runs {fZerocoinActive : Bool} {tx : CTransaction} {vout : List CTxOut}
    {nStart : Int} (hstart : moneyRange params nStart = true)
    (h : outputsLoop params checkZerocoinMint fZerocoinActive tx vout nStart = true) :
    moneyRange params (nStart + (vout.map CTxOut.nValue).sum) = true ∧
      ∀ before txout after, vout = before ++ txout :: after →
        RunningSum params (nStart + (before.map CTxOut.nValue).sum) txout.nValue := by
  induction vout generalizing nStart with
  | nil =>
      refine ⟨by simpa using hstart, fun before txout after heq => ?_⟩
      simp at heq
  | cons out vout ih =>
      rw [outputsLoop] at h
      split at h
      · cases h
      split at h
      · cases h
      · next hnegative =>
          split at h
          · cases h
          · next hlarge =>
              dsimp only at h
              split at h
              · cases h
              · next htotal =>
                  split at h
                  · cases h
                  · have hvalue : moneyRange params out.nValue = true :=
                      moneyRange_iff.mpr ⟨by omega, by omega⟩
                    have htotal' : moneyRange params (int64 (nStart + out.nValue)) = true := by
                      simpa using htotal
                    have hexact := int64_add_of_moneyRange hstart hvalue htotal'
                    rw [hexact] at htotal' h
                    rcases ih htotal' h with ⟨hsum, hruns⟩
                    constructor
                    · rw [List.map_cons, List.sum_cons, ← Int.add_assoc]
                      exact hsum
                    · intro before txout after heq
                      cases before with
                      | nil =>
                          rw [List.nil_append, List.cons.injEq] at heq
                          rw [← heq.1, List.map_nil, List.sum_nil, Int.add_zero]
                          exact ⟨hstart, hvalue, htotal', hexact⟩
                      | cons first before =>
                          rw [List.cons_append, List.cons.injEq] at heq
                          rw [← heq.1, List.map_cons, List.sum_cons, ← Int.add_assoc]
                          exact hruns before txout after heq.2

/-! ## The inputs -/

/-- The outpoints of the inputs that are no private spends. -/
def spentOutpoints (vin : List CTxIn) : List COutPoint :=
  (vin.filter fun txin => !txin.isZerocoinSpend).map CTxIn.prevout

theorem countSpends_nodup {vin : List CTxIn} {vInOutPoints : List COutPoint} {n count : Nat}
    (h : countSpends vin vInOutPoints n = some count) :
    (spentOutpoints vin).Nodup ∧ ∀ p ∈ spentOutpoints vin, p ∉ vInOutPoints := by
  induction vin generalizing vInOutPoints n with
  | nil =>
      refine ⟨List.nodup_nil, fun p hp => ?_⟩
      cases hp
  | cons txin vin ih =>
      rw [countSpends] at h
      split at h
      · cases h
      · next hnew =>
          have hfresh : txin.prevout ∉ vInOutPoints := by simpa using hnew
          split at h
          · next hordinary =>
              rcases ih h with ⟨hnodup, hdisjoint⟩
              have hcons : spentOutpoints (txin :: vin) = txin.prevout :: spentOutpoints vin := by
                rw [spentOutpoints, List.filter_cons, if_pos hordinary]
                rfl
              rw [hcons]
              refine ⟨List.nodup_cons.mpr ⟨fun hmem => ?_, hnodup⟩, fun p hp => ?_⟩
              · exact hdisjoint _ hmem List.mem_cons_self
              · rcases List.mem_cons.mp hp with rfl | hp
                · exact hfresh
                · exact fun hmem => hdisjoint p hp (List.mem_cons_of_mem _ hmem)
          · next hspend =>
              have hskip : spentOutpoints (txin :: vin) = spentOutpoints vin := by
                rw [spentOutpoints, List.filter_cons, if_neg hspend]
                rfl
              rw [hskip]
              split at h
              · exact ih h
              · exact ih h

/-! ## Accepted transactions -/

variable {checks : SpendChecks} {node : Stake.Node} {fZerocoinActive : Bool} {tx : CTransaction}

/-- An accepted transaction passed the checks before and after the spends. -/
theorem checkTransaction_some
    (h : checkTransaction params checkZerocoinMint checks node fZerocoinActive tx = some ()) :
    checkBeforeSpends { checks with outputsValid := outputsValid params checkZerocoinMint }
        fZerocoinActive tx = true ∧
      checkAfterSpends { checks with outputsValid := outputsValid params checkZerocoinMint }
        fZerocoinActive tx = true := by
  rw [checkTransaction, PrevOutputs.checkTransaction] at h
  rcases Option.bind_eq_some_iff.mp h with ⟨_, hbefore, hrest⟩
  rcases Option.bind_eq_some_iff.mp hrest with ⟨_, _, hafter⟩
  exact ⟨check_eq_some.mp hbefore, check_eq_some.mp hafter⟩

/-- Where zerocoin is active only a zerocoin spend has a null prevout outside of a
coinbase. -/
theorem checkAfterSpends_null (hafter : checkAfterSpends checks true tx = true)
    (hinputs : tx.hasZerocoinSpendInputs = true → ∀ txin ∈ tx.vin, isZerocoin txin = true)
    (hcoinbase : tx.isCoinBase = false) {txin : CTxIn} (hmem : txin ∈ tx.vin)
    (hnull : txin.prevout.isNull = true) : isZerocoin txin = true := by
  cases hspends : tx.hasZerocoinSpendInputs with
  | true => exact hinputs hspends txin hmem
  | false =>
      rw [checkAfterSpends, if_neg (by simp [hcoinbase]), if_neg (by simp [hspends]),
        List.all_eq_true] at hafter
      have hprevout := hafter txin hmem
      rw [hnull] at hprevout
      have hspend : txin.isZerocoinSpend = true := by simpa using hprevout
      rw [isZerocoin, hspend, Bool.true_or]

/-- **What holds of an accepted transaction.**  Its outputs and their running sum
are in the money range, without overflow, and inputs that are no private spends
have distinct outpoints.  Where zerocoin is active a transaction with a zerocoin
spend has no other inputs, and outside of a coinbase only zerocoin spends have a
null prevout. -/
theorem checkTransaction_accepted (params : CChainParams)
    (checkZerocoinMint : CTransaction → CTxOut → Bool) (checks : SpendChecks)
    (node : Stake.Node) (fZerocoinActive : Bool) (tx : CTransaction)
    (h : checkTransaction params checkZerocoinMint checks node fZerocoinActive tx = some ()) :
    (∀ txout ∈ tx.vout, moneyRange params txout.nValue = true) ∧
    moneyRange params (tx.vout.map CTxOut.nValue).sum = true ∧
    (∀ before txout after, tx.vout = before ++ txout :: after →
      FitsInt64 ((before.map CTxOut.nValue).sum + txout.nValue) ∧
      moneyRange params ((before.map CTxOut.nValue).sum + txout.nValue) = true) ∧
    (spentOutpoints tx.vin).Nodup ∧
    (fZerocoinActive = true →
      (tx.hasZerocoinSpendInputs = true → ∀ txin ∈ tx.vin, isZerocoin txin = true) ∧
      (tx.isCoinBase = false → ∀ txin ∈ tx.vin, txin.prevout.isNull = true →
        isZerocoin txin = true)) := by
  rcases checkTransaction_some h with ⟨hbefore, hafter⟩
  simp only [checkBeforeSpends, Bool.and_eq_true, outputsValid, Option.any_eq_true] at hbefore
  rcases hbefore with ⟨⟨-, -, hloop⟩, count, hcount, hspends⟩
  rcases outputsLoop_runs moneyRange_zero hloop with ⟨hsum, hruns⟩
  have hinputs : fZerocoinActive = true → tx.hasZerocoinSpendInputs = true →
      ∀ txin ∈ tx.vin, isZerocoin txin = true := by
    rintro rfl hspend
    simp only [Bool.not_true, Bool.false_or, Bool.and_eq_true, Bool.or_eq_true,
      Bool.not_eq_true', List.all_eq_true] at hspends
    exact hspends.2.resolve_left (by simp [hspend])
  refine ⟨fun txout hmem => ?_, by simpa using hsum, fun before txout after heq => ?_,
    (countSpends_nodup hcount).1, fun hactive => ⟨hinputs hactive, fun hcoinbase txin hmem hnull =>
      ?_⟩⟩
  · rcases List.append_of_mem hmem with ⟨before, after, heq⟩
    exact (hruns before txout after heq).value
  · have hrun := hruns before txout after heq
    rw [Int.zero_add] at hrun
    exact ⟨int64_eq_self_iff.mp hrun.exact, hrun.after⟩
  · subst hactive
    exact checkAfterSpends_null hafter (hinputs rfl) hcoinbase hmem hnull

/-- A spend of one zerocoin. -/
def spendOne : CTransaction where
  hash := 11
  vin := [{ prevout := COutPoint.null
            scriptSig := [CScript.OP_ZEROCOINSPEND]
            nSequence := 1 }]
  vout := [⟨COIN, [CScript.OP_DUP], -10⟩]

/-- Checks that read the spend of one zerocoin and find it valid. -/
def spendOneChecks : SpendChecks :=
  { PrevOutputs.openChecks with coinSpendOf := fun _ => ⟨some .ZQ_ONE, 0, 9⟩ }

theorem spendOne_accepted :
    checkTransaction mainParams (fun _ _ => true) spendOneChecks PrevOutputs.poolTree.toNode true
      spendOne = some () :=
  rfl

/-- A zerocoin spend is no coinbase and has a null prevout. -/
theorem spend_accepted_null :
    ¬ ∀ (params : CChainParams) (checkZerocoinMint : CTransaction → CTxOut → Bool)
      (checks : SpendChecks) (node : Stake.Node) (fZerocoinActive : Bool) (tx : CTransaction),
      checkTransaction params checkZerocoinMint checks node fZerocoinActive tx = some () →
      tx.isCoinBase = false → ∀ txin ∈ tx.vin, txin.prevout.isNull = false := by
  intro h
  have hnull := h mainParams (fun _ _ => true) spendOneChecks PrevOutputs.poolTree.toNode true
    spendOne spendOne_accepted rfl _ List.mem_cons_self
  cases hnull

theorem checkTransaction_accepted_spendOne :
    moneyRange mainParams (spendOne.vout.map CTxOut.nValue).sum = true :=
  (checkTransaction_accepted mainParams (fun _ _ => true) spendOneChecks
    PrevOutputs.poolTree.toNode true spendOne spendOne_accepted).2.1

end Agrarian.Validation
