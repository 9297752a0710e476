import Agrarian.Lib.Attempts
import Agrarian.Script.Standard
import Agrarian.Serialize.Stream
import Agrarian.Validation.MasternodeShare

/-!
# Creating a coinstake

`CWallet::CreateCoinStake` of `wallet.cpp`, which fills one transaction in a loop over the inputs
that may be staked.  An input can be abandoned at five points: three of them before its outputs are
inserted into the transaction, and two after that.  At one of the two the outputs stay, and at the
other all outputs are removed, with the empty one that marks a coinstake.
-/

namespace Agrarian.Wallet

open Agrarian.Lib Agrarian.Script Agrarian.Validation Agrarian.Masternode

/-! ## Inputs -/

/-- `CPivStake`, an output, and `CZPivStake`, with the new mints, the input that spends the coin and
whether it can be marked as spent. -/
inductive CStakeInput
  | piv (txFrom : CTransaction) (nPosition : Nat) (inTx : nPosition < txFrom.vout.length)
  | zpiv (denom : CoinDenomination) (pubCoins : Option (Nat → List UInt8)) (txIn : Option CTxIn)
      (markSpent : Bool)

/-- A stake input with what the loop finds for it. -/
structure StakeAttempt where
  stakeInput : CStakeInput
  /-- The wallet is locked, or a shutdown was requested. -/
  fStop : Bool
  /-- `GetIndexFrom` has an index above the genesis block. -/
  fIndex : Bool
  /-- The time that `Stake` finds a kernel for. -/
  kernel : Option Int
  /-- The lock of the spend cache is obtained. -/
  fLocked : Bool

/-- A node with its wallet. -/
structure StakeNode extends Node where
  params : CChainParams
  nMedianTimePast : Int
  fRegTest : Bool
  /-- The public key for a key id. -/
  getPubKey : List UInt8 → Option (List UInt8)
  /-- The signature of an input of a transaction with these outputs. -/
  sign : CTxIn → List CTxOut → Option CScript
  /-- The mint is known to the tracker, which is updated. -/
  updateMint : CTxOut → Bool

/-- `CMutableTransaction`. -/
structure CMutableTransaction where
  vin : List CTxIn
  vout : List CTxOut
  deriving DecidableEq, Repr

namespace CStakeInput

def isZAGR : CStakeInput → Bool
  | piv _ _ _ => false
  | zpiv _ _ _ _ => true

def getValue : CStakeInput → Int
  | piv txFrom nPosition inTx => (txFrom.vout.get ⟨nPosition, inTx⟩).nValue
  | zpiv denom _ _ _ => denom.toInt * COIN

/-- `CreateTxIn`, which spends an output in any case. -/
def createTxIn : CStakeInput → Option CTxIn
  | piv txFrom nPosition _ => some { prevout := ⟨txFrom.hash, nPosition⟩ }
  | zpiv _ _ txIn _ => txIn

/-- `MarkSpent`, for a coin only. -/
def marksSpent : CStakeInput → Bool
  | piv _ _ _ => true
  | zpiv _ _ _ markSpent => markSpent

/-- `Solver` throws in `CreateTxOuts`. -/
def solverThrows : CStakeInput → Bool
  | piv txFrom nPosition inTx => (solver (txFrom.vout.get ⟨nPosition, inTx⟩).scriptPubKey).isNone
  | zpiv _ _ _ _ => false

end CStakeInput

namespace StakeNode

variable (node : StakeNode)

/-- `GetBlockValue(chainActive.Height() + 1)`. -/
def nReward : Int := getBlockValueOfHeight node.params node.nHeight

/-- The script that a stake is paid to: a public key. -/
def stakeScript (scriptPubKeyKernel : CScript) : Option CScript :=
  match solver scriptPubKeyKernel with
  | some (true, .TX_PUBKEY, _) => some scriptPubKeyKernel
  | some (true, .TX_PUBKEYHASH, vSolutions) =>
      (node.getPubKey (vSolutions.headD [])).map fun key =>
        pushVector key ++ [CScript.OP_CHECKSIG]
  | _ => none

/-- `CreateTxOuts`. -/
def createTxOuts (nTotal : Int) : CStakeInput → Option (List CTxOut)
  | .piv txFrom nPosition inTx =>
      (node.stakeScript (txFrom.vout.get ⟨nPosition, inTx⟩).scriptPubKey).map fun scriptPubKey =>
        { nValue := 0, scriptPubKey } ::
          if node.nStakeSplitThreshold * COIN < nTotal.tdiv 2 then
            [{ nValue := 0, scriptPubKey }]
          else []
  | .zpiv denom pubCoins _ _ =>
      pubCoins.map fun pubCoin =>
        [StakeInput.mintOut denom (pubCoin 0), StakeInput.mintOut .ZQ_ONE (pubCoin 1),
          StakeInput.mintOut .ZQ_ONE (pubCoin 2), StakeInput.mintOut .ZQ_ONE (pubCoin 3)]

def nCredit (input : CStakeInput) : Int := input.getValue + node.nReward

end StakeNode

/-- Sets the output amounts, if the outputs they are for are there. -/
def setAmounts (isZAGR : Bool) (nCredit : Int) (vout : List CTxOut) : Option (List CTxOut) :=
  if isZAGR then some vout
  else if vout.length = 3 then
    let nFirst := (nCredit.tdiv 2).tdiv CENT * CENT
    some ((vout.modify 1 fun out => { out with nValue := nFirst }).modify 2
      fun out => { out with nValue := nCredit - nFirst })
  else if vout.length ≤ 1 then none
  else some (vout.modify 1 fun out => { out with nValue := nCredit })

/-! ## The loop -/

/-- How `CreateCoinStake` ends: outside the outputs, with `false`, or with the transaction, whose
stake is kept for the record. -/
inductive StakeResult
  | fault
  | failed
  | created (txNew : CMutableTransaction) (stakeInput : CStakeInput)

def DEFAULT_BLOCK_MAX_SIZE : Nat := 750000

namespace StakeNode

variable (node : StakeNode)

/-- Signs the input, or updates the mints. -/
def finish (txNew : CMutableTransaction) (stakeInput : CStakeInput) : StakeResult :=
  if !(txNew.vin.head?.any fun txin => txin.scriptSig.isZerocoinSpend) then
    match txNew.vin.mapM fun txin =>
        (node.sign txin txNew.vout).map fun scriptSig => { txin with scriptSig } with
    | none => .failed
    | some vin => .created { txNew with vin } stakeInput
  else if (txNew.vout.filter CTxOut.isZerocoinMint).all node.updateMint then
    .created txNew stakeInput
  else .failed

/-- The body of the loop from the new outputs on.  They stay in the transaction when the lock is
not obtained. -/
def insertOuts (txNew : CMutableTransaction) (a : StakeAttempt) (vout : List CTxOut) :
    Attempted CMutableTransaction StakeResult :=
  match setAmounts a.stakeInput.isZAGR (node.nCredit a.stakeInput) (txNew.vout ++ vout) with
  | none => .stop .fault
  | some vout =>
      if DEFAULT_BLOCK_MAX_SIZE / 5 ≤ Serialize.getSerializeSize
          { hash := 0, vin := txNew.vin, vout := vout } then
        .stop .failed
      else
        let vout := node.fillBlockPayee node.params vout true
        if !a.fLocked then .next { txNew with vout }
        else
          match a.stakeInput.createTxIn with
          | none => .next ⟨[], []⟩
          | some txin =>
              let txNew := ⟨txNew.vin ++ [txin], vout⟩
              if !a.stakeInput.marksSpent then .stop .failed
              else .stop (node.finish txNew a.stakeInput)

/-- The body of the loop. -/
def tryStake (txNew : CMutableTransaction) (a : StakeAttempt) :
    Attempted CMutableTransaction StakeResult :=
  if a.fStop then .stop .failed
  else if !a.fIndex then .next txNew
  else
    match a.kernel with
    | none => .next txNew
    | some nTxNewTime =>
        if nTxNewTime ≤ node.nMedianTimePast ∧ !node.fRegTest then .next txNew
        else if a.stakeInput.solverThrows then .stop .fault
        else
          match node.createTxOuts (node.nCredit a.stakeInput) a.stakeInput with
          | none => .next txNew
          | some vout => node.insertOuts txNew a vout

/-- `CreateCoinStake` for the inputs that were selected. -/
def createCoinStake (attempts : List StakeAttempt) : StakeResult :=
  tryEach node.tryStake .failed attempts ⟨[], [emptyOut]⟩

end StakeNode

/-! ## The payee -/

section Payee

variable {node : Node} {params : CChainParams}

theorem modify_scripts {vout : List CTxOut} {i : Nat} {f : CTxOut → CTxOut}
    (h : ∀ out, (f out).scriptPubKey = out.scriptPubKey) :
    (vout.modify i f).map CTxOut.scriptPubKey = vout.map CTxOut.scriptPubKey := by
  induction vout generalizing i with
  | nil => cases i <;> rfl
  | cons out vout ih =>
      cases i with
      | zero => rw [List.modify_zero_cons, List.map_cons, List.map_cons, h]
      | succ i => rw [List.modify_succ_cons, List.map_cons, List.map_cons, ih]

/-- The script that is paid next to the staker. -/
def payeeScripts (node : Node) : List CScript :=
  if node.isBudgetBlock then
    ((node.budget.pays (node.nTip + 1)).map fun paid => paid.2.payee).toList
  else (node.payments.payee node.winningNode (node.nTip + 1)).toList

/-- `FillBlockPayee` appends a payee, and changes no other script. -/
theorem fillBlockPayee_scripts (vout : List CTxOut) :
    (node.fillBlockPayee params vout true).map CTxOut.scriptPubKey =
      vout.map CTxOut.scriptPubKey ++ payeeScripts node := by
  unfold Node.fillBlockPayee payeeScripts
  cases node.isBudgetBlock with
  | true =>
      rw [if_pos rfl, if_pos rfl]
      unfold CBudgetManager.fillBlockPayee
      cases node.budget.pays (node.nTip + 1) with
      | none => exact (List.append_nil _).symm
      | some paid => exact List.map_append
  | false =>
      rw [if_neg Bool.false_ne_true, if_neg Bool.false_ne_true]
      unfold CMasternodePayments.fillBlockPayee
      cases hpayee : node.payments.payee node.winningNode (node.nTip + 1) with
      | none => simp [hpayee]
      | some payee =>
          simp only [hpayee, if_true]
          split
          · rw [modify_scripts, List.map_append]
            · rfl
            · exact fun _ => rfl
          · exact List.map_append

theorem setAmounts_scripts {isZAGR : Bool} {nCredit : Int} {vout vout' : List CTxOut}
    (h : setAmounts isZAGR nCredit vout = some vout') :
    vout'.map CTxOut.scriptPubKey = vout.map CTxOut.scriptPubKey := by
  unfold setAmounts at h
  split_ifs at h
  · cases h
    rfl
  · cases h
    rw [modify_scripts, modify_scripts]
    · exact fun _ => rfl
    · exact fun _ => rfl
  · cases h
    rw [modify_scripts]
    exact fun _ => rfl

/-- Amounts are set behind the first output. -/
theorem setAmounts_head {isZAGR : Bool} {nCredit : Int} {vout vout' : List CTxOut}
    (h : setAmounts isZAGR nCredit vout = some vout') : vout'.head? = vout.head? := by
  cases vout with
  | nil =>
      cases isZAGR with
      | true => exact Option.some.inj h ▸ rfl
      | false => exact nomatch h
  | cons first rest =>
      unfold setAmounts at h
      split_ifs at h
      · exact Option.some.inj h ▸ rfl
      · exact Option.some.inj h ▸ rfl
      · exact Option.some.inj h ▸ rfl

end Payee

/-! ## One attempt -/

namespace StakeNode

variable {node : StakeNode} {a : StakeAttempt} {txNew : CMutableTransaction}

/-- The attempt has a kernel that is not too far in the past. -/
def findsKernel (node : StakeNode) (a : StakeAttempt) : Bool :=
  a.fIndex && a.kernel.any fun nTxNewTime => !(nTxNewTime ≤ node.nMedianTimePast && !node.fRegTest)

/-- The outputs of the attempt, if it gets as far as that. -/
def insertedOuts (node : StakeNode) (a : StakeAttempt) : Option (List CTxOut) :=
  if node.findsKernel a then node.createTxOuts (node.nCredit a.stakeInput) a.stakeInput else none

/-- The attempt finds a kernel, creates outputs and an input, and obtains the lock. -/
def finds (node : StakeNode) (a : StakeAttempt) : Bool :=
  (node.insertedOuts a).isSome && a.fLocked && a.stakeInput.createTxIn.isSome

/-- The attempt is abandoned after its outputs were inserted. -/
def AbandonedLate (node : StakeNode) (a : StakeAttempt) : Prop :=
  (node.insertedOuts a).isSome = true ∧ (a.fLocked && a.stakeInput.createTxIn.isSome) = false

theorem tryStake_eq (node : StakeNode) (txNew : CMutableTransaction) (a : StakeAttempt) :
    node.tryStake txNew a =
      if a.fStop then .stop .failed
      else if node.findsKernel a && a.stakeInput.solverThrows then .stop .fault
      else (node.insertedOuts a).elim (.next txNew) (node.insertOuts txNew a) := by
  unfold tryStake insertedOuts findsKernel
  by_cases hstop : a.fStop = true
  · rw [if_pos hstop, if_pos hstop]
  rw [if_neg hstop, if_neg hstop]
  cases a.fIndex with
  | false => rfl
  | true =>
      cases a.kernel with
      | none => rfl
      | some nTxNewTime =>
          by_cases hpast : nTxNewTime ≤ node.nMedianTimePast ∧ (!node.fRegTest) = true
          · have hkernel : (!(decide (nTxNewTime ≤ node.nMedianTimePast) && !node.fRegTest)) =
                false := by
              rw [Bool.not_eq_false', Bool.and_eq_true]
              exact ⟨decide_eq_true hpast.1, hpast.2⟩
            simp only [Option.any_some, hkernel, Bool.and_false, Bool.false_and,
              Bool.false_eq_true, if_false, Option.elim_none, Bool.not_true, if_pos hpast]
          · have hkernel : (!(decide (nTxNewTime ≤ node.nMedianTimePast) && !node.fRegTest)) =
                true := by
              rw [Bool.not_eq_true', Bool.and_eq_false_imp]
              exact fun hle => Bool.not_eq_true _ ▸ fun h => hpast ⟨of_decide_eq_true hle, h⟩
            simp only [Option.any_some, hkernel, Bool.and_true, Bool.true_and, if_true,
              Bool.not_true, Bool.false_eq_true, if_false, if_neg hpast]
            split
            · rfl
            · cases node.createTxOuts (node.nCredit a.stakeInput) a.stakeInput with
              | none => rfl
              | some vout => rfl

theorem createTxOuts_of_insertedOuts {vout : List CTxOut}
    (h : node.insertedOuts a = some vout) :
    node.createTxOuts (node.nCredit a.stakeInput) a.stakeInput = some vout := by
  unfold insertedOuts at h
  split at h
  · exact h
  · cases h

theorem createTxOuts_ne_nil {nTotal : Int} {input : CStakeInput} {vout : List CTxOut}
    (h : node.createTxOuts nTotal input = some vout) : vout ≠ [] := by
  cases input with
  | piv txFrom nPosition inTx =>
      obtain ⟨scriptPubKey, -, rfl⟩ := Option.map_eq_some_iff.mp h
      exact List.cons_ne_nil _ _
  | zpiv denom pubCoins txIn markSpent =>
      obtain ⟨pubCoin, -, rfl⟩ := Option.map_eq_some_iff.mp h
      exact List.cons_ne_nil _ _

/-- Amounts that could be set are for outputs behind the first. -/
theorem length_setAmounts {isZAGR : Bool} {nCredit : Int} {vout vout' : List CTxOut}
    (h : setAmounts isZAGR nCredit vout = some vout') (hcoin : isZAGR = false) :
    vout.length ≠ 1 := by
  unfold setAmounts at h
  rw [hcoin, if_neg Bool.false_ne_true] at h
  split_ifs at h with hthree hone
  · omega
  · omega

/-- The mints of a coin and its reward. -/
theorem length_createTxOuts_of_isZAGR {nTotal : Int} {input : CStakeInput} {vout : List CTxOut}
    (h : node.createTxOuts nTotal input = some vout) (hcoin : input.isZAGR = true) :
    vout.length = 4 := by
  cases input with
  | piv txFrom nPosition inTx => cases hcoin
  | zpiv denom pubCoins txIn markSpent =>
      obtain ⟨pubCoin, -, rfl⟩ := Option.map_eq_some_iff.mp h
      rfl

/-- How the body of the loop ends once there are outputs: outside the function, without the lock,
without an input, or with both. -/
theorem insertOuts_cases (node : StakeNode) (txNew : CMutableTransaction) (a : StakeAttempt)
    (vout : List CTxOut) :
    node.insertOuts txNew a vout = .stop .fault ∨ node.insertOuts txNew a vout = .stop .failed ∨
      ∃ vout', setAmounts a.stakeInput.isZAGR (node.nCredit a.stakeInput) (txNew.vout ++ vout) =
          some vout' ∧
        ((a.fLocked = false ∧ node.insertOuts txNew a vout =
            .next ⟨txNew.vin, node.fillBlockPayee node.params vout' true⟩) ∨
          (a.stakeInput.createTxIn = none ∧ node.insertOuts txNew a vout = .next ⟨[], []⟩) ∨
          ∃ txin, a.fLocked = true ∧ a.stakeInput.createTxIn = some txin ∧
            node.insertOuts txNew a vout = .stop (node.finish
              ⟨txNew.vin ++ [txin], node.fillBlockPayee node.params vout' true⟩ a.stakeInput)) := by
  unfold insertOuts
  cases hamounts : setAmounts a.stakeInput.isZAGR (node.nCredit a.stakeInput)
      (txNew.vout ++ vout) with
  | none => exact Or.inl rfl
  | some vout' =>
      dsimp only
      split
      · exact Or.inr (Or.inl rfl)
      · cases hlocked : a.fLocked with
        | false => exact Or.inr (Or.inr ⟨vout', rfl, Or.inl ⟨rfl, rfl⟩⟩)
        | true =>
            rw [if_neg (by decide)]
            cases htxin : a.stakeInput.createTxIn with
            | none => exact Or.inr (Or.inr ⟨vout', rfl, Or.inr (Or.inl ⟨rfl, rfl⟩)⟩)
            | some txin =>
                dsimp only
                split
                · exact Or.inr (Or.inl rfl)
                · exact Or.inr (Or.inr ⟨vout', rfl, Or.inr (Or.inr ⟨txin, rfl, rfl, rfl⟩)⟩)

/-- There are at least two outputs once their amounts are set. -/
theorem one_lt_length_of_setAmounts {vout vout' : List CTxOut}
    (hvout : node.createTxOuts (node.nCredit a.stakeInput) a.stakeInput = some vout)
    (h : setAmounts a.stakeInput.isZAGR (node.nCredit a.stakeInput) (txNew.vout ++ vout) =
      some vout') : 1 < vout'.length := by
  have hset := congrArg List.length (setAmounts_scripts h)
  rw [List.length_map, List.length_map, List.length_append] at hset
  have hpos := List.length_pos_iff.mpr (createTxOuts_ne_nil hvout)
  cases hcoin : a.stakeInput.isZAGR with
  | false =>
      have hne := length_setAmounts h hcoin
      rw [List.length_append] at hne
      omega
  | true =>
      have hmints := length_createTxOuts_of_isZAGR hvout hcoin
      omega

/-- An attempt that is not the last one: it leaves everything as it is, or not just one output. -/
theorem tryStake_next {txNew' : CMutableTransaction} (h : node.tryStake txNew a = .next txNew') :
    node.finds a = false ∧ (txNew.vin = [] → txNew'.vin = []) ∧
      ((¬ node.AbandonedLate a ∧ txNew' = txNew) ∨
        (node.AbandonedLate a ∧ txNew'.vout.length ≠ 1)) := by
  rw [tryStake_eq] at h
  unfold finds AbandonedLate
  split_ifs at h
  cases hinserted : node.insertedOuts a with
  | none =>
      rw [hinserted] at h
      cases h
      exact ⟨rfl, id, Or.inl ⟨fun hlate => (nomatch hlate.1), rfl⟩⟩
  | some vout =>
      rw [hinserted, Option.elim_some] at h
      rw [Option.isSome_some, Bool.true_and]
      have hvout := createTxOuts_of_insertedOuts hinserted
      rcases node.insertOuts_cases txNew a vout with hr | hr | ⟨vout', hamounts, hr⟩
      · exact nomatch hr.symm.trans h
      · exact nomatch hr.symm.trans h
      · rcases hr with ⟨hlocked, hr⟩ | ⟨hnone, hr⟩ | ⟨txin, hlocked, htxin, hr⟩
        · obtain rfl := Attempted.next.inj (hr.symm.trans h)
          rw [hlocked]
          refine ⟨rfl, id, Or.inr ⟨⟨rfl, rfl⟩, ?_⟩⟩
          have hfill := congrArg List.length
            (@fillBlockPayee_scripts node.toNode node.params vout')
          rw [List.length_append, List.length_map, List.length_map] at hfill
          have htwo := one_lt_length_of_setAmounts hvout hamounts
          show (node.fillBlockPayee node.params vout' true).length ≠ 1
          omega
        · obtain rfl := Attempted.next.inj (hr.symm.trans h)
          rw [hnone, Option.isSome_none, Bool.and_false]
          exact ⟨rfl, fun _ => rfl, Or.inr ⟨⟨rfl, rfl⟩, Nat.zero_ne_one⟩⟩
        · exact nomatch hr.symm.trans h

theorem finish_created {tx : CMutableTransaction} {stakeInput staked : CStakeInput} {txin : CTxIn}
    (hvin : txNew.vin = [txin]) (h : node.finish txNew stakeInput = .created tx staked) :
    staked = stakeInput ∧ tx.vout = txNew.vout ∧ ∃ scriptSig, tx.vin = [{ txin with scriptSig }] := by
  unfold finish at h
  split at h
  · split at h
    · cases h
    · next vin hsigned =>
        cases h
        rw [hvin, List.mapM_cons, List.mapM_nil] at hsigned
        obtain ⟨signed, hsign, hnil⟩ := Option.bind_eq_some_iff.mp hsigned
        obtain ⟨scriptSig, -, rfl⟩ := Option.map_eq_some_iff.mp hsign
        cases hnil
        exact ⟨rfl, rfl, scriptSig, rfl⟩
  · split at h
    · cases h
      exact ⟨rfl, rfl, txin.scriptSig, hvin⟩
    · cases h

theorem tryStake_created {tx : CMutableTransaction} {staked : CStakeInput}
    (h : node.tryStake txNew a = .stop (.created tx staked)) (hvin : txNew.vin = []) :
    node.finds a = true ∧ staked = a.stakeInput ∧
      (∃ txin scriptSig, staked.createTxIn = some txin ∧ tx.vin = [{ txin with scriptSig }]) ∧
      ∃ vout vout', node.createTxOuts (node.nCredit staked) staked = some vout ∧
        setAmounts staked.isZAGR (node.nCredit staked) (txNew.vout ++ vout) = some vout' ∧
        tx.vout = node.fillBlockPayee node.params vout' true := by
  rw [tryStake_eq] at h
  split_ifs at h
  · cases h
  · cases h
  cases hinserted : node.insertedOuts a with
  | none =>
      rw [hinserted] at h
      cases h
  | some vout =>
      rw [hinserted, Option.elim_some] at h
      have hvout := createTxOuts_of_insertedOuts hinserted
      rcases node.insertOuts_cases txNew a vout with hr | hr | ⟨vout', hamounts, hr⟩
      · exact nomatch hr.symm.trans h
      · exact nomatch hr.symm.trans h
      · rcases hr with ⟨hlocked, hr⟩ | ⟨hnone, hr⟩ | ⟨txin, hlocked, htxin, hr⟩
        · exact nomatch hr.symm.trans h
        · exact nomatch hr.symm.trans h
        · have hone : txNew.vin ++ [txin] = [txin] := by rw [hvin, List.nil_append]
          obtain ⟨rfl, houts, scriptSig, hsigned⟩ :=
            finish_created hone (Attempted.stop.inj (hr.symm.trans h))
          refine ⟨?_, rfl, ⟨txin, scriptSig, htxin, hsigned⟩, vout, vout', hvout, hamounts, houts⟩
          rw [finds, hinserted, htxin, hlocked]
          rfl

/-! ## A transaction that starts from the empty output -/

/-- The transaction of a stake: one input, an empty first output, the outputs of this stake and
the payee's, and the value of the stake with the reward and the budget payment. -/
structure Proper (node : StakeNode) (tx : CMutableTransaction) (staked : CStakeInput) : Prop where
  oneInput : ∃ txin scriptSig, staked.createTxIn = some txin ∧ tx.vin = [{ txin with scriptSig }]
  emptyFirst : tx.vout.head? = some emptyOut
  noLeftover : ∃ vout, node.createTxOuts (node.nCredit staked) staked = some vout ∧
    tx.vout.map CTxOut.scriptPubKey =
      (node.fillBlockPayee node.params (emptyOut :: vout) true).map CTxOut.scriptPubKey
  total : (tx.vout.map CTxOut.nValue).sum =
    staked.getValue + node.nReward + if node.isBudgetBlock then node.budgetPayment else 0

/-- A stake is paid to a script that is not a mint. -/
theorem isZerocoinMint_stakeScript {scriptPubKeyKernel scriptPubKey : CScript}
    (h : node.stakeScript scriptPubKeyKernel = some scriptPubKey) :
    scriptPubKey.isZerocoinMint = false := by
  unfold stakeScript at h
  split at h
  · next vSolutions hsolved =>
      obtain rfl := Option.some.inj h
      cases hmint : scriptPubKeyKernel.isZerocoinMint with
      | false => rfl
      | true =>
          -- a mint has a type of its own
          unfold solver at hsolved
          simp only [hmint, if_true] at hsolved
          split_ifs at hsolved
          all_goals cases hsolved
  · next vSolutions hsolved =>
      obtain ⟨key, -, rfl⟩ := Option.map_eq_some_iff.mp h
      unfold pushVector
      split_ifs with hshort
      · have hne : UInt8.ofNat key.length ≠ CScript.OP_ZEROCOINMINT := by
          intro heq
          have hsize := congrArg UInt8.toNat heq
          rw [UInt8.toNat_ofNat'] at hsize
          have : key.length < 76 := hshort
          have : CScript.OP_ZEROCOINMINT.toNat = 193 := rfl
          omega
        simp [CScript.isZerocoinMint, CScript.startsWithOpcode, hne]
      · rfl
      · rfl
      · rfl
  · cases h

theorem setAmounts_agr {nCredit : Int} {vout vout' : List CTxOut}
    (h : setAmounts false nCredit vout = some vout') (nValue : Int) (scriptPubKey : CScript)
    (hkey : scriptPubKey.isZerocoinMint = false) :
    vout' = StakeInput.setAmounts nCredit vout (.agr nValue scriptPubKey hkey) := by
  unfold setAmounts at h
  unfold StakeInput.setAmounts
  rw [if_neg Bool.false_ne_true] at h
  dsimp only
  split_ifs at h ⊢
  · exact (Option.some.inj h).symm
  · exact (Option.some.inj h).symm

/-- The outputs of a stake behind the empty one are those that are made for a block. -/
theorem setAmounts_start {input : CStakeInput} {vout vout' : List CTxOut}
    (hvout : node.createTxOuts (node.nCredit input) input = some vout)
    (h : setAmounts input.isZAGR (node.nCredit input) (emptyOut :: vout) = some vout') :
    ∃ stake : StakeInput, vout' = node.stakeOuts node.params stake ∧
      stake.getValue = input.getValue ∧
      match stake with
      | .agr _ _ _ => input.isZAGR = false
      | .zagr _ _ => input.isZAGR = true := by
  cases input with
  | piv txFrom nPosition inTx =>
      obtain ⟨scriptPubKey, hscript, rfl⟩ := Option.map_eq_some_iff.mp hvout
      refine ⟨.agr (txFrom.vout.get ⟨nPosition, inTx⟩).nValue scriptPubKey
        (isZerocoinMint_stakeScript hscript), ?_, rfl, rfl⟩
      exact setAmounts_agr h (txFrom.vout.get ⟨nPosition, inTx⟩).nValue scriptPubKey
        (isZerocoinMint_stakeScript hscript)
  | zpiv denom pubCoins txIn markSpent =>
      obtain ⟨pubCoin, -, rfl⟩ := Option.map_eq_some_iff.mp hvout
      obtain rfl := Option.some.inj h
      exact ⟨.zagr denom pubCoin, rfl, rfl, rfl⟩

/-- The payee is behind an output that is not the only one. -/
theorem fillBlockPayee_head {vout : List CTxOut} (h : 1 < vout.length) :
    (node.fillBlockPayee node.params vout true).head? = vout.head? := by
  obtain ⟨first, second, rest, rfl⟩ : ∃ first second rest, vout = first :: second :: rest := by
    match vout, h with
    | first :: second :: rest, _ => exact ⟨first, second, rest, rfl⟩
  unfold Node.fillBlockPayee
  split
  · unfold CBudgetManager.fillBlockPayee
    cases node.budget.pays (node.nTip + 1) with
    | none => rfl
    | some paid => rfl
  · unfold CMasternodePayments.fillBlockPayee
    cases hpayee : node.payments.payee node.winningNode (node.nTip + 1) with
    | none => simp [hpayee]
    | some payee =>
        simp only [hpayee, if_true]
        split
        · rfl
        · rfl

/-- What is created over the stake is the reward exactly for a stake of coins. -/
theorem sum_stake_iff (node : StakeNode) (stake : StakeInput) :
    ((node.toNode.createCoinStake node.params stake).map CTxOut.nValue).sum =
        stake.getValue + node.nReward +
          (if node.isBudgetBlock then node.budgetPayment else 0) ↔
      match stake with
      | .agr _ _ _ => True
      | .zagr _ _ => False := by
  have hsum := @sum_createCoinStake node.params node.toNode stake
  have hreward : node.nReward = getBlockValueOfHeight node.params node.nHeight := rfl
  cases stake with
  | agr nValue scriptPubKey hkey =>
      dsimp only at hsum ⊢
      rw [hreward]
      exact ⟨fun _ => trivial, fun _ => by omega⟩
  | zagr denom pubCoin =>
      refine ⟨fun h => ?_, False.elim⟩
      -- the mints of the reward are three coins
      have hnext := @getBlockValueOfHeight_next node.params node.toNode
      have hcases : node.nReward = 50 * COIN ∨ node.nReward = 0 := by
        rw [hreward, hnext]
        exact ite_eq_or_eq _ _ _
      obtain ⟨hfour, hpay⟩ := four_payments_le node.params node.toNode
      unfold Node.masternodePayment at hfour hpay
      rw [← hreward] at hfour hpay hsum
      dsimp only at hsum
      rw [h] at hsum
      unfold COIN at hcases hsum
      cases hblock : node.isBudgetBlock with
      | true =>
          simp only [hblock, if_true] at hsum
          omega
      | false =>
          simp only [hblock, Bool.false_eq_true, if_false] at hsum
          cases hpayee : node.payee with
          | none =>
              rw [hpayee, Option.elim_none] at hsum
              omega
          | some payee =>
              rw [hpayee, Option.elim_some] at hsum
              omega

/-- From the empty output on, the transaction is as it should be for a stake of coins. -/
theorem proper_iff_of_start {tx : CMutableTransaction} {staked : CStakeInput}
    (h : node.tryStake ⟨[], [emptyOut]⟩ a = .stop (.created tx staked)) :
    node.Proper tx staked ↔ staked.isZAGR = false := by
  obtain ⟨-, rfl, hvin, vout, vout', hvout, hamounts, htx⟩ := tryStake_created h rfl
  obtain ⟨stake, hstake, hvalue, hkind⟩ := setAmounts_start hvout hamounts
  have hlength : 1 < vout'.length := one_lt_length_of_setAmounts hvout hamounts
  have htotal : (tx.vout.map CTxOut.nValue).sum = a.stakeInput.getValue + node.nReward +
      (if node.isBudgetBlock then node.budgetPayment else 0) ↔ a.stakeInput.isZAGR = false := by
    have hsum := node.sum_stake_iff stake
    unfold Node.createCoinStake at hsum
    rw [htx, hstake, ← hvalue, hsum]
    cases stake with
    | agr nValue scriptPubKey hkey => exact ⟨fun _ => hkind, fun _ => trivial⟩
    | zagr denom pubCoin => exact ⟨False.elim, fun hagr => nomatch hagr.symm.trans hkind⟩
  refine ⟨fun hproper => htotal.mp hproper.total, fun hagr => ⟨hvin, ?_, ⟨vout, hvout, ?_⟩,
    htotal.mpr hagr⟩⟩
  · rw [htx, fillBlockPayee_head hlength]
    exact setAmounts_head hamounts
  · rw [htx, fillBlockPayee_scripts, fillBlockPayee_scripts, setAmounts_scripts hamounts]
    rfl

/-- **The transaction is as it should be** if coins are staked and no input before was abandoned
with its outputs in the transaction. -/
theorem createCoinStake_proper_iff {attempts : List StakeAttempt} {tx : CMutableTransaction}
    {staked : CStakeInput} (h : node.createCoinStake attempts = .created tx staked) :
    node.Proper tx staked ↔
      (∀ a, attempts.find? node.finds = some a → a.stakeInput.isZAGR = false) ∧
        ∀ b ∈ attempts.takeWhile fun b => !node.finds b, ¬ node.AbandonedLate b := by
  obtain ⟨before, a, rest, txNew, rfl, hpasses, hstop⟩ := exists_stop h (by simp)
  have hkeep : ∀ s b s', node.tryStake s b = .next s' → ¬ node.AbandonedLate b → s' = s :=
    fun s b s' hstep hearly => (tryStake_next hstep).2.2.elim And.right fun hlate =>
      absurd hlate.1 hearly
  have hchange : ∀ s b s', node.tryStake s b = .next s' → node.AbandonedLate b →
      s'.vout.length ≠ 1 :=
    fun s b s' hstep hlate => (tryStake_next hstep).2.2.elim (fun hearly => absurd hlate hearly.1)
      And.right
  have hvin : txNew.vin = [] := hpasses.invariant (I := fun s => s.vin = [])
    (fun s b s' hstep hnil => (tryStake_next hstep).2.1 hnil) rfl
  obtain ⟨hfinds, rfl, -, vout, vout', hvout, hamounts, htx⟩ := tryStake_created hstop hvin
  have hbefore : ∀ b ∈ before, node.finds b = false := by
    intro b hb
    obtain ⟨s₁, s₂, hstep⟩ := hpasses.forall_next b hb
    exact (tryStake_next hstep).1
  obtain ⟨htake, hfind⟩ := @takeWhile_eq_of_first _ node.finds before rest a hbefore hfinds
  rw [htake, hfind]
  constructor
  · intro hproper
    have hnone : ∀ b ∈ before, ¬ node.AbandonedLate b := by
      intro b hb hlate
      -- the outputs of `b`, or none at all, are before those of the stake
      have hlength : txNew.vout.length ≠ 1 := hpasses.changed hkeep hchange hb hlate
      obtain ⟨vout₀, hvout₀, hscripts⟩ := hproper.noLeftover
      obtain rfl := Option.some.inj (hvout.symm.trans hvout₀)
      rw [htx, fillBlockPayee_scripts, fillBlockPayee_scripts, setAmounts_scripts hamounts]
        at hscripts
      have hlengths := congrArg List.length hscripts
      simp only [List.map_append, List.map_cons, List.length_append, List.length_cons,
        List.length_map] at hlengths
      omega
    obtain rfl := hpasses.unchanged hkeep hnone
    exact ⟨fun b hb => Option.some.inj hb ▸ (proper_iff_of_start hstop).mp hproper, hnone⟩
  · rintro ⟨hagr, hnone⟩
    obtain rfl := hpasses.unchanged hkeep hnone
    exact (proper_iff_of_start hstop).mpr (hagr a rfl)

section Example

/-- A node that signs everything. -/
def signingNode : StakeNode :=
  { plainNode with
    params := mainParams
    nMedianTimePast := 0
    fRegTest := false
    getPubKey := fun _ => none
    sign := fun _ _ => some []
    updateMint := fun _ => true }

def keyScript (byte : UInt8) : CScript := 33 :: (List.replicate 33 byte ++ [CScript.OP_CHECKSIG])

/-- The stake of a hundred coins that were paid to a key. -/
def keyAttempt (byte : UInt8) (fLocked : Bool) : StakeAttempt where
  stakeInput := .piv
    { hash := byte.toNat
      vin := []
      vout := [{ nValue := 100 * COIN, scriptPubKey := keyScript byte }] }
    0 Nat.one_pos
  fStop := false
  fIndex := true
  kernel := some 100
  fLocked := fLocked

theorem createCoinStake_proper_one :
    signingNode.createCoinStake [keyAttempt 2 true] =
        .created ⟨[{ prevout := ⟨2, 0⟩ }],
            [emptyOut, { nValue := 150 * COIN, scriptPubKey := keyScript 2 }]⟩
          (keyAttempt 2 true).stakeInput ∧
      signingNode.Proper ⟨[{ prevout := ⟨2, 0⟩ }],
          [emptyOut, { nValue := 150 * COIN, scriptPubKey := keyScript 2 }]⟩
        (keyAttempt 2 true).stakeInput := by
  refine ⟨rfl, (@createCoinStake_proper_iff signingNode [keyAttempt 2 true] _ _ rfl).mpr
    ⟨fun a ha => ?_, fun b hb => ?_⟩⟩
  · obtain rfl : keyAttempt 2 true = a := Option.some.inj ha
    rfl
  · have hnone : [keyAttempt 2 true].takeWhile (fun b => !signingNode.finds b) = [] := rfl
    rw [hnone] at hb
    cases hb

/-- **An input without the lock** leaves its output to the next one, and its key is given half of
that stake. -/
theorem createCoinStake_leftover :
    signingNode.createCoinStake [keyAttempt 2 false, keyAttempt 3 true] =
        .created ⟨[{ prevout := ⟨3, 0⟩ }],
            [emptyOut, { nValue := 75 * COIN, scriptPubKey := keyScript 2 },
              { nValue := 75 * COIN, scriptPubKey := keyScript 3 }]⟩
          (keyAttempt 3 true).stakeInput ∧
      ¬ signingNode.Proper ⟨[{ prevout := ⟨3, 0⟩ }],
          [emptyOut, { nValue := 75 * COIN, scriptPubKey := keyScript 2 },
            { nValue := 75 * COIN, scriptPubKey := keyScript 3 }]⟩
        (keyAttempt 3 true).stakeInput := by
  refine ⟨rfl, fun h => ?_⟩
  obtain ⟨vout, hvout, hscripts⟩ := h.noLeftover
  obtain rfl : [{ nValue := 0, scriptPubKey := keyScript 3 }] = vout := Option.some.inj hvout
  exact absurd (congrArg List.length hscripts) (by decide)

end Example

end StakeNode

end Agrarian.Wallet
