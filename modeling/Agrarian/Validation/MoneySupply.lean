import Agrarian.Coins.Unspent
import Agrarian.Validation.Effects
import Agrarian.Validation.PrevOutputs

/-!
# The money supply, recalculated

`RecalculateAGRSupply` goes through the active chain once more and writes the
money supply of every entry from some height on.  It reads the blocks from disk
and the previous transactions through `GetTransaction`, where `ConnectBlock`
had the coins of the view and the denominations of the parsed spends.

It takes the supply below the start of zerocoin as a constant, and moves the
supply of one block by what was filtered and locked.
-/

namespace Agrarian.MoneySupply

open Agrarian.Lib Agrarian.Coins Agrarian.Validation
open Agrarian.PrevOutputs (SpendChecks Spend)
open Agrarian.Zerocoin (intToZerocoinDenomination isZerocoin zerocoinDenominationToAmount)

/-! ## `RecalculateAGRSupply` -/

/-- The parts of the chain parameters that the recalculation reads. -/
structure SupplyParams where
  nZerocoinStartHeight : Nat
  nBlockRecalculateAccumulators : Nat
  nInvalidAmountFiltered : Int

section Recalculation

variable (node : Stake.Node)

/-- The loop over the inputs of a transaction that is no coinbase; `none` where an
assertion fails. -/
def recalcInputs : List CTxIn → Int → Option Int
  | [], nValueIn => some nValueIn
  | txin :: vin, nValueIn =>
      if txin.isZerocoinSpend then
        recalcInputs vin (int64 (nValueIn + txin.nSequence.toNat * COIN))
      else
        match node.getTransaction txin.prevout.hash with
        | none => none
        | some (txPrev, _) =>
            match txPrev.vout[txin.prevout.n]? with
            | none => none
            | some out => recalcInputs vin (int64 (nValueIn + out.nValue))

/-- The loop over the outputs, without the first one of a coinstake. -/
def recalcOutputs (fCoinStake : Bool) : List (CTxOut × Nat) → Int → Int
  | [], nValueOut => nValueOut
  | (out, i) :: vout, nValueOut =>
      if i = 0 && fCoinStake then recalcOutputs fCoinStake vout nValueOut
      else recalcOutputs fCoinStake vout (int64 (nValueOut + out.nValue))

/-- The loop over the transactions, from the sums so far. -/
def recalcTxs : List CTransaction → Int → Int → Option (Int × Int)
  | [], nValueIn, nValueOut => some (nValueIn, nValueOut)
  | tx :: vtx, nValueIn, nValueOut =>
      match if tx.isCoinBase then some nValueIn else recalcInputs node tx.vin nValueIn with
      | none => none
      | some nValueIn =>
          recalcTxs vtx nValueIn (recalcOutputs tx.isCoinStake tx.vout.zipIdx nValueOut)

variable (supplyParams : SupplyParams)

/-- What is written for a block: the fraudulent funds are added and those recovered
removed at one height. -/
def adjusted (nLocked : Int) (nHeight : Nat) (nMoneySupply : Int) : Int :=
  if nHeight = supplyParams.nBlockRecalculateAccumulators then
    int64 (int64 (nMoneySupply + supplyParams.nInvalidAmountFiltered) - nLocked)
  else nMoneySupply

/-- The loop over the blocks from a height on: the supplies that are written. -/
def recalcBlocks (nLocked : Int) : Nat → List CBlock → Int → Option (List Int)
  | _, [], _ => some []
  | nHeight, block :: rest, nSupplyPrev =>
      match recalcTxs node block.vtx 0 0 with
      | none => none
      | some (nValueIn, nValueOut) =>
          let nMoneySupply := int64 (nSupplyPrev + nValueOut - nValueIn)
          (recalcBlocks nLocked (nHeight + 1) rest nMoneySupply).map
            (adjusted supplyParams nLocked nHeight nMoneySupply :: ·)

variable {V : Type} (store : CoinsStore V)

/-- `GetInvalidUTXOValue`. -/
def getInvalidUTXOValue (setInvalidOutPoints : List COutPoint) (v : V) : Int :=
  setInvalidOutPoints.foldl (fun nValue out =>
    match getOutputFor store v out with
    | none => nValue
    | some txout => int64 (nValue + txout.nValue)) 0

/-- The active chain: the blocks above the genesis block, the view of its tip and the
money supply of every entry by height. -/
structure ActiveChain (V : Type) where
  view : V
  blocks : List CBlock
  nMoneySupply : List Int

/-- The supply that the recalculation starts from. -/
def supplyBefore (chain : ActiveChain V) (nHeightStart : Nat) : Int :=
  if nHeightStart = supplyParams.nZerocoinStartHeight then 5449796547496199
  else chain.nMoneySupply.getD (nHeightStart - 1) 0

/-- `RecalculateAGRSupply`, with what it leaves in the entries; `none` where it reads
through a null pointer or an assertion fails. -/
def recalculateAGRSupply (setInvalidOutPoints : List COutPoint) (chain : ActiveChain V)
    (nHeightStart : Nat) : Option (Bool × List Int) :=
  if chain.blocks.length < nHeightStart then some (false, chain.nMoneySupply)
  -- the genesis block has no parent
  else if nHeightStart = 0 then none
  else
    (recalcBlocks node supplyParams (getInvalidUTXOValue store setInvalidOutPoints chain.view)
        nHeightStart (chain.blocks.drop (nHeightStart - 1))
        (supplyBefore supplyParams chain nHeightStart)).map
      fun written => (true, chain.nMoneySupply.take nHeightStart ++ written)

end Recalculation

/-! ## Connecting the chain -/

/-- `ZAGRModule::validateInput`, with what it verifies apart from the amount. -/
def validateInput (parseCoinSpend : CTxIn → CTransaction → CTxOut → Option Spend)
    (validate : CTxIn → CTxOut → CTransaction → Bool) (txin : CTxIn) (prevOut : CTxOut)
    (tx : CTransaction) : Bool :=
  (parseCoinSpend txin tx prevOut).isSome &&
    decide ((intToZerocoinDenomination txin.nSequence.toNat).elim 0
      zerocoinDenominationToAmount = prevOut.nValue) &&
    validate txin prevOut tx

/-- The checks of spends with the source's own `validateInput`. -/
def validated (checks : SpendChecks) (validate : CTxIn → CTxOut → CTransaction → Bool) :
    SpendChecks :=
  { checks with validateInput := validateInput checks.parseCoinSpend validate }

/-- A call of `ConnectBlock` for the next block: the node when `CheckBlock` looked at the
block and when it is connected, and the checks that do not concern amounts. -/
structure SupplyCall where
  env : ValueEnv
  nodeChecked : Stake.Node
  node : Stake.Node
  fValid : CTransaction → Bool
  block : CBlock

/-- The active chain, with the supply of every entry as it was recorded when its block
was connected. -/
structure ChainState (V : Type) extends ActiveChain V where
  recorded : List Int

section Connecting

variable (params : CChainParams) (supplyParams : SupplyParams) (checks : SpendChecks)
  (validate : CTxIn → CTxOut → CTransaction → Bool)

/-- `CheckTransaction`, after the start of zerocoin as all blocks above the genesis block
are, and the other checks. -/
def SupplyCall.accepts (call : SupplyCall) (tx : CTransaction) : Bool :=
  (PrevOutputs.checkTransaction (validated checks validate) call.nodeChecked true tx :
    Option Unit).isSome && call.fValid tx

/-- The denomination of the spend of an input. -/
def SupplyCall.denominationOf (call : SupplyCall) (tx : CTransaction) (txin : CTxIn) :
    Option CoinDenomination :=
  (PrevOutputs.spendOf (validated checks validate) call.node tx txin :
    Option Spend).bind Spend.denomination

variable {V : Type} (store : CoinsStore V) (setInvalidOutPoints : List COutPoint)

/-- The entries when the supply of the next block is derived: they are recalculated
once, at one height. -/
def entriesBefore (call : SupplyCall) (s : ChainState V) : Option (List Int) :=
  if s.blocks.length = supplyParams.nBlockRecalculateAccumulators then
    (recalculateAGRSupply call.node supplyParams store setInvalidOutPoints s.toActiveChain
      supplyParams.nZerocoinStartHeight).map Prod.snd
  else some s.nMoneySupply

/-- Connect the next block. -/
def ChainState.connect (s : ChainState V) (call : SupplyCall) : Option (ChainState V) :=
  match entriesBefore supplyParams store setInvalidOutPoints call s with
  | none => none
  | some entries =>
      (connectBlock params store (call.denominationOf checks validate)
          (call.accepts checks validate) call.env s.view (entries.getD s.blocks.length 0)
          (s.blocks.length + 1) call.block).map
        fun r =>
          { view := r.view
            blocks := s.blocks ++ [call.block]
            nMoneySupply := entries ++ [r.nMoneySupply]
            recorded := s.recorded ++ [r.nMoneySupply] }

/-- The transaction is found by its hash. -/
def Holds (node : Stake.Node) (tx : CTransaction) : Prop :=
  ∃ hashBlock, node.getTransaction tx.hash = some (tx, hashBlock)

/-- What the transaction index still leads to: the transactions of a block that was
connected, and the mints that its public spends looked up. -/
structure Stored (node : Stake.Node) (call : SupplyCall) : Prop where
  txs : ∀ tx ∈ call.block.vtx, Holds node tx
  mints : ∀ tx ∈ call.block.vtx, ∀ txin ∈ tx.vin, txin.isZerocoinPublicSpend = true →
    ∀ txPrev hashBlock,
      call.nodeChecked.getTransaction txin.prevout.hash = some (txPrev, hashBlock) ∨
        call.node.getTransaction txin.prevout.hash = some (txPrev, hashBlock) →
      Holds node txPrev

/-- The chains that can be connected above a genesis block, to be recalculated by a node
that has their transactions. -/
inductive Connected (node : Stake.Node) (v₀ : V) : ChainState V → Prop
  | genesis : Connected node v₀ ⟨⟨v₀, [], [0]⟩, [0]⟩
  | connect {s s' : ChainState V} {call : SupplyCall} :
      Connected node v₀ s → Stored node call →
      s.connect params supplyParams checks validate store setInvalidOutPoints call = some s' →
      Connected node v₀ s'

end Connecting

/-! ## What a view shows -/

section View

variable {V : Type} {store : CoinsStore V} {node : Stake.Node} {v v' : V}

/-- An unspent output of a view, also of a mint. -/
def Shown (store : CoinsStore V) (v : V) (out : COutPoint) (txout : CTxOut) : Prop :=
  (store.coins v out.hash).vout[out.n]? = some txout ∧ txout.isNull = false

/-- Every output that the view shows is found again. -/
def Backed (store : CoinsStore V) (node : Stake.Node) (v : V) : Prop :=
  ∀ out txout, Shown store v out txout →
    ∃ tx hashBlock, node.getTransaction out.hash = some (tx, hashBlock) ∧
      tx.vout[out.n]? = some txout

theorem getElem?_cleanup {c : CCoins} {n : Nat} {txout : CTxOut}
    (h : c.cleanup.vout[n]? = some txout) : c.vout[n]? = some txout := by
  have hprefix : c.cleanup.vout <+: c.vout := List.rdropWhile_prefix _ _
  rcases hprefix with ⟨nulls, hnulls⟩
  rw [← hnulls, List.getElem?_append_left (List.getElem?_eq_some_iff.mp h).1]
  exact h

theorem not_pruned {c : CCoins} {n : Nat} {txout : CTxOut} (h : c.vout[n]? = some txout)
    (hnull : txout.isNull = false) : c.isPruned = false := by
  rw [CCoins.isPruned, List.all_eq_false]
  exact ⟨txout, List.mem_of_getElem? h, by simp [hnull]⟩

theorem shown_write (hstore : store.Lawful) {k : Uint256} {c : CCoins} {out : COutPoint}
    {txout : CTxOut} (h : Shown store (store.write v k c) out txout) :
    if out.hash = k then c.vout[out.n]? = some txout else Shown store v out txout := by
  have hcoins := (hstore.coins_write v k c out.hash).eq_of_not_pruned (not_pruned h.1 h.2)
  have hshown := h.1
  rw [hcoins] at hshown
  split
  · rename_i hk
    rw [if_pos hk] at hshown
    exact getElem?_cleanup hshown
  · rename_i hk
    rw [if_neg hk] at hshown
    exact ⟨hshown, h.2⟩

/-- Spending an output shows no other one. -/
theorem getElem?_spend {c c' : CCoins} {out : COutPoint} {undo : CTxInUndo}
    (h : c.spend out = some (c', undo)) {n : Nat} {txout : CTxOut}
    (hget : c'.vout[n]? = some txout) (hnull : txout.isNull = false) :
    c.vout[n]? = some txout := by
  unfold CCoins.spend at h
  split at h
  · cases h
  split at h
  · cases h
  dsimp only at h
  have hc' : c' = CCoins.cleanup { c with vout := c.vout.set out.n CTxOut.null } := by
    split at h <;> cases h <;> rfl
  rw [hc'] at hget
  have hset := getElem?_cleanup hget
  rw [List.getElem?_set] at hset
  split at hset
  · split at hset
    · cases hset
      cases hnull
    · cases hset
  · exact hset

/-- The outputs of a transaction are shown as they are. -/
theorem getElem?_fromTx {tx : CTransaction} {nHeight : Int32} {n : Nat} {txout : CTxOut}
    (hget : (CCoins.fromTx tx nHeight).vout[n]? = some txout) (hnull : txout.isNull = false) :
    tx.vout[n]? = some txout := by
  have hmap := getElem?_cleanup hget
  simp only [List.getElem?_map, Option.map_eq_some_iff] at hmap
  rcases hmap with ⟨out, hout, heq⟩
  split at heq
  · rw [← heq] at hnull
    cases hnull
  · rw [hout, heq]

theorem Backed.spendInputs (hstore : store.Lawful) {vin : List CTxIn} {txundo : CTxUndo}
    (hback : Backed store node v) (h : spendInputs store v vin = some (v', txundo)) :
    Backed store node v' := by
  induction vin generalizing v txundo with
  | nil =>
      cases h
      exact hback
  | cons txin vin ih =>
      unfold Coins.spendInputs at h
      split at h
      · cases h
      rename_i coins undo hspend
      rcases Option.map_eq_some_iff.mp h with ⟨⟨v₁, vprevout⟩, hrest, heq⟩
      cases heq
      refine ih ?_ hrest
      intro out txout hshown
      have hwritten := shown_write hstore hshown
      split at hwritten
      · rename_i hk
        refine hback out txout ⟨?_, hshown.2⟩
        rw [hk]
        exact getElem?_spend hspend hwritten hshown.2
      · exact hback out txout hwritten

/-- **A view shows only what can be looked up**, if that holds of the transactions it is
updated with. -/
theorem Backed.updateCoins (hstore : store.Lawful) {tx : CTransaction} {nHeight : Int32}
    {txundo : CTxUndo} (hback : Backed store node v) (hholds : Holds node tx)
    (h : updateCoins store v tx nHeight = some (v', txundo)) : Backed store node v' := by
  unfold Coins.updateCoins at h
  rcases Option.map_eq_some_iff.mp h with ⟨⟨v₁, vprevout⟩, hinputs, heq⟩
  cases heq
  have hback₁ : Backed store node v₁ := by
    split at hinputs
    · exact hback.spendInputs hstore hinputs
    · cases hinputs
      exact hback
  intro out txout hshown
  have hwritten := shown_write hstore hshown
  split at hwritten
  · rename_i hk
    rcases hholds with ⟨hashBlock, hlookup⟩
    refine ⟨tx, hashBlock, ?_, getElem?_fromTx hwritten hshown.2⟩
    rw [hk]
    exact hlookup
  · exact hback₁ out txout hwritten

/-- What `GetOutputFor` returns is found again. -/
theorem Backed.getOutputFor (hback : Backed store node v) {out : COutPoint} {txout : CTxOut}
    (h : getOutputFor store v out = some txout) :
    ∃ tx hashBlock, node.getTransaction out.hash = some (tx, hashBlock) ∧
      tx.vout[out.n]? = some txout := by
  unfold Validation.getOutputFor at h
  split at h
  · rename_i havailable
    refine hback out txout ⟨h, ?_⟩
    unfold CCoins.isAvailable at havailable
    rw [h, Bool.and_eq_true, Bool.not_eq_true'] at havailable
    exact havailable.1
  · cases h

end View

/-! ## The sums of a block -/

section Sums

variable {node : Stake.Node}

theorem recalcOutputs_rest (fCoinStake : Bool) {vout : List CTxOut} {i : Nat} (hi : i ≠ 0)
    {nValueOut : Int} (hfit : FitsInt64 nValueOut) :
    recalcOutputs fCoinStake (vout.zipIdx i) nValueOut =
      int64 (nValueOut + (vout.map CTxOut.nValue).sum) := by
  induction vout generalizing i nValueOut with
  | nil => simp [recalcOutputs, int64_eq_self hfit]
  | cons out vout ih =>
      have hskip : (decide (i = 0) && fCoinStake) = false := by simp [hi]
      rw [List.zipIdx_cons, recalcOutputs, hskip, if_neg Bool.false_ne_true,
        ih (Nat.succ_ne_zero i) (fitsInt64_int64 _), int64_add_left, List.map_cons,
        List.sum_cons, Int.add_assoc]

/-- The first output of a coinstake is empty. -/
theorem head_of_coinStake {tx : CTransaction} (h : tx.isCoinStake = true) :
    ∃ out vout, tx.vout = out :: vout ∧ out.nValue = 0 := by
  unfold CTransaction.isCoinStake at h
  split at h
  · cases h
  dsimp only at h
  split at h
  · cases h
  rw [Bool.and_eq_true] at h
  cases hvout : tx.vout with
  | nil =>
      rw [hvout] at h
      cases h.2
  | cons out vout =>
      rw [hvout] at h
      refine ⟨out, vout, rfl, ?_⟩
      have hempty : out.isEmpty = true := h.2
      rw [CTxOut.isEmpty, Bool.and_eq_true, beq_iff_eq] at hempty
      exact hempty.1

/-- Leaving out the first output of a coinstake leaves out nothing. -/
theorem recalcOutputs_eq {tx : CTransaction} {nValueOut : Int} (hfit : FitsInt64 nValueOut) :
    recalcOutputs tx.isCoinStake tx.vout.zipIdx nValueOut =
      int64 (nValueOut + exactOut tx) := by
  unfold exactOut
  cases hstake : tx.isCoinStake with
  | true =>
      rcases head_of_coinStake hstake with ⟨out, vout, hvout, hzero⟩
      rw [hvout, List.zipIdx_cons, recalcOutputs, List.map_cons, List.sum_cons, hzero,
        Int.zero_add]
      exact recalcOutputs_rest true (by decide) hfit
  | false =>
      cases hvout : tx.vout with
      | nil => simp [recalcOutputs, int64_eq_self hfit]
      | cons out vout =>
          rw [List.zipIdx_cons, recalcOutputs, Bool.and_false, if_neg Bool.false_ne_true,
            recalcOutputs_rest false (by decide) (fitsInt64_int64 _), int64_add_left,
            List.map_cons, List.sum_cons, Int.add_assoc]

/-- The recalculation adds this value for an input. -/
def Adds (node : Stake.Node) (txin : CTxIn) (value : Int) : Prop :=
  ∀ vin nValueIn, recalcInputs node (txin :: vin) nValueIn =
    recalcInputs node vin (int64 (nValueIn + value))

theorem adds_spend {txin : CTxIn} (h : txin.isZerocoinSpend = true) :
    Adds node txin (txin.nSequence.toNat * COIN) := by
  intro vin nValueIn
  rw [recalcInputs, if_pos h]

theorem adds_output {txin : CTxIn} (h : txin.isZerocoinSpend = false) {txPrev : CTransaction}
    {hashBlock : Uint256} {out : CTxOut}
    (hlookup : node.getTransaction txin.prevout.hash = some (txPrev, hashBlock))
    (hout : txPrev.vout[txin.prevout.n]? = some out) : Adds node txin out.nValue := by
  intro vin nValueIn
  rw [recalcInputs, h, if_neg Bool.false_ne_true, hlookup]
  dsimp only
  rw [hout]

theorem recalcInputs_eq {value : CTxIn → Int} {vin : List CTxIn} {nValueIn : Int}
    (hadds : ∀ txin ∈ vin, Adds node txin (value txin)) (hfit : FitsInt64 nValueIn) :
    recalcInputs node vin nValueIn = some (int64 (nValueIn + (vin.map value).sum)) := by
  induction vin generalizing nValueIn with
  | nil => simp [recalcInputs, int64_eq_self hfit]
  | cons txin vin ih =>
      rw [hadds txin List.mem_cons_self,
        ih (fun t ht => hadds t (List.mem_cons_of_mem _ ht)) (fitsInt64_int64 _),
        int64_add_left, List.map_cons, List.sum_cons, Int.add_assoc]

end Sums

/-! ## Spends that were checked -/

section Spends

variable {checks : SpendChecks} {validate : CTxIn → CTxOut → CTransaction → Bool}
  {node : Stake.Node} {tx : CTransaction} {txin : CTxIn}

theorem not_zerocoinSpend_of_public (h : txin.isZerocoinPublicSpend = true) :
    txin.isZerocoinSpend = false := by
  unfold CTxIn.isZerocoinPublicSpend CScript.isZerocoinPublicSpend CScript.startsWithOpcode at h
  unfold CTxIn.isZerocoinSpend CScript.isZerocoinSpend CScript.startsWithOpcode
  rw [beq_iff_eq] at h
  rw [h]
  simp [CScript.OP_ZEROCOINPUBLICSPEND, CScript.OP_ZEROCOINSPEND]

theorem intToZerocoinDenomination_toInt (denom : CoinDenomination) :
    intToZerocoinDenomination denom.toInt = some denom := by
  cases denom <;> decide

theorem getOutput_eq_some {hash : Uint256} {index : Nat} {out : CTxOut}
    (h : (PrevOutputs.getOutput node hash index : Option CTxOut) = some out) :
    ∃ txPrev hashBlock, node.getTransaction hash = some (txPrev, hashBlock) ∧
      txPrev.vout[index]? = some out := by
  unfold PrevOutputs.getOutput at h
  rw [Option.bind_eq_bind, Option.bind_eq_some_iff] at h
  rcases h with ⟨⟨txPrev, hashBlock⟩, hlookup, h⟩
  rw [Option.bind_eq_bind, Option.bind_eq_some_iff] at h
  rcases h with ⟨_, _, hget⟩
  exact ⟨txPrev, hashBlock, by simpa using hlookup, hget⟩

/-- `CheckTransaction` accepts the spend of an input: it has the denomination that the
input claims, and that of the mint it spends if it is public. -/
def SpendAccepted (checks : SpendChecks) (validate : CTxIn → CTxOut → CTransaction → Bool)
    (node : Stake.Node) (tx : CTransaction) (txin : CTxIn) : Prop :=
  ∃ p denom, (PrevOutputs.newSpend (validated checks validate) node tx txin :
      Option (Spend × Option CTxOut)) = some p ∧
    p.1.denomination = some denom ∧ denom.toInt = txin.nSequence.toNat ∧
      ∀ out, p.2 = some out → out.nValue = denom.toInt * COIN

theorem acceptSpend_spec {s s' : PrevOutputs.SpendScan} {p : Spend × Option CTxOut}
    (h : PrevOutputs.acceptSpend (validated checks validate) tx txin s p = some s') :
    ∃ denom, p.1.denomination = some denom ∧ denom.toInt = txin.nSequence.toNat ∧
      ∀ out, p.2 = some out → out.nValue = denom.toInt * COIN := by
  unfold PrevOutputs.acceptSpend at h
  split at h
  · cases h
  rename_i denom hdenom
  split at h
  · cases h
  rename_i hsequence
  rw [not_not] at hsequence
  split at h
  · cases h
  split at h
  · cases h
  rename_i hvalidated
  refine ⟨denom, hdenom, hsequence, fun out hout => ?_⟩
  have hvalid : validateInput checks.parseCoinSpend validate txin out tx = true := by
    rw [Bool.not_eq_true, Bool.not_eq_false', hout] at hvalidated
    exact hvalidated
  unfold validateInput at hvalid
  rw [Bool.and_eq_true, Bool.and_eq_true, decide_eq_true_eq, ← hsequence,
    intToZerocoinDenomination_toInt] at hvalid
  rw [← hvalid.1.2]
  exact Int.mul_comm _ _

/-- **What `CheckTransaction` says about the inputs** of a zerocoin spend. -/
theorem checkTransaction_spends
    (h : (PrevOutputs.checkTransaction (validated checks validate) node true tx :
      Option Unit).isSome = true) (hspends : tx.hasZerocoinSpendInputs = true) :
    ∀ txin ∈ tx.vin, isZerocoin txin = true ∧
      SpendAccepted checks validate node tx txin := by
  rcases Option.isSome_iff_exists.mp h with ⟨u, hu⟩
  unfold PrevOutputs.checkTransaction at hu
  rw [Option.bind_eq_bind, Option.bind_eq_some_iff] at hu
  rcases hu with ⟨_, hbefore, hu⟩
  rw [Option.bind_eq_some_iff] at hu
  rcases hu with ⟨_, hchecked, -⟩
  rw [hspends, Bool.and_self, if_pos rfl] at hchecked
  have hall : tx.vin.all isZerocoin = true := by
    rw [Indexing.check_eq_some] at hbefore
    unfold PrevOutputs.checkBeforeSpends at hbefore
    rw [Bool.and_eq_true, Option.any_eq_true] at hbefore
    rcases hbefore.2 with ⟨nZCSpendCount, -, hcount⟩
    rw [hspends, Bool.not_true, Bool.false_or, Bool.false_or, Bool.and_eq_true] at hcount
    exact hcount.2
  intro txin htxin
  have hzerocoin := List.all_eq_true.mp hall txin htxin
  refine ⟨hzerocoin, ?_⟩
  unfold PrevOutputs.checkZerocoinSpend at hchecked
  rw [Option.bind_eq_bind, Option.bind_eq_some_iff] at hchecked
  rcases hchecked with ⟨_, _, hchecked⟩
  rw [Option.bind_eq_bind, Option.bind_eq_some_iff] at hchecked
  rcases hchecked with ⟨scan, hloop, -⟩
  rcases Indexing.exists_of_foldlM_eq_some hloop htxin with ⟨s, s', hstep⟩
  unfold PrevOutputs.checkSpend at hstep
  rw [if_pos hzerocoin, Option.bind_eq_bind, Option.bind_eq_some_iff] at hstep
  rcases hstep with ⟨p, hspend, haccept⟩
  rw [Indexing.ofOption_option] at haccept
  rcases acceptSpend_spec haccept with ⟨denom, hdenom⟩
  exact ⟨p, denom, hspend, hdenom⟩

theorem Holds.unique {tx tx' : CTransaction} (h : Holds node tx) (h' : Holds node tx')
    (hhash : tx.hash = tx'.hash) : tx = tx' := by
  rcases h with ⟨hashBlock, h⟩
  rcases h' with ⟨hashBlock', h'⟩
  rw [hhash, h'] at h
  cases h
  rfl

theorem newSpend_public (hpublic : txin.isZerocoinPublicSpend = true) {c : SpendChecks}
    {p : Spend × Option CTxOut}
    (h : (PrevOutputs.newSpend c node tx txin : Option (Spend × Option CTxOut)) = some p) :
    ∃ out, (PrevOutputs.getOutput node txin.prevout.hash txin.prevout.n : Option CTxOut) =
        some out ∧ c.parseCoinSpend txin tx out = some p.1 ∧ p.2 = some out := by
  unfold PrevOutputs.newSpend at h
  rw [if_pos hpublic, Option.bind_eq_bind, Option.bind_eq_some_iff] at h
  rcases h with ⟨out, hout, h⟩
  rw [Option.bind_eq_bind, Option.bind_eq_some_iff] at h
  rcases h with ⟨spend, hspend, h⟩
  cases h
  exact ⟨out, hout, by simpa using hspend, rfl⟩

theorem spendOf_public (hpublic : txin.isZerocoinPublicSpend = true) {c : SpendChecks}
    {spend : Spend} (h : (PrevOutputs.spendOf c node tx txin : Option Spend) = some spend) :
    ∃ out, (PrevOutputs.getOutput node txin.prevout.hash txin.prevout.n : Option CTxOut) =
        some out ∧ c.parseCoinSpend txin tx out = some spend := by
  unfold PrevOutputs.spendOf PrevOutputs.parseZerocoinPublicSpend at h
  rw [if_pos hpublic, Option.bind_eq_bind, Option.bind_eq_some_iff] at h
  rcases h with ⟨out, hout, h⟩
  exact ⟨out, hout, by simpa using h⟩

/-- A spend has the value of its denomination in the recalculation. -/
theorem adds_zerocoin {nodeChecked nodeConnected : Stake.Node} (hzerocoin : isZerocoin txin = true)
    (haccepted : SpendAccepted checks validate nodeChecked tx txin)
    (hmints : txin.isZerocoinPublicSpend = true → ∀ txPrev hashBlock,
      nodeChecked.getTransaction txin.prevout.hash = some (txPrev, hashBlock) ∨
        nodeConnected.getTransaction txin.prevout.hash = some (txPrev, hashBlock) →
      Holds node txPrev) {denom : CoinDenomination}
    (hdenom : (PrevOutputs.spendOf (validated checks validate) nodeConnected tx txin :
      Option Spend).bind Spend.denomination = some denom) :
    Adds node txin (denom.toInt * COIN) := by
  rcases haccepted with ⟨p, checked, hspend, hchecked, hsequence, hvalue⟩
  cases hpublic : txin.isZerocoinPublicSpend with
  | true =>
      rcases newSpend_public hpublic hspend with ⟨out, hout, hparse, hprev⟩
      rcases Option.bind_eq_some_iff.mp hdenom with ⟨spend, hconnected, hdenom⟩
      rcases spendOf_public hpublic hconnected with ⟨out', hout', hparse'⟩
      rcases getOutput_eq_some hout with ⟨txPrev, hashBlock, hlookup, hget⟩
      rcases getOutput_eq_some hout' with ⟨txPrev', hashBlock', hlookup', hget'⟩
      have hholds := hmints hpublic txPrev hashBlock (.inl hlookup)
      have hholds' := hmints hpublic txPrev' hashBlock' (.inr hlookup')
      have hhash : txPrev.hash = txin.prevout.hash := Stake.Node.getTransaction_hash hlookup
      have hhash' : txPrev'.hash = txin.prevout.hash := Stake.Node.getTransaction_hash hlookup'
      -- both look-ups found the same mint
      cases hholds.unique hholds' (hhash.trans hhash'.symm)
      cases Option.some.inj (hget.symm.trans hget')
      cases Option.some.inj (hparse.symm.trans hparse')
      have hsame : checked = denom := Option.some.inj (hchecked.symm.trans hdenom)
      rcases hholds with ⟨hashBlock'', hstored⟩
      rw [hhash] at hstored
      rw [← hsame, ← hvalue out hprev]
      exact adds_output (not_zerocoinSpend_of_public hpublic) hstored hget
  | false =>
      unfold PrevOutputs.newSpend at hspend
      unfold PrevOutputs.spendOf at hdenom
      rw [hpublic, if_neg Bool.false_ne_true] at hspend hdenom
      cases hspend
      have hsame : checked = denom := Option.some.inj (hchecked.symm.trans hdenom)
      rw [← hsame, hsequence]
      refine adds_spend ?_
      unfold isZerocoin at hzerocoin
      rw [hpublic, Bool.or_false] at hzerocoin
      exact hzerocoin

end Spends

/-! ## Connecting and recalculating a block -/

section Blocks

variable {params : CChainParams} {checks : SpendChecks}
  {validate : CTxIn → CTxOut → CTransaction → Bool} {V : Type} {store : CoinsStore V}
  {node : Stake.Node} {call : SupplyCall} {v : V} {a a' : Amounts} {tx : CTransaction}

/-- The inputs of a zerocoin spend have denominations. -/
theorem denomination_of_spentFrom
    {denominationOf : CTransaction → CTxIn → Option CoinDenomination} {vin : List CTxIn}
    {nValueIn nSpent : Int} (h : spentFrom denominationOf tx vin nValueIn = some nSpent) :
    ∀ txin ∈ vin, isZerocoin txin = true → ∃ denom, denominationOf tx txin = some denom := by
  induction vin generalizing nValueIn with
  | nil => simp
  | cons first vin ih =>
      intro txin htxin hzerocoin
      unfold spentFrom at h
      split at h
      · split at h
        · cases h
        rename_i denom hdenom
        rcases List.mem_cons.mp htxin with rfl | htxin
        · exact ⟨denom, hdenom⟩
        · exact ih h txin htxin hzerocoin
      · rename_i hplain
        rcases List.mem_cons.mp htxin with rfl | htxin
        · exact absurd hzerocoin hplain
        · exact ih h txin htxin hzerocoin

/-- The inputs that `GetValueIn` adds up have outputs. -/
theorem outputs_of_valueInFrom {vin : List CTxIn} {nResult nValueIn : Int}
    (h : valueInFrom store v vin nResult = some nValueIn) :
    ∀ txin ∈ vin, ∃ out, getOutputFor store v txin.prevout = some out := by
  induction vin generalizing nResult with
  | nil => simp
  | cons first vin ih =>
      intro txin htxin
      unfold valueInFrom at h
      split at h
      · cases h
      rename_i out hout
      rcases List.mem_cons.mp htxin with rfl | htxin
      · exact ⟨out, hout⟩
      · exact ih h txin htxin

theorem not_coinBase_of_spends (h : tx.hasZerocoinSpendInputs = true) :
    tx.isCoinBase = false := by
  unfold CTransaction.isCoinBase CTransaction.containsZerocoins
  split
  · rw [h, Bool.true_or, Bool.true_or, Bool.not_true, Bool.and_false]
  · rfl

/-- **A transaction spends as much** when it is recalculated as when it is connected. -/
theorem recalcInputs_exactIn (hback : Backed store node v) (hstored : Stored node call)
    (hmem : tx ∈ call.block.vtx) (haccept : call.accepts checks validate tx = true)
    {nValueOut : Int}
    (hadd : addInputs params store (call.denominationOf checks validate) v a tx nValueOut =
      some a') {nValueIn : Int} (hfit : FitsInt64 nValueIn) :
    (if tx.isCoinBase then some nValueIn else recalcInputs node tx.vin nValueIn) =
      some (int64 (nValueIn + exactIn store (call.denominationOf checks validate) v tx)) := by
  unfold SupplyCall.accepts at haccept
  rw [Bool.and_eq_true] at haccept
  unfold exactIn
  unfold addInputs at hadd
  cases hspends : tx.hasZerocoinSpendInputs with
  | true =>
      rw [if_pos hspends] at hadd
      rcases Option.map_eq_some_iff.mp hadd with ⟨nSpent, hspent, -⟩
      rw [not_coinBase_of_spends hspends, if_neg Bool.false_ne_true, if_pos rfl]
      refine recalcInputs_eq (fun txin htxin => ?_) hfit
      have hchecked := checkTransaction_spends haccept.1 hspends txin htxin
      rcases denomination_of_spentFrom hspent txin htxin hchecked.1 with ⟨denom, hdenom⟩
      have hadds := adds_zerocoin hchecked.1 hchecked.2 (hstored.mints tx hmem txin htxin) hdenom
      unfold spentValue
      rw [← isZerocoin, if_pos hchecked.1, hdenom]
      exact hadds
  | false =>
      rw [hspends, if_neg Bool.false_ne_true] at hadd
      rw [if_neg Bool.false_ne_true]
      split
      · rw [Int.add_zero, int64_eq_self hfit]
      · rename_i hcoinbase
        rw [if_neg hcoinbase] at hadd
        split at hadd
        · cases hadd
        rename_i nSpent hvalue
        refine recalcInputs_eq (fun txin htxin => ?_) hfit
        rcases outputs_of_valueInFrom hvalue txin htxin with ⟨out, hout⟩
        rcases hback.getOutputFor hout with ⟨txPrev, hashBlock, hlookup, hget⟩
        have hplain : txin.isZerocoinSpend = false := by
          unfold CTransaction.hasZerocoinSpendInputs at hspends
          rw [List.any_eq_false] at hspends
          have hneither := hspends txin htxin
          rw [Bool.not_eq_true, Bool.or_eq_false_iff] at hneither
          exact hneither.1
        have hadds := adds_output hplain hlookup hget
        unfold inputValue
        rw [hout]
        exact hadds

/-- What connecting a transaction has gone through. -/
theorem connectTx_cases {denominationOf : CTransaction → CTxIn → Option CoinDenomination}
    {fValid : CTransaction → Bool} {nHeight : Int32} {v' : V}
    (h : connectTx params store denominationOf fValid nHeight v a tx = some (v', a')) :
    fValid tx = true ∧
      (∃ nValueOut a₁, addInputs params store denominationOf v a tx nValueOut = some a₁) ∧
      ∃ txundo, updateCoins store v tx nHeight = some (v', txundo) := by
  unfold connectTx at h
  split at h
  · cases h
  rename_i hvalid
  split at h
  · cases h
  rename_i nValueOut _
  split at h
  · cases h
  rename_i a₁ hadd
  rcases Option.map_eq_some_iff.mp h with ⟨⟨v₁, txundo⟩, hupdate, heq⟩
  cases heq
  exact ⟨by simpa using hvalid, ⟨nValueOut, a₁, hadd⟩, txundo, hupdate⟩

/-- **Both computations add up a block alike**, and the view goes on to show only what
can be looked up. -/
theorem recalcTxs_eq (hstore : store.Lawful) {nHeight : Int32} {vtx : List CTransaction}
    {v' : V} (hmem : ∀ tx ∈ vtx, tx ∈ call.block.vtx) (hstored : Stored node call)
    (hback : Backed store node v)
    (h : connectTxs params store (call.denominationOf checks validate)
      (call.accepts checks validate) nHeight vtx v a = some (v', a'))
    {nValueIn nValueOut : Int} (hin : FitsInt64 nValueIn) (hout : FitsInt64 nValueOut) :
    Backed store node v' ∧
      recalcTxs node vtx nValueIn nValueOut =
        some (int64 (nValueIn + (exactAmounts store (call.denominationOf checks validate)
            nHeight vtx v).nValueIn),
          int64 (nValueOut + (exactAmounts store (call.denominationOf checks validate)
            nHeight vtx v).nValueOut)) := by
  induction vtx generalizing v a nValueIn nValueOut with
  | nil =>
      cases h
      simp [hback, recalcTxs, exactAmounts, int64_eq_self hin, int64_eq_self hout]
  | cons tx vtx ih =>
      unfold connectTxs at h
      split at h
      · cases h
      rename_i v₁ a₁ htx
      rcases connectTx_cases htx with ⟨haccept, ⟨nTxOut, a₂, hadd⟩, txundo, hupdate⟩
      have htxIn := recalcInputs_exactIn hback hstored (hmem tx List.mem_cons_self) haccept hadd hin
      have hback₁ := hback.updateCoins hstore (hstored.txs tx (hmem tx List.mem_cons_self)) hupdate
      have hrest := fun x y => ih (fun t ht => hmem t (List.mem_cons_of_mem _ ht)) hback₁ h
        (fitsInt64_int64 x) (fitsInt64_int64 y)
      refine ⟨(hrest 0 0).1, ?_⟩
      rw [recalcTxs, htxIn]
      dsimp only
      rw [recalcOutputs_eq hout, (hrest _ _).2]
      simp only [exactAmounts, hupdate, int64_add_left, Int.add_assoc]

/-- The supply that a connected block records is what the recalculation makes of the
supply before it. -/
theorem connectBlock_recalculates (hstore : store.Lawful) (hstored : Stored node call)
    (hback : Backed store node v) {nMoneySupplyPrev nHeight : Int} {r : Validation.Connected V}
    (h : connectBlock params store (call.denominationOf checks validate)
      (call.accepts checks validate) call.env v nMoneySupplyPrev nHeight call.block = some r) :
    Backed store node r.view ∧ ∃ nValueIn nValueOut,
      recalcTxs node call.block.vtx 0 0 = some (nValueIn, nValueOut) ∧
        r.nMoneySupply = int64 (nMoneySupplyPrev + nValueOut - nValueIn) := by
  have hspec := connectBlock_spec h
  have hzero : FitsInt64 0 := by decide
  have hsums := recalcTxs_eq hstore (fun _ htx => htx) hstored hback hspec.2.1 hzero hzero
  have hadded := connectTxs_added amounts_zero_fit hspec.1 hspec.2.1
  refine ⟨hsums.1, _, _, hsums.2, ?_⟩
  rw [hspec.2.2.1, hadded.nValueIn, hadded.nValueOut]

end Blocks

/-! ## Chains -/

section Chains

variable {params : CChainParams} {supplyParams : SupplyParams} {checks : SpendChecks}
  {validate : CTxIn → CTxOut → CTransaction → Bool} {V : Type} {store : CoinsStore V}
  {setInvalidOutPoints : List COutPoint} {node : Stake.Node} {s s' : ChainState V}

theorem length_recalcBlocks {nLocked nSupplyPrev : Int} {nHeight : Nat} {blocks : List CBlock}
    {written : List Int}
    (h : recalcBlocks node supplyParams nLocked nHeight blocks nSupplyPrev = some written) :
    written.length = blocks.length := by
  induction blocks generalizing nHeight nSupplyPrev written with
  | nil =>
      cases h
      rfl
  | cons block rest ih =>
      unfold recalcBlocks at h
      split at h
      · cases h
      rcases Option.map_eq_some_iff.mp h with ⟨written', hrest, rfl⟩
      rw [List.length_cons, List.length_cons, ih hrest]

/-- The recalculation writes to as many entries as there are. -/
theorem length_recalculateAGRSupply {chain : ActiveChain V} {nHeightStart : Nat} {fDone : Bool}
    {entries : List Int} (hlen : chain.nMoneySupply.length = chain.blocks.length + 1)
    (h : recalculateAGRSupply node supplyParams store setInvalidOutPoints chain nHeightStart =
      some (fDone, entries)) : entries.length = chain.blocks.length + 1 := by
  unfold recalculateAGRSupply at h
  split at h
  · cases h
    exact hlen
  split at h
  · cases h
  rcases Option.map_eq_some_iff.mp h with ⟨written, hwritten, heq⟩
  cases heq
  rw [List.length_append, List.length_take, length_recalcBlocks hwritten, List.length_drop]
  omega

/-- What holds of every chain that was connected. -/
structure ChainState.Good (supplyParams : SupplyParams) (store : CoinsStore V) (node : Stake.Node)
    (s : ChainState V) : Prop where
  backed : Backed store node s.view
  entries : s.nMoneySupply.length = s.blocks.length + 1
  recorded : s.recorded.length = s.blocks.length + 1
  /-- Before the one-time recalculation the entries are as they were recorded. -/
  unchanged : s.blocks.length ≤ supplyParams.nBlockRecalculateAccumulators →
    s.nMoneySupply = s.recorded
  sums : ∀ k block, s.blocks[k]? = some block → ∃ nValueIn nValueOut,
    recalcTxs node block.vtx 0 0 = some (nValueIn, nValueOut) ∧
      (k + 1 ≤ supplyParams.nBlockRecalculateAccumulators →
        s.recorded.getD (k + 1) 0 = int64 (s.recorded.getD k 0 + nValueOut - nValueIn))

theorem length_entriesBefore {call : SupplyCall} {entries : List Int}
    (hgood : s.Good supplyParams store node)
    (h : entriesBefore supplyParams store setInvalidOutPoints call s = some entries) :
    entries.length = s.blocks.length + 1 := by
  unfold entriesBefore at h
  split at h
  · rcases Option.map_eq_some_iff.mp h with ⟨⟨fDone, written⟩, hwritten, rfl⟩
    exact length_recalculateAGRSupply hgood.entries hwritten
  · cases h
    exact hgood.entries

theorem getD_concat_length {l : List Int} {n : Nat} (hlen : l.length = n) (x : Int) :
    (l ++ [x]).getD n 0 = x := by
  rw [List.getD_append_right _ _ _ _ (by omega), hlen, Nat.sub_self]
  rfl

/-- Connecting a block keeps what holds of the chain. -/
theorem ChainState.Good.connect (hstore : store.Lawful) {call : SupplyCall}
    (hgood : s.Good supplyParams store node) (hstored : Stored node call)
    (h : s.connect params supplyParams checks validate store setInvalidOutPoints call = some s') :
    s'.Good supplyParams store node := by
  unfold ChainState.connect at h
  split at h
  · cases h
  rename_i entries hentries
  rcases Option.map_eq_some_iff.mp h with ⟨r, hblock, rfl⟩
  rcases connectBlock_recalculates hstore hstored hgood.backed hblock with
    ⟨hbacked, nValueIn, nValueOut, hsums, hsupply⟩
  have hlength := length_entriesBefore hgood hentries
  have hrecorded := hgood.recorded
  have hbefore : s.blocks.length + 1 ≤ supplyParams.nBlockRecalculateAccumulators →
      entries = s.recorded := by
    intro hle
    unfold entriesBefore at hentries
    rw [if_neg (by omega)] at hentries
    cases hentries
    exact hgood.unchanged (by omega)
  constructor
  · exact hbacked
  · simp [hlength]
  · simp [hrecorded]
  · intro hle
    rw [List.length_append, List.length_singleton] at hle
    dsimp only
    rw [hbefore hle]
  · intro k block hk
    dsimp only at hk ⊢
    by_cases hlast : k < s.blocks.length
    · rw [List.getElem?_append_left hlast] at hk
      rw [List.getD_append _ _ _ _ (by omega), List.getD_append _ _ _ _ (by omega)]
      exact hgood.sums k block hk
    · rw [List.getElem?_append_right (by omega), List.getElem?_singleton] at hk
      split at hk
      · rename_i hzero
        cases hk
        have hk : k = s.blocks.length := by omega
        subst hk
        refine ⟨nValueIn, nValueOut, hsums, fun hle => ?_⟩
        rw [getD_concat_length hrecorded, List.getD_append _ _ _ _ (by omega), hsupply,
          hbefore hle]
      · cases hk

/-- A view without coins shows nothing. -/
theorem backed_of_empty {v : V} (h : ∀ hash, (store.coins v hash).isPruned = true) :
    Backed store node v := by
  intro out txout hshown
  have hpruned := h out.hash
  rw [not_pruned hshown.1 hshown.2] at hpruned
  cases hpruned

theorem Connected.good (hstore : store.Lawful) {v₀ : V}
    (hempty : ∀ hash, (store.coins v₀ hash).isPruned = true)
    (h : Connected params supplyParams checks validate store setInvalidOutPoints node v₀ s) :
    s.Good supplyParams store node := by
  induction h with
  | genesis =>
      exact
        { backed := backed_of_empty hempty
          entries := rfl
          recorded := rfl
          unchanged := fun _ => rfl
          sums := fun k block hk => by simp at hk }
  | connect _ hstored hconnect ih => exact ih.connect hstore hstored hconnect

/-- Moving the supply before a block moves the supply after it. -/
theorem int64_moved (before after prev x : Int) (h : after = int64 (before + x)) :
    int64 (prev + x) = int64 (after + (prev - before)) := by
  rw [h, int64_add_left]
  congr 1
  omega

theorem int64_moved_on (before after prev other : Int) :
    int64 (other + (int64 (after + (prev - before)) - after)) =
      int64 (other + (prev - before)) := by
  have hswap : other + (int64 (after + (prev - before)) - after) =
      int64 (after + (prev - before)) + (other - after) := by omega
  rw [hswap, int64_add_left]
  congr 1
  omega

/-- **The loop over the blocks** moves what was recorded by what it starts from. -/
theorem recalcBlocks_spec (hgood : s.Good supplyParams store node) (nLocked : Int)
    (rest : List CBlock) :
    ∀ (k : Nat) (nSupplyPrev : Int), s.blocks.drop k = rest →
      ∃ written, recalcBlocks node supplyParams nLocked (k + 1) rest nSupplyPrev =
          some written ∧
        ∀ j < rest.length, k + 1 + j ≤ supplyParams.nBlockRecalculateAccumulators →
          written.getD j 0 = adjusted supplyParams nLocked (k + 1 + j)
            (int64 (s.recorded.getD (k + 1 + j) 0 + (nSupplyPrev - s.recorded.getD k 0))) := by
  induction rest with
  | nil => exact fun k nSupplyPrev _ => ⟨[], rfl, fun j hj => absurd hj (Nat.not_lt_zero j)⟩
  | cons block rest ih =>
      intro k nSupplyPrev hdrop
      have hk : k < s.blocks.length := by
        by_contra hge
        rw [List.drop_eq_nil_of_le (by omega)] at hdrop
        cases hdrop
      rw [List.drop_eq_getElem_cons hk, List.cons.injEq] at hdrop
      have hblock : s.blocks[k]? = some block := by rw [List.getElem?_eq_getElem hk, hdrop.1]
      rcases hgood.sums k block hblock with ⟨nValueIn, nValueOut, hsums, hrecorded⟩
      rcases ih (k + 1) (int64 (nSupplyPrev + nValueOut - nValueIn)) hdrop.2 with
        ⟨written, hwritten, hmoved⟩
      refine ⟨_, by rw [recalcBlocks, hsums]; dsimp only; rw [hwritten]; rfl, ?_⟩
      intro j hj hle
      have hfirst : int64 (nSupplyPrev + nValueOut - nValueIn) =
          int64 (s.recorded.getD (k + 1) 0 + (nSupplyPrev - s.recorded.getD k 0)) := by
        rw [Int.add_sub_assoc]
        refine int64_moved _ _ _ _ ?_
        rw [hrecorded (by omega), Int.add_sub_assoc]
      cases j with
      | zero =>
          rw [List.getD_cons_zero, hfirst]
      | succ j =>
          have hindex : k + 1 + (j + 1) = k + 1 + 1 + j := by omega
          rw [hindex] at hle ⊢
          rw [List.getD_cons_succ, hmoved j (by simpa using hj) hle, hfirst, int64_moved_on]

/-- What the recalculation from a height on leaves in the entries. -/
structure Recalculated (supplyParams : SupplyParams) (s : ChainState V) (nLocked : Int)
    (nHeightStart : Nat) (entries : List Int) : Prop where
  length : entries.length = s.blocks.length + 1
  /-- The entries below are left alone. -/
  kept : ∀ i < nHeightStart, entries.getD i 0 = s.nMoneySupply.getD i 0
  /-- The supplies are those recorded when the blocks were connected, moved by what the
  recalculation starts from. -/
  moved : ∀ i, nHeightStart ≤ i → i ≤ s.blocks.length →
    i ≤ supplyParams.nBlockRecalculateAccumulators →
    entries.getD i 0 = adjusted supplyParams nLocked i (int64 (s.recorded.getD i 0 +
      (supplyBefore supplyParams s.toActiveChain nHeightStart -
        s.recorded.getD (nHeightStart - 1) 0)))
  /-- From any height but the start of zerocoin they are the same. -/
  same : s.blocks.length ≤ supplyParams.nBlockRecalculateAccumulators →
    nHeightStart ≠ supplyParams.nZerocoinStartHeight →
    ∀ i, nHeightStart ≤ i → i ≤ s.blocks.length →
      entries.getD i 0 = adjusted supplyParams nLocked i (s.recorded.getD i 0)

/-- A recorded supply is in the range of `int64_t`. -/
theorem ChainState.Good.int64_recorded (hgood : s.Good supplyParams store node) {i : Nat}
    (hpos : 1 ≤ i) (hle : i ≤ s.blocks.length)
    (hbelow : i ≤ supplyParams.nBlockRecalculateAccumulators) :
    int64 (s.recorded.getD i 0) = s.recorded.getD i 0 := by
  have hk : i - 1 < s.blocks.length := by omega
  rcases hgood.sums (i - 1) _ (List.getElem?_eq_getElem hk) with ⟨nValueIn, nValueOut, -, hsum⟩
  have hi : i - 1 + 1 = i := by omega
  rw [hi] at hsum
  rw [hsum hbelow, int64_int64]

/-- From a height above the genesis block the recalculation comes to its end. -/
theorem ChainState.Good.recalculated (hgood : s.Good supplyParams store node)
    (setInvalidOutPoints : List COutPoint) {nHeightStart : Nat} (hpos : 1 ≤ nHeightStart)
    (hle : nHeightStart ≤ s.blocks.length) :
    ∃ entries, recalculateAGRSupply node supplyParams store setInvalidOutPoints s.toActiveChain
        nHeightStart = some (true, entries) ∧
      Recalculated supplyParams s (getInvalidUTXOValue store setInvalidOutPoints s.view)
        nHeightStart entries := by
  have hstart : nHeightStart - 1 + 1 = nHeightStart := by omega
  rcases recalcBlocks_spec hgood (getInvalidUTXOValue store setInvalidOutPoints s.view)
    (s.blocks.drop (nHeightStart - 1)) (nHeightStart - 1)
    (supplyBefore supplyParams s.toActiveChain nHeightStart) rfl with ⟨written, hwritten, hmoved⟩
  rw [hstart] at hwritten hmoved
  have htake : (s.nMoneySupply.take nHeightStart).length = nHeightStart := by
    rw [List.length_take, hgood.entries]
    omega
  have hrecalculated : recalculateAGRSupply node supplyParams store setInvalidOutPoints
      s.toActiveChain nHeightStart =
        some (true, s.nMoneySupply.take nHeightStart ++ written) := by
    unfold recalculateAGRSupply
    rw [if_neg (by omega), if_neg (by omega), hwritten]
    rfl
  have hall : ∀ i, nHeightStart ≤ i → i ≤ s.blocks.length →
      i ≤ supplyParams.nBlockRecalculateAccumulators →
      (s.nMoneySupply.take nHeightStart ++ written).getD i 0 =
        adjusted supplyParams (getInvalidUTXOValue store setInvalidOutPoints s.view) i
          (int64 (s.recorded.getD i 0 + (supplyBefore supplyParams s.toActiveChain nHeightStart -
            s.recorded.getD (nHeightStart - 1) 0))) := by
    intro i hi hle' hbelow
    have hindex : nHeightStart + (i - nHeightStart) = i := by omega
    have hlt : i - nHeightStart < (s.blocks.drop (nHeightStart - 1)).length := by
      rw [List.length_drop]
      omega
    have hvalue := hmoved (i - nHeightStart) hlt (by omega)
    rw [hindex] at hvalue
    rw [List.getD_append_right _ _ _ _ (by omega), htake, hvalue]
  refine ⟨_, hrecalculated, length_recalculateAGRSupply hgood.entries hrecalculated, ?_, hall, ?_⟩
  · intro i hi
    rw [List.getD_append _ _ _ _ (by omega), List.getD_eq_getElem?_getD,
      List.getElem?_take_of_lt hi, ← List.getD_eq_getElem?_getD]
  · intro hbelow hne i hi hle'
    have hbase : supplyBefore supplyParams s.toActiveChain nHeightStart =
        s.recorded.getD (nHeightStart - 1) 0 := by
      unfold supplyBefore
      rw [if_neg hne, hgood.unchanged hbelow]
    rw [hall i hi hle' (by omega), hbase, Int.sub_self, Int.add_zero,
      hgood.int64_recorded (by omega) hle' (by omega)]

/-- **The recalculated money supply.**  For every chain that was connected and every start
above the genesis block the recalculation returns true; what it writes for the
blocks up to the adjustment is what `ConnectBlock` recorded, moved by the constant
where it starts with zerocoin. -/
theorem recalculateAGRSupply_spec (hstore : store.Lawful) {v₀ : V}
    (hempty : ∀ hash, (store.coins v₀ hash).isPruned = true)
    (h : Connected params supplyParams checks validate store setInvalidOutPoints node v₀ s)
    {nHeightStart : Nat} (hpos : 1 ≤ nHeightStart) (hle : nHeightStart ≤ s.blocks.length) :
    ∃ entries, recalculateAGRSupply node supplyParams store setInvalidOutPoints s.toActiveChain
        nHeightStart = some (true, entries) ∧
      Recalculated supplyParams s (getInvalidUTXOValue store setInvalidOutPoints s.view)
        nHeightStart entries :=
  (h.good hstore hempty).recalculated setInvalidOutPoints hpos hle

end Chains

/-! ## A chain on the regression test network -/

section Examples

open ConnectCall (regTestParams)

def regTestSupply : SupplyParams where
  nZerocoinStartHeight := 300
  nBlockRecalculateAccumulators := 999999999
  nInvalidAmountFiltered := 0

/-- There are no zerocoins in these blocks. -/
def noSpends : SpendChecks where
  hashTxOut _ := 0
  coinSpendOf _ := ⟨none, 0, 0⟩
  parseCoinSpend _ _ _ := none
  validateInput _ _ _ := false
  verifySpend _ := false
  outputsValid _ _ := true
  nMaxSpends := 7
  nMaxPublicSpends := 637

/-- The first coinbase has all the money; those of stakes are empty. -/
def rewardTx (n : Nat) : CTransaction :=
  { hash := BitVec.ofNat 256 n
    vin := [{ prevout := COutPoint.null, scriptSig := [1, 1] }]
    vout := [{ nValue := if n = 1 then 50 * COIN else 0
               scriptPubKey := if n ≤ 250 then [CScript.OP_DUP] else [] }] }

/-- It stakes what the block before has staked, and the first coinbase at first. -/
def stakeTx (n : Nat) : CTransaction :=
  { hash := BitVec.ofNat 256 (1000 + n)
    vin := [{ prevout := if n = 251 then ⟨1, 0⟩ else ⟨BitVec.ofNat 256 (999 + n), 1⟩ }]
    vout := [⟨0, [], -10⟩, { nValue := 50 * COIN, scriptPubKey := [CScript.OP_DUP] }] }

theorem unindexed_keyed (hash : Uint256) (pindex : Stake.CBlockIndex)
    (h : (none : Option Stake.CBlockIndex) = some pindex) : pindex.hash = hash :=
  absurd h (Option.some_ne_none pindex).symm

theorem emptyChain_indexed (nHeight : Int) (pindex : Stake.CBlockIndex)
    (h : Stake.chainAt [] nHeight = some pindex) :
    (none : Option Stake.CBlockIndex) = some pindex :=
  absurd (Stake.mem_of_chainAt h) List.not_mem_nil

theorem emptyMempool_keyed (hash : Uint256) (tx : CTransaction)
    (h : (none : Option CTransaction) = some tx) : tx.hash = hash :=
  absurd h (Option.some_ne_none tx).symm

/-- A node whose transaction index has them all. -/
def indexNode : Stake.Node where
  mapBlockIndex _ := none
  chainActive := []
  keyed := unindexed_keyed
  indexed := emptyChain_indexed
  mempool_keyed := emptyMempool_keyed
  fTxIndex := true
  readTxIndex hash :=
    some (0, if hash.toNat < 1000 then rewardTx hash.toNat else stakeTx (hash.toNat - 1000))
  coinsHeight _ := none
  readBlockFromDisk _ := none

/-- Stakes follow the last block of work. -/
def callAt (n : Nat) : SupplyCall where
  env := syncingEnv n
  nodeChecked := indexNode
  node := indexNode
  fValid := allValid
  block := blockAt n (if n ≤ 250 then [rewardTx n] else [rewardTx n, stakeTx n])

/-- The supplies that so many blocks record from a height on. -/
def suppliesFrom (v : Uint256 → CCoins) (nMoneySupply : Int) :
    Nat → Nat → Option (List Int)
  | _, 0 => some []
  | nHeight, count + 1 =>
      let call := callAt (nHeight + 1)
      match connectBlock regTestParams mapStore
          (call.denominationOf noSpends fun _ _ _ => false)
          (call.accepts noSpends fun _ _ _ => false) call.env v nMoneySupply (nHeight + 1)
          call.block with
      | none => none
      | some r => (suppliesFrom r.view r.nMoneySupply (nHeight + 1) count).map
          (r.nMoneySupply :: ·)

/-- The chains that are connected from these calls. -/
abbrev RegTestChain : ChainState (Uint256 → CCoins) → Prop :=
  Connected regTestParams regTestSupply noSpends (fun _ _ _ => false) mapStore [] indexNode
    noCoins

theorem holds_rewardTx {n : Nat} (hn : n < 1000) : Holds indexNode (rewardTx n) := by
  have hindex : (BitVec.ofNat 256 n).toNat = n := by
    rw [BitVec.toNat_ofNat, Nat.mod_eq_of_lt (by omega)]
  refine ⟨0, ?_⟩
  unfold Stake.Node.getTransaction
  simp [indexNode, rewardTx, CTransaction.getHash, hindex, hn]

theorem holds_stakeTx {n : Nat} (hn : n < 1000) : Holds indexNode (stakeTx n) := by
  have hindex : (BitVec.ofNat 256 (1000 + n)).toNat = 1000 + n := by
    rw [BitVec.toNat_ofNat, Nat.mod_eq_of_lt (by omega)]
  refine ⟨0, ?_⟩
  unfold Stake.Node.getTransaction
  simp [indexNode, stakeTx, CTransaction.getHash, hindex]

theorem mem_callAt {n : Nat} {tx : CTransaction} (h : tx ∈ (callAt n).block.vtx) :
    tx = rewardTx n ∨ tx = stakeTx n := by
  unfold callAt blockAt at h
  dsimp only at h
  split at h
  · exact .inl (List.mem_singleton.mp h)
  · simpa using h

theorem stored_callAt {n : Nat} (hn : n < 1000) : Stored indexNode (callAt n) where
  txs tx htx := by
    rcases mem_callAt htx with rfl | rfl
    · exact holds_rewardTx hn
    · exact holds_stakeTx hn
  mints tx htx txin htxin hpublic := by
    have hplain : ∀ txin ∈ tx.vin, txin.isZerocoinPublicSpend = false := by
      rcases mem_callAt htx with rfl | rfl
      · simp [rewardTx, CTxIn.isZerocoinPublicSpend, CScript.isZerocoinPublicSpend,
          CScript.startsWithOpcode, CScript.OP_ZEROCOINPUBLICSPEND]
      · simp [stakeTx, CTxIn.isZerocoinPublicSpend, CScript.isZerocoinPublicSpend,
          CScript.startsWithOpcode]
    rw [hplain txin htxin] at hpublic
    cases hpublic

theorem mapStore_lawful : mapStore.Lawful where
  coins_write v k c k' := by
    simp only [mapStore, Function.update_apply]
    split
    · rfl
    · rfl
  coins_setBestBlock _ _ _ := CCoins.Same.refl _

theorem noCoins_pruned (hash : Uint256) : (mapStore.coins noCoins hash).isPruned = true := rfl

theorem connected_of_suppliesFrom {count : Nat} {s : ChainState (Uint256 → CCoins)}
    (h : RegTestChain s) (hcount : s.blocks.length + count < 1000) {supplies : List Int}
    (hrun : suppliesFrom s.view (s.recorded.getD s.blocks.length 0) s.blocks.length count =
      some supplies) :
    ∃ s', RegTestChain s' ∧ s'.blocks.length = s.blocks.length + count ∧
      s'.recorded = s.recorded ++ supplies := by
  induction count generalizing s supplies with
  | zero =>
      cases hrun
      exact ⟨s, h, rfl, by simp⟩
  | succ count ih =>
      have hgood := h.good mapStore_lawful noCoins_pruned
      unfold suppliesFrom at hrun
      dsimp only at hrun
      split at hrun
      · cases hrun
      rename_i r hblock
      rcases Option.map_eq_some_iff.mp hrun with ⟨supplies', hrest, rfl⟩
      have hentries : entriesBefore regTestSupply mapStore [] (callAt (s.blocks.length + 1)) s =
          some s.recorded := by
        unfold entriesBefore
        rw [if_neg (by simp only [regTestSupply]; omega),
          hgood.unchanged (by simp only [regTestSupply]; omega)]
      have hconnect : s.connect regTestParams regTestSupply noSpends (fun _ _ _ => false) mapStore
          [] (callAt (s.blocks.length + 1)) = some
            { view := r.view
              blocks := s.blocks ++ [(callAt (s.blocks.length + 1)).block]
              nMoneySupply := s.recorded ++ [r.nMoneySupply]
              recorded := s.recorded ++ [r.nMoneySupply] } := by
        unfold ChainState.connect
        rw [hentries]
        dsimp only
        rw [hblock]
        rfl
      have hnext := Connected.connect h (stored_callAt (by omega)) hconnect
      have hlength : (s.blocks ++ [(callAt (s.blocks.length + 1)).block]).length =
          s.blocks.length + 1 := by rw [List.length_append, List.length_singleton]
      have hlast := getD_concat_length hgood.recorded r.nMoneySupply
      rw [← hlast, ← hlength] at hrest
      rcases ih hnext (by rw [hlength]; omega) hrest with ⟨s', hs', hlen, hrecorded⟩
      refine ⟨s', hs', ?_, ?_⟩
      · rw [hlen, List.length_append, List.length_singleton]
        omega
      · rw [hrecorded, List.append_assoc]
        rfl

/-- A chain up to the start of zerocoin. -/
theorem exists_chain : ∃ s, RegTestChain s ∧ s.blocks.length = 300 ∧
    s.recorded.getD 299 0 = 50 * COIN ∧ s.recorded.getD 300 0 = 50 * COIN := by
  have hrun : (suppliesFrom noCoins 0 0 300).any (fun supplies =>
      decide (supplies.getD 298 0 = 50 * COIN ∧ supplies.getD 299 0 = 50 * COIN)) = true := by
    decide +kernel
  rcases (Option.any_eq_true _ _).mp hrun with ⟨supplies, hsupplies, hvalues⟩
  have hgenesis : RegTestChain ⟨⟨noCoins, [], [0]⟩, [0]⟩ := Connected.genesis
  rcases connected_of_suppliesFrom hgenesis (by decide) hsupplies with
    ⟨s, hs, hlength, hrecorded⟩
  refine ⟨s, hs, hlength, ?_⟩
  rw [hrecorded]
  simpa using hvalues

/-- From the block after the genesis block on the supplies are the same. -/
theorem recalculateAGRSupply_spec_regtest :
    ∃ s entries, RegTestChain s ∧
      recalculateAGRSupply indexNode regTestSupply mapStore [] s.toActiveChain 1 =
        some (true, entries) ∧ entries.getD 300 0 = 50 * COIN := by
  rcases exists_chain with ⟨s, hs, hlength, -, hlast⟩
  rcases recalculateAGRSupply_spec mapStore_lawful noCoins_pruned hs (by decide : 1 ≤ 1)
    (by omega) with ⟨entries, hentries, hrecalculated⟩
  refine ⟨s, entries, hs, hentries, ?_⟩
  rw [hrecalculated.same (by rw [hlength]; decide) (by decide) 300 (by decide) (by omega), hlast]
  rfl

/-- **From the start of zerocoin on** the supply of every block is another one. -/
theorem supply_recalculated_from_constant :
    ¬ ∀ s, RegTestChain s → ∀ nHeightStart entries,
      recalculateAGRSupply indexNode regTestSupply mapStore [] s.toActiveChain nHeightStart =
        some (true, entries) →
      ∀ i, nHeightStart ≤ i → i ≤ s.blocks.length → entries.getD i 0 = s.recorded.getD i 0 := by
  intro h
  rcases exists_chain with ⟨s, hs, hlength, hbefore, hlast⟩
  have hgood := hs.good mapStore_lawful noCoins_pruned
  rcases hgood.recalculated [] (by decide : 1 ≤ 300) (by omega) with
    ⟨entries, hentries, hrecalculated⟩
  have hsame := h s hs 300 entries hentries 300 (by decide) (by omega)
  have hadjusted : ∀ nLocked x, adjusted regTestSupply nLocked 300 x = x := fun _ _ => rfl
  have hbase : supplyBefore regTestSupply s.toActiveChain 300 = 5449796547496199 := rfl
  rw [hrecalculated.moved 300 (by decide) (by omega) (by decide), hadjusted, hbase, hbefore,
    hlast] at hsame
  exact absurd hsame (by decide)

end Examples

end Agrarian.MoneySupply
