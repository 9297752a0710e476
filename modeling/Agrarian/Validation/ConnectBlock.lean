import Agrarian.Masternode.Budget
import Agrarian.Coins.Undo

/-!
# The amounts of a block

`ConnectBlock` adds up what the transactions of a block spend and create, in
64-bit integers, derives the money supply of the block from the sums and asks
`IsBlockValueValid` whether the block creates too much.

The coins are a view as `UpdateCoins` works on it.  The checks that neither
read nor change an amount (scripts, signature operations, maturity, serials
and so on) are one outcome for each transaction; parsing a zerocoin spend is a
parameter that gives its denomination.  The blocks are those above the genesis
block, for which `ConnectBlock` adds up nothing, and the supply of the parent
is the one found when it is read.
-/

namespace Agrarian.Validation

open Agrarian.Lib Agrarian.Coins Agrarian.Masternode

/-- `libzerocoin::CoinDenomination`, without the value for an error. -/
inductive CoinDenomination
  | ZQ_ONE
  | ZQ_FIVE
  | ZQ_TEN
  | ZQ_FIFTY
  | ZQ_ONE_HUNDRED
  | ZQ_FIVE_HUNDRED
  | ZQ_ONE_THOUSAND
  | ZQ_FIVE_THOUSAND
  deriving DecidableEq, Repr

/-- `ZerocoinDenominationToInt`. -/
def CoinDenomination.toInt : CoinDenomination → Int
  | ZQ_ONE => 1
  | ZQ_FIVE => 5
  | ZQ_TEN => 10
  | ZQ_FIFTY => 50
  | ZQ_ONE_HUNDRED => 100
  | ZQ_FIVE_HUNDRED => 500
  | ZQ_ONE_THOUSAND => 1000
  | ZQ_FIVE_THOUSAND => 5000

theorem CoinDenomination.toInt_pos (denom : CoinDenomination) :
    0 < denom.toInt := by
  cases denom <;> decide

/-! ## `IsBlockValueValid` -/

/-- What a node knows when it checks the value of a block. -/
structure ValueEnv where
  /-- The hash and the height of the tip. -/
  tip : Option (Uint256 × Int)
  /-- The heights of `mapBlockIndex`. -/
  heightOf : Uint256 → Option Int := fun _ => none
  /-- `masternodeSync.IsSynced()`. -/
  fSynced : Bool
  /-- `SPORK_13_ENABLE_SUPERBLOCKS`. -/
  fSuperblocks : Bool
  budget : CBudgetManager := {}
  nCountEnabled : Nat := 0

/-- The height of the block by its parent; zero if that is not found. -/
def ValueEnv.heightAfter (env : ValueEnv) (hashTip : Uint256) (nTip : Int)
    (hashPrevBlock : Uint256) : Int :=
  if hashTip = hashPrevBlock then nTip + 1
  else
    match env.heightOf hashPrevBlock with
    | none => 0
    | some nHeight => nHeight + 1

variable (params : CChainParams)

/-- The value of the block at a height is not compared with what is
expected. -/
def valueWaived (env : ValueEnv) (nHeight : Int) : Bool :=
  if !env.fSynced then nHeight % params.nBudgetCycleBlocks < 100
  else env.fSuperblocks &&
    env.budget.isBudgetPaymentBlock env.nCountEnabled nHeight

def isBlockValueValid (env : ValueEnv) (hashPrevBlock : Uint256)
    (nExpectedValue nMinted : Int) : Bool :=
  match env.tip with
  | none => true
  | some (hashTip, nTip) =>
      let nHeight := env.heightAfter hashTip nTip hashPrevBlock
      if !env.fSynced then
        -- super blocks will always be on these blocks, max 100 per budgeting
        if nHeight % params.nBudgetCycleBlocks < 100 then true
        else nMinted ≤ nExpectedValue
      else if !env.fSuperblocks then nMinted ≤ nExpectedValue
      else if env.budget.isBudgetPaymentBlock env.nCountEnabled nHeight then
        true
      else nMinted ≤ nExpectedValue

theorem isBlockValueValid_eq {env : ValueEnv} {hashTip hashPrevBlock : Uint256}
    {nTip nExpectedValue nMinted : Int} (htip : env.tip = some (hashTip, nTip)) :
    isBlockValueValid params env hashPrevBlock nExpectedValue nMinted = true ↔
      valueWaived params env (env.heightAfter hashTip nTip hashPrevBlock) =
        true ∨ nMinted ≤ nExpectedValue := by
  unfold isBlockValueValid valueWaived
  rw [htip]
  cases env.fSynced with
  | false => simp
  | true =>
      cases env.fSuperblocks with
      | false => simp
      | true => simp

/-! ## The sums -/

/-- The accumulators of `ConnectBlock`. -/
structure Amounts where
  nFees : Int := 0
  nValueOut : Int := 0
  nValueIn : Int := 0
  deriving DecidableEq, Repr

/-- The loop of `GetValueOut`; `none` where it throws. -/
def valueOutFrom : List CTxOut → Int → Option Int
  | [], nValueOut => some nValueOut
  | out :: vout, nValueOut =>
      if out.nValue < 0 then none
      else
        let nSum := int64 (nValueOut + out.nValue)
        if nSum < nValueOut then none else valueOutFrom vout nSum

def getValueOut (tx : CTransaction) : Option Int := valueOutFrom tx.vout 0

/-- The outputs of a transaction as `CheckTransaction` looks at them. -/
def checkOutputs : List CTxOut → Int → Bool
  | [], _ => true
  | out :: vout, nValueOut =>
      let nSum := int64 (nValueOut + out.nValue)
      0 ≤ out.nValue && out.nValue ≤ params.nMaxMoneyOut &&
        moneyRange params nSum && checkOutputs vout nSum

section View

variable {V : Type} (store : CoinsStore V)

/-- `GetOutputFor`; `none` when its assertion fails. -/
def getOutputFor (v : V) (out : COutPoint) : Option CTxOut :=
  if (store.coins v out.hash).isAvailable out.n then
    (store.coins v out.hash).vout[out.n]?
  else none

/-- The loop of `GetValueIn`. -/
def valueInFrom (v : V) : List CTxIn → Int → Option Int
  | [], nResult => some nResult
  | txin :: vin, nResult =>
      match getOutputFor store v txin.prevout with
      | none => none
      | some out => valueInFrom v vin (int64 (nResult + out.nValue))

/-- The loop of `CheckInputs` over the amounts of the inputs. -/
def checkInputs (v : V) : List CTxIn → Int → Bool
  | [], _ => true
  | txin :: vin, nValueIn =>
      match getOutputFor store v txin.prevout with
      | none => false
      | some out =>
          let nSum := int64 (nValueIn + out.nValue)
          moneyRange params out.nValue && moneyRange params nSum &&
            checkInputs v vin nSum

/-- What `CheckInputs` asks of the fee. -/
def checkFee (nValueIn nValueOut : Int) : Bool :=
  nValueOut ≤ nValueIn && 0 ≤ int64 (nValueIn - nValueOut) &&
    moneyRange params (int64 (nValueIn - nValueOut))

variable (denominationOf : CTransaction → CTxIn → Option CoinDenomination)

/-- The loop over the inputs of a zerocoin spend. -/
def spentFrom (tx : CTransaction) : List CTxIn → Int → Option Int
  | [], nValueIn => some nValueIn
  | txin :: vin, nValueIn =>
      if txin.isZerocoinSpend || txin.isZerocoinPublicSpend then
        match denominationOf tx txin with
        | none => none
        | some denom =>
            spentFrom tx vin (int64 (nValueIn + denom.toInt * COIN))
      else spentFrom tx vin nValueIn

variable (fValid : CTransaction → Bool)

/-- What a transaction spends is added up. -/
def addInputs (v : V) (a : Amounts) (tx : CTransaction) (nValueOut : Int) :
    Option Amounts :=
  if tx.hasZerocoinSpendInputs then
    (spentFrom denominationOf tx tx.vin a.nValueIn).map fun nValueIn =>
      { a with nValueIn }
  else if tx.isCoinBase then some a
  else
    match valueInFrom store v tx.vin 0 with
    | none => none
    | some nValueIn =>
        if checkInputs params store v tx.vin 0 &&
            (tx.isCoinStake || checkFee params nValueIn nValueOut) then
          some { a with
            nFees :=
              if tx.isCoinStake then a.nFees
              else int64 (a.nFees + int64 (nValueIn - nValueOut))
            nValueIn := int64 (a.nValueIn + nValueIn) }
        else none

/-- One turn of the loop over the transactions. -/
def connectTx (nHeight : Int32) (v : V) (a : Amounts) (tx : CTransaction) :
    Option (V × Amounts) :=
  if !fValid tx then none
  else
    match getValueOut tx with
    | none => none
    | some nValueOut =>
        match addInputs params store denominationOf v a tx nValueOut with
        | none => none
        | some a =>
            (updateCoins store v tx nHeight).map fun (v, _) =>
              (v, { a with nValueOut := int64 (a.nValueOut + nValueOut) })

def connectTxs (nHeight : Int32) :
    List CTransaction → V → Amounts → Option (V × Amounts)
  | [], v, a => some (v, a)
  | tx :: vtx, v, a =>
      match connectTx params store denominationOf fValid nHeight v a tx with
      | none => none
      | some (v, a) => connectTxs nHeight vtx v a

/-! ## The block -/

def isProofOfStake (block : CBlock) : Bool :=
  match block.vtx with
  | _ :: tx :: _ => tx.isCoinStake
  | _ => false

/-- What a block may mint; the fees are the miner's, and a staker destroys
them. -/
def expectedMint (nHeight : Int) (fProofOfStake : Bool) (nFees : Int) : Int :=
  if fProofOfStake then getBlockValue params nHeight fProofOfStake
  else int64 (getBlockValue params nHeight fProofOfStake + nFees)

/-- What connecting a block leaves: the view and the block's counters. -/
structure Connected (V : Type) where
  view : V
  amounts : Amounts
  nMoneySupply : Int
  nMint : Int

/-- `ConnectBlock` as far as it concerns amounts; `none` if the block is not
accepted. -/
def connectBlock (env : ValueEnv) (v : V) (nMoneySupplyPrev nHeight : Int)
    (block : CBlock) : Option (Connected V) :=
  let fProofOfStake := isProofOfStake block
  if !block.vtx.all fun tx => checkOutputs params tx.vout 0 then none
  else if fProofOfStake && nHeight < params.nFirstPoSBlock then none
  else if !fProofOfStake && params.nLastPOWBlock < nHeight then none
  else
    match connectTxs params store denominationOf fValid (Int32.ofInt nHeight)
        block.vtx v {} with
    | none => none
    | some (view, a) =>
        let nMoneySupply := int64 (nMoneySupplyPrev + a.nValueOut - a.nValueIn)
        let nMint := int64 (nMoneySupply - nMoneySupplyPrev + a.nFees)
        if isBlockValueValid params env block.hashPrevBlock
            (expectedMint params nHeight fProofOfStake a.nFees) nMint then
          some { view, amounts := a, nMoneySupply, nMint }
        else none

/-! ## The exact sums -/

def exactOut (tx : CTransaction) : Int := (tx.vout.map CTxOut.nValue).sum

/-- The value of an input that is no zerocoin. -/
def inputValue (v : V) (txin : CTxIn) : Int :=
  (getOutputFor store v txin.prevout).elim 0 CTxOut.nValue

def spentValue (tx : CTransaction) (txin : CTxIn) : Int :=
  if txin.isZerocoinSpend || txin.isZerocoinPublicSpend then
    (denominationOf tx txin).elim 0 fun denom => denom.toInt * COIN
  else 0

def exactIn (v : V) (tx : CTransaction) : Int :=
  if tx.hasZerocoinSpendInputs then
    (tx.vin.map (spentValue denominationOf tx)).sum
  else if tx.isCoinBase then 0
  else (tx.vin.map (inputValue store v)).sum

/-- The fee of a transaction that pays one to the miner. -/
def exactFee (v : V) (tx : CTransaction) : Int :=
  if tx.hasZerocoinSpendInputs || tx.isCoinBase || tx.isCoinStake then 0
  else exactIn store denominationOf v tx - exactOut tx

/-- The sums over the transactions in unbounded integers. -/
def exactAmounts (nHeight : Int32) : List CTransaction → V → Amounts
  | [], _ => {}
  | tx :: vtx, v =>
      match updateCoins store v tx nHeight with
      | none => {}
      | some (v', _) =>
          let rest := exactAmounts nHeight vtx v'
          { nFees := exactFee store denominationOf v tx + rest.nFees
            nValueOut := exactOut tx + rest.nValueOut
            nValueIn := exactIn store denominationOf v tx + rest.nValueIn }

/-- Every accumulator is in the range of `int64_t`. -/
structure Amounts.Fit (a : Amounts) : Prop where
  nFees : FitsInt64 a.nFees
  nValueOut : FitsInt64 a.nValueOut
  nValueIn : FitsInt64 a.nValueIn

section Lemmas

variable {params store denominationOf fValid}
variable {v v' : V} {a a' : Amounts} {tx : CTransaction} {nHeight : Int32}

theorem moneyRange_iff {nValue : Int} :
    moneyRange params nValue = true ↔
      0 ≤ nValue ∧ nValue ≤ params.nMaxMoneyOut := by
  unfold moneyRange
  rw [Bool.and_eq_true, decide_eq_true_eq, decide_eq_true_eq]

theorem moneyRange_zero : moneyRange params 0 = true :=
  moneyRange_iff.mpr ⟨le_refl 0, params.nMaxMoneyOut_nonneg⟩

/-- A sum of two amounts that is in range has not wrapped around. -/
theorem int64_add_of_moneyRange {x y : Int} (hx : moneyRange params x = true)
    (hy : moneyRange params y = true)
    (h : moneyRange params (int64 (x + y)) = true) : int64 (x + y) = x + y := by
  have hmax := params.nMaxMoneyOut_lt
  have hx' := moneyRange_iff.mp hx
  have hy' := moneyRange_iff.mp hy
  apply int64_eq_self
  apply fitsInt64_of_nonneg
  · omega
  · omega
  · exact (moneyRange_iff.mp h).1

theorem valueOutFrom_exact {vout : List CTxOut} {nStart nValueOut : Int}
    (hstart : moneyRange params nStart = true)
    (hcheck : checkOutputs params vout nStart = true)
    (h : valueOutFrom vout nStart = some nValueOut) :
    nValueOut = nStart + (vout.map CTxOut.nValue).sum ∧
      nStart ≤ nValueOut ∧ moneyRange params nValueOut = true := by
  induction vout generalizing nStart with
  | nil =>
      cases h
      simp [hstart]
  | cons out vout ih =>
      unfold checkOutputs at hcheck
      simp only [Bool.and_eq_true, decide_eq_true_eq] at hcheck
      have hrange : moneyRange params out.nValue = true :=
        moneyRange_iff.mpr ⟨hcheck.1.1.1, hcheck.1.1.2⟩
      have hsum := int64_add_of_moneyRange hstart hrange hcheck.1.2
      unfold valueOutFrom at h
      rw [if_neg (by omega), hsum] at h
      simp only at h
      rw [if_neg (by omega)] at h
      rw [hsum] at hcheck
      have hrest := ih hcheck.1.2 hcheck.2 h
      rw [List.map_cons, List.sum_cons]
      exact ⟨by omega, by omega, hrest.2.2⟩

theorem getValueOut_exact {nValueOut : Int}
    (hcheck : checkOutputs params tx.vout 0 = true)
    (h : getValueOut tx = some nValueOut) :
    nValueOut = exactOut tx ∧ moneyRange params nValueOut = true := by
  have hspec := valueOutFrom_exact moneyRange_zero hcheck h
  rw [Int.zero_add] at hspec
  exact ⟨hspec.1, hspec.2.2⟩

theorem valueInFrom_exact {vin : List CTxIn} {nStart nValueIn : Int}
    (hstart : moneyRange params nStart = true)
    (hcheck : checkInputs params store v vin nStart = true)
    (h : valueInFrom store v vin nStart = some nValueIn) :
    nValueIn = nStart + (vin.map (inputValue store v)).sum ∧
      moneyRange params nValueIn = true := by
  induction vin generalizing nStart with
  | nil =>
      cases h
      simp [hstart]
  | cons txin vin ih =>
      unfold checkInputs at hcheck
      unfold valueInFrom at h
      cases hout : getOutputFor store v txin.prevout with
      | none =>
          rw [hout] at h
          cases h
      | some out =>
          simp only [hout, Bool.and_eq_true] at hcheck h
          have hsum := int64_add_of_moneyRange hstart hcheck.1.1 hcheck.1.2
          rw [hsum] at hcheck h
          have hrest := ih hcheck.1.2 hcheck.2 h
          have hvalue : inputValue store v txin = out.nValue := by
            unfold inputValue
            rw [hout]
            rfl
          rw [List.map_cons, List.sum_cons, hvalue]
          exact ⟨by omega, hrest.2⟩

theorem spentFrom_exact {vin : List CTxIn} {nStart nValueIn : Int}
    (hstart : FitsInt64 nStart)
    (h : spentFrom denominationOf tx vin nStart = some nValueIn) :
    nValueIn = int64 (nStart + (vin.map (spentValue denominationOf tx)).sum) := by
  induction vin generalizing nStart with
  | nil =>
      cases h
      simp [int64_eq_self hstart]
  | cons txin vin ih =>
      unfold spentFrom at h
      rw [List.map_cons, List.sum_cons]
      unfold spentValue
      split at h
      · rename_i hzc
        rw [if_pos hzc]
        cases hdenom : denominationOf tx txin with
        | none =>
            rw [hdenom] at h
            cases h
        | some denom =>
            simp only [hdenom] at h
            have hrest := ih (fitsInt64_int64 _) h
            rw [hrest, int64_add_left, Option.elim_some, Int.add_assoc]
            rfl
      · rename_i hzc
        rw [if_neg hzc, Int.zero_add]
        exact ih hstart h

theorem spentValue_nonneg (txin : CTxIn) :
    0 ≤ spentValue denominationOf tx txin := by
  unfold spentValue COIN
  split
  · cases denominationOf tx txin with
    | none => simp
    | some denom =>
        have hpos := denom.toInt_pos
        simp only [Option.elim_some]
        omega
  · exact le_refl 0

/-- All that one transaction does to the sums. -/
structure TxAdded (store : CoinsStore V)
    (denominationOf : CTransaction → CTxIn → Option CoinDenomination)
    (v : V) (tx : CTransaction) (a a' : Amounts) : Prop where
  nFees : a'.nFees = int64 (a.nFees + exactFee store denominationOf v tx)
  nValueOut : a'.nValueOut = int64 (a.nValueOut + exactOut tx)
  nValueIn : a'.nValueIn =
    int64 (a.nValueIn + exactIn store denominationOf v tx)
  out_nonneg : 0 ≤ exactOut tx
  fee_nonneg : 0 ≤ exactFee store denominationOf v tx
  fee_le : exactFee store denominationOf v tx ≤
    exactIn store denominationOf v tx

theorem addInputs_spec {nValueOut : Int} (hfit : a.Fit)
    (hout : nValueOut = exactOut tx) (hrange : moneyRange params nValueOut = true)
    (h : addInputs params store denominationOf v a tx nValueOut = some a') :
    a'.nFees = int64 (a.nFees + exactFee store denominationOf v tx) ∧
      a'.nValueOut = a.nValueOut ∧
      a'.nValueIn = int64 (a.nValueIn + exactIn store denominationOf v tx) ∧
      0 ≤ exactFee store denominationOf v tx ∧
      exactFee store denominationOf v tx ≤
        exactIn store denominationOf v tx := by
  unfold addInputs at h
  split at h
  · rename_i hzc
    have hfee : exactFee store denominationOf v tx = 0 := by
      simp [exactFee, hzc]
    have hin : exactIn store denominationOf v tx =
        (tx.vin.map (spentValue denominationOf tx)).sum := by
      simp [exactIn, hzc]
    rcases Option.map_eq_some_iff.mp h with ⟨nValueIn, hspent, rfl⟩
    rw [hfee, Int.add_zero, int64_eq_self hfit.nFees, hin]
    refine ⟨rfl, rfl, spentFrom_exact hfit.nValueIn hspent, le_refl 0, ?_⟩
    apply List.sum_nonneg
    intro value hvalue
    rcases List.mem_map.mp hvalue with ⟨txin, _, rfl⟩
    exact spentValue_nonneg txin
  · rename_i hzc
    split at h
    · rename_i hcoinbase
      cases h
      simp [exactFee, exactIn, hzc, hcoinbase, int64_eq_self hfit.nFees,
        int64_eq_self hfit.nValueIn]
    · rename_i hcoinbase
      have hin : exactIn store denominationOf v tx =
          (tx.vin.map (inputValue store v)).sum := by
        simp [exactIn, hzc, hcoinbase]
      split at h
      · cases h
      rename_i nValueIn hvalueIn
      split at h
      · rename_i hchecks
        rw [Bool.and_eq_true] at hchecks
        have hspec := valueInFrom_exact moneyRange_zero hchecks.1 hvalueIn
        rw [Int.zero_add, ← hin] at hspec
        have hin_range := moneyRange_iff.mp hspec.2
        cases h
        rw [← hspec.1]
        cases hstake : tx.isCoinStake with
        | true =>
            have hfee : exactFee store denominationOf v tx = 0 := by
              simp [exactFee, hstake]
            rw [hfee]
            simp only [if_true, Int.add_zero, int64_eq_self hfit.nFees]
            exact ⟨trivial, trivial, trivial, le_refl 0, hin_range.1⟩
        | false =>
            have hfee : exactFee store denominationOf v tx =
                nValueIn - nValueOut := by
              rw [hspec.1, hout]
              simp [exactFee, hzc, hcoinbase, hstake]
            have hle : nValueOut ≤ nValueIn := by
              have hcheckFee := hchecks.2
              rw [hstake, Bool.false_or, checkFee, Bool.and_eq_true,
                Bool.and_eq_true, decide_eq_true_eq] at hcheckFee
              exact hcheckFee.1.1
            have hout_range := moneyRange_iff.mp hrange
            rw [hfee]
            simp only [Bool.false_eq_true, if_false, int64_add_right]
            exact ⟨trivial, trivial, trivial, by omega, by omega⟩
      · cases h

theorem connectTx_spec (hfit : a.Fit)
    (hcheck : checkOutputs params tx.vout 0 = true)
    (h : connectTx params store denominationOf fValid nHeight v a tx =
      some (v', a')) :
    (∃ txundo, updateCoins store v tx nHeight = some (v', txundo)) ∧
      TxAdded store denominationOf v tx a a' := by
  unfold connectTx at h
  split at h
  · cases h
  split at h
  · cases h
  rename_i nValueOut hvalueOut
  split at h
  · cases h
  rename_i a₁ hadd
  rcases Option.map_eq_some_iff.mp h with ⟨⟨v₁, txundo⟩, hupdate, heq⟩
  cases heq
  have hout := getValueOut_exact hcheck hvalueOut
  have hadded := addInputs_spec hfit hout.1 hout.2 hadd
  refine ⟨⟨txundo, hupdate⟩, hadded.1, ?_, hadded.2.2.1, ?_,
    hadded.2.2.2.1, hadded.2.2.2.2⟩
  · rw [← hout.1, ← hadded.2.1]
  · rw [← hout.1]
    exact (moneyRange_iff.mp hout.2).1

theorem TxAdded.fit (h : TxAdded store denominationOf v tx a a') : a'.Fit where
  nFees := by
    rw [h.nFees]
    exact fitsInt64_int64 _
  nValueOut := by
    rw [h.nValueOut]
    exact fitsInt64_int64 _
  nValueIn := by
    rw [h.nValueIn]
    exact fitsInt64_int64 _

/-- All that the transactions of a block do to the sums: the accumulators are
the exact sums up to multiples of `2 ^ 64`. -/
structure TxsAdded (exact a a' : Amounts) : Prop where
  nFees : a'.nFees = int64 (a.nFees + exact.nFees)
  nValueOut : a'.nValueOut = int64 (a.nValueOut + exact.nValueOut)
  nValueIn : a'.nValueIn = int64 (a.nValueIn + exact.nValueIn)
  out_nonneg : 0 ≤ exact.nValueOut
  fee_nonneg : 0 ≤ exact.nFees
  fee_le : exact.nFees ≤ exact.nValueIn

theorem connectTxs_added {vtx : List CTransaction} (hfit : a.Fit)
    (hcheck : ∀ tx ∈ vtx, checkOutputs params tx.vout 0 = true)
    (h : connectTxs params store denominationOf fValid nHeight vtx v a =
      some (v', a')) :
    TxsAdded (exactAmounts store denominationOf nHeight vtx v) a a' := by
  induction vtx generalizing v a with
  | nil =>
      cases h
      constructor
      · simp [exactAmounts, int64_eq_self hfit.nFees]
      · simp [exactAmounts, int64_eq_self hfit.nValueOut]
      · simp [exactAmounts, int64_eq_self hfit.nValueIn]
      · exact le_refl 0
      · exact le_refl 0
      · exact le_refl 0
  | cons tx vtx ih =>
      unfold connectTxs at h
      split at h
      · cases h
      rename_i v₁ a₁ htx
      have hspec := connectTx_spec hfit (hcheck tx List.mem_cons_self) htx
      rcases hspec.1 with ⟨txundo, hupdate⟩
      have hadded := hspec.2
      have hrest := ih hadded.fit
        (fun t ht => hcheck t (List.mem_cons_of_mem _ ht)) h
      have hexact : exactAmounts store denominationOf nHeight (tx :: vtx) v =
          { nFees := exactFee store denominationOf v tx +
              (exactAmounts store denominationOf nHeight vtx v₁).nFees
            nValueOut := exactOut tx +
              (exactAmounts store denominationOf nHeight vtx v₁).nValueOut
            nValueIn := exactIn store denominationOf v tx +
              (exactAmounts store denominationOf nHeight vtx v₁).nValueIn } := by
        simp only [exactAmounts, hupdate]
      rw [hexact]
      constructor
      · rw [hrest.nFees, hadded.nFees, int64_add_left, Int.add_assoc]
      · rw [hrest.nValueOut, hadded.nValueOut, int64_add_left, Int.add_assoc]
      · rw [hrest.nValueIn, hadded.nValueIn, int64_add_left, Int.add_assoc]
      · exact Int.add_nonneg hadded.out_nonneg hrest.out_nonneg
      · exact Int.add_nonneg hadded.fee_nonneg hrest.fee_nonneg
      · exact Int.add_le_add hadded.fee_le hrest.fee_le

/-- The first transactions of a block have smaller sums. -/
theorem exactAmounts_append_le {pre post : List CTransaction}
    (hfit : a.Fit)
    (hcheck : ∀ tx ∈ pre ++ post, checkOutputs params tx.vout 0 = true)
    (h : connectTxs params store denominationOf fValid nHeight (pre ++ post) v
      a = some (v', a')) :
    (exactAmounts store denominationOf nHeight pre v).nValueOut ≤
        (exactAmounts store denominationOf nHeight (pre ++ post) v).nValueOut ∧
      (exactAmounts store denominationOf nHeight pre v).nValueIn ≤
        (exactAmounts store denominationOf nHeight (pre ++ post) v).nValueIn := by
  induction pre generalizing v a with
  | nil =>
      have hadded := connectTxs_added hfit hcheck h
      have hin := le_trans hadded.fee_nonneg hadded.fee_le
      exact ⟨hadded.out_nonneg, hin⟩
  | cons tx pre ih =>
      rw [List.cons_append] at h hcheck
      unfold connectTxs at h
      split at h
      · cases h
      rename_i v₁ a₁ htx
      have hspec := connectTx_spec hfit (hcheck tx List.mem_cons_self) htx
      rcases hspec.1 with ⟨txundo, hupdate⟩
      have hrest := ih hspec.2.fit
        (fun t ht => hcheck t (List.mem_cons_of_mem _ ht)) h
      simp only [List.cons_append, exactAmounts, hupdate]
      constructor
      · exact Int.add_le_add_left hrest.1 _
      · exact Int.add_le_add_left hrest.2 _

end Lemmas

/-! ## When the sums are exact -/

/-- After each transaction the accumulators are the exact sums: none of them
has left the range of `int64_t`. -/
def SumsExact (nHeight : Int32) (v : V) (vtx : List CTransaction) : Prop :=
  ∀ pre post v' a, vtx = pre ++ post →
    connectTxs params store denominationOf fValid nHeight pre v {} =
      some (v', a) → a = exactAmounts store denominationOf nHeight pre v

/-- The outputs that a block creates, the coins that it spends and the money
supply it leads to are below `2 ^ 63`. -/
structure AmountsFit (nHeight : Int32) (v : V) (nMoneySupplyPrev : Int)
    (vtx : List CTransaction) : Prop where
  nValueOut :
    (exactAmounts store denominationOf nHeight vtx v).nValueOut < 2 ^ 63
  nValueIn :
    (exactAmounts store denominationOf nHeight vtx v).nValueIn < 2 ^ 63
  nMoneySupply : FitsInt64 (nMoneySupplyPrev +
    (exactAmounts store denominationOf nHeight vtx v).nValueOut -
      (exactAmounts store denominationOf nHeight vtx v).nValueIn)

section Exact

variable {params store denominationOf fValid}
variable {v v' : V} {a : Amounts} {nHeight : Int32}

theorem amounts_zero_fit : Amounts.Fit {} where
  nFees := by decide
  nValueOut := by decide
  nValueIn := by decide

theorem TxsAdded.eq_exact {exact a' : Amounts} (h : TxsAdded exact {} a')
    (hout : exact.nValueOut < 2 ^ 63) (hin : exact.nValueIn < 2 ^ 63) :
    a' = exact := by
  have hfees : a'.nFees = exact.nFees := by
    have hfee := h.nFees
    rw [Int.zero_add] at hfee
    rw [hfee]
    have := h.fee_nonneg
    have := h.fee_le
    exact int64_eq_self ⟨by omega, by omega⟩
  have hvalueOut : a'.nValueOut = exact.nValueOut := by
    have hvalue := h.nValueOut
    rw [Int.zero_add] at hvalue
    rw [hvalue]
    have := h.out_nonneg
    exact int64_eq_self ⟨by omega, by omega⟩
  have hvalueIn : a'.nValueIn = exact.nValueIn := by
    have hvalue := h.nValueIn
    rw [Int.zero_add] at hvalue
    rw [hvalue]
    have := h.fee_nonneg
    have := h.fee_le
    exact int64_eq_self ⟨by omega, by omega⟩
  cases a'
  cases exact
  simp_all

/-- **The accumulators of an accepted block** are exact throughout if and only
if what the block creates and what it spends are below `2 ^ 63`. -/
theorem connectTxs_exact {vtx : List CTransaction}
    (hcheck : ∀ tx ∈ vtx, checkOutputs params tx.vout 0 = true)
    (h : connectTxs params store denominationOf fValid nHeight vtx v {} =
      some (v', a)) :
    SumsExact params store denominationOf fValid nHeight v vtx ↔
      (exactAmounts store denominationOf nHeight vtx v).nValueOut < 2 ^ 63 ∧
        (exactAmounts store denominationOf nHeight vtx v).nValueIn < 2 ^ 63 := by
  constructor
  · intro hexact
    have hall := hexact vtx [] v' a (by simp) h
    have hadded := connectTxs_added amounts_zero_fit hcheck h
    rw [← hall, hadded.nValueOut, hadded.nValueIn]
    exact ⟨(fitsInt64_int64 _).2, (fitsInt64_int64 _).2⟩
  · rintro ⟨hout, hin⟩ pre post v₁ a₁ heq hpre
    subst heq
    have hle := exactAmounts_append_le amounts_zero_fit hcheck h
    have hadded := connectTxs_added amounts_zero_fit
      (fun tx htx => hcheck tx (List.mem_append_left post htx)) hpre
    exact hadded.eq_exact (by omega) (by omega)

/-- All that accepting a block means for its amounts. -/
theorem connectBlock_spec {env : ValueEnv} {nMoneySupplyPrev nHeight : Int}
    {block : CBlock} {r : Connected V}
    (h : connectBlock params store denominationOf fValid env v
      nMoneySupplyPrev nHeight block = some r) :
    (∀ tx ∈ block.vtx, checkOutputs params tx.vout 0 = true) ∧
      connectTxs params store denominationOf fValid (Int32.ofInt nHeight)
        block.vtx v {} = some (r.view, r.amounts) ∧
      r.nMoneySupply = int64 (nMoneySupplyPrev + r.amounts.nValueOut -
        r.amounts.nValueIn) ∧
      r.nMint = int64 (r.nMoneySupply - nMoneySupplyPrev + r.amounts.nFees) ∧
      isBlockValueValid params env block.hashPrevBlock
        (expectedMint params nHeight (isProofOfStake block) r.amounts.nFees)
        r.nMint = true := by
  unfold connectBlock at h
  simp only at h
  split at h
  · cases h
  rename_i hchecked
  split at h
  · cases h
  split at h
  · cases h
  split at h
  · cases h
  rename_i view a htxs
  split at h
  · rename_i hvalue
    cases h
    have hall : ∀ tx ∈ block.vtx, checkOutputs params tx.vout 0 = true := by
      simpa using hchecked
    exact ⟨hall, htxs, rfl, rfl, hvalue⟩
  · cases h

/-- **The money supply of a block** is the exact one, and its accumulators
never leave their range, if and only if its amounts fit. -/
theorem connectBlock_exact_iff {env : ValueEnv} {nMoneySupplyPrev nHeight : Int}
    {block : CBlock} {r : Connected V}
    (h : connectBlock params store denominationOf fValid env v
      nMoneySupplyPrev nHeight block = some r) :
    (SumsExact params store denominationOf fValid (Int32.ofInt nHeight) v
        block.vtx ∧
      r.nMoneySupply = nMoneySupplyPrev +
        (exactAmounts store denominationOf (Int32.ofInt nHeight) block.vtx
          v).nValueOut -
        (exactAmounts store denominationOf (Int32.ofInt nHeight) block.vtx
          v).nValueIn) ↔
      AmountsFit store denominationOf (Int32.ofInt nHeight) v nMoneySupplyPrev
        block.vtx := by
  have hspec := connectBlock_spec h
  have hexact := connectTxs_exact hspec.1 hspec.2.1
  constructor
  · rintro ⟨hsums, hsupply⟩
    have hbounds := hexact.mp hsums
    refine ⟨hbounds.1, hbounds.2, ?_⟩
    rw [← hsupply, hspec.2.2.1]
    exact fitsInt64_int64 _
  · intro hfit
    have hsums := hexact.mpr ⟨hfit.nValueOut, hfit.nValueIn⟩
    have hall := hsums block.vtx [] r.view r.amounts (by simp) hspec.2.1
    refine ⟨hsums, ?_⟩
    rw [hspec.2.2.1, hall]
    exact int64_eq_self hfit.nMoneySupply

end Exact

/-! ## Chains -/

/-- A block with the view it was connected to and the outcome of the checks of
its transactions. -/
structure BlockRun (V : Type) where
  view : V
  fValid : CTransaction → Bool
  block : CBlock

/-- The blocks connected one after the other above a genesis block, each by a
node in a state of its own; `ok` may ask more of each of them. -/
inductive Chain (ok : Int32 → V → Int → List CTransaction → Prop) (v₀ : V) :
    List (BlockRun V) → V → Int → Prop
  | genesis : Chain ok v₀ [] v₀ 0
  | connect {runs : List (BlockRun V)} {v : V} {nMoneySupply : Int}
      {env : ValueEnv} {fValid : CTransaction → Bool} {block : CBlock}
      {r : Connected V} :
      Chain ok v₀ runs v nMoneySupply →
      connectBlock params store denominationOf fValid env v nMoneySupply
        (runs.length + 1) block = some r →
      ok (Int32.ofInt (runs.length + 1)) v nMoneySupply block.vtx →
      Chain ok v₀ (runs ++ [⟨v, fValid, block⟩]) r.view r.nMoneySupply

/-- What a block creates less what it spends. -/
def exactIncrease (run : BlockRun V × Nat) : Int :=
  let exact := exactAmounts store denominationOf (Int32.ofInt (run.2 + 1))
    run.1.block.vtx run.1.view
  exact.nValueOut - exact.nValueIn

/-- The money supply in unbounded integers. -/
def exactSupply (runs : List (BlockRun V)) : Int :=
  (runs.zipIdx.map (exactIncrease store denominationOf)).sum

section Runs

variable {params store denominationOf}
variable {v₀ v : V} {runs : List (BlockRun V)} {nMoneySupply : Int}

/-- **Along a chain** whose blocks have amounts that fit, the accumulators of
every block are exact and the money supply is the exact sum. -/
theorem Chain.supply_exact
    (h : Chain params store denominationOf (AmountsFit store denominationOf)
      v₀ runs v nMoneySupply) :
    (∀ run ∈ runs.zipIdx, SumsExact params store denominationOf run.1.fValid
      (Int32.ofInt (run.2 + 1)) run.1.view run.1.block.vtx) ∧
    nMoneySupply = exactSupply store denominationOf runs := by
  induction h with
  | genesis => simp [exactSupply]
  | connect _ hblock hfit ih =>
      have hexact := (connectBlock_exact_iff hblock).mpr hfit
      unfold exactSupply
      rw [List.zipIdx_append]
      constructor
      · intro run hrun
        rcases List.mem_append.mp hrun with hrun | hrun
        · exact ih.1 run hrun
        · simp only [List.zipIdx_cons, List.zipIdx_nil, List.mem_singleton,
            Nat.zero_add] at hrun
          subst hrun
          exact hexact.1
      · rw [List.map_append, List.sum_append, hexact.2, ih.2]
        simp only [List.zipIdx_cons, List.zipIdx_nil, Nat.zero_add,
          List.map_cons, List.map_nil, List.sum_cons, List.sum_nil,
          exactIncrease, exactSupply]
        omega

end Runs

/-! ## What a block adds to the supply -/

/-- The payment that the finalized budget allots to a height. -/
def budgetAmount (env : ValueEnv) (nHeight : Int) : Int :=
  (env.budget.pays nHeight).elim 0 fun p => p.2.nAmount

/-- If the block is accepted, it adds at most the block value and the budget
payment to the supply. -/
def IncreaseBounded (env : ValueEnv) (v : V) (nMoneySupplyPrev nHeight : Int)
    (block : CBlock) : Prop :=
  ∀ r, connectBlock params store denominationOf fValid env v nMoneySupplyPrev
      nHeight block = some r →
    r.nMoneySupply - nMoneySupplyPrev ≤
      getBlockValue params nHeight (isProofOfStake block) +
        budgetAmount env nHeight

section Increase

variable {params store denominationOf fValid}
variable {v : V}

/-- **A block whose value is compared** adds at most the block value to the
supply, if its amounts fit. -/
theorem connectBlock_increase_le {env : ValueEnv}
    {nMoneySupplyPrev nHeight : Int} {block : CBlock} {r : Connected V}
    (h : connectBlock params store denominationOf fValid env v
      nMoneySupplyPrev nHeight block = some r)
    (htip : env.tip = some (block.hashPrevBlock, nHeight - 1))
    (hfit : AmountsFit store denominationOf (Int32.ofInt nHeight) v
      nMoneySupplyPrev block.vtx)
    (hcompared : valueWaived params env nHeight = false) :
    r.nMoneySupply - nMoneySupplyPrev ≤
      getBlockValue params nHeight (isProofOfStake block) := by
  have hspec := connectBlock_spec h
  have hexact := (connectBlock_exact_iff h).mpr hfit
  have hadded := connectTxs_added amounts_zero_fit hspec.1 hspec.2.1
  have hamounts := hexact.1 block.vtx [] r.view r.amounts (by simp)
    hspec.2.1
  have hout := hfit.nValueOut
  have hin := hfit.nValueIn
  have hfee := hadded.fee_nonneg
  have hfeeIn := hadded.fee_le
  have houtNonneg := hadded.out_nonneg
  have hsupply := hexact.2
  have hmint := hspec.2.2.2.1
  have hvalid := hspec.2.2.2.2
  rw [← hamounts] at hout hin hfee hfeeIn houtNonneg hsupply
  have hmint' : r.nMint =
      r.nMoneySupply - nMoneySupplyPrev + r.amounts.nFees := by
    rw [hmint]
    exact int64_eq_self ⟨by omega, by omega⟩
  have hheight : env.heightAfter block.hashPrevBlock (nHeight - 1)
      block.hashPrevBlock = nHeight := by
    unfold ValueEnv.heightAfter
    rw [if_pos rfl]
    omega
  rw [isBlockValueValid_eq params htip, hheight, hcompared, hmint'] at hvalid
  rcases hvalid with hwaived | hle
  · cases hwaived
  · have hexpected : expectedMint params nHeight (isProofOfStake block)
        r.amounts.nFees ≤
          getBlockValue params nHeight (isProofOfStake block) +
            r.amounts.nFees := by
      unfold expectedMint
      split
      · omega
      · have hvalue := getBlockValue_nonneg params nHeight
          (isProofOfStake block)
        exact int64_le_self (by omega)
    omega

end Increase

/-! ## What a block mints -/

/-- A transaction that pays its fee from the outputs it spends. -/
structure Ordinary (tx : CTransaction) : Prop where
  noZerocoin : tx.hasZerocoinSpendInputs = false
  noCoinBase : tx.isCoinBase = false
  noCoinStake : tx.isCoinStake = false

/-- What a transaction creates out of nothing. -/
def txMint (v : V) (tx : CTransaction) : Int :=
  exactOut tx - exactIn store denominationOf v tx +
    exactFee store denominationOf v tx

def exactMint (nHeight : Int32) (vtx : List CTransaction) (v : V) : Int :=
  (exactAmounts store denominationOf nHeight vtx v).nValueOut -
    (exactAmounts store denominationOf nHeight vtx v).nValueIn +
      (exactAmounts store denominationOf nHeight vtx v).nFees

section Mint

variable {params store denominationOf fValid}
variable {v : V} {nHeight : Int32}

theorem txMint_ordinary {tx : CTransaction} (h : Ordinary tx) :
    txMint store denominationOf v tx = 0 := by
  unfold txMint exactFee
  rw [h.noZerocoin, h.noCoinBase, h.noCoinStake]
  simp only [Bool.or_self, Bool.false_eq_true, if_false]
  omega

theorem txMint_coinbase {tx : CTransaction} (h : tx.isCoinBase = true) :
    txMint store denominationOf v tx = exactOut tx := by
  have hzerocoin : tx.hasZerocoinSpendInputs = false := by
    unfold CTransaction.isCoinBase at h
    split at h
    · simp only [CTransaction.containsZerocoins, Bool.and_eq_true,
        Bool.not_eq_true', Bool.or_eq_false_iff] at h
      exact h.2.1.1
    · cases h
  simp [txMint, exactFee, exactIn, hzerocoin, h]

theorem txMint_coinstake {tx : CTransaction} (h : tx.isCoinStake = true) :
    txMint store denominationOf v tx =
      exactOut tx - exactIn store denominationOf v tx := by
  simp [txMint, exactFee, h]

theorem exactMint_cons {tx : CTransaction} {vtx : List CTransaction} {v' : V}
    {txundo : CTxUndo} (h : updateCoins store v tx nHeight = some (v', txundo)) :
    exactMint store denominationOf nHeight (tx :: vtx) v =
      txMint store denominationOf v tx +
        exactMint store denominationOf nHeight vtx v' := by
  simp only [exactMint, exactAmounts, h, txMint]
  omega

/-- Ordinary transactions create what they spend and the miner gets. -/
theorem exactMint_ordinary {vtx : List CTransaction}
    (h : ∀ tx ∈ vtx, Ordinary tx) (v : V) :
    exactMint store denominationOf nHeight vtx v = 0 := by
  induction vtx generalizing v with
  | nil => rfl
  | cons tx vtx ih =>
      have hrest := ih fun t ht => h t (List.mem_cons_of_mem _ ht)
      cases hupdate : updateCoins store v tx nHeight with
      | none => simp [exactMint, exactAmounts, hupdate]
      | some p =>
          rw [exactMint_cons hupdate, hrest,
            txMint_ordinary (h tx List.mem_cons_self)]
          rfl

theorem connectTxs_update {tx : CTransaction} {vtx : List CTransaction}
    {v' : V} {a a' : Amounts} (hfit : a.Fit)
    (hcheck : ∀ t ∈ tx :: vtx, checkOutputs params t.vout 0 = true)
    (h : connectTxs params store denominationOf fValid nHeight (tx :: vtx) v a =
      some (v', a')) :
    ∃ v₁ txundo, updateCoins store v tx nHeight = some (v₁, txundo) := by
  unfold connectTxs at h
  split at h
  · cases h
  · rename_i v₁ a₁ htx
    have hspec := connectTx_spec hfit (hcheck tx List.mem_cons_self) htx
    exact ⟨v₁, hspec.1⟩

/-- The parent's supply cancels out, and so does every wrap-around. -/
theorem int64_mint (nMoneySupplyPrev nValueOut nValueIn nFees : Int) :
    int64 (int64 (nMoneySupplyPrev + int64 nValueOut - int64 nValueIn) -
      nMoneySupplyPrev + int64 nFees) =
        int64 (nValueOut - nValueIn + nFees) := by
  calc
    _ = int64 (int64 (nMoneySupplyPrev + int64 nValueOut - int64 nValueIn) +
        (int64 nFees - nMoneySupplyPrev)) := congrArg int64 (by omega)
    _ = int64 (nMoneySupplyPrev + int64 nValueOut - int64 nValueIn +
        (int64 nFees - nMoneySupplyPrev)) := int64_add_left _ _
    _ = int64 (int64 nValueOut + (int64 nFees - int64 nValueIn)) :=
        congrArg int64 (by omega)
    _ = int64 (nValueOut + (int64 nFees - int64 nValueIn)) :=
        int64_add_left _ _
    _ = int64 (nValueOut + int64 nFees - int64 nValueIn) :=
        congrArg int64 (by omega)
    _ = int64 (nValueOut + int64 nFees - nValueIn) := int64_sub_right _ _
    _ = int64 (nValueOut - nValueIn + int64 nFees) :=
        congrArg int64 (by omega)
    _ = int64 (nValueOut - nValueIn + nFees) := int64_add_right _ _

theorem connectBlock_nMint {env : ValueEnv} {nMoneySupplyPrev nHeight : Int}
    {block : CBlock} {r : Connected V}
    (h : connectBlock params store denominationOf fValid env v
      nMoneySupplyPrev nHeight block = some r) :
    r.nMint = int64 (exactMint store denominationOf (Int32.ofInt nHeight)
      block.vtx v) := by
  have hspec := connectBlock_spec h
  have hadded := connectTxs_added amounts_zero_fit hspec.1 hspec.2.1
  rw [hspec.2.2.2.1, hspec.2.2.1, hadded.nFees, hadded.nValueOut,
    hadded.nValueIn]
  simp only [Int.zero_add]
  exact int64_mint _ _ _ _

/-- **In a proof-of-work block** the coinbase is minted. -/
theorem nMint_coinbase {env : ValueEnv} {nMoneySupplyPrev nHeight : Int}
    {block : CBlock} {r : Connected V} {coinbase : CTransaction}
    {vtx : List CTransaction}
    (h : connectBlock params store denominationOf fValid env v
      nMoneySupplyPrev nHeight block = some r)
    (hvtx : block.vtx = coinbase :: vtx)
    (hcoinbase : coinbase.isCoinBase = true)
    (hordinary : ∀ tx ∈ vtx, Ordinary tx) :
    r.nMint = int64 (exactOut coinbase) := by
  have hspec := connectBlock_spec h
  rw [connectBlock_nMint h, hvtx]
  rw [hvtx] at hspec
  rcases connectTxs_update amounts_zero_fit hspec.1 hspec.2.1 with
    ⟨v₁, txundo, hupdate⟩
  rw [exactMint_cons hupdate, txMint_coinbase hcoinbase,
    exactMint_ordinary hordinary, Int.add_zero]

/-- **In a proof-of-stake block** the coinstake mints what it creates over the
stake; the coinbase creates nothing. -/
theorem nMint_coinstake {env : ValueEnv} {nMoneySupplyPrev nHeight : Int}
    {block : CBlock} {r : Connected V} {coinbase coinstake : CTransaction}
    {vtx : List CTransaction} {v₁ : V} {txundo : CTxUndo}
    (h : connectBlock params store denominationOf fValid env v
      nMoneySupplyPrev nHeight block = some r)
    (hvtx : block.vtx = coinbase :: coinstake :: vtx)
    (hcoinbase : coinbase.isCoinBase = true) (hempty : exactOut coinbase = 0)
    (hupdate : updateCoins store v coinbase (Int32.ofInt nHeight) =
      some (v₁, txundo))
    (hcoinstake : coinstake.isCoinStake = true)
    (hordinary : ∀ tx ∈ vtx, Ordinary tx) :
    r.nMint = int64 (exactOut coinstake -
      exactIn store denominationOf v₁ coinstake) := by
  have hspec := connectBlock_spec h
  rw [connectBlock_nMint h, hvtx, exactMint_cons hupdate,
    txMint_coinbase hcoinbase, hempty, Int.zero_add]
  rw [hvtx] at hspec
  have htxs := hspec.2.1
  unfold connectTxs at htxs
  split at htxs
  · cases htxs
  rename_i v₂ a₂ htx
  have hfirst := connectTx_spec amounts_zero_fit
    (hspec.1 coinbase List.mem_cons_self) htx
  rcases hfirst.1 with ⟨txundo', hupdate'⟩
  rw [hupdate] at hupdate'
  cases hupdate'
  rcases connectTxs_update hfirst.2.fit
    (fun t ht => hspec.1 t (List.mem_cons_of_mem _ ht)) htxs with
    ⟨v₃, txundo'', hsecond⟩
  rw [exactMint_cons hsecond, txMint_coinstake hcoinstake,
    exactMint_ordinary hordinary, Int.add_zero]

end Mint

end View

/-! ## Blocks that leave the range

The chain below is what a node connects while it is syncing.  The value of the
blocks below height 100 is not compared there, so the first coinbase may
create more than half of what fits into 64 bits.  Once it is mature, a block
that passes it on twice creates more than fits. -/

section Examples

/-- A view that is the map of its records. -/
def mapStore : CoinsStore (Uint256 → CCoins) where
  coins v := v
  write v txid coins := Function.update v txid coins.cleanup
  getBestBlock _ := 0
  setBestBlock v _ := v

def noCoins : Uint256 → CCoins := fun _ => CCoins.empty

/-- There are no zerocoins in these blocks. -/
def noZerocoin (_ : CTransaction) (_ : CTxIn) : Option CoinDenomination := none

def allValid (_ : CTransaction) : Bool := true

def coinbaseTx (hash : Uint256) (nValue : Int) : CTransaction :=
  { hash
    vin := [{ prevout := COutPoint.null, scriptSig := [1, 0] }]
    vout := [{ nValue, scriptPubKey := [] }] }

/-- It passes the first output of a transaction on. -/
def passOnTx (hash hashFrom : Uint256) (nValue : Int) : CTransaction :=
  { hash
    vin := [{ prevout := ⟨hashFrom, 0⟩ }]
    vout := [{ nValue, scriptPubKey := [CScript.OP_DUP] }] }

/-- The block at a height, on the one before. -/
def blockAt (nHeight : Nat) (vtx : List CTransaction) : CBlock :=
  { hash := BitVec.ofNat 256 (1000 + nHeight)
    hashPrevBlock := BitVec.ofNat 256 (999 + nHeight)
    hashMerkleRoot := 0
    vtx }

/-- A node at the tip below a height that is not synced. -/
def syncingEnv (nHeight : Nat) : ValueEnv :=
  { tip := some (BitVec.ofNat 256 (999 + nHeight), nHeight - 1)
    fSynced := false
    fSuperblocks := false }

/-- Connect blocks while syncing, the first one at height `n + 1`. -/
def connectWhileSyncing : List CBlock → (Uint256 → CCoins) → Int → Nat →
    Option ((Uint256 → CCoins) × Int)
  | [], v, nMoneySupply, _ => some (v, nMoneySupply)
  | block :: rest, v, nMoneySupply, n =>
      match connectBlock mainParams mapStore noZerocoin allValid
          (syncingEnv (n + 1)) v nMoneySupply (n + 1) block with
      | none => none
      | some r => connectWhileSyncing rest r.view r.nMoneySupply (n + 1)

/-- Any blocks, each accepted. -/
abbrev AnyChain (v₀ : Uint256 → CCoins) :=
  Chain mainParams mapStore noZerocoin (fun _ _ _ _ => True) v₀

theorem AnyChain.connectWhileSyncing {v₀ v v' : Uint256 → CCoins}
    {runs : List (BlockRun (Uint256 → CCoins))}
    {nMoneySupply nMoneySupply' : Int} {blocks : List CBlock}
    (hchain : AnyChain v₀ runs v nMoneySupply)
    (h : connectWhileSyncing blocks v nMoneySupply runs.length =
      some (v', nMoneySupply')) :
    ∃ runs', AnyChain v₀ runs' v' nMoneySupply' ∧
      runs'.length = runs.length + blocks.length := by
  induction blocks generalizing runs v nMoneySupply with
  | nil =>
      cases h
      exact ⟨runs, hchain, rfl⟩
  | cons block rest ih =>
      unfold Validation.connectWhileSyncing at h
      split at h
      · cases h
      · rename_i r hblock
        have hnext := Chain.connect hchain hblock trivial
        rcases ih hnext (by simpa using h) with ⟨runs', hchain', hlength⟩
        refine ⟨runs', hchain', ?_⟩
        rw [hlength, List.length_append, List.length_cons, List.length_cons,
          List.length_nil]
        omega

/-- A huge coinbase and the blocks until it is mature. -/
def hugeCoinbase : List CBlock :=
  blockAt 1 [coinbaseTx 1 5000000000000000000] ::
    (List.range 19).map fun i =>
      blockAt (i + 2) [coinbaseTx (BitVec.ofNat 256 (i + 2)) 0]

/-- The outputs of this block add up to more than fits. -/
def passedOnTwice : CBlock :=
  blockAt 21 [coinbaseTx 21 0, passOnTx 101 1 5000000000000000000,
    passOnTx 102 101 5000000000000000000]

/-- **In a block that passes a huge output on twice** the accumulators leave
their range, and the block is accepted. -/
theorem chained_output_overflows :
    ∃ runs v nMoneySupply, AnyChain noCoins runs v nMoneySupply ∧
      ∃ run ∈ runs.zipIdx, ¬ SumsExact mainParams mapStore noZerocoin
        run.1.fValid (Int32.ofInt (run.2 + 1)) run.1.view run.1.block.vtx := by
  have hmature : (connectWhileSyncing hugeCoinbase noCoins 0 0).isSome =
      true := by decide +kernel
  rcases Option.isSome_iff_exists.mp hmature with ⟨⟨v, nMoneySupply⟩, hblocks⟩
  have haccepted : ((connectWhileSyncing hugeCoinbase noCoins 0 0).bind fun p =>
      connectBlock mainParams mapStore noZerocoin allValid (syncingEnv 21) p.1
        p.2 21 passedOnTwice).isSome = true := by decide +kernel
  have hout : (connectWhileSyncing hugeCoinbase noCoins 0 0).map (fun p =>
      (exactAmounts mapStore noZerocoin 21 passedOnTwice.vtx p.1).nValueOut) =
        some 10000000000000000000 := by decide +kernel
  rw [hblocks, Option.bind_some] at haccepted
  rw [hblocks, Option.map_some, Option.some_inj] at hout
  rcases Option.isSome_iff_exists.mp haccepted with ⟨r, hblock⟩
  have hgenesis : AnyChain noCoins [] noCoins 0 := Chain.genesis
  rcases hgenesis.connectWhileSyncing hblocks with ⟨runs, hchain, hlength⟩
  have htwenty : runs.length = 20 := hlength
  have hheight : ((runs.length : Int) + 1) = 21 := by omega
  rw [← hheight] at hblock
  refine ⟨_, _, _, Chain.connect hchain hblock trivial,
    (⟨v, allValid, passedOnTwice⟩, 20), ?_, ?_⟩
  · rw [List.zipIdx_append, htwenty]
    simp
  · intro hexact
    rw [hheight] at hblock
    have hspec := connectBlock_spec hblock
    have hfits := (connectTxs_exact hspec.1 hspec.2.1).mp hexact
    have hbound : (exactAmounts mapStore noZerocoin 21 passedOnTwice.vtx
        v).nValueOut < 2 ^ 63 := hfits.1
    have hvalue : (exactAmounts mapStore noZerocoin 21 passedOnTwice.vtx
        v).nValueOut = 10000000000000000000 := hout
    omega

/-- An ordinary first block. -/
def firstBlock : CBlock := blockAt 1 [coinbaseTx 1 5000000000]

/-- The chain that has only an ordinary first block. -/
theorem supply_exact_first :
    ∃ v nMoneySupply,
      Chain mainParams mapStore noZerocoin (AmountsFit mapStore noZerocoin)
        noCoins [⟨noCoins, allValid, firstBlock⟩] v nMoneySupply ∧
      (∀ run ∈ [(⟨noCoins, allValid, firstBlock⟩ :
          BlockRun (Uint256 → CCoins))].zipIdx,
        SumsExact mainParams mapStore noZerocoin run.1.fValid
          (Int32.ofInt (run.2 + 1)) run.1.view run.1.block.vtx) ∧
      nMoneySupply = exactSupply mapStore noZerocoin
        [⟨noCoins, allValid, firstBlock⟩] := by
  have haccepted : (connectBlock mainParams mapStore noZerocoin allValid
      (syncingEnv 1) noCoins 0 1 firstBlock).isSome = true := by decide
  rcases Option.isSome_iff_exists.mp haccepted with ⟨r, hblock⟩
  have hfit : AmountsFit mapStore noZerocoin 1 noCoins 0 firstBlock.vtx :=
    ⟨by decide, by decide, by decide⟩
  have hchain : Chain mainParams mapStore noZerocoin
      (AmountsFit mapStore noZerocoin) noCoins
      [⟨noCoins, allValid, firstBlock⟩] r.view r.nMoneySupply :=
    Chain.connect Chain.genesis hblock hfit
  exact ⟨r.view, r.nMoneySupply, hchain, Chain.supply_exact hchain⟩

/-! ## Blocks that add more than the block value -/

/-- A synced node at the tip below a height, with superblocks enabled. -/
def syncedEnv (nHeight : Nat) (budgets : List CFinalizedBudget) : ValueEnv :=
  { tip := some (BitVec.ofNat 256 (999 + nHeight), nHeight - 1)
    fSynced := true
    fSuperblocks := true
    budget := { mapFinalizedBudgets := budgets }
    nCountEnabled := 20 }

/-- It has two votes, and a payment of one coin at height 5000. -/
def smallBudget : CFinalizedBudget :=
  { nBlockStart := 5000
    vecBudgetPayments :=
      [{ nProposalHash := 9, payee := [CScript.OP_DUP], nAmount := COIN }]
    nVoteCount := 2 }

/-- A node has one record, of an ordinary transaction. -/
def oneCoin (nValue : Int) : Uint256 → CCoins :=
  Function.update noCoins 1
    { vout := [{ nValue, scriptPubKey := [CScript.OP_DUP] }] }

/-- A coinbase of huge value. -/
def greedyBlock (nHeight : Nat) : CBlock :=
  blockAt nHeight [coinbaseTx 21 5000000000000000000]

/-- A block that pays the whole of a coin as a fee. -/
def burningBlock (nHeight : Nat) : CBlock :=
  blockAt nHeight [coinbaseTx 21 5000000000, passOnTx 101 1 0]

/-- **A block adds more than its value**: while syncing in the window of the
superblocks, at the height of a budget payment, and where the supply wraps
around. -/
theorem increase_unbounded :
    ¬ IncreaseBounded mainParams mapStore noZerocoin allValid (syncingEnv 1)
      noCoins 0 1 (greedyBlock 1) ∧
    ¬ IncreaseBounded mainParams mapStore noZerocoin allValid
      (syncedEnv 5000 [smallBudget]) noCoins 0 5000 (greedyBlock 5000) ∧
    ¬ IncreaseBounded mainParams mapStore noZerocoin allValid
      (syncedEnv 5000 []) (oneCoin 1000000000000000000)
      (-9000000000000000000) 5000 (burningBlock 5000) := by
  have hbound : ∀ (nMoneySupply : Int) {env : ValueEnv}
      {v : Uint256 → CCoins} {nMoneySupplyPrev nHeight : Int} {block : CBlock},
      (connectBlock mainParams mapStore noZerocoin allValid env v
        nMoneySupplyPrev nHeight block).map Connected.nMoneySupply =
          some nMoneySupply →
      getBlockValue mainParams nHeight (isProofOfStake block) +
        budgetAmount env nHeight < nMoneySupply - nMoneySupplyPrev →
      ¬ IncreaseBounded mainParams mapStore noZerocoin allValid env v
        nMoneySupplyPrev nHeight block := by
    intro nMoneySupply env v nMoneySupplyPrev nHeight block hsupply hlt hle
    rcases Option.map_eq_some_iff.mp hsupply with ⟨r, hblock, heq⟩
    have := hle r hblock
    omega
  constructor
  · exact hbound 5000000000000000000 (by decide) (by decide)
  constructor
  · exact hbound 5000000000000000000 (by decide) (by decide)
  · exact hbound 8446744078709551616 (by decide) (by decide)

/-- Height 5000 without a budget. -/
theorem connectBlock_increase_le_5000 :
    ∃ r, connectBlock mainParams mapStore noZerocoin allValid
        (syncedEnv 5000 []) noCoins 0 5000
        (blockAt 5000 [coinbaseTx 21 5000000000]) = some r ∧
      r.nMoneySupply - 0 ≤ getBlockValue mainParams 5000
        (isProofOfStake (blockAt 5000 [coinbaseTx 21 5000000000])) := by
  have haccepted : (connectBlock mainParams mapStore noZerocoin allValid
      (syncedEnv 5000 []) noCoins 0 5000
      (blockAt 5000 [coinbaseTx 21 5000000000])).isSome = true := by decide
  rcases Option.isSome_iff_exists.mp haccepted with ⟨r, hblock⟩
  refine ⟨r, hblock, connectBlock_increase_le hblock rfl ?_ (by decide)⟩
  exact ⟨by decide, by decide, by decide⟩

end Examples

end Agrarian.Validation
