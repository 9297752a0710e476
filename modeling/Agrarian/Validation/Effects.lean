import Agrarian.Zerocoin.Supply

/-!
# What connecting a block stores

`ConnectBlock` of `main.cpp` as a journal of its stores: in the wallet, in the
zerocoin databases and in the block index.  The source says where the stores
should begin, after all checks; some come before.

A call carries the outcomes of what is not looked into (the checks of
`CheckBlock`, scripts, writing to disk).  The view of the coins belongs to the
caller and is not a store.
-/

namespace Agrarian.Validation

open Agrarian.Lib Agrarian.Coins Agrarian.Zerocoin

/-- A call of `ConnectBlock`, for a block with a parent. -/
structure ConnectCall (V Value Serial : Type) where
  node : ZerocoinNode Value Serial
  env : ValueEnv
  hashGenesisBlock : Uint256 := 0
  view : V
  block : CBlock
  /-- The checkpoint in the header of the block. -/
  nAccumulatorCheckpoint : Uint256 := 0
  pindex : SupplyIndex
  pprev : SupplyIndex
  fJustCheck : Bool
  fAlreadyChecked : Bool := false
  fVerifyingBlocks : Bool := false
  fCheckBlock : Bool := true
  /-- No transaction overwrites an older one. -/
  fNoOverwrite : Bool := true
  /-- `Load` finds the last good checkpoint. -/
  fCheckpointLoaded : Bool := true
  /-- `CalculateAccumulatorCheckpoint`. -/
  nCheckpointCalculated : Option Uint256 := none
  /-- The accumulators, with their checksums. -/
  mapAccumulators : CoinDenomination → BitVec 32 × Int := fun _ => (0, 0)
  /-- `control.Wait()`. -/
  fScriptsValid : Bool := true
  fFindUndoPos : Bool := true
  fWriteUndo : Bool := true
  fWriteSpends : Bool := true
  fWriteMints : Bool := true
  fTxIndex : Bool := true
  fWriteTxIndex : Bool := true

namespace ConnectCall

variable {V Value Serial : Type} (params : CChainParams) (store : CoinsStore V)
variable (fValid : CTransaction → Bool) (c : ConnectCall V Value Serial)

/-! ## The checks -/

/-- The transactions are connected to the view, without any store. -/
def connectTransactions : Option Amounts :=
  let fProofOfStake := isProofOfStake c.block
  if fProofOfStake && c.pindex.nHeight < params.nFirstPoSBlock then none
  else if !fProofOfStake && params.nLastPOWBlock < c.pindex.nHeight then none
  else if !c.fNoOverwrite then none
  else
    (connectTxs params store
      (fun tx txin => (c.node.spendOf tx txin).map Prod.fst) fValid
      (Int32.ofInt c.pindex.nHeight) c.block.vtx c.view {}).map Prod.snd

def nMoneySupply (a : Amounts) : Int :=
  int64 (c.pprev.nMoneySupply + a.nValueOut - a.nValueIn)

def nMint (a : Amounts) : Int :=
  int64 (c.nMoneySupply a - c.pprev.nMoneySupply + a.nFees)

def valueValid (a : Amounts) : Bool :=
  isBlockValueValid params c.env c.block.hashPrevBlock
    (expectedMint params c.pindex.nHeight (isProofOfStake c.block) a.nFees)
    (c.nMint a)

/-- The block has to carry a checkpoint that is calculated. -/
def checkpointDue : Bool :=
  !(c.pindex.nHeight < c.node.params.nBlockZerocoinV2 || c.fVerifyingBlocks) &&
    c.pindex.nHeight % 10 = 0

/-- The accumulators start again from the last good checkpoint. -/
def checkpointsReset : Bool :=
  c.checkpointDue && c.node.params.nZerocoinStartHeight ≤ c.pindex.nHeight &&
    c.pindex.nHeight = c.node.params.nBlockRecalculateAccumulators &&
    !c.node.params.fRegTest

/-- The checksums that `InitializeAccumulators` erases. -/
def erasedChecksums : List (Store Value Serial) :=
  let nGood := c.node.params.nBlockLastGoodCheckpoint
  if c.checkpointsReset && c.fCheckpointLoaded && nGood + 1 ≤ c.node.nChainHeight
  then eraseCheckpoints c.node (nGood + 1) c.pindex.nHeight
  else []

/-- The verdict of `ValidateAccumulatorCheckpoint`. -/
def checkpointValid : Bool :=
  if c.pindex.nHeight < c.node.params.nBlockZerocoinV2 || c.fVerifyingBlocks then
    true
  else if c.checkpointDue then
    !(c.pindex.nHeight < c.node.params.nZerocoinStartHeight) &&
      !(c.checkpointsReset && !(c.fCheckpointLoaded &&
        c.node.params.nBlockLastGoodCheckpoint + 1 ≤ c.node.nChainHeight)) &&
      c.nCheckpointCalculated = some c.nAccumulatorCheckpoint
  else c.nAccumulatorCheckpoint = c.pprev.nAccumulatorCheckpoint

def validateAccumulatorCheckpoint : Journal (Store Value Serial) Failure Unit := do
  .storeAll c.erasedChecksums
  .require c.checkpointValid .returnsFalse

/-! ## The stores after the checks -/

/-- The undo data is written, and the entry of the block marked. -/
def writeUndo : Journal (Store Value Serial) Failure Unit := do
  if c.pindex.fHaveUndo then pure ()
  else
    .require c.fFindUndoPos .returnsFalse
    .require c.fWriteUndo .returnsFalse
    .storeAll [.undoPos]
  .storeAll (if c.pindex.fFailed || c.pindex.fValidScripts then [] else [.raiseValidity])

/-- `vSpends`. -/
def vSpends : List (Serial × Uint256) :=
  (c.block.vtx.filter CTransaction.hasZerocoinSpendInputs).flatMap fun tx =>
    tx.vin.filterMap fun txin =>
      if txin.isZerocoinSpend || txin.isZerocoinPublicSpend then
        (c.node.spendOf tx txin).map fun spend => (spend.2, tx.hash)
      else none

/-- `vMints`. -/
def vMints : List (Value × Uint256) :=
  (c.block.vtx.filter CTransaction.hasZerocoinMintOutputs).flatMap fun tx =>
    tx.vout.filterMap fun out =>
      if out.isZerocoinMint then
        (c.node.pubCoinOf out).map fun coin => (coin.2, tx.hash)
      else none

/-- The loop that tells the wallet about its spends. -/
def walletSpends : List (Serial × Uint256) → List Uint256 → List (Store Value Serial)
  | [], _ => []
  | (serial, txid) :: rest, setAddedTx =>
      if c.node.fWallet && c.node.isMyZerocoinSpend serial then
        .zerocoinUsed serial ::
          (if !setAddedTx.contains txid &&
              c.block.vtx.any fun tx => tx.hash = txid then
            [.addToWallet txid]
          else []) ++ walletSpends rest (txid :: setAddedTx)
      else walletSpends rest setAddedTx

/-- `DatabaseChecksums`. -/
def databaseChecksums : List (Store Value Serial) :=
  if c.node.params.nBlockZerocoinV2 ≤ c.node.nChainHeight then
    zerocoinDenomList.map fun denom =>
      .accumulatorValue (c.mapAccumulators denom).1 (c.mapAccumulators denom).2
  else []

def writeTxIndex : Journal (Store Value Serial) Failure Unit := do
  if c.fTxIndex then
    .require c.fWriteTxIndex .returnsFalse
    .storeAll (c.block.vtx.map fun tx => .txIndex tx.hash)
  else pure ()

/-- What is stored once the block has passed its checks. -/
def storeBlock : Journal (Store Value Serial) Failure Unit := do
  c.writeUndo
  .storeAll (c.walletSpends c.vSpends [])
  .require c.fWriteSpends .returnsFalse
  .storeAll (c.vSpends.map fun spend => .coinSpend spend.1 spend.2)
  .require c.fWriteMints .returnsFalse
  .storeAll (c.vMints.map fun mint => .coinMint mint.1 mint.2)
  .storeAll c.databaseChecksums
  c.writeTxIndex

/-- From the first store on. -/
def connectRest (a : Amounts) : Journal (Store Value Serial) Failure Unit := do
  .storeAll (recalculation c.node c.pindex.nHeight)
  updateZAGRSupply c.node c.block.vtx (some c.pprev) c.pindex c.fJustCheck
  .storeAll [.moneySupply (c.nMoneySupply a), .mint (c.nMint a)]
  .require (c.valueValid params a) .returnsFalse
  c.validateAccumulatorCheckpoint
  .require c.fScriptsValid .returnsFalse
  -- nothing before this point should actually store
  if c.fJustCheck then pure () else c.storeBlock

def connectBlock : Journal (Store Value Serial) Failure Unit := do
  .require (c.fAlreadyChecked || c.fCheckBlock) .returnsFalse
  if c.block.hash = c.hashGenesisBlock then pure ()
  else
    let a ← .ofOption .returnsFalse (c.connectTransactions params store fValid)
    c.connectRest params a

/-! ## When nothing is stored -/

/-- The counters that do not concern zerocoins. -/
def isAmount : Store Value Serial → Bool
  | .moneySupply _ => true
  | .mint _ => true
  | _ => false

/-- The block passes the checks that come before all stores. -/
def Reaches (a : Amounts) : Prop :=
  (c.fAlreadyChecked || c.fCheckBlock) = true ∧
    c.block.hash ≠ c.hashGenesisBlock ∧
    c.connectTransactions params store fValid = some a

/-- The verdict on the zerocoin supply. -/
def supplyVerdict : Except Failure Unit :=
  (updateZAGRSupply c.node c.block.vtx (some c.pprev) c.pindex true).result

def undoWritten : Bool := c.pindex.fHaveUndo || c.fFindUndoPos && c.fWriteUndo

/-- All steps after the supply succeed. -/
structure Succeeds (a : Amounts) : Prop where
  value : c.valueValid params a = true
  checkpoint : c.checkpointValid = true
  scripts : c.fScriptsValid = true
  undo : c.undoWritten = true
  spends : c.fWriteSpends = true
  mints : c.fWriteMints = true
  txIndex : c.fTxIndex = true → c.fWriteTxIndex = true

/-- The call only checks, or one of its steps fails. -/
def Stops (a : Amounts) : Prop :=
  c.fJustCheck = true ∨ c.supplyVerdict = .error .returnsFalse ∨
    (c.supplyVerdict = .ok () ∧ ¬c.Succeeds params a)

/-- Nothing is stored after the checks. -/
structure Unwritten : Prop where
  undo : c.pindex.fHaveUndo = true ∧
    (c.pindex.fFailed = true ∨ c.pindex.fValidScripts = true)
  wallet : (c.node.fWallet &&
    c.vSpends.any fun spend => c.node.isMyZerocoinSpend spend.1) = false
  spends : c.fWriteSpends = true → c.vSpends = []
  mints : c.fWriteSpends = true → c.fWriteMints = true →
    c.vMints = [] ∧ c.node.nChainHeight < c.node.params.nBlockZerocoinV2

/-- Nothing but the counters of the block is stored. -/
structure Silent (a : Amounts) : Prop where
  recalculation : c.pindex.nHeight ≠ c.node.params.nBlockRecalculateAccumulators + 1 ∨
    c.node.nChainHeight < c.node.params.nZerocoinStartHeight
  mints : c.fJustCheck = true ∨ hasOwnMints c.node (blockToZerocoinMintList c.node
    (c.node.params.nBlockRecalculateAccumulators ≤ c.pindex.nHeight)
      c.block.vtx) = false
  checksums : c.supplyVerdict = .ok () → c.valueValid params a = true →
    c.erasedChecksums = []
  written : c.fJustCheck = false → c.supplyVerdict = .ok () →
    c.valueValid params a = true → c.checkpointValid = true →
    c.fScriptsValid = true → c.undoWritten = true → c.Unwritten

section Lemmas

variable {params store fValid c}

abbrev OnlyCounters (x : Journal (Store Value Serial) Failure Unit) : Prop :=
  x.Only fun s => s.isCounter = true

theorem updateZAGRSupply_verdict :
    (updateZAGRSupply c.node c.block.vtx (some c.pprev) c.pindex
      c.fJustCheck).result = c.supplyVerdict :=
  updateZAGRSupply_result

theorem writeUndo_result : c.writeUndo.result =
    if c.undoWritten then .ok () else .error .returnsFalse := by
  unfold writeUndo undoWritten
  cases c.pindex.fHaveUndo with
  | true => rfl
  | false =>
      cases c.fFindUndoPos with
      | false => rfl
      | true => cases c.fWriteUndo <;> rfl

theorem storeBlock_result : c.storeBlock.result =
    if c.undoWritten && c.fWriteSpends && c.fWriteMints &&
        (!c.fTxIndex || c.fWriteTxIndex) then .ok ()
    else .error .returnsFalse := by
  unfold storeBlock writeTxIndex
  simp only [Journal.result_bind, writeUndo_result, Journal.result_require,
    Journal.result_storeAll]
  cases c.undoWritten <;> cases c.fWriteSpends <;> cases c.fWriteMints <;>
    cases c.fTxIndex <;> cases c.fWriteTxIndex <;> rfl

theorem connectRest_result (a : Amounts) :
    (c.connectRest params a).result = c.supplyVerdict.bind fun _ =>
      if c.valueValid params a && c.checkpointValid && c.fScriptsValid then
        if c.fJustCheck then .ok () else c.storeBlock.result
      else .error .returnsFalse := by
  unfold connectRest validateAccumulatorCheckpoint
  simp only [Journal.result_bind, updateZAGRSupply_verdict, Journal.result_storeAll,
    Journal.result_require]
  cases c.supplyVerdict with
  | error err => rfl
  | ok u =>
      cases c.valueValid params a with
      | false => rfl
      | true =>
          cases c.checkpointValid with
          | false => rfl
          | true =>
              cases c.fScriptsValid with
              | false => rfl
              | true => cases c.fJustCheck <;> rfl

/-- When a call gets as far as its first store, this is how it ends. -/
theorem connectRest_stops (a : Amounts) :
    (c.connectRest params a).result = .error .returnsFalse ∨ c.fJustCheck = true ↔
      c.Stops params a := by
  have hsucceeds : c.Succeeds params a ↔
      (c.valueValid params a && c.checkpointValid && c.fScriptsValid) = true ∧
        (c.undoWritten && c.fWriteSpends && c.fWriteMints &&
          (!c.fTxIndex || c.fWriteTxIndex)) = true := by
    constructor
    · intro h
      have htx := h.txIndex
      cases htxIndex : c.fTxIndex with
      | false =>
          simp [h.value, h.checkpoint, h.scripts, h.undo, h.spends, h.mints]
      | true =>
          simp [h.value, h.checkpoint, h.scripts, h.undo, h.spends, h.mints,
            htx htxIndex]
    · intro h
      simp only [Bool.and_eq_true, Bool.or_eq_true, Bool.not_eq_true'] at h
      obtain ⟨⟨⟨hvalue, hcheckpoint⟩, hscripts⟩, ⟨⟨hundo, hspends⟩, hmints⟩, htx⟩ := h
      refine ⟨hvalue, hcheckpoint, hscripts, hundo, hspends, hmints, ?_⟩
      intro htxIndex
      simpa [htxIndex] using htx
  unfold Stops
  rw [connectRest_result, hsucceeds, storeBlock_result]
  cases c.fJustCheck with
  | true => simp
  | false =>
      cases c.supplyVerdict with
      | error err => simp [Except.bind]
      | ok u =>
          generalize (c.valueValid params a && c.checkpointValid &&
            c.fScriptsValid) = checks
          generalize (c.undoWritten && c.fWriteSpends && c.fWriteMints &&
            (!c.fTxIndex || c.fWriteTxIndex)) = written
          cases checks <;> cases written <;> simp [Except.bind]

/-! ### Stores -/

theorem erasedChecksums_counters :
    (∀ s ∈ c.erasedChecksums, s.isCounter = true) ↔ c.erasedChecksums = [] := by
  apply forall_counter_iff
  intro s hs
  unfold erasedChecksums at hs
  dsimp only at hs
  split at hs
  · exact eraseCheckpoints_counter c.node hs
  · cases hs

theorem validateAccumulatorCheckpoint_only :
    OnlyCounters c.validateAccumulatorCheckpoint ↔ c.erasedChecksums = [] := by
  unfold validateAccumulatorCheckpoint OnlyCounters
  simp [Journal.only_seq, erasedChecksums_counters]

theorem validateAccumulatorCheckpoint_ok (u : Unit) :
    c.validateAccumulatorCheckpoint.result = .ok u ↔ c.checkpointValid = true := by
  unfold validateAccumulatorCheckpoint
  simp [Journal.ok_bind]

theorem writeUndo_only : OnlyCounters c.writeUndo ↔ (c.undoWritten = true →
    c.pindex.fHaveUndo = true ∧
      (c.pindex.fFailed = true ∨ c.pindex.fValidScripts = true)) := by
  unfold writeUndo undoWritten OnlyCounters
  cases c.pindex.fHaveUndo <;> cases c.fFindUndoPos <;> cases c.fWriteUndo <;>
    cases c.pindex.fFailed <;> cases c.pindex.fValidScripts <;>
      simp [Journal.only_bind, Store.isCounter]

theorem walletSpends_counters {spends : List (Serial × Uint256)}
    {setAddedTx : List Uint256} :
    (∀ s ∈ c.walletSpends spends setAddedTx, s.isCounter = true) ↔
      (c.node.fWallet &&
        spends.any fun spend => c.node.isMyZerocoinSpend spend.1) = false := by
  induction spends generalizing setAddedTx with
  | nil => simp [walletSpends]
  | cons spend spends ih =>
      obtain ⟨serial, txid⟩ := spend
      unfold walletSpends
      cases hown : c.node.fWallet && c.node.isMyZerocoinSpend serial with
      | true =>
          simp only [Bool.and_eq_true] at hown
          simp [hown, Store.isCounter]
      | false =>
          rw [if_neg (by simp), ih]
          cases hwallet : c.node.fWallet with
          | true =>
              have hmine : c.node.isMyZerocoinSpend serial = false := by
                simpa [hwallet] using hown
              simp [hmine]
          | false => simp

theorem databaseChecksums_counters :
    (∀ s ∈ c.databaseChecksums, s.isCounter = true) ↔
      c.node.nChainHeight < c.node.params.nBlockZerocoinV2 := by
  unfold databaseChecksums
  split
  · rename_i hheight
    simp [zerocoinDenomList, Store.isCounter, hheight]
  · rename_i hheight
    simpa using hheight

theorem map_counters {α : Type} {l : List α} {f : α → Store Value Serial}
    (hf : ∀ a, (f a).isCounter = false) :
    (∀ s ∈ l.map f, s.isCounter = true) ↔ l = [] := by
  rw [forall_counter_iff, List.map_eq_nil_iff]
  intro s hs
  obtain ⟨a, -, rfl⟩ := List.mem_map.mp hs
  exact hf a

theorem writeUndo_ok (u : Unit) : c.writeUndo.result = .ok u ↔ c.undoWritten = true := by
  rw [writeUndo_result]
  cases c.undoWritten <;> simp

theorem storeBlock_only (hstops : c.storeBlock.result = .error .returnsFalse) :
    OnlyCounters c.storeBlock ↔ (c.undoWritten = true → c.Unwritten) := by
  have hspend : ∀ spend : Serial × Uint256,
      (Store.coinSpend spend.1 spend.2 : Store Value Serial).isCounter = false :=
    fun _ => rfl
  have hmint : ∀ mint : Value × Uint256,
      (Store.coinMint mint.1 mint.2 : Store Value Serial).isCounter = false :=
    fun _ => rfl
  rw [storeBlock_result] at hstops
  -- the transaction index is written by the last step only
  have hlast : c.undoWritten = true → c.fWriteSpends = true →
      c.fWriteMints = true → OnlyCounters c.writeTxIndex := by
    intro hundo hspends hmints
    unfold writeTxIndex
    cases htxIndex : c.fTxIndex with
    | false => simp
    | true =>
        have hfails : c.fWriteTxIndex = false := by
          cases hwrite : c.fWriteTxIndex with
          | false => rfl
          | true => simp [hundo, hspends, hmints, htxIndex, hwrite] at hstops
        simp [Journal.only_bind, hfails]
  unfold storeBlock
  simp only [OnlyCounters, Journal.only_seq, Journal.only_storeAll,
    Journal.only_require, Journal.result_storeAll, Journal.result_require_ok,
    writeUndo_ok, walletSpends_counters, databaseChecksums_counters,
    map_counters hspend, map_counters hmint, true_and, forall_const]
  have honly := writeUndo_only (c := c)
  unfold OnlyCounters at honly hlast
  rw [honly]
  constructor
  · intro h hundo
    obtain ⟨hmarked, hrest⟩ := h
    obtain ⟨hwallet, hspends⟩ := hrest hundo
    refine ⟨hmarked hundo, hwallet, ?_, ?_⟩
    · intro hwriteSpends
      exact (hspends hwriteSpends).1
    · intro hwriteSpends hwriteMints
      obtain ⟨hnoMints, hheight, -⟩ := (hspends hwriteSpends).2 hwriteMints
      exact ⟨hnoMints, hheight⟩
  · intro h
    refine ⟨fun hundo => (h hundo).undo, ?_⟩
    intro hundo
    have hunwritten := h hundo
    refine ⟨hunwritten.wallet, ?_⟩
    intro hwriteSpends
    refine ⟨hunwritten.spends hwriteSpends, ?_⟩
    intro hwriteMints
    obtain ⟨hnoMints, hheight⟩ := hunwritten.mints hwriteSpends hwriteMints
    exact ⟨hnoMints, hheight, hlast hundo hwriteSpends hwriteMints⟩

/-- A call that gets as far as its first store and stops makes no store but the
counters under these conditions. -/
theorem connectRest_only {a : Amounts} (hstops : c.Stops params a) :
    OnlyCounters (c.connectRest params a) ↔ c.Silent params a := by
  have hmoney : ∀ s ∈ ([.moneySupply (c.nMoneySupply a), .mint (c.nMint a)] :
      List (Store Value Serial)), s.isCounter = true := by
    simp [Store.isCounter]
  have hsupply : OnlyCounters (updateZAGRSupply c.node c.block.vtx (some c.pprev)
      c.pindex c.fJustCheck) ↔ _ := updateZAGRSupply_only rfl
  have hchecksums := validateAccumulatorCheckpoint_only (c := c)
  -- the rest of a call that passes the checks
  have hrest : c.supplyVerdict = .ok () → c.valueValid params a = true →
      c.checkpointValid = true → c.fScriptsValid = true →
        (OnlyCounters (if c.fJustCheck then pure () else c.storeBlock) ↔
          (c.fJustCheck = false → c.undoWritten = true → c.Unwritten)) := by
    intro hverdict hvalue hcheckpoint hscripts
    cases hcheck : c.fJustCheck with
    | true => simp
    | false =>
        have hstore : c.storeBlock.result = .error .returnsFalse := by
          have hresult := (connectRest_stops a).mpr hstops
          rw [connectRest_result, hverdict, hcheck] at hresult
          simpa [hvalue, hcheckpoint, hscripts, Except.bind] using hresult
        simpa using storeBlock_only hstore
  unfold connectRest
  unfold OnlyCounters at hsupply hchecksums hrest ⊢
  simp only [Journal.only_seq, Journal.only_storeAll, Journal.only_require,
    Journal.result_storeAll, Journal.result_require_ok, recalculation_counters,
    hsupply, hchecksums, validateAccumulatorCheckpoint_ok, updateZAGRSupply_verdict,
    forall_const, true_and, eq_true hmoney]
  constructor
  · intro h
    obtain ⟨hrecalculation, hmints, hchecks⟩ := h
    refine ⟨hrecalculation, hmints, ?_, ?_⟩
    · intro hverdict hvalue
      exact (hchecks hverdict hvalue).1
    · intro hcheck hverdict hvalue hcheckpoint hscripts hundo
      obtain ⟨-, hafter⟩ := hchecks hverdict hvalue
      have honly := hafter hcheckpoint hscripts
      exact (hrest hverdict hvalue hcheckpoint hscripts).mp honly hcheck hundo
  · intro h
    refine ⟨h.recalculation, h.mints, ?_⟩
    intro hverdict hvalue
    refine ⟨h.checksums hverdict hvalue, ?_⟩
    intro hcheckpoint hscripts
    refine (hrest hverdict hvalue hcheckpoint hscripts).mpr ?_
    intro hcheck hundo
    exact h.written hcheck hverdict hvalue hcheckpoint hscripts hundo

end Lemmas

/-- The call returns false, or only checks. -/
def Rejects : Prop :=
  (c.connectBlock params store fValid).result = .error .returnsFalse ∨
    c.fJustCheck = true

section Main

variable {params store fValid c}

/-- Only a call that gets as far as its first store can leave one. -/
theorem connectBlock_only (P : Store Value Serial → Prop) :
    (c.Rejects params store fValid →
      (c.connectBlock params store fValid).Only P) ↔
    ∀ a, c.Reaches params store fValid a → c.Stops params a →
      (c.connectRest params a).Only P := by
  unfold Rejects Reaches connectBlock
  cases hchecked : c.fAlreadyChecked || c.fCheckBlock with
  | false => simp [Journal.only_bind]
  | true =>
      by_cases hgenesis : c.block.hash = c.hashGenesisBlock
      · simp [Journal.only_bind, hgenesis]
      · cases htransactions : c.connectTransactions params store fValid with
        | none => simp [Journal.only_bind, hgenesis]
        | some a =>
            rw [if_neg hgenesis]
            simp only [Journal.error_bind, Journal.only_bind, ne_eq, hgenesis,
              Journal.result_ofOption_ok, Journal.result_ofOption_error,
              Journal.result_require_ok, Journal.result_require_error,
              Journal.only_require, Journal.only_ofOption, Option.some.injEq,
              reduceCtorEq, false_and, false_or, true_and, not_false_eq_true,
              exists_eq_left', forall_eq', exists_const, forall_const,
              connectRest_stops]

/-- **A call that returns false or only checks** leaves the wallet, the databases
and the index as they were, up to the counters of the block, if and only if it
ends before its first store or under conditions that make it silent; it leaves
the zerocoin counters of the block as well only if it ends before. -/
theorem connectBlock_leaves_iff (params : CChainParams) (store : CoinsStore V)
    (fValid : CTransaction → Bool) (c : ConnectCall V Value Serial) :
    ((c.Rejects params store fValid →
        (c.connectBlock params store fValid).LeavesAlone fun s =>
          s.isCounter = true) ↔
      ∀ a, c.Reaches params store fValid a → c.Stops params a →
        c.Silent params a) ∧
    ((c.Rejects params store fValid →
        (c.connectBlock params store fValid).LeavesAlone fun s =>
          isAmount s = true) ↔
      ∀ a, c.Reaches params store fValid a → ¬c.Stops params a) := by
  constructor
  · rw [Journal.leavesAlone_iff, connectBlock_only]
    refine forall_congr' fun a => forall_congr' fun _ => forall_congr' fun hstops => ?_
    exact connectRest_only hstops
  · rw [Journal.leavesAlone_iff, connectBlock_only]
    refine forall_congr' fun a => forall_congr' fun _ => forall_congr' fun hstops => ?_
    refine iff_of_false ?_ not_false
    -- the mints of the block are cleared in any case
    intro honly
    unfold connectRest at honly
    rw [Journal.only_seq] at honly
    have hrest := honly.2 rfl
    rw [Journal.only_seq] at hrest
    have hsupply := hrest.1
    unfold updateZAGRSupply at hsupply
    rw [Journal.only_seq, Journal.only_storeAll] at hsupply
    exact absurd (hsupply.1 .clearMintDenominations (by simp)) (by simp [isAmount])

end Main

/-! ## A rejected block in the wallet -/

section Examples

/-- `CRegTestParams`. -/
def regTestParams : CChainParams where
  fTestNet := false
  nMaxMoneyOut := 43199500 * COIN
  nMaxMoneyOut_nonneg := by decide
  nMaxMoneyOut_lt := by decide
  nLastPOWBlock := 250
  nFirstPoSBlock := 2
  nBudgetCycleBlocks := 144
  nMasternodeCountDrift := 4

/-- It stakes a coin of 500 and pays itself 100 more. -/
def greedyStake : CTransaction :=
  { hash := 100
    vin := [{ prevout := ⟨2, 0⟩ }]
    vout := [⟨0, [], -10⟩,
      { nValue := 600 * COIN, scriptPubKey := [CScript.OP_DUP] }] }

/-- It turns a coin of 10 into a zerocoin. -/
def mintTx : CTransaction :=
  { hash := 101
    vin := [{ prevout := ⟨1, 0⟩ }]
    vout := [{ nValue := 10 * COIN, scriptPubKey := [CScript.OP_ZEROCOINMINT] }] }

def overpayingBlock : CBlock :=
  blockAt 310 [{ coinbaseTx 21 0 with vout := [⟨0, [], -10⟩] }, greedyStake, mintTx]

/-- A node that owns the mint. -/
def mintingNode : ZerocoinNode Nat Nat where
  params :=
    { fRegTest := true
      nZerocoinStartHeight := 300
      nBlockZerocoinV2 := 300
      nBlockRecalculateAccumulators := 999999999
      nBlockLastGoodCheckpoint := 999999999
      nBlockEndFakeSerial := -1 }
  pubCoinOf := fun _ => some (.ZQ_TEN, 7)
  spendOf := fun _ _ => none
  fWallet := true
  isMyMint := fun value => value = 7
  nChainHeight := 309
  blockAt := fun _ => overpayingBlock

def overpayingCall : ConnectCall (Uint256 → CCoins) Nat Nat where
  node := mintingNode
  env := syncedEnv 310 []
  view := Function.update (oneCoin (10 * COIN)) 2
    { vout := [{ nValue := 500 * COIN, scriptPubKey := [CScript.OP_DUP] }] }
  block := overpayingBlock
  pindex := { nHeight := 310 }
  pprev := { nHeight := 309 }
  fJustCheck := false

/-- **A stake that pays itself too much** is rejected after the wallet was told
about the mint in the same block. -/
theorem overpaying_block_updates_wallet :
    overpayingCall.Rejects regTestParams mapStore allValid ∧
      ¬(overpayingCall.connectBlock regTestParams mapStore
        allValid).LeavesAlone fun s => s.isCounter = true := by
  have hresult : (overpayingCall.connectBlock regTestParams mapStore
      allValid).result = .error .returnsFalse := by decide +kernel
  have hstores : ((overpayingCall.connectBlock regTestParams mapStore
      allValid).stores.all Store.isCounter) = false := by decide +kernel
  refine ⟨Or.inl hresult, ?_⟩
  rw [Journal.leavesAlone_iff]
  intro honly
  have hall := List.all_eq_true.mpr honly
  rw [hstores] at hall
  cases hall

end Examples

end ConnectCall

end Agrarian.Validation
