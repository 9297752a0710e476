import Agrarian.Lib.Journal
import Agrarian.Stake.Kernel

/-!
# The zerocoin supply

What `ConnectBlock` does around the zerocoin supply: the mints and spends of a
block as `zagrchain.cpp` lists them, `UpdateZAGRSupply`, the recalculation of
older entries of the block index and the accumulator checksums that are erased
and recorded.

Every change of memory or disk is a store of a journal, with the data that is
stored.  A public coin and a serial are values of any type, read through the
node; what the wallet does with a mint is not looked into.
-/

namespace Agrarian.Zerocoin

open Agrarian.Lib Agrarian.Validation
open Agrarian.Stake (parseChecksum)

def zerocoinDenomList : List CoinDenomination :=
  [.ZQ_ONE, .ZQ_FIVE, .ZQ_TEN, .ZQ_FIFTY, .ZQ_ONE_HUNDRED, .ZQ_FIVE_HUNDRED,
    .ZQ_ONE_THOUSAND, .ZQ_FIVE_THOUSAND]

/-- `IntToZerocoinDenomination`, with `none` for the value for an error. -/
def intToZerocoinDenomination (amount : Int) : Option CoinDenomination :=
  zerocoinDenomList.find? fun denom => denom.toInt = amount

/-- The parts of the chain parameters that concern the supply. -/
structure ZerocoinParams where
  /-- `NetworkID() == MAIN`. -/
  fMain : Bool := false
  /-- `NetworkID() == REGTEST`. -/
  fRegTest : Bool := false
  nZerocoinStartHeight : Int
  nBlockZerocoinV2 : Int
  nBlockRecalculateAccumulators : Int
  nBlockLastGoodCheckpoint : Int
  nBlockEndFakeSerial : Int
  nSupplyBeforeFakeSerial : Int := 0

/-- The coins of each denomination. -/
abbrev ZerocoinSupply := CoinDenomination → Int

/-- `GetZerocoinSupply`. -/
def ZerocoinSupply.total (supply : ZerocoinSupply) : Int :=
  (zerocoinDenomList.map fun denom => denom.toInt * COIN * supply denom).sum

/-- `GetWrapppedSerialInflation`. -/
def getWrappedSerialInflation (params : ZerocoinParams) : ZerocoinSupply
  | .ZQ_ONE => if params.fMain then 7 else 0
  | .ZQ_FIVE => if params.fMain then 6 else 0
  | .ZQ_TEN => if params.fMain then 36 else 0
  | .ZQ_FIFTY => if params.fMain then 22 else 0
  | .ZQ_ONE_HUNDRED => if params.fMain then 244 else 0
  | .ZQ_FIVE_HUNDRED => if params.fMain then 22 else 0
  | .ZQ_ONE_THOUSAND => if params.fMain then 42 else 0
  | .ZQ_FIVE_THOUSAND => if params.fMain then 98 else 0

/-- The entry of a block in the index, as far as it concerns the supply and the
undo data. -/
structure SupplyIndex where
  nHeight : Int
  nVersion : Int := 4
  nMoneySupply : Int := 0
  mapZerocoinSupply : ZerocoinSupply := fun _ => 0
  nAccumulatorCheckpoint : Uint256 := 0
  /-- `BLOCK_HAVE_UNDO`. -/
  fHaveUndo : Bool := false
  /-- `BLOCK_FAILED_MASK`. -/
  fFailed : Bool := false
  /-- The level of validity is at least `BLOCK_VALID_SCRIPTS`. -/
  fValidScripts : Bool := false

structure CZerocoinMint (Value : Type) where
  denom : CoinDenomination
  value : Value
  txHash : Uint256

/-- The stores that `ConnectBlock` makes. -/
inductive Store (Value Serial : Type)
  -- the counters of the block
  | clearMintDenominations
  | mintDenomination (denom : CoinDenomination)
  | zerocoinSupply (supply : ZerocoinSupply)
  | moneySupply (nMoneySupply : Int)
  | mint (nMint : Int)
  -- the entries of the active chain, in memory and on disk
  | rewriteMinted (nHeight : Int) (denoms : List CoinDenomination)
  | rewriteSpent (nHeight : Int) (supply : ZerocoinSupply)
  | rewriteMoneySupply (nHeight : Int)
  -- the wallet
  | updateMint (value : Value) (nHeight : Int) (txid : Uint256)
      (denom : CoinDenomination)
  | addToWallet (txid : Uint256)
  | zerocoinUsed (serial : Serial)
  -- the entry of the block
  | undoPos
  | raiseValidity
  -- the databases
  | eraseChecksum (nChecksum : BitVec 32)
  | accumulatorValue (nChecksum : BitVec 32) (bnValue : Int)
  | coinSpend (serial : Serial) (txid : Uint256)
  | coinMint (value : Value) (txid : Uint256)
  | txIndex (txid : Uint256)

/-- Why `ConnectBlock` does not return true. -/
inductive Failure
  | returnsFalse
  /-- A denomination that does not exist is looked up. -/
  | throws
  deriving DecidableEq

/-- What a node reads when it connects a block. -/
structure ZerocoinNode (Value Serial : Type) where
  params : ZerocoinParams
  /-- `TxOutToPublicCoin`. -/
  pubCoinOf : CTxOut → Option (CoinDenomination × Value)
  /-- The spend of an input, if it can be parsed. -/
  spendOf : CTransaction → CTxIn → Option (CoinDenomination × Serial)
  /-- `ValidOutPoint` at any height. -/
  validOutPoint : COutPoint → Bool := fun _ => true
  /-- `invalid_out::ContainsSerial`. -/
  containsSerial : Serial → Bool := fun _ => false
  /-- `pwalletMain`, and what is its own. -/
  fWallet : Bool := false
  isMyMint : Value → Bool := fun _ => false
  isMyZerocoinSpend : Serial → Bool := fun _ => false
  /-- The active chain, by height. -/
  nChainHeight : Int
  blockAt : Int → CBlock
  supplyAt : Int → ZerocoinSupply := fun _ _ => 0
  checkpointAt : Int → Uint256 := fun _ => 0

variable {Value Serial : Type} (node : ZerocoinNode Value Serial)

/-! ## Mints and spends of a block -/

/-- The mints among the outputs of a transaction, and whether all could be
parsed. -/
def mintsOfOutputs (fFilterInvalid : Bool) (txHash : Uint256) :
    List (CTxOut × Nat) → List (CZerocoinMint Value) × Bool
  | [] => ([], true)
  | (out, i) :: rest =>
      if fFilterInvalid && !node.validOutPoint ⟨txHash, i⟩ then ([], true)
      else if !out.isZerocoinMint then mintsOfOutputs fFilterInvalid txHash rest
      else
        match node.pubCoinOf out with
        | none => ([], false)
        | some (denom, value) =>
            let (mints, fParsed) := mintsOfOutputs fFilterInvalid txHash rest
            ({ denom, value, txHash } :: mints, fParsed)

/-- `BlockToZerocoinMintList`; the list ends where an output cannot be parsed. -/
def blockToZerocoinMintList (fFilterInvalid : Bool) :
    List CTransaction → List (CZerocoinMint Value)
  | [] => []
  | tx :: vtx =>
      if !tx.hasZerocoinMintOutputs then
        blockToZerocoinMintList fFilterInvalid vtx
      else if fFilterInvalid &&
          tx.vin.any fun txin => !node.validOutPoint txin.prevout then
        blockToZerocoinMintList fFilterInvalid vtx
      else
        match mintsOfOutputs node fFilterInvalid tx.hash tx.vout.zipIdx with
        | (mints, true) => mints ++ blockToZerocoinMintList fFilterInvalid vtx
        | (mints, false) => mints

/-- `ZerocoinSpendListFromBlock`. -/
def zerocoinSpendListFromBlock (fFilterInvalid : Bool) (vtx : List CTransaction) :
    List (Option CoinDenomination) :=
  (vtx.filter CTransaction.hasZerocoinSpendInputs).flatMap fun tx =>
    (tx.vin.filter fun txin =>
      (txin.isZerocoinSpend || txin.isZerocoinPublicSpend) &&
        !(fFilterInvalid && !txin.isZerocoinPublicSpend &&
          (node.spendOf tx txin).any fun spend => node.containsSerial spend.2)).map
      fun txin => intToZerocoinDenomination txin.nSequence.toNat

/-! ## `UpdateZAGRSupply` -/

/-- The stores that the wallet makes for a mint of its own; a transaction is
added once. -/
def walletStores (nHeight : Int) (vtx : List CTransaction)
    (m : CZerocoinMint Value) (setAddedToWallet : List Uint256) :
    List (Store Value Serial) :=
  .updateMint m.value nHeight m.txHash m.denom ::
    if !setAddedToWallet.contains m.txHash &&
        vtx.any fun tx => tx.hash = m.txHash then
      [.addToWallet m.txHash]
    else []

/-- The loop over the mints. -/
def addMints (fJustCheck : Bool) (nHeight : Int) (vtx : List CTransaction) :
    List (CZerocoinMint Value) → ZerocoinSupply → List Uint256 →
      Journal (Store Value Serial) Failure ZerocoinSupply
  | [], supply, _ => pure supply
  | m :: rest, supply, setAddedToWallet => do
      let supply := Function.update supply m.denom (supply m.denom + 1)
      .storeAll [.mintDenomination m.denom, .zerocoinSupply supply]
      if !fJustCheck && node.fWallet && node.isMyMint m.value then
        .storeAll (walletStores nHeight vtx m setAddedToWallet)
        addMints fJustCheck nHeight vtx rest supply (m.txHash :: setAddedToWallet)
      else addMints fJustCheck nHeight vtx rest supply setAddedToWallet

/-- The loop over the spends. -/
def removeSpends : List (Option CoinDenomination) → ZerocoinSupply →
    Journal (Store Value Serial) Failure ZerocoinSupply
  | [], supply => pure supply
  | none :: _, _ => .fail .throws
  | some denom :: rest, supply => do
      let supply := Function.update supply denom (supply denom - 1)
      .storeAll [.zerocoinSupply supply]
      -- zerocoin failsafe
      .require (0 ≤ supply denom) .returnsFalse
      removeSpends rest supply

/-- The wrapped serials are added once. -/
def addInflation (nHeight : Int) (supply : ZerocoinSupply) :
    Journal (Store Value Serial) Failure Unit :=
  let inflation := getWrappedSerialInflation node.params
  if node.params.fMain && nHeight = node.params.nBlockEndFakeSerial + 1 &&
      supply.total <
        node.params.nSupplyBeforeFakeSerial + ZerocoinSupply.total inflation then
    .storeAll [.zerocoinSupply fun denom => supply denom + inflation denom]
  else pure ()

/-- The supply that the loops start from. -/
def startSupply (pprev : Option SupplyIndex) (pindex : SupplyIndex) :
    ZerocoinSupply :=
  match pprev with
  | none => pindex.mapZerocoinSupply
  | some prev =>
      if 3 < prev.nVersion then prev.mapZerocoinSupply
      else pindex.mapZerocoinSupply

def updateZAGRSupply (vtx : List CTransaction) (pprev : Option SupplyIndex)
    (pindex : SupplyIndex) (fJustCheck : Bool) :
    Journal (Store Value Serial) Failure Unit := do
  let fFilterInvalid : Bool :=
    node.params.nBlockRecalculateAccumulators ≤ pindex.nHeight
  let listMints := blockToZerocoinMintList node fFilterInvalid vtx
  let listSpends := zerocoinSpendListFromBlock node fFilterInvalid vtx
  let supply := startSupply pprev pindex
  .storeAll [.zerocoinSupply supply, .clearMintDenominations]
  if pprev.isNone then addInflation node pindex.nHeight supply
  else
    let supply ← addMints node fJustCheck pindex.nHeight vtx listMints supply []
    let supply ← removeSpends listSpends supply
    addInflation node pindex.nHeight supply

/-- The stores that change nothing but the counters of the block. -/
def Store.isCounter : Store Value Serial → Bool
  | .clearMintDenominations => true
  | .mintDenomination _ => true
  | .zerocoinSupply _ => true
  | .moneySupply _ => true
  | .mint _ => true
  | _ => false

section Counters

variable (supply : ZerocoinSupply) (denom : CoinDenomination)

@[simp] theorem isCounter_clearMintDenominations :
    (Store.clearMintDenominations : Store Value Serial).isCounter = true :=
  rfl

@[simp] theorem isCounter_mintDenomination :
    (Store.mintDenomination denom : Store Value Serial).isCounter = true :=
  rfl

@[simp] theorem isCounter_zerocoinSupply :
    (Store.zerocoinSupply supply : Store Value Serial).isCounter = true :=
  rfl

@[simp] theorem isCounter_updateMint (value : Value) (nHeight : Int)
    (txid : Uint256) :
    (Store.updateMint value nHeight txid denom : Store Value Serial).isCounter =
      false :=
  rfl

end Counters

/-- A block has mints of the wallet. -/
def hasOwnMints (listMints : List (CZerocoinMint Value)) : Bool :=
  node.fWallet && listMints.any fun m => node.isMyMint m.value

section Lemmas

variable {node}
variable {fJustCheck : Bool} {nHeight : Int} {vtx : List CTransaction}

theorem addMints_only {listMints : List (CZerocoinMint Value)}
    {supply : ZerocoinSupply} {setAddedToWallet : List Uint256} :
    (addMints node fJustCheck nHeight vtx listMints supply setAddedToWallet :
        Journal (Store Value Serial) Failure ZerocoinSupply).Only
          (fun s => s.isCounter = true) ↔
      fJustCheck = true ∨ hasOwnMints node listMints = false := by
  induction listMints generalizing supply setAddedToWallet with
  | nil => simp [addMints, hasOwnMints]
  | cons m listMints ih =>
      rw [addMints, Journal.only_bind]
      cases hown : !fJustCheck && node.fWallet && node.isMyMint m.value with
      | true =>
          simp only [Bool.and_eq_true, Bool.not_eq_true'] at hown
          simp [Journal.only_bind, walletStores, hasOwnMints, hown]
      | false =>
          simp only [Journal.only_storeAll, Journal.result_storeAll, ih,
            Bool.false_eq_true, if_false]
          cases hcheck : fJustCheck with
          | true => simp
          | false =>
              rw [hcheck] at hown
              cases hwallet : node.fWallet with
              | true =>
                  have hmine : node.isMyMint m.value = false := by
                    simpa [hwallet] using hown
                  simp [hasOwnMints, hwallet, hmine]
              | false => simp [hasOwnMints, hwallet]

/-- The mints that are counted do not depend on the wallet. -/
theorem addMints_result {listMints : List (CZerocoinMint Value)}
    {supply : ZerocoinSupply} {setAddedToWallet : List Uint256} :
    (addMints node fJustCheck nHeight vtx listMints supply setAddedToWallet :
        Journal (Store Value Serial) Failure ZerocoinSupply).result =
      .ok (listMints.foldl (fun supply m =>
        Function.update supply m.denom (supply m.denom + 1)) supply) := by
  induction listMints generalizing supply setAddedToWallet with
  | nil => rfl
  | cons m listMints ih =>
      rw [addMints, Journal.ok_bind, List.foldl_cons]
      refine ⟨(), rfl, ?_⟩
      split
      · rw [Journal.ok_bind]
        exact ⟨(), rfl, ih⟩
      · exact ih

theorem removeSpends_only {listSpends : List (Option CoinDenomination)}
    {supply : ZerocoinSupply} :
    (removeSpends listSpends supply :
        Journal (Store Value Serial) Failure ZerocoinSupply).Only
      fun s => s.isCounter = true := by
  induction listSpends generalizing supply with
  | nil => simp [removeSpends]
  | cons denom listSpends ih =>
      cases denom with
      | none => simp [removeSpends]
      | some denom => simp [removeSpends, Journal.only_bind, ih]

theorem addInflation_only {supply : ZerocoinSupply} :
    (addInflation node nHeight supply).Only fun s => s.isCounter = true := by
  unfold addInflation
  dsimp only
  split <;> simp

variable {pprev : Option SupplyIndex} {pindex : SupplyIndex}

/-- **The supply of a block** is updated without the wallet if and only if the
block is only checked or has no mints of the wallet. -/
theorem updateZAGRSupply_only (hprev : pprev.isSome = true) :
    (updateZAGRSupply node vtx pprev pindex fJustCheck).Only
        (fun s => s.isCounter = true) ↔
      fJustCheck = true ∨ hasOwnMints node (blockToZerocoinMintList node
        (node.params.nBlockRecalculateAccumulators ≤ pindex.nHeight) vtx) =
          false := by
  have hnone : pprev.isNone = false := by
    rw [Option.isNone_eq_false_iff, hprev]
  simp only [updateZAGRSupply, hnone]
  simp [Journal.only_bind, addMints_only, removeSpends_only, addInflation_only]

/-- **The verdict on the supply** does not depend on the wallet. -/
theorem updateZAGRSupply_result :
    (updateZAGRSupply node vtx pprev pindex fJustCheck).result =
      (updateZAGRSupply node vtx pprev pindex true).result := by
  unfold updateZAGRSupply
  simp only [Journal.result_bind]
  split
  · rfl
  · simp only [Journal.result_bind, addMints_result]

end Lemmas

/-! ## Recalculation -/

/-- The heights from one to another. -/
def heights (first last : Int) : List Int :=
  (List.range (last + 1 - first).toNat).map fun (i : Nat) => first + i

/-- `RecalculateZAGRMinted`. -/
def recalculateZAGRMinted (first last : Int) : List (Store Value Serial) :=
  (heights first last).map fun h =>
    .rewriteMinted h
      ((blockToZerocoinMintList node true (node.blockAt h).vtx).map (·.denom))

/-- The supply after a block, from the one before. -/
def recalculatedSupply (h : Int) (supply : ZerocoinSupply) : ZerocoinSupply :=
  fun denom =>
    let vtx := (node.blockAt h).vtx
    let added : Nat :=
      (blockToZerocoinMintList node true vtx).countP fun m => m.denom = denom
    let spent : Nat :=
      (zerocoinSpendListFromBlock node true vtx).countP fun d => d = some denom
    supply denom + added - spent +
      if h = node.params.nBlockEndFakeSerial + 1 then
        getWrappedSerialInflation node.params denom
      else 0

/-- The loop of `RecalculateZAGRSpent`. -/
def recalculateSpentFrom : List Int → ZerocoinSupply → List (Store Value Serial)
  | [], _ => []
  | h :: rest, supply =>
      let supply := recalculatedSupply node h supply
      .rewriteSpent h supply :: recalculateSpentFrom rest supply

/-- `RecalculateAGRSupply`; the amounts it writes are not looked into. -/
def recalculateAGRSupply (first last : Int) : List (Store Value Serial) :=
  (heights first last).map .rewriteMoneySupply

/-- The recalculation that is made once, from the start of zerocoin on. -/
def recalculation (nHeight : Int) : List (Store Value Serial) :=
  let first := node.params.nZerocoinStartHeight
  if nHeight = node.params.nBlockRecalculateAccumulators + 1 then
    recalculateZAGRMinted node first node.nChainHeight ++
      recalculateSpentFrom node (heights first node.nChainHeight)
        (node.supplyAt (first - 1)) ++
      recalculateAGRSupply first node.nChainHeight
  else []

theorem heights_eq_nil {first last : Int} : heights first last = [] ↔ last < first := by
  unfold heights
  rw [List.map_eq_nil_iff, List.range_eq_nil]
  omega

/-- Stores that are all something else are counters only if there are none. -/
theorem forall_counter_iff {stores : List (Store Value Serial)}
    (h : ∀ s ∈ stores, s.isCounter = false) :
    (∀ s ∈ stores, s.isCounter = true) ↔ stores = [] := by
  constructor
  · intro hall
    refine List.eq_nil_iff_forall_not_mem.mpr ?_
    intro s hs
    exact absurd (hall s hs) (by simp [h s hs])
  · intro hnil
    simp [hnil]

/-- The recalculation stores something if it finds an entry. -/
theorem recalculation_counters {nHeight : Int} :
    (∀ s ∈ recalculation node nHeight, s.isCounter = true) ↔
      nHeight ≠ node.params.nBlockRecalculateAccumulators + 1 ∨
        node.nChainHeight < node.params.nZerocoinStartHeight := by
  unfold recalculation
  dsimp only
  by_cases hheight : nHeight = node.params.nBlockRecalculateAccumulators + 1
  · rw [if_pos hheight, ← heights_eq_nil]
    simp only [hheight, ne_eq, not_true_eq_false, false_or]
    constructor
    · intro hall
      have hlast : (recalculateAGRSupply node.params.nZerocoinStartHeight
          node.nChainHeight : List (Store Value Serial)) = [] := by
        refine (forall_counter_iff ?_).mp fun s hs => hall s (by simp [hs])
        intro s hs
        obtain ⟨h, -, rfl⟩ := List.mem_map.mp hs
        rfl
      exact List.map_eq_nil_iff.mp hlast
    · intro hnone
      simp [recalculateZAGRMinted, recalculateAGRSupply, recalculateSpentFrom, hnone]
  · simp [hheight]

/-! ## Accumulator checksums -/

/-- `EraseCheckpoints`; a checkpoint is kept if it equals a checksum of the
one before the range. -/
def eraseCheckpoints (nStartHeight nEndHeight : Int) : List (Store Value Serial) :=
  let listCheckpointsPrev := zerocoinDenomList.map fun denom =>
    (parseChecksum (node.checkpointAt (nStartHeight - 1)) denom).setWidth 256
  -- the first entry is erased in any case
  (heights nStartHeight (max nStartHeight (min node.nChainHeight nEndHeight))).flatMap
    fun h =>
      if listCheckpointsPrev.contains (node.checkpointAt h) then []
      else zerocoinDenomList.map fun denom =>
        .eraseChecksum (parseChecksum (node.checkpointAt h) denom)

theorem eraseCheckpoints_counter {nStartHeight nEndHeight : Int}
    {s : Store Value Serial}
    (hs : s ∈ eraseCheckpoints node nStartHeight nEndHeight) :
    s.isCounter = false := by
  obtain ⟨h, -, hs⟩ := List.mem_flatMap.mp hs
  split at hs
  · cases hs
  · obtain ⟨denom, -, rfl⟩ := List.mem_map.mp hs
    rfl

end Agrarian.Zerocoin
