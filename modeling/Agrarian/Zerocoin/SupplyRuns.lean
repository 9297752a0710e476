import Agrarian.Zerocoin.Supply

/-!
# The supply of a block that is connected again

`UpdateZAGRSupply` writes to the entry of the block in the index, where the
values of an earlier call are still found: `DisconnectBlock` does not take them
back.  It starts from the supply of the parent only if the version of the parent
is above 3, and else from what the entry holds.

What a call leaves is read off the stores that it makes, also where it fails on
the way.
-/

namespace Agrarian.Zerocoin

open Agrarian.Lib Agrarian.Validation

variable {Value Serial : Type}

/-! ## The entry of a block -/

/-- The entry of a block with both fields that `UpdateZAGRSupply` writes. -/
structure ZerocoinIndex extends SupplyIndex where
  vMintDenominationsInBlock : List CoinDenomination := []

namespace ZerocoinIndex

/-- The entry with other values in the two fields. -/
def withCounts (pindex : ZerocoinIndex) (supply : ZerocoinSupply)
    (denoms : List CoinDenomination) : ZerocoinIndex :=
  { pindex with mapZerocoinSupply := supply, vMintDenominationsInBlock := denoms }

/-- What a store does to the two fields. -/
def store (pindex : ZerocoinIndex) : Store Value Serial → ZerocoinIndex
  | .clearMintDenominations => { pindex with vMintDenominationsInBlock := [] }
  | .mintDenomination denom =>
      { pindex with
        vMintDenominationsInBlock := pindex.vMintDenominationsInBlock ++ [denom] }
  | .zerocoinSupply supply => { pindex with mapZerocoinSupply := supply }
  | _ => pindex

section Counts

variable (pindex : ZerocoinIndex) (supply supply' : ZerocoinSupply)
  (denoms : List CoinDenomination)

@[simp] theorem store_mintDenomination (denom : CoinDenomination) :
    (pindex.withCounts supply denoms).store (.mintDenomination denom : Store Value Serial) =
      pindex.withCounts supply (denoms ++ [denom]) :=
  rfl

@[simp] theorem store_zerocoinSupply :
    (pindex.withCounts supply denoms).store (.zerocoinSupply supply' : Store Value Serial) =
      pindex.withCounts supply' denoms :=
  rfl

end Counts

/-- The entry after `UpdateZAGRSupply`, whatever that returns. -/
def connect (node : ZerocoinNode Value Serial) (vtx : List CTransaction)
    (pprev : SupplyIndex) (fJustCheck : Bool) (pindex : ZerocoinIndex) : ZerocoinIndex :=
  (updateZAGRSupply node vtx (some pprev) pindex.toSupplyIndex fJustCheck).replay store pindex

end ZerocoinIndex

/-- What happens to the entry of a block. -/
inductive EntryEvent (Value Serial : Type)
  | connect (node : ZerocoinNode Value Serial) (pprev : SupplyIndex) (fJustCheck : Bool)
  | disconnect
  -- the recalculations, and loading the entry from disk
  | rewrite (supply : ZerocoinSupply) (denoms : List CoinDenomination)

namespace ZerocoinIndex

def step (vtx : List CTransaction) (pindex : ZerocoinIndex) :
    EntryEvent Value Serial → ZerocoinIndex
  | .connect node pprev fJustCheck => pindex.connect node vtx pprev fJustCheck
  -- `DisconnectBlock` does not write to the two fields
  | .disconnect => pindex
  | .rewrite supply denoms => pindex.withCounts supply denoms

def run (vtx : List CTransaction) (pindex : ZerocoinIndex)
    (history : List (EntryEvent Value Serial)) : ZerocoinIndex :=
  history.foldl (step vtx) pindex

end ZerocoinIndex

/-! ## What a call leaves -/

/-- The loop over the mints. -/
def mintsLeave (listMints : List (CZerocoinMint Value)) (supply : ZerocoinSupply) :
    ZerocoinSupply :=
  listMints.foldl (fun supply m => Function.update supply m.denom (supply m.denom + 1)) supply

/-- The loop over the spends: the supply it leaves, and whether it comes to its
end. -/
def spendsLeave : List (Option CoinDenomination) → ZerocoinSupply → ZerocoinSupply × Bool
  | [], supply => (supply, true)
  | none :: _, supply => (supply, false)
  | some denom :: rest, supply =>
      let supply := Function.update supply denom (supply denom - 1)
      if 0 ≤ supply denom then spendsLeave rest supply else (supply, false)

section Calls

variable (node : ZerocoinNode Value Serial)

/-- The one-time addition of the wrapped serials. -/
def inflationLeaves (nHeight : Int) (supply : ZerocoinSupply) : ZerocoinSupply :=
  let inflation := getWrappedSerialInflation node.params
  if node.params.fMain && nHeight = node.params.nBlockEndFakeSerial + 1 &&
      supply.total <
        node.params.nSupplyBeforeFakeSerial + ZerocoinSupply.total inflation then
    fun denom => supply denom + inflation denom
  else supply

/-- Invalid outputs and serials are left out at this height. -/
def filtersInvalid (nHeight : Int) : Bool :=
  node.params.nBlockRecalculateAccumulators ≤ nHeight

/-- The supply that a call leaves, from the one it starts with. -/
def supplyLeft (nHeight : Int) (vtx : List CTransaction) (supply : ZerocoinSupply) :
    ZerocoinSupply :=
  let (supply, fDone) := spendsLeave
    (zerocoinSpendListFromBlock node (filtersInvalid node nHeight) vtx)
    (mintsLeave (blockToZerocoinMintList node (filtersInvalid node nHeight) vtx) supply)
  if fDone then inflationLeaves node nHeight supply else supply

/-- The denominations that a call leaves. -/
def denomsLeft (nHeight : Int) (vtx : List CTransaction) : List CoinDenomination :=
  (blockToZerocoinMintList node (filtersInvalid node nHeight) vtx).map (·.denom)

namespace ZerocoinIndex

open Journal

theorem foldl_walletStores (nHeight : Int) (vtx : List CTransaction) (m : CZerocoinMint Value)
    (setAddedToWallet : List Uint256) (pindex : ZerocoinIndex) :
    (walletStores nHeight vtx m setAddedToWallet : List (Store Value Serial)).foldl store pindex =
      pindex := by
  unfold walletStores
  split <;> rfl

/-- The loop over the mints writes both fields, with or without a wallet. -/
theorem replay_addMints (fJustCheck : Bool) (nHeight : Int) (vtx : List CTransaction)
    (listMints : List (CZerocoinMint Value)) (setAddedToWallet : List Uint256)
    (pindex : ZerocoinIndex) (supply : ZerocoinSupply) (denoms : List CoinDenomination) :
    (addMints node fJustCheck nHeight vtx listMints supply setAddedToWallet :
        Journal (Store Value Serial) Failure ZerocoinSupply).replay store
        (pindex.withCounts supply denoms) =
      pindex.withCounts (mintsLeave listMints supply) (denoms ++ listMints.map (·.denom)) := by
  induction listMints generalizing supply denoms setAddedToWallet with
  | nil => simp [addMints, mintsLeave]
  | cons m listMints ih =>
      rw [addMints, replay_storeAll_bind]
      simp only [List.foldl_cons, List.foldl_nil, store_mintDenomination, store_zerocoinSupply]
      split
      · rw [replay_storeAll_bind, foldl_walletStores, ih, List.append_assoc]
        rfl
      · rw [ih, List.append_assoc]
        rfl

/-- The loop over the spends writes the supply alone. -/
theorem replay_removeSpends (listSpends : List (Option CoinDenomination))
    (pindex : ZerocoinIndex) (supply : ZerocoinSupply) (denoms : List CoinDenomination) :
    (removeSpends listSpends supply :
        Journal (Store Value Serial) Failure ZerocoinSupply).replay store
        (pindex.withCounts supply denoms) =
      pindex.withCounts (spendsLeave listSpends supply).1 denoms := by
  induction listSpends generalizing supply with
  | nil => rfl
  | cons denom listSpends ih =>
      cases denom with
      | none => rfl
      | some denom =>
          rw [removeSpends, spendsLeave, replay_storeAll_bind, replay_bind, result_require]
          simp only [List.foldl_cons, List.foldl_nil, store_zerocoinSupply, replay_require]
          by_cases hleft : 0 ≤ Function.update supply denom (supply denom - 1) denom
          · simp only [hleft, decide_true, if_true, ih]
          · simp only [hleft, decide_false, Bool.false_eq_true, if_false]

/-- The loop over the spends returns the supply that it leaves, or fails. -/
theorem result_removeSpends (listSpends : List (Option CoinDenomination))
    (supply : ZerocoinSupply) :
    (removeSpends listSpends supply :
        Journal (Store Value Serial) Failure ZerocoinSupply).result.toOption =
      if (spendsLeave listSpends supply).2 then some (spendsLeave listSpends supply).1
      else none := by
  induction listSpends generalizing supply with
  | nil => rfl
  | cons denom listSpends ih =>
      cases denom with
      | none => rfl
      | some denom =>
          rw [removeSpends, spendsLeave, result_bind, result_storeAll]
          simp only [Except.bind, result_bind, result_require]
          by_cases hleft : 0 ≤ Function.update supply denom (supply denom - 1) denom
          · simp only [hleft, decide_true, if_true, ih]
          · simp only [hleft, decide_false, Bool.false_eq_true, if_false]
            rfl

theorem replay_addInflation (nHeight : Int) (pindex : ZerocoinIndex) (supply : ZerocoinSupply)
    (denoms : List CoinDenomination) :
    (addInflation node nHeight supply).replay store (pindex.withCounts supply denoms) =
      pindex.withCounts (inflationLeaves node nHeight supply) denoms := by
  unfold addInflation inflationLeaves
  dsimp only
  split <;> rfl

/-- The wrapped serials are added if the loop over the spends comes to its end. -/
theorem replay_spends (nHeight : Int) (listSpends : List (Option CoinDenomination))
    (pindex : ZerocoinIndex) (supply : ZerocoinSupply) (denoms : List CoinDenomination) :
    (removeSpends listSpends supply >>= addInflation node nHeight).replay store
        (pindex.withCounts supply denoms) =
      pindex.withCounts
        (if (spendsLeave listSpends supply).2 then
          inflationLeaves node nHeight (spendsLeave listSpends supply).1
        else (spendsLeave listSpends supply).1) denoms := by
  have hresult : (removeSpends listSpends supply :
      Journal (Store Value Serial) Failure ZerocoinSupply).result.toOption = _ :=
    result_removeSpends listSpends supply
  rw [replay_bind, replay_removeSpends]
  cases hdone : (spendsLeave listSpends supply).2 with
  | true =>
      rw [hdone, if_pos rfl] at hresult
      cases hok : (removeSpends listSpends supply :
          Journal (Store Value Serial) Failure ZerocoinSupply).result with
      | ok supply' =>
          rw [hok] at hresult
          cases hresult
          exact replay_addInflation node nHeight pindex _ denoms
      | error err =>
          rw [hok] at hresult
          cases hresult
  | false =>
      rw [hdone] at hresult
      cases hok : (removeSpends listSpends supply :
          Journal (Store Value Serial) Failure ZerocoinSupply).result with
      | ok supply' =>
          rw [hok] at hresult
          cases hresult
      | error err => rfl

/-- **What a call leaves**, from the supply it starts with and the block alone. -/
theorem connect_eq (vtx : List CTransaction) (pprev : SupplyIndex) (fJustCheck : Bool)
    (pindex : ZerocoinIndex) :
    pindex.connect node vtx pprev fJustCheck =
      pindex.withCounts
        (supplyLeft node pindex.nHeight vtx (startSupply (some pprev) pindex.toSupplyIndex))
        (denomsLeft node pindex.nHeight vtx) := by
  have hstart : ([.zerocoinSupply (startSupply (some pprev) pindex.toSupplyIndex),
      .clearMintDenominations] : List (Store Value Serial)).foldl store pindex =
        pindex.withCounts (startSupply (some pprev) pindex.toSupplyIndex) [] := rfl
  unfold connect updateZAGRSupply
  rw [replay_storeAll_bind, hstart]
  simp only [Option.isNone_some, Bool.false_eq_true, if_false]
  rw [replay_bind, addMints_result, replay_addMints]
  exact replay_spends node pindex.nHeight _ pindex _ _

end ZerocoinIndex

end Calls

/-! ## What it depends on -/

/-- Two states of a node that read blocks alike, whatever their chains and wallets. -/
structure SameRules (node node' : ZerocoinNode Value Serial) : Prop where
  params : node.params = node'.params
  pubCoinOf : node.pubCoinOf = node'.pubCoinOf
  validOutPoint : node.validOutPoint = node'.validOutPoint
  containsSerial : node.containsSerial = node'.containsSerial
  /-- The spends that are parsed from the input alone. -/
  spendOf : ∀ tx txin, txin.isZerocoinPublicSpend = false →
    node.spendOf tx txin = node'.spendOf tx txin

section Determined

variable {node node' : ZerocoinNode Value Serial} (hrules : SameRules node node')
include hrules

theorem SameRules.mintsOfOutputs (fFilterInvalid : Bool) (txHash : Uint256)
    (vout : List (CTxOut × Nat)) :
    mintsOfOutputs node fFilterInvalid txHash vout =
      mintsOfOutputs node' fFilterInvalid txHash vout := by
  induction vout with
  | nil => rfl
  | cons out vout ih =>
      unfold Zerocoin.mintsOfOutputs
      rw [ih, hrules.pubCoinOf, hrules.validOutPoint]

theorem SameRules.blockToZerocoinMintList (fFilterInvalid : Bool) (vtx : List CTransaction) :
    blockToZerocoinMintList node fFilterInvalid vtx =
      blockToZerocoinMintList node' fFilterInvalid vtx := by
  induction vtx with
  | nil => rfl
  | cons tx vtx ih =>
      unfold Zerocoin.blockToZerocoinMintList
      rw [ih, hrules.mintsOfOutputs, hrules.validOutPoint]

theorem SameRules.zerocoinSpendListFromBlock (fFilterInvalid : Bool) (vtx : List CTransaction) :
    zerocoinSpendListFromBlock node fFilterInvalid vtx =
      zerocoinSpendListFromBlock node' fFilterInvalid vtx := by
  unfold Zerocoin.zerocoinSpendListFromBlock
  refine congrArg (List.flatMap · _) (funext fun tx => congrArg (List.map _) ?_)
  refine List.filter_congr fun txin _ => ?_
  cases hpublic : txin.isZerocoinPublicSpend with
  | true => simp
  | false => rw [hrules.spendOf tx txin hpublic, hrules.containsSerial]

theorem SameRules.supplyLeft (nHeight : Int) (vtx : List CTransaction) (supply : ZerocoinSupply) :
    supplyLeft node nHeight vtx supply = supplyLeft node' nHeight vtx supply := by
  unfold Zerocoin.supplyLeft filtersInvalid inflationLeaves
  rw [hrules.blockToZerocoinMintList, hrules.zerocoinSpendListFromBlock, hrules.params]

theorem SameRules.denomsLeft (nHeight : Int) (vtx : List CTransaction) :
    denomsLeft node nHeight vtx = denomsLeft node' nHeight vtx := by
  unfold Zerocoin.denomsLeft filtersInvalid
  rw [hrules.blockToZerocoinMintList, hrules.params]

end Determined

/-- The height of an entry never changes. -/
theorem ZerocoinIndex.run_nHeight (vtx : List CTransaction) (pindex : ZerocoinIndex)
    (history : List (EntryEvent Value Serial)) :
    (pindex.run vtx history).nHeight = pindex.nHeight := by
  induction history generalizing pindex with
  | nil => rfl
  | cons event history ih =>
      refine (ih (pindex.step vtx event)).trans ?_
      cases event with
      | connect node pprev fJustCheck =>
          rw [step, connect_eq]
          rfl
      | disconnect => rfl
      | rewrite supply denoms => rfl

/-- The supply of a parent whose version is above 3 is copied. -/
theorem startSupply_of_version {pprev : SupplyIndex} (h : 3 < pprev.nVersion)
    (pindex : SupplyIndex) : startSupply (some pprev) pindex = pprev.mapZerocoinSupply := by
  rw [startSupply]
  exact if_pos h

/-- **What `UpdateZAGRSupply` leaves** depends only on the supply of the parent, the
transactions of the block and its height, if the parent's version is above 3:
neither on what happened to the entry before, nor on the wallet, the chain, the
rest of the parent or whether the block is only checked. -/
theorem ZerocoinIndex.connect_determined {node node' : ZerocoinNode Value Serial}
    (hrules : SameRules node node') (vtx : List CTransaction) {pprev pprev' : SupplyIndex}
    (hversion : 3 < pprev.nVersion) (hversion' : 3 < pprev'.nVersion)
    (hsupply : pprev.mapZerocoinSupply = pprev'.mapZerocoinSupply)
    {pindex pindex' : ZerocoinIndex} (hheight : pindex.nHeight = pindex'.nHeight)
    (fJustCheck fJustCheck' : Bool) (history : List (EntryEvent Value Serial)) :
    let once := pindex.connect node vtx pprev fJustCheck
    let again := (pindex'.run vtx history).connect node' vtx pprev' fJustCheck'
    again.mapZerocoinSupply = once.mapZerocoinSupply ∧
      again.vMintDenominationsInBlock = once.vMintDenominationsInBlock := by
  dsimp only
  rw [connect_eq, connect_eq, run_nHeight, startSupply_of_version hversion,
    startSupply_of_version hversion', ← hsupply, ← hheight, ← hrules.supplyLeft,
    ← hrules.denomsLeft]
  exact ⟨rfl, rfl⟩

section Examples

/-- A node on the main or the regression test network that reads every mint as one of
`ZQ_ONE`. -/
def countingNode (fMain : Bool) : ZerocoinNode Unit Unit where
  params :=
    { fMain
      fRegTest := !fMain
      nZerocoinStartHeight := if fMain then 0 else 300
      nBlockZerocoinV2 := if fMain then 999999999 else 300
      nBlockRecalculateAccumulators := 999999999
      nBlockLastGoodCheckpoint := 999999999
      nBlockEndFakeSerial := if fMain then 0 else -1 }
  pubCoinOf := fun _ => some (.ZQ_ONE, ())
  spendOf := fun _ _ => none
  nChainHeight := 309
  blockAt := fun _ => ⟨9, 8, 0, []⟩

def oneMint : List CTransaction :=
  [{ hash := 101
     vin := [{ prevout := ⟨1, 0⟩ }]
     vout := [⟨COIN, [CScript.OP_ZEROCOINMINT], -10⟩] }]

/-- The mint of block 310 is counted once, however often the block is connected. -/
theorem connect_determined_mint :
    let entry : ZerocoinIndex := { nHeight := 310 }
    let parent : SupplyIndex := { nHeight := 309 }
    (entry.run oneMint [.connect (countingNode false) parent false, .disconnect,
        .connect (countingNode false) parent false]).mapZerocoinSupply .ZQ_ONE = 1 := by
  intro entry parent
  have hrules : SameRules (countingNode false) (countingNode false) :=
    ⟨rfl, rfl, rfl, rfl, fun _ _ _ => rfl⟩
  have hversion : 3 < parent.nVersion := by decide
  have hheight : entry.nHeight = entry.nHeight := rfl
  have hagain := (ZerocoinIndex.connect_determined hrules oneMint hversion hversion rfl hheight
    false false [.connect (countingNode false) parent false, .disconnect]).1
  exact (congrFun hagain .ZQ_ONE).trans (by decide)

/-- The wrapped serials are added at height 1 alone, and a mint is counted twice where
the parent has version 3. -/
theorem supply_not_determined :
    (¬ ∀ (node : ZerocoinNode Unit Unit) (vtx : List CTransaction) (pprev pprev' : SupplyIndex)
        (pindex pindex' : ZerocoinIndex), pprev.mapZerocoinSupply = pprev'.mapZerocoinSupply →
        (pindex.connect node vtx pprev false).mapZerocoinSupply =
          (pindex'.connect node vtx pprev' false).mapZerocoinSupply) ∧
      ¬ ∀ (node : ZerocoinNode Unit Unit) (vtx : List CTransaction) (pprev : SupplyIndex)
        (pindex : ZerocoinIndex),
        (pindex.run vtx [.connect node pprev false, .disconnect,
            .connect node pprev false]).mapZerocoinSupply =
          (pindex.connect node vtx pprev false).mapZerocoinSupply := by
  constructor
  · intro h
    have hmaps := h (countingNode true) [] { nHeight := 0, nVersion := 1 } { nHeight := 1 }
      { nHeight := 1 } { nHeight := 2 } rfl
    exact absurd (congrFun hmaps .ZQ_ONE) (by decide)
  · intro h
    have hmaps := h (countingNode false) oneMint { nHeight := 309, nVersion := 3 }
      { nHeight := 310 }
    exact absurd (congrFun hmaps .ZQ_ONE) (by decide)

end Examples

end Agrarian.Zerocoin
