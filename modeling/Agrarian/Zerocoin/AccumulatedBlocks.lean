import Agrarian.Lib.Ensures
import Agrarian.Lib.Route
import Agrarian.Zerocoin.EraseCheckpoints

/-!
# Accumulating the mints of a chain

The scan that both computations of a witness make: from a checkpoint on it adds
the mints of one denomination, block by block, until it comes to the height it
is to stop at, and takes the value of the accumulator from the checkpoint ten
blocks on.  Ten blocks were accumulated twice, so the scan goes back once.

Where the scan goes does not depend on what it finds, so it is a walk along a
route that is known from the heights.
-/

namespace Agrarian.Zerocoin

open Agrarian.Lib Agrarian.Validation
open Agrarian.Stake (parseChecksum)

abbrev CBigNum := Int

/-- A public coin. -/
structure PublicCoin where
  denomination : CoinDenomination
  value : CBigNum
  deriving DecidableEq

/-- A block of the active chain, with what `GetPubcoinFromBlock` gives for it: its
mints, or the message of the `GetPubcoinException` it throws. -/
structure WitnessBlock where
  vMintDenominationsInBlock : List CoinDenomination
  nAccumulatorCheckpoint : Uint256
  pubcoins : Except String (List PublicCoin)

/-- What a node computes a witness from. -/
structure WitnessNode where
  params : ZerocoinParams
  chainActive : List WitnessBlock
  checksums : ChecksumStore CBigNum
  /-- `AccumulatorCheckpoints::mapCheckpoints`, in the order of the heights. -/
  mapCheckpoints : List (Int × KeyedMap CoinDenomination CBigNum)
  /-- The base of a new accumulator. -/
  accumulatorBase : CBigNum
  /-- `pow_mod` with the modulus of the accumulators. -/
  powMod : CBigNum → CBigNum → CBigNum
  /-- `LockMethod`: the lock was got. -/
  fLocked : Bool

/-- `Zerocoin_RequiredAccumulation`, the same on every network. -/
def zerocoinRequiredAccumulation : Nat := 1

namespace WitnessNode

variable (node : WitnessNode)

/-- `chainActive[nHeight]`. -/
def blockAt (nHeight : Int) : Option WitnessBlock :=
  if nHeight < 0 then none else node.chainActive[nHeight.toNat]?

/-- `chainActive.Height()`. -/
def height : Int := (node.chainActive.length : Int) - 1

/-- `chainActive[nHeight]` as a pointer: the height if there is a block. -/
def indexAt (nHeight : Int) : Option Int := (node.blockAt nHeight).map fun _ => nHeight

end WitnessNode

/-- `CBlockIndex::MintedDenomination`. -/
def WitnessBlock.mintedDenomination (pindex : WitnessBlock) (denom : CoinDenomination) :
    Bool :=
  pindex.vMintDenominationsInBlock.contains denom

/-- `InvalidCheckpointRange`. -/
def invalidCheckpointRange (params : ZerocoinParams) (nHeight : Int) : Bool :=
  nHeight > params.nBlockLastGoodCheckpoint && nHeight < params.nBlockRecalculateAccumulators

/-- `GetAccumulatorValueFromDB`: a value that is missing is zero. -/
def getAccumulatorValueFromDB (node : WitnessNode) (nCheckpoint : Uint256)
    (denom : CoinDenomination) : CBigNum :=
  (node.checksums.accumulatorValue (parseChecksum nCheckpoint denom)).getD 0

/-! ## The scan -/

/-- What a scan has come to. -/
structure Scan where
  /-- The value of the witness accumulator. -/
  witnessValue : CBigNum
  /-- `notAddedCoins`. -/
  ret : List CBigNum := []
  nMintsAdded : Nat := 0
  /-- The blocks read from disk. -/
  blocksRead : List Int := []

/-- How a computation does not come to its end. -/
inductive Stop
  | getPubcoinException (message : String)
  | searchMintHeightException (message : String)
  | notEnoughMintsException (message : String)
  /-- A pointer to a `ChecksumInDbNotFoundException` is thrown. -/
  | checksumNotFoundPointer (message : String)
  /-- `std::out_of_range`, of a lookup. -/
  | outOfRange
  /-- `std::runtime_error`. -/
  | runtimeError (message : String)
  /-- A null pointer is followed. -/
  | nullPointer
  /-- The loop has not ended. -/
  | running
  deriving DecidableEq

section Scan

variable (node : WitnessNode) (den : CoinDenomination)
  (skips : Int → PublicCoin → Bool)

/-- The coins that a block adds: those of the denomination, without the ones that
are passed over. -/
def addMint (nHeight : Int) (s : Scan) (pubcoin : PublicCoin) : Scan :=
  if pubcoin.denomination ≠ den then s
  else if skips nHeight pubcoin then { s with ret := s.ret ++ [pubcoin.value] }
  else
    { s with
      witnessValue := node.powMod s.witnessValue pubcoin.value
      nMintsAdded := s.nMintsAdded + 1 }

/-- `AddBlockMintsToAccumulator`: if this block contains mints of the denomination
that is being spent, then add them to the witness. -/
def addBlockMintsToAccumulator (nHeight : Int) : EStateM Stop Scan Unit :=
  match node.blockAt nHeight with
  | none => throw .nullPointer
  | some pindex =>
      if pindex.mintedDenomination den then do
        modify fun s => { s with blocksRead := s.blocksRead ++ [nHeight] }
        match pindex.pubcoins with
        | .error message => throw (.getPubcoinException message)
        | .ok pubcoins =>
            modify fun s => pubcoins.foldl (addMint node den skips nHeight) s
      else pure ()

/-- The end of the scan: the height it has stopped at, and the value of the
accumulator there. -/
def stopScan (nHeight : Int) : EStateM Stop Scan (Option (Int × CBigNum)) :=
  match node.blockAt (nHeight + 10) with
  | none => throw .nullPointer
  | some pindex =>
      let bnAccValue := getAccumulatorValueFromDB node pindex.nAccumulatorCheckpoint den
      if bnAccValue = 0 then
        throw (.checksumNotFoundPointer
          "calculateAccumulatedBlocksFor : failed to find checksum in database for accumulator")
      else pure (some (nHeight, bnAccValue))

/-- The loop of `calculateAccumulatedBlocksFor`, of so many turns at most. -/
def scanLoop (nHeightStop : Int) :
    Nat → Option Int → Bool → EStateM Stop Scan (Option (Int × CBigNum))
  | 0, _, _ => throw .running
  | _ + 1, none, _ => pure none
  | turns + 1, some nHeight, fDoubleCounted =>
      if nHeight ≥ nHeightStop then
        -- past the invalid range, but `pindex` stays where it is
        if invalidCheckpointRange node.params nHeight then
          scanLoop nHeightStop turns (some nHeight) fDoubleCounted
        else stopScan node den nHeight
      else do
        addBlockMintsToAccumulator node den skips nHeight
        -- 10 blocks were accumulated twice when zAGR v2 was activated
        if nHeight = 1050010 ∧ fDoubleCounted = false then
          scanLoop nHeightStop turns (node.indexAt 1050000) true
        else scanLoop nHeightStop turns (node.indexAt (nHeight + 1)) fDoubleCounted

/-- `calculateAccumulatedBlocksFor`, from `pindex` on. -/
def calculateAccumulatedBlocksFor (turns : Nat) (nHeightStop : Int)
    (pindex : Option Int) : EStateM Stop Scan (Option (Int × CBigNum)) := do
  let stopped ← scanLoop node den skips nHeightStop turns pindex false
  let s ← get
  -- A certain amount of accumulated coins are required
  if s.nMintsAdded < zerocoinRequiredAccumulation then
    throw (.notEnoughMintsException "Less than 1 mints added, unable to create spend")
  else pure stopped

end Scan

/-! ## The route of a scan -/

/-- Where a scan goes next: the height it adds, and what comes after. -/
def scanPlan (node : WitnessNode) (nHeightStop : Int) :
    Option Int × Bool → Option (Int × (Option Int × Bool))
  | (none, _) => none
  | (some nHeight, fDoubleCounted) =>
      if nHeight ≥ nHeightStop then none
      else if nHeight = 1050010 ∧ fDoubleCounted = false then
        some (nHeight, (node.indexAt 1050000, true))
      else some (nHeight, (node.indexAt (nHeight + 1), fDoubleCounted))

/-- What is done where a route has ended. -/
def endScan (node : WitnessNode) (den : CoinDenomination) :
    Option (Option Int × Bool) → EStateM Stop Scan (Option (Int × CBigNum))
  | none => throw .running
  | some (none, _) => pure none
  | some (some nHeight, _) =>
      if invalidCheckpointRange node.params nHeight then throw .running
      else stopScan node den nHeight

/-- The work along a route. -/
def addBlocks (node : WitnessNode) (den : CoinDenomination)
    (skips : Int → PublicCoin → Bool) : List Int → EStateM Stop Scan Unit
  | [] => pure ()
  | nHeight :: rest => do
      addBlockMintsToAccumulator node den skips nHeight
      addBlocks node den skips rest

section Route

variable (node : WitnessNode) (den : CoinDenomination)
  (skips : Int → PublicCoin → Bool) {nHeightStop : Int}

/-- In the invalid range the loop goes on for ever. -/
theorem scanLoop_invalid {nHeight : Int} (hstop : nHeight ≥ nHeightStop)
    (hinvalid : invalidCheckpointRange node.params nHeight = true)
    (turns : Nat) (fDoubleCounted : Bool) :
    scanLoop node den skips nHeightStop turns (some nHeight) fDoubleCounted =
      throw .running := by
  induction turns with
  | zero => rfl
  | succ turns ih => rw [scanLoop, if_pos hstop, if_pos hinvalid, ih]

/-- **The loop** is the work along its route. -/
theorem scanLoop_eq (turns : Nat) (pindex : Option Int) (fDoubleCounted : Bool) :
    scanLoop node den skips nHeightStop turns pindex fDoubleCounted =
      (do
        addBlocks node den skips
          (follow (scanPlan node nHeightStop) turns (pindex, fDoubleCounted)).1
        endScan node den
          (follow (scanPlan node nHeightStop) turns (pindex, fDoubleCounted)).2) := by
  induction turns generalizing pindex fDoubleCounted with
  | zero => rfl
  | succ turns ih =>
      cases pindex with
      | none =>
          rw [follow_end rfl]
          rfl
      | some nHeight =>
          by_cases hstop : nHeight ≥ nHeightStop
          · have hplan : scanPlan node nHeightStop (some nHeight, fDoubleCounted) = none :=
              if_pos hstop
            rw [follow_end hplan]
            show _ = endScan node den (some (some nHeight, fDoubleCounted))
            rw [scanLoop, if_pos hstop, endScan]
            split_ifs with hinvalid
            · exact scanLoop_invalid node den skips hstop hinvalid turns fDoubleCounted
            · rfl
          · obtain ⟨next, hnext, hloop⟩ : ∃ next,
                scanPlan node nHeightStop (some nHeight, fDoubleCounted) =
                  some (nHeight, next) ∧
                scanLoop node den skips nHeightStop (turns + 1) (some nHeight)
                    fDoubleCounted = (do
                  addBlockMintsToAccumulator node den skips nHeight
                  scanLoop node den skips nHeightStop turns next.1 next.2) := by
              rw [scanLoop, scanPlan, if_neg hstop, if_neg hstop]
              by_cases hback : nHeight = 1050010 ∧ fDoubleCounted = false
              · rw [if_pos hback]
                exact ⟨_, rfl, by simp only [if_pos hback]⟩
              · rw [if_neg hback]
                exact ⟨_, rfl, by simp only [if_neg hback]⟩
            rw [hloop, follow_next hnext, ih, addBlocks, bind_assoc]

omit den skips in
theorem WitnessNode.indexAt_of_mem {nHeight : Int} (hlow : 0 ≤ nHeight)
    (hhigh : nHeight ≤ node.height) : node.indexAt nHeight = some nHeight := by
  unfold height at hhigh
  unfold indexAt blockAt
  rw [if_neg (by omega), List.getElem?_eq_getElem (by omega)]
  rfl

omit den skips in
theorem WitnessNode.indexAt_eq_some {nHeight nHeight' : Int}
    (h : node.indexAt nHeight = some nHeight') :
    nHeight' = nHeight ∧ 0 ≤ nHeight ∧ nHeight ≤ node.height := by
  unfold indexAt blockAt at h
  obtain ⟨pindex, hblock, rfl⟩ := Option.map_eq_some_iff.mp h
  split_ifs at hblock with hlow
  have hlt := (List.getElem?_eq_some_iff.mp hblock).1
  unfold height
  exact ⟨rfl, by omega, by omega⟩

omit den skips in
/-- The route over a stretch of the chain in which it does not turn back. -/
theorem follow_stretch {nHeight : Int} {n : Nat} {fDoubleCounted : Bool}
    (hlow : 0 ≤ nHeight) (htip : nHeight + n ≤ node.height + 1)
    (hstop : nHeight + n ≤ nHeightStop)
    (hturn : fDoubleCounted = true ∨ ∀ i : Nat, i < n → nHeight + i ≠ 1050010)
    (turns : Nat) :
    follow (scanPlan node nHeightStop) (n + turns)
        (node.indexAt nHeight, fDoubleCounted) =
      (heights nHeight (nHeight + n - 1) ++
        (follow (scanPlan node nHeightStop) turns
          (node.indexAt (nHeight + n), fDoubleCounted)).1,
        (follow (scanPlan node nHeightStop) turns
          (node.indexAt (nHeight + n), fDoubleCounted)).2) := by
  have hplan : ∀ i : Nat, i < n →
      scanPlan node nHeightStop (node.indexAt (nHeight + i), fDoubleCounted) =
        some (nHeight + i, (node.indexAt (nHeight + (i + 1 : Nat)), fDoubleCounted)) := by
    intro i hi
    have hback : ¬ (nHeight + i = 1050010 ∧ fDoubleCounted = false) := by
      rintro ⟨hat, hfirst⟩
      rcases hturn with htrue | hno
      · rw [hfirst] at htrue
        cases htrue
      · exact hno i hi hat
    rw [node.indexAt_of_mem (by omega) (by omega), scanPlan, if_neg (by omega),
      if_neg hback]
    congr 4
    omega
  have hroute := @follow_straight _ _ _
    (fun i : Nat => (node.indexAt (nHeight + i), fDoubleCounted))
    (fun i : Nat => nHeight + i) _ hplan turns
  have hheights : heights nHeight (nHeight + n - 1) =
      (List.range n).map fun (i : Nat) => nHeight + i := by
    unfold heights
    congr 2
    omega
  rw [hheights]
  simpa using hroute

/-- The heights that are added from one height up to another: those from 1050000
to 1050010 a second time if the scan comes to their end. -/
def scanHeights (first last : Int) : List Int :=
  if first ≤ 1050010 ∧ 1050010 < last then
    heights first 1050010 ++ heights 1050000 (last - 1)
  else heights first (last - 1)

omit den skips in
/-- **The route** of a scan that begins on the chain below its stop. -/
theorem follow_scan {nHeight : Int} (hlow : 0 ≤ nHeight) (htip : nHeight ≤ node.height)
    (hstop : nHeight < nHeightStop) :
    ∃ turns fDoubleCounted, follow (scanPlan node nHeightStop) turns
        (some nHeight, false) =
      (scanHeights nHeight (min nHeightStop (node.height + 1)),
        some (node.indexAt (min nHeightStop (node.height + 1)), fDoubleCounted)) := by
  obtain ⟨last, hlast⟩ : ∃ last, last = min nHeightStop (node.height + 1) := ⟨_, rfl⟩
  have hend : ∀ fDoubleCounted,
      follow (scanPlan node nHeightStop) 1 (node.indexAt last, fDoubleCounted) =
        ([], some (node.indexAt last, fDoubleCounted)) := by
    intro fDoubleCounted
    apply follow_end
    cases hindex : node.indexAt last with
    | none => rfl
    | some nHeight' =>
        obtain ⟨rfl, -, hle⟩ := node.indexAt_eq_some hindex
        exact if_pos (by omega)
  rw [← hlast, ← node.indexAt_of_mem hlow htip]
  unfold scanHeights
  split_ifs with hcross
  · -- the route turns back at 1050010, and goes on from 1050000
    obtain ⟨n, hn⟩ : ∃ n : Nat, nHeight + n = 1050010 := ⟨(1050010 - nHeight).toNat, by omega⟩
    obtain ⟨n', hn'⟩ : ∃ n' : Nat, 1050000 + (n' : Int) = last :=
      ⟨(last - 1050000).toNat, by omega⟩
    refine ⟨n + (1 + (n' + 1)), true, ?_⟩
    have hback : follow (scanPlan node nHeightStop) (1 + (n' + 1))
        (node.indexAt 1050010, false) =
          (1050010 :: (follow (scanPlan node nHeightStop) (n' + 1)
            (node.indexAt 1050000, true)).1,
            (follow (scanPlan node nHeightStop) (n' + 1)
              (node.indexAt 1050000, true)).2) := by
      rw [Nat.add_comm 1, node.indexAt_of_mem (by decide) (by omega)]
      apply follow_next
      rw [scanPlan, if_neg (by omega), if_pos ⟨rfl, rfl⟩]
    rw [follow_stretch node hlow (by omega) (by omega)
        (Or.inr fun i hi => by omega), hn, hback,
      follow_stretch node (by decide) (by omega) (by omega) (Or.inl rfl), hn', hend]
    have hheights : heights nHeight 1050010 =
        heights nHeight (1050010 - 1) ++ [1050010] := by
      unfold heights
      have hcount : (1050010 + 1 - nHeight).toNat =
          (1050010 - 1 + 1 - nHeight).toNat + 1 := by omega
      rw [hcount, List.range_succ, List.map_append, List.map_singleton]
      congr 2
      omega
    rw [hheights, List.append_nil, List.append_assoc]
    rfl
  · obtain ⟨n, hn⟩ : ∃ n : Nat, nHeight + n = last := ⟨(last - nHeight).toNat, by omega⟩
    refine ⟨n + 1, false, ?_⟩
    rw [follow_stretch node hlow (by omega) (by omega)
      (Or.inr fun i hi => by omega), hn, hend, List.append_nil]

/-- The heights a scan from `nHeight` adds. -/
def scanRoute (nHeightStop nHeight : Int) : List Int :=
  if nHeight ≥ nHeightStop then []
  else scanHeights nHeight (min nHeightStop (node.height + 1))

/-- Where it stops: at its stop height, or at the end of the chain, where there is
no block, or at once. -/
def scanPlace (nHeightStop nHeight : Int) : Option Int :=
  if nHeight ≥ nHeightStop then some nHeight
  else node.indexAt (min nHeightStop (node.height + 1))

/-- The whole scan. -/
def wholeScan (nHeightStop nHeight : Int) : EStateM Stop Scan (Option (Int × CBigNum)) := do
  addBlocks node den skips (scanRoute node nHeightStop nHeight)
  endScan node den (some (scanPlace node nHeightStop nHeight, false))

omit den skips in
theorem follow_scanRoute {nHeight : Int} (hlow : 0 ≤ nHeight) (htip : nHeight ≤ node.height) :
    ∃ turns fDoubleCounted, follow (scanPlan node nHeightStop) turns
        (some nHeight, false) =
      (scanRoute node nHeightStop nHeight,
        some (scanPlace node nHeightStop nHeight, fDoubleCounted)) := by
  unfold scanRoute scanPlace
  split_ifs with hstop
  · have hplan : scanPlan node nHeightStop (some nHeight, false) = none := if_pos hstop
    exact ⟨1, false, follow_end hplan 0⟩
  · exact follow_scan node hlow htip (not_le.mp hstop)

/-- **The loop**, in however many turns, is a part of the whole scan that has not
ended; in enough turns it is the whole scan. -/
theorem scanLoop_spec {nHeight : Int} (hlow : 0 ≤ nHeight) (htip : nHeight ≤ node.height) :
    (∃ turns, scanLoop node den skips nHeightStop turns (some nHeight) false =
      wholeScan node den skips nHeightStop nHeight) ∧
    ∀ turns, scanLoop node den skips nHeightStop turns (some nHeight) false =
        wholeScan node den skips nHeightStop nHeight ∨
      ∃ route, route <+: scanRoute node nHeightStop nHeight ∧
        scanLoop node den skips nHeightStop turns (some nHeight) false = (do
          addBlocks node den skips route
          throw .running) := by
  obtain ⟨turns, fDoubleCounted, hfollow⟩ :=
    @follow_scanRoute node nHeightStop nHeight hlow htip
  have hflag : ∀ p fDoubleCounted, endScan node den (some (p, fDoubleCounted)) =
      endScan node den (some (p, false)) := by
    intro p fDoubleCounted
    cases p with
    | none => rfl
    | some h => rfl
  have hwhole : ∀ turns, (follow (scanPlan node nHeightStop) turns (some nHeight, false)) =
      (scanRoute node nHeightStop nHeight,
        some (scanPlace node nHeightStop nHeight, fDoubleCounted)) →
      scanLoop node den skips nHeightStop turns (some nHeight) false =
        wholeScan node den skips nHeightStop nHeight := by
    intro turns hturns
    rw [scanLoop_eq, hturns]
    dsimp only
    rw [hflag]
    rfl
  refine ⟨⟨turns, hwhole turns hfollow⟩, fun turns' => ?_⟩
  cases hend : (follow (scanPlan node nHeightStop) turns' (some nHeight, false)).2 with
  | none =>
      refine Or.inr ⟨(follow (scanPlan node nHeightStop) turns' (some nHeight, false)).1, ?_, ?_⟩
      · have hends : (follow (scanPlan node nHeightStop) turns (some nHeight, false)).2 =
            some (scanPlace node nHeightStop nHeight, fDoubleCounted) := by rw [hfollow]
        have hprefix := @follow_prefix_of_ends _ _ _ turns turns' _ _ hends
        rwa [hfollow] at hprefix
      · rw [scanLoop_eq, hend]
        rfl
  | some last =>
      -- both have ended, so they have gone the same way
      have hsame : follow (scanPlan node nHeightStop) turns' (some nHeight, false) =
          follow (scanPlan node nHeightStop) turns (some nHeight, false) := by
        have hends : (follow (scanPlan node nHeightStop) turns (some nHeight, false)).2 =
            some (scanPlace node nHeightStop nHeight, fDoubleCounted) := by rw [hfollow]
        rw [← follow_ends hend turns, ← follow_ends hends turns', Nat.add_comm]
      exact Or.inl (hwhole turns' (hsame.trans hfollow))

omit den skips in
theorem mem_heights {first last h : Int} : h ∈ heights first last ↔ first ≤ h ∧ h ≤ last := by
  unfold heights
  rw [List.mem_map]
  constructor
  · rintro ⟨i, hi, rfl⟩
    have := List.mem_range.mp hi
    omega
  · rintro ⟨hlow, hhigh⟩
    exact ⟨(h - first).toNat, List.mem_range.mpr (by omega), by omega⟩

omit den skips in
theorem scanRoute_onChain {nHeight : Int} (hlow : 0 ≤ nHeight) :
    ∀ h ∈ scanRoute node nHeightStop nHeight, node.blockAt h ≠ none := by
  intro h hmem
  have hbounds : 0 ≤ h ∧ h ≤ node.height := by
    unfold scanRoute scanHeights at hmem
    split_ifs at hmem with hstop hcross
    · cases hmem
    · rw [List.mem_append, mem_heights, mem_heights] at hmem
      omega
    · rw [mem_heights] at hmem
      omega
  have hindex := node.indexAt_of_mem hbounds.1 hbounds.2
  intro hnone
  rw [WitnessNode.indexAt, hnone] at hindex
  cases hindex

end Route

/-! ## The work along a route -/

section Work

variable (node : WitnessNode) (den : CoinDenomination)
  (skips : Int → PublicCoin → Bool)

/-- Such a block whose mints are not got. -/
def Unreadable (nHeight : Int) : Prop :=
  ∃ pindex message, node.blockAt nHeight = some pindex ∧
    pindex.mintedDenomination den = true ∧ pindex.pubcoins = .error message

/-- The mints that a block adds. -/
def addedAt (nHeight : Int) : List PublicCoin :=
  match node.blockAt nHeight with
  | none => []
  | some pindex =>
      if pindex.mintedDenomination den then
        match pindex.pubcoins with
        | .error _ => []
        | .ok pubcoins => pubcoins.filter fun pubcoin =>
            pubcoin.denomination = den ∧ skips nHeight pubcoin = false
      else []

/-- The blocks of a route that are read: those with a mint of the denomination, up
to the first that is not got. -/
def blocksToRead : List Int → List Int
  | [] => []
  | nHeight :: rest =>
      match node.blockAt nHeight with
      | none => []
      | some pindex =>
          if pindex.mintedDenomination den then
            match pindex.pubcoins with
            | .error _ => [nHeight]
            | .ok _ => nHeight :: blocksToRead rest
          else blocksToRead rest

/-- The value of an accumulator after some coins. -/
def accumulate (value : CBigNum) (pubcoins : List PublicCoin) : CBigNum :=
  pubcoins.foldl (fun value pubcoin => node.powMod value pubcoin.value) value

/-- What has been added to a scan, and read for it. -/
structure Added (s : Scan) (pubcoins : List PublicCoin) (blocks : List Int)
    (s' : Scan) : Prop where
  value : s'.witnessValue = accumulate node s.witnessValue pubcoins
  count : s'.nMintsAdded = s.nMintsAdded + pubcoins.length
  read : s'.blocksRead = s.blocksRead ++ blocks

theorem added_nil (s : Scan) : Added node s [] [] s :=
  ⟨rfl, rfl, (List.append_nil _).symm⟩

theorem Added.trans {s s' s'' : Scan} {pubcoins pubcoins' : List PublicCoin}
    {blocks blocks' : List Int} (h : Added node s pubcoins blocks s')
    (h' : Added node s' pubcoins' blocks' s'') :
    Added node s (pubcoins ++ pubcoins') (blocks ++ blocks') s'' := by
  refine ⟨?_, ?_, ?_⟩
  · rw [h'.value, h.value]
    unfold accumulate
    rw [List.foldl_append]
  · rw [h'.count, h.count, List.length_append, Nat.add_assoc]
  · rw [h'.read, h.read, List.append_assoc]

theorem added_addMint (nHeight : Int) (s : Scan) (pubcoins : List PublicCoin) :
    Added node s
      (pubcoins.filter fun pubcoin =>
        pubcoin.denomination = den ∧ skips nHeight pubcoin = false) []
      (pubcoins.foldl (addMint node den skips nHeight) s) := by
  induction pubcoins generalizing s with
  | nil => exact added_nil node s
  | cons pubcoin pubcoins ih =>
      have hrest := ih (addMint node den skips nHeight s pubcoin)
      rw [List.foldl_cons]
      by_cases hadds : pubcoin.denomination = den ∧ skips nHeight pubcoin = false
      · have hone : Added node s [pubcoin] [] (addMint node den skips nHeight s pubcoin) := by
          unfold addMint
          rw [if_neg (not_not.mpr hadds.1), if_neg (by simp [hadds.2])]
          exact ⟨rfl, rfl, (List.append_nil _).symm⟩
        rw [List.filter_cons_of_pos (by simpa using hadds)]
        exact hone.trans node hrest
      · have hnone : Added node s [] [] (addMint node den skips nHeight s pubcoin) := by
          unfold addMint
          split_ifs with hden hskip
          · exact added_nil node s
          · exact ⟨rfl, rfl, (List.append_nil _).symm⟩
          · exact absurd ⟨not_not.mp hden, by simpa using hskip⟩ hadds
        rw [List.filter_cons_of_neg (by simpa using hadds)]
        exact hnone.trans node hrest

/-- What the work along a route comes to. -/
def WorkDone (s : Scan) (route : List Int) : EStateM.Result Stop Scan Unit → Prop :=
  Outcome
    (fun e s' => (∃ message, e = .getPubcoinException message) ∧
      (∃ nHeight ∈ route, Unreadable node den nHeight) ∧
      s'.blocksRead = s.blocksRead ++ blocksToRead node den route)
    (fun _ s' => (∀ nHeight ∈ route, ¬ Unreadable node den nHeight) ∧
      Added node s (route.flatMap (addedAt node den skips)) (blocksToRead node den route) s')

/-- **The work along a route** adds the mints of its blocks, and reads those with
mints; it ends at the first that cannot be read. -/
theorem outcome_addBlocks {route : List Int}
    (hroute : ∀ nHeight ∈ route, node.blockAt nHeight ≠ none) (s : Scan) :
    WorkDone node den skips s route ((addBlocks node den skips route).run s) := by
  induction route generalizing s with
  | nil =>
      exact ⟨fun nHeight hmem => absurd hmem List.not_mem_nil, added_nil node s⟩
  | cons nHeight rest ih =>
      have hrest := fun s => ih (fun h hmem => hroute h (List.mem_cons_of_mem _ hmem)) s
      obtain ⟨pindex, hblock⟩ :=
        Option.ne_none_iff_exists'.mp (hroute nHeight List.mem_cons_self)
      -- the work at the first block, if it is got
      have hgo : ∀ s', ¬ Unreadable node den nHeight →
          ∀ blocks, blocksToRead node den (nHeight :: rest) =
            blocks ++ blocksToRead node den rest →
          Added node s (addedAt node den skips nHeight) blocks s' →
          (addBlockMintsToAccumulator node den skips nHeight).run s = .ok () s' →
          WorkDone node den skips s (nHeight :: rest)
            ((addBlocks node den skips (nHeight :: rest)).run s) := by
        intro s' hgot blocks hblocks hadded hrun
        have hrest' := hrest s'
        rw [addBlocks, run_bind_of_ok hrun]
        unfold WorkDone at hrest' ⊢
        cases hlast : (addBlocks node den skips rest).run s' with
        | ok u send =>
            rw [hlast] at hrest'
            obtain ⟨hreadable, hadded'⟩ := hrest'
            refine ⟨?_, ?_⟩
            · intro h hmem
              rcases List.mem_cons.mp hmem with rfl | hmem
              · exact hgot
              · exact hreadable h hmem
            · rw [hblocks, List.flatMap_cons]
              exact hadded.trans node hadded'
        | error e send =>
            rw [hlast] at hrest'
            obtain ⟨hthrown, ⟨h, hmem, hbad⟩, hread⟩ := hrest'
            refine ⟨hthrown, ⟨h, List.mem_cons_of_mem _ hmem, hbad⟩, ?_⟩
            rw [hread, hadded.read, hblocks, List.append_assoc]
      by_cases hminted : pindex.mintedDenomination den = true
      · cases hcoins : pindex.pubcoins with
        | ok pubcoins =>
            refine hgo (pubcoins.foldl (addMint node den skips nHeight)
              { s with blocksRead := s.blocksRead ++ [nHeight] }) ?_ [nHeight] ?_ ?_ ?_
            · rintro ⟨pindex', message, hblock', -, herror⟩
              obtain rfl := Option.some.inj (hblock.symm.trans hblock')
              rw [hcoins] at herror
              cases herror
            · rw [blocksToRead, hblock]
              dsimp only
              rw [if_pos hminted, hcoins]
              rfl
            · have hread : Added node s [] [nHeight]
                  { s with blocksRead := s.blocksRead ++ [nHeight] } := ⟨rfl, rfl, rfl⟩
              have hfold := hread.trans node
                (added_addMint node den skips nHeight
                  { s with blocksRead := s.blocksRead ++ [nHeight] } pubcoins)
              unfold addedAt
              rw [hblock]
              dsimp only
              rw [if_pos hminted, hcoins]
              exact hfold
            · unfold addBlockMintsToAccumulator
              rw [hblock]
              dsimp only
              rw [if_pos hminted, hcoins]
              rfl
        | error message =>
            have hrun : (addBlocks node den skips (nHeight :: rest)).run s =
                .error (.getPubcoinException message)
                  { s with blocksRead := s.blocksRead ++ [nHeight] } := by
              rw [addBlocks, EStateM.run_bind]
              unfold addBlockMintsToAccumulator
              rw [hblock]
              dsimp only
              rw [if_pos hminted, hcoins]
              rfl
            rw [hrun]
            refine ⟨⟨message, rfl⟩,
              ⟨nHeight, List.mem_cons_self, pindex, message, hblock, hminted, hcoins⟩, ?_⟩
            rw [blocksToRead, hblock]
            dsimp only
            rw [if_pos hminted, hcoins]
      · refine hgo s ?_ [] ?_ ?_ ?_
        · rintro ⟨pindex', message, hblock', hminted', -⟩
          obtain rfl := Option.some.inj (hblock.symm.trans hblock')
          exact hminted hminted'
        · rw [blocksToRead, hblock]
          dsimp only
          rw [if_neg hminted]
          rfl
        · unfold addedAt
          rw [hblock]
          dsimp only
          rw [if_neg hminted]
          exact added_nil node s
        · unfold addBlockMintsToAccumulator
          rw [hblock]
          dsimp only
          rw [if_neg hminted]
          rfl

/-- What is read along a part of a route is a part of what is read along it. -/
theorem blocksToRead_mono {route route' : List Int} (h : route <+: route') :
    blocksToRead node den route <+: blocksToRead node den route' := by
  induction route generalizing route' with
  | nil => exact List.nil_prefix
  | cons nHeight rest ih =>
      obtain ⟨rest', rfl⟩ := h
      have hrest := ih (List.prefix_append rest rest')
      rw [List.cons_append, blocksToRead, blocksToRead]
      split
      · exact List.prefix_refl _
      · split_ifs
        · split
          · exact List.prefix_refl _
          · exact List.cons_prefix_cons.mpr ⟨rfl, hrest⟩
        · exact hrest

end Work

/-! ## The whole calculation -/

section Calculation

variable (node : WitnessNode) (den : CoinDenomination)
  (skips : Int → PublicCoin → Bool) (nHeightStop : Int)

/-- The heights that are added from `pindex` on. -/
def routeFrom : Option Int → List Int
  | none => []
  | some nHeight => scanRoute node nHeightStop nHeight

/-- Where the scan from `pindex` stops. -/
def placeFrom : Option Int → Option Int
  | none => none
  | some nHeight => scanPlace node nHeightStop nHeight

/-- What is left to do where a scan has stopped. -/
def endCalculation (place : Option Int) : EStateM Stop Scan (Option (Int × CBigNum)) := do
  let stopped ← endScan node den (some (place, false))
  let s ← get
  if s.nMintsAdded < zerocoinRequiredAccumulation then
    throw (.notEnoughMintsException "Less than 1 mints added, unable to create spend")
  else pure stopped

/-- The whole calculation. -/
def wholeCalculation (pindex : Option Int) : EStateM Stop Scan (Option (Int × CBigNum)) := do
  addBlocks node den skips (routeFrom node nHeightStop pindex)
  endCalculation node den (placeFrom node nHeightStop pindex)

/-- **The calculation**, in however many turns, is a part of the whole one that has
not ended; in enough turns it is the whole one. -/
theorem calculate_spec (nHeight : Int) :
    (∃ turns, calculateAccumulatedBlocksFor node den skips turns nHeightStop
        (node.indexAt nHeight) =
      wholeCalculation node den skips nHeightStop (node.indexAt nHeight)) ∧
    ∀ turns, calculateAccumulatedBlocksFor node den skips turns nHeightStop
          (node.indexAt nHeight) =
        wholeCalculation node den skips nHeightStop (node.indexAt nHeight) ∨
      ∃ route, route <+: routeFrom node nHeightStop (node.indexAt nHeight) ∧
        calculateAccumulatedBlocksFor node den skips turns nHeightStop
            (node.indexAt nHeight) = (do
          addBlocks node den skips route
          throw .running) := by
  cases hindex : node.indexAt nHeight with
  | none =>
      refine ⟨⟨1, rfl⟩, fun turns => ?_⟩
      cases turns with
      | zero => exact Or.inr ⟨[], List.nil_prefix, rfl⟩
      | succ turns => exact Or.inl rfl
  | some nHeight' =>
      obtain ⟨rfl, hlow, htip⟩ := node.indexAt_eq_some hindex
      obtain ⟨⟨turns, hwhole⟩, hpart⟩ :=
        @scanLoop_spec node den skips nHeightStop nHeight' hlow htip
      have hcalc : ∀ turns, scanLoop node den skips nHeightStop turns (some nHeight') false =
            wholeScan node den skips nHeightStop nHeight' →
          calculateAccumulatedBlocksFor node den skips turns nHeightStop (some nHeight') =
            wholeCalculation node den skips nHeightStop (some nHeight') := by
        intro turns hturns
        unfold calculateAccumulatedBlocksFor wholeCalculation endCalculation
        rw [hturns, wholeScan, bind_assoc]
        rfl
      refine ⟨⟨turns, hcalc turns hwhole⟩, fun turns' => ?_⟩
      rcases hpart turns' with hturns | ⟨route, hroute, hturns⟩
      · exact Or.inl (hcalc turns' hturns)
      · refine Or.inr ⟨route, hroute, ?_⟩
        unfold calculateAccumulatedBlocksFor
        rw [hturns, bind_assoc]
        rfl

theorem routeFrom_onChain (nHeight : Int) :
    ∀ h ∈ routeFrom node nHeightStop (node.indexAt nHeight), node.blockAt h ≠ none := by
  cases hindex : node.indexAt nHeight with
  | none => exact fun h hmem => absurd hmem List.not_mem_nil
  | some nHeight' =>
      obtain ⟨rfl, hlow, -⟩ := node.indexAt_eq_some hindex
      exact @scanRoute_onChain node nHeightStop nHeight' hlow

variable {node den skips}

/-- A block that cannot be read ends the work along a route. -/
theorem run_addBlocks_unreadable {route : List Int}
    (hroute : ∀ nHeight ∈ route, node.blockAt nHeight ≠ none)
    (hbad : ∃ nHeight ∈ route, Unreadable node den nHeight) (s : Scan) :
    ∃ message s', (addBlocks node den skips route).run s =
        .error (.getPubcoinException message) s' ∧
      s'.blocksRead = s.blocksRead ++ blocksToRead node den route := by
  have hwork := outcome_addBlocks node den skips hroute s
  unfold WorkDone at hwork
  cases hrun : (addBlocks node den skips route).run s with
  | ok u s' =>
      rw [hrun] at hwork
      obtain ⟨nHeight, hmem, hunreadable⟩ := hbad
      exact absurd hunreadable (hwork.1 nHeight hmem)
  | error e s' =>
      rw [hrun] at hwork
      obtain ⟨⟨message, rfl⟩, -, hread⟩ := hwork
      exact ⟨message, s', rfl, hread⟩

/-- Without one the work is done. -/
theorem run_addBlocks_readable {route : List Int}
    (hroute : ∀ nHeight ∈ route, node.blockAt nHeight ≠ none)
    (hgood : ¬ ∃ nHeight ∈ route, Unreadable node den nHeight) (s : Scan) :
    ∃ s', (addBlocks node den skips route).run s = .ok () s' ∧
      Added node s (route.flatMap (addedAt node den skips))
        (blocksToRead node den route) s' := by
  have hwork := outcome_addBlocks node den skips hroute s
  unfold WorkDone at hwork
  cases hrun : (addBlocks node den skips route).run s with
  | ok u s' =>
      rw [hrun] at hwork
      exact ⟨s', rfl, hwork.2⟩
  | error e s' =>
      rw [hrun] at hwork
      exact absurd hwork.2.1 hgood

/-- What has been read, whatever the work came to. -/
theorem run_addBlocks_read {route : List Int}
    (hroute : ∀ nHeight ∈ route, node.blockAt nHeight ≠ none) (s : Scan) :
    Outcome (fun _ s' => s'.blocksRead = s.blocksRead ++ blocksToRead node den route)
      (fun _ s' => s'.blocksRead = s.blocksRead ++ blocksToRead node den route)
      ((addBlocks node den skips route).run s) := by
  by_cases hbad : ∃ nHeight ∈ route, Unreadable node den nHeight
  · obtain ⟨message, s', hrun, hread⟩ :=
      @run_addBlocks_unreadable node den skips route hroute hbad s
    rw [hrun]
    exact hread
  · obtain ⟨s', hrun, hadded⟩ :=
      @run_addBlocks_readable node den skips route hroute hbad s
    rw [hrun]
    exact hadded.read

variable (node den)

/-- What a scan gives at the place where it has stopped. -/
def stopValue : Option Int → Except Stop (Option (Int × CBigNum))
  | none => .ok none
  | some nHeight =>
      if invalidCheckpointRange node.params nHeight then .error .running
      else
        match node.blockAt (nHeight + 10) with
        | none => .error .nullPointer
        | some pindex =>
            let bnAccValue := getAccumulatorValueFromDB node pindex.nAccumulatorCheckpoint den
            if bnAccValue = 0 then
              .error (.checksumNotFoundPointer
                "calculateAccumulatedBlocksFor : failed to find checksum in database for accumulator")
            else .ok (some (nHeight, bnAccValue))

/-- What a calculation gives there. -/
def calculationEnd (nMintsAdded : Nat) (place : Option Int) :
    Except Stop (Option (Int × CBigNum)) := do
  let stopped ← stopValue node den place
  if nMintsAdded < zerocoinRequiredAccumulation then
    .error (.notEnoughMintsException "Less than 1 mints added, unable to create spend")
  else .ok stopped

theorem run_endScan (place : Option Int) (s : Scan) :
    (endScan node den (some (place, false))).run s =
      match stopValue node den place with
      | .ok stopped => .ok stopped s
      | .error e => .error e s := by
  cases place with
  | none => rfl
  | some nHeight =>
      unfold endScan stopValue
      dsimp only
      by_cases hinvalid : invalidCheckpointRange node.params nHeight = true
      · rw [if_pos hinvalid, if_pos hinvalid]
        rfl
      · rw [if_neg hinvalid, if_neg hinvalid, stopScan]
        cases node.blockAt (nHeight + 10) with
        | none => rfl
        | some pindex =>
            dsimp only
            split_ifs
            · rfl
            · rfl

theorem run_endCalculation (place : Option Int) (s : Scan) :
    (endCalculation node den place).run s =
      match calculationEnd node den s.nMintsAdded place with
      | .ok stopped => .ok stopped s
      | .error e => .error e s := by
  have hscan := run_endScan node den place s
  unfold endCalculation calculationEnd
  rw [EStateM.run_bind, hscan]
  cases stopValue node den place with
  | error e => rfl
  | ok stopped =>
      show (if s.nMintsAdded < zerocoinRequiredAccumulation then
        throw (.notEnoughMintsException "Less than 1 mints added, unable to create spend")
        else pure stopped : EStateM Stop Scan (Option (Int × CBigNum))).run s =
          match (if s.nMintsAdded < zerocoinRequiredAccumulation then
            .error (.notEnoughMintsException "Less than 1 mints added, unable to create spend")
            else .ok stopped : Except Stop (Option (Int × CBigNum))) with
          | .ok stopped => .ok stopped s
          | .error e => .error e s
      split_ifs
      · rfl
      · rfl

variable (skips)

/-- The blocks that a scan has read. -/
def readsOf {α : Type} : EStateM.Result Stop Scan α → List Int
  | .ok _ s => s.blocksRead
  | .error _ s => s.blocksRead

/-- A run that has come to an end. -/
def Ended {σ α : Type} : EStateM.Result Stop σ α → Prop :=
  Outcome (fun e _ => e ≠ .running) fun _ _ => True

/-- A block between the start of a calculation and its stop cannot be read. -/
def UnreadableFrom (pindex : Option Int) : Prop :=
  ∃ nHeight ∈ routeFrom node nHeightStop pindex, Unreadable node den nHeight

/-- **The whole calculation**, with a block that cannot be read. -/
theorem run_wholeCalculation_unreadable {nHeight : Int}
    (hbad : UnreadableFrom node den nHeightStop (node.indexAt nHeight)) (s : Scan) :
    ∃ message s', (wholeCalculation node den skips nHeightStop (node.indexAt nHeight)).run s =
        .error (.getPubcoinException message) s' ∧
      s'.blocksRead = s.blocksRead ++
        blocksToRead node den (routeFrom node nHeightStop (node.indexAt nHeight)) := by
  obtain ⟨message, s', hrun, hread⟩ := @run_addBlocks_unreadable node den skips _
    (routeFrom_onChain node nHeightStop nHeight) hbad s
  refine ⟨message, s', ?_, hread⟩
  rw [wholeCalculation, EStateM.run_bind, hrun]

/-- **The whole calculation**, with all its blocks read. -/
theorem run_wholeCalculation_readable {nHeight : Int}
    (hgood : ¬ UnreadableFrom node den nHeightStop (node.indexAt nHeight)) (s : Scan) :
    ∃ s', Added node s
        ((routeFrom node nHeightStop (node.indexAt nHeight)).flatMap (addedAt node den skips))
        (blocksToRead node den (routeFrom node nHeightStop (node.indexAt nHeight))) s' ∧
      (wholeCalculation node den skips nHeightStop (node.indexAt nHeight)).run s =
        match calculationEnd node den s'.nMintsAdded
            (placeFrom node nHeightStop (node.indexAt nHeight)) with
        | .ok stopped => .ok stopped s'
        | .error e => .error e s' := by
  obtain ⟨s', hrun, hadded⟩ := @run_addBlocks_readable node den skips _
    (routeFrom_onChain node nHeightStop nHeight) hgood s
  refine ⟨s', hadded, ?_⟩
  rw [wholeCalculation, run_bind_of_ok hrun, run_endCalculation]

theorem stopValue_running_iff (place : Option Int) :
    stopValue node den place = .error .running ↔
      ∃ nHeight, place = some nHeight ∧
        invalidCheckpointRange node.params nHeight = true := by
  unfold stopValue
  cases place with
  | none =>
      refine iff_of_false (fun h => by cases h) ?_
      rintro ⟨nHeight, hplace, -⟩
      cases hplace
  | some nHeight =>
      dsimp only
      by_cases hinvalid : invalidCheckpointRange node.params nHeight = true
      · rw [if_pos hinvalid]
        exact iff_of_true rfl ⟨nHeight, rfl, hinvalid⟩
      · rw [if_neg hinvalid]
        refine iff_of_false ?_ ?_
        · cases node.blockAt (nHeight + 10) with
          | none => exact fun h => by cases h
          | some pindex =>
              dsimp only
              split_ifs
              · exact fun h => by cases h
              · exact fun h => by cases h
        · rintro ⟨nHeight', hplace, hinvalid'⟩
          obtain rfl := Option.some.inj hplace
          exact hinvalid hinvalid'

/-- The end of a calculation goes on for ever just in the invalid range. -/
theorem calculationEnd_running_iff (nMintsAdded : Nat) (place : Option Int) :
    calculationEnd node den nMintsAdded place = .error .running ↔
      ∃ nHeight, place = some nHeight ∧
        invalidCheckpointRange node.params nHeight = true := by
  rw [← stopValue_running_iff node den place]
  unfold calculationEnd
  cases stopValue node den place with
  | error e => exact ⟨fun h => by cases h; rfl, fun h => by cases h; rfl⟩
  | ok stopped =>
      refine iff_of_false ?_ (fun h => by cases h)
      show (if nMintsAdded < zerocoinRequiredAccumulation then
        .error (.notEnoughMintsException "Less than 1 mints added, unable to create spend")
        else .ok stopped) ≠ (.error .running : Except Stop (Option (Int × CBigNum)))
      split_ifs
      · exact fun h => by cases h
      · exact fun h => by cases h

theorem calculationEnd_ok_iff {nMintsAdded : Nat} {place : Option Int}
    {stopped : Option (Int × CBigNum)} :
    calculationEnd node den nMintsAdded place = .ok stopped ↔
      stopValue node den place = .ok stopped ∧
        zerocoinRequiredAccumulation ≤ nMintsAdded := by
  unfold calculationEnd
  cases stopValue node den place with
  | error e => exact ⟨fun h => (by cases h), fun h => (by cases h.1)⟩
  | ok stopped' =>
      show (if nMintsAdded < zerocoinRequiredAccumulation then
        .error (.notEnoughMintsException "Less than 1 mints added, unable to create spend")
        else .ok stopped') = (.ok stopped : Except Stop (Option (Int × CBigNum))) ↔ _
      split_ifs with hfew
      · exact ⟨fun h => (by cases h), fun h => absurd h.2 (not_le.mpr hfew)⟩
      · exact ⟨fun h => ⟨h, not_lt.mp hfew⟩, fun h => h.1⟩

theorem readsOf_wholeCalculation (nHeight : Int) (s : Scan) :
    readsOf ((wholeCalculation node den skips nHeightStop (node.indexAt nHeight)).run s) =
      s.blocksRead ++
        blocksToRead node den (routeFrom node nHeightStop (node.indexAt nHeight)) := by
  by_cases hbad : UnreadableFrom node den nHeightStop (node.indexAt nHeight)
  · obtain ⟨message, s', hrun, hread⟩ :=
      @run_wholeCalculation_unreadable node den skips nHeightStop nHeight hbad s
    rw [hrun]
    exact hread
  · obtain ⟨s', hadded, hrun⟩ :=
      @run_wholeCalculation_readable node den skips nHeightStop nHeight hbad s
    rw [hrun, ← hadded.read]
    split
    · rfl
    · rfl

/-- It comes to an end if a block cannot be read, or if it does not stop in the
invalid range. -/
theorem ended_wholeCalculation (nHeight : Int) (s : Scan) :
    Ended ((wholeCalculation node den skips nHeightStop (node.indexAt nHeight)).run s) ↔
      UnreadableFrom node den nHeightStop (node.indexAt nHeight) ∨
        ∀ place, placeFrom node nHeightStop (node.indexAt nHeight) = some place →
          invalidCheckpointRange node.params place = false := by
  by_cases hbad : UnreadableFrom node den nHeightStop (node.indexAt nHeight)
  · obtain ⟨message, s', hrun, -⟩ :=
      @run_wholeCalculation_unreadable node den skips nHeightStop nHeight hbad s
    rw [hrun]
    exact iff_of_true (fun h => by cases h) (Or.inl hbad)
  · obtain ⟨s', -, hrun⟩ :=
      @run_wholeCalculation_readable node den skips nHeightStop nHeight hbad s
    rw [hrun, or_iff_right hbad]
    have hforever := calculationEnd_running_iff node den s'.nMintsAdded
      (placeFrom node nHeightStop (node.indexAt nHeight))
    have hended : Ended (match calculationEnd node den s'.nMintsAdded
          (placeFrom node nHeightStop (node.indexAt nHeight)) with
        | .ok stopped => EStateM.Result.ok stopped s'
        | .error e => .error e s') ↔
        calculationEnd node den s'.nMintsAdded
          (placeFrom node nHeightStop (node.indexAt nHeight)) ≠ .error .running := by
      cases calculationEnd node den s'.nMintsAdded
          (placeFrom node nHeightStop (node.indexAt nHeight)) with
      | ok stopped => exact iff_of_true trivial (fun h => by cases h)
      | error e => exact not_congr ⟨fun h => by rw [h], fun h => by cases h; rfl⟩
    rw [hended, ne_eq, hforever]
    constructor
    · intro h place hplace
      exact Bool.eq_false_iff.mpr fun hinvalid => h ⟨place, hplace, hinvalid⟩
    · rintro h ⟨place, hplace, hinvalid⟩
      rw [h place hplace] at hinvalid
      cases hinvalid

/-- A calculation of so many turns reads no more than the whole one. -/
theorem readsOf_calculate (nHeight : Int) (turns : Nat) (s : Scan) :
    readsOf ((calculateAccumulatedBlocksFor node den skips turns nHeightStop
      (node.indexAt nHeight)).run s) <+:
        s.blocksRead ++
          blocksToRead node den (routeFrom node nHeightStop (node.indexAt nHeight)) := by
  rcases (calculate_spec node den skips nHeightStop nHeight).2 turns with
    hwhole | ⟨route, hroute, hpart⟩
  · rw [hwhole, readsOf_wholeCalculation]
  · have honChain : ∀ h ∈ route, node.blockAt h ≠ none := fun h hmem =>
      routeFrom_onChain node nHeightStop nHeight h (hroute.subset hmem)
    have hread := @run_addBlocks_read node den skips route honChain s
    have hreads : readsOf ((addBlocks node den skips route >>= fun _ =>
        (throw .running : EStateM Stop Scan (Option (Int × CBigNum)))).run s) =
        s.blocksRead ++ blocksToRead node den route := by
      rw [EStateM.run_bind]
      cases hrun : (addBlocks node den skips route).run s with
      | ok u s' =>
          rw [hrun] at hread
          exact hread
      | error e s' =>
          rw [hrun] at hread
          exact hread
    rw [hpart, hreads]
    exact List.prefix_append_right_inj _ |>.mpr (blocksToRead_mono node den hroute)

/-- It comes to an end in some number of turns just if the whole one does. -/
theorem ended_calculate (nHeight : Int) (s : Scan) :
    (∃ turns, Ended ((calculateAccumulatedBlocksFor node den skips turns nHeightStop
        (node.indexAt nHeight)).run s)) ↔
      Ended ((wholeCalculation node den skips nHeightStop (node.indexAt nHeight)).run s) := by
  obtain ⟨⟨enough, henough⟩, hpart⟩ := calculate_spec node den skips nHeightStop nHeight
  constructor
  · rintro ⟨turns, hended⟩
    rcases hpart turns with hwhole | ⟨route, hroute, hroute'⟩
    · rwa [hwhole] at hended
    · -- a part ends only at a block that cannot be read
      rw [ended_wholeCalculation]
      left
      by_contra hgood
      have hgood' : ¬ ∃ h ∈ route, Unreadable node den h := by
        rintro ⟨h, hmem, hbad⟩
        exact hgood ⟨h, hroute.subset hmem, hbad⟩
      obtain ⟨s', hrun, -⟩ := @run_addBlocks_readable node den skips route
        (fun h hmem => routeFrom_onChain node nHeightStop nHeight h (hroute.subset hmem))
        hgood' s
      rw [hroute', run_bind_of_ok hrun] at hended
      exact hended rfl
  · intro hended
    exact ⟨enough, by rwa [henough]⟩

/-- A calculation that gives a value has added enough mints, and stopped. -/
theorem calculate_ok {nHeight : Int} {turns : Nat} {s s' : Scan}
    {stopped : Option (Int × CBigNum)}
    (h : (calculateAccumulatedBlocksFor node den skips turns nHeightStop
      (node.indexAt nHeight)).run s = .ok stopped s') :
    ¬ UnreadableFrom node den nHeightStop (node.indexAt nHeight) ∧
    Added node s
      ((routeFrom node nHeightStop (node.indexAt nHeight)).flatMap (addedAt node den skips))
      (blocksToRead node den (routeFrom node nHeightStop (node.indexAt nHeight))) s' ∧
    zerocoinRequiredAccumulation ≤ s'.nMintsAdded ∧
    stopValue node den (placeFrom node nHeightStop (node.indexAt nHeight)) = .ok stopped := by
  rcases (calculate_spec node den skips nHeightStop nHeight).2 turns with
    hwhole | ⟨route, -, hpart⟩
  · rw [hwhole] at h
    have hgood : ¬ UnreadableFrom node den nHeightStop (node.indexAt nHeight) := by
      intro hbad
      obtain ⟨message, s'', hrun, -⟩ :=
        @run_wholeCalculation_unreadable node den skips nHeightStop nHeight hbad s
      rw [h] at hrun
      cases hrun
    obtain ⟨s'', hadded, hrun⟩ :=
      @run_wholeCalculation_readable node den skips nHeightStop nHeight hgood s
    rw [h] at hrun
    cases hend : calculationEnd node den s''.nMintsAdded
        (placeFrom node nHeightStop (node.indexAt nHeight)) with
    | error e =>
        rw [hend] at hrun
        cases hrun
    | ok stopped' =>
        rw [hend] at hrun
        obtain ⟨rfl, rfl⟩ := EStateM.Result.ok.inj hrun
        obtain ⟨hvalue, henough⟩ := (calculationEnd_ok_iff node den).mp hend
        exact ⟨hgood, hadded, henough, hvalue⟩
  · -- a part that has not ended gives nothing
    rw [hpart, EStateM.run_bind] at h
    cases hrun : (addBlocks node den skips route).run s with
    | ok u s'' =>
        rw [hrun] at h
        cases h
    | error e s'' =>
        rw [hrun] at h
        cases h

/-- A scan that has added something stops at its stop height, or at the end of the
chain. -/
theorem placeFrom_of_route {nHeight : Int}
    (h : routeFrom node nHeightStop (node.indexAt nHeight) ≠ []) :
    placeFrom node nHeightStop (node.indexAt nHeight) =
        node.indexAt (min nHeightStop (node.height + 1)) ∧
      0 ≤ nHeight ∧ nHeight < nHeightStop := by
  cases hindex : node.indexAt nHeight with
  | none =>
      rw [hindex] at h
      exact absurd rfl h
  | some nHeight' =>
      obtain ⟨rfl, hlow, -⟩ := node.indexAt_eq_some hindex
      rw [hindex] at h
      change scanRoute node nHeightStop nHeight' ≠ [] at h
      show scanPlace node nHeightStop nHeight' = _ ∧ _
      unfold scanRoute at h
      unfold scanPlace
      split_ifs at h ⊢ with hstop
      · exact absurd rfl h
      · exact ⟨rfl, hlow, not_le.mp hstop⟩

omit den skips nHeightStop in
theorem addBlocks_append (den : CoinDenomination) (skips : Int → PublicCoin → Bool)
    (route rest : List Int) :
    addBlocks node den skips (route ++ rest) = (do
      addBlocks node den skips route
      addBlocks node den skips rest) := by
  induction route with
  | nil => rfl
  | cons nHeight route ih => rw [List.cons_append, addBlocks, addBlocks, ih, bind_assoc]

/-- **A calculation** that has ended has come to what the whole one comes to. -/
theorem run_calculate (nHeight : Int) (turns : Nat) (s : Scan) :
    (calculateAccumulatedBlocksFor node den skips turns nHeightStop
        (node.indexAt nHeight)).run s =
      (wholeCalculation node den skips nHeightStop (node.indexAt nHeight)).run s ∨
    ∃ s', (calculateAccumulatedBlocksFor node den skips turns nHeightStop
      (node.indexAt nHeight)).run s = .error .running s' := by
  rcases (calculate_spec node den skips nHeightStop nHeight).2 turns with
    hwhole | ⟨route, ⟨rest, hrest⟩, hpart⟩
  · rw [hwhole]
    exact Or.inl rfl
  · rw [hpart, wholeCalculation, ← hrest, addBlocks_append, bind_assoc, EStateM.run_bind,
      EStateM.run_bind]
    cases (addBlocks node den skips route).run s with
    | ok u s' => exact Or.inr ⟨s', rfl⟩
    | error e s' => exact Or.inl rfl

/-- What goes wrong at the end of a calculation is not caught. -/
theorem calculationEnd_error {nMintsAdded : Nat} {place : Option Int} {e : Stop}
    (h : calculationEnd node den nMintsAdded place = .error e) (message : String) :
    e ≠ .getPubcoinException message ∧ e ≠ .searchMintHeightException message := by
  have hvalue : stopValue node den place = .error e ∨
      ∃ message, e = .notEnoughMintsException message := by
    unfold calculationEnd at h
    cases hstop : stopValue node den place with
    | error e' =>
        rw [hstop] at h
        cases h
        exact Or.inl rfl
    | ok stopped =>
        rw [hstop] at h
        change (if nMintsAdded < zerocoinRequiredAccumulation then _ else _) = _ at h
        split_ifs at h
        cases h
        exact Or.inr ⟨_, rfl⟩
  rcases hvalue with hvalue | ⟨message', rfl⟩
  · unfold stopValue at hvalue
    cases place with
    | none => cases hvalue
    | some nHeight =>
        dsimp only at hvalue
        split_ifs at hvalue
        · cases hvalue
          exact ⟨nofun, nofun⟩
        · cases hblock : node.blockAt (nHeight + 10) with
          | none =>
              rw [hblock] at hvalue
              cases hvalue
              exact ⟨nofun, nofun⟩
          | some pindex =>
              rw [hblock] at hvalue
              dsimp only at hvalue
              split_ifs at hvalue
              cases hvalue
              exact ⟨nofun, nofun⟩
  · exact ⟨nofun, nofun⟩

end Calculation

end Agrarian.Zerocoin
