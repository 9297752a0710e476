import Agrarian.Lib.MachineInt
import Agrarian.Zerocoin.AccumulatedBlocks

/-!
# Witnesses for light nodes

A light node asks for a witness from a height on, and the work for one request is
to be bounded.  The bound sets a variable of an inner block, so the scan goes on to
the height that the tip gives.
-/

namespace Agrarian.Zerocoin

open Agrarian.Lib Agrarian.Validation

/-! ## Where a witness begins -/

/-- The loop of `AccumulatorCheckpoints::GetClosestCheckpoint`. -/
def closestCheckpointStep (nHeight nHeightCheckpoint first : Int) : Int :=
  -- only checkpoints that are less than the height requested
  if first < nHeight then
    let nHeightCheckpoint := if nHeightCheckpoint = -1 then first else nHeightCheckpoint
    if nHeight - first < nHeightCheckpoint then first else nHeightCheckpoint
  else nHeightCheckpoint

/-- `AccumulatorCheckpoints::GetClosestCheckpoint`: the height of the checkpoint, and
the checkpoint, empty if there is none. -/
def getClosestCheckpoint (mapCheckpoints : List (Int × KeyedMap CoinDenomination CBigNum))
    (nHeight : Int) : Int × KeyedMap CoinDenomination CBigNum :=
  let nHeightCheckpoint := mapCheckpoints.foldl
    (fun nHeightCheckpoint it => closestCheckpointStep nHeight nHeightCheckpoint it.1) (-1)
  (nHeightCheckpoint, ((mapCheckpoints.find? (·.1 = nHeightCheckpoint)).map (·.2)).getD KeyedMap.empty)

/-- `GetAccumulatorValue`: the height it is for and the value, or nothing when the
height is above the tip. -/
def getAccumulatorValue (node : WitnessNode) (nHeight : Int) (denom : CoinDenomination) :
    Except Stop (Option (Int × CBigNum)) :=
  if nHeight > node.height then .ok none
  else
    match node.blockAt nHeight with
    | none => .error .nullPointer
    | some pindex =>
        -- every situation except for about 20 blocks should use this method
        if nHeight > node.params.nBlockZerocoinV2 + 20 then
          .ok (some (nHeight,
            getAccumulatorValueFromDB node pindex.nAccumulatorCheckpoint denom))
        else
          let (nHeightCheckpoint, checkpoint) :=
            getClosestCheckpoint node.mapCheckpoints nHeight
          if nHeightCheckpoint < 0 then
            -- start at the first zerocoin
            .ok (some (node.params.nZerocoinStartHeight + 10, node.accumulatorBase))
          else
            match checkpoint.find? denom with
            | none => .error .outOfRange
            | some bnAccValue => .ok (some (nHeightCheckpoint, bnAccValue))

/-- The loop of `ComputeAccumulatedCoins`, over the blocks from a height on. -/
def countAccumulatedCoins (denom : CoinDenomination) (nHeightEnd : Int) :
    Int → List WitnessBlock → Option Nat
  | _, [] => none
  | nHeight, pindex :: rest =>
      if nHeight < nHeightEnd then
        (countAccumulatedCoins denom nHeightEnd (nHeight + 1) rest).map
          (pindex.vMintDenominationsInBlock.count denom + ·)
      else some 0

/-- `ComputeAccumulatedCoins`: how many coins were added up to the end height;
nothing if a null pointer is followed. -/
def computeAccumulatedCoins (node : WitnessNode) (nHeightEnd : Int)
    (denom : CoinDenomination) : Option Nat :=
  let nStart := node.params.nZerocoinStartHeight
  if nStart < 0 then none
  else countAccumulatedCoins denom nHeightEnd nStart (node.chainActive.drop nStart.toNat)

/-! ## The request -/

/-- What is asked for. -/
structure WitnessRequest where
  startHeight : Int
  maxCalulationRange : Int
  den : CoinDenomination
  /-- `filter.contains`. -/
  filter : CBigNum → Bool
  accumulator : CBigNum
  /-- The value of the witness that the light node sent. -/
  witness : CBigNum

/-- What the request changes. -/
structure LightWitness where
  accumulator : CBigNum
  witness : CBigNum
  nMintsAdded : Nat := 0
  ret : List CBigNum := []
  heightStop : Int := 0
  /-- The blocks read from disk. -/
  blocksRead : List Int := []
  /-- Where the scan has stopped, if it has. -/
  stoppedAt : Option Int := none

/-- The checkpoint added at the next multiple of 10. -/
def checkpointAfter (startHeight : Int) : Int :=
  int32 (startHeight + (10 - startHeight.tmod 10))

/-- At least two checkpoints deep. -/
def tipStop (node : WitnessNode) : Int := node.height - node.height.tmod 10 - 20

section Request

variable (node : WitnessNode) (req : WitnessRequest)

/-- The height of the checkpoint that the witness begins with, which is put into
the accumulator and the witness if there is one. -/
def setBaseAccumulator : EStateM Stop LightWitness Int :=
  match getAccumulatorValue node (checkpointAfter req.startHeight) req.den with
  | .error e => throw e
  | .ok none => pure (checkpointAfter req.startHeight)
  | .ok (some (nHeightCheckpoint, bnAccValue)) => do
      modify fun reply => { reply with accumulator := bnAccValue, witness := bnAccValue }
      pure nHeightCheckpoint

/-- The scan of a request, on top of the witness: an accumulator with the value zero
begins with its base. -/
def lightScan (turns : Nat) (nHeightStop : Int) (pindex : Option Int) :
    EStateM Stop LightWitness (Option (Int × CBigNum)) := fun reply =>
  let s : Scan :=
    { witnessValue := if reply.witness = 0 then node.accumulatorBase else reply.witness
      ret := reply.ret
      blocksRead := reply.blocksRead }
  match (calculateAccumulatedBlocksFor node req.den (fun _ pubcoin => req.filter pubcoin.value)
      turns nHeightStop pindex).run s with
  | .error e s => .error e { reply with ret := s.ret, blocksRead := s.blocksRead }
  | .ok stopped s =>
      .ok stopped
        { reply with
          accumulator := (stopped.map (·.2)).getD reply.accumulator
          witness := s.witnessValue
          ret := s.ret
          blocksRead := s.blocksRead
          stoppedAt := stopped.map (·.1) }

theorem run_lightScan (turns : Nat) (nHeightStop : Int) (pindex : Option Int)
    (reply : LightWitness) :
    (lightScan node req turns nHeightStop pindex).run reply =
      match (calculateAccumulatedBlocksFor node req.den
          (fun _ pubcoin => req.filter pubcoin.value) turns nHeightStop pindex).run
          { witnessValue := if reply.witness = 0 then node.accumulatorBase else reply.witness
            ret := reply.ret
            blocksRead := reply.blocksRead } with
      | .error e s => .error e { reply with ret := s.ret, blocksRead := s.blocksRead }
      | .ok stopped s =>
          .ok stopped
            { reply with
              accumulator := (stopped.map (·.2)).getD reply.accumulator
              witness := s.witnessValue
              ret := s.ret
              blocksRead := s.blocksRead
              stoppedAt := stopped.map (·.1) } :=
  rfl

/-- What `CalculateAccumulatorWitnessFor` tries. -/
def witnessTry (turns : Nat) : EStateM Stop LightWitness Bool := do
  let nHeightCheckpoint ← setBaseAccumulator node req
  let nHeightStop := tipStop node
  -- the limit of the range goes to a variable of its own
  modify fun reply => { reply with heightStop := nHeightStop, nMintsAdded := 0 }
  let _ ← lightScan node req turns nHeightStop (node.indexAt (nHeightCheckpoint - 10))
  match computeAccumulatedCoins node req.startHeight req.den with
  | none => throw .nullPointer
  | some n => do
      modify fun reply => { reply with nMintsAdded := reply.nMintsAdded + n }
      pure true

/-- The exceptions that are caught: of those that are thrown, the ones for a block. -/
def catchGetPubcoin (m : EStateM Stop LightWitness Bool) : EStateM Stop LightWitness Bool :=
  fun reply =>
    match m.run reply with
    | .error (.getPubcoinException _) reply => .ok false reply
    | result => result

theorem run_catchGetPubcoin (m : EStateM Stop LightWitness Bool) (reply : LightWitness) :
    (catchGetPubcoin m).run reply =
      match m.run reply with
      | .error (.getPubcoinException _) reply => .ok false reply
      | result => result :=
  rfl

/-- `CalculateAccumulatorWitnessFor`. -/
def calculateAccumulatorWitnessFor (turns : Nat) : EStateM Stop LightWitness Bool :=
  if node.fLocked then catchGetPubcoin (witnessTry node req turns) else pure false

end Request

/-! ## What a request does -/

section Spec

variable (node : WitnessNode) (req : WitnessRequest)

/-- Before the request. -/
def WitnessRequest.begin (req : WitnessRequest) : LightWitness :=
  { accumulator := req.accumulator, witness := req.witness }

/-- The first block that is scanned: there is none if the value of the accumulator
cannot be got. -/
def lightStart : Option Int :=
  match getAccumulatorValue node (checkpointAfter req.startHeight) req.den with
  | .error _ => none
  | .ok none => node.indexAt (checkpointAfter req.startHeight - 10)
  | .ok (some (nHeightCheckpoint, _)) => node.indexAt (nHeightCheckpoint - 10)

/-- What a request makes of what its scan came to. -/
def lightResult (reply : LightWitness) :
    EStateM.Result Stop Scan (Option (Int × CBigNum)) → EStateM.Result Stop LightWitness Bool
  | .error (.getPubcoinException _) s =>
      .ok false { reply with ret := s.ret, blocksRead := s.blocksRead }
  | .error e s => .error e { reply with ret := s.ret, blocksRead := s.blocksRead }
  | .ok stopped s =>
      let reply : LightWitness :=
        { reply with
          accumulator := (stopped.map (·.2)).getD reply.accumulator
          witness := s.witnessValue
          ret := s.ret
          blocksRead := s.blocksRead
          stoppedAt := stopped.map (·.1) }
      match computeAccumulatedCoins node req.startHeight req.den with
      | none => .error .nullPointer reply
      | some n => .ok true { reply with nMintsAdded := reply.nMintsAdded + n }

variable {node req}

/-- The value of an accumulator is got, or a lookup fails. -/
theorem getAccumulatorValue_error {nHeight : Int} {denom : CoinDenomination} {e : Stop}
    (h : getAccumulatorValue node nHeight denom = .error e) :
    e = .nullPointer ∨ e = .outOfRange := by
  unfold getAccumulatorValue at h
  by_cases hhigh : nHeight > node.height
  · rw [if_pos hhigh] at h
    cases h
  rw [if_neg hhigh] at h
  cases hblock : node.blockAt nHeight with
  | none =>
      rw [hblock] at h
      cases h
      exact Or.inl rfl
  | some pindex =>
      rw [hblock] at h
      dsimp only at h
      split_ifs at h with hrecent hnone
      cases hfind : (getClosestCheckpoint node.mapCheckpoints nHeight).2.find? denom with
      | none =>
          rw [hfind] at h
          cases h
          exact Or.inr rfl
      | some bnAccValue =>
          rw [hfind] at h
          cases h

/-- **A request** whose base accumulator cannot be got ends there. -/
theorem run_request_error (hlocked : node.fLocked = true) {e : Stop}
    (h : getAccumulatorValue node (checkpointAfter req.startHeight) req.den = .error e)
    (turns : Nat) :
    (calculateAccumulatorWitnessFor node req turns).run req.begin = .error e req.begin := by
  have htry : (witnessTry node req turns).run req.begin = .error e req.begin := by
    unfold witnessTry setBaseAccumulator
    rw [h]
    rfl
  rw [calculateAccumulatorWitnessFor, if_pos hlocked, run_catchGetPubcoin, htry]
  rcases getAccumulatorValue_error h with rfl | rfl
  · rfl
  · rfl

/-- **A request** is what its scan comes to. -/
theorem run_request_ok (hlocked : node.fLocked = true) {value : Option (Int × CBigNum)}
    (h : getAccumulatorValue node (checkpointAfter req.startHeight) req.den = .ok value) :
    ∃ reply : LightWitness, ∃ s : Scan, reply.heightStop = tipStop node ∧
      s.nMintsAdded = 0 ∧ s.blocksRead = [] ∧
      ∀ turns, (calculateAccumulatorWitnessFor node req turns).run req.begin =
        lightResult node req reply
          ((calculateAccumulatedBlocksFor node req.den
            (fun _ pubcoin => req.filter pubcoin.value) turns (tipStop node)
            (lightStart node req)).run s) := by
  -- the base accumulator is set, or it is not
  obtain ⟨nHeightCheckpoint, reply, hread, hstart, hset⟩ :
      ∃ nHeightCheckpoint, ∃ reply : LightWitness, reply.blocksRead = [] ∧
        lightStart node req = node.indexAt (nHeightCheckpoint - 10) ∧
        (setBaseAccumulator node req).run req.begin = .ok nHeightCheckpoint reply := by
    unfold lightStart setBaseAccumulator
    rw [h]
    cases value with
    | none => exact ⟨_, _, rfl, rfl, rfl⟩
    | some value => exact ⟨_, _, rfl, rfl, rfl⟩
  refine ⟨{ reply with heightStop := tipStop node, nMintsAdded := 0 },
    { witnessValue := if reply.witness = 0 then node.accumulatorBase else reply.witness
      ret := reply.ret
      blocksRead := reply.blocksRead }, rfl, rfl, hread, fun turns => ?_⟩
  rw [calculateAccumulatorWitnessFor, if_pos hlocked, run_catchGetPubcoin, witnessTry,
    run_bind_of_ok hset, hstart]
  dsimp only
  rw [EStateM.run_bind, EStateM.run_modify]
  dsimp only
  rw [EStateM.run_bind, run_lightScan]
  dsimp only
  cases (calculateAccumulatedBlocksFor node req.den
      (fun _ pubcoin => req.filter pubcoin.value) turns (tipStop node)
      (node.indexAt (nHeightCheckpoint - 10))).run
      { witnessValue := if reply.witness = 0 then node.accumulatorBase else reply.witness
        ret := reply.ret
        blocksRead := reply.blocksRead } with
  | error e s =>
      cases e with
      | _ => rfl
  | ok stopped s =>
      dsimp only
      unfold lightResult
      cases computeAccumulatedCoins node req.startHeight req.den with
      | none => rfl
      | some n => rfl

theorem lightStart_eq (node : WitnessNode) (req : WitnessRequest) :
    ∃ nHeight, lightStart node req = node.indexAt nHeight := by
  unfold lightStart
  cases getAccumulatorValue node (checkpointAfter req.startHeight) req.den with
  | error e => exact ⟨-1, rfl⟩
  | ok value =>
      cases value with
      | none => exact ⟨_, rfl⟩
      | some value => exact ⟨_, rfl⟩

/-- The height the tip gives is on the chain if it is not negative. -/
theorem indexAt_tipStop (hlow : 0 ≤ tipStop node) :
    node.indexAt (min (tipStop node) (node.height + 1)) = some (tipStop node) := by
  have hbelow : tipStop node ≤ node.height := by
    unfold tipStop at hlow ⊢
    by_cases hempty : node.height < 0
    · have hlast : node.height = -1 := by
        unfold WitnessNode.height at hempty ⊢
        omega
      rw [hlast] at hlow
      exact absurd hlow (by decide)
    · have := Int.tmod_nonneg 10 (not_lt.mp hempty)
      omega
  rw [min_eq_left (by omega), node.indexAt_of_mem hlow hbelow]

/-- A scan that gives a value has stopped at the height that the tip gives. -/
theorem calculate_stopped {nHeight : Int} {turns : Nat} {den : CoinDenomination}
    {skips : Int → PublicCoin → Bool} {s s' : Scan} {stopped : Option (Int × CBigNum)}
    (hs : s.nMintsAdded = 0)
    (h : (calculateAccumulatedBlocksFor node den skips turns (tipStop node)
      (node.indexAt nHeight)).run s = .ok stopped s') :
    stopped.map (·.1) = some (tipStop node) := by
  obtain ⟨-, hadded, henough, hvalue⟩ := calculate_ok node den skips (tipStop node) h
  have hroute : routeFrom node (tipStop node) (node.indexAt nHeight) ≠ [] := by
    intro hnil
    have hcount := hadded.count
    rw [hnil, List.flatMap_nil, List.length_nil, hs] at hcount
    rw [hcount] at henough
    exact absurd henough (by decide)
  obtain ⟨hplace, hlow, hbelow⟩ := placeFrom_of_route node (tipStop node) hroute
  rw [hplace, indexAt_tipStop (by omega)] at hvalue
  unfold stopValue at hvalue
  dsimp only at hvalue
  split_ifs at hvalue with hinvalid
  split at hvalue
  · cases hvalue
  · split_ifs at hvalue with hzero
    cases hvalue
    rfl

/-! ## The work for a request -/

/-- The blocks read beyond the start height are no more than the range, with the
rounding to a multiple of ten. -/
def WithinRange (req : WitnessRequest) (blocks : List Int) : Prop :=
  (blocks.countP fun nHeight => req.startHeight ≤ nHeight : Int) ≤
    max 0 req.maxCalulationRange + 10

/-- The work for a request is bounded: it comes to an end, it reads no more blocks
than asked for at any time, and it reports the height at which it has stopped. -/
def BoundedWork (node : WitnessNode) (req : WitnessRequest) : Prop :=
  (∃ turns, Ended ((calculateAccumulatorWitnessFor node req turns).run req.begin)) ∧
  ∀ turns, Outcome (fun _ reply => WithinRange req reply.blocksRead)
    (fun done reply => WithinRange req reply.blocksRead ∧
      (done = true → reply.stoppedAt = some reply.heightStop))
    ((calculateAccumulatorWitnessFor node req turns).run req.begin)

/-- The blocks that a request has read. -/
def repliedReads : EStateM.Result Stop LightWitness Bool → List Int
  | .ok _ reply => reply.blocksRead
  | .error _ reply => reply.blocksRead

theorem BoundedWork.withinRange (h : BoundedWork node req) (turns : Nat) :
    WithinRange req
      (repliedReads ((calculateAccumulatorWitnessFor node req turns).run req.begin)) := by
  have hcall := h.2 turns
  cases hrun : (calculateAccumulatorWitnessFor node req turns).run req.begin with
  | ok done reply =>
      rw [hrun] at hcall
      exact hcall.1
  | error e reply =>
      rw [hrun] at hcall
      exact hcall

/-- The blocks that are read for a request: those with a mint of the denomination
from its first block up to the height that the tip gives. -/
def lightBlocks (node : WitnessNode) (req : WitnessRequest) : List Int :=
  blocksToRead node req.den (routeFrom node (tipStop node) (lightStart node req))

theorem withinRange_prefix {blocks blocks' : List Int} (h : blocks <+: blocks')
    (hrange : WithinRange req blocks') : WithinRange req blocks := by
  obtain ⟨rest, rfl⟩ := h
  unfold WithinRange at hrange ⊢
  rw [List.countP_append] at hrange
  omega

theorem ended_lightResult {reply : LightWitness}
    (result : EStateM.Result Stop Scan (Option (Int × CBigNum))) :
    Ended (lightResult node req reply result) ↔ Ended result := by
  cases result with
  | ok stopped s =>
      refine iff_of_true ?_ trivial
      unfold lightResult
      cases computeAccumulatedCoins node req.startHeight req.den with
      | none => exact fun h => by cases h
      | some n => trivial
  | error e s =>
      cases e with
      | getPubcoinException message => exact iff_of_true trivial fun h => by cases h
      | _ => rfl

/-- What a request has read is what its scan has read, and the height it reports is
the one where a scan that gives a value has stopped. -/
theorem outcome_lightResult {reply : LightWitness} {p : List Int → Prop}
    {result : EStateM.Result Stop Scan (Option (Int × CBigNum))}
    (hstop : ∀ stopped s, result = .ok stopped s →
      stopped.map (·.1) = some reply.heightStop) :
    Outcome (fun _ reply => p reply.blocksRead)
      (fun done reply => p reply.blocksRead ∧
        (done = true → reply.stoppedAt = some reply.heightStop))
      (lightResult node req reply result) ↔ p (readsOf result) := by
  cases result with
  | ok stopped s =>
      unfold lightResult
      cases computeAccumulatedCoins node req.startHeight req.den with
      | none => exact Iff.rfl
      | some n => exact ⟨fun h => h.1, fun h => ⟨h, fun _ => hstop stopped s rfl⟩⟩
  | error e s =>
      cases e with
      | getPubcoinException message =>
          exact ⟨fun h => h.1, fun h => ⟨h, fun hdone => (by cases hdone)⟩⟩
      | _ => exact Iff.rfl

/-- **The work for a request is bounded** exactly if the lock is not got, or the
blocks between its first and the height that the tip gives are within its range,
and that height is not in the invalid range. -/
theorem boundedWork_iff (node : WitnessNode) (req : WitnessRequest) :
    BoundedWork node req ↔ node.fLocked = false ∨
      WithinRange req (lightBlocks node req) ∧
        (UnreadableFrom node req.den (tipStop node) (lightStart node req) ∨
          ∀ place, placeFrom node (tipStop node) (lightStart node req) = some place →
            invalidCheckpointRange node.params place = false) := by
  have hnothing : WithinRange req [] := by
    show ((0 : Nat) : Int) ≤ _
    omega
  cases hlocked : node.fLocked with
  | false =>
      refine iff_of_true ?_ (Or.inl rfl)
      have hrun : ∀ turns, (calculateAccumulatorWitnessFor node req turns).run req.begin =
          .ok false req.begin := by
        intro turns
        rw [calculateAccumulatorWitnessFor, hlocked]
        rfl
      refine ⟨⟨0, ?_⟩, fun turns => ?_⟩
      · rw [hrun]
        trivial
      · rw [hrun]
        exact ⟨hnothing, fun h => (by cases h)⟩
  | true =>
      rw [or_iff_right (by decide)]
      cases hvalue : getAccumulatorValue node (checkpointAfter req.startHeight) req.den with
      | error e =>
          -- nothing is scanned
          have hstart : lightStart node req = none := by
            unfold lightStart
            rw [hvalue]
          refine iff_of_true ⟨⟨0, ?_⟩, fun turns => ?_⟩ ⟨?_, Or.inr ?_⟩
          · rw [run_request_error hlocked hvalue]
            rcases getAccumulatorValue_error hvalue with rfl | rfl
            · exact fun h => by cases h
            · exact fun h => by cases h
          · rw [run_request_error hlocked hvalue]
            exact hnothing
          · unfold lightBlocks
            rw [hstart]
            exact hnothing
          · rw [hstart]
            exact fun place hplace => by cases hplace
      | ok value =>
          obtain ⟨reply, s, hstop, hs, hread, hrun⟩ := run_request_ok hlocked hvalue
          obtain ⟨nHeight, hstart⟩ := lightStart_eq node req
          unfold BoundedWork lightBlocks
          simp only [hrun, ended_lightResult]
          rw [hstart, ended_calculate, ended_wholeCalculation, and_comm]
          apply and_congr_left'
          have hreport : ∀ turns, Outcome
              (fun _ reply => WithinRange req reply.blocksRead)
              (fun done reply => WithinRange req reply.blocksRead ∧
                (done = true → reply.stoppedAt = some reply.heightStop))
              (lightResult node req reply ((calculateAccumulatedBlocksFor node req.den
                (fun _ pubcoin => req.filter pubcoin.value) turns (tipStop node)
                (node.indexAt nHeight)).run s)) ↔
              WithinRange req (readsOf ((calculateAccumulatedBlocksFor node req.den
                (fun _ pubcoin => req.filter pubcoin.value) turns (tipStop node)
                (node.indexAt nHeight)).run s)) := by
            intro turns
            apply outcome_lightResult
            intro stopped s' hok
            rw [hstop]
            exact calculate_stopped hs hok
          constructor
          · intro hall
            obtain ⟨enough, henough⟩ := (calculate_spec node req.den
              (fun _ pubcoin => req.filter pubcoin.value) (tipStop node) nHeight).1
            have hlast := (hreport enough).mp (hall enough)
            rwa [henough, readsOf_wholeCalculation, hread, List.nil_append] at hlast
          · intro hrange turns
            rw [hreport]
            have hreads := readsOf_calculate node req.den
              (fun _ pubcoin => req.filter pubcoin.value) (tipStop node) nHeight turns s
            rw [hread, List.nil_append] at hreads
            exact withinRange_prefix hreads hrange

end Spec

/-! ## A long chain -/

/-- A regression test chain: from height 320 on every block has a mint. -/
def mintedNode : WitnessNode where
  params :=
    { fRegTest := true
      nZerocoinStartHeight := 300
      nBlockZerocoinV2 := 300
      nBlockRecalculateAccumulators := 999999999
      nBlockLastGoodCheckpoint := 999999999
      nBlockEndFakeSerial := -1 }
  chainActive :=
    List.replicate 320 ⟨[], 0, .ok []⟩ ++
      List.replicate 51 ⟨[.ZQ_ONE], 0, .ok [⟨.ZQ_ONE, 3⟩]⟩
  checksums := ⟨KeyedMap.empty.insert 0 5, KeyedMap.empty⟩
  mapCheckpoints := []
  accumulatorBase := 961
  powMod := fun value e => value ^ e.toNat % 7
  fLocked := true

/-- A witness from height 320 on, for ten blocks. -/
def tenBlocks : WitnessRequest where
  startHeight := 320
  maxCalulationRange := 10
  den := .ZQ_ONE
  filter := fun _ => false
  accumulator := 5
  witness := 5

/-- For ten blocks thirty are read, up to two checkpoints below the tip. -/
theorem boundedWork_tenBlocks : ¬ BoundedWork mintedNode tenBlocks := by
  intro hwork
  have hreads : repliedReads ((calculateAccumulatorWitnessFor mintedNode tenBlocks 31).run
      tenBlocks.begin) = heights 320 349 := by decide +kernel
  have hrange := hwork.withinRange 31
  rw [hreads] at hrange
  exact absurd hrange (by unfold WithinRange; decide)

end Agrarian.Zerocoin
