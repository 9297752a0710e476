import Agrarian.Zerocoin.LightWitness

/-!
# Generating a witness

For a mint of the chain the coins minted after it are added to an accumulator of
their own, up to the checkpoint the spend is checked against.  The scan counts the
mints it adds, but the function that asks for it looks at a counter of its own,
which stays at zero.
-/

namespace Agrarian.Zerocoin

open Agrarian.Lib Agrarian.Validation

/-- A node with the index of its mints and transactions. -/
structure MintNode extends WitnessNode where
  /-- `zerocoinDB->ReadCoinMint`: the transaction of a mint. -/
  readCoinMint : CBigNum → Option Uint256
  /-- `GetTransaction`, also by a slow search or not: the hash of its block. -/
  getTransaction : Uint256 → Bool → Option Uint256
  /-- `mapBlockIndex`: the height of a block. -/
  mapBlockIndex : Uint256 → Option Int
  /-- `chainActive.Contains`, of the block with this hash. -/
  chainContains : Uint256 → Bool
  /-- `PublicCoin::validate`. -/
  validate : PublicCoin → Bool
  /-- `uint256::GetHex`. -/
  getHex : Uint256 → String

section Generate

variable (node : MintNode)

/-- `IsBlockHashInChain`. -/
def isBlockHashInChain (hashBlock : Uint256) : Bool :=
  !(hashBlock = 0 || (node.mapBlockIndex hashBlock).isNone) && node.chainContains hashBlock

/-- `IsTransactionInChain`. -/
def isTransactionInChain (txId : Uint256) : Bool :=
  match node.getTransaction txId true with
  | none => false
  | some hashBlock => isBlockHashInChain node hashBlock

/-- `SearchMintHeightOf`. -/
def searchMintHeightOf (value : CBigNum) : Except Stop Int :=
  match node.readCoinMint value with
  | none => .error (.searchMintHeightException
      "searchForMintHeightOf:: failed to read mint from db")
  | some txid =>
      match node.getTransaction txid false with
      | none => .error (.searchMintHeightException
          "searchForMintHeightOf:: failed to read tx")
      | some hashBlock =>
          if isTransactionInChain node txid then
            match node.mapBlockIndex hashBlock with
            | none => .error .nullPointer
            | some nHeight => .ok nHeight
          else .error (.searchMintHeightException
            ("searchForMintHeightOf:: mint tx " ++ node.getHex txid ++ " is not in chain"))

/-- What a witness is generated for, and the objects that are to hold it. -/
structure GenerateRequest where
  coin : PublicCoin
  /-- The height of the checkpoint that is looked for, if it is a specific one. -/
  pindexCheckpoint : Option Int
  accumulator : CBigNum
  witness : CBigNum
  /-- The denomination of the accumulator of the witness. -/
  witnessDenomination : CoinDenomination
  nMintsAdded : Nat
  strError : String

/-- What the function changes. -/
structure GeneratedWitness where
  accumulator : CBigNum
  witness : CBigNum
  nMintsAdded : Nat
  strError : String

variable (req : GenerateRequest)

/-- The height at which the scan is to stop. -/
def generateStop : Int :=
  match req.pindexCheckpoint with
  | none => tipStop node.toWitnessNode
  | some nHeight => nHeight - 10

/-- The accumulator right before the cluster of blocks with the mint. -/
def initialValue (bnAccValue : CBigNum) : CBigNum :=
  if bnAccValue = 0 ∧ node.params.fRegTest then node.accumulatorBase else bnAccValue

/-- It is put into the accumulator and the witness, if it is got; then the height of
its checkpoint is the one to begin with. -/
def setStartAccumulator (nHeightMintAdded : Int) : EStateM Stop GeneratedWitness Int :=
  match getAccumulatorValue node.toWitnessNode (checkpointAfter nHeightMintAdded)
      req.coin.denomination with
  | .error e => throw e
  | .ok none => pure (checkpointAfter nHeightMintAdded)
  | .ok (some (nHeightCheckpoint, bnAccValue)) => do
      modify fun out => { out with
        accumulator := initialValue node bnAccValue
        witness := initialValue node bnAccValue }
      pure nHeightCheckpoint

/-- The own mint is not added to its witness. -/
def ownMint (nHeightMintAdded nHeight : Int) (pubcoin : PublicCoin) : Bool :=
  nHeight = nHeightMintAdded && pubcoin.value = req.coin.value

/-- The scan, on top of the accumulator.  What it counts is not handed on. -/
def generateScan (turns : Nat) (nHeightMintAdded : Int) (pindex : Option Int) :
    EStateM Stop GeneratedWitness Unit := fun out =>
  match (calculateAccumulatedBlocksFor node.toWitnessNode req.coin.denomination
      (ownMint req nHeightMintAdded) turns (generateStop node req) pindex).run
      { witnessValue := out.accumulator } with
  | .error e _ => .error e
      { out with strError := match e with
          | .notEnoughMintsException message => message
          | _ => out.strError }
  | .ok stopped s => .ok ()
      { out with
        accumulator := (stopped.map (·.2)).getD out.accumulator
        witness := s.witnessValue }

/-- `AccumulatorWitness::VerifyWitness`, of a witness for the coin. -/
def verifyWitness (witness accumulator : CBigNum) : Except Stop Bool :=
  if witness = 0 then .error (.runtimeError "Accumulator is not initialized")
  else if req.witnessDenomination ≠ req.coin.denomination then
    .error (.runtimeError "Wrong denomination for coin")
  else if node.validate req.coin = false then .error (.runtimeError "Coin is not valid")
  else .ok (node.powMod witness req.coin.value = accumulator)

/-- What is done once the scan has come to its end: `nMintsAdded` is not the number
of mints that it has added. -/
def finishWitness (nHeightMintAdded : Int) : EStateM Stop GeneratedWitness Bool := do
  let out ← get
  match verifyWitness node req out.witness out.accumulator with
  | .error e => throw e
  | .ok false => pure false
  | .ok true =>
      if out.nMintsAdded < zerocoinRequiredAccumulation then do
        modify fun out => { out with
          strError := "Less than 1 mints added, unable to create spend" }
        pure false
      else
        match computeAccumulatedCoins node.toWitnessNode
            (nHeightMintAdded - nHeightMintAdded.tmod 10) req.coin.denomination with
        | none => throw .nullPointer
        | some n => do
            modify fun out => { out with nMintsAdded := out.nMintsAdded + n }
            pure true

/-- What `GenerateAccumulatorWitness` tries. -/
def generateTry (turns : Nat) : EStateM Stop GeneratedWitness Bool :=
  match searchMintHeightOf node req.coin.value with
  | .error e => throw e
  | .ok nHeightMintAdded => do
      let nHeightCheckpoint ← setStartAccumulator node req nHeightMintAdded
      modify fun out => { out with nMintsAdded := 0 }
      generateScan node req turns nHeightMintAdded (node.indexAt (nHeightCheckpoint - 10))
      finishWitness node req nHeightMintAdded

/-- The exceptions that are caught.  A checksum that is not found is thrown as a
pointer, so the clause for it does not catch it. -/
def catchWitness (m : EStateM Stop GeneratedWitness Bool) :
    EStateM Stop GeneratedWitness Bool := fun out =>
  match m.run out with
  | .error (.searchMintHeightException _) out => .ok false out
  | .error (.getPubcoinException _) out => .ok false out
  | result => result

/-- `GenerateAccumulatorWitness`. -/
def generateAccumulatorWitness (turns : Nat) : EStateM Stop GeneratedWitness Bool :=
  if node.fLocked then catchWitness (generateTry node req turns) else pure false

end Generate

/-! ## What the function does -/

section Spec

/-- Before the call. -/
def GenerateRequest.begin (req : GenerateRequest) : GeneratedWitness :=
  { accumulator := req.accumulator
    witness := req.witness
    nMintsAdded := req.nMintsAdded
    strError := req.strError }

variable (node : MintNode) (req : GenerateRequest)

/-- The height of the checkpoint that the scan begins with. -/
def startCheckpoint (nHeightMintAdded : Int) : Option (Int × CBigNum) → Int
  | none => checkpointAfter nHeightMintAdded
  | some (nHeightCheckpoint, _) => nHeightCheckpoint

/-- The value of the accumulator it begins with. -/
def startValue : Option (Int × CBigNum) → CBigNum
  | none => req.accumulator
  | some (_, bnAccValue) => initialValue node bnAccValue

/-- What is made of the end of the scan. -/
def generateResult (nHeightMintAdded : Int) (out : GeneratedWitness) :
    EStateM.Result Stop Scan (Option (Int × CBigNum)) →
      EStateM.Result Stop GeneratedWitness Bool
  | .error e _ =>
      (catchWitness (throw e)).run { out with
        strError := match e with
          | .notEnoughMintsException message => message
          | _ => out.strError }
  | .ok stopped s =>
      (catchWitness (finishWitness node req nHeightMintAdded)).run { out with
        accumulator := (stopped.map (·.2)).getD out.accumulator
        witness := s.witnessValue }

variable {node req}

theorem run_catchWitness (m : EStateM Stop GeneratedWitness Bool) (out : GeneratedWitness) :
    (catchWitness m).run out =
      match m.run out with
      | .error (.searchMintHeightException _) out => .ok false out
      | .error (.getPubcoinException _) out => .ok false out
      | result => result :=
  rfl

theorem run_generateScan (turns : Nat) (nHeightMintAdded : Int) (pindex : Option Int)
    (out : GeneratedWitness) :
    (generateScan node req turns nHeightMintAdded pindex).run out =
      match (calculateAccumulatedBlocksFor node.toWitnessNode req.coin.denomination
          (ownMint req nHeightMintAdded) turns (generateStop node req) pindex).run
          { witnessValue := out.accumulator } with
      | .error e _ => .error e
          { out with strError := match e with
              | .notEnoughMintsException message => message
              | _ => out.strError }
      | .ok stopped s => .ok ()
          { out with
            accumulator := (stopped.map (·.2)).getD out.accumulator
            witness := s.witnessValue } :=
  rfl

/-- **A mint that is found**: what is done is what is made of its scan. -/
theorem run_generate_ok (hlocked : node.fLocked = true) {nHeightMintAdded : Int}
    (hfound : searchMintHeightOf node req.coin.value = .ok nHeightMintAdded)
    {base : Option (Int × CBigNum)}
    (hbase : getAccumulatorValue node.toWitnessNode (checkpointAfter nHeightMintAdded)
      req.coin.denomination = .ok base) :
    ∃ out : GeneratedWitness, out.accumulator = startValue node req base ∧
      out.nMintsAdded = 0 ∧
      ∀ turns, (generateAccumulatorWitness node req turns).run req.begin =
        generateResult node req nHeightMintAdded out
          ((calculateAccumulatedBlocksFor node.toWitnessNode req.coin.denomination
            (ownMint req nHeightMintAdded) turns (generateStop node req)
            (node.indexAt (startCheckpoint nHeightMintAdded base - 10))).run
            { witnessValue := startValue node req base }) := by
  obtain ⟨out, hacc, hset⟩ : ∃ out : GeneratedWitness,
      out.accumulator = startValue node req base ∧
      (setStartAccumulator node req nHeightMintAdded).run req.begin =
        .ok (startCheckpoint nHeightMintAdded base) out := by
    unfold setStartAccumulator
    rw [hbase]
    cases base with
    | none => exact ⟨_, rfl, rfl⟩
    | some base => exact ⟨_, rfl, rfl⟩
  refine ⟨{ out with nMintsAdded := 0 }, hacc, rfl, fun turns => ?_⟩
  rw [generateAccumulatorWitness, if_pos hlocked, run_catchWitness, generateTry, hfound]
  dsimp only
  rw [run_bind_of_ok hset, EStateM.run_bind, EStateM.run_modify]
  dsimp only
  rw [EStateM.run_bind, run_generateScan]
  dsimp only
  rw [hacc]
  cases (calculateAccumulatedBlocksFor node.toWitnessNode req.coin.denomination
      (ownMint req nHeightMintAdded) turns (generateStop node req)
      (node.indexAt (startCheckpoint nHeightMintAdded base - 10))).run
      { witnessValue := startValue node req base } with
  | error e s => rfl
  | ok stopped s => rfl

/-- A mint whose accumulator cannot be got ends the call with an exception. -/
theorem run_generate_error (hlocked : node.fLocked = true) {nHeightMintAdded : Int}
    (hfound : searchMintHeightOf node req.coin.value = .ok nHeightMintAdded) {e : Stop}
    (hbase : getAccumulatorValue node.toWitnessNode (checkpointAfter nHeightMintAdded)
      req.coin.denomination = .error e) (turns : Nat) :
    (generateAccumulatorWitness node req turns).run req.begin = .error e req.begin := by
  rw [generateAccumulatorWitness, if_pos hlocked, run_catchWitness, generateTry, hfound]
  dsimp only
  unfold setStartAccumulator
  rw [hbase]
  rcases getAccumulatorValue_error hbase with rfl | rfl
  · rfl
  · rfl

theorem searchMintHeightOf_error {value : CBigNum} {e : Stop}
    (h : searchMintHeightOf node value = .error e) :
    e = .nullPointer ∨ ∃ message, e = .searchMintHeightException message := by
  unfold searchMintHeightOf at h
  cases hmint : node.readCoinMint value with
  | none =>
      rw [hmint] at h
      cases h
      exact Or.inr ⟨_, rfl⟩
  | some txid =>
      rw [hmint] at h
      dsimp only at h
      cases htx : node.getTransaction txid false with
      | none =>
          rw [htx] at h
          cases h
          exact Or.inr ⟨_, rfl⟩
      | some hashBlock =>
          rw [htx] at h
          dsimp only at h
          split_ifs at h
          · cases hindex : node.mapBlockIndex hashBlock with
            | none =>
                rw [hindex] at h
                cases h
                exact Or.inl rfl
            | some nHeight =>
                rw [hindex] at h
                cases h
          · cases h
            exact Or.inr ⟨_, rfl⟩

theorem verifyWitness_error {witness accumulator : CBigNum} {e : Stop}
    (h : verifyWitness node req witness accumulator = .error e) :
    ∃ message, e = .runtimeError message := by
  unfold verifyWitness at h
  split_ifs at h
  · cases h
    exact ⟨_, rfl⟩
  · cases h
    exact ⟨_, rfl⟩
  · cases h
    exact ⟨_, rfl⟩

/-- **The end of the call** never gives true: its counter is at zero. -/
theorem run_finishWitness {nHeightMintAdded : Int} {out : GeneratedWitness}
    (hout : out.nMintsAdded = 0) :
    ∃ out', (catchWitness (finishWitness node req nHeightMintAdded)).run out =
      match verifyWitness node req out.witness out.accumulator with
      | .error e => .error e out
      | .ok _ => .ok false out' := by
  rw [run_catchWitness, finishWitness, EStateM.run_bind, EStateM.run_get]
  dsimp only
  cases hverified : verifyWitness node req out.witness out.accumulator with
  | error e =>
      obtain ⟨message, rfl⟩ := verifyWitness_error hverified
      exact ⟨out, rfl⟩
  | ok verified =>
      cases verified with
      | false => exact ⟨out, rfl⟩
      | true =>
          dsimp only
          rw [if_pos (by rw [hout]; decide)]
          exact ⟨_, rfl⟩

/-- An exception that is not caught escapes. -/
theorem generateResult_error (nHeightMintAdded : Int) (out : GeneratedWitness) (s : Scan)
    {e : Stop} (he : ∀ message, e ≠ .getPubcoinException message ∧
      e ≠ .searchMintHeightException message) :
    ∃ out', generateResult node req nHeightMintAdded out (.error e s) = .error e out' := by
  cases e with
  | getPubcoinException message => exact absurd rfl (he message).1
  | searchMintHeightException message => exact absurd rfl (he message).2
  | _ => exact ⟨_, rfl⟩

/-! ## What the function is for -/

variable (node req)

/-- The mints that the scan adds. -/
def scannedMints (nHeightMintAdded nHeightCheckpoint : Int) : List PublicCoin :=
  (routeFrom node.toWitnessNode (generateStop node req)
    (node.indexAt (nHeightCheckpoint - 10))).flatMap
      (addedAt node.toWitnessNode req.coin.denomination (ownMint req nHeightMintAdded))

/-- All that is needed for a witness of the coin: it is found, the accumulator it
begins with and the one it is checked against are in the database, there are enough
other mints between them, and it verifies. -/
structure WitnessPossible (nHeightMintAdded nHeightCheckpoint : Int)
    (bnAccValue : CBigNum) (stopped : Int × CBigNum) : Prop where
  locked : node.fLocked = true
  found : searchMintHeightOf node req.coin.value = .ok nHeightMintAdded
  start : getAccumulatorValue node.toWitnessNode (checkpointAfter nHeightMintAdded)
    req.coin.denomination = .ok (some (nHeightCheckpoint, bnAccValue))
  readable : ¬ UnreadableFrom node.toWitnessNode req.coin.denomination
    (generateStop node req) (node.indexAt (nHeightCheckpoint - 10))
  enough : zerocoinRequiredAccumulation ≤
    (scannedMints node req nHeightMintAdded nHeightCheckpoint).length
  stop : stopValue node.toWitnessNode req.coin.denomination
    (placeFrom node.toWitnessNode (generateStop node req)
      (node.indexAt (nHeightCheckpoint - 10))) = .ok (some stopped)
  verified : verifyWitness node req
    (accumulate node.toWitnessNode (initialValue node bnAccValue)
      (scannedMints node req nHeightMintAdded nHeightCheckpoint)) stopped.2 = .ok true

/-- What a result of the call is to be: no exception, and when a witness is possible
true, with the number of the mints in it. -/
def RightResult : EStateM.Result Stop GeneratedWitness Bool → Prop :=
  Outcome (fun _ _ => False) fun done out =>
    ∀ nHeightMintAdded nHeightCheckpoint bnAccValue stopped,
      WitnessPossible node req nHeightMintAdded nHeightCheckpoint bnAccValue stopped →
      done = true ∧ ∃ n, computeAccumulatedCoins node.toWitnessNode
          (nHeightMintAdded - nHeightMintAdded.tmod 10) req.coin.denomination = some n ∧
        out.nMintsAdded =
          (scannedMints node req nHeightMintAdded nHeightCheckpoint).length + n

/-- The call comes to an end, and what it comes to is right. -/
def GeneratesWitness : Prop :=
  (∃ turns, Ended ((generateAccumulatorWitness node req turns).run req.begin)) ∧
  ∀ turns, Ended ((generateAccumulatorWitness node req turns).run req.begin) →
    RightResult node req ((generateAccumulatorWitness node req turns).run req.begin)

/-- The call gives false for a good reason: a block cannot be read, or the scan comes
to its end with enough mints and the witness does not verify, or an accumulator was
not got from the database. -/
def WitnessRefused (nHeightMintAdded : Int) (base : Option (Int × CBigNum)) : Prop :=
  let pindex := node.indexAt (startCheckpoint nHeightMintAdded base - 10)
  let mints := scannedMints node req nHeightMintAdded (startCheckpoint nHeightMintAdded base)
  UnreadableFrom node.toWitnessNode req.coin.denomination (generateStop node req) pindex ∨
    ∃ stopped verified,
      stopValue node.toWitnessNode req.coin.denomination
        (placeFrom node.toWitnessNode (generateStop node req) pindex) = .ok stopped ∧
      zerocoinRequiredAccumulation ≤ mints.length ∧
      verifyWitness node req
        (accumulate node.toWitnessNode (startValue node req base) mints)
        ((stopped.map (·.2)).getD (startValue node req base)) = .ok verified ∧
      (verified = true → base = none ∨ stopped = none)

variable {node req}

theorem rightResult_false {out : GeneratedWitness} :
    RightResult node req (.ok false out) ↔
      ∀ nHeightMintAdded nHeightCheckpoint bnAccValue stopped,
        ¬ WitnessPossible node req nHeightMintAdded nHeightCheckpoint bnAccValue stopped := by
  constructor
  · intro h nHeightMintAdded nHeightCheckpoint bnAccValue stopped hpossible
    exact absurd (h _ _ _ _ hpossible).1 (by decide)
  · intro h nHeightMintAdded nHeightCheckpoint bnAccValue stopped hpossible
    exact absurd hpossible (h _ _ _ _)

theorem ended_of_rightResult {result : EStateM.Result Stop GeneratedWitness Bool}
    (h : RightResult node req result) : Ended result := by
  cases result with
  | ok done out => trivial
  | error e out => exact absurd h id

/-- **The call never gives true.** -/
theorem generate_not_true (node : MintNode) (req : GenerateRequest) (turns : Nat)
    (out : GeneratedWitness) :
    (generateAccumulatorWitness node req turns).run req.begin ≠ .ok true out := by
  intro hrun
  have hthrow : ∀ (e : Stop) (out' : GeneratedWitness),
      (catchWitness (throw e)).run out' ≠ .ok true out := by
    intro e out' h
    rw [run_catchWitness] at h
    cases e with
    | _ => cases h
  cases hlocked : node.fLocked with
  | false =>
      rw [generateAccumulatorWitness, hlocked] at hrun
      cases hrun
  | true =>
      cases hfound : searchMintHeightOf node req.coin.value with
      | error e =>
          rw [generateAccumulatorWitness, if_pos hlocked, generateTry, hfound] at hrun
          exact hthrow e _ hrun
      | ok nHeightMintAdded =>
          cases hbase : getAccumulatorValue node.toWitnessNode
              (checkpointAfter nHeightMintAdded) req.coin.denomination with
          | error e =>
              rw [run_generate_error hlocked hfound hbase] at hrun
              cases hrun
          | ok base =>
              obtain ⟨out', -, hcount, hresult⟩ := run_generate_ok hlocked hfound hbase
              rw [hresult] at hrun
              cases hscan : (calculateAccumulatedBlocksFor node.toWitnessNode
                  req.coin.denomination (ownMint req nHeightMintAdded) turns
                  (generateStop node req)
                  (node.indexAt (startCheckpoint nHeightMintAdded base - 10))).run
                  { witnessValue := startValue node req base } with
              | error e s =>
                  rw [hscan] at hrun
                  exact hthrow e _ hrun
              | ok stopped s =>
                  rw [hscan] at hrun
                  obtain ⟨out'', hfinish⟩ := @run_finishWitness node req nHeightMintAdded
                    { out' with
                      accumulator := (stopped.map (·.2)).getD out'.accumulator
                      witness := s.witnessValue } hcount
                  unfold generateResult at hrun
                  dsimp only at hrun
                  rw [hfinish] at hrun
                  split at hrun
                  · cases hrun
                  · cases hrun

/-- What is possible is not done. -/
theorem WitnessPossible.not_generatesWitness {nHeightMintAdded nHeightCheckpoint : Int}
    {bnAccValue : CBigNum} {stopped : Int × CBigNum}
    (hpossible : WitnessPossible node req nHeightMintAdded nHeightCheckpoint bnAccValue
      stopped) : ¬ GeneratesWitness node req := by
  rintro ⟨⟨turns, hended⟩, hall⟩
  have hright := hall turns hended
  cases hrun : (generateAccumulatorWitness node req turns).run req.begin with
  | error e out =>
      rw [hrun] at hright
      exact hright
  | ok done out =>
      rw [hrun] at hright
      obtain rfl := (hright _ _ _ _ hpossible).1
      exact generate_not_true node req turns out hrun

/-- For a mint that is found, what the call comes to is what is made of the whole
scan. -/
theorem generatesWitness_iff_whole (hlocked : node.fLocked = true) {nHeightMintAdded : Int}
    (hfound : searchMintHeightOf node req.coin.value = .ok nHeightMintAdded)
    {base : Option (Int × CBigNum)}
    (hbase : getAccumulatorValue node.toWitnessNode (checkpointAfter nHeightMintAdded)
      req.coin.denomination = .ok base) :
    ∃ out : GeneratedWitness, out.accumulator = startValue node req base ∧
      out.nMintsAdded = 0 ∧
      (GeneratesWitness node req ↔ RightResult node req
        (generateResult node req nHeightMintAdded out
          ((wholeCalculation node.toWitnessNode req.coin.denomination
            (ownMint req nHeightMintAdded) (generateStop node req)
            (node.indexAt (startCheckpoint nHeightMintAdded base - 10))).run
            { witnessValue := startValue node req base }))) := by
  obtain ⟨out, hacc, hcount, hrun⟩ := run_generate_ok hlocked hfound hbase
  refine ⟨out, hacc, hcount, ?_⟩
  have hturns := run_calculate node.toWitnessNode req.coin.denomination
    (ownMint req nHeightMintAdded) (generateStop node req)
    (startCheckpoint nHeightMintAdded base - 10)
  have hrunning : ∀ s', ¬ Ended (generateResult node req nHeightMintAdded out
      (.error .running s')) := fun s' hended => hended rfl
  unfold GeneratesWitness
  simp only [hrun]
  constructor
  · rintro ⟨⟨turns, hended⟩, hall⟩
    have hright := hall turns hended
    rcases hturns turns { witnessValue := startValue node req base } with
      hwhole | ⟨s', hrun'⟩
    · rwa [hwhole] at hright
    · rw [hrun'] at hended
      exact absurd hended (hrunning s')
  · intro hright
    obtain ⟨enough, henough⟩ := (calculate_spec node.toWitnessNode req.coin.denomination
      (ownMint req nHeightMintAdded) (generateStop node req)
      (startCheckpoint nHeightMintAdded base - 10)).1
    refine ⟨⟨enough, ?_⟩, fun turns hended => ?_⟩
    · rw [henough]
      exact ended_of_rightResult hright
    · rcases hturns turns { witnessValue := startValue node req base } with
        hwhole | ⟨s', hrun'⟩
      · rwa [hwhole]
      · rw [hrun'] at hended
        exact absurd hended (hrunning s')

/-- What is possible for a mint that is found is refused for no good reason. -/
theorem not_possible_iff {nHeightMintAdded : Int} {base : Option (Int × CBigNum)}
    (hlocked : node.fLocked = true)
    (hfound : searchMintHeightOf node req.coin.value = .ok nHeightMintAdded)
    (hbase : getAccumulatorValue node.toWitnessNode (checkpointAfter nHeightMintAdded)
      req.coin.denomination = .ok base)
    (hreadable : ¬ UnreadableFrom node.toWitnessNode req.coin.denomination
      (generateStop node req)
      (node.indexAt (startCheckpoint nHeightMintAdded base - 10)))
    {stopped : Option (Int × CBigNum)}
    (hstop : stopValue node.toWitnessNode req.coin.denomination
      (placeFrom node.toWitnessNode (generateStop node req)
        (node.indexAt (startCheckpoint nHeightMintAdded base - 10))) = .ok stopped)
    (henough : zerocoinRequiredAccumulation ≤
      (scannedMints node req nHeightMintAdded
        (startCheckpoint nHeightMintAdded base)).length)
    {verified : Bool}
    (hverified : verifyWitness node req
      (accumulate node.toWitnessNode (startValue node req base)
        (scannedMints node req nHeightMintAdded (startCheckpoint nHeightMintAdded base)))
      ((stopped.map (·.2)).getD (startValue node req base)) = .ok verified) :
    (∀ nHeightMintAdded nHeightCheckpoint bnAccValue stopped,
      ¬ WitnessPossible node req nHeightMintAdded nHeightCheckpoint bnAccValue stopped) ↔
        (verified = true → base = none ∨ stopped = none) := by
  constructor
  · rintro hno rfl
    cases base with
    | none => exact Or.inl rfl
    | some base =>
        cases stopped with
        | none => exact Or.inr rfl
        | some stopped =>
            exact absurd ⟨hlocked, hfound, hbase, hreadable, henough, hstop, hverified⟩
              (hno nHeightMintAdded base.1 base.2 stopped)
  · intro hgood nHeightMintAdded' nHeightCheckpoint bnAccValue stopped' hpossible
    obtain rfl := Except.ok.inj (hfound.symm.trans hpossible.found)
    obtain rfl := Except.ok.inj (hbase.symm.trans hpossible.start)
    obtain rfl := Except.ok.inj (hstop.symm.trans hpossible.stop)
    obtain rfl := Except.ok.inj (hverified.symm.trans hpossible.verified)
    rcases hgood rfl with hnone | hnone
    · cases hnone
    · cases hnone

/-- **For a mint that is found** the call is right exactly if it has a good reason to
give false. -/
theorem generatesWitness_found (hlocked : node.fLocked = true) {nHeightMintAdded : Int}
    (hfound : searchMintHeightOf node req.coin.value = .ok nHeightMintAdded)
    {base : Option (Int × CBigNum)}
    (hbase : getAccumulatorValue node.toWitnessNode (checkpointAfter nHeightMintAdded)
      req.coin.denomination = .ok base) :
    GeneratesWitness node req ↔ WitnessRefused node req nHeightMintAdded base := by
  obtain ⟨out, hacc, hcount, hiff⟩ := generatesWitness_iff_whole hlocked hfound hbase
  rw [hiff]
  unfold WitnessRefused
  dsimp only
  by_cases hbad : UnreadableFrom node.toWitnessNode req.coin.denomination
      (generateStop node req) (node.indexAt (startCheckpoint nHeightMintAdded base - 10))
  · -- the exception for the block is caught
    obtain ⟨message, s', hrun, -⟩ := run_wholeCalculation_unreadable node.toWitnessNode
      req.coin.denomination (ownMint req nHeightMintAdded) (generateStop node req) hbad
      { witnessValue := startValue node req base }
    rw [hrun]
    refine iff_of_true ?_ (Or.inl hbad)
    show RightResult node req (.ok false _)
    rw [rightResult_false]
    intro nHeightMintAdded' nHeightCheckpoint bnAccValue stopped hpossible
    obtain rfl := Except.ok.inj (hfound.symm.trans hpossible.found)
    obtain rfl := Except.ok.inj (hbase.symm.trans hpossible.start)
    exact hpossible.readable hbad
  · rw [or_iff_right hbad]
    obtain ⟨s', hadded, hrun⟩ := run_wholeCalculation_readable node.toWitnessNode
      req.coin.denomination (ownMint req nHeightMintAdded) (generateStop node req) hbad
      { witnessValue := startValue node req base }
    rw [hrun]
    have hmints : s'.nMintsAdded = (scannedMints node req nHeightMintAdded
        (startCheckpoint nHeightMintAdded base)).length := by
      rw [hadded.count]
      exact Nat.zero_add _
    cases hend : calculationEnd node.toWitnessNode req.coin.denomination s'.nMintsAdded
        (placeFrom node.toWitnessNode (generateStop node req)
          (node.indexAt (startCheckpoint nHeightMintAdded base - 10))) with
    | error e =>
        obtain ⟨out', hresult⟩ := @generateResult_error node req nHeightMintAdded out s' e
          (calculationEnd_error _ _ hend)
        dsimp only
        rw [hresult]
        refine iff_of_false id ?_
        rintro ⟨stopped, verified, hstop, henough, -⟩
        rw [← hmints] at henough
        rw [(calculationEnd_ok_iff _ _).mpr ⟨hstop, henough⟩] at hend
        cases hend
    | ok stopped =>
        obtain ⟨hstop, henough⟩ := (calculationEnd_ok_iff _ _).mp hend
        rw [hmints] at henough
        have hwitness : s'.witnessValue = accumulate node.toWitnessNode
            (startValue node req base) (scannedMints node req nHeightMintAdded
              (startCheckpoint nHeightMintAdded base)) := hadded.value
        obtain ⟨out', hresult⟩ := @run_finishWitness node req nHeightMintAdded
          { out with
            accumulator := (stopped.map (·.2)).getD out.accumulator
            witness := s'.witnessValue } hcount
        dsimp only at hresult
        rw [hwitness, hacc] at hresult
        dsimp only
        unfold generateResult
        dsimp only
        rw [hwitness, hacc, hresult]
        cases hverified : verifyWitness node req
            (accumulate node.toWitnessNode (startValue node req base)
              (scannedMints node req nHeightMintAdded
                (startCheckpoint nHeightMintAdded base)))
            ((stopped.map (·.2)).getD (startValue node req base)) with
        | error e =>
            refine iff_of_false id ?_
            rintro ⟨stopped', verified, hstop', -, hverified', -⟩
            obtain rfl := Except.ok.inj (hstop.symm.trans hstop')
            rw [hverified] at hverified'
            cases hverified'
        | ok verified =>
            show RightResult node req (.ok false out') ↔ _
            rw [rightResult_false, not_possible_iff hlocked hfound hbase hbad hstop henough
              hverified]
            constructor
            · intro hgood
              exact ⟨stopped, verified, hstop, henough, hverified, hgood⟩
            · rintro ⟨stopped', verified', hstop', -, hverified', hgood⟩
              obtain rfl := Except.ok.inj (hstop.symm.trans hstop')
              obtain rfl := Except.ok.inj (hverified.symm.trans hverified')
              exact hgood

/-- **The function does what it is for** exactly if the lock is not got, or the mint
is not found, or there is a good reason for its giving false. -/
theorem generatesWitness_iff (node : MintNode) (req : GenerateRequest) :
    GeneratesWitness node req ↔
      node.fLocked = false ∨
      (∃ message, searchMintHeightOf node req.coin.value =
        .error (.searchMintHeightException message)) ∨
      ∃ nHeightMintAdded base,
        searchMintHeightOf node req.coin.value = .ok nHeightMintAdded ∧
        getAccumulatorValue node.toWitnessNode (checkpointAfter nHeightMintAdded)
          req.coin.denomination = .ok base ∧
        WitnessRefused node req nHeightMintAdded base := by
  cases hlocked : node.fLocked with
  | false =>
      refine iff_of_true ?_ (Or.inl rfl)
      have hrun : ∀ turns, (generateAccumulatorWitness node req turns).run req.begin =
          .ok false req.begin := by
        intro turns
        rw [generateAccumulatorWitness, hlocked]
        rfl
      refine ⟨⟨0, ?_⟩, fun turns _ => ?_⟩
      · rw [hrun]
        trivial
      · rw [hrun, rightResult_false]
        intro nHeightMintAdded nHeightCheckpoint bnAccValue stopped hpossible
        rw [hpossible.locked] at hlocked
        cases hlocked
  | true =>
      rw [or_iff_right (by decide)]
      cases hfound : searchMintHeightOf node req.coin.value with
      | error e =>
          have hrun : ∀ turns, (generateAccumulatorWitness node req turns).run req.begin =
              (catchWitness (throw e)).run req.begin := by
            intro turns
            rw [generateAccumulatorWitness, if_pos hlocked]
            unfold generateTry
            rw [hfound]
          rcases searchMintHeightOf_error hfound with rfl | ⟨message, rfl⟩
          · -- a null pointer is followed
            refine iff_of_false ?_ ?_
            · rintro ⟨-, hall⟩
              have hright := hall 0
              rw [hrun] at hright
              exact hright nofun
            · rintro (⟨message, h⟩ | ⟨nHeightMintAdded, base, h, -⟩)
              · cases h
              · cases h
          · refine iff_of_true ⟨⟨0, ?_⟩, fun turns _ => ?_⟩ (Or.inl ⟨message, rfl⟩)
            · rw [hrun]
              trivial
            · rw [hrun]
              show RightResult node req (.ok false req.begin)
              rw [rightResult_false]
              intro nHeightMintAdded nHeightCheckpoint bnAccValue stopped hpossible
              rw [hpossible.found] at hfound
              cases hfound
      | ok nHeightMintAdded =>
          rw [or_iff_right (by rintro ⟨message, h⟩; cases h)]
          cases hbase : getAccumulatorValue node.toWitnessNode
              (checkpointAfter nHeightMintAdded) req.coin.denomination with
          | error e =>
              refine iff_of_false ?_ ?_
              · rintro ⟨-, hall⟩
                have hright := hall 0
                rw [run_generate_error hlocked hfound hbase] at hright
                apply hright
                rcases getAccumulatorValue_error hbase with rfl | rfl
                · exact nofun
                · exact nofun
              · rintro ⟨nHeightMintAdded', base, hfound', hbase', -⟩
                obtain rfl := Except.ok.inj hfound'
                rw [hbase] at hbase'
                cases hbase'
          | ok base =>
              rw [generatesWitness_found hlocked hfound hbase]
              constructor
              · intro hrefused
                exact ⟨nHeightMintAdded, base, rfl, hbase, hrefused⟩
              · rintro ⟨nHeightMintAdded', base', hfound', hbase', hrefused⟩
                obtain rfl := Except.ok.inj hfound'
                obtain rfl := Except.ok.inj (hbase.symm.trans hbase')
                exact hrefused

end Spec

/-! ## A witness that is possible -/

/-- A regression test chain with two mints, at the heights 325 and 335. -/
def twoMints : MintNode where
  params := mintedNode.params
  chainActive :=
    List.replicate 325 ⟨[], 0, .ok []⟩ ++ [⟨[.ZQ_ONE], 0, .ok [⟨.ZQ_ONE, 7⟩]⟩] ++
      List.replicate 9 ⟨[], 0, .ok []⟩ ++ [⟨[.ZQ_ONE], 0, .ok [⟨.ZQ_ONE, 13⟩]⟩] ++
      List.replicate 35 ⟨[], 0, .ok []⟩
  checksums := ⟨KeyedMap.empty.insert 0 5, KeyedMap.empty⟩
  mapCheckpoints := []
  accumulatorBase := 961
  powMod := fun value e => value ^ e.toNat % 7
  fLocked := true
  readCoinMint := fun value => if value = 7 then some 1 else none
  getTransaction := fun txid _ => if txid = 1 then some 2 else none
  mapBlockIndex := fun hashBlock => if hashBlock = 2 then some 325 else none
  chainContains := fun hashBlock => hashBlock = 2
  validate := fun _ => true
  getHex := fun _ => "1"

/-- A witness for the first of them. -/
def firstMint : GenerateRequest where
  coin := ⟨.ZQ_ONE, 7⟩
  pindexCheckpoint := none
  accumulator := 961
  witness := 961
  witnessDenomination := .ZQ_ONE
  nMintsAdded := 0
  strError := ""

theorem readable_twoMints (pindex : Option Int) :
    ¬ UnreadableFrom twoMints.toWitnessNode .ZQ_ONE (generateStop twoMints firstMint)
      pindex := by
  rintro ⟨nHeight, -, block, message, hblock, -, herror⟩
  unfold WitnessNode.blockAt at hblock
  split_ifs at hblock
  have hmem := List.mem_of_getElem? hblock
  simp only [twoMints, List.mem_append, List.mem_replicate, List.mem_singleton] at hmem
  obtain (((⟨-, rfl⟩ | rfl) | ⟨-, rfl⟩) | rfl) | ⟨-, rfl⟩ := hmem
  · cases herror
  · cases herror
  · cases herror
  · cases herror
  · cases herror

/-- The other mint is in the witness, which verifies, and false is given. -/
theorem generatesWitness_firstMint : ¬ GeneratesWitness twoMints firstMint := by
  have hpossible : WitnessPossible twoMints firstMint 325 330 5 (350, 5) := by
    refine ⟨rfl, rfl, ?_, readable_twoMints _, ?_, ?_, ?_⟩
    · decide +kernel
    · decide +kernel
    · decide +kernel
    · decide +kernel
  exact hpossible.not_generatesWitness

end Agrarian.Zerocoin
