import Agrarian.Stake.Kernel

/-!
# The modifier of a kernel

`GetKernelStakeModifier` with all that it returns, as the loop that fetches the
next block of the active chain by its height.  `Stake.Kernel` has the same loop
over the list of the blocks above the starting one, with the modifier alone.
-/

namespace Agrarian.Stake

/-- What `GetKernelStakeModifier` returns. -/
structure KernelModifier where
  nStakeModifier : UInt64
  nStakeModifierHeight : Int
  nStakeModifierTime : Int
  deriving DecidableEq

namespace KernelModifier

/-- The modifier that a block generated. -/
def ofBlock (pindex : CBlockIndex) : KernelModifier :=
  ⟨pindex.nStakeModifier, pindex.nHeight, pindex.getBlockTime⟩

/-- The variables of the loop. -/
structure Search where
  pindex : CBlockIndex
  pindexNext : Option CBlockIndex
  nStakeModifierHeight : Int
  nStakeModifierTime : Int

variable (chain : List CBlockIndex) (nTimeStop : Int)

/-- The loop, at most `steps` tests of its condition long; `none` where they do
not suffice, and `some none` where it fails. -/
def loop : Nat → Search → Option (Option KernelModifier)
  | 0, _ => none
  | steps + 1, s =>
      if s.nStakeModifierTime < nTimeStop then
        match s.pindexNext with
        | none => some none
        | some pindex =>
            loop steps
              { pindex
                pindexNext := chainAt chain (pindex.nHeight + 1)
                nStakeModifierHeight :=
                  if pindex.fGeneratedStakeModifier then pindex.nHeight
                  else s.nStakeModifierHeight
                nStakeModifierTime :=
                  if pindex.fGeneratedStakeModifier then pindex.getBlockTime
                  else s.nStakeModifierTime }
      else
        some (some ⟨s.pindex.nStakeModifier, s.nStakeModifierHeight, s.nStakeModifierTime⟩)

/-- `GetKernelStakeModifier`, with a bound on the tests of the loop. -/
def get (params : StakeParams) (mapBlockIndex : Uint256 → Option CBlockIndex) (steps : Nat)
    (hashBlockFrom : Uint256) : Option (Option KernelModifier) :=
  match mapBlockIndex hashBlockFrom with
  | none => some none
  | some pindexFrom =>
      if pindexFrom.nHeight < params.nFirstPoSBlock then some none
      -- fixed stake modifier only for regtest
      else if params.fRegTest then some (some (ofBlock pindexFrom))
      else
        loop chain (pindexFrom.getBlockTime + getStakeModifierSelectionInterval) steps
          { pindex := pindexFrom
            pindexNext := chainAt chain (pindexFrom.nHeight + 1)
            nStakeModifierHeight := pindexFrom.nHeight
            nStakeModifierTime := pindexFrom.getBlockTime }

/-- A block that generated a modifier, at the end of the interval or later. -/
def lateEnough (pindex : CBlockIndex) : Bool :=
  pindex.fGeneratedStakeModifier && decide (nTimeStop ≤ pindex.getBlockTime)

/-- The entries of the active chain know their heights. -/
def Positioned : Prop :=
  ∀ (i : Nat) (pindex : CBlockIndex), chain[i]? = some pindex → pindex.nHeight = i

variable {chain nTimeStop}

theorem chainAt_succ (i : Nat) : chainAt chain ((i : Int) + 1) = chain[i + 1]? := by
  rw [chainAt, if_neg (by omega)]
  congr 1

/-- The loop ends at the first block that is late enough. -/
theorem loop_eq_find (hpos : Positioned chain) {steps position : Nat} {s : Search}
    (hnext : s.pindexNext = chain[position]?) (hearly : s.nStakeModifierTime < nTimeStop)
    (hposition : position ≤ chain.length) (hsteps : chain.length < steps + position) :
    loop chain nTimeStop steps s =
      some (((chain.drop position).find? (lateEnough nTimeStop)).map ofBlock) := by
  induction steps generalizing position s with
  | zero => omega
  | succ steps ih =>
      rw [loop, if_pos hearly]
      cases hblock : chain[position]? with
      | none =>
          have hempty : chain.drop position = [] :=
            List.drop_eq_nil_of_le (List.getElem?_eq_none_iff.mp hblock)
          rw [hnext, hblock, hempty]
          rfl
      | some pindex =>
          have hheight := hpos position pindex hblock
          obtain ⟨hlt, hget⟩ := List.getElem?_eq_some_iff.mp hblock
          have hdrop : chain.drop position = pindex :: chain.drop (position + 1) := by
            rw [List.drop_eq_getElem_cons hlt, hget]
          rw [hnext, hblock, hdrop, List.find?_cons]
          dsimp only
          rw [hheight]
          by_cases hgenerated : pindex.fGeneratedStakeModifier = true
          · by_cases hlate : nTimeStop ≤ pindex.getBlockTime
            · -- the loop's condition fails at the next test
              have hfound : lateEnough nTimeStop pindex = true := by
                simp [lateEnough, hgenerated, hlate]
              rw [hfound]
              cases steps with
              | zero => omega
              | succ steps =>
                  simp only [if_pos hgenerated]
                  rw [loop, if_neg (by dsimp only; omega), ← hheight]
                  rfl
            · have hfound : lateEnough nTimeStop pindex = false := by
                simp [lateEnough, hlate]
              rw [hfound]
              simp only [if_pos hgenerated]
              exact ih (chainAt_succ position) (by dsimp only; omega) (by omega) (by omega)
          · have hfound : lateEnough nTimeStop pindex = false := by
              simp [lateEnough, hgenerated]
            rw [hfound]
            simp only [if_neg hgenerated]
            exact ih (chainAt_succ position) hearly (by omega) (by omega)

theorem selectionInterval_pos : 0 < getStakeModifierSelectionInterval := by decide +kernel

/-- The loop over the list of blocks finds the same modifier. -/
theorem kernelLoop_eq_find {nStakeModifierTime : Int} {pindex : CBlockIndex}
    {rest : List CBlockIndex} (hearly : nStakeModifierTime < nTimeStop) :
    kernelLoop nTimeStop nStakeModifierTime pindex rest =
      (rest.find? (lateEnough nTimeStop)).map CBlockIndex.nStakeModifier := by
  induction rest generalizing nStakeModifierTime pindex with
  | nil => rw [kernelLoop, if_pos hearly, List.find?_nil, Option.map_none]
  | cons pindexNext rest ih =>
      rw [kernelLoop, if_pos hearly, List.find?_cons]
      by_cases hgenerated : pindexNext.fGeneratedStakeModifier = true
      · rw [if_pos hgenerated]
        by_cases hlate : nTimeStop ≤ pindexNext.getBlockTime
        · have hfound : lateEnough nTimeStop pindexNext = true := by
            simp [lateEnough, hgenerated, hlate]
          have hstop : ∀ later, kernelLoop nTimeStop pindexNext.getBlockTime pindexNext later =
              some pindexNext.nStakeModifier := by
            intro later
            cases later with
            | nil => rw [kernelLoop, if_neg (by omega)]
            | cons next later => rw [kernelLoop, if_neg (by omega)]
          rw [hfound, hstop]
          rfl
        · have hfound : lateEnough nTimeStop pindexNext = false := by
            simp [lateEnough, hlate]
          rw [hfound, ih (by omega)]
      · have hfound : lateEnough nTimeStop pindexNext = false := by
          simp [lateEnough, hgenerated]
        rw [hfound, if_neg hgenerated, ih hearly]

/-- The first block after `pindexFrom` whose modifier its kernels use. -/
def firstLate (chain : List CBlockIndex) (pindexFrom : CBlockIndex) : Option CBlockIndex :=
  (chainAbove chain pindexFrom.nHeight).find?
    (lateEnough (pindexFrom.getBlockTime + getStakeModifierSelectionInterval))

/-- What `firstLate` says: no block between is late enough. -/
theorem firstLate_eq_some {pindexFrom pindex : CBlockIndex}
    (h : firstLate chain pindexFrom = some pindex) :
    ∃ between after, chainAbove chain pindexFrom.nHeight = between ++ pindex :: after ∧
      pindex.fGeneratedStakeModifier = true ∧
      pindexFrom.getBlockTime + getStakeModifierSelectionInterval ≤ pindex.getBlockTime ∧
      ∀ b ∈ between, b.fGeneratedStakeModifier = true →
        b.getBlockTime < pindexFrom.getBlockTime + getStakeModifierSelectionInterval := by
  obtain ⟨hlate, between, after, heq, hbefore⟩ := List.find?_eq_some_iff_append.mp h
  simp only [lateEnough, Bool.and_eq_true, decide_eq_true_eq] at hlate
  refine ⟨between, after, heq, hlate.1, hlate.2, fun b hb hgenerated => ?_⟩
  have hnot := hbefore b hb
  simp only [lateEnough, hgenerated, Bool.true_and, Bool.not_eq_true', decide_eq_false_iff_not]
    at hnot
  omega

theorem firstLate_eq_none {pindexFrom : CBlockIndex} (h : firstLate chain pindexFrom = none) :
    ∀ b ∈ chainAbove chain pindexFrom.nHeight, b.fGeneratedStakeModifier = true →
      b.getBlockTime < pindexFrom.getBlockTime + getStakeModifierSelectionInterval := by
  intro b hb hgenerated
  have hnot := List.find?_eq_none.mp h b hb
  simp only [lateEnough, hgenerated, Bool.true_and, decide_eq_true_eq] at hnot
  omega

/-- `Stake.Kernel` computes the same modifier. -/
theorem kernelModifierFrom_eq (params : StakeParams) (pindexFrom : CBlockIndex)
    (hstarted : ¬ pindexFrom.nHeight < params.nFirstPoSBlock)
    (hregtest : params.fRegTest = false) :
    kernelModifierFrom params chain pindexFrom =
      (firstLate chain pindexFrom).map CBlockIndex.nStakeModifier := by
  have hpos := selectionInterval_pos
  rw [kernelModifierFrom, if_neg hstarted, if_neg (by simp [hregtest]),
    kernelLoop_eq_find (by omega)]
  rfl

/-- **`GetKernelStakeModifier`.**  For a block of the active chain the loop ends
within one test more than the chain has blocks.  Blocks before the start of
proof of stake have no modifier, and in the regression tests a block has its
own; otherwise it is that of the first block after it that generated one a
selection interval later, and it fails only where there is none. -/
theorem kernelStakeModifier_spec (params : StakeParams)
    (mapBlockIndex : Uint256 → Option CBlockIndex) (chain : List CBlockIndex)
    (hpos : Positioned chain) (hashBlockFrom : Uint256) (pindexFrom : CBlockIndex)
    (hindex : mapBlockIndex hashBlockFrom = some pindexFrom)
    (hactive : chainAt chain pindexFrom.nHeight = some pindexFrom) (steps : Nat)
    (hsteps : chain.length < steps) :
    ∃ result, get chain params mapBlockIndex steps hashBlockFrom = some result ∧
      (pindexFrom.nHeight < params.nFirstPoSBlock → result = none) ∧
      (¬ pindexFrom.nHeight < params.nFirstPoSBlock → params.fRegTest = true →
        result = some (ofBlock pindexFrom)) ∧
      (¬ pindexFrom.nHeight < params.nFirstPoSBlock → params.fRegTest = false →
        (∀ modifier, result = some modifier → ∃ pindex between after,
          chainAbove chain pindexFrom.nHeight = between ++ pindex :: after ∧
          modifier = ⟨pindex.nStakeModifier, pindex.nHeight, pindex.getBlockTime⟩ ∧
          pindex.fGeneratedStakeModifier = true ∧
          pindexFrom.getBlockTime + getStakeModifierSelectionInterval ≤ pindex.getBlockTime ∧
          ∀ b ∈ between, b.fGeneratedStakeModifier = true →
            b.getBlockTime < pindexFrom.getBlockTime + getStakeModifierSelectionInterval) ∧
        (result = none → ∀ b ∈ chainAbove chain pindexFrom.nHeight,
          b.fGeneratedStakeModifier = true →
            b.getBlockTime < pindexFrom.getBlockTime + getStakeModifierSelectionInterval)) := by
  have hinterval := selectionInterval_pos
  have hbound : 0 ≤ pindexFrom.nHeight := by
    by_contra hneg
    rw [chainAt, if_pos (by omega)] at hactive
    cases hactive
  have hinside : pindexFrom.nHeight.toNat < chain.length := by
    rw [chainAt, if_neg (by omega)] at hactive
    exact (List.getElem?_eq_some_iff.mp hactive).1
  have hnext : chainAt chain (pindexFrom.nHeight + 1) =
      chain[(pindexFrom.nHeight + 1).toNat]? := by
    rw [chainAt, if_neg (by omega)]
  unfold get
  rw [hindex]
  dsimp only
  by_cases hstarted : pindexFrom.nHeight < params.nFirstPoSBlock
  · rw [if_pos hstarted]
    exact ⟨none, rfl, fun _ => rfl, fun hnot => absurd hstarted hnot,
      fun hnot => absurd hstarted hnot⟩
  rw [if_neg hstarted]
  cases hregtest : params.fRegTest with
  | true =>
      rw [if_pos rfl]
      exact ⟨_, rfl, fun h => absurd h hstarted, fun _ _ => rfl, fun _ h => by cases h⟩
  | false =>
      rw [if_neg (by decide), loop_eq_find hpos hnext (by dsimp only; omega) (by omega)
        (by omega)]
      refine ⟨_, rfl, fun h => absurd h hstarted, fun _ h => (by cases h), fun _ _ => ⟨?_, ?_⟩⟩
      · intro modifier hmodifier
        obtain ⟨pindex, hfirst, heq⟩ := Option.map_eq_some_iff.mp hmodifier
        obtain ⟨between, after, happ, hgenerated, hlate, hbefore⟩ := firstLate_eq_some hfirst
        exact ⟨pindex, between, after, happ, heq.symm, hgenerated, hlate, hbefore⟩
      · intro hnone
        exact firstLate_eq_none (Option.map_eq_none_iff.mp hnone)

/-- A chain of the genesis block and three more, each an hour later. -/
def hourly : List CBlockIndex :=
  (List.range 4).map fun (i : Nat) =>
    { hash := BitVec.ofNat 256 i, nHeight := i, nTime := 3600 * i.toUInt32,
      fProofOfStake := false, nStakeModifier := i.toUInt64, fGeneratedStakeModifier := true }

/-- The last but one of the hourly blocks uses the modifier of the last one. -/
theorem kernelStakeModifier_spec_hourly :
    ∃ result, get hourly mainStakeParams (fun hash => hourly[hash.toNat]?) 5 2 =
      some result := by
  obtain ⟨result, hresult, -⟩ := kernelStakeModifier_spec mainStakeParams
    (fun hash => hourly[hash.toNat]?) hourly (by
      intro i pindex h
      rw [hourly, List.getElem?_map] at h
      obtain ⟨n, hn, rfl⟩ := Option.map_eq_some_iff.mp h
      rw [List.getElem?_range (by
        by_contra hge
        rw [List.getElem?_eq_none (by simpa using hge)] at hn
        cases hn)] at hn
      cases hn
      rfl) 2
    { hash := 2, nHeight := 2, nTime := 7200, fProofOfStake := false, nStakeModifier := 2,
      fGeneratedStakeModifier := true } (by decide +kernel) (by decide +kernel) 5 (by decide)
  exact ⟨result, hresult⟩

/-- The block at height 1 fails although the next one generated a modifier an
hour later, and in the regression tests a block gets its own modifier. -/
theorem no_later_modifier :
    get hourly mainStakeParams (fun hash => hourly[hash.toNat]?) 5 1 = some none ∧
      firstLate hourly ((hourly[1]?).getD ⟨0, 0, 0, 0, false, 0, false⟩) = hourly[2]? ∧
      hourly[2]?.isSome = true ∧
      get hourly { mainStakeParams with fRegTest := true } (fun hash => hourly[hash.toNat]?) 5 2 =
        some (some ⟨2, 2, 7200⟩) := by
  decide +kernel

end KernelModifier

end Agrarian.Stake
