import Agrarian.Pow.ChainWork

/-!
# The next target

`GetNextWorkRequired` of `pow.cpp`: the Dark Gravity Wave average over the last
24 blocks, and above the last proof-of-work height the retarget from the last
target and the time between the last two blocks.

The products are of a 256-bit number with a 32-bit word, to which the 64-bit
operand is cut off.  A target is compared with the same computation over
unbounded numbers.
-/

namespace Agrarian.Pow

open Agrarian.Uint256

inductive Network
  | MAIN
  | TESTNET
  | REGTEST
  | UNITTEST
  deriving DecidableEq

/-- What `chainparams.cpp` sets for the computation of targets. -/
structure CChainParams where
  networkID : Network
  bnProofOfWorkLimit : Uint256
  nLastPOWBlock : Nat
  nTargetSpacing : Int

/-- `CMainParams`; fifty Julian years of proof of work. -/
def mainParams : CChainParams where
  networkID := .MAIN
  bnProofOfWorkLimit := BitVec.allOnes 256 >>> 20
  nLastPOWBlock := 50 * 31557600 / 600
  nTargetSpacing := 10 * 60

def testNetParams : CChainParams :=
  { mainParams with networkID := .TESTNET, nLastPOWBlock := 200 }

def regTestParams : CChainParams where
  networkID := .REGTEST
  bnProofOfWorkLimit := BitVec.allOnes 256 >>> 1
  nLastPOWBlock := 250
  nTargetSpacing := 1 * 60

def unitTestParams : CChainParams := { mainParams with networkID := .UNITTEST }

def Params : Network → CChainParams
  | .MAIN => mainParams
  | .TESTNET => testNetParams
  | .REGTEST => regTestParams
  | .UNITTEST => unitTestParams

/-! ## The proof-of-stake branch -/

/-- The target of the blocks after the last proof-of-work height, from the last
two blocks; `none` where the source throws. -/
def nextStakeWork (pindexLast pprev : CBlockIndex) : Option UInt32 :=
  let bnTargetLimit := shiftRight (complement 0) 24
  let nTargetSpacing : Int := 60
  let nTargetTimespan : Int := 60 * 40
  let nActualSpacing : Int :=
    if pindexLast.nHeight ≠ 0 then pindexLast.getBlockTime - pprev.getBlockTime else 0
  let nActualSpacing := if nActualSpacing < 0 then 1 else nActualSpacing
  let bnNew := (setCompact pindexLast.nBits).bn
  let nInterval := nTargetTimespan / nTargetSpacing
  -- the factor is converted to a `uint32_t`
  let bnNew := mulWord bnNew (BitVec.ofInt 32
    ((nInterval - 1) * nTargetSpacing + nActualSpacing + nActualSpacing))
  (div bnNew ((BitVec.ofInt 64 ((nInterval + 1) * nTargetSpacing)).setWidth 256)).map
    fun bnNew =>
      getCompact32 (if compareTo bnNew 0 ≤ 0 ∨ 0 < compareTo bnNew bnTargetLimit then
        bnTargetLimit else bnNew)

/-! ## Dark Gravity Wave -/

def PastBlocksMin : Nat := 24
def PastBlocksMax : Nat := 24

/-- The variables of the loop. -/
structure Wave where
  CountBlocks : Nat := 0
  PastDifficultyAverage : Uint256 := 0
  PastDifficultyAveragePrev : Uint256 := 0
  nActualTimespan : Int := 0
  LastBlockTime : Int := 0

/-- The loop, from `BlockReading` on; `none` where the source throws. -/
def wave : List CBlockIndex → Nat → Wave → Option Wave
  | [], _, s => some s
  | BlockReading :: pprev, i, s =>
      if BlockReading.nHeight = 0 ∨ PastBlocksMax < i then some s
      else
        let CountBlocks := s.CountBlocks + 1
        let bnTarget := (setCompact BlockReading.nBits).bn
        let average :=
          if CountBlocks ≤ PastBlocksMin then
            if CountBlocks = 1 then some bnTarget
            else
              div (add (mulWord s.PastDifficultyAveragePrev (BitVec.ofNat 32 CountBlocks))
                bnTarget) (BitVec.ofNat 256 (CountBlocks + 1))
          else some s.PastDifficultyAverage
        average.bind fun average =>
          wave pprev (i + 1)
            { CountBlocks
              PastDifficultyAverage := average
              PastDifficultyAveragePrev :=
                if CountBlocks ≤ PastBlocksMin then average
                else s.PastDifficultyAveragePrev
              nActualTimespan :=
                if 0 < s.LastBlockTime then
                  s.nActualTimespan + (s.LastBlockTime - BlockReading.getBlockTime)
                else s.nActualTimespan
              LastBlockTime := BlockReading.getBlockTime }

/-- `nActualTimespan` between a third and three times the target timespan. -/
def clampTimespan (nActualTimespan nTargetTimespan : Int) : Int :=
  let nActualTimespan :=
    if nActualTimespan < nTargetTimespan / 3 then nTargetTimespan / 3 else nActualTimespan
  if nTargetTimespan * 3 < nActualTimespan then nTargetTimespan * 3 else nActualTimespan

/-- `GetNextWorkRequired` with `pindexLast`, the head of the chain; `none` where
the source throws or follows a null pointer. -/
def getNextWorkRequired (params : CChainParams) (chain : List CBlockIndex) : Option UInt32 :=
  if params.networkID = .REGTEST then chain.head?.map CBlockIndex.nBits
  else
    match chain with
    | [] => some (getCompact32 params.bnProofOfWorkLimit)
    | pindexLast :: pprev =>
        if pindexLast.nHeight = 0 ∨ pindexLast.nHeight < PastBlocksMin then
          some (getCompact32 params.bnProofOfWorkLimit)
        else if params.nLastPOWBlock < pindexLast.nHeight then
          pprev.head?.bind fun pprev => nextStakeWork pindexLast pprev
        else
          (wave (pindexLast :: pprev) 1 {}).bind fun s =>
            let nTargetTimespan : Int := s.CountBlocks * params.nTargetSpacing
            let nActualTimespan := clampTimespan s.nActualTimespan nTargetTimespan
            let bnNew := mulWord s.PastDifficultyAverage (BitVec.ofInt 32 nActualTimespan)
            (div bnNew ((BitVec.ofInt 64 nTargetTimespan).setWidth 256)).map fun bnNew =>
              getCompact32 (if 0 < compareTo bnNew params.bnProofOfWorkLimit then
                params.bnProofOfWorkLimit else bnNew)

/-! ## The retarget over unbounded numbers -/

/-- The time between the last two blocks, as the source clamps it. -/
def actualSpacing (pindexLast pprev : CBlockIndex) : Nat :=
  if pindexLast.getBlockTime < pprev.getBlockTime then 1
  else pindexLast.nTime.toNat - pprev.nTime.toNat

/-- The new target before it is clamped. -/
def retarget (oldTarget spacing : Nat) : Nat := oldTarget * (2340 + 2 * spacing) / 2460

/-- `bnTargetLimit`. -/
def stakeTargetLimit : Nat := 2 ^ 232 - 1

/-- The clamp: a target of zero is replaced by the limit. -/
def clampStakeTarget (t : Nat) : Nat := if t = 0 then stakeTargetLimit else min t stakeTargetLimit

theorem clampStakeTarget_lt (t : Nat) : clampStakeTarget t < 2 ^ 256 := by
  unfold clampStakeTarget stakeTargetLimit
  split
  · omega
  · omega

theorem toNat_zero_le (v : Uint256) : compareTo v 0 ≤ 0 ↔ v.toNat = 0 := by
  have hgt := compareTo_gt v 0
  rw [BitVec.lt_def] at hgt
  have hz : (0 : Uint256).toNat = 0 := rfl
  omega

theorem clampStakeTarget_eq (v : Uint256) :
    (if compareTo v 0 ≤ 0 ∨ 0 < compareTo v (shiftRight (complement 0) 24) then
      shiftRight (complement 0) 24 else v).toNat = clampStakeTarget v.toNat := by
  have hlimit : (shiftRight (complement 0) 24).toNat = stakeTargetLimit := by
    rw [shiftRight_eq, complement_eq]
    rfl
  have hgt := compareTo_gt v (shiftRight (complement 0) 24)
  have hzero := toNat_zero_le v
  rw [BitVec.lt_def, hlimit] at hgt
  unfold clampStakeTarget
  by_cases hclamp : compareTo v 0 ≤ 0 ∨ 0 < compareTo v (shiftRight (complement 0) 24)
  · rw [if_pos hclamp, hlimit]
    split
    · rfl
    · omega
  · rw [if_neg hclamp]
    split
    · omega
    · omega

/-- A number below `2 ^ 31`, in the conversions that the source makes. -/
theorem toNat_ofInt32 {n : Nat} (h : n < 2 ^ 32) : (BitVec.ofInt 32 (n : Int)).toNat = n := by
  rw [BitVec.toNat_ofInt]
  omega

theorem toNat_ofInt64 {n : Nat} (h : n < 2 ^ 63) :
    ((BitVec.ofInt 64 (n : Int)).setWidth 256).toNat = n := by
  rw [BitVec.toNat_setWidth, BitVec.toNat_ofInt]
  omega

/-- A product that fits, divided. -/
theorem div_mulWord {v : Uint256} (factor divisor : Nat) (hfactor : factor < 2 ^ 32)
    (hdivisor : 0 < divisor) (hdivisor' : divisor < 2 ^ 63)
    (hfits : v.toNat * factor < 2 ^ 256) :
    ∃ quotient, div (mulWord v (BitVec.ofInt 32 (factor : Int)))
        ((BitVec.ofInt 64 (divisor : Int)).setWidth 256) = some quotient ∧
      quotient.toNat = v.toNat * factor / divisor := by
  have hne : (BitVec.ofInt 64 (divisor : Int)).setWidth 256 ≠ 0 := by
    intro hzero
    have := toNat_ofInt64 hdivisor'
    rw [hzero] at this
    have hz : (0 : Uint256).toNat = 0 := rfl
    omega
  refine ⟨_, div_eq_some _ hne, ?_⟩
  rw [BitVec.toNat_udiv, toNat_mulWord, toNat_ofInt32 hfactor, toNat_ofInt64 hdivisor',
    Nat.mod_eq_of_lt hfits]

theorem actualSpacing_eq (pindexLast pprev : CBlockIndex) :
    (if pindexLast.getBlockTime - pprev.getBlockTime < 0 then 1
      else pindexLast.getBlockTime - pprev.getBlockTime) =
      (actualSpacing pindexLast pprev : Int) := by
  unfold actualSpacing CBlockIndex.getBlockTime
  split
  · rename_i hneg
    rw [if_pos (by omega)]
    rfl
  · rename_i hneg
    rw [if_neg (by omega)]
    omega

/-- The retarget, where the factor and the product fit. -/
theorem nextStakeWork_eq {pindexLast : CBlockIndex} (pprev : CBlockIndex)
    (hheight : pindexLast.nHeight ≠ 0)
    (hfactor : 2340 + 2 * actualSpacing pindexLast pprev < 2 ^ 32)
    (hfits : (setCompact pindexLast.nBits).bn.toNat *
      (2340 + 2 * actualSpacing pindexLast pprev) < 2 ^ 256) :
    nextStakeWork pindexLast pprev =
      some (getCompact32 (BitVec.ofNat 256 (clampStakeTarget
        (retarget (setCompact pindexLast.nBits).bn.toNat
          (actualSpacing pindexLast pprev))))) := by
  have hspacing := actualSpacing_eq pindexLast pprev
  obtain ⟨quotient, hdiv, hquotient⟩ := div_mulWord _ 2460 hfactor (by decide)
    (by decide) hfits
  have hsum : ((60 * 40 / 60 - 1) * 60 : Int) + (actualSpacing pindexLast pprev : Int) +
      (actualSpacing pindexLast pprev : Int) =
        ((2340 + 2 * actualSpacing pindexLast pprev : Nat) : Int) := by
    push_cast
    omega
  have hdivisor : ((60 * 40 / 60 + 1) * 60 : Int) = ((2460 : Nat) : Int) := by decide
  unfold nextStakeWork
  dsimp only
  rw [if_pos hheight, hspacing, hsum, hdivisor, hdiv, Option.map_some]
  apply congrArg fun bnNew => some (getCompact32 bnNew)
  apply BitVec.eq_of_toNat_eq
  rw [clampStakeTarget_eq, hquotient, BitVec.toNat_ofNat, ← retarget,
    Nat.mod_eq_of_lt (clampStakeTarget_lt _)]

theorem retarget_mono (oldTarget : Nat) {spacing spacing' : Nat} (h : spacing ≤ spacing') :
    retarget oldTarget spacing ≤ retarget oldTarget spacing' := by
  unfold retarget
  apply Nat.div_le_div_right
  exact Nat.mul_le_mul_left _ (by omega)

theorem networkID_Params (network : Network) : (Params network).networkID = network := by
  cases network with
  | MAIN => rfl
  | TESTNET => rfl
  | REGTEST => rfl
  | UNITTEST => rfl

/-- Above the last proof-of-work height, the last two blocks decide. -/
theorem getNextWorkRequired_stake {network : Network} (hnetwork : network ≠ .REGTEST)
    {pindexLast : CBlockIndex} (pprev : CBlockIndex) (rest : List CBlockIndex)
    (hheight : (Params network).nLastPOWBlock < pindexLast.nHeight) :
    getNextWorkRequired (Params network) (pindexLast :: pprev :: rest) =
      nextStakeWork pindexLast pprev ∧ pindexLast.nHeight ≠ 0 := by
  have hlast : PastBlocksMin ≤ (Params network).nLastPOWBlock := by
    cases network with
    | MAIN => decide
    | TESTNET => decide
    | REGTEST => decide
    | UNITTEST => decide
  have hmin : PastBlocksMin = 24 := rfl
  unfold getNextWorkRequired
  rw [networkID_Params, if_neg hnetwork]
  dsimp only
  rw [if_neg (by omega), if_pos hheight, List.head?_cons, Option.bind_some]
  exact ⟨rfl, by omega⟩

/-- **The proof-of-stake retarget.**  Where the factor is a word and its product
with the last target fits, the next target is the exact one, clamped; and there
more time between the blocks never gives a smaller one that is not zero. -/
theorem retarget_exact (network : Network) (hnetwork : network ≠ .REGTEST)
    (pindexLast pprev : CBlockIndex) (rest : List CBlockIndex)
    (hheight : (Params network).nLastPOWBlock < pindexLast.nHeight) (oldTarget : Nat)
    (htarget : target pindexLast.nBits = some oldTarget)
    (hfactor : 2340 + 2 * actualSpacing pindexLast pprev < 2 ^ 32)
    (hfits : oldTarget * (2340 + 2 * actualSpacing pindexLast pprev) < 2 ^ 256) :
    ∃ nBits, getNextWorkRequired (Params network) (pindexLast :: pprev :: rest) = some nBits ∧
      nBits = getCompact32 (BitVec.ofNat 256
        (if retarget oldTarget (actualSpacing pindexLast pprev) = 0 then stakeTargetLimit
        else min (retarget oldTarget (actualSpacing pindexLast pprev)) stakeTargetLimit)) ∧
      ∀ (pindexLast' pprev' : CBlockIndex) (rest' : List CBlockIndex) (nBits' : UInt32),
        (Params network).nLastPOWBlock < pindexLast'.nHeight →
        pindexLast'.nBits = pindexLast.nBits →
        actualSpacing pindexLast' pprev' ≤ actualSpacing pindexLast pprev →
        retarget oldTarget (actualSpacing pindexLast' pprev') ≠ 0 →
        getNextWorkRequired (Params network) (pindexLast' :: pprev' :: rest') = some nBits' →
        nBits' ≤ nBits := by
  obtain ⟨-, -, -, hbn⟩ := target_eq_some htarget
  obtain ⟨hnext, hne⟩ := getNextWorkRequired_stake hnetwork pprev rest hheight
  have heq := nextStakeWork_eq pprev hne hfactor (by rwa [hbn])
  rw [hbn] at heq
  refine ⟨_, hnext.trans heq, rfl, ?_⟩
  intro pindexLast' pprev' rest' nBits' hheight' hbits hless hpositive hresult
  obtain ⟨hnext', hne'⟩ := getNextWorkRequired_stake hnetwork pprev' rest' hheight'
  have hproduct : oldTarget * (2340 + 2 * actualSpacing pindexLast' pprev') ≤
      oldTarget * (2340 + 2 * actualSpacing pindexLast pprev) :=
    Nat.mul_le_mul_left _ (by omega)
  have heq' := nextStakeWork_eq pprev' hne' (by omega) (by rw [hbits, hbn]; omega)
  rw [hnext', heq', hbits, hbn] at hresult
  have hmono := retarget_mono oldTarget hless
  have hclamp : clampStakeTarget (retarget oldTarget (actualSpacing pindexLast' pprev')) ≤
      clampStakeTarget (retarget oldTarget (actualSpacing pindexLast pprev)) := by
    unfold clampStakeTarget
    rw [if_neg hpositive, if_neg (by omega)]
    omega
  have hlimit := clampStakeTarget_lt (retarget oldTarget (actualSpacing pindexLast pprev))
  cases hresult
  rw [UInt32.le_iff_toNat_le, toNat_getCompact32, toNat_getCompact32]
  apply getCompact_mono
  rw [BitVec.le_def, BitVec.toNat_ofNat, BitVec.toNat_ofNat, Nat.mod_eq_of_lt hlimit,
    Nat.mod_eq_of_lt (by omega)]
  exact hclamp

/-- A minute between two blocks at the limit of proof of stake. -/
theorem retarget_exact_minute :
    ∃ nBits, getNextWorkRequired testNetParams
      [⟨300, 1700000060, 0x1e00ffff, true, 0, 0⟩, ⟨299, 1700000000, 0x1e00ffff, true, 0, 0⟩] =
        some nBits := by
  obtain ⟨nBits, hresult, -⟩ := retarget_exact .TESTNET (by decide)
    ⟨300, 1700000060, 0x1e00ffff, true, 0, 0⟩ ⟨299, 1700000000, 0x1e00ffff, true, 0, 0⟩ []
    (by decide) (0xffff * 2 ^ 216) (by decide +kernel) (by decide) (by decide +kernel)
  rw [show Params .TESTNET = testNetParams from rfl] at hresult
  exact ⟨nBits, hresult⟩

/-- A target of one becomes the limit, where its retarget is zero; and after an
outage of 97 days at the limit of proof of stake the product wraps, so that the
target falls to less than a thousandth of the limit, where it would stay. -/
theorem retarget_jumps :
    getNextWorkRequired testNetParams
      [⟨300, 1700000000, 0x01010000, true, 0, 0⟩, ⟨299, 1700000000, 0x01010000, true, 0, 0⟩] =
        some 0x1e00ffff ∧
    getCompact32 (BitVec.ofNat 256 (min (retarget 1 0) stakeTargetLimit)) = 0 ∧
    getNextWorkRequired testNetParams
      [⟨300, 1708387567, 0x1e00ffff, true, 0, 0⟩, ⟨299, 1700000000, 0x1e00ffff, true, 0, 0⟩] =
        some 0x1c352d2a ∧
    getCompact32 (BitVec.ofNat 256
      (min (retarget (0xffff * 2 ^ 216) 8387567) stakeTargetLimit)) = 0x1e00ffff := by
  decide +kernel

/-! ## The average over unbounded numbers -/

/-- The average after `count` blocks, as it goes on over the targets of those
before. -/
def averageFrom : Nat → Nat → List Nat → Nat
  | _, average, [] => average
  | count, average, t :: ts =>
      averageFrom (count + 1) ((average * (count + 1) + t) / (count + 2)) ts

/-- The average of the targets, the latest first. -/
def waveAverage : List Nat → Nat
  | [] => 0
  | t :: ts => averageFrom 1 t ts

/-- The weights of the average: the latest target counts twice. -/
def weightedSum : List Nat → Nat
  | [] => 0
  | t :: ts => 2 * t + ts.sum

/-- An average of targets below a limit stays below it. -/
theorem averageFrom_le {limit average : Nat} (count : Nat) {ts : List Nat}
    (haverage : average ≤ limit) (hts : ∀ t ∈ ts, t ≤ limit) : averageFrom count average ts ≤ limit := by
  induction ts generalizing count average with
  | nil => exact haverage
  | cons t ts ih =>
      have ht := hts t List.mem_cons_self
      apply ih
      · apply Nat.div_le_of_le_mul
        have hmul := Nat.mul_le_mul_right (count + 1) haverage
        have hsplit : (count + 2) * limit = limit * (count + 1) + limit := by ring
        omega
      · intro t' ht'
        exact hts t' (List.mem_cons_of_mem _ ht')

/-- Every division of the average loses less than one weight, so that all of
them together lose less than the weights up to the last. -/
theorem averageFrom_bounds (count average sum : Nat) (ts : List Nat)
    (hlow : (count + 1) * average ≤ sum)
    (hhigh : 2 * sum + 2 ≤ 2 * ((count + 1) * average) + count * (count + 1)) :
    (count + ts.length + 1) * averageFrom count average ts ≤ sum + ts.sum ∧
      2 * (sum + ts.sum) + 2 ≤
        2 * ((count + ts.length + 1) * averageFrom count average ts) +
          (count + ts.length) * (count + ts.length + 1) := by
  induction ts generalizing count average sum with
  | nil =>
      rw [averageFrom, List.length_nil, List.sum_nil]
      exact ⟨hlow, hhigh⟩
  | cons t ts ih =>
      have hdiv := Nat.div_add_mod (average * (count + 1) + t) (count + 2)
      have hmod := Nat.mod_lt (average * (count + 1) + t) (by omega : 0 < count + 2)
      have hcomm : average * (count + 1) = (count + 1) * average := Nat.mul_comm ..
      have hsquare : (count + 1) * (count + 1 + 1) = count * (count + 1) + 2 * (count + 1) := by
        ring
      have hstep := ih (count + 1) ((average * (count + 1) + t) / (count + 2)) (sum + t)
        (by
          rw [show count + 1 + 1 = count + 2 from rfl]
          omega)
        (by
          rw [show count + 1 + 1 = count + 2 from rfl] at hsquare ⊢
          omega)
      rw [averageFrom, List.length_cons, List.sum_cons]
      rw [show count + 1 + ts.length = count + (ts.length + 1) by omega, Nat.add_assoc sum t]
        at hstep
      exact hstep

/-- The rounded average of `n` targets and their exact one. -/
theorem waveAverage_bounds {ts : List Nat} (h : ts ≠ []) :
    (ts.length + 1) * waveAverage ts ≤ weightedSum ts ∧
      2 * weightedSum ts + 2 ≤
        2 * ((ts.length + 1) * waveAverage ts) + ts.length * (ts.length + 1) := by
  cases ts with
  | nil => exact absurd rfl h
  | cons t ts =>
      have hbounds := averageFrom_bounds 1 t (2 * t) ts (by omega) (by omega)
      rw [waveAverage, weightedSum, List.length_cons]
      rw [Nat.add_comm 1 ts.length] at hbounds
      exact hbounds

theorem waveAverage_le {limit : Nat} {ts : List Nat} (h : ∀ t ∈ ts, t ≤ limit) :
    waveAverage ts ≤ limit := by
  cases ts with
  | nil => exact Nat.zero_le _
  | cons t ts =>
      exact averageFrom_le 1 (h t List.mem_cons_self)
        fun t' ht' => h t' (List.mem_cons_of_mem _ ht')

/-! ## The loop computes the average -/

/-- The target of a block, as the loop decodes it. -/
def blockTarget (block : CBlockIndex) : Nat := (setCompact block.nBits).bn.toNat

/-- One step of the average stays in the word. -/
theorem div_average (average bnTarget : Uint256) {limit count : Nat} (hlimit : limit < 2 ^ 236)
    (hcount : count < 24) (haverage : average.toNat ≤ limit) (htarget : bnTarget.toNat ≤ limit) :
    ∃ quotient, div (add (mulWord average (BitVec.ofNat 32 (count + 1))) bnTarget)
        (BitVec.ofNat 256 (count + 1 + 1)) = some quotient ∧
      quotient.toNat = (average.toNat * (count + 1) + bnTarget.toNat) / (count + 2) := by
  have hword : (BitVec.ofNat 32 (count + 1)).toNat = count + 1 := by
    rw [BitVec.toNat_ofNat]
    omega
  have hdivisor : (BitVec.ofNat 256 (count + 1 + 1) : Uint256).toNat = count + 2 := by
    rw [BitVec.toNat_ofNat]
    omega
  have hne : (BitVec.ofNat 256 (count + 1 + 1) : Uint256) ≠ 0 := by
    intro hzero
    rw [hzero] at hdivisor
    have hz : (0 : Uint256).toNat = 0 := rfl
    omega
  have hproduct : average.toNat * (count + 1) ≤ limit * 24 :=
    Nat.mul_le_mul haverage (by omega)
  have hmul : (mulWord average (BitVec.ofNat 32 (count + 1))).toNat =
      average.toNat * (count + 1) := by
    rw [toNat_mulWord, hword, Nat.mod_eq_of_lt (by omega)]
  refine ⟨_, div_eq_some _ hne, ?_⟩
  rw [BitVec.toNat_udiv, hdivisor, add_eq, BitVec.toNat_add, hmul, Nat.mod_eq_of_lt (by omega)]

/-- The loop stops after the last block that counts. -/
theorem wave_stop (rest : List CBlockIndex) {i : Nat} (s : Wave) (hi : PastBlocksMax < i) :
    wave rest i s = some s := by
  cases rest with
  | nil => rfl
  | cons block rest => rw [wave, if_pos (Or.inr hi)]

/-- From the second block on, the loop goes on with the average. -/
theorem wave_run {limit : Nat} (hlimit : limit < 2 ^ 236) {blocks rest : List CBlockIndex}
    {s : Wave} (hpos : 1 ≤ s.CountBlocks) (hlen : s.CountBlocks + blocks.length = 24)
    (hprev : s.PastDifficultyAveragePrev = s.PastDifficultyAverage)
    (haverage : s.PastDifficultyAverage.toNat ≤ limit)
    (hheights : ∀ block ∈ blocks, block.nHeight ≠ 0)
    (htargets : ∀ block ∈ blocks, blockTarget block ≤ limit) :
    ∃ s', wave (blocks ++ rest) (s.CountBlocks + 1) s = some s' ∧ s'.CountBlocks = 24 ∧
      s'.PastDifficultyAverage.toNat =
        averageFrom s.CountBlocks s.PastDifficultyAverage.toNat (blocks.map blockTarget) := by
  induction blocks generalizing s with
  | nil =>
      rw [List.length_nil] at hlen
      refine ⟨s, wave_stop _ s ?_, hlen, rfl⟩
      unfold PastBlocksMax
      omega
  | cons block blocks ih =>
      rw [List.length_cons] at hlen
      have hheight := hheights block List.mem_cons_self
      have htarget := htargets block List.mem_cons_self
      obtain ⟨average, hdiv, hvalue⟩ := div_average s.PastDifficultyAverage
        (setCompact block.nBits).bn hlimit (by omega : s.CountBlocks < 24)
        haverage htarget
      have hmin : s.CountBlocks + 1 ≤ PastBlocksMin := by
        unfold PastBlocksMin
        omega
      have hin : ¬ (block.nHeight = 0 ∨ PastBlocksMax < s.CountBlocks + 1) := by
        unfold PastBlocksMax
        omega
      have hnext : average.toNat ≤ limit := by
        have hle := averageFrom_le s.CountBlocks haverage
          (show ∀ t ∈ [blockTarget block], t ≤ limit by simpa using htarget)
        rw [averageFrom, averageFrom] at hle
        rw [hvalue]
        exact hle
      rw [List.cons_append, wave, if_neg hin]
      dsimp only
      rw [if_pos hmin, if_neg (by omega), hprev, hdiv, Option.bind_some]
      simp only [if_pos hmin]
      obtain ⟨s', hrun, hcount, haverage'⟩ := ih
        (s := { s with
          CountBlocks := s.CountBlocks + 1
          PastDifficultyAverage := average
          PastDifficultyAveragePrev := average
          nActualTimespan :=
            if 0 < s.LastBlockTime then
              s.nActualTimespan + (s.LastBlockTime - block.getBlockTime)
            else s.nActualTimespan
          LastBlockTime := block.getBlockTime })
        (Nat.le_add_left ..) (by show s.CountBlocks + 1 + blocks.length = 24; omega) rfl hnext
        (fun b hb => hheights b (List.mem_cons_of_mem _ hb))
        (fun b hb => htargets b (List.mem_cons_of_mem _ hb))
      refine ⟨s', hrun, hcount, ?_⟩
      rw [haverage', List.map_cons, averageFrom]
      show averageFrom (s.CountBlocks + 1) average.toNat _ = _
      rw [hvalue]
      rfl

/-- The first block starts the average. -/
theorem wave_spec {limit : Nat} (hlimit : limit < 2 ^ 236) (blocks rest : List CBlockIndex)
    (hlen : blocks.length = 24) (hheights : ∀ block ∈ blocks, block.nHeight ≠ 0)
    (htargets : ∀ block ∈ blocks, blockTarget block ≤ limit) :
    ∃ s, wave (blocks ++ rest) 1 {} = some s ∧ s.CountBlocks = 24 ∧
      s.PastDifficultyAverage.toNat = waveAverage (blocks.map blockTarget) := by
  cases blocks with
  | nil => cases hlen
  | cons block blocks =>
      have hheight := hheights block List.mem_cons_self
      have hin : ¬ (block.nHeight = 0 ∨ PastBlocksMax < 1) := by
        unfold PastBlocksMax
        omega
      rw [List.length_cons] at hlen
      rw [List.cons_append, wave, if_neg hin]
      exact wave_run hlimit
        (s := { CountBlocks := 1
                PastDifficultyAverage := (setCompact block.nBits).bn
                PastDifficultyAveragePrev := (setCompact block.nBits).bn
                LastBlockTime := block.getBlockTime })
        (Nat.le_refl 1) (by show 1 + blocks.length = 24; omega) rfl
        (htargets block List.mem_cons_self)
        (fun b hb => hheights b (List.mem_cons_of_mem _ hb))
        (fun b hb => htargets b (List.mem_cons_of_mem _ hb))

/-! ## Dark Gravity Wave -/

theorem clampTimespan_bounds (nActualTimespan : Int) (timespan : Nat) :
    ∃ span : Nat, clampTimespan nActualTimespan (timespan : Int) = (span : Int) ∧
      timespan / 3 ≤ span ∧ span ≤ 3 * timespan := by
  unfold clampTimespan
  dsimp only
  split
  · split
    · exact ⟨timespan * 3, by push_cast; rfl, by omega, by omega⟩
    · exact ⟨timespan / 3, by push_cast; rfl, by omega, by omega⟩
  · rename_i hlow
    split
    · exact ⟨timespan * 3, by push_cast; rfl, by omega, by omega⟩
    · rename_i hhigh
      exact ⟨nActualTimespan.toNat, by omega, by omega, by omega⟩

/-- The heights of a chain count its entries, down to the genesis block. -/
def HeightsCount : List CBlockIndex → Prop
  | [] => True
  | pindex :: pprevs => pindex.nHeight = pprevs.length ∧ HeightsCount pprevs

instance decidableHeightsCount : (chain : List CBlockIndex) → Decidable (HeightsCount chain)
  | [] => isTrue trivial
  | _ :: pprevs =>
      have := decidableHeightsCount pprevs
      inferInstanceAs (Decidable (_ ∧ _))

theorem HeightsCount.height_ne_zero {chain : List CBlockIndex} (h : HeightsCount chain)
    {n : Nat} (hn : n < chain.length) : ∀ block ∈ chain.take n, block.nHeight ≠ 0 := by
  induction chain generalizing n with
  | nil => simp
  | cons pindex pprevs ih =>
      intro block hmem
      cases n with
      | zero => simp at hmem
      | succ n =>
          rw [List.length_cons] at hn
          rw [List.take_succ_cons, List.mem_cons] at hmem
          rcases hmem with rfl | hmem
          · rw [h.1]
            omega
          · exact ih h.2 (by omega) block hmem

/-- Rounding to the compact form loses less than one part in `2 ^ 15`. -/
theorem getCompact_close (v : Uint256) :
    v.toNat * 2 ^ 15 ≤ (setCompact (getCompact32 v)).bn.toNat * (2 ^ 15 + 1) := by
  by_cases hzero : v = 0
  · subst hzero
    exact Nat.zero_le _
  have hpos := bits_pos hzero
  have hlength : compactLength v = bits v / 8 + 1 := by rw [compactLength, if_neg hzero]
  have hscale := le_scale (compactLength v) 15 (le_of_bits hzero) (by omega)
  rw [toNat_bn_getCompact]
  by_cases hshort : compactLength v ≤ 3
  · have hnone : 8 * (compactLength v - 3) = 0 := by omega
    rw [hnone, Nat.pow_zero, Nat.div_one]
    omega
  · rw [scale, if_neg hshort] at hscale
    have hunit : 0 < 2 ^ (8 * (compactLength v - 3)) := by positivity
    have hmod := Nat.mod_lt v.toNat hunit
    have hdiv := Nat.div_add_mod v.toNat (2 ^ (8 * (compactLength v - 3)))
    have hmul := Nat.mul_le_mul_right (2 ^ (8 * (compactLength v - 3))) hscale
    rw [Nat.mul_comm] at hdiv
    generalize v.toNat / 2 ^ (8 * (compactLength v - 3)) * 2 ^ (8 * (compactLength v - 3)) = top
      at hdiv hmul ⊢
    omega

/-- The limit and the spacing outside the regression tests. -/
theorem Params_eq {network : Network} (h : network ≠ .REGTEST) :
    (Params network).bnProofOfWorkLimit.toNat = 2 ^ 236 - 1 ∧
      (Params network).nTargetSpacing = 600 := by
  cases network with
  | MAIN => decide +kernel
  | TESTNET => decide +kernel
  | REGTEST => exact absurd rfl h
  | UNITTEST => decide +kernel

/-- The target after the timespan is applied, over unbounded numbers. -/
def waveTarget (limit average span timespan : Nat) : Nat := min limit (average * span / timespan)

/-- The branch computes the target of the unbounded numbers. -/
theorem getNextWorkRequired_wave {network : Network} (hnetwork : network ≠ .REGTEST)
    {pindexLast : CBlockIndex} {pprevs : List CBlockIndex}
    (hheights : HeightsCount (pindexLast :: pprevs)) (hmin : 24 ≤ pindexLast.nHeight)
    (hpow : pindexLast.nHeight ≤ (Params network).nLastPOWBlock)
    (htargets : ∀ block ∈ (pindexLast :: pprevs).take 24, blockTarget block ≤ 2 ^ 236 - 1) :
    ∃ span, 4800 ≤ span ∧ span ≤ 43200 ∧
      getNextWorkRequired (Params network) (pindexLast :: pprevs) =
        some (getCompact32 (BitVec.ofNat 256 (waveTarget (2 ^ 236 - 1)
          (waveAverage (((pindexLast :: pprevs).take 24).map blockTarget)) span 14400))) := by
  obtain ⟨hlimit, hspacing⟩ := Params_eq hnetwork
  have hlength : 24 < (pindexLast :: pprevs).length := by
    have := hheights.1
    rw [List.length_cons]
    omega
  obtain ⟨s, hrun, hcount, haverage⟩ := wave_spec (by decide : 2 ^ 236 - 1 < 2 ^ 236)
    ((pindexLast :: pprevs).take 24) ((pindexLast :: pprevs).drop 24)
    (by rw [List.length_take]; omega) (hheights.height_ne_zero hlength) htargets
  rw [List.take_append_drop] at hrun
  have hle : waveAverage (((pindexLast :: pprevs).take 24).map blockTarget) ≤ 2 ^ 236 - 1 := by
    apply waveAverage_le
    intro t ht
    obtain ⟨block, hmem, rfl⟩ := List.mem_map.mp ht
    exact htargets block hmem
  obtain ⟨span, hspan, hlow, hhigh⟩ := clampTimespan_bounds s.nActualTimespan 14400
  refine ⟨span, by omega, by omega, ?_⟩
  have hfits : s.PastDifficultyAverage.toNat * span < 2 ^ 256 := by
    rw [haverage]
    have hmul := Nat.mul_le_mul hle hhigh
    omega
  obtain ⟨quotient, hdiv, hquotient⟩ := div_mulWord span 14400
    (by omega) (by decide) (by decide) hfits
  have htimespan : ((24 : Nat) : Int) * 600 = ((14400 : Nat) : Int) := by decide
  have hmin' : PastBlocksMin = 24 := rfl
  unfold getNextWorkRequired
  rw [networkID_Params, if_neg hnetwork]
  dsimp only
  rw [if_neg (by omega), if_neg (by omega), hrun, Option.bind_some, hcount, hspacing, htimespan,
    hspan, hdiv, Option.map_some]
  apply congrArg fun bnNew => some (getCompact32 bnNew)
  apply BitVec.eq_of_toNat_eq
  have hgt := compareTo_gt quotient (Params network).bnProofOfWorkLimit
  rw [BitVec.lt_def, hlimit, hquotient, haverage] at hgt
  rw [BitVec.toNat_ofNat, waveTarget]
  split
  · rw [hlimit]
    omega
  · rw [hquotient, haverage]
    omega

/-- **Dark Gravity Wave.**  The branch never throws, its products fit, and the
target is within the limit and within a factor of three of the weighted average
of the 24 targets, up to the compact form and the divisions, which lose less
than five units. -/
theorem darkGravityWave_bounds (network : Network) (hnetwork : network ≠ .REGTEST)
    (pindexLast : CBlockIndex) (pprevs : List CBlockIndex)
    (hheights : HeightsCount (pindexLast :: pprevs)) (hmin : 24 ≤ pindexLast.nHeight)
    (hpow : pindexLast.nHeight ≤ (Params network).nLastPOWBlock)
    (hvalid : ∀ block ∈ (pindexLast :: pprevs).take 24, ∃ t, target block.nBits = some t ∧
      t ≤ (Params network).bnProofOfWorkLimit.toNat) :
    ∃ nBits span, getNextWorkRequired (Params network) (pindexLast :: pprevs) = some nBits ∧
      4800 ≤ span ∧ span ≤ 43200 ∧
      nBits = getCompact32 (BitVec.ofNat 256
        (waveTarget (Params network).bnProofOfWorkLimit.toNat
          (waveAverage (((pindexLast :: pprevs).take 24).map blockTarget)) span 14400)) ∧
      (setCompact nBits).bn ≤ (Params network).bnProofOfWorkLimit ∧
      25 * (setCompact nBits).bn.toNat ≤
        3 * weightedSum (((pindexLast :: pprevs).take 24).map blockTarget) ∧
      2 ^ 15 * weightedSum (((pindexLast :: pprevs).take 24).map blockTarget) ≤
        75 * (2 ^ 15 + 1) * (setCompact nBits).bn.toNat + 2 ^ 15 * 349 := by
  obtain ⟨hlimit, -⟩ := Params_eq hnetwork
  rw [hlimit] at hvalid ⊢
  have htargets : ∀ block ∈ (pindexLast :: pprevs).take 24, blockTarget block ≤ 2 ^ 236 - 1 := by
    intro block hmem
    obtain ⟨t, ht, hle⟩ := hvalid block hmem
    obtain ⟨-, -, -, hbn⟩ := target_eq_some ht
    rw [blockTarget, hbn]
    exact hle
  obtain ⟨span, hlow, hhigh, hresult⟩ :=
    getNextWorkRequired_wave hnetwork hheights hmin hpow htargets
  have hlength : (((pindexLast :: pprevs).take 24).map blockTarget).length = 24 := by
    have := hheights.1
    rw [List.length_map, List.length_take, List.length_cons]
    omega
  have hne : ((pindexLast :: pprevs).take 24).map blockTarget ≠ [] := by
    intro hnil
    rw [hnil] at hlength
    cases hlength
  obtain ⟨hsumlow, hsumhigh⟩ := waveAverage_bounds hne
  rw [hlength] at hsumlow hsumhigh
  have hmember : ∀ t ∈ ((pindexLast :: pprevs).take 24).map blockTarget, t ≤ 2 ^ 236 - 1 := by
    intro t ht
    obtain ⟨block, hmem, rfl⟩ := List.mem_map.mp ht
    exact htargets block hmem
  have hlessLimit := waveAverage_le hmember
  refine ⟨_, span, hresult, hlow, hhigh, rfl, ?_⟩
  generalize waveAverage (((pindexLast :: pprevs).take 24).map blockTarget) = average at *
  generalize weightedSum (((pindexLast :: pprevs).take 24).map blockTarget) = sum at *
  -- the target before it is rounded
  have hscaled : average * 4800 ≤ average * span := Nat.mul_le_mul_left _ hlow
  have hscaled' : average * span ≤ average * 43200 := Nat.mul_le_mul_left _ hhigh
  have hupper : waveTarget (2 ^ 236 - 1) average span 14400 ≤ 3 * average := by
    unfold waveTarget
    omega
  have hlower : average ≤ 3 * waveTarget (2 ^ 236 - 1) average span 14400 + 2 := by
    unfold waveTarget
    omega
  have hcapped : waveTarget (2 ^ 236 - 1) average span 14400 ≤ 2 ^ 236 - 1 := Nat.min_le_left ..
  generalize waveTarget (2 ^ 236 - 1) average span 14400 = exact at *
  have hvalue : (BitVec.ofNat 256 exact : Uint256).toNat = exact := by
    rw [BitVec.toNat_ofNat]
    omega
  have hrounded := bn_getCompact_le (BitVec.ofNat 256 exact)
  have hclose := getCompact_close (BitVec.ofNat 256 exact)
  rw [BitVec.le_def, hvalue] at hrounded
  rw [hvalue] at hclose
  rw [BitVec.le_def, hlimit]
  generalize (setCompact (getCompact32 (BitVec.ofNat 256 exact))).bn.toNat = rounded at *
  refine ⟨by omega, by omega, by omega⟩

/-- Blocks of one target and one time, from height 24 down. -/
def steadyChain (nBits : UInt32) : List CBlockIndex :=
  ⟨24, 1000, nBits, false, 0, 0⟩ ::
    (List.range 24).reverse.map fun nHeight => ⟨nHeight, 1000, nBits, false, 0, 0⟩

theorem darkGravityWave_bounds_steady :
    ∃ nBits, getNextWorkRequired mainParams (steadyChain 0x1d00ffff) = some nBits ∧
      (setCompact nBits).bn ≤ mainParams.bnProofOfWorkLimit := by
  have hbits : ∀ block ∈ (steadyChain 0x1d00ffff).take 24, block.nBits = 0x1d00ffff := by
    decide
  have htarget : target 0x1d00ffff = some (0xffff * 2 ^ 208) := by decide +kernel
  obtain ⟨nBits, -, hresult, -, -, -, hlimit, -⟩ := darkGravityWave_bounds .MAIN (by decide)
    ⟨24, 1000, 0x1d00ffff, false, 0, 0⟩
    ((List.range 24).reverse.map fun nHeight => ⟨nHeight, 1000, 0x1d00ffff, false, 0, 0⟩)
    (by decide) (by decide) (by decide) (by
      intro block hmem
      rw [hbits block hmem]
      exact ⟨_, htarget, by decide +kernel⟩)
  rw [show Params .MAIN = mainParams from rfl] at hresult hlimit
  exact ⟨nBits, hresult, hlimit⟩

/-- When 24 targets of one come in no time at all, the next target is zero, not
at least a third of their average. -/
theorem wave_reaches_zero :
    getNextWorkRequired mainParams (steadyChain 0x01010000) = some 0 ∧
      (∀ block ∈ (steadyChain 0x01010000).take 24, target block.nBits = some 1) ∧
      weightedSum (((steadyChain 0x01010000).take 24).map blockTarget) = 25 * 1 ∧
      (setCompact 0).bn.toNat = 0 := by
  decide +kernel

end Agrarian.Pow
