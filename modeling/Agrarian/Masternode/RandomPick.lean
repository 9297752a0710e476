import Agrarian.Lib.MachineInt
import Agrarian.Masternode.Manager

/-!
# A random masternode

`FindRandomNotInVec` of `masternodeman.cpp`, with `GetRand` and `GetRandInt` of
`random.cpp`.  The number of masternodes to choose from is taken to be the
number of enabled ones less the number of exclusions, in unsigned arithmetic;
a number below it is drawn and counted down on the masternodes that qualify.
-/

namespace Agrarian.Masternode

open Agrarian.Lib

/-! ## Draws -/

/-- The bound of the loop of `GetRand`, a multiple of `nMax`. -/
def nRange (nMax : Nat) : Nat := (2 ^ 64 - 1) / nMax * nMax

/-- The loop of `GetRand` ends with a number; without a loop any will do. -/
def EndsLoop (nMax nRand : Nat) : Prop := nMax = 0 ∨ nRand < nRange nMax

/-- `GetRand`, for the number that ends its loop. -/
def getRand (nMax nRand : Nat) : Nat := if nMax = 0 then 0 else nRand % nMax

/-- An `int` that is passed as a `uint64_t`. -/
def asUnsigned (nMax : Int) : Nat := (nMax % 2 ^ 64).toNat

def getRandInt (nMax : Int) (nRand : Nat) : Int :=
  int32 (getRand (asUnsigned nMax) nRand)

/-- A value that `GetRandInt` can return. -/
def Drawn (nMax rand : Int) : Prop :=
  ∃ nRand, EndsLoop (asUnsigned nMax) nRand ∧ getRandInt nMax nRand = rand

theorem exists_getRand_iff {nMax : Nat} (hpos : 0 < nMax) (hmax : nMax < 2 ^ 64)
    (r : Nat) : (∃ nRand, EndsLoop nMax nRand ∧ getRand nMax nRand = r) ↔ r < nMax := by
  have hne : nMax ≠ 0 := by omega
  constructor
  · rintro ⟨nRand, -, rfl⟩
    rw [getRand, if_neg hne]
    exact Nat.mod_lt nRand hpos
  · intro hr
    have hquot : 1 ≤ (2 ^ 64 - 1) / nMax := (Nat.one_le_div_iff hpos).mpr (by omega)
    have hrange : nMax ≤ nRange nMax := Nat.le_mul_of_pos_left nMax hquot
    refine ⟨r, Or.inr (by omega), ?_⟩
    rw [getRand, if_neg hne, Nat.mod_eq_of_lt hr]

/-- Which numbers are drawn: those below a positive bound, zero for none, and
every `int` for a negative one. -/
theorem drawn_iff {nMax : Int} (hlow : -2 ^ 31 ≤ nMax) (hhigh : nMax < 2 ^ 31)
    (rand : Int) :
    Drawn nMax rand ↔ nMax = 0 ∧ rand = 0 ∨ 0 ≤ rand ∧ rand < nMax ∨
      nMax < 0 ∧ -2 ^ 31 ≤ rand ∧ rand < 2 ^ 31 := by
  have hvalues : nMax ≠ 0 →
      (Drawn nMax rand ↔ ∃ r : Nat, r < asUnsigned nMax ∧ int32 r = rand) := by
    intro hne
    have hpos : 0 < asUnsigned nMax := by
      unfold asUnsigned
      omega
    have hmax : asUnsigned nMax < 2 ^ 64 := by
      unfold asUnsigned
      omega
    constructor
    · rintro ⟨nRand, hends, hrand⟩
      exact ⟨getRand (asUnsigned nMax) nRand,
        (exists_getRand_iff hpos hmax _).mp ⟨nRand, hends, rfl⟩, hrand⟩
    · rintro ⟨r, hr, hrand⟩
      obtain ⟨nRand, hends, hget⟩ := (exists_getRand_iff hpos hmax r).mpr hr
      refine ⟨nRand, hends, ?_⟩
      rw [getRandInt, hget, hrand]
  rcases lt_trichotomy nMax 0 with hneg | rfl | hpos
  · rw [hvalues (by omega)]
    clear hvalues
    have hbound : asUnsigned nMax = (nMax + 2 ^ 64).toNat := by
      unfold asUnsigned
      omega
    constructor
    · rintro ⟨r, -, rfl⟩
      have hrange := int32_range r
      omega
    · intro hrand
      refine ⟨(rand % 2 ^ 32).toNat, by omega, ?_⟩
      unfold int32
      rw [Int.bmod_def]
      omega
  · constructor
    · rintro ⟨nRand, -, rfl⟩
      exact Or.inl ⟨rfl, by simp [getRandInt, asUnsigned, getRand, int32]⟩
    · intro hrand
      obtain rfl : rand = 0 := by omega
      exact ⟨0, Or.inl (by decide), by decide⟩
  · rw [hvalues (by omega)]
    clear hvalues
    have hbound : asUnsigned nMax = nMax.toNat := by
      unfold asUnsigned
      omega
    constructor
    · rintro ⟨r, hr, rfl⟩
      rw [int32_eq_self (by omega) (by omega)]
      omega
    · intro hrand
      refine ⟨rand.toNat, by omega, ?_⟩
      rw [int32_eq_self (by omega) (by omega)]
      omega

/-! ## The choice -/

/-- The masternode is enabled and of a sufficient protocol. -/
def eligible (protocolVersion : Int) (mn : CMasternode) : Bool :=
  !(mn.protocolVersion < protocolVersion || !mn.isEnabled)

/-- The inner loop over the exclusions. -/
def excluded (vecToExclude : List CTxIn) (mn : CMasternode) : Bool :=
  vecToExclude.any fun usedVin => mn.vin.prevout = usedVin.prevout

/-- The loop over the masternodes. -/
def findLoop (vecToExclude : List CTxIn) (protocolVersion : Int) :
    List CMasternode → Int → Option CMasternode
  | [], _ => none
  | mn :: rest, rand =>
      if !eligible protocolVersion mn then
        findLoop vecToExclude protocolVersion rest rand
      else if excluded vecToExclude mn then
        findLoop vecToExclude protocolVersion rest rand
      else
        let rand := rand - 1
        if rand < 1 then some mn
        else findLoop vecToExclude protocolVersion rest rand

namespace CMasternodeMan

variable (node : NodeView) (vecToExclude : List CTxIn) (protocolVersion : Int)
variable (man : CMasternodeMan)

/-- The protocol version that is asked for. -/
def requiredProtocol : Int :=
  if protocolVersion = -1 then node.minPaymentsProto else protocolVersion

/-- `nCountEnabled - vecToExclude.size()`, a `size_t`. -/
def nLeft : Int :=
  ((man.countEnabled node (requiredProtocol node protocolVersion)).1 -
    vecToExclude.length) % 2 ^ 64

def findRandomNotInVec (nRand : Nat) : Option CMasternode :=
  let left := man.nLeft node vecToExclude protocolVersion
  let checked := (man.countEnabled node (requiredProtocol node protocolVersion)).2
  if left < 1 then none
  else
    findLoop vecToExclude (requiredProtocol node protocolVersion)
      checked.vMasternodes (getRandInt (int32 left) nRand)

/-- The masternodes that a call may return. -/
def candidates : List CMasternode :=
  (man.checkAll node).vMasternodes.filter fun mn =>
    eligible (requiredProtocol node protocolVersion) mn && !excluded vecToExclude mn

/-- Every call returns a candidate unless there is none, and every candidate is
returned for some draw. -/
structure PicksEveryCandidate : Prop where
  returned : ∀ nRand,
    EndsLoop (asUnsigned (int32 (man.nLeft node vecToExclude protocolVersion))) nRand →
      match man.findRandomNotInVec node vecToExclude protocolVersion nRand with
      | some mn => mn ∈ man.candidates node vecToExclude protocolVersion
      | none => man.candidates node vecToExclude protocolVersion = []
  reached : ∀ mn ∈ man.candidates node vecToExclude protocolVersion, ∃ nRand,
    EndsLoop (asUnsigned (int32 (man.nLeft node vecToExclude protocolVersion))) nRand ∧
      man.findRandomNotInVec node vecToExclude protocolVersion nRand = some mn

variable {node} {vecToExclude} {protocolVersion} {man}

/-- The countdown ends at the candidate whose position is one less than the
number drawn; the numbers up to one all lead to the first. -/
theorem findLoop_eq (vecToExclude : List CTxIn) (protocolVersion : Int)
    (l : List CMasternode) (rand : Int) :
    findLoop vecToExclude protocolVersion l rand =
      (l.filter fun mn => eligible protocolVersion mn &&
        !excluded vecToExclude mn)[(rand - 1).toNat]? := by
  induction l generalizing rand with
  | nil => simp [findLoop]
  | cons mn l ih =>
      by_cases heligible : eligible protocolVersion mn = true
      · by_cases hexcluded : excluded vecToExclude mn = true
        · simp [findLoop, heligible, hexcluded, ih]
        · by_cases hlast : rand - 1 < 1
          · have hzero : (rand - 1).toNat = 0 := by omega
            simp [findLoop, heligible, hexcluded, hlast, hzero]
          · have hsucc : (rand - 1).toNat = (rand - 1 - 1).toNat + 1 := by omega
            rw [hsucc]
            simp [findLoop, heligible, hexcluded, hlast, ih]
      · simp [findLoop, heligible, ih]

/-- With something left, a call returns the candidate that is drawn. -/
theorem findRandomNotInVec_eq (hleft : man.nLeft node vecToExclude protocolVersion ≠ 0)
    (nRand : Nat) :
    man.findRandomNotInVec node vecToExclude protocolVersion nRand =
      (man.candidates node vecToExclude protocolVersion)[
        (getRandInt (int32 (man.nLeft node vecToExclude protocolVersion)) nRand -
          1).toNat]? := by
  have hpos : 0 ≤ man.nLeft node vecToExclude protocolVersion :=
    Int.emod_nonneg _ (by decide)
  rw [findRandomNotInVec, if_neg (by omega), findLoop_eq]
  rfl

theorem nodup_candidates : (man.candidates node vecToExclude protocolVersion).Nodup :=
  (man.checkAll node).distinct.of_map.filter _

/-- At least as many candidates are left as the subtraction says. -/
theorem countEnabled_le (node : NodeView) (vecToExclude : List CTxIn)
    (protocolVersion : Int) (man : CMasternodeMan) :
    (man.countEnabled node (requiredProtocol node protocolVersion)).1 ≤
      (man.candidates node vecToExclude protocolVersion).length +
        vecToExclude.length := by
  have hproto : requiredProtocol node (requiredProtocol node protocolVersion) =
      requiredProtocol node protocolVersion := by
    unfold requiredProtocol
    split_ifs <;> rfl
  have hcount : (man.countEnabled node (requiredProtocol node protocolVersion)).1 =
      (((man.checkAll node).vMasternodes.filter
        (eligible (requiredProtocol node protocolVersion))).length : Int) := by
    rw [← List.countP_eq_length_filter]
    conv_rhs => rw [← hproto]
    rfl
  generalize hlist : (man.checkAll node).vMasternodes.filter
    (eligible (requiredProtocol node protocolVersion)) = l at hcount
  have hcandidates : man.candidates node vecToExclude protocolVersion =
      l.filter fun mn => !excluded vecToExclude mn := by
    rw [candidates, ← hlist, List.filter_filter]
    congr 1
    funext mn
    exact Bool.and_comm _ _
  have hsplit := List.length_eq_length_filter_add (l := l) (excluded vecToExclude)
  have hnodup : ((l.filter (excluded vecToExclude)).map fun mn => mn.vin.prevout).Nodup := by
    rw [← hlist]
    exact (man.checkAll node).distinct.sublist
      ((List.filter_sublist.trans List.filter_sublist).map _)
  have hsubset : (l.filter (excluded vecToExclude)).map (fun mn => mn.vin.prevout) ⊆
      vecToExclude.map CTxIn.prevout := by
    intro prevout hprevout
    obtain ⟨mn, hmn, rfl⟩ := List.mem_map.mp hprevout
    obtain ⟨usedVin, hused, hsame⟩ := List.any_eq_true.mp (List.mem_filter.mp hmn).2
    exact List.mem_map.mpr ⟨usedVin, hused, (of_decide_eq_true hsame).symm⟩
  have hfew := (hnodup.subperm hsubset).length_le
  rw [List.length_map, List.length_map] at hfew
  rw [hcount, hcandidates]
  omega

/-- Positions instead of masternodes: every number that can be drawn leads to a
position among the candidates, and every position is led to. -/
theorem picksEveryCandidate_iff_positions
    (hleft : man.nLeft node vecToExclude protocolVersion ≠ 0)
    (hsome : man.candidates node vecToExclude protocolVersion ≠ []) :
    man.PicksEveryCandidate node vecToExclude protocolVersion ↔
      (∀ rand, Drawn (int32 (man.nLeft node vecToExclude protocolVersion)) rand →
        (rand - 1).toNat < (man.candidates node vecToExclude protocolVersion).length) ∧
      ∀ i < (man.candidates node vecToExclude protocolVersion).length, ∃ rand,
        Drawn (int32 (man.nLeft node vecToExclude protocolVersion)) rand ∧
          (rand - 1).toNat = i := by
  constructor
  · intro hpicks
    constructor
    · rintro rand ⟨nRand, hends, hrand⟩
      have hreturned := hpicks.returned nRand hends
      rw [findRandomNotInVec_eq hleft, hrand] at hreturned
      by_contra hlong
      rw [List.getElem?_eq_none (by omega)] at hreturned
      exact hsome hreturned
    · intro i hi
      obtain ⟨nRand, hends, hfound⟩ := hpicks.reached _ (List.getElem_mem hi)
      rw [findRandomNotInVec_eq hleft, List.getElem?_eq_some_iff] at hfound
      obtain ⟨hlt, hsame⟩ := hfound
      exact ⟨_, ⟨nRand, hends, rfl⟩, (nodup_candidates.getElem_inj_iff).mp hsame⟩
  · rintro ⟨hinside, hall⟩
    constructor
    · intro nRand hends
      have hlt := hinside _ ⟨nRand, hends, rfl⟩
      rw [findRandomNotInVec_eq hleft, List.getElem?_eq_getElem hlt]
      exact List.getElem_mem hlt
    · intro mn hmn
      obtain ⟨i, hi, rfl⟩ := List.getElem_of_mem hmn
      obtain ⟨rand, ⟨nRand, hends, hrand⟩, hposition⟩ := hall i hi
      refine ⟨nRand, hends, ?_⟩
      rw [findRandomNotInVec_eq hleft, hrand, hposition, List.getElem?_eq_getElem hi]

/-- When the numbers below a bound lead to exactly the first `c` positions. -/
theorem positions_iff {nMax : Int} (hlow : -2 ^ 31 ≤ nMax) (hhigh : nMax < 2 ^ 31)
    {c : Nat} (hc : 0 < c) :
    ((∀ rand, Drawn nMax rand → (rand - 1).toNat < c) ∧
      ∀ i < c, ∃ rand, Drawn nMax rand ∧ (rand - 1).toNat = i) ↔
      c = 1 ∧ (nMax = 0 ∨ nMax = 1) ∨ (c : Int) + 1 = nMax ∨
        nMax < 0 ∧ c + 1 = 2 ^ 31 := by
  simp only [drawn_iff hlow hhigh]
  constructor
  · rintro ⟨hinside, hall⟩
    obtain ⟨rand, hrand, hlast⟩ := hall (c - 1) (by omega)
    have hbelow := hinside (nMax - 1)
    have hmax := hinside (2 ^ 31 - 1)
    omega
  · intro h
    constructor
    · intro rand hrand
      omega
    · intro i hi
      by_cases hzero : nMax = 0 ∨ nMax = 1
      · exact ⟨0, by omega, by omega⟩
      · exact ⟨i + 1, by omega, by omega⟩

/-- The bound of the draw fits the number of candidates: there is one candidate
and the bound is 0 or 1, or the bound is one more than the candidates, where a
negative bound counts for `2 ^ 31`. -/
def BoundFits (node : NodeView) (vecToExclude : List CTxIn) (protocolVersion : Int)
    (man : CMasternodeMan) : Prop :=
  man.nLeft node vecToExclude protocolVersion ≠ 0 ∧
    let nMax := int32 (man.nLeft node vecToExclude protocolVersion)
    let c := (man.candidates node vecToExclude protocolVersion).length
    c = 1 ∧ (nMax = 0 ∨ nMax = 1) ∨ (c : Int) + 1 = nMax ∨ nMax < 0 ∧ c + 1 = 2 ^ 31

/-- Unless a list has about `2 ^ 31` entries there are at least as many candidates
as the bound, so it fits a single candidate only. -/
theorem boundFits_small (node : NodeView) (vecToExclude : List CTxIn)
    (protocolVersion : Int) (man : CMasternodeMan)
    (hlist : man.vMasternodes.length + 1 < 2 ^ 31)
    (hexclude : vecToExclude.length < 2 ^ 31) :
    man.BoundFits node vecToExclude protocolVersion ↔
      (man.candidates node vecToExclude protocolVersion).length = 1 ∧
        (man.countEnabled node (requiredProtocol node protocolVersion)).1 =
          vecToExclude.length + 1 := by
  have hle := countEnabled_le node vecToExclude protocolVersion man
  have hfew : (man.candidates node vecToExclude protocolVersion).length ≤
      man.vMasternodes.length := by
    refine (List.length_filter_le _ _).trans ?_
    rw [checkAll, List.length_map]
  have hcount : 0 ≤ (man.countEnabled node (requiredProtocol node protocolVersion)).1 ∧
      (man.countEnabled node (requiredProtocol node protocolVersion)).1 < 2 ^ 31 := by
    refine ⟨Int.natCast_nonneg _, ?_⟩
    have hcountP := List.countP_le_length (p := fun mn : CMasternode =>
      !(mn.protocolVersion < requiredProtocol node (requiredProtocol node protocolVersion)
        || !mn.isEnabled)) (l := (man.checkAll node).vMasternodes)
    rw [checkAll, List.length_map] at hcountP
    exact lt_of_le_of_lt (Int.ofNat_le.mpr hcountP) (by omega)
  unfold BoundFits nLeft int32
  simp only [Int.bmod_def]
  omega

/-- **A call returns a candidate if there is one, and every candidate for some
draw**, if and only if there is none or the bound of the draw fits their
number. -/
theorem picksEveryCandidate_iff (node : NodeView) (vecToExclude : List CTxIn)
    (protocolVersion : Int) (man : CMasternodeMan) :
    man.PicksEveryCandidate node vecToExclude protocolVersion ↔
      man.candidates node vecToExclude protocolVersion = [] ∨
        man.BoundFits node vecToExclude protocolVersion := by
  by_cases hempty : man.candidates node vecToExclude protocolVersion = []
  · refine iff_of_true ⟨?_, ?_⟩ (Or.inl hempty)
    · intro nRand hends
      have hnone : man.findRandomNotInVec node vecToExclude protocolVersion nRand = none := by
        by_cases hleft : man.nLeft node vecToExclude protocolVersion = 0
        · rw [findRandomNotInVec, if_pos (by omega)]
        · rw [findRandomNotInVec_eq hleft, hempty, List.getElem?_nil]
      rw [hnone]
      exact hempty
    · intro mn hmn
      rw [hempty] at hmn
      cases hmn
  · by_cases hleft : man.nLeft node vecToExclude protocolVersion = 0
    · refine iff_of_false ?_ (by simp [hempty, hleft, BoundFits])
      intro hpicks
      obtain ⟨mn, hmn⟩ := List.exists_mem_of_ne_nil _ hempty
      obtain ⟨nRand, -, hfound⟩ := hpicks.reached mn hmn
      rw [findRandomNotInVec, if_pos (by omega)] at hfound
      cases hfound
    · obtain ⟨hlow, hhigh⟩ := int32_range (man.nLeft node vecToExclude protocolVersion)
      rw [picksEveryCandidate_iff_positions hleft hempty,
        positions_iff hlow hhigh (List.length_pos_iff.mpr hempty)]
      simp only [BoundFits, hempty, false_or, ne_eq, hleft, not_false_eq_true, true_and]

section Example

/-- An enabled masternode, with the output `n` of a transaction. -/
def pingedMasternode (n : Nat) : CMasternode where
  vin := { prevout := ⟨7, n⟩ }
  lastPing := { blockHash := 1, sigTime := 9000 }

/-- Two enabled masternodes. -/
def twoMasternodes : CMasternodeMan where
  vMasternodes := [pingedMasternode 0, pingedMasternode 1]
  distinct := by decide

/-- A node a short time after the pings. -/
def pingedNode : NodeView where
  getTime := 10000
  getAdjustedTime := 10000
  hashes := { chainActive := [1, 2, 3] }

/-- The second of two masternodes is never returned. -/
theorem last_candidate_missed : ¬ twoMasternodes.PicksEveryCandidate pingedNode [] 0 := by
  have hcandidates : twoMasternodes.candidates pingedNode [] 0 =
      (twoMasternodes.checkAll pingedNode).vMasternodes := by decide
  have hleft : twoMasternodes.nLeft pingedNode [] 0 = 2 := by decide
  rw [picksEveryCandidate_iff_positions (by rw [hleft]; decide)
    (by rw [hcandidates]; decide), hleft, hcandidates]
  rintro ⟨-, hall⟩
  obtain ⟨rand, hrand, hposition⟩ := hall 1 (by decide)
  rw [int32_eq_self (by decide) (by decide),
    drawn_iff (by decide) (by decide)] at hrand
  omega

end Example

end CMasternodeMan

end Agrarian.Masternode
