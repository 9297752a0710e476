import Agrarian.Stake.Modifier

/-!
# The blocks that make a stake modifier

`ComputeNextStakeModifier` selects blocks in rounds.  `RoundChoice` says which
block a round may select, with no reference to a loop: the candidates are the
ancestors in the selection interval, and the order of their times and hashes
decides only which one comes first.
-/

namespace Agrarian.Stake

open Agrarian.Lib Agrarian.Validation

/-- The time and the hash that a candidate is sorted by. -/
def sortKey (pindex : CBlockIndex) : Int × Uint256 :=
  (pindex.getBlockTime, pindex.hash)

/-- One block comes before another among the candidates. -/
def comesBefore (a b : CBlockIndex) : Bool := candidateLe (sortKey a) (sortKey b)

/-- The candidate blocks, ancestors from the start of the interval on, in the
order of their times and hashes. -/
def candidateBlocks (chain : List CBlockIndex) (nSelectionIntervalStart : Int) :
    List CBlockIndex :=
  (chain.takeWhile fun pindex =>
    nSelectionIntervalStart ≤ pindex.getBlockTime).reverse.mergeSort comesBefore

/-- A round may select the block: a candidate that no earlier round selected,
in the interval of the round or the first that is left. -/
structure Allowed (blocks earlier : List CBlockIndex) (nSelectionIntervalStop : Int)
    (pindex : CBlockIndex) : Prop where
  mem : pindex ∈ blocks
  fresh : pindex ∉ earlier
  inInterval : pindex.getBlockTime ≤ nSelectionIntervalStop ∨
    ∀ other ∈ blocks, other ∉ earlier → comesBefore pindex other = true

/-- The block of a round: the least selection hash among those allowed. -/
structure RoundChoice (hashOf : CBlockIndex → Uint256) (blocks earlier : List CBlockIndex)
    (nSelectionIntervalStop : Int) (pindex : CBlockIndex) : Prop where
  allowed : Allowed blocks earlier nSelectionIntervalStop pindex
  least : ∀ other, Allowed blocks earlier nSelectionIntervalStop other →
    hashOf pindex ≤ hashOf other

/-- The selection hash follows the new rule when the first candidate is high
enough. -/
def usesModifierV2 (blocks : List CBlockIndex) : Bool :=
  blocks.head?.elim false fun pindex => decide (nModifierUpdateBlock ≤ pindex.nHeight)

/-- The start of the selection interval for the block after `pindexPrev`. -/
def selectionIntervalStart (pindexPrev : CBlockIndex) : Int :=
  pindexPrev.getBlockTime / MODIFIER_INTERVAL * MODIFIER_INTERVAL -
    getStakeModifierSelectionInterval

/-- The length of the intervals of some rounds, the first being `nRound`. -/
def sectionsFrom (nRound rounds : Nat) : Int :=
  ((List.range rounds).map fun k =>
    getStakeModifierSelectionIntervalSection (nRound + k)).sum

/-- The entropy bits of the selected blocks, from bit `nRound` on. -/
def entropyBits : Nat → List CBlockIndex → UInt64
  | _, [] => 0
  | nRound, pindex :: rest =>
      (pindex.getStakeEntropyBit <<< nRound.toUInt64) ||| entropyBits (nRound + 1) rest

theorem sectionsFrom_succ (nRound rounds : Nat) :
    sectionsFrom nRound (rounds + 1) =
      getStakeModifierSelectionIntervalSection nRound +
        sectionsFrom (nRound + 1) rounds := by
  unfold sectionsFrom
  rw [List.range_succ_eq_map, List.map_cons, List.sum_cons, List.map_map, Nat.add_zero]
  congr 3
  funext k
  show getStakeModifierSelectionIntervalSection (nRound + (k + 1)) = _
  rw [Nat.add_right_comm nRound 1 k, Nat.add_assoc]

/-! ## The order of the candidates -/

theorem comesBefore_iff {a b : CBlockIndex} :
    comesBefore a b = true ↔ a.getBlockTime < b.getBlockTime ∨
      a.getBlockTime = b.getBlockTime ∧ a.hash.toNat ≤ b.hash.toNat := by
  show (decide (a.getBlockTime < b.getBlockTime) ||
    (decide (a.getBlockTime = b.getBlockTime) && decide (a.hash ≤ b.hash))) = true ↔ _
  rw [Bool.or_eq_true, Bool.and_eq_true, decide_eq_true_iff, decide_eq_true_iff,
    decide_eq_true_iff, BitVec.le_def]

theorem comesBefore_total (a b : CBlockIndex) :
    (comesBefore a b || comesBefore b a) = true := by
  rw [Bool.or_eq_true, comesBefore_iff, comesBefore_iff]
  omega

theorem comesBefore_trans (a b c : CBlockIndex) (hab : comesBefore a b = true)
    (hbc : comesBefore b c = true) : comesBefore a c = true := by
  rw [comesBefore_iff] at hab hbc ⊢
  omega

theorem time_le_of_comesBefore {a b : CBlockIndex} (h : comesBefore a b = true) :
    a.getBlockTime ≤ b.getBlockTime := by
  rw [comesBefore_iff] at h
  omega

theorem hash_eq_of_comesBefore {a b : CBlockIndex} (hab : comesBefore a b = true)
    (hba : comesBefore b a = true) : a.hash = b.hash := by
  rw [comesBefore_iff] at hab hba
  exact BitVec.eq_of_toNat_eq (by omega)

theorem candidateBlocks_sorted (chain : List CBlockIndex) (nStart : Int) :
    (candidateBlocks chain nStart).Pairwise fun a b => comesBefore a b = true :=
  List.pairwise_mergeSort comesBefore_trans comesBefore_total _

theorem mem_chain_of_mem_candidateBlocks {chain : List CBlockIndex} {nStart : Int}
    {pindex : CBlockIndex} (h : pindex ∈ candidateBlocks chain nStart) : pindex ∈ chain := by
  unfold candidateBlocks at h
  rw [List.mem_mergeSort, List.mem_reverse] at h
  exact (List.takeWhile_sublist _).subset h

theorem candidates_eq (chain : List CBlockIndex) (nStart : Int) :
    candidates chain nStart = (candidateBlocks chain nStart).map sortKey := by
  have hsort := List.map_mergeSort (f := sortKey) (r := comesBefore) (s := candidateLe)
    (l := (chain.takeWhile fun pindex => nStart ≤ pindex.getBlockTime).reverse)
    fun a _ b _ => rfl
  unfold candidateBlocks
  rw [hsort, List.map_reverse]
  rfl

section Rounds

variable {selectionHash : Uint256 → UInt64 → Uint256}
variable {mapBlockIndex : Uint256 → Option CBlockIndex}
variable {fModifierV2 : Bool} {nPrev : UInt64} {selected : List Uint256} {nStop : Int}

/-! ## A round -/

/-- The best block so far after the next one: the old one if they tie, or if
the next one is selected already. -/
def nextBest (hashOf : CBlockIndex → Uint256) (selected : List Uint256)
    (best pindex : CBlockIndex) : CBlockIndex :=
  if selected.contains pindex.hash then best
  else if hashOf pindex < hashOf best then pindex
  else best

theorem nextBest_spec (hashOf : CBlockIndex → Uint256) (selected : List Uint256)
    (best pindex : CBlockIndex) :
    (nextBest hashOf selected best pindex = best ∨
      nextBest hashOf selected best pindex = pindex ∧ pindex.hash ∉ selected) ∧
      hashOf (nextBest hashOf selected best pindex) ≤ hashOf best ∧
      (pindex.hash ∉ selected →
        hashOf (nextBest hashOf selected best pindex) ≤ hashOf pindex) := by
  unfold nextBest
  simp only [List.contains_iff_mem]
  by_cases hseen : pindex.hash ∈ selected
  · rw [if_pos hseen]
    exact ⟨Or.inl rfl, BitVec.le_refl _, fun h => absurd hseen h⟩
  · rw [if_neg hseen]
    by_cases hless : hashOf pindex < hashOf best
    · rw [if_pos hless]
      exact ⟨Or.inr ⟨rfl, hseen⟩, BitVec.le_of_lt hless, fun _ => BitVec.le_refl _⟩
    · rw [if_neg hless]
      exact ⟨Or.inl rfl, BitVec.le_refl _, fun _ => BitVec.not_lt.mp hless⟩

/-- One step of the loop when no block is selected yet. -/
theorem selectFrom_cons_none {pindex : CBlockIndex} {rest : List CBlockIndex}
    (hindexed : mapBlockIndex pindex.hash = some pindex) :
    selectFrom selectionHash mapBlockIndex fModifierV2 selected nStop nPrev
        ((pindex :: rest).map sortKey) none =
      selectFrom selectionHash mapBlockIndex fModifierV2 selected nStop nPrev
        (rest.map sortKey)
        (if pindex.hash ∈ selected then none
          else some (hashSelection selectionHash fModifierV2 nPrev pindex, pindex)) := by
  rw [List.map_cons]
  conv_lhs => unfold selectFrom
  simp only [sortKey, hindexed, Option.isSome_none, Bool.false_eq_true, false_and, if_false]
  by_cases hseen : pindex.hash ∈ selected
  · rw [if_pos hseen, if_pos hseen]
  · rw [if_neg hseen, if_neg hseen]

/-- One step of the loop when a block is selected. -/
theorem selectFrom_cons_some {pindex : CBlockIndex} {rest : List CBlockIndex}
    (hindexed : mapBlockIndex pindex.hash = some pindex) (best : CBlockIndex) :
    selectFrom selectionHash mapBlockIndex fModifierV2 selected nStop nPrev
        ((pindex :: rest).map sortKey)
        (some (hashSelection selectionHash fModifierV2 nPrev best, best)) =
      if nStop < pindex.getBlockTime then
        some (some (hashSelection selectionHash fModifierV2 nPrev best, best))
      else
        let best := nextBest (hashSelection selectionHash fModifierV2 nPrev) selected
          best pindex
        selectFrom selectionHash mapBlockIndex fModifierV2 selected nStop nPrev
          (rest.map sortKey)
          (some (hashSelection selectionHash fModifierV2 nPrev best, best)) := by
  rw [List.map_cons]
  conv_lhs => unfold selectFrom
  simp only [sortKey, hindexed, Option.isSome_some, true_and, nextBest,
    List.contains_iff_mem]
  split
  · rfl
  · split
    · rfl
    · split
      · rfl
      · rfl

/-- Once a block is selected, the loop ends with the best of it and of the
blocks left in the interval. -/
theorem selectFrom_some {blocks : List CBlockIndex}
    (hindexed : ∀ pindex ∈ blocks, mapBlockIndex pindex.hash = some pindex)
    (hsorted : blocks.Pairwise fun a b => comesBefore a b = true) (best : CBlockIndex) :
    ∃ pindex,
      selectFrom selectionHash mapBlockIndex fModifierV2 selected nStop nPrev
          (blocks.map sortKey)
          (some (hashSelection selectionHash fModifierV2 nPrev best, best)) =
        some (some (hashSelection selectionHash fModifierV2 nPrev pindex, pindex)) ∧
      (pindex = best ∨
        pindex ∈ blocks ∧ pindex.hash ∉ selected ∧ pindex.getBlockTime ≤ nStop) ∧
      hashSelection selectionHash fModifierV2 nPrev pindex ≤
        hashSelection selectionHash fModifierV2 nPrev best ∧
      ∀ other ∈ blocks, other.hash ∉ selected → other.getBlockTime ≤ nStop →
        hashSelection selectionHash fModifierV2 nPrev pindex ≤
          hashSelection selectionHash fModifierV2 nPrev other := by
  induction blocks generalizing best with
  | nil => exact ⟨best, rfl, Or.inl rfl, BitVec.le_refl _, fun _ h => by cases h⟩
  | cons block rest ih =>
      rw [List.pairwise_cons] at hsorted
      rw [selectFrom_cons_some (hindexed block List.mem_cons_self)]
      by_cases hlate : nStop < block.getBlockTime
      · -- the blocks that follow are later still
        rw [if_pos hlate]
        refine ⟨best, rfl, Or.inl rfl, BitVec.le_refl _, ?_⟩
        intro other hmem _ htime
        have hle : block.getBlockTime ≤ other.getBlockTime := by
          cases List.mem_cons.mp hmem with
          | inl heq => rw [heq]
          | inr hrest => exact time_le_of_comesBefore (hsorted.1 other hrest)
        omega
      · rw [if_neg hlate]
        have hnext := nextBest_spec (hashSelection selectionHash fModifierV2 nPrev)
          selected best block
        obtain ⟨pindex, heq, hpindex, hle, hleast⟩ :=
          ih (fun p hmem => hindexed p (List.mem_cons_of_mem _ hmem)) hsorted.2 _
        refine ⟨pindex, heq, ?_, BitVec.le_trans hle hnext.2.1, ?_⟩
        · cases hpindex with
          | inr h => exact Or.inr ⟨List.mem_cons_of_mem _ h.1, h.2⟩
          | inl h =>
              rw [h]
              refine hnext.1.imp_right fun hnew => ?_
              rw [hnew.1]
              exact ⟨List.mem_cons_self, hnew.2, Int.not_lt.mp hlate⟩
        · intro other hmem hfresh htime
          cases List.mem_cons.mp hmem with
          | inl h =>
              rw [h] at hfresh ⊢
              exact BitVec.le_trans hle (hnext.2.2 hfresh)
          | inr h => exact hleast other h hfresh htime

/-- The loop skips the blocks that are selected already, and takes the first
that is left whatever its time. -/
theorem selectFrom_none {blocks : List CBlockIndex}
    (hindexed : ∀ pindex ∈ blocks, mapBlockIndex pindex.hash = some pindex)
    (hsorted : blocks.Pairwise fun a b => comesBefore a b = true)
    (hleft : ∃ pindex ∈ blocks, pindex.hash ∉ selected) :
    ∃ first pindex,
      selectFrom selectionHash mapBlockIndex fModifierV2 selected nStop nPrev
          (blocks.map sortKey) none =
        some (some (hashSelection selectionHash fModifierV2 nPrev pindex, pindex)) ∧
      (first ∈ blocks ∧ first.hash ∉ selected ∧
        ∀ other ∈ blocks, other.hash ∉ selected → comesBefore first other = true) ∧
      (pindex = first ∨
        pindex ∈ blocks ∧ pindex.hash ∉ selected ∧ pindex.getBlockTime ≤ nStop) ∧
      hashSelection selectionHash fModifierV2 nPrev pindex ≤
        hashSelection selectionHash fModifierV2 nPrev first ∧
      ∀ other ∈ blocks, other.hash ∉ selected → other.getBlockTime ≤ nStop →
        hashSelection selectionHash fModifierV2 nPrev pindex ≤
          hashSelection selectionHash fModifierV2 nPrev other := by
  induction blocks with
  | nil =>
      obtain ⟨pindex, hmem, _⟩ := hleft
      cases hmem
  | cons block rest ih =>
      have hindexed' : ∀ pindex ∈ rest, mapBlockIndex pindex.hash = some pindex :=
        fun p hmem => hindexed p (List.mem_cons_of_mem _ hmem)
      rw [List.pairwise_cons] at hsorted
      rw [selectFrom_cons_none (hindexed block List.mem_cons_self)]
      by_cases hseen : block.hash ∈ selected
      · rw [if_pos hseen]
        have hleft' : ∃ pindex ∈ rest, pindex.hash ∉ selected := by
          obtain ⟨pindex, hmem, hfresh⟩ := hleft
          cases List.mem_cons.mp hmem with
          | inl h => exact absurd (h ▸ hseen) hfresh
          | inr h => exact ⟨pindex, h, hfresh⟩
        obtain ⟨first, pindex, heq, hfirst, hpindex, hle, hleast⟩ :=
          ih hindexed' hsorted.2 hleft'
        refine ⟨first, pindex, heq, ⟨List.mem_cons_of_mem _ hfirst.1, hfirst.2.1, ?_⟩,
          hpindex.imp_right fun h => ⟨List.mem_cons_of_mem _ h.1, h.2⟩, hle, ?_⟩
        · intro other hmem hfresh
          cases List.mem_cons.mp hmem with
          | inl h => exact absurd (h ▸ hseen) hfresh
          | inr h => exact hfirst.2.2 other h hfresh
        · intro other hmem hfresh htime
          cases List.mem_cons.mp hmem with
          | inl h => exact absurd (h ▸ hseen) hfresh
          | inr h => exact hleast other h hfresh htime
      · rw [if_neg hseen]
        obtain ⟨pindex, heq, hpindex, hle, hleast⟩ := selectFrom_some hindexed' hsorted.2 block
        refine ⟨block, pindex, heq, ⟨List.mem_cons_self, hseen, ?_⟩,
          hpindex.imp_right fun h => ⟨List.mem_cons_of_mem _ h.1, h.2⟩, hle, ?_⟩
        · intro other hmem _
          cases List.mem_cons.mp hmem with
          | inl h =>
              rw [h, comesBefore_iff]
              omega
          | inr h => exact hsorted.1 other h
        · intro other hmem hfresh htime
          cases List.mem_cons.mp hmem with
          | inl h =>
              rw [h]
              exact hle
          | inr h => exact hleast other h hfresh htime

/-- The block that is looked at first decides which rule the hash follows. -/
theorem selectBlockFromCandidates_eq {blocks : List CBlockIndex}
    (hindexed : ∀ pindex ∈ blocks, mapBlockIndex pindex.hash = some pindex) :
    selectBlockFromCandidates selectionHash mapBlockIndex (blocks.map sortKey) selected
        nStop nPrev =
      match selectFrom selectionHash mapBlockIndex (usesModifierV2 blocks) selected nStop
        nPrev (blocks.map sortKey) none with
      | some (some (_, pindexSelected)) => some pindexSelected
      | _ => none := by
  unfold selectBlockFromCandidates
  cases blocks with
  | nil => rfl
  | cons block rest =>
      simp only [List.map_cons, List.head?_cons, sortKey, hindexed block List.mem_cons_self]
      rfl

/-- **A round**: it selects one of the blocks that are left. -/
theorem selectBlockFromCandidates_choice {blocks earlier : List CBlockIndex}
    (hindexed : ∀ pindex ∈ blocks, mapBlockIndex pindex.hash = some pindex)
    (hsorted : blocks.Pairwise fun a b => comesBefore a b = true)
    (hselected : ∀ pindex ∈ blocks, pindex.hash ∈ selected ↔ pindex ∈ earlier)
    (hleft : ∃ pindex ∈ blocks, pindex ∉ earlier) :
    ∃ pindex,
      selectBlockFromCandidates selectionHash mapBlockIndex (blocks.map sortKey) selected
        nStop nPrev = some pindex ∧
      RoundChoice (hashSelection selectionHash (usesModifierV2 blocks) nPrev) blocks earlier
        nStop pindex := by
  have hfresh : ∀ pindex ∈ blocks, pindex.hash ∉ selected ↔ pindex ∉ earlier :=
    fun pindex hmem => not_congr (hselected pindex hmem)
  have hleft' : ∃ pindex ∈ blocks, pindex.hash ∉ selected := by
    obtain ⟨pindex, hmem, hnew⟩ := hleft
    exact ⟨pindex, hmem, (hfresh pindex hmem).mpr hnew⟩
  obtain ⟨first, pindex, heq, hfirst, hpindex, hle, hleast⟩ :=
    @selectFrom_none selectionHash mapBlockIndex (usesModifierV2 blocks) nPrev selected nStop
      blocks hindexed hsorted hleft'
  refine ⟨pindex, ?_, ?_, ?_⟩
  · rw [selectBlockFromCandidates_eq hindexed, heq]
  · cases hpindex with
    | inl h =>
        rw [h]
        exact ⟨hfirst.1, (hfresh first hfirst.1).mp hfirst.2.1, Or.inr fun other hmem hnew =>
          hfirst.2.2 other hmem ((hfresh other hmem).mpr hnew)⟩
    | inr h => exact ⟨h.1, (hfresh pindex h.1).mp h.2.1, Or.inl h.2.2⟩
  · intro other hother
    have hnew := (hfresh other hother.mem).mpr hother.fresh
    cases hother.inInterval with
    | inl htime => exact hleast other hother.mem hnew htime
    | inr hbefore =>
        -- there is only one first block
        have hhash : first.hash = other.hash :=
          hash_eq_of_comesBefore (hfirst.2.2 other hother.mem hnew)
            (hbefore first hfirst.1 ((hfresh first hfirst.1).mp hfirst.2.1))
        have hsame := hindexed other hother.mem
        rw [← hhash, hindexed first hfirst.1] at hsame
        cases hsame
        exact hle

/-! ## All rounds -/

/-- While fewer blocks are selected than there are, one is left. -/
theorem exists_left {blocks earlier : List CBlockIndex} (hnodup : blocks.Nodup)
    (hlength : earlier.length < blocks.length) : ∃ pindex ∈ blocks, pindex ∉ earlier := by
  by_contra hnone
  have hsubset : blocks ⊆ earlier := by
    intro pindex hmem
    by_contra hnew
    exact hnone ⟨pindex, hmem, hnew⟩
  have hle := (hnodup.subperm hsubset).length_le
  omega

/-- **The rounds**: each selects one of the blocks that the earlier ones left,
and adds its entropy bit. -/
theorem selectRounds_picks {blocks earlier : List CBlockIndex}
    (hindexed : ∀ pindex ∈ blocks, mapBlockIndex pindex.hash = some pindex)
    (hsorted : blocks.Pairwise fun a b => comesBefore a b = true) (hnodup : blocks.Nodup)
    (hselected : ∀ pindex ∈ blocks, pindex.hash ∈ selected ↔ pindex ∈ earlier)
    {rounds : Nat} (hrounds : earlier.length + rounds ≤ blocks.length) (nRound : Nat)
    (nNew : UInt64) :
    ∃ picks : List CBlockIndex, picks.length = rounds ∧
      selectRounds selectionHash mapBlockIndex (blocks.map sortKey) nPrev rounds nRound
        nStop selected nNew = some (nNew ||| entropyBits nRound picks) ∧
      ∀ r (hr : r < picks.length),
        RoundChoice (hashSelection selectionHash (usesModifierV2 blocks) nPrev) blocks
          (earlier ++ picks.take r) (nStop + sectionsFrom nRound (r + 1))
          (picks.get ⟨r, hr⟩) := by
  induction rounds generalizing nRound nStop selected nNew earlier with
  | zero =>
      refine ⟨[], rfl, ?_, fun r hr => by cases hr⟩
      unfold selectRounds entropyBits
      rw [UInt64.or_zero]
  | succ rounds ih =>
      obtain ⟨pindex, hselect, hchoice⟩ :=
        @selectBlockFromCandidates_choice selectionHash mapBlockIndex nPrev selected
          (nStop + getStakeModifierSelectionIntervalSection nRound) blocks earlier hindexed
          hsorted hselected (exists_left hnodup (by omega))
      have hselected' : ∀ p ∈ blocks,
          p.hash ∈ pindex.hash :: selected ↔ p ∈ earlier ++ [pindex] := by
        intro p hmem
        rw [List.mem_cons, hselected p hmem, List.mem_append, List.mem_singleton, or_comm]
        refine or_congr_right ⟨fun hhash => ?_, fun heq => by rw [heq]⟩
        have hsame := hindexed p hmem
        rw [hhash, hindexed pindex hchoice.allowed.mem] at hsame
        cases hsame
        rfl
      obtain ⟨picks, hlength, hbits, hpicks⟩ :=
        @ih (pindex.hash :: selected)
          (nStop + getStakeModifierSelectionIntervalSection nRound) (earlier ++ [pindex])
          hselected' (by rw [List.length_append, List.length_singleton]; omega) (nRound + 1)
          (nNew ||| (pindex.getStakeEntropyBit <<< nRound.toUInt64))
      refine ⟨pindex :: picks, by rw [List.length_cons, hlength], ?_, ?_⟩
      · conv_lhs => unfold selectRounds
        simp only [hselect]
        rw [hbits, UInt64.or_assoc]
        rfl
      · intro r hr
        cases r with
        | zero =>
            have hstop : sectionsFrom nRound 1 =
                getStakeModifierSelectionIntervalSection nRound := by
              rw [sectionsFrom_succ]
              exact Int.add_zero _
            rw [hstop, List.take_zero, List.append_nil]
            exact hchoice
        | succ r =>
            have hround := hpicks r (by rw [List.length_cons] at hr; omega)
            rw [Int.add_assoc, ← sectionsFrom_succ, List.append_assoc,
              List.singleton_append] at hround
            exact hround

/-! ## The modifier -/

theorem length_candidateBlocks (chain : List CBlockIndex) (nStart : Int) :
    (candidateBlocks chain nStart).length =
      (chain.takeWhile fun pindex => nStart ≤ pindex.getBlockTime).length := by
  unfold candidateBlocks
  rw [List.length_mergeSort, List.length_reverse]

theorem candidateBlocks_nodup {chain : List CBlockIndex} (h : chain.Nodup) (nStart : Int) :
    (candidateBlocks chain nStart).Nodup := by
  have hsub : (chain.takeWhile fun pindex => nStart ≤ pindex.getBlockTime).Nodup :=
    h.sublist (List.takeWhile_sublist _)
  exact (List.mergeSort_perm _ _).nodup_iff.mpr (List.nodup_reverse.mpr hsub)

/-- Where a modifier is due, it is made of the bits of the selected blocks. -/
theorem computeNextStakeModifier_eq {stakemodifier : UInt64} {pindexPrev : CBlockIndex}
    {rest : List CBlockIndex} {nModifierTime : Int} (hheight : pindexPrev.nHeight ≠ 2)
    (hlast : getLastStakeModifier (pindexPrev :: rest) = some (nPrev, nModifierTime))
    (hdue : nModifierTime / MODIFIER_INTERVAL <
      pindexPrev.getBlockTime / MODIFIER_INTERVAL) :
    computeNextStakeModifier selectionHash mapBlockIndex stakemodifier
        (pindexPrev :: rest) =
      match selectRounds selectionHash mapBlockIndex
          ((candidateBlocks (pindexPrev :: rest)
            (selectionIntervalStart pindexPrev)).map sortKey) nPrev
          (min 64 (candidateBlocks (pindexPrev :: rest)
            (selectionIntervalStart pindexPrev)).length) 0
          (selectionIntervalStart pindexPrev) [] 0 with
      | none => (nPrev, false)
      | some nStakeModifierNew => (nStakeModifierNew, true) := by
  unfold computeNextStakeModifier
  simp only [hheight, if_false, hlast, Int.not_le.mpr hdue, candidates_eq, List.length_map]
  rfl

end Rounds

/-! ## Chains of the index -/

section Runs

variable {selectionHash : Uint256 → UInt64 → Uint256} {stakemodifier : UInt64}

theorem chainIndex_height_lt {blocks : List CBlockIndex}
    (hdata : ∀ b ∈ blocks, b.blockData = b) :
    ∀ pindex ∈ chainIndex selectionHash stakemodifier blocks,
      pindex.nHeight < blocks.length := by
  induction blocks with
  | nil => exact fun _ hmem => by cases hmem
  | cons block rest ih =>
      obtain ⟨pindexNew, hchain, hheight⟩ := chainIndex_head selectionHash stakemodifier hdata
      have hrest := ih fun b hb => hdata b (List.mem_cons_of_mem _ hb)
      intro pindex hmem
      rw [hchain] at hmem
      rw [List.length_cons]
      cases List.mem_cons.mp hmem with
      | inl h =>
          rw [h, hheight]
          omega
      | inr h =>
          have hlt := hrest pindex h
          omega

theorem chainIndex_nodup {blocks : List CBlockIndex} (hdata : ∀ b ∈ blocks, b.blockData = b) :
    (chainIndex selectionHash stakemodifier blocks).Nodup := by
  induction blocks with
  | nil => exact List.nodup_nil
  | cons block rest ih =>
      have hdata' : ∀ b ∈ rest, b.blockData = b := fun b hb =>
        hdata b (List.mem_cons_of_mem _ hb)
      obtain ⟨pindexNew, hchain, hheight⟩ := chainIndex_head selectionHash stakemodifier hdata
      rw [hchain]
      refine List.nodup_cons.mpr ⟨fun hmem => ?_, ih hdata'⟩
      have hlt := chainIndex_height_lt hdata' pindexNew hmem
      omega

theorem blockData_of_mem_chain {chain : List CBlockIndex} :
    ∀ b ∈ chain.map CBlockIndex.blockData, b.blockData = b := by
  intro b hb
  obtain ⟨pindex, _, hpindex⟩ := List.mem_map.mp hb
  rw [← hpindex]
  rfl

theorem Good.nodup {map : BlockMap} (h : Good selectionHash stakemodifier map)
    {hash : Uint256} {entry : IndexEntry} (hentry : map.find? hash = some entry) :
    entry.chain.Nodup := by
  rw [h.chain_eq hash entry hentry]
  exact chainIndex_nodup blockData_of_mem_chain

/-- No modifier was generated up to the block at height 2. -/
theorem Good.height_ne {map : BlockMap} (h : Good selectionHash stakemodifier map)
    {hash : Uint256} {entry : IndexEntry} (hentry : map.find? hash = some entry)
    {last : UInt64 × Int} (hlast : getLastStakeModifier entry.chain = some last) :
    entry.pindex.nHeight ≠ 2 := by
  intro htwo
  have hdata : ∀ b ∈ entry.chain.map CBlockIndex.blockData, b.blockData = b :=
    blockData_of_mem_chain
  have hchain := h.chain_eq hash entry hentry
  obtain ⟨pindex, hhead, hheight⟩ := @chainIndex_head selectionHash stakemodifier
    entry.pindex.blockData (entry.pprevs.map CBlockIndex.blockData) hdata
  have hpindex : entry.pindex = pindex := (List.cons.inj (hchain.trans hhead)).1
  rw [← hpindex, htwo, List.length_map] at hheight
  have hlength : (entry.chain.map CBlockIndex.blockData).length ≤ 3 := by
    rw [List.length_map]
    show entry.pprevs.length + 1 ≤ 3
    omega
  have hlow := @chainIndex_low selectionHash stakemodifier _ hdata hlength
  rw [← hchain] at hlow
  rw [getLastStakeModifier_eq_none fun p hmem => (hlow p hmem).2] at hlast
  cases hlast

/-- **The modifier of the next block**: when one is due, every round selects the
block with the least selection hash among those that it may, and there is a
round for each candidate, up to 64. -/
theorem Run.computeNextStakeModifier_picks {genesis : StakeBlock} {map : BlockMap}
    (h : Run selectionHash stakemodifier genesis map) {hash : Uint256} {entry : IndexEntry}
    (hentry : map.find? hash = some entry) {nStakeModifierPrev : UInt64}
    {nModifierTime : Int}
    (hlast : getLastStakeModifier entry.chain = some (nStakeModifierPrev, nModifierTime))
    (hdue : nModifierTime / MODIFIER_INTERVAL <
      entry.pindex.getBlockTime / MODIFIER_INTERVAL)
    {blocks : List CBlockIndex}
    (hblocks : blocks = candidateBlocks entry.chain (selectionIntervalStart entry.pindex))
    {mapBlockIndex : Uint256 → Option CBlockIndex}
    (hindexed : ∀ pindex ∈ blocks, mapBlockIndex pindex.hash = some pindex) :
    ∃ picks : List CBlockIndex,
      picks.length = min 64 blocks.length ∧
      computeNextStakeModifier selectionHash mapBlockIndex stakemodifier entry.chain =
        (entropyBits 0 picks, true) ∧
      ∀ r (hr : r < picks.length),
        RoundChoice (hashSelection selectionHash (usesModifierV2 blocks) nStakeModifierPrev)
          blocks (picks.take r) (selectionIntervalStart entry.pindex + sectionsFrom 0 (r + 1))
          (picks.get ⟨r, hr⟩) := by
  have hgood := h.good
  have hsorted : blocks.Pairwise fun a b => comesBefore a b = true := by
    rw [hblocks]
    exact candidateBlocks_sorted _ _
  have hnodup : blocks.Nodup := by
    rw [hblocks]
    exact candidateBlocks_nodup (hgood.nodup hentry) _
  have hselected : ∀ pindex ∈ blocks, pindex.hash ∈ ([] : List Uint256) ↔
      pindex ∈ ([] : List CBlockIndex) := fun pindex _ =>
    iff_of_false List.not_mem_nil List.not_mem_nil
  have hrounds : ([] : List CBlockIndex).length + min 64 blocks.length ≤ blocks.length := by
    rw [List.length_nil]
    omega
  obtain ⟨picks, hlength, hbits, hpicks⟩ :=
    @selectRounds_picks selectionHash mapBlockIndex nStakeModifierPrev []
      (selectionIntervalStart entry.pindex) blocks [] hindexed hsorted hnodup hselected _
      hrounds 0 0
  refine ⟨picks, hlength, ?_, hpicks⟩
  have hcompute := @computeNextStakeModifier_eq selectionHash mapBlockIndex
    nStakeModifierPrev stakemodifier entry.pindex entry.pprevs nModifierTime
    (hgood.height_ne hentry hlast) hlast hdue
  refine hcompute.trans ?_
  show (match selectRounds selectionHash mapBlockIndex ((candidateBlocks entry.chain
    (selectionIntervalStart entry.pindex)).map sortKey) nStakeModifierPrev
    (min 64 (candidateBlocks entry.chain (selectionIntervalStart entry.pindex)).length) 0
    (selectionIntervalStart entry.pindex) [] 0 with
    | none => (nStakeModifierPrev, false)
    | some nStakeModifierNew => (nStakeModifierNew, true)) = _
  rw [← hblocks, hbits, UInt64.zero_or]

/-- The block after height 4 of the plain chain, whose last modifier is the one
at height 3. -/
theorem computeNextStakeModifier_picks_plain :
    ∃ (map : BlockMap) (entry : IndexEntry), map.find? 104 = some entry ∧
      entry.chain.length = 5 ∧
      ∃ picks : List CBlockIndex, picks.length = 5 ∧
        computeNextStakeModifier mixHash (entryOf map) 7 entry.chain =
          (entropyBits 0 picks, true) := by
  have hrun : Run mixHash 7 (plainBlock 0) (plainIndex mixHash 7 4) :=
    Run.accept (plainIndex_run 7) rfl
  obtain ⟨entry, hentry, hlast, htime, hlength⟩ : ∃ entry,
      (plainIndex mixHash 7 4).find? 104 = some entry ∧
      getLastStakeModifier entry.chain = some (7, 1700000180) ∧
      entry.pindex.getBlockTime = 1700000240 ∧
      (entry.chain.takeWhile fun pindex => selectionIntervalStart entry.pindex ≤
        pindex.getBlockTime).length = 5 ∧ entry.chain.length = 5 :=
    ⟨_, rfl, by decide, by decide, by decide, by decide⟩
  have hdue : (1700000180 : Int) / MODIFIER_INTERVAL <
      entry.pindex.getBlockTime / MODIFIER_INTERVAL := by
    rw [htime]
    decide
  obtain ⟨picks, hpicks, hbits, _⟩ :=
    hrun.computeNextStakeModifier_picks hentry hlast hdue rfl fun pindex hmem =>
      hrun.good.closed _ _ hentry pindex (mem_chain_of_mem_candidateBlocks hmem)
  rw [length_candidateBlocks, hlength.1] at hpicks
  exact ⟨_, entry, hentry, hlength.2, picks, hpicks, hbits⟩

end Runs

end Agrarian.Stake
