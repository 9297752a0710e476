import Agrarian.Lib.OrderStatistic

/-!
# The time offset

A node corrects its clock by the median of what its peers report, a sample
from each address, as long as the median is less than 70 minutes away.  The
filter keeps 200 values, so the correction stops moving once it is full: their
number is even from then on.

The bound is tested on the absolute value of a 64-bit number, and the least
such number has none.  A median of `-2 ^ 63` passes the test.
-/

namespace Agrarian.Util

open Agrarian.Lib

/-- Machine numbers in the order of the numbers they stand for. -/
instance instLinearOrderInt64 : LinearOrder Int64 where
  le_refl := Int64.le_refl
  le_trans := fun _ _ _ => Int64.le_trans
  le_antisymm := fun _ _ => Int64.le_antisymm
  le_total := Int64.le_total
  lt_iff_le_not_ge := fun a b => by
    rw [Int64.not_le, Int64.le_iff_toInt_le, Int64.lt_iff_toInt_lt]
    omega
  toDecidableLE := inferInstance
  toDecidableEq := inferInstance
  toDecidableLT := inferInstance

/-! ## `CMedianFilter` -/

section MedianFilter

variable {T : Type} [LinearOrder T]

/-- `CMedianFilter`: the last values, and the same values sorted. -/
structure CMedianFilter (T : Type) [LinearOrder T] where
  vValues : List T
  vSorted : List T
  nSize : Nat
  vSorted_eq : vSorted = vValues.insertionSort (· ≤ ·)
  vValues_pos : 0 < vValues.length

/-- `CMedianFilter::CMedianFilter`. -/
def CMedianFilter.new (size : Nat) (initial_value : T) : CMedianFilter T where
  vValues := [initial_value]
  vSorted := [initial_value]
  nSize := size
  vSorted_eq := rfl
  vValues_pos := Nat.zero_lt_one

/-- `CMedianFilter::input`: a full filter forgets its oldest value. -/
def CMedianFilter.input (f : CMedianFilter T) (value : T) :
    CMedianFilter T :=
  let kept := if f.vValues.length = f.nSize then f.vValues.drop 1 else f.vValues
  { vValues := kept ++ [value]
    vSorted := (kept ++ [value]).insertionSort (· ≤ ·)
    nSize := f.nSize
    vSorted_eq := rfl
    vValues_pos := by simp }

/-- `CMedianFilter::size`. -/
def CMedianFilter.size (f : CMedianFilter T) : Nat := f.vValues.length

/-- `CMedianFilter::sorted`. -/
def CMedianFilter.sorted (f : CMedianFilter T) : List T := f.vSorted

theorem CMedianFilter.length_vSorted (f : CMedianFilter T) :
    f.vSorted.length = f.vValues.length := by
  rw [f.vSorted_eq, List.length_insertionSort]

/-- `CMedianFilter::median`: the assertion is the invariant of the filter. -/
def CMedianFilter.median [Add T] [Div T] [OfNat T 2] (f : CMedianFilter T) :
    T :=
  have hsize : 0 < f.vSorted.length := f.length_vSorted ▸ f.vValues_pos
  if f.vSorted.length % 2 = 1 then
    f.vSorted.get ⟨f.vSorted.length / 2, by omega⟩
  else
    (f.vSorted.get ⟨f.vSorted.length / 2 - 1, by omega⟩ +
      f.vSorted.get ⟨f.vSorted.length / 2, by omega⟩) / 2

@[simp] theorem CMedianFilter.nSize_input (f : CMedianFilter T) (value : T) :
    (f.input value).nSize = f.nSize := rfl

/-- The values are those that were put in last. -/
theorem CMedianFilter.vValues_input {f : CMedianFilter T} {l : List T}
    (hpos : 0 < f.nSize) (h : f.vValues = l.rtake f.nSize) (value : T) :
    (f.input value).vValues = (l ++ [value]).rtake f.nSize := by
  unfold CMedianFilter.input
  dsimp only
  rw [h]
  unfold List.rtake
  rw [List.length_drop, List.length_append, List.length_singleton]
  by_cases hfull : l.length - (l.length - f.nSize) = f.nSize
  · rw [if_pos hfull, List.drop_drop,
      List.drop_append_of_le_length (by omega)]
    congr 2
    omega
  · rw [if_neg hfull, List.drop_append_of_le_length (by omega)]
    congr 2
    omega

/-- Of an odd number of values the median is the one in the middle. -/
theorem CMedianFilter.kthSmallest_median [Add T] [Div T] [OfNat T 2]
    (f : CMedianFilter T) (hodd : f.size % 2 = 1) :
    kthSmallest f.vValues (f.vValues.length / 2) = some f.median := by
  have hlen := f.length_vSorted
  unfold CMedianFilter.size at hodd
  unfold kthSmallest CMedianFilter.median
  rw [if_pos (by omega), ← f.vSorted_eq, ← hlen]
  exact List.getElem?_eq_getElem _

end MedianFilter

/-! ## `AddTimeData` -/

/-- `abs64`. -/
def abs64 (n : Int64) : Int64 := if n ≥ 0 then n else -n

/-- Of every other number the absolute value is right. -/
theorem toInt_abs64 {n : Int64} (h : n ≠ Int64.minValue) :
    (abs64 n).toInt = |n.toInt| := by
  unfold abs64
  by_cases hn : n ≥ 0
  · rw [if_pos hn, abs_of_nonneg]
    exact Int64.le_iff_toInt_le.mp hn
  · have hneg : n.toInt < 0 := by
      have hlt := mt Int64.le_iff_toInt_le.mpr hn
      rw [Int64.toInt_zero] at hlt
      omega
    have hmin : n.toInt ≠ -2 ^ 63 := by
      intro heq
      exact h (Int64.toInt_inj.mp (heq.trans Int64.toInt_minValue.symm))
    have hlow := n.le_toInt
    rw [if_neg hn, Int64.toInt_neg, abs_of_neg hneg]
    apply Int.bmod_eq_of_le
    · omega
    · omega

/-- What the calls share: the statics of the function and `nTimeOffset`. -/
structure TimeData (A : Type) where
  setKnown : List A
  vTimeOffsets : CMedianFilter Int64
  nTimeOffset : Int64
  fDone : Bool
  strMiscWarning : String

variable {A : Type}

/-- The node at its start. -/
def TimeData.initial : TimeData A where
  setKnown := []
  vTimeOffsets := CMedianFilter.new 200 0
  nTimeOffset := 0
  fDone := false
  strMiscWarning := ""

/-- The warning that the clock of the node may be wrong. -/
def clockWarning : String :=
  "Warning: Please check that your computer's date and time are correct! " ++
    "If your clock is wrong Agrarian Core will not work properly."

/-- The update of `nTimeOffset`: only let other nodes change our time by so
much. -/
def TimeData.updateOffset (s : TimeData A) : TimeData A :=
  let nMedian := s.vTimeOffsets.median
  let vSorted := s.vTimeOffsets.sorted
  if abs64 nMedian < 70 * 60 then
    { s with nTimeOffset := nMedian }
  else
    let fMatch := vSorted.any fun nOffset =>
      nOffset ≠ 0 ∧ abs64 nOffset < 5 * 60
    if ¬ s.fDone ∧ ¬ fMatch then
      { s with nTimeOffset := 0, fDone := true, strMiscWarning := clockWarning }
    else
      { s with nTimeOffset := 0 }

variable [DecidableEq A]

/-- `AddTimeData`. -/
def addTimeData (s : TimeData A) (ip : A) (nOffsetSample : Int64) :
    TimeData A :=
  if ip ∈ s.setKnown then s
  else
    let s' := { s with
      setKnown := ip :: s.setKnown
      vTimeOffsets := s.vTimeOffsets.input nOffsetSample }
    if s'.vTimeOffsets.size ≥ 5 ∧ s'.vTimeOffsets.size % 2 = 1 then
      s'.updateOffset
    else s'

/-- The node after a sequence of calls. -/
def addTimeDataRun (calls : List (A × Int64)) : TimeData A :=
  calls.foldl (fun s call => addTimeData s call.1 call.2) TimeData.initial

/-! ## What the offset stands for -/

/-- The sample each address sent first. -/
def distinctSamples : List (A × Int64) → List (A × Int64)
  | [] => []
  | call :: calls =>
      call :: (distinctSamples calls).filter fun other => other.1 ≠ call.1

/-- The last up to 200 of these samples and the initial zero. -/
def sampleWindow (calls : List (A × Int64)) : List Int64 :=
  (0 :: (distinctSamples calls).map Prod.snd).rtake 200

/-- Enough samples to follow them, and a single one in the middle. -/
def OddWindow (w : List Int64) : Prop := 5 ≤ w.length ∧ w.length % 2 = 1

instance (w : List Int64) : Decidable (OddWindow w) :=
  inferInstanceAs (Decidable (_ ∧ _))

/-- The window at the last moment it was odd. -/
def LastOddWindow (calls : List (A × Int64)) (w : List Int64) : Prop :=
  ∃ p, p <+: calls ∧ OddWindow (sampleWindow p) ∧ sampleWindow p = w ∧
    ∀ q, q <+: calls → OddWindow (sampleWindow q) → q <+: p

/-- The median of an odd number of samples. -/
def medianOf (w : List Int64) : Option Int64 := kthSmallest w (w.length / 2)

/-- An offset below 70 minutes that is zero or the last median. -/
structure BoundedMedian (calls : List (A × Int64)) (nTimeOffset : Int64) :
    Prop where
  bounded : |nTimeOffset.toInt| < 70 * 60
  median : nTimeOffset = 0 ∨
    ∃ w, LastOddWindow calls w ∧ medianOf w = some nTimeOffset

theorem distinctSamples_append_singleton (calls : List (A × Int64))
    (call : A × Int64) :
    distinctSamples (calls ++ [call]) =
      distinctSamples calls ++
        if call.1 ∈ calls.map Prod.fst then [] else [call] := by
  induction calls with
  | nil => rfl
  | cons first calls ih =>
      rw [List.cons_append, distinctSamples, ih, distinctSamples,
        List.filter_append, List.cons_append, List.map_cons]
      congr 2
      simp only [List.mem_cons]
      by_cases hfirst : call.1 = first.1
      · rw [if_pos (Or.inl hfirst)]
        split_ifs
        · rfl
        · simp [hfirst]
      · by_cases hmem : call.1 ∈ calls.map Prod.fst
        · rw [if_pos hmem, if_pos (Or.inr hmem), List.filter_nil]
        · rw [if_neg hmem, if_neg (not_or.mpr ⟨hfirst, hmem⟩)]
          simp [hfirst]

theorem lastOddWindow_of_odd {calls : List (A × Int64)}
    (hodd : OddWindow (sampleWindow calls)) (w : List Int64) :
    LastOddWindow calls w ↔ w = sampleWindow calls := by
  constructor
  · rintro ⟨p, hp, -, rfl, hlast⟩
    have hwhole := hlast _ (List.prefix_refl _) hodd
    exact congrArg sampleWindow (hp.eq_of_length_le hwhole.length_le)
  · intro hw
    exact ⟨_, List.prefix_refl _, hodd, hw.symm, fun q hq _ => hq⟩

/-- A call that leaves an even window leaves the last odd one as it was. -/
theorem lastOddWindow_append_singleton {calls : List (A × Int64)}
    {call : A × Int64} (heven : ¬ OddWindow (sampleWindow (calls ++ [call])))
    (w : List Int64) :
    LastOddWindow (calls ++ [call]) w ↔ LastOddWindow calls w := by
  constructor
  · rintro ⟨p, hp, hpodd, hw, hlast⟩
    rcases List.prefix_concat_iff.mp hp with rfl | hp
    · exact absurd hpodd heven
    · refine ⟨p, hp, hpodd, hw, ?_⟩
      intro q hq
      exact hlast q (hq.trans (List.prefix_append _ _))
  · rintro ⟨p, hp, hpodd, hw, hlast⟩
    refine ⟨p, hp.trans (List.prefix_append _ _), hpodd, hw, ?_⟩
    intro q hq hqodd
    rcases List.prefix_concat_iff.mp hq with rfl | hq
    · exact absurd hqodd heven
    · exact hlast q hq hqodd

/-- A call from an address that is known leaves the window as it is. -/
theorem sampleWindow_known {calls : List (A × Int64)} {call : A × Int64}
    (hknown : call.1 ∈ calls.map Prod.fst) :
    sampleWindow (calls ++ [call]) = sampleWindow calls := by
  unfold sampleWindow
  rw [distinctSamples_append_singleton, if_pos hknown, List.append_nil]

theorem sampleWindow_new {calls : List (A × Int64)} {call : A × Int64}
    (hnew : call.1 ∉ calls.map Prod.fst) :
    sampleWindow (calls ++ [call]) =
      (0 :: (distinctSamples calls).map Prod.snd ++ [call.2]).rtake 200 := by
  unfold sampleWindow
  rw [distinctSamples_append_singleton, if_neg hnew, List.map_append]
  rfl

/-- A call that leaves the window leaves the last odd one as well. -/
theorem lastOddWindow_known {calls : List (A × Int64)} {call : A × Int64}
    (hknown : call.1 ∈ calls.map Prod.fst) (w : List Int64) :
    LastOddWindow (calls ++ [call]) w ↔ LastOddWindow calls w := by
  have hsame := sampleWindow_known hknown
  by_cases hodd : OddWindow (sampleWindow calls)
  · rw [lastOddWindow_of_odd hodd, lastOddWindow_of_odd (by rwa [hsame]), hsame]
  · exact lastOddWindow_append_singleton (by rwa [hsame]) w

/-! ## The offset follows the median -/

/-- The median, or zero if it is too far away. -/
def limitedOffset (nMedian : Int64) : Int64 :=
  if abs64 nMedian < 70 * 60 then nMedian else 0

/-- What holds between the calls so far and the node. -/
structure Follows (calls : List (A × Int64)) (s : TimeData A) : Prop where
  known : ∀ ip, ip ∈ s.setKnown ↔ ip ∈ calls.map Prod.fst
  capacity : s.vTimeOffsets.nSize = 200
  values : s.vTimeOffsets.vValues = sampleWindow calls
  offset_of_last : ∀ w, LastOddWindow calls w →
    ∃ m, medianOf w = some m ∧ s.nTimeOffset = limitedOffset m
  offset_of_none : (∀ w, ¬ LastOddWindow calls w) → s.nTimeOffset = 0

theorem sampleWindow_nil : sampleWindow ([] : List (A × Int64)) = [0] := by
  simp [sampleWindow, distinctSamples, List.rtake]

theorem not_lastOddWindow_nil (w : List Int64) :
    ¬ LastOddWindow ([] : List (A × Int64)) w := by
  rintro ⟨p, hp, ⟨hlarge, -⟩, -, -⟩
  rw [List.prefix_nil.mp hp, sampleWindow_nil, List.length_singleton] at hlarge
  omega

theorem follows_initial :
    Follows ([] : List (A × Int64)) TimeData.initial := by
  refine ⟨fun _ => Iff.rfl, rfl, sampleWindow_nil.symm, ?_, fun _ => rfl⟩
  intro w hw
  exact absurd hw (not_lastOddWindow_nil w)

omit [DecidableEq A] in
@[simp] theorem TimeData.updateOffset_setKnown (s : TimeData A) :
    s.updateOffset.setKnown = s.setKnown := by
  unfold TimeData.updateOffset
  dsimp only
  split_ifs <;> rfl

omit [DecidableEq A] in
@[simp] theorem TimeData.updateOffset_vTimeOffsets (s : TimeData A) :
    s.updateOffset.vTimeOffsets = s.vTimeOffsets := by
  unfold TimeData.updateOffset
  dsimp only
  split_ifs <;> rfl

omit [DecidableEq A] in
theorem TimeData.updateOffset_nTimeOffset (s : TimeData A) :
    s.updateOffset.nTimeOffset = limitedOffset s.vTimeOffsets.median := by
  unfold TimeData.updateOffset limitedOffset
  dsimp only
  split_ifs <;> rfl

/-- **One call.** -/
theorem Follows.addTimeData {calls : List (A × Int64)} {s : TimeData A}
    (h : Follows calls s) (call : A × Int64) :
    Follows (calls ++ [call]) (addTimeData s call.1 call.2) := by
  have hmem : ∀ ip, ip ∈ (calls ++ [call]).map Prod.fst ↔
      ip = call.1 ∨ ip ∈ calls.map Prod.fst := by
    intro ip
    rw [List.map_append, List.mem_append, List.map_singleton,
      List.mem_singleton, or_comm]
  unfold Util.addTimeData
  by_cases hknown : call.1 ∈ calls.map Prod.fst
  · rw [if_pos ((h.known _).mpr hknown)]
    refine ⟨?_, h.capacity, ?_, ?_, ?_⟩
    · intro ip
      rw [hmem, h.known]
      constructor
      · exact Or.inr
      · rintro (rfl | hip)
        · exact hknown
        · exact hip
    · rw [sampleWindow_known hknown]
      exact h.values
    · intro w hw
      exact h.offset_of_last w ((lastOddWindow_known hknown w).mp hw)
    · intro hnone
      exact h.offset_of_none fun w hw =>
        hnone w ((lastOddWindow_known hknown w).mpr hw)
  · have hvalues : (s.vTimeOffsets.input call.2).vValues =
        sampleWindow (calls ++ [call]) := by
      rw [sampleWindow_new hknown, ← h.capacity]
      apply CMedianFilter.vValues_input
      · rw [h.capacity]
        decide
      · rw [h.capacity]
        exact h.values
    have hknown' : ∀ ip, ip ∈ call.1 :: s.setKnown ↔
        ip ∈ (calls ++ [call]).map Prod.fst := by
      intro ip
      rw [hmem, List.mem_cons, h.known]
    rw [if_neg (mt (h.known _).mp hknown)]
    dsimp only
    unfold CMedianFilter.size
    rw [hvalues]
    split_ifs with hodd
    · have hlast := lastOddWindow_of_odd hodd
      refine ⟨?_, ?_, ?_, ?_, ?_⟩
      · rw [TimeData.updateOffset_setKnown]
        exact hknown'
      · rw [TimeData.updateOffset_vTimeOffsets]
        exact h.capacity
      · rw [TimeData.updateOffset_vTimeOffsets]
        exact hvalues
      · intro w hw
        refine ⟨_, ?_, TimeData.updateOffset_nTimeOffset _⟩
        rw [(hlast w).mp hw, ← hvalues]
        apply CMedianFilter.kthSmallest_median
        unfold CMedianFilter.size
        rw [hvalues]
        exact hodd.2
      · intro hnone
        exact absurd ((hlast _).mpr rfl) (hnone _)
    · have hlast := lastOddWindow_append_singleton hodd
      refine ⟨hknown', h.capacity, hvalues, ?_, ?_⟩
      · intro w hw
        exact h.offset_of_last w ((hlast w).mp hw)
      · intro hnone
        exact h.offset_of_none fun w hw => hnone w ((hlast w).mpr hw)

/-- **The run.**  After any calls the offset is the last median of an odd
window, limited, and zero before there is one. -/
theorem addTimeDataRun_spec (calls : List (A × Int64)) :
    Follows calls (addTimeDataRun calls) := by
  induction calls using List.reverseRecOn with
  | nil => exact follows_initial
  | append_singleton calls call ih =>
      unfold addTimeDataRun
      rw [List.foldl_append]
      exact ih.addTimeData call

/-! ## Which medians get through -/

theorem limitedOffset_minValue :
    limitedOffset Int64.minValue = Int64.minValue := by decide

/-- A limited offset that is not the least number is below 70 minutes. -/
theorem abs_limitedOffset {m : Int64} (h : m ≠ Int64.minValue) :
    |(limitedOffset m).toInt| < 70 * 60 := by
  unfold limitedOffset
  split_ifs with hsmall
  · rw [Int64.lt_iff_toInt_lt, toInt_abs64 h] at hsmall
    exact hsmall
  · decide

theorem limitedOffset_eq (m : Int64) :
    limitedOffset m = 0 ∨ limitedOffset m = m := by
  unfold limitedOffset
  split_ifs
  · exact Or.inr rfl
  · exact Or.inl rfl

/-- The median is the least number if most samples are. -/
theorem medianOf_eq_minValue_iff {w : List Int64} {m : Int64}
    (hodd : OddWindow w) (hm : medianOf w = some m) :
    m = Int64.minValue ↔ w.length < 2 * w.count Int64.minValue := by
  have hleast : ∀ n : Int64, n ≤ Int64.minValue ↔ n = Int64.minValue := by
    intro n
    constructor
    · intro hn
      exact le_antisymm hn (Int64.minValue_le n)
    · rintro rfl
      exact le_refl _
  have hcount : w.countP (· ≤ Int64.minValue) = w.count Int64.minValue := by
    unfold List.count
    apply List.countP_congr
    intro n _
    simp [hleast n]
  rw [← hleast, kthSmallest_le_iff hm, hcount]
  have := hodd.2
  omega

/-- After the calls the offset is as it should be if the last median is not
the least number. -/
theorem boundedMedian_iff (calls : List (A × Int64)) :
    BoundedMedian calls (addTimeDataRun calls).nTimeOffset ↔
      ∀ w, LastOddWindow calls w →
        2 * w.count Int64.minValue ≤ w.length := by
  have hrun := addTimeDataRun_spec calls
  constructor
  · intro h w hw
    obtain ⟨m, hm, hoffset⟩ := hrun.offset_of_last w hw
    obtain ⟨p, -, hodd, rfl, -⟩ := hw
    by_contra hmost
    have hmin := (medianOf_eq_minValue_iff hodd hm).mpr (not_le.mp hmost)
    have hbounded := h.bounded
    rw [hoffset, hmin, limitedOffset_minValue] at hbounded
    exact absurd hbounded (by decide)
  · intro h
    by_cases hsome : ∃ w, LastOddWindow calls w
    · obtain ⟨w, hw⟩ := hsome
      obtain ⟨m, hm, hoffset⟩ := hrun.offset_of_last w hw
      have hfew := h w hw
      have hne : m ≠ Int64.minValue := by
        obtain ⟨p, -, hodd, rfl, -⟩ := hw
        exact mt (medianOf_eq_minValue_iff hodd hm).mp (Nat.not_lt.mpr hfew)
      rw [hoffset]
      refine ⟨abs_limitedOffset hne, ?_⟩
      rcases limitedOffset_eq m with hzero | hsame
      · exact Or.inl hzero
      · exact Or.inr ⟨w, hw, by rw [hsame, hm]⟩
    · have hzero := hrun.offset_of_none (not_exists.mp hsome)
      rw [hzero]
      exact ⟨by decide, Or.inl rfl⟩

/-- **The offset is bounded exactly without a majority of least samples.**
After every call it is below 70 minutes, and zero or the last median, if at no
call that leaves an odd window of five or more most of its samples are
`-2 ^ 63`. -/
theorem timeOffset_bounded_iff (calls : List (A × Int64)) :
    (∀ p, p <+: calls →
      BoundedMedian p (addTimeDataRun p).nTimeOffset) ↔
    ∀ p, p <+: calls → OddWindow (sampleWindow p) →
      2 * (sampleWindow p).count Int64.minValue ≤ (sampleWindow p).length := by
  simp only [boundedMedian_iff]
  constructor
  · intro h p hp hodd
    exact h p hp _ ((lastOddWindow_of_odd hodd _).mpr rfl)
  · rintro h p hp w ⟨q, hq, hodd, rfl, -⟩
    exact h q (hq.trans hp) hodd

/-- Four peers that send the least number move the clock by it. -/
theorem timeOffset_bounded_fourPeers :
    ¬ ∀ calls : List (Nat × Int64),
      BoundedMedian calls (addTimeDataRun calls).nTimeOffset := by
  intro h
  have hbounded := (h [(0, Int64.minValue), (1, Int64.minValue),
    (2, Int64.minValue), (3, Int64.minValue)]).bounded
  exact absurd hbounded (by decide)

end Agrarian.Util
