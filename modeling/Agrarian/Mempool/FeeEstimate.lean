import Agrarian.Lib.BucketRank
import Agrarian.Lib.MachineInt
import Agrarian.Primitives

/-!
# Estimates of fees and priorities

`CMinerPolicyEstimator` of `txmempool.cpp`.  The blocks that are seen leave samples
of fee rates and priorities, in buckets by the number of blocks that a transaction
waited; an estimate for a number of blocks is the sample of a certain rank among
all of them, sorted downwards.  The sorted samples are kept until the next block.

A sample is recorded, or read from a file, if it is sane, which makes it a number
that is not negative.  A priority is a rational number or infinite; what compares
with nothing is `none`.  The logged texts are left out, but not the estimates that
`seenBlock` asks for in order to log them.
-/

namespace Agrarian.Mempool

open Agrarian.Lib

/-! ## Fee rates and priorities -/

structure CFeeRate where
  nSatoshisPerK : Int
  deriving DecidableEq, Repr

instance : LinearOrder CFeeRate :=
  LinearOrder.lift' CFeeRate.nSatoshisPerK fun a b h => by
    cases a
    cases b
    exact congrArg CFeeRate.mk h

namespace CFeeRate

/-- The rate of a fee for a size; an amount and a size divide as unsigned numbers. -/
def ofFee (nFeePaid : Int) (nSize : Nat) : CFeeRate :=
  if 0 < nSize then ⟨int64 (nFeePaid * 1000 % 2 ^ 64 / nSize)⟩ else ⟨0⟩

def getFee (rate : CFeeRate) (nSize : Nat) : Int :=
  let nFee := int64 (rate.nSatoshisPerK * nSize % 2 ^ 64 / 1000)
  if nFee = 0 ∧ 0 < rate.nSatoshisPerK then rate.nSatoshisPerK else nFee

def getFeePerK (rate : CFeeRate) : Int := rate.getFee 1000

end CFeeRate

/-- A `double` that is a number. -/
abbrev Double := WithBot (WithTop ℚ)

/-- `AllowFree`, with the threshold `COIN * 1440 / 250`. -/
def allowFree (dPriority : Option Double) : Bool :=
  match dPriority with
  | none => false
  | some priority => ((576000000 : ℚ) : WithTop ℚ) < priority

/-- `AreSane` for a fee rate. -/
def SaneFee (fee minRelayFee : CFeeRate) : Prop :=
  ⟨0⟩ ≤ fee ∧ fee.getFeePerK ≤ int64 (minRelayFee.getFeePerK * 10000)

instance (fee minRelayFee : CFeeRate) : Decidable (SaneFee fee minRelayFee) :=
  inferInstanceAs (Decidable (_ ∧ _))

/-! ## Samples -/

abbrev FeeSample := { fee : CFeeRate // ⟨0⟩ ≤ fee }

abbrev PrioritySample := { priority : Double // 0 ≤ priority }

/-- A buffer that drops the first elements when it is full. -/
structure CircularBuffer (capacity : Nat) (α : Type) where
  toList : List α
  length_le : toList.length ≤ capacity

namespace CircularBuffer

variable {capacity : Nat} {α : Type}

def empty : CircularBuffer capacity α := ⟨[], Nat.zero_le _⟩

/-- `insert` at the end; `push_back` is the insertion of one element. -/
def insertEnd (buf : CircularBuffer capacity α) (l : List α) : CircularBuffer capacity α where
  toList := (buf.toList ++ l).drop ((buf.toList ++ l).length - capacity)
  length_le := by
    rw [List.length_drop]
    omega

end CircularBuffer

/-- The samples of the transactions that waited for one number of blocks. -/
structure CBlockAverage where
  feeSamples : CircularBuffer 100 FeeSample := CircularBuffer.empty
  prioritySamples : CircularBuffer 100 PrioritySample := CircularBuffer.empty

namespace CBlockAverage

def recordFee (b : CBlockAverage) (feeRate : FeeSample) : CBlockAverage :=
  { b with feeSamples := b.feeSamples.insertEnd [feeRate] }

def recordPriority (b : CBlockAverage) (priority : PrioritySample) : CBlockAverage :=
  { b with prioritySamples := b.prioritySamples.insertEnd [priority] }

/-- `Read`, with `none` where it throws. -/
def read (minRelayFee : CFeeRate) (vecFee : List CFeeRate)
    (vecPriority : List (Option Double)) : Option CBlockAverage := do
  let fees ← vecFee.mapM fun fee =>
    if h : SaneFee fee minRelayFee then some (⟨fee, h.1⟩ : FeeSample) else none
  let priorities ← vecPriority.mapM fun
    | none => none
    | some priority =>
        if h : 0 ≤ priority then some (⟨priority, h⟩ : PrioritySample) else none
  some
    { feeSamples := CircularBuffer.empty.insertEnd fees
      prioritySamples := CircularBuffer.empty.insertEnd priorities }

end CBlockAverage

/-- The sorts of the code, with `std::greater`. -/
structure EstimateSorts where
  fees : StdSort fun a b : FeeSample => decide (b < a)
  priorities : StdSort fun a b : PrioritySample => decide (b < a)

/-! ## Estimates -/

/-- The samples are sorted when there are none that are. -/
def sortIfEmpty {α : Type} [LinearOrder α] (byValue : StdSort fun a b : α => decide (b < a))
    (buckets : List (List α)) (cache : SortedSamples α) : SortedSamples α :=
  if cache.toList.length = 0 then SortedSamples.ofSort byValue buckets.flatten else cache

/-- What `estimateFee` and `estimatePriority` do with the samples of one kind: the
estimate, and the sorted samples that they keep. -/
def estimate {α β : Type} [LinearOrder α] (byValue : StdSort fun a b : α => decide (b < a))
    (value : α → β) (low : β) (buckets : List (List α)) (cache : SortedSamples α)
    (nBlocksToConfirm : Int) : β × SortedSamples α :=
  let nBlocksToConfirm := nBlocksToConfirm - 1
  if nBlocksToConfirm < 0 ∨ (buckets.length : Int) ≤ nBlocksToConfirm then (low, cache)
  else
    let cache := sortIfEmpty byValue buckets cache
    if cache.toList.length < 11 then (low, cache)
    else (cache.sampleAt value low (rankIndex buckets nBlocksToConfirm.toNat), cache)

structure CMinerPolicyEstimator where
  history : List CBlockAverage
  history_ne : history ≠ []
  sortedFeeSamples : SortedSamples FeeSample := SortedSamples.empty
  sortedPrioritySamples : SortedSamples PrioritySample := SortedSamples.empty
  nBestSeenHeight : Int := 0

namespace CMinerPolicyEstimator

variable (sorts : EstimateSorts)

def feeBuckets (e : CMinerPolicyEstimator) : List (List FeeSample) :=
  e.history.map fun b => b.feeSamples.toList

def priorityBuckets (e : CMinerPolicyEstimator) : List (List PrioritySample) :=
  e.history.map fun b => b.prioritySamples.toList

def estimateFee (e : CMinerPolicyEstimator) (nBlocksToConfirm : Int) :
    CFeeRate × CMinerPolicyEstimator :=
  let r := estimate sorts.fees Subtype.val ⟨0⟩ e.feeBuckets e.sortedFeeSamples
    nBlocksToConfirm
  (r.1, { e with sortedFeeSamples := r.2 })

def estimatePriority (e : CMinerPolicyEstimator) (nBlocksToConfirm : Int) :
    Double × CMinerPolicyEstimator :=
  let r := estimate sorts.priorities Subtype.val (((-1 : ℚ) : WithTop ℚ) : Double)
    e.priorityBuckets e.sortedPrioritySamples nBlocksToConfirm
  (r.1, { e with sortedPrioritySamples := r.2 })

/-! ## The history -/

/-- Change a bucket. -/
def modifyBucket (e : CMinerPolicyEstimator) (i : Nat) (f : CBlockAverage → CBlockAverage) :
    CMinerPolicyEstimator :=
  { e with
    history := e.history.modify i f
    history_ne := by
      rw [← List.length_pos_iff, List.length_modify, List.length_pos_iff]
      exact e.history_ne }

/-- Record a transaction that was confirmed; the last bucket is for all others. -/
def seenTxConfirm (feeRate minRelayFee : CFeeRate) (dPriority : Option Double)
    (nBlocksAgo : Nat) (e : CMinerPolicyEstimator) : CMinerPolicyEstimator :=
  let nBlocksTruncated := min nBlocksAgo (e.history.length - 1)
  -- guess why the transaction was included
  let sufficientFee := decide (minRelayFee < feeRate)
  let sufficientPriority := allowFree dPriority
  if h : (sufficientFee && !sufficientPriority) = true ∧ SaneFee feeRate minRelayFee then
    e.modifyBucket nBlocksTruncated fun b => b.recordFee ⟨feeRate, h.2.1⟩
  else
    match dPriority with
    | none => e
    | some priority =>
        if h : (sufficientPriority && !sufficientFee) = true ∧ 0 ≤ priority then
          e.modifyBucket nBlocksTruncated fun b => b.recordPriority ⟨priority, h.2⟩
        else e

/-- What is read of an entry of the pool that a block confirms. -/
structure Confirmed where
  nHeight : Nat
  nFee : Int
  nTxSize : Nat
  /-- Its priority when it came in. -/
  dPriority : Option Double

/-- `random_shuffle`, for each bucket. -/
structure Shuffle where
  shuffle : Nat → List Confirmed → List Confirmed
  perm : ∀ i l, (shuffle i l).Perm l

/-- The bucket of a transaction, and `none` for one that a reorganization has made
come from the future. -/
def bucketOf (nBuckets : Nat) (nBlockHeight : Int) (entry : Confirmed) : Option Nat :=
  let delta := int32 (nBlockHeight - entry.nHeight)
  if delta ≤ 0 then none
  else if (nBuckets : Int) ≤ delta - 1 then some (nBuckets - 1)
  else some (delta - 1).toNat

/-- The samples of one bucket: at most ten random entries. -/
def seenBucket (shuffle : Shuffle) (entries : List Confirmed) (nBlockHeight : Int)
    (minRelayFee : CFeeRate) (e : CMinerPolicyEstimator) (i : Nat) : CMinerPolicyEstimator :=
  let bucket := entries.filter fun entry =>
    bucketOf e.history.length nBlockHeight entry = some i
  let chosen := if 10 < bucket.length then (shuffle.shuffle i bucket).take 10 else bucket
  chosen.foldl
    (fun e entry => e.seenTxConfirm (CFeeRate.ofFee entry.nFee entry.nTxSize) minRelayFee
      entry.dPriority i) e

/-- The estimates that are logged for a bucket. -/
def logBucket (e : CMinerPolicyEstimator) (i : Nat) : CMinerPolicyEstimator :=
  if 0 < (e.feeBuckets.getD i []).length + (e.priorityBuckets.getD i []).length then
    ((e.estimateFee sorts (i + 1)).2.estimatePriority sorts (i + 1)).2
  else e

/-- What a block leaves in the buckets; the sorted samples are cleared. -/
def recordBlock (shuffle : Shuffle) (entries : List Confirmed) (nBlockHeight : Int)
    (minRelayFee : CFeeRate) (e : CMinerPolicyEstimator) : CMinerPolicyEstimator :=
  { (List.range e.history.length).foldl (seenBucket shuffle entries nBlockHeight minRelayFee)
      { e with nBestSeenHeight := nBlockHeight } with
    sortedFeeSamples := SortedSamples.empty
    sortedPrioritySamples := SortedSamples.empty }

def seenBlock (shuffle : Shuffle) (entries : List Confirmed) (nBlockHeight : Int)
    (minRelayFee : CFeeRate) (e : CMinerPolicyEstimator) : CMinerPolicyEstimator :=
  -- side chains and reorganizations are ignored
  if nBlockHeight ≤ e.nBestSeenHeight then e
  else
    (List.range e.history.length).foldl (logBucket sorts)
      (e.recordBlock shuffle entries nBlockHeight minRelayFee)

/-- A file of estimates. -/
structure EstimatesFile where
  nBestSeenHeight : Int
  entries : List (List CFeeRate × List (Option Double))

/-- `Read`, with `none` where it throws; the sorted samples stay. -/
def read (minRelayFee : CFeeRate) (file : EstimatesFile) (e : CMinerPolicyEstimator) :
    Option CMinerPolicyEstimator :=
  if file.entries.length ≤ 0 ∨ 10000 < file.entries.length then none
  else
    match file.entries.mapM fun entry => CBlockAverage.read minRelayFee entry.1 entry.2 with
    | none => none
    | some history =>
        if h : history = [] then none
        else some
          { e with
            history := history
            history_ne := h
            nBestSeenHeight := file.nBestSeenHeight }

end CMinerPolicyEstimator

/-! ## A longer wait -/

section Estimate

variable {α β : Type} [LinearOrder α] [Preorder β]
variable {byValue : StdSort fun a b : α => decide (b < a)} {value : α → β} {low : β}
variable {buckets : List (List α)} {cache : SortedSamples α}

theorem sortIfEmpty_sortIfEmpty :
    sortIfEmpty byValue buckets (sortIfEmpty byValue buckets cache) =
      sortIfEmpty byValue buckets cache := by
  by_cases hcache : cache.toList.length = 0
  · have hsort : sortIfEmpty byValue buckets cache =
        SortedSamples.ofSort byValue buckets.flatten := if_pos hcache
    rw [hsort]
    unfold sortIfEmpty
    split
    · rfl
    · rfl
  · have hkeep : sortIfEmpty byValue buckets cache = cache := if_neg hcache
    rw [hkeep, hkeep]

omit [Preorder β] in
/-- What is kept is the samples as they were, or sorted. -/
theorem estimate_snd (n : Int) :
    (estimate byValue value low buckets cache n).2 = cache ∨
      (estimate byValue value low buckets cache n).2 =
        sortIfEmpty byValue buckets cache := by
  unfold estimate
  dsimp only
  split
  · exact Or.inl rfl
  · split
    · exact Or.inr rfl
    · exact Or.inr rfl

omit [Preorder β] in
theorem estimate_sortIfEmpty (n : Int) :
    (estimate byValue value low buckets (sortIfEmpty byValue buckets cache) n).1 =
      (estimate byValue value low buckets cache n).1 := by
  unfold estimate
  dsimp only
  rw [sortIfEmpty_sortIfEmpty]
  split
  · rfl
  · split
    · rfl
    · rfl

omit [Preorder β] in
/-- **Estimating** does not change later estimates. -/
theorem estimate_again (n m : Int) :
    (estimate byValue value low buckets
        (estimate byValue value low buckets cache n).2 m).1 =
      (estimate byValue value low buckets cache m).1 := by
  have hkept : (estimate byValue value low buckets cache n).2 = cache ∨
      (estimate byValue value low buckets cache n).2 = sortIfEmpty byValue buckets cache :=
    estimate_snd n
  rcases hkept with hkeep | hsort
  · rw [hkeep]
  · rw [hsort, estimate_sortIfEmpty]

theorem low_le_estimate (hlow : ∀ a, low ≤ value a) (n : Int) :
    low ≤ (estimate byValue value low buckets cache n).1 := by
  unfold estimate
  dsimp only
  split
  · exact le_refl low
  · split
    · exact le_refl low
    · exact SortedSamples.low_le_sampleAt _ hlow _

/-- The estimates of one kind do not increase from one block on. -/
theorem estimate_antitone (hvalue : Monotone value) (hlow : ∀ a, low ≤ value a) {n m : Int}
    (hn : 1 ≤ n) (hnm : n ≤ m) :
    (estimate byValue value low buckets cache m).1 ≤
      (estimate byValue value low buckets cache n).1 := by
  by_cases hm : m - 1 < 0 ∨ (buckets.length : Int) ≤ m - 1
  · have hout : (estimate byValue value low buckets cache m).1 = low := by
      unfold estimate
      dsimp only
      rw [if_pos hm]
    rw [hout]
    exact low_le_estimate hlow n
  · have hin : ¬ (n - 1 < 0 ∨ (buckets.length : Int) ≤ n - 1) := by omega
    unfold estimate
    dsimp only
    rw [if_neg hm, if_neg hin]
    split
    · exact le_refl low
    · have hrank : rankIndex buckets (n - 1).toNat ≤ rankIndex buckets (m - 1).toNat :=
        rankIndex_mono buckets (by omega)
      exact SortedSamples.sampleAt_antitone _ hvalue low hrank

end Estimate

namespace CMinerPolicyEstimator

variable (e : CMinerPolicyEstimator) (sorts : EstimateSorts)

/-- **A longer wait** never needs a higher fee or a higher priority. -/
theorem estimates_antitone {n m : Int} (hn : 1 ≤ n) (hnm : n ≤ m) :
    (e.estimateFee sorts m).1 ≤ (e.estimateFee sorts n).1 ∧
      (e.estimatePriority sorts m).1 ≤ (e.estimatePriority sorts n).1 := by
  have hlow : (((-1 : ℚ) : WithTop ℚ) : Double) ≤ 0 := by decide
  constructor
  · exact estimate_antitone (Subtype.mono_coe _) (fun fee => fee.2) hn hnm
  · exact estimate_antitone (Subtype.mono_coe _) (fun priority => hlow.trans priority.2) hn
      hnm

section Example

def stableEstimateSorts : EstimateSorts where
  fees := sortDescending
  priorities := sortDescending

theorem feeSample_nonneg (n : Nat) : (⟨0⟩ : CFeeRate) ≤ ⟨n⟩ := Int.natCast_nonneg n

/-- Transactions with one fee rate. -/
def sameFees (nTransactions nSatoshisPerK : Nat) : CBlockAverage where
  feeSamples := CircularBuffer.empty.insertEnd
    (List.replicate nTransactions ⟨⟨nSatoshisPerK⟩, feeSample_nonneg nSatoshisPerK⟩)

/-- A history with eight transactions that waited for one block and four that waited
for two. -/
def twelveFees : CMinerPolicyEstimator where
  history := [sameFees 8 9000, sameFees 4 5000]
  history_ne := List.cons_ne_nil _ _

theorem estimates_antitone_twelve :
    (twelveFees.estimateFee stableEstimateSorts 1).1 = ⟨9000⟩ ∧
      (twelveFees.estimateFee stableEstimateSorts 2).1 = ⟨5000⟩ ∧
      (twelveFees.estimateFee stableEstimateSorts 2).1 ≤
        (twelveFees.estimateFee stableEstimateSorts 1).1 := by
  have hone : (1 : Int) ≤ 1 := by decide
  have htwo : (1 : Int) ≤ 2 := by decide
  exact ⟨by decide +kernel, by decide +kernel,
    (estimates_antitone twelveFees stableEstimateSorts hone htwo).1⟩

/-- For no blocks at all the estimate is zero, less than for one. -/
theorem estimate_zero_lower :
    ¬ ∀ n m : Int, n ≤ m →
      (twelveFees.estimateFee stableEstimateSorts m).1 ≤
        (twelveFees.estimateFee stableEstimateSorts n).1 := by
  intro h
  have hzero : (0 : Int) ≤ 1 := by decide
  exact absurd (h 0 1 hzero) (by decide +kernel)

end Example

end CMinerPolicyEstimator

/-! ## Runs -/

section Kept

variable {α β : Type} [LinearOrder α] {byValue : StdSort fun a b : α => decide (b < a)}
variable {value : α → β} {low : β} {buckets : List (List α)} {cache : SortedSamples α}

/-- Nothing is kept, or the samples of the buckets. -/
def Kept (byValue : StdSort fun a b : α => decide (b < a)) (buckets : List (List α))
    (cache : SortedSamples α) : Prop :=
  cache = SortedSamples.empty ∨ cache = sortIfEmpty byValue buckets SortedSamples.empty

theorem Kept.estimate (h : Kept byValue buckets cache) (n : Int) :
    Kept byValue buckets (Mempool.estimate byValue value low buckets cache n).2 := by
  rcases @estimate_snd α β _ byValue value low buckets cache n with hkeep | hsort
  · rw [hkeep]
    exact h
  · rw [hsort]
    rcases h with rfl | rfl
    · exact Or.inr rfl
    · exact Or.inr sortIfEmpty_sortIfEmpty

theorem Kept.estimate_eq (h : Kept byValue buckets cache) (n : Int) :
    (Mempool.estimate byValue value low buckets cache n).1 =
      (Mempool.estimate byValue value low buckets SortedSamples.empty n).1 := by
  rcases h with rfl | rfl
  · rfl
  · exact estimate_sortIfEmpty n

end Kept

namespace CMinerPolicyEstimator

variable (sorts : EstimateSorts)

inductive Call
  | seenBlock (shuffle : Shuffle) (entries : List Confirmed) (nBlockHeight : Int)
      (minRelayFee : CFeeRate)
  | estimateFee (nBlocksToConfirm : Int)
  | estimatePriority (nBlocksToConfirm : Int)

def step (e : CMinerPolicyEstimator) : Call → CMinerPolicyEstimator
  | .seenBlock shuffle entries nBlockHeight minRelayFee =>
      e.seenBlock sorts shuffle entries nBlockHeight minRelayFee
  | .estimateFee nBlocksToConfirm => (e.estimateFee sorts nBlocksToConfirm).2
  | .estimatePriority nBlocksToConfirm => (e.estimatePriority sorts nBlocksToConfirm).2

/-- The estimator with nothing sorted, as it starts, also with a file. -/
def forget (e : CMinerPolicyEstimator) : CMinerPolicyEstimator :=
  { e with
    sortedFeeSamples := SortedSamples.empty
    sortedPrioritySamples := SortedSamples.empty }

/-- What is kept belongs to the samples. -/
structure Coherent (e : CMinerPolicyEstimator) : Prop where
  fees : Kept sorts.fees e.feeBuckets e.sortedFeeSamples
  priorities : Kept sorts.priorities e.priorityBuckets e.sortedPrioritySamples

theorem coherent_forget (e : CMinerPolicyEstimator) : e.forget.Coherent sorts :=
  ⟨Or.inl rfl, Or.inl rfl⟩

variable {sorts}

theorem Coherent.logBucket {e : CMinerPolicyEstimator} (h : e.Coherent sorts) (i : Nat) :
    (e.logBucket sorts i).Coherent sorts := by
  unfold CMinerPolicyEstimator.logBucket
  split
  · exact ⟨h.fees.estimate _, h.priorities.estimate _⟩
  · exact h

theorem Coherent.step {e : CMinerPolicyEstimator} (h : e.Coherent sorts) (call : Call) :
    (e.step sorts call).Coherent sorts := by
  cases call with
  | estimateFee n => exact ⟨h.fees.estimate n, h.priorities⟩
  | estimatePriority n => exact ⟨h.fees, h.priorities.estimate n⟩
  | seenBlock shuffle entries nBlockHeight minRelayFee =>
      unfold CMinerPolicyEstimator.step seenBlock
      dsimp only
      split
      · exact h
      · -- the block clears what is kept, before the estimates that are logged
        exact List.foldlRecOn _ _ (coherent_forget sorts _) fun _ he i _ => he.logBucket i

/-- **The sorted samples never change an answer.**  After any calls an estimate is the one that
is computed from the samples. -/
theorem run_estimates (e : CMinerPolicyEstimator) (calls : List Call) (n : Int) :
    ((calls.foldl (step sorts) e.forget).estimateFee sorts n).1 =
        ((calls.foldl (step sorts) e.forget).forget.estimateFee sorts n).1 ∧
      ((calls.foldl (step sorts) e.forget).estimatePriority sorts n).1 =
        ((calls.foldl (step sorts) e.forget).forget.estimatePriority sorts n).1 := by
  have hkept : (calls.foldl (step sorts) e.forget).Coherent sorts :=
    List.foldlRecOn _ _ (coherent_forget sorts e) fun _ he call _ => he.step call
  exact ⟨hkept.fees.estimate_eq n, hkept.priorities.estimate_eq n⟩

end CMinerPolicyEstimator

end Agrarian.Mempool
