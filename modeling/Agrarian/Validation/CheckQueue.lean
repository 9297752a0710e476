import Agrarian.Lib.Run
import Agrarian.Lib.Threads

/-!
# The queue of checks

`CCheckQueue` of `checkqueue.h`: workers and a master take batches of checks
from a queue, evaluate them without the lock and report the verdict of a batch
in the critical section of their next turn; the master returns when nothing is
left to do.

A step is one critical section of one thread, or one check of a batch.  A
thread that waits may go on at any time, also when nobody has notified it.
The checks of a round, those that were evaluated in it and those that were
skipped are written down beside the queue.
-/

namespace Agrarian.Validation

open Agrarian.Lib

structure CCheckQueue (T : Type) where
  /-- The queue of elements to be processed; as the order of booleans doesn't
  matter, it is used as a LIFO (stack), with its back at the end. -/
  queue : List T := []
  /-- The number of workers (including the master) that are idle. -/
  nIdle : Nat := 0
  /-- The total number of workers (including the master). -/
  nTotal : Nat := 0
  /-- The temporary evaluation result. -/
  fAllOk : Bool := true
  /-- Number of verifications that haven't completed yet. This includes
  elements that are no longer queued, but still in the worker's own batches. -/
  nTodo : UInt32 := 0
  /-- Whether we're shutting down. -/
  fQuit : Bool := false
  /-- The maximum number of elements to be processed in one batch. -/
  nBatchSize : UInt32

/-- Where a thread is in `Loop`. -/
inductive Phase (T : Type) where
  | outside
  /-- In the critical section, where logically the loop starts. -/
  | looping
  | waiting
  /-- Outside of the critical section, with the part of `vChecks` that is still
  to be executed. -/
  | running (nNow : Nat) (vChecks : List T) (fOk : Bool)

namespace CCheckQueue

variable {T : Type}

def isIdle (q : CCheckQueue T) : Bool :=
  q.nTotal == q.nIdle && q.nTodo == 0 && q.fAllOk

/-- How many work units to process now. -/
def batchSize (q : CCheckQueue T) : Nat :=
  max 1 (min q.nBatchSize.toNat (q.queue.length % 2 ^ 32 / (q.nTotal + q.nIdle + 1)))

def add (q : CCheckQueue T) (vChecks : List T) : CCheckQueue T :=
  { q with
    queue := q.queue ++ vChecks
    nTodo := q.nTodo + UInt32.ofNat vChecks.length }

/-- The clean-up of the previous loop run, and the first iteration. -/
def cleanUp (q : CCheckQueue T) : Phase T → CCheckQueue T
  | .running nNow _ fOk =>
      { q with fAllOk := q.fAllOk && fOk, nTodo := q.nTodo - UInt32.ofNat nNow }
  | .waiting => { q with nIdle := q.nIdle - 1 }
  | _ => { q with nTotal := q.nTotal + 1 }

/-- The rest of the critical section: the queue, where the thread goes on, and
what `Loop` returns if it does. -/
def loop (q : CCheckQueue T) (fMaster : Bool) :
    CCheckQueue T × Phase T × Option Bool :=
  if q.queue.isEmpty then
    if (fMaster || q.fQuit) && q.nTodo == 0 then
      -- reset the status for new work later
      ({ q with nTotal := q.nTotal - 1, fAllOk := fMaster || q.fAllOk }, .outside,
        some q.fAllOk)
    else ({ q with nIdle := q.nIdle + 1 }, .waiting, none)
  else
    let rest := q.queue.length - q.batchSize
    ({ q with queue := q.queue.take rest },
      .running q.batchSize (q.queue.drop rest).reverse q.fAllOk, none)

end CCheckQueue

/-- The checks added since the previous `Wait`, and what became of them. -/
structure Round (T : Type) where
  added : List T := []
  evaluated : List T := []
  skipped : List T := []

/-- A queue with `n` workers and a master (`none`), and the results of the
calls of `Wait`. -/
structure System (T : Type) (n : Nat) where
  q : CCheckQueue T
  threads : Option (Fin n) → Phase T := fun _ => .outside
  round : Round T := {}
  waits : List (Bool × Round T) := []

inductive Action (T : Type) (n : Nat) where
  /-- The master calls `Add`. -/
  | add (vChecks : List T)
  /-- The critical section: a worker starts or the master calls `Wait`, a
  batch is done, or the thread goes on after it has waited. -/
  | lock (t : Option (Fin n))
  /-- The next check of the batch. -/
  | execute (t : Option (Fin n))

namespace System

variable {T : Type} {n : Nat}

/-- The beginning of the critical section. -/
def arrive (s : System T n) (t : Option (Fin n)) : System T n :=
  { s with
    q := s.q.cleanUp (s.threads t)
    threads := Function.update s.threads t .looping }

/-- The rest of the critical section. -/
def proceed (s : System T n) (t : Option (Fin n)) : System T n :=
  let (q, phase, fRet) := s.q.loop t.isNone
  let s' := { s with q, threads := Function.update s.threads t phase }
  match t, fRet with
  | none, some fRet => { s' with round := {}, waits := s.waits ++ [(fRet, s.round)] }
  | _, _ => s'

def step (eval : T → Bool) (s : System T n) : Action T n → Option (System T n)
  | .add vChecks =>
      match s.threads none with
      | .outside => some { s with
          q := s.q.add vChecks
          round := { s.round with added := s.round.added ++ vChecks } }
      | _ => none
  | .lock t =>
      match s.threads t with
      | .running _ (_ :: _) _ | .looping => none
      | _ => some ((s.arrive t).proceed t)
  | .execute t =>
      match s.threads t with
      | .running nNow (check :: vChecks) true => some { s with
          threads := Function.update s.threads t (.running nNow vChecks (eval check))
          round := { s.round with evaluated := s.round.evaluated ++ [check] } }
      | .running nNow (check :: vChecks) false => some { s with
          threads := Function.update s.threads t (.running nNow vChecks false)
          round := { s.round with skipped := s.round.skipped ++ [check] } }
      | _ => none

def run (eval : T → Bool) (nBatchSize : UInt32) (actions : List (Action T n)) :
    Option (System T n) :=
  actions.foldl (fun s action => s.bind fun s => s.step eval action)
    (some { q := { nBatchSize } })

end System

/-! ## What threads hold -/

namespace Phase

variable {T : Type}

/-- The checks a thread has taken and not yet reported. -/
def held : Phase T → Nat
  | .running nNow _ _ => nNow
  | _ => 0

/-- The checks a thread is still to execute. -/
def pending : Phase T → Multiset T
  | .running _ vChecks _ => vChecks
  | _ => 0

/-- A failure that a thread is still to report. -/
def failures : Phase T → Nat
  | .running _ _ fOk => (!fOk).toNat
  | _ => 0

def inside : Phase T → Nat
  | .outside => 0
  | _ => 1

def idle : Phase T → Nat
  | .waiting => 1
  | _ => 0

end Phase

namespace CCheckQueue

theorem batchSize_pos {T : Type} (q : CCheckQueue T) : 0 < q.batchSize :=
  Nat.lt_of_lt_of_le Nat.zero_lt_one (Nat.le_max_left _ _)

theorem batchSize_le {T : Type} {q : CCheckQueue T} (h : q.queue ≠ []) :
    q.batchSize ≤ q.queue.length := by
  have hpos := List.length_pos_of_ne_nil h
  have hdiv := Nat.div_le_self (q.queue.length % 2 ^ 32) (q.nTotal + q.nIdle + 1)
  have hmod := Nat.mod_le q.queue.length (2 ^ 32)
  unfold batchSize
  omega

end CCheckQueue

/-- A check of the round was evaluated and failed. -/
def Round.Failed {T : Type} (eval : T → Bool) (round : Round T) : Prop :=
  ∃ check ∈ round.evaluated, eval check = false

/-! ## The invariant, as one thread sees it -/

/-- What all threads but one contribute. -/
structure Rest (T : Type) where
  held : Nat
  pending : Multiset T
  failures : Nat
  inside : Nat
  idle : Nat

/-- The invariant for a thread in a phase. -/
structure InvAt {T : Type} (eval : T → Bool) (q : CCheckQueue T) (phase : Phase T)
    (round : Round T) (rest : Rest T) : Prop where
  nTodo : q.nTodo = UInt32.ofNat (q.queue.length + (phase.held + rest.held))
  nTotal : q.nTotal = phase.inside + rest.inside
  nIdle : q.nIdle = phase.idle + rest.idle
  batch : ∀ nNow vChecks fOk, phase = .running nNow vChecks fOk → 0 < nNow
  checks : (round.added : Multiset T) = q.queue + (phase.pending + rest.pending) +
    round.evaluated + round.skipped
  failed_iff : round.Failed eval ↔
    0 < (!q.fAllOk).toNat + (phase.failures + rest.failures)
  skipped : round.skipped ≠ [] → round.Failed eval
  /-- Where no thread holds a batch, none has anything to execute or report. -/
  quiet : rest.held = 0 → rest.pending = 0 ∧ rest.failures = 0

/-- A `Wait` returns whether all checks of the round are true; each was
evaluated or skipped, and skipped only when another one had failed. -/
structure WaitSound {T : Type} (eval : T → Bool) (wait : Bool × Round T) : Prop where
  fRet_iff : wait.1 = true ↔ ∀ check ∈ wait.2.added, eval check = true
  done : (wait.2.evaluated ++ wait.2.skipped).Perm wait.2.added
  skipped : wait.2.skipped ≠ [] → wait.2.Failed eval

section Thread

variable {T : Type} {eval : T → Bool} {q : CCheckQueue T} {phase : Phase T}
  {round : Round T} {rest : Rest T}

theorem invAt_add (h : InvAt eval q phase round rest) (vChecks : List T) :
    InvAt eval (q.add vChecks) phase
      { round with added := round.added ++ vChecks } rest where
  nTodo := by
    show q.nTodo + _ = _
    rw [h.nTodo, ← UInt32.ofNat_add]
    congr 1
    show _ = (q.queue ++ vChecks).length + _
    rw [List.length_append]
    omega
  nTotal := h.nTotal
  nIdle := h.nIdle
  batch := h.batch
  checks := by
    show ((round.added ++ vChecks : List T) : Multiset T) =
      ((q.queue ++ vChecks : List T) : Multiset T) + _ + _ + _
    rw [← Multiset.coe_add, ← Multiset.coe_add, h.checks]
    abel
  failed_iff := h.failed_iff
  skipped := h.skipped
  quiet := h.quiet

theorem invAt_cleanUp (h : InvAt eval q phase round rest)
    (hloop : phase ≠ .looping)
    (hdone : ∀ nNow vChecks fOk, phase = .running nNow vChecks fOk → vChecks = []) :
    InvAt eval (q.cleanUp phase) .looping round rest := by
  cases phase with
  | looping => exact absurd rfl hloop
  | outside =>
      exact { h with
        nTotal := by
          have hold := h.nTotal
          simp only [Phase.inside] at hold
          simp only [CCheckQueue.cleanUp, Phase.inside]
          omega
        batch := by
          intro nNow vChecks fOk hphase
          cases hphase }
  | waiting =>
      exact { h with
        nIdle := by
          have hold := h.nIdle
          simp only [Phase.idle] at hold
          simp only [CCheckQueue.cleanUp, Phase.idle]
          omega
        batch := by
          intro nNow vChecks fOk hphase
          cases hphase }
  | running nNow vChecks fOk =>
      obtain rfl := hdone nNow vChecks fOk rfl
      exact {
        nTodo := by
          show q.nTodo - _ = UInt32.ofNat (q.queue.length + (0 + rest.held))
          rw [h.nTodo]
          have hsum : q.queue.length + (nNow + rest.held) =
              q.queue.length + (0 + rest.held) + nNow := by omega
          show UInt32.ofNat (q.queue.length + (nNow + rest.held)) - _ = _
          rw [hsum, UInt32.ofNat_add, UInt32.add_sub_cancel]
        nTotal := h.nTotal
        nIdle := h.nIdle
        batch := by
          intro nNow vChecks fOk hphase
          cases hphase
        checks := h.checks
        failed_iff := by
          rw [h.failed_iff]
          simp only [CCheckQueue.cleanUp, Phase.failures]
          cases q.fAllOk <;> cases fOk <;> simp
        skipped := h.skipped
        quiet := h.quiet }

/-- The next check of a batch is evaluated. -/
theorem invAt_evaluate {nNow : Nat} {check : T} {vChecks : List T}
    (h : InvAt eval q (.running nNow (check :: vChecks) true) round rest) :
    InvAt eval q (.running nNow vChecks (eval check))
      { round with evaluated := round.evaluated ++ [check] } rest := by
  have hfailed : Round.Failed eval { round with
      evaluated := round.evaluated ++ [check] } ↔
        round.Failed eval ∨ eval check = false := by
    simp [Round.Failed, or_and_right, exists_or]
  exact {
    nTodo := h.nTodo
    nTotal := h.nTotal
    nIdle := h.nIdle
    batch := by
      intro nNow' vChecks' fOk hphase
      obtain ⟨rfl, -, -⟩ := Phase.running.inj hphase
      exact h.batch nNow _ true rfl
    checks := by
      have hold := h.checks
      simp only [Phase.pending, ← Multiset.cons_coe] at hold
      show (round.added : Multiset T) = _ + ((vChecks : Multiset T) + _) +
        ((round.evaluated ++ [check] : List T) : Multiset T) + _
      rw [hold, ← Multiset.coe_add, ← Multiset.singleton_add]
      simp only [Multiset.coe_singleton]
      abel
    failed_iff := by
      rw [hfailed, h.failed_iff]
      simp only [Phase.failures]
      cases eval check <;> simp
    skipped := fun hskipped => hfailed.mpr (Or.inl (h.skipped hskipped))
    quiet := h.quiet }

/-- The next check of a batch is skipped. -/
theorem invAt_skip {nNow : Nat} {check : T} {vChecks : List T}
    (h : InvAt eval q (.running nNow (check :: vChecks) false) round rest) :
    InvAt eval q (.running nNow vChecks false)
      { round with skipped := round.skipped ++ [check] } rest where
  nTodo := h.nTodo
  nTotal := h.nTotal
  nIdle := h.nIdle
  batch := by
    intro nNow' vChecks' fOk hphase
    obtain ⟨rfl, -, -⟩ := Phase.running.inj hphase
    exact h.batch nNow _ false rfl
  checks := by
    have hold := h.checks
    simp only [Phase.pending, ← Multiset.cons_coe] at hold
    show (round.added : Multiset T) = _ + ((vChecks : Multiset T) + _) + _ +
      ((round.skipped ++ [check] : List T) : Multiset T)
    rw [hold, ← Multiset.coe_add, ← Multiset.singleton_add]
    simp only [Multiset.coe_singleton]
    abel
  failed_iff := h.failed_iff
  skipped := by
    intro _
    apply h.failed_iff.mpr
    simp [Phase.failures]
  quiet := h.quiet

theorem loop_cases (q : CCheckQueue T) (fMaster : Bool) :
    (q.queue = [] ∧ q.nTodo = 0 ∧ q.loop fMaster =
      ({ q with nTotal := q.nTotal - 1, fAllOk := fMaster || q.fAllOk }, .outside,
        some q.fAllOk)) ∨
    (q.loop fMaster = ({ q with nIdle := q.nIdle + 1 }, .waiting, none)) ∨
    (q.queue ≠ [] ∧ q.loop fMaster =
      ({ q with queue := q.queue.take (q.queue.length - q.batchSize) },
        .running q.batchSize
          (q.queue.drop (q.queue.length - q.batchSize)).reverse q.fAllOk, none)) := by
  unfold CCheckQueue.loop
  split
  · rename_i hempty
    split
    · rename_i hdone
      rw [Bool.and_eq_true, beq_iff_eq] at hdone
      exact Or.inl ⟨List.isEmpty_iff.mp hempty, hdone.2, rfl⟩
    · exact Or.inr (Or.inl rfl)
  · rename_i hempty
    exact Or.inr (Or.inr ⟨fun hnil => hempty (by rw [hnil]; rfl), rfl⟩)

theorem invAt_wait (h : InvAt eval q .looping round rest) :
    InvAt eval { q with nIdle := q.nIdle + 1 } .waiting round rest :=
  { h with
    nIdle := by
      have hold := h.nIdle
      simp only [Phase.idle] at hold ⊢
      omega
    batch := by
      intro nNow vChecks fOk hphase
      cases hphase }

theorem invAt_batch (h : InvAt eval q .looping round rest) (hqueue : q.queue ≠ []) :
    InvAt eval { q with queue := q.queue.take (q.queue.length - q.batchSize) }
      (.running q.batchSize (q.queue.drop (q.queue.length - q.batchSize)).reverse
        q.fAllOk) round rest where
  nTodo := by
    have hle := CCheckQueue.batchSize_le hqueue
    rw [h.nTodo]
    congr 1
    simp only [Phase.held, List.length_take]
    omega
  nTotal := h.nTotal
  nIdle := h.nIdle
  batch := by
    intro nNow vChecks fOk hphase
    obtain ⟨rfl, -, -⟩ := Phase.running.inj hphase
    exact q.batchSize_pos
  checks := by
    have hsplit : (q.queue : Multiset T) =
        (q.queue.take (q.queue.length - q.batchSize) : List T) +
          (q.queue.drop (q.queue.length - q.batchSize) : List T) := by
      rw [Multiset.coe_add, List.take_append_drop]
    rw [h.checks, hsplit]
    simp only [Phase.pending, Multiset.coe_reverse]
    abel
  failed_iff := by
    rw [h.failed_iff]
    simp only [Phase.failures]
    omega
  skipped := h.skipped
  quiet := h.quiet

/-- A thread returns; the master resets the status. -/
theorem invAt_return (h : InvAt eval q .looping round rest) :
    InvAt eval { q with nTotal := q.nTotal - 1 } .outside round rest :=
  { h with
    nTotal := by
      have hold := h.nTotal
      simp only [Phase.inside] at hold ⊢
      omega
    batch := by
      intro nNow vChecks fOk hphase
      cases hphase }

/-- When nothing is left to do, no thread holds anything. -/
theorem held_eq_zero (h : InvAt eval q .looping round rest) (hqueue : q.queue = [])
    (hTodo : q.nTodo = 0) (hfit : q.queue.length + rest.held < 2 ^ 32) :
    rest.held = 0 := by
  have hzero := h.nTodo
  rw [hTodo, hqueue] at hzero
  have hmod : (0 : UInt32).toNat = _ := congrArg UInt32.toNat hzero
  simp only [Phase.held, List.length_nil, Nat.zero_add, UInt32.toNat_ofNat'] at hmod
  rw [Nat.mod_eq_of_lt (by omega)] at hmod
  exact hmod.symm

/-- **What `Wait` returns**, and what it leaves for the next round. -/
theorem wait_sound (h : InvAt eval q .looping round rest) (hqueue : q.queue = [])
    (hTodo : q.nTodo = 0) (hfit : q.queue.length + rest.held < 2 ^ 32) :
    WaitSound eval (q.fAllOk, round) ∧
      InvAt eval { q with nTotal := q.nTotal - 1, fAllOk := true } .outside {} rest := by
  have hheld := held_eq_zero h hqueue hTodo hfit
  obtain ⟨hpending, hfailures⟩ := h.quiet hheld
  have hdone : (round.added : Multiset T) = round.evaluated + round.skipped := by
    have hold := h.checks
    rw [hqueue, hpending] at hold
    simpa [Phase.pending] using hold
  have hfailed : round.Failed eval ↔ q.fAllOk = false := by
    have hold := h.failed_iff
    rw [hfailures] at hold
    rw [hold]
    cases q.fAllOk <;> simp [Phase.failures]
  constructor
  · constructor
    · constructor
      · intro hok check hmem
        rw [show q.fAllOk = true from hok] at hfailed
        by_contra hfalse
        rw [Bool.not_eq_true] at hfalse
        have hskipped : round.skipped = [] := by
          by_contra hne
          exact Bool.noConfusion (hfailed.mp (h.skipped hne))
        have hevaluated : check ∈ (round.added : Multiset T) := hmem
        rw [hdone, hskipped] at hevaluated
        exact Bool.noConfusion (hfailed.mp ⟨check, by simpa using hevaluated, hfalse⟩)
      · intro hall
        show q.fAllOk = true
        by_contra hfalse
        rw [Bool.not_eq_true, ← hfailed] at hfalse
        obtain ⟨check, hmem, hfalse⟩ := hfalse
        have hadded : check ∈ (round.added : Multiset T) := by
          rw [hdone]
          exact Multiset.mem_add.mpr (Or.inl hmem)
        rw [hall check hadded] at hfalse
        cases hfalse
    · rw [← Multiset.coe_eq_coe, ← Multiset.coe_add, hdone]
    · exact h.skipped
  · exact {
      nTodo := (invAt_return h).nTodo
      nTotal := (invAt_return h).nTotal
      nIdle := h.nIdle
      batch := (invAt_return h).batch
      checks := by
        simp [hqueue, hpending, Phase.pending]
      failed_iff := by
        simp [Round.Failed, hfailures, Phase.failures]
      skipped := fun hne => absurd rfl hne
      quiet := h.quiet }

end Thread

/-! ## The system -/

namespace System

variable {T : Type} {n : Nat} {eval : T → Bool} {s s' : System T n}

/-- The checks that are queued or held by threads. -/
def outstanding (s : System T n) : Nat :=
  s.q.queue.length + threadTotal Phase.held s.threads

/-- The invariant of the queue, the threads and the checks of the round. -/
structure Inv (eval : T → Bool) (s : System T n) : Prop where
  nTodo : s.q.nTodo = UInt32.ofNat s.outstanding
  nTotal : s.q.nTotal = threadTotal Phase.inside s.threads
  nIdle : s.q.nIdle = threadTotal Phase.idle s.threads
  batches : ∀ t nNow vChecks fOk, s.threads t = .running nNow vChecks fOk → 0 < nNow
  checks : (s.round.added : Multiset T) = s.q.queue +
    threadTotal Phase.pending s.threads + s.round.evaluated + s.round.skipped
  failed_iff : s.round.Failed eval ↔
    0 < (!s.q.fAllOk).toNat + threadTotal Phase.failures s.threads
  skipped : s.round.skipped ≠ [] → s.round.Failed eval

/-- What the other threads contribute. -/
def rest (s : System T n) (t : Option (Fin n)) : Rest T where
  held := threadRest Phase.held s.threads t
  pending := threadRest Phase.pending s.threads t
  failures := threadRest Phase.failures s.threads t
  inside := threadRest Phase.inside s.threads t
  idle := threadRest Phase.idle s.threads t

theorem Inv.invAt (h : s.Inv eval) (t : Option (Fin n)) :
    InvAt eval s.q (s.threads t) s.round (s.rest t) where
  nTodo := by
    rw [h.nTodo, outstanding, threadTotal_eq _ _ t]
    rfl
  nTotal := by
    rw [h.nTotal, threadTotal_eq _ _ t]
    rfl
  nIdle := by
    rw [h.nIdle, threadTotal_eq _ _ t]
    rfl
  batch := h.batches t
  checks := by
    rw [h.checks, threadTotal_eq _ _ t]
    rfl
  failed_iff := by
    rw [h.failed_iff, threadTotal_eq _ _ t]
    rfl
  skipped := h.skipped
  quiet := by
    intro hheld
    change threadRest Phase.held s.threads t = 0 at hheld
    have hnone : ∀ u, u ≠ t → (s.threads u).pending = 0 ∧ (s.threads u).failures = 0 := by
      intro u hu
      have hzero := eq_zero_of_threadRest hheld hu
      cases hphase : s.threads u with
      | running nNow vChecks fOk =>
          rw [hphase] at hzero
          have hpos := h.batches u nNow vChecks fOk hphase
          simp only [Phase.held] at hzero
          omega
      | outside => exact ⟨rfl, rfl⟩
      | looping => exact ⟨rfl, rfl⟩
      | waiting => exact ⟨rfl, rfl⟩
    exact ⟨threadRest_eq_zero fun u hu => (hnone u hu).1,
      threadRest_eq_zero fun u hu => (hnone u hu).2⟩

/-- One thread moves, and the invariant holds for it. -/
theorem Inv.move (h : s.Inv eval) {t : Option (Fin n)} {phase : Phase T}
    (hthreads : s'.threads = Function.update s.threads t phase)
    (hmove : InvAt eval s'.q phase s'.round (s.rest t)) : s'.Inv eval where
  nTodo := by
    rw [hmove.nTodo, outstanding, hthreads, threadTotal_update]
    rfl
  nTotal := by
    rw [hmove.nTotal, hthreads, threadTotal_update]
    rfl
  nIdle := by
    rw [hmove.nIdle, hthreads, threadTotal_update]
    rfl
  batches := by
    intro u nNow vChecks fOk hu
    rw [hthreads] at hu
    by_cases hut : u = t
    · rw [hut, Function.update_self] at hu
      exact hmove.batch nNow vChecks fOk hu
    · rw [Function.update_of_ne hut] at hu
      exact h.batches u nNow vChecks fOk hu
  checks := by
    rw [hmove.checks, hthreads, threadTotal_update]
    rfl
  failed_iff := by
    rw [hmove.failed_iff, hthreads, threadTotal_update]
    rfl
  skipped := hmove.skipped

theorem inv_start (nBatchSize : UInt32) :
    Inv eval ({ q := { nBatchSize } } : System T n) where
  nTodo := by
    have hheld : threadTotal Phase.held
        (fun _ : Option (Fin n) => (Phase.outside : Phase T)) = 0 :=
      threadTotal_const _ rfl
    show (0 : UInt32) = UInt32.ofNat (0 + threadTotal Phase.held _)
    rw [hheld]
    rfl
  nTotal := (threadTotal_const _ rfl).symm
  nIdle := (threadTotal_const _ rfl).symm
  batches := by
    intro t nNow vChecks fOk h
    cases h
  checks := by
    have hpending : threadTotal Phase.pending
        (fun _ : Option (Fin n) => (Phase.outside : Phase T)) = 0 :=
      threadTotal_const _ rfl
    show (0 : Multiset T) = 0 + threadTotal Phase.pending _ + 0 + 0
    rw [hpending]
    rfl
  failed_iff := by
    have hfailures : threadTotal Phase.failures
        (fun _ : Option (Fin n) => (Phase.outside : Phase T)) = 0 :=
      threadTotal_const _ rfl
    show Round.Failed eval {} ↔ 0 < 0 + threadTotal Phase.failures _
    rw [hfailures]
    simp [Round.Failed]
  skipped := fun h => absurd rfl h

theorem threads_arrive (s : System T n) (t : Option (Fin n)) :
    (s.arrive t).threads t = .looping := by
  unfold arrive
  exact Function.update_self _ _ _

theorem rest_arrive (t : Option (Fin n)) : (s.arrive t).rest t = s.rest t := by
  simp only [rest, arrive, threadRest_update]

/-- What a state must satisfy: the invariant, and what the calls of `Wait`
have returned. -/
structure Sound (eval : T → Bool) (s : System T n) : Prop where
  inv : s.Inv eval
  waits : ∀ wait ∈ s.waits, WaitSound eval wait

theorem sound_proceed (h : s.Sound eval) {t : Option (Fin n)}
    (hphase : s.threads t = .looping) (hfit : s.outstanding < 2 ^ 32) :
    (s.proceed t).Sound eval := by
  have hat := h.inv.invAt t
  rw [hphase] at hat
  have hrest : s.q.queue.length + (s.rest t).held < 2 ^ 32 := by
    rw [outstanding, threadTotal_eq _ _ t] at hfit
    show s.q.queue.length + threadRest Phase.held s.threads t < 2 ^ 32
    omega
  rcases loop_cases s.q t.isNone with ⟨hqueue, hTodo, hloop⟩ | hloop | ⟨hqueue, hloop⟩
  · cases t with
    | none =>
        rw [Option.isNone_none] at hloop
        obtain ⟨hwait, hnext⟩ := wait_sound hat hqueue hTodo hrest
        have heq : s.proceed none = { s with
            q := { s.q with nTotal := s.q.nTotal - 1, fAllOk := true }
            threads := Function.update s.threads none .outside
            round := {}
            waits := s.waits ++ [(s.q.fAllOk, s.round)] } := by
          simp only [proceed, hloop, Option.isNone_none, Bool.true_or]
        rw [heq]
        refine ⟨h.inv.move rfl hnext, ?_⟩
        intro wait hmem
        rcases List.mem_append.mp hmem with hmem | hmem
        · exact h.waits wait hmem
        · obtain rfl := List.mem_singleton.mp hmem
          exact hwait
    | some u =>
        rw [Option.isNone_some] at hloop
        have heq : s.proceed (some u) = { s with
            q := { s.q with nTotal := s.q.nTotal - 1 }
            threads := Function.update s.threads (some u) .outside } := by
          simp only [proceed, hloop, Option.isNone_some, Bool.false_or]
        rw [heq]
        exact ⟨h.inv.move rfl (invAt_return hat), h.waits⟩
  · have heq : s.proceed t = { s with
        q := { s.q with nIdle := s.q.nIdle + 1 }
        threads := Function.update s.threads t .waiting } := by
      simp only [proceed, hloop]
    rw [heq]
    exact ⟨h.inv.move rfl (invAt_wait hat), h.waits⟩
  · have heq : s.proceed t = { s with
        q := { s.q with queue := s.q.queue.take (s.q.queue.length - s.q.batchSize) }
        threads := Function.update s.threads t (.running s.q.batchSize
          (s.q.queue.drop (s.q.queue.length - s.q.batchSize)).reverse s.q.fAllOk) } := by
      simp only [proceed, hloop]
    rw [heq]
    exact ⟨h.inv.move rfl (invAt_batch hat hqueue), h.waits⟩

theorem sound_arrive (h : s.Sound eval) {t : Option (Fin n)}
    (hloop : s.threads t ≠ .looping)
    (hdone : ∀ nNow vChecks fOk, s.threads t = .running nNow vChecks fOk →
      vChecks = []) : (s.arrive t).Sound eval :=
  ⟨h.inv.move rfl (invAt_cleanUp (h.inv.invAt t) hloop hdone), h.waits⟩

theorem outstanding_arrive_le (t : Option (Fin n)) :
    (s.arrive t).outstanding ≤ s.outstanding := by
  have hqueue : (s.arrive t).q.queue = s.q.queue := by
    unfold arrive
    cases s.threads t <;> rfl
  unfold outstanding
  rw [hqueue, threadTotal_eq _ s.threads t]
  show _ + threadTotal Phase.held (Function.update s.threads t .looping) ≤ _
  rw [threadTotal_update]
  simp only [Phase.held]
  omega

/-- **One step**: a call of `Add`, a critical section or a check. -/
theorem sound_step (h : s.Sound eval) (hfit : s.outstanding < 2 ^ 32)
    {action : Action T n} (hstep : s.step eval action = some s') : s'.Sound eval := by
  cases action with
  | add vChecks =>
      simp only [step] at hstep
      split at hstep
      · obtain rfl := Option.some.inj hstep
        refine ⟨h.inv.move (t := none) ?_ (invAt_add (h.inv.invAt none) vChecks), h.waits⟩
        exact (Function.update_eq_self none s.threads).symm
      · cases hstep
  | lock t =>
      have harrive : s.threads t ≠ .looping → (∀ nNow vChecks fOk,
          s.threads t = .running nNow vChecks fOk → vChecks = []) →
            ((s.arrive t).proceed t).Sound eval := by
        intro hloop hdone
        apply sound_proceed (sound_arrive h hloop hdone)
        · exact threads_arrive s t
        · have hle := outstanding_arrive_le (s := s) t
          omega
      simp only [step] at hstep
      cases hphase : s.threads t with
      | looping =>
          rw [hphase] at hstep
          cases hstep
      | outside =>
          rw [hphase] at hstep harrive
          obtain rfl := Option.some.inj hstep
          exact harrive (fun h => by cases h) (fun _ _ _ h => by cases h)
      | waiting =>
          rw [hphase] at hstep harrive
          obtain rfl := Option.some.inj hstep
          exact harrive (fun h => by cases h) (fun _ _ _ h => by cases h)
      | running nNow vChecks fOk =>
          rw [hphase] at hstep harrive
          cases vChecks with
          | cons check vChecks => cases hstep
          | nil =>
              obtain rfl := Option.some.inj hstep
              apply harrive (fun h => by cases h)
              intro nNow' vChecks' fOk' heq
              exact (Phase.running.inj heq).2.1.symm
  | execute t =>
      have hat := h.inv.invAt t
      simp only [step] at hstep
      cases hphase : s.threads t with
      | looping =>
          rw [hphase] at hstep
          cases hstep
      | outside =>
          rw [hphase] at hstep
          cases hstep
      | waiting =>
          rw [hphase] at hstep
          cases hstep
      | running nNow vChecks fOk =>
          rw [hphase] at hstep hat
          cases vChecks with
          | nil => cases fOk <;> cases hstep
          | cons check vChecks =>
              cases fOk with
              | false =>
                  obtain rfl := Option.some.inj hstep
                  exact ⟨h.inv.move rfl (invAt_skip hat), h.waits⟩
              | true =>
                  obtain rfl := Option.some.inj hstep
                  exact ⟨h.inv.move rfl (invAt_evaluate hat), h.waits⟩

/-- **Every interleaving**: `nTodo` counts the checks that are queued or held,
no check is done more often than it was added, and the calls of `Wait` return
what they should. -/
structure Right (eval : T → Bool) (s : System T n) : Prop where
  nTodo : s.q.nTodo.toNat = s.q.queue.length + threadTotal Phase.held s.threads
  once : (s.round.evaluated ++ s.round.skipped).Subperm s.round.added
  waits : ∀ wait ∈ s.waits, WaitSound eval wait

theorem Sound.right (h : s.Sound eval) (hfit : s.outstanding < 2 ^ 32) :
    s.Right eval where
  nTodo := by
    rw [h.inv.nTodo, UInt32.toNat_ofNat', Nat.mod_eq_of_lt hfit]
    rfl
  once := by
    rw [← Multiset.coe_le, ← Multiset.coe_add, h.inv.checks]
    rw [add_assoc]
    exact Multiset.le_add_left _ _
  waits := h.waits

theorem run_append_singleton (nBatchSize : UInt32) (actions : List (Action T n))
    (action : Action T n) : run eval nBatchSize (actions ++ [action]) =
      (run eval nBatchSize actions).bind fun s => s.step eval action := by
  simp [run]

/-- **What the calls of `Wait` return**, for every interleaving in which fewer
than 2^32 checks are outstanding at a time. -/
theorem run_right (eval : T → Bool) (nBatchSize : UInt32)
    (actions : List (Action T n))
    (hfit : ∀ before after s, actions = before ++ after →
      run eval nBatchSize before = some s → s.outstanding < 2 ^ 32) :
    ∀ s, run eval nBatchSize actions = some s → s.Right eval := by
  have hsound : ∀ s, run eval nBatchSize actions = some s → s.Sound eval := by
    induction actions using List.reverseRecOn with
    | nil =>
        intro s hrun
        obtain rfl := Option.some.inj hrun
        exact ⟨inv_start nBatchSize, fun wait hmem => by cases hmem⟩
    | append_singleton actions action ih =>
        intro s' hrun
        rw [run_append_singleton] at hrun
        obtain ⟨s, hs, hstep⟩ := Option.bind_eq_some_iff.mp hrun
        have hsound := ih (fun before after s heq => hfit before (after ++ [action]) s
          (by rw [heq, List.append_assoc])) s hs
        exact sound_step hsound (hfit actions [action] s rfl hs) hstep
  intro s hrun
  exact (hsound s hrun).right (hfit actions [] s (by simp) hrun)

/-- A master alone with two checks, the second of which is taken first and
fails. -/
def failingRound : List (Action Bool 0) :=
  [.add [true, false], .lock none, .execute none, .lock none, .execute none, .lock none]

theorem run_right_failing : ∃ s, run id 128 failingRound = some s ∧
    s.waits.map Prod.fst = [false] ∧ s.Right id := by
  refine ⟨_, rfl, by decide +kernel, ?_⟩
  apply run_right id 128 failingRound _ _ rfl
  intro before after s heq hrun
  have hall : ∀ before ∈ failingRound.inits, (run id 128 before).all
      (fun s => decide (s.outstanding < 2 ^ 32)) = true := by decide +kernel
  have hbound := hall before ((List.mem_inits _ _).mpr ⟨after, heq.symm⟩)
  rw [hrun] at hbound
  exact of_decide_eq_true hbound

theorem nTodo_of_length {vChecks : List Bool} (hlength : vChecks.length = 2 ^ 32) :
    ∃ s, run id 128 ([.add vChecks] : List (Action Bool 0)) = some s ∧
      s.q.nTodo = 0 ∧ s.q.queue.length = 2 ^ 32 ∧ ¬ s.Right id := by
  have hTodo : (CCheckQueue.add { nBatchSize := 128 } vChecks).nTodo = 0 := by
    simp only [CCheckQueue.add, hlength]
    decide
  have hqueue : (CCheckQueue.add { nBatchSize := 128 } vChecks).queue.length = 2 ^ 32 := by
    simp only [CCheckQueue.add, List.nil_append, hlength]
  refine ⟨{ q := CCheckQueue.add { nBatchSize := 128 } vChecks
            round := { added := [] ++ vChecks } }, rfl, hTodo, hqueue, ?_⟩
  intro h
  have hcount := h.nTodo
  rw [hTodo, hqueue] at hcount
  have hzero : (0 : UInt32).toNat = 0 := rfl
  omega

/-- With 2^32 checks in the queue `nTodo` is back at 0. -/
theorem nTodo_wraps : ∃ s, run id 128
      ([.add (List.replicate (2 ^ 32) true)] : List (Action Bool 0)) = some s ∧
    s.q.nTodo = 0 ∧ s.q.queue.length = 2 ^ 32 ∧ ¬ s.Right id :=
  nTodo_of_length List.length_replicate

/-! ## Between two rounds -/

theorem threads_proceed (s : System T n) (t : Option (Fin n)) :
    (s.proceed t).threads =
      Function.update s.threads t (s.q.loop t.isNone).2.1 := by
  unfold proceed
  rcases s.q.loop t.isNone with ⟨q, phase, fRet⟩
  cases t <;> cases fRet <;> rfl

theorem q_proceed (s : System T n) (t : Option (Fin n)) :
    (s.proceed t).q = (s.q.loop t.isNone).1 := by
  unfold proceed
  rcases s.q.loop t.isNone with ⟨q, phase, fRet⟩
  cases t <;> cases fRet <;> rfl

/-- No thread stays in the critical section. -/
def Released (s : System T n) : Prop := ∀ t, s.threads t ≠ .looping

theorem released_update (h : s.Released) {t : Option (Fin n)} {phase : Phase T}
    (hphase : phase ≠ .looping)
    (hthreads : s'.threads = Function.update s.threads t phase) : s'.Released := by
  intro u
  rw [hthreads]
  by_cases hut : u = t
  · rw [hut, Function.update_self]
    exact hphase
  · rw [Function.update_of_ne hut]
    exact h u

theorem threads_lock (s : System T n) (t : Option (Fin n)) :
    ((s.arrive t).proceed t).threads =
      Function.update s.threads t ((s.arrive t).q.loop t.isNone).2.1 := by
  rw [threads_proceed]
  exact Function.update_idem _ _ _

theorem loop_ne_looping (q : CCheckQueue T) (fMaster : Bool) :
    (q.loop fMaster).2.1 ≠ .looping := by
  rcases loop_cases q fMaster with ⟨-, -, hloop⟩ | hloop | ⟨-, hloop⟩
  · rw [hloop]
    exact fun h => by cases h
  · rw [hloop]
    exact fun h => by cases h
  · rw [hloop]
    exact fun h => by cases h

theorem released_step (h : s.Released) {action : Action T n}
    (hstep : s.step eval action = some s') : s'.Released := by
  cases action with
  | add vChecks =>
      simp only [step] at hstep
      split at hstep
      · obtain rfl := Option.some.inj hstep
        exact h
      · cases hstep
  | lock t =>
      have hlock : ((s.arrive t).proceed t).Released :=
        released_update h (loop_ne_looping _ _) (threads_lock s t)
      simp only [step] at hstep
      split at hstep
      · cases hstep
      · cases hstep
      · obtain rfl := Option.some.inj hstep
        exact hlock
  | execute t =>
      simp only [step] at hstep
      split at hstep
      · obtain rfl := Option.some.inj hstep
        exact released_update h (fun h => by cases h) rfl
      · obtain rfl := Option.some.inj hstep
        exact released_update h (fun h => by cases h) rfl
      · cases hstep

/-- When a `Wait` returns, all other threads wait or have not started: the
assertion of the next `CCheckQueueControl` holds. -/
theorem wait_isIdle (h : s.Sound eval) (hreleased : s.Released)
    (hfit : s.outstanding < 2 ^ 32) (hstep : s.step eval (.lock none) = some s')
    (hreturn : s'.threads none = .outside) : s'.q.isIdle = true := by
  obtain ⟨hdone, rfl⟩ : (∀ nNow vChecks fOk, s.threads none = .running nNow vChecks fOk →
      vChecks = []) ∧ s' = (s.arrive none).proceed none := by
    simp only [step] at hstep
    split at hstep
    · cases hstep
    · cases hstep
    · rename_i hrunning hloop
      refine ⟨?_, (Option.some.inj hstep).symm⟩
      intro nNow vChecks fOk hphase
      cases vChecks with
      | nil => rfl
      | cons check vChecks => exact absurd hphase (hrunning nNow check vChecks fOk)
  have hat := (sound_arrive h (hreleased none) hdone).inv.invAt none
  rw [threads_arrive, rest_arrive] at hat
  have hle := outstanding_arrive_le (s := s) none
  have hlength : (s.arrive none).q.queue.length + (s.rest none).held < 2 ^ 32 := by
    have hsum : (s.arrive none).outstanding =
        (s.arrive none).q.queue.length + (0 + (s.rest none).held) := by
      unfold outstanding arrive
      rw [threadTotal_update]
      rfl
    omega
  rw [threads_lock, Function.update_self] at hreturn
  rw [q_proceed]
  rcases loop_cases (s.arrive none).q true with ⟨hqueue, hTodo, hloop⟩ | hloop | ⟨-, hloop⟩
  · have hheld : threadRest Phase.held s.threads none = 0 :=
      held_eq_zero hat hqueue hTodo hlength
    have hsame : (s.rest none).inside = (s.rest none).idle := by
      show threadRest Phase.inside s.threads none = threadRest Phase.idle s.threads none
      apply Finset.sum_congr rfl
      intro u hu
      have hzero := eq_zero_of_threadRest hheld (Finset.ne_of_mem_erase hu)
      cases hphase : s.threads u with
      | outside => rfl
      | waiting => rfl
      | looping => exact absurd hphase (hreleased u)
      | running nNow vChecks fOk =>
          rw [hphase] at hzero
          have hpos := h.inv.batches u nNow vChecks fOk hphase
          simp only [Phase.held] at hzero
          omega
    have hTotal := hat.nTotal
    have hIdle := hat.nIdle
    simp only [Phase.inside, Phase.idle] at hTotal hIdle
    show CCheckQueue.isIdle ((s.arrive none).q.loop true).1 = true
    rw [hloop]
    simp only [CCheckQueue.isIdle, hTodo, Bool.true_or, Bool.and_true, beq_self_eq_true,
      beq_iff_eq]
    omega
  · rw [show (s.arrive none).q.loop (Option.isNone none) = _ from hloop] at hreturn
    cases hreturn
  · rw [show (s.arrive none).q.loop (Option.isNone none) = _ from hloop] at hreturn
    cases hreturn

/-- **After a round the queue is idle**: in every interleaving in which fewer than 2^32 checks
are outstanding at a time, the assertion of the next `CCheckQueueControl` holds when `Wait`
returns. -/
theorem run_isIdle (eval : T → Bool) (nBatchSize : UInt32) (actions : List (Action T n))
    (hfit : ∀ before after s, actions = before ++ after →
      run eval nBatchSize before = some s → s.outstanding < 2 ^ 32)
    (hrun : run eval nBatchSize actions = some s) (hstep : s.step eval (.lock none) = some s')
    (hreturn : s'.threads none = .outside) : s'.q.isIdle = true := by
  have hsound : ∀ s, run eval nBatchSize actions = some s → s.Sound eval ∧ s.Released := by
    clear hrun
    induction actions using List.reverseRecOn with
    | nil =>
        intro s hrun
        obtain rfl := Option.some.inj hrun
        exact ⟨⟨inv_start nBatchSize, fun wait hmem => by cases hmem⟩, fun t h => by cases h⟩
    | append_singleton actions action ih =>
        intro s' hrun
        rw [run_append_singleton] at hrun
        obtain ⟨s, hs, hstep⟩ := Option.bind_eq_some_iff.mp hrun
        obtain ⟨hsound, hreleased⟩ := ih (fun before after s heq =>
          hfit before (after ++ [action]) s (by rw [heq, List.append_assoc])) s hs
        exact ⟨sound_step hsound (hfit actions [action] s rfl hs) hstep,
          released_step hreleased hstep⟩
  obtain ⟨hsound, hreleased⟩ := hsound s hrun
  exact wait_isIdle hsound hreleased (hfit actions [] s (by simp) hrun) hstep hreturn

theorem run_isIdle_failing : ∃ s s', run id 128 failingRound.dropLast = some s ∧
    s.step id (.lock none) = some s' ∧ s'.q.isIdle = true := by
  refine ⟨_, _, rfl, rfl, run_isIdle id 128 failingRound.dropLast ?_ rfl rfl rfl⟩
  intro before after s heq hrun
  have hall : ∀ before ∈ failingRound.inits, (run id 128 before).all
      (fun s => decide (s.outstanding < 2 ^ 32)) = true := by decide +kernel
  have hbound := hall before ((List.mem_inits _ _).mpr
    (List.IsPrefix.trans ⟨after, heq.symm⟩ (List.dropLast_prefix _)))
  rw [hrun] at hbound
  exact of_decide_eq_true hbound

end System

end Agrarian.Validation
