import Agrarian.BlockIndex.Receive

/-!
# Activating the best chain

`FindMostWorkChain` picks the best candidate whose blocks off the active
chain are unmarked and have data, and strikes the others off;
`ActivateBestChainStep` disconnects the active chain down to the fork and
connects blocks towards the pick, until the chain is better than it was or a
block turns out invalid; `ActivateBestChain` repeats that until there is
nothing better.

What a block's connection and disconnection come to is a parameter; so is the
flush at the end.  The genesis block has no undo data, and never comes off.
-/

namespace Agrarian.BlockIndex

open Agrarian.Lib Agrarian.Lib.Forest

variable {B : Type} [LinearOrder B]

/-- What `ConnectTip` comes to: a block can be found invalid, with or without
the possibility that only its data is corrupt, or there is a system error. -/
inductive Verdict
  | ok
  | invalid
  | corrupt
  | error
  deriving DecidableEq

structure Env (B : Type) where
  verdict : B → Verdict
  /-- The block can be read and its undo data applied. -/
  disconnects : B → Bool
  /-- `FlushStateToDisk` at the end of the call. -/
  flushes : Bool

inductive Halt
  | assertion
  | outOfFuel
  deriving DecidableEq

namespace State

/-! ## FindMostWorkChain -/

/-- `*setBlockIndexCandidates.rbegin()`. -/
def bestCandidate (s : State B) : Option B :=
  s.setBlockIndexCandidates.foldl (fun best b =>
    match best with
    | none => some b
    | some a => if s.worse a b then some b else some a) none

/-- Neither failed nor without data. -/
def usable (s : State B) (b : B) : Bool :=
  !(s.index b).failed && (s.index b).haveData

/-- The blocks from `pindexNew` down to the active chain. -/
def offChain (s : State B) (pindexNew : B) : List B :=
  (s.path pindexNew).reverse.takeWhile fun x => !s.contains x

/-- Take a block off the candidates that cannot be used because of one below
it. -/
def strike (fFailedChain : Bool) (s : State B) (pindexFailed : B) : State B :=
  let s :=
    if fFailedChain then s.modify pindexFailed fun e =>
      { e with failedChild := true }
    else
      match s.parent pindexFailed with
      | none => s
      | some p =>
          { s with mapBlocksUnlinked :=
              s.mapBlocksUnlinked ++ [(p, pindexFailed)] }
  s.eraseCandidate pindexFailed

/-- Remove the entire chain from the set: the blocks above `pindexTest`, from
the candidate down, and then `pindexTest` itself. -/
def removeChain (s : State B) (above : List B) (pindexTest : B) : State B :=
  (above.foldl (strike (s.index pindexTest).failed) s).eraseCandidate
    pindexTest

def findMostWorkLoop : Nat → State B → Except Halt (Option B × State B)
  | 0, _ => .error .outOfFuel
  | fuel + 1, s =>
      match s.bestCandidate with
      | none => .ok (none, s)
      | some pindexNew =>
          let tests := s.offChain pindexNew
          let above := tests.takeWhile s.usable
          let rest := tests.dropWhile s.usable
          if (above ++ rest.take 1).all fun x =>
              (s.index x).nChainTx ≠ 0 || (s.index x).nHeight = 0 then
            match rest with
            | [] => .ok (some pindexNew, s)
            | pindexTest :: _ =>
                findMostWorkLoop fuel (s.removeChain above pindexTest)
          else .error .assertion

def findMostWorkChain (s : State B) : Except Halt (Option B × State B) :=
  findMostWorkLoop (s.setBlockIndexCandidates.length + 1) s

/-! ## ActivateBestChain -/

def pruneBlockIndexCandidates (s : State B) : Except Halt (State B) :=
  let s := { s with setBlockIndexCandidates :=
    s.setBlockIndexCandidates.filter fun b => !s.worseThanTip b }
  if s.setBlockIndexCandidates = [] then .error .assertion else .ok s

/-- `none` if it fails; the genesis block has no undo data. -/
def disconnectTip (env : Env B) (s : State B) : Option (State B) :=
  match s.tip with
  | none => none
  | some pindexDelete =>
      match s.parent pindexDelete with
      | none => none
      | some p =>
          if env.disconnects pindexDelete then some { s with tip := some p }
          else none

/-- `InvalidBlockFound`, when no corruption is possible. -/
def invalidBlockFound (s : State B) (pindex : B) : State B :=
  (s.modify pindex fun e => { e with failedValid := true }).eraseCandidate
    pindex

def connectTip (env : Env B) (s : State B) (pindexNew : B) :
    Except Halt (Verdict × State B) :=
  if s.parent pindexNew ≠ s.tip then .error .assertion
  else
    match env.verdict pindexNew with
    | .ok => .ok (.ok, { s with tip := some pindexNew })
    | .invalid => .ok (.invalid, s.invalidBlockFound pindexNew)
    | .corrupt => .ok (.corrupt, s)
    | .error => .ok (.error, s)

/-- `chainActive.FindFork`. -/
def findFork (s : State B) (pindex : B) : Option B :=
  (s.path pindex).reverse.find? s.contains

/-- Disconnect active blocks which are no longer in the best chain. -/
def disconnectTo (env : Env B) (pindexFork : Option B) :
    Nat → State B → Except Halt (Bool × State B)
  | 0, _ => .error .outOfFuel
  | fuel + 1, s =>
      if s.tip = none ∨ s.tip = pindexFork then .ok (true, s)
      else
        match s.disconnectTip env with
        | none => .ok (false, s)
        | some s => disconnectTo env pindexFork fuel s

/-- How a row of connections ends. -/
inductive Progress
  | more
  | stop
  | fail
  deriving DecidableEq

/-- The chain has more work than the one that was active. -/
def betterThan (s : State B) (pindexOldTip : Option B) : Bool :=
  match pindexOldTip, s.tip with
  | none, _ => true
  | some _, none => false
  | some o, some t => (s.index o).nChainWork < (s.index t).nChainWork

/-- Connect new blocks, one batch of them. -/
def connectBlocks (env : Env B) (pindexOldTip : Option B) :
    List B → State B → Except Halt (Progress × State B)
  | [], s => .ok (.more, s)
  | pindexConnect :: bs, s => do
      let (verdict, s) ← s.connectTip env pindexConnect
      match verdict with
      | .ok =>
          let s ← s.pruneBlockIndexCandidates
          if s.betterThan pindexOldTip then .ok (.stop, s)
          else connectBlocks env pindexOldTip bs s
      | .invalid => .ok (.stop, s)
      | .corrupt => .ok (.stop, s)
      | .error => .ok (.fail, s)

/-- Batches of 32 blocks towards `pindexMostWork`; `n` is one more than
`nHeight`, the number of blocks of its path that are active. -/
def connectBatches (env : Env B) (pindexOldTip : Option B)
    (pindexMostWork : B) :
    Nat → Nat → State B → Except Halt (Bool × State B)
  | 0, _, _ => .error .outOfFuel
  | fuel + 1, n, s =>
      if n = s.height pindexMostWork + 1 then .ok (true, s)
      else do
        let target := min (n + 32) (s.height pindexMostWork + 1)
        let (progress, s) ← connectBlocks env pindexOldTip
          (((s.path pindexMostWork).take target).drop n) s
        match progress with
        | .more => connectBatches env pindexOldTip pindexMostWork fuel target s
        | .stop => .ok (true, s)
        | .fail => .ok (false, s)

def activateBestChainStep (env : Env B) (s : State B) (pindexMostWork : B) :
    Except Halt (Bool × State B) := do
  let pindexFork := s.findFork pindexMostWork
  let (fDone, s') ← disconnectTo env pindexFork (s.chainActive.length + 1) s
  if fDone then
    let n :=
      match pindexFork with
      | none => 0
      | some f => s.height f + 1
    connectBatches env s.tip pindexMostWork (s.height pindexMostWork + 2) n s'
  else .ok (false, s')

/-- `ActivateBestChain`, for at most `fuel` turns of its loop. -/
def activateBestChain (env : Env B) :
    Nat → State B → Except Halt (Bool × State B)
  | 0, _ => .error .outOfFuel
  | fuel + 1, s => do
      let (pindexMostWork, s) ← s.findMostWorkChain
      match pindexMostWork with
      | none => .ok (true, s)
      | some pindexMostWork =>
          if s.tip = some pindexMostWork then .ok (true, s)
          else
            let (fDone, s) ← s.activateBestChainStep env pindexMostWork
            if fDone then
              if s.tip = some pindexMostWork then .ok (env.flushes, s)
              else activateBestChain env fuel s
            else .ok (false, s)

/-! ## The best candidate -/

omit [LinearOrder B] in
/-- A left fold that keeps the better one of two. -/
theorem foldl_best {l : List B} {worse : B → B → Bool}
    (hirrefl : ∀ a, worse a a = false)
    (htrans : ∀ a b c, worse a b = false → worse b c = false →
      worse a c = false)
    (hantisymm : ∀ a b, worse a b = true → worse b a = false) (a : B) :
    ∃ m, l.foldl (fun best b =>
        match best with
        | none => some b
        | some a => if worse a b then some b else some a) (some a) = some m ∧
      (m = a ∨ m ∈ l) ∧ worse m a = false ∧ ∀ b ∈ l, worse m b = false := by
  induction l generalizing a with
  | nil => exact ⟨a, rfl, Or.inl rfl, hirrefl a, fun b hb => by cases hb⟩
  | cons x xs ih =>
      have hstep : ∃ y, (if worse a x then some x else some a) = some y ∧
          (y = a ∨ y = x) ∧ worse y a = false ∧ worse y x = false := by
        by_cases hax : worse a x = true
        · exact ⟨x, if_pos hax, Or.inr rfl, hantisymm a x hax, hirrefl x⟩
        · exact ⟨a, if_neg hax, Or.inl rfl, hirrefl a,
            Bool.not_eq_true _ ▸ hax⟩
      rcases hstep with ⟨y, hy, hya, hworsea, hworsex⟩
      rcases ih y with ⟨m, hm, hmem, hmy, hall⟩
      refine ⟨m, ?_, ?_, htrans m y a hmy hworsea, ?_⟩
      · rw [List.foldl_cons]
        show xs.foldl _ (if worse a x then some x else some a) = some m
        rw [hy]
        exact hm
      · rcases hmem with rfl | hmem
        · rcases hya with rfl | rfl
          · exact Or.inl rfl
          · exact Or.inr List.mem_cons_self
        · exact Or.inr (List.mem_cons_of_mem _ hmem)
      · intro b hb
        rcases List.mem_cons.mp hb with rfl | hb
        · exact htrans m y b hmy hworsex
        · exact hall b hb

/-- The best candidate is a candidate that is worse than none. -/
theorem bestCandidate_some {s : State B} {a : B}
    (h : s.bestCandidate = some a) :
    a ∈ s.setBlockIndexCandidates ∧
      ∀ b ∈ s.setBlockIndexCandidates, s.worse a b = false := by
  unfold bestCandidate at h
  cases hc : s.setBlockIndexCandidates with
  | nil =>
      rw [hc] at h
      cases h
  | cons x xs =>
      rw [hc, List.foldl_cons] at h
      rcases foldl_best (l := xs) (worse_irrefl s)
        (fun a b c => not_worse_trans) (fun a b => not_worse_of_worse) x with
        ⟨m, hm, hmem, hmx, hall⟩
      have hma : m = a := Option.some.inj (hm.symm.trans h)
      subst hma
      constructor
      · rcases hmem with rfl | hmem
        · exact List.mem_cons_self
        · exact List.mem_cons_of_mem _ hmem
      · intro b hb
        rcases List.mem_cons.mp hb with rfl | hb
        · exact hmx
        · exact hall b hb

theorem bestCandidate_none {s : State B} (h : s.bestCandidate = none) :
    s.setBlockIndexCandidates = [] := by
  unfold bestCandidate at h
  cases hc : s.setBlockIndexCandidates with
  | nil => rfl
  | cons x xs =>
      rw [hc, List.foldl_cons] at h
      rcases foldl_best (l := xs) (worse_irrefl s)
        (fun a b c => not_worse_trans) (fun a b => not_worse_of_worse) x with
        ⟨m, hm, -⟩
      cases hm.symm.trans h

/-! ## Striking off a chain -/

section RemoveChain

variable {s : State B} {above : List B} {test : B}

theorem strike_index (fFailedChain : Bool) (s : State B) (b x : B) :
    (strike fFailedChain s b).index x =
      if fFailedChain = true ∧ x = b then
        { s.index x with failedChild := true }
      else s.index x := by
  unfold strike
  cases fFailedChain with
  | false =>
      rw [if_neg (by simp)]
      cases s.parent b <;> rfl
  | true =>
      show Function.update s.index b _ x = _
      by_cases hx : x = b
      · rw [if_pos ⟨rfl, hx⟩, hx, Function.update_self]
      · rw [if_neg (fun h => hx h.2), Function.update_of_ne hx]

theorem strike_candidates (fFailedChain : Bool) (s : State B) (b : B) :
    (strike fFailedChain s b).setBlockIndexCandidates =
      s.setBlockIndexCandidates.filter (· ≠ b) := by
  unfold strike
  cases fFailedChain with
  | false => cases s.parent b <;> rfl
  | true => rfl

/-- What striking leaves alone. -/
theorem strike_kept (fFailedChain : Bool) (s : State B) (b : B) :
    (strike fFailedChain s b).mapBlockIndex = s.mapBlockIndex ∧
    (strike fFailedChain s b).tip = s.tip ∧
    (strike fFailedChain s b).nBlockSequenceId = s.nBlockSequenceId ∧
    (fFailedChain = true →
      (strike fFailedChain s b).mapBlocksUnlinked = s.mapBlocksUnlinked) := by
  unfold strike
  cases fFailedChain with
  | false => cases s.parent b <;> exact ⟨rfl, rfl, rfl, fun h => by cases h⟩
  | true => exact ⟨rfl, rfl, rfl, fun _ => rfl⟩

/-- Blocks above the one that cannot be used are marked if it has failed. -/
theorem removeChain_index (s : State B) (above : List B) (test x : B) :
    (s.removeChain above test).index x =
      if (s.index test).failed = true ∧ x ∈ above then
        { s.index x with failedChild := true }
      else s.index x := by
  have hfold : ∀ (f : Bool) (above : List B) (s : State B),
      (above.foldl (strike f) s).index x =
        if f = true ∧ x ∈ above then { s.index x with failedChild := true }
        else s.index x := by
    intro f above
    induction above with
    | nil => intro s; simp
    | cons b bs ih =>
        intro s
        rw [List.foldl_cons, ih, strike_index]
        by_cases hf : f = true
        · by_cases hb : x = b
          · simp [hf, hb]
          · simp [hf, hb]
        · simp [hf]
  exact hfold _ above s

theorem removeChain_candidates (s : State B) (above : List B) (test : B) :
    (s.removeChain above test).setBlockIndexCandidates =
      s.setBlockIndexCandidates.filter fun x => x ∉ above ∧ x ≠ test := by
  have hfold : ∀ (f : Bool) (above : List B) (s : State B),
      (above.foldl (strike f) s).setBlockIndexCandidates =
        s.setBlockIndexCandidates.filter (· ∉ above) := by
    intro f above
    induction above with
    | nil => intro s; simp
    | cons b bs ih =>
        intro s
        rw [List.foldl_cons, ih, strike_candidates, List.filter_filter]
        apply List.filter_congr
        intro x _
        simp only [List.mem_cons, not_or, ne_eq, ← Bool.decide_and]
        exact decide_eq_decide.mpr and_comm
  show (above.foldl _ s).setBlockIndexCandidates.filter (· ≠ test) = _
  rw [hfold, List.filter_filter]
  apply List.filter_congr
  intro x _
  rw [← Bool.decide_and]
  exact decide_eq_decide.mpr and_comm

theorem removeChain_kept (s : State B) (above : List B) (test : B) :
    (s.removeChain above test).mapBlockIndex = s.mapBlockIndex ∧
    (s.removeChain above test).tip = s.tip ∧
    (s.removeChain above test).nBlockSequenceId = s.nBlockSequenceId ∧
    ((s.index test).failed = true →
      (s.removeChain above test).mapBlocksUnlinked = s.mapBlocksUnlinked) := by
  have hfold : ∀ (f : Bool) (above : List B) (s : State B),
      (above.foldl (strike f) s).mapBlockIndex = s.mapBlockIndex ∧
      (above.foldl (strike f) s).tip = s.tip ∧
      (above.foldl (strike f) s).nBlockSequenceId = s.nBlockSequenceId ∧
      (f = true → (above.foldl (strike f) s).mapBlocksUnlinked =
        s.mapBlocksUnlinked) := by
    intro f above
    induction above with
    | nil => intro s; exact ⟨rfl, rfl, rfl, fun _ => rfl⟩
    | cons b bs ih =>
        intro s
        have htail := ih (strike f s b)
        have hhead := strike_kept f s b
        exact ⟨htail.1.trans hhead.1, htail.2.1.trans hhead.2.1,
          htail.2.2.1.trans hhead.2.2.1,
          fun hf => (htail.2.2.2 hf).trans (hhead.2.2.2 hf)⟩
  exact hfold _ above s

end RemoveChain

/-! ## The search ends -/

/-- Entries keep all but their marks, marks are not taken back, and no
candidate is new. -/
structure Kept (s s' : State B) : Prop where
  mapBlockIndex : s'.mapBlockIndex = s.mapBlockIndex
  entry : ∀ x, (s'.index x).unmarked = (s.index x).unmarked
  failed : ∀ x, (s.index x).failed = true → (s'.index x).failed = true
  candidates : ∀ x ∈ s'.setBlockIndexCandidates,
    x ∈ s.setBlockIndexCandidates

section Kept

omit [LinearOrder B] in
theorem Kept.refl (s : State B) : Kept s s :=
  ⟨rfl, fun _ => rfl, fun _ h => h, fun _ h => h⟩

omit [LinearOrder B] in
theorem Kept.trans {s s' s'' : State B} (h : Kept s s') (h' : Kept s' s'') :
    Kept s s'' :=
  ⟨h'.mapBlockIndex.trans h.mapBlockIndex,
    fun x => (h'.entry x).trans (h.entry x),
    fun x hx => h'.failed x (h.failed x hx),
    fun x hx => h.candidates x (h'.candidates x hx)⟩

variable {s s' : State B} (h : Kept s s')
include h

omit [LinearOrder B] in
/-- A field that is not a mark. -/
theorem Kept.field {γ : Type} (f : CBlockIndex B → γ)
    (hf : ∀ e, f e.unmarked = f e) (x : B) :
    f (s'.index x) = f (s.index x) := by
  rw [← hf, h.entry, hf]

omit [LinearOrder B] in
theorem Kept.parent : s'.parent = s.parent :=
  funext (h.field CBlockIndex.pprev fun _ => rfl)

omit [LinearOrder B] in
theorem Kept.height : s'.height = s.height :=
  funext (h.field CBlockIndex.nHeight fun _ => rfl)

omit [LinearOrder B] in
theorem Kept.haveData (x : B) :
    (s'.index x).haveData = (s.index x).haveData :=
  h.field CBlockIndex.haveData (fun _ => rfl) x

omit [LinearOrder B] in
theorem Kept.nChainWork (x : B) :
    (s'.index x).nChainWork = (s.index x).nChainWork :=
  h.field CBlockIndex.nChainWork (fun _ => rfl) x

omit [LinearOrder B] in
theorem Kept.nSequenceId (x : B) :
    (s'.index x).nSequenceId = (s.index x).nSequenceId :=
  h.field CBlockIndex.nSequenceId (fun _ => rfl) x

theorem Kept.worse (a b : B) : s'.worse a b = s.worse a b :=
  worse_congr ⟨h.nChainWork a, h.nSequenceId a⟩
    ⟨h.nChainWork b, h.nSequenceId b⟩

omit [LinearOrder B] in
theorem Kept.tree (htree : s.TreeInv) : s'.TreeInv := by
  unfold TreeInv
  rw [h.parent, h.height, h.mapBlockIndex]
  exact htree

end Kept

/-- The active chain after `ConnectTip` and `PruneBlockIndexCandidates`. -/
def connected (s : State B) (c : B) : State B :=
  { s with
    tip := some c
    setBlockIndexCandidates :=
      s.setBlockIndexCandidates.filter fun b => !s.worse b c }

/-- The things a call does, one by one. -/
inductive Move (env : Env B) (s : State B) : State B → Prop
  | removeChain {pindexNew test : B} {above : List B} :
      pindexNew ∈ s.setBlockIndexCandidates →
      Ancestor s.parent test pindexNew → s.usable test = false →
      (∀ x ∈ above, x ∈ s.mapBlockIndex ∧ x ≠ test ∧
        Ancestor s.parent test x) →
      Move env s (s.removeChain above test)
  | disconnectTip {t p : B} : s.tip = some t → s.parent t = some p →
      Move env s { s with tip := some p }
  | connectTip {c : B} : c ∈ s.mapBlockIndex → s.parent c = s.tip →
      s.usable c = true → env.verdict c = .ok → Move env s (s.connected c)
  | invalidBlockFound {c : B} : c ∈ s.mapBlockIndex →
      s.parent c = s.tip → env.verdict c = .invalid →
      Move env s (s.invalidBlockFound c)

/-- Runs of moves. -/
abbrev Moves (env : Env B) : State B → State B → Prop :=
  Relation.ReflTransGen (Move env)

theorem invalidBlockFound_index (s : State B) (c x : B) :
    (s.invalidBlockFound c).index x =
      if x = c then { s.index x with failedValid := true }
      else s.index x := by
  show Function.update s.index c _ x = _
  by_cases hx : x = c
  · rw [if_pos hx, hx, Function.update_self]
  · rw [if_neg hx, Function.update_of_ne hx]

theorem mem_removeChain {s : State B} {above : List B} {test x : B} :
    x ∈ (s.removeChain above test).setBlockIndexCandidates ↔
      x ∈ s.setBlockIndexCandidates ∧ x ∉ above ∧ x ≠ test := by
  rw [removeChain_candidates, List.mem_filter, decide_eq_true_eq]

theorem mem_connected {s : State B} {c x : B} :
    x ∈ (s.connected c).setBlockIndexCandidates ↔
      x ∈ s.setBlockIndexCandidates ∧ s.worse x c = false := by
  unfold connected
  simp

theorem mem_invalidBlockFound {s : State B} {c x : B} :
    x ∈ (s.invalidBlockFound c).setBlockIndexCandidates ↔
      x ∈ s.setBlockIndexCandidates ∧ x ≠ c :=
  mem_eraseCandidate

theorem invalidBlockFound_kept (s : State B) (c : B) :
    Kept s (s.invalidBlockFound c) := by
  refine ⟨rfl, fun x => ?_, fun x hx => ?_,
    fun x hx => (mem_invalidBlockFound.mp hx).1⟩
  · rw [invalidBlockFound_index]
    split <;> rfl
  · rw [invalidBlockFound_index]
    split
    · simp [CBlockIndex.failed]
    · exact hx

theorem Move.kept {env : Env B} {s s' : State B} (h : Move env s s') :
    Kept s s' := by
  cases h with
  | @removeChain pindexNew test above _ _ _ _ =>
      refine ⟨(removeChain_kept s above test).1, fun x => ?_, fun x hx => ?_,
        fun x hx => (mem_removeChain.mp hx).1⟩
      · rw [removeChain_index]
        split <;> rfl
      · rw [removeChain_index]
        split
        · simp [CBlockIndex.failed]
        · exact hx
  | disconnectTip ht hp =>
      exact ⟨rfl, fun _ => rfl, fun _ h => h, fun _ h => h⟩
  | connectTip hc hp husable hok =>
      exact ⟨rfl, fun _ => rfl, fun _ h => h,
        fun x hx => (mem_connected.mp hx).1⟩
  | invalidBlockFound hc hp hbad => exact invalidBlockFound_kept s _

theorem Moves.kept {env : Env B} {s s' : State B} (h : Moves env s s') :
    Kept s s' := by
  induction h with
  | refl => exact Kept.refl s
  | tail _ hmove ih => exact ih.trans hmove.kept

/-- The tree is one, and candidates and tip are in it. -/
structure Base (s : State B) : Prop where
  tree : s.TreeInv
  tip : s.TipIndexed
  candidates : ∀ b ∈ s.setBlockIndexCandidates, b ∈ s.mapBlockIndex

theorem Base.move {env : Env B} {s s' : State B} (h : Base s)
    (hmove : Move env s s') : Base s' := by
  have hkept := hmove.kept
  refine ⟨hkept.tree h.tree, fun t ht => ?_, fun b hb => ?_⟩
  · rw [hkept.mapBlockIndex]
    cases hmove with
    | @removeChain pindexNew test above _ _ _ _ =>
        rw [(removeChain_kept s above test).2.1] at ht
        exact h.tip t ht
    | @disconnectTip t' p ht' hp =>
        rw [← Option.some.inj ht]
        exact h.tree.closed (h.tip t' ht') hp
    | connectTip hc _ _ _ =>
        rw [← Option.some.inj ht]
        exact hc
    | invalidBlockFound _ _ _ => exact h.tip t ht
  · rw [hkept.mapBlockIndex]
    exact h.candidates b (hkept.candidates b hb)

theorem Base.moves {env : Env B} {s s' : State B} (h : Base s)
    (hmoves : Moves env s s') : Base s' := by
  induction hmoves with
  | refl => exact h
  | tail _ hmove ih => exact ih.move hmove

/-! ## A call is a run of moves -/

omit [LinearOrder B] in
theorem path_pairwise {s : State B} (htree : s.TreeInv) {b : B}
    (hb : b ∈ s.mapBlockIndex) :
    (s.path b).reverse.Pairwise (s.height · > s.height ·) := by
  rw [List.pairwise_reverse]
  exact pathTo_pairwise htree hb

/-- The blocks above one that cannot be used descend from it. -/
theorem offChain_above {s : State B} (htree : s.TreeInv) {b test : B}
    {rest : List B} (hb : b ∈ s.mapBlockIndex)
    (h : (s.offChain b).dropWhile s.usable = test :: rest) :
    Ancestor s.parent test b ∧ s.usable test = false ∧
      ∀ x ∈ (s.offChain b).takeWhile s.usable, x ∈ s.mapBlockIndex ∧
        x ≠ test ∧ Ancestor s.parent test x := by
  have hsplit : s.offChain b =
      (s.offChain b).takeWhile s.usable ++ test :: rest := by
    rw [← h, List.takeWhile_append_dropWhile]
  have hsub : ∀ x ∈ s.offChain b, Ancestor s.parent x b := by
    intro x hx
    have hmem := (List.takeWhile_sublist _).subset hx
    exact (mem_path htree hb).mp (List.mem_reverse.mp hmem)
  have htest : Ancestor s.parent test b := by
    apply hsub
    rw [hsplit]
    exact List.mem_append_right _ List.mem_cons_self
  have hpair : (s.offChain b).Pairwise (s.height · > s.height ·) :=
    (path_pairwise htree hb).sublist (List.takeWhile_sublist _)
  rw [hsplit, List.pairwise_append] at hpair
  refine ⟨htest, ?_, fun x hx => ?_⟩
  · have hhead := List.head?_dropWhile_not s.usable (s.offChain b)
    rw [h] at hhead
    exact hhead
  · have hlt := hpair.2.2 x hx test List.mem_cons_self
    have hxb := hsub x ((List.takeWhile_sublist _).subset hx)
    refine ⟨hxb.mem htree hb, ?_, htest.of_rank_le htree hxb hb hlt.le⟩
    rintro rfl
    exact lt_irrefl _ hlt

/-- The search makes moves, and its pick is the best of the candidates that
are left, with nothing off the active chain that cannot be used. -/
theorem findMostWorkLoop_moves (env : Env B) {fuel : Nat}
    {s s' : State B} {most : Option B} (hbase : Base s)
    (h : findMostWorkLoop fuel s = .ok (most, s')) :
    Moves env s s' ∧ s'.tip = s.tip ∧ most = s'.bestCandidate ∧
      ∀ m, most = some m → ∀ x ∈ s'.offChain m, s'.usable x = true := by
  induction fuel generalizing s with
  | zero => cases h
  | succ fuel ih =>
      unfold findMostWorkLoop at h
      cases hbest : s.bestCandidate with
      | none =>
          rw [hbest] at h
          cases h
          exact ⟨Relation.ReflTransGen.refl, rfl, hbest.symm,
            fun m hm => by cases hm⟩
      | some b =>
          rw [hbest] at h
          dsimp only at h
          split at h
          · have hb := (bestCandidate_some hbest).1
            cases hrest : (s.offChain b).dropWhile s.usable with
            | nil =>
                rw [hrest] at h
                cases h
                refine ⟨Relation.ReflTransGen.refl, rfl, hbest.symm, ?_⟩
                intro m hm x hx
                rw [← Option.some.inj hm] at hx
                exact List.dropWhile_eq_nil_iff.mp hrest x hx
            | cons test rest =>
                rw [hrest] at h
                have habove := offChain_above hbase.tree
                  (hbase.candidates b hb) hrest
                have hmove : Move env s _ := Move.removeChain hb habove.1
                  habove.2.1 habove.2.2
                have hih := ih (hbase.move hmove) h
                refine ⟨Relation.ReflTransGen.head hmove hih.1, ?_, hih.2.2⟩
                rw [hih.2.1]
                exact (removeChain_kept s _ test).2.1
          · cases h

/-- Disconnecting changes nothing but the tip. -/
theorem disconnectTo_moves {env : Env B} {pindexFork : Option B}
    {fuel : Nat} {s s' : State B} {done : Bool}
    (h : disconnectTo env pindexFork fuel s = .ok (done, s')) :
    Moves env s s' ∧ (∃ t, s' = { s with tip := t }) ∧
      (done = true → s'.tip = none ∨ s'.tip = pindexFork) := by
  induction fuel generalizing s with
  | zero => cases h
  | succ fuel ih =>
      unfold disconnectTo at h
      by_cases hstop : s.tip = none ∨ s.tip = pindexFork
      · rw [if_pos hstop] at h
        cases h
        exact ⟨Relation.ReflTransGen.refl, ⟨_, rfl⟩, fun _ => hstop⟩
      · rw [if_neg hstop] at h
        cases hdis : s.disconnectTip env with
        | none =>
            rw [hdis] at h
            cases h
            exact ⟨Relation.ReflTransGen.refl, ⟨_, rfl⟩,
              fun hf => by cases hf⟩
        | some s₁ =>
            rw [hdis] at h
            have hih := ih h
            have hmove : ∃ p, s₁ = { s with tip := some p } ∧
                Move env s s₁ := by
              unfold disconnectTip at hdis
              cases ht : s.tip with
              | none => rw [ht] at hdis; cases hdis
              | some t =>
                  rw [ht] at hdis
                  cases hp : s.parent t with
                  | none =>
                      simp only [hp] at hdis
                      cases hdis
                  | some p =>
                      simp only [hp] at hdis
                      split at hdis
                      · cases hdis
                        exact ⟨p, rfl, Move.disconnectTip ht hp⟩
                      · cases hdis
            rcases hmove with ⟨p, rfl, hmove⟩
            rcases hih.2.1 with ⟨t, rfl⟩
            exact ⟨Relation.ReflTransGen.head hmove hih.1, ⟨t, rfl⟩,
              hih.2.2⟩

/-- A row of connections; as long as it goes on, no entry changes. -/
theorem connectBlocks_moves {env : Env B} {pindexOldTip : Option B}
    {bs : List B} {s s' : State B} {progress : Progress}
    (hbs : ∀ b ∈ bs, b ∈ s.mapBlockIndex ∧ s.usable b = true)
    (h : connectBlocks env pindexOldTip bs s = .ok (progress, s')) :
    Moves env s s' ∧ (progress = .more →
      s'.index = s.index ∧ s'.mapBlockIndex = s.mapBlockIndex) := by
  induction bs generalizing s with
  | nil =>
      cases h
      exact ⟨Relation.ReflTransGen.refl, fun _ => ⟨rfl, rfl⟩⟩
  | cons b bs ih =>
      have hb := hbs b List.mem_cons_self
      unfold connectBlocks connectTip at h
      by_cases hparent : s.parent b = s.tip
      · rw [if_neg (not_not.mpr hparent)] at h
        cases hverdict : env.verdict b with
        | ok =>
            rw [hverdict] at h
            simp only [bind, Except.bind, pruneBlockIndexCandidates] at h
            split at h
            · cases h
            · rename_i s₁ hs₁
              have hconnected : s₁ = s.connected b := by
                split at hs₁
                · cases hs₁
                · exact (Except.ok.inj hs₁).symm
              subst hconnected
              have hmove : Move env s (s.connected b) :=
                Move.connectTip hb.1 hparent hb.2 hverdict
              split at h
              · cases h
                exact ⟨Relation.ReflTransGen.single hmove,
                  fun hmore => by cases hmore⟩
              · have hih := ih (s := s.connected b) (fun x hx =>
                  hbs x (List.mem_cons_of_mem _ hx)) h
                exact ⟨Relation.ReflTransGen.head hmove hih.1, hih.2⟩
        | invalid =>
            rw [hverdict] at h
            cases h
            exact ⟨Relation.ReflTransGen.single
              (Move.invalidBlockFound hb.1 hparent hverdict),
              fun hmore => by cases hmore⟩
        | corrupt =>
            rw [hverdict] at h
            cases h
            exact ⟨Relation.ReflTransGen.refl, fun hmore => by cases hmore⟩
        | error =>
            rw [hverdict] at h
            cases h
            exact ⟨Relation.ReflTransGen.refl, fun hmore => by cases hmore⟩
      · rw [if_pos hparent] at h
        cases h

theorem connectBatches_moves {env : Env B} {pindexOldTip : Option B}
    {m : B} {fuel n : Nat} {s s' : State B} {done : Bool}
    (hn : n ≤ s.height m + 1)
    (hbs : ∀ b ∈ (s.path m).drop n, b ∈ s.mapBlockIndex ∧ s.usable b = true)
    (h : connectBatches env pindexOldTip m fuel n s = .ok (done, s')) :
    Moves env s s' := by
  induction fuel generalizing n s with
  | zero => cases h
  | succ fuel ih =>
      unfold connectBatches at h
      split at h
      · cases h
        exact Relation.ReflTransGen.refl
      · simp only [bind, Except.bind] at h
        split at h
        · cases h
        · rename_i r hr
          rcases r with ⟨progress, s₁⟩
          have hbatch := connectBlocks_moves (s := s) (fun b hb => hbs b (by
            rw [List.drop_take] at hb
            exact (List.take_sublist _ _).subset hb)) hr
          cases progress with
          | more =>
              have hsame := hbatch.2 rfl
              have htarget : n ≤ min (n + 32) (s.height m + 1) := by omega
              have hheight : s₁.height m = s.height m := by
                unfold height
                rw [hsame.1]
              apply hbatch.1.trans
              apply ih _ _ h
              · rw [hheight]
                exact Nat.min_le_right _ _
              · intro b hb
                have hpath : s₁.path m = s.path m := by
                  unfold path parent height
                  rw [hsame.1]
                rw [hpath, ← Nat.add_sub_cancel' htarget,
                  ← List.drop_drop] at hb
                unfold usable
                rw [hsame.1, hsame.2]
                exact hbs b ((List.drop_sublist _ _).subset hb)
          | stop =>
              cases h
              exact hbatch.1
          | fail =>
              cases h
              exact hbatch.1

/-- Above the fork, a path is off the active chain. -/
theorem findFork_offChain {s : State B} (htree : s.TreeInv) {m : B}
    (hm : m ∈ s.mapBlockIndex) {n : Nat}
    (hn : n = match s.findFork m with
      | none => 0
      | some f => s.height f + 1) :
    n ≤ s.height m + 1 ∧
      ∀ b ∈ (s.path m).drop n, b ∈ s.mapBlockIndex ∧ b ∈ s.offChain m := by
  have hindexed : ∀ b ∈ s.path m, b ∈ s.mapBlockIndex := by
    intro b hb
    exact ((mem_path htree hm).mp hb).mem htree hm
  cases hfork : s.findFork m with
  | none =>
      rw [hfork] at hn
      subst hn
      refine ⟨Nat.zero_le _, fun b hb => ?_⟩
      rw [List.drop_zero] at hb
      refine ⟨hindexed b hb, ?_⟩
      have hall : s.offChain m = (s.path m).reverse := by
        rw [offChain, List.takeWhile_eq_self_iff]
        intro x hx
        have hnot := List.find?_eq_none.mp hfork x hx
        simpa using hnot
      rw [hall, List.mem_reverse]
      exact hb
  | some f =>
      rw [hfork] at hn
      subst hn
      have hf : f ∈ s.path m :=
        List.mem_reverse.mp (List.mem_of_find?_eq_some hfork)
      have hfm := (mem_path htree hm).mp hf
      refine ⟨Nat.succ_le_succ (hfm.rank_le htree hm), fun b hb => ?_⟩
      have hbpath : b ∈ s.path m := (List.drop_sublist _ _).subset hb
      refine ⟨hindexed b hbpath, ?_⟩
      have hhigher : s.height f < s.height b := by
        rcases List.mem_iff_getElem?.mp hb with ⟨i, hi⟩
        rw [List.getElem?_drop] at hi
        have hbm := (mem_path htree hm).mp hbpath
        have hib := (getElem?_pathTo htree hm).mpr hbm
        change (s.path m)[s.height b]? = some b at hib
        have hnodup : (s.path m).Nodup := by
          have hpair' := pathTo_pairwise htree hm
          exact hpair'.imp fun hlt heq => by
            rw [heq] at hlt
            exact lt_irrefl _ hlt
        have hlt : s.height b < (s.path m).length :=
          (List.getElem?_eq_some_iff.mp hib).1
        have heq := (List.getElem?_inj hlt hnodup).mp (hib.trans hi.symm)
        change s.height b = s.height f + 1 + i at heq
        omega
      -- the path is the blocks off the chain, then the fork and lower ones
      rcases (List.find?_eq_some_iff_append.mp hfork).2 with
        ⟨upper, lower, hsplit, hupper⟩
      have hpair := path_pairwise htree hm
      have hbmem : b ∈ (s.path m).reverse := List.mem_reverse.mpr hbpath
      rw [hsplit, List.mem_append] at hbmem
      rw [hsplit, List.pairwise_append, List.pairwise_cons] at hpair
      rcases hbmem with hb | hb
      · unfold offChain
        rw [hsplit, List.takeWhile_append_of_pos hupper]
        exact List.mem_append_left _ hb
      · rcases List.mem_cons.mp hb with rfl | hb
        · exact absurd hhigher (lt_irrefl _)
        · exact absurd (hpair.2.1.1 b hb) hhigher.not_gt

/-- A step towards the pick of the search. -/
theorem activateBestChainStep_moves {env : Env B} {s s' : State B} {m : B}
    {done : Bool} (hbase : Base s) (hm : m ∈ s.mapBlockIndex)
    (husable : ∀ x ∈ s.offChain m, s.usable x = true)
    (h : s.activateBestChainStep env m = .ok (done, s')) :
    Moves env s s' := by
  unfold activateBestChainStep at h
  simp only [bind, Except.bind] at h
  split at h
  · cases h
  · rename_i r hr
    rcases r with ⟨down, s₁⟩
    have hdown := disconnectTo_moves hr
    cases down with
    | false =>
        cases h
        exact hdown.1
    | true =>
        have hfork := findFork_offChain hbase.tree hm rfl
        rcases hdown.2.1 with ⟨t, rfl⟩
        apply hdown.1.trans
        exact connectBatches_moves (s := { s with tip := t }) hfork.1
          (fun b hb => ⟨(hfork.2 b hb).1, husable b (hfork.2 b hb).2⟩) h

/-- No candidate is better than the tip. -/
def TopTip (s : State B) : Prop :=
  ∀ b ∈ s.setBlockIndexCandidates, ∃ t, s.tip = some t ∧ s.worse t b = false

/-- **A call is a run of moves**, and if it succeeds no candidate is better
than the tip. -/
theorem activateBestChain_moves {env : Env B} {fuel : Nat} {s s' : State B}
    {done : Bool} (hbase : Base s)
    (h : activateBestChain env fuel s = .ok (done, s')) :
    Moves env s s' ∧ (done = true → s'.TopTip) := by
  induction fuel generalizing s with
  | zero => cases h
  | succ fuel ih =>
      unfold activateBestChain at h
      simp only [bind, Except.bind] at h
      split at h
      · cases h
      · rename_i r hr
        rcases r with ⟨most, s₁⟩
        have hsearch := findMostWorkLoop_moves env hbase hr
        have hbase₁ := hbase.moves hsearch.1
        cases most with
        | none =>
            cases h
            refine ⟨hsearch.1, fun _ b hb => ?_⟩
            rw [bestCandidate_none hsearch.2.2.1.symm] at hb
            cases hb
        | some m =>
            have hbest := bestCandidate_some hsearch.2.2.1.symm
            dsimp only at h
            split at h
            · rename_i htip
              cases h
              exact ⟨hsearch.1, fun _ b hb => ⟨m, htip, hbest.2 b hb⟩⟩
            · split at h
              · cases h
              · rename_i r hr
                rcases r with ⟨stepped, s₂⟩
                have hstep := activateBestChainStep_moves hbase₁
                  (hbase₁.candidates m hbest.1) (hsearch.2.2.2 m rfl) hr
                have hmoves := hsearch.1.trans hstep
                cases stepped with
                | false =>
                    cases h
                    exact ⟨hmoves, fun hf => by cases hf⟩
                | true =>
                    dsimp only at h
                    rw [if_pos rfl] at h
                    split at h
                    · rename_i htip
                      cases h
                      refine ⟨hmoves, fun _ b hb => ⟨m, htip, ?_⟩⟩
                      have hkept := hstep.kept
                      rw [hkept.worse]
                      exact hbest.2 b (hkept.candidates b hb)
                    · have hih := ih (hbase.moves hmoves) h
                      exact ⟨hmoves.trans hih.1, hih.2⟩

end State

end Agrarian.BlockIndex
