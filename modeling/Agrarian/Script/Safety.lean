import Agrarian.Script.Interpreter

/-!
# Safety of the script interpreter

What `EvalScript` keeps from one operation to the next: every element is of at most
`MAX_SCRIPT_ELEMENT_SIZE` bytes and no more than 201 operations were counted.  Inside an
operation `Has k a` adds how many elements the two stacks are known to hold, which is
all that the accesses of an operation depend on.
-/

namespace Agrarian.Script

open Agrarian.Lib ScriptError Opcode

/-! ## The invariant -/

def Bounded (l : List (List UInt8)) : Prop := ∀ vch ∈ l, vch.length ≤ MAX_SCRIPT_ELEMENT_SIZE

/-- The invariant, with so many elements on the stack and on the other stack at
least. -/
structure Has (k a : Nat) (s : Interp) : Prop where
  stack : Bounded s.stack
  altstack : Bounded s.altstack
  pushed : Bounded s.pushed
  nOpCount : s.nOpCount ≤ 201
  depth : k ≤ s.stack.length
  altDepth : a ≤ s.altstack.length

/-- An error that is not the unknown one, or a number that does not parse. -/
def Stop.Sound : Stop → Prop
  | .error serror => serror ≠ SCRIPT_ERR_UNKNOWN_ERROR
  | .exception e => e = .scriptnumError
  | .assertion => False

structure Fails (stop : Stop) (s : Interp) : Prop where
  sound : stop.Sound
  pushed : Bounded s.pushed

/-- The operation keeps the invariant and stops in a sound way only. -/
def Keeps {α : Type} (m : EvalM α) : Prop := Ensures Fails (Has 0 0) m fun _ => Has 0 0

variable {α : Type} {k a : Nat}

theorem Has.mono {k' a' : Nat} {s : Interp} (h : Has k a s) (hk : k' ≤ k) (ha : a' ≤ a) :
    Has k' a' s :=
  { h with depth := hk.trans h.depth, altDepth := ha.trans h.altDepth }

theorem Has.fails {s : Interp} {stop : Stop} (h : Has k a s) (hstop : stop.Sound) :
    Fails stop s :=
  ⟨hstop, h.pushed⟩

theorem Bounded.cons {vch : List UInt8} {l : List (List UInt8)}
    (hvch : vch.length ≤ MAX_SCRIPT_ELEMENT_SIZE) (h : Bounded l) : Bounded (vch :: l) :=
  List.forall_mem_cons.mpr ⟨hvch, h⟩

/-! ## Errors -/

theorem setError_ensures {serror : ScriptError} {post : α → Interp → Prop}
    (h : serror ≠ SCRIPT_ERR_UNKNOWN_ERROR) :
    Ensures Fails (Has k a) (setError serror) post :=
  Ensures.throw fun _ hs => hs.fails h

theorem setErrorIf_ensures {c : Bool} {serror : ScriptError}
    (h : serror ≠ SCRIPT_ERR_UNKNOWN_ERROR) :
    Ensures Fails (Has k a) (setErrorIf c serror) fun _ s => c = false ∧ Has k a s := by
  unfold setErrorIf
  refine Ensures.ite (fun _ => setError_ensures h) fun hc => ?_
  exact Ensures.pure fun s hs => ⟨Bool.eq_false_iff.mpr hc, hs⟩

theorem scriptNum_ensures (env : EvalEnv) (vch : List UInt8) (nMaxNumSize : Nat) :
    Ensures Fails (Has k a) (scriptNum env vch nMaxNumSize) fun bn s =>
      CScriptNum.ofVch vch env.fRequireMinimal nMaxNumSize = some bn ∧ Has k a s := by
  unfold scriptNum
  cases CScriptNum.ofVch vch env.fRequireMinimal nMaxNumSize with
  | none => exact Ensures.throw fun _ hs => hs.fails rfl
  | some bn => exact Ensures.pure fun _ hs => ⟨rfl, hs⟩

theorem assertSome_ensures {bn : Option CScriptNum} (h : ∃ b, bn = some b) :
    Ensures Fails (Has k a) (assertSome bn) fun _ => Has k a := by
  obtain ⟨b, rfl⟩ := h
  exact Ensures.pure fun _ hs => hs

/-! ## Stacks -/

theorem stackSize_ensures :
    Ensures Fails (Has k a) stackSize fun size => Has size a :=
  Ensures.read.weaken_post fun _ _ ⟨hsize, hs⟩ => { hs with depth := Nat.le_of_eq hsize }

theorem requireStackOr_ensures (n : Nat) {serror : ScriptError}
    (h : serror ≠ SCRIPT_ERR_UNKNOWN_ERROR) :
    Ensures Fails (Has k a) (requireStackOr n serror) fun _ => Has n a := by
  refine Ensures.bind stackSize_ensures fun size => ?_
  refine (setErrorIf_ensures h).weaken_post fun _ s ⟨hsize, hs⟩ => ?_
  rw [decide_eq_false_iff_not, Nat.not_lt] at hsize
  exact hs.mono hsize (Nat.le_refl a)

theorem requireStack_ensures (n : Nat) :
    Ensures Fails (Has k a) (requireStack n) fun _ => Has n a :=
  requireStackOr_ensures n (by decide)

theorem stacktop_ensures {i : Nat} (hpos : 0 < i) (hi : i ≤ k) :
    Ensures Fails (Has k a) (stacktop i) fun vch s =>
      vch.length ≤ MAX_SCRIPT_ELEMENT_SIZE ∧ Has k a s := by
  refine Ensures.get_bind fun s hs => ?_
  have hlt : i - 1 < s.stack.length := by
    have hdepth := hs.depth
    omega
  rw [if_neg (by omega), List.getElem?_eq_getElem hlt]
  refine Ensures.pure fun s' heq => ?_
  rw [heq]
  exact ⟨hs.stack _ (List.getElem_mem hlt), hs⟩

theorem popstack_ensures : Ensures Fails (Has (k + 1) a) popstack fun _ => Has k a := by
  refine Ensures.get_bind fun s hs => ?_
  have hbounded := hs.stack
  have hdepth := hs.depth
  cases hstack : s.stack with
  | nil =>
      rw [hstack] at hdepth
      cases hdepth
  | cons vch rest =>
      rw [hstack] at hbounded hdepth
      exact Ensures.set { hs with
        stack := fun vch hvch => hbounded vch (List.mem_cons_of_mem _ hvch)
        depth := Nat.le_of_succ_le_succ hdepth }

theorem popMany_ensures (n : Nat) :
    Ensures Fails (Has (k + n) a) (popMany n) fun _ => Has k a := by
  induction n with
  | zero => exact Ensures.pure fun _ hs => hs
  | succ n ih => exact Ensures.bind popstack_ensures fun _ => ih

theorem pushBack_ensures {vch : List UInt8} (h : vch.length ≤ MAX_SCRIPT_ELEMENT_SIZE) :
    Ensures Fails (Has k a) (pushBack vch) fun _ => Has (k + 1) a :=
  Ensures.modify fun _ hs =>
    { hs with
      stack := hs.stack.cons h
      pushed := hs.pushed.cons h
      depth := Nat.succ_le_succ hs.depth }

theorem swapTop_ensures {i j : Nat} (hi : 0 < i) (hik : i ≤ k) (hj : 0 < j) (hjk : j ≤ k) :
    Ensures Fails (Has k a) (swapTop i j) fun _ => Has k a := by
  refine Ensures.bind_of (stacktop_ensures hi hik) fun vchI hvchI => ?_
  refine Ensures.bind_of (stacktop_ensures hj hjk) fun vchJ hvchJ => ?_
  refine Ensures.modify fun s hs => { hs with stack := ?_, depth := ?_ }
  · intro vch hvch
    rcases List.mem_or_eq_of_mem_set hvch with hvch | rfl
    · rcases List.mem_or_eq_of_mem_set hvch with hvch | rfl
      · exact hs.stack vch hvch
      · exact hvchJ
    · exact hvchI
  · rw [List.length_set, List.length_set]
    exact hs.depth

theorem eraseTop_ensures {i : Nat} (hpos : 0 < i) (hi : i ≤ k + 1) :
    Ensures Fails (Has (k + 1) a) (eraseTop i) fun _ => Has k a := by
  refine Ensures.get_bind fun s hs => ?_
  have hdepth := hs.depth
  rw [if_neg (by omega)]
  refine Ensures.set { hs with stack := ?_, depth := ?_ }
  · intro vch hvch
    exact hs.stack vch (List.mem_of_mem_eraseIdx hvch)
  · rw [List.length_eraseIdx, if_pos (by omega)]
    omega

theorem insertTop_ensures {i : Nat} {vch : List UInt8} (hi : i ≤ k)
    (h : vch.length ≤ MAX_SCRIPT_ELEMENT_SIZE) :
    Ensures Fails (Has k a) (insertTop i vch) fun _ => Has (k + 1) a := by
  refine Ensures.get_bind fun s hs => ?_
  have hlength : i ≤ s.stack.length := hi.trans hs.depth
  rw [if_neg (Nat.not_lt.mpr hlength)]
  refine Ensures.set { hs with stack := ?_, pushed := hs.pushed.cons h, depth := ?_ }
  · intro other hother
    rcases (List.mem_insertIdx hlength).mp hother with rfl | hother
    · exact h
    · exact hs.stack other hother
  · rw [List.length_insertIdx_of_le_length hlength]
    exact Nat.succ_le_succ hs.depth

theorem pushAltstack_ensures {vch : List UInt8} (h : vch.length ≤ MAX_SCRIPT_ELEMENT_SIZE) :
    Ensures Fails (Has k a) (pushAltstack vch) fun _ => Has k (a + 1) :=
  Ensures.modify fun _ hs =>
    { hs with
      altstack := hs.altstack.cons h
      pushed := hs.pushed.cons h
      altDepth := Nat.succ_le_succ hs.altDepth }

theorem altstackSize_ensures :
    Ensures Fails (Has k a) altstackSize fun size => Has k size :=
  Ensures.read.weaken_post fun _ _ ⟨hsize, hs⟩ => { hs with altDepth := Nat.le_of_eq hsize }

theorem altstacktop_ensures :
    Ensures Fails (Has k (a + 1)) altstacktop fun vch s =>
      vch.length ≤ MAX_SCRIPT_ELEMENT_SIZE ∧ Has k (a + 1) s := by
  refine Ensures.get_bind fun s hs => ?_
  have hbounded := hs.altstack
  have hdepth := hs.altDepth
  cases haltstack : s.altstack with
  | nil =>
      rw [haltstack] at hdepth
      cases hdepth
  | cons vch rest =>
      rw [haltstack] at hbounded
      refine Ensures.pure fun s' heq => ?_
      rw [heq]
      exact ⟨hbounded vch List.mem_cons_self, hs⟩

theorem popAltstack_ensures :
    Ensures Fails (Has k (a + 1)) popAltstack fun _ => Has k a := by
  refine Ensures.get_bind fun s hs => ?_
  have hbounded := hs.altstack
  have hdepth := hs.altDepth
  cases haltstack : s.altstack with
  | nil =>
      rw [haltstack] at hdepth
      cases hdepth
  | cons vch rest =>
      rw [haltstack] at hbounded hdepth
      exact Ensures.set { hs with
        altstack := fun vch hvch => hbounded vch (List.mem_cons_of_mem _ hvch)
        altDepth := Nat.le_of_succ_le_succ hdepth }

theorem chargeOps_ensures (n : Nat) :
    Ensures Fails (Has k a) (chargeOps n) fun _ => Has k a := by
  refine ensures_iff.mpr fun s hs => ?_
  let s' := { s with nOpCount := s.nOpCount + n }
  show Outcome _ _ ((setErrorIf (s.nOpCount + n > 201) SCRIPT_ERR_OP_COUNT).run s')
  unfold setErrorIf
  split
  · have hsound : SCRIPT_ERR_OP_COUNT ≠ SCRIPT_ERR_UNKNOWN_ERROR := by decide
    exact ⟨hsound, hs.pushed⟩
  · next hcount =>
      rw [decide_eq_true_iff, gt_iff_lt, Nat.not_lt] at hcount
      exact { hs with nOpCount := hcount }

theorem verifyResult_ensures {isVerify fValue : Bool} {serror : ScriptError}
    (h : serror ≠ SCRIPT_ERR_UNKNOWN_ERROR) :
    Ensures Fails (Has (k + 1) a) (verifyResult isVerify fValue serror) fun _ => Has k a := by
  unfold verifyResult
  refine Ensures.ite (fun _ => ?_) fun _ => ?_
  · refine Ensures.ite (fun _ => popstack_ensures) fun _ => setError_ensures h
  · exact Ensures.pure fun _ hs => hs.mono (Nat.le_succ k) (Nat.le_refl a)

theorem orSetError_ensures {checked : Except ScriptError Unit}
    (h : checked ≠ .error SCRIPT_ERR_UNKNOWN_ERROR) :
    Ensures Fails (Has k a) (orSetError checked) fun _ => Has k a := by
  cases checked with
  | ok _ => exact Ensures.pure fun _ hs => hs
  | error serror => exact setError_ensures fun heq => h (congrArg Except.error heq)

theorem scriptCodeStart_ensures :
    Ensures Fails (Has k a) scriptCodeStart fun _ => Has k a :=
  Ensures.read.weaken_post fun _ _ hs => hs.2

/-! ## Operations -/

/-- What is known of the sizes is forgotten at the end of an operation. -/
theorem ensures_zero {pre : Interp → Prop} {m : EvalM α}
    (h : Ensures Fails pre m fun _ => Has k a) : Ensures Fails pre m fun _ => Has 0 0 :=
  h.weaken_post fun _ _ hs => hs.mono (Nat.zero_le k) (Nat.zero_le a)

theorem keeps_setError {serror : ScriptError} (h : serror ≠ SCRIPT_ERR_UNKNOWN_ERROR) :
    Keeps (setError serror : EvalM α) :=
  setError_ensures h

theorem keeps_setErrorIf {c : Bool} {serror : ScriptError}
    (h : serror ≠ SCRIPT_ERR_UNKNOWN_ERROR) : Keeps (setErrorIf c serror) :=
  (setErrorIf_ensures h).weaken_post fun _ _ hs => hs.2

theorem keeps_pushBack {vch : List UInt8} (h : vch.length ≤ MAX_SCRIPT_ELEMENT_SIZE) :
    Keeps (pushBack vch) :=
  ensures_zero (pushBack_ensures h)

/-! ### Control -/

theorem keeps_opCheckLockTimeVerify (env : EvalEnv) : Keeps (opCheckLockTimeVerify env) := by
  refine Ensures.ite (fun _ => keeps_setErrorIf (by decide)) fun _ => ?_
  refine Ensures.bind (requireStack_ensures 1) fun _ => ?_
  refine Ensures.bind_of (stacktop_ensures (by decide) (by decide)) fun vch _ => ?_
  refine Ensures.bind_of (scriptNum_ensures env vch 5) fun nLockTime _ => ?_
  refine Ensures.bind_of (setErrorIf_ensures (by decide)) fun _ _ => ?_
  exact (ensures_zero ((setErrorIf_ensures (by decide)).weaken_post fun _ _ => And.right))

theorem keeps_opUpgradableNop (env : EvalEnv) : Keeps (opUpgradableNop env) :=
  keeps_setErrorIf (by decide)

theorem keeps_ifValue (opcode : Opcode) (fExec : Bool) : Keeps (ifValue opcode fExec) := by
  refine Ensures.ite (fun _ => ?_) fun _ => Ensures.pure fun _ => id
  refine Ensures.bind (requireStackOr_ensures 1 (by decide)) fun _ => ?_
  refine Ensures.bind_of (stacktop_ensures (by decide) (by decide)) fun vch _ => ?_
  refine Ensures.bind popstack_ensures fun _ => ?_
  exact Ensures.pure fun _ => id

theorem keeps_opIf (opcode : Opcode) (fExec : Bool) : Keeps (opIf opcode fExec) := by
  refine Ensures.bind (keeps_ifValue opcode fExec) fun fValue => ?_
  exact Ensures.modify fun s hs => { hs with }

theorem keeps_opElse : Keeps opElse := by
  refine Ensures.get_bind fun s hs => ?_
  cases s.vfExec with
  | nil => exact (keeps_setError (by decide)).weaken_pre fun s' heq => heq ▸ hs
  | cons back vfExec => exact Ensures.set { hs with }

theorem keeps_opEndif : Keeps opEndif := by
  refine Ensures.get_bind fun s hs => ?_
  cases s.vfExec with
  | nil => exact (keeps_setError (by decide)).weaken_pre fun s' heq => heq ▸ hs
  | cons _ vfExec => exact Ensures.set { hs with }

theorem keeps_opVerify : Keeps opVerify := by
  refine Ensures.bind (requireStack_ensures 1) fun _ => ?_
  refine Ensures.bind_of (stacktop_ensures (by decide) (by decide)) fun vch _ => ?_
  exact Ensures.ite (fun _ => popstack_ensures) fun _ => setError_ensures (by decide)

/-! ### Stack operations -/

theorem keeps_opToAltstack : Keeps opToAltstack := by
  refine Ensures.bind (requireStack_ensures 1) fun _ => ?_
  refine Ensures.bind_of (stacktop_ensures (by decide) (by decide)) fun vch h => ?_
  refine Ensures.bind (pushAltstack_ensures h) fun _ => ?_
  exact ensures_zero popstack_ensures

theorem keeps_opFromAltstack : Keeps opFromAltstack := by
  refine Ensures.bind altstackSize_ensures fun size => ?_
  refine Ensures.bind_of (setErrorIf_ensures (by decide)) fun _ hsize => ?_
  rw [decide_eq_false_iff_not, Nat.not_lt] at hsize
  obtain ⟨a, rfl⟩ := Nat.exists_eq_add_of_le' hsize
  refine Ensures.bind_of altstacktop_ensures fun vch h => ?_
  refine Ensures.bind (pushBack_ensures h) fun _ => ?_
  exact ensures_zero popAltstack_ensures

theorem keeps_op2Drop : Keeps op2Drop := by
  refine Ensures.bind (requireStack_ensures 2) fun _ => ?_
  refine Ensures.bind popstack_ensures fun _ => ?_
  exact popstack_ensures

theorem keeps_op2Dup : Keeps op2Dup := by
  refine Ensures.bind (requireStack_ensures 2) fun _ => ?_
  refine Ensures.bind_of (stacktop_ensures (by decide) (by decide)) fun vch1 h1 => ?_
  refine Ensures.bind_of (stacktop_ensures (by decide) (by decide)) fun vch2 h2 => ?_
  refine Ensures.bind (pushBack_ensures h1) fun _ => ?_
  exact ensures_zero (pushBack_ensures h2)

theorem keeps_op3Dup : Keeps op3Dup := by
  refine Ensures.bind (requireStack_ensures 3) fun _ => ?_
  refine Ensures.bind_of (stacktop_ensures (by decide) (by decide)) fun vch1 h1 => ?_
  refine Ensures.bind_of (stacktop_ensures (by decide) (by decide)) fun vch2 h2 => ?_
  refine Ensures.bind_of (stacktop_ensures (by decide) (by decide)) fun vch3 h3 => ?_
  refine Ensures.bind (pushBack_ensures h1) fun _ => ?_
  refine Ensures.bind (pushBack_ensures h2) fun _ => ?_
  exact ensures_zero (pushBack_ensures h3)

theorem keeps_op2Over : Keeps op2Over := by
  refine Ensures.bind (requireStack_ensures 4) fun _ => ?_
  refine Ensures.bind_of (stacktop_ensures (by decide) (by decide)) fun vch1 h1 => ?_
  refine Ensures.bind_of (stacktop_ensures (by decide) (by decide)) fun vch2 h2 => ?_
  refine Ensures.bind (pushBack_ensures h1) fun _ => ?_
  exact ensures_zero (pushBack_ensures h2)

theorem keeps_op2Rot : Keeps op2Rot := by
  refine Ensures.bind (requireStack_ensures 6) fun _ => ?_
  refine Ensures.bind_of (stacktop_ensures (by decide) (by decide)) fun vch1 h1 => ?_
  refine Ensures.bind_of (stacktop_ensures (by decide) (by decide)) fun vch2 h2 => ?_
  refine Ensures.bind (eraseTop_ensures (by decide) (by decide)) fun _ => ?_
  refine Ensures.bind (eraseTop_ensures (by decide) (by decide)) fun _ => ?_
  refine Ensures.bind (pushBack_ensures h1) fun _ => ?_
  exact ensures_zero (pushBack_ensures h2)

theorem keeps_op2Swap : Keeps op2Swap := by
  refine Ensures.bind (requireStack_ensures 4) fun _ => ?_
  refine Ensures.bind (swapTop_ensures (by decide) (by decide) (by decide) (by decide)) fun _ => ?_
  exact ensures_zero (swapTop_ensures (by decide) (by decide) (by decide) (by decide))

theorem keeps_opIfDup : Keeps opIfDup := by
  refine Ensures.bind (requireStack_ensures 1) fun _ => ?_
  refine Ensures.bind_of (stacktop_ensures (by decide) (by decide)) fun vch h => ?_
  refine Ensures.ite (fun _ => ensures_zero (pushBack_ensures h)) fun _ => ?_
  exact Ensures.pure fun _ hs => hs.mono (Nat.zero_le 1) (Nat.zero_le 0)

/-- A number on the stack takes nine bytes at most. -/
theorem length_getvch_le_max (bn : CScriptNum) :
    bn.getvch.length ≤ MAX_SCRIPT_ELEMENT_SIZE :=
  bn.length_getvch_le.trans (by decide)

theorem keeps_opDepth : Keeps opDepth := by
  refine Ensures.bind stackSize_ensures fun size => ?_
  exact ensures_zero (pushBack_ensures (length_getvch_le_max _))

theorem keeps_opDrop : Keeps opDrop := by
  refine Ensures.bind (requireStack_ensures 1) fun _ => ?_
  exact popstack_ensures

theorem keeps_opDup : Keeps opDup := by
  refine Ensures.bind (requireStack_ensures 1) fun _ => ?_
  refine Ensures.bind_of (stacktop_ensures (by decide) (by decide)) fun vch h => ?_
  exact ensures_zero (pushBack_ensures h)

theorem keeps_opNip : Keeps opNip := by
  refine Ensures.bind (requireStack_ensures 2) fun _ => ?_
  exact ensures_zero (eraseTop_ensures (by decide) (by decide))

theorem keeps_opOver : Keeps opOver := by
  refine Ensures.bind (requireStack_ensures 2) fun _ => ?_
  refine Ensures.bind_of (stacktop_ensures (by decide) (by decide)) fun vch h => ?_
  exact ensures_zero (pushBack_ensures h)

theorem keeps_opPick (env : EvalEnv) (opcode : Opcode) : Keeps (opPick env opcode) := by
  refine Ensures.bind (requireStack_ensures 2) fun _ => ?_
  refine Ensures.bind_of (stacktop_ensures (by decide) (by decide)) fun vchN _ => ?_
  refine Ensures.bind_of (scriptNum_ensures env vchN _) fun bn _ => ?_
  refine Ensures.bind popstack_ensures fun _ => ?_
  refine Ensures.bind stackSize_ensures fun size => ?_
  refine Ensures.bind_of (setErrorIf_ensures (by decide)) fun _ hn => ?_
  -- the number is an index into what is left of the stack
  simp only [Bool.or_eq_false_iff, decide_eq_false_iff_not] at hn
  obtain ⟨k, rfl⟩ : ∃ k, size = k + 1 := ⟨size - 1, by omega⟩
  refine Ensures.bind_of (stacktop_ensures (Nat.succ_pos _) (by omega)) fun vch h => ?_
  refine Ensures.ite (fun _ => ?_) fun _ => ensures_zero (pushBack_ensures h)
  refine Ensures.bind (eraseTop_ensures (Nat.succ_pos _) (by omega)) fun _ => ?_
  exact ensures_zero (pushBack_ensures h)

theorem keeps_opRot : Keeps opRot := by
  refine Ensures.bind (requireStack_ensures 3) fun _ => ?_
  refine Ensures.bind (swapTop_ensures (by decide) (by decide) (by decide) (by decide)) fun _ => ?_
  exact ensures_zero (swapTop_ensures (by decide) (by decide) (by decide) (by decide))

theorem keeps_opSwap : Keeps opSwap := by
  refine Ensures.bind (requireStack_ensures 2) fun _ => ?_
  exact ensures_zero (swapTop_ensures (by decide) (by decide) (by decide) (by decide))

theorem keeps_opTuck : Keeps opTuck := by
  refine Ensures.bind (requireStack_ensures 2) fun _ => ?_
  refine Ensures.bind_of (stacktop_ensures (by decide) (by decide)) fun vch h => ?_
  exact ensures_zero (insertTop_ensures (Nat.le_refl 2) h)

theorem keeps_opSize : Keeps opSize := by
  refine Ensures.bind (requireStack_ensures 1) fun _ => ?_
  refine Ensures.bind_of (stacktop_ensures (by decide) (by decide)) fun vch _ => ?_
  exact ensures_zero (pushBack_ensures (length_getvch_le_max _))

theorem length_boolVch_le (fValue : Bool) :
    (boolVch fValue).length ≤ MAX_SCRIPT_ELEMENT_SIZE := by
  cases fValue with
  | false => exact Nat.zero_le _
  | true => decide

theorem keeps_opEqual (opcode : Opcode) : Keeps (opEqual opcode) := by
  refine Ensures.bind (requireStack_ensures 2) fun _ => ?_
  refine Ensures.bind_of (stacktop_ensures (by decide) (by decide)) fun vch1 _ => ?_
  refine Ensures.bind_of (stacktop_ensures (by decide) (by decide)) fun vch2 _ => ?_
  refine Ensures.bind popstack_ensures fun _ => ?_
  refine Ensures.bind popstack_ensures fun _ => ?_
  refine Ensures.bind (pushBack_ensures (length_boolVch_le _)) fun _ => ?_
  exact verifyResult_ensures (by decide)

/-! ### Numeric operations -/

theorem exists_numeric1 {opcode : Opcode} {bn : CScriptNum} (hbn : bn.m_value.natAbs < 2 ^ 31)
    (h : opcode ∈ [OP_1ADD, OP_1SUB, OP_NEGATE, OP_ABS, OP_NOT, OP_0NOTEQUAL]) :
    ∃ b, numeric1 opcode bn = some b := by
  simp only [List.mem_cons, List.not_mem_nil, or_false] at h
  rcases h with rfl | rfl | rfl | rfl | rfl | rfl
  · exact CScriptNum.exists_addAssign_one hbn
  · exact CScriptNum.exists_subAssign_one hbn
  · exact CScriptNum.exists_neg hbn
  · show ∃ b, (if bn.m_value < 0 then bn.neg else some bn) = some b
    split
    · exact CScriptNum.exists_neg hbn
    · exact ⟨bn, rfl⟩
  · exact ⟨_, rfl⟩
  · exact ⟨_, rfl⟩

theorem keeps_opNumeric1 (env : EvalEnv) {opcode : Opcode}
    (h : opcode ∈ [OP_1ADD, OP_1SUB, OP_NEGATE, OP_ABS, OP_NOT, OP_0NOTEQUAL]) :
    Keeps (opNumeric1 env opcode) := by
  refine Ensures.bind (requireStack_ensures 1) fun _ => ?_
  refine Ensures.bind_of (stacktop_ensures (by decide) (by decide)) fun vch _ => ?_
  refine Ensures.bind_of (scriptNum_ensures env vch _) fun bn hbn => ?_
  have hsmall := CScriptNum.natAbs_lt_of_ofVch hbn
  refine Ensures.bind (assertSome_ensures (exists_numeric1 hsmall h)) fun bn => ?_
  refine Ensures.bind popstack_ensures fun _ => ?_
  exact ensures_zero (pushBack_ensures (length_getvch_le_max bn))

theorem keeps_opNumeric2 (env : EvalEnv) {opcode : Opcode}
    (h : ∀ bn1 bn2, ∃ b, numeric2 opcode bn1 bn2 = some b) : Keeps (opNumeric2 env opcode) := by
  refine Ensures.bind (requireStack_ensures 2) fun _ => ?_
  refine Ensures.bind_of (stacktop_ensures (by decide) (by decide)) fun vch1 _ => ?_
  refine Ensures.bind_of (scriptNum_ensures env vch1 _) fun bn1 _ => ?_
  refine Ensures.bind_of (stacktop_ensures (by decide) (by decide)) fun vch2 _ => ?_
  refine Ensures.bind_of (scriptNum_ensures env vch2 _) fun bn2 _ => ?_
  refine Ensures.bind (assertSome_ensures (h bn1 bn2)) fun bn => ?_
  refine Ensures.bind popstack_ensures fun _ => ?_
  refine Ensures.bind popstack_ensures fun _ => ?_
  refine Ensures.bind (pushBack_ensures (length_getvch_le_max bn)) fun _ => ?_
  refine Ensures.ite (fun _ => ?_) fun _ => ?_
  · refine Ensures.bind_of (stacktop_ensures (by decide) (by decide)) fun vch _ => ?_
    exact verifyResult_ensures (by decide)
  · exact Ensures.pure fun _ hs => hs.mono (Nat.zero_le 1) (Nat.zero_le 0)

theorem keeps_opWithin (env : EvalEnv) : Keeps (opWithin env) := by
  refine Ensures.bind (requireStack_ensures 3) fun _ => ?_
  refine Ensures.bind_of (stacktop_ensures (by decide) (by decide)) fun vch1 _ => ?_
  refine Ensures.bind_of (scriptNum_ensures env vch1 _) fun bn1 _ => ?_
  refine Ensures.bind_of (stacktop_ensures (by decide) (by decide)) fun vch2 _ => ?_
  refine Ensures.bind_of (scriptNum_ensures env vch2 _) fun bn2 _ => ?_
  refine Ensures.bind_of (stacktop_ensures (by decide) (by decide)) fun vch3 _ => ?_
  refine Ensures.bind_of (scriptNum_ensures env vch3 _) fun bn3 _ => ?_
  refine Ensures.bind popstack_ensures fun _ => ?_
  refine Ensures.bind popstack_ensures fun _ => ?_
  refine Ensures.bind popstack_ensures fun _ => ?_
  exact ensures_zero (pushBack_ensures (length_boolVch_le _))

/-! ### Crypto -/

theorem length_hashVch_le (crypto : Crypto) (opcode : Opcode) (vch : List UInt8) :
    (hashVch crypto opcode vch).length ≤ MAX_SCRIPT_ELEMENT_SIZE := by
  unfold hashVch
  split
  · exact (Vector.length_toList ..).le.trans (by decide)
  · exact (Vector.length_toList ..).le.trans (by decide)
  · exact (Vector.length_toList ..).le.trans (by decide)
  · exact (Vector.length_toList ..).le.trans (by decide)
  · exact (Vector.length_toList ..).le.trans (by decide)
  · rw [List.length_replicate]
    decide

theorem keeps_opHash (env : EvalEnv) (opcode : Opcode) : Keeps (opHash env opcode) := by
  refine Ensures.bind (requireStack_ensures 1) fun _ => ?_
  refine Ensures.bind_of (stacktop_ensures (by decide) (by decide)) fun vch _ => ?_
  refine Ensures.bind popstack_ensures fun _ => ?_
  exact ensures_zero (pushBack_ensures (length_hashVch_le _ _ _))

theorem keeps_opCodeSeparator (pc : CScript) : Keeps (opCodeSeparator pc) :=
  Ensures.modify fun _ hs => { hs with }

theorem checkEncodings_ensures (env : EvalEnv) (vchSig vchPubKey : List UInt8) {m : EvalM α}
    {post : α → Interp → Prop} (h : Ensures Fails (Has k a) m post) :
    Ensures Fails (Has k a)
      (do
        orSetError (checkSignatureEncoding env vchSig)
        orSetError (checkPubKeyEncoding env vchPubKey)
        m) post := by
  refine Ensures.bind (orSetError_ensures (checkSignatureEncoding_ne env vchSig)) fun _ => ?_
  refine Ensures.bind (orSetError_ensures (checkPubKeyEncoding_ne env vchPubKey)) fun _ => ?_
  exact h

theorem keeps_opCheckSig (env : EvalEnv) (opcode : Opcode) : Keeps (opCheckSig env opcode) := by
  refine Ensures.bind (requireStack_ensures 2) fun _ => ?_
  refine Ensures.bind_of (stacktop_ensures (by decide) (by decide)) fun vchSig _ => ?_
  refine Ensures.bind_of (stacktop_ensures (by decide) (by decide)) fun vchPubKey _ => ?_
  refine Ensures.bind scriptCodeStart_ensures fun start => ?_
  refine checkEncodings_ensures env vchSig vchPubKey ?_
  refine Ensures.bind popstack_ensures fun _ => ?_
  refine Ensures.bind popstack_ensures fun _ => ?_
  refine Ensures.bind (pushBack_ensures (length_boolVch_le _)) fun _ => ?_
  exact verifyResult_ensures (by decide)

theorem deleteSigs_ensures {n isig : Nat} (hpos : 0 < isig) (h : isig + n ≤ k + 1)
    (scriptCode : CScript) :
    Ensures Fails (Has k a) (deleteSigs n isig scriptCode) fun _ => Has k a := by
  induction n generalizing isig scriptCode with
  | zero => exact Ensures.pure fun _ => id
  | succ n ih =>
      refine Ensures.bind_of (stacktop_ensures hpos (by omega)) fun vchSig _ => ?_
      exact ih (Nat.succ_pos isig) (by omega) _

/-- A round takes a key, and a signature where it checks, so both indexes stay in what
was counted. -/
theorem checkSigs_ensures (env : EvalEnv) (scriptCode : CScript)
    {nKeysCount nSigsCount isig ikey : Nat} (hsig : 0 < isig) (hkey : 0 < ikey)
    (hsigs : isig + nSigsCount ≤ k + 1) (hkeys : ikey + nKeysCount ≤ k + 1) :
    Ensures Fails (Has k a) (checkSigs env scriptCode nKeysCount nSigsCount isig ikey)
      fun _ => Has k a := by
  induction nKeysCount generalizing nSigsCount isig ikey with
  | zero =>
      cases nSigsCount with
      | zero => exact Ensures.pure fun _ => id
      | succ nSigsCount => exact Ensures.pure fun _ => id
  | succ nKeysCount ih =>
      cases nSigsCount with
      | zero => exact Ensures.pure fun _ => id
      | succ nSigsCount =>
          refine Ensures.bind_of (stacktop_ensures hsig (by omega)) fun vchSig _ => ?_
          refine Ensures.bind_of (stacktop_ensures hkey (by omega)) fun vchPubKey _ => ?_
          refine checkEncodings_ensures env vchSig vchPubKey ?_
          refine Ensures.ite (fun _ => Ensures.pure fun _ => id) fun _ => ?_
          refine ih ?_ (Nat.succ_pos ikey) ?_ (by omega)
          · split
            · exact Nat.succ_pos isig
            · exact hsig
          · split
            · omega
            · exact hsigs

theorem checkDummy_ensures (env : EvalEnv) :
    Ensures Fails (Has 1 a) (checkDummy env) fun _ => Has 1 a := by
  refine Ensures.ite (fun _ => ?_) fun _ => Ensures.pure fun _ => id
  refine Ensures.bind_of (stacktop_ensures (by decide) (by decide)) fun dummy _ => ?_
  exact (setErrorIf_ensures (by decide)).weaken_post fun _ _ => And.right

theorem keeps_opCheckMultiSig (env : EvalEnv) (opcode : Opcode) :
    Keeps (opCheckMultiSig env opcode) := by
  refine Ensures.bind (requireStack_ensures 1) fun _ => ?_
  refine Ensures.bind_of (stacktop_ensures (by decide) (by decide)) fun vchKeys _ => ?_
  refine Ensures.bind_of (scriptNum_ensures env vchKeys _) fun bnKeys _ => ?_
  refine Ensures.bind_of (setErrorIf_ensures (by decide)) fun _ hnKeys => ?_
  refine Ensures.bind (chargeOps_ensures _) fun _ => ?_
  refine Ensures.bind (requireStack_ensures _) fun _ => ?_
  refine Ensures.bind_of (stacktop_ensures (by omega) (Nat.le_refl _)) fun vchSigs _ => ?_
  refine Ensures.bind_of (scriptNum_ensures env vchSigs _) fun bnSigs _ => ?_
  refine Ensures.bind_of (setErrorIf_ensures (by decide)) fun _ hnSigs => ?_
  refine Ensures.bind (requireStack_ensures _) fun _ => ?_
  refine Ensures.bind scriptCodeStart_ensures fun start => ?_
  refine Ensures.bind (deleteSigs_ensures (by omega) (Nat.le_succ _) start)
    fun scriptCode => ?_
  refine Ensures.bind (checkSigs_ensures env scriptCode (by omega) (by omega) (Nat.le_succ _)
    (by omega)) fun fSuccess => ?_
  refine Ensures.bind ((popMany_ensures (k := 1) (a := 0) _).weaken_pre fun _ hs => ?_) fun _ => ?_
  · exact hs.mono (by omega) (Nat.le_refl 0)
  refine Ensures.bind (requireStack_ensures 1) fun _ => ?_
  refine Ensures.bind (checkDummy_ensures env) fun _ => ?_
  refine Ensures.bind popstack_ensures fun _ => ?_
  refine Ensures.bind (pushBack_ensures (length_boolVch_le _)) fun _ => ?_
  exact verifyResult_ensures (by decide)

/-! ## The loop -/

/-- **Every operation** keeps the invariant, with all its accesses in range. -/
theorem keeps_execute (env : EvalEnv) (opcode : Opcode) (fExec : Bool) (pc : CScript) :
    Keeps (execute env opcode fExec pc) := by
  cases opcode with
  | OP_NOP => exact Ensures.pure fun _ => id
  | OP_CHECKLOCKTIMEVERIFY => exact keeps_opCheckLockTimeVerify env
  | OP_NOP1 | OP_NOP3 | OP_NOP4 | OP_NOP5 | OP_NOP6 | OP_NOP7 | OP_NOP8 | OP_NOP9 | OP_NOP10 =>
      exact keeps_opUpgradableNop env
  | OP_IF | OP_NOTIF => exact keeps_opIf _ fExec
  | OP_ELSE => exact keeps_opElse
  | OP_ENDIF => exact keeps_opEndif
  | OP_VERIFY => exact keeps_opVerify
  | OP_RETURN => exact keeps_setError (by decide)
  | OP_TOALTSTACK => exact keeps_opToAltstack
  | OP_FROMALTSTACK => exact keeps_opFromAltstack
  | OP_2DROP => exact keeps_op2Drop
  | OP_2DUP => exact keeps_op2Dup
  | OP_3DUP => exact keeps_op3Dup
  | OP_2OVER => exact keeps_op2Over
  | OP_2ROT => exact keeps_op2Rot
  | OP_2SWAP => exact keeps_op2Swap
  | OP_IFDUP => exact keeps_opIfDup
  | OP_DEPTH => exact keeps_opDepth
  | OP_DROP => exact keeps_opDrop
  | OP_DUP => exact keeps_opDup
  | OP_NIP => exact keeps_opNip
  | OP_OVER => exact keeps_opOver
  | OP_PICK | OP_ROLL => exact keeps_opPick env _
  | OP_ROT => exact keeps_opRot
  | OP_SWAP => exact keeps_opSwap
  | OP_TUCK => exact keeps_opTuck
  | OP_SIZE => exact keeps_opSize
  | OP_EQUAL | OP_EQUALVERIFY => exact keeps_opEqual _
  | OP_1ADD | OP_1SUB | OP_NEGATE | OP_ABS | OP_NOT | OP_0NOTEQUAL =>
      exact keeps_opNumeric1 env (by decide)
  | OP_ADD | OP_SUB | OP_BOOLAND | OP_BOOLOR | OP_NUMEQUAL | OP_NUMEQUALVERIFY
  | OP_NUMNOTEQUAL | OP_LESSTHAN | OP_GREATERTHAN | OP_LESSTHANOREQUAL
  | OP_GREATERTHANOREQUAL | OP_MIN | OP_MAX =>
      exact keeps_opNumeric2 env fun bn1 bn2 => ⟨_, rfl⟩
  | OP_WITHIN => exact keeps_opWithin env
  | OP_RIPEMD160 | OP_SHA1 | OP_SHA256 | OP_HASH160 | OP_HASH256 => exact keeps_opHash env _
  | OP_CODESEPARATOR => exact keeps_opCodeSeparator pc
  | OP_CHECKSIG | OP_CHECKSIGVERIFY => exact keeps_opCheckSig env _
  | OP_CHECKMULTISIG | OP_CHECKMULTISIGVERIFY => exact keeps_opCheckMultiSig env _
  | OP_VER | OP_VERIF | OP_VERNOTIF | OP_RESERVED1 | OP_RESERVED2 | OP_CAT | OP_SUBSTR | OP_LEFT
  | OP_RIGHT | OP_INVERT | OP_AND | OP_OR | OP_XOR | OP_2MUL | OP_2DIV | OP_MUL | OP_DIV
  | OP_MOD | OP_LSHIFT | OP_RSHIFT =>
      exact keeps_setError (by decide)

theorem keeps_perform (env : EvalEnv) (opcode : UInt8) {vchPushValue : List UInt8}
    (fExec : Bool) (pc : CScript) (h : vchPushValue.length ≤ MAX_SCRIPT_ELEMENT_SIZE) :
    Keeps (perform env opcode vchPushValue fExec pc) := by
  refine Ensures.ite (fun _ => ?_) fun _ => Ensures.ite (fun _ => ?_) fun _ => ?_
  · refine Ensures.bind_of (setErrorIf_ensures (by decide)) fun _ _ => ?_
    exact keeps_pushBack h
  · refine Ensures.ite (fun _ => keeps_pushBack (length_getvch_le_max _)) fun _ => ?_
    cases Opcode.ofByte opcode with
    | some op => exact keeps_execute env op fExec pc
    | none => exact keeps_setError (by decide)
  · exact Ensures.pure fun _ => id

/-- The invariant between two rounds. -/
structure Safe (s : Interp) : Prop extends Has 0 0 s where
  stackSize : s.stack.length + s.altstack.length ≤ 1000

theorem checkStackSize_ensures :
    Ensures Fails (Has 0 0) checkStackSize fun _ => Safe := by
  refine Ensures.get_bind fun s hs => ?_
  refine Ensures.ite (fun _ => ?_) fun hsize => Ensures.pure fun s' heq => ?_
  · exact (setError_ensures (by decide)).weaken_pre fun s' heq => heq ▸ hs
  · rw [decide_eq_true_iff, gt_iff_lt, Nat.not_lt] at hsize
    rw [heq]
    exact ⟨hs, hsize⟩

/-- **Every round** keeps the invariant, and takes the operation off the script. -/
theorem step_ensures (env : EvalEnv) (pc : CScript) :
    Ensures Fails (Has 0 0) (step env pc) fun pc' s => pc'.length < pc.length ∧ Safe s := by
  refine Ensures.bind (Ensures.read.weaken_post fun _ _ => And.right) fun fExec => ?_
  cases hop : getOp2 pc with
  | none => exact setError_ensures (by decide)
  | some op =>
      obtain ⟨opcode, vchPushValue, pc'⟩ := op
      refine Ensures.bind_of (setErrorIf_ensures (by decide)) fun _ hpush => ?_
      rw [decide_eq_false_iff_not, gt_iff_lt, Nat.not_lt] at hpush
      have hrest : Ensures Fails (Has 0 0)
          (do
            setErrorIf (isDisabled opcode) SCRIPT_ERR_DISABLED_OPCODE
            perform env opcode vchPushValue fExec pc'
            checkStackSize
            pure pc')
          fun pc'' s => pc''.length < pc.length ∧ Safe s := by
        refine Ensures.bind_of (setErrorIf_ensures (by decide)) fun _ _ => ?_
        refine Ensures.bind (keeps_perform env opcode fExec pc' hpush) fun _ => ?_
        refine Ensures.bind checkStackSize_ensures fun _ => ?_
        exact Ensures.pure fun s hs => ⟨length_getOp2_lt hop, hs⟩
      refine Ensures.ite (fun _ => ?_) fun _ => hrest
      exact Ensures.bind (chargeOps_ensures 1) fun _ => hrest

theorem keeps_step (env : EvalEnv) (pc : CScript) :
    Ensures Fails Safe (step env pc) fun _ => Safe :=
  (step_ensures env pc).conseq (fun _ hs => hs.toHas) fun _ _ => And.right

theorem safe_start {stack : List (List UInt8)} (hlength : stack.length ≤ 1000)
    (hstack : Bounded stack) (script : CScript) : Safe (Interp.start stack script) where
  stack := hstack
  altstack := List.forall_mem_nil _
  pushed := List.forall_mem_nil _
  nOpCount := Nat.zero_le 201
  depth := Nat.zero_le _
  altDepth := Nat.zero_le _
  stackSize := hlength

/-- The loop ends where the script does, or with a round that stops. -/
theorem outcome_evalLoop (env : EvalEnv) (script : CScript) {s : Interp} (hs : Safe s) :
    Outcome
      (fun stop s' => ∃ c, StepsTo (step env) (script, s) c ∧
        (step env c.1).run c.2 = .error stop s')
      (fun pc s' => StepsTo (step env) (script, s) (pc, s') ∧ pc.isEmpty)
      ((runUntil List.isEmpty (step env) script.length script).run s) := by
  have hdone : ∀ pc : CScript, pc.length = 0 → pc.isEmpty := fun pc hpc =>
    List.isEmpty_iff.mpr (List.length_eq_zero_iff.mp hpc)
  have hstep : ∀ pc, Ensures Fails Safe (step env pc) fun pc' s =>
      pc'.length < pc.length ∧ Safe s :=
    fun pc => (step_ensures env pc).weaken_pre fun _ hs => hs.toHas
  exact outcome_runUntil hdone hstep (Nat.le_refl script.length) hs

/-- **Safety of `EvalScript`**: after every round the stacks are short and their elements
small, no more than 201 operations were counted, and the next round is in range and
asserts nothing that fails.  A call that returns true has closed its conditionals, and an
unknown error is a number that does not parse. -/
theorem evalScript_safe (env : EvalEnv) (script : CScript) {stack : List (List UInt8)}
    (hlength : stack.length ≤ 1000) (hstack : Bounded stack) :
    (∀ c, StepsTo (step env) (script, Interp.start stack script) c →
      Safe c.2 ∧ Outcome Fails (fun _ => Safe) ((step env c.1).run c.2)) ∧
    (evalScript env stack script).1 ≠ .aborted ∧
    (∀ serror, (evalScript env stack script).1 = .returned true serror →
      ∃ s, StepsTo (step env) (script, Interp.start stack script) ([], s) ∧ s.vfExec = []) ∧
    (∀ fSuccess, (evalScript env stack script).1 = .returned fSuccess SCRIPT_ERR_UNKNOWN_ERROR →
      ∃ c s', StepsTo (step env) (script, Interp.start stack script) c ∧
        (step env c.1).run c.2 = .error (.exception .scriptnumError) s') := by
  have hsafe := safe_start hlength hstack script
  have hround : ∀ c, StepsTo (step env) (script, Interp.start stack script) c →
      Safe c.2 ∧ Outcome Fails (fun _ => Safe) ((step env c.1).run c.2) := by
    intro c hsteps
    have hs := hsteps.invariant (keeps_step env) hsafe
    exact ⟨hs, ensures_iff.mp (keeps_step env c.1) c.2 hs⟩
  refine ⟨hround, ?_⟩
  unfold evalScript
  split
  · exact ⟨nofun, by simp, by simp⟩
  · have hloop := outcome_evalLoop env script hsafe
    generalize (runUntil List.isEmpty (step env) script.length script).run
      (Interp.start stack script) = result at hloop
    cases result with
    | ok pc s =>
        obtain ⟨hsteps, hpc⟩ := hloop
        obtain rfl := List.isEmpty_iff.mp hpc
        dsimp only
        split
        · exact ⟨nofun, by simp, by simp⟩
        · next hclosed =>
            have hvfExec : s.vfExec = [] := by simpa using hclosed
            exact ⟨nofun, fun _ _ => ⟨s, hsteps, hvfExec⟩, by simp⟩
    | error stop s =>
        obtain ⟨c, hsteps, hstop⟩ := hloop
        have hsound := (hround c hsteps).2
        rw [hstop] at hsound
        cases stop with
        | error serror =>
            refine ⟨by simp, by simp, fun fSuccess h => ?_⟩
            simp only [EvalResult.returned.injEq] at h
            exact absurd h.2 hsound.sound
        | exception e =>
            obtain rfl : e = .scriptnumError := hsound.sound
            exact ⟨by simp, by simp, fun _ _ => ⟨c, s, hsteps, hstop⟩⟩
        | assertion => exact hsound.sound.elim

/-- A script that doubles the one element and puts the copies in order. -/
theorem evalScript_safe_dup :
    let env : EvalEnv := ⟨0, ⟨fun _ _ _ => false, fun _ => false⟩,
      ⟨fun _ => .replicate 20 0, fun _ => .replicate 20 0, fun _ => .replicate 32 0,
        fun _ => true⟩⟩
    (evalScript env [[1]] [0x76, 0x7c]).1 ≠ .aborted ∧
      ∃ s, StepsTo (step env) ([0x76, 0x7c], Interp.start [[1]] [0x76, 0x7c]) ([], s) ∧
        s.vfExec = [] := by
  intro env
  have hbounded : Bounded [[1]] := by
    unfold Bounded
    decide
  have hsafe := evalScript_safe env [0x76, 0x7c] (by decide : [[1]].length ≤ 1000) hbounded
  exact ⟨hsafe.2.1, hsafe.2.2.1 .SCRIPT_ERR_OK (by decide)⟩

end Agrarian.Script
