import Agrarian.Lib.Matching
import Agrarian.Script.Interpreter

/-!
# Signatures of several keys

`OP_CHECKMULTISIG` goes through the signatures and the keys from the top of the stack
and takes for a signature the first key that it checks under, so it succeeds
exactly where the signatures can be matched with the keys in order.
-/

namespace Agrarian.Script

open Agrarian.Lib Opcode

variable {s : Interp}

/-! ## Runs -/

theorem setErrorIf_run {c : Bool} {serror : ScriptError} (h : c = false) :
    (setErrorIf c serror).run s = .ok () s := by
  rw [h]
  rfl

theorem requireStack_run {n : Nat} (h : n ≤ s.stack.length) :
    (requireStack n).run s = .ok () s :=
  setErrorIf_run (s := s) (decide_eq_false (Nat.not_lt.mpr h))

theorem stacktop_run {i : Nat} {vch : List UInt8} {tail : List (List UInt8)}
    (h : s.stack.drop i = vch :: tail) : (stacktop (i + 1)).run s = .ok vch s := by
  have hget : s.stack[i]? = some vch := by
    rw [← Nat.add_zero i, ← List.getElem?_drop, h]
    rfl
  have hread : (get : EvalM Interp).run s = .ok s s := rfl
  rw [stacktop, run_bind_of_ok hread, if_neg (Nat.succ_ne_zero i), Nat.add_sub_cancel, hget]
  rfl

theorem scriptNum_run {env : EvalEnv} {vch : List UInt8} {nMaxNumSize : Nat} {bn : CScriptNum}
    (h : CScriptNum.ofVch vch env.fRequireMinimal nMaxNumSize = some bn) :
    (scriptNum env vch nMaxNumSize).run s = .ok bn s := by
  rw [scriptNum, h]
  rfl

theorem orSetError_run {checked : Except ScriptError Unit} (h : checked = .ok ()) :
    (orSetError checked).run s = .ok () s := by
  rw [h]
  rfl

theorem chargeOps_run {n : Nat} (h : s.nOpCount + n ≤ 201) :
    (chargeOps n).run s = .ok () { s with nOpCount := s.nOpCount + n } :=
  setErrorIf_run (s := { s with nOpCount := s.nOpCount + n })
    (decide_eq_false (Nat.not_lt.mpr h))

theorem popstack_run {vch : List UInt8} {tail : List (List UInt8)} (h : s.stack = vch :: tail) :
    popstack.run s = .ok () { s with stack := tail } := by
  have hread : (get : EvalM Interp).run s = .ok s s := rfl
  rw [popstack, run_bind_of_ok hread, h]
  rfl

theorem popMany_run {n : Nat} (h : n ≤ s.stack.length) :
    (popMany n).run s = .ok () { s with stack := s.stack.drop n } := by
  induction n generalizing s with
  | zero => rfl
  | succ n ih =>
      obtain ⟨vch, tail, hstack⟩ := List.exists_cons_of_length_pos (Nat.lt_of_lt_of_le n.succ_pos h)
      rw [popMany, run_bind_of_ok (popstack_run hstack), ih, hstack]
      · rfl
      · rw [hstack] at h
        exact Nat.le_of_succ_le_succ h

/-! ## The loops -/

/-- The script without the signatures. -/
def cleanedCode (sigs : List (List UInt8)) (scriptCode : CScript) : CScript :=
  sigs.foldl (fun code vchSig => findAndDelete code (pushVector vchSig)) scriptCode

theorem deleteSigs_run {sigs tail : List (List UInt8)} {isig : Nat}
    (h : s.stack.drop isig = sigs ++ tail) (scriptCode : CScript) :
    (deleteSigs sigs.length (isig + 1) scriptCode).run s =
      .ok (cleanedCode sigs scriptCode) s := by
  induction sigs generalizing isig scriptCode with
  | nil => rfl
  | cons vchSig sigs ih =>
      have hnext : s.stack.drop (isig + 1) = sigs ++ tail := by
        rw [← List.drop_drop, h]
        rfl
      rw [List.length_cons, deleteSigs, run_bind_of_ok (stacktop_run h), ih hnext]
      rfl

/-- **The loop is the greedy search** for keys under which the signatures check. -/
theorem checkSigs_run {env : EvalEnv} {scriptCode : CScript}
    {sigs keys sigsTail keysTail : List (List UInt8)} {isig ikey : Nat}
    (hsigs : s.stack.drop isig = sigs ++ sigsTail)
    (hkeys : s.stack.drop ikey = keys ++ keysTail)
    (hsigEncoding : ∀ vchSig ∈ sigs, checkSignatureEncoding env vchSig = .ok ())
    (hkeyEncoding : ∀ vchPubKey ∈ keys, checkPubKeyEncoding env vchPubKey = .ok ()) :
    (checkSigs env scriptCode keys.length sigs.length (isig + 1) (ikey + 1)).run s =
      .ok (greedyMatch (fun vchSig vchPubKey => env.checker.checkSig vchSig vchPubKey scriptCode)
        sigs keys) s := by
  induction keys generalizing sigs isig ikey with
  | nil =>
      cases sigs with
      | nil => rfl
      | cons vchSig sigs => rfl
  | cons vchPubKey keys ih =>
      cases sigs with
      | nil => rfl
      | cons vchSig sigs =>
          have hsigsNext : s.stack.drop (isig + 1) = sigs ++ sigsTail := by
            rw [← List.drop_drop, hsigs]
            rfl
          have hkeysNext : s.stack.drop (ikey + 1) = keys ++ keysTail := by
            rw [← List.drop_drop, hkeys]
            rfl
          -- the signatures that are left, with or without the first one
          have hrest : ∀ (rest : List (List UInt8)) (i : Nat),
              s.stack.drop i = rest ++ sigsTail →
              (∀ sig ∈ rest, checkSignatureEncoding env sig = .ok ()) →
              (if rest.length > keys.length then pure false
                else checkSigs env scriptCode keys.length rest.length (i + 1) (ikey + 1 + 1) :
                  EvalM Bool).run s =
                .ok (if rest.length > keys.length then false
                  else greedyMatch (fun vchSig vchPubKey =>
                    env.checker.checkSig vchSig vchPubKey scriptCode) rest keys) s := by
            intro rest i hdrop hencoding
            split
            · rfl
            · exact ih hdrop hkeysNext hencoding fun key hkey =>
                hkeyEncoding key (List.mem_cons_of_mem vchPubKey hkey)
          rw [List.length_cons, List.length_cons, checkSigs,
            run_bind_of_ok (stacktop_run hsigs), run_bind_of_ok (stacktop_run hkeys),
            run_bind_of_ok (orSetError_run (hsigEncoding vchSig List.mem_cons_self)),
            run_bind_of_ok (orSetError_run (hkeyEncoding vchPubKey List.mem_cons_self)),
            greedyMatch]
          cases env.checker.checkSig vchSig vchPubKey scriptCode with
          | true =>
              exact hrest sigs (isig + 1) hsigsNext fun sig hsig =>
                hsigEncoding sig (List.mem_cons_of_mem vchSig hsig)
          | false => exact hrest (vchSig :: sigs) isig hsigs hsigEncoding

theorem checkDummy_run {env : EvalEnv} {rest : List (List UInt8)} (h : s.stack = [] :: rest) :
    (checkDummy env).run s = .ok () s := by
  have hfirst : s.stack.drop 0 = [] :: rest := h
  unfold checkDummy
  split
  · rw [run_bind_of_ok (stacktop_run hfirst)]
    rfl
  · rfl

/-! ## The operation -/

/-- The element is read as this number. -/
def HoldsNumber (env : EvalEnv) (vch : List UInt8) (n : Int) : Prop :=
  ∃ bn, CScriptNum.ofVch vch env.fRequireMinimal CScriptNum.nDefaultMaxNumSize = some bn ∧
    getint bn.m_value = n

/-- What the operation finds: the number of the keys, the keys, the number of the
signatures, the signatures and an empty element, with every check on them passed. -/
structure FindsMultiSig (env : EvalEnv) (s : Interp) (keys sigs : List (List UInt8)) : Prop where
  stack : ∃ vchKeys vchSigs rest,
    s.stack = vchKeys :: (keys ++ vchSigs :: (sigs ++ [] :: rest)) ∧
      HoldsNumber env vchKeys keys.length ∧ HoldsNumber env vchSigs sigs.length
  keys_le : keys.length ≤ 20
  sigs_le : sigs.length ≤ keys.length
  nOpCount : s.nOpCount + keys.length ≤ 201
  sigEncoding : ∀ vchSig ∈ sigs, checkSignatureEncoding env vchSig = .ok ()
  keyEncoding : ∀ vchPubKey ∈ keys, checkPubKeyEncoding env vchPubKey = .ok ()

/-- The state after the operation. -/
def Interp.afterMultiSig (s : Interp) (keys sigs : List (List UInt8)) (fSuccess : Bool) : Interp :=
  { s with
    stack := boolVch fSuccess :: s.stack.drop (keys.length + sigs.length + 3)
    nOpCount := s.nOpCount + keys.length
    pushed := boolVch fSuccess :: s.pushed }

theorem opCheckMultiSig_run {env : EvalEnv} {keys sigs : List (List UInt8)}
    (h : FindsMultiSig env s keys sigs) :
    (opCheckMultiSig env OP_CHECKMULTISIG).run s =
      .ok () (s.afterMultiSig keys sigs (greedyMatch (fun vchSig vchPubKey =>
        env.checker.checkSig vchSig vchPubKey (cleanedCode sigs s.pbegincodehash)) sigs keys)) := by
  obtain ⟨vchKeys, vchSigs, rest, hstack, ⟨bnKeys, hbnKeys, hnKeys⟩, ⟨bnSigs, hbnSigs, hnSigs⟩⟩ :=
    h.stack
  have hkeys_le := h.keys_le
  have hsigs_le := h.sigs_le
  have hlength : s.stack.length = keys.length + sigs.length + 3 + rest.length := by
    rw [hstack]
    simp only [List.length_cons, List.length_append]
    omega
  have hfirst : s.stack.drop 0 = vchKeys :: (keys ++ vchSigs :: (sigs ++ [] :: rest)) := hstack
  have hdropSigs : s.stack.drop (1 + keys.length) = vchSigs :: (sigs ++ [] :: rest) := by
    rw [hstack, Nat.add_comm, List.drop_succ_cons, List.drop_left]
  have hdropFirst : s.stack.drop (1 + keys.length + 1) = sigs ++ [] :: rest := by
    rw [← List.drop_drop, hdropSigs]
    rfl
  have hdropRest : s.stack.drop (keys.length + sigs.length + 2) = [] :: rest := by
    have hsplit : keys.length + sigs.length + 2 = 1 + keys.length + 1 + sigs.length := by omega
    rw [hsplit, ← List.drop_drop, hdropFirst, List.drop_left]
  have hkeysRange : (decide ((keys.length : Int) < 0) || decide ((keys.length : Int) > 20)) =
      false := by
    rw [Bool.or_eq_false_iff, decide_eq_false_iff_not, decide_eq_false_iff_not]
    omega
  have hsigsRange : (decide ((sigs.length : Int) < 0) ||
      decide ((sigs.length : Int) > (keys.length : Nat))) = false := by
    rw [Bool.or_eq_false_iff, decide_eq_false_iff_not, decide_eq_false_iff_not]
    omega
  have hikey : 2 + keys.length = 1 + keys.length + 1 := by omega
  have hpop : 1 + keys.length + 1 + 1 + sigs.length - 1 = keys.length + sigs.length + 2 := by omega
  rw [opCheckMultiSig, run_bind_of_ok (requireStack_run (by omega)),
    run_bind_of_ok (stacktop_run hfirst), run_bind_of_ok (scriptNum_run hbnKeys)]
  dsimp only
  rw [hnKeys, run_bind_of_ok (setErrorIf_run hkeysRange), Int.toNat_natCast,
    run_bind_of_ok (chargeOps_run h.nOpCount)]
  -- only the count has changed
  generalize hs1 : { s with nOpCount := s.nOpCount + keys.length } = s1
  have hs1stack : s1.stack = s.stack := by rw [← hs1]
  have hs1code : s1.pbegincodehash = s.pbegincodehash := by rw [← hs1]
  have hkeysDrop : s1.stack.drop 1 = keys ++ vchSigs :: (sigs ++ [] :: rest) := by
    rw [hs1stack, hstack]
    rfl
  rw [← hs1stack] at hdropSigs hdropFirst hdropRest hlength
  have hstart : scriptCodeStart.run s1 = .ok s.pbegincodehash s1 := by
    rw [← hs1code]
    rfl
  rw [hikey, run_bind_of_ok (requireStack_run (by omega)),
    run_bind_of_ok (stacktop_run hdropSigs), run_bind_of_ok (scriptNum_run hbnSigs), hnSigs,
    run_bind_of_ok (setErrorIf_run hsigsRange), Int.toNat_natCast,
    run_bind_of_ok (requireStack_run (by omega)), run_bind_of_ok hstart,
    run_bind_of_ok (deleteSigs_run hdropFirst _),
    run_bind_of_ok (checkSigs_run hdropFirst hkeysDrop h.sigEncoding h.keyEncoding), hpop,
    run_bind_of_ok (popMany_run (by omega)), hdropRest,
    run_bind_of_ok (requireStack_run (Nat.succ_le_succ (Nat.zero_le rest.length))),
    run_bind_of_ok (checkDummy_run rfl), run_bind_of_ok (popstack_run rfl)]
  have hrest : s.stack.drop (keys.length + sigs.length + 3) = rest := by
    rw [← hs1stack, ← List.drop_drop (i := 1) (j := keys.length + sigs.length + 2), hdropRest]
    rfl
  rw [Interp.afterMultiSig, hrest, ← hs1]
  rfl

/-- **Signatures of several keys.**  The operation pushes true exactly where each signature can
be given a key under which it checks, in order, and takes off its arguments and one more. -/
theorem checkMultiSig_iff {env : EvalEnv} {keys sigs : List (List UInt8)}
    (h : FindsMultiSig env s keys sigs) (fExec : Bool) (pc : CScript) :
    ∃ fSuccess, (execute env OP_CHECKMULTISIG fExec pc).run s =
        .ok () (s.afterMultiSig keys sigs fSuccess) ∧
      (fSuccess = true ↔ ∃ f : Fin sigs.length → Fin keys.length, StrictMono f ∧
        ∀ i, env.checker.checkSig (sigs.get i) (keys.get (f i))
          (cleanedCode sigs s.pbegincodehash) = true) := by
  refine ⟨_, opCheckMultiSig_run h, ?_⟩
  rw [greedyMatch_iff]
  exact sublistForall₂_iff_exists_strictMono

/-- One signature and two keys, of which the lower one is its own. -/
theorem checkMultiSig_iff_one_of_two :
    let env : EvalEnv := ⟨0, ⟨fun vchSig vchPubKey _ => vchSig == vchPubKey, fun _ => false⟩,
      ⟨fun _ => .replicate 20 0, fun _ => .replicate 20 0, fun _ => .replicate 32 0,
        fun _ => true⟩⟩
    let s := Interp.start [[2], [10], [11], [1], [11], [], [7]] []
    ∃ fSuccess, (execute env OP_CHECKMULTISIG true []).run s =
        .ok () (s.afterMultiSig [[10], [11]] [[11]] fSuccess) ∧
      (fSuccess = true ↔ ∃ f : Fin 1 → Fin 2, StrictMono f ∧
        ∀ i, env.checker.checkSig ([[11]].get i) ([[10], [11]].get (f i))
          (cleanedCode [[11]] s.pbegincodehash) = true) := by
  intro env s
  have hminimal : env.fRequireMinimal = false := by decide
  refine checkMultiSig_iff ?_ true []
  exact {
    stack := by
      refine ⟨[2], [1], [[7]], rfl, ⟨.ofInt 2, ?_, rfl⟩, ⟨.ofInt 1, ?_, rfl⟩⟩
      · rw [hminimal]
        rfl
      · rw [hminimal]
        rfl
    keys_le := by decide
    sigs_le := by decide
    nOpCount := by decide
    sigEncoding := by decide
    keyEncoding := by decide }

end Agrarian.Script
