import Agrarian.Lib.Ensures
import Agrarian.Script.Encodings

/-!
# The script interpreter

`EvalScript` of `script/interpreter.cpp`: a stack machine that takes one operation after
the other off a script.  A stack is a list from the top down, so `stacktop(-i)` is the
element at `i - 1`; an access outside of it throws, as `at` does, and so does an
iterator that is not in the vector.

An operation that fails leaves the state as far as it had come, which is what the
caller finds in its stack.
-/

namespace Agrarian.Script

open Agrarian.Lib ScriptError

/-! ## Opcodes -/

/-- The opcodes of `script.h` from `OP_NOP` on, up to the expansions. -/
inductive Opcode
  -- control
  | OP_NOP | OP_VER | OP_IF | OP_NOTIF | OP_VERIF | OP_VERNOTIF | OP_ELSE | OP_ENDIF
  | OP_VERIFY | OP_RETURN
  -- stack ops
  | OP_TOALTSTACK | OP_FROMALTSTACK | OP_2DROP | OP_2DUP | OP_3DUP | OP_2OVER | OP_2ROT
  | OP_2SWAP | OP_IFDUP | OP_DEPTH | OP_DROP | OP_DUP | OP_NIP | OP_OVER | OP_PICK
  | OP_ROLL | OP_ROT | OP_SWAP | OP_TUCK
  -- splice ops
  | OP_CAT | OP_SUBSTR | OP_LEFT | OP_RIGHT | OP_SIZE
  -- bit logic
  | OP_INVERT | OP_AND | OP_OR | OP_XOR | OP_EQUAL | OP_EQUALVERIFY | OP_RESERVED1
  | OP_RESERVED2
  -- numeric
  | OP_1ADD | OP_1SUB | OP_2MUL | OP_2DIV | OP_NEGATE | OP_ABS | OP_NOT | OP_0NOTEQUAL
  | OP_ADD | OP_SUB | OP_MUL | OP_DIV | OP_MOD | OP_LSHIFT | OP_RSHIFT | OP_BOOLAND
  | OP_BOOLOR | OP_NUMEQUAL | OP_NUMEQUALVERIFY | OP_NUMNOTEQUAL | OP_LESSTHAN
  | OP_GREATERTHAN | OP_LESSTHANOREQUAL | OP_GREATERTHANOREQUAL | OP_MIN | OP_MAX
  | OP_WITHIN
  -- crypto
  | OP_RIPEMD160 | OP_SHA1 | OP_SHA256 | OP_HASH160 | OP_HASH256 | OP_CODESEPARATOR
  | OP_CHECKSIG | OP_CHECKSIGVERIFY | OP_CHECKMULTISIG | OP_CHECKMULTISIGVERIFY
  -- expansion
  | OP_NOP1 | OP_CHECKLOCKTIMEVERIFY | OP_NOP3 | OP_NOP4 | OP_NOP5 | OP_NOP6 | OP_NOP7
  | OP_NOP8 | OP_NOP9 | OP_NOP10
  deriving DecidableEq, Repr

open Opcode

def opcodes : List (UInt8 × Opcode) :=
  [(0x61, OP_NOP), (0x62, OP_VER), (0x63, OP_IF), (0x64, OP_NOTIF), (0x65, OP_VERIF),
    (0x66, OP_VERNOTIF), (0x67, OP_ELSE), (0x68, OP_ENDIF), (0x69, OP_VERIFY),
    (0x6a, OP_RETURN), (0x6b, OP_TOALTSTACK), (0x6c, OP_FROMALTSTACK), (0x6d, OP_2DROP),
    (0x6e, OP_2DUP), (0x6f, OP_3DUP), (0x70, OP_2OVER), (0x71, OP_2ROT),
    (0x72, OP_2SWAP), (0x73, OP_IFDUP), (0x74, OP_DEPTH), (0x75, OP_DROP),
    (0x76, OP_DUP), (0x77, OP_NIP), (0x78, OP_OVER), (0x79, OP_PICK), (0x7a, OP_ROLL),
    (0x7b, OP_ROT), (0x7c, OP_SWAP), (0x7d, OP_TUCK), (0x7e, OP_CAT),
    (0x7f, OP_SUBSTR), (0x80, OP_LEFT), (0x81, OP_RIGHT), (0x82, OP_SIZE),
    (0x83, OP_INVERT), (0x84, OP_AND), (0x85, OP_OR), (0x86, OP_XOR), (0x87, OP_EQUAL),
    (0x88, OP_EQUALVERIFY), (0x89, OP_RESERVED1), (0x8a, OP_RESERVED2), (0x8b, OP_1ADD),
    (0x8c, OP_1SUB), (0x8d, OP_2MUL), (0x8e, OP_2DIV), (0x8f, OP_NEGATE), (0x90, OP_ABS),
    (0x91, OP_NOT), (0x92, OP_0NOTEQUAL), (0x93, OP_ADD), (0x94, OP_SUB), (0x95, OP_MUL),
    (0x96, OP_DIV), (0x97, OP_MOD), (0x98, OP_LSHIFT), (0x99, OP_RSHIFT),
    (0x9a, OP_BOOLAND), (0x9b, OP_BOOLOR), (0x9c, OP_NUMEQUAL),
    (0x9d, OP_NUMEQUALVERIFY), (0x9e, OP_NUMNOTEQUAL), (0x9f, OP_LESSTHAN),
    (0xa0, OP_GREATERTHAN), (0xa1, OP_LESSTHANOREQUAL), (0xa2, OP_GREATERTHANOREQUAL),
    (0xa3, OP_MIN), (0xa4, OP_MAX), (0xa5, OP_WITHIN), (0xa6, OP_RIPEMD160),
    (0xa7, OP_SHA1), (0xa8, OP_SHA256), (0xa9, OP_HASH160), (0xaa, OP_HASH256),
    (0xab, OP_CODESEPARATOR), (0xac, OP_CHECKSIG), (0xad, OP_CHECKSIGVERIFY),
    (0xae, OP_CHECKMULTISIG), (0xaf, OP_CHECKMULTISIGVERIFY), (0xb0, OP_NOP1),
    (0xb1, OP_CHECKLOCKTIMEVERIFY), (0xb2, OP_NOP3), (0xb3, OP_NOP4), (0xb4, OP_NOP5),
    (0xb5, OP_NOP6), (0xb6, OP_NOP7), (0xb7, OP_NOP8), (0xb8, OP_NOP9), (0xb9, OP_NOP10)]

def Opcode.ofByte (opcode : UInt8) : Option Opcode := opcodes.lookup opcode

def disabledOpcodes : List Opcode :=
  [OP_CAT, OP_SUBSTR, OP_LEFT, OP_RIGHT, OP_INVERT, OP_AND, OP_OR, OP_XOR, OP_2MUL, OP_2DIV,
    OP_MUL, OP_DIV, OP_MOD, OP_LSHIFT, OP_RSHIFT]

/-! ## State -/

/-- The variables of `EvalScript` besides the position in the script. -/
structure Interp where
  stack : List (List UInt8)
  altstack : List (List UInt8) := []
  /-- The conditionals that are open, the innermost first. -/
  vfExec : List Bool := []
  pbegincodehash : CScript
  nOpCount : Nat := 0
  /-- A record of every element that was pushed, which nothing reads. -/
  pushed : List (List UInt8) := []

/-- What `catch (...)` catches. -/
inductive Exception
  /-- `std::out_of_range`, or an iterator that is not in the vector. -/
  | outOfRange
  /-- `popstack() : stack empty`. -/
  | stackEmpty
  | scriptnumError
  deriving DecidableEq, Repr

/-- How an operation leaves the loop. -/
inductive Stop
  /-- `return set_error(serror, …)`. -/
  | error (serror : ScriptError)
  | exception (e : Exception)
  /-- A failed `assert` ends the program. -/
  | assertion
  deriving DecidableEq, Repr

abbrev EvalM := EStateM Stop Interp

def setError {α : Type} (serror : ScriptError) : EvalM α := throw (.error serror)

/-- `if (c) return set_error(serror, …)`. -/
def setErrorIf (c : Bool) (serror : ScriptError) : EvalM Unit :=
  if c then setError serror else pure ()

/-- A check that sets its error itself. -/
def orSetError (checked : Except ScriptError Unit) : EvalM Unit :=
  match checked with
  | .ok () => pure ()
  | .error serror => setError serror

/-- `CScriptNum(vch, fRequireMinimal, nMaxNumSize)`. -/
def scriptNum (env : EvalEnv) (vch : List UInt8) (nMaxNumSize : Nat) : EvalM CScriptNum :=
  match CScriptNum.ofVch vch env.fRequireMinimal nMaxNumSize with
  | some bn => pure bn
  | none => throw (.exception .scriptnumError)

def assertSome (bn : Option CScriptNum) : EvalM CScriptNum :=
  match bn with
  | some bn => pure bn
  | none => throw .assertion

/-! ## Stacks -/

/-- `stack.size()`. -/
def stackSize : EvalM Nat := (fun s => s.stack.length) <$> get

/-- `if (stack.size() < n) return set_error(serror, …)`. -/
def requireStackOr (n : Nat) (serror : ScriptError) : EvalM Unit := do
  let size ← stackSize
  setErrorIf (size < n) serror

def requireStack (n : Nat) : EvalM Unit := requireStackOr n SCRIPT_ERR_INVALID_STACK_OPERATION

/-- `stacktop(-i)`. -/
def stacktop (i : Nat) : EvalM (List UInt8) := do
  let s ← get
  if i = 0 then throw (.exception .outOfRange)
  else
    match s.stack[i - 1]? with
    | some vch => pure vch
    | none => throw (.exception .outOfRange)

def popstack : EvalM Unit := do
  let s ← get
  match s.stack with
  | [] => throw (.exception .stackEmpty)
  | _ :: stack => set { s with stack := stack }

/-- `popstack`, so many times. -/
def popMany : Nat → EvalM Unit
  | 0 => pure ()
  | n + 1 => do
      popstack
      popMany n

/-- `stack.push_back(vch)`. -/
def pushBack (vch : List UInt8) : EvalM Unit :=
  modify fun s => { s with stack := vch :: s.stack, pushed := vch :: s.pushed }

/-- `fValue ? vchTrue : vchFalse`. -/
def boolVch (fValue : Bool) : List UInt8 := if fValue then [1] else []

/-- `swap(stacktop(-i), stacktop(-j))`. -/
def swapTop (i j : Nat) : EvalM Unit := do
  let vchI ← stacktop i
  let vchJ ← stacktop j
  modify fun s => { s with stack := (s.stack.set (i - 1) vchJ).set (j - 1) vchI }

/-- `stack.erase(stack.end() - i)`. -/
def eraseTop (i : Nat) : EvalM Unit := do
  let s ← get
  if i = 0 ∨ s.stack.length < i then throw (.exception .outOfRange)
  else set { s with stack := s.stack.eraseIdx (i - 1) }

/-- `stack.insert(stack.end() - i, vch)`. -/
def insertTop (i : Nat) (vch : List UInt8) : EvalM Unit := do
  let s ← get
  if s.stack.length < i then throw (.exception .outOfRange)
  else set { s with stack := s.stack.insertIdx i vch, pushed := vch :: s.pushed }

/-- `altstack.push_back(vch)`. -/
def pushAltstack (vch : List UInt8) : EvalM Unit :=
  modify fun s => { s with altstack := vch :: s.altstack, pushed := vch :: s.pushed }

/-- `altstack.size()`. -/
def altstackSize : EvalM Nat := (fun s => s.altstack.length) <$> get

/-- `altstacktop(-1)`. -/
def altstacktop : EvalM (List UInt8) := do
  let s ← get
  match s.altstack with
  | [] => throw (.exception .outOfRange)
  | vch :: _ => pure vch

/-- `popstack(altstack)`. -/
def popAltstack : EvalM Unit := do
  let s ← get
  match s.altstack with
  | [] => throw (.exception .stackEmpty)
  | _ :: altstack => set { s with altstack := altstack }

/-- The operations that end a `VERIFY` opcode take the result off the stack again. -/
def verifyResult (isVerify fValue : Bool) (serror : ScriptError) : EvalM Unit :=
  if isVerify then
    if fValue then popstack else setError serror
  else pure ()

/-- `nOpCount += n`, with the check that follows. -/
def chargeOps (n : Nat) : EvalM Unit := do
  modify fun s => { s with nOpCount := s.nOpCount + n }
  let s ← get
  setErrorIf (s.nOpCount > 201) SCRIPT_ERR_OP_COUNT

/-! ## Control -/

def opCheckLockTimeVerify (env : EvalEnv) : EvalM Unit :=
  if !env.has SCRIPT_VERIFY_CHECKLOCKTIMEVERIFY then
    -- not enabled, and treated as `OP_NOP2`
    setErrorIf (env.has SCRIPT_VERIFY_DISCOURAGE_UPGRADABLE_NOPS)
      SCRIPT_ERR_DISCOURAGE_UPGRADABLE_NOPS
  else do
    requireStack 1
    let vch ← stacktop 1
    let nLockTime ← scriptNum env vch 5
    setErrorIf (nLockTime.m_value < 0) SCRIPT_ERR_NEGATIVE_LOCKTIME
    setErrorIf (!env.checker.checkLockTime nLockTime) SCRIPT_ERR_UNSATISFIED_LOCKTIME

def opUpgradableNop (env : EvalEnv) : EvalM Unit :=
  setErrorIf (env.has SCRIPT_VERIFY_DISCOURAGE_UPGRADABLE_NOPS)
    SCRIPT_ERR_DISCOURAGE_UPGRADABLE_NOPS

/-- The value of the condition; it is not read where nothing is executed. -/
def ifValue (opcode : Opcode) (fExec : Bool) : EvalM Bool :=
  if fExec then do
    requireStackOr 1 SCRIPT_ERR_UNBALANCED_CONDITIONAL
    let vch ← stacktop 1
    popstack
    pure (if opcode = OP_NOTIF then !castToBool vch else castToBool vch)
  else pure false

def opIf (opcode : Opcode) (fExec : Bool) : EvalM Unit := do
  let fValue ← ifValue opcode fExec
  modify fun s => { s with vfExec := fValue :: s.vfExec }

def opElse : EvalM Unit := do
  let s ← get
  match s.vfExec with
  | [] => setError SCRIPT_ERR_UNBALANCED_CONDITIONAL
  | back :: vfExec => set { s with vfExec := (!back) :: vfExec }

def opEndif : EvalM Unit := do
  let s ← get
  match s.vfExec with
  | [] => setError SCRIPT_ERR_UNBALANCED_CONDITIONAL
  | _ :: vfExec => set { s with vfExec := vfExec }

def opVerify : EvalM Unit := do
  requireStack 1
  let vch ← stacktop 1
  if castToBool vch then popstack else setError SCRIPT_ERR_VERIFY

/-! ## Stack operations -/

def opToAltstack : EvalM Unit := do
  requireStack 1
  let vch ← stacktop 1
  pushAltstack vch
  popstack

def opFromAltstack : EvalM Unit := do
  let size ← altstackSize
  setErrorIf (size < 1) SCRIPT_ERR_INVALID_ALTSTACK_OPERATION
  let vch ← altstacktop
  pushBack vch
  popAltstack

/-- `(x1 x2 -- )` -/
def op2Drop : EvalM Unit := do
  requireStack 2
  popstack
  popstack

/-- `(x1 x2 -- x1 x2 x1 x2)` -/
def op2Dup : EvalM Unit := do
  requireStack 2
  let vch1 ← stacktop 2
  let vch2 ← stacktop 1
  pushBack vch1
  pushBack vch2

/-- `(x1 x2 x3 -- x1 x2 x3 x1 x2 x3)` -/
def op3Dup : EvalM Unit := do
  requireStack 3
  let vch1 ← stacktop 3
  let vch2 ← stacktop 2
  let vch3 ← stacktop 1
  pushBack vch1
  pushBack vch2
  pushBack vch3

/-- `(x1 x2 x3 x4 -- x1 x2 x3 x4 x1 x2)` -/
def op2Over : EvalM Unit := do
  requireStack 4
  let vch1 ← stacktop 4
  let vch2 ← stacktop 3
  pushBack vch1
  pushBack vch2

/-- `(x1 x2 x3 x4 x5 x6 -- x3 x4 x5 x6 x1 x2)` -/
def op2Rot : EvalM Unit := do
  requireStack 6
  let vch1 ← stacktop 6
  let vch2 ← stacktop 5
  -- `stack.erase(stack.end()-6, stack.end()-4)`
  eraseTop 6
  eraseTop 5
  pushBack vch1
  pushBack vch2

/-- `(x1 x2 x3 x4 -- x3 x4 x1 x2)` -/
def op2Swap : EvalM Unit := do
  requireStack 4
  swapTop 4 2
  swapTop 3 1

/-- `(x - 0 | x x)` -/
def opIfDup : EvalM Unit := do
  requireStack 1
  let vch ← stacktop 1
  if castToBool vch then pushBack vch else pure ()

/-- `( -- stacksize)` -/
def opDepth : EvalM Unit := do
  let size ← stackSize
  pushBack (CScriptNum.ofInt size).getvch

/-- `(x -- )` -/
def opDrop : EvalM Unit := do
  requireStack 1
  popstack

/-- `(x -- x x)` -/
def opDup : EvalM Unit := do
  requireStack 1
  let vch ← stacktop 1
  pushBack vch

/-- `(x1 x2 -- x2)` -/
def opNip : EvalM Unit := do
  requireStack 2
  eraseTop 2

/-- `(x1 x2 -- x1 x2 x1)` -/
def opOver : EvalM Unit := do
  requireStack 2
  let vch ← stacktop 2
  pushBack vch

/-- `OP_PICK` is `(xn ... x2 x1 x0 n - xn ... x2 x1 x0 xn)`; `OP_ROLL` takes `xn` away from
its place. -/
def opPick (env : EvalEnv) (opcode : Opcode) : EvalM Unit := do
  requireStack 2
  let vchN ← stacktop 1
  let bn ← scriptNum env vchN CScriptNum.nDefaultMaxNumSize
  let n := getint bn.m_value
  popstack
  let size ← stackSize
  setErrorIf (n < 0 || n ≥ size) SCRIPT_ERR_INVALID_STACK_OPERATION
  let vch ← stacktop (n.toNat + 1)
  if opcode = OP_ROLL then eraseTop (n.toNat + 1) else pure ()
  pushBack vch

/-- `(x1 x2 x3 -- x2 x3 x1)` -/
def opRot : EvalM Unit := do
  requireStack 3
  swapTop 3 2
  swapTop 2 1

/-- `(x1 x2 -- x2 x1)` -/
def opSwap : EvalM Unit := do
  requireStack 2
  swapTop 2 1

/-- `(x1 x2 -- x2 x1 x2)` -/
def opTuck : EvalM Unit := do
  requireStack 2
  let vch ← stacktop 1
  insertTop 2 vch

/-- `(in -- in size)` -/
def opSize : EvalM Unit := do
  requireStack 1
  let vch ← stacktop 1
  pushBack (CScriptNum.ofInt vch.length).getvch

/-- `(x1 x2 - bool)` -/
def opEqual (opcode : Opcode) : EvalM Unit := do
  requireStack 2
  let vch1 ← stacktop 2
  let vch2 ← stacktop 1
  let fEqual := vch1 = vch2
  popstack
  popstack
  pushBack (boolVch fEqual)
  verifyResult (opcode = OP_EQUALVERIFY) fEqual SCRIPT_ERR_EQUALVERIFY

/-! ## Numeric operations -/

/-- The inner `switch` of the operations on one number, with `none` where an assertion
fails. -/
def numeric1 (opcode : Opcode) (bn : CScriptNum) : Option CScriptNum :=
  match opcode with
  | OP_1ADD => bn.addAssign 1
  | OP_1SUB => bn.subAssign 1
  | OP_NEGATE => bn.neg
  | OP_ABS => if bn.m_value < 0 then bn.neg else some bn
  | OP_NOT => some (CScriptNum.ofBool (bn.m_value = 0))
  | OP_0NOTEQUAL => some (CScriptNum.ofBool (bn.m_value ≠ 0))
  | _ => none

/-- `(in -- out)` -/
def opNumeric1 (env : EvalEnv) (opcode : Opcode) : EvalM Unit := do
  requireStack 1
  let vch ← stacktop 1
  let bn ← scriptNum env vch CScriptNum.nDefaultMaxNumSize
  let bn ← assertSome (numeric1 opcode bn)
  popstack
  pushBack bn.getvch

/-- The inner `switch` of the operations on two numbers. -/
def numeric2 (opcode : Opcode) (bn1 bn2 : CScriptNum) : Option CScriptNum :=
  let x := bn1.m_value
  let y := bn2.m_value
  match opcode with
  | OP_ADD => some (bn1.add bn2)
  | OP_SUB => some (bn1.sub bn2)
  | OP_BOOLAND => some (CScriptNum.ofBool (x ≠ 0 ∧ y ≠ 0))
  | OP_BOOLOR => some (CScriptNum.ofBool (x ≠ 0 ∨ y ≠ 0))
  | OP_NUMEQUAL => some (CScriptNum.ofBool (x = y))
  | OP_NUMEQUALVERIFY => some (CScriptNum.ofBool (x = y))
  | OP_NUMNOTEQUAL => some (CScriptNum.ofBool (x ≠ y))
  | OP_LESSTHAN => some (CScriptNum.ofBool (x < y))
  | OP_GREATERTHAN => some (CScriptNum.ofBool (x > y))
  | OP_LESSTHANOREQUAL => some (CScriptNum.ofBool (x ≤ y))
  | OP_GREATERTHANOREQUAL => some (CScriptNum.ofBool (x ≥ y))
  | OP_MIN => some (if x < y then bn1 else bn2)
  | OP_MAX => some (if x > y then bn1 else bn2)
  | _ => none

/-- `(x1 x2 -- out)` -/
def opNumeric2 (env : EvalEnv) (opcode : Opcode) : EvalM Unit := do
  requireStack 2
  let vch1 ← stacktop 2
  let bn1 ← scriptNum env vch1 CScriptNum.nDefaultMaxNumSize
  let vch2 ← stacktop 1
  let bn2 ← scriptNum env vch2 CScriptNum.nDefaultMaxNumSize
  let bn ← assertSome (numeric2 opcode bn1 bn2)
  popstack
  popstack
  pushBack bn.getvch
  if opcode = OP_NUMEQUALVERIFY then do
    let vch ← stacktop 1
    verifyResult true (castToBool vch) SCRIPT_ERR_NUMEQUALVERIFY
  else pure ()

/-- `(x min max -- out)` -/
def opWithin (env : EvalEnv) : EvalM Unit := do
  requireStack 3
  let vch1 ← stacktop 3
  let bn1 ← scriptNum env vch1 CScriptNum.nDefaultMaxNumSize
  let vch2 ← stacktop 2
  let bn2 ← scriptNum env vch2 CScriptNum.nDefaultMaxNumSize
  let vch3 ← stacktop 1
  let bn3 ← scriptNum env vch3 CScriptNum.nDefaultMaxNumSize
  let fValue := bn2.m_value ≤ bn1.m_value ∧ bn1.m_value < bn3.m_value
  popstack
  popstack
  popstack
  pushBack (boolVch fValue)

/-! ## Crypto -/

/-- `vchHash`, which no other opcode fills. -/
def hashVch (crypto : Crypto) (opcode : Opcode) (vch : List UInt8) : List UInt8 :=
  match opcode with
  | OP_RIPEMD160 => (crypto.ripemd160 vch).toList
  | OP_SHA1 => (crypto.sha1 vch).toList
  | OP_SHA256 => (crypto.sha256 vch).toList
  | OP_HASH160 => (crypto.hash160 vch).toList
  | OP_HASH256 => (crypto.hash256 vch).toList
  | _ => List.replicate 32 0

/-- `(in -- hash)` -/
def opHash (env : EvalEnv) (opcode : Opcode) : EvalM Unit := do
  requireStack 1
  let vch ← stacktop 1
  popstack
  pushBack (hashVch env.crypto opcode vch)

/-- The script that is signed starts after the code separator. -/
def opCodeSeparator (pc : CScript) : EvalM Unit :=
  modify fun s => { s with pbegincodehash := pc }

/-- `CScript scriptCode(pbegincodehash, pend)`. -/
def scriptCodeStart : EvalM CScript := (fun s => s.pbegincodehash) <$> get

/-- `(sig pubkey -- bool)` -/
def opCheckSig (env : EvalEnv) (opcode : Opcode) : EvalM Unit := do
  requireStack 2
  let vchSig ← stacktop 2
  let vchPubKey ← stacktop 1
  let start ← scriptCodeStart
  -- a signature cannot sign itself
  let scriptCode := findAndDelete start (pushVector vchSig)
  orSetError (checkSignatureEncoding env vchSig)
  orSetError (checkPubKeyEncoding env vchPubKey)
  let fSuccess := env.checker.checkSig vchSig vchPubKey scriptCode
  popstack
  popstack
  pushBack (boolVch fSuccess)
  verifyResult (opcode = OP_CHECKSIGVERIFY) fSuccess SCRIPT_ERR_CHECKSIGVERIFY

/-- The loop that deletes so many signatures from the script, the first at `isig`. -/
def deleteSigs : Nat → Nat → CScript → EvalM CScript
  | 0, _, scriptCode => pure scriptCode
  | nSigsCount + 1, isig, scriptCode => do
      let vchSig ← stacktop isig
      deleteSigs nSigsCount (isig + 1) (findAndDelete scriptCode (pushVector vchSig))

/-- The loop over the keys, which ends where fewer of them are left than
signatures. -/
def checkSigs (env : EvalEnv) (scriptCode : CScript) : Nat → Nat → Nat → Nat → EvalM Bool
  | _, 0, _, _ => pure true
  | 0, _ + 1, _, _ => pure false
  | nKeysCount + 1, nSigsCount + 1, isig, ikey => do
      let vchSig ← stacktop isig
      let vchPubKey ← stacktop ikey
      orSetError (checkSignatureEncoding env vchSig)
      orSetError (checkPubKeyEncoding env vchPubKey)
      let fOk := env.checker.checkSig vchSig vchPubKey scriptCode
      let nSigsCount := if fOk then nSigsCount else nSigsCount + 1
      let isig := if fOk then isig + 1 else isig
      if nSigsCount > nKeysCount then pure false
      else checkSigs env scriptCode nKeysCount nSigsCount isig (ikey + 1)

/-- The argument that `OP_CHECKMULTISIG` takes off besides its own. -/
def checkDummy (env : EvalEnv) : EvalM Unit :=
  if env.has SCRIPT_VERIFY_NULLDUMMY then do
    let dummy ← stacktop 1
    setErrorIf (dummy.length ≠ 0) SCRIPT_ERR_SIG_NULLDUMMY
  else pure ()

/-- `([sig ...] num_of_signatures [pubkey ...] num_of_pubkeys -- bool)` -/
def opCheckMultiSig (env : EvalEnv) (opcode : Opcode) : EvalM Unit := do
  requireStack 1
  let vchKeys ← stacktop 1
  let bnKeys ← scriptNum env vchKeys CScriptNum.nDefaultMaxNumSize
  let nKeys := getint bnKeys.m_value
  setErrorIf (nKeys < 0 || nKeys > 20) SCRIPT_ERR_PUBKEY_COUNT
  let nKeysCount := nKeys.toNat
  chargeOps nKeysCount
  let ikey := 2
  requireStack (ikey + nKeysCount)
  let vchSigs ← stacktop (ikey + nKeysCount)
  let bnSigs ← scriptNum env vchSigs CScriptNum.nDefaultMaxNumSize
  let nSigs := getint bnSigs.m_value
  setErrorIf (nSigs < 0 || nSigs > nKeysCount) SCRIPT_ERR_SIG_COUNT
  let nSigsCount := nSigs.toNat
  let isig := ikey + nKeysCount + 1
  let i := isig + nSigsCount
  requireStack i
  let start ← scriptCodeStart
  let scriptCode ← deleteSigs nSigsCount isig start
  let fSuccess ← checkSigs env scriptCode nKeysCount nSigsCount isig ikey
  -- `while (i-- > 1)`
  popMany (i - 1)
  requireStack 1
  checkDummy env
  popstack
  pushBack (boolVch fSuccess)
  verifyResult (opcode = OP_CHECKMULTISIGVERIFY) fSuccess SCRIPT_ERR_CHECKMULTISIGVERIFY

/-! ## The loop -/

/-- The cases of the `switch` after those that push a number. -/
def execute (env : EvalEnv) (opcode : Opcode) (fExec : Bool) (pc : CScript) : EvalM Unit :=
  match opcode with
  | OP_NOP => pure ()
  | OP_CHECKLOCKTIMEVERIFY => opCheckLockTimeVerify env
  | OP_NOP1 | OP_NOP3 | OP_NOP4 | OP_NOP5 | OP_NOP6 | OP_NOP7 | OP_NOP8 | OP_NOP9 | OP_NOP10 =>
      opUpgradableNop env
  | OP_IF | OP_NOTIF => opIf opcode fExec
  | OP_ELSE => opElse
  | OP_ENDIF => opEndif
  | OP_VERIFY => opVerify
  | OP_RETURN => setError SCRIPT_ERR_OP_RETURN
  | OP_TOALTSTACK => opToAltstack
  | OP_FROMALTSTACK => opFromAltstack
  | OP_2DROP => op2Drop
  | OP_2DUP => op2Dup
  | OP_3DUP => op3Dup
  | OP_2OVER => op2Over
  | OP_2ROT => op2Rot
  | OP_2SWAP => op2Swap
  | OP_IFDUP => opIfDup
  | OP_DEPTH => opDepth
  | OP_DROP => opDrop
  | OP_DUP => opDup
  | OP_NIP => opNip
  | OP_OVER => opOver
  | OP_PICK | OP_ROLL => opPick env opcode
  | OP_ROT => opRot
  | OP_SWAP => opSwap
  | OP_TUCK => opTuck
  | OP_SIZE => opSize
  | OP_EQUAL | OP_EQUALVERIFY => opEqual opcode
  | OP_1ADD | OP_1SUB | OP_NEGATE | OP_ABS | OP_NOT | OP_0NOTEQUAL => opNumeric1 env opcode
  | OP_ADD | OP_SUB | OP_BOOLAND | OP_BOOLOR | OP_NUMEQUAL | OP_NUMEQUALVERIFY
  | OP_NUMNOTEQUAL | OP_LESSTHAN | OP_GREATERTHAN | OP_LESSTHANOREQUAL
  | OP_GREATERTHANOREQUAL | OP_MIN | OP_MAX => opNumeric2 env opcode
  | OP_WITHIN => opWithin env
  | OP_RIPEMD160 | OP_SHA1 | OP_SHA256 | OP_HASH160 | OP_HASH256 => opHash env opcode
  | OP_CODESEPARATOR => opCodeSeparator pc
  | OP_CHECKSIG | OP_CHECKSIGVERIFY => opCheckSig env opcode
  | OP_CHECKMULTISIG | OP_CHECKMULTISIGVERIFY => opCheckMultiSig env opcode
  | _ => setError SCRIPT_ERR_BAD_OPCODE

/-- A push, or the `switch`; where nothing is executed only the conditionals are. -/
def perform (env : EvalEnv) (opcode : UInt8) (vchPushValue : List UInt8) (fExec : Bool)
    (pc : CScript) : EvalM Unit :=
  if fExec && opcode ≤ OP_PUSHDATA4 then do
    setErrorIf (env.fRequireMinimal && !checkMinimalPush vchPushValue opcode)
      SCRIPT_ERR_MINIMALDATA
    pushBack vchPushValue
  -- `OP_IF <= opcode && opcode <= OP_ENDIF`
  else if fExec || (0x63 ≤ opcode && opcode ≤ 0x68) then
    if opcode = OP_1NEGATE || (OP_1 ≤ opcode && opcode ≤ OP_16) then
      pushBack (CScriptNum.ofInt ((opcode.toNat : Int) - (OP_1.toNat - 1))).getvch
    else
      match Opcode.ofByte opcode with
      | some op => execute env op fExec pc
      | none => setError SCRIPT_ERR_BAD_OPCODE
  else pure ()

def isDisabled (opcode : UInt8) : Bool :=
  match Opcode.ofByte opcode with
  | some op => op ∈ disabledOpcodes
  | none => false

/-- `!count(vfExec.begin(), vfExec.end(), false)`. -/
def executing : EvalM Bool := (fun s => !s.vfExec.contains false) <$> get

/-- The check of both stacks that ends every round. -/
def checkStackSize : EvalM Unit := do
  let s ← get
  setErrorIf (s.stack.length + s.altstack.length > 1000) SCRIPT_ERR_STACK_SIZE

/-- A round of the loop, with the position behind the operation. -/
def step (env : EvalEnv) (pc : CScript) : EvalM CScript := do
  let fExec ← executing
  match getOp2 pc with
  | none => setError SCRIPT_ERR_BAD_OPCODE
  | some (opcode, vchPushValue, pc) => do
      setErrorIf (vchPushValue.length > MAX_SCRIPT_ELEMENT_SIZE) SCRIPT_ERR_PUSH_SIZE
      -- `OP_RESERVED` is below `OP_16` and does not count
      if opcode > OP_16 then chargeOps 1 else pure ()
      setErrorIf (isDisabled opcode) SCRIPT_ERR_DISABLED_OPCODE
      perform env opcode vchPushValue fExec pc
      checkStackSize
      pure pc

/-- How a call ends. -/
inductive EvalResult
  | returned (fSuccess : Bool) (serror : ScriptError)
  | aborted
  deriving DecidableEq, Repr

def Interp.start (stack : List (List UInt8)) (script : CScript) : Interp where
  stack := stack
  pbegincodehash := script

/-- `EvalScript`, with the stack that the caller finds. -/
def evalScript (env : EvalEnv) (stack : List (List UInt8)) (script : CScript) :
    EvalResult × List (List UInt8) :=
  if script.length > 10000 then (.returned false SCRIPT_ERR_SCRIPT_SIZE, stack)
  else
    match (runUntil List.isEmpty (step env) script.length script).run
        (Interp.start stack script) with
    | .ok _ s =>
        if !s.vfExec.isEmpty then
          (.returned false SCRIPT_ERR_UNBALANCED_CONDITIONAL, s.stack)
        else (.returned true SCRIPT_ERR_OK, s.stack)
    | .error (.error serror) s => (.returned false serror, s.stack)
    | .error (.exception _) s => (.returned false SCRIPT_ERR_UNKNOWN_ERROR, s.stack)
    | .error .assertion s => (.aborted, s.stack)

end Agrarian.Script
