import Agrarian.Script.Script
import Agrarian.Script.ScriptNum

/-!
# Encodings that the interpreter checks

What `script/interpreter.cpp` asks of signatures, public keys and pushes under the
flags of a call, with the error that each check sets.  The hash functions and the
curve are parameters.
-/

namespace Agrarian.Script

/-- The errors of `script_error.h` that `EvalScript` sets. -/
inductive ScriptError
  | SCRIPT_ERR_OK
  | SCRIPT_ERR_UNKNOWN_ERROR
  | SCRIPT_ERR_OP_RETURN
  | SCRIPT_ERR_SCRIPT_SIZE
  | SCRIPT_ERR_PUSH_SIZE
  | SCRIPT_ERR_OP_COUNT
  | SCRIPT_ERR_STACK_SIZE
  | SCRIPT_ERR_SIG_COUNT
  | SCRIPT_ERR_PUBKEY_COUNT
  | SCRIPT_ERR_VERIFY
  | SCRIPT_ERR_EQUALVERIFY
  | SCRIPT_ERR_CHECKMULTISIGVERIFY
  | SCRIPT_ERR_CHECKSIGVERIFY
  | SCRIPT_ERR_NUMEQUALVERIFY
  | SCRIPT_ERR_BAD_OPCODE
  | SCRIPT_ERR_DISABLED_OPCODE
  | SCRIPT_ERR_INVALID_STACK_OPERATION
  | SCRIPT_ERR_INVALID_ALTSTACK_OPERATION
  | SCRIPT_ERR_UNBALANCED_CONDITIONAL
  | SCRIPT_ERR_NEGATIVE_LOCKTIME
  | SCRIPT_ERR_UNSATISFIED_LOCKTIME
  | SCRIPT_ERR_SIG_HASHTYPE
  | SCRIPT_ERR_SIG_DER
  | SCRIPT_ERR_MINIMALDATA
  | SCRIPT_ERR_SIG_HIGH_S
  | SCRIPT_ERR_SIG_NULLDUMMY
  | SCRIPT_ERR_PUBKEYTYPE
  | SCRIPT_ERR_DISCOURAGE_UPGRADABLE_NOPS
  deriving DecidableEq, Repr

open ScriptError

/-! ## Flags -/

def SCRIPT_VERIFY_STRICTENC : UInt32 := (1 : UInt32) <<< 1
def SCRIPT_VERIFY_DERSIG : UInt32 := (1 : UInt32) <<< 2
def SCRIPT_VERIFY_LOW_S : UInt32 := (1 : UInt32) <<< 3
def SCRIPT_VERIFY_NULLDUMMY : UInt32 := (1 : UInt32) <<< 4
def SCRIPT_VERIFY_MINIMALDATA : UInt32 := (1 : UInt32) <<< 6
def SCRIPT_VERIFY_DISCOURAGE_UPGRADABLE_NOPS : UInt32 := (1 : UInt32) <<< 7
def SCRIPT_VERIFY_CHECKLOCKTIMEVERIFY : UInt32 := (1 : UInt32) <<< 9

structure BaseSignatureChecker where
  checkSig : List UInt8 → List UInt8 → CScript → Bool
  checkLockTime : CScriptNum → Bool

/-- The hash functions of `crypto/`, and `CPubKey::CheckLowS`. -/
structure Crypto where
  ripemd160 : List UInt8 → Vector UInt8 20
  sha1 : List UInt8 → Vector UInt8 20
  sha256 : List UInt8 → Vector UInt8 32
  checkLowS : List UInt8 → Bool

def Crypto.hash160 (crypto : Crypto) (vch : List UInt8) : Vector UInt8 20 :=
  crypto.ripemd160 (crypto.sha256 vch).toList

def Crypto.hash256 (crypto : Crypto) (vch : List UInt8) : Vector UInt8 32 :=
  crypto.sha256 (crypto.sha256 vch).toList

/-- What a call of `EvalScript` is given besides the stack and the script. -/
structure EvalEnv where
  flags : UInt32
  checker : BaseSignatureChecker
  crypto : Crypto

/-- `(flags & mask) != 0`. -/
def EvalEnv.has (env : EvalEnv) (mask : UInt32) : Bool := env.flags &&& mask != 0

def EvalEnv.fRequireMinimal (env : EvalEnv) : Bool := env.has SCRIPT_VERIFY_MINIMALDATA

/-! ## Signatures and keys -/

def isCompressedOrUncompressedPubKey (vchPubKey : List UInt8) : Bool :=
  let first := vchPubKey.getD 0 0
  if vchPubKey.length < 33 then false
  else if first = 0x04 then vchPubKey.length = 65
  else if first = 0x02 ∨ first = 0x03 then vchPubKey.length = 33
  else false

/-- `<30> <total len> <02> <len R> <R> <02> <len S> <S> <hashtype>`. -/
def isValidSignatureEncoding (sig : List UInt8) : Bool :=
  let byte := fun i => (sig.getD i 0).toNat
  let lenR := byte 3
  let lenS := byte (5 + lenR)
  if sig.length < 9 then false
  else if sig.length > 73 then false
  else if byte 0 ≠ 0x30 then false
  else if byte 1 ≠ sig.length - 3 then false
  else if 5 + lenR ≥ sig.length then false
  else if lenR + lenS + 7 ≠ sig.length then false
  else if byte 2 ≠ 0x02 then false
  else if lenR = 0 then false
  else if byte 4 &&& 0x80 ≠ 0 then false
  else if lenR > 1 ∧ byte 4 = 0x00 ∧ byte 5 &&& 0x80 = 0 then false
  else if byte (lenR + 4) ≠ 0x02 then false
  else if lenS = 0 then false
  else if byte (lenR + 6) &&& 0x80 ≠ 0 then false
  else if lenS > 1 ∧ byte (lenR + 6) = 0x00 ∧ byte (lenR + 7) &&& 0x80 = 0 then false
  else true

def isLowDERSignature (crypto : Crypto) (vchSig : List UInt8) : Except ScriptError Unit :=
  if !isValidSignatureEncoding vchSig then .error SCRIPT_ERR_SIG_DER
  -- without the byte of the hash type
  else if !crypto.checkLowS vchSig.dropLast then .error SCRIPT_ERR_SIG_HIGH_S
  else .ok ()

/-- The hash type without `SIGHASH_ANYONECANPAY` is one of `SIGHASH_ALL` to
`SIGHASH_SINGLE`. -/
def isDefinedHashtypeSignature (vchSig : List UInt8) : Bool :=
  match vchSig.getLast? with
  | none => false
  | some last =>
      let nHashType := last &&& ~~~0x80
      1 ≤ nHashType && nHashType ≤ 3

def checkSignatureEncoding (env : EvalEnv) (vchSig : List UInt8) : Except ScriptError Unit :=
  -- an empty signature is a compact way to provide an invalid one
  if vchSig.length = 0 then .ok ()
  else if env.has (SCRIPT_VERIFY_DERSIG ||| SCRIPT_VERIFY_LOW_S ||| SCRIPT_VERIFY_STRICTENC) &&
      !isValidSignatureEncoding vchSig then
    .error SCRIPT_ERR_SIG_DER
  else
    match if env.has SCRIPT_VERIFY_LOW_S then isLowDERSignature env.crypto vchSig else .ok () with
    | .error serror => .error serror
    | .ok () =>
        if env.has SCRIPT_VERIFY_STRICTENC && !isDefinedHashtypeSignature vchSig then
          .error SCRIPT_ERR_SIG_HASHTYPE
        else .ok ()

def checkPubKeyEncoding (env : EvalEnv) (vchPubKey : List UInt8) : Except ScriptError Unit :=
  if env.has SCRIPT_VERIFY_STRICTENC && !isCompressedOrUncompressedPubKey vchPubKey then
    .error SCRIPT_ERR_PUBKEYTYPE
  else .ok ()

theorem isLowDERSignature_ne (crypto : Crypto) (vchSig : List UInt8) :
    isLowDERSignature crypto vchSig ≠ .error SCRIPT_ERR_UNKNOWN_ERROR := by
  unfold isLowDERSignature
  split
  · decide
  · split
    · decide
    · decide

/-- The checks set errors of their own. -/
theorem checkSignatureEncoding_ne (env : EvalEnv) (vchSig : List UInt8) :
    checkSignatureEncoding env vchSig ≠ .error SCRIPT_ERR_UNKNOWN_ERROR := by
  have hlow : (if env.has SCRIPT_VERIFY_LOW_S then isLowDERSignature env.crypto vchSig
      else .ok ()) ≠ .error SCRIPT_ERR_UNKNOWN_ERROR := by
    split
    · exact isLowDERSignature_ne env.crypto vchSig
    · decide
  unfold checkSignatureEncoding
  split
  · decide
  · split
    · decide
    · split
      · next hcheck => exact hcheck ▸ hlow
      · split
        · decide
        · decide

theorem checkPubKeyEncoding_ne (env : EvalEnv) (vchPubKey : List UInt8) :
    checkPubKeyEncoding env vchPubKey ≠ .error SCRIPT_ERR_UNKNOWN_ERROR := by
  unfold checkPubKeyEncoding
  split
  · decide
  · decide

/-! ## Elements of the stack -/

def MAX_SCRIPT_ELEMENT_SIZE : Nat := 520

/-- `CastToBool`; the last byte of a negative zero is `0x80`. -/
def castToBool : List UInt8 → Bool
  | [] => false
  | [b] => b != 0 && b != 0x80
  | b :: rest => b != 0 || castToBool rest

/-- `CheckMinimalPush`: no shorter operation pushes the data. -/
def checkMinimalPush (data : List UInt8) (opcode : UInt8) : Bool :=
  let first := data.getD 0 0
  if data.length = 0 then opcode = OP_0
  else if data.length = 1 ∧ first ≥ 1 ∧ first ≤ 16 then opcode = OP_1 + (first - 1)
  else if data.length = 1 ∧ first = 0x81 then opcode = OP_1NEGATE
  else if data.length ≤ 75 then opcode.toNat = data.length
  else if data.length ≤ 255 then opcode = OP_PUSHDATA1
  else if data.length ≤ 65535 then opcode = OP_PUSHDATA2
  else true

end Agrarian.Script
