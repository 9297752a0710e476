import Agrarian.Script.Script

/-!
# Standard output scripts

`Solver` of `script/standard.cpp`, which finds the type of an output script and the keys or
hashes in it.  The scripts that are not recognised by their first bytes are compared with
templates, operation by operation.
-/

namespace Agrarian.CScript

def OP_CHECKMULTISIG : UInt8 := 0xae

end Agrarian.CScript

namespace Agrarian.Script

def OP_SMALLINTEGER : UInt8 := 0xfa
def OP_PUBKEYS : UInt8 := 0xfb
def OP_PUBKEYHASH : UInt8 := 0xfd
def OP_PUBKEY : UInt8 := 0xfe
def OP_INVALIDOPCODE : UInt8 := 0xff

inductive txnouttype
  | TX_NONSTANDARD
  | TX_PUBKEY
  | TX_PUBKEYHASH
  | TX_SCRIPTHASH
  | TX_MULTISIG
  | TX_NULL_DATA
  | TX_ZEROCOINMINT
  deriving DecidableEq, Repr

/-- `mTemplates`, in the order of the types. -/
def templates : List (txnouttype × CScript) :=
  [(.TX_PUBKEY, [OP_PUBKEY, CScript.OP_CHECKSIG]),
    (.TX_PUBKEYHASH, [CScript.OP_DUP, CScript.OP_HASH160, OP_PUBKEYHASH, CScript.OP_EQUALVERIFY,
      CScript.OP_CHECKSIG]),
    (.TX_MULTISIG, [OP_SMALLINTEGER, OP_PUBKEYS, OP_SMALLINTEGER, CScript.OP_CHECKMULTISIG])]

/-- `DecodeOP_N`. -/
def decodeOP_N (opcode : UInt8) : UInt8 := if opcode = OP_0 then 0 else opcode - (OP_1 - 1)

def isPayToScriptHash (script : CScript) : Bool :=
  script.length = 23 && script.getD 0 0 = CScript.OP_HASH160 && script.getD 1 0 = 20 &&
    script.getD 22 0 = CScript.OP_EQUAL

/-- `IsPushOnly` from a position on; an operation takes at least a byte. -/
def isPushOnlyFrom : Nat → CScript → Bool
  | _, [] => true
  | 0, _ :: _ => false
  | fuel + 1, pc =>
      match getOp2 pc with
      | none => false
      | some (opcode, _, pc) => decide (opcode ≤ OP_16) && isPushOnlyFrom fuel pc

def isPushOnly (pc : CScript) : Bool := isPushOnlyFrom pc.length pc

/-- The loop over the keys for `OP_PUBKEYS`: the operation behind them, the position behind it
and the solutions. -/
def takePubKeys : Nat → UInt8 → List UInt8 → CScript → List (List UInt8) →
    UInt8 × List UInt8 × CScript × List (List UInt8)
  | 0, opcode1, vch1, pc1, vSolutions => (opcode1, vch1, pc1, vSolutions)
  | fuel + 1, opcode1, vch1, pc1, vSolutions =>
      if 33 ≤ vch1.length ∧ vch1.length ≤ 65 then
        match getOp2 pc1 with
        | none => (OP_INVALIDOPCODE, [], pc1, vSolutions ++ [vch1])
        | some (opcode1, vch1', pc1) =>
            takePubKeys fuel opcode1 vch1' pc1 (vSolutions ++ [vch1])
      else (opcode1, vch1, pc1, vSolutions)

/-- One operation against an opcode of the template. -/
def matchOp (opcode1 : UInt8) (vch1 : List UInt8) (opcode2 : UInt8) (vch2 : List UInt8)
    (vSolutions : List (List UInt8)) : Option (List (List UInt8)) :=
  if opcode2 = OP_PUBKEY then
    if vch1.length < 33 ∨ 65 < vch1.length then none else some (vSolutions ++ [vch1])
  else if opcode2 = OP_PUBKEYHASH then
    if vch1.length ≠ 20 then none else some (vSolutions ++ [vch1])
  else if opcode2 = OP_SMALLINTEGER then
    if opcode1 = OP_0 ∨ OP_1 ≤ opcode1 ∧ opcode1 ≤ OP_16 then
      some (vSolutions ++ [[decodeOP_N opcode1]])
    else none
  else if opcode1 ≠ opcode2 ∨ vch1 ≠ vch2 then none
  else some vSolutions

/-- The comparison with a template: the solutions if it matches. -/
def matchTemplate : Nat → CScript → CScript → List (List UInt8) → Option (List (List UInt8))
  | 0, _, _, _ => none
  | fuel + 1, pc1, pc2, vSolutions =>
      if pc1 = [] ∧ pc2 = [] then some vSolutions
      else
        match getOp2 pc1, getOp2 pc2 with
        | some (opcode1, vch1, pc1), some (opcode2, vch2, pc2) =>
            if opcode2 = OP_PUBKEYS then
              let (opcode1, vch1, pc1, vSolutions) :=
                takePubKeys (pc1.length + 1) opcode1 vch1 pc1 vSolutions
              match getOp2 pc2 with
              | none => none
              | some (opcode2, vch2, pc2) =>
                  (matchOp opcode1 vch1 opcode2 vch2 vSolutions).bind
                    (matchTemplate fuel pc1 pc2)
            else (matchOp opcode1 vch1 opcode2 vch2 vSolutions).bind (matchTemplate fuel pc1 pc2)
        | _, _ => none

/-- The additional checks for `TX_MULTISIG`. -/
def multisigOk (vSolutions : List (List UInt8)) : Bool :=
  let m := ((vSolutions.headD []).headD 0).toNat
  let n := ((vSolutions.getLastD []).headD 0).toNat
  !(m < 1 || n < 1 || n < m || vSolutions.length - 2 ≠ n)

/-- The loop over the templates. -/
def matchTemplates (script1 : CScript) :
    List (txnouttype × CScript) → Bool × txnouttype × List (List UInt8)
  | [] => (false, .TX_NONSTANDARD, [])
  | (type, script2) :: rest =>
      match matchTemplate (script2.length + 1) script1 script2 [] with
      | none => matchTemplates script1 rest
      | some vSolutions => (type ≠ .TX_MULTISIG || multisigOk vSolutions, type, vSolutions)

/-- `Solver`: whether the script is standard, its type and the solutions.  It throws at a mint of
one byte. -/
def solver (scriptPubKey : CScript) : Option (Bool × txnouttype × List (List UInt8)) :=
  if isPayToScriptHash scriptPubKey then
    some (true, .TX_SCRIPTHASH, [(scriptPubKey.drop 2).take 20])
  else if scriptPubKey.isZerocoinMint then
    if 150 < scriptPubKey.length then some (false, .TX_ZEROCOINMINT, [])
    else if scriptPubKey.length < 2 then none
    else some (true, .TX_ZEROCOINMINT, [scriptPubKey.drop 2])
  else if scriptPubKey.startsWithOpcode CScript.OP_RETURN ∧ isPushOnly scriptPubKey.tail then
    some (true, .TX_NULL_DATA, [])
  else some (matchTemplates scriptPubKey templates)

end Agrarian.Script
