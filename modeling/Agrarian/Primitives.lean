import Mathlib

/-!
# Transactions, blocks and scripts

The data types of `primitives/transaction.h`, `primitives/block.h` and
`script/script.h` that the rest of the development works on, with the
predicates the validation code asks of them.

`uint256` is a 256-bit word and a `CAmount` an integer; where the 64-bit range
of an amount matters the wrap-around is written out at that place.  A
transaction carries its hash as the source does: it is computed once, when
the transaction is deserialized, and `GetHash` only returns the field.
-/

namespace Agrarian

/-- `uint256`: hashes and other opaque 256-bit values. -/
abbrev Uint256 := BitVec 256

/-- `CScript`: the serialized script. -/
abbrev CScript := List UInt8

namespace CScript

def OP_RETURN : UInt8 := 0x6a
def OP_DUP : UInt8 := 0x76
def OP_EQUAL : UInt8 := 0x87
def OP_EQUALVERIFY : UInt8 := 0x88
def OP_HASH160 : UInt8 := 0xa9
def OP_CHECKSIG : UInt8 := 0xac
def OP_ZEROCOINMINT : UInt8 := 0xc1
def OP_ZEROCOINSPEND : UInt8 := 0xc2
def OP_ZEROCOINPUBLICSPEND : UInt8 := 0xc3

def startsWithOpcode (script : CScript) (opcode : UInt8) : Bool :=
  script.head? == some opcode

def isUnspendable (script : CScript) : Bool :=
  script.startsWithOpcode OP_RETURN

def isZerocoinMint (script : CScript) : Bool :=
  script.startsWithOpcode OP_ZEROCOINMINT

def isZerocoinSpend (script : CScript) : Bool :=
  script.startsWithOpcode OP_ZEROCOINSPEND

def isZerocoinPublicSpend (script : CScript) : Bool :=
  script.startsWithOpcode OP_ZEROCOINPUBLICSPEND

end CScript

/-- A transaction hash and an index into that transaction's outputs. -/
structure COutPoint where
  hash : Uint256
  n : Nat
  deriving DecidableEq, Repr

namespace COutPoint

/-- The default-constructed outpoint: no hash and index `(uint32_t) -1`. -/
def null : COutPoint := ⟨0, 0xFFFFFFFF⟩

def isNull (out : COutPoint) : Bool := out == null

end COutPoint

structure CTxIn where
  prevout : COutPoint
  scriptSig : CScript := []
  nSequence : UInt32 := 0xFFFFFFFF
  deriving DecidableEq, Repr

namespace CTxIn

def isZerocoinSpend (txin : CTxIn) : Bool :=
  txin.prevout.hash == 0 && txin.scriptSig.isZerocoinSpend

def isZerocoinPublicSpend (txin : CTxIn) : Bool :=
  txin.scriptSig.isZerocoinPublicSpend

end CTxIn

/-- `nRounds` lives in memory only; `-10` is its initial value. -/
structure CTxOut where
  nValue : Int
  scriptPubKey : CScript
  nRounds : Int32 := -10
  deriving DecidableEq, Repr

namespace CTxOut

/-- The default-constructed output, also what `SetNull` leaves. -/
def null : CTxOut := ⟨-1, [], -10⟩

def isNull (out : CTxOut) : Bool := out.nValue == -1

def isEmpty (out : CTxOut) : Bool :=
  out.nValue == 0 && out.scriptPubKey.isEmpty

def isZerocoinMint (out : CTxOut) : Bool := out.scriptPubKey.isZerocoinMint

@[simp] theorem isNull_null : null.isNull = true := rfl

end CTxOut

structure CTransaction where
  hash : Uint256
  nVersion : Int32 := 1
  vin : List CTxIn
  vout : List CTxOut
  nLockTime : UInt32 := 0
  deriving DecidableEq, Repr

namespace CTransaction

def getHash (tx : CTransaction) : Uint256 := tx.hash

def hasZerocoinSpendInputs (tx : CTransaction) : Bool :=
  tx.vin.any fun txin => txin.isZerocoinSpend || txin.isZerocoinPublicSpend

def hasZerocoinPublicSpendInputs (tx : CTransaction) : Bool :=
  tx.vin.any CTxIn.isZerocoinPublicSpend

def hasZerocoinMintOutputs (tx : CTransaction) : Bool :=
  tx.vout.any CTxOut.isZerocoinMint

def containsZerocoins (tx : CTransaction) : Bool :=
  tx.hasZerocoinSpendInputs || tx.hasZerocoinPublicSpendInputs ||
    tx.hasZerocoinMintOutputs

def isCoinBase (tx : CTransaction) : Bool :=
  match tx.vin with
  | [txin] => txin.prevout.isNull && !tx.containsZerocoins
  | _ => false

def isCoinStake (tx : CTransaction) : Bool :=
  match tx.vin with
  | [] => false
  | txin :: _ =>
      let fAllowNull := txin.isZerocoinSpend
      if txin.prevout.isNull && !fAllowNull then false
      else decide (2 ≤ tx.vout.length) &&
        (tx.vout.head?.map CTxOut.isEmpty).getD false

end CTransaction

/-- The part of `CBlock` the modelled checks read: the header's hash of its
transaction list, the parent's hash and the transactions. -/
structure CBlock where
  hash : Uint256
  hashPrevBlock : Uint256
  hashMerkleRoot : Uint256
  vtx : List CTransaction
  deriving DecidableEq, Repr

/-- The largest block `CheckBlock` accepts, in bytes. -/
def MAX_BLOCK_SIZE_CURRENT : Nat := 2000000

end Agrarian
