import Agrarian.Script.Script
import Agrarian.Serialize.Stream

/-!
# Signature hashes

`SignatureHash` of `script/interpreter.cpp` writes the parts of a transaction that a
signature commits to straight into the hash.  The reference in
`test/sighash_tests.cpp` copies the transaction, changes the copy and serializes it.
Both hash the same bytes.
-/

namespace Agrarian.Script

open Agrarian.Lib.ByteCodec Agrarian.Serialize

def OP_CODESEPARATOR : UInt8 := 0xab

def SIGHASH_NONE : Int32 := 2
def SIGHASH_SINGLE : Int32 := 3
def SIGHASH_ANYONECANPAY : Int32 := 0x80

/-! ## Serialization of transactions -/

def writeUInt32 (n : UInt32) : List UInt8 := natLE 4 n.toNat

def writeInt32 (n : Int32) : List UInt8 := writeUInt32 n.toUInt32

/-- `int64_t` in two's complement. -/
def writeInt64 (n : Int) : List UInt8 := natLE 8 (n % 2 ^ 64).toNat

def writeOutPoint (prevout : COutPoint) : List UInt8 :=
  writeUint256 prevout.hash ++ natLE 4 prevout.n

def writeTxIn (txin : CTxIn) : List UInt8 :=
  writeOutPoint txin.prevout ++ writeBytes txin.scriptSig ++ writeUInt32 txin.nSequence

def writeFullTxOut (txout : CTxOut) : List UInt8 :=
  writeInt64 txout.nValue ++ writeBytes txout.scriptPubKey

structure CMutableTransaction where
  nVersion : Int32
  vin : List CTxIn
  vout : List CTxOut
  nLockTime : UInt32

def CMutableTransaction.ofTx (tx : CTransaction) : CMutableTransaction :=
  ⟨tx.nVersion, tx.vin, tx.vout, tx.nLockTime⟩

def writeTx (tx : CMutableTransaction) : List UInt8 :=
  writeInt32 tx.nVersion ++ writeVector writeTxIn tx.vin ++
    writeVector writeFullTxOut tx.vout ++ writeUInt32 tx.nLockTime

/-! ## The serializer -/

/-- `CTransactionSignatureSerializer`. -/
structure SignatureSerializer where
  txTo : CTransaction
  scriptCode : CScript
  nIn : Nat
  fAnyoneCanPay : Bool
  fHashSingle : Bool
  fHashNone : Bool

def SignatureSerializer.ofHashType (txTo : CTransaction) (scriptCode : CScript) (nIn : Nat)
    (nHashType : Int32) : SignatureSerializer where
  txTo := txTo
  scriptCode := scriptCode
  nIn := nIn
  fAnyoneCanPay := nHashType &&& SIGHASH_ANYONECANPAY != 0
  fHashSingle := nHashType &&& 0x1f == SIGHASH_SINGLE
  fHashNone := nHashType &&& 0x1f == SIGHASH_NONE

/-- The first loop of `SerializeScriptCode`. -/
def countSeparators : Nat → CScript → Nat
  | 0, _ => 0
  | fuel + 1, it =>
      match getOp2 it with
      | none => 0
      | some (opcode, _, it) =>
          if opcode = OP_CODESEPARATOR then 1 + countSeparators fuel it
          else countSeparators fuel it

/-- Where `GetOp2` leaves its position if it fails. -/
def getOp2Stop : CScript → CScript
  | [] => []
  | opcode :: pc =>
      match operandSize opcode pc with
      | none => pc
      | some (_, pc) => pc

/-- The write after the second loop. -/
def writeLast (itBegin it : CScript) : List UInt8 :=
  if itBegin.isEmpty then [] else itBegin.take (itBegin.length - it.length)

/-- The second loop, which writes what lies between two separators. -/
def writePieces : Nat → CScript → CScript → List UInt8
  | 0, itBegin, it => writeLast itBegin it
  | fuel + 1, itBegin, it =>
      match getOp2 it with
      | none => writeLast itBegin (getOp2Stop it)
      | some (opcode, _, it) =>
          if opcode = OP_CODESEPARATOR then
            itBegin.take (itBegin.length - it.length - 1) ++ writePieces fuel it it
          else writePieces fuel itBegin it

def serializeScriptCode (scriptCode : CScript) : List UInt8 :=
  let nCodeSeparators := countSeparators scriptCode.length scriptCode
  writeCompactSize (scriptCode.length - nCodeSeparators) ++
    writePieces scriptCode.length scriptCode scriptCode

namespace SignatureSerializer

variable (ser : SignatureSerializer)

/-- `txTo.vin[nInput]`. -/
def input (nInput : Nat) : CTxIn := ser.txTo.vin.getD nInput { prevout := COutPoint.null }

/-- `txTo.vout[nOutput]`. -/
def output (nOutput : Nat) : CTxOut := ser.txTo.vout.getD nOutput CTxOut.null

def serializeInput (nInput : Nat) : List UInt8 :=
  let nInput := if ser.fAnyoneCanPay then ser.nIn else nInput
  writeOutPoint (ser.input nInput).prevout ++
    (if nInput ≠ ser.nIn then writeBytes [] else serializeScriptCode ser.scriptCode) ++
    (if nInput ≠ ser.nIn ∧ (ser.fHashSingle || ser.fHashNone) then writeInt32 0
    else writeUInt32 (ser.input nInput).nSequence)

def serializeOutput (nOutput : Nat) : List UInt8 :=
  if ser.fHashSingle ∧ nOutput ≠ ser.nIn then writeFullTxOut CTxOut.null
  else writeFullTxOut (ser.output nOutput)

/-- The `vin` part of `Serialize`. -/
def serializeInputs : List UInt8 :=
  let nInputs := if ser.fAnyoneCanPay then 1 else ser.txTo.vin.length
  writeCompactSize nInputs ++ (List.range nInputs).flatMap ser.serializeInput

/-- The `vout` part of `Serialize`. -/
def serializeOutputs : List UInt8 :=
  let nOutputs :=
    if ser.fHashNone then 0 else if ser.fHashSingle then ser.nIn + 1 else ser.txTo.vout.length
  writeCompactSize nOutputs ++ (List.range nOutputs).flatMap ser.serializeOutput

def serialize : List UInt8 :=
  writeInt32 ser.txTo.nVersion ++ ser.serializeInputs ++ ser.serializeOutputs ++
    writeUInt32 ser.txTo.nLockTime

end SignatureSerializer

/-- What `SignatureHash` hashes, or `none` where it answers that an index is out of
range. -/
def signatureStream (scriptCode : CScript) (txTo : CTransaction) (nIn : Nat) (nHashType : Int32) :
    Option (List UInt8) :=
  if nIn ≥ txTo.vin.length then none
  else if nHashType &&& 0x1f = SIGHASH_SINGLE ∧ nIn ≥ txTo.vout.length then none
  else some ((SignatureSerializer.ofHashType txTo scriptCode nIn nHashType).serialize ++
    writeInt32 nHashType)

/-- `SignatureHash`; `hash` is what a `CHashWriter` makes of its bytes. -/
def signatureHash (hash : List UInt8 → Uint256) (scriptCode : CScript) (txTo : CTransaction)
    (nIn : Nat) (nHashType : Int32) : Uint256 :=
  match signatureStream scriptCode txTo nIn nHashType with
  | none => 1
  | some bytes => hash bytes

/-! ## The reference -/

/-- `nSequence = 0` for the other inputs. -/
def freeSequences (nIn : Nat) (vin : List CTxIn) : List CTxIn :=
  vin.mapIdx fun i txin => if i ≠ nIn then { txin with nSequence := 0 } else txin

/-- The inputs with blank scripts, but the signed one with the script code. -/
def blankScripts (nIn : Nat) (scriptCode : CScript) (vin : List CTxIn) : List CTxIn :=
  (vin.map fun txin => { txin with scriptSig := [] }).modify nIn
    fun txin => { txin with scriptSig := scriptCode }

/-- `vout.resize(nOut + 1)` and `SetNull` below `nOut`. -/
def onlyOutput (nOut : Nat) (vout : List CTxOut) : List CTxOut :=
  (vout.take (nOut + 1)).mapIdx fun i txout => if i < nOut then CTxOut.null else txout

/-- `vin[0] = vin[nIn]; vin.resize(1)`. -/
def onlyInput (nIn : Nat) (vin : List CTxIn) : List CTxIn :=
  (vin.set 0 (vin.getD nIn { prevout := COutPoint.null })).take 1

/-- The copy that `SignatureHashOld` makes, or `none` where it answers that an index is out
of range. -/
def signatureCopy (scriptCode : CScript) (txTo : CTransaction) (nIn : Nat) (nHashType : Int32) :
    Option CMutableTransaction :=
  if nIn ≥ txTo.vin.length then none
  else
    let txTmp := CMutableTransaction.ofTx txTo
    let scriptCode := findAndDelete scriptCode [OP_CODESEPARATOR]
    let txTmp := { txTmp with vin := blankScripts nIn scriptCode txTmp.vin }
    let outputs :=
      if nHashType &&& 0x1f = SIGHASH_NONE then
        some { txTmp with vout := [], vin := freeSequences nIn txTmp.vin }
      else if nHashType &&& 0x1f = SIGHASH_SINGLE then
        if nIn ≥ txTmp.vout.length then none
        else some { txTmp with
          vout := onlyOutput nIn txTmp.vout
          vin := freeSequences nIn txTmp.vin }
      else some txTmp
    outputs.map fun txTmp =>
      if nHashType &&& SIGHASH_ANYONECANPAY ≠ 0 then
        { txTmp with vin := onlyInput nIn txTmp.vin }
      else txTmp

def signatureStreamOld (scriptCode : CScript) (txTo : CTransaction) (nIn : Nat)
    (nHashType : Int32) : Option (List UInt8) :=
  (signatureCopy scriptCode txTo nIn nHashType).map fun txTmp =>
    writeTx txTmp ++ writeInt32 nHashType

/-- `SignatureHashOld`. -/
def signatureHashOld (hash : List UInt8 → Uint256) (scriptCode : CScript) (txTo : CTransaction)
    (nIn : Nat) (nHashType : Int32) : Uint256 :=
  match signatureStreamOld scriptCode txTo nIn nHashType with
  | none => 1
  | some bytes => hash bytes

/-! ## Script codes -/

/-- A code separator has no operand. -/
theorem eq_of_getOp2_separator {it it' : CScript} {vch : List UInt8}
    (h : getOp2 it = some (OP_CODESEPARATOR, vch, it')) : it = OP_CODESEPARATOR :: it' := by
  obtain ⟨operand, hit, hoperand⟩ := eq_of_getOp2 h
  rw [hit, hoperand (by decide), List.nil_append]

/-- The loop of `FindAndDelete` on a script that starts with a separator. -/
theorem findAndDeleteLoop_separator (fuel : Nat) (it : CScript) :
    findAndDeleteLoop [OP_CODESEPARATOR] (fuel + 1) (OP_CODESEPARATOR :: it) =
      findAndDeleteLoop [OP_CODESEPARATOR] fuel it := by
  rw [findAndDeleteLoop, if_pos (by simp)]
  rfl

/-- Another operation is kept. -/
theorem findAndDeleteLoop_op {it' operand : CScript} {opcode : UInt8} {vch : List UInt8}
    (hop : getOp2 (opcode :: (operand ++ it')) = some (opcode, vch, it'))
    (hne : opcode ≠ OP_CODESEPARATOR) (fuel : Nat) :
    findAndDeleteLoop [OP_CODESEPARATOR] (fuel + 1) (opcode :: (operand ++ it')) =
      opcode :: operand ++ findAndDeleteLoop [OP_CODESEPARATOR] fuel it' := by
  have hprefix : [OP_CODESEPARATOR].isPrefixOf (opcode :: (operand ++ it')) = false := by
    rw [List.isPrefixOf, beq_eq_false_iff_ne.mpr hne.symm, Bool.false_and]
  have htake : (opcode :: (operand ++ it')).take
      ((opcode :: (operand ++ it')).length - it'.length) = opcode :: operand := by
    rw [← List.cons_append, List.length_append, Nat.add_sub_cancel, List.take_left]
  rw [findAndDeleteLoop, hprefix, if_neg Bool.false_ne_true, hop]
  dsimp only
  rw [htake]

theorem countSeparators_add_length {it : CScript} (hit : Parses it) {fuel : Nat}
    (hfuel : it.length ≤ fuel) :
    countSeparators fuel it + (findAndDeleteLoop [OP_CODESEPARATOR] fuel it).length =
      it.length := by
  induction hit generalizing fuel with
  | nil =>
      cases fuel with
      | zero => rfl
      | succ fuel => rfl
  | @op pc pc' opcode vch hop hparse ih =>
      have hlt := length_getOp2_lt hop
      obtain ⟨fuel, rfl⟩ : ∃ fuel', fuel = fuel' + 1 := ⟨fuel - 1, by omega⟩
      have hrest : countSeparators fuel pc' +
          (findAndDeleteLoop [OP_CODESEPARATOR] fuel pc').length = pc'.length := ih (by omega)
      rw [countSeparators, hop]
      dsimp only
      by_cases hsep : opcode = OP_CODESEPARATOR
      · subst hsep
        obtain rfl := eq_of_getOp2_separator hop
        rw [if_pos rfl, findAndDeleteLoop_separator, List.length_cons, ← hrest]
        omega
      · obtain ⟨operand, rfl, -⟩ := eq_of_getOp2 hop
        rw [if_neg hsep, findAndDeleteLoop_op hop hsep, List.cons_append, List.length_cons,
          List.length_cons, List.length_append, List.length_append, ← hrest]
        omega

theorem writePieces_eq {it : CScript} (hit : Parses it) {fuel : Nat} (before : CScript)
    (hfuel : it.length ≤ fuel) :
    writePieces fuel (before ++ it) it =
      before ++ findAndDeleteLoop [OP_CODESEPARATOR] fuel it := by
  induction hit generalizing fuel before with
  | nil =>
      have hlast : writeLast (before ++ []) [] = before := by
        rw [writeLast, List.append_nil]
        cases before with
        | nil => rfl
        | cons first before => exact List.take_length
      cases fuel with
      | zero => exact hlast.trans (List.append_nil before).symm
      | succ fuel => exact hlast.trans (List.append_nil before).symm
  | @op pc pc' opcode vch hop hparse ih =>
      have hlt := length_getOp2_lt hop
      obtain ⟨fuel, rfl⟩ : ∃ fuel', fuel = fuel' + 1 := ⟨fuel - 1, by omega⟩
      have hfuel' : pc'.length ≤ fuel := by omega
      rw [writePieces, hop]
      dsimp only
      by_cases hsep : opcode = OP_CODESEPARATOR
      · -- a separator ends the piece in front of it
        subst hsep
        obtain rfl := eq_of_getOp2_separator hop
        have hpiece : (before ++ OP_CODESEPARATOR :: pc').take
            ((before ++ OP_CODESEPARATOR :: pc').length - pc'.length - 1) = before := by
          rw [List.length_append, List.length_cons]
          exact List.take_left' (by omega)
        rw [if_pos rfl, hpiece, findAndDeleteLoop_separator]
        exact congrArg (before ++ ·) (ih [] hfuel')
      · -- any other operation joins the piece
        obtain ⟨operand, rfl, -⟩ := eq_of_getOp2 hop
        have hjoin : before ++ opcode :: (operand ++ pc') =
            before ++ opcode :: operand ++ pc' := by
          rw [List.append_assoc, List.cons_append]
        rw [if_neg hsep, findAndDeleteLoop_op hop hsep, hjoin,
          ih (before ++ opcode :: operand) hfuel', List.append_assoc]

/-- The script in pieces is the script without its separators, after its length. -/
theorem serializeScriptCode_eq {scriptCode : CScript} (hparses : Parses scriptCode) :
    serializeScriptCode scriptCode = writeBytes (findAndDelete scriptCode [OP_CODESEPARATOR]) := by
  have hcount := countSeparators_add_length hparses (Nat.le_refl _)
  have hpieces : writePieces scriptCode.length scriptCode scriptCode =
      findAndDelete scriptCode [OP_CODESEPARATOR] :=
    writePieces_eq hparses [] (Nat.le_refl _)
  have hlength : scriptCode.length - countSeparators scriptCode.length scriptCode =
      (findAndDelete scriptCode [OP_CODESEPARATOR]).length := by
    show _ = (findAndDeleteLoop [OP_CODESEPARATOR] scriptCode.length scriptCode).length
    omega
  show writeCompactSize _ ++ _ = writeCompactSize _ ++ _
  rw [hlength, hpieces]

/-! ## Inputs and outputs -/

/-- A loop over the indices of a list writes the list if each round writes its element. -/
theorem flatMap_range_eq {α : Type} {write : α → List UInt8} {writeAt : Nat → List UInt8}
    {l : List α} (h : ∀ i (hi : i < l.length), writeAt i = write l[i]) :
    (List.range l.length).flatMap writeAt = l.flatMap write := by
  have hmap : (List.range l.length).map writeAt = l.map write := by
    apply List.ext_getElem
    · rw [List.length_map, List.length_map, List.length_range]
    · intro i hi hi'
      rw [List.getElem_map, List.getElem_map, List.getElem_range]
      exact h i _
  rw [List.flatMap_def, hmap, ← List.flatMap_def]

/-- The input at index `i` of the copy. -/
def copiedInput (nIn : Nat) (scriptCode : CScript) (free : Bool) (i : Nat) (txin : CTxIn) :
    CTxIn where
  prevout := txin.prevout
  scriptSig := if i = nIn then scriptCode else []
  nSequence := if i ≠ nIn ∧ free then 0 else txin.nSequence

theorem blankScripts_eq (nIn : Nat) (scriptCode : CScript) (vin : List CTxIn) :
    blankScripts nIn scriptCode vin = vin.mapIdx (copiedInput nIn scriptCode false) := by
  apply List.ext_getElem
  · rw [blankScripts, List.length_modify, List.length_map, List.length_mapIdx]
  · intro i hi hi'
    simp only [blankScripts, List.getElem_modify, List.getElem_map, List.getElem_mapIdx,
      copiedInput]
    by_cases hin : nIn = i
    · simp [hin]
    · simp [hin, Ne.symm hin]

theorem freeSequences_blankScripts (nIn : Nat) (scriptCode : CScript) (vin : List CTxIn) :
    freeSequences nIn (blankScripts nIn scriptCode vin) =
      vin.mapIdx (copiedInput nIn scriptCode true) := by
  rw [blankScripts_eq, freeSequences, List.mapIdx_mapIdx]
  congr 1
  funext i txin
  by_cases hin : i = nIn
  · simp [copiedInput, hin]
  · simp [copiedInput, hin]

theorem onlyInput_eq {nIn : Nat} {vin : List CTxIn} (h : nIn < vin.length) :
    onlyInput nIn vin = [vin[nIn]] := by
  rw [onlyInput, List.getD_eq_getElem _ _ h]
  cases vin with
  | nil => exact absurd h (Nat.not_lt_zero _)
  | cons first rest => rfl

namespace SignatureSerializer

variable {ser : SignatureSerializer}

/-- What is written for the input at `nInput`, unless only the signed one is. -/
theorem serializeInput_eq (hparses : Parses ser.scriptCode) {nInput : Nat}
    (h : nInput < ser.txTo.vin.length) (hpay : ser.fAnyoneCanPay = true → nInput = ser.nIn) :
    ser.serializeInput nInput =
      writeTxIn (copiedInput ser.nIn (findAndDelete ser.scriptCode [OP_CODESEPARATOR])
        (ser.fHashSingle || ser.fHashNone) nInput ser.txTo.vin[nInput]) := by
  have hindex : (if ser.fAnyoneCanPay then ser.nIn else nInput) = nInput := by
    split
    · next hany => exact (hpay hany).symm
    · rfl
  have hinput : ser.input nInput = ser.txTo.vin[nInput] := List.getD_eq_getElem _ _ h
  rw [serializeInput]
  simp only [hindex, hinput, writeTxIn, copiedInput]
  by_cases hin : nInput = ser.nIn
  · simp only [hin, ne_eq, not_true_eq_false, if_false, if_true, false_and,
      serializeScriptCode_eq hparses]
  · simp only [hin, ne_eq, not_false_eq_true, if_false, if_true, true_and]
    congr 1
    split
    · rfl
    · rfl

theorem serializeInputs_eq (hparses : Parses ser.scriptCode) {vin : List CTxIn}
    (h : ser.nIn < ser.txTo.vin.length)
    (hvin : vin = ser.txTo.vin.mapIdx (copiedInput ser.nIn
      (findAndDelete ser.scriptCode [OP_CODESEPARATOR]) (ser.fHashSingle || ser.fHashNone))) :
    ser.serializeInputs =
      writeVector writeTxIn (if ser.fAnyoneCanPay then onlyInput ser.nIn vin else vin) := by
  have hlength : vin.length = ser.txTo.vin.length := by rw [hvin, List.length_mapIdx]
  rw [serializeInputs]
  cases hany : ser.fAnyoneCanPay with
  | true =>
      have hsame : ser.serializeInput 0 = ser.serializeInput ser.nIn := by
        rw [serializeInput, serializeInput]
        simp only [hany, if_true]
      rw [if_pos rfl, if_pos rfl, onlyInput_eq (hlength ▸ h), writeVector,
        List.flatMap_singleton]
      show _ ++ [0].flatMap ser.serializeInput = _
      rw [List.flatMap_singleton, hsame, serializeInput_eq hparses h fun _ => rfl]
      simp only [hvin, List.getElem_mapIdx]
      rfl
  | false =>
      rw [if_neg Bool.false_ne_true, if_neg Bool.false_ne_true, writeVector, ← hlength]
      congr 1
      apply flatMap_range_eq
      intro i hi
      rw [serializeInput_eq hparses (hlength ▸ hi) fun hpay => by cases hany.symm.trans hpay]
      simp only [hvin, List.getElem_mapIdx]

theorem serializeOutputs_none (hnone : ser.fHashNone = true) :
    ser.serializeOutputs = writeVector writeFullTxOut [] := by
  rw [serializeOutputs, hnone]
  rfl

theorem serializeOutputs_all (hnone : ser.fHashNone = false) (hsingle : ser.fHashSingle = false) :
    ser.serializeOutputs = writeVector writeFullTxOut ser.txTo.vout := by
  rw [serializeOutputs, hnone, hsingle, if_neg Bool.false_ne_true, if_neg Bool.false_ne_true,
    writeVector]
  congr 1
  apply flatMap_range_eq
  intro i hi
  rw [serializeOutput, if_neg (by simp [hsingle]), output, List.getD_eq_getElem _ _ hi]

/-- The output at the index of the input, behind null outputs. -/
theorem serializeOutputs_single (hnone : ser.fHashNone = false) (hsingle : ser.fHashSingle = true)
    (h : ser.nIn < ser.txTo.vout.length) :
    ser.serializeOutputs = writeVector writeFullTxOut (onlyOutput ser.nIn ser.txTo.vout) := by
  have hlength : (onlyOutput ser.nIn ser.txTo.vout).length = ser.nIn + 1 := by
    rw [onlyOutput, List.length_mapIdx, List.length_take]
    omega
  rw [serializeOutputs, hnone, hsingle, if_neg Bool.false_ne_true, if_pos rfl, writeVector,
    ← hlength]
  congr 1
  apply flatMap_range_eq
  intro i hi
  simp only [onlyOutput, List.getElem_mapIdx, List.getElem_take, serializeOutput, hsingle,
    true_and]
  by_cases hlast : i = ser.nIn
  · rw [if_neg (not_not.mpr hlast), if_neg (by omega), output, List.getD_eq_getElem]
  · rw [if_pos hlast, if_pos (by omega)]

/-- The serializer writes the copy with these inputs and outputs. -/
theorem serialize_eq (hparses : Parses ser.scriptCode) {txTmp : CMutableTransaction}
    (h : ser.nIn < ser.txTo.vin.length)
    (hversion : txTmp.nVersion = ser.txTo.nVersion)
    (hlock : txTmp.nLockTime = ser.txTo.nLockTime)
    (hvin : txTmp.vin = ser.txTo.vin.mapIdx (copiedInput ser.nIn
      (findAndDelete ser.scriptCode [OP_CODESEPARATOR]) (ser.fHashSingle || ser.fHashNone)))
    (hvout : ser.serializeOutputs = writeVector writeFullTxOut txTmp.vout) :
    ser.serialize = writeTx (if ser.fAnyoneCanPay then
      { txTmp with vin := onlyInput ser.nIn txTmp.vin } else txTmp) := by
  rw [serialize, serializeInputs_eq hparses h hvin, hvout, ← hversion, ← hlock]
  split
  · rfl
  · rfl

end SignatureSerializer

/-! ## Agreement -/

section Agreement

variable {scriptCode : CScript} {txTo : CTransaction} {nIn : Nat} {nHashType : Int32}

variable (scriptCode) in
/-- If no index is out of range, the copy before the inputs are cut has the inputs and
outputs that the serializer writes. -/
theorem exists_signatureCopy (hin : nIn < txTo.vin.length)
    (hout : ¬ (nHashType &&& 0x1f = SIGHASH_SINGLE ∧ nIn ≥ txTo.vout.length))
    {ser : SignatureSerializer}
    (hser : ser = SignatureSerializer.ofHashType txTo scriptCode nIn nHashType) :
    ∃ txTmp : CMutableTransaction,
      signatureCopy scriptCode txTo nIn nHashType =
          some (if ser.fAnyoneCanPay then { txTmp with vin := onlyInput nIn txTmp.vin }
            else txTmp) ∧
        txTmp.nVersion = txTo.nVersion ∧ txTmp.nLockTime = txTo.nLockTime ∧
        txTmp.vin = txTo.vin.mapIdx (copiedInput nIn
          (findAndDelete scriptCode [OP_CODESEPARATOR]) (ser.fHashSingle || ser.fHashNone)) ∧
        ser.serializeOutputs = writeVector writeFullTxOut txTmp.vout := by
  have hto : ser.txTo = txTo := by rw [hser]; rfl
  have hindex : ser.nIn = nIn := by rw [hser]; rfl
  have hany : ser.fAnyoneCanPay = (nHashType &&& SIGHASH_ANYONECANPAY != 0) := by rw [hser]; rfl
  have hfsingle : ser.fHashSingle = (nHashType &&& 0x1f == SIGHASH_SINGLE) := by rw [hser]; rfl
  have hfnone : ser.fHashNone = (nHashType &&& 0x1f == SIGHASH_NONE) := by rw [hser]; rfl
  simp only [signatureCopy, if_neg (Nat.not_le_of_lt hin), hany, bne_iff_ne]
  by_cases hnone : nHashType &&& 0x1f = SIGHASH_NONE
  · have hfnone' : ser.fHashNone = true := by rw [hfnone, hnone]; rfl
    rw [if_pos hnone]
    refine ⟨_, rfl, rfl, rfl, ?_, SignatureSerializer.serializeOutputs_none hfnone'⟩
    rw [hfnone', Bool.or_true]
    exact freeSequences_blankScripts nIn _ _
  · have hfnone' : ser.fHashNone = false := by rw [hfnone, beq_eq_false_iff_ne.mpr hnone]
    rw [if_neg hnone]
    by_cases hsingle : nHashType &&& 0x1f = SIGHASH_SINGLE
    · have hlt : nIn < txTo.vout.length := Nat.lt_of_not_le fun hge => hout ⟨hsingle, hge⟩
      have hfsingle' : ser.fHashSingle = true := by rw [hfsingle, hsingle]; rfl
      have hge : ¬ nIn ≥ (CMutableTransaction.ofTx txTo).vout.length := Nat.not_le_of_lt hlt
      rw [if_pos hsingle, if_neg hge]
      refine ⟨_, rfl, rfl, rfl, ?_, ?_⟩
      · rw [hfsingle', Bool.true_or]
        exact freeSequences_blankScripts nIn _ _
      · rw [SignatureSerializer.serializeOutputs_single hfnone' hfsingle' (by rwa [hindex, hto]),
          hindex, hto]
        rfl
    · have hfsingle' : ser.fHashSingle = false := by rw [hfsingle, beq_eq_false_iff_ne.mpr hsingle]
      rw [if_neg hsingle]
      refine ⟨_, rfl, rfl, rfl, ?_, ?_⟩
      · rw [hfsingle', hfnone', Bool.or_false]
        exact blankScripts_eq nIn _ _
      · rw [SignatureSerializer.serializeOutputs_all hfnone' hfsingle', hto]
        rfl

/-- Both write the same bytes, or both find an index out of range. -/
theorem signatureStream_eq (hparses : Parses scriptCode) :
    signatureStream scriptCode txTo nIn nHashType =
      signatureStreamOld scriptCode txTo nIn nHashType := by
  rw [signatureStream, signatureStreamOld]
  by_cases hin : nIn ≥ txTo.vin.length
  · rw [if_pos hin, signatureCopy, if_pos hin]
    rfl
  · rw [if_neg hin]
    by_cases hout : nHashType &&& 0x1f = SIGHASH_SINGLE ∧ nIn ≥ txTo.vout.length
    · have hnone : nHashType &&& 0x1f ≠ SIGHASH_NONE := hout.1 ▸ by decide
      have hcopy : signatureCopy scriptCode txTo nIn nHashType = none := by
        simp only [signatureCopy, if_neg hin, if_neg hnone, if_pos hout.1]
        rw [if_pos (show nIn ≥ (CMutableTransaction.ofTx txTo).vout.length from hout.2)]
        rfl
      rw [if_pos hout, hcopy]
      rfl
    · obtain ⟨txTmp, hcopy, hversion, hlock, hvin, hvout⟩ :=
        exists_signatureCopy scriptCode (Nat.lt_of_not_le hin) hout rfl
      rw [if_neg hout, hcopy, Option.map_some, SignatureSerializer.serialize_eq hparses
        (Nat.lt_of_not_le hin) hversion hlock hvin hvout]
      rfl

end Agreement

/-- For a script code all of whose operations parse, the serializer and the copy of the
reference write the same bytes and give the same digest. -/
theorem signatureHash_eq {scriptCode : CScript} (hparses : Parses scriptCode)
    (hash : List UInt8 → Uint256) (txTo : CTransaction) (nIn : Nat) (nHashType : Int32) :
    signatureStream scriptCode txTo nIn nHashType =
        signatureStreamOld scriptCode txTo nIn nHashType ∧
      signatureHash hash scriptCode txTo nIn nHashType =
        signatureHashOld hash scriptCode txTo nIn nHashType := by
  have hstream : signatureStream scriptCode txTo nIn nHashType =
      signatureStreamOld scriptCode txTo nIn nHashType := signatureStream_eq hparses
  refine ⟨hstream, ?_⟩
  rw [signatureHash, signatureHashOld, hstream]

/-- A separator between two pushes, the first of which holds the byte of a separator. -/
theorem signatureHash_eq_separator :
    Parses [1, 0xab, 0xab, 0x51] ∧
      signatureStream [1, 0xab, 0xab, 0x51] ⟨0, 1, [{ prevout := ⟨7, 0⟩ }], [⟨5, [0x51], -10⟩], 0⟩
          0 0x81 =
        signatureStreamOld [1, 0xab, 0xab, 0x51]
          ⟨0, 1, [{ prevout := ⟨7, 0⟩ }], [⟨5, [0x51], -10⟩], 0⟩ 0 0x81 := by
  have hpush : getOp2 [1, 0xab, 0xab, 0x51] = some (1, [0xab], [0xab, 0x51]) := by rfl
  have hsep : getOp2 [0xab, 0x51] = some (0xab, [], [0x51]) := by rfl
  have hparses : Parses [1, 0xab, 0xab, 0x51] := .op hpush (.op hsep (.op (by rfl) .nil))
  exact ⟨hparses, (signatureHash_eq hparses (fun _ => 0) _ 0 0x81).1⟩

end Agrarian.Script
