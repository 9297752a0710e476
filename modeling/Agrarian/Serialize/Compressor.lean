import Agrarian.Serialize.VarInt

/-!
# Compressed amounts, scripts and outputs

The compact forms of `compressor.h`.  An amount is divided by the largest
power of ten that divides it, up to `10 ^ 9`; a script of one of six special
shapes keeps only its hash or its public key.

`CompressAmount` computes in 64 bits, and the code of an amount can need
more: `amountCode` is the code without the wrap-around, and an amount is read
back when its code fits.  Uncompressed public keys are decompressed by the
elliptic curve library, which is a parameter.
-/

namespace Agrarian.Serialize

open Agrarian.Lib.ByteCodec

/-! ## Amounts -/

/-- `while (((n % 10) == 0) && e < 9) { n /= 10; e++; }`, with at most nine
rounds left. -/
def stripZeros : Nat → Nat → Nat → Nat × Nat
  | 0, n, e => (n, e)
  | fuel + 1, n, e =>
      if n % 10 = 0 ∧ e < 9 then stripZeros fuel (n / 10) (e + 1) else (n, e)

/-- The code of an amount as an unbounded number. -/
def amountCode (n : Nat) : Nat :=
  if n = 0 then 0
  else
    let (n, e) := stripZeros 9 n 0
    if e < 9 then
      let d := n % 10
      let n := n / 10
      1 + (n * 9 + d - 1) * 10 + e
    else 1 + (n - 1) * 10 + 9

/-- `CompressAmount`: the code in a `uint64_t`. -/
def compressAmount (n : Nat) : Nat := amountCode n % 2 ^ 64

def decompressAmount (x : Nat) : Nat :=
  if x = 0 then 0
  else
    let x := x - 1
    let e := x % 10
    let x := x / 10
    let n :=
      if e < 9 then
        let d := x % 9 + 1
        let x := x / 9
        x * 10 + d
      else x + 1
    n * 10 ^ e % 2 ^ 64

/-- The stripped number times the power of ten is the number; only the ninth
division may leave a last digit of zero. -/
theorem stripZeros_spec (fuel : Nat) :
    ∀ n e, n ≠ 0 → fuel + e = 9 →
      (stripZeros fuel n e).1 * 10 ^ (stripZeros fuel n e).2 = n * 10 ^ e ∧
        (stripZeros fuel n e).1 ≠ 0 ∧ (stripZeros fuel n e).2 ≤ 9 ∧
        ((stripZeros fuel n e).2 < 9 → (stripZeros fuel n e).1 % 10 ≠ 0) := by
  induction fuel with
  | zero =>
      intro n e hn he
      rw [stripZeros]
      refine ⟨rfl, hn, ?_, fun h => ?_⟩
      · show e ≤ 9
        omega
      · have : e < 9 := h
        omega
  | succ fuel ih =>
      intro n e hn he
      rw [stripZeros]
      by_cases hdiv : n % 10 = 0 ∧ e < 9
      · rw [if_pos hdiv]
        obtain ⟨hval, hrest⟩ := ih (n / 10) (e + 1) (by omega) (by omega)
        refine ⟨?_, hrest⟩
        have hten : n / 10 * 10 = n := by omega
        rw [hval, Nat.pow_succ, Nat.mul_comm (10 ^ e), ← Nat.mul_assoc, hten]
      · rw [if_neg hdiv]
        refine ⟨rfl, hn, ?_, fun h => ?_⟩
        · show e ≤ 9
          omega
        · have : e < 9 := h
          show n % 10 ≠ 0
          omega

theorem decompressAmount_amountCode {n : Nat} (hn : n < 2 ^ 64) :
    decompressAmount (amountCode n) = n := by
  by_cases hzero : n = 0
  · subst hzero
    rfl
  obtain ⟨hval, hne, he, hdigit⟩ := stripZeros_spec 9 n 0 hzero rfl
  unfold amountCode
  rw [if_neg hzero]
  generalize stripZeros 9 n 0 = stripped at hval hne he hdigit
  obtain ⟨m, e⟩ := stripped
  simp only [Nat.pow_zero, Nat.mul_one] at hval hne he hdigit ⊢
  by_cases hlt : e < 9
  · have hd := hdigit hlt
    have hlow : (m / 10 * 9 + m % 10 - 1) % 9 + 1 = m % 10 := by omega
    have hhigh : (m / 10 * 9 + m % 10 - 1) / 9 = m / 10 := by omega
    have hcode : (1 + (m / 10 * 9 + m % 10 - 1) * 10 + e - 1) % 10 = e ∧
        (1 + (m / 10 * 9 + m % 10 - 1) * 10 + e - 1) / 10 =
          m / 10 * 9 + m % 10 - 1 := by omega
    have hm : m / 10 * 10 + m % 10 = m := by omega
    rw [if_pos hlt, decompressAmount, if_neg (by omega)]
    simp only [hcode, hlt, if_true, hlow, hhigh, hm, hval]
    exact Nat.mod_eq_of_lt hn
  · have hnine : e = 9 := by omega
    subst hnine
    have hcode : (1 + (m - 1) * 10 + 9 - 1) % 10 = 9 ∧
        (1 + (m - 1) * 10 + 9 - 1) / 10 = m - 1 := by omega
    have hm : m - 1 + 1 = m := by omega
    rw [if_neg hlt, decompressAmount, if_neg (by omega)]
    simp only [hcode, hm, Nat.lt_irrefl, if_false, hval]
    exact Nat.mod_eq_of_lt hn

/-- An amount is read back when its code fits in 64 bits. -/
theorem decompressAmount_compressAmount {n : Nat} (hn : n < 2 ^ 64)
    (hfit : amountCode n < 2 ^ 64) :
    decompressAmount (compressAmount n) = n := by
  rw [compressAmount, Nat.mod_eq_of_lt hfit, decompressAmount_amountCode hn]

/-! ## Scripts -/

/-- What the script compressor needs to know of public keys: whether a key
is a point of the curve, and the uncompressed form of a compressed key. -/
structure PubKeyOps where
  isFullyValid : List UInt8 → Bool
  decompress : List UInt8 → Option (List UInt8)

/-- The compressed form of an uncompressed public key. -/
def compressedPubKey (pubkey : List UInt8) : List UInt8 :=
  (2 ||| (pubkey.getD 64 0 &&& 1)) :: (pubkey.drop 1).take 32

/-- Decompressing the compressed form of a valid key gives the key back: a
point of the curve is determined by its first coordinate and the parity of
the second. -/
def PubKeyOps.Lawful (ops : PubKeyOps) : Prop :=
  ∀ pubkey : List UInt8, pubkey.length = 65 → pubkey.getD 0 0 = 0x04 →
    ops.isFullyValid pubkey = true →
    ops.decompress (compressedPubKey pubkey) = some pubkey

variable (ops : PubKeyOps)

open CScript

def isToKeyID (script : CScript) : Option (List UInt8) :=
  if script.length = 25 ∧ script.getD 0 0 = OP_DUP ∧
      script.getD 1 0 = OP_HASH160 ∧ script.getD 2 0 = 20 ∧
      script.getD 23 0 = OP_EQUALVERIFY ∧ script.getD 24 0 = OP_CHECKSIG then
    some ((script.drop 3).take 20)
  else none

def isToScriptID (script : CScript) : Option (List UInt8) :=
  if script.length = 23 ∧ script.getD 0 0 = OP_HASH160 ∧
      script.getD 1 0 = 20 ∧ script.getD 22 0 = OP_EQUAL then
    some ((script.drop 2).take 20)
  else none

def isToPubKey (script : CScript) : Option (List UInt8) :=
  if script.length = 35 ∧ script.getD 0 0 = 33 ∧
      script.getD 34 0 = OP_CHECKSIG ∧
      (script.getD 1 0 = 0x02 ∨ script.getD 1 0 = 0x03) then
    some ((script.drop 1).take 33)
  else if script.length = 67 ∧ script.getD 0 0 = 65 ∧
      script.getD 66 0 = OP_CHECKSIG ∧ script.getD 1 0 = 0x04 then
    let pubkey := (script.drop 1).take 65
    if ops.isFullyValid pubkey then some pubkey else none
  else none

/-- What `Compress` keeps of a public key. -/
def compressPubKey (pubkey : List UInt8) : Option (List UInt8) :=
  if pubkey.getD 0 0 = 0x02 ∨ pubkey.getD 0 0 = 0x03 then
    some (pubkey.getD 0 0 :: (pubkey.drop 1).take 32)
  else if pubkey.getD 0 0 = 0x04 then
    some ((0x04 ||| (pubkey.getD 64 0 &&& 0x01)) :: (pubkey.drop 1).take 32)
  else none

/-- The compressed script, when it has one of the special shapes. -/
def compressScript (script : CScript) : Option (List UInt8) :=
  match isToKeyID script with
  | some keyID => some (0x00 :: keyID)
  | none =>
    match isToScriptID script with
    | some scriptID => some (0x01 :: scriptID)
    | none =>
      match isToPubKey ops script with
      | some pubkey => compressPubKey pubkey
      | none => none

def nSpecialScripts : Nat := 6

def getSpecialSize (nSize : Nat) : Nat :=
  if nSize = 0 ∨ nSize = 1 then 20
  else if nSize = 2 ∨ nSize = 3 ∨ nSize = 4 ∨ nSize = 5 then 32
  else 0

/-- The script of a special shape; `none` leaves the script as it was. -/
def decompressScript (nSize : Nat) (vch : List UInt8) : Option CScript :=
  match nSize with
  | 0x00 => some ([OP_DUP, OP_HASH160, 20] ++ vch ++
      [OP_EQUALVERIFY, OP_CHECKSIG])
  | 0x01 => some ([OP_HASH160, 20] ++ vch ++ [OP_EQUAL])
  | 0x02 | 0x03 => some ([33, UInt8.ofNat nSize] ++ vch ++ [OP_CHECKSIG])
  | 0x04 | 0x05 =>
      (ops.decompress (UInt8.ofNat (nSize - 2) :: vch)).map fun pubkey =>
        [65] ++ pubkey ++ [OP_CHECKSIG]
  | _ => none

def writeScript (script : CScript) : List UInt8 :=
  match compressScript ops script with
  | some compr => compr
  | none => writeVarInt ((script.length + nSpecialScripts) % 2 ^ 32) ++ script

/-- Read into an empty script. -/
def readScript : Reader CScript := do
  let nSize ← readVarInt 32
  if nSize < nSpecialScripts then do
    let vch ← readBytes (getSpecialSize nSize)
    pure ((decompressScript ops nSize vch).getD [])
  else readBytes (nSize - nSpecialScripts)

/-- The code byte of a special script is its own variable-length integer. -/
private theorem reads_code {n : Nat} (hn : n ≤ 0x7F) :
    Reads (readVarInt 32) [UInt8.ofNat n] n := by
  rw [← writeVarInt_of_le hn]
  exact reads_varInt (by omega)

/-- A special script is read back from its code and its payload. -/
theorem reads_special {nSize : Nat} {vch script : List UInt8}
    (hsmall : nSize < nSpecialScripts)
    (hlen : vch.length = getSpecialSize nSize)
    (hscript : decompressScript ops nSize vch = some script) :
    Reads (readScript ops) (UInt8.ofNat nSize :: vch) script := by
  have hsix : nSize < 6 := hsmall
  show Reads (readScript ops) ([UInt8.ofNat nSize] ++ vch) script
  refine (reads_code (by omega)).bind ?_
  rw [if_pos hsmall]
  refine (reads_bytes_of_length hlen).bind_pure ?_
  rw [hscript, Option.getD_some]
  exact reads_pure script

/-! ### The special shapes

A script of a special shape is a few fixed bytes around the payload. -/

private theorem framed {script before after : CScript} (n : Nat)
    (hbefore : script.take before.length = before)
    (hafter : script.drop (before.length + n) = after) :
    before ++ (script.drop before.length).take n ++ after = script := by
  calc before ++ (script.drop before.length).take n ++ after
      = script.take before.length ++ ((script.drop before.length).take n ++
          (script.drop before.length).drop n) := by
        rw [hbefore, List.drop_drop, hafter, List.append_assoc]
    _ = script := by rw [List.take_append_drop, List.take_append_drop]

private theorem take_succ_getD {script : CScript} {k : Nat}
    (hk : k < script.length) :
    script.take (k + 1) = script.take k ++ [script.getD k 0] := by
  rw [List.take_succ_eq_append_getElem hk, List.getD_eq_getElem _ _ hk]

private theorem drop_getD {script : CScript} {k : Nat}
    (hk : k < script.length) :
    script.drop k = script.getD k 0 :: script.drop (k + 1) := by
  rw [List.drop_eq_getElem_cons hk, List.getD_eq_getElem _ _ hk]

private theorem isToKeyID_eq_some {script keyID : List UInt8}
    (h : isToKeyID script = some keyID) :
    keyID.length = 20 ∧ decompressScript ops 0x00 keyID = some script := by
  rw [isToKeyID, Option.ite_none_right_eq_some] at h
  obtain ⟨⟨hlen, h0, h1, h2, h23, h24⟩, hkey⟩ := h
  obtain rfl := Option.some.inj hkey
  have hbefore : script.take 3 = [OP_DUP, OP_HASH160, 20] := by
    rw [take_succ_getD (by omega), take_succ_getD (by omega),
      take_succ_getD (by omega), List.take_zero, h0, h1, h2]
    rfl
  have hafter : script.drop 23 = [OP_EQUALVERIFY, OP_CHECKSIG] := by
    rw [drop_getD (by omega), drop_getD (by omega),
      List.drop_eq_nil_of_le (by omega), h23, h24]
  refine ⟨by rw [List.length_take, List.length_drop]; omega, ?_⟩
  exact congrArg some (framed 20 hbefore hafter)

private theorem isToScriptID_eq_some {script scriptID : List UInt8}
    (h : isToScriptID script = some scriptID) :
    scriptID.length = 20 ∧
      decompressScript ops 0x01 scriptID = some script := by
  rw [isToScriptID, Option.ite_none_right_eq_some] at h
  obtain ⟨⟨hlen, h0, h1, h22⟩, hkey⟩ := h
  obtain rfl := Option.some.inj hkey
  have hbefore : script.take 2 = [OP_HASH160, 20] := by
    rw [take_succ_getD (by omega), take_succ_getD (by omega), List.take_zero,
      h0, h1]
    rfl
  have hafter : script.drop 22 = [OP_EQUAL] := by
    rw [drop_getD (by omega), List.drop_eq_nil_of_le (by omega), h22]
  refine ⟨by rw [List.length_take, List.length_drop]; omega, ?_⟩
  exact congrArg some (framed 20 hbefore hafter)

/-- A script that pays to a key in compressed form keeps that key. -/
private theorem decompress_compressedKey {script : CScript}
    (hlen : script.length = 35) (h0 : script.getD 0 0 = 33)
    (h34 : script.getD 34 0 = OP_CHECKSIG) {b : UInt8}
    (h1 : script.getD 1 0 = b) :
    [33, b] ++ (script.drop 2).take 32 ++ [OP_CHECKSIG] = script := by
  have hbefore : script.take 2 = [33, b] := by
    rw [take_succ_getD (by omega), take_succ_getD (by omega),
      List.take_zero, h0, h1]
    rfl
  have hafter : script.drop 34 = [OP_CHECKSIG] := by
    rw [drop_getD (by omega), List.drop_eq_nil_of_le (by omega), h34]
  exact framed 32 hbefore hafter

/-- The code of an uncompressed key says the parity of its second
coordinate, which the compressed form needs. -/
private theorem parity_code (b : UInt8) :
    (0x04 ||| (b &&& 0x01) = 0x04 ∧ 2 ||| (b &&& 1) = 2) ∨
      (0x04 ||| (b &&& 0x01) = 0x05 ∧ 2 ||| (b &&& 1) = 3) := by
  revert b
  decide +kernel

/-- A compressed key is stored as it is, an uncompressed one by its first
coordinate and the parity of the second. -/
private theorem isToPubKey_eq_some (hops : ops.Lawful)
    {script pubkey : List UInt8} (h : isToPubKey ops script = some pubkey) :
    ∃ nSize vch, compressPubKey pubkey = some (UInt8.ofNat nSize :: vch) ∧
      nSize < nSpecialScripts ∧ vch.length = getSpecialSize nSize ∧
      decompressScript ops nSize vch = some script := by
  rw [isToPubKey] at h
  split at h
  · next hshape =>
      obtain ⟨hlen, h0, h34, h1⟩ := hshape
      obtain rfl := Option.some.inj h
      have hpub : (script.drop 1).take 33 =
          script.getD 1 0 :: (script.drop 2).take 32 := by
        rw [drop_getD (by omega : 1 < script.length)]
        rfl
      have hpay : ((script.drop 2).take 32).length = 32 := by
        rw [List.length_take, List.length_drop]
        omega
      have hdrop : ∀ b : UInt8,
          ((b :: (script.drop 2).take 32).drop 1).take 32 =
            (script.drop 2).take 32 := by
        intro b
        rw [List.drop_succ_cons, List.drop_zero, List.take_take]
        rfl
      rw [hpub]
      rcases h1 with h1 | h1
      · refine ⟨2, (script.drop 2).take 32, ?_, by decide, hpay,
          congrArg some (decompress_compressedKey hlen h0 h34 h1)⟩
        rw [compressPubKey, hdrop, h1]
        rfl
      · refine ⟨3, (script.drop 2).take 32, ?_, by decide, hpay,
          congrArg some (decompress_compressedKey hlen h0 h34 h1)⟩
        rw [compressPubKey, hdrop, h1]
        rfl
  · rw [Option.ite_none_right_eq_some] at h
    obtain ⟨⟨hlen, h0, h66, h1⟩, h⟩ := h
    rw [Option.ite_none_right_eq_some] at h
    obtain ⟨hvalid, hkey⟩ := h
    have hbefore : script.take 1 = [65] := by
      rw [take_succ_getD (by omega), List.take_zero, h0]
      rfl
    have hafter : script.drop 66 = [OP_CHECKSIG] := by
      rw [drop_getD (by omega), List.drop_eq_nil_of_le (by omega), h66]
    have hscript : [65] ++ pubkey ++ [OP_CHECKSIG] = script := by
      rw [← Option.some.inj hkey]
      exact framed 65 hbefore hafter
    have hfirst : pubkey.getD 0 0 = 0x04 := by
      rw [← Option.some.inj hkey, drop_getD (by omega : 1 < script.length), h1]
      rfl
    have hlength : pubkey.length = 65 := by
      rw [← Option.some.inj hkey, List.length_take, List.length_drop]
      omega
    have hpay : ((pubkey.drop 1).take 32).length = 32 := by
      rw [List.length_take, List.length_drop]
      omega
    have hpoint := hops pubkey hlength hfirst
      (by rw [← Option.some.inj hkey]; exact hvalid)
    have hcompr : compressPubKey pubkey = some
        ((0x04 ||| (pubkey.getD 64 0 &&& 0x01)) ::
          (pubkey.drop 1).take 32) := by
      rw [compressPubKey, hfirst, if_neg (by decide), if_pos rfl]
    rw [compressedPubKey] at hpoint
    rcases parity_code (pubkey.getD 64 0) with ⟨hcode, hhead⟩ | ⟨hcode, hhead⟩
    · rw [hcode] at hcompr
      rw [hhead] at hpoint
      refine ⟨4, _, hcompr, by decide, hpay, ?_⟩
      show (ops.decompress (2 :: _)).map _ = _
      rw [hpoint, Option.map_some, hscript]
    · rw [hcode] at hcompr
      rw [hhead] at hpoint
      refine ⟨5, _, hcompr, by decide, hpay, ?_⟩
      show (ops.decompress (3 :: _)).map _ = _
      rw [hpoint, Option.map_some, hscript]

/-- **Scripts are read back**, the special ones from their compressed
form. -/
theorem reads_script (hops : ops.Lawful) {script : CScript}
    (hlen : script.length + nSpecialScripts < 2 ^ 32) :
    Reads (readScript ops) (writeScript ops script) script := by
  unfold writeScript compressScript
  cases hkey : isToKeyID script with
  | some keyID =>
      obtain ⟨hsize, hscript⟩ := isToKeyID_eq_some ops hkey
      exact reads_special ops (by decide) hsize hscript
  | none =>
      cases hid : isToScriptID script with
      | some scriptID =>
          obtain ⟨hsize, hscript⟩ := isToScriptID_eq_some ops hid
          exact reads_special ops (by decide) hsize hscript
      | none =>
          cases hpub : isToPubKey ops script with
          | some pubkey =>
              obtain ⟨nSize, vch, hcompr, hsmall, hsize, hscript⟩ :=
                isToPubKey_eq_some ops hops hpub
              simp only [hcompr]
              exact reads_special ops hsmall hsize hscript
          | none =>
              simp only
              rw [Nat.mod_eq_of_lt hlen]
              refine (reads_varInt hlen).bind ?_
              rw [if_neg (by omega), Nat.add_sub_cancel]
              exact reads_bytes script

/-! ## Outputs -/

def writeTxOut (txout : CTxOut) : List UInt8 :=
  writeVarInt (compressAmount (txout.nValue % 2 ^ 64).toNat) ++
    writeScript ops txout.scriptPubKey

/-- The amount is read as a `uint64_t` and stored in a signed one. -/
def readTxOut : Reader CTxOut := do
  let nVal ← readVarInt 64
  let scriptPubKey ← readScript ops
  pure { nValue := (decompressAmount nVal : Int).bmod (2 ^ 64), scriptPubKey }

end Agrarian.Serialize
