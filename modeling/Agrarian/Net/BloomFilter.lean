import Agrarian.Lib.PackedBits
import Agrarian.Script.ScriptNum
import Agrarian.Script.Standard
import Agrarian.Serialize.Stream

/-!
# Bloom filters

`CBloomFilter` of `bloom.cpp`, which a peer loads so that only transactions that concern it are
relayed to it.  Calls that read or write outside `vData`, divide by zero or throw are told apart
from calls that return.

Two flags spare a look at the bits: a full filter has all of them set, and an empty one contains
no key.  `Merge` adds the bits of another filter and leaves the flags as they are.
-/

namespace Agrarian.Net

open Agrarian.Lib.ByteCodec Agrarian.Lib.PackedBits Agrarian.Script Agrarian.Serialize

/-! ## The hash -/

def ROTL32 (x r : UInt32) : UInt32 := (x <<< r) ||| (x >>> (32 - r))

/-- A block of the body, or the bytes of the tail. -/
def mixWord (k1 : UInt32) : UInt32 := ROTL32 (k1 * 0xcc9e2d51) 15 * 0x1b873593

/-- `MurmurHash3`, with words that are least significant byte first. -/
def murmurHash3 (nHashSeed : UInt32) (vDataToHash : List UInt8) : UInt32 :=
  let nblocks := vDataToHash.length / 4
  let body := (List.range nblocks).foldl (fun h1 i =>
    let k1 := UInt32.ofNat (ofLE ((vDataToHash.drop (4 * i)).take 4))
    ROTL32 (h1 ^^^ mixWord k1) 13 * 5 + 0xe6546b64) nHashSeed
  let tail := vDataToHash.drop (4 * nblocks)
  let h1 := if tail = [] then body else body ^^^ mixWord (UInt32.ofNat (ofLE tail))
  let h1 := h1 ^^^ UInt32.ofNat vDataToHash.length
  let h1 := (h1 ^^^ (h1 >>> 16)) * 0x85ebca6b
  let h1 := (h1 ^^^ (h1 >>> 13)) * 0xc2b2ae35
  h1 ^^^ (h1 >>> 16)

example : murmurHash3 0xFBA4C795 [] = 0x6a396f08 := by decide +kernel

/-! ## The filter -/

def MAX_BLOOM_FILTER_SIZE : Nat := 36000
def MAX_HASH_FUNCS : Nat := 50
def BLOOM_UPDATE_ALL : UInt8 := 1
def BLOOM_UPDATE_P2PUBKEY_ONLY : UInt8 := 2
def BLOOM_UPDATE_MASK : UInt8 := 3

/-- What a key is hashed from. -/
abbrev Key := List UInt8

/-- How a call fails. -/
inductive Fault
  | modZero
  | outOfRange
  | thrown
  deriving DecidableEq, Repr

structure CBloomFilter where
  vData : List UInt8
  isFull : Bool
  isEmpty : Bool
  nHashFuncs : Nat
  nTweak : UInt32
  nFlags : UInt8
  deriving DecidableEq, Repr

/-- The serialized outpoint. -/
def outPointKey (outpoint : COutPoint) : Key := writeUint256 outpoint.hash ++ natLE 4 outpoint.n

def hashKey (hash : Uint256) : Key := writeUint256 hash

namespace CBloomFilter

def isWithinSizeConstraints (f : CBloomFilter) : Bool :=
  f.vData.length ≤ MAX_BLOOM_FILTER_SIZE && f.nHashFuncs ≤ MAX_HASH_FUNCS

/-- The number that a hash function gives to a key. -/
def hashValue (f : CBloomFilter) (nHashNum : Nat) (vDataToHash : Key) : Nat :=
  (murmurHash3 (UInt32.ofNat nHashNum * 0xFBA4C795 + f.nTweak) vDataToHash).toNat

/-- `Hash`, which fails if there are no bits. -/
def hash (f : CBloomFilter) (nHashNum : Nat) (vDataToHash : Key) : Except Fault Nat :=
  if f.vData.length * 8 = 0 then .error .modZero
  else .ok (f.hashValue nHashNum vDataToHash % (f.vData.length * 8))

/-- The loop of `insert` over hash functions. -/
def insertBits (vKey : Key) : List Nat → CBloomFilter → Except Fault CBloomFilter
  | [], f => .ok f
  | i :: rest, f =>
      match f.hash i vKey with
      | .error fault => .error fault
      | .ok nIndex =>
          match addBit f.vData nIndex with
          | none => .error .outOfRange
          | some vData => insertBits vKey rest { f with vData }

def insert (f : CBloomFilter) (vKey : Key) : Except Fault CBloomFilter :=
  if f.isFull then .ok f
  else (insertBits vKey (List.range f.nHashFuncs) f).map fun f => { f with isEmpty := false }

/-- The loop of `contains`. -/
def containsBits (f : CBloomFilter) (vKey : Key) : List Nat → Except Fault Bool
  | [] => .ok true
  | i :: rest =>
      match f.hash i vKey with
      | .error fault => .error fault
      | .ok nIndex =>
          if f.vData.length ≤ nIndex / 8 then .error .outOfRange
          else if !hasBit f.vData nIndex then .ok false
          else f.containsBits vKey rest

def contains (f : CBloomFilter) (vKey : Key) : Except Fault Bool :=
  if f.isFull then .ok true
  else if f.isEmpty then .ok false
  else f.containsBits vKey (List.range f.nHashFuncs)

def matchesAll (f : CBloomFilter) : Bool := f.vData.all (· == 0xff)

/-- `vData[i] = b`. -/
def writeByte (vData : List UInt8) (i : Nat) (b : UInt8) : Except Fault (List UInt8) :=
  if i < vData.length then .ok (vData.set i b) else .error .outOfRange

def merge (f filter : CBloomFilter) : Except Fault (Bool × CBloomFilter) :=
  if !f.matchesAll && !filter.matchesAll then
    if ¬ (filter.vData.length = f.vData.length ∧ filter.nHashFuncs = f.nHashFuncs ∧
        filter.nTweak = f.nTweak) then
      .ok (false, f)
    else .ok (true, { f with vData := orBytes f.vData filter.vData })
  else (writeByte [] 0 0xff).map fun vData => (true, { f with vData })

def updateEmptyFull (f : CBloomFilter) : CBloomFilter :=
  { f with
    isFull := f.vData.all (· == 0xff)
    isEmpty := f.vData.all (· == 0) }

end CBloomFilter

/-! ## Transactions -/

/-- What the operations of a script push, up to one that is incomplete. -/
def pushedData : Nat → CScript → List (List UInt8)
  | 0, _ => []
  | fuel + 1, pc =>
      match getOp2 pc with
      | none => []
      | some (_, data, pc) => data :: pushedData fuel pc

def scriptData (script : CScript) : List (List UInt8) := pushedData script.length script

/-- What is looked up for an operation of an output: the coin, if the output mints one. -/
def outputData (txout : CTxOut) (data : List UInt8) : Except Fault (List UInt8) :=
  if txout.isZerocoinMint then
    if txout.scriptPubKey.length < 6 then .error .thrown
    else .ok (txout.scriptPubKey.drop 6)
  else .ok data

/-- `CoinSpend::ParseSerial`. -/
def parseSerial : Reader (List UInt8) := do
  let nSize ← readCompactSize
  modify (List.drop nSize)
  let nSize ← readCompactSize
  modify (List.drop nSize)
  let vch ← readByteVector
  pure (CScriptNum.serialize (setVch vch))

/-- What is looked up for an operation of an input: the serial, if the input spends a coin. -/
def inputData (txin : CTxIn) (data : List UInt8) : Except Fault (List UInt8) :=
  if txin.isZerocoinSpend then
    if txin.scriptSig.length < 44 then .error .thrown
    else
      match parseSerial.run (txin.scriptSig.drop 44) with
      | none => .error .thrown
      | some (serial, _) => .ok serial
  else .ok data

namespace CBloomFilter

/-- The loop over the operations of a script: whether the filter contains what one of them
looks up. -/
def matchesData (f : CBloomFilter) (lookUp : List UInt8 → Except Fault (List UInt8)) :
    List (List UInt8) → Except Fault Bool
  | [] => .ok false
  | data :: rest =>
      match lookUp data with
      | .error fault => .error fault
      | .ok data =>
          if data = [] then f.matchesData lookUp rest
          else
            match f.contains data with
            | .error fault => .error fault
            | .ok found => if found then .ok true else f.matchesData lookUp rest

/-- Whether the outpoint of an output that matches is inserted. -/
def updates (f : CBloomFilter) (scriptPubKey : CScript) : Except Fault Bool :=
  if f.nFlags &&& BLOOM_UPDATE_MASK = BLOOM_UPDATE_ALL then pure true
  else if f.nFlags &&& BLOOM_UPDATE_MASK = BLOOM_UPDATE_P2PUBKEY_ONLY then
    match solver scriptPubKey with
    | none => .error .thrown
    | some (standard, type, _) => pure (standard && (type = .TX_PUBKEY || type = .TX_MULTISIG))
  else pure false

/-- The loop over the outputs from an index on: whether one has matched, the filter, and the
outpoints that were inserted. -/
def matchOutputs (hash : Uint256) : Nat → List CTxOut → Bool × CBloomFilter × List COutPoint →
    Except Fault (Bool × CBloomFilter × List COutPoint)
  | _, [], r => .ok r
  | i, txout :: rest, (fFound, f, inserted) => do
      let matched ← f.matchesData (outputData txout) (scriptData txout.scriptPubKey)
      if matched then do
        let updated ← f.updates txout.scriptPubKey
        if updated then do
          let f ← f.insert (outPointKey ⟨hash, i⟩)
          matchOutputs hash (i + 1) rest (true, f, ⟨hash, i⟩ :: inserted)
        else matchOutputs hash (i + 1) rest (true, f, inserted)
      else matchOutputs hash (i + 1) rest (fFound, f, inserted)

/-- The loop over the inputs. -/
def matchesInputs (f : CBloomFilter) : List CTxIn → Except Fault Bool
  | [] => .ok false
  | txin :: rest => do
      let spent ← f.contains (outPointKey txin.prevout)
      if spent then pure true
      else do
        let matched ← f.matchesData (inputData txin) (scriptData txin.scriptSig)
        if matched then pure true else f.matchesInputs rest

/-- `IsRelevantAndUpdate`, with the outpoints it inserts. -/
def isRelevantAndUpdate (f : CBloomFilter) (tx : CTransaction) :
    Except Fault (Bool × CBloomFilter × List COutPoint) :=
  if f.isFull then .ok (true, f, [])
  else if f.isEmpty then .ok (false, f, [])
  else do
    let fFound ← f.contains (hashKey tx.getHash)
    let (fFound, f, inserted) ← matchOutputs tx.getHash 0 tx.vout (fFound, f, [])
    if fFound then pure (true, f, inserted)
    else do
      let fFound ← f.matchesInputs tx.vin
      pure (fFound, f, inserted)

/-! ## Bits of a key -/

/-- The bit that a hash function gives to a key. -/
def index (f : CBloomFilter) (i : Nat) (k : Key) : Nat := f.hashValue i k % (f.vData.length * 8)

/-- All bits of the key are set. -/
def Holds (f : CBloomFilter) (k : Key) : Prop :=
  ∀ i < f.nHashFuncs, hasBit f.vData (f.index i k) = true

section Bits

variable {f f' : CBloomFilter} {k : Key}

theorem index_lt (h : f.vData ≠ []) (i : Nat) (k : Key) : f.index i k < 8 * f.vData.length := by
  have hpos : 0 < f.vData.length := List.length_pos_iff.mpr h
  rw [Nat.mul_comm]
  exact Nat.mod_lt _ (by omega)

theorem hash_eq (h : f.vData ≠ []) (i : Nat) (k : Key) : f.hash i k = .ok (f.index i k) := by
  have hpos : 0 < f.vData.length := List.length_pos_iff.mpr h
  rw [hash, if_neg (by omega)]
  rfl

theorem containsBits_eq (h : f.vData ≠ []) (k : Key) (l : List Nat) :
    f.containsBits k l = .ok (l.all fun i => hasBit f.vData (f.index i k)) := by
  induction l with
  | nil => rfl
  | cons i rest ih =>
      have hlt := index_lt h i k
      rw [containsBits, hash_eq h]
      dsimp only
      rw [if_neg (by omega), ih, List.all_cons]
      cases hasBit f.vData (f.index i k) with
      | true => rfl
      | false => rfl

theorem containsBits_of_holds (h : f.vData ≠ []) (hk : f.Holds k) :
    f.containsBits k (List.range f.nHashFuncs) = .ok true := by
  rw [containsBits_eq h, List.all_eq_true.mpr fun i hi => hk i (List.mem_range.mp hi)]

/-- The bits stay and the hash functions are the same. -/
structure Grows (f f' : CBloomFilter) : Prop where
  length : f'.vData.length = f.vData.length
  nHashFuncs : f'.nHashFuncs = f.nHashFuncs
  nTweak : f'.nTweak = f.nTweak
  bits : ∀ j, hasBit f.vData j = true → hasBit f'.vData j = true

theorem Grows.index_eq (h : Grows f f') (i : Nat) (k : Key) : f'.index i k = f.index i k := by
  rw [index, index, hashValue, hashValue, h.length, h.nTweak]

theorem Grows.holds (h : Grows f f') (hk : f.Holds k) : f'.Holds k := by
  intro i hi
  rw [h.index_eq]
  exact h.bits _ (hk i (h.nHashFuncs ▸ hi))

/-- The loop sets the bits of its hash functions. -/
theorem insertBits_spec (h : f.vData ≠ []) (k : Key) (l : List Nat) :
    ∃ vData, insertBits k l f = .ok { f with vData } ∧ Grows f { f with vData } ∧
      ∀ i ∈ l, hasBit vData (f.index i k) = true := by
  induction l generalizing f with
  | nil => exact ⟨f.vData, rfl, ⟨rfl, rfl, rfl, fun _ => id⟩, fun i hi => nomatch hi⟩
  | cons i rest ih =>
      obtain ⟨v, hv⟩ := exists_addBit (index_lt h i k)
      have hbits := hasBit_addBit hv
      have hgrows : Grows f { f with vData := v } :=
        ⟨length_addBit hv, rfl, rfl, fun j hj => by rw [hbits, hj, Bool.true_or]⟩
      have hne : v ≠ [] := by
        rw [← List.length_pos_iff, length_addBit hv]
        exact List.length_pos_iff.mpr h
      obtain ⟨vData, hrest, hgrows', hset⟩ := @ih { f with vData := v } hne
      refine ⟨vData, ?_, ⟨?_, rfl, rfl, fun j hj => hgrows'.bits j (hgrows.bits j hj)⟩, ?_⟩
      · rw [insertBits, hash_eq h]
        dsimp only
        rw [hv]
        exact hrest
      · exact hgrows'.length.trans hgrows.length
      · refine List.forall_mem_cons.mpr ⟨?_, fun j hj => ?_⟩
        · refine hgrows'.bits _ ?_
          show hasBit v (f.index i k) = true
          rw [hbits, decide_eq_true rfl, Bool.or_true]
        · rw [← hgrows.index_eq]
          exact hset j hj

end Bits

/-! ## The flags are truthful -/

/-- A full filter has all bits, an empty one no keys, and any other all bits of its keys. -/
structure Inv (f : CBloomFilter) (keys : Set Key) : Prop where
  full : f.isFull = true → f.matchesAll = true
  nonempty : f.isFull = false → f.vData ≠ []
  empty : f.isFull = false → f.isEmpty = true → keys = ∅
  holds : f.isFull = false → ∀ k ∈ keys, f.Holds k

section Inv

variable {f g : CBloomFilter} {keys keys' : Set Key}

theorem Inv.contains (h : f.Inv keys) {k : Key} (hk : k ∈ keys) : f.contains k = .ok true := by
  cases hfull : f.isFull with
  | true => rw [CBloomFilter.contains, if_pos hfull]
  | false =>
      have hempty : ¬ f.isEmpty = true := by
        intro hempty
        rw [h.empty hfull hempty] at hk
        exact hk
      rw [CBloomFilter.contains, if_neg (by simp [hfull]), if_neg hempty]
      exact containsBits_of_holds (h.nonempty hfull) (h.holds hfull k hk)

theorem Inv.contains_ok (h : f.Inv keys) (k : Key) : ∃ found, f.contains k = .ok found := by
  unfold CBloomFilter.contains
  split
  · exact ⟨_, rfl⟩
  · next hfull =>
      split
      · exact ⟨_, rfl⟩
      · rw [containsBits_eq (h.nonempty (Bool.eq_false_iff.mpr hfull))]
        exact ⟨_, rfl⟩

theorem Inv.insert (h : f.Inv keys) (k : Key) :
    ∃ f', f.insert k = .ok f' ∧ f'.Inv (Set.insert k keys) := by
  cases hfull : f.isFull with
  | true =>
      have hnot : ∀ {p : Prop}, f.isFull = false → p := fun hf => by simp [hfull] at hf
      refine ⟨f, ?_, h.full, hnot, fun hf => hnot hf, fun hf => hnot hf⟩
      rw [CBloomFilter.insert, if_pos hfull]
  | false =>
      obtain ⟨vData, hbits, hgrows, hset⟩ :=
        insertBits_spec (h.nonempty hfull) k (List.range f.nHashFuncs)
      refine ⟨{ f with vData, isEmpty := false }, ?_, ?_, ?_, ?_, ?_⟩
      · rw [CBloomFilter.insert, if_neg (by simp [hfull]), hbits]
        rfl
      · intro hf
        rw [hfull] at hf
        cases hf
      · intro _
        rw [← List.length_pos_iff, hgrows.length]
        exact List.length_pos_iff.mpr (h.nonempty hfull)
      · exact fun _ hempty => nomatch hempty
      · intro _ k' hk'
        rcases hk' with rfl | hk'
        · intro i hi
          exact hgrows.index_eq i k' ▸ hset i (List.mem_range.mpr hi)
        · exact hgrows.holds (h.holds hfull k' hk')

theorem Inv.not_full (h : f.Inv keys) (hall : f.matchesAll = false) : f.isFull = false := by
  rw [← Bool.not_eq_true]
  intro hfull
  rw [h.full hfull] at hall
  cases hall

theorem ne_nil_of_not_matchesAll (h : f.matchesAll = false) : f.vData ≠ [] := by
  intro hnil
  rw [matchesAll, hnil] at h
  cases h

/-- The filters have the same parameters. -/
def SameParams (f g : CBloomFilter) : Prop :=
  g.vData.length = f.vData.length ∧ g.nHashFuncs = f.nHashFuncs ∧ g.nTweak = f.nTweak

instance (f g : CBloomFilter) : Decidable (f.SameParams g) := inferInstanceAs (Decidable (_ ∧ _))

theorem merge_ok (hf : f.matchesAll = false) (hg : g.matchesAll = false) :
    ∃ r, f.merge g = .ok r := by
  rw [CBloomFilter.merge, hf, hg]
  split_ifs with hboth hother
  · exact ⟨_, rfl⟩
  · exact ⟨_, rfl⟩
  · exact absurd rfl hboth

/-- A filter that is not empty, or merged with an empty one. -/
theorem Inv.merge (h : f.Inv keys) (hg : g.Inv keys') (hf : f.matchesAll = false)
    (hother : g.matchesAll = false)
    (hempty : f.SameParams g → f.isEmpty = true → g.isEmpty = true) :
    ∃ fMerged f', f.merge g = .ok (fMerged, f') ∧
      f'.Inv (if fMerged then keys ∪ keys' else keys) := by
  have hfull := h.not_full hf
  have hfull' := hg.not_full hother
  have hboth : (!f.matchesAll && !g.matchesAll) = true := by rw [hf, hother]; rfl
  rw [CBloomFilter.merge, if_pos hboth]
  by_cases hsame : g.vData.length = f.vData.length ∧ g.nHashFuncs = f.nHashFuncs ∧
      g.nTweak = f.nTweak
  · rw [if_neg (not_not.mpr hsame)]
    obtain ⟨hlength, hfuncs, htweak⟩ := hsame
    have hbits := hasBit_orBytes hlength.symm
    have hgrows : Grows f { f with vData := orBytes f.vData g.vData } :=
      ⟨length_orBytes hlength.symm, rfl, rfl, fun j hj => by rw [hbits, hj, Bool.true_or]⟩
    have hgrows' : Grows g { f with vData := orBytes f.vData g.vData } :=
      ⟨(length_orBytes hlength.symm).trans hlength.symm, hfuncs.symm, htweak.symm,
        fun j hj => by rw [hbits, hj, Bool.or_true]⟩
    refine ⟨true, _, rfl, ?_, ?_, ?_, ?_⟩
    · intro hnow
      rw [hfull] at hnow
      cases hnow
    · intro _
      rw [← List.length_pos_iff, length_orBytes hlength.symm]
      exact List.length_pos_iff.mpr (ne_nil_of_not_matchesAll hf)
    · intro _ hnow
      rw [if_pos rfl, h.empty hfull hnow,
        hg.empty hfull' (hempty ⟨hlength, hfuncs, htweak⟩ hnow), Set.union_empty]
    · intro _ k hk
      rw [if_pos rfl] at hk
      rcases hk with hk | hk
      · exact hgrows.holds (h.holds hfull k hk)
      · exact hgrows'.holds (hg.holds hfull' k hk)
  · rw [if_pos hsame]
    exact ⟨false, f, rfl, h⟩

/-- A filter with hash functions, or an empty one, or one with bits. -/
theorem Inv.updateEmptyFull (h : f.Inv keys)
    (hzero : f.nHashFuncs = 0 → f.isEmpty = false → f.vData ≠ [] →
      f.vData.all (· == 0) = false) : f.updateEmptyFull.Inv keys := by
  have hfull : f.updateEmptyFull.isFull = false → f.isFull = false := by
    intro hnow
    rw [← Bool.not_eq_true]
    intro hwas
    have hall := h.full hwas
    rw [matchesAll] at hall
    rw [CBloomFilter.updateEmptyFull, hall] at hnow
    cases hnow
  refine ⟨id, fun hnow => h.nonempty (hfull hnow), fun hnow hempty => ?_,
    fun hnow => h.holds (hfull hnow)⟩
  have hfull := hfull hnow
  cases hwas : f.isEmpty with
  | true => exact h.empty hfull hwas
  | false =>
      rw [Set.eq_empty_iff_forall_notMem]
      intro k hk
      have hfuncs : f.nHashFuncs ≠ 0 := by
        intro hnone
        have hbits := hzero hnone hwas (h.nonempty hfull)
        rw [CBloomFilter.updateEmptyFull] at hempty
        exact Bool.false_ne_true (hbits.symm.trans hempty)
      have hbit := h.holds hfull k hk 0 (Nat.pos_of_ne_zero hfuncs)
      rw [not_hasBit_of_zero hempty] at hbit
      cases hbit

/-- A filter as it is loaded, with the keys that it contains. -/
theorem inv_load (f : CBloomFilter) :
    f.updateEmptyFull.Inv {k | f.updateEmptyFull.contains k = .ok true} := by
  have hnonempty : f.updateEmptyFull.isFull = false → f.updateEmptyFull.vData ≠ [] :=
    ne_nil_of_not_matchesAll
  refine ⟨id, hnonempty, fun hfull hempty => ?_, fun hfull k hk i hi => ?_⟩
  · rw [Set.eq_empty_iff_forall_notMem]
    intro k hk
    rw [Set.mem_ofPred_eq, CBloomFilter.contains, if_neg (by simp [hfull]), if_pos hempty] at hk
    cases hk
  · rw [Set.mem_ofPred_eq, CBloomFilter.contains, if_neg (by simp [hfull])] at hk
    split at hk
    · cases hk
    · rw [containsBits_eq (hnonempty hfull)] at hk
      exact List.all_eq_true.mp (Except.ok.inj hk) i (List.mem_range.mpr hi)

end Inv

end CBloomFilter

/-! ## Relevant transactions -/

/-- The coins that a transaction mints and the serials that it spends can be read. -/
structure Readable (tx : CTransaction) : Prop where
  mints : ∀ txout ∈ tx.vout, txout.isZerocoinMint = true → 6 ≤ txout.scriptPubKey.length
  spends : ∀ txin ∈ tx.vin, txin.isZerocoinSpend = true →
    44 ≤ txin.scriptSig.length ∧ (parseSerial.run (txin.scriptSig.drop 44)).isSome = true

/-- A data element of an output: what one of its operations pushes, or the coin it mints. -/
def IsElement (txout : CTxOut) (element : List UInt8) : Prop :=
  element ≠ [] ∧ ∃ data ∈ scriptData txout.scriptPubKey, outputData txout data = .ok element

/-- The id, a data element of an output or a spent outpoint is among the keys. -/
def MatchesKeys (keys : Set Key) (tx : CTransaction) : Prop :=
  hashKey tx.getHash ∈ keys ∨
    (∃ txout ∈ tx.vout, ∃ element, IsElement txout element ∧ element ∈ keys) ∨
      ∃ txin ∈ tx.vin, outPointKey txin.prevout ∈ keys

def keysOf (inserted : List COutPoint) : Set Key := {k | ∃ out ∈ inserted, outPointKey out = k}

theorem union_keysOf_nil (keys : Set Key) : keys ∪ keysOf [] = keys := by
  refine (congrArg (keys ∪ ·) ?_).trans (Set.union_empty keys)
  rw [Set.eq_empty_iff_forall_notMem]
  intro k hk
  obtain ⟨out, hout, -⟩ := hk
  cases hout

theorem union_keysOf_cons (keys : Set Key) (out : COutPoint) (inserted : List COutPoint) :
    keys ∪ keysOf (out :: inserted) = Set.insert (outPointKey out) (keys ∪ keysOf inserted) := by
  ext k
  constructor
  · intro hk
    rcases hk with hk | ⟨other, hother, rfl⟩
    · exact Or.inr (Or.inl hk)
    · rcases List.mem_cons.mp hother with rfl | hother
      · exact Or.inl rfl
      · exact Or.inr (Or.inr ⟨other, hother, rfl⟩)
  · intro hk
    rcases hk with rfl | hk | ⟨other, hother, rfl⟩
    · exact Or.inr ⟨out, List.mem_cons_self, rfl⟩
    · exact Or.inl hk
    · exact Or.inr ⟨other, List.mem_cons_of_mem _ hother, rfl⟩

theorem outputData_ok {txout : CTxOut}
    (h : txout.isZerocoinMint = true → 6 ≤ txout.scriptPubKey.length) (data : List UInt8) :
    ∃ element, outputData txout data = .ok element := by
  unfold outputData
  split
  · next hmint => exact ⟨_, if_neg (Nat.not_lt.mpr (h hmint))⟩
  · exact ⟨_, rfl⟩

theorem inputData_ok {txin : CTxIn}
    (h : txin.isZerocoinSpend = true → 44 ≤ txin.scriptSig.length ∧
      (parseSerial.run (txin.scriptSig.drop 44)).isSome = true) (data : List UInt8) :
    ∃ element, inputData txin data = .ok element := by
  unfold inputData
  split
  · next hspend =>
      obtain ⟨hlength, hparse⟩ := h hspend
      obtain ⟨r, hr⟩ := Option.isSome_iff_exists.mp hparse
      rw [if_neg (Nat.not_lt.mpr hlength), hr]
      exact ⟨_, rfl⟩
  · exact ⟨_, rfl⟩

theorem solver_isSome {script : CScript}
    (h : script.isZerocoinMint = true → 6 ≤ script.length) : ∃ r, solver script = some r := by
  unfold solver
  split_ifs with hhash hmint hlong hshort
  · exact ⟨_, rfl⟩
  · exact ⟨_, rfl⟩
  · have hlength := h hmint
    omega
  · exact ⟨_, rfl⟩
  · exact ⟨_, rfl⟩
  · exact ⟨_, rfl⟩

namespace CBloomFilter

section Relevant

variable {f : CBloomFilter} {keys : Set Key}

/-- The loop over operations whose data can be looked up. -/
theorem Inv.matchesData (h : f.Inv keys) {lookUp : List UInt8 → Except Fault (List UInt8)}
    (hok : ∀ data, ∃ element, lookUp data = .ok element) (l : List (List UInt8)) :
    ∃ found, f.matchesData lookUp l = .ok found ∧
      ((∃ element, (element ≠ [] ∧ ∃ data ∈ l, lookUp data = .ok element) ∧ element ∈ keys) →
        found = true) := by
  induction l with
  | nil =>
      refine ⟨false, rfl, fun hex => ?_⟩
      obtain ⟨element, ⟨-, data, hdata, -⟩, -⟩ := hex
      cases hdata
  | cons data rest ih =>
      obtain ⟨element, helement⟩ := hok data
      obtain ⟨later, hlater, hfinds⟩ := ih
      -- the data is the one looked up here, or one of a later operation
      have hsplit : ∀ {other}, (other ≠ [] ∧ ∃ data' ∈ data :: rest, lookUp data' = .ok other) →
          other = element ∨ (other ≠ [] ∧ ∃ data' ∈ rest, lookUp data' = .ok other) := by
        intro other hother
        obtain ⟨hne, data', hdata', hother⟩ := hother
        rcases List.mem_cons.mp hdata' with rfl | hdata'
        · rw [helement] at hother
          exact Or.inl (Except.ok.inj hother).symm
        · exact Or.inr ⟨hne, data', hdata', hother⟩
      rw [CBloomFilter.matchesData, helement]
      dsimp only
      by_cases hnil : element = []
      · rw [if_pos hnil]
        refine ⟨later, hlater, fun hex => hfinds ?_⟩
        obtain ⟨other, hother, hin⟩ := hex
        refine ⟨other, (hsplit hother).resolve_left fun hsame => ?_, hin⟩
        exact hother.1 (hsame.trans hnil)
      · rw [if_neg hnil]
        obtain ⟨found, hcontains⟩ := h.contains_ok element
        rw [hcontains]
        cases found with
        | true => exact ⟨true, rfl, fun _ => rfl⟩
        | false =>
            refine ⟨later, hlater, fun hex => hfinds ?_⟩
            obtain ⟨other, hother, hin⟩ := hex
            refine ⟨other, (hsplit hother).resolve_left fun hsame => ?_, hin⟩
            rw [hsame] at hin
            rw [h.contains hin] at hcontains
            cases hcontains

theorem updates_ok {script : CScript} (h : script.isZerocoinMint = true → 6 ≤ script.length) :
    ∃ updated, f.updates script = .ok updated := by
  obtain ⟨⟨standard, type, vSolutions⟩, hsolver⟩ := solver_isSome h
  unfold updates
  split
  · exact ⟨_, rfl⟩
  · split
    · rw [hsolver]
      exact ⟨_, rfl⟩
    · exact ⟨_, rfl⟩

/-- The loop over the outputs, when some outpoints have been inserted before. -/
theorem Inv.matchOutputs {hash : Uint256} {outs : List CTxOut}
    (hmints : ∀ txout ∈ outs, txout.isZerocoinMint = true → 6 ≤ txout.scriptPubKey.length)
    (i : Nat) (fFound : Bool) {inserted : List COutPoint}
    (h : f.Inv (keys ∪ keysOf inserted)) :
    ∃ fFound' f' inserted',
      CBloomFilter.matchOutputs hash i outs (fFound, f, inserted) =
          .ok (fFound', f', inserted') ∧
        f'.Inv (keys ∪ keysOf inserted') ∧ (fFound = true → fFound' = true) ∧
        ((∃ txout ∈ outs, ∃ element, IsElement txout element ∧ element ∈ keys) →
          fFound' = true) := by
  induction outs generalizing i fFound f inserted with
  | nil =>
      refine ⟨fFound, f, inserted, rfl, h, id, fun hex => ?_⟩
      obtain ⟨txout, htxout, -⟩ := hex
      cases htxout
  | cons txout rest ih =>
      obtain ⟨hmint, hrest⟩ := List.forall_mem_cons.mp hmints
      obtain ⟨matched, hmatched, hfinds⟩ :=
        h.matchesData (outputData_ok hmint) (scriptData txout.scriptPubKey)
      rw [CBloomFilter.matchOutputs, hmatched]
      cases matched with
      | false =>
          obtain ⟨fFound', f', inserted', hrun, hinv, hkeep, hlater⟩ := ih hrest (i + 1) fFound h
          refine ⟨fFound', f', inserted', hrun, hinv, hkeep, fun hex => ?_⟩
          obtain ⟨other, hother, element, helement, hin⟩ := hex
          rcases List.mem_cons.mp hother with rfl | hother
          · exact absurd (hfinds ⟨element, helement, Or.inl hin⟩) Bool.false_ne_true
          · exact hlater ⟨other, hother, element, helement, hin⟩
      | true =>
          obtain ⟨updated, hupdated⟩ := @updates_ok f txout.scriptPubKey hmint
          have hnext : ∃ f₁ inserted₁, f₁.Inv (keys ∪ keysOf inserted₁) ∧
              (do
                let updated ← f.updates txout.scriptPubKey
                if updated then do
                  let f ← f.insert (outPointKey ⟨hash, i⟩)
                  CBloomFilter.matchOutputs hash (i + 1) rest (true, f, ⟨hash, i⟩ :: inserted)
                else CBloomFilter.matchOutputs hash (i + 1) rest (true, f, inserted)) =
              CBloomFilter.matchOutputs hash (i + 1) rest (true, f₁, inserted₁) := by
            rw [hupdated]
            cases updated with
            | false => exact ⟨f, inserted, h, rfl⟩
            | true =>
                obtain ⟨f₁, hinsert, hinv⟩ := h.insert (outPointKey ⟨hash, i⟩)
                refine ⟨f₁, ⟨hash, i⟩ :: inserted, ?_, ?_⟩
                · rw [union_keysOf_cons]
                  exact hinv
                · show (f.insert (outPointKey ⟨hash, i⟩) >>= _) = _
                  rw [hinsert]
                  rfl
          obtain ⟨f₁, inserted₁, hinv₁, hrun₁⟩ := hnext
          obtain ⟨fFound', f', inserted', hrun, hinv, hkeep, -⟩ := ih hrest (i + 1) true hinv₁
          exact ⟨fFound', f', inserted', hrun₁.trans hrun, hinv, fun _ => hkeep rfl,
            fun _ => hkeep rfl⟩

/-- The loop over the inputs. -/
theorem Inv.matchesInputs (h : f.Inv keys) {ins : List CTxIn}
    (hspends : ∀ txin ∈ ins, txin.isZerocoinSpend = true →
      44 ≤ txin.scriptSig.length ∧ (parseSerial.run (txin.scriptSig.drop 44)).isSome = true) :
    ∃ found, f.matchesInputs ins = .ok found ∧
      ((∃ txin ∈ ins, outPointKey txin.prevout ∈ keys) → found = true) := by
  induction ins with
  | nil =>
      refine ⟨false, rfl, fun hex => ?_⟩
      obtain ⟨txin, htxin, -⟩ := hex
      cases htxin
  | cons txin rest ih =>
      obtain ⟨hspend, hrest⟩ := List.forall_mem_cons.mp hspends
      obtain ⟨spent, hspent⟩ := h.contains_ok (outPointKey txin.prevout)
      rw [CBloomFilter.matchesInputs, hspent]
      cases spent with
      | true => exact ⟨true, rfl, fun _ => rfl⟩
      | false =>
          obtain ⟨matched, hmatched, -⟩ :=
            h.matchesData (inputData_ok hspend) (scriptData txin.scriptSig)
          show ∃ found, (f.matchesData (inputData txin) (scriptData txin.scriptSig) >>= _) = _ ∧ _
          rw [hmatched]
          cases matched with
          | true => exact ⟨true, rfl, fun _ => rfl⟩
          | false =>
              obtain ⟨found, hfound, hfinds⟩ := ih hrest
              refine ⟨found, hfound, fun hex => hfinds ?_⟩
              obtain ⟨other, hother, hin⟩ := hex
              rcases List.mem_cons.mp hother with rfl | hother
              · rw [h.contains hin] at hspent
                cases hspent
              · exact ⟨other, hother, hin⟩

/-- **A transaction that matches is relevant**, and its outpoints become keys. -/
theorem Inv.isRelevantAndUpdate (h : f.Inv keys) {tx : CTransaction}
    (hread : f.isFull = false → f.isEmpty = false → Readable tx) :
    ∃ fFound f' inserted, f.isRelevantAndUpdate tx = .ok (fFound, f', inserted) ∧
      f'.Inv (keys ∪ keysOf inserted) ∧ (MatchesKeys keys tx → fFound = true) := by
  unfold CBloomFilter.isRelevantAndUpdate
  cases hfull : f.isFull with
  | true => exact ⟨true, f, [], rfl, (union_keysOf_nil keys).symm ▸ h, fun _ => rfl⟩
  | false =>
      cases hempty : f.isEmpty with
      | true =>
          refine ⟨false, f, [], rfl, (union_keysOf_nil keys).symm ▸ h, fun hmatches => ?_⟩
          rw [h.empty hfull hempty] at hmatches
          rcases hmatches with hid | ⟨txout, -, element, -, hin⟩ | ⟨txin, -, hin⟩
          · exact hid.elim
          · exact hin.elim
          · exact hin.elim
      | false =>
          have hreadable := hread hfull hempty
          obtain ⟨fId, hid⟩ := h.contains_ok (hashKey tx.getHash)
          have hstart : f.Inv (keys ∪ keysOf []) := (union_keysOf_nil keys).symm ▸ h
          obtain ⟨fOuts, f', inserted, hrun, hinv, hkeep, houts⟩ :=
            @Inv.matchOutputs _ _ tx.getHash _ hreadable.mints 0 fId _ hstart
          rw [if_neg Bool.false_ne_true, if_neg Bool.false_ne_true, hid]
          show ∃ fFound f' inserted, (CBloomFilter.matchOutputs tx.getHash 0 tx.vout (fId, f, []) >>=
            _) = _ ∧ _
          rw [hrun]
          cases fOuts with
          | true => exact ⟨true, f', inserted, rfl, hinv, fun _ => rfl⟩
          | false =>
              obtain ⟨found, hfound, hspends⟩ := hinv.matchesInputs hreadable.spends
              refine ⟨found, f', inserted, ?_, hinv, fun hmatches => ?_⟩
              · show (f'.matchesInputs tx.vin >>= _) = _
                rw [hfound]
                rfl
              · rcases hmatches with hmatch | hmatch | hmatch
                · rw [h.contains hmatch] at hid
                  cases hid
                  exact absurd (hkeep rfl) Bool.false_ne_true
                · exact absurd (houts hmatch) Bool.false_ne_true
                · obtain ⟨txin, htxin, hin⟩ := hmatch
                  exact hspends ⟨txin, htxin, Or.inl hin⟩

end Relevant

end CBloomFilter

/-! ## Runs -/

inductive Call
  | insert (vKey : Key)
  | merge (filter : CBloomFilter)
  | updateEmptyFull
  | isRelevantAndUpdate (tx : CTransaction)

/-- A filter that a peer has loaded after any calls that are allowed, with the keys that have been
inserted into it, or into a filter that was merged into it.  What it contains when it is loaded
has been inserted by the peer. -/
inductive Run (allowed : CBloomFilter → Call → Prop) : CBloomFilter → Set Key → Prop
  | load (f : CBloomFilter) (hsize : f.isWithinSizeConstraints = true) :
      Run allowed f.updateEmptyFull {k | f.updateEmptyFull.contains k = .ok true}
  | insert {f f' : CBloomFilter} {keys : Set Key} {vKey : Key} (hrun : Run allowed f keys)
      (hcall : allowed f (.insert vKey)) (hret : f.insert vKey = .ok f') :
      Run allowed f' (Set.insert vKey keys)
  | merge {f g f' : CBloomFilter} {keys keys' : Set Key} {fMerged : Bool}
      (hrun : Run allowed f keys) (hother : Run allowed g keys') (hcall : allowed f (.merge g))
      (hret : f.merge g = .ok (fMerged, f')) :
      Run allowed f' (if fMerged then keys ∪ keys' else keys)
  | updateEmptyFull {f : CBloomFilter} {keys : Set Key} (hrun : Run allowed f keys)
      (hcall : allowed f .updateEmptyFull) : Run allowed f.updateEmptyFull keys
  | isRelevantAndUpdate {f f' : CBloomFilter} {keys : Set Key} {tx : CTransaction} {fFound : Bool}
      {inserted : List COutPoint} (hrun : Run allowed f keys)
      (hcall : allowed f (.isRelevantAndUpdate tx))
      (hret : f.isRelevantAndUpdate tx = .ok (fFound, f', inserted)) :
      Run allowed f' (keys ∪ keysOf inserted)

/-- The call returns. -/
def Returns (f : CBloomFilter) : Call → Prop
  | .insert vKey => ∃ f', f.insert vKey = .ok f'
  | .merge g => ∃ r, f.merge g = .ok r
  | .updateEmptyFull => True
  | .isRelevantAndUpdate tx => ∃ r, f.isRelevantAndUpdate tx = .ok r

/-- No false negatives, and no call that fails. -/
structure Truthful (allowed : CBloomFilter → Call → Prop) (f : CBloomFilter) (keys : Set Key) :
    Prop where
  contains : ∀ k ∈ keys, f.contains k = .ok true
  relevant : ∀ tx, allowed f (.isRelevantAndUpdate tx) → MatchesKeys keys tx →
    ∃ f' inserted, f.isRelevantAndUpdate tx = .ok (true, f', inserted)
  looksUp : ∀ k, ∃ found, f.contains k = .ok found
  returns : ∀ call, allowed f call → Returns f call

/-- The calls with which the flags stay truthful.  None of two filters that are merged matches
everything, and an empty one is merged with an empty one if they have the same parameters.  The
flags are computed again for a filter with hash functions, or with bits, or without keys. -/
def Harmless (f : CBloomFilter) : Call → Prop
  | .insert _ => True
  | .merge g => f.matchesAll = false ∧ g.matchesAll = false ∧
      (f.SameParams g → f.isEmpty = true → g.isEmpty = true)
  | .updateEmptyFull => f.nHashFuncs = 0 → f.isEmpty = false → f.vData ≠ [] →
      f.vData.all (· == 0) = false
  | .isRelevantAndUpdate tx => f.isFull = false → f.isEmpty = false → Readable tx

/-- Every call that is harmless keeps the invariant. -/
theorem run_inv {f : CBloomFilter} {keys : Set Key} (h : Run Harmless f keys) : f.Inv keys := by
  induction h with
  | load f hsize => exact CBloomFilter.inv_load f
  | @insert f f' keys vKey hrun hcall hret ih =>
      obtain ⟨f₁, hinsert, hinv⟩ := ih.insert vKey
      rw [hinsert] at hret
      cases hret
      exact hinv
  | @merge f g f' keys keys' fMerged hrun hother hcall hret ih ih' =>
      obtain ⟨fMerged₁, f₁, hmerge, hinv⟩ := ih.merge ih' hcall.1 hcall.2.1 hcall.2.2
      rw [hmerge] at hret
      cases hret
      exact hinv
  | updateEmptyFull hrun hcall ih => exact ih.updateEmptyFull hcall
  | @isRelevantAndUpdate f f' keys tx fFound inserted hrun hcall hret ih =>
      obtain ⟨fFound₁, f₁, inserted₁, hrelevant, hinv, -⟩ := ih.isRelevantAndUpdate hcall
      rw [hrelevant] at hret
      cases hret
      exact hinv

/-- **No false negatives and no faults**, in every run whose calls are harmless. -/
theorem run_truthful {f : CBloomFilter} {keys : Set Key} (h : Run Harmless f keys) :
    Truthful Harmless f keys := by
  have hinv := run_inv h
  refine ⟨fun k hk => hinv.contains hk, fun tx hcall hmatches => ?_, hinv.contains_ok, ?_⟩
  · obtain ⟨fFound, f', inserted, hrelevant, -, hfound⟩ := hinv.isRelevantAndUpdate hcall
    rw [hfound hmatches] at hrelevant
    exact ⟨f', inserted, hrelevant⟩
  · intro call hcall
    cases call with
    | insert vKey =>
        obtain ⟨f', hinsert, -⟩ := hinv.insert vKey
        exact ⟨f', hinsert⟩
    | merge g => exact CBloomFilter.merge_ok hcall.1 hcall.2.1
    | updateEmptyFull => exact trivial
    | isRelevantAndUpdate tx =>
        obtain ⟨fFound, f', inserted, hrelevant, -⟩ := hinv.isRelevantAndUpdate hcall
        exact ⟨_, hrelevant⟩

section Example

/-- A filter of one byte with one hash function. -/
def byteFilter (b : UInt8) : CBloomFilter where
  vData := [b]
  isFull := false
  isEmpty := b == 0
  nHashFuncs := 1
  nTweak := 0
  nFlags := BLOOM_UPDATE_ALL

theorem byteFilter_loaded (allowed : CBloomFilter → Call → Prop) (b : UInt8) (hb : b ≠ 0xff) :
    ∃ keys, Run allowed (byteFilter b) keys := by
  have hload : (byteFilter b).updateEmptyFull = byteFilter b := by
    simp [byteFilter, CBloomFilter.updateEmptyFull, hb]
  exact ⟨_, hload ▸ Run.load (byteFilter b) rfl⟩

/-- The filter after a key has been inserted. -/
def oneKey : CBloomFilter := { byteFilter 0x08 with isEmpty := false }

theorem oneKey_run (allowed : CBloomFilter → Call → Prop) (h : allowed (byteFilter 0) (.insert [1])) :
    ∃ keys, Run allowed oneKey keys ∧ [1] ∈ keys := by
  obtain ⟨keys, hrun⟩ := byteFilter_loaded allowed 0 (by decide)
  exact ⟨Set.insert [1] keys, hrun.insert h (by decide +kernel), Or.inl rfl⟩

/-- The filter with the key, merged with itself. -/
theorem run_truthful_oneKey : ∃ keys, [1] ∈ keys ∧ Truthful Harmless oneKey keys := by
  obtain ⟨keys, hrun, hkey⟩ := oneKey_run Harmless trivial
  have hmerged := hrun.merge hrun ⟨by decide, by decide, fun _ h => h⟩
    (show oneKey.merge oneKey = .ok (true, oneKey) by decide +kernel)
  exact ⟨_, Or.inl hkey, run_truthful hmerged⟩

/-- With any calls, a key of a filter that is merged into an empty one is not found, and a filter
that matches everything is written to outside its bytes. -/
theorem merge_not_truthful :
    ¬ (∀ f keys, Run (fun _ _ => True) f keys → ∀ k ∈ keys, f.contains k = .ok true) ∧
      ¬ ∀ f keys g keys', Run (fun _ _ => True) f keys → Run (fun _ _ => True) g keys' →
        ∃ r, f.merge g = .ok r := by
  obtain ⟨empty, hempty⟩ := byteFilter_loaded (fun _ _ => True) 0 (by decide)
  constructor
  · intro h
    obtain ⟨keys, hrun, hkey⟩ := oneKey_run (fun _ _ => True) trivial
    have hmerged := hempty.merge hrun trivial
      (show (byteFilter 0).merge oneKey = .ok (true, { oneKey with isEmpty := true }) by
        decide +kernel)
    have hfound := h _ _ hmerged [1] (Or.inr hkey)
    exact absurd hfound (by decide +kernel)
  · intro h
    have hfull : Run (fun _ _ => True) (byteFilter 0xff).updateEmptyFull _ :=
      Run.load (byteFilter 0xff) rfl
    obtain ⟨r, hr⟩ := h _ _ _ _ hempty hfull
    have hfault : (byteFilter 0).merge (byteFilter 0xff).updateEmptyFull = .error .outOfRange := rfl
    rw [hfault] at hr
    cases hr

end Example

end Agrarian.Net
