import Agrarian.Lib.Checks
import Agrarian.Lib.OrderedStore
import Agrarian.Serialize.Stream
import Agrarian.Zerocoin.SpendDB

/-!
# Reindexing the zerocoin database

`WipeCoins` and the batched writes of `CZerocoinDB` (`txdb.cpp`), and
`ReindexZerocoinDB`, which wipes all spends and mints and writes those of the
active chain again (`zagrchain.cpp`).

The database is a store with ordered keys: the hash of a serial or of a public
coin behind the letter of its kind, or an accumulator checksum.  Its values
are bytes, a hash of a transaction for spends and mints.  Parsing a spend or a
coin is a view that gives the hash.  Writes that fail throw, and the database
after a failure is not looked at.
-/

namespace Agrarian.Zerocoin

open Agrarian.Lib
open Agrarian.Lib.ByteCodec (natLE length_natLE)
open Agrarian.Serialize (writeUint256 readUint256 reads_uint256)

inductive CoinKind where
  | spend
  | mint
  deriving DecidableEq, Repr

/-- The letter that the keys of a kind begin with, `s` or `m`. -/
def CoinKind.type : CoinKind → UInt8
  | .spend => 0x73
  | .mint => 0x6d

def CoinKind.strType : CoinKind → String
  | .spend => "spends"
  | .mint => "mints"

inductive DbKey where
  | coin (kind : CoinKind) (hash : Uint256)
  | accumulator (nChecksum : UInt32)
  deriving DecidableEq

namespace DbKey

def chType : DbKey → UInt8
  | .coin kind _ => kind.type
  | .accumulator _ => 0x32

/-- The serialized key, by which the entries are ordered. -/
def bytes (key : DbKey) : List Nat :=
  let rest :=
    match key with
    | .coin _ hash => writeUint256 hash
    | .accumulator nChecksum => natLE 4 nChecksum.toNat
  (key.chType :: rest).map UInt8.toNat

end DbKey

abbrev ZerocoinDB := KeyedMap DbKey (List UInt8)

namespace ZerocoinDB

/-- A value that is read as a hash; bytes behind it are left. -/
def readHash (value : List UInt8) : Option Uint256 :=
  (readUint256.run value).map Prod.fst

def wipeCoins (db : ZerocoinDB) (strType : String) : Option ZerocoinDB :=
  if strType ≠ "spends" ∧ strType ≠ "mints" then none
  else
    let kind := if strType = "spends" then CoinKind.spend else CoinKind.mint
    let pcursor := db.seek DbKey.bytes (DbKey.coin kind 0).bytes
    -- the values, not the keys, go into `setDelete`
    match KeyedMap.collect readHash (fun key => key.chType == kind.type) pcursor with
    | none => none
    | some setDelete => some (db.eraseAll (setDelete.map (DbKey.coin kind)))

/-- `WriteCoinSpendBatch` and `WriteCoinMintBatch`. -/
def writeCoinBatch (db : ZerocoinDB) (kind : CoinKind)
    (info : List (Uint256 × Uint256)) : ZerocoinDB :=
  db.insertAll (info.map fun it => (DbKey.coin kind it.1, writeUint256 it.2))

end ZerocoinDB

/-- How spends and mints are parsed. -/
structure CoinView where
  /-- The hash of the serial of a spend. -/
  spendHash : CTransaction → CTxIn → Option Uint256
  /-- `TxOutToPublicCoin`, with the hash of the coin. -/
  coinHash : CTxOut → Option Uint256
  /-- The hash of a coin that was not set. -/
  defaultCoinHash : Uint256

/-- `vSpendInfo` and `vMintInfo`. -/
structure CoinInfo where
  vSpendInfo : List (Uint256 × Uint256) := []
  vMintInfo : List (Uint256 × Uint256) := []

inductive ReindexError where
  | returned (message : String)
  /-- An exception that is not caught. -/
  | thrown
  deriving DecidableEq, Repr

section Reindex

variable (view : CoinView)

def recordSpend (tx : CTransaction) (info : CoinInfo) (txin : CTxIn) :
    Except ReindexError CoinInfo :=
  if isZerocoin txin then
    match view.spendHash tx txin with
    | none =>
        if txin.isZerocoinPublicSpend then .error (.returned "Failed to parse public spend")
        else .error .thrown
    | some hash =>
        .ok { info with vSpendInfo := info.vSpendInfo ++ [(hash, tx.getHash)] }
  else .ok info

def recordSpends (tx : CTransaction) (info : CoinInfo) : Except ReindexError CoinInfo :=
  if tx.hasZerocoinSpendInputs then tx.vin.foldlM (recordSpend view tx) info
  else .ok info

def recordMints (tx : CTransaction) (info : CoinInfo) : CoinInfo :=
  if tx.hasZerocoinMintOutputs then
    { info with
      vMintInfo := info.vMintInfo ++ (tx.vout.filter CTxOut.isZerocoinMint).map fun out =>
        ((view.coinHash out).getD view.defaultCoinHash, tx.getHash) }
  else info

/-- The body of the loop over the inputs: the whole transaction is recorded,
once for each of them. -/
def recordTx (tx : CTransaction) (info : CoinInfo) : Except ReindexError CoinInfo :=
  if tx.isCoinBase then .ok info
  else if tx.containsZerocoins then
    (recordSpends view tx info).map (recordMints view tx)
  else .ok info

def reindexTx (info : CoinInfo) (tx : CTransaction) : Except ReindexError CoinInfo :=
  tx.vin.foldlM (fun info _ => recordTx view tx info) info

/-- Empty batches are not written. -/
def flush (db : ZerocoinDB) (info : CoinInfo) : ZerocoinDB :=
  let db := if info.vSpendInfo.isEmpty then db
    else db.writeCoinBatch .spend info.vSpendInfo
  if info.vMintInfo.isEmpty then db else db.writeCoinBatch .mint info.vMintInfo

/-- The loop over the blocks, read from disk and with their heights, and the
final flush. -/
def reindexBlocks : List (Option CBlock × Nat) → ZerocoinDB → CoinInfo →
    Except ReindexError ZerocoinDB
  | [], db, info => .ok (flush db info)
  | (none, _) :: _, _, _ => .error (.returned "Reindexing zerocoin failed")
  | (some block, nHeight) :: blocks, db, info =>
      match block.vtx.foldlM (reindexTx view) info with
      | .error e => .error e
      | .ok info =>
          -- Flush the zerocoinDB to disk every 100 blocks
          if nHeight % 100 = 0 then reindexBlocks blocks (flush db info) {}
          else reindexBlocks blocks db info

/-- The blocks are those of the active chain, from the genesis block up, as
they are read from disk. -/
def reindexZerocoinDB (chainActive : List (Option CBlock)) (nStartHeight : Nat)
    (db : ZerocoinDB) : Except ReindexError ZerocoinDB :=
  match (db.wipeCoins "spends").bind fun db => db.wipeCoins "mints" with
  | none => .error (.returned "Failed to wipe zerocoinDB")
  | some db => reindexBlocks view (chainActive.zipIdx.drop nStartHeight) db {}

end Reindex

/-! ## Wiping -/

theorem zeros_le : ∀ (n : Nat) (l : List Nat), l.length = n → List.replicate n 0 ≤ l
  | 0, l, _ => by
      rw [List.replicate_zero]
      exact not_lt.mp (List.not_lt_nil l)
  | n + 1, [], h => by cases h
  | n + 1, a :: l, h => by
      rw [List.replicate_succ]
      rcases Nat.eq_zero_or_pos a with rfl | ha
      · exact List.cons_le_cons 0 (zeros_le n l (Nat.succ.inj h))
      · exact le_of_lt (List.cons_lt_cons_iff.mpr (Or.inl ha))

theorem natLE_zero (width : Nat) : natLE width 0 = List.replicate width 0 := by
  induction width with
  | zero => rfl
  | succ width ih =>
      rw [natLE, Nat.zero_div, ih, List.replicate_succ]
      rfl

namespace DbKey

theorem start_le (kind : CoinKind) (key : DbKey) (h : key.chType = kind.type) :
    (coin kind 0).bytes ≤ key.bytes := by
  have hzero : (coin kind 0).bytes = kind.type.toNat :: List.replicate 32 0 := by
    simp [bytes, chType, writeUint256, natLE_zero]
  cases key with
  | accumulator nChecksum => cases kind <;> cases h
  | coin kind' hash =>
      have hkey : (coin kind' hash).bytes =
          kind.type.toNat :: (writeUint256 hash).map UInt8.toNat := by
        rw [← h]
        rfl
      rw [hzero, hkey]
      apply List.cons_le_cons
      apply zeros_le
      rw [List.length_map, writeUint256, length_natLE]

theorem chType_le {key key' : DbKey} (h : key.bytes ≤ key'.bytes) :
    key.chType.toNat ≤ key'.chType.toNat := by
  rcases lt_or_eq_of_le h with hlt | heq
  · exact List.head_le_of_lt hlt
  · exact Nat.le_of_eq (List.cons.inj heq).1

/-- The keys of a kind lie behind its start, and no others among them. -/
theorem chType_eq_of_between {kind : CoinKind} {key key' : DbKey}
    (hstart : (coin kind 0).bytes ≤ key.bytes) (hle : key.bytes ≤ key'.bytes)
    (h : key'.chType = kind.type) : key.chType = kind.type := by
  have hlow := chType_le hstart
  have hhigh := chType_le hle
  rw [h] at hhigh
  exact UInt8.toNat_inj.mp (Nat.le_antisymm hhigh hlow)

theorem chType_eq_iff {kind : CoinKind} {key : DbKey} :
    key.chType = kind.type ↔ ∃ hash, key = coin kind hash := by
  cases key with
  | accumulator nChecksum => cases kind <;> simp [chType, CoinKind.type]
  | coin kind' hash => cases kind <;> cases kind' <;> simp [chType, CoinKind.type]

end DbKey

namespace ZerocoinDB

variable {db db' : ZerocoinDB} {kind : CoinKind}

/-- A hash is the value of an entry of a kind. -/
def HasValue (db : ZerocoinDB) (kind : CoinKind) (hash : Uint256) : Prop :=
  ∃ key value, db.find? (.coin kind key) = some value ∧ readHash value = some hash

/-- `WipeCoins` erases the entries of a kind whose keys are values of entries
of this kind. -/
theorem wipeCoins_spec (h : db.wipeCoins kind.strType = some db') :
    (∀ hash, db.HasValue kind hash → db'.find? (.coin kind hash) = none) ∧
      ∀ key, (∀ hash, key = .coin kind hash → ¬ db.HasValue kind hash) →
        db'.find? key = db.find? key := by
  have hkind : (if kind.strType = "spends" then CoinKind.spend else CoinKind.mint) =
      kind := by
    cases kind <;> rfl
  unfold wipeCoins at h
  rw [if_neg (by cases kind <;> decide)] at h
  simp only [hkind] at h
  split at h
  · cases h
  · rename_i setDelete hcollect
    obtain rfl := Option.some.inj h
    have hset : ∀ hash, hash ∈ setDelete ↔ db.HasValue kind hash := by
      intro hash
      rw [(KeyedMap.collect_eq_some hcollect).1]
      have hwalk := fun key value => KeyedMap.mem_takeWhile_seek
        DbKey.bytes (DbKey.coin kind 0).bytes (fun key => key.chType == kind.type)
        (fun key hkey => DbKey.start_le kind key (by simpa using hkey))
        (fun key key' hstart hle hkey => by
          simpa using DbKey.chType_eq_of_between hstart hle (by simpa using hkey))
        db (k := key) (b := value)
      constructor
      · rintro ⟨⟨key, value⟩, hmem, hread⟩
        obtain ⟨hfind, hkey⟩ := (hwalk key value).mp hmem
        obtain ⟨hash', rfl⟩ := DbKey.chType_eq_iff.mp (beq_iff_eq.mp hkey)
        exact ⟨hash', value, hfind, hread⟩
      · rintro ⟨hash', value, hfind, hread⟩
        exact ⟨(.coin kind hash', value),
          (hwalk _ _).mpr ⟨hfind, beq_iff_eq.mpr rfl⟩, hread⟩
    constructor
    · intro hash hvalue
      rw [KeyedMap.find?_eraseAll, if_pos]
      exact List.mem_map.mpr ⟨hash, (hset hash).mpr hvalue, rfl⟩
    · intro key hkey
      rw [KeyedMap.find?_eraseAll, if_neg]
      intro hmem
      obtain ⟨hash, hset', rfl⟩ := List.mem_map.mp hmem
      exact hkey hash rfl ((hset hash).mp hset')

/-- Everything of a kind is gone exactly when each of its keys is a value. -/
theorem wipeCoins_all_iff (h : db.wipeCoins kind.strType = some db') :
    (∀ hash, db'.find? (.coin kind hash) = none) ↔
      ∀ hash, (db.find? (.coin kind hash)).isSome → db.HasValue kind hash := by
  obtain ⟨herased, hkept⟩ := wipeCoins_spec h
  constructor
  · intro hall hash hsome
    by_contra hvalue
    have hsame := hkept (.coin kind hash) (by
      intro hash' heq
      obtain rfl := (DbKey.coin.inj heq).2
      exact hvalue)
    rw [← hsame, hall hash] at hsome
    cases hsome
  · intro hall hash
    by_cases hvalue : db.HasValue kind hash
    · exact herased hash hvalue
    · rw [hkept (.coin kind hash) (by
        intro hash' heq
        obtain rfl := (DbKey.coin.inj heq).2
        exact hvalue)]
      cases hfind : db.find? (.coin kind hash) with
      | none => rfl
      | some value => exact absurd (hall hash (by rw [hfind]; rfl)) hvalue

end ZerocoinDB

/-! ## Writing again -/

section Chain

variable (view : CoinView)

/-- The spends or mints of a transaction, with its hash. -/
def entriesOf (kind : CoinKind) (tx : CTransaction) : List (Uint256 × Uint256) :=
  match kind with
  | .spend => (tx.vin.filter isZerocoin).filterMap fun txin =>
      (view.spendHash tx txin).map fun hash => (hash, tx.getHash)
  | .mint => (tx.vout.filter CTxOut.isZerocoinMint).filterMap fun out =>
      (view.coinHash out).map fun hash => (hash, tx.getHash)

/-- What `CheckTransaction` has seen to: there are inputs, and mints are valid
coins. -/
def Checked (tx : CTransaction) : Prop :=
  tx.vin ≠ [] ∧ ∀ out ∈ tx.vout, out.isZerocoinMint = true → (view.coinHash out).isSome

/-- The active chain, from the genesis block up, as it is read from disk. -/
structure ActiveChain where
  blocks : List (Option CBlock)
  checked : ∀ block, some block ∈ blocks → ∀ tx ∈ block.vtx, Checked view tx

/-- What the blocks spend or mint. -/
def blockEntries (kind : CoinKind) (blocks : List (Option CBlock × Nat)) :
    List (Uint256 × Uint256) :=
  blocks.flatMap fun block =>
    (block.1.elim [] CBlock.vtx).flatMap (entriesOf view kind)

/-- What the active chain spends or mints from the start height on. -/
def ActiveChain.entries (chain : ActiveChain view) (nStartHeight : Nat)
    (kind : CoinKind) : List (Uint256 × Uint256) :=
  blockEntries view kind (chain.blocks.zipIdx.drop nStartHeight)

def CoinInfo.of (info : CoinInfo) : CoinKind → List (Uint256 × Uint256)
  | .spend => info.vSpendInfo
  | .mint => info.vMintInfo

variable {view}

theorem containsZerocoins_of_isCoinBase {tx : CTransaction} (h : tx.isCoinBase = true) :
    tx.containsZerocoins = false := by
  unfold CTransaction.isCoinBase at h
  split at h
  · rw [Bool.and_eq_true, Bool.not_eq_true'] at h
    exact h.2
  · cases h

theorem entriesOf_spend_eq_nil {tx : CTransaction}
    (h : tx.hasZerocoinSpendInputs = false) : entriesOf view .spend tx = [] := by
  have hnone : tx.vin.filter isZerocoin = [] := by
    rw [List.filter_eq_nil_iff]
    intro txin hmem
    have hzero := List.any_eq_false.mp h txin hmem
    simpa [isZerocoin] using hzero
  simp [entriesOf, hnone]

theorem entriesOf_mint_eq_nil {tx : CTransaction}
    (h : tx.hasZerocoinMintOutputs = false) : entriesOf view .mint tx = [] := by
  have hnone : tx.vout.filter CTxOut.isZerocoinMint = [] := by
    rw [List.filter_eq_nil_iff]
    exact fun out hmem => List.any_eq_false.mp h out hmem
  simp [entriesOf, hnone]

theorem entriesOf_eq_nil {tx : CTransaction} (h : tx.containsZerocoins = false)
    (kind : CoinKind) : entriesOf view kind tx = [] := by
  simp only [CTransaction.containsZerocoins, Bool.or_eq_false_iff] at h
  cases kind with
  | spend => exact entriesOf_spend_eq_nil h.1.1
  | mint => exact entriesOf_mint_eq_nil h.2

/-- What is in the vectors, spends or mints. -/
def CoinInfo.Has (entry : CoinKind × Uint256 × Uint256) (info : CoinInfo) : Prop :=
  entry.2 ∈ info.of entry.1

theorem has_recordSpend {tx : CTransaction} {txin : CTxIn} {info info' : CoinInfo}
    (h : recordSpend view tx info txin = .ok info') (entry : CoinKind × Uint256 × Uint256) :
    info'.Has entry ↔ info.Has entry ∨ (entry.1 = .spend ∧ isZerocoin txin = true ∧
      (view.spendHash tx txin).map (fun hash => (hash, tx.getHash)) = some entry.2) := by
  obtain ⟨kind, e⟩ := entry
  unfold recordSpend at h
  split at h
  · rename_i hzero
    split at h
    · split at h <;> cases h
    · rename_i hash hhash
      obtain rfl := Except.ok.inj h
      cases kind <;> simp [CoinInfo.Has, CoinInfo.of, hzero, hhash, eq_comm]
  · rename_i hzero
    obtain rfl := Except.ok.inj h
    simp [hzero]

theorem has_recordSpends {tx : CTransaction} {info info' : CoinInfo}
    (h : recordSpends view tx info = .ok info') (entry : CoinKind × Uint256 × Uint256) :
    info'.Has entry ↔ info.Has entry ∨
      (entry.1 = .spend ∧ entry.2 ∈ entriesOf view .spend tx) := by
  unfold recordSpends at h
  split at h
  · rw [foldlM_mem_iff CoinInfo.Has _ (fun txin _ s s' hs => has_recordSpend hs) h]
    simp only [entriesOf, List.mem_filterMap, List.mem_filter]
    constructor
    · rintro (hold | ⟨txin, hmem, hkind, hzero, hhash⟩)
      · exact Or.inl hold
      · exact Or.inr ⟨hkind, txin, ⟨hmem, hzero⟩, hhash⟩
    · rintro (hold | ⟨hkind, txin, ⟨hmem, hzero⟩, hhash⟩)
      · exact Or.inl hold
      · exact Or.inr ⟨txin, hmem, hkind, hzero, hhash⟩
  · rename_i hnone
    obtain rfl := Except.ok.inj h
    rw [Bool.not_eq_true] at hnone
    simp [entriesOf_spend_eq_nil hnone]

theorem has_recordMints {tx : CTransaction} (hchecked : Checked view tx)
    (info : CoinInfo) (entry : CoinKind × Uint256 × Uint256) :
    (recordMints view tx info).Has entry ↔ info.Has entry ∨
      (entry.1 = .mint ∧ entry.2 ∈ entriesOf view .mint tx) := by
  obtain ⟨kind, e⟩ := entry
  have hsame : (tx.vout.filter CTxOut.isZerocoinMint).map (fun out =>
      ((view.coinHash out).getD view.defaultCoinHash, tx.getHash)) =
        entriesOf view .mint tx := by
    unfold entriesOf
    rw [← List.filterMap_eq_map]
    apply List.filterMap_congr
    intro out hout
    obtain ⟨hmem, hmint⟩ := List.mem_filter.mp hout
    obtain ⟨hash, hhash⟩ := Option.isSome_iff_exists.mp (hchecked.2 out hmem hmint)
    simp [hhash]
  unfold recordMints
  split
  · rw [hsame]
    cases kind <;> simp [CoinInfo.Has, CoinInfo.of]
  · rename_i hnone
    rw [Bool.not_eq_true] at hnone
    simp [entriesOf_mint_eq_nil hnone]

theorem has_recordTx {tx : CTransaction} (hchecked : Checked view tx)
    {info info' : CoinInfo} (h : recordTx view tx info = .ok info')
    (entry : CoinKind × Uint256 × Uint256) :
    info'.Has entry ↔ info.Has entry ∨ entry.2 ∈ entriesOf view entry.1 tx := by
  unfold recordTx at h
  split at h
  · rename_i hbase
    obtain rfl := Except.ok.inj h
    simp [entriesOf_eq_nil (containsZerocoins_of_isCoinBase hbase)]
  · split at h
    · cases hspends : recordSpends view tx info with
      | error e =>
          rw [hspends] at h
          cases h
      | ok spends =>
          rw [hspends] at h
          obtain rfl := Except.ok.inj h
          rw [has_recordMints hchecked, has_recordSpends hspends, or_assoc]
          apply or_congr_right
          obtain ⟨kind, e⟩ := entry
          cases kind <;> simp
    · rename_i hnone
      obtain rfl := Except.ok.inj h
      rw [Bool.not_eq_true] at hnone
      simp [entriesOf_eq_nil hnone]

theorem has_reindexTx {tx : CTransaction} (hchecked : Checked view tx)
    {info info' : CoinInfo} (h : reindexTx view info tx = .ok info')
    (entry : CoinKind × Uint256 × Uint256) :
    info'.Has entry ↔ info.Has entry ∨ entry.2 ∈ entriesOf view entry.1 tx := by
  rw [foldlM_mem_iff CoinInfo.Has (fun _ entry => entry.2 ∈ entriesOf view entry.1 tx)
    (fun _ _ s s' hs => has_recordTx hchecked hs) h]
  apply or_congr_right
  obtain ⟨txin, hmem⟩ := List.exists_mem_of_ne_nil _ hchecked.1
  exact ⟨fun ⟨_, _, hentry⟩ => hentry, fun hentry => ⟨txin, hmem, hentry⟩⟩

/-- What is written for an entry. -/
def written (entry : CoinKind × Uint256 × Uint256) : DbKey × List UInt8 :=
  (.coin entry.1 entry.2.1, writeUint256 entry.2.2)

/-- The database was written to, one value for each of the entries. -/
def Writes (db db' : ZerocoinDB) (entries : CoinKind × Uint256 × Uint256 → Prop) : Prop :=
  ∃ batch, db' = db.insertAll batch ∧
    ∀ write, write ∈ batch ↔ ∃ entry, entries entry ∧ written entry = write

theorem Writes.trans {db db' db'' : ZerocoinDB}
    {entries entries' : CoinKind × Uint256 × Uint256 → Prop}
    (h : Writes db db' entries) (h' : Writes db' db'' entries') :
    Writes db db'' fun entry => entries entry ∨ entries' entry := by
  obtain ⟨batch, rfl, hbatch⟩ := h
  obtain ⟨batch', rfl, hbatch'⟩ := h'
  refine ⟨batch ++ batch', (KeyedMap.insertAll_append _ _ _).symm, fun write => ?_⟩
  rw [List.mem_append, hbatch, hbatch']
  simp only [or_and_right, exists_or]

theorem writes_congr {db db' : ZerocoinDB}
    {entries entries' : CoinKind × Uint256 × Uint256 → Prop}
    (h : Writes db db' entries) (heq : ∀ entry, entries entry ↔ entries' entry) :
    Writes db db' entries' := by
  obtain ⟨batch, hdb, hbatch⟩ := h
  refine ⟨batch, hdb, fun write => ?_⟩
  rw [hbatch]
  simp only [heq]

theorem writes_writeCoinBatch (db : ZerocoinDB) (kind : CoinKind)
    (info : List (Uint256 × Uint256)) : Writes db (db.writeCoinBatch kind info)
      fun entry => entry.1 = kind ∧ entry.2 ∈ info := by
  refine ⟨_, rfl, fun write => ?_⟩
  rw [List.mem_map]
  constructor
  · rintro ⟨it, hmem, rfl⟩
    exact ⟨(kind, it), ⟨rfl, hmem⟩, rfl⟩
  · rintro ⟨⟨kind', it⟩, ⟨rfl, hmem⟩, rfl⟩
    exact ⟨it, hmem, rfl⟩

/-- An empty batch need not be written. -/
theorem writes_ite_isEmpty (db : ZerocoinDB) (kind : CoinKind)
    (info : List (Uint256 × Uint256)) :
    Writes db (if info.isEmpty then db else db.writeCoinBatch kind info)
      fun entry => entry.1 = kind ∧ entry.2 ∈ info := by
  cases info with
  | nil => exact writes_writeCoinBatch db kind []
  | cons it info => exact writes_writeCoinBatch db kind (it :: info)

theorem writes_flush (db : ZerocoinDB) (info : CoinInfo) :
    Writes db (flush db info) fun entry => info.Has entry := by
  have hspends := writes_ite_isEmpty db .spend info.vSpendInfo
  have hmints := writes_ite_isEmpty
    (if info.vSpendInfo.isEmpty then db else db.writeCoinBatch .spend info.vSpendInfo)
    .mint info.vMintInfo
  apply writes_congr (hspends.trans hmints)
  rintro ⟨kind, e⟩
  cases kind <;> simp [CoinInfo.Has, CoinInfo.of]

/-- **The batched writes** lose nothing and add nothing. -/
theorem writes_reindexBlocks {blocks : List (Option CBlock × Nat)}
    (hchecked : ∀ block nHeight, (some block, nHeight) ∈ blocks →
      ∀ tx ∈ block.vtx, Checked view tx) {db db' : ZerocoinDB} {info : CoinInfo}
    (h : reindexBlocks view blocks db info = .ok db') :
    Writes db db' fun entry =>
      info.Has entry ∨ entry.2 ∈ blockEntries view entry.1 blocks := by
  induction blocks generalizing db info with
  | nil =>
      obtain rfl := Except.ok.inj h
      apply writes_congr (writes_flush db info)
      simp [blockEntries]
  | cons block blocks ih =>
      obtain ⟨block, nHeight⟩ := block
      cases block with
      | none => cases h
      | some block =>
          have hrest := fun block nHeight hmem =>
            hchecked block nHeight (List.mem_cons_of_mem _ hmem)
          unfold reindexBlocks at h
          cases hloop : block.vtx.foldlM (reindexTx view) info with
          | error e =>
              simp only [hloop] at h
              cases h
          | ok info' =>
              simp only [hloop] at h
              have hhas : ∀ entry, info'.Has entry ↔ info.Has entry ∨
                  entry.2 ∈ block.vtx.flatMap (entriesOf view entry.1) := by
                intro entry
                rw [foldlM_mem_iff CoinInfo.Has
                  (fun tx entry => entry.2 ∈ entriesOf view entry.1 tx)
                  (fun tx hmem s s' hs => has_reindexTx
                    (hchecked block nHeight List.mem_cons_self tx hmem) hs) hloop,
                  List.mem_flatMap]
              split at h
              · apply writes_congr ((writes_flush db info').trans (ih hrest h))
                intro entry
                rw [hhas]
                cases hkind : entry.1 <;>
                  simp [blockEntries, CoinInfo.Has, CoinInfo.of, hkind, or_assoc]
              · apply writes_congr (ih hrest h)
                intro entry
                rw [hhas]
                simp [blockEntries, or_assoc]

theorem Writes.find?_of_entry {db db' : ZerocoinDB}
    {entries : CoinKind × Uint256 × Uint256 → Prop} (h : Writes db db' entries)
    {kind : CoinKind} {hash : Uint256} (hentry : ∃ txid, entries (kind, hash, txid)) :
    ∃ txid, entries (kind, hash, txid) ∧
      db'.find? (.coin kind hash) = some (writeUint256 txid) := by
  obtain ⟨batch, rfl, hbatch⟩ := h
  obtain ⟨txid, htxid⟩ := hentry
  obtain ⟨value, hmem, hfind⟩ := KeyedMap.exists_find?_insertAll (m := db)
    ⟨writeUint256 txid, (hbatch _).mpr ⟨_, htxid, rfl⟩⟩
  obtain ⟨⟨kind', hash', txid'⟩, hentry', hwritten⟩ := (hbatch _).mp hmem
  obtain ⟨hkey, rfl⟩ := Prod.mk.inj hwritten
  obtain ⟨rfl, rfl⟩ := DbKey.coin.inj hkey
  exact ⟨txid', hentry', hfind⟩

theorem Writes.find?_of_not {db db' : ZerocoinDB}
    {entries : CoinKind × Uint256 × Uint256 → Prop} (h : Writes db db' entries)
    {key : DbKey} (hkey : ∀ kind hash txid, key = .coin kind hash →
      ¬ entries (kind, hash, txid)) : db'.find? key = db.find? key := by
  obtain ⟨batch, rfl, hbatch⟩ := h
  apply KeyedMap.find?_insertAll_of_not_mem
  intro hmem
  obtain ⟨⟨key', value⟩, hwrite, rfl⟩ := List.mem_map.mp hmem
  obtain ⟨⟨kind, hash, txid⟩, hentry, hwritten⟩ := (hbatch _).mp hwrite
  exact hkey kind hash txid (Prod.mk.inj hwritten).1.symm hentry

theorem readHash_writeUint256 (hash : Uint256) :
    ZerocoinDB.readHash (writeUint256 hash) = some hash := by
  have h := reads_uint256 hash []
  rw [List.append_nil] at h
  rw [ZerocoinDB.readHash, h]
  rfl

/-- The entries of a kind are the given ones, each with its transaction. -/
structure HoldsExactly (db : ZerocoinDB) (kind : CoinKind)
    (entries : List (Uint256 × Uint256)) : Prop where
  listed : ∀ hash, (db.find? (.coin kind hash)).isSome ↔ ∃ txid, (hash, txid) ∈ entries
  mapped : ∀ hash value, db.find? (.coin kind hash) = some value →
    ∃ txid, (hash, txid) ∈ entries ∧ ZerocoinDB.readHash value = some txid

theorem holdsExactly_iff {db db' : ZerocoinDB} {kind : CoinKind}
    {entries : CoinKind × Uint256 × Uint256 → Prop} (h : Writes db db' entries)
    {list : List (Uint256 × Uint256)} (hlist : ∀ e, entries (kind, e) ↔ e ∈ list) :
    HoldsExactly db' kind list ↔ ∀ hash, (db.find? (.coin kind hash)).isSome →
      ∃ txid, (hash, txid) ∈ list := by
  have hkept : ∀ hash, (¬ ∃ txid, (hash, txid) ∈ list) →
      db'.find? (.coin kind hash) = db.find? (.coin kind hash) := by
    intro hash hnone
    apply h.find?_of_not
    intro kind' hash' txid heq hentry
    obtain ⟨rfl, rfl⟩ := DbKey.coin.inj heq
    exact hnone ⟨txid, (hlist _).mp hentry⟩
  have hwritten : ∀ hash, (∃ txid, (hash, txid) ∈ list) →
      ∃ txid, (hash, txid) ∈ list ∧
        db'.find? (.coin kind hash) = some (writeUint256 txid) := by
    intro hash hsome
    obtain ⟨txid, htxid⟩ := hsome
    obtain ⟨txid', hentry, hfind⟩ := h.find?_of_entry ⟨txid, (hlist _).mpr htxid⟩
    exact ⟨txid', (hlist _).mp hentry, hfind⟩
  constructor
  · intro hexact hash hsome
    by_contra hnone
    rw [← hkept hash hnone, hexact.listed] at hsome
    exact hnone hsome
  · intro hold
    have hlisted : ∀ hash, (db'.find? (.coin kind hash)).isSome →
        ∃ txid, (hash, txid) ∈ list := by
      intro hash hsome
      by_contra hnone
      rw [hkept hash hnone] at hsome
      exact hnone (hold hash hsome)
    constructor
    · intro hash
      refine ⟨hlisted hash, fun hsome => ?_⟩
      obtain ⟨txid, -, hfind⟩ := hwritten hash hsome
      rw [hfind]
      rfl
    · intro hash value hfind
      obtain ⟨txid, hmem, hfind'⟩ := hwritten hash (hlisted hash (by rw [hfind]; rfl))
      rw [hfind] at hfind'
      obtain rfl := Option.some.inj hfind'
      exact ⟨txid, hmem, readHash_writeUint256 txid⟩

namespace ZerocoinDB

theorem wipeBoth_find? {db wiped : ZerocoinDB}
    (h : ((db.wipeCoins "spends").bind fun db => db.wipeCoins "mints") = some wiped)
    (kind : CoinKind) (hash : Uint256) :
    (wiped.find? (.coin kind hash)).isSome ↔
      (db.find? (.coin kind hash)).isSome ∧ ¬ db.HasValue kind hash := by
  obtain ⟨db₁, hspends, hmints⟩ := Option.bind_eq_some_iff.mp h
  have hone : ∀ (kind : CoinKind) {db wiped : ZerocoinDB},
      db.wipeCoins kind.strType = some wiped →
        ((wiped.find? (.coin kind hash)).isSome ↔
          (db.find? (.coin kind hash)).isSome ∧ ¬ db.HasValue kind hash) := by
    intro kind db wiped hwipe
    obtain ⟨herased, hkept⟩ := wipeCoins_spec hwipe
    by_cases hvalue : db.HasValue kind hash
    · simp [herased hash hvalue, hvalue]
    · rw [hkept (.coin kind hash) (by
        intro hash' heq
        obtain rfl := (DbKey.coin.inj heq).2
        exact hvalue)]
      simp [hvalue]
  have hother : ∀ (kind kind' : CoinKind) {db wiped : ZerocoinDB},
      db.wipeCoins kind.strType = some wiped → kind' ≠ kind → ∀ hash,
        wiped.find? (.coin kind' hash) = db.find? (.coin kind' hash) := by
    intro kind kind' db wiped hwipe hne hash
    apply (wipeCoins_spec hwipe).2
    intro hash' heq
    exact absurd (DbKey.coin.inj heq).1 hne
  cases kind with
  | spend =>
      rw [hother .mint .spend hmints (by decide)]
      exact hone .spend hspends
  | mint =>
      have hsame := hother .spend .mint hspends (by decide)
      rw [hone .mint hmints, hsame]
      simp only [HasValue, hsame]

end ZerocoinDB

/-- **After a reindex** the entries are those of the active chain if and only
if every other key of a kind is a value of an entry of this kind, since
`WipeCoins` erases by the values; it leaves nothing of a kind if and only if
every key is one, and leaves all other entries. -/
theorem reindexZerocoinDB_iff (chain : ActiveChain view) (nStartHeight : Nat)
    {db db' : ZerocoinDB}
    (h : reindexZerocoinDB view chain.blocks nStartHeight db = .ok db') :
    ((∀ kind, HoldsExactly db' kind (chain.entries view nStartHeight kind)) ↔
      ∀ kind hash, (db.find? (.coin kind hash)).isSome → db.HasValue kind hash ∨
        ∃ txid, (hash, txid) ∈ chain.entries view nStartHeight kind) ∧
    ∀ kind wiped, db.wipeCoins kind.strType = some wiped →
      ((∀ hash, wiped.find? (.coin kind hash) = none) ↔
        ∀ hash, (db.find? (.coin kind hash)).isSome → db.HasValue kind hash) ∧
      ∀ key, (∀ hash, key ≠ .coin kind hash) → wiped.find? key = db.find? key := by
  constructor
  · unfold reindexZerocoinDB at h
    split at h
    · cases h
    · rename_i wiped hwipe
      have hwrites := writes_reindexBlocks (by
        intro block nHeight hmem
        apply chain.checked block
        exact (List.mem_zipIdx' (List.mem_of_mem_drop hmem)).2 ▸ List.getElem_mem _) h
      have hexact : ∀ kind, HoldsExactly db' kind (chain.entries view nStartHeight kind) ↔
          ∀ hash, (wiped.find? (.coin kind hash)).isSome →
            ∃ txid, (hash, txid) ∈ chain.entries view nStartHeight kind := by
        intro kind
        apply holdsExactly_iff hwrites
        intro e
        cases kind <;> simp [CoinInfo.Has, CoinInfo.of, ActiveChain.entries]
      simp only [hexact, ZerocoinDB.wipeBoth_find? hwipe]
      constructor
      · intro hall kind hash hsome
        by_cases hvalue : db.HasValue kind hash
        · exact Or.inl hvalue
        · exact Or.inr (hall kind hash ⟨hsome, hvalue⟩)
      · rintro hall kind hash ⟨hsome, hvalue⟩
        exact (hall kind hash hsome).resolve_left hvalue
  · intro kind wiped hwipe
    refine ⟨ZerocoinDB.wipeCoins_all_iff hwipe, fun key hkey => ?_⟩
    exact (ZerocoinDB.wipeCoins_spec hwipe).2 key fun hash heq => absurd heq (hkey hash)

end Chain

/-! ## A stale serial -/

/-- The byte behind the opcode stands for the hash of the serial. -/
def byteView : CoinView where
  spendHash := fun _ txin => (txin.scriptSig[1]?).map fun b => BitVec.ofNat 256 b.toNat
  coinHash := fun out => (out.scriptPubKey[1]?).map fun b => BitVec.ofNat 256 b.toNat
  defaultCoinHash := 0

/-- A chain whose only transaction after the genesis block spends serial 6. -/
def oneSpend : ActiveChain byteView where
  blocks := [some (Node.blockOf 1 0 Node.payTx), some (Node.blockOf 2 1 (Node.spendTx 12 6))]
  checked := by
    intro block hmem tx htx
    simp only [List.mem_cons, Option.some.injEq, List.not_mem_nil, or_false] at hmem
    rcases hmem with rfl | rfl
    · obtain rfl := List.mem_singleton.mp htx
      exact ⟨by decide, by decide⟩
    · obtain rfl := List.mem_singleton.mp htx
      exact ⟨by decide, by decide⟩

/-- A database without entries is fine afterwards. -/
theorem reindexZerocoinDB_iff_empty : ∃ db',
    reindexZerocoinDB byteView oneSpend.blocks 0 KeyedMap.empty = .ok db' ∧
      ∀ kind, HoldsExactly db' kind (oneSpend.entries byteView 0 kind) := by
  have hok : (reindexZerocoinDB byteView oneSpend.blocks 0 KeyedMap.empty).isOk = true := by
    decide +kernel
  cases hrun : reindexZerocoinDB byteView oneSpend.blocks 0 KeyedMap.empty with
  | error e =>
      rw [hrun] at hok
      cases hok
  | ok db' =>
      refine ⟨db', rfl, (reindexZerocoinDB_iff oneSpend 0 hrun).1.mpr ?_⟩
      intro kind hash hsome
      cases hsome

/-- Serial 5 is left from transaction 11, which is not in the chain. -/
def staleDB : ZerocoinDB := KeyedMap.empty.insert (.coin .spend 5) (writeUint256 11)

/-- After the reindex serial 5 is still there. -/
theorem stale_serial_left : ∃ db',
    reindexZerocoinDB byteView oneSpend.blocks 0 staleDB = .ok db' ∧
      (db'.find? (.coin .spend 5)).isSome ∧
      ¬ HoldsExactly db' .spend (oneSpend.entries byteView 0 .spend) := by
  have hleft : (reindexZerocoinDB byteView oneSpend.blocks 0 staleDB).toOption.map
      (fun db' => (db'.find? (.coin .spend 5)).isSome) = some true := by
    decide +kernel
  have hentries : oneSpend.entries byteView 0 .spend = [(6, 12)] := by decide +kernel
  cases hrun : reindexZerocoinDB byteView oneSpend.blocks 0 staleDB with
  | error e =>
      rw [hrun] at hleft
      cases hleft
  | ok db' =>
      rw [hrun] at hleft
      have hfind : (db'.find? (.coin .spend 5)).isSome = true := Option.some.inj hleft
      refine ⟨db', rfl, hfind, fun hexact => ?_⟩
      obtain ⟨txid, hmem⟩ := (hexact.listed 5).mp hfind
      rw [hentries, List.mem_singleton] at hmem
      exact absurd (Prod.mk.inj hmem).1 (by decide)

end Agrarian.Zerocoin
