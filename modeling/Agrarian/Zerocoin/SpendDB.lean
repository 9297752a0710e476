import Agrarian.Primitives

/-!
# The zerocoin spend database

`ConnectBlock` and `DisconnectBlock`, as far as they look up, record and erase
the serials of zerocoin spends, together with the transaction index and the
memory pool that `GetTransaction` asks for the block of a transaction.

A serial stands for its hash, the key of the database.  Parsing a spend is a
parameter that gives the serial, if the spend can be parsed; all other checks
of a block are the outcome `fValid`.  The coin database is the unspent outputs
of the active chain.  Blocks are those above the genesis block, whose time is
`Zerocoin_StartTime`, so zerocoin is active in all of them.
-/

namespace Agrarian.Zerocoin

structure Node (Serial : Type) where
  hashGenesisBlock : Uint256
  /-- The active blocks above the genesis block, from the tip down. -/
  chainActive : List CBlock := []
  zerocoinDB : Serial → Option Uint256 := fun _ => none
  fTxIndex : Bool
  /-- The block of a transaction by the transaction index. -/
  txIndex : Uint256 → Option Uint256 := fun _ => none
  mempool : List CTransaction := []

/-- The inputs whose serials are checked and recorded. -/
def isZerocoin (txin : CTxIn) : Bool :=
  txin.isZerocoinSpend || txin.isZerocoinPublicSpend

namespace Node

variable {Serial : Type} [DecidableEq Serial]

section Lookup

variable (s : Node Serial)

/-- An input of the active chain spends the output. -/
def isSpent (out : COutPoint) : Bool :=
  s.chainActive.any fun block => block.vtx.any fun tx =>
    !tx.isCoinBase && !tx.hasZerocoinSpendInputs &&
      tx.vin.any fun txin => txin.prevout = out

/-- The height of `AccessCoins`: that of the transaction, as long as it has an
unspent output. -/
def accessCoins (hash : Uint256) : Option Nat :=
  (s.chainActive.reverse.findIdx? fun block => block.vtx.any fun tx =>
    tx.hash = hash && tx.vout.zipIdx.any fun out =>
      !out.1.scriptPubKey.isUnspendable && !s.isSpent ⟨hash, out.2⟩).map (· + 1)

/-- `GetTransaction`, with the hash of the block it finds the transaction in;
a transaction in the memory pool comes without one. -/
def getTransaction (hash : Uint256) : Option (Option Uint256) :=
  if s.mempool.any fun tx => tx.hash = hash then some none
  else if s.fTxIndex then (s.txIndex hash).map some
  else
    match s.accessCoins hash with
    | none => none
    | some nHeight =>
        match s.chainActive.reverse[nHeight - 1]? with
        | none => none
        | some block =>
            if block.vtx.any fun tx => tx.hash = hash then
              some (some block.hash)
            else none

def isBlockHashInChain (hashBlock : Uint256) : Bool :=
  s.chainActive.any fun block => block.hash = hashBlock

def isTransactionInChain (txId : Uint256) : Bool :=
  match s.getTransaction txId with
  | some (some hashBlock) => s.isBlockHashInChain hashBlock
  | _ => false

def isSerialInBlockchain (bnSerial : Serial) : Bool :=
  match s.zerocoinDB bnSerial with
  | none => false
  | some txHash => s.isTransactionInChain txHash

def hashTip : Uint256 :=
  match s.chainActive with
  | [] => s.hashGenesisBlock
  | block :: _ => block.hash

end Lookup

variable (serialOf : CTransaction → CTxIn → Option Serial)

/-! ## Connecting -/

/-- `CheckTransaction`: a spend only has inputs that are zerocoins. -/
def checkTransaction (tx : CTransaction) : Bool :=
  !tx.hasZerocoinSpendInputs || tx.vin.all isZerocoin

/-- The inputs of one transaction in the loop of `CheckBlock`. -/
def checkInputs (tx : CTransaction) :
    List CTxIn → List Serial → Option (List Serial)
  | [], vBlockSerials => some vBlockSerials
  | txin :: vin, vBlockSerials =>
      if isZerocoin txin then
        match serialOf tx txin with
        | none => none
        | some serial =>
            if serial ∈ vBlockSerials then none
            else checkInputs tx vin (vBlockSerials ++ [serial])
      else checkInputs tx vin vBlockSerials

/-- The loop of `CheckBlock` over the transactions. -/
def checkBlock : List CTransaction → List Serial → Bool
  | [], _ => true
  | tx :: vtx, vBlockSerials =>
      if checkTransaction tx then
        match checkInputs serialOf tx tx.vin vBlockSerials with
        | none => false
        | some vBlockSerials => checkBlock vtx vBlockSerials
      else false

/-- The spends of one transaction in the loop of `ConnectBlock`. -/
def connectInputs (s : Node Serial) (tx : CTransaction) :
    List CTxIn → Option (List (Serial × Uint256))
  | [] => some []
  | txin :: vin =>
      if isZerocoin txin then
        match serialOf tx txin with
        | none => none
        | some serial =>
            if s.isSerialInBlockchain serial then none
            else (connectInputs s tx vin).map ((serial, tx.hash) :: ·)
      else connectInputs s tx vin

/-- `vSpends` of `ConnectBlock`. -/
def connectTxs (s : Node Serial) :
    List CTransaction → Option (List (Serial × Uint256))
  | [] => some []
  | tx :: vtx =>
      if tx.hasZerocoinSpendInputs then
        if s.isTransactionInChain tx.hash then none
        else
          match connectInputs serialOf s tx tx.vin with
          | none => none
          | some vSpends => (connectTxs s vtx).map (vSpends ++ ·)
      else connectTxs s vtx

def writeCoinSpendBatch (zerocoinDB : Serial → Option Uint256)
    (spendInfo : List (Serial × Uint256)) : Serial → Option Uint256 :=
  spendInfo.foldl (fun db it => Function.update db it.1 (some it.2)) zerocoinDB

def writeTxIndex (txIndex : Uint256 → Option Uint256) (block : CBlock) :
    Uint256 → Option Uint256 :=
  block.vtx.foldl (fun index tx =>
    Function.update index tx.hash (some block.hash)) txIndex

/-- `ConnectTip`: the block is checked and connected, its spends are recorded,
and its transactions leave the memory pool. -/
def connectTip (s : Node Serial) (block : CBlock) (fValid : Bool) :
    Option (Node Serial) :=
  if block.hashPrevBlock ≠ s.hashTip then none
  else if !checkBlock serialOf block.vtx [] then none
  else
    match connectTxs serialOf s block.vtx with
    | none => none
    | some vSpends =>
        if fValid then
          some { s with
            chainActive := block :: s.chainActive
            zerocoinDB := writeCoinSpendBatch s.zerocoinDB vSpends
            txIndex :=
              if s.fTxIndex then writeTxIndex s.txIndex block else s.txIndex
            mempool := s.mempool.filter fun tx =>
              !block.vtx.any fun btx => btx.hash = tx.hash }
        else none

/-! ## Disconnecting -/

/-- Erase all zerocoin spends of a transaction. -/
def disconnectInputs (tx : CTransaction) :
    List CTxIn → (Serial → Option Uint256) → Option (Serial → Option Uint256)
  | [], db => some db
  | txin :: vin, db =>
      if txin.scriptSig.isZerocoinSpend || txin.isZerocoinPublicSpend then
        match serialOf tx txin with
        | none => none
        | some serial =>
            disconnectInputs tx vin (Function.update db serial none)
      else disconnectInputs tx vin db

/-- Undo transactions, in the order of the list. -/
def disconnectTxs :
    List CTransaction → (Serial → Option Uint256) →
      Option (Serial → Option Uint256)
  | [], db => some db
  | tx :: vtx, db =>
      if tx.hasZerocoinSpendInputs then
        match disconnectInputs serialOf tx tx.vin db with
        | none => none
        | some db => disconnectTxs vtx db
      else disconnectTxs vtx db

/-- `DisconnectTip`; some of the block's transactions may go back to the
memory pool. -/
def disconnectTip (s : Node Serial) (fResurrected : CTransaction → Bool) :
    Option (Node Serial) :=
  match s.chainActive with
  | [] => none
  | block :: chain =>
      match disconnectTxs serialOf block.vtx.reverse s.zerocoinDB with
      | none => none
      | some zerocoinDB =>
          some { s with
            chainActive := chain
            zerocoinDB
            mempool := s.mempool ++ block.vtx.filter fResurrected }

/-- `AcceptToMemoryPool`: a spend that is in the chain is refused. -/
def acceptToMemoryPool (s : Node Serial) (tx : CTransaction) (fValid : Bool) :
    Node Serial :=
  if tx.hasZerocoinSpendInputs && s.isTransactionInChain tx.hash then s
  else if fValid then { s with mempool := tx :: s.mempool } else s

/-! ## What the chain spends -/

/-- The serials a transaction spends. -/
def serials (tx : CTransaction) : List Serial :=
  (tx.vin.filter isZerocoin).filterMap (serialOf tx)

/-- The serials of a list of transactions, with the transactions' hashes. -/
def spendsOf (vtx : List CTransaction) : List (Serial × Uint256) :=
  vtx.flatMap fun tx => (serials serialOf tx).map fun serial =>
    (serial, tx.hash)

/-- What the active chain spends. -/
def spends (s : Node Serial) : List (Serial × Uint256) :=
  s.chainActive.flatMap fun block => spendsOf serialOf block.vtx

/-- Database, index and memory pool follow the active chain. -/
structure Inv (txOf : Uint256 → CTransaction) (s : Node Serial) : Prop where
  db : ∀ serial hash, s.zerocoinDB serial = some hash ↔
    (serial, hash) ∈ spends serialOf s
  nodup : ((spends serialOf s).map Prod.fst).Nodup
  indexed : ∀ block ∈ s.chainActive, ∀ tx ∈ block.vtx,
    tx.hasZerocoinSpendInputs = true → s.txIndex tx.hash = some block.hash
  pool : ∀ block ∈ s.chainActive, ∀ tx ∈ block.vtx,
    tx.hasZerocoinSpendInputs = true → ∀ m ∈ s.mempool, m.hash ≠ tx.hash
  known : ∀ block ∈ s.chainActive, ∀ tx ∈ block.vtx, txOf tx.hash = tx
  checked : ∀ block ∈ s.chainActive, ∀ tx ∈ block.vtx,
    checkTransaction tx = true ∧
      ∀ txin ∈ tx.vin, isZerocoin txin = true → (serialOf tx txin).isSome

section Lemmas

variable {serialOf : CTransaction → CTxIn → Option Serial}
variable {txOf : Uint256 → CTransaction} {s : Node Serial}

omit [DecidableEq Serial] in
theorem serials_eq_nil {tx : CTransaction}
    (h : tx.hasZerocoinSpendInputs = false) : serials serialOf tx = [] := by
  have hfilter : tx.vin.filter isZerocoin = [] := by
    rw [List.filter_eq_nil_iff]
    intro txin htxin hzc
    unfold CTransaction.hasZerocoinSpendInputs at h
    rw [List.any_eq_false] at h
    exact h txin htxin hzc
  unfold serials
  rw [hfilter]
  rfl

omit [DecidableEq Serial] in
theorem mem_spendsOf {vtx : List CTransaction} {serial : Serial}
    {hash : Uint256} : (serial, hash) ∈ spendsOf serialOf vtx ↔
      ∃ tx ∈ vtx, serial ∈ serials serialOf tx ∧ tx.hash = hash := by
  unfold spendsOf
  simp only [List.mem_flatMap, List.mem_map, Prod.mk.injEq]
  constructor
  · rintro ⟨tx, htx, serial', hserial, rfl, hhash⟩
    exact ⟨tx, htx, hserial, hhash⟩
  · rintro ⟨tx, htx, hserial, hhash⟩
    exact ⟨tx, htx, serial, hserial, rfl, hhash⟩

omit [DecidableEq Serial] in
theorem mem_spends {serial : Serial} {hash : Uint256} :
    (serial, hash) ∈ spends serialOf s ↔ ∃ block ∈ s.chainActive,
      (serial, hash) ∈ spendsOf serialOf block.vtx := List.mem_flatMap

omit [DecidableEq Serial] in
/-- A spend of the active chain is found there. -/
theorem Inv.inChain (h : Inv serialOf txOf s) (hindex : s.fTxIndex = true)
    {block : CBlock} (hblock : block ∈ s.chainActive) {tx : CTransaction}
    (htx : tx ∈ block.vtx) (hzc : tx.hasZerocoinSpendInputs = true) :
    s.isTransactionInChain tx.hash = true := by
  have hpool : (s.mempool.any fun m => m.hash = tx.hash) = false := by
    rw [List.any_eq_false]
    intro m hm heq
    exact h.pool block hblock tx htx hzc m hm (of_decide_eq_true heq)
  unfold isTransactionInChain getTransaction
  rw [hpool, hindex, h.indexed block hblock tx htx hzc]
  show s.isBlockHashInChain block.hash = true
  unfold isBlockHashInChain
  rw [List.any_eq_true]
  exact ⟨block, hblock, decide_eq_true rfl⟩

omit [DecidableEq Serial] in
/-- So a serial that the chain spends is found there. -/
theorem Inv.serialInChain (h : Inv serialOf txOf s)
    (hindex : s.fTxIndex = true) {serial : Serial} {hash : Uint256}
    (hmem : (serial, hash) ∈ spends serialOf s) :
    s.isSerialInBlockchain serial = true := by
  unfold isSerialInBlockchain
  rw [(h.db serial hash).mpr hmem]
  rcases mem_spends.mp hmem with ⟨block, hblock, hmem⟩
  rcases mem_spendsOf.mp hmem with ⟨tx, htx, hserial, rfl⟩
  apply h.inChain hindex hblock htx
  by_contra hzc
  rw [serials_eq_nil (Bool.eq_false_of_not_eq_true hzc)] at hserial
  cases hserial

/-! ### What the checks say -/

theorem checkInputs_some {tx : CTransaction} {vin : List CTxIn}
    {before after : List Serial}
    (h : checkInputs serialOf tx vin before = some after) :
    after = before ++ (vin.filter isZerocoin).filterMap (serialOf tx) ∧
      (before.Nodup → after.Nodup) ∧
      ∀ txin ∈ vin, isZerocoin txin = true → (serialOf tx txin).isSome := by
  induction vin generalizing before with
  | nil =>
      cases h
      exact ⟨(List.append_nil _).symm, id, fun _ hm => by cases hm⟩
  | cons txin vin ih =>
      unfold checkInputs at h
      cases hzc : isZerocoin txin with
      | true =>
          rw [hzc, if_pos rfl] at h
          cases hserial : serialOf tx txin with
          | none =>
              rw [hserial] at h
              cases h
          | some serial =>
              rw [hserial] at h
              dsimp only at h
              split at h
              · cases h
              · rename_i hnew
                have hih := ih h
                refine ⟨?_, fun hnodup => hih.2.1 ?_, fun x hx hxzc => ?_⟩
                · rw [hih.1, List.filter_cons_of_pos hzc,
                    List.filterMap_cons_some hserial, List.append_assoc]
                  rfl
                · rw [List.nodup_append]
                  refine ⟨hnodup, List.nodup_singleton _, ?_⟩
                  intro a ha b hb
                  rw [List.mem_singleton.mp hb]
                  rintro rfl
                  exact hnew ha
                · rcases List.mem_cons.mp hx with rfl | hx
                  · rw [hserial]
                    rfl
                  · exact hih.2.2 x hx hxzc
      | false =>
          rw [hzc, if_neg Bool.false_ne_true] at h
          have hih := ih h
          refine ⟨?_, hih.2.1, fun x hx hxzc => ?_⟩
          · rw [hih.1, List.filter_cons_of_neg (by rw [hzc]; decide)]
          · rcases List.mem_cons.mp hx with rfl | hx
            · rw [hzc] at hxzc
              cases hxzc
            · exact hih.2.2 x hx hxzc

theorem checkBlock_true {vtx : List CTransaction} {before : List Serial}
    (hbefore : before.Nodup) (h : checkBlock serialOf vtx before = true) :
    (before ++ (spendsOf serialOf vtx).map Prod.fst).Nodup ∧
      ∀ tx ∈ vtx, checkTransaction tx = true ∧
        ∀ txin ∈ tx.vin, isZerocoin txin = true →
          (serialOf tx txin).isSome := by
  induction vtx generalizing before with
  | nil =>
      refine ⟨?_, fun _ hm => by cases hm⟩
      simpa [spendsOf] using hbefore
  | cons tx vtx ih =>
      unfold checkBlock at h
      split at h
      · rename_i htx
        cases hin : checkInputs serialOf tx tx.vin before with
        | none =>
            rw [hin] at h
            cases h
        | some after =>
            rw [hin] at h
            have hinputs := checkInputs_some hin
            have hih := ih (hinputs.2.1 hbefore) h
            constructor
            · have hmap : (spendsOf serialOf (tx :: vtx)).map Prod.fst =
                  (tx.vin.filter isZerocoin).filterMap (serialOf tx) ++
                    (spendsOf serialOf vtx).map Prod.fst := by
                unfold spendsOf serials
                rw [List.flatMap_cons, List.map_append, List.map_map]
                congr 1
                exact List.map_id _
              rw [hmap, ← List.append_assoc, ← hinputs.1]
              exact hih.1
            · intro x hx
              rcases List.mem_cons.mp hx with rfl | hx
              · exact ⟨htx, hinputs.2.2⟩
              · exact hih.2 x hx
      · cases h

omit [DecidableEq Serial] in
theorem connectInputs_some {tx : CTransaction} {vin : List CTxIn}
    {vSpends : List (Serial × Uint256)}
    (h : connectInputs serialOf s tx vin = some vSpends) :
    vSpends = ((vin.filter isZerocoin).filterMap (serialOf tx)).map
        (fun serial => (serial, tx.hash)) ∧
      ∀ p ∈ vSpends, s.isSerialInBlockchain p.1 = false := by
  induction vin generalizing vSpends with
  | nil =>
      cases h
      exact ⟨rfl, fun _ hm => by cases hm⟩
  | cons txin vin ih =>
      unfold connectInputs at h
      cases hzc : isZerocoin txin with
      | true =>
          rw [hzc, if_pos rfl] at h
          cases hserial : serialOf tx txin with
          | none =>
              rw [hserial] at h
              cases h
          | some serial =>
              rw [hserial] at h
              dsimp only at h
              split at h
              · cases h
              · rename_i hnew
                rw [Option.map_eq_some_iff] at h
                rcases h with ⟨rest, hrest, rfl⟩
                have hih := ih hrest
                refine ⟨?_, fun p hp => ?_⟩
                · rw [List.filter_cons_of_pos hzc,
                    List.filterMap_cons_some hserial, List.map_cons, hih.1]
                · rcases List.mem_cons.mp hp with rfl | hp
                  · exact Bool.eq_false_of_not_eq_true hnew
                  · exact hih.2 p hp
      | false =>
          rw [hzc, if_neg Bool.false_ne_true] at h
          rw [List.filter_cons_of_neg (by rw [hzc]; decide)]
          exact ih h

omit [DecidableEq Serial] in
/-- The spends of a block that is connected are new to the chain. -/
theorem connectTxs_some {vtx : List CTransaction}
    {vSpends : List (Serial × Uint256)}
    (h : connectTxs serialOf s vtx = some vSpends) :
    vSpends = spendsOf serialOf vtx ∧
      (∀ p ∈ vSpends, s.isSerialInBlockchain p.1 = false) ∧
      ∀ tx ∈ vtx, tx.hasZerocoinSpendInputs = true →
        s.isTransactionInChain tx.hash = false := by
  induction vtx generalizing vSpends with
  | nil =>
      cases h
      exact ⟨rfl, (fun _ hm => by cases hm), fun _ hm => by cases hm⟩
  | cons tx vtx ih =>
      unfold connectTxs at h
      cases hzc : tx.hasZerocoinSpendInputs with
      | true =>
          rw [hzc, if_pos rfl] at h
          split at h
          · cases h
          · rename_i hnew
            cases hin : connectInputs serialOf s tx tx.vin with
            | none =>
                rw [hin] at h
                cases h
            | some first =>
                rw [hin] at h
                rw [Option.map_eq_some_iff] at h
                rcases h with ⟨rest, hrest, rfl⟩
                have hinputs := connectInputs_some hin
                have hih := ih hrest
                refine ⟨?_, fun p hp => ?_, fun x hx hxzc => ?_⟩
                · rw [hinputs.1, hih.1]
                  rfl
                · rcases List.mem_append.mp hp with hp | hp
                  · exact hinputs.2 p hp
                  · exact hih.2.1 p hp
                · rcases List.mem_cons.mp hx with rfl | hx
                  · exact Bool.eq_false_of_not_eq_true hnew
                  · exact hih.2.2 x hx hxzc
      | false =>
          rw [hzc, if_neg Bool.false_ne_true] at h
          have hih := ih h
          refine ⟨?_, hih.2.1, fun x hx hxzc => ?_⟩
          · rw [hih.1]
            unfold spendsOf
            rw [List.flatMap_cons, serials_eq_nil hzc]
            rfl
          · rcases List.mem_cons.mp hx with rfl | hx
            · rw [hzc] at hxzc
              cases hxzc
            · exact hih.2.2 x hx hxzc

theorem writeCoinSpendBatch_eq {db : Serial → Option Uint256}
    {l : List (Serial × Uint256)} (hnodup : (l.map Prod.fst).Nodup)
    (serial : Serial) (hash : Uint256) :
    writeCoinSpendBatch db l serial = some hash ↔
      (serial, hash) ∈ l ∨
        serial ∉ l.map Prod.fst ∧ db serial = some hash := by
  induction l generalizing db with
  | nil => simp [writeCoinSpendBatch]
  | cons p l ih =>
      rw [List.map_cons, List.nodup_cons] at hnodup
      show writeCoinSpendBatch (Function.update db p.1 (some p.2)) l serial =
        some hash ↔ _
      rw [ih hnodup.2]
      by_cases hp : serial = p.1
      · subst hp
        rw [Function.update_self]
        constructor
        · rintro (hmem | ⟨-, heq⟩)
          · exact absurd (List.mem_map.mpr ⟨_, hmem, rfl⟩) hnodup.1
          · left
            rw [← Option.some.inj heq]
            exact List.mem_cons_self
        · rintro (hmem | ⟨hno, -⟩)
          · rcases List.mem_cons.mp hmem with heq | hmem
            · right
              refine ⟨hnodup.1, ?_⟩
              rw [← heq]
            · exact Or.inl hmem
          · exact absurd List.mem_cons_self hno
      · rw [Function.update_of_ne hp]
        simp only [List.mem_cons, List.map_cons, not_or]
        constructor
        · rintro (hmem | ⟨hno, heq⟩)
          · exact Or.inl (Or.inr hmem)
          · exact Or.inr ⟨⟨hp, hno⟩, heq⟩
        · rintro ((heq | hmem) | ⟨⟨-, hno⟩, heq⟩)
          · rw [← heq] at hp
            exact absurd rfl hp
          · exact Or.inl hmem
          · exact Or.inr ⟨hno, heq⟩

theorem writeTxIndex_eq {index : Uint256 → Option Uint256} (block : CBlock)
    (hash : Uint256) :
    writeTxIndex index block hash =
      if block.vtx.any fun tx => tx.hash = hash then some block.hash
      else index hash := by
  have hfold : ∀ (vtx : List CTransaction) (index : Uint256 → Option Uint256),
      (vtx.foldl (fun (index : Uint256 → Option Uint256) tx =>
        Function.update index tx.hash (some block.hash)) index) hash =
      if vtx.any fun tx => tx.hash = hash then some block.hash
      else index hash := by
    intro vtx
    induction vtx with
    | nil => intro index; rfl
    | cons tx vtx ih =>
        intro index
        rw [List.foldl_cons, ih, List.any_cons]
        by_cases htx : tx.hash = hash
        · rw [← htx, Function.update_self]
          simp
        · rw [Function.update_of_ne (Ne.symm htx)]
          simp [htx]
  exact hfold block.vtx index

/-! ### Erasing -/

omit [DecidableEq Serial] in
theorem isZerocoin_scriptSig {txin : CTxIn} (h : isZerocoin txin = true) :
    (txin.scriptSig.isZerocoinSpend || txin.isZerocoinPublicSpend) = true := by
  unfold isZerocoin at h
  rw [Bool.or_eq_true] at h ⊢
  rcases h with h | h
  · unfold CTxIn.isZerocoinSpend at h
    rw [Bool.and_eq_true] at h
    exact Or.inl h.2
  · exact Or.inr h

theorem disconnectInputs_eq {tx : CTransaction} {vin : List CTxIn}
    (db : Serial → Option Uint256)
    (hzc : ∀ txin ∈ vin, isZerocoin txin = true ∧
      (serialOf tx txin).isSome) :
    ∃ db', disconnectInputs serialOf tx vin db = some db' ∧
      ∀ serial, db' serial =
        if serial ∈ vin.filterMap (serialOf tx) then none else db serial := by
  induction vin generalizing db with
  | nil => exact ⟨db, rfl, fun _ => rfl⟩
  | cons txin vin ih =>
      have hfirst := hzc txin List.mem_cons_self
      rcases Option.isSome_iff_exists.mp hfirst.2 with ⟨serial, hserial⟩
      rcases ih (Function.update db serial none) (fun x hx =>
        hzc x (List.mem_cons_of_mem _ hx)) with ⟨db', hdb', heq⟩
      refine ⟨db', ?_, fun x => ?_⟩
      · unfold disconnectInputs
        rw [if_pos (isZerocoin_scriptSig hfirst.1), hserial]
        exact hdb'
      · rw [heq, List.filterMap_cons_some hserial]
        by_cases hx : x = serial
        · rw [hx, Function.update_self]
          simp
        · rw [Function.update_of_ne hx]
          simp [hx]

/-- Undoing checked transactions erases exactly what they spend. -/
theorem disconnectTxs_eq {vtx : List CTransaction}
    (db : Serial → Option Uint256)
    (hchecked : ∀ tx ∈ vtx, checkTransaction tx = true ∧
      ∀ txin ∈ tx.vin, isZerocoin txin = true → (serialOf tx txin).isSome) :
    ∃ db', disconnectTxs serialOf vtx db = some db' ∧
      ∀ serial, db' serial =
        if serial ∈ (spendsOf serialOf vtx).map Prod.fst then none
        else db serial := by
  induction vtx generalizing db with
  | nil => exact ⟨db, rfl, fun _ => rfl⟩
  | cons tx vtx ih =>
      have hfirst := hchecked tx List.mem_cons_self
      have hrest : ∀ x ∈ vtx, _ := fun x hx =>
        hchecked x (List.mem_cons_of_mem _ hx)
      have hmap : (spendsOf serialOf (tx :: vtx)).map Prod.fst =
          serials serialOf tx ++ (spendsOf serialOf vtx).map Prod.fst := by
        unfold spendsOf
        rw [List.flatMap_cons, List.map_append, List.map_map]
        congr 1
        exact List.map_id _
      unfold disconnectTxs
      rw [hmap]
      cases hzc : tx.hasZerocoinSpendInputs with
      | false =>
          rw [if_neg Bool.false_ne_true, serials_eq_nil hzc]
          exact ih db hrest
      | true =>
          have hall : ∀ txin ∈ tx.vin, isZerocoin txin = true := by
            have hcheck := hfirst.1
            unfold checkTransaction at hcheck
            rw [hzc] at hcheck
            exact List.all_eq_true.mp hcheck
          have hserials : serials serialOf tx =
              tx.vin.filterMap (serialOf tx) := by
            unfold serials
            rw [List.filter_eq_self.mpr hall]
          rcases disconnectInputs_eq db (fun txin hmem =>
            ⟨hall txin hmem, hfirst.2 txin hmem (hall txin hmem)⟩) with
            ⟨db₁, hdb₁, heq₁⟩
          rcases ih db₁ hrest with ⟨db', hdb', heq⟩
          refine ⟨db', ?_, fun serial => ?_⟩
          · rw [if_pos rfl, hdb₁]
            exact hdb'
          · rw [heq, heq₁, hserials]
            by_cases hmem : serial ∈ tx.vin.filterMap (serialOf tx)
            · rw [if_pos hmem, if_pos (List.mem_append_left _ hmem), ite_self]
            · rw [if_neg hmem]
              exact if_congr (by simp [hmem]) rfl rfl

omit [DecidableEq Serial] in
theorem spends_of_zerocoin {tx : CTransaction}
    (hzc : tx.hasZerocoinSpendInputs = true)
    (hparsed : ∀ txin ∈ tx.vin, isZerocoin txin = true →
      (serialOf tx txin).isSome) :
    ∃ serial, serial ∈ serials serialOf tx := by
  rcases List.any_eq_true.mp hzc with ⟨txin, htxin, hzcIn⟩
  have hin : isZerocoin txin = true := hzcIn
  rcases Option.isSome_iff_exists.mp (hparsed txin htxin hin) with
    ⟨serial, hserial⟩
  exact ⟨serial, List.mem_filterMap.mpr
    ⟨txin, List.mem_filter.mpr ⟨htxin, hin⟩, hserial⟩⟩

/-! ### The steps -/

/-- What a connected block has passed. -/
structure Connects (serialOf : CTransaction → CTxIn → Option Serial) (s : Node Serial)
    (vtx : List CTransaction) : Prop where
  nodup : ((spendsOf serialOf vtx).map Prod.fst).Nodup
  checked : ∀ tx ∈ vtx, checkTransaction tx = true ∧
    ∀ txin ∈ tx.vin, isZerocoin txin = true → (serialOf tx txin).isSome
  newSerial : ∀ p ∈ spendsOf serialOf vtx, s.isSerialInBlockchain p.1 = false
  newSpend : ∀ tx ∈ vtx, tx.hasZerocoinSpendInputs = true →
    s.isTransactionInChain tx.hash = false

theorem connectTip_some {block : CBlock} {fValid : Bool} {s' : Node Serial}
    (h : connectTip serialOf s block fValid = some s') :
    Connects serialOf s block.vtx ∧
      s' = { s with
        chainActive := block :: s.chainActive
        zerocoinDB := writeCoinSpendBatch s.zerocoinDB (spendsOf serialOf block.vtx)
        txIndex := if s.fTxIndex then writeTxIndex s.txIndex block else s.txIndex
        mempool := s.mempool.filter fun tx =>
          !block.vtx.any fun btx => btx.hash = tx.hash } := by
  unfold connectTip at h
  split at h
  · cases h
  split at h
  · cases h
  rename_i hcheck
  rw [Bool.not_eq_true', Bool.not_eq_false] at hcheck
  have hchecked := checkBlock_true List.nodup_nil hcheck
  rw [List.nil_append] at hchecked
  cases hconnect : connectTxs serialOf s block.vtx with
  | none =>
      rw [hconnect] at h
      cases h
  | some vSpends =>
      rw [hconnect] at h
      obtain ⟨rfl, hserial, hspend⟩ := connectTxs_some hconnect
      cases fValid with
      | false => cases h
      | true => exact ⟨⟨hchecked.1, hchecked.2, hserial, hspend⟩, (Option.some.inj h).symm⟩

omit [DecidableEq Serial] in
/-- No serial of the block is recorded. -/
theorem Connects.fresh {vtx : List CTransaction} (hconnects : Connects serialOf s vtx)
    (h : Inv serialOf txOf s) (hindex : s.fTxIndex = true) {serial : Serial} {hash : Uint256}
    (hold : (serial, hash) ∈ spends serialOf s) :
    serial ∉ (spendsOf serialOf vtx).map Prod.fst := by
  intro hmem
  rcases List.mem_map.mp hmem with ⟨p, hp, rfl⟩
  have hno := hconnects.newSerial p hp
  rw [h.serialInChain hindex hold] at hno
  cases hno

omit [DecidableEq Serial] in
/-- A spend of the block is in no active block. -/
theorem Connects.other {vtx : List CTransaction} (hconnects : Connects serialOf s vtx)
    (h : Inv serialOf txOf s) (hindex : s.fTxIndex = true)
    (hknown : ∀ tx ∈ vtx, txOf tx.hash = tx) {blk : CBlock} (hblk : blk ∈ s.chainActive)
    {tx : CTransaction} (htx : tx ∈ blk.vtx) (hzc : tx.hasZerocoinSpendInputs = true) :
    ∀ btx ∈ vtx, btx.hash ≠ tx.hash := by
  intro btx hbtx heq
  have hsame : btx = tx := by
    rw [← hknown btx hbtx, heq, h.known blk hblk tx htx]
  subst hsame
  have hno := hconnects.newSpend btx hbtx hzc
  rw [h.inChain hindex hblk htx hzc] at hno
  cases hno

/-- **Connecting a block** records exactly its spends. -/
theorem connectTip_inv {block : CBlock} {fValid : Bool} {s' : Node Serial}
    (h : Inv serialOf txOf s) (hindex : s.fTxIndex = true)
    (hknown : ∀ tx ∈ block.vtx, txOf tx.hash = tx)
    (hs' : connectTip serialOf s block fValid = some s') :
    Inv serialOf txOf s' ∧ s'.fTxIndex = true := by
  obtain ⟨hconnects, rfl⟩ := connectTip_some hs'
  refine ⟨⟨?_, ?_, ?_, ?_, ?_, ?_⟩, hindex⟩
  · intro serial hash
    show writeCoinSpendBatch s.zerocoinDB _ serial = some hash ↔
      (serial, hash) ∈ spendsOf serialOf block.vtx ++ spends serialOf s
    rw [writeCoinSpendBatch_eq hconnects.nodup, h.db, List.mem_append]
    constructor
    · rintro (hmem | ⟨-, hold⟩)
      · exact Or.inl hmem
      · exact Or.inr hold
    · rintro (hmem | hold)
      · exact Or.inl hmem
      · exact Or.inr ⟨hconnects.fresh h hindex hold, hold⟩
  · show ((spendsOf serialOf block.vtx ++ spends serialOf s).map
      Prod.fst).Nodup
    rw [List.map_append, List.nodup_append]
    refine ⟨hconnects.nodup, h.nodup, fun a ha b hb => ?_⟩
    rcases List.mem_map.mp hb with ⟨⟨serial, hash⟩, hmem, rfl⟩
    rintro rfl
    exact hconnects.fresh h hindex hmem ha
  · intro blk hblk tx htx hzc
    show (if s.fTxIndex then writeTxIndex s.txIndex block else s.txIndex) tx.hash =
      some blk.hash
    rw [if_pos hindex, writeTxIndex_eq]
    rcases List.mem_cons.mp hblk with rfl | hblk
    · rw [if_pos]
      rw [List.any_eq_true]
      exact ⟨tx, htx, decide_eq_true rfl⟩
    · rw [if_neg]
      · exact h.indexed blk hblk tx htx hzc
      · intro hany
        rcases List.any_eq_true.mp hany with ⟨btx, hbtx, heq⟩
        exact hconnects.other h hindex hknown hblk htx hzc btx hbtx (of_decide_eq_true heq)
  · intro blk hblk tx htx hzc m hm
    have hm' := List.mem_filter.mp hm
    rcases List.mem_cons.mp hblk with rfl | hblk
    · intro heq
      have hno := hm'.2
      rw [Bool.not_eq_true', List.any_eq_false] at hno
      exact hno tx htx (decide_eq_true heq.symm)
    · exact h.pool blk hblk tx htx hzc m hm'.1
  · intro blk hblk
    rcases List.mem_cons.mp hblk with rfl | hblk
    · exact hknown
    · exact h.known blk hblk
  · intro blk hblk
    rcases List.mem_cons.mp hblk with rfl | hblk
    · exact hconnects.checked
    · exact h.checked blk hblk

/-- **Disconnecting the tip** erases exactly its spends. -/
theorem disconnectTip_inv {fResurrected : CTransaction → Bool}
    {s' : Node Serial} (h : Inv serialOf txOf s)
    (hindex : s.fTxIndex = true)
    (hs' : disconnectTip serialOf s fResurrected = some s') :
    Inv serialOf txOf s' ∧ s'.fTxIndex = true := by
  unfold disconnectTip at hs'
  cases hchain : s.chainActive with
  | nil =>
      rw [hchain] at hs'
      cases hs'
  | cons block chain =>
      have hblock : block ∈ s.chainActive := by
        rw [hchain]
        exact List.mem_cons_self
      have hrest : ∀ blk ∈ chain, blk ∈ s.chainActive := by
        intro blk hblk
        rw [hchain]
        exact List.mem_cons_of_mem _ hblk
      rcases disconnectTxs_eq s.zerocoinDB (fun tx htx =>
        h.checked block hblock tx (List.mem_reverse.mp htx)) with
        ⟨db', hdb', heq⟩
      simp only [hchain, hdb'] at hs'
      cases hs'
      have hspends : spends serialOf s =
          spendsOf serialOf block.vtx ++
            spends serialOf { s with chainActive := chain } := by
        unfold spends
        rw [hchain]
        rfl
      have hmem : ∀ serial,
          serial ∈ (spendsOf serialOf block.vtx.reverse).map Prod.fst ↔
            serial ∈ (spendsOf serialOf block.vtx).map Prod.fst := by
        intro serial
        simp only [List.mem_map, Prod.exists, mem_spendsOf, List.mem_reverse]
      have hnodup := h.nodup
      rw [hspends, List.map_append, List.nodup_append] at hnodup
      refine ⟨⟨?_, hnodup.2.1, fun blk hblk => h.indexed blk (hrest blk hblk),
        ?_, fun blk hblk => h.known blk (hrest blk hblk),
        fun blk hblk => h.checked blk (hrest blk hblk)⟩, hindex⟩
      · intro serial hash
        show db' serial = some hash ↔
          (serial, hash) ∈ spends serialOf { s with chainActive := chain }
        rw [heq]
        by_cases herased :
            serial ∈ (spendsOf serialOf block.vtx).map Prod.fst
        · rw [if_pos ((hmem serial).mpr herased)]
          constructor
          · intro hnone
            cases hnone
          · intro hold
            exact absurd rfl (hnodup.2.2 serial herased serial
              (List.mem_map.mpr ⟨_, hold, rfl⟩))
        · rw [if_neg fun hno => herased ((hmem serial).mp hno), h.db, hspends,
            List.mem_append]
          constructor
          · rintro (hnew | hold)
            · exact absurd (List.mem_map.mpr ⟨_, hnew, rfl⟩) herased
            · exact hold
          · exact Or.inr
      · intro blk hblk tx htx hzc m hm
        rcases List.mem_append.mp hm with hm | hm
        · exact h.pool blk (hrest blk hblk) tx htx hzc m hm
        · -- the serial of a spend in both blocks would be there twice
          have hmvtx := (List.mem_filter.mp hm).1
          intro hhash
          have hsame : m = tx := by
            rw [← h.known block hblock m hmvtx, hhash,
              h.known blk (hrest blk hblk) tx htx]
          subst hsame
          rcases spends_of_zerocoin hzc
            (h.checked block hblock m hmvtx).2 with ⟨serial, hserial⟩
          have hone : serial ∈ (spendsOf serialOf block.vtx).map Prod.fst :=
            List.mem_map.mpr
              ⟨_, mem_spendsOf.mpr ⟨m, hmvtx, hserial, rfl⟩, rfl⟩
          have htwo : serial ∈ (spends serialOf
              { s with chainActive := chain }).map Prod.fst :=
            List.mem_map.mpr ⟨_, mem_spends.mpr ⟨blk, hblk,
              mem_spendsOf.mpr ⟨m, htx, hserial, rfl⟩⟩, rfl⟩
          exact hnodup.2.2 serial hone serial htwo rfl

omit [DecidableEq Serial] in
/-- Accepting a transaction adds no spend of the active chain. -/
theorem acceptToMemoryPool_inv {tx : CTransaction} {fValid : Bool}
    (h : Inv serialOf txOf s) (hindex : s.fTxIndex = true)
    (hknown : txOf tx.hash = tx) :
    Inv serialOf txOf (acceptToMemoryPool s tx fValid) ∧
      (acceptToMemoryPool s tx fValid).fTxIndex = true := by
  unfold acceptToMemoryPool
  split
  · exact ⟨h, hindex⟩
  · rename_i hnew
    split
    · refine ⟨⟨h.db, h.nodup, h.indexed, ?_, h.known, h.checked⟩, hindex⟩
      intro block hblock btx hbtx hzc m hm
      rcases List.mem_cons.mp hm with rfl | hm
      · intro heq
        have hsame : m = btx := by
          rw [← hknown, heq, h.known block hblock btx hbtx]
        subst hsame
        rw [hzc, h.inChain hindex hblock hbtx hzc] at hnew
        exact hnew rfl
      · exact h.pool block hblock btx hbtx hzc m hm
    · exact ⟨h, hindex⟩

end Lemmas

/-! ## Runs -/

/-- The states of a node: blocks of any tree are connected to the tip and
disconnected again, and transactions come into the memory pool and leave it.
The hash of a transaction identifies it. -/
inductive Run (txOf : Uint256 → CTransaction) (hashGenesisBlock : Uint256)
    (fTxIndex : Bool) : Node Serial → Prop
  | start : Run txOf hashGenesisBlock fTxIndex { hashGenesisBlock, fTxIndex }
  | connect {s s' : Node Serial} {block : CBlock} {fValid : Bool} :
      Run txOf hashGenesisBlock fTxIndex s →
      (∀ tx ∈ block.vtx, txOf tx.hash = tx) →
      connectTip serialOf s block fValid = some s' →
      Run txOf hashGenesisBlock fTxIndex s'
  | disconnect {s s' : Node Serial} {fResurrected : CTransaction → Bool} :
      Run txOf hashGenesisBlock fTxIndex s →
      disconnectTip serialOf s fResurrected = some s' →
      Run txOf hashGenesisBlock fTxIndex s'
  | accept {s : Node Serial} {tx : CTransaction} {fValid : Bool} :
      Run txOf hashGenesisBlock fTxIndex s → txOf tx.hash = tx →
      Run txOf hashGenesisBlock fTxIndex (acceptToMemoryPool s tx fValid)
  | evict {s : Node Serial} (fStays : CTransaction → Bool) :
      Run txOf hashGenesisBlock fTxIndex s →
      Run txOf hashGenesisBlock fTxIndex
        { s with mempool := s.mempool.filter fStays }

section Runs

variable {serialOf : CTransaction → CTxIn → Option Serial}
variable {txOf : Uint256 → CTransaction} {hashGenesisBlock : Uint256}

theorem Run.inv {s : Node Serial}
    (h : Run serialOf txOf hashGenesisBlock true s) :
    Inv serialOf txOf s ∧ s.fTxIndex = true := by
  induction h with
  | start =>
      refine ⟨⟨?_, List.nodup_nil, ?_, ?_, ?_, ?_⟩, rfl⟩
      · intro serial hash
        constructor
        · intro h
          cases h
        · intro h
          cases h
      all_goals
        intro block hblock
        cases hblock
  | connect _ hknown hs' ih => exact connectTip_inv ih.1 ih.2 hknown hs'
  | disconnect _ hs' ih => exact disconnectTip_inv ih.1 ih.2 hs'
  | accept _ hknown ih => exact acceptToMemoryPool_inv ih.1 ih.2 hknown
  | evict fStays _ ih =>
      refine ⟨⟨ih.1.db, ih.1.nodup, ih.1.indexed, ?_, ih.1.known,
        ih.1.checked⟩, ih.2⟩
      intro block hblock tx htx hzc m hm
      exact ih.1.pool block hblock tx htx hzc m (List.mem_filter.mp hm).1

end Runs

section Example

/-- The byte behind the opcode stands for the serial. -/
def serialByte (_ : CTransaction) (txin : CTxIn) : Option UInt8 :=
  txin.scriptSig[1]?

/-- A transaction that spends serial `serial` and has one output. -/
def spendTx (hash : Uint256) (serial : UInt8) : CTransaction where
  hash
  vin := [{ prevout := COutPoint.null
            scriptSig := [CScript.OP_ZEROCOINSPEND, serial] }]
  vout := [⟨1, [CScript.OP_DUP], -10⟩]

/-- A transaction that spends the output of transaction `11`. -/
def payTx : CTransaction where
  hash := 12
  vin := [{ prevout := ⟨11, 0⟩ }]
  vout := [⟨1, [CScript.OP_DUP], -10⟩]

def blockOf (hash hashPrevBlock : Uint256) (tx : CTransaction) : CBlock :=
  ⟨hash, hashPrevBlock, 0, [tx]⟩

end Example

end Node

end Agrarian.Zerocoin
