import Agrarian.Zerocoin.AccumulatedBlocks

/-!
# Catching up with the chain

The wallet keeps a pool of the mints that its seed gives next.  When it catches up
with the chain it looks each of them up, moves those that have been minted to its
tracker, refills the pool, and does so again as long as it has found one.
-/

namespace Agrarian.Zerocoin

open Agrarian.Lib Agrarian.Validation

/-! ## The chain and the wallet -/

/-- A transaction as it is read: what `TxOutToPublicCoin` gives for its outputs that
are mints, and the hash of its block. -/
structure MintTx where
  mintOuts : List (Option PublicCoin)
  hashBlock : Uint256

/-- What the wallet looks up while it catches up. -/
structure SyncNode where
  /-- The mints of `zerocoinDB`, by the hash of the coin, with their transactions. -/
  coinMints : KeyedMap Uint256 Uint256
  getTransaction : Uint256 → Option MintTx
  /-- `mapBlockIndex`: the height of a block. -/
  mapBlockIndex : Uint256 → Option Int
  isSerialInBlockchain : Uint256 → Bool
  getPubCoinHash : CBigNum → Uint256
  /-- `SeedToZAGR` of `GetZerocoinSeed`: the value of a mint of the seed, and the hash
  of its serial. -/
  seedToZAGR : Uint256 → Nat → CBigNum × Uint256
  shutdownRequested : Bool

/-- What the tracker keeps of a mint. -/
structure TrackedMint where
  hashPubcoin : Uint256
  denom : CoinDenomination
  nHeight : Int
  txid : Uint256
  isUsed : Bool

/-- A `CzAGRWallet`, with the tracker of its wallet. -/
structure ZAGRWallet where
  /-- Zero when the wallet is locked. -/
  seedMaster : Uint256
  nCountLastUsed : Nat
  /-- `CMintPool`: the counts of the mints. -/
  mintPool : KeyedMap Uint256 Nat
  /-- `mapSerialHashes`, of the tracker. -/
  mapSerialHashes : KeyedMap Uint256 TrackedMint
  /-- The coins that the tracker has been given. -/
  added : List Uint256 := []

/-- `CMintPool::Add`: a coin that is there keeps its count. -/
def addToPool (mintPool : KeyedMap Uint256 Nat) (pMint : Uint256 × Nat) :
    KeyedMap Uint256 Nat :=
  match mintPool.find? pMint.1 with
  | some _ => mintPool
  | none => mintPool.insert pMint.1 pMint.2

/-- `CMintPool::List`: the mints, by their counts. -/
def listPool (mintPool : KeyedMap Uint256 Nat) : List (Uint256 × Nat) :=
  (mintPool.toList.mergeSort fun a b => a.1.toNat ≤ b.1.toNat).mergeSort
    fun a b => a.2 ≤ b.2

/-- `CzAGRTracker::HasPubcoinHash`. -/
def ZAGRWallet.hasPubcoinHash (wallet : ZAGRWallet) (hashPubcoin : Uint256) : Bool :=
  wallet.mapSerialHashes.toList.any fun it => it.2.hashPubcoin = hashPubcoin

section Sync

variable (node : SyncNode)

/-- One count of `GenerateMintPool`. -/
def generateMint (wallet : ZAGRWallet) (i : Nat) : ZAGRWallet :=
  -- prevent unnecessary repeated minted
  if wallet.mintPool.toList.any fun pair => pair.2 = i then wallet
  else
    let bnValue := (node.seedToZAGR wallet.seedMaster i).1
    { wallet with mintPool := addToPool wallet.mintPool (node.getPubCoinHash bnValue, i) }

/-- `GenerateMintPool`: add the next 20 mints to the mint pool.  The counts are of 32
bits. -/
def generateMintPool (nCountStart nCountEnd : Nat) (wallet : ZAGRWallet) : ZAGRWallet :=
  -- is locked
  if wallet.seedMaster = 0 then wallet
  else
    let n := if nCountStart > 0 then nCountStart else (wallet.nCountLastUsed + 1) % 2 ^ 32
    let nStop := if nCountEnd > 0 then max n ((n + nCountEnd) % 2 ^ 32)
      else (n + 20) % 2 ^ 32
    if node.shutdownRequested then wallet
    else (List.range' n (nStop - n)).foldl (generateMint node) wallet

/-- `SetMintSeen`. -/
def setMintSeen (wallet : ZAGRWallet) (bnValue : CBigNum) (nHeight : Int) (txid : Uint256)
    (denom : CoinDenomination) : Bool × ZAGRWallet :=
  match wallet.mintPool.find? (node.getPubCoinHash bnValue) with
  | none => (false, wallet)
  | some nCount =>
      -- regenerate the mint
      let (bnValueGen, hashSerial) := node.seedToZAGR wallet.seedMaster nCount
      if bnValueGen ≠ bnValue then (false, wallet)
      else
        let hashPubcoin := node.getPubCoinHash bnValue
        let dMint : TrackedMint :=
          { hashPubcoin, denom, nHeight, txid, isUsed := node.isSerialInBlockchain hashSerial }
        (true,
          { wallet with
            mapSerialHashes := wallet.mapSerialHashes.insert hashSerial dMint
            nCountLastUsed := max wallet.nCountLastUsed nCount
            mintPool := wallet.mintPool.erase hashPubcoin
            added := wallet.added ++ [hashPubcoin] })

/-- The variables of the loops of `SyncWithChain`. -/
structure Sync where
  wallet : ZAGRWallet
  found : Bool
  nLastCountUsed : Nat

/-- How a turn of the inner loop ends. -/
inductive Turn
  /-- With the next mint. -/
  | next (s : Sync)
  /-- `break`. -/
  | leave (s : Sync)
  /-- `return`. -/
  | stop (s : Sync)
  /-- A null pointer is followed. -/
  | crash

/-- The output of a transaction that is the mint of a coin. -/
def findMint (tx : MintTx) (hashPubcoin : Uint256) : Option PublicCoin :=
  tx.mintOuts.findSome? fun out =>
    out.filter fun pubcoin => hashPubcoin = node.getPubCoinHash pubcoin.value

/-- A mint of the pool in the inner loop of `SyncWithChain`. -/
def syncMint (pMint : Uint256 × Nat) (s : Sync) : Turn :=
  if s.wallet.hasPubcoinHash pMint.1 then
    .next { s with wallet := { s.wallet with mintPool := s.wallet.mintPool.erase pMint.1 } }
  else
    match node.coinMints.find? pMint.1 with
    | none => .next s
    | some txHash =>
        match node.getTransaction txHash with
        | none =>
            .next { s with found := false, nLastCountUsed := max pMint.2 s.nLastCountUsed }
        | some tx =>
            match findMint node tx pMint.1 with
            | none => .leave { s with found := false }
            | some pubcoin =>
                match node.mapBlockIndex tx.hashBlock with
                | none => .crash
                | some nHeight =>
                    -- what `SetMintSeen` returns is not looked at
                    let wallet := (setMintSeen node s.wallet pubcoin.value nHeight txHash
                      pubcoin.denomination).2
                    let nLastCountUsed := max pMint.2 s.nLastCountUsed
                    .next
                      { wallet :=
                          { wallet with
                            nCountLastUsed := max nLastCountUsed wallet.nCountLastUsed }
                        found := true
                        nLastCountUsed }

/-- Whether a hash has been checked is decided by comparing hashes. -/
local instance lawfulBEqUint256 : LawfulBEq Uint256 := inferInstance

/-- The inner loop of `SyncWithChain`. -/
def syncMints : List (Uint256 × Nat) → List Uint256 → Sync → Turn
  | [], _, s => .next s
  | pMint :: rest, setChecked, s =>
      if pMint.1 ∈ setChecked then .stop s
      else if node.shutdownRequested then .stop s
      else
        match syncMint node pMint s with
        | .next s => syncMints rest (pMint.1 :: setChecked) s
        | .leave s => .leave s
        | .stop s => .stop s
        | .crash => .crash

variable (fGenerateMintPool : Bool)

/-- The beginning of a turn of the outer loop. -/
def startRound (s : Sync) : Sync :=
  { s with
    wallet := if fGenerateMintPool then generateMintPool node 0 0 s.wallet else s.wallet
    found := false }

/-- A turn of the outer loop. -/
def syncRound (s : Sync) : Turn :=
  syncMints node (listPool s.wallet.mintPool) [] s

/-- What the whole call comes to. -/
inductive SyncEnd
  | ended (wallet : ZAGRWallet)
  | crashed
  | running

/-- The outer loop of `SyncWithChain`, of so many turns at most. -/
def syncFrom : Nat → Sync → SyncEnd
  | 0, _ => .running
  | turns + 1, s =>
      match syncRound node s with
      | .crash => .crashed
      | .stop s => .ended s.wallet
      | .next s | .leave s =>
          if s.found then syncFrom turns (startRound node fGenerateMintPool s)
          else .ended s.wallet

/-- The first turn. -/
def startSync (wallet : ZAGRWallet) : Sync :=
  startRound node fGenerateMintPool
    { wallet := { wallet with added := [] }, found := true, nLastCountUsed := 0 }

/-- `SyncWithChain`: catch the counter up with the chain. -/
def syncWithChain (turns : Nat) (wallet : ZAGRWallet) : SyncEnd :=
  syncFrom node fGenerateMintPool turns (startSync node fGenerateMintPool wallet)

end Sync

/-! ## What is to be done -/

section Spec

variable (node : SyncNode) (fGenerateMintPool : Bool) (wallet : ZAGRWallet)

/-- The turns of the outer loop, as they begin. -/
inductive Reached : Sync → Prop
  | first : Reached (startSync node fGenerateMintPool wallet)
  | next {s s' : Sync} : Reached s → syncRound node s = .next s' → s'.found = true →
      Reached (startRound node fGenerateMintPool s')

/-- A mint of the pool that is on the chain, and that the tracker does not have. -/
structure Found (s : ZAGRWallet) (hashPubcoin : Uint256) (nCount : Nat) : Prop where
  pooled : s.mintPool.find? hashPubcoin = some nCount
  untracked : s.hasPubcoinHash hashPubcoin = false
  onChain : (node.coinMints.find? hashPubcoin).isSome

/-- It has been moved to the tracker, once, and is counted. -/
structure Moved (s : ZAGRWallet) (hashPubcoin : Uint256) (nCount : Nat) : Prop where
  once : s.added.count hashPubcoin = 1
  tracked : s.hasPubcoinHash hashPubcoin = true
  removed : s.mintPool.find? hashPubcoin = none
  counted : nCount ≤ s.nCountLastUsed

/-- The call comes to an end, and every mint that was in the pool and on the chain at
the beginning of a turn has been moved. -/
def Syncs : Prop :=
  ∃ turns last, syncWithChain node fGenerateMintPool turns wallet = .ended last ∧
    ∀ s, Reached node fGenerateMintPool wallet s → ∀ hashPubcoin nCount,
      Found node s.wallet hashPubcoin nCount → Moved last hashPubcoin nCount

/-- The transaction of a mint is found and its block, with the coin in it, and it is
the coin that the seed gives for the count. -/
def CoinSeen (seedMaster hashPubcoin : Uint256) (nCount : Nat) : Prop :=
  ∃ txHash tx pubcoin nHeight, node.coinMints.find? hashPubcoin = some txHash ∧
    node.getTransaction txHash = some tx ∧ findMint node tx hashPubcoin = some pubcoin ∧
    node.mapBlockIndex tx.hashBlock = some nHeight ∧
    (node.seedToZAGR seedMaster nCount).1 = pubcoin.value

/-- A mint that can be moved. -/
structure Movable (hashPubcoin : Uint256) (nCount : Nat) : Prop where
  goesOn : node.shutdownRequested = false
  seen : CoinSeen node wallet.seedMaster hashPubcoin nCount

/-- Every mint that is found in a turn can be moved. -/
def AllMovable : Prop :=
  ∀ s, Reached node fGenerateMintPool wallet s → ∀ hashPubcoin nCount,
    Found node s.wallet hashPubcoin nCount → Movable node wallet hashPubcoin nCount

variable {node fGenerateMintPool wallet}

/-! ### The parts of the wallet -/

theorem hasPubcoinHash_iff {s : ZAGRWallet} {hashPubcoin : Uint256} :
    s.hasPubcoinHash hashPubcoin = true ↔
      ∃ hashSerial dMint, s.mapSerialHashes.find? hashSerial = some dMint ∧
        dMint.hashPubcoin = hashPubcoin := by
  unfold ZAGRWallet.hasPubcoinHash
  rw [List.any_eq_true]
  constructor
  · rintro ⟨⟨hashSerial, dMint⟩, hmem, hhash⟩
    exact ⟨hashSerial, dMint, KeyedMap.mem_toList.mp hmem, of_decide_eq_true hhash⟩
  · rintro ⟨hashSerial, dMint, hfind, hhash⟩
    exact ⟨(hashSerial, dMint), KeyedMap.mem_toList.mpr hfind, decide_eq_true hhash⟩

theorem mem_listPool {mintPool : KeyedMap Uint256 Nat} {hashPubcoin : Uint256}
    {nCount : Nat} :
    (hashPubcoin, nCount) ∈ listPool mintPool ↔ mintPool.find? hashPubcoin = some nCount := by
  unfold listPool
  rw [List.mem_mergeSort, List.mem_mergeSort, KeyedMap.mem_toList]

theorem nodup_listPool (mintPool : KeyedMap Uint256 Nat) :
    ((listPool mintPool).map Prod.fst).Nodup := by
  have hperm : (listPool mintPool).Perm mintPool.toList :=
    (List.mergeSort_perm _ _).trans (List.mergeSort_perm _ _)
  exact (hperm.map Prod.fst).nodup_iff.mpr mintPool.nodup_keys_toList

theorem find?_addToPool {mintPool : KeyedMap Uint256 Nat} {pMint : Uint256 × Nat}
    {hashPubcoin : Uint256} {nCount : Nat} (h : mintPool.find? hashPubcoin = some nCount) :
    (addToPool mintPool pMint).find? hashPubcoin = some nCount := by
  unfold addToPool
  cases hold : mintPool.find? pMint.1 with
  | some _ => exact h
  | none =>
      dsimp only
      rw [KeyedMap.find?_insert_ne]
      · exact h
      · rintro rfl
        rw [h] at hold
        cases hold

/-- What the refilling of the pool leaves as it is: all but the pool, and what is in
the pool. -/
structure Refilled (s s' : ZAGRWallet) : Prop where
  seedMaster : s'.seedMaster = s.seedMaster
  nCountLastUsed : s'.nCountLastUsed = s.nCountLastUsed
  mapSerialHashes : s'.mapSerialHashes = s.mapSerialHashes
  added : s'.added = s.added
  pooled : ∀ hashPubcoin nCount, s.mintPool.find? hashPubcoin = some nCount →
    s'.mintPool.find? hashPubcoin = some nCount

theorem Refilled.refl (s : ZAGRWallet) : Refilled s s :=
  ⟨rfl, rfl, rfl, rfl, fun _ _ h => h⟩

theorem Refilled.trans {s s' s'' : ZAGRWallet} (h : Refilled s s') (h' : Refilled s' s'') :
    Refilled s s'' where
  seedMaster := h'.seedMaster.trans h.seedMaster
  nCountLastUsed := h'.nCountLastUsed.trans h.nCountLastUsed
  mapSerialHashes := h'.mapSerialHashes.trans h.mapSerialHashes
  added := h'.added.trans h.added
  pooled := fun hashPubcoin nCount hpool => h'.pooled _ _ (h.pooled hashPubcoin nCount hpool)

theorem Refilled.hasPubcoinHash {s s' : ZAGRWallet} (h : Refilled s s')
    (hashPubcoin : Uint256) :
    s'.hasPubcoinHash hashPubcoin = s.hasPubcoinHash hashPubcoin := by
  unfold ZAGRWallet.hasPubcoinHash
  rw [h.mapSerialHashes]

theorem refilled_generateMint (s : ZAGRWallet) (i : Nat) :
    Refilled s (generateMint node s i) := by
  unfold generateMint
  split
  · exact Refilled.refl s
  · exact ⟨rfl, rfl, rfl, rfl, fun _ _ h => find?_addToPool h⟩

theorem refilled_generateMintPool (nCountStart nCountEnd : Nat) (s : ZAGRWallet) :
    Refilled s (generateMintPool node nCountStart nCountEnd s) := by
  have hfold : ∀ (counts : List Nat) (s : ZAGRWallet),
      Refilled s (counts.foldl (generateMint node) s) := by
    intro counts
    induction counts with
    | nil => exact fun s => Refilled.refl s
    | cons i counts ih =>
        intro s
        exact (refilled_generateMint s i).trans (ih _)
  unfold generateMintPool
  dsimp only
  by_cases hlocked : s.seedMaster = 0
  · rw [if_pos hlocked]
    exact Refilled.refl s
  · rw [if_neg hlocked]
    by_cases hshutdown : node.shutdownRequested = true
    · rw [if_pos hshutdown]
      exact Refilled.refl s
    · rw [if_neg hshutdown]
      exact hfold _ s

theorem refilled_startRound (s : Sync) :
    Refilled s.wallet (startRound node fGenerateMintPool s).wallet := by
  unfold startRound
  dsimp only
  split
  · exact refilled_generateMintPool 0 0 s.wallet
  · exact Refilled.refl s.wallet

/-! ### One mint -/

theorem findMint_hash {tx : MintTx} {hashPubcoin : Uint256} {pubcoin : PublicCoin}
    (h : findMint node tx hashPubcoin = some pubcoin) :
    node.getPubCoinHash pubcoin.value = hashPubcoin := by
  unfold findMint at h
  obtain ⟨out, -, hout⟩ := List.exists_of_findSome?_eq_some h
  exact (of_decide_eq_true (Option.filter_eq_some_iff.mp hout).2).symm

/-- What holds of the wallet where a turn ends, if it does. -/
def Turn.Holds (p : ZAGRWallet → Prop) : Turn → Prop
  | .next s => p s.wallet
  | .leave s => p s.wallet
  | .stop s => p s.wallet
  | .crash => True

/-- The pool and the tracker are as they were. -/
structure Kept (s s' : ZAGRWallet) : Prop where
  seedMaster : s'.seedMaster = s.seedMaster
  mintPool : s'.mintPool = s.mintPool
  mapSerialHashes : s'.mapSerialHashes = s.mapSerialHashes

theorem Kept.refl (s : ZAGRWallet) : Kept s s := ⟨rfl, rfl, rfl⟩

/-- Where a mint is moved to. -/
def movedTo (node : SyncNode) (pMint : Uint256 × Nat) (dMint : TrackedMint) (s : Sync) :
    Sync :=
  { wallet :=
      { s.wallet with
        mapSerialHashes := s.wallet.mapSerialHashes.insert
          (node.seedToZAGR s.wallet.seedMaster pMint.2).2 dMint
        nCountLastUsed := max (max pMint.2 s.nLastCountUsed)
          (max s.wallet.nCountLastUsed pMint.2)
        mintPool := s.wallet.mintPool.erase pMint.1
        added := s.wallet.added ++ [pMint.1] }
    found := true
    nLastCountUsed := max pMint.2 s.nLastCountUsed }

/-- What may become of a mint of the pool. -/
inductive MintTurn (node : SyncNode) (pMint : Uint256 × Nat) (s : Sync) : Turn → Prop
  | tracked : s.wallet.hasPubcoinHash pMint.1 = true →
      MintTurn node pMint s (.next { s with
        wallet := { s.wallet with mintPool := s.wallet.mintPool.erase pMint.1 } })
  | offChain : s.wallet.hasPubcoinHash pMint.1 = false →
      node.coinMints.find? pMint.1 = none → MintTurn node pMint s (.next s)
  | failed {turn : Turn} : s.wallet.hasPubcoinHash pMint.1 = false →
      (node.coinMints.find? pMint.1).isSome →
      ¬ CoinSeen node s.wallet.seedMaster pMint.1 pMint.2 → turn.Holds (Kept s.wallet) →
      MintTurn node pMint s turn
  | moved {dMint : TrackedMint} : s.wallet.hasPubcoinHash pMint.1 = false →
      CoinSeen node s.wallet.seedMaster pMint.1 pMint.2 → dMint.hashPubcoin = pMint.1 →
      MintTurn node pMint s (.next (movedTo node pMint dMint s))

/-- **A mint of the pool** is dropped, left, or moved. -/
theorem mintTurn_syncMint {pMint : Uint256 × Nat} {s : Sync}
    (hpool : s.wallet.mintPool.find? pMint.1 = some pMint.2) :
    MintTurn node pMint s (syncMint node pMint s) := by
  unfold syncMint
  by_cases htracked : s.wallet.hasPubcoinHash pMint.1 = true
  · rw [if_pos htracked]
    exact .tracked htracked
  rw [if_neg htracked]
  have huntracked : s.wallet.hasPubcoinHash pMint.1 = false := Bool.eq_false_iff.mpr htracked
  cases hmint : node.coinMints.find? pMint.1 with
  | none => exact .offChain huntracked hmint
  | some txHash =>
      have honChain : (node.coinMints.find? pMint.1).isSome := by
        rw [hmint]
        rfl
      dsimp only
      cases htx : node.getTransaction txHash with
      | none =>
          refine .failed huntracked honChain ?_ (Kept.refl s.wallet)
          rintro ⟨txHash', tx, pubcoin, nHeight, hmint', htx', -⟩
          obtain rfl := Option.some.inj (hmint.symm.trans hmint')
          rw [htx] at htx'
          cases htx'
      | some tx =>
          dsimp only
          cases hout : findMint node tx pMint.1 with
          | none =>
              refine .failed huntracked honChain ?_ (Kept.refl s.wallet)
              rintro ⟨txHash', tx', pubcoin, nHeight, hmint', htx', hout', -⟩
              obtain rfl := Option.some.inj (hmint.symm.trans hmint')
              obtain rfl := Option.some.inj (htx.symm.trans htx')
              rw [hout] at hout'
              cases hout'
          | some pubcoin =>
              dsimp only
              cases hindex : node.mapBlockIndex tx.hashBlock with
              | none =>
                  refine .failed huntracked honChain ?_ trivial
                  rintro ⟨txHash', tx', pubcoin', nHeight, hmint', htx', -, hindex', -⟩
                  obtain rfl := Option.some.inj (hmint.symm.trans hmint')
                  obtain rfl := Option.some.inj (htx.symm.trans htx')
                  rw [hindex] at hindex'
                  cases hindex'
              | some nHeight =>
                  dsimp only
                  have hhash := findMint_hash hout
                  unfold setMintSeen
                  rw [hhash, hpool]
                  dsimp only
                  by_cases hvalue : (node.seedToZAGR s.wallet.seedMaster pMint.2).1 =
                      pubcoin.value
                  · rw [if_neg (not_not.mpr hvalue)]
                    exact .moved huntracked
                      ⟨txHash, tx, pubcoin, nHeight, hmint, htx, hout, hindex, hvalue⟩ rfl
                  · rw [if_pos hvalue]
                    refine .failed huntracked honChain ?_ ⟨rfl, rfl, rfl⟩
                    rintro ⟨txHash', tx', pubcoin', nHeight', hmint', htx', hout', -, hvalue'⟩
                    obtain rfl := Option.some.inj (hmint.symm.trans hmint')
                    obtain rfl := Option.some.inj (htx.symm.trans htx')
                    obtain rfl := Option.some.inj (hout.symm.trans hout')
                    exact hvalue hvalue'

/-! ### A mint that cannot be moved -/

/-- A mint stays where it is: in the pool, and not in the tracker. -/
structure Stuck (seedMaster hashPubcoin : Uint256) (nCount : Nat) (s : ZAGRWallet) :
    Prop where
  seed : s.seedMaster = seedMaster
  pooled : s.mintPool.find? hashPubcoin = some nCount
  untracked : s.hasPubcoinHash hashPubcoin = false

theorem Stuck.refilled {seedMaster hashPubcoin : Uint256} {nCount : Nat} {s s' : ZAGRWallet}
    (h : Stuck seedMaster hashPubcoin nCount s) (hrefill : Refilled s s') :
    Stuck seedMaster hashPubcoin nCount s' where
  seed := hrefill.seedMaster.trans h.seed
  pooled := hrefill.pooled _ _ h.pooled
  untracked := (hrefill.hasPubcoinHash _).trans h.untracked

theorem Stuck.kept {seedMaster hashPubcoin : Uint256} {nCount : Nat} {s s' : ZAGRWallet}
    (h : Stuck seedMaster hashPubcoin nCount s) (hkept : Kept s s') :
    Stuck seedMaster hashPubcoin nCount s' := by
  refine ⟨hkept.seedMaster.trans h.seed, ?_, ?_⟩
  · rw [hkept.mintPool]
    exact h.pooled
  · unfold ZAGRWallet.hasPubcoinHash
    rw [hkept.mapSerialHashes]
    exact h.untracked

theorem Turn.Holds.mono {p q : ZAGRWallet → Prop} (hpq : ∀ s, p s → q s) {turn : Turn}
    (h : turn.Holds p) : turn.Holds q := by
  cases turn with
  | next s => exact hpq _ h
  | leave s => exact hpq _ h
  | stop s => exact hpq _ h
  | crash => trivial

theorem Stuck.turn {seedMaster hashPubcoin : Uint256} {nCount : Nat} {s : Sync}
    (h : Stuck seedMaster hashPubcoin nCount s.wallet)
    (hnot : ¬ CoinSeen node seedMaster hashPubcoin nCount) {pMint : Uint256 × Nat}
    (hsame : pMint.1 = hashPubcoin → pMint.2 = nCount) {turn : Turn}
    (hturn : MintTurn node pMint s turn) :
    turn.Holds (Stuck seedMaster hashPubcoin nCount) := by
  cases hturn with
  | tracked htracked =>
      have hother : hashPubcoin ≠ pMint.1 := by
        rintro rfl
        rw [h.untracked] at htracked
        cases htracked
      refine ⟨h.seed, ?_, h.untracked⟩
      show (s.wallet.mintPool.erase pMint.1).find? hashPubcoin = _
      rw [KeyedMap.find?_erase_ne _ hother]
      exact h.pooled
  | offChain => exact h
  | failed _ _ _ hkept => exact hkept.mono fun _ hkept => h.kept hkept
  | @moved dMint _ hseen hpub =>
      have hother : hashPubcoin ≠ pMint.1 := by
        rintro rfl
        rw [hsame rfl, h.seed] at hseen
        exact hnot hseen
      refine ⟨h.seed, ?_, ?_⟩
      · show (s.wallet.mintPool.erase pMint.1).find? hashPubcoin = _
        rw [KeyedMap.find?_erase_ne _ hother]
        exact h.pooled
      · rw [Bool.eq_false_iff]
        intro htracked
        obtain ⟨hashSerial, dMint', hfind, hhash⟩ := hasPubcoinHash_iff.mp htracked
        change (s.wallet.mapSerialHashes.insert _ dMint).find? hashSerial = _ at hfind
        rw [KeyedMap.find?_insert] at hfind
        split_ifs at hfind
        · obtain rfl := Option.some.inj hfind
          exact hother (hhash.symm.trans hpub)
        · have hbefore := hasPubcoinHash_iff.mpr ⟨hashSerial, dMint', hfind, hhash⟩
          rw [h.untracked] at hbefore
          cases hbefore

/-- The other mints of the pool stay in it. -/
theorem MintTurn.others {pMint : Uint256 × Nat} {s : Sync} {turn : Turn}
    (h : MintTurn node pMint s turn) :
    turn.Holds fun s' => ∀ hashPubcoin, hashPubcoin ≠ pMint.1 →
      s'.mintPool.find? hashPubcoin = s.wallet.mintPool.find? hashPubcoin := by
  cases h with
  | tracked => exact fun hashPubcoin hne => KeyedMap.find?_erase_ne _ hne
  | offChain => exact fun _ _ => rfl
  | failed _ _ _ hkept => exact hkept.mono fun s' hkept _ _ => by rw [hkept.mintPool]
  | moved => exact fun hashPubcoin hne => KeyedMap.find?_erase_ne _ hne

/-- What is left of a list of mints of the pool is still in it. -/
theorem MintTurn.rest {pMint : Uint256 × Nat} {rest : List (Uint256 × Nat)} {s s' : Sync}
    (h : MintTurn node pMint s (.next s'))
    (hnodup : ((pMint :: rest).map Prod.fst).Nodup)
    (hpool : ∀ p ∈ pMint :: rest, s.wallet.mintPool.find? p.1 = some p.2) :
    ∀ p ∈ rest, s'.wallet.mintPool.find? p.1 = some p.2 := by
  intro p hmem
  rw [List.map_cons, List.nodup_cons] at hnodup
  have hne : p.1 ≠ pMint.1 := by
    intro heq
    exact hnodup.1 (heq ▸ List.mem_map_of_mem hmem)
  have hother := h.others
  rw [hother p.1 hne]
  exact hpool p (List.mem_cons_of_mem _ hmem)

/-- What a turn with any mint keeps the inner loop keeps. -/
theorem syncMints_invariant {p : ZAGRWallet → Prop}
    (hstep : ∀ pMint s turn, node.shutdownRequested = false → p s.wallet →
      s.wallet.mintPool.find? pMint.1 = some pMint.2 → MintTurn node pMint s turn →
      turn.Holds p)
    {listMints : List (Uint256 × Nat)} {setChecked : List Uint256} {s : Sync}
    (hnodup : (listMints.map Prod.fst).Nodup)
    (hpool : ∀ p ∈ listMints, s.wallet.mintPool.find? p.1 = some p.2) (h : p s.wallet) :
    (syncMints node listMints setChecked s).Holds p := by
  induction listMints generalizing s setChecked with
  | nil => exact h
  | cons pMint rest ih =>
      rw [syncMints]
      by_cases hchecked : pMint.1 ∈ setChecked
      · rw [if_pos hchecked]
        exact h
      rw [if_neg hchecked]
      by_cases hshutdown : node.shutdownRequested = true
      · rw [if_pos hshutdown]
        exact h
      rw [if_neg hshutdown]
      have hhere := hpool pMint List.mem_cons_self
      have hturn := @mintTurn_syncMint node pMint s hhere
      have hkept := hstep pMint s _ (Bool.eq_false_iff.mpr hshutdown) h hhere hturn
      cases hmint : syncMint node pMint s with
      | next s' =>
          rw [hmint] at hturn hkept
          have hrest := hnodup
          rw [List.map_cons, List.nodup_cons] at hrest
          exact ih hrest.2 (hturn.rest hnodup hpool) hkept
      | leave s' =>
          rw [hmint] at hkept
          exact hkept
      | stop s' =>
          rw [hmint] at hkept
          exact hkept
      | crash => trivial

theorem syncRound_invariant {p : ZAGRWallet → Prop}
    (hstep : ∀ pMint s turn, node.shutdownRequested = false → p s.wallet →
      s.wallet.mintPool.find? pMint.1 = some pMint.2 → MintTurn node pMint s turn →
      turn.Holds p)
    {s : Sync} (h : p s.wallet) : (syncRound node s).Holds p :=
  syncMints_invariant hstep (nodup_listPool _) (fun _ hmem => mem_listPool.mp hmem) h

/-- A turn of the outer loop leaves the mint there too. -/
theorem Stuck.round {seedMaster hashPubcoin : Uint256} {nCount : Nat}
    (hnot : node.shutdownRequested = false → ¬ CoinSeen node seedMaster hashPubcoin nCount)
    {s : Sync} (h : Stuck seedMaster hashPubcoin nCount s.wallet) :
    (syncRound node s).Holds (Stuck seedMaster hashPubcoin nCount) := by
  refine syncRound_invariant ?_ h
  intro pMint s' turn hgo hstuck hhere hturn
  refine hstuck.turn (hnot hgo) ?_ hturn
  intro heq
  have hthere := hstuck.pooled
  rw [← heq, hhere] at hthere
  exact Option.some.inj hthere

theorem Stuck.last {seedMaster hashPubcoin : Uint256} {nCount : Nat}
    (hnot : node.shutdownRequested = false → ¬ CoinSeen node seedMaster hashPubcoin nCount)
    {turns : Nat} {s : Sync} {last : ZAGRWallet}
    (h : Stuck seedMaster hashPubcoin nCount s.wallet)
    (hlast : syncFrom node fGenerateMintPool turns s = .ended last) :
    Stuck seedMaster hashPubcoin nCount last := by
  induction turns generalizing s with
  | zero => cases hlast
  | succ turns ih =>
      have hround := h.round hnot
      have hmore : ∀ s' : Sync, Stuck seedMaster hashPubcoin nCount s'.wallet →
          (if s'.found then syncFrom node fGenerateMintPool turns
              (startRound node fGenerateMintPool s')
            else .ended s'.wallet) = .ended last →
          Stuck seedMaster hashPubcoin nCount last := by
        intro s' hstuck hend
        split_ifs at hend
        · exact ih (hstuck.refilled (refilled_startRound s')) hend
        · obtain rfl := SyncEnd.ended.inj hend
          exact hstuck
      rw [syncFrom] at hlast
      cases hturn : syncRound node s with
      | next s' =>
          rw [hturn] at hlast hround
          exact hmore s' hround hlast
      | leave s' =>
          rw [hturn] at hlast hround
          exact hmore s' hround hlast
      | stop s' =>
          rw [hturn] at hlast hround
          obtain rfl := SyncEnd.ended.inj hlast
          exact hround
      | crash =>
          rw [hturn] at hlast
          cases hlast

/-- From a turn that is reached the call comes to the same end. -/
theorem Reached.last {s : Sync} (h : Reached node fGenerateMintPool wallet s)
    {turns : Nat} {last : ZAGRWallet}
    (hlast : syncWithChain node fGenerateMintPool turns wallet = .ended last) :
    ∃ turns, syncFrom node fGenerateMintPool turns s = .ended last := by
  induction h with
  | first => exact ⟨turns, hlast⟩
  | @next s s' _ hround hfound ih =>
      obtain ⟨turns', hrest⟩ := ih
      cases turns' with
      | zero => cases hrest
      | succ turns' =>
          rw [syncFrom, hround] at hrest
          dsimp only at hrest
          rw [if_pos hfound] at hrest
          exact ⟨turns', hrest⟩

theorem Reached.seedMaster {s : Sync} (h : Reached node fGenerateMintPool wallet s) :
    s.wallet.seedMaster = wallet.seedMaster := by
  induction h with
  | first => exact (refilled_startRound _).seedMaster
  | @next s s' _ hround _ ih =>
      have hkept := @syncRound_invariant node
        (fun s' => s'.seedMaster = wallet.seedMaster) (fun pMint s turn _ hseed _ hturn => by
          cases hturn with
          | tracked => exact hseed
          | offChain => exact hseed
          | failed _ _ _ hkept =>
              exact hkept.mono fun s' hkept => hkept.seedMaster.trans hseed
          | moved => exact hseed) s ih
      rw [hround] at hkept
      exact (refilled_startRound s').seedMaster.trans hkept

/-- **A mint that cannot be moved** is not: the call does not do what it is for. -/
theorem movable_of_syncs (h : Syncs node fGenerateMintPool wallet) :
    AllMovable node fGenerateMintPool wallet := by
  obtain ⟨turns, last, hlast, hmoved⟩ := h
  intro s hreached hashPubcoin nCount hfound
  by_contra hnot
  obtain ⟨turns', hrest⟩ := hreached.last hlast
  have hstuck : Stuck wallet.seedMaster hashPubcoin nCount s.wallet :=
    ⟨hreached.seedMaster, hfound.pooled, hfound.untracked⟩
  have hlastStuck := hstuck.last (fun hgo hseen => hnot ⟨hgo, hseen⟩) hrest
  have hgone := (hmoved s hreached hashPubcoin nCount hfound).removed
  rw [hlastStuck.pooled] at hgone
  cases hgone

/-! ### Mints that can all be moved -/

variable (node wallet) in
/-- The hash of a serial of the seed belongs to one coin, in what the seed gives and in
the tracker. -/
structure SerialsApart : Prop where
  seeds : ∀ nCount nCount', (node.seedToZAGR wallet.seedMaster nCount).2 =
      (node.seedToZAGR wallet.seedMaster nCount').2 →
    node.getPubCoinHash (node.seedToZAGR wallet.seedMaster nCount).1 =
      node.getPubCoinHash (node.seedToZAGR wallet.seedMaster nCount').1
  tracker : ∀ nCount dMint, wallet.mapSerialHashes.find?
      (node.seedToZAGR wallet.seedMaster nCount).2 = some dMint →
    dMint.hashPubcoin = node.getPubCoinHash (node.seedToZAGR wallet.seedMaster nCount).1

variable (node wallet) in
/-- What holds while the wallet catches up. -/
structure Sound (s : ZAGRWallet) : Prop where
  seed : s.seedMaster = wallet.seedMaster
  serials : ∀ nCount dMint, s.mapSerialHashes.find?
      (node.seedToZAGR wallet.seedMaster nCount).2 = some dMint →
    dMint.hashPubcoin = node.getPubCoinHash (node.seedToZAGR wallet.seedMaster nCount).1
  nodup : s.added.Nodup
  tracked : ∀ hashPubcoin ∈ s.added, s.hasPubcoinHash hashPubcoin = true
  onChain : ∀ hashPubcoin ∈ s.added, (node.coinMints.find? hashPubcoin).isSome

theorem Sound.refilled {s s' : ZAGRWallet} (h : Sound node wallet s)
    (hrefill : Refilled s s') : Sound node wallet s' := by
  refine ⟨hrefill.seedMaster.trans h.seed, ?_, ?_, ?_, ?_⟩
  · rw [hrefill.mapSerialHashes]
    exact h.serials
  · rw [hrefill.added]
    exact h.nodup
  · intro hashPubcoin hmem
    rw [hrefill.added] at hmem
    rw [hrefill.hasPubcoinHash]
    exact h.tracked hashPubcoin hmem
  · rw [hrefill.added]
    exact h.onChain

/-- The coins that are added are among the mints of the chain. -/
theorem Sound.length_le {s : ZAGRWallet} (h : Sound node wallet s) :
    s.added.length ≤ node.coinMints.toList.length := by
  have hkeys : (node.coinMints.toList.map Prod.fst).length = node.coinMints.toList.length :=
    List.length_map _
  rw [← hkeys]
  apply (List.subperm_of_subset h.nodup ?_).length_le
  intro hashPubcoin hmem
  obtain ⟨txHash, hfind⟩ := Option.isSome_iff_exists.mp (h.onChain hashPubcoin hmem)
  exact List.mem_map_of_mem (KeyedMap.mem_toList.mpr hfind)

/-- Nothing that has been done is undone. -/
structure Progress (s s' : ZAGRWallet) : Prop where
  added : s.added ⊆ s'.added
  counted : s.nCountLastUsed ≤ s'.nCountLastUsed
  tracked : ∀ hashPubcoin, s.hasPubcoinHash hashPubcoin = true →
    s'.hasPubcoinHash hashPubcoin = true

theorem Progress.refl (s : ZAGRWallet) : Progress s s :=
  ⟨List.Subset.refl _, le_refl _, fun _ h => h⟩

theorem Progress.trans {s s' s'' : ZAGRWallet} (h : Progress s s') (h' : Progress s' s'') :
    Progress s s'' :=
  ⟨List.Subset.trans h.added h'.added, h.counted.trans h'.counted,
    fun hashPubcoin htracked => h'.tracked _ (h.tracked hashPubcoin htracked)⟩

theorem Refilled.progress {s s' : ZAGRWallet} (h : Refilled s s') : Progress s s' := by
  refine ⟨?_, ?_, ?_⟩
  · rw [h.added]
    exact List.Subset.refl _
  · rw [h.nCountLastUsed]
  · intro hashPubcoin htracked
    rw [h.hasPubcoinHash]
    exact htracked

/-- A mint that is moved is in the tracker, and takes no other coin's place. -/
theorem hasPubcoinHash_movedTo {pMint : Uint256 × Nat}
    {dMint : TrackedMint} {s : Sync} (h : Sound node wallet s.wallet)
    (huntracked : s.wallet.hasPubcoinHash pMint.1 = false)
    (hseed : node.getPubCoinHash (node.seedToZAGR wallet.seedMaster pMint.2).1 = pMint.1)
    (hpub : dMint.hashPubcoin = pMint.1) (hashPubcoin : Uint256) :
    (movedTo node pMint dMint s).wallet.hasPubcoinHash hashPubcoin = true ↔
      s.wallet.hasPubcoinHash hashPubcoin = true ∨ hashPubcoin = pMint.1 := by
  rw [hasPubcoinHash_iff, hasPubcoinHash_iff]
  show (∃ hashSerial dMint', (s.wallet.mapSerialHashes.insert
    (node.seedToZAGR s.wallet.seedMaster pMint.2).2 dMint).find? hashSerial = some dMint' ∧
      dMint'.hashPubcoin = hashPubcoin) ↔ _
  rw [h.seed]
  constructor
  · rintro ⟨hashSerial, dMint', hfind, rfl⟩
    rw [KeyedMap.find?_insert] at hfind
    split_ifs at hfind with hkey
    · obtain rfl := Option.some.inj hfind
      exact Or.inr hpub
    · exact Or.inl ⟨hashSerial, dMint', hfind, rfl⟩
  · rintro (⟨hashSerial, dMint', hfind, rfl⟩ | rfl)
    · refine ⟨hashSerial, dMint', ?_, rfl⟩
      rw [KeyedMap.find?_insert_ne]
      · exact hfind
      · -- the place would be the coin's own
        rintro rfl
        have hown := h.serials pMint.2 dMint' hfind
        rw [hseed] at hown
        have htracked := hasPubcoinHash_iff.mpr ⟨_, dMint', hfind, hown⟩
        rw [huntracked] at htracked
        cases htracked
    · exact ⟨_, dMint, KeyedMap.find?_insert_self _ _ _, hpub⟩

theorem CoinSeen.seed {hashPubcoin : Uint256} {nCount : Nat}
    (h : CoinSeen node wallet.seedMaster hashPubcoin nCount) :
    node.getPubCoinHash (node.seedToZAGR wallet.seedMaster nCount).1 = hashPubcoin := by
  obtain ⟨_, _, pubcoin, _, _, _, hout, _, hvalue⟩ := h
  rw [hvalue]
  exact findMint_hash hout

theorem CoinSeen.onChain {seedMaster hashPubcoin : Uint256} {nCount : Nat}
    (h : CoinSeen node seedMaster hashPubcoin nCount) :
    (node.coinMints.find? hashPubcoin).isSome := by
  obtain ⟨_, _, _, _, hmint, _⟩ := h
  rw [hmint]
  rfl

theorem Sound.movedTo (hserials : SerialsApart node wallet) {pMint : Uint256 × Nat}
    {dMint : TrackedMint} {s : Sync} (h : Sound node wallet s.wallet)
    (huntracked : s.wallet.hasPubcoinHash pMint.1 = false)
    (hseen : CoinSeen node wallet.seedMaster pMint.1 pMint.2)
    (hpub : dMint.hashPubcoin = pMint.1) :
    Sound node wallet (movedTo node pMint dMint s).wallet := by
  have htracked := hasPubcoinHash_movedTo h huntracked hseen.seed hpub
  refine ⟨h.seed, ?_, ?_, ?_, ?_⟩
  · intro nCount dMint' hfind
    change (s.wallet.mapSerialHashes.insert
      (node.seedToZAGR s.wallet.seedMaster pMint.2).2 dMint).find? _ = _ at hfind
    rw [h.seed, KeyedMap.find?_insert] at hfind
    split_ifs at hfind with hkey
    · obtain rfl := Option.some.inj hfind
      rw [hserials.seeds nCount pMint.2 hkey, hseen.seed]
      exact hpub
    · exact h.serials nCount dMint' hfind
  · have hfresh : pMint.1 ∉ s.wallet.added := by
      intro hmem
      rw [h.tracked _ hmem] at huntracked
      cases huntracked
    exact List.nodup_append.mpr ⟨h.nodup, List.nodup_singleton _, by
      intro x hx y hy heq
      rw [List.mem_singleton.mp hy] at heq
      exact hfresh (heq ▸ hx)⟩
  · intro hashPubcoin hmem
    rw [htracked]
    rcases List.mem_append.mp hmem with hmem | hmem
    · exact Or.inl (h.tracked _ hmem)
    · exact Or.inr (List.mem_singleton.mp hmem)
  · intro hashPubcoin hmem
    rcases List.mem_append.mp hmem with hmem | hmem
    · exact h.onChain _ hmem
    · rw [List.mem_singleton.mp hmem]
      exact hseen.onChain

/-- What becomes of a mint of the pool that can be moved if it is found. -/
structure Turned (node : SyncNode) (pMint : Uint256 × Nat) (s s' : Sync) : Prop where
  progress : Progress s.wallet s'.wallet
  /-- Nothing else is tracked. -/
  tracked : ∀ hashPubcoin, s'.wallet.hasPubcoinHash hashPubcoin = true →
    s.wallet.hasPubcoinHash hashPubcoin = true ∨ hashPubcoin = pMint.1
  removed : (node.coinMints.find? pMint.1).isSome →
    s'.wallet.mintPool.find? pMint.1 = none
  moved : Found node s.wallet pMint.1 pMint.2 →
    pMint.1 ∈ s'.wallet.added ∧ pMint.2 ≤ s'.wallet.nCountLastUsed
  found : s'.found = true → s.found = true ∨
    s.wallet.added.length < s'.wallet.added.length

/-- **One mint.** -/
theorem turned_syncMint (hserials : SerialsApart node wallet) {pMint : Uint256 × Nat}
    {s : Sync} (h : Sound node wallet s.wallet)
    (hpool : s.wallet.mintPool.find? pMint.1 = some pMint.2)
    (hseen : Found node s.wallet pMint.1 pMint.2 →
      CoinSeen node wallet.seedMaster pMint.1 pMint.2) :
    ∃ s', syncMint node pMint s = .next s' ∧ Sound node wallet s'.wallet ∧
      Turned node pMint s s' := by
  have hturn := @mintTurn_syncMint node pMint s hpool
  generalize syncMint node pMint s = turn at hturn
  cases hturn with
  | tracked htracked =>
      refine ⟨_, rfl, ⟨h.seed, h.serials, h.nodup, h.tracked, h.onChain⟩, ?_⟩
      refine ⟨⟨List.Subset.refl _, le_refl _, fun _ h => h⟩, fun _ h => Or.inl h, ?_, ?_,
        Or.inl⟩
      · exact fun _ => KeyedMap.find?_erase_self _ _
      · intro hfound
        rw [hfound.untracked] at htracked
        cases htracked
  | offChain _ hno =>
      refine ⟨s, rfl, h, Progress.refl _, fun _ h => Or.inl h, ?_, ?_, Or.inl⟩
      · intro hmint
        rw [hno] at hmint
        cases hmint
      · intro hfound
        have hmint := hfound.onChain
        rw [hno] at hmint
        cases hmint
  | failed huntracked honChain hnot =>
      rw [h.seed] at hnot
      exact absurd (hseen ⟨hpool, huntracked, honChain⟩) hnot
  | @moved dMint huntracked hseen' hpub =>
      rw [h.seed] at hseen'
      have htracked := hasPubcoinHash_movedTo h huntracked hseen'.seed hpub
      refine ⟨_, rfl, h.movedTo hserials huntracked hseen' hpub, ⟨?_, ?_, ?_⟩, ?_, ?_, ?_, ?_⟩
      · exact List.subset_append_left _ _
      · exact le_max_of_le_right (le_max_left _ _)
      · exact fun hashPubcoin hbefore => (htracked hashPubcoin).mpr (Or.inl hbefore)
      · exact fun hashPubcoin hafter => (htracked hashPubcoin).mp hafter
      · exact fun _ => KeyedMap.find?_erase_self _ _
      · intro _
        exact ⟨List.mem_append_right _ List.mem_cons_self,
          le_max_of_le_right (le_max_right _ _)⟩
      · intro _
        right
        show s.wallet.added.length < (s.wallet.added ++ [pMint.1]).length
        rw [List.length_append, List.length_singleton]
        exact Nat.lt_succ_self _

/-- What becomes of a list of mints. -/
structure Walked (node : SyncNode) (listMints : List (Uint256 × Nat)) (s s' : Sync) :
    Prop where
  progress : Progress s.wallet s'.wallet
  others : ∀ hashPubcoin, hashPubcoin ∉ listMints.map Prod.fst →
    s'.wallet.mintPool.find? hashPubcoin = s.wallet.mintPool.find? hashPubcoin
  removed : ∀ pMint ∈ listMints, (node.coinMints.find? pMint.1).isSome →
    s'.wallet.mintPool.find? pMint.1 = none
  moved : ∀ pMint ∈ listMints, Found node s.wallet pMint.1 pMint.2 →
    pMint.1 ∈ s'.wallet.added ∧ pMint.2 ≤ s'.wallet.nCountLastUsed
  found : s'.found = true → s.found = true ∨
    s.wallet.added.length < s'.wallet.added.length

/-- **The inner loop**, by the mints. -/
theorem walked_syncMints (hserials : SerialsApart node wallet)
    (hgo : node.shutdownRequested = false) {listMints : List (Uint256 × Nat)}
    {setChecked : List Uint256} {s : Sync} (h : Sound node wallet s.wallet)
    (hnodup : (listMints.map Prod.fst).Nodup)
    (hchecked : ∀ p ∈ listMints, p.1 ∉ setChecked)
    (hpool : ∀ p ∈ listMints, s.wallet.mintPool.find? p.1 = some p.2)
    (hseen : ∀ p ∈ listMints, Found node s.wallet p.1 p.2 →
      CoinSeen node wallet.seedMaster p.1 p.2) :
    ∃ s', syncMints node listMints setChecked s = .next s' ∧ Sound node wallet s'.wallet ∧
      Walked node listMints s s' := by
  induction listMints generalizing s setChecked with
  | nil =>
      refine ⟨s, rfl, h, Progress.refl _, fun _ _ => rfl, ?_, ?_, Or.inl⟩
      · exact fun _ hmem => absurd hmem List.not_mem_nil
      · exact fun _ hmem => absurd hmem List.not_mem_nil
  | cons pMint rest ih =>
      have hhere := hpool pMint List.mem_cons_self
      obtain ⟨s₁, hmint, hsound, hturned⟩ :=
        turned_syncMint hserials h hhere (hseen pMint List.mem_cons_self)
      have hturn := @mintTurn_syncMint node pMint s hhere
      rw [hmint] at hturn
      have hothers := hturn.others
      have hpool₁ := hturn.rest hnodup hpool
      rw [List.map_cons, List.nodup_cons] at hnodup
      -- a mint of the rest is found before if it is found after
      have hfound₁ : ∀ p ∈ rest, Found node s₁.wallet p.1 p.2 → Found node s.wallet p.1 p.2 := by
        intro p hmem hfound
        refine ⟨hpool p (List.mem_cons_of_mem _ hmem), ?_, hfound.onChain⟩
        rw [Bool.eq_false_iff]
        intro htracked
        have hafter := hturned.progress.tracked _ htracked
        rw [hfound.untracked] at hafter
        cases hafter
      obtain ⟨s', hrest, hsound', hwalked⟩ := @ih (pMint.1 :: setChecked) s₁ hsound hnodup.2
        (by
          intro p hmem hin
          rcases List.mem_cons.mp hin with heq | hin
          · exact hnodup.1 (heq ▸ List.mem_map_of_mem hmem)
          · exact hchecked p (List.mem_cons_of_mem _ hmem) hin)
        hpool₁
        (fun p hmem hfound =>
          hseen p (List.mem_cons_of_mem _ hmem) (hfound₁ p hmem hfound))
      refine ⟨s', ?_, hsound', ?_⟩
      · rw [syncMints, if_neg (hchecked pMint List.mem_cons_self),
          if_neg (by rw [hgo]; decide), hmint]
        exact hrest
      refine ⟨hturned.progress.trans hwalked.progress, ?_, ?_, ?_, ?_⟩
      · intro hashPubcoin hnot
        rw [List.map_cons, List.mem_cons, not_or] at hnot
        rw [hwalked.others _ hnot.2]
        exact hothers _ hnot.1
      · intro p hmem honChain
        rcases List.mem_cons.mp hmem with rfl | hmem
        · rw [hwalked.others _ hnodup.1]
          exact hturned.removed honChain
        · exact hwalked.removed p hmem honChain
      · intro p hmem hfound
        rcases List.mem_cons.mp hmem with rfl | hmem
        · obtain ⟨hadded, hcount⟩ := hturned.moved hfound
          exact ⟨hwalked.progress.added hadded, hcount.trans hwalked.progress.counted⟩
        · apply hwalked.moved p hmem
          refine ⟨hpool₁ p hmem, ?_, hfound.onChain⟩
          rw [Bool.eq_false_iff]
          intro htracked
          rcases hturned.tracked _ htracked with hbefore | heq
          · rw [hfound.untracked] at hbefore
            cases hbefore
          · exact hnodup.1 (heq ▸ List.mem_map_of_mem hmem)
      · intro hfound
        rcases hwalked.found hfound with hfound | hlonger
        · rcases hturned.found hfound with hfound | hlonger
          · exact Or.inl hfound
          · right
            have := (List.subperm_of_subset hsound.nodup hwalked.progress.added).length_le
            omega
        · right
          have := (List.subperm_of_subset h.nodup hturned.progress.added).length_le
          omega

/-! ### The whole call -/

/-- A turn of the outer loop with mints that can all be moved. -/
theorem walked_syncRound (hserials : SerialsApart node wallet)
    (hgo : node.shutdownRequested = false)
    (hall : AllMovable node fGenerateMintPool wallet) {s : Sync}
    (hreached : Reached node fGenerateMintPool wallet s) (h : Sound node wallet s.wallet) :
    ∃ s', syncRound node s = .next s' ∧ Sound node wallet s'.wallet ∧
      Walked node (listPool s.wallet.mintPool) s s' := by
  apply walked_syncMints hserials hgo h (nodup_listPool _)
  · exact fun _ _ => List.not_mem_nil
  · exact fun _ hmem => mem_listPool.mp hmem
  · exact fun p _ hfound => (hall s hreached p.1 p.2 hfound).seen

theorem Walked.clear {s s' : Sync} (h : Walked node (listPool s.wallet.mintPool) s s')
    {hashPubcoin : Uint256} (honChain : (node.coinMints.find? hashPubcoin).isSome) :
    s'.wallet.mintPool.find? hashPubcoin = none := by
  by_cases hmem : hashPubcoin ∈ (listPool s.wallet.mintPool).map Prod.fst
  · obtain ⟨pMint, hlisted, rfl⟩ := List.mem_map.mp hmem
    exact h.removed pMint hlisted honChain
  · rw [h.others _ hmem]
    cases hpool : s.wallet.mintPool.find? hashPubcoin with
    | none => rfl
    | some nCount => exact absurd (List.mem_map_of_mem (mem_listPool.mpr hpool)) hmem

theorem sound_startSync (hserials : SerialsApart node wallet) :
    Sound node wallet (startSync node fGenerateMintPool wallet).wallet := by
  have hstart : Sound node wallet { wallet with added := [] } := by
    refine ⟨rfl, hserials.tracker, List.nodup_nil, ?_, ?_⟩
    · exact fun _ hmem => absurd hmem List.not_mem_nil
    · exact fun _ hmem => absurd hmem List.not_mem_nil
  exact hstart.refilled (refilled_startRound
    { wallet := { wallet with added := [] }, found := true, nLastCountUsed := 0 })

theorem Reached.sound (hserials : SerialsApart node wallet)
    (hgo : node.shutdownRequested = false)
    (hall : AllMovable node fGenerateMintPool wallet) {s : Sync}
    (h : Reached node fGenerateMintPool wallet s) : Sound node wallet s.wallet := by
  induction h with
  | first => exact sound_startSync hserials
  | @next s s' hreached hround _ ih =>
      obtain ⟨s'', hround', hsound, -⟩ := walked_syncRound hserials hgo hall hreached ih
      obtain rfl := Turn.next.inj (hround.symm.trans hround')
      exact hsound.refilled (refilled_startRound _)

theorem Reached.notFound {s : Sync} (h : Reached node fGenerateMintPool wallet s) :
    s.found = false := by
  cases h with
  | first => rfl
  | next => rfl

/-- **The outer loop ends**: every turn that goes on has added a mint of the chain. -/
theorem ended_syncFrom (hserials : SerialsApart node wallet)
    (hgo : node.shutdownRequested = false)
    (hall : AllMovable node fGenerateMintPool wallet) {more : Nat} {s : Sync}
    (hreached : Reached node fGenerateMintPool wallet s)
    (hmore : node.coinMints.toList.length ≤ more + s.wallet.added.length) :
    ∃ turns last, syncFrom node fGenerateMintPool turns s = .ended last ∧
      Sound node wallet last ∧
      ∀ hashPubcoin, (node.coinMints.find? hashPubcoin).isSome →
        last.mintPool.find? hashPubcoin = none := by
  induction more using Nat.strong_induction_on generalizing s with
  | _ more ih =>
      obtain ⟨s', hround, hsound, hwalked⟩ :=
        walked_syncRound hserials hgo hall hreached (hreached.sound hserials hgo hall)
      cases hfound : s'.found with
      | false =>
          refine ⟨1, s'.wallet, ?_, hsound, fun _ => hwalked.clear⟩
          rw [syncFrom, hround]
          dsimp only
          rw [hfound]
          rfl
      | true =>
          have hlonger : s.wallet.added.length < s'.wallet.added.length := by
            rcases hwalked.found hfound with hbefore | hlonger
            · rw [hreached.notFound] at hbefore
              cases hbefore
            · exact hlonger
          have hlength := hsound.length_le
          have hadded := (@refilled_startRound node fGenerateMintPool s').added
          obtain ⟨turns, last, hlast, hend⟩ := ih (more - 1) (by omega)
            (hreached.next hround hfound) (by rw [hadded]; omega)
          refine ⟨turns + 1, last, ?_, hend⟩
          rw [syncFrom, hround]
          dsimp only
          rw [if_pos hfound]
          exact hlast

/-- What a turn has done is not undone to the end of the call. -/
theorem walked_last (hserials : SerialsApart node wallet)
    (hgo : node.shutdownRequested = false)
    (hall : AllMovable node fGenerateMintPool wallet) {turns : Nat} {s : Sync}
    {last : ZAGRWallet} (hreached : Reached node fGenerateMintPool wallet s)
    (hlast : syncFrom node fGenerateMintPool turns s = .ended last) :
    ∃ s', Walked node (listPool s.wallet.mintPool) s s' ∧ Progress s'.wallet last := by
  induction turns generalizing s with
  | zero => cases hlast
  | succ turns ih =>
      obtain ⟨s', hround, -, hwalked⟩ :=
        walked_syncRound hserials hgo hall hreached (hreached.sound hserials hgo hall)
      refine ⟨s', hwalked, ?_⟩
      rw [syncFrom, hround] at hlast
      dsimp only at hlast
      split_ifs at hlast with hfound
      · obtain ⟨s'', hwalked', hprogress⟩ := ih (hreached.next hround hfound) hlast
        exact (refilled_startRound s').progress.trans (hwalked'.progress.trans hprogress)
      · obtain rfl := SyncEnd.ended.inj hlast
        exact Progress.refl _

/-- A mint that can be moved is moved. -/
theorem syncs_of_movable (hserials : SerialsApart node wallet)
    (hall : AllMovable node fGenerateMintPool wallet) :
    Syncs node fGenerateMintPool wallet := by
  by_cases hshutdown : node.shutdownRequested = true
  · -- the call returns at once, and nothing is found
    obtain ⟨last, hlast⟩ : ∃ last,
        syncWithChain node fGenerateMintPool 1 wallet = .ended last := by
      unfold syncWithChain
      rw [syncFrom, syncRound]
      cases hlist : listPool (startSync node fGenerateMintPool wallet).wallet.mintPool with
      | nil => exact ⟨_, rfl⟩
      | cons pMint rest =>
          rw [syncMints, if_neg List.not_mem_nil, if_pos hshutdown]
          exact ⟨_, rfl⟩
    refine ⟨1, last, hlast, ?_⟩
    intro s hreached hashPubcoin nCount hfound
    have hgo := (hall s hreached hashPubcoin nCount hfound).goesOn
    rw [hshutdown] at hgo
    cases hgo
  have hgo : node.shutdownRequested = false := Bool.eq_false_iff.mpr hshutdown
  obtain ⟨turns, last, hlast, hsound, hclear⟩ :=
    @ended_syncFrom node fGenerateMintPool wallet hserials hgo hall
      node.coinMints.toList.length _ .first (Nat.le_add_right _ _)
  refine ⟨turns, last, hlast, ?_⟩
  intro s hreached hashPubcoin nCount hfound
  obtain ⟨turns', hrest⟩ := hreached.last hlast
  obtain ⟨s', hwalked, hprogress⟩ := walked_last hserials hgo hall hreached hrest
  obtain ⟨hadded, hcount⟩ :=
    hwalked.moved (hashPubcoin, nCount) (mem_listPool.mpr hfound.pooled) hfound
  have hmem := hprogress.added hadded
  exact ⟨List.count_eq_one_of_mem hsound.nodup hmem, hsound.tracked _ hmem,
    hclear _ hfound.onChain, hcount.trans hprogress.counted⟩

/-- **The wallet catches up with the chain**, with all its mints moved, exactly if
every mint that is found in a turn can be moved. -/
theorem syncs_iff (hserials : SerialsApart node wallet) :
    Syncs node fGenerateMintPool wallet ↔ AllMovable node fGenerateMintPool wallet :=
  ⟨movable_of_syncs, syncs_of_movable hserials⟩

end Spec

/-! ## A mint of the seed on the chain -/

/-- A chain with one mint, of the coin 7. -/
def sevenMinted : SyncNode where
  coinMints := KeyedMap.empty.insert 7 1
  getTransaction := fun txHash => if txHash = 1 then some ⟨[some ⟨.ZQ_ONE, 7⟩], 2⟩ else none
  mapBlockIndex := fun hashBlock => if hashBlock = 2 then some 325 else none
  isSerialInBlockchain := fun _ => false
  getPubCoinHash := BitVec.ofInt 256
  seedToZAGR := fun seed n => ((n : Int) + seed.toNat, BitVec.ofNat 256 (n + seed.toNat))
  shutdownRequested := false

/-- A wallet with this mint in its pool, as the one of count 6 of its seed. -/
def openWallet : ZAGRWallet where
  seedMaster := 1
  nCountLastUsed := 0
  mintPool := KeyedMap.empty.insert 7 6
  mapSerialHashes := KeyedMap.empty

theorem onChain_sevenMinted {hashPubcoin : Uint256}
    (h : (sevenMinted.coinMints.find? hashPubcoin).isSome) : hashPubcoin = 7 := by
  by_contra hne
  have hnone : sevenMinted.coinMints.find? hashPubcoin = none := by
    show (KeyedMap.empty.insert 7 1).find? hashPubcoin = none
    rw [KeyedMap.find?_insert_ne _ _ hne, KeyedMap.find?_empty]
  rw [hnone] at h
  cases h

theorem count_openWallet {s : Sync} (h : Reached sevenMinted false openWallet s) :
    ∀ nCount, s.wallet.mintPool.find? 7 = some nCount → nCount = 6 := by
  induction h with
  | first =>
      intro nCount hpool
      exact (Option.some.inj hpool).symm
  | @next s s' _ hround _ ih =>
      have hkept := @syncRound_invariant sevenMinted
        (fun s => ∀ nCount, s.mintPool.find? 7 = some nCount → nCount = 6)
        (fun pMint s turn _ hcount _ hturn => by
          have herase : ∀ nCount, (s.wallet.mintPool.erase pMint.1).find? 7 = some nCount →
              nCount = 6 := by
            intro nCount hpool
            rw [KeyedMap.find?_erase] at hpool
            split_ifs at hpool
            exact hcount nCount hpool
          cases hturn with
          | tracked => exact herase
          | offChain => exact hcount
          | failed _ _ _ hkept =>
              refine hkept.mono fun s' hkept => ?_
              rw [hkept.mintPool]
              exact hcount
          | moved => exact herase) s ih
      rw [hround] at hkept
      exact hkept

theorem syncs_openWallet : Syncs sevenMinted false openWallet := by
  refine (syncs_iff ⟨?_, ?_⟩).mpr ?_
  · intro nCount nCount' h
    exact h
  · intro nCount dMint h
    cases h
  · intro s hreached hashPubcoin nCount hfound
    obtain rfl := onChain_sevenMinted hfound.onChain
    obtain rfl := count_openWallet hreached nCount hfound.pooled
    exact ⟨rfl, 1, _, ⟨.ZQ_ONE, 7⟩, 325, by decide, rfl, by decide, rfl, by decide⟩

/-- The wallet after it is locked, which clears the seed and keeps the pool. -/
def lockedWallet : ZAGRWallet := { openWallet with seedMaster := 0 }

/-- The locked wallet finds the mint in every turn, and cannot move it. -/
theorem syncs_lockedWallet : ¬ Syncs sevenMinted true lockedWallet := by
  intro h
  have hmovable := movable_of_syncs h _ .first 7 6 ⟨by decide, by decide, by decide⟩
  obtain ⟨txHash, tx, pubcoin, nHeight, hmint, htx, hout, -, hvalue⟩ := hmovable.seen
  obtain rfl : (1 : Uint256) = txHash := by
    have hone : sevenMinted.coinMints.find? 7 = some 1 := by decide
    exact Option.some.inj (hone.symm.trans hmint)
  obtain rfl := Option.some.inj htx
  have hcoin : findMint sevenMinted ⟨[some ⟨.ZQ_ONE, 7⟩], 2⟩ 7 = some ⟨.ZQ_ONE, 7⟩ := by decide
  obtain rfl := Option.some.inj (hcoin.symm.trans hout)
  exact absurd hvalue (by decide)

end Agrarian.Zerocoin
