import Agrarian.Primitives
import Agrarian.Lib.KeyedMap
import Agrarian.Lib.MachineInt
import Agrarian.Lib.Run
import Agrarian.Validation.Subsidy

/-!
# Transaction locks

The locks of `swifttx.cpp`: a request (`ix`) names a transaction whose inputs
are to be locked, masternodes vote for it (`txlvote`), and a lock with enough
votes keeps its inputs from being spent otherwise until it expires.

What the node knows besides (the clock, its chain and pool, the masternode
list) is a world that may be a different one at every message.  What the node
sends is kept as a list of signals.  Requests made by the node's own wallet,
the wallet's counters and log lines are left out.
-/

namespace Agrarian.SwiftTX

open Agrarian.Lib

def SWIFTTX_SIGNATURES_REQUIRED : Int := 6
def SWIFTTX_SIGNATURES_TOTAL : Int := 10

structure CConsensusVote where
  vinMasternode : CTxIn
  txHash : Uint256
  nBlockHeight : Int
  vchMasterNodeSignature : List UInt8 := []
  deriving DecidableEq, Repr

/-- `CConsensusVote::GetHash`: neither the height nor the signature is part of
it. -/
def CConsensusVote.getHash (vote : CConsensusVote) : Uint256 :=
  vote.vinMasternode.prevout.hash +
    BitVec.ofNat 256 vote.vinMasternode.prevout.n + vote.txHash

structure CTransactionLock where
  nBlockHeight : Int
  txHash : Uint256
  vecConsensusVotes : List CConsensusVote := []
  nExpiration : Int
  nTimeout : Int
  deriving DecidableEq, Repr

namespace CTransactionLock

def addSignature (lock : CTransactionLock) (cv : CConsensusVote) :
    CTransactionLock :=
  { lock with vecConsensusVotes := lock.vecConsensusVotes ++ [cv] }

/-- Only the votes for the height of the lock count, and none before the
request has set it. -/
def countSignatures (lock : CTransactionLock) : Int :=
  if lock.nBlockHeight = 0 then -1
  else lock.vecConsensusVotes.countP fun vote =>
    vote.nBlockHeight = lock.nBlockHeight

end CTransactionLock

/-- What the node tells its peers and listeners. -/
inductive Signal
  | relayRequest (txHash : Uint256)
  | relayVote (voteHash : Uint256)
  | notifyTransactionLock (tx : CTransaction)
  | reprocessBlocks (nBlocks : Nat)
  deriving DecidableEq, Repr

/-- The maps of `swifttx.cpp`, and the signals sent so far. -/
structure LockState where
  mapTxLockReq : KeyedMap Uint256 CTransaction := KeyedMap.empty
  mapTxLockReqRejected : KeyedMap Uint256 CTransaction := KeyedMap.empty
  mapTxLockVote : KeyedMap Uint256 CConsensusVote := KeyedMap.empty
  mapTxLocks : KeyedMap Uint256 CTransactionLock := KeyedMap.empty
  mapLockedInputs : KeyedMap COutPoint Uint256 := KeyedMap.empty
  mapUnknownVotes : KeyedMap Uint256 Int := KeyedMap.empty
  signals : List Signal := []

/-- What one message finds around the locks. -/
structure World where
  fLiteMode : Bool := false
  /-- `IsSporkActive(SPORK_2_SWIFTTX)`. -/
  fSwiftTXActive : Bool := true
  /-- `IsSporkActive(SPORK_3_SWIFTTX_BLOCK_FILTERING)`. -/
  fBlockFiltering : Bool := true
  fBlockchainSynced : Bool := true
  fLargeWorkForkFound : Bool := false
  fLargeWorkInvalidChainFound : Bool := false
  /-- `GetTime()`. -/
  nTime : Int := 0
  /-- `chainActive.Height()`, negative without a tip. -/
  nChainHeight : Int := 0
  /-- `GetSporkValue(SPORK_5_MAX_VALUE)`. -/
  nMaxValue : Int := 1000
  getTransaction : Uint256 → Option CTransaction := fun _ => none
  /-- The height of the coins of a transaction, in the pool or the chain. -/
  coinsHeight : Uint256 → Option Int := fun _ => none
  /-- The verdict of `AcceptToMemoryPool` on a transaction that conflicts
  with no lock. -/
  poolAccepts : CTransaction → Bool := fun _ => true
  /-- `GetMasternodeRank` for `MIN_SWIFTTX_PROTO_VERSION`. -/
  getMasternodeRank : COutPoint → Int → Int := fun _ _ => -1
  /-- The masternode is listed and its key verifies the vote's signature. -/
  signatureValid : CConsensusVote → Bool := fun _ => false
  fMasterNode : Bool := false
  activeMasternode : CTxIn := { prevout := COutPoint.null }
  /-- The signature of the own masternode, if its key is set. -/
  sign : Uint256 → Int → Option (List UInt8) := fun _ _ => none

/-! ## Requests -/

/-- `CScript::GetOp`: the opcode and the rest of the script; an operation that
does not fit reads as `OP_INVALIDOPCODE`. -/
def getOp : CScript → UInt8 × CScript
  | [] => (0xff, [])
  | opcode :: pc =>
      if 0x4e < opcode then (opcode, pc)
      else
        let nSizeBytes : Nat :=
          if opcode < 0x4c then 0
          else if opcode = 0x4c then 1
          else if opcode = 0x4d then 2
          else 4
        if pc.length < nSizeBytes then (0xff, pc)
        else
          let nSize : Nat :=
            if opcode < 0x4c then opcode.toNat
            else (pc.take nSizeBytes).foldr
              (fun byte n => byte.toNat + 256 * n) 0
          if pc.length - nSizeBytes < nSize then (0xff, pc.drop nSizeBytes)
          else (opcode, pc.drop (nSizeBytes + nSize))

/-- Five operations, the third of which pushes something. -/
def isNormalPaymentScript (script : CScript) : Bool :=
  if script.length ≠ 25 then false
  else
    let (op₀, pc₁) := getOp script
    let (op₁, pc₂) := getOp pc₁
    let (_, pc₃) := getOp pc₂
    let (op₃, pc₄) := getOp pc₃
    let (op₄, pc₅) := getOp pc₄
    -- the loop ends where the script does
    op₀ == CScript.OP_DUP &&
      (pc₁.isEmpty || op₁ == CScript.OP_HASH160 &&
        (pc₂.isEmpty || pc₃.isEmpty || op₃ == CScript.OP_EQUALVERIFY &&
          (pc₄.isEmpty || op₄ == CScript.OP_CHECKSIG && pc₅.isEmpty)))

def isIXTXValid (world : World) (txCollateral : CTransaction) : Bool :=
  if txCollateral.vout.isEmpty then false
  else if txCollateral.nLockTime ≠ 0 then false
  else
    let nValueOut := (txCollateral.vout.map CTxOut.nValue).sum
    let inputs := txCollateral.vin.map fun txin =>
      (world.getTransaction txin.prevout.hash).map fun tx₂ =>
        ((tx₂.vout[txin.prevout.n]?).map CTxOut.nValue).getD 0
    let nValueIn := (inputs.map fun nValue => nValue.getD 0).sum
    if world.nMaxValue * Validation.COIN < nValueOut then false
    -- an unknown input is let through: its fee cannot be computed
    else if inputs.any Option.isNone then true
    -- `COIN * 0.01`
    else !decide (nValueIn - nValueOut < Validation.COIN / 100)

def getInputAge (world : World) (vin : CTxIn) : Int :=
  match world.coinsHeight vin.prevout.hash with
  | none => -1
  | some nHeight =>
      if nHeight < 0 then 0 else world.nChainHeight + 1 - nHeight

/-- The height whose masternodes vote on a transaction; `none` if one of its
inputs is unknown or too new. -/
def lockHeight (world : World) (tx : CTransaction) : Option Int :=
  if tx.vin.any fun txin => getInputAge world txin < 5 then none
  else
    -- the inputs are visited from the last to the first
    let nTxAge := ((tx.vin.head?).map (getInputAge world)).getD 0
    some (int32 (world.nChainHeight - nTxAge + 4))

def newLock (world : World) (txHash : Uint256) (nBlockHeight : Int) :
    CTransactionLock where
  nBlockHeight
  txHash
  nExpiration := int32 (world.nTime + 60 * 60)
  nTimeout := int32 (world.nTime + 60 * 5)

def createNewLock (world : World) (s : LockState) (tx : CTransaction) :
    LockState × Int :=
  match lockHeight world tx with
  | none => (s, 0)
  | some nBlockHeight =>
      let lock := match s.mapTxLocks.find? tx.getHash with
        | none => newLock world tx.getHash nBlockHeight
        | some lock => { lock with nBlockHeight }
      ({ s with mapTxLocks := s.mapTxLocks.insert tx.getHash lock },
        nBlockHeight)

/-- The inputs of `vin` that nobody has locked are locked for `txHash`. -/
def lockInputs (locked : KeyedMap COutPoint Uint256) (vin : List CTxIn)
    (txHash : Uint256) : KeyedMap COutPoint Uint256 :=
  vin.foldl (fun locked txin =>
    if (locked.find? txin.prevout).isSome then locked
    else locked.insert txin.prevout txHash) locked

/-- The transaction that has locked an input of `tx`, if it is another one. -/
def conflictingLock (locked : KeyedMap COutPoint Uint256) (tx : CTransaction) :
    Option Uint256 :=
  tx.vin.findSome? fun txin =>
    (locked.find? txin.prevout).filter fun txHash => txHash ≠ tx.getHash

def expireLock (world : World) (locks : KeyedMap Uint256 CTransactionLock)
    (txHash : Uint256) : KeyedMap Uint256 CTransactionLock :=
  match locks.find? txHash with
  | none => locks
  | some lock =>
      locks.insert txHash { lock with nExpiration := int32 world.nTime }

/-- The first conflict found makes both locks expire. -/
def checkForConflictingLocks (world : World) (s : LockState)
    (tx : CTransaction) : LockState × Bool :=
  match conflictingLock s.mapLockedInputs tx with
  | none => (s, false)
  | some txHash =>
      let locks := expireLock world s.mapTxLocks tx.getHash
      ({ s with mapTxLocks := expireLock world locks txHash }, true)

def acceptToMemoryPool (world : World) (s : LockState) (tx : CTransaction) :
    Bool :=
  (conflictingLock s.mapLockedInputs tx).isNone && world.poolAccepts tx

def sendSignal (s : LockState) (signal : Signal) : LockState :=
  { s with signals := s.signals ++ [signal] }

/-- The votes counted for a transaction, `-1` without a lock. -/
def signatures (s : LockState) (txHash : Uint256) : Int :=
  match s.mapTxLocks.find? txHash with
  | none => -1
  | some lock => lock.countSignatures

def getTransactionLockSignatures (world : World) (s : LockState)
    (txHash : Uint256) : Int :=
  if world.fLargeWorkForkFound || world.fLargeWorkInvalidChainFound then -2
  else if !world.fSwiftTXActive then -1
  else signatures s txHash

/-- A vote of a masternode among the first `SWIFTTX_SIGNATURES_TOTAL` of its
height, with a valid signature. -/
def isGenuine (world : World) (ctx : CConsensusVote) : Bool :=
  let n := world.getMasternodeRank ctx.vinMasternode.prevout ctx.nBlockHeight
  n ≠ -1 && n ≤ SWIFTTX_SIGNATURES_TOTAL && world.signatureValid ctx

def doConsensusVote (world : World) (s : LockState) (tx : CTransaction)
    (nBlockHeight : Int) : LockState :=
  if !world.fMasterNode then s
  else
    match world.sign tx.getHash nBlockHeight with
    | none => s
    | some vchMasterNodeSignature =>
        let ctx : CConsensusVote :=
          { vinMasternode := world.activeMasternode, txHash := tx.getHash,
            nBlockHeight, vchMasterNodeSignature }
        if !isGenuine world ctx then s
        else sendSignal
          { s with mapTxLockVote := s.mapTxLockVote.insert ctx.getHash ctx }
          (.relayVote ctx.getHash)

def acceptRequest (world : World) (s : LockState) (tx : CTransaction)
    (nBlockHeight : Int) : LockState :=
  let s := doConsensusVote world (sendSignal s (.relayRequest tx.getHash)) tx
    nBlockHeight
  let s := { s with mapTxLockReq := s.mapTxLockReq.insert tx.getHash tx }
  if getTransactionLockSignatures world s tx.getHash =
      SWIFTTX_SIGNATURES_REQUIRED then
    sendSignal s (.notifyTransactionLock tx)
  else s

/-- A refused request is remembered, and its inputs are locked. -/
def recordRefusal (s : LockState) (tx : CTransaction) : LockState :=
  { s with
    mapTxLockReqRejected := s.mapTxLockReqRejected.insert tx.getHash tx
    mapLockedInputs := lockInputs s.mapLockedInputs tx.vin tx.getHash }

def rejectRequest (world : World) (s : LockState) (tx : CTransaction) :
    LockState :=
  let s := recordRefusal s tx
  if signatures s tx.getHash < SWIFTTX_SIGNATURES_REQUIRED then s
  else
    let checked := checkForConflictingLocks world s tx
    if checked.2 then checked.1
    else
      let s := sendSignal checked.1 (.reprocessBlocks 15)
      { s with mapTxLockReq := s.mapTxLockReq.insert tx.getHash tx }

/-- The request is neither known nor refused by what it contains. -/
def isNewRequest (world : World) (s : LockState) (tx : CTransaction) : Bool :=
  (s.mapTxLockReq.find? tx.getHash).isNone &&
    (s.mapTxLockReqRejected.find? tx.getHash).isNone &&
    isIXTXValid world tx &&
    tx.vout.all fun txout =>
      isNormalPaymentScript txout.scriptPubKey ||
        txout.scriptPubKey.isUnspendable

def processRequest (world : World) (s : LockState) (tx : CTransaction) :
    LockState :=
  if !isNewRequest world s tx then s
  else
    let created := createNewLock world s tx
    if acceptToMemoryPool world created.1 tx then
      acceptRequest world created.1 tx created.2
    else rejectRequest world created.1 tx

/-! ## Votes -/

/-- `CTransaction()`. -/
def emptyTransaction : CTransaction := { hash := 0, vin := [], vout := [] }

/-- The vote enters the lock of its transaction, which is made for it if there
is none. -/
def addVote (world : World) (s : LockState) (ctx : CConsensusVote) :
    LockState :=
  let lock := (s.mapTxLocks.find? ctx.txHash).getD (newLock world ctx.txHash 0)
  { s with
    mapTxLocks := s.mapTxLocks.insert ctx.txHash (lock.addSignature ctx) }

/-- `mapTxLockReq[txHash]`: an empty transaction is entered if none is
known. -/
def requestOf (s : LockState) (txHash : Uint256) : CTransaction :=
  (s.mapTxLockReq.find? txHash).getD emptyTransaction

/-- What a complete lock brings about. -/
def completeLock (world : World) (s : LockState) (txHash : Uint256) :
    LockState :=
  let tx := requestOf s txHash
  let s := { s with mapTxLockReq := s.mapTxLockReq.insert txHash tx }
  let checked := checkForConflictingLocks world s tx
  if checked.2 then checked.1
  else
    let s := { checked.1 with
      mapLockedInputs := lockInputs checked.1.mapLockedInputs tx.vin txHash }
    if (s.mapTxLockReqRejected.find? txHash).isSome then
      sendSignal s (.reprocessBlocks 15)
    else s

def processConsensusVote (world : World) (s : LockState)
    (ctx : CConsensusVote) : LockState × Bool :=
  if !isGenuine world ctx then (s, false)
  else
    let s := addVote world s ctx
    if signatures s ctx.txHash < SWIFTTX_SIGNATURES_REQUIRED then (s, true)
    else (completeLock world s ctx.txHash, true)

def getAverageVoteTime (unknown : KeyedMap Uint256 Int) : Int :=
  let times := unknown.toList.map Prod.snd
  times.sum.tdiv times.length

/-- The first of `mapUnknownVotes` under the key of the vote's masternode. -/
def trackUnknownVote (world : World) (s : LockState) (ctx : CConsensusVote) :
    LockState × Bool :=
  let key := ctx.vinMasternode.prevout.hash
  let nUntil := (s.mapUnknownVotes.find? key).getD (world.nTime + 60 * 10)
  let unknown := s.mapUnknownVotes.insert key nUntil
  if world.nTime < nUntil ∧ 60 * 10 < nUntil - getAverageVoteTime unknown then
    ({ s with mapUnknownVotes := unknown }, true)
  else
    ({ s with
      mapUnknownVotes := unknown.insert key (world.nTime + 60 * 10) }, false)

/-- The votes for a transaction that nobody requested are limited; a vote
over the limit is not relayed. -/
def relayVote (world : World) (s : LockState) (ctx : CConsensusVote) :
    LockState × Bool :=
  if (s.mapTxLockReq.find? ctx.txHash).isNone &&
      (s.mapTxLockReqRejected.find? ctx.txHash).isNone then
    let tracked := trackUnknownVote world s ctx
    if tracked.2 then (tracked.1, true)
    else (sendSignal tracked.1 (.relayVote ctx.getHash), false)
  else (sendSignal s (.relayVote ctx.getHash), false)

/-- The lock is reported whenever a vote finds its count at the number
required. -/
def notifyVote (world : World) (s : LockState) (ctx : CConsensusVote) :
    LockState :=
  match s.mapTxLockReq.find? ctx.txHash with
  | none => s
  | some tx =>
      if getTransactionLockSignatures world s ctx.txHash =
          SWIFTTX_SIGNATURES_REQUIRED then
        sendSignal s (.notifyTransactionLock tx)
      else s

/-- The end of the handler: a vote that was processed is relayed. -/
def finishVote (world : World) (ctx : CConsensusVote)
    (processed : LockState × Bool) : LockState :=
  let relayed :=
    if processed.2 then relayVote world processed.1 ctx
    else (processed.1, false)
  if relayed.2 then relayed.1 else notifyVote world relayed.1 ctx

def processVote (world : World) (s : LockState) (ctx : CConsensusVote) :
    LockState :=
  if (s.mapTxLockVote.find? ctx.getHash).isSome then s
  else
    finishVote world ctx (processConsensusVote world
      { s with mapTxLockVote := s.mapTxLockVote.insert ctx.getHash ctx } ctx)

/-! ## Clean-up -/

/-- What goes with an expired lock. -/
def removeLock (s : LockState) (entry : Uint256 × CTransactionLock) :
    LockState :=
  let lock := entry.2
  let s := match s.mapTxLockReq.find? lock.txHash with
    | none => s
    | some tx =>
        { s with
          mapLockedInputs :=
            s.mapLockedInputs.eraseAll (tx.vin.map CTxIn.prevout)
          mapTxLockReq := s.mapTxLockReq.erase lock.txHash
          mapTxLockReqRejected := s.mapTxLockReqRejected.erase lock.txHash
          mapTxLockVote := s.mapTxLockVote.eraseAll
            (lock.vecConsensusVotes.map CConsensusVote.getHash) }
  { s with mapTxLocks := s.mapTxLocks.erase entry.1 }

/-- The locks that the clean-up removes. -/
def expiredLocks (world : World) (s : LockState) :
    List (Uint256 × CTransactionLock) :=
  s.mapTxLocks.toList.filter fun entry => entry.2.nExpiration < world.nTime

def cleanTransactionLocksList (world : World) (s : LockState) : LockState :=
  if world.nChainHeight < 0 then s
  else (expiredLocks world s).foldl removeLock s

/-! ## Messages -/

inductive Message
  | ix (tx : CTransaction)
  | txlvote (ctx : CConsensusVote)
  | clean
  deriving DecidableEq, Repr

/-- The node takes part in transaction locking. -/
def handles (world : World) : Bool :=
  !world.fLiteMode && world.fSwiftTXActive && world.fBlockchainSynced

structure Event where
  world : World
  msg : Message

/-- `ProcessMessageSwiftTX`, and the clean-up that runs beside it. -/
def process (s : LockState) (event : Event) : LockState :=
  match event.msg with
  | .clean => cleanTransactionLocksList event.world s
  | .ix tx =>
      if handles event.world then processRequest event.world s tx else s
  | .txlvote ctx =>
      if handles event.world then processVote event.world s ctx else s

/-- The state after a sequence of messages. -/
def run (events : List Event) : LockState := events.foldl process {}

/-! ## What the operations do to the locks -/

section Operations

variable {world : World} {s : LockState} {tx : CTransaction}
  {ctx : CConsensusVote} {txHash : Uint256}

/-- What counts of the lock of a transaction: its height and votes. -/
def heightAndVotes (s : LockState) (txHash : Uint256) :
    Option (Int × List CConsensusVote) :=
  (s.mapTxLocks.find? txHash).map fun lock =>
    (lock.nBlockHeight, lock.vecConsensusVotes)

theorem signatures_eq (s : LockState) (txHash : Uint256) :
    signatures s txHash = match heightAndVotes s txHash with
      | none => -1
      | some (nBlockHeight, votes) =>
          if nBlockHeight = 0 then -1
          else votes.countP fun vote => vote.nBlockHeight = nBlockHeight := by
  unfold signatures heightAndVotes
  cases s.mapTxLocks.find? txHash with
  | none => rfl
  | some lock => rfl

theorem signatures_congr {s' : LockState}
    (h : heightAndVotes s' txHash = heightAndVotes s txHash) :
    signatures s' txHash = signatures s txHash := by
  rw [signatures_eq, signatures_eq, h]

theorem find?_expireLock (world : World)
    (locks : KeyedMap Uint256 CTransactionLock) (expired txHash : Uint256) :
    ∃ nExpiration : CTransactionLock → Int,
      (expireLock world locks expired).find? txHash =
        (locks.find? txHash).map fun lock =>
          { lock with nExpiration := nExpiration lock } := by
  unfold expireLock
  cases hlock : locks.find? expired with
  | none =>
      refine ⟨CTransactionLock.nExpiration, ?_⟩
      cases locks.find? txHash <;> rfl
  | some lock =>
      by_cases hhash : txHash = expired
      · refine ⟨fun _ => int32 world.nTime, ?_⟩
        simp [hhash, hlock]
      · refine ⟨CTransactionLock.nExpiration, ?_⟩
        simp only [KeyedMap.find?_insert_ne _ _ hhash]
        cases locks.find? txHash <;> rfl

/-- The locks are the same but for when they expire. -/
def LocksKept (s s' : LockState) : Prop :=
  ∀ txHash, ∃ nExpiration : CTransactionLock → Int,
    s'.mapTxLocks.find? txHash = (s.mapTxLocks.find? txHash).map fun lock =>
      { lock with nExpiration := nExpiration lock }

theorem LocksKept.heightAndVotes {s' : LockState} (h : LocksKept s s')
    (txHash : Uint256) :
    heightAndVotes s' txHash = SwiftTX.heightAndVotes s txHash := by
  obtain ⟨nExpiration, hfind⟩ := h txHash
  unfold SwiftTX.heightAndVotes
  rw [hfind, Option.map_map]
  rfl

/-- Every lock stands under the hash of its transaction. -/
def LocksKeyed (s : LockState) : Prop :=
  ∀ txHash lock, s.mapTxLocks.find? txHash = some lock → lock.txHash = txHash

theorem LocksKept.keyed {s' : LockState} (h : LocksKept s s')
    (hkeyed : LocksKeyed s) : LocksKeyed s' := by
  intro txHash lock hlock
  obtain ⟨nExpiration, hfind⟩ := h txHash
  rw [hfind, Option.map_eq_some_iff] at hlock
  obtain ⟨old, hold, rfl⟩ := hlock
  exact hkeyed txHash old hold

theorem locksKept_of_eq {s' : LockState} (h : s'.mapTxLocks = s.mapTxLocks) :
    LocksKept s s' := by
  intro txHash
  refine ⟨CTransactionLock.nExpiration, ?_⟩
  rw [h]
  cases s.mapTxLocks.find? txHash <;> rfl

theorem checkForConflictingLocks_kept (world : World) (s : LockState)
    (tx : CTransaction) :
    LocksKept s (checkForConflictingLocks world s tx).1 := by
  unfold checkForConflictingLocks
  cases conflictingLock s.mapLockedInputs tx with
  | none => exact locksKept_of_eq rfl
  | some other =>
      intro txHash
      obtain ⟨first, hfirst⟩ :=
        find?_expireLock world s.mapTxLocks tx.getHash txHash
      obtain ⟨second, hsecond⟩ := find?_expireLock world
        (expireLock world s.mapTxLocks tx.getHash) other txHash
      refine ⟨fun lock => second { lock with nExpiration := first lock }, ?_⟩
      show (expireLock world _ other).find? txHash = _
      rw [hsecond, hfirst, Option.map_map]
      rfl

theorem checkForConflictingLocks_eq (world : World) (s : LockState)
    (tx : CTransaction) :
    (checkForConflictingLocks world s tx).1 = { s with
      mapTxLocks := (checkForConflictingLocks world s tx).1.mapTxLocks } := by
  unfold checkForConflictingLocks
  cases conflictingLock s.mapLockedInputs tx <;> rfl

@[simp] theorem checkForConflictingLocks_mapTxLockReq :
    (checkForConflictingLocks world s tx).1.mapTxLockReq = s.mapTxLockReq := by
  rw [checkForConflictingLocks_eq]

@[simp] theorem checkForConflictingLocks_mapTxLockReqRejected :
    (checkForConflictingLocks world s tx).1.mapTxLockReqRejected = s.mapTxLockReqRejected := by
  rw [checkForConflictingLocks_eq]

@[simp] theorem checkForConflictingLocks_mapTxLockVote :
    (checkForConflictingLocks world s tx).1.mapTxLockVote = s.mapTxLockVote := by
  rw [checkForConflictingLocks_eq]

@[simp] theorem checkForConflictingLocks_mapLockedInputs :
    (checkForConflictingLocks world s tx).1.mapLockedInputs = s.mapLockedInputs := by
  rw [checkForConflictingLocks_eq]

@[simp] theorem checkForConflictingLocks_signals :
    (checkForConflictingLocks world s tx).1.signals = s.signals := by
  rw [checkForConflictingLocks_eq]

theorem heightAndVotes_addVote :
    heightAndVotes (addVote world s ctx) txHash =
      if txHash = ctx.txHash then
        some (((heightAndVotes s txHash).map Prod.fst).getD 0,
          ((heightAndVotes s txHash).map Prod.snd).getD [] ++ [ctx])
      else heightAndVotes s txHash := by
  unfold addVote heightAndVotes
  by_cases hhash : txHash = ctx.txHash
  · subst hhash
    cases s.mapTxLocks.find? ctx.txHash <;>
      simp [newLock, CTransactionLock.addSignature]
  · simp [hhash, KeyedMap.find?_insert]

/-- All that refusing a request does. -/
structure Refused (s s' : LockState) (tx : CTransaction) : Prop where
  locks : LocksKept s s'
  rejected : s'.mapTxLockReqRejected =
    s.mapTxLockReqRejected.insert tx.getHash tx
  locked : s'.mapLockedInputs =
    lockInputs s.mapLockedInputs tx.vin tx.getHash
  votes : s'.mapTxLockVote = s.mapTxLockVote
  /-- A complete lock without a conflict makes the request a known one. -/
  requests : s'.mapTxLockReq =
    if SWIFTTX_SIGNATURES_REQUIRED ≤ signatures s tx.getHash ∧
      conflictingLock s.mapLockedInputs tx = none then
      s.mapTxLockReq.insert tx.getHash tx
    else s.mapTxLockReq
  signals : ∃ sent, s'.signals = s.signals ++ sent ∧
    ∀ signal ∈ sent, signal = .reprocessBlocks 15

/-- All that completing a lock does. -/
structure Completed (s s' : LockState) (txHash : Uint256) : Prop where
  locks : LocksKept s s'
  requests : s'.mapTxLockReq =
    s.mapTxLockReq.insert txHash (requestOf s txHash)
  rejected : s'.mapTxLockReqRejected = s.mapTxLockReqRejected
  votes : s'.mapTxLockVote = s.mapTxLockVote
  locked : s'.mapLockedInputs = s.mapLockedInputs ∨ s'.mapLockedInputs =
    lockInputs s.mapLockedInputs (requestOf s txHash).vin txHash
  signals : ∃ sent, s'.signals = s.signals ++ sent ∧
    ∀ signal ∈ sent, signal = .reprocessBlocks 15

theorem completeLock_completed (world : World) (s : LockState)
    (txHash : Uint256) : Completed s (completeLock world s txHash) txHash := by
  unfold completeLock
  have hkept : LocksKept s (checkForConflictingLocks world { s with
      mapTxLockReq := s.mapTxLockReq.insert txHash (requestOf s txHash) }
      (requestOf s txHash)).1 :=
    checkForConflictingLocks_kept world _ (requestOf s txHash)
  simp only
  split
  · exact ⟨hkept, by simp, by simp, by simp, Or.inl (by simp), [], by simp,
      by simp⟩
  · split
    · exact ⟨hkept, by simp [sendSignal], by simp [sendSignal],
        by simp [sendSignal], Or.inr (by simp [sendSignal]),
        [.reprocessBlocks 15], by simp [sendSignal], by simp⟩
    · exact ⟨hkept, by simp, by simp, by simp, Or.inr (by simp), [], by simp,
        by simp⟩

/-- All that removing the lock of `txHash` does. -/
structure Removed (s s' : LockState) (txHash : Uint256)
    (lock : CTransactionLock) : Prop where
  locks : s'.mapTxLocks = s.mapTxLocks.erase txHash
  requests : ∀ key, s'.mapTxLockReq.find? key =
    if key = txHash then none else s.mapTxLockReq.find? key
  rejected : ∀ key, key ≠ txHash →
    s'.mapTxLockReqRejected.find? key = s.mapTxLockReqRejected.find? key
  locked : ∀ out, s'.mapLockedInputs.find? out =
    if out ∈ ((s.mapTxLockReq.find? txHash).map fun tx =>
      tx.vin.map CTxIn.prevout).getD [] then none
    else s.mapLockedInputs.find? out
  votes : ∀ hash, s'.mapTxLockVote.find? hash =
    if (s.mapTxLockReq.find? txHash).isSome ∧
      hash ∈ lock.vecConsensusVotes.map CConsensusVote.getHash then none
    else s.mapTxLockVote.find? hash
  signals : s'.signals = s.signals

theorem Removed.heightAndVotes {s' : LockState} {lock : CTransactionLock}
    (h : Removed s s' txHash lock) (key : Uint256) :
    heightAndVotes s' key =
      if key = txHash then none else SwiftTX.heightAndVotes s key := by
  unfold SwiftTX.heightAndVotes
  rw [h.locks, KeyedMap.find?_erase]
  split <;> rfl

@[simp] theorem processConsensusVote_mapTxLockVote :
    (processConsensusVote world s ctx).1.mapTxLockVote = s.mapTxLockVote := by
  unfold processConsensusVote
  split
  · rfl
  · simp only
    split
    · rfl
    · exact (completeLock_completed world (addVote world s ctx)
        ctx.txHash).votes

theorem Removed.keyed {s' : LockState} {lock : CTransactionLock}
    (hremoved : Removed s s' txHash lock) (h : LocksKeyed s) :
    LocksKeyed s' := by
  intro key found hfound
  rw [hremoved.locks, KeyedMap.find?_erase] at hfound
  split at hfound
  · cases hfound
  · exact h key found hfound

end Operations

/-! ## A request and its votes -/

/-- A world that knows the coins and takes every masternode for the first. -/
def votingWorld : World where
  nChainHeight := 110
  coinsHeight := fun _ => some 100
  getMasternodeRank := fun _ _ => 1
  signatureValid := fun _ => true

end Agrarian.SwiftTX
