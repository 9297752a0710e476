import Agrarian.Lib.Run
import Agrarian.Masternode.Manager

/-!
# Broadcasts and pings of masternodes

`CMasternodeBroadcast` and `CMasternodePing` of `masternode.cpp`, and what
`ProcessMessage` of `masternodeman.cpp` does with the messages `mnb` and `mnp`.

A masternode stays enabled as long as its last ping is recent, and a ping is
signed with the key of the masternode.  A ping reaches the list alone, with a
broadcast that updates a masternode, or with a broadcast that adds one.  Only
the first way looks at the input and at the signature of every ping that it
stores.

Every message comes with the view of the node at that time.  The texts that are
signed are built from the texts of their parts, which are parameters, as is the
verification itself.  Relaying, the counters of the synchronization and the
times at which other nodes were asked for their lists are left out; an entry
keeps the time of its last check when the list is copied.
-/

namespace Agrarian.Masternode

open Agrarian.Lib

def MASTERNODE_MIN_CONFIRMATIONS : Int := 15
def MASTERNODE_MIN_MNB_SECONDS : Int := 5 * 60
def MIN_PEER_MNANNOUNCE : Int := 70913
def PROTOCOL_VERSION : Int := 70916

/-! ## The data -/

structure CService where
  ip : List UInt8 := []
  port : UInt16 := 0
  deriving DecidableEq, Repr

/-- `CMasternodePing` with its signature. -/
structure SignedPing extends CMasternodePing where
  vchSig : List UInt8 := []
  deriving DecidableEq, Repr

/-- `CMasternode` with its address and its keys; `vchSig` is the signature of
its last ping. -/
structure MasternodeEntry extends CMasternode where
  addr : CService := {}
  pubKeyMasternode : List UInt8 := []
  sig : List UInt8 := []
  vchSig : List UInt8 := []
  deriving DecidableEq, Repr

/-- A broadcast is a masternode. -/
abbrev CMasternodeBroadcast := MasternodeEntry

/-- `obfuScationSigner`, and the texts of what is signed. -/
structure ObfuScationSigner where
  verifyMessage : (pubKey vchSig strMessage : List UInt8) → Bool
  vinString : CTxIn → List UInt8
  hashString : Uint256 → List UInt8
  addrString : CService → List UInt8
  keyIDString : (pubKey : List UInt8) → List UInt8
  intString : Int → List UInt8

/-- The hashes under which seen messages are remembered. -/
structure MessageHashes where
  pingHash : (vin : CTxIn) → (sigTime : Int) → Uint256
  broadcastHash : (sigTime : Int) → (pubKeyCollateralAddress : List UInt8) → Uint256

/-- What a message finds besides the list. -/
structure MessageView extends NodeView where
  fLiteMode : Bool := false
  isBlockchainSynced : Bool := true
  /-- `Params().NetworkID() == CBaseChainParams::MAIN`. -/
  isMain : Bool := true
  /-- The height of a block of `mapBlockIndex`. -/
  mapBlockIndex : Uint256 → Option Int := fun _ => none
  isVinAssociatedWithPubkey : CTxIn → List UInt8 → Bool := fun _ _ => true
  /-- What `state.IsInvalid(nDoS)` sets when the input is not acceptable. -/
  inputDoS : CTxIn → Option Int := fun _ => none
  /-- The time of the block in which the transaction got
  `MASTERNODE_MIN_CONFIRMATIONS`. -/
  confTime : Uint256 → Option Int := fun _ => none
  fMasterNode : Bool := false
  /-- `activeMasternode.pubKeyMasternode`. -/
  activePubKey : List UInt8 := []

/-- The list, the messages that were seen, and the masternode of the node. -/
structure ManState where
  vMasternodes : List MasternodeEntry := []
  mapSeenMasternodeBroadcast : KeyedMap Uint256 CMasternodeBroadcast := KeyedMap.empty
  mapSeenMasternodePing : KeyedMap Uint256 SignedPing := KeyedMap.empty
  /-- `activeMasternode.vin`. -/
  activeVin : CTxIn := { prevout := COutPoint.null }
  /-- `activeMasternode.service`. -/
  activeService : CService := {}

/-- What a check returns, `nDos`, and the node after it. -/
structure Checked where
  ok : Bool
  nDos : Int
  state : ManState

/-! ## The first entry -/

/-- Changes the first entry with a property. -/
def modifyFirst {α : Type} (p : α → Bool) (f : α → α) : List α → List α
  | [] => []
  | x :: xs => if p x then f x :: xs else x :: modifyFirst p f xs

theorem forall_modifyFirst_iff {α : Type} {p : α → Bool} {f : α → α} {P : α → Prop}
    {l : List α} (h : ∀ x ∈ l, P x) :
    (∀ x ∈ modifyFirst p f l, P x) ↔ ∀ x, l.find? p = some x → P (f x) := by
  induction l with
  | nil => simp [modifyFirst]
  | cons x xs ih =>
      have hx : P x := h x (by simp)
      have hxs : ∀ y ∈ xs, P y := fun y hy => h y (by simp [hy])
      by_cases hp : p x = true
      · simp only [modifyFirst, if_pos hp, List.find?_cons_of_pos hp, List.forall_mem_cons,
          Option.some.injEq, forall_eq']
        exact ⟨fun hall => hall.1, fun hfx => ⟨hfx, hxs⟩⟩
      · rw [modifyFirst, if_neg hp, List.find?_cons_of_neg hp, List.forall_mem_cons, ih hxs]
        exact ⟨fun hall => hall.2, fun hall => ⟨hx, hall⟩⟩

theorem find?_modifyFirst_self {α : Type} {p : α → Bool} {f : α → α}
    (hf : ∀ x, p (f x) = p x) (l : List α) :
    (modifyFirst p f l).find? p = (l.find? p).map f := by
  induction l with
  | nil => rfl
  | cons x xs ih =>
      by_cases hp : p x = true
      · simp [modifyFirst, hp, hf]
      · simp [modifyFirst, hp, ih]

theorem find?_modifyFirst_of_apart {α : Type} {p q : α → Bool} {f : α → α}
    (hf : ∀ x, q (f x) = q x) (hapart : ∀ x, p x = true → q x = false) (l : List α) :
    (modifyFirst p f l).find? q = l.find? q := by
  induction l with
  | nil => rfl
  | cons x xs ih =>
      by_cases hp : p x = true
      · simp [modifyFirst, hp, hf, hapart]
      · rw [modifyFirst, if_neg hp, List.find?_cons, List.find?_cons, ih]

theorem modifyFirst_modifyFirst {α : Type} {p : α → Bool} {f g : α → α}
    (hf : ∀ x, p (f x) = p x) (l : List α) :
    modifyFirst p g (modifyFirst p f l) = modifyFirst p (fun x => g (f x)) l := by
  induction l with
  | nil => rfl
  | cons x xs ih =>
      by_cases hp : p x = true
      · simp [modifyFirst, hp, hf]
      · simp [modifyFirst, hp, ih]

/-! ## Entries -/

namespace MasternodeEntry

/-- `lastPing`. -/
def ping (mn : MasternodeEntry) : SignedPing :=
  { mn.lastPing with vchSig := mn.vchSig }

/-- `lastPing = ping`. -/
def setPing (ping : SignedPing) (mn : MasternodeEntry) : MasternodeEntry :=
  { mn with lastPing := ping.toCMasternodePing, vchSig := ping.vchSig }

@[simp] theorem setPing_vin (ping : SignedPing) (mn : MasternodeEntry) :
    (mn.setPing ping).vin = mn.vin := rfl

@[simp] theorem setPing_ping (ping : SignedPing) (mn : MasternodeEntry) :
    (mn.setPing ping).ping = ping := rfl

@[simp] theorem setPing_pubKeyMasternode (ping : SignedPing) (mn : MasternodeEntry) :
    (mn.setPing ping).pubKeyMasternode = mn.pubKeyMasternode := rfl

section Checks

variable (node : MessageView)

/-- `Check`. -/
def checkEntry (forceCheck : Bool) (mn : MasternodeEntry) : MasternodeEntry :=
  { mn with toCMasternode := mn.toCMasternode.check node.toNodeView forceCheck }

theorem check_lastPing (mn : CMasternode) (forceCheck : Bool) :
    (mn.check node.toNodeView forceCheck).lastPing = mn.lastPing := by
  unfold CMasternode.check
  split_ifs <;> rfl

@[simp] theorem checkEntry_vin (forceCheck : Bool) (mn : MasternodeEntry) :
    (mn.checkEntry node forceCheck).vin = mn.vin :=
  CMasternode.check_vin _ _ _

@[simp] theorem checkEntry_ping (forceCheck : Bool) (mn : MasternodeEntry) :
    (mn.checkEntry node forceCheck).ping = mn.ping := by
  simp [ping, checkEntry, check_lastPing]

@[simp] theorem checkEntry_pubKeyMasternode (forceCheck : Bool) (mn : MasternodeEntry) :
    (mn.checkEntry node forceCheck).pubKeyMasternode = mn.pubKeyMasternode := rfl

/-- `IsPingedWithin` for a time that may be given. -/
def isPingedWithinTime (mn : MasternodeEntry) (seconds now : Int) : Bool :=
  let now := if now = -1 then node.getAdjustedTime else now
  if mn.lastPing.same {} then false else now - mn.lastPing.sigTime < seconds

def isBroadcastedWithin (mn : MasternodeEntry) (seconds : Int) : Bool :=
  node.getAdjustedTime - mn.sigTime < seconds

end Checks

/-- What `UpdateFromNewBroadcast` takes from a broadcast besides the ping. -/
def takeBroadcast (mnb : CMasternodeBroadcast) (mn : MasternodeEntry) : MasternodeEntry :=
  { mn with
    pubKeyMasternode := mnb.pubKeyMasternode
    pubKeyCollateralAddress := mnb.pubKeyCollateralAddress
    sigTime := mnb.sigTime
    sig := mnb.sig
    protocolVersion := mnb.protocolVersion
    addr := mnb.addr
    lastTimeChecked := 0 }

@[simp] theorem takeBroadcast_vin (mnb mn : MasternodeEntry) :
    (takeBroadcast mnb mn).vin = mn.vin := rfl

@[simp] theorem takeBroadcast_ping (mnb mn : MasternodeEntry) :
    (takeBroadcast mnb mn).ping = mn.ping := rfl

@[simp] theorem takeBroadcast_pubKeyMasternode (mnb mn : MasternodeEntry) :
    (takeBroadcast mnb mn).pubKeyMasternode = mnb.pubKeyMasternode := rfl

/-- The constructor of `CMasternode` from a broadcast. -/
def ofBroadcast (mnb : CMasternodeBroadcast) : MasternodeEntry :=
  { mnb with
    activeState := .MASTERNODE_ENABLED
    cacheInputAge := 0
    cacheInputAgeBlock := 0
    unitTest := false
    lastTimeChecked := 0 }

end MasternodeEntry

/-! ## Messages -/

section Messages

variable (signer : ObfuScationSigner) (hashes : MessageHashes) (node : MessageView)

namespace SignedPing

def getHash (ping : SignedPing) : Uint256 := hashes.pingHash ping.vin ping.sigTime

def strMessage (ping : SignedPing) : List UInt8 :=
  signer.vinString ping.vin ++ signer.hashString ping.blockHash ++
    signer.intString ping.sigTime

def verifySignature (ping : SignedPing) (pubKeyMasternode : List UInt8) : Bool :=
  signer.verifyMessage pubKeyMasternode ping.vchSig (ping.strMessage signer)

/-- `sigTime` is neither too far in the future nor in the past. -/
def inTime (ping : SignedPing) : Bool :=
  ping.sigTime ≤ node.getAdjustedTime + 60 * 60 &&
    node.getAdjustedTime - 60 * 60 < ping.sigTime

/-- The block of the ping is known and not too old. -/
def blockRecent (ping : SignedPing) : Bool :=
  match node.mapBlockIndex ping.blockHash with
  | some nHeight => node.hashes.nTip - 24 ≤ nHeight
  | none => false

end SignedPing

namespace MasternodeEntry

/-- The hash of a broadcast. -/
def getHash (mnb : CMasternodeBroadcast) : Uint256 :=
  hashes.broadcastHash mnb.sigTime mnb.pubKeyCollateralAddress

def getOldStrMessage (mnb : CMasternodeBroadcast) : List UInt8 :=
  signer.addrString mnb.addr ++ signer.intString mnb.sigTime ++
    mnb.pubKeyCollateralAddress ++ mnb.pubKeyMasternode ++
    signer.intString mnb.protocolVersion

def getNewStrMessage (mnb : CMasternodeBroadcast) : List UInt8 :=
  signer.addrString mnb.addr ++ signer.intString mnb.sigTime ++
    signer.keyIDString mnb.pubKeyCollateralAddress ++
    signer.keyIDString mnb.pubKeyMasternode ++ signer.intString mnb.protocolVersion

end MasternodeEntry

namespace ManState

/-- `Find` for an input. -/
def find (s : ManState) (vin : CTxIn) : Option MasternodeEntry :=
  s.vMasternodes.find? fun mn => mn.vin.prevout = vin.prevout

/-- Changes the entry that `find` finds. -/
def modify (s : ManState) (vin : CTxIn) (f : MasternodeEntry → MasternodeEntry) :
    ManState :=
  { s with
    vMasternodes :=
      modifyFirst (fun mn => mn.vin.prevout = vin.prevout) f s.vMasternodes }

/-- `Remove`. -/
def remove (s : ManState) (vin : CTxIn) : ManState :=
  { s with vMasternodes := s.vMasternodes.eraseP fun mn => mn.vin = vin }

/-- `Add`. -/
def add (s : ManState) (mn : MasternodeEntry) : ManState :=
  if !mn.isEnabled then s
  else
    match s.find mn.vin with
    | none => { s with vMasternodes := s.vMasternodes ++ [mn] }
    | some _ => s

/-- Remembers a ping; a ping that is known keeps its place. -/
def seePing (s : ManState) (ping : SignedPing) : ManState :=
  match s.mapSeenMasternodePing.find? (ping.getHash hashes) with
  | none =>
      { s with mapSeenMasternodePing :=
          s.mapSeenMasternodePing.insert (ping.getHash hashes) ping }
  | some _ => s

def seeBroadcast (s : ManState) (mnb : CMasternodeBroadcast) : ManState :=
  { s with mapSeenMasternodeBroadcast :=
      s.mapSeenMasternodeBroadcast.insert (mnb.getHash hashes) mnb }

/-- Forgets a broadcast, so that it is looked at again. -/
def eraseSeen (s : ManState) (hash : Uint256) : ManState :=
  { s with mapSeenMasternodeBroadcast := s.mapSeenMasternodeBroadcast.erase hash }

/-- The ping of an entry in `mapSeenMasternodeBroadcast`. -/
def refreshSeen (s : ManState) (pmn : MasternodeEntry) (ping : SignedPing) : ManState :=
  match s.mapSeenMasternodeBroadcast.find? (pmn.getHash hashes) with
  | none => s
  | some mnb =>
      { s with mapSeenMasternodeBroadcast :=
          s.mapSeenMasternodeBroadcast.insert (pmn.getHash hashes) (mnb.setPing ping) }

end ManState

namespace SignedPing

/-- A ping that is only compared with the key of the masternode it names. -/
def checkSigTimeOnly (ping : SignedPing) (s : ManState) : Bool :=
  match s.find ping.vin with
  | some pmn => ping.verifySignature signer pmn.pubKeyMasternode
  | none => true

/-- `CheckAndUpdate` of a ping. -/
def checkAndUpdate (ping : SignedPing) (nDos : Int) (fRequireEnabled fCheckSigTimeOnly : Bool)
    (s : ManState) : Checked :=
  if !ping.inTime node then ⟨false, 1, s⟩
  else if fCheckSigTimeOnly then
    if ping.checkSigTimeOnly signer s then ⟨true, nDos, s⟩ else ⟨false, 33, s⟩
  else
    match s.find ping.vin with
    | none => ⟨false, nDos, s⟩
    | some pmn =>
        if pmn.protocolVersion < node.minPaymentsProto then ⟨false, nDos, s⟩
        else if fRequireEnabled && !pmn.isEnabled then ⟨false, nDos, s⟩
        else if pmn.isPingedWithinTime node (MASTERNODE_MIN_MNP_SECONDS - 60) ping.sigTime then
          ⟨false, nDos, s⟩
        else if !ping.verifySignature signer pmn.pubKeyMasternode then ⟨false, 33, s⟩
        else if !ping.blockRecent node then ⟨false, nDos, s⟩
        else
          let checked := (pmn.setPing ping).checkEntry node true
          let s := s.modify ping.vin fun mn => (mn.setPing ping).checkEntry node true
          ⟨checked.isEnabled, nDos, s.refreshSeen hashes pmn ping⟩

end SignedPing

namespace MasternodeEntry

/-- The checks of `CheckAndUpdate` that look neither at the ping nor at the
list: what `nDos` is when one of them fails. -/
def rejects (mnb : CMasternodeBroadcast) (nDos : Int) : Option Int :=
  if mnb.protocolVersion < node.minPaymentsProto then some nDos
  else if (node.scriptForKey mnb.pubKeyCollateralAddress).length ≠ 25 then some 100
  else if (node.scriptForKey mnb.pubKeyMasternode).length ≠ 25 then some 100
  else if mnb.vin.scriptSig ≠ [] then some nDos
  else if !signer.verifyMessage mnb.pubKeyCollateralAddress mnb.sig
        (mnb.getNewStrMessage signer) &&
      !signer.verifyMessage mnb.pubKeyCollateralAddress mnb.sig
        (mnb.getOldStrMessage signer) then
    some (if mnb.protocolVersion < MIN_PEER_MNANNOUNCE then 0 else 100)
  else if node.isMain then if mnb.addr.port ≠ 51336 then some nDos else none
  else if mnb.addr.port = 51336 then some nDos
  else none

/-- `UpdateFromNewBroadcast` of the entry with the input of the broadcast. -/
def updateFromNewBroadcast (pmn : MasternodeEntry) (mnb : CMasternodeBroadcast)
    (s : ManState) : Bool × ManState :=
  if pmn.sigTime < mnb.sigTime then
    let s := s.modify mnb.vin (takeBroadcast mnb)
    if mnb.lastPing.same {} then
      (true, (s.modify mnb.vin (setPing mnb.ping)).seePing hashes mnb.ping)
    else
      let checked := mnb.ping.checkAndUpdate signer hashes node 0 false false s
      if checked.ok then
        (true, (checked.state.modify mnb.vin (setPing mnb.ping)).seePing hashes mnb.ping)
      else (true, checked.state)
  else (false, s)

/-- `CheckAndUpdate` of a broadcast. -/
def checkAndUpdate (mnb : CMasternodeBroadcast) (nDos : Int) (s : ManState) : Checked :=
  if node.getAdjustedTime + 60 * 60 < mnb.sigTime then ⟨false, 1, s⟩
  else if mnb.lastPing.same {} then ⟨false, nDos, s⟩
  else
    let checked := mnb.ping.checkAndUpdate signer hashes node nDos false true s
    if !checked.ok then checked
    else
      match mnb.rejects signer node checked.nDos with
      | some nDos => ⟨false, nDos, s⟩
      | none =>
          match s.find mnb.vin with
          | none => ⟨true, checked.nDos, s⟩
          | some pmn =>
              if mnb.sigTime ≤ pmn.sigTime then ⟨false, checked.nDos, s⟩
              else if !pmn.isEnabled then ⟨true, checked.nDos, s⟩
              else if pmn.pubKeyCollateralAddress = mnb.pubKeyCollateralAddress &&
                  !pmn.isBroadcastedWithin node MASTERNODE_MIN_MNB_SECONDS then
                let updated := pmn.updateFromNewBroadcast signer hashes node mnb s
                if updated.1 then
                  ⟨true, checked.nDos, updated.2.modify mnb.vin (checkEntry node false)⟩
                else ⟨true, checked.nDos, updated.2⟩
              else ⟨true, checked.nDos, s⟩

/-- The broadcast is for the masternode that this node is. -/
def isOwn (mnb : CMasternodeBroadcast) (s : ManState) : Bool :=
  node.fMasterNode && mnb.vin.prevout = s.activeVin.prevout &&
    mnb.pubKeyMasternode = node.activePubKey

/-- `EnableHotColdMasterNode` for a broadcast with the key of this node. -/
def enableHotCold (mnb : CMasternodeBroadcast) (s : ManState) : ManState :=
  if mnb.pubKeyMasternode = node.activePubKey &&
      mnb.protocolVersion = PROTOCOL_VERSION && node.fMasterNode then
    { s with activeVin := mnb.vin, activeService := mnb.addr }
  else s

/-- The time of the broadcast is not before the collateral was confirmed. -/
def timeConfirmed (mnb : CMasternodeBroadcast) : Bool :=
  match node.confTime mnb.vin.prevout.hash with
  | some nTime => nTime ≤ mnb.sigTime
  | none => true

/-- The list without the disabled entry with the input of the broadcast. -/
def makeRoom (mnb : CMasternodeBroadcast) (s : ManState) : ManState :=
  match s.find mnb.vin with
  | some pmn => s.remove pmn.vin
  | none => s

/-- The checks of `CheckInputsAndAdd` after a disabled entry was removed. -/
def addToList (mnb : CMasternodeBroadcast) (nDos : Int) (s : ManState) : Checked :=
  if !node.fLocked then ⟨false, nDos, s.eraseSeen (mnb.getHash hashes)⟩
  else if !node.acceptableInputs mnb.vin then
    ⟨false, (node.inputDoS mnb.vin).getD nDos, s⟩
  else if node.getInputAge mnb.vin < MASTERNODE_MIN_CONFIRMATIONS then
    ⟨false, nDos, s.eraseSeen (mnb.getHash hashes)⟩
  else if !mnb.timeConfirmed node then ⟨false, nDos, s⟩
  else ⟨true, nDos, mnb.enableHotCold node (s.add (ofBroadcast mnb))⟩

def checkInputsAndAdd (mnb : CMasternodeBroadcast) (nDos : Int) (s : ManState) : Checked :=
  if mnb.isOwn node s then ⟨true, nDos, s⟩
  else if mnb.lastPing.same {} then ⟨false, nDos, s⟩
  else
    let checked := mnb.ping.checkAndUpdate signer hashes node nDos false true s
    if !checked.ok then checked
    else
      match s.find mnb.vin with
      | some pmn =>
          if pmn.isEnabled then ⟨true, checked.nDos, s⟩
          else mnb.addToList hashes node checked.nDos (mnb.makeRoom s)
      | none => mnb.addToList hashes node checked.nDos (mnb.makeRoom s)

end MasternodeEntry

/-! ## `ProcessMessage` -/

inductive MasternodeMessage
  | mnb (mnb : CMasternodeBroadcast)
  | mnp (mnp : SignedPing)

/-- What a message leaves: the node, the score for `Misbehaving`, and the input
that is asked for. -/
structure Processed where
  state : ManState
  misbehaving : Int := 0
  askForMN : Option CTxIn := none

namespace ManState

def processBroadcast (mnb : CMasternodeBroadcast) (s : ManState) : Processed :=
  match s.mapSeenMasternodeBroadcast.find? (mnb.getHash hashes) with
  | some _ => { state := s }
  | none =>
      let s := s.seeBroadcast hashes mnb
      let checked := mnb.checkAndUpdate signer hashes node 0 s
      if !checked.ok then { state := checked.state, misbehaving := checked.nDos }
      else if !node.isVinAssociatedWithPubkey mnb.vin mnb.pubKeyCollateralAddress then
        { state := checked.state, misbehaving := 33 }
      else
        let added := mnb.checkInputsAndAdd signer hashes node checked.nDos checked.state
        if added.ok then { state := added.state }
        else { state := added.state, misbehaving := added.nDos }

def processPing (mnp : SignedPing) (s : ManState) : Processed :=
  match s.mapSeenMasternodePing.find? (mnp.getHash hashes) with
  | some _ => { state := s }
  | none =>
      let s := s.seePing hashes mnp
      let checked := mnp.checkAndUpdate signer hashes node 0 true false s
      if checked.ok then { state := checked.state }
      else if 0 < checked.nDos then
        { state := checked.state, misbehaving := checked.nDos, askForMN := some mnp.vin }
      else if (checked.state.find mnp.vin).isSome then { state := checked.state }
      else { state := checked.state, askForMN := some mnp.vin }

def processMessage (message : MasternodeMessage) (s : ManState) : Processed :=
  if node.fLiteMode || !node.isBlockchainSynced then { state := s }
  else
    match message with
    | .mnb mnb => s.processBroadcast signer hashes node mnb
    | .mnp mnp => s.processPing signer hashes node mnp

/-- The entry is removed by `CheckAndRemove`. -/
def isOutdated (forceExpiredRemoval : Bool) (mn : MasternodeEntry) : Bool :=
  mn.activeState = .MASTERNODE_REMOVE || mn.activeState = .MASTERNODE_VIN_SPENT ||
    (forceExpiredRemoval && mn.activeState = .MASTERNODE_EXPIRED) ||
    mn.protocolVersion < node.minPaymentsProto

/-- The messages of a map that do not have a property. -/
def eraseWhere {β : Type} (old : β → Bool) (seen : KeyedMap Uint256 β) :
    KeyedMap Uint256 β :=
  seen.eraseAll ((seen.toList.filter fun entry => old entry.2).map Prod.fst)

def checkAndRemove (forceExpiredRemoval : Bool) (s : ManState) : ManState :=
  let mns := s.vMasternodes.map (MasternodeEntry.checkEntry node false)
  let removed := mns.filter (isOutdated node forceExpiredRemoval)
  let oldest := node.getTime - MASTERNODE_REMOVAL_SECONDS * 2
  { s with
    vMasternodes := mns.filter fun mn => !isOutdated node forceExpiredRemoval mn
    mapSeenMasternodeBroadcast :=
      eraseWhere (fun mnb => mnb.lastPing.sigTime < oldest)
        (eraseWhere (fun mnb => removed.any fun mn => mnb.vin = mn.vin)
          s.mapSeenMasternodeBroadcast)
    mapSeenMasternodePing :=
      eraseWhere (fun ping => ping.sigTime < oldest) s.mapSeenMasternodePing }

end ManState

end Messages

/-! ## What a message changes in the list -/

section List

variable {signer : ObfuScationSigner} {hashes : MessageHashes} {node : MessageView}

namespace ManState

variable (hashes) in
@[simp] theorem seePing_vMasternodes (s : ManState) (ping : SignedPing) :
    (s.seePing hashes ping).vMasternodes = s.vMasternodes := by
  unfold seePing
  split <;> rfl

variable (hashes) in
@[simp] theorem seeBroadcast_vMasternodes (s : ManState) (mnb : CMasternodeBroadcast) :
    (s.seeBroadcast hashes mnb).vMasternodes = s.vMasternodes := rfl

@[simp] theorem eraseSeen_vMasternodes (s : ManState) (hash : Uint256) :
    (s.eraseSeen hash).vMasternodes = s.vMasternodes := rfl

@[simp] theorem refreshSeen_vMasternodes (s : ManState) (pmn : MasternodeEntry)
    (ping : SignedPing) :
    (s.refreshSeen hashes pmn ping).vMasternodes = s.vMasternodes := by
  unfold refreshSeen
  split <;> rfl

theorem find_congr {s t : ManState} (h : s.vMasternodes = t.vMasternodes) (vin : CTxIn) :
    s.find vin = t.find vin := by
  rw [find, find, h]

theorem find_prevout {s : ManState} {vin : CTxIn} {mn : MasternodeEntry}
    (hfind : s.find vin = some mn) : mn.vin.prevout = vin.prevout := by
  simpa using List.find?_some hfind

theorem mem_of_find {s : ManState} {vin : CTxIn} {mn : MasternodeEntry}
    (hfind : s.find vin = some mn) : mn ∈ s.vMasternodes :=
  List.mem_of_find?_eq_some hfind

theorem modify_congr {s t : ManState} (h : s.vMasternodes = t.vMasternodes) (vin : CTxIn)
    (f : MasternodeEntry → MasternodeEntry) :
    (s.modify vin f).vMasternodes = (t.modify vin f).vMasternodes := by
  simp only [modify, h]

/-- Entries keep their inputs. -/
def KeepsVin (f : MasternodeEntry → MasternodeEntry) : Prop := ∀ mn, (f mn).vin = mn.vin

theorem find_modify_self {f : MasternodeEntry → MasternodeEntry} (hf : KeepsVin f)
    (s : ManState) (vin : CTxIn) :
    (s.modify vin f).find vin = (s.find vin).map f := by
  apply find?_modifyFirst_self
  intro mn
  rw [hf mn]

theorem find_modify_of_ne {f : MasternodeEntry → MasternodeEntry} (hf : KeepsVin f)
    (s : ManState) {vin other : CTxIn} (hne : other.prevout ≠ vin.prevout) :
    (s.modify vin f).find other = s.find other := by
  apply find?_modifyFirst_of_apart
  · intro mn
    rw [hf mn]
  · intro mn hmn
    have hprevout : mn.vin.prevout = vin.prevout := by simpa using hmn
    simpa [hprevout] using hne.symm

/-- Changes of entries with one output. -/
theorem modify_modify {f g : MasternodeEntry → MasternodeEntry} (hf : KeepsVin f)
    (s : ManState) {vin other : CTxIn} (h : other.prevout = vin.prevout) :
    (s.modify vin f).modify other g = s.modify vin fun mn => g (f mn) := by
  have hsame := modifyFirst_modifyFirst
    (p := fun mn : MasternodeEntry => mn.vin.prevout = vin.prevout) (f := f) (g := g)
    (fun mn => by rw [hf mn]) s.vMasternodes
  simp only [modify, h, hsame]

end ManState

namespace SignedPing

variable (signer) (hashes) (node) in
/-- With `fCheckSigTimeOnly` nothing changes. -/
theorem checkAndUpdate_sigTimeOnly (ping : SignedPing) (nDos : Int) (fRequireEnabled : Bool)
    (s : ManState) :
    (ping.checkAndUpdate signer hashes node nDos fRequireEnabled true s).state = s ∧
      (ping.checkAndUpdate signer hashes node nDos fRequireEnabled true s).ok =
        (ping.inTime node && ping.checkSigTimeOnly signer s) := by
  unfold checkAndUpdate
  by_cases htime : ping.inTime node = true
  · by_cases hsigned : ping.checkSigTimeOnly signer s = true
    · simp [htime, hsigned]
    · simp [htime, hsigned]
  · simp [htime]

end SignedPing

variable (signer) (node) in
/-- The entry stores a ping for its output. -/
def MasternodeEntry.takesPing (ping : SignedPing) (fRequireEnabled : Bool)
    (pmn : MasternodeEntry) : Bool :=
  ping.inTime node && node.minPaymentsProto ≤ pmn.protocolVersion &&
    (!fRequireEnabled || pmn.isEnabled) &&
    !pmn.isPingedWithinTime node (MASTERNODE_MIN_MNP_SECONDS - 60) ping.sigTime &&
    ping.verifySignature signer pmn.pubKeyMasternode && ping.blockRecent node

namespace SignedPing

variable (hashes) in
theorem checkAndUpdate_of_takes {ping : SignedPing} (nDos : Int) {fRequireEnabled : Bool}
    {s : ManState} {pmn : MasternodeEntry} (hfind : s.find ping.vin = some pmn)
    (htakes : pmn.takesPing signer node ping fRequireEnabled = true) :
    let checked := ping.checkAndUpdate signer hashes node nDos fRequireEnabled false s
    checked.ok = ((pmn.setPing ping).checkEntry node true).isEnabled ∧
      checked.state.vMasternodes = (s.modify ping.vin fun mn =>
        (mn.setPing ping).checkEntry node true).vMasternodes := by
  simp only [MasternodeEntry.takesPing, Bool.and_eq_true, Bool.or_eq_true,
    Bool.not_eq_true', decide_eq_true_eq] at htakes
  obtain ⟨⟨⟨⟨⟨htime, hproto⟩, henabled⟩, hrecent⟩, hsigned⟩, hblock⟩ := htakes
  have henabled' : ¬ (fRequireEnabled && !pmn.isEnabled) = true := by
    rcases henabled with h | h <;> simp [h]
  simp only [checkAndUpdate, hfind, htime, hrecent, hsigned, hblock, if_neg henabled',
    if_neg (not_lt.mpr hproto)]
  simp

variable (hashes) in
theorem checkAndUpdate_of_not_takes {ping : SignedPing} (nDos : Int) {fRequireEnabled : Bool}
    {s : ManState} (h : ∀ pmn, s.find ping.vin = some pmn →
      ¬ pmn.takesPing signer node ping fRequireEnabled = true) :
    let checked := ping.checkAndUpdate signer hashes node nDos fRequireEnabled false s
    checked.ok = false ∧ checked.state = s := by
  simp only [checkAndUpdate, Bool.false_eq_true, if_false]
  cases hfind : s.find ping.vin with
  | none =>
      simp only
      split_ifs <;> simp
  | some pmn =>
      have hnot := h pmn hfind
      simp only [MasternodeEntry.takesPing, Bool.and_eq_true, Bool.or_eq_true,
        Bool.not_eq_true', decide_eq_true_eq] at hnot
      simp only
      split_ifs with htime hproto henabled hrecent hsigned hblock
      · simp
      · simp
      · simp
      · simp
      · simp
      · simp
      · have hneed : fRequireEnabled = false ∨ pmn.isEnabled = true := by
          cases fRequireEnabled with
          | false => exact Or.inl rfl
          | true => exact Or.inr (by simpa using henabled)
        exact absurd ⟨⟨⟨⟨⟨by simpa using htime, not_lt.mp hproto⟩, hneed⟩,
          by simpa using hrecent⟩, by simpa using hsigned⟩, by simpa using hblock⟩ hnot

end SignedPing

/-! ## The broadcast that updates -/

namespace MasternodeEntry

theorem rejects_isNone (mnb : CMasternodeBroadcast) (nDos nDos' : Int)
    (h : mnb.rejects signer node nDos = none) : mnb.rejects signer node nDos' = none := by
  unfold rejects at h ⊢
  -- a check that fails gives a result whatever `nDos` is
  have hpass : ∀ {c : Prop} [Decidable c] {a rest : Option Int}, a ≠ none →
      (if c then a else rest) = none → ¬ c ∧ rest = none := by
    intro c _ a rest ha hif
    by_cases hc : c
    · rw [if_pos hc] at hif
      exact absurd hif ha
    · rw [if_neg hc] at hif
      exact ⟨hc, hif⟩
  obtain ⟨hprotocol, h⟩ := hpass (Option.some_ne_none _) h
  obtain ⟨hcollateral, h⟩ := hpass (Option.some_ne_none _) h
  obtain ⟨hmasternode, h⟩ := hpass (Option.some_ne_none _) h
  obtain ⟨hscript, h⟩ := hpass (Option.some_ne_none _) h
  obtain ⟨hsigned, h⟩ := hpass (Option.some_ne_none _) h
  rw [if_neg hprotocol, if_neg hcollateral, if_neg hmasternode, if_neg hscript, if_neg hsigned]
  by_cases hmain : node.isMain = true
  · rw [if_pos hmain] at h ⊢
    rw [if_neg (hpass (Option.some_ne_none _) h).1]
  · rw [if_neg hmain] at h ⊢
    rw [if_neg (hpass (Option.some_ne_none _) h).1]

variable (signer) (node) in
/-- The broadcast updates the entry with its input. -/
def updates (mnb : CMasternodeBroadcast) (s : ManState) (pmn : MasternodeEntry) : Bool :=
  mnb.sigTime ≤ node.getAdjustedTime + 60 * 60 && !mnb.lastPing.same {} &&
    mnb.ping.inTime node && mnb.ping.checkSigTimeOnly signer s &&
    (mnb.rejects signer node 0).isNone && pmn.sigTime < mnb.sigTime && pmn.isEnabled &&
    pmn.pubKeyCollateralAddress = mnb.pubKeyCollateralAddress &&
    !pmn.isBroadcastedWithin node MASTERNODE_MIN_MNB_SECONDS

theorem checkAndUpdate_of_updates {mnb : CMasternodeBroadcast} (nDos : Int) {s : ManState}
    {pmn : MasternodeEntry} (hfind : s.find mnb.vin = some pmn)
    (hupdates : mnb.updates signer node s pmn = true) :
    (mnb.checkAndUpdate signer hashes node nDos s).state =
      (pmn.updateFromNewBroadcast signer hashes node mnb s).2.modify mnb.vin
        (checkEntry node false) := by
  simp only [updates, Bool.and_eq_true, Bool.not_eq_true', decide_eq_true_eq,
    Option.isNone_iff_eq_none] at hupdates
  obtain ⟨⟨⟨⟨⟨⟨⟨⟨hfuture, hping⟩, htime⟩, hsigned⟩, hreject⟩, hnewer⟩,
    henabled⟩, hkey⟩, hbroadcast⟩ := hupdates
  obtain ⟨hstate, hok⟩ := SignedPing.checkAndUpdate_sigTimeOnly signer hashes node
    mnb.ping nDos false s
  rw [htime, hsigned] at hok
  have htrue : (pmn.updateFromNewBroadcast signer hashes node mnb s).1 = true := by
    unfold updateFromNewBroadcast
    simp only [if_pos hnewer]
    split_ifs <;> rfl
  unfold checkAndUpdate
  simp only [if_neg (not_lt.mpr hfuture), hping, hok, hfind, henabled, hkey, hbroadcast,
    if_neg (not_le.mpr hnewer), rejects_isNone mnb 0 _ hreject, htrue]
  simp

theorem checkAndUpdate_of_not_updates {mnb : CMasternodeBroadcast} (nDos : Int) {s : ManState}
    (h : ∀ pmn, s.find mnb.vin = some pmn → ¬ mnb.updates signer node s pmn = true) :
    (mnb.checkAndUpdate signer hashes node nDos s).state = s := by
  obtain ⟨hstate, hok⟩ := SignedPing.checkAndUpdate_sigTimeOnly signer hashes node
    mnb.ping nDos false s
  unfold checkAndUpdate
  by_cases hfuture : node.getAdjustedTime + 60 * 60 < mnb.sigTime
  · rw [if_pos hfuture]
  rw [if_neg hfuture]
  by_cases hping : mnb.lastPing.same {} = true
  · rw [if_pos hping]
  simp only [if_neg hping]
  generalize mnb.ping.checkAndUpdate signer hashes node nDos false true s = checked at hstate hok
  by_cases hchecked : checked.ok = true
  · simp only [hchecked, Bool.not_true, Bool.false_eq_true, if_false]
    rw [hchecked] at hok
    obtain ⟨htime, hsigned⟩ := Bool.and_eq_true_iff.mp hok.symm
    cases hreject : mnb.rejects signer node checked.nDos with
    | some nDos => rfl
    | none =>
        cases hfind : s.find mnb.vin with
        | none => rfl
        | some pmn =>
            have hnot := h pmn hfind
            simp only
            by_cases hnewer : mnb.sigTime ≤ pmn.sigTime
            · rw [if_pos hnewer]
            by_cases henabled : pmn.isEnabled = true
            · rw [if_neg hnewer, if_neg (by simp [henabled]), if_neg]
              intro hupdate
              obtain ⟨hkey, hbroadcast⟩ := Bool.and_eq_true_iff.mp hupdate
              apply hnot
              simp only [updates, htime, hsigned, rejects_isNone mnb _ 0 hreject, hping,
                not_lt.mp hfuture, not_le.mp hnewer, henabled, hkey, hbroadcast]
              rfl
            · rw [if_neg hnewer, if_pos (by simp [henabled])]
  · simp [hchecked, hstate]

end MasternodeEntry

/-! ## Entries with pings of their own -/

variable (signer) in
/-- The last ping of the entry is for its input and signed with its key. -/
def MasternodeEntry.PingSound (mn : MasternodeEntry) : Prop :=
  mn.ping.vin = mn.vin ∧ mn.ping.verifySignature signer mn.pubKeyMasternode = true

variable (signer) in
def ManState.PingsSound (s : ManState) : Prop :=
  ∀ mn ∈ s.vMasternodes, mn.PingSound signer

namespace ManState

theorem pingsSound_congr {s t : ManState} (h : s.vMasternodes = t.vMasternodes) :
    s.PingsSound signer ↔ t.PingsSound signer := by
  rw [PingsSound, PingsSound, h]

theorem pingsSound_modify_iff {s : ManState} (hs : s.PingsSound signer) (vin : CTxIn)
    (f : MasternodeEntry → MasternodeEntry) :
    (s.modify vin f).PingsSound signer ↔
      ∀ mn, s.find vin = some mn → (f mn).PingSound signer :=
  forall_modifyFirst_iff hs

end ManState

variable (hashes) (node) in
/-- A ping that arrives alone. -/
theorem ping_sound_iff {s : ManState} (hs : s.PingsSound signer) (ping : SignedPing)
    (nDos : Int) (fRequireEnabled : Bool) :
    (ping.checkAndUpdate signer hashes node nDos fRequireEnabled false s).state.PingsSound
        signer ↔
      ∀ pmn, s.find ping.vin = some pmn →
        pmn.takesPing signer node ping fRequireEnabled = true → ping.vin = pmn.vin := by
  by_cases h : ∃ pmn, s.find ping.vin = some pmn ∧
      pmn.takesPing signer node ping fRequireEnabled = true
  · obtain ⟨pmn, hfind, htakes⟩ := h
    have hsigned : ping.verifySignature signer pmn.pubKeyMasternode = true := by
      simp only [MasternodeEntry.takesPing, Bool.and_eq_true] at htakes
      exact htakes.1.2
    obtain ⟨-, hlist⟩ := SignedPing.checkAndUpdate_of_takes hashes nDos hfind htakes
    rw [ManState.pingsSound_congr hlist, ManState.pingsSound_modify_iff hs]
    simp only [hfind, Option.some.injEq, forall_eq', MasternodeEntry.PingSound,
      MasternodeEntry.checkEntry_ping, MasternodeEntry.setPing_ping,
      MasternodeEntry.checkEntry_vin, MasternodeEntry.setPing_vin,
      MasternodeEntry.checkEntry_pubKeyMasternode, MasternodeEntry.setPing_pubKeyMasternode,
      hsigned, htakes, and_true, true_implies]
  · have hnot : ∀ pmn, s.find ping.vin = some pmn →
        ¬ pmn.takesPing signer node ping fRequireEnabled = true :=
      fun pmn hfind htakes => h ⟨pmn, hfind, htakes⟩
    rw [(SignedPing.checkAndUpdate_of_not_takes hashes nDos hnot).2]
    exact ⟨fun _ pmn hfind htakes => absurd htakes (hnot pmn hfind), fun _ => hs⟩

namespace MasternodeEntry

variable (signer) (node) in
/-- The entry `pmn` carries a ping of its own after the broadcast updated it:
it stores the ping, or its old ping was signed with the new key and no other
entry stays enabled with the ping. -/
def UpdateSound (mnb : CMasternodeBroadcast) (s : ManState) (pmn : MasternodeEntry) : Prop :=
  if mnb.ping.vin.prevout = mnb.vin.prevout then
    if (takeBroadcast mnb pmn).takesPing signer node mnb.ping false then
      mnb.ping.vin = pmn.vin
    else pmn.ping.verifySignature signer mnb.pubKeyMasternode = true
  else
    pmn.ping.verifySignature signer mnb.pubKeyMasternode = true ∧
      ∀ other, s.find mnb.ping.vin = some other →
        other.takesPing signer node mnb.ping false = true →
          mnb.ping.vin = other.vin ∧
            ((other.setPing mnb.ping).checkEntry node true).isEnabled = false

/-- An update whose ping no entry stores. -/
theorem updateFromNewBroadcast_of_not_takes {mnb pmn : MasternodeEntry} {s : ManState}
    (hnewer : pmn.sigTime < mnb.sigTime) (hping : mnb.lastPing.same {} = false)
    (h : ∀ other, (s.modify mnb.vin (takeBroadcast mnb)).find mnb.ping.vin = some other →
      ¬ other.takesPing signer node mnb.ping false = true) :
    (pmn.updateFromNewBroadcast signer hashes node mnb s).2 =
      s.modify mnb.vin (takeBroadcast mnb) := by
  obtain ⟨hok, hstate⟩ := SignedPing.checkAndUpdate_of_not_takes hashes 0 h
  simp only [updateFromNewBroadcast, if_pos hnewer, hping, hok, hstate]
  simp

variable (node) in
/-- The list when the ping of an update is stored, before the updated entry
takes it over. -/
def stored (mnb : CMasternodeBroadcast) (s : ManState) : ManState :=
  (s.modify mnb.vin (takeBroadcast mnb)).modify mnb.ping.vin fun mn =>
    (mn.setPing mnb.ping).checkEntry node true

variable (hashes) in
/-- An update whose ping is stored: it is also the ping of the updated entry,
if the entry that stores it stays enabled. -/
theorem updateFromNewBroadcast_of_takes {mnb pmn other : MasternodeEntry} {s : ManState}
    (hnewer : pmn.sigTime < mnb.sigTime) (hping : mnb.lastPing.same {} = false)
    (hfind : (s.modify mnb.vin (takeBroadcast mnb)).find mnb.ping.vin = some other)
    (htakes : other.takesPing signer node mnb.ping false = true) :
    (pmn.updateFromNewBroadcast signer hashes node mnb s).2.vMasternodes =
      (if ((other.setPing mnb.ping).checkEntry node true).isEnabled then
        (mnb.stored node s).modify mnb.vin (setPing mnb.ping)
      else mnb.stored node s).vMasternodes := by
  obtain ⟨hok, hlist⟩ := SignedPing.checkAndUpdate_of_takes hashes 0 hfind htakes
  simp only [updateFromNewBroadcast, if_pos hnewer, hping, hok, Bool.false_eq_true, if_false]
  split_ifs with henabled
  · rw [ManState.seePing_vMasternodes, ManState.modify_congr hlist, stored]
  · exact hlist

theorem keepsVin_setPing (ping : SignedPing) : ManState.KeepsVin (setPing ping) :=
  fun _ => rfl

theorem keepsVin_takeBroadcast (mnb : CMasternodeBroadcast) :
    ManState.KeepsVin (takeBroadcast mnb) := fun _ => rfl

theorem keepsVin_store (ping : SignedPing) :
    ManState.KeepsVin fun mn => (mn.setPing ping).checkEntry node true := by
  intro mn
  simp

open ManState in
/-- The ping is for the output of the updated entry. -/
theorem update_sound_iff_own {mnb pmn : MasternodeEntry} {s : ManState}
    (hs : s.PingsSound signer) (hfind : s.find mnb.vin = some pmn)
    (hnewer : pmn.sigTime < mnb.sigTime) (hping : mnb.lastPing.same {} = false)
    (hown : mnb.ping.vin.prevout = mnb.vin.prevout) :
    ((pmn.updateFromNewBroadcast signer hashes node mnb s).2.modify mnb.vin
        (checkEntry node false)).PingsSound signer ↔
      mnb.UpdateSound signer node s pmn := by
  have htake := keepsVin_takeBroadcast mnb
  have hupdated : (s.modify mnb.vin (takeBroadcast mnb)).find mnb.ping.vin =
      some (takeBroadcast mnb pmn) := by
    have hself := find_modify_self htake s mnb.vin
    rw [hfind] at hself
    rwa [find, hown]
  rw [UpdateSound, if_pos hown]
  by_cases htakes : (takeBroadcast mnb pmn).takesPing signer node mnb.ping false = true
  · have hsigned : mnb.ping.verifySignature signer mnb.pubKeyMasternode = true := by
      simp only [takesPing, Bool.and_eq_true] at htakes
      exact htakes.1.2
    have hlist := updateFromNewBroadcast_of_takes hashes hnewer hping hupdated htakes
    rw [if_pos htakes, pingsSound_congr (modify_congr hlist _ _), stored,
      modify_modify htake s hown]
    split_ifs with henabled
    · rw [modify_modify _ s rfl, modify_modify _ s rfl, pingsSound_modify_iff hs]
      · simp [hfind, PingSound, hsigned]
      · intro mn
        simp
      · intro mn
        simp
    · rw [modify_modify _ s rfl, pingsSound_modify_iff hs]
      · simp [hfind, PingSound, hsigned]
      · intro mn
        simp
  · rw [if_neg htakes, updateFromNewBroadcast_of_not_takes hnewer hping,
      modify_modify htake s rfl, pingsSound_modify_iff hs]
    · simp [hfind, PingSound, (hs pmn (mem_of_find hfind)).1]
    · intro other hother
      obtain rfl := Option.some.inj (hupdated.symm.trans hother)
      exact htakes

section Foreign

open ManState

variable {mnb pmn other : MasternodeEntry} {s : ManState}

variable (node) in
theorem stored_find_self (hfind : s.find mnb.vin = some pmn)
    (hforeign : mnb.ping.vin.prevout ≠ mnb.vin.prevout) :
    (mnb.stored node s).find mnb.vin = some (takeBroadcast mnb pmn) := by
  rw [stored, find_modify_of_ne (keepsVin_store _) _ hforeign.symm,
    find_modify_self (keepsVin_takeBroadcast _), hfind]
  rfl

theorem stored_find_ping (hother : s.find mnb.ping.vin = some other)
    (hforeign : mnb.ping.vin.prevout ≠ mnb.vin.prevout) :
    (mnb.stored node s).find mnb.ping.vin =
      some ((other.setPing mnb.ping).checkEntry node true) := by
  rw [stored, find_modify_self (keepsVin_store _),
    find_modify_of_ne (keepsVin_takeBroadcast _) _ hforeign, hother]
  rfl

/-- The updated entry takes over the ping of another output. -/
theorem not_sound_of_foreign (hfind : s.find mnb.vin = some pmn)
    (hforeign : mnb.ping.vin.prevout ≠ mnb.vin.prevout) :
    ¬ (((mnb.stored node s).modify mnb.vin (setPing mnb.ping)).modify mnb.vin
      (checkEntry node false)).PingsSound signer := by
  intro hsound
  have hentry : (checkEntry node false
      (setPing mnb.ping (takeBroadcast mnb pmn))).PingSound signer := by
    apply hsound _ (@mem_of_find _ mnb.vin _ _)
    rw [find_modify_self (checkEntry_vin node false), find_modify_self (keepsVin_setPing _),
      stored_find_self node hfind hforeign]
    rfl
  have hvin : mnb.ping.vin = pmn.vin := by simpa using hentry.1
  exact hforeign (by rw [hvin, find_prevout hfind])

/-- The updated entry keeps its old ping, and another one stores the new one. -/
theorem stored_sound_iff (hs : s.PingsSound signer) (hfind : s.find mnb.vin = some pmn)
    (hother : s.find mnb.ping.vin = some other)
    (hforeign : mnb.ping.vin.prevout ≠ mnb.vin.prevout)
    (hkey : mnb.ping.verifySignature signer other.pubKeyMasternode = true) :
    ((mnb.stored node s).modify mnb.vin (checkEntry node false)).PingsSound signer ↔
      pmn.ping.verifySignature signer mnb.pubKeyMasternode = true ∧
        mnb.ping.vin = other.vin := by
  have hself := stored_find_self node hfind hforeign
  constructor
  · intro hsound
    have hentry : (checkEntry node false (takeBroadcast mnb pmn)).PingSound signer := by
      apply hsound _ (@mem_of_find _ mnb.vin _ _)
      rw [find_modify_self (checkEntry_vin node false), hself]
      rfl
    have hstored : ((other.setPing mnb.ping).checkEntry node true).PingSound signer := by
      apply hsound _ (@mem_of_find _ mnb.ping.vin _ _)
      rw [find_modify_of_ne (checkEntry_vin node false) _ hforeign,
        stored_find_ping hother hforeign]
    exact ⟨by simpa using hentry.2, by simpa using hstored.1⟩
  · intro hboth
    have hvin := (hs pmn (mem_of_find hfind)).1
    have hupdated : (s.modify mnb.vin (takeBroadcast mnb)).PingsSound signer := by
      rw [pingsSound_modify_iff hs]
      intro mn hmn
      obtain rfl := Option.some.inj (hfind.symm.trans hmn)
      exact ⟨by simpa using hvin, by simpa using hboth.1⟩
    have hstored : (mnb.stored node s).PingsSound signer := by
      rw [stored, pingsSound_modify_iff hupdated,
        find_modify_of_ne (keepsVin_takeBroadcast _) _ hforeign]
      intro mn hmn
      obtain rfl := Option.some.inj (hother.symm.trans hmn)
      exact ⟨by simpa using hboth.2, by simpa using hkey⟩
    rw [pingsSound_modify_iff hstored]
    intro mn hmn
    obtain rfl := Option.some.inj (hself.symm.trans hmn)
    exact ⟨by simpa using hvin, by simpa using hboth.1⟩

/-- The ping is for another output. -/
theorem update_sound_iff_foreign
    (hs : s.PingsSound signer) (hfind : s.find mnb.vin = some pmn)
    (hnewer : pmn.sigTime < mnb.sigTime) (hping : mnb.lastPing.same {} = false)
    (hforeign : mnb.ping.vin.prevout ≠ mnb.vin.prevout) :
    ((pmn.updateFromNewBroadcast signer hashes node mnb s).2.modify mnb.vin
        (checkEntry node false)).PingsSound signer ↔
      mnb.UpdateSound signer node s pmn := by
  have hupdated := find_modify_of_ne (keepsVin_takeBroadcast mnb) s hforeign
  rw [UpdateSound, if_neg hforeign]
  by_cases h : ∃ other, s.find mnb.ping.vin = some other ∧
      other.takesPing signer node mnb.ping false = true
  · obtain ⟨other, hother, htakes⟩ := h
    have hkey : mnb.ping.verifySignature signer other.pubKeyMasternode = true := by
      simp only [takesPing, Bool.and_eq_true] at htakes
      exact htakes.1.2
    have hlist := updateFromNewBroadcast_of_takes hashes hnewer hping
      (hupdated.trans hother) htakes
    rw [pingsSound_congr (modify_congr hlist _ _)]
    simp only [hother, Option.some.injEq, forall_eq', htakes, true_implies]
    by_cases henabled : ((other.setPing mnb.ping).checkEntry node true).isEnabled = true
    · rw [if_pos henabled, henabled]
      simp [not_sound_of_foreign hfind hforeign]
    · rw [if_neg henabled, stored_sound_iff hs hfind hother hforeign hkey]
      simp [henabled]
  · have hnot : ∀ other, s.find mnb.ping.vin = some other →
        ¬ other.takesPing signer node mnb.ping false = true :=
      fun other hother htakes => h ⟨other, hother, htakes⟩
    rw [updateFromNewBroadcast_of_not_takes hnewer hping (by rwa [hupdated]),
      modify_modify (keepsVin_takeBroadcast _) s rfl, pingsSound_modify_iff hs]
    simp only [hfind, Option.some.injEq, forall_eq', PingSound, checkEntry_ping,
      takeBroadcast_ping, checkEntry_vin, takeBroadcast_vin, (hs pmn (mem_of_find hfind)).1,
      true_and, checkEntry_pubKeyMasternode, takeBroadcast_pubKeyMasternode]
    exact ⟨fun hsigned => ⟨hsigned, fun other hother htakes =>
      absurd htakes (hnot other hother)⟩, fun hboth => hboth.1⟩

end Foreign

end MasternodeEntry

variable (hashes) (node) in
open MasternodeEntry in
/-- A broadcast that updates the entry with its input. -/
theorem update_sound_iff {s : ManState} (hs : s.PingsSound signer)
    (mnb : CMasternodeBroadcast) (nDos : Int) :
    (mnb.checkAndUpdate signer hashes node nDos s).state.PingsSound signer ↔
      ∀ pmn, s.find mnb.vin = some pmn → mnb.updates signer node s pmn = true →
        mnb.UpdateSound signer node s pmn := by
  by_cases h : ∃ pmn, s.find mnb.vin = some pmn ∧ mnb.updates signer node s pmn = true
  · obtain ⟨pmn, hfind, hupdates⟩ := h
    have hguards := hupdates
    simp only [updates, Bool.and_eq_true, Bool.not_eq_true', decide_eq_true_eq] at hguards
    have hnewer : pmn.sigTime < mnb.sigTime := hguards.1.1.1.2
    have hping : mnb.lastPing.same {} = false := hguards.1.1.1.1.1.1.1.2
    rw [checkAndUpdate_of_updates nDos hfind hupdates]
    simp only [hfind, Option.some.injEq, forall_eq', hupdates, true_implies]
    by_cases hown : mnb.ping.vin.prevout = mnb.vin.prevout
    · exact update_sound_iff_own hs hfind hnewer hping hown
    · exact update_sound_iff_foreign hs hfind hnewer hping hown
  · have hnot : ∀ pmn, s.find mnb.vin = some pmn → ¬ mnb.updates signer node s pmn = true :=
      fun pmn hfind hupdates => h ⟨pmn, hfind, hupdates⟩
    rw [checkAndUpdate_of_not_updates nDos hnot]
    exact ⟨fun _ pmn hfind hupdates => absurd hupdates (hnot pmn hfind), fun _ => hs⟩

/-! ## The broadcast that adds -/

namespace MasternodeEntry

variable (signer) (node) in
/-- The broadcast is added to the list. -/
def adds (mnb : CMasternodeBroadcast) (s : ManState) : Bool :=
  !mnb.isOwn node s && !mnb.lastPing.same {} && mnb.ping.inTime node &&
    mnb.ping.checkSigTimeOnly signer s &&
    (s.find mnb.vin).all (fun pmn => !pmn.isEnabled) && node.fLocked &&
    node.acceptableInputs mnb.vin &&
    MASTERNODE_MIN_CONFIRMATIONS ≤ node.getInputAge mnb.vin && mnb.timeConfirmed node &&
    ((mnb.makeRoom s).find mnb.vin).isNone

@[simp] theorem enableHotCold_vMasternodes (mnb : CMasternodeBroadcast) (s : ManState) :
    (mnb.enableHotCold node s).vMasternodes = s.vMasternodes := by
  unfold enableHotCold
  split_ifs <;> rfl

theorem add_ofBroadcast (mnb : CMasternodeBroadcast) (s : ManState) :
    (s.add (ofBroadcast mnb)).vMasternodes =
      if (s.find mnb.vin).isNone then s.vMasternodes ++ [ofBroadcast mnb]
      else s.vMasternodes := by
  have henabled : (ofBroadcast mnb).isEnabled = true := rfl
  have hvin : (ofBroadcast mnb).vin = mnb.vin := rfl
  unfold ManState.add
  rw [henabled, hvin]
  cases hfind : s.find mnb.vin with
  | none => simp
  | some pmn => simp

variable (hashes) (node) in
theorem addToList_vMasternodes (mnb : CMasternodeBroadcast) (nDos : Int) (s : ManState) :
    (mnb.addToList hashes node nDos s).state.vMasternodes =
      if (node.fLocked && node.acceptableInputs mnb.vin &&
          MASTERNODE_MIN_CONFIRMATIONS ≤ node.getInputAge mnb.vin &&
          mnb.timeConfirmed node && (s.find mnb.vin).isNone) = true then
        s.vMasternodes ++ [ofBroadcast mnb]
      else s.vMasternodes := by
  unfold addToList
  by_cases hlocked : node.fLocked = true
  · by_cases hinputs : node.acceptableInputs mnb.vin = true
    · by_cases hage : node.getInputAge mnb.vin < MASTERNODE_MIN_CONFIRMATIONS
      · simp [hlocked, hinputs, hage]
      · by_cases htime : mnb.timeConfirmed node = true
        · simp [hlocked, hinputs, hage, htime, add_ofBroadcast, not_lt.mp hage]
        · simp [hlocked, hinputs, hage, htime]
    · simp [hlocked, hinputs]
  · simp [hlocked]

theorem makeRoom_sublist (mnb : CMasternodeBroadcast) (s : ManState) :
    (mnb.makeRoom s).vMasternodes.Sublist s.vMasternodes := by
  unfold makeRoom
  split
  · exact List.eraseP_sublist
  · exact List.Sublist.refl _

variable (signer) (hashes) (node) in
/-- `CheckInputsAndAdd` appends the broadcast, or takes entries away. -/
theorem checkInputsAndAdd_vMasternodes (mnb : CMasternodeBroadcast) (nDos : Int)
    (s : ManState) :
    let after := (mnb.checkInputsAndAdd signer hashes node nDos s).state.vMasternodes
    if mnb.adds signer node s then
      after = (mnb.makeRoom s).vMasternodes ++ [ofBroadcast mnb]
    else after.Sublist s.vMasternodes := by
  obtain ⟨hstate, hok⟩ := SignedPing.checkAndUpdate_sigTimeOnly signer hashes node
    mnb.ping nDos false s
  unfold checkInputsAndAdd adds
  by_cases hown : mnb.isOwn node s = true
  · simp [hown]
  by_cases hping : mnb.lastPing.same {} = true
  · simp only [if_neg hown, hping]
    simp
  simp only [if_neg hown, Bool.eq_false_of_not_eq_true hping, Bool.false_eq_true, if_false]
  generalize mnb.ping.checkAndUpdate signer hashes node nDos false true s = checked at hstate hok
  by_cases hchecked : checked.ok = true
  · rw [hchecked] at hok
    obtain ⟨htime, hsigned⟩ := Bool.and_eq_true_iff.mp hok.symm
    have hadd := addToList_vMasternodes hashes node mnb checked.nDos
      (mnb.makeRoom s)
    have hroom := mnb.makeRoom_sublist s
    by_cases henabled : ((s.find mnb.vin).all fun pmn => !pmn.isEnabled) = true
    · have hlist : (if (node.fLocked && node.acceptableInputs mnb.vin &&
            MASTERNODE_MIN_CONFIRMATIONS ≤ node.getInputAge mnb.vin &&
            mnb.timeConfirmed node && ((mnb.makeRoom s).find mnb.vin).isNone) = true then
          (mnb.addToList hashes node checked.nDos (mnb.makeRoom s)).state.vMasternodes =
            (mnb.makeRoom s).vMasternodes ++ [ofBroadcast mnb]
          else (mnb.addToList hashes node checked.nDos
            (mnb.makeRoom s)).state.vMasternodes.Sublist s.vMasternodes) := by
        rw [hadd]
        split_ifs
        · rfl
        · exact hroom
      cases hfind : s.find mnb.vin with
      | none => simpa [hchecked, hown, htime, hsigned, Bool.and_assoc] using hlist
      | some pmn =>
          have hdisabled : pmn.isEnabled = false := by simpa [hfind] using henabled
          simpa [hchecked, hown, htime, hsigned, hdisabled, Bool.and_assoc] using hlist
    · cases hfind : s.find mnb.vin with
      | none => simp [hfind] at henabled
      | some pmn =>
          have hstays : pmn.isEnabled = true := by simpa [hfind] using henabled
          simp [hchecked, hstays]
  · rw [Bool.eq_false_of_not_eq_true hchecked] at hok
    have hnot : (mnb.ping.inTime node && mnb.ping.checkSigTimeOnly signer s) = false := hok.symm
    simp [hchecked, hstate, hnot, Bool.and_assoc]

end MasternodeEntry

variable (hashes) (node) in
theorem add_sound_iff {s : ManState} (hs : s.PingsSound signer) (mnb : CMasternodeBroadcast)
    (nDos : Int) :
    (mnb.checkInputsAndAdd signer hashes node nDos s).state.PingsSound signer ↔
      (mnb.adds signer node s = true → mnb.PingSound signer) := by
  have hafter := mnb.checkInputsAndAdd_vMasternodes signer hashes node nDos s
  unfold ManState.PingsSound
  by_cases hadds : mnb.adds signer node s = true
  · rw [if_pos hadds] at hafter
    rw [hafter]
    constructor
    · intro hsound _
      exact hsound (MasternodeEntry.ofBroadcast mnb) (by simp)
    · intro hmnb mn hmn
      cases List.mem_append.mp hmn with
      | inl hold => exact hs mn ((mnb.makeRoom_sublist s).subset hold)
      | inr hnew =>
          rw [List.mem_singleton.mp hnew]
          exact hmnb hadds
  · rw [if_neg hadds] at hafter
    constructor
    · intro _ htrue
      exact absurd htrue hadds
    · intro _ mn hmn
      exact hs mn (hafter.subset hmn)

/-! ## Messages -/

variable (signer) (hashes) (node) in
/-- The message is looked at: it was not seen before. -/
def ManState.heeds (s : ManState) (message : MasternodeMessage) : Bool :=
  !node.fLiteMode && node.isBlockchainSynced &&
    match message with
    | .mnb mnb => (s.mapSeenMasternodeBroadcast.find? (mnb.getHash hashes)).isNone
    | .mnp mnp => (s.mapSeenMasternodePing.find? (mnp.getHash hashes)).isNone

variable (signer) (hashes) (node) in
/-- What a message must meet, so that every entry carries a ping of its own
after it: a ping that is stored names the whole input of its entry, an updated
entry carries a ping that its new key signed, and a broadcast that is added
comes with a ping of its own. -/
def MessageSound (s : ManState) : MasternodeMessage → Prop
  | .mnp mnp => ∀ pmn, s.find mnp.vin = some pmn →
      pmn.takesPing signer node mnp true = true → mnp.vin = pmn.vin
  | .mnb mnb =>
      let checked := mnb.checkAndUpdate signer hashes node 0 (s.seeBroadcast hashes mnb)
      (∀ pmn, s.find mnb.vin = some pmn → mnb.updates signer node s pmn = true →
        mnb.UpdateSound signer node s pmn) ∧
      (checked.ok = true →
        node.isVinAssociatedWithPubkey mnb.vin mnb.pubKeyCollateralAddress = true →
        mnb.adds signer node checked.state = true → mnb.PingSound signer)

namespace ManState

theorem updates_congr {s t : ManState} (h : s.vMasternodes = t.vMasternodes)
    (mnb pmn : MasternodeEntry) :
    mnb.updates signer node s pmn = mnb.updates signer node t pmn := by
  simp only [MasternodeEntry.updates, SignedPing.checkSigTimeOnly, find_congr h]

theorem updateSound_congr {s t : ManState} (h : s.vMasternodes = t.vMasternodes)
    (mnb pmn : MasternodeEntry) :
    mnb.UpdateSound signer node s pmn ↔ mnb.UpdateSound signer node t pmn := by
  simp only [MasternodeEntry.UpdateSound, find_congr h]

theorem processPing_sound {s : ManState} (hs : s.PingsSound signer) {mnp : SignedPing}
    (hsound : MessageSound signer hashes node s (.mnp mnp)) :
    (s.processPing signer hashes node mnp).state.PingsSound signer := by
  have hsee := seePing_vMasternodes hashes s mnp
  have hafter := (ping_sound_iff hashes node
    ((pingsSound_congr hsee).mpr hs) mnp 0 true).mpr (by rwa [find_congr hsee])
  unfold processPing
  cases s.mapSeenMasternodePing.find? (mnp.getHash hashes) with
  | some _ => exact hs
  | none =>
      simp only
      split_ifs
      · exact hafter
      · exact hafter
      · exact hafter
      · exact hafter

theorem processBroadcast_sound {s : ManState} (hs : s.PingsSound signer)
    {mnb : CMasternodeBroadcast}
    (hsound : MessageSound signer hashes node s (.mnb mnb)) :
    (s.processBroadcast signer hashes node mnb).state.PingsSound signer := by
  have hsee := seeBroadcast_vMasternodes hashes s mnb
  have hchecked := (update_sound_iff hashes node
    ((pingsSound_congr hsee).mpr hs) mnb 0).mpr (by
      intro pmn hfind hupdates
      rw [find_congr hsee] at hfind
      rw [updates_congr hsee] at hupdates
      rw [updateSound_congr hsee]
      exact hsound.1 pmn hfind hupdates)
  unfold processBroadcast
  cases s.mapSeenMasternodeBroadcast.find? (mnb.getHash hashes) with
  | some _ => exact hs
  | none =>
      simp only
      by_cases hok : (mnb.checkAndUpdate signer hashes node 0
          (s.seeBroadcast hashes mnb)).ok = true
      · by_cases hassoc : node.isVinAssociatedWithPubkey mnb.vin
            mnb.pubKeyCollateralAddress = true
        · have hadded := fun nDos => (add_sound_iff hashes node hchecked
            mnb nDos).mpr (hsound.2 hok hassoc)
          simp only [hok, hassoc, Bool.not_true, Bool.false_eq_true, if_false]
          split_ifs
          · exact hadded _
          · exact hadded _
        · simpa [hok, hassoc] using hchecked
      · simpa [hok] using hchecked

theorem processMessage_sound {s : ManState} (hs : s.PingsSound signer)
    {message : MasternodeMessage}
    (hsound : s.heeds hashes node message = true →
      MessageSound signer hashes node s message) :
    (s.processMessage signer hashes node message).state.PingsSound signer := by
  unfold processMessage
  split_ifs with hoff
  · exact hs
  · have hon : (!node.fLiteMode && node.isBlockchainSynced) = true := by
      simpa using hoff
    cases message with
    | mnb mnb =>
        simp only
        cases hseen : s.mapSeenMasternodeBroadcast.find? (mnb.getHash hashes) with
        | some known => simpa [processBroadcast, hseen] using hs
        | none =>
            apply processBroadcast_sound hs
            apply hsound
            simp [heeds, hon, hseen]
    | mnp mnp =>
        simp only
        cases hseen : s.mapSeenMasternodePing.find? (mnp.getHash hashes) with
        | some known => simpa [processPing, hseen] using hs
        | none =>
            apply processPing_sound hs
            apply hsound
            simp [heeds, hon, hseen]

theorem checkAndRemove_sound {s : ManState} (hs : s.PingsSound signer)
    (forceExpiredRemoval : Bool) :
    (s.checkAndRemove node forceExpiredRemoval).PingsSound signer := by
  intro mn hmn
  obtain ⟨old, hold, rfl⟩ := List.mem_map.mp (List.mem_of_mem_filter hmn)
  have hsound := hs old hold
  simpa [MasternodeEntry.PingSound] using hsound

end ManState

end List

/-! ## Runs -/

/-- What happens to the list, each with what it finds around it. -/
inductive ManagerCall
  | processMessage (node : MessageView) (message : MasternodeMessage)
  | checkAndRemove (node : MessageView) (forceExpiredRemoval : Bool)

section Runs

variable (signer : ObfuScationSigner) (hashes : MessageHashes)

def managerStep (s : ManState) : ManagerCall → ManState
  | .processMessage node message => (s.processMessage signer hashes node message).state
  | .checkAndRemove node forceExpiredRemoval => s.checkAndRemove node forceExpiredRemoval

def runManager (calls : List ManagerCall) : ManState :=
  calls.foldl (managerStep signer hashes) {}

def CallSound (s : ManState) : ManagerCall → Prop
  | .processMessage node message => s.heeds hashes node message = true →
      MessageSound signer hashes node s message
  | .checkAndRemove _ _ => True

/-- Every entry carries a ping of its own in every run whose messages meet
`MessageSound`. -/
theorem pings_sound {calls : List ManagerCall}
    (h : EachAfter (fun before => CallSound signer hashes (runManager signer hashes before))
      calls) :
    ∀ reached rest, calls = reached ++ rest →
      (runManager signer hashes reached).PingsSound signer := by
  rintro reached rest rfl
  apply h.of_append.foldl_invariant
  · intro mn hmn
    cases hmn
  · intro s call hs hcall
    cases call with
    | processMessage node message => exact ManState.processMessage_sound hs hcall
    | checkAndRemove node forceExpiredRemoval =>
        exact ManState.checkAndRemove_sound hs forceExpiredRemoval

end Runs

/-! ## A ping of another input -/

/-- A signature is the key and the text. -/
def plainSigner : ObfuScationSigner where
  verifyMessage pubKey vchSig strMessage := vchSig = pubKey ++ strMessage
  vinString vin := [UInt8.ofNat vin.prevout.hash.toNat]
  hashString hash := [UInt8.ofNat hash.toNat]
  addrString addr := addr.ip
  keyIDString pubKey := pubKey
  intString i := [UInt8.ofNat (i.toNat % 256)]

def plainHashes : MessageHashes where
  pingHash vin sigTime := vin.prevout.hash + BitVec.ofInt 256 sigTime
  broadcastHash sigTime _ := BitVec.ofInt 256 sigTime

/-- A node at time 10000 that accepts every input. -/
def openView : MessageView where
  hashes := { chainActive := [] }
  getTime := 10000
  getAdjustedTime := 10000
  isMain := false
  scriptForKey := fun _ => List.replicate 25 0
  getInputAge := fun _ => 15
  mapBlockIndex := fun _ => some 0

/-- A ping for an output, signed with a key. -/
def pingOf (hash : Uint256) (key : List UInt8) (sigTime : Int) : SignedPing :=
  let ping : SignedPing := { vin := { prevout := ⟨hash, 0⟩ }, blockHash := 3, sigTime }
  { ping with vchSig := key ++ ping.strMessage plainSigner }

/-- The masternode with output 1 and key 7 and a ping; its collateral has key 8. -/
def broadcastOf (ping : SignedPing) : CMasternodeBroadcast :=
  let mnb := MasternodeEntry.setPing ping
    { vin := { prevout := ⟨1, 0⟩ }, sigTime := 9000, pubKeyCollateralAddress := [8],
      pubKeyMasternode := [7] }
  { mnb with sig := [8] ++ mnb.getNewStrMessage plainSigner }

/-- A masternode is added with a ping, and its next ping is stored. -/
def pingedRun : List ManagerCall :=
  [.processMessage openView (.mnb (broadcastOf (pingOf 1 [7] 9000))),
    .processMessage openView (.mnp (pingOf 1 [7] 9700))]

theorem pings_sound_pinged :
    (∀ reached rest, pingedRun = reached ++ rest →
      (runManager plainSigner plainHashes reached).PingsSound plainSigner) ∧
    (runManager plainSigner plainHashes pingedRun).vMasternodes.map
      (fun mn => mn.lastPing.sigTime) = [9700] := by
  refine ⟨pings_sound plainSigner plainHashes ?_, by decide +kernel⟩
  rw [pingedRun, show [ManagerCall.processMessage openView (.mnb (broadcastOf (pingOf 1 [7] 9000))),
      .processMessage openView (.mnp (pingOf 1 [7] 9700))] =
      ([] ++ [.processMessage openView (.mnb (broadcastOf (pingOf 1 [7] 9000)))]) ++
        [.processMessage openView (.mnp (pingOf 1 [7] 9700))] from rfl,
    EachAfter.append_singleton_iff, EachAfter.append_singleton_iff]
  refine ⟨⟨EachAfter.nil, ?_⟩, ?_⟩
  · intro _
    refine ⟨?_, ?_⟩
    · intro pmn hfind
      cases hfind
    · intro _ _ _
      exact ⟨rfl, by decide +kernel⟩
  · intro _ pmn hfind _
    have hmem := ManState.mem_of_find hfind
    have hone : ∀ mn ∈ (runManager plainSigner plainHashes
        [.processMessage openView (.mnb (broadcastOf (pingOf 1 [7] 9000)))]).vMasternodes,
        (pingOf 1 [7] 9700).vin = mn.vin := by decide +kernel
    exact hone pmn hmem

/-- The broadcast for output 1 comes with a ping for output 2 that nobody
signed: it is added and enabled. -/
theorem foreign_ping_added :
    (runManager plainSigner plainHashes
      [.processMessage openView (.mnb (broadcastOf
        { pingOf 2 [] 9000 with vchSig := [] }))]).vMasternodes.map
        (fun mn => (mn.isEnabled, mn.vin.prevout.hash, mn.ping.vin.prevout.hash)) =
      [(true, 1, 2)] ∧
    ¬ (runManager plainSigner plainHashes
      [.processMessage openView (.mnb (broadcastOf
        { pingOf 2 [] 9000 with vchSig := [] }))]).PingsSound plainSigner := by
  refine ⟨by decide +kernel, ?_⟩
  intro hsound
  have hall : ∀ mn ∈ (runManager plainSigner plainHashes
      [.processMessage openView (.mnb (broadcastOf
        { pingOf 2 [] 9000 with vchSig := [] }))]).vMasternodes, mn.ping.vin = mn.vin :=
    fun mn hmn => (hsound mn hmn).1
  exact absurd hall (by decide +kernel)

end Agrarian.Masternode
