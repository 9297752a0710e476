import Agrarian.Uint256
import Agrarian.Masternode.BlockHash

/-!
# The list of masternodes

`CMasternode` of `masternode.cpp` and the list `vMasternodes` of
`masternodeman.cpp`: the state that `Check` gives a masternode, its score, how
long ago it was paid, and the entries the manager admits.

What the calls read besides the list (the clock, the chain, the votes for
payees, sporks) is a view of the node; it does not change during a call.  The collateral of
a masternode is looked at through two functions of the node, and the hash of
its input and time through another one.
-/

namespace Agrarian.Masternode

open Agrarian.Lib

def MASTERNODE_MIN_MNP_SECONDS : Int := 10 * 60
def MASTERNODE_EXPIRATION_SECONDS : Int := 120 * 60
def MASTERNODE_REMOVAL_SECONDS : Int := 130 * 60
def MASTERNODE_CHECK_SECONDS : Int := 5

/-! ## Masternodes -/

structure CMasternodePing where
  vin : CTxIn := { prevout := COutPoint.null }
  blockHash : Uint256 := 0
  sigTime : Int := 0
  deriving DecidableEq, Repr

/-- `operator==` of pings. -/
def CMasternodePing.same (a b : CMasternodePing) : Bool :=
  a.vin = b.vin && a.blockHash = b.blockHash

/-- `CMasternode::state`. -/
inductive MasternodeState
  | MASTERNODE_PRE_ENABLED
  | MASTERNODE_ENABLED
  | MASTERNODE_EXPIRED
  | MASTERNODE_OUTPOINT_SPENT
  | MASTERNODE_REMOVE
  | MASTERNODE_WATCHDOG_EXPIRED
  | MASTERNODE_POSE_BAN
  | MASTERNODE_VIN_SPENT
  | MASTERNODE_POS_ERROR
  deriving DecidableEq, Repr

structure CMasternode where
  vin : CTxIn
  pubKeyCollateralAddress : List UInt8 := []
  activeState : MasternodeState := .MASTERNODE_ENABLED
  sigTime : Int := 0
  cacheInputAge : Int := 0
  cacheInputAgeBlock : Int := 0
  unitTest : Bool := false
  protocolVersion : Int := 0
  lastPing : CMasternodePing := {}
  lastTimeChecked : Int := 0
  deriving DecidableEq, Repr

/-- What a call finds around the list of masternodes. -/
structure NodeView where
  /-- `GetTime()`. -/
  getTime : Int := 0
  /-- `GetAdjustedTime()`. -/
  getAdjustedTime : Int := 0
  shutdownRequested : Bool := false
  /-- `TRY_LOCK(cs_main)` succeeds. -/
  fLocked : Bool := true
  hashes : ChainHashes
  /-- The time of the block with a hash. -/
  nTime : Uint256 → Int := fun _ => 0
  payments : CMasternodePayments := {}
  /-- `IsSporkActive(SPORK_8_MASTERNODE_PAYMENT_ENFORCEMENT)`. -/
  fPaymentEnforcement : Bool := false
  /-- `masternodePayments.GetMinMasternodePaymentsProto()`. -/
  minPaymentsProto : Int := 0
  /-- `AcceptableInputs` for a transaction that spends the input. -/
  acceptableInputs : CTxIn → Bool := fun _ => true
  getInputAge : CTxIn → Int := fun _ => 0
  /-- The script that pays to a key. -/
  scriptForKey : List UInt8 → CScript := id
  /-- The hash of an input and a time. -/
  vinHash : CTxIn → Int → Uint256 := fun _ _ => 0
  /-- The hash of the hash of a block, and of that and a number. -/
  blockHash : Uint256 → Uint256 := id
  scoreHash : Uint256 → Uint256 → Uint256 := fun _ aux => aux

def CMasternodeBlockPayees.hasPayeeWithVotes (payees : CMasternodeBlockPayees)
    (payee : CScript) (nVotesReq : Int) : Bool :=
  payees.vecPayments.any fun p => nVotesReq ≤ p.nVotes && p.scriptPubKey = payee

namespace CMasternode

def isEnabled (mn : CMasternode) : Bool := mn.activeState = .MASTERNODE_ENABLED

variable (node : NodeView)

def isPingedWithin (mn : CMasternode) (seconds : Int) : Bool :=
  if mn.lastPing.same {} then false
  else node.getAdjustedTime - mn.lastPing.sigTime < seconds

/-- The state after the checks that are not skipped. -/
def checkedState (mn : CMasternode) : MasternodeState :=
  if mn.activeState = .MASTERNODE_VIN_SPENT then mn.activeState
  else if !mn.isPingedWithin node MASTERNODE_REMOVAL_SECONDS then
    .MASTERNODE_REMOVE
  else if !mn.isPingedWithin node MASTERNODE_EXPIRATION_SECONDS then
    .MASTERNODE_EXPIRED
  else if mn.lastPing.sigTime - mn.sigTime < MASTERNODE_MIN_MNP_SECONDS then
    .MASTERNODE_PRE_ENABLED
  else if mn.unitTest then .MASTERNODE_ENABLED
  else if !node.fLocked then mn.activeState
  else if !node.acceptableInputs mn.vin then .MASTERNODE_VIN_SPENT
  else .MASTERNODE_ENABLED

def check (mn : CMasternode) (forceCheck : Bool) : CMasternode :=
  if node.shutdownRequested then mn
  else if !forceCheck &&
      node.getTime - mn.lastTimeChecked < MASTERNODE_CHECK_SECONDS then mn
  else
    { mn with
      lastTimeChecked := node.getTime
      activeState := mn.checkedState node }

@[simp] theorem check_vin (mn : CMasternode) (forceCheck : Bool) :
    (mn.check node forceCheck).vin = mn.vin := by
  unfold check
  split_ifs <;> rfl

/-- The age of the collateral, and the masternode that remembers it. -/
def getMasternodeInputAge (mn : CMasternode) : Int × CMasternode :=
  if node.hashes.chainActive = [] then (0, mn)
  else
    let mn :=
      if mn.cacheInputAge = 0 then
        { mn with
          cacheInputAge := node.getInputAge mn.vin
          cacheInputAgeBlock := node.hashes.nTip }
      else mn
    (mn.cacheInputAge + (node.hashes.nTip - mn.cacheInputAgeBlock), mn)

/-- `CalculateScore`. -/
def calculateScore (mn : CMasternode) (nBlockHeight : Int) :
    Uint256 × ChainHashes :=
  node.hashes.calculateScore node.blockHash node.scoreHash mn.vin.prevout
    nBlockHeight

def mnpayee (mn : CMasternode) : CScript :=
  node.scriptForKey mn.pubKeyCollateralAddress

/-- The loop of `GetLastPaid` over the blocks from the tip down. -/
def lastPaidWalk (mnpayee : CScript) (nOffset nMnCount : Int) :
    List Uint256 → Int → Int
  | [], _ => 0
  | hash :: below, n =>
      let nHeight : Int := below.length
      if nHeight ≤ 0 then 0
      else if nMnCount ≤ n then 0
      else
        match node.payments.mapMasternodeBlocks.find? nHeight with
        | none => lastPaidWalk mnpayee nOffset nMnCount below (n + 1)
        | some payees =>
            if payees.hasPayeeWithVotes mnpayee 2 then node.nTime hash + nOffset
            else lastPaidWalk mnpayee nOffset nMnCount below (n + 1)

/-- `GetLastPaid`, for the number of enabled masternodes. -/
def getLastPaid (nCountEnabled : Int) (mn : CMasternode) : Int :=
  let nOffset : Int :=
    Uint256.getCompact (node.vinHash mn.vin mn.sigTime) false % 150
  let nMnCount := nCountEnabled * 5 / 4
  lastPaidWalk node (mn.mnpayee node) nOffset nMnCount
    node.hashes.chainActive.reverse 0

def secondsSincePayment (nCountEnabled : Int) (mn : CMasternode) : Int :=
  let sec := node.getAdjustedTime - mn.getLastPaid node nCountEnabled
  let month : Int := 60 * 60 * 24 * 30
  if sec < month then sec
  else month + Uint256.getCompact (node.vinHash mn.vin mn.sigTime) false

/-- `IsScheduled`: the masternode is the payee of one of the next blocks. -/
def isScheduled (mn : CMasternode) (nNotBlockHeight : Int) : Bool :=
  if !node.fLocked || node.hashes.chainActive.isEmpty then false
  else
    (List.range 9).any fun i =>
      let h := node.hashes.nTip + i
      h ≠ nNotBlockHeight &&
        match node.payments.mapMasternodeBlocks.find? h with
        | none => false
        | some payees => payees.getPayee = some (mn.mnpayee node)

end CMasternode

/-! ## Scores -/

/-! ## The manager -/

/-- The list of masternodes; no output is the collateral of two of them. -/
structure CMasternodeMan where
  vMasternodes : List CMasternode
  distinct : (vMasternodes.map fun mn => mn.vin.prevout).Nodup

namespace CMasternodeMan

/-- `Find` for an input. -/
def find (man : CMasternodeMan) (vin : CTxIn) : Option CMasternode :=
  man.vMasternodes.find? fun mn => mn.vin.prevout = vin.prevout

theorem find_eq_some_iff (man : CMasternodeMan) (vin : CTxIn)
    (mn : CMasternode) :
    man.find vin = some mn ↔
      mn ∈ man.vMasternodes ∧ mn.vin.prevout = vin.prevout := by
  unfold find
  constructor
  · intro hfind
    exact ⟨List.mem_of_find?_eq_some hfind, by simpa using List.find?_some hfind⟩
  · intro hmn
    obtain ⟨hmem, hprevout⟩ := hmn
    cases hfind : man.vMasternodes.find? fun mn => mn.vin.prevout = vin.prevout with
    | none => exact absurd hprevout (by simpa using List.find?_eq_none.mp hfind mn hmem)
    | some found =>
        have hfound : found.vin.prevout = vin.prevout := by
          simpa using List.find?_some hfind
        have hsame : found = mn := List.inj_on_of_nodup_map man.distinct
          (List.mem_of_find?_eq_some hfind) hmem (hfound.trans hprevout.symm)
        rw [hsame]

/-- `Find` does not depend on the order of the list. -/
theorem find_eq_of_perm {man man' : CMasternodeMan}
    (hperm : man'.vMasternodes.Perm man.vMasternodes) (vin : CTxIn) :
    man'.find vin = man.find vin := by
  apply Option.ext
  intro mn
  rw [find_eq_some_iff, find_eq_some_iff, hperm.mem_iff]

theorem distinct_append {vMasternodes : List CMasternode} {mn : CMasternode}
    (hdistinct : (vMasternodes.map fun mn => mn.vin.prevout).Nodup)
    (hfind : (vMasternodes.find? fun other =>
      other.vin.prevout = mn.vin.prevout) = none) :
    ((vMasternodes ++ [mn]).map fun mn => mn.vin.prevout).Nodup := by
  rw [List.map_append, List.map_singleton, List.nodup_append]
  refine ⟨hdistinct, List.nodup_singleton _, ?_⟩
  intro prevout hprevout other hother
  obtain ⟨found, hfound, rfl⟩ := List.mem_map.mp hprevout
  rw [List.mem_singleton.mp hother]
  simpa using List.find?_eq_none.mp hfind found hfound

/-- `Add`: only an enabled masternode with a new collateral is taken. -/
def add (man : CMasternodeMan) (mn : CMasternode) : Bool × CMasternodeMan :=
  if !mn.isEnabled then (false, man)
  else
    match hfind : man.find mn.vin with
    | some _ => (false, man)
    | none =>
        (true,
          { vMasternodes := man.vMasternodes ++ [mn]
            distinct := distinct_append man.distinct hfind })

/-- `Remove`. -/
def remove (man : CMasternodeMan) (vin : CTxIn) : CMasternodeMan where
  vMasternodes := man.vMasternodes.eraseP fun mn => mn.vin = vin
  distinct := man.distinct.sublist (List.eraseP_sublist.map _)

variable (node : NodeView)

/-- Every masternode is checked. -/
def checkAll (man : CMasternodeMan) : CMasternodeMan where
  vMasternodes := man.vMasternodes.map fun mn => mn.check node false
  distinct := by
    simpa [List.map_map, Function.comp_def] using man.distinct

/-- `CountEnabled`, and the list it leaves. -/
def countEnabled (man : CMasternodeMan) (protocolVersion : Int) :
    Int × CMasternodeMan :=
  let protocolVersion :=
    if protocolVersion = -1 then node.minPaymentsProto else protocolVersion
  let man := man.checkAll node
  ((man.vMasternodes.countP fun mn =>
      !(mn.protocolVersion < protocolVersion || !mn.isEnabled) : Nat), man)

end CMasternodeMan

end Agrarian.Masternode
