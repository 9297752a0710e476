import Agrarian.Primitives
import Agrarian.Lib.Decimal
import Agrarian.Lib.KeyedMap
import Agrarian.Lib.Latest

/-!
# Sporks

The network settings of `spork.cpp`: messages that carry a value for one of a
few known ids, signed with the spork key.  A node keeps the latest message of
each id that it received.

Signatures are checked by a function that stands for
`CObfuScationSigner::VerifyMessage`.  The clock and the chain that a message
finds are a world that may be a different one every time.  Relaying and the
punishment of peers are left out.
-/

namespace Agrarian.Spork

open Agrarian.Lib

def SPORK_2_SWIFTTX : Int32 := 10001
def SPORK_3_SWIFTTX_BLOCK_FILTERING : Int32 := 10002
def SPORK_5_MAX_VALUE : Int32 := 10004
def SPORK_7_MASTERNODE_SCANNING : Int32 := 10006
def SPORK_8_MASTERNODE_PAYMENT_ENFORCEMENT : Int32 := 10007
def SPORK_9_MASTERNODE_BUDGET_ENFORCEMENT : Int32 := 10008
def SPORK_10_MASTERNODE_PAY_UPDATED_NODES : Int32 := 10009
def SPORK_13_ENABLE_SUPERBLOCKS : Int32 := 10012
def SPORK_14_NEW_PROTOCOL_ENFORCEMENT : Int32 := 10013
def SPORK_15_NEW_PROTOCOL_ENFORCEMENT_2 : Int32 := 10014
def SPORK_16_ZEROCOIN_MAINTENANCE_MODE : Int32 := 10015

structure CSporkMessage where
  nSporkID : Int32
  nValue : Int64
  nTimeSigned : Int64
  vchSig : List UInt8 := []
  deriving DecidableEq, Repr

/-- What the network parameters say about sporks. -/
structure SporkParams where
  sporkKey : String
  sporkKeyOld : String
  newSporkStart : Int64
  rejectOldSporkKey : Int64

/-- `CMainParams`. -/
def mainSporkParams : SporkParams where
  sporkKey := "04f939e9c41b524e82e79080d034fcade7a588a8f02ab28f1047308e45d5a055b7de39a5f0ae4e4249694c4cde65e95cb89d9864eded0047f399f0634622bc571b"
  sporkKeyOld := "04B433E6598390C992F4F022F20D3B4CBBE691652EE7C48243B81701CBDB7CC7D7BF0EE09E154E6FCBF2043D65AF4E9E97B89B5DBAF830D83B9B7F469A6C45A717"
  newSporkStart := 1643790201
  rejectOldSporkKey := 1527811200

/-- What one message finds around the sporks. -/
structure World where
  fLiteMode : Bool := false
  /-- `chainActive.Tip() != NULL`. -/
  fTip : Bool := true
  /-- `GetAdjustedTime()`. -/
  nAdjustedTime : Int64 := 0

structure SporkState where
  mapSporks : KeyedMap Uint256 CSporkMessage := KeyedMap.empty
  mapSporksActive : KeyedMap Int32 CSporkMessage := KeyedMap.empty
  sporkDB : KeyedMap Int32 CSporkMessage := KeyedMap.empty

def getSporkNameByID (id : Int32) : String :=
  if id = SPORK_2_SWIFTTX then "SPORK_2_SWIFTTX"
  else if id = SPORK_3_SWIFTTX_BLOCK_FILTERING then
    "SPORK_3_SWIFTTX_BLOCK_FILTERING"
  else if id = SPORK_5_MAX_VALUE then "SPORK_5_MAX_VALUE"
  else if id = SPORK_7_MASTERNODE_SCANNING then "SPORK_7_MASTERNODE_SCANNING"
  else if id = SPORK_8_MASTERNODE_PAYMENT_ENFORCEMENT then
    "SPORK_8_MASTERNODE_PAYMENT_ENFORCEMENT"
  else if id = SPORK_9_MASTERNODE_BUDGET_ENFORCEMENT then
    "SPORK_9_MASTERNODE_BUDGET_ENFORCEMENT"
  else if id = SPORK_10_MASTERNODE_PAY_UPDATED_NODES then
    "SPORK_10_MASTERNODE_PAY_UPDATED_NODES"
  else if id = SPORK_13_ENABLE_SUPERBLOCKS then "SPORK_13_ENABLE_SUPERBLOCKS"
  else if id = SPORK_14_NEW_PROTOCOL_ENFORCEMENT then
    "SPORK_14_NEW_PROTOCOL_ENFORCEMENT"
  else if id = SPORK_15_NEW_PROTOCOL_ENFORCEMENT_2 then
    "SPORK_15_NEW_PROTOCOL_ENFORCEMENT_2"
  else if id = SPORK_16_ZEROCOIN_MAINTENANCE_MODE then
    "SPORK_16_ZEROCOIN_MAINTENANCE_MODE"
  else "Unknown"

/-- `strMessage` of `CheckSignature` and `Sign`: three numerals in a row. -/
def signedText (spork : CSporkMessage) : List Char :=
  decimal spork.nSporkID.toInt ++ decimal spork.nValue.toInt ++
    decimal spork.nTimeSigned.toInt

section Node

variable (params : SporkParams)
  (verifyMessage : String → List UInt8 → List Char → Bool)
  (sporkHash : Int32 → Int64 → Int64 → Uint256)

/-- The old key counts in its window only, and not where the signer is
checked. -/
def checkSignature (world : World) (spork : CSporkMessage)
    (fCheckSigner : Bool) : Bool :=
  let strMessage := signedText spork
  let fValidWithNewKey :=
    verifyMessage params.sporkKey spork.vchSig strMessage
  if fCheckSigner && !fValidWithNewKey then false
  else if !fValidWithNewKey &&
      world.nAdjustedTime < params.rejectOldSporkKey then
    verifyMessage params.sporkKeyOld spork.vchSig strMessage
  else fValidWithNewKey

/-- The signature checks of `ProcessSpork`. -/
def validlySigned (world : World) (spork : CSporkMessage) : Bool :=
  (spork.nTimeSigned < params.newSporkStart ||
    checkSignature params verifyMessage world spork true) &&
    checkSignature params verifyMessage world spork false

def getHash (spork : CSporkMessage) : Uint256 :=
  sporkHash spork.nSporkID spork.nValue spork.nTimeSigned

/-- The message is for a known spork and later than the active one. -/
def isNews (s : SporkState) (spork : CSporkMessage) : Bool :=
  getSporkNameByID spork.nSporkID != "Unknown" &&
    match s.mapSporksActive.find? spork.nSporkID with
    | none => true
    | some active => !decide (spork.nTimeSigned ≤ active.nTimeSigned)

def processSpork (world : World) (s : SporkState) (spork : CSporkMessage) :
    SporkState :=
  if world.fLiteMode || !world.fTip then s
  else if !isNews s spork then s
  else if !validlySigned params verifyMessage world spork then s
  else
    { mapSporks := s.mapSporks.insert (getHash sporkHash spork) spork
      mapSporksActive := s.mapSporksActive.insert spork.nSporkID spork
      sporkDB := s.sporkDB.insert spork.nSporkID spork }

/-- A message and the world in which it is delivered. -/
structure Delivery where
  world : World
  spork : CSporkMessage

/-- The state after deliveries in this order. -/
def run (s : SporkState) (deliveries : List Delivery) : SporkState :=
  deliveries.foldl
    (fun s d => processSpork params verifyMessage sporkHash d.world s d.spork) s

/-- The node takes part in sporks and the signature passes. -/
def delivers (d : Delivery) : Bool :=
  !d.world.fLiteMode && d.world.fTip &&
    validlySigned params verifyMessage d.world d.spork

/-! ## The active messages -/

/-- The delivered messages of one known spork that pass the checks. -/
def heardOf (id : Int32) (deliveries : List Delivery) : List CSporkMessage :=
  ((deliveries.filter (delivers params verifyMessage)).map
    Delivery.spork).filter fun spork =>
      spork.nSporkID = id ∧ getSporkNameByID id ≠ "Unknown"

end Node

section Active

variable {params : SporkParams}
  {verifyMessage : String → List UInt8 → List Char → Bool}
  {sporkHash : Int32 → Int64 → Int64 → Uint256}

/-- The time by which messages of one spork replace each other: a message one
second later does. -/
def signingTime (spork : CSporkMessage) : Int := spork.nTimeSigned.toInt

theorem isNews_eq_false {s : SporkState} {spork : CSporkMessage} :
    isNews s spork = false ↔ getSporkNameByID spork.nSporkID = "Unknown" ∨
      ∃ active, s.mapSporksActive.find? spork.nSporkID = some active ∧
        signingTime spork ≤ signingTime active := by
  unfold isNews signingTime
  cases s.mapSporksActive.find? spork.nSporkID with
  | none => simp
  | some active => simp [Int64.le_iff_toInt_le, Decidable.or_iff_not_imp_left]

theorem isNews_eq_true {s : SporkState} {spork : CSporkMessage} :
    isNews s spork = true ↔ getSporkNameByID spork.nSporkID ≠ "Unknown" ∧
      ∀ active, s.mapSporksActive.find? spork.nSporkID = some active →
        signingTime active < signingTime spork := by
  unfold isNews signingTime
  cases s.mapSporksActive.find? spork.nSporkID with
  | none => simp
  | some active => simp [Int64.le_iff_toInt_le]

theorem mem_heardOf {id : Int32} {deliveries : List Delivery}
    {spork : CSporkMessage} :
    spork ∈ heardOf params verifyMessage id deliveries ↔
      (∃ d ∈ deliveries, delivers params verifyMessage d ∧ d.spork = spork) ∧
        spork.nSporkID = id ∧ getSporkNameByID id ≠ "Unknown" := by
  simp [heardOf, and_assoc]

/-- One delivery adopts the message if it is a later one. -/
theorem processSpork_active (s : SporkState) (d : Delivery) (id : Int32) :
    (processSpork params verifyMessage sporkHash d.world s
        d.spork).mapSporksActive.find? id =
      latest signingTime 1 (s.mapSporksActive.find? id)
        (heardOf params verifyMessage id [d]) := by
  by_cases hdelivers : delivers params verifyMessage d
  · have hparts := hdelivers
    simp only [delivers, Bool.and_eq_true, Bool.not_eq_true'] at hparts
    obtain ⟨⟨hlite, htip⟩, hsigned⟩ := hparts
    have hprocess : processSpork params verifyMessage sporkHash d.world s
        d.spork =
          if isNews s d.spork then
            { mapSporks :=
                s.mapSporks.insert (getHash sporkHash d.spork) d.spork
              mapSporksActive :=
                s.mapSporksActive.insert d.spork.nSporkID d.spork
              sporkDB := s.sporkDB.insert d.spork.nSporkID d.spork }
          else s := by
      unfold processSpork
      cases isNews s d.spork <;> simp [hlite, htip, hsigned]
    rw [hprocess]
    by_cases hid : d.spork.nSporkID = id
    · subst hid
      by_cases hknown : getSporkNameByID d.spork.nSporkID = "Unknown"
      · have hstale : isNews s d.spork = false :=
          isNews_eq_false.mpr (Or.inl hknown)
        simp [heardOf, hdelivers, hknown, hstale, latest]
      · have hheard : heardOf params verifyMessage d.spork.nSporkID [d] =
            [d.spork] := by
          simp [heardOf, hdelivers, hknown]
        rw [hheard]
        show _ = adopt signingTime 1 _ d.spork
        by_cases hnews : isNews s d.spork
        · rw [if_pos hnews]
          have hlater := (isNews_eq_true.mp hnews).2
          cases hactive : s.mapSporksActive.find? d.spork.nSporkID with
          | none => simp [adopt]
          | some active =>
              have hlt := hlater active hactive
              have hnot : ¬ signingTime d.spork < signingTime active + 1 := by
                omega
              simp [adopt, hnot]
        · rw [if_neg hnews]
          rw [Bool.not_eq_true, isNews_eq_false] at hnews
          obtain ⟨active, hactive, hle⟩ := hnews.resolve_left hknown
          have hearly : signingTime d.spork < signingTime active + 1 := by
            omega
          rw [hactive]
          simp [adopt, hearly]
    · have hheard : heardOf params verifyMessage id [d] = [] := by
        simp [heardOf, hid]
      rw [hheard]
      split
      · exact KeyedMap.find?_insert_ne _ _ (Ne.symm hid)
      · rfl
  · have hheard : heardOf params verifyMessage id [d] = [] := by
      simp [heardOf, hdelivers]
    rw [hheard]
    have hsame : processSpork params verifyMessage sporkHash d.world s
        d.spork = s := by
      unfold processSpork
      simp only [delivers, Bool.and_eq_true, Bool.not_eq_true',
        not_and] at hdelivers
      by_cases hlite : d.world.fLiteMode
      · simp [hlite]
      · by_cases htip : d.world.fTip
        · have hsigned := hdelivers ⟨by simpa using hlite, htip⟩
          split
          · rfl
          · split
            · rfl
            · simp [hsigned]
        · simp [htip]
    rw [hsame]
    rfl

theorem heardOf_append (id : Int32) (before after : List Delivery) :
    heardOf params verifyMessage id (before ++ after) =
      heardOf params verifyMessage id before ++
        heardOf params verifyMessage id after := by
  simp [heardOf]

/-- **The active message is the latest one heard.** -/
theorem run_active (s : SporkState) (deliveries : List Delivery) (id : Int32) :
    (run params verifyMessage sporkHash s deliveries).mapSporksActive.find?
        id =
      latest signingTime 1 (s.mapSporksActive.find? id)
        (heardOf params verifyMessage id deliveries) := by
  induction deliveries using List.reverseRecOn with
  | nil => rfl
  | append_singleton deliveries d ih =>
      rw [heardOf_append]
      have hrun : run params verifyMessage sporkHash s (deliveries ++ [d]) =
          processSpork params verifyMessage sporkHash d.world
            (run params verifyMessage sporkHash s deliveries) d.spork := by
        simp [run]
      rw [hrun, processSpork_active, ih]
      exact (List.foldl_append ..).symm

/-- **Signing times never decrease** along a run. -/
theorem run_nTimeSigned_mono {s : SporkState} {id : Int32}
    {active : CSporkMessage} (deliveries : List Delivery)
    (h : s.mapSporksActive.find? id = some active) :
    ∃ active',
      (run params verifyMessage sporkHash s deliveries).mapSporksActive.find?
        id = some active' ∧ active.nTimeSigned ≤ active'.nTimeSigned := by
  obtain ⟨active', hactive, hle⟩ :=
    latest_mono (by decide : (0 : Int) ≤ 1) h
      (heardOf params verifyMessage id deliveries)
  exact ⟨active', (run_active s deliveries id).trans hactive,
    Int64.le_iff_toInt_le.mpr hle⟩

theorem run_append (s : SporkState) (before after : List Delivery) :
    run params verifyMessage sporkHash s (before ++ after) =
      run params verifyMessage sporkHash
        (run params verifyMessage sporkHash s before) after :=
  List.foldl_append ..

/-- **Orders of delivery agree**: two runs that deliver the same validly
signed messages end with the same active ones, if the latest signing time of
each id belongs to one message; and signing times never decrease. -/
theorem run_active_eq {s : SporkState} {first second : List Delivery}
    (hfirst : ∀ d ∈ first, delivers params verifyMessage d)
    (hsecond : ∀ d ∈ second, delivers params verifyMessage d)
    (hsame : ∀ spork, spork ∈ first.map Delivery.spork ↔
      spork ∈ second.map Delivery.spork)
    (hone : ∀ spork ∈ first.map Delivery.spork,
      ∀ spork' ∈ first.map Delivery.spork,
      spork.nSporkID = spork'.nSporkID →
      spork.nTimeSigned = spork'.nTimeSigned →
      (∀ other ∈ first.map Delivery.spork, other.nSporkID = spork.nSporkID →
        other.nTimeSigned ≤ spork.nTimeSigned) → spork = spork') :
    (∀ id,
      (run params verifyMessage sporkHash s first).mapSporksActive.find? id =
        (run params verifyMessage sporkHash s second).mapSporksActive.find?
          id) ∧
    ∀ s before after id active,
      (run params verifyMessage sporkHash s before).mapSporksActive.find? id =
        some active →
      ∃ active', (run params verifyMessage sporkHash s
          (before ++ after)).mapSporksActive.find? id = some active' ∧
        active.nTimeSigned ≤ active'.nTimeSigned := by
  constructor
  · intro id
    have hheard : ∀ deliveries : List Delivery,
        (∀ d ∈ deliveries, delivers params verifyMessage d) → ∀ spork,
        spork ∈ heardOf params verifyMessage id deliveries ↔
          spork ∈ deliveries.map Delivery.spork ∧ spork.nSporkID = id ∧
            getSporkNameByID id ≠ "Unknown" := by
      intro deliveries hall spork
      rw [mem_heardOf, List.mem_map]
      constructor
      · rintro ⟨⟨d, hmem, -, rfl⟩, hid⟩
        exact ⟨⟨d, hmem, rfl⟩, hid⟩
      · rintro ⟨⟨d, hmem, rfl⟩, hid⟩
        exact ⟨⟨d, hmem, hall d hmem, rfl⟩, hid⟩
    rw [run_active, run_active]
    apply latest_eq (by decide)
    · intro spork
      rw [hheard first hfirst, hheard second hsecond, hsame]
    · intro spork hmem hlatest spork' hmem' hne
      obtain ⟨hin, hid, hknown⟩ := (hheard first hfirst spork).mp hmem
      obtain ⟨hin', hid', -⟩ := (hheard first hfirst spork').mp hmem'
      have hle := hlatest spork' hmem'
      -- equal times would make the two messages equal
      have hdifferent : signingTime spork' ≠ signingTime spork := by
        intro htime
        apply hne
        symm
        apply hone spork hin spork' hin' (hid.trans hid'.symm)
          (Int64.toInt_inj.mp htime.symm)
        intro other hother hotherId
        apply Int64.le_iff_toInt_le.mpr
        apply hlatest other
        exact (hheard first hfirst other).mpr
          ⟨hother, hotherId.trans hid, hknown⟩
      omega
  · intro s before after id active hactive
    rw [run_append]
    exact run_nTimeSigned_mono after hactive

end Active

section Example

/-- Any signature passes here. -/
def trustAll (_ : String) (_ : List UInt8) (_ : List Char) : Bool := true

def noHash (_ : Int32) (_ _ : Int64) : Uint256 := 0

def payOn (nTimeSigned : Int64) : CSporkMessage :=
  { nSporkID := SPORK_8_MASTERNODE_PAYMENT_ENFORCEMENT, nValue := 1,
    nTimeSigned }

def payOff (nTimeSigned : Int64) : CSporkMessage :=
  { nSporkID := SPORK_8_MASTERNODE_PAYMENT_ENFORCEMENT, nValue := 4070908800,
    nTimeSigned }

theorem run_active_eq_payOff :
    (run mainSporkParams trustAll noHash {}
      [⟨{}, payOn 1600000000⟩, ⟨{}, payOff 1600000001⟩]).mapSporksActive.find?
        SPORK_8_MASTERNODE_PAYMENT_ENFORCEMENT = some (payOff 1600000001) ∧
    ∀ id, (run mainSporkParams trustAll noHash {}
      [⟨{}, payOn 1600000000⟩, ⟨{}, payOff 1600000001⟩]).mapSporksActive.find?
        id = (run mainSporkParams trustAll noHash {}
      [⟨{}, payOff 1600000001⟩, ⟨{}, payOn 1600000000⟩]).mapSporksActive.find?
        id :=
  ⟨by decide, (run_active_eq (by decide) (by decide)
    (by intro spork; simp [or_comm]) (by decide)).1⟩

/-- Two values signed in the same second: the first one delivered stays. -/
theorem same_second_sporks_diverge :
    (∀ d ∈ [(⟨{}, payOn 1600000000⟩ : Delivery), ⟨{}, payOff 1600000000⟩],
      delivers mainSporkParams trustAll d) ∧
    (run mainSporkParams trustAll noHash {}
      [⟨{}, payOn 1600000000⟩, ⟨{}, payOff 1600000000⟩]).mapSporksActive.find?
        SPORK_8_MASTERNODE_PAYMENT_ENFORCEMENT ≠
    (run mainSporkParams trustAll noHash {}
      [⟨{}, payOff 1600000000⟩, ⟨{}, payOn 1600000000⟩]).mapSporksActive.find?
        SPORK_8_MASTERNODE_PAYMENT_ENFORCEMENT := by
  decide

end Example

end Agrarian.Spork
