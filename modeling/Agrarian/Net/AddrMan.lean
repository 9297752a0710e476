import Agrarian.Lib.Counting
import Agrarian.Lib.KeyedMap
import Agrarian.Uint256

/-!
# The address manager

`CAddrMan` keeps the addresses of peers in two tables of buckets, and finds an
entry by its number, by its address and by its place in a random order.  An
address that was only heard of is in up to eight buckets of the new table; one
that a connection was made to is in one bucket of the tried table.

The address type and the hashes that buckets are chosen by are parameters.  The
random numbers that a call draws, and the times that it sees, are arguments of
the call.  An assertion that fails, and an access to an entry that is gone, have
no result.

`Net.AddrManCheck` has what holds of it.
-/

namespace Agrarian.Net

open Agrarian.Lib

def ADDRMAN_TRIED_BUCKET_COUNT : Nat := 256
def ADDRMAN_NEW_BUCKET_COUNT : Nat := 1024
def ADDRMAN_BUCKET_SIZE : Nat := 64
def ADDRMAN_TRIED_BUCKETS_PER_GROUP : UInt64 := 8
def ADDRMAN_NEW_BUCKETS_PER_SOURCE_GROUP : UInt64 := 64
def ADDRMAN_NEW_BUCKETS_PER_ADDRESS : Int := 8
def ADDRMAN_HORIZON_DAYS : Int := 30
def ADDRMAN_RETRIES : Int := 3
def ADDRMAN_MAX_FAILURES : Int := 10
def ADDRMAN_MIN_FAIL_DAYS : Int := 7
def ADDRMAN_GETADDR_MAX_PCT : Nat := 23
def ADDRMAN_GETADDR_MAX : Nat := 2500

section Types

variable (CNetAddr : Type)

structure CService where
  ip : CNetAddr
  port : UInt16
  deriving DecidableEq

structure CAddress extends CService CNetAddr where
  nServices : UInt64 := 0
  nTime : UInt32
  deriving DecidableEq

structure CAddrInfo extends CAddress CNetAddr where
  /-- Last try whatsoever by us. -/
  nLastTry : Int := 0
  /-- Where knowledge about this address first came from. -/
  source : CNetAddr
  /-- Last successful connection by us. -/
  nLastSuccess : Int := 0
  /-- Connection attempts since last successful attempt. -/
  nAttempts : Int := 0
  /-- Reference count in new sets. -/
  nRefCount : Int := 0
  /-- In tried set? -/
  fInTried : Bool := false
  /-- Position in vRandom. -/
  nRandomPos : Int := -1
  deriving DecidableEq

/-- The low 64 bits of the hashes, each of what is serialized into it. -/
structure AddrHashes where
  key : Uint256 → CService CNetAddr → UInt64
  group : Uint256 → CNetAddr → UInt64 → UInt64
  groups : Uint256 → CNetAddr → CNetAddr → UInt64
  position : Uint256 → Char → Nat → CService CNetAddr → UInt64

/-- The tables have `none` for `-1`. -/
structure CAddrMan where
  nIdCount : Nat := 0
  mapInfo : KeyedMap Nat (CAddrInfo CNetAddr) := KeyedMap.empty
  mapAddr : KeyedMap CNetAddr Nat
  vRandom : List Nat := []
  nTried : Int := 0
  vvTried : Nat → Nat → Option Nat := fun _ _ => none
  nNew : Int := 0
  vvNew : Nat → Nat → Option Nat := fun _ _ => none
  nKey : Uint256

end Types

/-- A 64-bit number as an `unsigned int`. -/
def toUnsigned (x : Int) : UInt32 := UInt32.ofNat (x % 2 ^ 32).toNat

/-- An entry of a two-dimensional table is written. -/
def setSlot (table : Nat → Nat → Option Nat) (bucket pos : Nat) (nId : Option Nat) :
    Nat → Nat → Option Nat :=
  fun b i => if b = bucket ∧ i = pos then nId else table b i

variable {CNetAddr : Type}

namespace CAddrInfo

section Buckets

variable (hashes : AddrHashes CNetAddr) (nKey : Uint256) (info : CAddrInfo CNetAddr)

def getTriedBucket : Nat :=
  let hash1 := hashes.key nKey info.toCService
  let hash2 := hashes.group nKey info.ip (hash1 % ADDRMAN_TRIED_BUCKETS_PER_GROUP)
  hash2.toNat % ADDRMAN_TRIED_BUCKET_COUNT

def getNewBucket (src : CNetAddr) : Nat :=
  let hash1 := hashes.groups nKey info.ip src
  let hash2 := hashes.group nKey src (hash1 % ADDRMAN_NEW_BUCKETS_PER_SOURCE_GROUP)
  hash2.toNat % ADDRMAN_NEW_BUCKET_COUNT

def getBucketPosition (fNew : Bool) (nBucket : Nat) : Nat :=
  let hash1 := hashes.position nKey (if fNew then 'N' else 'K') nBucket info.toCService
  hash1.toNat % ADDRMAN_BUCKET_SIZE

end Buckets

def isTerrible (info : CAddrInfo CNetAddr) (nNow : Int) : Bool :=
  -- never remove things tried in the last minute
  if info.nLastTry ≠ 0 ∧ nNow - 60 ≤ info.nLastTry then false
  -- came in a flying DeLorean
  else if nNow + 10 * 60 < (info.nTime.toNat : Int) then true
  -- not seen in recent history
  else if info.nTime = 0 ∨
      ADDRMAN_HORIZON_DAYS * 24 * 60 * 60 < nNow - (info.nTime.toNat : Int) then true
  -- tried N times and never a success
  else if info.nLastSuccess = 0 ∧ ADDRMAN_RETRIES ≤ info.nAttempts then true
  -- N successive failures in the last week
  else if ADDRMAN_MIN_FAIL_DAYS * 24 * 60 * 60 < nNow - info.nLastSuccess ∧
      ADDRMAN_MAX_FAILURES ≤ info.nAttempts then true
  else false

/-- The time of an entry whose address is heard of again. -/
def refreshTime (info : CAddrInfo CNetAddr) (addr : CAddress CNetAddr)
    (nTimePenalty nNow : Int) : UInt32 :=
  let addrTime : Int := addr.nTime.toNat
  -- periodically update nTime
  let fCurrentlyOnline : Bool := nNow - addrTime < 24 * 60 * 60
  let nUpdateInterval : Int := if fCurrentlyOnline then 60 * 60 else 24 * 60 * 60
  if addr.nTime ≠ 0 ∧ (info.nTime = 0 ∨
      (info.nTime.toNat : Int) < addrTime - nUpdateInterval - nTimePenalty) then
    toUnsigned (max 0 (addrTime - nTimePenalty))
  else info.nTime

end CAddrInfo

namespace CAddrMan

variable [DecidableEq CNetAddr]

/-- After `Clear`. -/
def clear (nKey : Uint256) : CAddrMan CNetAddr where
  mapAddr := KeyedMap.empty
  nKey := nKey

omit [DecidableEq CNetAddr] in
/-- The entry is changed in place. -/
def modifyInfo (s : CAddrMan CNetAddr) (nId : Nat)
    (f : CAddrInfo CNetAddr → CAddrInfo CNetAddr) : CAddrMan CNetAddr :=
  { s with
    mapInfo :=
      match s.mapInfo.find? nId with
      | none => s.mapInfo
      | some info => s.mapInfo.insert nId (f info) }

def find (s : CAddrMan CNetAddr) (addr : CNetAddr) : Option (Nat × CAddrInfo CNetAddr) :=
  match s.mapAddr.find? addr with
  | none => none
  | some nId => (s.mapInfo.find? nId).map fun info => (nId, info)

def create (s : CAddrMan CNetAddr) (addr : CAddress CNetAddr) (addrSource : CNetAddr) :
    Nat × CAddrMan CNetAddr :=
  let nId := s.nIdCount
  (nId,
    { s with
      nIdCount := s.nIdCount + 1
      mapInfo := s.mapInfo.insert nId
        { toCAddress := addr, source := addrSource, nRandomPos := s.vRandom.length }
      mapAddr := s.mapAddr.insert addr.ip nId
      vRandom := s.vRandom ++ [nId] })

omit [DecidableEq CNetAddr] in
def swapRandom (s : CAddrMan CNetAddr) (nRndPos1 nRndPos2 : Nat) :
    Option (CAddrMan CNetAddr) :=
  if nRndPos1 = nRndPos2 then some s
  else
    match s.vRandom[nRndPos1]?, s.vRandom[nRndPos2]? with
    | some nId1, some nId2 =>
        if (s.mapInfo.find? nId1).isSome ∧ (s.mapInfo.find? nId2).isSome then
          let s := s.modifyInfo nId1 fun info => { info with nRandomPos := nRndPos2 }
          let s := s.modifyInfo nId2 fun info => { info with nRandomPos := nRndPos1 }
          some { s with vRandom := (s.vRandom.set nRndPos1 nId2).set nRndPos2 nId1 }
        else none
    | _, _ => none

def delete (s : CAddrMan CNetAddr) (nId : Nat) : Option (CAddrMan CNetAddr) :=
  match s.mapInfo.find? nId with
  | none => none
  | some info =>
      if info.fInTried ∨ info.nRefCount ≠ 0 then none
      else
        (s.swapRandom info.nRandomPos.toNat (s.vRandom.length - 1)).map fun s =>
          { s with
            vRandom := s.vRandom.dropLast
            mapAddr := s.mapAddr.erase info.ip
            mapInfo := s.mapInfo.erase nId
            nNew := s.nNew - 1 }

omit [DecidableEq CNetAddr] in
/-- A reference from the new table is dropped. -/
def dropNew (s : CAddrMan CNetAddr) (nUBucket nUBucketPos nId : Nat) : CAddrMan CNetAddr :=
  { s.modifyInfo nId fun info => { info with nRefCount := info.nRefCount - 1 } with
    vvNew := setSlot s.vvNew nUBucket nUBucketPos none }

def clearNew (s : CAddrMan CNetAddr) (nUBucket nUBucketPos : Nat) :
    Option (CAddrMan CNetAddr) :=
  -- if there is an entry in the specified bucket, delete it.
  match s.vvNew nUBucket nUBucketPos with
  | none => some s
  | some nIdDelete =>
      match s.mapInfo.find? nIdDelete with
      | none => none
      | some infoDelete =>
          if ¬ 0 < infoDelete.nRefCount then none
          else
            let s := s.dropNew nUBucket nUBucketPos nIdDelete
            if infoDelete.nRefCount - 1 = 0 then s.delete nIdDelete else some s

omit [DecidableEq CNetAddr] in
/-- A reference from the new table is entered. -/
def enterNew (s : CAddrMan CNetAddr) (nUBucket nUBucketPos nId : Nat) : CAddrMan CNetAddr :=
  { s.modifyInfo nId fun info => { info with nRefCount := info.nRefCount + 1 } with
    vvNew := setSlot s.vvNew nUBucket nUBucketPos (some nId) }

section Tables

variable (hashes : AddrHashes CNetAddr)

omit [DecidableEq CNetAddr] in
/-- An iteration of the loop that removes an entry from all new buckets. -/
def forgetNew (nId : Nat) (s : CAddrMan CNetAddr) (bucket : Nat) : CAddrMan CNetAddr :=
  match s.mapInfo.find? nId with
  | none => s
  | some info =>
      let pos := info.getBucketPosition hashes s.nKey true bucket
      if s.vvNew bucket pos = some nId then s.dropNew bucket pos nId else s

/-- The entry in a slot of the tried table goes back to the new one. -/
def evict (s : CAddrMan CNetAddr) (nKBucket nKBucketPos : Nat) : Option (CAddrMan CNetAddr) :=
  match s.vvTried nKBucket nKBucketPos with
  | none => some s
  | some nIdEvict =>
      match s.mapInfo.find? nIdEvict with
      | none => none
      | some infoOld =>
          -- Remove the to-be-evicted item from the tried set.
          let s :=
            { s.modifyInfo nIdEvict fun info => { info with fInTried := false } with
              vvTried := setSlot s.vvTried nKBucket nKBucketPos none
              nTried := s.nTried - 1 }
          -- find which new bucket it belongs to
          let nUBucket := infoOld.getNewBucket hashes s.nKey infoOld.source
          let nUBucketPos := infoOld.getBucketPosition hashes s.nKey true nUBucket
          (s.clearNew nUBucket nUBucketPos).bind fun s =>
            if s.vvNew nUBucket nUBucketPos ≠ none then none
            else
              -- Enter it into the new set again.
              some
                { s.modifyInfo nIdEvict fun info => { info with nRefCount := 1 } with
                  vvNew := setSlot s.vvNew nUBucket nUBucketPos (some nIdEvict)
                  nNew := s.nNew + 1 }

/-- An entry that is in no new bucket enters the tried table. -/
def enterTried (s : CAddrMan CNetAddr) (nId : Nat) : Option (CAddrMan CNetAddr) :=
  let s := { s with nNew := s.nNew - 1 }
  match s.mapInfo.find? nId with
  | none => none
  | some info =>
      if info.nRefCount ≠ 0 then none
      else
        -- which tried bucket to move the entry to
        let nKBucket := info.getTriedBucket hashes s.nKey
        let nKBucketPos := info.getBucketPosition hashes s.nKey false nKBucket
        (s.evict hashes nKBucket nKBucketPos).bind fun s =>
          if s.vvTried nKBucket nKBucketPos ≠ none then none
          else
            some
              { s.modifyInfo nId fun info => { info with fInTried := true } with
                vvTried := setSlot s.vvTried nKBucket nKBucketPos (some nId)
                nTried := s.nTried + 1 }

def makeTried (s : CAddrMan CNetAddr) (nId : Nat) : Option (CAddrMan CNetAddr) :=
  -- remove the entry from all new buckets
  enterTried hashes ((List.range ADDRMAN_NEW_BUCKET_COUNT).foldl (forgetNew hashes nId) s) nId

/-! ## The calls -/

def good (s : CAddrMan CNetAddr) (addr : CService CNetAddr) (nTime : Int) (draw : Nat) :
    Option (CAddrMan CNetAddr) :=
  match s.find addr.ip with
  | none => some s
  | some (nId, info) =>
      -- check whether we are talking about the exact same CService
      if info.toCService ≠ addr then some s
      else
        let s := s.modifyInfo nId fun info =>
          { info with nLastSuccess := nTime, nLastTry := nTime, nAttempts := 0 }
        -- if it is already in the tried set, don't do anything else
        if info.fInTried then some s
        else
          -- find a bucket it is in now
          let nRnd := draw % ADDRMAN_NEW_BUCKET_COUNT
          let nUBucket := (List.range ADDRMAN_NEW_BUCKET_COUNT).find? fun n =>
            let nB := (n + nRnd) % ADDRMAN_NEW_BUCKET_COUNT
            s.vvNew nB (info.getBucketPosition hashes s.nKey true nB) = some nId
          -- if no bucket is found, something bad happened
          if nUBucket.isNone then some s else s.makeTried hashes nId

/-- The end of `Add_`: a place for the entry in the new table. -/
def addToNew (s : CAddrMan CNetAddr) (nId : Nat) (source : CNetAddr) (nNow : Int) :
    Option (CAddrMan CNetAddr) :=
  match s.mapInfo.find? nId with
  | none => none
  | some info =>
      let nUBucket := info.getNewBucket hashes s.nKey source
      let nUBucketPos := info.getBucketPosition hashes s.nKey true nUBucket
      match s.vvNew nUBucket nUBucketPos with
      | none => some (s.enterNew nUBucket nUBucketPos nId)
      | some nIdExisting =>
          if nIdExisting = nId then some s
          else
            match s.mapInfo.find? nIdExisting with
            | none => none
            | some infoExisting =>
                if infoExisting.isTerrible nNow ∨
                    (1 < infoExisting.nRefCount ∧ info.nRefCount = 0) then
                  -- Overwrite the existing new table entry.
                  (s.clearNew nUBucket nUBucketPos).map fun s =>
                    s.enterNew nUBucket nUBucketPos nId
                else if info.nRefCount = 0 then s.delete nId
                else some s

/-- What a call of `Add_` finds: whether addresses are routable, the times that
`GetAdjustedTime` gives and the number that is drawn. -/
structure AddView (CNetAddr : Type) where
  isRoutable : CAddress CNetAddr → Bool
  nNow : Int
  nNowTerrible : Int
  draw : Nat

def add (s : CAddrMan CNetAddr) (addr : CAddress CNetAddr) (source : CNetAddr)
    (nTimePenalty : Int) (view : AddView CNetAddr) : Option (Bool × CAddrMan CNetAddr) :=
  if !view.isRoutable addr then some (false, s)
  else
    match s.find addr.ip with
    | some (nId, info) =>
        let nTime := info.refreshTime addr nTimePenalty view.nNow
        -- add services
        let s := s.modifyInfo nId fun info =>
          { info with nTime, nServices := info.nServices ||| addr.nServices }
        -- do not update if no new information is present
        if addr.nTime = 0 ∨ (nTime ≠ 0 ∧ addr.nTime ≤ nTime) then some (false, s)
        -- do not update if the entry was already in the "tried" table
        else if info.fInTried then some (false, s)
        -- do not update if the max reference count is reached
        else if info.nRefCount = ADDRMAN_NEW_BUCKETS_PER_ADDRESS then some (false, s)
        else
          -- stochastic test: previous nRefCount == N: 2^N times harder to increase it
          let nFactor := 2 ^ info.nRefCount.toNat
          if 1 < nFactor ∧ view.draw % nFactor ≠ 0 then some (false, s)
          else (s.addToNew hashes nId source view.nNowTerrible).map fun s => (false, s)
    | none =>
        let (nId, s) := s.create addr source
        let s := s.modifyInfo nId fun info =>
          { info with nTime := toUnsigned (max 0 ((info.nTime.toNat : Int) - nTimePenalty)) }
        let s := { s with nNew := s.nNew + 1 }
        (s.addToNew hashes nId source view.nNowTerrible).map fun s => (true, s)

end Tables

def attempt (s : CAddrMan CNetAddr) (addr : CService CNetAddr) (nTime : Int) :
    CAddrMan CNetAddr :=
  match s.find addr.ip with
  | none => s
  | some (nId, info) =>
      if info.toCService ≠ addr then s
      else
        s.modifyInfo nId fun info =>
          { info with nLastTry := nTime, nAttempts := info.nAttempts + 1 }

def connected (s : CAddrMan CNetAddr) (addr : CService CNetAddr) (nTime : Int) :
    CAddrMan CNetAddr :=
  match s.find addr.ip with
  | none => s
  | some (nId, info) =>
      if info.toCService ≠ addr then s
      -- update info
      else if 20 * 60 < nTime - (info.nTime.toNat : Int) then
        s.modifyInfo nId fun info => { info with nTime := toUnsigned nTime }
      else s

omit [DecidableEq CNetAddr] in
/-- The loop of `GetAddr_` from place `n` on, with the draw and the time of each
iteration. -/
def gather (nNodes : Nat) (draws : Nat → Nat × Int) :
    Nat → Nat → List (CAddress CNetAddr) → CAddrMan CNetAddr →
      Option (List (CAddress CNetAddr) × CAddrMan CNetAddr)
  | 0, _, vAddr, s => some (vAddr, s)
  | left + 1, n, vAddr, s =>
      if nNodes ≤ vAddr.length then some (vAddr, s)
      else
        let nRndPos := (draws n).1 % (s.vRandom.length - n) + n
        match s.swapRandom n nRndPos with
        | none => none
        | some s =>
            match s.vRandom[n]? with
            | none => none
            | some nId =>
                match s.mapInfo.find? nId with
                | none => none
                | some ai =>
                    gather nNodes draws left (n + 1)
                      (if !ai.isTerrible (draws n).2 then vAddr ++ [ai.toCAddress] else vAddr)
                      s

omit [DecidableEq CNetAddr] in
def getAddr (s : CAddrMan CNetAddr) (draws : Nat → Nat × Int) :
    Option (List (CAddress CNetAddr) × CAddrMan CNetAddr) :=
  let nNodes := min (ADDRMAN_GETADDR_MAX_PCT * s.vRandom.length / 100) ADDRMAN_GETADDR_MAX
  gather nNodes draws s.vRandom.length 0 [] s

end CAddrMan

end Agrarian.Net
