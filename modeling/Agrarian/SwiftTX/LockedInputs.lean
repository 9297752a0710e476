import Agrarian.SwiftTX.Locks

/-!
# Locked inputs

An outpoint in `mapLockedInputs` makes `CheckBlock` reject blocks, and should
stand there only for a lock that collected its votes.  A request that the pool
refuses locks its inputs without any, and the clean-up releases the inputs of
accepted requests only.
-/

namespace Agrarian.SwiftTX

open Agrarian.Lib

/-- The transaction was requested, whatever became of the request. -/
def Requested (s : LockState) (txHash : Uint256) : Prop :=
  (s.mapTxLockReq.find? txHash).isSome ∨
    (s.mapTxLockReqRejected.find? txHash).isSome

/-- The locks carry their keys, those with a height were requested, and a
locked outpoint is an input of the request that the clean-up finds. -/
structure LocksHeld (s : LockState) : Prop where
  keyed : LocksKeyed s
  requested : ∀ txHash nBlockHeight votes,
    heightAndVotes s txHash = some (nBlockHeight, votes) →
    nBlockHeight ≠ 0 → Requested s txHash
  complete : ∀ out txHash, s.mapLockedInputs.find? out = some txHash →
    SWIFTTX_SIGNATURES_REQUIRED ≤ signatures s txHash
  inputs : ∀ out txHash, s.mapLockedInputs.find? out = some txHash →
    ∃ tx, s.mapTxLockReq.find? txHash = some tx ∧
      out ∈ tx.vin.map CTxIn.prevout

section Held

variable {world : World} {s s' : LockState} {tx : CTransaction}
  {ctx : CConsensusVote}

theorem LocksHeld.congr (h : LocksHeld s)
    (hlocks : s'.mapTxLocks = s.mapTxLocks)
    (hreq : s'.mapTxLockReq = s.mapTxLockReq)
    (hrejected : s'.mapTxLockReqRejected = s.mapTxLockReqRejected)
    (hlocked : s'.mapLockedInputs = s.mapLockedInputs) : LocksHeld s' where
  keyed := by
    unfold LocksKeyed
    rw [hlocks]
    exact h.keyed
  requested := by
    unfold heightAndVotes Requested
    rw [hlocks, hreq, hrejected]
    exact h.requested
  complete := by
    unfold signatures
    rw [hlocks, hlocked]
    exact h.complete
  inputs := by
    rw [hreq, hlocked]
    exact h.inputs

end Held

section Example

end Example

end Agrarian.SwiftTX
