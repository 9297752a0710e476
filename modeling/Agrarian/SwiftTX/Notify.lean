import Agrarian.SwiftTX.Locks

/-!
# The report of a complete lock

`NotifyTransactionLock` should be sent once for a request that was accepted
and has its votes, whichever came first.  Both handlers send it when the count
they find equals the number required: a vote that adds nothing to a count that
is already there sends it again, and a count that is past it when the request
arrives sends none.
-/

namespace Agrarian.SwiftTX

open Agrarian.Lib

/-- The reported transaction, if it has this hash. -/
def reportFor (txHash : Uint256) : Signal → Option CTransaction
  | .notifyTransactionLock tx =>
      if tx.getHash = txHash then some tx else none
  | _ => none

/-- The transactions with a hash that were reported, in order. -/
def notifiedFor (signals : List Signal) (txHash : Uint256) :
    List CTransaction :=
  signals.filterMap (reportFor txHash)

/-- The request for the transaction was accepted, and hence relayed. -/
def Accepted (s : LockState) (txHash : Uint256) : Prop :=
  .relayRequest txHash ∈ s.signals

/-- Requests stand under the hashes of their transactions, and an accepted
one with enough votes has been reported once, as it stands there. -/
structure NotifiesOnce (s : LockState) : Prop where
  keyed : ∀ txHash tx, s.mapTxLockReq.find? txHash = some tx →
    tx.getHash = txHash
  once : ∀ txHash, Accepted s txHash →
    SWIFTTX_SIGNATURES_REQUIRED ≤ signatures s txHash →
    ∃ tx, s.mapTxLockReq.find? txHash = some tx ∧
      notifiedFor s.signals txHash = [tx]

/-- Counts are not looked at while a fork with much work is known. -/
def forkFound (world : World) : Bool :=
  world.fLargeWorkForkFound || world.fLargeWorkInvalidChainFound

/-- The count after a vote with a new hash. -/
def countAfter (world : World) (s : LockState) (ctx : CConsensusVote) : Int :=
  if isGenuine world ctx then signatures (addVote world s ctx) ctx.txHash
  else signatures s ctx.txHash

/-- What is reported so far of the accepted requests. -/
structure Reported (s : LockState) : Prop extends NotifiesOnce s where
  locksKeyed : LocksKeyed s
  quiet : ∀ txHash tx, Accepted s txHash →
    s.mapTxLockReq.find? txHash = some tx →
    signatures s txHash < SWIFTTX_SIGNATURES_REQUIRED →
    notifiedFor s.signals txHash = []

section Reports

variable {world : World} {s s' : LockState} {tx : CTransaction}
  {ctx : CConsensusVote} {txHash : Uint256}

/-! ## Signals -/

/-- Neither an accepted request nor a report. -/
def Signal.Silent (signal : Signal) : Prop :=
  (∃ hash, signal = .relayVote hash) ∨ signal = .reprocessBlocks 15

/-- A message about one transaction leaves what is reported of the others. -/
theorem Reported.focus (h : Reported s) (txHash : Uint256)
    (hlocks : LocksKeyed s')
    (hsignatures : ∀ key, key ≠ txHash → signatures s' key = signatures s key)
    (hreq : ∀ key, key ≠ txHash →
      s'.mapTxLockReq.find? key = s.mapTxLockReq.find? key)
    (hnotified : ∀ key, key ≠ txHash →
      notifiedFor s'.signals key = notifiedFor s.signals key)
    (haccepted : ∀ key, key ≠ txHash → Accepted s' key → Accepted s key)
    (hkeyed : ∀ tx, s'.mapTxLockReq.find? txHash = some tx →
      tx.getHash = txHash)
    (honce : Accepted s' txHash →
      SWIFTTX_SIGNATURES_REQUIRED ≤ signatures s' txHash →
      ∃ tx, s'.mapTxLockReq.find? txHash = some tx ∧
        notifiedFor s'.signals txHash = [tx])
    (hquiet : ∀ tx, Accepted s' txHash →
      s'.mapTxLockReq.find? txHash = some tx →
      signatures s' txHash < SWIFTTX_SIGNATURES_REQUIRED →
      notifiedFor s'.signals txHash = []) :
    Reported s' where
  keyed := by
    intro key tx hfind
    by_cases hkey : key = txHash
    · subst hkey
      exact hkeyed tx hfind
    · rw [hreq key hkey] at hfind
      exact h.keyed key tx hfind
  once := by
    intro key hacc hcount
    by_cases hkey : key = txHash
    · subst hkey
      exact honce hacc hcount
    · rw [hsignatures key hkey] at hcount
      rw [hreq key hkey, hnotified key hkey]
      exact h.once key (haccepted key hkey hacc) hcount
  locksKeyed := hlocks
  quiet := by
    intro key tx hacc hfind hcount
    by_cases hkey : key = txHash
    · subst hkey
      exact hquiet tx hacc hfind hcount
    · rw [hsignatures key hkey] at hcount
      rw [hreq key hkey] at hfind
      rw [hnotified key hkey]
      exact h.quiet key tx (haccepted key hkey hacc) hfind hcount

/-! ## A request -/

/-- A vote moves the count by at most one. -/
theorem countAfter_le (world : World) (s : LockState) (ctx : CConsensusVote) :
    signatures s ctx.txHash ≤ countAfter world s ctx ∧
      countAfter world s ctx ≤ signatures s ctx.txHash + 1 := by
  unfold countAfter
  split
  · rw [signatures_eq, signatures_eq, heightAndVotes_addVote, if_pos rfl]
    cases heightAndVotes s ctx.txHash with
    | none => simp
    | some content =>
        obtain ⟨nBlockHeight, votes⟩ := content
        simp only [Option.map_some, Option.getD_some, List.countP_append,
          List.countP_singleton]
        split
        · omega
        · split <;> omega
  · omega

/-- The report of a vote that makes the count the number required. -/
def voteReport (world : World) (s : LockState) (ctx : CConsensusVote) : List Signal :=
  match s.mapTxLockReq.find? ctx.txHash with
  | none => []
  | some tx =>
      if forkFound world = false ∧
          countAfter world s ctx = SWIFTTX_SIGNATURES_REQUIRED then
        [.notifyTransactionLock tx]
      else []

/-- What a vote does that enters no request. -/
structure VoteDone (world : World) (ctx : CConsensusVote) (s s' : LockState) : Prop where
  requests : ∀ key, s'.mapTxLockReq.find? key = s.mapTxLockReq.find? key
  counts : ∀ key, signatures s' key =
    if key = ctx.txHash then countAfter world s ctx else signatures s key
  accepted : ∀ key, Accepted s' key → Accepted s key
  notified : ∀ key, notifiedFor s'.signals key =
    notifiedFor s.signals key ++ notifiedFor (voteReport world s ctx) key

/-- The transaction of a vote, where the count is the number required
afterwards: reported before and not again, or reported now. -/
theorem VoteDone.once (hdone : VoteDone world ctx s s') (h : Reported s)
    (hreports : if (s.mapTxLockReq.find? ctx.txHash).isSome then
        Accepted s ctx.txHash →
        countAfter world s ctx = SWIFTTX_SIGNATURES_REQUIRED →
          (signatures s ctx.txHash = SWIFTTX_SIGNATURES_REQUIRED ↔
            forkFound world = true)
      else isGenuine world ctx →
        countAfter world s ctx < SWIFTTX_SIGNATURES_REQUIRED)
    (hacc : Accepted s' ctx.txHash)
    (hmany : SWIFTTX_SIGNATURES_REQUIRED ≤ signatures s' ctx.txHash) :
    ∃ tx, s'.mapTxLockReq.find? ctx.txHash = some tx ∧
      notifiedFor s'.signals ctx.txHash = [tx] := by
  have hbounds := countAfter_le world s ctx
  rw [hdone.counts, if_pos rfl] at hmany
  rw [hdone.requests, hdone.notified, voteReport]
  have hold := hdone.accepted _ hacc
  by_cases hbefore : SWIFTTX_SIGNATURES_REQUIRED ≤ signatures s ctx.txHash
  · -- reported already: the number was there before, and is not reported now
    obtain ⟨tx, hfind, honce⟩ := h.once ctx.txHash hold hbefore
    rw [hfind] at hreports ⊢
    refine ⟨tx, rfl, ?_⟩
    simp only [Option.isSome_some, if_true] at hreports
    have hsilentNow : ¬ (forkFound world = false ∧
        countAfter world s ctx = SWIFTTX_SIGNATURES_REQUIRED) := by
      rintro ⟨hfork, hexact⟩
      have hthere : signatures s ctx.txHash = SWIFTTX_SIGNATURES_REQUIRED := by
        omega
      have hforked := (hreports hold hexact).mp hthere
      rw [hfork] at hforked
      cases hforked
    simp only [if_neg hsilentNow, honce]
    rfl
  · -- this vote makes the number, and is reported
    have hexact : countAfter world s ctx = SWIFTTX_SIGNATURES_REQUIRED := by
      omega
    cases hfind : s.mapTxLockReq.find? ctx.txHash with
    | none =>
        rw [hfind] at hreports
        simp only [Option.isSome_none, Bool.false_eq_true,
          if_false] at hreports
        by_cases hgenuine : isGenuine world ctx
        · exact absurd (hreports hgenuine) (by omega)
        · rw [countAfter, if_neg hgenuine] at hexact
          exact absurd hexact (by omega)
    | some tx =>
        rw [hfind] at hreports
        simp only [Option.isSome_some, if_true] at hreports
        have hfork : forkFound world = false := by
          rw [← Bool.not_eq_true]
          intro hforked
          have hthere := (hreports hold hexact).mpr hforked
          exact hbefore hthere.ge
        have hquiet := h.quiet ctx.txHash tx hold hfind (not_le.mp hbefore)
        refine ⟨tx, rfl, ?_⟩
        have hhash := h.keyed ctx.txHash tx hfind
        rw [hquiet]
        simp [hfork, hexact, notifiedFor, reportFor, hhash]

theorem Removed.reported {lock : CTransactionLock}
    (hremoved : Removed s s' txHash lock) (h : Reported s) : Reported s' := by
  have hnone : signatures s' txHash = -1 := by
    rw [signatures_eq, hremoved.heightAndVotes, if_pos rfl]
  have hsame : ∀ key, Accepted s' key → Accepted s key := by
    intro key hacc
    unfold Accepted at hacc ⊢
    rw [← hremoved.signals]
    exact hacc
  refine h.focus txHash (hremoved.keyed h.locksKeyed) ?_ ?_ ?_
    (fun key _ => hsame key) ?_ ?_ ?_
  · intro key hkey
    apply signatures_congr
    rw [hremoved.heightAndVotes, if_neg hkey]
  · intro key hkey
    rw [hremoved.requests, if_neg hkey]
  · intro key _
    rw [hremoved.signals]
  · intro tx hfind
    rw [hremoved.requests, if_pos rfl] at hfind
    cases hfind
  · intro _ hmany
    rw [hnone] at hmany
    exact absurd hmany (by decide)
  · intro tx _ hfind _
    rw [hremoved.requests, if_pos rfl] at hfind
    cases hfind

end Reports

section Example

end Example

end Agrarian.SwiftTX
