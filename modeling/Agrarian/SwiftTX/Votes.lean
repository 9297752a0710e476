import Agrarian.SwiftTX.Locks

/-!
# Counted votes

A lock should count every masternode once that voted for its transaction at
its height.  Votes are told apart by a hash that leaves out the height and the
signature, and that is recorded before the vote is checked: a vote that is
worth nothing keeps the vote with its hash from being counted.
-/

namespace Agrarian.SwiftTX

open Agrarian.Lib

/-- The votes in a lock. -/
def votesOf (s : LockState) (txHash : Uint256) : List CConsensusVote :=
  ((heightAndVotes s txHash).map Prod.snd).getD []

/-- The locks hold the genuine votes received, each under a hash that no other
vote in a lock has and that is recorded as known. -/
structure VotesCounted (received : List CConsensusVote) (s : LockState) :
    Prop where
  keyed : LocksKeyed s
  genuine : ∀ txHash, ∀ vote ∈ votesOf s txHash,
    vote.txHash = txHash ∧ vote ∈ received
  known : ∀ txHash, ∀ vote ∈ votesOf s txHash,
    (s.mapTxLockVote.find? vote.getHash).isSome
  distinct : ∀ txHash, ((votesOf s txHash).map CConsensusVote.getHash).Nodup
  disjoint : ∀ first second, first ≠ second →
    ∀ vote ∈ votesOf s first, ∀ vote' ∈ votesOf s second,
      vote.getHash ≠ vote'.getHash
  all : ∀ txHash, (heightAndVotes s txHash).isSome →
    ∀ vote ∈ received, vote.txHash = txHash →
      ∃ vote' ∈ votesOf s txHash,
        vote'.vinMasternode.prevout = vote.vinMasternode.prevout ∧
        vote'.nBlockHeight = vote.nBlockHeight

section Counted

variable {world : World} {s s' : LockState} {tx : CTransaction}
  {ctx : CConsensusVote} {received : List CConsensusVote}

/-! ## What the invariant says about the count -/

theorem VotesCounted.nodup_voters (h : VotesCounted received s)
    (txHash : Uint256) :
    ((votesOf s txHash).map fun vote => vote.vinMasternode.prevout).Nodup := by
  have hdistinct := h.distinct txHash
  -- within one lock the hash is a function of the masternode
  have hhash : (votesOf s txHash).map CConsensusVote.getHash =
      ((votesOf s txHash).map fun vote => vote.vinMasternode.prevout).map
        fun out => out.hash + BitVec.ofNat 256 out.n + txHash := by
    rw [List.map_map]
    apply List.map_congr_left
    intro vote hmem
    simp [CConsensusVote.getHash, (h.genuine txHash vote hmem).1]
  rw [hhash] at hdistinct
  exact hdistinct.of_map

theorem VotesCounted.countP_eq (h : VotesCounted received s)
    {txHash : Uint256} (hlock : (heightAndVotes s txHash).isSome)
    (nBlockHeight : Int) :
    (votesOf s txHash).countP (fun vote => vote.nBlockHeight = nBlockHeight) =
      ((received.filter fun vote =>
        vote.txHash = txHash ∧ vote.nBlockHeight = nBlockHeight).map
          fun vote => vote.vinMasternode.prevout).dedup.length := by
  have hcounted : (((votesOf s txHash).filter fun vote =>
      vote.nBlockHeight = nBlockHeight).map fun vote =>
        vote.vinMasternode.prevout).Nodup :=
    (h.nodup_voters txHash).sublist (List.filter_sublist.map _)
  rw [List.countP_eq_length_filter, ← List.length_map
    (fun vote : CConsensusVote => vote.vinMasternode.prevout)]
  apply List.Perm.length_eq
  rw [List.perm_ext_iff_of_nodup hcounted (List.nodup_dedup _)]
  intro out
  simp only [List.mem_dedup, List.mem_map, List.mem_filter,
    decide_eq_true_eq]
  constructor
  · rintro ⟨vote, ⟨hmem, hheight⟩, rfl⟩
    obtain ⟨htx, hreceived⟩ := h.genuine txHash vote hmem
    exact ⟨vote, ⟨hreceived, htx, hheight⟩, rfl⟩
  · rintro ⟨vote, ⟨hmem, htx, hheight⟩, rfl⟩
    obtain ⟨vote', hmem', hout, hheight'⟩ :=
      h.all txHash hlock vote hmem htx
    exact ⟨vote', ⟨hmem', hheight'.trans hheight⟩, hout⟩

/-- The locks keep their votes, and a new one is for a transaction that had no
genuine vote. -/
theorem VotesCounted.frame (h : VotesCounted received s)
    (hkeyed : LocksKeyed s')
    (hvotes : ∀ txHash, votesOf s' txHash = votesOf s txHash)
    (hknown : ∀ hash, (s.mapTxLockVote.find? hash).isSome →
      (s'.mapTxLockVote.find? hash).isSome)
    (hmade : ∀ txHash, (heightAndVotes s' txHash).isSome →
      (heightAndVotes s txHash).isSome ∨
        ∀ vote ∈ received, vote.txHash ≠ txHash) :
    VotesCounted received s' where
  keyed := hkeyed
  genuine := by
    intro txHash
    rw [hvotes]
    exact h.genuine txHash
  known := by
    intro txHash vote hmem
    rw [hvotes] at hmem
    exact hknown _ (h.known txHash vote hmem)
  distinct := by
    intro txHash
    rw [hvotes]
    exact h.distinct txHash
  disjoint := by
    intro first second hne
    rw [hvotes, hvotes]
    exact h.disjoint first second hne
  all := by
    intro txHash hlock vote hmem htx
    rw [hvotes]
    rcases hmade txHash hlock with hold | hnone
    · exact h.all txHash hold vote hmem htx
    · exact absurd htx (hnone vote hmem)

theorem VotesCounted.add (h : VotesCounted received s)
    (hnew : s.mapTxLockVote.find? ctx.getHash = none)
    (hmade : s.mapTxLocks.find? ctx.txHash = none →
      ∀ vote ∈ received, vote.txHash ≠ ctx.txHash)
    (hkeyed : LocksKeyed s')
    (hcontent : ∀ txHash,
      heightAndVotes s' txHash = heightAndVotes (addVote world s ctx) txHash)
    (hvote : s'.mapTxLockVote = s.mapTxLockVote.insert ctx.getHash ctx) :
    VotesCounted (received ++ [ctx]) s' := by
  have hvotes : ∀ txHash, votesOf s' txHash =
      if txHash = ctx.txHash then votesOf s txHash ++ [ctx]
      else votesOf s txHash := by
    intro txHash
    unfold votesOf
    rw [hcontent, heightAndVotes_addVote]
    split <;> rfl
  have hmem : ∀ txHash vote, vote ∈ votesOf s' txHash ↔
      vote ∈ votesOf s txHash ∨ txHash = ctx.txHash ∧ vote = ctx := by
    intro txHash vote
    rw [hvotes]
    split
    · rename_i hhash
      simp [hhash]
    · rename_i hhash
      simp [hhash]
  -- the hash of the vote was not known, so no vote in a lock has it
  have hfresh : ∀ txHash, ∀ vote ∈ votesOf s txHash,
      vote.getHash ≠ ctx.getHash := by
    intro txHash vote hin heq
    have hsome := h.known txHash vote hin
    rw [heq, hnew] at hsome
    cases hsome
  refine ⟨hkeyed, ?_, ?_, ?_, ?_, ?_⟩
  · intro txHash vote hin
    rcases (hmem txHash vote).mp hin with hold | ⟨rfl, rfl⟩
    · have hgenuine := h.genuine txHash vote hold
      exact ⟨hgenuine.1, by simp [hgenuine.2]⟩
    · exact ⟨rfl, by simp⟩
  · intro txHash vote hin
    rw [hvote, KeyedMap.find?_insert]
    rcases (hmem txHash vote).mp hin with hold | ⟨-, rfl⟩
    · rw [if_neg (hfresh txHash vote hold)]
      exact h.known txHash vote hold
    · simp
  · intro txHash
    rw [hvotes]
    split
    · rw [List.map_append, List.map_singleton, List.nodup_append]
      refine ⟨h.distinct txHash, List.nodup_singleton _, ?_⟩
      intro hash hin other hother
      obtain ⟨vote, hold, rfl⟩ := List.mem_map.mp hin
      rw [List.mem_singleton.mp hother]
      exact hfresh txHash vote hold
    · exact h.distinct txHash
  · intro first second hne vote hin vote' hin'
    rcases (hmem first vote).mp hin with hold | ⟨rfl, rfl⟩
    · rcases (hmem second vote').mp hin' with hold' | ⟨-, rfl⟩
      · exact h.disjoint first second hne vote hold vote' hold'
      · exact hfresh first vote hold
    · rcases (hmem second vote').mp hin' with hold' | ⟨hsecond, -⟩
      · exact (hfresh second vote' hold').symm
      · exact absurd hsecond.symm hne
  · intro txHash hlock vote hin htx
    rcases List.mem_append.mp hin with hold | hlast
    · -- there was a lock already, since its transaction had votes
      have hbefore : (heightAndVotes s txHash).isSome := by
        rw [hcontent, heightAndVotes_addVote] at hlock
        split at hlock
        · rename_i hhash
          cases hfind : s.mapTxLocks.find? ctx.txHash with
          | none => exact absurd (htx.trans hhash) (hmade hfind vote hold)
          | some lock =>
              rw [hhash]
              simp [heightAndVotes, hfind]
        · exact hlock
      obtain ⟨vote', hin', hsame⟩ := h.all txHash hbefore vote hold htx
      exact ⟨vote', (hmem txHash vote').mpr (Or.inl hin'), hsame⟩
    · obtain rfl := List.mem_singleton.mp hlast
      exact ⟨vote, (hmem txHash vote).mpr (Or.inr ⟨htx.symm, rfl⟩), rfl, rfl⟩

end Counted

section Example

/-- Only the signature `[1]` is valid here. -/
def signedWorld : World :=
  { votingWorld with
    signatureValid := fun ctx => ctx.vchMasterNodeSignature == [1] }

end Example

end Agrarian.SwiftTX
