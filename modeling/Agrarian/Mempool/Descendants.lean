import Agrarian.Mempool.TxMemPool

/-!
# Removing a transaction and its descendants

What `CTxMemPool::remove` takes out of the pool when it removes recursively: the
transaction if the pool has it, and every transaction of the pool that spends an
output of one that is taken out, or of the given one.

The spenders are found through `mapNextTx` while entries and index shrink.  The
loop is followed with the transactions taken out so far, the queue, and the rule
that a spender of one that was taken out is itself out or in the queue.
-/

namespace Agrarian.Mempool

open Agrarian.Lib Agrarian.Coins

namespace CTxMemPool

/-! ## Descendants -/

/-- The index names a transaction with the hash as the spender of an output. -/
def ChildOf (pool : CTxMemPool) (hash : Uint256) (tx : CTransaction)
    (child : Uint256) : Prop :=
  ∃ i < tx.vout.length, ∃ it, pool.mapNextTx.find? ⟨hash, i⟩ = some it ∧
    it.ptx.getHash = child

theorem mem_spenders {pool : CTxMemPool} {hash : Uint256} {tx : CTransaction}
    {child : Uint256} :
    child ∈ pool.spenders hash tx ↔ pool.ChildOf hash tx child := by
  unfold spenders ChildOf
  simp only [List.mem_filterMap, List.mem_range, Option.map_eq_some_iff]

/-- The transaction that is to be removed, as the pool has it. -/
def rootTx (pool : CTxMemPool) (origTx : CTransaction) : CTransaction :=
  (pool.mapTx.find? origTx.getHash).elim origTx CTxMemPoolEntry.tx

/-- The transactions that spend an output of the given one, directly or through
others. -/
inductive Descendant (pool : CTxMemPool) (origTx : CTransaction) : Uint256 → Prop
  | child {hash : Uint256} : pool.ChildOf origTx.getHash (pool.rootTx origTx) hash →
      Descendant pool origTx hash
  | next {hash child : Uint256} {entry : CTxMemPoolEntry} :
      Descendant pool origTx hash → pool.mapTx.find? hash = some entry →
      pool.ChildOf hash entry.tx child → Descendant pool origTx child

/-- The hashes that are to go: the given one and its descendants. -/
def ToRemove (pool : CTxMemPool) (origTx : CTransaction) (hash : Uint256) : Prop :=
  hash = origTx.getHash ∨ pool.Descendant origTx hash

theorem ToRemove.next {pool : CTxMemPool} {origTx : CTransaction}
    {hash child : Uint256} {entry : CTxMemPoolEntry} (h : pool.ToRemove origTx hash)
    (hentry : pool.mapTx.find? hash = some entry)
    (hchild : pool.ChildOf hash entry.tx child) : pool.ToRemove origTx child := by
  right
  rcases h with rfl | hdescendant
  · apply Descendant.child
    rwa [rootTx, hentry, Option.elim_some]
  · exact hdescendant.next hentry hchild

/-! ## The loop -/

/-- A pool from which transactions were taken out, with everything else as it
was. -/
structure PartOf (pool' pool : CTxMemPool) : Prop where
  inv : pool'.Inv
  mapTx : ∀ hash, pool'.mapTx.find? hash = none ∨
    pool'.mapTx.find? hash = pool.mapTx.find? hash

theorem PartOf.mapTx_eq_some {pool' pool : CTxMemPool} (h : pool'.PartOf pool)
    {hash : Uint256} {entry : CTxMemPoolEntry}
    (hentry : pool'.mapTx.find? hash = some entry) :
    pool.mapTx.find? hash = some entry := by
  rcases h.mapTx hash with hnone | hsame
  · rw [hnone] at hentry
    cases hentry
  · rw [← hsame, hentry]

/-- The index of the part has the entries of what is left. -/
theorem PartOf.mapNextTx {pool' pool : CTxMemPool} (h : pool'.PartOf pool)
    (hinv : pool.Inv) (out : COutPoint) (it : CInPoint) :
    pool'.mapNextTx.find? out = some it ↔
      pool.mapNextTx.find? out = some it ∧
        pool'.mapTx.find? it.ptx.getHash ≠ none := by
  rw [h.inv.mapNextTx, hinv.mapNextTx]
  constructor
  · rintro ⟨entry, hentry, hrest⟩
    refine ⟨⟨entry, h.mapTx_eq_some hentry, hrest⟩, ?_⟩
    rw [hentry]
    exact Option.some_ne_none entry
  · rintro ⟨⟨entry, hentry, hrest⟩, hleft⟩
    refine ⟨entry, ?_, hrest⟩
    rcases h.mapTx it.ptx.getHash with hnone | hsame
    · exact absurd hnone hleft
    · rw [hsame, hentry]

/-- Where the loop is: what was taken out is to go and was reported, and every
spender of it is out of the pool or in the queue. -/
structure Progress (pool : CTxMemPool) (origTx : CTransaction)
    (removed : List CTransaction) (s : Removal) (queue : List Uint256) : Prop where
  part : s.pool.PartOf pool
  taken : ∀ hash, s.pool.mapTx.find? hash ≠ pool.mapTx.find? hash →
    pool.ToRemove origTx hash
  queued : ∀ hash ∈ queue, pool.ToRemove origTx hash
  root : s.pool.mapTx.find? origTx.getHash = none ∨ origTx.getHash ∈ queue
  children : ∀ child, pool.mapTx.find? origTx.getHash = none →
    pool.ChildOf origTx.getHash origTx child →
    s.pool.mapTx.find? child = none ∨ child ∈ queue
  next : ∀ hash entry child, pool.mapTx.find? hash = some entry →
    s.pool.mapTx.find? hash = none → pool.ChildOf hash entry.tx child →
    s.pool.mapTx.find? child = none ∨ child ∈ queue
  reported : ∃ gone, s.removed = removed ++ gone ∧
    (gone.map CTransaction.getHash).Nodup ∧
    ∀ tx, tx ∈ gone ↔ ∃ hash entry, pool.mapTx.find? hash = some entry ∧
      entry.tx = tx ∧ s.pool.mapTx.find? hash = none

section Loop

variable {pool : CTxMemPool} {origTx : CTransaction} {removed : List CTransaction}
variable {s : Removal} {hash : Uint256} {queue : List Uint256}

theorem PartOf.erase {pool' : CTxMemPool} (h : pool'.PartOf pool)
    {entry : CTxMemPoolEntry} (hentry : pool'.mapTx.find? hash = some entry) :
    (pool'.eraseTx hash entry).PartOf pool := by
  refine ⟨eraseTx_inv h.inv hentry, fun other => ?_⟩
  show (pool'.mapTx.erase hash).find? other = none ∨ _
  by_cases hother : other = hash
  · rw [hother]
    exact Or.inl (KeyedMap.find?_erase_self _ _)
  · rw [eraseTx, KeyedMap.find?_erase_ne _ hother]
    exact h.mapTx other

/-- A spender that is left in the pool is found through the index. -/
theorem PartOf.mem_spenders {pool' : CTxMemPool} (h : pool'.PartOf pool)
    (hinv : pool.Inv) {tx : CTransaction} {child : Uint256}
    (hchild : pool.ChildOf hash tx child) :
    pool'.mapTx.find? child = none ∨ child ∈ pool'.spenders hash tx := by
  obtain ⟨i, hi, it, hnext, rfl⟩ := hchild
  by_cases hleft : pool'.mapTx.find? it.ptx.getHash = none
  · exact Or.inl hleft
  · exact Or.inr (CTxMemPool.mem_spenders.mpr
      ⟨i, hi, it, (h.mapNextTx hinv _ _).mpr ⟨hnext, hleft⟩, rfl⟩)

/-- A hash that the pool does not have any more is dropped from the queue. -/
theorem Progress.skip (h : Progress pool origTx removed s (hash :: queue))
    (hnone : s.pool.mapTx.find? hash = none) : Progress pool origTx removed s queue := by
  have hdrop : ∀ other, s.pool.mapTx.find? other = none ∨ other ∈ hash :: queue →
      s.pool.mapTx.find? other = none ∨ other ∈ queue := by
    rintro other (hgone | hmem)
    · exact Or.inl hgone
    · rcases List.mem_cons.mp hmem with rfl | hmem
      · exact Or.inl hnone
      · exact Or.inr hmem
  exact
    { part := h.part
      taken := h.taken
      queued := fun other hmem => h.queued other (List.mem_cons_of_mem _ hmem)
      root := hdrop _ h.root
      children := fun child hroot hchild => hdrop _ (h.children child hroot hchild)
      next := fun other entry child hentry hgone hchild =>
        hdrop _ (h.next other entry child hentry hgone hchild)
      reported := h.reported }

/-- A transaction is taken out, and its spenders are put into the queue. -/
theorem Progress.take (hinv : pool.Inv)
    (h : Progress pool origTx removed s (hash :: queue)) {entry : CTxMemPoolEntry}
    (hentry : s.pool.mapTx.find? hash = some entry) :
    Progress pool origTx removed
      { pool := s.pool.eraseTx hash entry, removed := s.removed ++ [entry.tx] }
      (queue ++ s.pool.spenders hash entry.tx) := by
  have hgoes := h.queued hash List.mem_cons_self
  have hentry' := h.part.mapTx_eq_some hentry
  have hself : (s.pool.eraseTx hash entry).mapTx.find? hash = none :=
    KeyedMap.find?_erase_self _ _
  have hothers : ∀ other, other ≠ hash →
      (s.pool.eraseTx hash entry).mapTx.find? other = s.pool.mapTx.find? other :=
    fun other hother => KeyedMap.find?_erase_ne _ hother
  have hdrop : ∀ other, s.pool.mapTx.find? other = none ∨ other ∈ hash :: queue →
      (s.pool.eraseTx hash entry).mapTx.find? other = none ∨
        other ∈ queue ++ s.pool.spenders hash entry.tx := by
    intro other hother
    by_cases hsame : other = hash
    · rw [hsame]
      exact Or.inl hself
    · rw [hothers other hsame]
      rcases hother with hgone | hmem
      · exact Or.inl hgone
      · exact Or.inr (List.mem_append_left _ (List.mem_of_ne_of_mem hsame hmem))
  constructor
  case part => exact h.part.erase hentry
  case taken =>
    intro other hchanged
    by_cases hsame : other = hash
    · rwa [hsame]
    · rw [hothers other hsame] at hchanged
      exact h.taken other hchanged
  case queued =>
    intro other hmem
    rcases List.mem_append.mp hmem with hold | hnew
    · exact h.queued other (List.mem_cons_of_mem _ hold)
    · obtain ⟨i, hi, it, hnext, hit⟩ := CTxMemPool.mem_spenders.mp hnew
      exact hgoes.next hentry'
        ⟨i, hi, it, ((h.part.mapNextTx hinv _ _).mp hnext).1, hit⟩
  case root => exact hdrop _ h.root
  case children => exact fun child hroot hchild => hdrop _ (h.children child hroot hchild)
  case next =>
    intro other e child he hgone hchild
    by_cases hsame : other = hash
    · -- the spenders of the one taken out just now
      subst hsame
      obtain rfl := Option.some.inj (hentry'.symm.trans he)
      rcases h.part.mem_spenders hinv hchild with hnone | hmem
      · exact hdrop child (Or.inl hnone)
      · exact Or.inr (List.mem_append_right _ hmem)
    · rw [hothers other hsame] at hgone
      exact hdrop _ (h.next other e child he hgone hchild)
  case reported =>
    obtain ⟨gone, hremoved, hnodup, hmem⟩ := h.reported
    have hhash : entry.tx.getHash = hash := h.part.inv.hash hash entry hentry
    refine ⟨gone ++ [entry.tx], by rw [hremoved, List.append_assoc], ?_, ?_⟩
    · rw [List.map_append, List.map_singleton, List.nodup_append]
      refine ⟨hnodup, List.nodup_singleton _, ?_⟩
      intro a ha b hb hab
      obtain ⟨tx, htx, rfl⟩ := List.mem_map.mp ha
      obtain ⟨other, e, he, rfl, hgone⟩ := (hmem tx).mp htx
      rw [List.mem_singleton.mp hb, hhash, hinv.hash other e he] at hab
      rw [hab, hentry] at hgone
      cases hgone
    · intro tx
      rw [List.mem_append, List.mem_singleton, hmem]
      constructor
      · rintro (⟨other, e, he, rfl, hgone⟩ | rfl)
        · refine ⟨other, e, he, rfl, ?_⟩
          by_cases hsame : other = hash
          · rw [hsame, hself]
          · rw [hothers other hsame, hgone]
        · exact ⟨hash, entry, hentry', rfl, hself⟩
      · rintro ⟨other, e, he, rfl, hgone⟩
        by_cases hsame : other = hash
        · rw [hsame, hentry'] at he
          rw [Option.some.inj he]
          exact Or.inr rfl
        · rw [hothers other hsame] at hgone
          exact Or.inl ⟨other, e, he, rfl, hgone⟩

/-- **One turn of the loop.** -/
theorem Progress.step (hinv : pool.Inv)
    (h : Progress pool origTx removed s (hash :: queue)) :
    Progress pool origTx removed (removeStep true s hash).1
      (queue ++ (removeStep true s hash).2) := by
  unfold removeStep
  cases hentry : s.pool.mapTx.find? hash with
  | none =>
      rw [List.append_nil]
      exact h.skip hentry
  | some entry => exact h.take hinv hentry

/-- The queue at the start: the hash, and its spenders if the pool does not have
it. -/
theorem Progress.start (hinv : pool.Inv) (origTx : CTransaction)
    (removed : List CTransaction) :
    Progress pool origTx removed { pool, removed }
      (origTx.getHash ::
        if true && (pool.mapTx.find? origTx.getHash).isNone then
          pool.spenders origTx.getHash origTx
        else []) := by
  constructor
  case part => exact ⟨hinv, fun hash => Or.inr rfl⟩
  case taken => exact fun hash hchanged => absurd rfl hchanged
  case queued =>
    intro hash hmem
    rcases List.mem_cons.mp hmem with hroot | hmem
    · exact Or.inl hroot
    · split at hmem
      · rename_i habsent
        rw [Bool.true_and, Option.isNone_iff_eq_none] at habsent
        refine Or.inr (Descendant.child ?_)
        rw [rootTx, habsent, Option.elim_none]
        exact CTxMemPool.mem_spenders.mp hmem
      · cases hmem
  case root => exact Or.inr List.mem_cons_self
  case children =>
    intro child hroot hchild
    right
    rw [hroot]
    exact List.mem_cons_of_mem _ (CTxMemPool.mem_spenders.mpr hchild)
  case next =>
    intro hash entry child hentry hgone
    rw [hentry] at hgone
    cases hgone
  case reported =>
    refine ⟨[], (List.append_nil removed).symm, List.nodup_nil, fun tx => ?_⟩
    constructor
    · intro hmem
      cases hmem
    · rintro ⟨hash, entry, hentry, -, hgone⟩
      rw [hentry] at hgone
      cases hgone

/-- With the queue empty, all that was to go is out of the pool. -/
theorem Progress.gone (h : Progress pool origTx removed s []) {hash : Uint256}
    (hgoes : pool.ToRemove origTx hash) : s.pool.mapTx.find? hash = none := by
  have hroot : s.pool.mapTx.find? origTx.getHash = none :=
    h.root.resolve_right List.not_mem_nil
  rcases hgoes with rfl | hdescendant
  · exact hroot
  · induction hdescendant with
    | @child child hchild =>
        cases hentry : pool.mapTx.find? origTx.getHash with
        | none =>
            rw [rootTx, hentry, Option.elim_none] at hchild
            exact (h.children child hentry hchild).resolve_right List.not_mem_nil
        | some entry =>
            rw [rootTx, hentry, Option.elim_some] at hchild
            exact (h.next _ entry child hentry hroot hchild).resolve_right
              List.not_mem_nil
    | next _ hentry hchild ih =>
        exact (h.next _ _ _ hentry ih hchild).resolve_right List.not_mem_nil

end Loop

/-- **A recursive removal ends.**  It takes out the transaction and its
descendants and nothing else, reports each of them once, and leaves the other
entries and their places in the index as they were. -/
theorem remove_descendants {pool : CTxMemPool} (hinv : pool.Inv)
    (origTx : CTransaction) (removed : List CTransaction) :
    ∃ s' gone, remove { pool, removed } origTx true = some s' ∧
      s'.removed = removed ++ gone ∧ (gone.map CTransaction.getHash).Nodup ∧
      (∀ tx, tx ∈ gone ↔ ∃ entry, pool.mapTx.find? tx.getHash = some entry ∧
        entry.tx = tx ∧ pool.ToRemove origTx tx.getHash) ∧
      (∀ hash entry, s'.pool.mapTx.find? hash = some entry ↔
        pool.mapTx.find? hash = some entry ∧ ¬ pool.ToRemove origTx hash) ∧
      (∀ out it, s'.pool.mapNextTx.find? out = some it ↔
        pool.mapNextTx.find? out = some it ∧ ¬ pool.ToRemove origTx it.ptx.getHash) ∧
      s'.pool.Inv := by
  obtain ⟨s', hrun, hend⟩ := Worklist.run_spec (removeStep_pays true)
    (Progress pool origTx removed) (fun s hash queue h => h.step hinv)
    (Progress.start hinv origTx removed) (Nat.le_refl _)
  obtain ⟨gone, hremoved, hnodup, hmem⟩ := hend.reported
  have hout : ∀ hash, pool.mapTx.find? hash ≠ none →
      (s'.pool.mapTx.find? hash = none ↔ pool.ToRemove origTx hash) := by
    intro hash hhas
    constructor
    · intro hnone
      exact hend.taken hash (by rw [hnone]; exact hhas.symm)
    · exact hend.gone
  have hmapTx : ∀ hash entry, s'.pool.mapTx.find? hash = some entry ↔
      pool.mapTx.find? hash = some entry ∧ ¬ pool.ToRemove origTx hash := by
    intro hash entry
    constructor
    · intro hentry
      refine ⟨hend.part.mapTx_eq_some hentry, fun hgoes => ?_⟩
      rw [hend.gone hgoes] at hentry
      cases hentry
    · rintro ⟨hentry, hstays⟩
      by_contra hchanged
      rw [← hentry] at hchanged
      exact hstays (hend.taken hash hchanged)
  refine ⟨s', gone, hrun, hremoved, hnodup, ?_, hmapTx, ?_, hend.part.inv⟩
  · intro tx
    rw [hmem]
    constructor
    · rintro ⟨hash, entry, hentry, rfl, hnone⟩
      rw [hinv.hash hash entry hentry]
      exact ⟨entry, hentry, rfl,
        (hout hash (by rw [hentry]; exact Option.some_ne_none _)).mp hnone⟩
    · rintro ⟨entry, hentry, htx, hgoes⟩
      exact ⟨tx.getHash, entry, hentry, htx, hend.gone hgoes⟩
  · intro out it
    rw [hend.part.mapNextTx hinv]
    constructor
    · rintro ⟨hnext, hleft⟩
      exact ⟨hnext, fun hgoes => hleft (hend.gone hgoes)⟩
    · rintro ⟨hnext, hstays⟩
      refine ⟨hnext, fun hnone => ?_⟩
      obtain ⟨entry, hentry, -⟩ := (hinv.mapNextTx out it).mp hnext
      have hleft := (hmapTx _ entry).mpr ⟨hentry, hstays⟩
      rw [hnone] at hleft
      cases hleft

/-- A pool with a transaction and its child. -/
def familyPool : CTxMemPool :=
  (addUnchecked {} 1 ⟨ordinaryTx, 100⟩).addUnchecked 2 ⟨childTx, 90⟩

theorem familyPool_inv : familyPool.Inv := by
  have hparent : (addUnchecked {} 1 ⟨ordinaryTx, 100⟩).Inv := by
    refine @addUnchecked_inv {} (inv_empty 0) ⟨ordinaryTx, 100⟩ (by decide) ?_
    intro hash entry hentry
    cases hentry
  refine @addUnchecked_inv _ hparent ⟨childTx, 90⟩ (by decide) ?_
  intro hash entry hentry hkinds
  have hmem := KeyedMap.mem_toList.mpr hentry
  rw [show entry = ⟨ordinaryTx, 100⟩ from
    (Prod.mk.inj (List.mem_singleton.mp hmem)).2] at hkinds
  exact absurd rfl hkinds

theorem remove_descendants_family : ∃ s' gone,
    remove { pool := familyPool } ordinaryTx true = some s' ∧ s'.removed = [] ++ gone ∧
      ordinaryTx ∈ gone ∧ childTx ∈ gone := by
  obtain ⟨s', gone, hrun, hremoved, -, hmem, -⟩ :=
    remove_descendants familyPool_inv ordinaryTx []
  have hchild : familyPool.Descendant ordinaryTx childTx.getHash :=
    Descendant.child ⟨0, by decide, ⟨childTx, 0⟩, rfl, rfl⟩
  exact ⟨s', gone, hrun, hremoved,
    (hmem ordinaryTx).mpr ⟨⟨ordinaryTx, 100⟩, rfl, rfl, Or.inl rfl⟩,
    (hmem childTx).mpr ⟨⟨childTx, 90⟩, rfl, rfl, Or.inr hchild⟩⟩

end CTxMemPool

end Agrarian.Mempool
