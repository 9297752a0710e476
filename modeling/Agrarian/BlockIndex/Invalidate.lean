import Agrarian.BlockIndex.BestChain

/-!
# Invalidating and reconsidering blocks

`InvalidateBlock` marks a block, takes the active chain back below it and adds
the blocks that are now good enough to the candidates; `ReconsiderBlock` takes
the marks off a block, its descendants and its ancestors.  Together with the
arrival of headers and data and `ActivateBestChain` these are all the steps
that change failure marks and candidates, and `CheckBlockIndex` asserts how the
two hang together.
-/

namespace Agrarian.BlockIndex

open Agrarian.Lib Agrarian.Lib.Forest

variable {B : Type} [LinearOrder B]

namespace State

/-- `GetAncestor`. -/
def getAncestor (s : State B) (b : B) (nHeight : Nat) : Option B :=
  (s.path b)[nHeight]?

/-- `nStatus |= BLOCK_FAILED_CHILD`, for a tip on its way out. -/
def failTip (s : State B) (pindexWalk : B) : State B :=
  (s.modify pindexWalk fun e => { e with failedChild := true }).eraseCandidate
    pindexWalk

/-- Disconnect the active chain down to below `pindex`. -/
def disconnectFailed (env : Env B) (pindex : B) :
    Nat → State B → Except Halt (Bool × State B)
  | 0, _ => .error .outOfFuel
  | fuel + 1, s =>
      if s.contains pindex then
        match s.tip with
        | none => .ok (true, s)
        | some pindexWalk =>
            let s := s.failTip pindexWalk
            match s.disconnectTip env with
            | none => .ok (false, s)
            | some s => disconnectFailed env pindex fuel s
      else .ok (true, s)

/-- The resulting new best tip may not be in `setBlockIndexCandidates`
anymore, so add them again. -/
def readdCandidates (s : State B) : State B :=
  s.mapBlockIndex.foldl (fun s b =>
    if (s.index b).isValid && (s.index b).nChainTx ≠ 0 && !s.worseThanTip b then
      s.insertCandidate b
    else s) s

def invalidateBlock (env : Env B) (s : State B) (pindex : B) :
    Except Halt (Bool × State B) := do
  let s := s.invalidBlockFound pindex
  let (fDone, s) ← disconnectFailed env pindex (s.chainActive.length + 1) s
  if fDone then .ok (true, s.readdCandidates) else .ok (false, s)

/-- The tip of the active chain is worse than the block. -/
def tipWorseThan (s : State B) (b : B) : Bool :=
  match s.tip with
  | none => false
  | some t => s.worse t b

/-- The first loop of `ReconsiderBlock` at one block of the index. -/
def reconsiderDescendant (pindex : B) (s : State B) (b : B) : State B :=
  if !(s.index b).isValid && s.getAncestor b (s.height pindex) = some pindex
  then
    let s := s.modify b CBlockIndex.unmarked
    if (s.index b).isValid && (s.index b).nChainTx ≠ 0 && s.tipWorseThan b then
      s.insertCandidate b
    else s
  else s

/-- The second loop at one ancestor. -/
def reconsiderAncestor (s : State B) (b : B) : State B :=
  if (s.index b).failed then s.modify b CBlockIndex.unmarked else s

def reconsiderBlock (s : State B) (pindex : B) : State B :=
  let s := s.mapBlockIndex.foldl (reconsiderDescendant pindex) s
  (s.path pindex).reverse.foldl reconsiderAncestor s

/-- `AcceptBlock`, when the block it was given fails its checks. -/
def rejectBlock (s : State B) (b : B) : State B :=
  s.modify b fun e => { e with failedValid := true }

/-! ## What the steps keep -/

/-- The bookkeeping between the steps, with genesis block `g`. -/
structure Good (g : B) (s : State B) : Prop where
  linking : Linking s []
  covered : s.Covered
  root : ∀ b ∈ s.mapBlockIndex, s.parent b = none → b = g
  active : ∀ a, s.Active a → (s.index a).failed = false
  /-- `BLOCK_FAILED_CHILD` has a cause. -/
  cause : ∀ b ∈ s.mapBlockIndex, (s.index b).failedChild = true →
    ∃ a, Ancestor s.parent a b ∧ (s.index a).failedValid = true

omit [LinearOrder B] in
/-- The bookkeeping of data reads no mark. -/
theorem Linking.of_entries {s s' : State B} (h : Linking s [])
    (hmap : s'.mapBlockIndex = s.mapBlockIndex)
    (hentry : ∀ x, (s'.index x).unmarked = (s.index x).unmarked)
    (hunlinked : s'.mapBlocksUnlinked = s.mapBlocksUnlinked)
    (hcandidates : ∀ b ∈ s'.setBlockIndexCandidates,
      b ∈ s.mapBlockIndex ∧ (s.index b).nChainTx ≠ 0)
    (htip : ∀ t, s'.tip = some t → t ∈ s.mapBlockIndex ∧
      (s.index t).nChainTx ≠ 0) : Linking s' [] := by
  have hfield : ∀ {γ : Type} (f : CBlockIndex B → γ),
      (∀ e, f e.unmarked = f e) → ∀ x, f (s'.index x) = f (s.index x) := by
    intro γ f hf x
    rw [← hf, hentry, hf]
  have hparent : s'.parent = s.parent :=
    funext (hfield CBlockIndex.pprev fun _ => rfl)
  have hheight : s'.height = s.height :=
    funext (hfield CBlockIndex.nHeight fun _ => rfl)
  have hdata := hfield CBlockIndex.haveData fun _ => rfl
  have hlink := hfield CBlockIndex.nChainTx fun _ => rfl
  have hnTx := hfield CBlockIndex.nTx fun _ => rfl
  have hvalid := hfield CBlockIndex.validTransactions fun _ => rfl
  have hsum : ∀ b, s'.txSum b = s.txSum b := txSum_congr hparent hheight hnTx
  have htree : s'.TreeInv := by
    unfold TreeInv
    rw [hparent, hheight, hmap]
    exact h.tree
  constructor
  · exact htree
  all_goals simp only [hmap, hparent, hdata, hlink, hnTx, hvalid, hsum,
    hunlinked]
  · exact h.sound
  · exact h.sum
  · exact h.fits
  · exact h.queued
  · exact h.nodup
  · exact h.unlinked
  · exact h.complete
  · exact h.hasTx
  · exact h.noTx
  · exact h.valid
  · exact hcandidates
  · exact htip

omit [LinearOrder B] in
theorem Linking.active_linked {s : State B} (h : Linking s []) {a : B}
    (ha : s.Active a) : a ∈ s.mapBlockIndex ∧ (s.index a).nChainTx ≠ 0 := by
  rcases ha with ⟨t, ht, hat⟩
  have htip := h.tip t ht
  refine ⟨hat.mem h.tree htip.1, h.linked (hat.mem h.tree htip.1) ?_⟩
  intro x hx
  exact h.allData htip.1 htip.2 x (hx.trans hat)

/-- In a tree with one root all blocks descend from it. -/
theorem Good.genesis {g : B} {s : State B} (h : Good g s) {b : B}
    (hb : b ∈ s.mapBlockIndex) : Ancestor s.parent g b := by
  apply path_induction h.linking.tree _ _ hb
  · intro b hb hp
    rw [h.root b hb hp]
    exact Ancestor.refl
  · intro b p _ hp ih
    exact Ancestor.step hp ih

theorem Good.ready {g : B} {s : State B} (h : Good g s) : s.Ready :=
  h.linking.ready h.covered h.active

/-! ## Arrivals -/

section Arrivals

variable {g : B} {s : State B}

theorem addToBlockIndex_good {block : Header B} (h : Good g s)
    (hroot : block.hash ≠ g → block.hashPrevBlock ∈ s.mapBlockIndex) :
    Good g (s.addToBlockIndex block) := by
  by_cases hnew : block.hash ∈ s.mapBlockIndex
  · rw [addToBlockIndex_known hnew]
    exact h
  have hold : ∀ x ∈ s.mapBlockIndex,
      (s.addToBlockIndex block).index x = s.index x := fun x hx =>
    addToBlockIndex_old hnew hx
  have hancestor : ∀ {a x : B}, x ∈ s.mapBlockIndex →
      (Ancestor (s.addToBlockIndex block).parent a x ↔
        Ancestor s.parent a x) := by
    intro a x hx
    constructor
    · intro ha
      have htree := addToBlockIndex_tree hnew h.linking.tree
      induction ha with
      | refl => exact Ancestor.refl
      | @step p x hp _ ih =>
          have hp' : s.parent x = some p := by
            rw [← hp]
            exact (congrArg CBlockIndex.pprev (hold _ hx)).symm
          exact Ancestor.step hp' (ih (h.linking.tree.closed hx hp'))
    · intro ha
      exact ha.congr fun y hy => congrArg CBlockIndex.pprev
        (hold y (hy.mem h.linking.tree hx))
  refine ⟨addToBlockIndex_linking h.linking,
    addToBlockIndex_covered h.linking h.covered, ?_, ?_, ?_⟩
  · intro b hb hp
    rw [addToBlockIndex_mapBlockIndex hnew] at hb
    rcases List.mem_cons.mp hb with rfl | hb
    · by_contra hg
      have hprev := hroot hg
      have hentry : (s.addToBlockIndex block).index block.hash =
          { pprev := some block.hashPrevBlock
            nHeight := (s.index block.hashPrevBlock).nHeight + 1
            nChainWork :=
              (s.index block.hashPrevBlock).nChainWork + block.proof } := by
        unfold addToBlockIndex
        rw [if_neg hnew]
        exact (Function.update_self ..).trans (if_pos hprev)
      have hparent : (s.addToBlockIndex block).parent block.hash =
          some block.hashPrevBlock := congrArg CBlockIndex.pprev hentry
      rw [hp] at hparent
      cases hparent
    · apply h.root b hb
      rw [← hp]
      exact (congrArg CBlockIndex.pprev (hold b hb)).symm
  · rintro a ⟨t, ht, hat⟩
    rw [addToBlockIndex_sets.2.2] at ht
    have htip := (h.linking.tip t ht).1
    rw [hancestor htip] at hat
    rw [hold a (hat.mem h.linking.tree htip)]
    exact h.active a ⟨t, ht, hat⟩
  · intro b hb hmark
    rw [addToBlockIndex_mapBlockIndex hnew] at hb
    rcases List.mem_cons.mp hb with rfl | hb
    · rcases addToBlockIndex_index_self hnew with ⟨_, _, _, hself, -⟩
      rw [hself] at hmark
      cases hmark
    · rw [hold b hb] at hmark
      rcases h.cause b hb hmark with ⟨a, ha, hvalid⟩
      refine ⟨a, (hancestor hb).mpr ha, ?_⟩
      rw [hold a (ha.mem h.linking.tree hb)]
      exact hvalid

theorem acceptBlockHeader_good {checkBlockHeader contextual : Bool}
    {block : Header B} (h : Good g s) :
    Good g (acceptBlockHeader g checkBlockHeader contextual s block).2 := by
  unfold acceptBlockHeader
  split
  · exact h
  · split
    · exact h
    · split
      · exact h
      · rename_i hprev
        split
        · exact h
        · apply addToBlockIndex_good h
          intro hg
          by_contra hmissing
          exact hprev ⟨hg, Or.inl hmissing⟩

theorem receivedBlockTransactions_good {b : B} {nTx : Nat} {s' : State B}
    (h : Good g s) (hallowed : DataAllowed s b nTx)
    (hs' : s.receivedBlockTransactions b nTx = some s') : Good g s' := by
  rcases receivedBlockTransactions_spec h.linking h.covered hallowed with
    ⟨s'', hs'', hlinking, hcov, hsame⟩
  have heq : s'' = s' := Option.some.inj (hs''.symm.trans hs')
  subst heq
  refine ⟨hlinking, hcov, ?_, ?_, ?_⟩
  · rw [hsame.mapBlockIndex, hsame.parent]
    exact h.root
  · unfold Active CBlockIndex.failed
    simp only [hsame.tip, hsame.parent, hsame.failedValid, hsame.failedChild]
    exact h.active
  · simp only [hsame.mapBlockIndex, hsame.parent, hsame.failedValid,
      hsame.failedChild]
    exact h.cause

/-- A rejected block has no data, so no active block is marked. -/
theorem rejectBlock_good {b : B} (h : Good g s)
    (hdata : (s.index b).haveData = false) : Good g (s.rejectBlock b) := by
  have hindex : ∀ x, (s.rejectBlock b).index x =
      if x = b then { s.index x with failedValid := true }
      else s.index x := invalidBlockFound_index s b
  have hentry : ∀ x, ((s.rejectBlock b).index x).unmarked =
      (s.index x).unmarked := by
    intro x
    rw [hindex]
    split <;> rfl
  have hkept : Kept s (s.rejectBlock b) := by
    refine ⟨rfl, hentry, fun x hx => ?_, fun x hx => hx⟩
    rw [hindex]
    split
    · simp [CBlockIndex.failed]
    · exact hx
  refine ⟨h.linking.of_entries rfl hentry rfl h.linking.candidates
    h.linking.tip, ?_, ?_, ?_, ?_⟩
  · intro x hx hlink hmark hworse
    have hlink' : (s.index x).nChainTx ≠ 0 := by
      rw [← hkept.field CBlockIndex.nChainTx fun _ => rfl]
      exact hlink
    apply h.covered x hx hlink'
    · by_contra hfailed
      have hfailed' := hkept.failed x (Bool.eq_true_of_not_eq_false hfailed)
      rw [hmark] at hfailed'
      cases hfailed'
    · unfold worseThanTip at *
      change (match s.tip with
        | none => false
        | some t => (s.rejectBlock b).worse x t) = false at hworse
      cases htip : s.tip with
      | none => rfl
      | some t =>
          rw [htip] at hworse
          exact (hkept.worse x t).symm.trans hworse
  · rw [hkept.parent]
    exact h.root
  · rintro a ⟨t, ht, hat⟩
    rw [hkept.parent] at hat
    have htip := h.linking.tip t ht
    rw [hindex, if_neg]
    · exact h.active a ⟨t, ht, hat⟩
    · rintro rfl
      rw [h.linking.allData htip.1 htip.2 a hat] at hdata
      cases hdata
  · intro x hx hmark
    rw [hkept.parent]
    have hmark' : (s.index x).failedChild = true := by
      rw [hindex] at hmark
      split at hmark <;> exact hmark
    rcases h.cause x hx hmark' with ⟨a, ha, hvalid⟩
    refine ⟨a, ha, ?_⟩
    rw [hindex]
    split
    · rfl
    · exact hvalid

end Arrivals

/-! ## Invalidating -/

section Invalidate

variable {g : B} {env : Env B} {s s' : State B} {p : B}

theorem failTip_index (s : State B) (t x : B) :
    (s.failTip t).index x =
      if x = t then { s.index x with failedChild := true } else s.index x := by
  show Function.update s.index t _ x = _
  by_cases hx : x = t
  · rw [if_pos hx, hx, Function.update_self]
  · rw [if_neg hx, Function.update_of_ne hx]

/-- What the loop of `InvalidateBlock` does: it marks blocks from `p` up, and
takes candidates away and the chain down. -/
structure Lowered (p : B) (s s' : State B) : Prop where
  kept : Kept s s'
  mapBlocksUnlinked : s'.mapBlocksUnlinked = s.mapBlocksUnlinked
  failedValid : ∀ x, (s'.index x).failedValid = (s.index x).failedValid
  failedChild : ∀ x, (s'.index x).failedChild = true →
    (s.index x).failedChild = true ∨ Ancestor s.parent p x
  active : ∀ a, s'.Active a → s.Active a

omit [LinearOrder B] in
theorem Lowered.refl (p : B) (s : State B) : Lowered p s s :=
  ⟨Kept.refl s, rfl, fun _ => rfl, fun _ h => Or.inl h, fun _ h => h⟩

omit [LinearOrder B] in
theorem Lowered.trans {s'' : State B} (h : Lowered p s s')
    (h' : Lowered p s' s'') : Lowered p s s'' := by
  refine ⟨h.kept.trans h'.kept,
    h'.mapBlocksUnlinked.trans h.mapBlocksUnlinked,
    fun x => (h'.failedValid x).trans (h.failedValid x), fun x hx => ?_,
    fun a ha => h.active a (h'.active a ha)⟩
  rcases h'.failedChild x hx with hmark | hpx
  · exact h.failedChild x hmark
  · rw [h.kept.parent] at hpx
    exact Or.inr hpx

/-- The tip on its way out is marked, and the chain goes one block down if it
can be disconnected. -/
theorem failTip_lowered {t : B} (hpt : Ancestor s.parent p t) :
    Lowered p s (s.failTip t) := by
  have hkept : Kept s (s.failTip t) := by
    refine ⟨rfl, fun x => ?_, fun x hx => ?_,
      fun x hx => (mem_eraseCandidate.mp hx).1⟩
    · rw [failTip_index]
      split <;> rfl
    · rw [failTip_index]
      split
      · simp [CBlockIndex.failed]
      · exact hx
  refine ⟨hkept, rfl, fun x => ?_, fun x hx => ?_, ?_⟩
  · rw [failTip_index]
    split <;> rfl
  · rw [failTip_index] at hx
    split at hx
    · rename_i hxt
      rw [hxt]
      exact Or.inr hpt
    · exact Or.inl hx
  · rintro a ⟨t', ht', ha⟩
    rw [hkept.parent] at ha
    exact ⟨t', ht', ha⟩

omit [LinearOrder B] in
theorem disconnectTip_some {s₁ : State B} (h : s.disconnectTip env = some s₁) :
    ∃ t q, s.tip = some t ∧ s.parent t = some q ∧
      s₁ = { s with tip := some q } := by
  unfold disconnectTip at h
  cases ht : s.tip with
  | none => rw [ht] at h; cases h
  | some t =>
      simp only [ht] at h
      cases hq : s.parent t with
      | none => rw [hq] at h; cases h
      | some q =>
          simp only [hq] at h
          split at h
          · cases h
            exact ⟨t, q, rfl, hq, rfl⟩
          · cases h

omit [LinearOrder B] in
theorem disconnect_lowered {t q : B} (ht : s.tip = some t)
    (hq : s.parent t = some q) :
    Lowered p s { s with tip := some q } := by
  refine ⟨⟨rfl, fun _ => rfl, fun _ h => h, fun _ h => h⟩, rfl, fun _ => rfl,
    fun _ h => Or.inl h, ?_⟩
  rintro a ⟨t', ht', ha⟩
  rw [← Option.some.inj ht'] at ha
  exact ⟨t, ht, ha.trans (Ancestor.step hq Ancestor.refl)⟩

/-- **The loop of `InvalidateBlock`.** -/
theorem disconnectFailed_spec {fuel : Nat} {done : Bool} (htree : s.TreeInv)
    (htip : s.TipIndexed)
    (h : disconnectFailed env p fuel s = .ok (done, s')) :
    Lowered p s s' ∧ s'.TipIndexed ∧ (done = true → ¬ s'.Active p) ∧
      ((∀ b, env.disconnects b = true) →
        (s.parent p = none → ¬ s.Active p) → done = true) := by
  induction fuel generalizing s with
  | zero => cases h
  | succ fuel ih =>
      unfold disconnectFailed at h
      by_cases hcontains : s.contains p = true
      · rw [if_pos hcontains] at h
        rcases (contains_iff htree htip).mp hcontains with ⟨t, ht, hpt⟩
        have hmarked := failTip_lowered hpt
        have htipMarked : (s.failTip t).TipIndexed := htip
        simp only [ht] at h
        cases hdis : (s.failTip t).disconnectTip env with
        | none =>
            simp only [hdis] at h
            cases h
            refine ⟨hmarked, htipMarked, (fun hf => by cases hf), ?_⟩
            -- only a genesis block cannot be disconnected
            intro hdisconnects hgenesis
            exfalso
            cases hq : s.parent t with
            | some q =>
                unfold disconnectTip at hdis
                have hq' : (s.failTip t).parent t = some q := by
                  rw [hmarked.kept.parent]
                  exact hq
                have ht' : (s.failTip t).tip = some t := ht
                simp only [ht', hq', hdisconnects, if_true] at hdis
                cases hdis
            | none =>
                rcases hpt.eq_or_parent with rfl | ⟨q, hq', -⟩
                · exact hgenesis hq ⟨p, ht, Ancestor.refl⟩
                · rw [hq] at hq'
                  cases hq'
        | some s₁ =>
            simp only [hdis] at h
            rcases disconnectTip_some hdis with ⟨t', q, ht', hq, rfl⟩
            have hdown := hmarked.trans (disconnect_lowered ht' hq)
            have htree₁ := hmarked.kept.tree htree
            have hih := ih (hdown.kept.tree htree) (by
              intro x hx
              rw [← Option.some.inj hx]
              exact htree₁.closed (htipMarked t' ht') hq) h
            refine ⟨hdown.trans hih.1, hih.2.1, hih.2.2.1, ?_⟩
            intro hdisconnects hgenesis
            apply hih.2.2.2 hdisconnects
            intro hp hactive
            rw [hdown.kept.parent] at hp
            exact hgenesis hp (hdown.active p hactive)
      · rw [if_neg hcontains] at h
        cases h
        refine ⟨Lowered.refl p _, htip, fun _ hactive => ?_, fun _ _ => rfl⟩
        exact hcontains ((contains_iff htree htip).mpr hactive)

/-- The candidates after the last loop; it changes nothing else. -/
theorem readdCandidates_spec (s : State B) :
    (∃ c, s.readdCandidates = { s with setBlockIndexCandidates := c }) ∧
    ∀ x, x ∈ s.readdCandidates.setBlockIndexCandidates ↔
      x ∈ s.setBlockIndexCandidates ∨
        x ∈ s.mapBlockIndex ∧ (s.index x).isValid = true ∧
          (s.index x).nChainTx ≠ 0 ∧ s.worseThanTip x = false := by
  have hfold : ∀ (bs : List B) (s : State B),
      (∃ c, bs.foldl (fun s b =>
        if (s.index b).isValid && (s.index b).nChainTx ≠ 0 &&
          !s.worseThanTip b then s.insertCandidate b else s) s =
        { s with setBlockIndexCandidates := c }) ∧
      ∀ x, x ∈ (bs.foldl (fun s b =>
        if (s.index b).isValid && (s.index b).nChainTx ≠ 0 &&
          !s.worseThanTip b then s.insertCandidate b else s)
            s).setBlockIndexCandidates ↔
        x ∈ s.setBlockIndexCandidates ∨
          x ∈ bs ∧ (s.index x).isValid = true ∧
            (s.index x).nChainTx ≠ 0 ∧ s.worseThanTip x = false := by
    intro bs
    induction bs with
    | nil => intro s; exact ⟨⟨_, rfl⟩, fun x => by simp⟩
    | cons b bs ih =>
        intro s
        rw [List.foldl_cons]
        by_cases hb : (s.index b).isValid = true ∧ (s.index b).nChainTx ≠ 0 ∧
            s.worseThanTip b = false
        · rw [if_pos (by simp [hb.1, hb.2.1, hb.2.2])]
          rcases ih (s.insertCandidate b) with ⟨⟨c, hc⟩, hmem⟩
          refine ⟨⟨c, hc⟩, fun x => ?_⟩
          rw [hmem, mem_insertCandidate]
          constructor
          · rintro ((rfl | hx) | ⟨hx, hrest⟩)
            · exact Or.inr ⟨List.mem_cons_self, hb⟩
            · exact Or.inl hx
            · exact Or.inr ⟨List.mem_cons_of_mem _ hx, hrest⟩
          · rintro (hx | ⟨hx, hrest⟩)
            · exact Or.inl (Or.inr hx)
            · rcases List.mem_cons.mp hx with rfl | hx
              · exact Or.inl (Or.inl rfl)
              · exact Or.inr ⟨hx, hrest⟩
        · rw [if_neg (by simpa [and_assoc] using hb)]
          rcases ih s with ⟨hstate, hmem⟩
          refine ⟨hstate, fun x => ?_⟩
          rw [hmem]
          constructor
          · rintro (hx | ⟨hx, hrest⟩)
            · exact Or.inl hx
            · exact Or.inr ⟨List.mem_cons_of_mem _ hx, hrest⟩
          · rintro (hx | ⟨hx, hrest⟩)
            · exact Or.inl hx
            · rcases List.mem_cons.mp hx with rfl | hx
              · exact absurd hrest hb
              · exact Or.inr ⟨hx, hrest⟩
  exact hfold s.mapBlockIndex s

/-- Only the block itself is marked as invalid. -/
theorem Lowered.failedValid_iff
    (h : Lowered p (s.invalidBlockFound p) s') (x : B) :
    (s'.index x).failedValid = true ↔
      (s.index x).failedValid = true ∨ x = p := by
  rw [h.failedValid, invalidBlockFound_index]
  by_cases hx : x = p
  · rw [if_pos hx]
    exact iff_of_true rfl (Or.inr hx)
  · rw [if_neg hx, or_iff_left hx]

theorem Lowered.failedChild_or {x : B}
    (h : Lowered p (s.invalidBlockFound p) s')
    (hx : (s'.index x).failedChild = true) :
    (s.index x).failedChild = true ∨ Ancestor s.parent p x := by
  rcases h.failedChild x hx with hmark | hpx
  · rw [invalidBlockFound_index] at hmark
    split at hmark <;> exact Or.inl hmark
  · rw [(invalidBlockFound_kept s p).parent] at hpx
    exact Or.inr hpx

/-- **`InvalidateBlock`** keeps the bookkeeping, unless it fails. -/
theorem invalidateBlock_good {done : Bool} (h : Good g s)
    (hp : p ∈ s.mapBlockIndex) (hdisconnects : ∀ b, env.disconnects b = true)
    (hgenesis : s.parent p = none → ¬ s.Active p)
    (hs' : s.invalidateBlock env p = .ok (done, s')) : Good g s' := by
  unfold invalidateBlock at hs'
  simp only [bind, Except.bind] at hs'
  split at hs'
  · cases hs'
  rename_i r hr
  rcases r with ⟨down, s₂⟩
  have hkept₁ := invalidBlockFound_kept s p
  have hspec := disconnectFailed_spec (hkept₁.tree h.linking.tree)
    (fun t ht => (h.linking.tip t ht).1) hr
  have hdown : down = true := by
    apply hspec.2.2.2 hdisconnects
    rw [hkept₁.parent]
    intro hnone
    unfold Active
    rw [hkept₁.parent]
    exact hgenesis hnone
  subst hdown
  rw [if_pos rfl] at hs'
  cases hs'
  have hlow := hspec.1
  have hkept := hkept₁.trans hlow.kept
  rcases readdCandidates_spec s₂ with ⟨⟨c, hc⟩, hmem⟩
  have hmem' : ∀ x, x ∈ c ↔ x ∈ s₂.setBlockIndexCandidates ∨
      x ∈ s₂.mapBlockIndex ∧ (s₂.index x).isValid = true ∧
        (s₂.index x).nChainTx ≠ 0 ∧ s₂.worseThanTip x = false := by
    intro x
    rw [← hmem, hc]
  rw [hc]
  have hactive : ∀ a, s₂.Active a → s.Active a ∧ a ≠ p ∧
      ¬ Ancestor s.parent p a := by
    intro a ha
    have hnot := hspec.2.2.1 rfl
    have hact := hlow.active a ha
    unfold Active at hact
    rw [hkept₁.parent] at hact
    have hnotAnc : ¬ Ancestor s.parent p a := by
      intro hpa
      rcases ha with ⟨t, ht, hat⟩
      rw [← hkept.parent] at hpa
      exact hnot ⟨t, ht, hpa.trans hat⟩
    refine ⟨hact, ?_, hnotAnc⟩
    rintro rfl
    exact hnotAnc Ancestor.refl
  have hlinkOf : ∀ x, (s₂.index x).nChainTx = (s.index x).nChainTx :=
    hkept.field CBlockIndex.nChainTx fun _ => rfl
  refine ⟨h.linking.of_entries hkept.mapBlockIndex hkept.entry
    hlow.mapBlocksUnlinked ?_ ?_, ?_, ?_, ?_, ?_⟩
  · intro b hb
    rcases (hmem' b).mp hb with hold | ⟨hindexed, -, hlink, -⟩
    · exact h.linking.candidates b (hkept.candidates b hold)
    · rw [hkept.mapBlockIndex] at hindexed
      rw [hlinkOf] at hlink
      exact ⟨hindexed, hlink⟩
  · intro t ht
    exact h.linking.active_linked (hactive t ⟨t, ht, Ancestor.refl⟩).1
  · intro b hb hlink hmark hworse
    apply (hmem' b).mpr
    right
    change b ∈ s₂.mapBlockIndex at hb
    change (s₂.index b).nChainTx ≠ 0 at hlink
    change (s₂.index b).failed = false at hmark
    refine ⟨hb, ?_, hlink, hworse⟩
    have hdata := (h.linking.sound b (hkept.mapBlockIndex ▸ hb)
      (hlinkOf b ▸ hlink)).1
    have hvalid := h.linking.valid b (hkept.mapBlockIndex ▸ hb) hdata
    unfold CBlockIndex.isValid
    rw [hmark, hkept.field CBlockIndex.validTransactions fun _ => rfl, hvalid]
    rfl
  · show ∀ b ∈ s₂.mapBlockIndex, s₂.parent b = none → b = g
    rw [hkept.mapBlockIndex, hkept.parent]
    exact h.root
  · intro a ha
    have ha' := hactive a ha
    show (s₂.index a).failed = false
    have hunmarked := h.active a ha'.1
    unfold CBlockIndex.failed at hunmarked ⊢
    rw [Bool.or_eq_false_iff] at hunmarked ⊢
    constructor
    · by_contra hmark
      rcases (hlow.failedValid_iff a).mp
        (Bool.eq_true_of_not_eq_false hmark) with hold | hap
      · rw [hunmarked.1] at hold
        cases hold
      · exact ha'.2.1 hap
    · by_contra hmark
      rcases hlow.failedChild_or (Bool.eq_true_of_not_eq_false hmark) with
        hold | hpa
      · rw [hunmarked.2] at hold
        cases hold
      · exact ha'.2.2 hpa
  · intro b hb hmark
    show ∃ a, Ancestor s₂.parent a b ∧ (s₂.index a).failedValid = true
    change b ∈ s₂.mapBlockIndex at hb
    rw [hkept.mapBlockIndex] at hb
    rw [hkept.parent]
    rcases hlow.failedChild_or hmark with hold | hpb
    · rcases h.cause b hb hold with ⟨a, ha, hvalid⟩
      exact ⟨a, ha, (hlow.failedValid_iff a).mpr (Or.inl hvalid)⟩
    · exact ⟨p, hpb, (hlow.failedValid_iff p).mpr (Or.inr rfl)⟩

end Invalidate

/-! ## Reconsidering -/

section Reconsider

variable {g : B} {s : State B} {p : B}

/-- What the two loops of `ReconsiderBlock` keep: marks are only taken back,
and only linked blocks become candidates. -/
structure Cleared (s s' : State B) : Prop where
  mapBlockIndex : s'.mapBlockIndex = s.mapBlockIndex
  mapBlocksUnlinked : s'.mapBlocksUnlinked = s.mapBlocksUnlinked
  tip : s'.tip = s.tip
  /-- An entry is as it was, or without its marks. -/
  entry : ∀ x, s'.index x = s.index x ∨
    s'.index x = (s.index x).unmarked
  old : ∀ x ∈ s.setBlockIndexCandidates, x ∈ s'.setBlockIndexCandidates
  new : ∀ x ∈ s'.setBlockIndexCandidates, x ∈ s.setBlockIndexCandidates ∨
    x ∈ s.mapBlockIndex ∧ (s.index x).nChainTx ≠ 0

omit [LinearOrder B] in
theorem Cleared.refl (s : State B) : Cleared s s :=
  ⟨rfl, rfl, rfl, fun _ => Or.inl rfl, fun _ h => h, fun _ h => Or.inl h⟩

section Cleared

variable {s' : State B} (h : Cleared s s')
include h

omit [LinearOrder B] in
theorem Cleared.unmarked (x : B) :
    (s'.index x).unmarked = (s.index x).unmarked := by
  rcases h.entry x with heq | heq
  · rw [heq]
  · rw [heq]
    rfl

omit [LinearOrder B] in
theorem Cleared.field {γ : Type} (f : CBlockIndex B → γ)
    (hf : ∀ e, f e.unmarked = f e) (x : B) :
    f (s'.index x) = f (s.index x) := by
  rw [← hf, h.unmarked, hf]

omit [LinearOrder B] in
theorem Cleared.parent : s'.parent = s.parent :=
  funext (h.field CBlockIndex.pprev fun _ => rfl)

omit [LinearOrder B] in
theorem Cleared.height : s'.height = s.height :=
  funext (h.field CBlockIndex.nHeight fun _ => rfl)

omit [LinearOrder B] in
theorem Cleared.tree (htree : s.TreeInv) : s'.TreeInv := by
  unfold TreeInv
  rw [h.parent, h.height, h.mapBlockIndex]
  exact htree

theorem Cleared.worse (a b : B) : s'.worse a b = s.worse a b :=
  worse_congr
    ⟨h.field CBlockIndex.nChainWork (fun _ => rfl) a,
      h.field CBlockIndex.nSequenceId (fun _ => rfl) a⟩
    ⟨h.field CBlockIndex.nChainWork (fun _ => rfl) b,
      h.field CBlockIndex.nSequenceId (fun _ => rfl) b⟩

omit [LinearOrder B] in
theorem Cleared.getAncestor (b : B) (n : Nat) :
    s'.getAncestor b n = s.getAncestor b n := by
  unfold State.getAncestor path
  rw [h.parent, h.height]

theorem Cleared.tipWorseThan (b : B) :
    s'.tipWorseThan b = s.tipWorseThan b := by
  unfold State.tipWorseThan
  rw [h.tip]
  cases s.tip with
  | none => rfl
  | some t => exact h.worse t b

omit [LinearOrder B] in
/-- Marks are only taken back. -/
theorem Cleared.failed (x : B) (hx : (s'.index x).failed = true) :
    s'.index x = s.index x := by
  rcases h.entry x with heq | heq
  · exact heq
  · rw [heq] at hx
    cases hx

omit [LinearOrder B] in
theorem Cleared.stays (x : B) (hx : (s.index x).failed = false) :
    (s'.index x).failed = false := by
  rcases h.entry x with heq | heq
  · rw [heq]
    exact hx
  · rw [heq]
    rfl

omit [LinearOrder B] in
theorem Cleared.trans {s'' : State B} (h' : Cleared s' s'') :
    Cleared s s'' := by
  refine ⟨h'.mapBlockIndex.trans h.mapBlockIndex,
    h'.mapBlocksUnlinked.trans h.mapBlocksUnlinked, h'.tip.trans h.tip,
    fun x => ?_, fun x hx => h'.old x (h.old x hx), fun x hx => ?_⟩
  · rcases h'.entry x with heq' | heq'
    · rw [heq']
      exact h.entry x
    · rw [heq', h.unmarked]
      exact Or.inr rfl
  · rcases h'.new x hx with hold | ⟨hindexed, hlink⟩
    · exact h.new x hold
    · rw [h.mapBlockIndex] at hindexed
      rw [h.field CBlockIndex.nChainTx fun _ => rfl] at hlink
      exact Or.inr ⟨hindexed, hlink⟩

end Cleared

omit [LinearOrder B] in
theorem modify_unmarked_entry [DecidableEq B] {index : B → CBlockIndex B}
    (b x : B) :
    Function.update index b (index b).unmarked x =
      if x = b then (index x).unmarked else index x := by
  by_cases hx : x = b
  · rw [if_pos hx, hx, Function.update_self]
  · rw [if_neg hx, Function.update_of_ne hx]

theorem modify_cleared (s : State B) (b : B) :
    Cleared s (s.modify b CBlockIndex.unmarked) := by
  refine ⟨rfl, rfl, rfl, fun x => ?_, fun _ h => h, fun _ h => Or.inl h⟩
  show Function.update s.index b (s.index b).unmarked x = _ ∨ _ = _
  rw [modify_unmarked_entry]
  by_cases hx : x = b
  · rw [if_pos hx]
    right
    exact (modify_unmarked_entry b x).trans (if_pos hx)
  · rw [if_neg hx]
    exact Or.inl rfl

/-- One turn of the first loop changes the entry of its block only, and only
if that is a descendant. -/
theorem reconsiderDescendant_index {b x : B}
    (h : s.getAncestor x (s.height p) ≠ some p ∨ x ≠ b) :
    (reconsiderDescendant p s b).index x = s.index x := by
  unfold reconsiderDescendant
  split
  · rename_i hcond
    rw [Bool.and_eq_true, decide_eq_true_eq] at hcond
    have hxb : x ≠ b := by
      rcases h with hno | hxb
      · rintro rfl
        exact hno hcond.2
      · exact hxb
    dsimp only
    split <;> exact Function.update_of_ne hxb _ _
  · rfl

/-- One turn of the first loop, at a block of the index. -/
theorem reconsiderDescendant_cleared {b : B} (hb : b ∈ s.mapBlockIndex) :
    Cleared s (reconsiderDescendant p s b) ∧
      (s.getAncestor b (s.height p) = some p →
        ((reconsiderDescendant p s b).index b).failed = false ∧
        ((s.index b).failed = true → (s.index b).validTransactions = true →
          (s.index b).nChainTx ≠ 0 → s.tipWorseThan b = true →
          b ∈ (reconsiderDescendant p s b).setBlockIndexCandidates)) := by
  have hself : (s.modify b CBlockIndex.unmarked).index b =
      (s.index b).unmarked := Function.update_self ..
  have hclear := modify_cleared s b
  unfold reconsiderDescendant
  by_cases hcond : (s.index b).isValid = false ∧
      s.getAncestor b (s.height p) = some p
  · rw [if_pos (by simp [hcond.1, hcond.2])]
    by_cases hinsert : ((s.index b).unmarked.isValid = true ∧
        (s.index b).nChainTx ≠ 0) ∧ s.tipWorseThan b = true
    · rw [if_pos (by
        rw [hself, hclear.tipWorseThan]
        simp only [hinsert.1.1, hinsert.2, Bool.and_true, Bool.true_and]
        exact decide_eq_true hinsert.1.2)]
      refine ⟨⟨rfl, rfl, rfl, hclear.entry,
        fun x hx => mem_insertCandidate.mpr (Or.inr hx), fun x hx => ?_⟩, ?_⟩
      · rcases mem_insertCandidate.mp hx with rfl | hx
        · exact Or.inr ⟨hb, hinsert.1.2⟩
        · exact Or.inl hx
      · intro _
        refine ⟨?_, fun _ _ _ _ => mem_insertCandidate.mpr (Or.inl rfl)⟩
        show ((s.modify b CBlockIndex.unmarked).index b).failed = false
        rw [hself]
        rfl
    · rw [if_neg (by
        rw [hself, hclear.tipWorseThan]
        intro hall
        rw [Bool.and_eq_true, Bool.and_eq_true] at hall
        exact hinsert ⟨⟨hall.1.1, of_decide_eq_true hall.1.2⟩, hall.2⟩)]
      refine ⟨hclear, fun _ => ⟨?_, fun _ hvalid hlink hworse => ?_⟩⟩
      · rw [hself]
        rfl
      · refine absurd ⟨⟨?_, hlink⟩, hworse⟩ hinsert
        show (!false && (s.index b).validTransactions) = true
        rw [hvalid]
        rfl
  · rw [if_neg (by simpa using hcond)]
    refine ⟨Cleared.refl s, fun hanc => ?_⟩
    have hvalid : (s.index b).isValid = true := by
      by_contra hno
      exact hcond ⟨Bool.not_eq_true _ ▸ hno, hanc⟩
    have hmark : (s.index b).failed = false := by
      unfold CBlockIndex.isValid at hvalid
      rw [Bool.and_eq_true, Bool.not_eq_true'] at hvalid
      exact hvalid.1
    refine ⟨hmark, fun hfailed => ?_⟩
    rw [hmark] at hfailed
    cases hfailed

/-- The first loop. -/
theorem reconsiderDescendants_cleared {l : List B}
    (hl : ∀ b ∈ l, b ∈ s.mapBlockIndex) :
    Cleared s (l.foldl (reconsiderDescendant p) s) ∧
      ∀ b ∈ l, s.getAncestor b (s.height p) = some p →
        ((l.foldl (reconsiderDescendant p) s).index b).failed = false ∧
        ((s.index b).failed = true → (s.index b).validTransactions = true →
          (s.index b).nChainTx ≠ 0 → s.tipWorseThan b = true →
          b ∈ (l.foldl (reconsiderDescendant p) s).setBlockIndexCandidates) := by
  induction l generalizing s with
  | nil => exact ⟨Cleared.refl s, fun b hb => by cases hb⟩
  | cons c l ih =>
      have hstep := reconsiderDescendant_cleared (p := p)
        (hl c List.mem_cons_self)
      have hih := ih (s := reconsiderDescendant p s c) (fun b hb => by
        rw [hstep.1.mapBlockIndex]
        exact hl b (List.mem_cons_of_mem _ hb))
      rw [List.foldl_cons]
      refine ⟨hstep.1.trans hih.1, fun b hb hanc => ?_⟩
      by_cases hbc : b = c
      · subst hbc
        have hself := hstep.2 hanc
        exact ⟨hih.1.stays b hself.1, fun hfailed hvalid hlink hworse =>
          hih.1.old b (hself.2 hfailed hvalid hlink hworse)⟩
      · have hmem := (List.mem_cons.mp hb).resolve_left hbc
        rw [← hstep.1.getAncestor, ← hstep.1.height] at hanc
        have hself := hih.2 b hmem hanc
        refine ⟨hself.1, fun hfailed hvalid hlink hworse => ?_⟩
        have hsame : (reconsiderDescendant p s c).index b = s.index b :=
          reconsiderDescendant_index (Or.inr hbc)
        apply hself.2
        · rw [hsame]
          exact hfailed
        · rw [hsame]
          exact hvalid
        · rw [hsame]
          exact hlink
        · rw [hstep.1.tipWorseThan]
          exact hworse

/-- The second loop takes the marks off a list of blocks. -/
theorem reconsiderAncestors_cleared {l : List B} :
    Cleared s (l.foldl reconsiderAncestor s) ∧
      ∀ b, (b ∈ l → ((l.foldl reconsiderAncestor s).index b).failed = false) ∧
        (b ∉ l → (l.foldl reconsiderAncestor s).index b = s.index b) := by
  have hstep : ∀ (s : State B) (b : B), Cleared s (reconsiderAncestor s b) ∧
      ((reconsiderAncestor s b).index b).failed = false ∧
      ∀ x, x ≠ b → (reconsiderAncestor s b).index x = s.index x := by
    intro s b
    unfold reconsiderAncestor
    cases hb : (s.index b).failed with
    | true =>
        rw [if_pos rfl]
        refine ⟨modify_cleared s b, ?_,
          fun x hx => Function.update_of_ne hx _ _⟩
        show (Function.update s.index b _ b).failed = false
        rw [Function.update_self]
        rfl
    | false =>
        rw [if_neg Bool.false_ne_true]
        exact ⟨Cleared.refl s, hb, fun _ _ => rfl⟩
  induction l generalizing s with
  | nil =>
      exact ⟨Cleared.refl s,
        fun b => ⟨fun hb => absurd hb List.not_mem_nil, fun _ => rfl⟩⟩
  | cons c l ih =>
      rw [List.foldl_cons]
      have hc := hstep s c
      have hih := ih (s := reconsiderAncestor s c)
      refine ⟨hc.1.trans hih.1, fun b => ⟨(fun hb => ?_), fun hb => ?_⟩⟩
      · by_cases hl : b ∈ l
        · exact (hih.2 b).1 hl
        · rw [(hih.2 b).2 hl]
          rw [(List.mem_cons.mp hb).resolve_right hl]
          exact hc.2.1
      · rw [List.mem_cons, not_or] at hb
        rw [(hih.2 b).2 hb.2, hc.2.2 b hb.1]

/-- When `ReconsiderBlock` does no harm: its marked ancestors that are good
enough are candidates already, and a mark that stays has a cause that stays. -/
structure Reconsiderable (s : State B) (p : B) : Prop where
  ancestors : ∀ a ∈ s.mapBlockIndex, Ancestor s.parent a p → a ≠ p →
    (s.index a).failed = true → (s.index a).nChainTx ≠ 0 →
    s.worseThanTip a = true ∨ a ∈ s.setBlockIndexCandidates
  others : ∀ b ∈ s.mapBlockIndex, (s.index b).failed = true →
    ¬ Ancestor s.parent p b → ¬ Ancestor s.parent b p →
    ∃ a, Ancestor s.parent a b ∧ (s.index a).failedValid = true ∧
      ¬ Ancestor s.parent a p

theorem reconsiderBlock_cleared (htree : s.TreeInv)
    (hp : p ∈ s.mapBlockIndex) :
    Cleared s (s.reconsiderBlock p) ∧
      (∀ b ∈ s.mapBlockIndex, Ancestor s.parent p b ∨ Ancestor s.parent b p →
        ((s.reconsiderBlock p).index b).failed = false) ∧
      (∀ b ∈ s.mapBlockIndex, Ancestor s.parent p b →
        (s.index b).failed = true → (s.index b).validTransactions = true →
        (s.index b).nChainTx ≠ 0 → s.tipWorseThan b = true →
        b ∈ (s.reconsiderBlock p).setBlockIndexCandidates) := by
  have hdown := reconsiderDescendants_cleared (s := s) (p := p)
    (l := s.mapBlockIndex) fun _ hb => hb
  have hanc : ∀ b ∈ s.mapBlockIndex, Ancestor s.parent p b →
      s.getAncestor b (s.height p) = some p := fun b hb hpb =>
    (getElem?_pathTo htree hb).mpr hpb
  have hpath : (s.mapBlockIndex.foldl (reconsiderDescendant p) s).path p =
      s.path p := by
    unfold path
    rw [hdown.1.parent, hdown.1.height]
  have hup := reconsiderAncestors_cleared
    (s := s.mapBlockIndex.foldl (reconsiderDescendant p) s)
    (l := (s.path p).reverse)
  unfold reconsiderBlock
  simp only [hpath]
  refine ⟨hdown.1.trans hup.1, ?_, ?_⟩
  · rintro b hb (hpb | hbp)
    · exact hup.1.stays b (hdown.2 b hb (hanc b hb hpb)).1
    · apply (hup.2 b).1
      rw [List.mem_reverse, mem_path htree hp]
      exact hbp
  · intro b hb hpb hfailed hvalid hlink hworse
    exact hup.1.old b ((hdown.2 b hb (hanc b hb hpb)).2 hfailed hvalid hlink
      hworse)

/-- Blocks that are neither ancestors nor descendants keep their marks. -/
theorem reconsiderBlock_others (htree : s.TreeInv) (hp : p ∈ s.mapBlockIndex)
    {b : B} (hb : b ∈ s.mapBlockIndex) (hpb : ¬ Ancestor s.parent p b)
    (hbp : ¬ Ancestor s.parent b p) :
    (s.reconsiderBlock p).index b = s.index b := by
  have hanc : s.getAncestor b (s.height p) ≠ some p := fun hanc =>
    hpb ((getElem?_pathTo htree hb).mp hanc)
  have hfold : ∀ (bs : List B) (s₁ : State B),
      (∀ x ∈ bs, x ∈ s₁.mapBlockIndex) →
      s₁.getAncestor b (s₁.height p) ≠ some p →
      (bs.foldl (reconsiderDescendant p) s₁).index b = s₁.index b := by
    intro bs
    induction bs with
    | nil => intro s₁ _ _; rfl
    | cons c bs ih =>
        intro s₁ hbs hno
        have hstep := (reconsiderDescendant_cleared (p := p)
          (hbs c List.mem_cons_self)).1
        rw [List.foldl_cons, ih]
        · exact reconsiderDescendant_index (Or.inl hno)
        · intro x hx
          rw [hstep.mapBlockIndex]
          exact hbs x (List.mem_cons_of_mem _ hx)
        · rw [hstep.getAncestor, hstep.height]
          exact hno
  have hdown := reconsiderDescendants_cleared (s := s) (p := p)
    (l := s.mapBlockIndex) fun _ hb => hb
  have hpath : (s.mapBlockIndex.foldl (reconsiderDescendant p) s).path p =
      s.path p := by
    unfold path
    rw [hdown.1.parent, hdown.1.height]
  have hup := reconsiderAncestors_cleared
    (s := s.mapBlockIndex.foldl (reconsiderDescendant p) s)
    (l := (s.path p).reverse)
  unfold reconsiderBlock
  simp only [hpath]
  rw [(hup.2 b).2, hfold s.mapBlockIndex s (fun _ hx => hx) hanc]
  rw [List.mem_reverse, mem_path htree hp]
  exact hbp

/-- **`ReconsiderBlock`** keeps the bookkeeping where it does no harm. -/
theorem reconsiderBlock_good (h : Good g s) (hp : p ∈ s.mapBlockIndex)
    (htip : s.tip ≠ none) (hok : Reconsiderable s p) :
    Good g (s.reconsiderBlock p) := by
  have htree := h.linking.tree
  have hspec := reconsiderBlock_cleared htree hp
  have hclear := hspec.1
  have hlink := hclear.field CBlockIndex.nChainTx fun _ => rfl
  refine ⟨h.linking.of_entries hclear.mapBlockIndex hclear.unmarked
    hclear.mapBlocksUnlinked ?_ ?_, ?_, ?_, ?_, ?_⟩
  · intro b hb
    rcases hclear.new b hb with hold | hnew
    · exact h.linking.candidates b hold
    · exact hnew
  · intro t ht
    rw [hclear.tip] at ht
    exact h.linking.tip t ht
  · intro b hb hlinked hmark hworse
    rw [hclear.mapBlockIndex] at hb
    rw [hlink] at hlinked
    have hworse' : s.worseThanTip b = false := by
      unfold worseThanTip at hworse ⊢
      rw [hclear.tip] at hworse
      cases ht : s.tip with
      | none => rfl
      | some t =>
          rw [ht] at hworse
          exact (hclear.worse b t).symm.trans hworse
    cases hfailed : (s.index b).failed with
    | false => exact hclear.old b (h.covered b hb hlinked hfailed hworse')
    | true =>
        by_cases hpb : Ancestor s.parent p b
        · have hdata := (h.linking.sound b hb hlinked).1
          apply hspec.2.2 b hb hpb hfailed (h.linking.valid b hb hdata) hlinked
          cases ht : s.tip with
          | none => exact absurd ht htip
          | some t =>
              unfold tipWorseThan worseThanTip at *
              rw [ht] at hworse' ⊢
              by_contra hno
              have htb : t = b := eq_of_not_worse
                (Bool.eq_false_of_not_eq_true hno) hworse'
              have hunmarked := h.active t ⟨t, ht, Ancestor.refl⟩
              rw [htb, hfailed] at hunmarked
              cases hunmarked
        · by_cases hbp : Ancestor s.parent b p
          · have hne : b ≠ p := by
              rintro rfl
              exact hpb Ancestor.refl
            rcases hok.ancestors b hb hbp hne hfailed hlinked with
              hbad | hmem
            · rw [hworse'] at hbad
              cases hbad
            · exact hclear.old b hmem
          · rw [reconsiderBlock_others htree hp hb hpb hbp, hfailed] at hmark
            cases hmark
  · rw [hclear.mapBlockIndex, hclear.parent]
    exact h.root
  · intro a ha
    unfold Active at ha
    rw [hclear.tip, hclear.parent] at ha
    exact hclear.stays a (h.active a ha)
  · intro b hb hmark
    rw [hclear.mapBlockIndex] at hb
    rw [hclear.parent]
    have hfailed : ((s.reconsiderBlock p).index b).failed = true := by
      unfold CBlockIndex.failed
      rw [hmark, Bool.or_true]
    have hrelated : ¬ (Ancestor s.parent p b ∨ Ancestor s.parent b p) := by
      intro hrelated
      rw [hspec.2.1 b hb hrelated] at hfailed
      cases hfailed
    rw [not_or] at hrelated
    have hold : (s.index b).failed = true := by
      rw [← hclear.failed b hfailed]
      exact hfailed
    rcases hok.others b hb hold hrelated.1 hrelated.2 with
      ⟨a, hab, hvalid, hap⟩
    refine ⟨a, hab, ?_⟩
    have hpa : ¬ Ancestor s.parent p a := fun hpa =>
      hrelated.1 (hpa.trans hab)
    rw [reconsiderBlock_others htree hp (hab.mem htree hb) hpa hap]
    exact hvalid

end Reconsider

/-! ## Activating -/

/-- No block has a system error, and all can be disconnected and flushed. -/
structure NoErrors (env : Env B) : Prop where
  verdict : ∀ b, env.verdict b ≠ .error
  disconnects : ∀ b, env.disconnects b = true
  flushes : env.flushes = true

section Activate

variable {g : B} {env : Env B} {s s' : State B}

omit [LinearOrder B] in
/-- Failure below has a cause. -/
def Caused (s : State B) : Prop :=
  ∀ b ∈ s.mapBlockIndex, (s.index b).failedChild = true →
    ∃ a, Ancestor s.parent a b ∧ (s.index a).failedValid = true

/-- A move keeps the bookkeeping of data and the causes of marks. -/
theorem Linking.move (h : Linking s []) (hcause : s.Caused)
    (husable : ∀ t, s.tip = some t → s.Usable t) (hmove : Move env s s') :
    Linking s' [] ∧ s'.Caused := by
  have hkept := hmove.kept
  have hcandidates : ∀ b ∈ s'.setBlockIndexCandidates,
      b ∈ s.mapBlockIndex ∧ (s.index b).nChainTx ≠ 0 := fun b hb =>
    h.candidates b (hkept.candidates b hb)
  cases hmove with
  | @removeChain pindexNew test above hnew htest hnot habove =>
      have hsame := removeChain_kept s above test
      have hnewLinked := h.candidates pindexNew hnew
      -- candidates have all their data, so the block in the way has failed
      have hfailed : (s.index test).failed = true := by
        by_contra hmark
        have hdata := h.allData hnewLinked.1 hnewLinked.2 test htest
        have husable := usable_iff.mpr ⟨Bool.not_eq_true _ ▸ hmark, hdata⟩
        rw [hnot] at husable
        cases husable
      refine ⟨h.of_entries hkept.mapBlockIndex hkept.entry
        (hsame.2.2.2 hfailed) hcandidates ?_, ?_⟩
      · rw [hsame.2.1]
        exact h.tip
      · intro b hb hmark
        rw [hkept.parent]
        rw [hkept.mapBlockIndex] at hb
        have hvalid : ∀ x, ((s.removeChain above test).index x).failedValid =
            (s.index x).failedValid := by
          intro x
          rw [removeChain_index]
          split <;> rfl
        simp only [hvalid]
        rw [removeChain_index] at hmark
        split at hmark
        · rename_i hstruck
          have hanc := (habove b hstruck.2).2.2
          unfold CBlockIndex.failed at hfailed
          rw [Bool.or_eq_true] at hfailed
          rcases hfailed with hfailed | hfailed
          · exact ⟨test, hanc, hfailed⟩
          · rcases hcause test (htest.mem h.tree hnewLinked.1) hfailed with
              ⟨a, ha, hav⟩
            exact ⟨a, ha.trans hanc, hav⟩
        · exact hcause b hb hmark
  | @disconnectTip t p ht hp =>
      refine ⟨h.of_entries rfl (fun _ => rfl) rfl hcandidates ?_, hcause⟩
      intro t' ht'
      rw [← Option.some.inj ht']
      have htip := h.tip t ht
      exact ⟨h.tree.closed htip.1 hp, (h.sound t htip.1 htip.2).2 p hp⟩
  | @connectTip c hc hp huse hok =>
      refine ⟨h.of_entries rfl (fun _ => rfl) rfl hcandidates ?_, hcause⟩
      intro t' ht'
      rw [← Option.some.inj ht']
      refine ⟨hc, h.linked hc fun a ha => ?_⟩
      rcases ancestor_child hp ha with rfl | ⟨t, ht, hat⟩
      · exact (usable_iff.mp huse).2
      · exact (usable_iff.mp (husable t ht a hat)).2
  | @invalidBlockFound c hc hp hbad =>
      refine ⟨h.of_entries rfl hkept.entry rfl hcandidates h.tip, ?_⟩
      intro b hb hmark
      rw [hkept.parent]
      have hmark' : (s.index b).failedChild = true := by
        rw [invalidBlockFound_index] at hmark
        split at hmark <;> exact hmark
      rcases hcause b hb hmark' with ⟨a, ha, hav⟩
      refine ⟨a, ha, ?_⟩
      rw [invalidBlockFound_index]
      split
      · rfl
      · exact hav

theorem Good.moves (h : Good g s) (hmoves : Moves env s s') :
    Linking s' [] ∧ s'.Caused := by
  induction hmoves with
  | refl => exact ⟨h.linking, h.cause⟩
  | tail hmoves hmove ih =>
      exact ih.1.move ih.2 (h.ready.moves hmoves).usable hmove

/-- The chain can be disconnected down to one of its blocks. -/
theorem disconnectTo_done {f : B} {fuel : Nat} {done : Bool}
    (hdisconnects : ∀ b, env.disconnects b = true)
    (hf : ∀ t, s.tip = some t → Ancestor s.parent f t)
    (h : disconnectTo env (some f) fuel s = .ok (done, s')) :
    done = true := by
  induction fuel generalizing s with
  | zero => cases h
  | succ fuel ih =>
      unfold disconnectTo at h
      split at h
      · cases h
        rfl
      · rename_i hgo
        rw [not_or] at hgo
        cases ht : s.tip with
        | none => exact absurd ht hgo.1
        | some t =>
            have hft := hf t ht
            rcases hft.eq_or_parent with rfl | ⟨q, hq, hfq⟩
            · exact absurd ht hgo.2
            · have hdis : s.disconnectTip env =
                  some { s with tip := some q } := by
                unfold disconnectTip
                simp only [ht, hq, hdisconnects, if_true]
              rw [hdis] at h
              apply ih (s := { s with tip := some q }) _ h
              intro t' ht'
              rw [← Option.some.inj ht']
              exact hfq

theorem connectBlocks_done {pindexOldTip : Option B} {bs : List B}
    {progress : Progress} (herrors : NoErrors env)
    (h : connectBlocks env pindexOldTip bs s = .ok (progress, s')) :
    progress ≠ .fail := by
  induction bs generalizing s with
  | nil =>
      cases h
      intro hf
      cases hf
  | cons b bs ih =>
      unfold connectBlocks connectTip at h
      split at h
      · cases h
      · cases hverdict : env.verdict b with
        | ok =>
            rw [hverdict] at h
            simp only [bind, Except.bind] at h
            split at h
            · cases h
            · split at h
              · cases h
                intro hf
                cases hf
              · exact ih h
        | invalid =>
            rw [hverdict] at h
            cases h
            intro hf
            cases hf
        | corrupt =>
            rw [hverdict] at h
            cases h
            intro hf
            cases hf
        | error => exact absurd hverdict (herrors.verdict b)

theorem connectBatches_done {pindexOldTip : Option B} {m : B}
    {fuel n : Nat} {done : Bool} (herrors : NoErrors env)
    (h : connectBatches env pindexOldTip m fuel n s = .ok (done, s')) :
    done = true := by
  induction fuel generalizing n s with
  | zero => cases h
  | succ fuel ih =>
      unfold connectBatches at h
      split at h
      · cases h
        rfl
      · simp only [bind, Except.bind] at h
        split at h
        · cases h
        · rename_i r hr
          rcases r with ⟨progress, s₁⟩
          cases progress with
          | more => exact ih h
          | stop =>
              cases h
              rfl
          | fail => exact absurd rfl (connectBlocks_done herrors hr)

/-- Without system errors a step does not fail. -/
theorem activateBestChainStep_done {m : B} {done : Bool}
    (herrors : NoErrors env) (hbase : Base s)
    (hroot : ∀ b ∈ s.mapBlockIndex, Ancestor s.parent g b)
    (hm : m ∈ s.mapBlockIndex)
    (h : s.activateBestChainStep env m = .ok (done, s')) : done = true := by
  unfold activateBestChainStep at h
  simp only [bind, Except.bind] at h
  split at h
  · cases h
  · rename_i r hr
    rcases r with ⟨down, s₁⟩
    have hdown : down = true := by
      cases ht : s.tip with
      | none =>
          unfold disconnectTo at hr
          rw [if_pos (Or.inl ht)] at hr
          cases hr
          rfl
      | some t =>
          have hg : s.contains g = true :=
            (contains_iff hbase.tree hbase.tip).mpr
              ⟨t, ht, hroot t (hbase.tip t ht)⟩
          have hgm : g ∈ (s.path m).reverse := by
            rw [List.mem_reverse, mem_path hbase.tree hm]
            exact hroot m hm
          cases hfork : s.findFork m with
          | none =>
              have hnot := List.find?_eq_none.mp hfork g hgm
              exact absurd hg hnot
          | some f =>
              rw [hfork] at hr
              have hf : s.contains f = true := List.find?_some hfork
              rcases (contains_iff hbase.tree hbase.tip).mp hf with
                ⟨t', ht', hft⟩
              apply disconnectTo_done herrors.disconnects _ hr
              intro t'' ht''
              rw [ht'] at ht''
              rw [← Option.some.inj ht'']
              exact hft
    subst hdown
    exact connectBatches_done herrors h

theorem activateBestChain_done {fuel : Nat} {done : Bool}
    (herrors : NoErrors env) (hbase : Base s)
    (hroot : ∀ b ∈ s.mapBlockIndex, Ancestor s.parent g b)
    (h : activateBestChain env fuel s = .ok (done, s')) : done = true := by
  induction fuel generalizing s with
  | zero => cases h
  | succ fuel ih =>
      unfold activateBestChain at h
      simp only [bind, Except.bind] at h
      split at h
      · cases h
      · rename_i r hr
        rcases r with ⟨most, s₁⟩
        have hsearch := findMostWorkLoop_moves env hbase hr
        have hbase₁ := hbase.moves hsearch.1
        have hkept₁ := hsearch.1.kept
        have hroot₁ : ∀ b ∈ s₁.mapBlockIndex, Ancestor s₁.parent g b := by
          rw [hkept₁.mapBlockIndex, hkept₁.parent]
          exact hroot
        cases most with
        | none =>
            cases h
            rfl
        | some m =>
            have hm := hbase₁.candidates m
              (bestCandidate_some hsearch.2.2.1.symm).1
            dsimp only at h
            split at h
            · cases h
              rfl
            · split at h
              · cases h
              · rename_i r hr
                rcases r with ⟨stepped, s₂⟩
                have hstepped := activateBestChainStep_done herrors hbase₁
                  hroot₁ hm hr
                subst hstepped
                have hstep := activateBestChainStep_moves hbase₁ hm
                  (hsearch.2.2.2 m rfl) hr
                have hkept₂ := hkept₁.trans hstep.kept
                dsimp only at h
                rw [if_pos rfl] at h
                split at h
                · cases h
                  exact herrors.flushes
                · apply ih (hbase₁.moves hstep) _ h
                  rw [hkept₂.mapBlockIndex, hkept₂.parent]
                  exact hroot

/-- **`ActivateBestChain`** keeps the bookkeeping, unless a block of the old
chain is found invalid. -/
theorem activateBestChain_good {fuel : Nat} {done : Bool} (h : Good g s)
    (herrors : NoErrors env)
    (hverdict : ∀ a, s.Active a → env.verdict a ≠ .invalid)
    (hs' : activateBestChain env fuel s = .ok (done, s')) : Good g s' := by
  have hready := h.ready
  have hmoves := activateBestChain_moves hready.base hs'
  have hdone := activateBestChain_done herrors hready.base
    (fun b hb => h.genesis hb) hs'
  have hcall := hready.moves hmoves.1
  have htop := hmoves.2 hdone
  have hkept := hmoves.1.kept
  have hbook := h.moves hmoves.1
  have hold : ∀ a, s.Active a → (s'.index a).failed = false := by
    intro a ha
    by_contra hmark
    rcases hcall.marked a ha (Bool.eq_true_of_not_eq_false hmark) with
      ⟨a', ha', hbad⟩
    exact hverdict a' ha' hbad
  refine ⟨hbook.1, ?_, ?_, ?_, hbook.2⟩
  · intro b hb hlink hmark hworse
    apply hcall.cover htop hold b hb ⟨hmark, hbook.1.allData hb hlink⟩
    intro t ht
    unfold worseThanTip at hworse
    rw [ht] at hworse
    exact hworse
  · rw [hkept.mapBlockIndex, hkept.parent]
    exact h.root
  · rintro a ⟨t, ht, ha⟩
    exact (usable_iff.mp (hcall.usable t ht a ha)).1

end Activate

/-! ## Runs -/

/-- What reaches the block index. -/
inductive Event (B : Type)
  | header (checkBlockHeader contextualCheckBlockHeader : Bool)
      (block : Header B)
  | data (b : B) (nTx : Nat)
  | reject (b : B)
  | activate (env : Env B) (fuel : Nat)
  | invalidate (env : Env B) (p : B)
  | reconsider (p : B)

/-- `Performs g s e s'`: the event leads from `s` to `s'`, with genesis block
`g`.  `AcceptBlock` stores or rejects data that is not there yet, and blocks
are invalidated and reconsidered when there is a tip. -/
def Performs (g : B) (s : State B) : Event B → State B → Prop
  | .header checkBlockHeader contextual block, s' =>
      (acceptBlockHeader g checkBlockHeader contextual s block).2 = s'
  | .data b nTx, s' =>
      DataAllowed s b nTx ∧ s.receivedBlockTransactions b nTx = some s'
  | .reject b, s' => (s.index b).haveData = false ∧ s.rejectBlock b = s'
  | .activate env fuel, s' =>
      ∃ done, activateBestChain env fuel s = .ok (done, s')
  | .invalidate env p, s' => p ∈ s.mapBlockIndex ∧ s.tip ≠ none ∧
      ∃ done, s.invalidateBlock env p = .ok (done, s')
  | .reconsider p, s' => p ∈ s.mapBlockIndex ∧ s.tip ≠ none ∧
      s.reconsiderBlock p = s'

/-- When an event keeps the bookkeeping: there are no system errors, the
active chain is not found invalid, the genesis block is not invalidated while
it is active, and reconsidering does no harm. -/
def Harmless (s : State B) : Event B → Prop
  | .header _ _ _ => True
  | .data _ _ => True
  | .reject _ => True
  | .activate env _ => NoErrors env ∧
      ∀ a, s.Active a → env.verdict a ≠ .invalid
  | .invalidate env p => NoErrors env ∧ (s.parent p = none → ¬ s.Active p)
  | .reconsider p => Reconsiderable s p

/-- The states that sequences of allowed events lead to. -/
inductive Run (allowed : State B → Event B → Prop) (g : B) : State B → Prop
  | start : Run allowed g {}
  | step {s s' : State B} {e : Event B} : Run allowed g s →
      Performs g s e s' → allowed s e → Run allowed g s'

theorem performs_good {g : B} {s s' : State B} {e : Event B} (h : Good g s)
    (hs' : Performs g s e s') (hok : Harmless s e) : Good g s' := by
  cases e with
  | header checkBlockHeader contextual block =>
      change _ = s' at hs'
      rw [← hs']
      exact acceptBlockHeader_good h
  | data b nTx => exact receivedBlockTransactions_good h hs'.1 hs'.2
  | reject b =>
      rw [← hs'.2]
      exact rejectBlock_good h hs'.1
  | activate env fuel =>
      rcases hs' with ⟨done, hs'⟩
      exact activateBestChain_good h hok.1 hok.2 hs'
  | invalidate env p =>
      rcases hs' with ⟨hp, -, done, hs'⟩
      exact invalidateBlock_good h hp hok.1.disconnects hok.2 hs'
  | reconsider p =>
      rw [← hs'.2.2]
      exact reconsiderBlock_good h hs'.1 hs'.2.1 hok

theorem Run.good {g : B} {s : State B} (h : Run Harmless g s) :
    Good g s := by
  induction h with
  | start =>
      exact ⟨linking_empty, fun b hb => absurd hb List.not_mem_nil,
        fun b hb => absurd hb List.not_mem_nil,
        (fun a ha => by rcases ha with ⟨t, ht, -⟩; cases ht),
        fun b hb => absurd hb List.not_mem_nil⟩
  | step _ hs' hok ih => exact performs_good ih hs' hok

/-- **What `CheckBlockIndex` asserts of marks and candidates** holds in every
run of harmless events: without `BLOCK_FAILED_VALID` on its path a block has no
mark, and a linked block without failed ancestors is a candidate, unless it is
worse than the tip. -/
theorem run_checkBlockIndex {g : B} {s : State B} (h : Run Harmless g s) :
    (∀ b ∈ s.mapBlockIndex,
      (∀ a, Ancestor s.parent a b → (s.index a).failedValid = false) →
      (s.index b).failed = false) ∧
    ∀ b ∈ s.mapBlockIndex, (s.index b).nChainTx ≠ 0 →
      (∀ a, Ancestor s.parent a b → (s.index a).failedValid = false) →
      s.worseThanTip b = false → b ∈ s.setBlockIndexCandidates := by
  have hgood := h.good
  have hunmarked : ∀ b ∈ s.mapBlockIndex,
      (∀ a, Ancestor s.parent a b → (s.index a).failedValid = false) →
      (s.index b).failed = false := by
    intro b hb hvalid
    unfold CBlockIndex.failed
    rw [Bool.or_eq_false_iff]
    refine ⟨hvalid b Ancestor.refl, ?_⟩
    by_contra hchild
    rcases hgood.cause b hb (Bool.eq_true_of_not_eq_false hchild) with
      ⟨a, ha, hmark⟩
    rw [hvalid a ha] at hmark
    cases hmark
  exact ⟨hunmarked, fun b hb hlink hvalid hworse =>
    hgood.covered b hb hlink (hunmarked b hb hvalid) hworse⟩

section Example

/-- Everything is valid. -/
def accepts : Env Nat := rejects []

def withHeader (s : State Nat) (block : Header Nat) : State Nat :=
  (acceptBlockHeader 0 true true s block).2

def withTip (s : State Nat) : State Nat := activated accepts s

theorem Run.withHeader {allowed : State Nat → Event Nat → Prop}
    {s : State Nat} (h : Run allowed 0 s) (block : Header Nat)
    (hok : allowed s (.header true true block)) :
    Run allowed 0 (withHeader s block) :=
  h.step (e := .header true true block) rfl hok

theorem Run.withData {allowed : State Nat → Event Nat → Prop}
    {s : State Nat} (h : Run allowed 0 s) (b : Nat)
    (hok : allowed s (.data b 1)) (hb : b ∈ s.mapBlockIndex)
    (hdata : (s.index b).haveData = false)
    (hmark : (s.index b).failed = false)
    (hparent : ((s.parent b).map fun p => (s.index p).failed) ≠ some true)
    (hfits : ∀ c ∈ s.mapBlockIndex, s.txSum c + 1 < 2 ^ 32)
    (hsome : (s.receivedBlockTransactions b 1).isSome) :
    Run allowed 0 (withData s b 1) := by
  apply h.step (e := .data b 1) _ hok
  constructor
  · refine ⟨hb, hdata, hmark, fun p hp => ?_, Nat.one_pos,
      fun c hc _ => hfits c hc⟩
    rw [hp] at hparent
    exact Bool.eq_false_of_not_eq_true fun hfailed =>
      hparent (congrArg some hfailed)
  · rcases Option.isSome_iff_exists.mp hsome with ⟨s', hs'⟩
    unfold State.withData
    rw [hs']
    rfl

theorem Run.withTip {allowed : State Nat → Event Nat → Prop}
    {s : State Nat} (h : Run allowed 0 s) (hok : allowed s (.activate accepts 10))
    (hdone : (match activateBestChain accepts 10 s with
      | .ok (done, _) => done
      | .error _ => false) = true) : Run allowed 0 (withTip s) :=
  h.step (e := .activate accepts 10) ⟨true, activated_eq hdone⟩ hok

/-- The genesis block `0`, and `1` and `2` on top of it. -/
def chainOfThree : State Nat :=
  withHeader (withHeader (withHeader {} (header 0 9 1)) (header 1 0 1))
    (header 2 1 1)

/-- All three are active. -/
def threeActive : State Nat :=
  withTip (withData (withData (withData chainOfThree 0 1) 1 1) 2 1)

theorem threeActive_run {allowed : State Nat → Event Nat → Prop}
    (hheader : ∀ s ok ok' block, allowed s (.header ok ok' block))
    (hdata : ∀ s b nTx, allowed s (.data b nTx))
    (hactivate : ∀ s, s.tip = none → allowed s (.activate accepts 10)) :
    Run allowed 0 threeActive := by
  have h : Run allowed 0 chainOfThree :=
    ((Run.start.withHeader _ (hheader _ _ _ _)).withHeader _
      (hheader _ _ _ _)).withHeader _ (hheader _ _ _ _)
  have h0 : Run allowed 0 (State.withData chainOfThree 0 1) :=
    Run.withData h 0 (hdata _ _ _) (by decide) (by decide) (by decide)
      (by decide) (by decide) (by decide)
  have h1 := h0.withData 1 (hdata _ _ _) (by decide) (by decide) (by decide)
    (by decide) (by decide) (by decide)
  have h2 := h1.withData 2 (hdata _ _ _) (by decide) (by decide) (by decide)
    (by decide) (by decide) (by decide)
  exact h2.withTip (hactivate _ (by decide)) (by decide)

theorem noErrors_accepts : NoErrors accepts :=
  ⟨fun b => by unfold accepts rejects; simp, fun _ => rfl, rfl⟩

theorem threeActive_harmless : Run Harmless 0 threeActive :=
  threeActive_run (fun _ _ _ _ => trivial) (fun _ _ _ => trivial)
    fun s hs => ⟨noErrors_accepts, fun a ha => by
      rcases ha with ⟨t, ht, -⟩
      rw [hs] at ht
      cases ht⟩

theorem run_checkBlockIndex_three :
    2 ∈ threeActive.setBlockIndexCandidates := by
  have htree := threeActive_harmless.good.linking.tree
  apply (run_checkBlockIndex threeActive_harmless).2 2 (by decide) (by decide) _ (by decide)
  intro a ha
  rw [← mem_path htree (by decide)] at ha
  revert a
  decide

/-- The state after `InvalidateBlock`. -/
def invalidated (s : State Nat) (p : Nat) : State Nat :=
  match s.invalidateBlock accepts p with
  | .ok (_, s) => s
  | .error _ => {}

/-- `1` is invalidated and then `2`, the block on top of it, reconsidered:
`1` has no mark any more and more work than the tip, but is no candidate. -/
theorem reconsidered_parent_missed :
    ¬ ∀ s : State Nat, Run (fun _ _ => True) 0 s →
      ∀ b ∈ s.mapBlockIndex, (s.index b).nChainTx ≠ 0 →
      (∀ a, Ancestor s.parent a b → (s.index a).failed = false) →
      (∀ t, s.tip = some t →
        (s.index t).nChainWork < (s.index b).nChainWork) →
      b ∈ s.setBlockIndexCandidates := by
  intro h
  have hrun : Run (fun _ _ => True) 0 threeActive :=
    threeActive_run (fun _ _ _ _ => trivial) (fun _ _ _ => trivial)
      fun _ _ => trivial
  have hinvalidate : ∃ done, threeActive.invalidateBlock accepts 1 =
      .ok (done, invalidated threeActive 1) := by
    unfold invalidated
    split
    · rename_i done s' heq
      exact ⟨done, heq⟩
    · rename_i heq
      exfalso
      have hok : (match threeActive.invalidateBlock accepts 1 with
        | .ok _ => true
        | .error _ => false) = true := by decide
      rw [heq] at hok
      cases hok
  have hrun₁ : Run (fun _ _ => True) 0 (invalidated threeActive 1) :=
    hrun.step (e := .invalidate accepts 1)
      ⟨by decide, by decide, hinvalidate⟩ trivial
  have hrun₂ : Run (fun _ _ => True) 0
      ((invalidated threeActive 1).reconsiderBlock 2) :=
    hrun₁.step (e := .reconsider 2) ⟨by decide, by decide, rfl⟩ trivial
  have htree : ((invalidated threeActive 1).reconsiderBlock 2).TreeInv := by
    rcases hinvalidate with ⟨done, hdone⟩
    have hgood := invalidateBlock_good threeActive_harmless.good
      (by decide) noErrors_accepts.disconnects
      (fun hnone => absurd hnone (by decide)) hdone
    exact (reconsiderBlock_cleared hgood.linking.tree (by decide)).1.tree
      hgood.linking.tree
  have hmem := h _ hrun₂ 1 (by decide) (by decide)
    (by
      intro a ha
      rw [← mem_path htree (by decide)] at ha
      revert a
      decide)
    (by
      intro t ht
      have htip : ((invalidated threeActive 1).reconsiderBlock 2).tip =
          some 0 := by decide
      rw [htip] at ht
      rw [← Option.some.inj ht]
      decide)
  revert hmem
  decide

end Example

end State

end Agrarian.BlockIndex
