import Agrarian.BlockIndex.Index
import Agrarian.Lib.Worklist

/-!
# Headers and block data

`AddToBlockIndex` takes a header into the index, and
`ReceivedBlockTransactions` notes that a block's data is there.  Data may
come before that of an ancestor; then the block waits in `mapBlocksUnlinked`
until the missing data arrives, when all blocks that now have the data of all
their ancestors are linked: their `nChainTx` is set, and they become
candidates unless they are worse than the tip.
-/

namespace Agrarian.BlockIndex

open Agrarian.Lib Agrarian.Lib.Forest

variable {B : Type} [LinearOrder B]

/-- A header as the index takes it; `proof` is its `GetBlockProof`.  No header
has its own hash inside. -/
structure Header (B : Type) where
  hash : B
  hashPrevBlock : B
  proof : Nat
  hash_ne : hashPrevBlock ≠ hash

namespace State

def addToBlockIndex (s : State B) (block : Header B) : State B :=
  if block.hash ∈ s.mapBlockIndex then s
  else
    let entry : CBlockIndex B :=
      if block.hashPrevBlock ∈ s.mapBlockIndex then
        { pprev := some block.hashPrevBlock
          nHeight := (s.index block.hashPrevBlock).nHeight + 1
          nChainWork := (s.index block.hashPrevBlock).nChainWork + block.proof }
      else { nChainWork := block.proof }
    { s with
      mapBlockIndex := block.hash :: s.mapBlockIndex
      index := Function.update s.index block.hash entry }

/-- `AcceptBlockHeader`, given the outcomes of the checks of the header by
itself and against the chain below it. -/
def acceptBlockHeader (hashGenesisBlock : B)
    (checkBlockHeader contextualCheckBlockHeader : Bool) (s : State B)
    (block : Header B) : Bool × State B :=
  if block.hash ∈ s.mapBlockIndex then (!(s.index block.hash).failed, s)
  else if !checkBlockHeader then (false, s)
  else if block.hash ≠ hashGenesisBlock ∧
      (block.hashPrevBlock ∉ s.mapBlockIndex ∨
        (s.index block.hashPrevBlock).failed) then (false, s)
  else if !contextualCheckBlockHeader then (false, s)
  else (true, s.addToBlockIndex block)

/-- `nChainTx` of the block before, zero for the genesis block. -/
def prevChainTx (s : State B) (b : B) : Nat :=
  match s.parent b with
  | none => 0
  | some p => (s.index p).nChainTx

/-- One turn of the linking loop, and the blocks it queues. -/
def linkStep (s : State B) (b : B) : State B × List B :=
  let linked : State B :=
    { s with
      index := Function.update s.index b { s.index b with
        nChainTx := (s.prevChainTx b + (s.index b).nTx) % 2 ^ 32
        nSequenceId := s.nBlockSequenceId }
      nBlockSequenceId := (s.nBlockSequenceId + 1) % 2 ^ 32 }
  ({ linked with
      setBlockIndexCandidates :=
        if linked.worseThanTip b then s.setBlockIndexCandidates
        else s.setBlockIndexCandidates.insert b
      mapBlocksUnlinked := s.mapBlocksUnlinked.filter (·.1 ≠ b) },
    (s.mapBlocksUnlinked.filter (·.1 = b)).map Prod.snd)

/-- The entry of a block whose data is there. -/
def receivedData (s : State B) (b : B) (nTx : Nat) : State B :=
  s.modify b fun e => { e with
    nTx
    nChainTx := 0
    haveData := true
    validTransactions := e.validTransactions || !e.failed }

/-- Mark a block as having its data received and checked. -/
def receivedBlockTransactions (s : State B) (b : B) (nTx : Nat) :
    Option (State B) :=
  let s := s.receivedData b nTx
  match s.parent b with
  | none => Worklist.run linkStep (1 + s.mapBlocksUnlinked.length) s [b]
  | some p =>
      if (s.index p).nChainTx ≠ 0 then
        Worklist.run linkStep (1 + s.mapBlocksUnlinked.length) s [b]
      else if !(s.index p).failed then
        some { s with mapBlocksUnlinked := s.mapBlocksUnlinked ++ [(p, b)] }
      else some s

/-! ## The bookkeeping -/

/-- The transactions on the path to a block. -/
def txSum (s : State B) (b : B) : Nat :=
  ((s.path b).map fun x => (s.index x).nTx).sum

/-- The block and all its ancestors have their data. -/
def AllData (s : State B) (b : B) : Prop :=
  ∀ a, Ancestor s.parent a b → (s.index a).haveData = true

/-- The bookkeeping while the blocks of a queue are still to be linked. -/
structure Linking (s : State B) (queue : List B) : Prop where
  tree : s.TreeInv
  /-- Linked blocks have data, and their parents are linked. -/
  sound : ∀ b ∈ s.mapBlockIndex, (s.index b).nChainTx ≠ 0 →
    (s.index b).haveData = true ∧
      ∀ p, s.parent b = some p → (s.index p).nChainTx ≠ 0
  sum : ∀ b ∈ s.mapBlockIndex, (s.index b).nChainTx ≠ 0 →
    (s.index b).nChainTx = s.txSum b
  /-- The number of transactions of a chain fits 32 bits. -/
  fits : ∀ b ∈ s.mapBlockIndex, s.txSum b < 2 ^ 32
  queued : ∀ b ∈ queue, b ∈ s.mapBlockIndex ∧
    (s.index b).haveData = true ∧ (s.index b).nChainTx = 0 ∧
      ∀ p, s.parent b = some p → (s.index p).nChainTx ≠ 0
  nodup : (queue ++ s.mapBlocksUnlinked.map Prod.snd).Nodup
  unlinked : ∀ p b, (p, b) ∈ s.mapBlocksUnlinked →
    b ∈ s.mapBlockIndex ∧ (s.index b).haveData = true ∧
      s.parent b = some p ∧ (s.index p).nChainTx = 0
  /-- A block with data that is not linked is queued, or waits for its
  parent. -/
  complete : ∀ b ∈ s.mapBlockIndex, (s.index b).haveData = true →
    (s.index b).nChainTx = 0 → b ∈ queue ∨
      ∃ p, s.parent b = some p ∧ (p, b) ∈ s.mapBlocksUnlinked
  hasTx : ∀ b ∈ s.mapBlockIndex, (s.index b).haveData = true →
    0 < (s.index b).nTx
  noTx : ∀ b ∈ s.mapBlockIndex, (s.index b).haveData = false →
    (s.index b).nTx = 0
  valid : ∀ b ∈ s.mapBlockIndex, (s.index b).haveData = true →
    (s.index b).validTransactions = true
  candidates : ∀ b ∈ s.setBlockIndexCandidates, b ∈ s.mapBlockIndex ∧
    (s.index b).nChainTx ≠ 0
  tip : ∀ t, s.tip = some t → t ∈ s.mapBlockIndex ∧
    (s.index t).nChainTx ≠ 0

/-- Every linked block that is not marked and not worse than the tip is a
candidate. -/
def Covered (s : State B) : Prop :=
  ∀ b ∈ s.mapBlockIndex, (s.index b).nChainTx ≠ 0 →
    (s.index b).failed = false → s.worseThanTip b = false →
      b ∈ s.setBlockIndexCandidates

omit [LinearOrder B] in
theorem txSum_none {s : State B} (htree : s.TreeInv) {b : B}
    (hb : b ∈ s.mapBlockIndex) (hp : s.parent b = none) :
    s.txSum b = (s.index b).nTx := by
  unfold txSum path
  rw [pathTo_none htree hb hp]
  simp

omit [LinearOrder B] in
theorem txSum_some {s : State B} (htree : s.TreeInv) {b p : B}
    (hb : b ∈ s.mapBlockIndex) (hp : s.parent b = some p) :
    s.txSum b = s.txSum p + (s.index b).nTx := by
  unfold txSum path
  rw [pathTo_some htree hb hp]
  simp

omit [LinearOrder B] in
/-- `txSum` reads the tree and the transaction counts. -/
theorem txSum_congr {s s' : State B} (hparent : s'.parent = s.parent)
    (hheight : s'.height = s.height)
    (hnTx : ∀ x, (s'.index x).nTx = (s.index x).nTx) (b : B) :
    s'.txSum b = s.txSum b := by
  unfold txSum path
  rw [hparent, hheight]
  simp only [hnTx]

/-! ## Linking one block -/

section LinkStep

variable {s : State B} {b : B} {queue : List B}

theorem linkStep_index_ne {x : B} (hx : x ≠ b) :
    (linkStep s b).1.index x = s.index x := Function.update_of_ne hx _ _

theorem linkStep_index_self : (linkStep s b).1.index b =
    { s.index b with
      nChainTx := (s.prevChainTx b + (s.index b).nTx) % 2 ^ 32
      nSequenceId := s.nBlockSequenceId } := Function.update_self ..

/-- Fields the linking loop does not write. -/
theorem linkStep_kept {γ : Type} (field : CBlockIndex B → γ)
    (hfield : ∀ e nChainTx nSequenceId, field { e with
      nChainTx := nChainTx, nSequenceId := nSequenceId } = field e) (x : B) :
    field ((linkStep s b).1.index x) = field (s.index x) := by
  by_cases hx : x = b
  · rw [hx, linkStep_index_self, hfield]
  · rw [linkStep_index_ne hx]

theorem linkStep_parent : (linkStep s b).1.parent = s.parent :=
  funext (linkStep_kept CBlockIndex.pprev fun _ _ _ => rfl)

theorem linkStep_height : (linkStep s b).1.height = s.height :=
  funext (linkStep_kept CBlockIndex.nHeight fun _ _ _ => rfl)

theorem linkStep_haveData (x : B) :
    ((linkStep s b).1.index x).haveData = (s.index x).haveData :=
  linkStep_kept CBlockIndex.haveData (fun _ _ _ => rfl) x

theorem linkStep_nTx (x : B) :
    ((linkStep s b).1.index x).nTx = (s.index x).nTx :=
  linkStep_kept CBlockIndex.nTx (fun _ _ _ => rfl) x

theorem linkStep_txSum (x : B) : (linkStep s b).1.txSum x = s.txSum x :=
  txSum_congr linkStep_parent linkStep_height linkStep_nTx x

theorem mem_linkStep_queued {x : B} :
    x ∈ (linkStep s b).2 ↔ (b, x) ∈ s.mapBlocksUnlinked := by
  unfold linkStep
  simp only [List.mem_map, List.mem_filter, decide_eq_true_eq]
  constructor
  · rintro ⟨⟨p, x'⟩, ⟨hmem, rfl⟩, rfl⟩
    exact hmem
  · intro hmem
    exact ⟨(b, x), ⟨hmem, rfl⟩, rfl⟩

theorem mem_linkStep_unlinked {p x : B} :
    (p, x) ∈ (linkStep s b).1.mapBlocksUnlinked ↔
      (p, x) ∈ s.mapBlocksUnlinked ∧ p ≠ b := by
  unfold linkStep
  simp

/-- What becomes of the queue and the waiting blocks together. -/
theorem linkStep_perm (queue : List B) :
    (queue ++ (linkStep s b).2 ++
      (linkStep s b).1.mapBlocksUnlinked.map Prod.snd).Perm
        (queue ++ s.mapBlocksUnlinked.map Prod.snd) := by
  rw [List.append_assoc]
  apply List.Perm.append_left
  unfold linkStep
  simp only [ne_eq, decide_not]
  rw [← List.map_append]
  exact (List.filter_append_perm _ _).map _

/-- The count a block is linked with is that of its path. -/
theorem Linking.linked_eq (h : Linking s (b :: queue)) :
    ((linkStep s b).1.index b).nChainTx = s.txSum b ∧ s.txSum b ≠ 0 := by
  have hqueued := h.queued b List.mem_cons_self
  have hfits := h.fits b hqueued.1
  have htx := h.hasTx b hqueued.1 hqueued.2.1
  have hsum : s.txSum b = s.prevChainTx b + (s.index b).nTx := by
    unfold prevChainTx
    cases hp : s.parent b with
    | none => rw [txSum_none h.tree hqueued.1 hp, Nat.zero_add]
    | some p =>
        have hpmem : p ∈ s.mapBlockIndex := h.tree.closed hqueued.1 hp
        show s.txSum b = (s.index p).nChainTx + (s.index b).nTx
        rw [txSum_some h.tree hqueued.1 hp,
          h.sum p hpmem (hqueued.2.2.2 p hp)]
  rw [linkStep_index_self]
  show (s.prevChainTx b + (s.index b).nTx) % 2 ^ 32 = _ ∧ _
  rw [← hsum, Nat.mod_eq_of_lt hfits]
  exact ⟨rfl, by omega⟩

/-- **Linking one block** keeps the bookkeeping right. -/
theorem linkStep_inv (h : Linking s (b :: queue)) :
    Linking (linkStep s b).1 (queue ++ (linkStep s b).2) := by
  have hqueued := h.queued b List.mem_cons_self
  have hlinked := h.linked_eq
  have hnonzero : ((linkStep s b).1.index b).nChainTx ≠ 0 := by
    rw [hlinked.1]
    exact hlinked.2
  have hmono : ∀ x, (s.index x).nChainTx ≠ 0 →
      ((linkStep s b).1.index x).nChainTx ≠ 0 := by
    intro x hx
    by_cases hxb : x = b
    · rw [hxb]
      exact hnonzero
    · rwa [linkStep_index_ne hxb]
  have hzero : ∀ x, ((linkStep s b).1.index x).nChainTx = 0 →
      x ≠ b ∧ (s.index x).nChainTx = 0 := by
    intro x hx
    have hxb : x ≠ b := by
      rintro rfl
      exact hnonzero hx
    rw [linkStep_index_ne hxb] at hx
    exact ⟨hxb, hx⟩
  constructor
  case tree =>
    show Ranked (linkStep s b).1.parent (· ∈ s.mapBlockIndex)
      (linkStep s b).1.height
    rw [linkStep_parent, linkStep_height]
    exact h.tree
  case sound =>
    intro x hx hlink
    rw [linkStep_haveData, linkStep_parent]
    by_cases hxb : x = b
    · rw [hxb]
      exact ⟨hqueued.2.1, fun p hp => hmono p (hqueued.2.2.2 p hp)⟩
    · rw [linkStep_index_ne hxb] at hlink
      have hsound := h.sound x hx hlink
      exact ⟨hsound.1, fun p hp => hmono p (hsound.2 p hp)⟩
  case sum =>
    intro x hx hlink
    rw [linkStep_txSum]
    by_cases hxb : x = b
    · rw [hxb, hlinked.1]
    · rw [linkStep_index_ne hxb] at hlink ⊢
      exact h.sum x hx hlink
  case fits =>
    intro x hx
    rw [linkStep_txSum]
    exact h.fits x hx
  case queued =>
    intro x hx
    rw [linkStep_haveData, linkStep_parent]
    have hnodup := h.nodup
    rw [List.cons_append, List.nodup_cons, List.mem_append, not_or] at hnodup
    rcases List.mem_append.mp hx with hold | hnew
    · have hq := h.queued x (List.mem_cons_of_mem _ hold)
      have hxb : x ≠ b := by
        rintro rfl
        exact hnodup.1.1 hold
      rw [linkStep_index_ne hxb]
      exact ⟨hq.1, hq.2.1, hq.2.2.1, fun p hp => hmono p (hq.2.2.2 p hp)⟩
    · rw [mem_linkStep_queued] at hnew
      have hun := h.unlinked b x hnew
      have hxb : x ≠ b := by
        rintro rfl
        exact hnodup.1.2 (List.mem_map.mpr ⟨_, hnew, rfl⟩)
      have hxzero : (s.index x).nChainTx = 0 := by
        by_contra hlink
        exact (h.sound x hun.1 hlink).2 b hun.2.2.1 hun.2.2.2
      rw [linkStep_index_ne hxb]
      refine ⟨hun.1, hun.2.1, hxzero, fun p hp => ?_⟩
      rw [hun.2.2.1] at hp
      rw [← Option.some.inj hp]
      exact hnonzero
  case nodup =>
    rw [(linkStep_perm queue).nodup_iff]
    have hnodup := h.nodup
    rw [List.cons_append, List.nodup_cons] at hnodup
    exact hnodup.2
  case unlinked =>
    intro p x hpx
    rw [mem_linkStep_unlinked] at hpx
    have hun := h.unlinked p x hpx.1
    rw [linkStep_haveData, linkStep_parent, linkStep_index_ne hpx.2]
    exact hun
  case complete =>
    intro x hx hdata hxzero
    rw [linkStep_haveData] at hdata
    have hold := hzero x hxzero
    rw [linkStep_parent, List.mem_append, mem_linkStep_queued]
    rcases h.complete x hx hdata hold.2 with hmem | ⟨p, hp, hpx⟩
    · left
      left
      exact (List.mem_cons.mp hmem).resolve_left hold.1
    · by_cases hpb : p = b
      · left
        right
        rw [← hpb]
        exact hpx
      · right
        exact ⟨p, hp, mem_linkStep_unlinked.mpr ⟨hpx, hpb⟩⟩
  case hasTx =>
    intro x hx hdata
    rw [linkStep_haveData] at hdata
    rw [linkStep_nTx]
    exact h.hasTx x hx hdata
  case noTx =>
    intro x hx hdata
    rw [linkStep_haveData] at hdata
    rw [linkStep_nTx]
    exact h.noTx x hx hdata
  case valid =>
    intro x hx hdata
    rw [linkStep_haveData] at hdata
    rw [linkStep_kept CBlockIndex.validTransactions fun _ _ _ => rfl]
    exact h.valid x hx hdata
  case candidates =>
    intro x hx
    have hx' : x = b ∨ x ∈ s.setBlockIndexCandidates := by
      change x ∈ (if _ then s.setBlockIndexCandidates
        else s.setBlockIndexCandidates.insert b) at hx
      split at hx
      · exact Or.inr hx
      · exact List.mem_insert_iff.mp hx
    rcases hx' with rfl | hold
    · exact ⟨hqueued.1, hnonzero⟩
    · exact ⟨(h.candidates x hold).1, hmono x (h.candidates x hold).2⟩
  case tip =>
    intro t ht
    exact ⟨(h.tip t ht).1, hmono t (h.tip t ht).2⟩

/-- The tip is not being linked, so another block compares with it as before. -/
theorem linkStep_worseThanTip (h : Linking s (b :: queue)) {x : B} (hx : x ≠ b) :
    (linkStep s b).1.worseThanTip x = s.worseThanTip x := by
  have hqueued := h.queued b List.mem_cons_self
  unfold worseThanTip
  change (match s.tip with
    | none => false
    | some t => (linkStep s b).1.worse x t) = _
  cases htip : s.tip with
  | none => rfl
  | some t =>
      have htb : t ≠ b := by
        rintro rfl
        exact (h.tip t htip).2 hqueued.2.2.1
      apply worse_congr
      · rw [linkStep_index_ne hx]
        exact ⟨rfl, rfl⟩
      · rw [linkStep_index_ne htb]
        exact ⟨rfl, rfl⟩

/-- A linked block becomes a candidate, unless it is worse than the tip. -/
theorem linkStep_covered (h : Linking s (b :: queue)) (hcov : s.Covered) :
    (linkStep s b).1.Covered := by
  intro x hx hlink hmark hworse
  show x ∈ (if State.worseThanTip _ b then s.setBlockIndexCandidates
    else s.setBlockIndexCandidates.insert b)
  by_cases hxb : x = b
  · subst hxb
    rw [if_neg]
    · exact List.mem_insert_self
    · rw [Bool.not_eq_true]
      exact hworse
  · have hmem : x ∈ s.setBlockIndexCandidates := by
      apply hcov x hx
      · rwa [linkStep_index_ne hxb] at hlink
      · rwa [linkStep_index_ne hxb] at hmark
      · rwa [linkStep_worseThanTip h hxb] at hworse
    split
    · exact hmem
    · exact List.mem_insert_of_mem hmem

end LinkStep

/-! ## The whole loop -/

/-- The tip, the shape of the tree and the failure marks are the same. -/
structure SameMarks (s s' : State B) : Prop where
  tip : s'.tip = s.tip
  mapBlockIndex : s'.mapBlockIndex = s.mapBlockIndex
  parent : s'.parent = s.parent
  failedValid : ∀ x, (s'.index x).failedValid = (s.index x).failedValid
  failedChild : ∀ x, (s'.index x).failedChild = (s.index x).failedChild

omit [LinearOrder B] in
theorem SameMarks.refl (s : State B) : SameMarks s s :=
  ⟨rfl, rfl, rfl, fun _ => rfl, fun _ => rfl⟩

omit [LinearOrder B] in
theorem SameMarks.trans {s s' s'' : State B} (h : SameMarks s s')
    (h' : SameMarks s' s'') : SameMarks s s'' :=
  ⟨h'.tip.trans h.tip, h'.mapBlockIndex.trans h.mapBlockIndex,
    h'.parent.trans h.parent,
    fun x => (h'.failedValid x).trans (h.failedValid x),
    fun x => (h'.failedChild x).trans (h.failedChild x)⟩

theorem linkStep_sameMarks (s : State B) (b : B) :
    SameMarks s (linkStep s b).1 :=
  ⟨rfl, rfl, linkStep_parent,
    linkStep_kept CBlockIndex.failedValid fun _ _ _ => rfl,
    linkStep_kept CBlockIndex.failedChild fun _ _ _ => rfl⟩

/-- Every block that is queued leaves the waiting blocks. -/
theorem linkStep_pays :
    Worklist.Pays (linkStep (B := B))
      (fun s : State B => s.mapBlocksUnlinked.length) := by
  intro s b
  have h := (linkStep_perm (s := s) (b := b) []).length_eq
  simp only [List.nil_append, List.length_append, List.length_map] at h
  exact h.le

/-- What every turn of the linking loop keeps. -/
theorem linkLoop_inv {s s' : State B} {b : B} (inv : State B → List B → Prop)
    (hstep : ∀ s a queue, inv s (a :: queue) →
      inv (linkStep s a).1 (queue ++ (linkStep s a).2))
    (hinv : inv s [b])
    (hrun : Worklist.run linkStep (1 + s.mapBlocksUnlinked.length) s [b] = some s') :
    inv s' [] := by
  obtain ⟨s'', hs'', hinv'⟩ :=
    Worklist.run_spec linkStep_pays inv hstep hinv (Nat.le_refl _)
  have heq : s'' = s' := Option.some.inj (hs''.symm.trans hrun)
  rwa [← heq]

/-- The linking loop ends, with nothing queued. -/
theorem linkLoop_spec {s : State B} {b : B} (h : Linking s [b])
    (hcov : s.Covered) :
    ∃ s', Worklist.run linkStep (1 + s.mapBlocksUnlinked.length) s [b] =
        some s' ∧ Linking s' [] ∧ s'.Covered ∧ SameMarks s s' := by
  apply Worklist.run_spec linkStep_pays
    (fun s' queue => Linking s' queue ∧ s'.Covered ∧ SameMarks s s')
  · rintro s' b' queue ⟨hlinking, hcov', hsame⟩
    exact ⟨linkStep_inv hlinking, linkStep_covered hlinking hcov',
      hsame.trans (linkStep_sameMarks s' b')⟩
  · exact ⟨h, hcov, SameMarks.refl s⟩
  · exact Nat.le_refl _

omit [LinearOrder B] in
/-- Linked blocks have the data of all their ancestors. -/
theorem Linking.allData {s : State B} {queue : List B}
    (h : Linking s queue) {b : B} (hb : b ∈ s.mapBlockIndex)
    (hlink : (s.index b).nChainTx ≠ 0) : s.AllData b := by
  intro a ha
  induction ha with
  | refl => exact (h.sound a hb hlink).1
  | step hp _ ih =>
      exact ih (h.tree.closed hb hp) ((h.sound _ hb hlink).2 _ hp)

omit [LinearOrder B] in
/-- When nothing is queued, blocks with the data of all their ancestors are
linked. -/
theorem Linking.linked {s : State B} (h : Linking s []) {b : B}
    (hb : b ∈ s.mapBlockIndex) (hdata : s.AllData b) :
    (s.index b).nChainTx ≠ 0 := by
  revert hdata
  apply path_induction h.tree _ _ hb
  · intro b hb hp hdata hzero
    rcases h.complete b hb (hdata b Ancestor.refl) hzero with hq | ⟨p, hp', -⟩
    · cases hq
    · rw [hp] at hp'
      cases hp'
  · intro b p hb hp ih hdata hzero
    rcases h.complete b hb (hdata b Ancestor.refl) hzero with
      hq | ⟨p', -, hun⟩
    · cases hq
    · have hun' := h.unlinked p' b hun
      rw [hp] at hun'
      rw [← Option.some.inj hun'.2.2.1] at hun'
      exact ih (fun a ha => hdata a (Ancestor.step hp ha)) hun'.2.2.2

/-! ## The data of a block -/

/-- What `AcceptBlock` makes sure of before it hands over a block's data: the
block is in the index, new and not marked, nor is its parent, and has
transactions.  The last part is about the size of `nChainTx`. -/
structure DataAllowed (s : State B) (b : B) (nTx : Nat) : Prop where
  indexed : b ∈ s.mapBlockIndex
  noData : (s.index b).haveData = false
  unmarked : (s.index b).failed = false
  parent : ∀ p, s.parent b = some p → (s.index p).failed = false
  nonempty : 0 < nTx
  fits : ∀ c ∈ s.mapBlockIndex, Ancestor s.parent b c →
    s.txSum c + nTx < 2 ^ 32

section ReceivedData

variable {s : State B} {b : B} {nTx : Nat}

theorem receivedData_index_ne {x : B} (hx : x ≠ b) :
    (s.receivedData b nTx).index x = s.index x := Function.update_of_ne hx _ _

theorem receivedData_index_self : (s.receivedData b nTx).index b =
    { s.index b with
      nTx
      nChainTx := 0
      haveData := true
      validTransactions :=
        (s.index b).validTransactions || !(s.index b).failed } :=
  Function.update_self ..

theorem receivedData_kept {γ : Type} (field : CBlockIndex B → γ)
    (hfield : ∀ e nTx nChainTx haveData validTransactions, field { e with
      nTx := nTx, nChainTx := nChainTx, haveData := haveData,
      validTransactions := validTransactions } = field e) (x : B) :
    field ((s.receivedData b nTx).index x) = field (s.index x) := by
  by_cases hx : x = b
  · rw [hx, receivedData_index_self, hfield]
  · rw [receivedData_index_ne hx]

theorem receivedData_parent : (s.receivedData b nTx).parent = s.parent :=
  funext (receivedData_kept CBlockIndex.pprev fun _ _ _ _ _ => rfl)

theorem receivedData_height : (s.receivedData b nTx).height = s.height :=
  funext (receivedData_kept CBlockIndex.nHeight fun _ _ _ _ _ => rfl)

/-- The block has its data now, and no block has lost it. -/
theorem receivedData_haveData {x : B} (hx : (s.index x).haveData = true) :
    ((s.receivedData b nTx).index x).haveData = true := by
  by_cases hxb : x = b
  · rw [hxb, receivedData_index_self]
  · rwa [receivedData_index_ne hxb]

/-- No block is linked by its data alone. -/
theorem receivedData_unlinked {x : B} (hx : (s.index x).nChainTx = 0) :
    ((s.receivedData b nTx).index x).nChainTx = 0 := by
  by_cases hxb : x = b
  · rw [hxb, receivedData_index_self]
  · rwa [receivedData_index_ne hxb]

/-- A block that was not linked stays so, and the others stay as they are. -/
theorem receivedData_linked_iff (hzero : (s.index b).nChainTx = 0) {x : B} :
    ((s.receivedData b nTx).index x).nChainTx ≠ 0 ↔
      (s.index x).nChainTx ≠ 0 := by
  by_cases hxb : x = b
  · rw [hxb, receivedData_index_self, hzero]
  · rw [receivedData_index_ne hxb]

theorem receivedData_sameMarks : SameMarks s (s.receivedData b nTx) :=
  ⟨rfl, rfl, receivedData_parent,
    receivedData_kept CBlockIndex.failedValid fun _ _ _ _ _ => rfl,
    receivedData_kept CBlockIndex.failedChild fun _ _ _ _ _ => rfl⟩

theorem receivedData_tree (h : s.TreeInv) :
    (s.receivedData b nTx).TreeInv := by
  show Ranked (s.receivedData b nTx).parent (· ∈ s.mapBlockIndex)
    (s.receivedData b nTx).height
  rw [receivedData_parent, receivedData_height]
  exact h

/-- The new transactions count for the block and its descendants. -/
theorem receivedData_txSum (h : s.TreeInv) (hzero : (s.index b).nTx = 0)
    {c : B} (hc : c ∈ s.mapBlockIndex) :
    (Ancestor s.parent b c →
      (s.receivedData b nTx).txSum c = s.txSum c + nTx) ∧
    (¬ Ancestor s.parent b c →
      (s.receivedData b nTx).txSum c = s.txSum c) := by
  have htree : (s.receivedData b nTx).TreeInv := receivedData_tree h
  apply path_induction h _ _ hc
  · intro c hc hp
    have hp' : (s.receivedData b nTx).parent c = none := by
      rw [receivedData_parent, hp]
    rw [txSum_none htree hc hp', txSum_none h hc hp]
    by_cases hcb : c = b
    · rw [hcb, receivedData_index_self, hzero, Nat.zero_add]
      exact ⟨fun _ => rfl, fun hno => absurd Ancestor.refl hno⟩
    · rw [receivedData_index_ne hcb]
      refine ⟨fun hanc => ?_, fun _ => rfl⟩
      rcases hanc.eq_or_parent with rfl | ⟨p, hp', -⟩
      · exact absurd rfl hcb
      · rw [hp] at hp'
        cases hp'
  · intro c p hc hp ih
    have hp' : (s.receivedData b nTx).parent c = some p := by
      rw [receivedData_parent, hp]
    rw [txSum_some htree hc hp', txSum_some h hc hp]
    by_cases hcb : c = b
    · subst hcb
      have hnot : ¬ Ancestor s.parent c p := by
        intro hanc
        have hle := hanc.rank_le h (h.closed hc hp)
        have hstep := h.rank_some hc hp
        omega
      rw [receivedData_index_self, hzero, ih.2 hnot]
      exact ⟨fun _ => rfl, fun hno => absurd Ancestor.refl hno⟩
    · rw [receivedData_index_ne hcb]
      constructor
      · intro hanc
        rcases hanc.eq_or_parent with rfl | ⟨p', hp', hanc'⟩
        · exact absurd rfl hcb
        · rw [hp] at hp'
          rw [← Option.some.inj hp'] at hanc'
          rw [ih.1 hanc']
          omega
      · intro hno
        rw [ih.2 fun hanc => hno (Ancestor.step hp hanc)]

omit [LinearOrder B] in
/-- A block without data is not linked and does not wait for its parent. -/
theorem Linking.of_noData (h : Linking s []) (hb : b ∈ s.mapBlockIndex)
    (hdata : (s.index b).haveData = false) :
    (s.index b).nChainTx = 0 ∧ b ∉ s.mapBlocksUnlinked.map Prod.snd := by
  constructor
  · by_contra hlink
    have hhas := (h.sound b hb hlink).1
    rw [hdata] at hhas
    cases hhas
  · intro hmem
    rcases List.mem_map.mp hmem with ⟨⟨p, x⟩, hpx, rfl⟩
    have hhas := (h.unlinked p x hpx).2.1
    rw [hdata] at hhas
    cases hhas

/-- Where a block goes whose data was received: into the queue if its parent
is linked, else among the blocks that wait. -/
def Placed (s : State B) (b : B) (queue : List B)
    (mapBlocksUnlinked : List (B × B)) : Prop :=
  (queue = [b] ∧ mapBlocksUnlinked = s.mapBlocksUnlinked ∧
    ∀ p, s.parent b = some p → (s.index p).nChainTx ≠ 0) ∨
  ∃ p, queue = [] ∧ mapBlocksUnlinked = s.mapBlocksUnlinked ++ [(p, b)] ∧
    s.parent b = some p ∧ (s.index p).nChainTx = 0

theorem receivedData_linking (h : Linking s [])
    (hallowed : DataAllowed s b nTx) {queue : List B}
    {mapBlocksUnlinked : List (B × B)}
    (hplaced : Placed s b queue mapBlocksUnlinked) :
    Linking { s.receivedData b nTx with mapBlocksUnlinked } queue := by
  have hb := hallowed.indexed
  obtain ⟨hbzero, hfresh⟩ := h.of_noData hb hallowed.noData
  have hsum : ∀ c ∈ s.mapBlockIndex,
      (Ancestor s.parent b c →
        (s.receivedData b nTx).txSum c = s.txSum c + nTx) ∧
      (¬ Ancestor s.parent b c →
        (s.receivedData b nTx).txSum c = s.txSum c) := fun c hc =>
    receivedData_txSum h.tree (h.noTx b hb hallowed.noData) hc
  have hlinked : ∀ x, ((s.receivedData b nTx).index x).nChainTx ≠ 0 ↔
      (s.index x).nChainTx ≠ 0 := fun x => receivedData_linked_iff hbzero
  have hself : ((s.receivedData b nTx).index b).haveData = true ∧
      ((s.receivedData b nTx).index b).nChainTx = 0 := by
    rw [receivedData_index_self]
    exact ⟨rfl, rfl⟩
  have hold : ∀ p x, (p, x) ∈ s.mapBlocksUnlinked →
      x ∈ s.mapBlockIndex ∧
        ((s.receivedData b nTx).index x).haveData = true ∧
        (s.receivedData b nTx).parent x = some p ∧
        ((s.receivedData b nTx).index p).nChainTx = 0 := by
    intro p x hpx
    have hun := h.unlinked p x hpx
    rw [receivedData_parent]
    exact ⟨hun.1, receivedData_haveData hun.2.1, hun.2.2.1,
      receivedData_unlinked hun.2.2.2⟩
  constructor
  case tree =>
    exact receivedData_tree h.tree
  case sound =>
    intro x hx hlink
    have hsound := h.sound x hx ((hlinked x).mp hlink)
    refine ⟨receivedData_haveData hsound.1, fun p hp => ?_⟩
    change (s.receivedData b nTx).parent x = some p at hp
    rw [receivedData_parent] at hp
    exact (hlinked p).mpr (hsound.2 p hp)
  case sum =>
    intro x hx hlink
    have hlink' := (hlinked x).mp hlink
    have hxb : x ≠ b := fun heq => hlink' (heq ▸ hbzero)
    have hnot : ¬ Ancestor s.parent b x := by
      intro hanc
      have hdata := h.allData hx hlink' b hanc
      rw [hallowed.noData] at hdata
      cases hdata
    show ((s.receivedData b nTx).index x).nChainTx =
      (s.receivedData b nTx).txSum x
    rw [receivedData_index_ne hxb, (hsum x hx).2 hnot]
    exact h.sum x hx hlink'
  case fits =>
    intro x hx
    show (s.receivedData b nTx).txSum x < 2 ^ 32
    by_cases hanc : Ancestor s.parent b x
    · rw [(hsum x hx).1 hanc]
      exact hallowed.fits x hx hanc
    · rw [(hsum x hx).2 hanc]
      exact h.fits x hx
  case queued =>
    intro x hx
    rcases hplaced with ⟨rfl, -, hparent⟩ | ⟨p, rfl, -⟩
    · rw [List.mem_singleton.mp hx]
      refine ⟨hb, hself.1, hself.2, fun p hp => ?_⟩
      change (s.receivedData b nTx).parent b = some p at hp
      rw [receivedData_parent] at hp
      exact (hlinked p).mpr (hparent p hp)
    · cases hx
  case nodup =>
    rcases hplaced with ⟨rfl, rfl, -⟩ | ⟨p, rfl, rfl, -⟩
    · exact List.nodup_cons.mpr ⟨hfresh, h.nodup⟩
    · show (List.map Prod.snd (s.mapBlocksUnlinked ++ [(p, b)])).Nodup
      rw [List.map_append, List.nodup_append]
      refine ⟨h.nodup, List.nodup_singleton b, fun x hx y hy => ?_⟩
      rw [List.mem_singleton.mp hy]
      rintro rfl
      exact hfresh hx
  case unlinked =>
    intro p x hpx
    rcases hplaced with ⟨-, rfl, -⟩ | ⟨p', -, rfl, hp', hzero⟩
    · exact hold p x hpx
    · rcases List.mem_append.mp hpx with hpx | hpx
      · exact hold p x hpx
      · rw [List.mem_singleton] at hpx
        obtain ⟨rfl, rfl⟩ := Prod.mk.inj hpx
        refine ⟨hb, hself.1, ?_, receivedData_unlinked hzero⟩
        show (s.receivedData x nTx).parent x = some p
        rw [receivedData_parent]
        exact hp'
  case complete =>
    intro x hx hdata hzero
    show x ∈ queue ∨ ∃ p, (s.receivedData b nTx).parent x = some p ∧
      (p, x) ∈ mapBlocksUnlinked
    rw [receivedData_parent]
    by_cases hxb : x = b
    · rw [hxb]
      rcases hplaced with ⟨rfl, -⟩ | ⟨p, -, rfl, hp, -⟩
      · exact Or.inl List.mem_cons_self
      · exact Or.inr ⟨p, hp, List.mem_append_right _ List.mem_cons_self⟩
    · change ((s.receivedData b nTx).index x).haveData = true at hdata
      change ((s.receivedData b nTx).index x).nChainTx = 0 at hzero
      rw [receivedData_index_ne hxb] at hdata hzero
      rcases h.complete x hx hdata hzero with hq | ⟨p, hp, hpx⟩
      · cases hq
      · right
        refine ⟨p, hp, ?_⟩
        rcases hplaced with ⟨-, rfl, -⟩ | ⟨p', -, rfl, -⟩
        · exact hpx
        · exact List.mem_append_left _ hpx
  case hasTx =>
    intro x hx hdata
    show 0 < ((s.receivedData b nTx).index x).nTx
    change ((s.receivedData b nTx).index x).haveData = true at hdata
    by_cases hxb : x = b
    · rw [hxb, receivedData_index_self]
      exact hallowed.nonempty
    · rw [receivedData_index_ne hxb] at hdata ⊢
      exact h.hasTx x hx hdata
  case noTx =>
    intro x hx hdata
    show ((s.receivedData b nTx).index x).nTx = 0
    change ((s.receivedData b nTx).index x).haveData = false at hdata
    by_cases hxb : x = b
    · rw [hxb, hself.1] at hdata
      cases hdata
    · rw [receivedData_index_ne hxb] at hdata ⊢
      exact h.noTx x hx hdata
  case valid =>
    intro x hx hdata
    show ((s.receivedData b nTx).index x).validTransactions = true
    change ((s.receivedData b nTx).index x).haveData = true at hdata
    by_cases hxb : x = b
    · rw [hxb, receivedData_index_self]
      simp [hallowed.unmarked]
    · rw [receivedData_index_ne hxb] at hdata ⊢
      exact h.valid x hx hdata
  case candidates =>
    intro x hx
    exact ⟨(h.candidates x hx).1, (hlinked x).mpr (h.candidates x hx).2⟩
  case tip =>
    intro t ht
    exact ⟨(h.tip t ht).1, (hlinked t).mpr (h.tip t ht).2⟩

/-- Data changes neither work nor order. -/
theorem receivedData_worseThanTip {u : List (B × B)} (x : B) :
    State.worseThanTip { s.receivedData b nTx with mapBlocksUnlinked := u } x =
      s.worseThanTip x := by
  have hcongr : ∀ t, (s.receivedData b nTx).worse x t = s.worse x t := by
    intro t
    apply worse_congr
    · exact ⟨receivedData_kept CBlockIndex.nChainWork (fun _ _ _ _ _ => rfl) x,
        receivedData_kept CBlockIndex.nSequenceId (fun _ _ _ _ _ => rfl) x⟩
    · exact ⟨receivedData_kept CBlockIndex.nChainWork (fun _ _ _ _ _ => rfl) t,
        receivedData_kept CBlockIndex.nSequenceId (fun _ _ _ _ _ => rfl) t⟩
  unfold worseThanTip
  change (match s.tip with
    | none => false
    | some t => (s.receivedData b nTx).worse x t) = _
  cases s.tip with
  | none => rfl
  | some t => exact hcongr t

theorem receivedData_covered (hcov : s.Covered) {u : List (B × B)} :
    Covered { s.receivedData b nTx with mapBlocksUnlinked := u } := by
  intro x hx hlink hmark hworse
  change ((s.receivedData b nTx).index x).nChainTx ≠ 0 at hlink
  have hxb : x ≠ b := by
    rintro rfl
    rw [receivedData_index_self] at hlink
    exact hlink rfl
  rw [receivedData_index_ne hxb] at hlink
  have hmark' : (s.index x).failed = false := by
    change ((s.receivedData b nTx).index x).failed = false at hmark
    rwa [receivedData_index_ne hxb] at hmark
  rw [receivedData_worseThanTip] at hworse
  exact hcov x hx hlink hmark' hworse

/-- **Received data is linked as far as it goes**, and everything that waited
for it. -/
theorem receivedBlockTransactions_spec (h : Linking s [])
    (hcov : s.Covered) (hallowed : DataAllowed s b nTx) :
    ∃ s', s.receivedBlockTransactions b nTx = some s' ∧ Linking s' [] ∧
      s'.Covered ∧ SameMarks s s' := by
  have hrun : (∀ p, s.parent b = some p → (s.index p).nChainTx ≠ 0) →
      ∃ s', Worklist.run linkStep
          (1 + (s.receivedData b nTx).mapBlocksUnlinked.length)
          (s.receivedData b nTx) [b] = some s' ∧ Linking s' [] ∧
        s'.Covered ∧ SameMarks s s' := by
    intro hparent
    have hlinking := receivedData_linking h hallowed
      (Or.inl ⟨rfl, rfl, hparent⟩)
    rcases linkLoop_spec hlinking (receivedData_covered hcov) with
      ⟨s', hs', hlinking', hcov', hsame⟩
    exact ⟨s', hs', hlinking', hcov', receivedData_sameMarks.trans hsame⟩
  unfold receivedBlockTransactions
  simp only [receivedData_parent]
  cases hp : s.parent b with
  | none => exact hrun fun p hp' => by rw [hp] at hp'; cases hp'
  | some p =>
      have hpb : p ≠ b := by
        rintro rfl
        have hstep := h.tree.rank_some hallowed.indexed hp
        omega
      simp only [receivedData_index_ne hpb]
      by_cases hlink : (s.index p).nChainTx ≠ 0
      · rw [if_pos hlink]
        apply hrun
        intro p' hp'
        rw [hp] at hp'
        rwa [← Option.some.inj hp']
      · have hmark := hallowed.parent p hp
        have hsame : SameMarks s (s.receivedData b nTx) :=
          receivedData_sameMarks
        rw [if_neg hlink, hmark]
        exact ⟨_, rfl, receivedData_linking h hallowed (Or.inr ⟨p, rfl, rfl,
          hp, not_not.mp hlink⟩), receivedData_covered hcov,
          ⟨hsame.tip, hsame.mapBlockIndex, hsame.parent, hsame.failedValid,
            hsame.failedChild⟩⟩

/-- The blocks, their places in the tree and their work are the same. -/
structure SameTree (s s' : State B) : Prop where
  mapBlockIndex : s'.mapBlockIndex = s.mapBlockIndex
  parent : s'.parent = s.parent
  height : s'.height = s.height
  nChainWork : ∀ x, (s'.index x).nChainWork = (s.index x).nChainWork

omit [LinearOrder B] in
theorem SameTree.trans {s s' s'' : State B} (h : SameTree s s') (h' : SameTree s' s'') :
    SameTree s s'' :=
  ⟨h'.mapBlockIndex.trans h.mapBlockIndex, h'.parent.trans h.parent,
    h'.height.trans h.height, fun x => (h'.nChainWork x).trans (h.nChainWork x)⟩

theorem linkStep_sameTree (s : State B) (b : B) : SameTree s (linkStep s b).1 :=
  ⟨rfl, linkStep_parent, linkStep_height,
    linkStep_kept CBlockIndex.nChainWork fun _ _ _ => rfl⟩

theorem receivedData_sameTree : SameTree s (s.receivedData b nTx) :=
  ⟨rfl, receivedData_parent, receivedData_height,
    receivedData_kept CBlockIndex.nChainWork fun _ _ _ _ _ => rfl⟩

/-- Data moves no block. -/
theorem receivedBlockTransactions_sameTree {s' : State B}
    (h : s.receivedBlockTransactions b nTx = some s') : SameTree s s' := by
  have hrun : Worklist.run linkStep (1 + (s.receivedData b nTx).mapBlocksUnlinked.length)
      (s.receivedData b nTx) [b] = some s' → SameTree s s' := by
    exact linkLoop_inv (fun s' _ => SameTree s s')
      (fun s' b' _ hsame => hsame.trans (linkStep_sameTree s' b')) receivedData_sameTree
  have hsame : SameTree s (s.receivedData b nTx) := receivedData_sameTree
  unfold receivedBlockTransactions at h
  simp only at h
  split at h
  · exact hrun h
  · split_ifs at h
    · exact hrun h
    · rw [← Option.some.inj h]
      exact ⟨hsame.mapBlockIndex, hsame.parent, hsame.height, hsame.nChainWork⟩
    · rwa [← Option.some.inj h]

/-- Only blocks with data are `BLOCK_VALID_TRANSACTIONS`. -/
def ValidData (s : State B) : Prop :=
  ∀ x, (s.index x).validTransactions = true → (s.index x).haveData = true

omit [LinearOrder B] in
theorem ValidData.of_index {s s' : State B} (h : s.ValidData) (hindex : s'.index = s.index) :
    s'.ValidData := by
  intro x
  rw [hindex]
  exact h x

theorem receivedBlockTransactions_validData {s' : State B} (h : s.ValidData)
    (hs' : s.receivedBlockTransactions b nTx = some s') : s'.ValidData := by
  have hdata : (s.receivedData b nTx).ValidData := by
    intro x hx
    by_cases hxb : x = b
    · rw [hxb, receivedData_index_self]
    · rw [receivedData_index_ne hxb] at hx ⊢
      exact h x hx
  have hrun : Worklist.run linkStep (1 + (s.receivedData b nTx).mapBlocksUnlinked.length)
      (s.receivedData b nTx) [b] = some s' → s'.ValidData := by
    apply linkLoop_inv (fun s' _ => s'.ValidData) _ hdata
    intro s' b' _ hvalid x hx
    rw [linkStep_haveData]
    apply hvalid x
    rwa [linkStep_kept CBlockIndex.validTransactions fun _ _ _ => rfl] at hx
  unfold receivedBlockTransactions at hs'
  simp only at hs'
  split at hs'
  · exact hrun hs'
  · split_ifs at hs'
    · exact hrun hs'
    · rw [← Option.some.inj hs']
      exact hdata.of_index rfl
    · rwa [← Option.some.inj hs']

/-- No candidate is worse than the tip. -/
def Pruned (s : State B) : Prop :=
  ∀ x ∈ s.setBlockIndexCandidates, s.worseThanTip x = false

theorem linkStep_pruned {queue : List B} (h : Linking s (b :: queue)) (hpruned : s.Pruned) :
    (linkStep s b).1.Pruned := by
  have hqueued := h.queued b List.mem_cons_self
  have hold : ∀ x ∈ s.setBlockIndexCandidates,
      (linkStep s b).1.worseThanTip x = false := by
    intro x hx
    have hxb : x ≠ b := by
      rintro rfl
      exact (h.candidates x hx).2 hqueued.2.2.1
    rw [linkStep_worseThanTip h hxb]
    exact hpruned x hx
  intro x hx
  change x ∈ (if State.worseThanTip _ b then s.setBlockIndexCandidates
    else s.setBlockIndexCandidates.insert b) at hx
  split at hx
  · exact hold x hx
  · rename_i hworse
    cases List.mem_insert_iff.mp hx with
    | inl heq =>
        rw [heq]
        exact Bool.eq_false_of_not_eq_true hworse
    | inr hmem => exact hold x hmem

/-- Data adds no candidate that is worse than the tip. -/
theorem receivedBlockTransactions_pruned {s' : State B} (h : Linking s [])
    (hallowed : DataAllowed s b nTx) (hpruned : s.Pruned)
    (hs' : s.receivedBlockTransactions b nTx = some s') : s'.Pruned := by
  have hdata : ∀ u, Pruned { s.receivedData b nTx with mapBlocksUnlinked := u } := by
    intro u x hx
    rw [receivedData_worseThanTip]
    exact hpruned x hx
  have hrun : (∀ p, s.parent b = some p → (s.index p).nChainTx ≠ 0) →
      Worklist.run linkStep (1 + (s.receivedData b nTx).mapBlocksUnlinked.length)
        (s.receivedData b nTx) [b] = some s' → s'.Pruned := by
    intro hparent hrun
    have hlinking := receivedData_linking h hallowed (Or.inl ⟨rfl, rfl, hparent⟩)
    have hboth := linkLoop_inv (fun s' queue => Linking s' queue ∧ s'.Pruned)
      (fun s' b' queue hinv => ⟨linkStep_inv hinv.1, linkStep_pruned hinv.1 hinv.2⟩)
      ⟨hlinking, hdata _⟩ hrun
    exact hboth.2
  unfold receivedBlockTransactions at hs'
  simp only [receivedData_parent] at hs'
  cases hp : s.parent b with
  | none =>
      rw [hp] at hs'
      exact hrun (fun p hp' => by rw [hp] at hp'; cases hp') hs'
  | some p =>
      have hpb : p ≠ b := by
        rintro rfl
        have hstep := h.tree.rank_some hallowed.indexed hp
        omega
      rw [hp] at hs'
      simp only [receivedData_index_ne hpb, hallowed.parent p hp] at hs'
      split_ifs at hs' with hlink hmark
      · apply hrun _ hs'
        intro p' hp'
        rw [hp] at hp'
        rwa [← Option.some.inj hp']
      · rw [← Option.some.inj hs']
        exact hdata _
      · exact absurd rfl hmark

end ReceivedData

/-! ## A new header -/

section AddToBlockIndex

variable {s : State B} {block : Header B}

theorem addToBlockIndex_known (h : block.hash ∈ s.mapBlockIndex) :
    s.addToBlockIndex block = s := if_pos h

theorem addToBlockIndex_mapBlockIndex (h : block.hash ∉ s.mapBlockIndex) :
    (s.addToBlockIndex block).mapBlockIndex =
      block.hash :: s.mapBlockIndex := by
  unfold addToBlockIndex
  rw [if_neg h]

theorem addToBlockIndex_index_ne {x : B} (hx : x ≠ block.hash) :
    (s.addToBlockIndex block).index x = s.index x := by
  unfold addToBlockIndex
  split
  · rfl
  · exact Function.update_of_ne hx _ _

/-- The entry of a new header: no data, and a parent that was there. -/
theorem addToBlockIndex_index_self (h : block.hash ∉ s.mapBlockIndex) :
    ∃ pprev nHeight nChainWork, (s.addToBlockIndex block).index block.hash =
      { pprev, nHeight, nChainWork } ∧
      ((pprev = none ∧ nHeight = 0) ∨ ∃ p ∈ s.mapBlockIndex,
        pprev = some p ∧ nHeight = (s.index p).nHeight + 1) := by
  unfold addToBlockIndex
  rw [if_neg h]
  by_cases hp : block.hashPrevBlock ∈ s.mapBlockIndex
  · exact ⟨_, _, _, (Function.update_self ..).trans (if_pos hp),
      Or.inr ⟨_, hp, rfl, rfl⟩⟩
  · exact ⟨_, _, _, (Function.update_self ..).trans (if_neg hp),
      Or.inl ⟨rfl, rfl⟩⟩

theorem addToBlockIndex_sets :
    (s.addToBlockIndex block).setBlockIndexCandidates =
      s.setBlockIndexCandidates ∧
    (s.addToBlockIndex block).mapBlocksUnlinked = s.mapBlocksUnlinked ∧
    (s.addToBlockIndex block).tip = s.tip := by
  unfold addToBlockIndex
  split <;> exact ⟨rfl, rfl, rfl⟩

/-- A known block is not the new one. -/
theorem addToBlockIndex_old (h : block.hash ∉ s.mapBlockIndex) {x : B}
    (hx : x ∈ s.mapBlockIndex) :
    (s.addToBlockIndex block).index x = s.index x := by
  apply addToBlockIndex_index_ne
  rintro rfl
  exact h hx

theorem addToBlockIndex_tree (h : block.hash ∉ s.mapBlockIndex)
    (htree : s.TreeInv) : (s.addToBlockIndex block).TreeInv := by
  rcases addToBlockIndex_index_self h with
    ⟨pprev, nHeight, nChainWork, hself, hparent⟩
  have hmem : ∀ x, x ∈ (s.addToBlockIndex block).mapBlockIndex →
      x = block.hash ∨ x ∈ s.mapBlockIndex := by
    intro x hx
    rw [addToBlockIndex_mapBlockIndex h] at hx
    exact List.mem_cons.mp hx
  have hold : ∀ p ∈ s.mapBlockIndex,
      p ∈ (s.addToBlockIndex block).mapBlockIndex ∧
        (s.addToBlockIndex block).height p = s.height p := by
    intro p hp
    rw [addToBlockIndex_mapBlockIndex h]
    exact ⟨List.mem_cons_of_mem _ hp,
      congrArg CBlockIndex.nHeight (addToBlockIndex_old h hp)⟩
  have hparentOld : ∀ x ∈ s.mapBlockIndex,
      (s.addToBlockIndex block).parent x = s.parent x := fun x hx =>
    congrArg CBlockIndex.pprev (addToBlockIndex_old h hx)
  have hparentNew : (s.addToBlockIndex block).parent block.hash = pprev :=
    congrArg CBlockIndex.pprev hself
  have hheightNew : (s.addToBlockIndex block).height block.hash = nHeight :=
    congrArg CBlockIndex.nHeight hself
  constructor
  · intro x p hx hp
    rcases hmem x hx with rfl | hx
    · rw [hparentNew] at hp
      rcases hparent with ⟨hnone, -⟩ | ⟨p', hp', hsome, -⟩
      · rw [hnone] at hp
        cases hp
      · rw [hsome] at hp
        rw [← Option.some.inj hp]
        exact (hold p' hp').1
    · rw [hparentOld x hx] at hp
      exact (hold p (htree.closed hx hp)).1
  · intro x p hx hp
    rcases hmem x hx with rfl | hx
    · rw [hparentNew] at hp
      rcases hparent with ⟨hnone, -⟩ | ⟨p', hp', hsome, hheight⟩
      · rw [hnone] at hp
        cases hp
      · rw [hsome] at hp
        rw [← Option.some.inj hp, hheightNew, (hold p' hp').2, hheight]
        rfl
    · rw [hparentOld x hx] at hp
      rw [(hold x hx).2, (hold p (htree.closed hx hp)).2]
      exact htree.rank_some hx hp
  · intro x hx hp
    rcases hmem x hx with rfl | hx
    · rw [hparentNew] at hp
      rcases hparent with ⟨-, hheight⟩ | ⟨p', -, hsome, -⟩
      · rw [hheightNew, hheight]
      · rw [hsome] at hp
        cases hp
    · rw [hparentOld x hx] at hp
      rw [(hold x hx).2]
      exact htree.rank_none hx hp

/-- The new block is on nobody's path. -/
theorem addToBlockIndex_txSum (h : block.hash ∉ s.mapBlockIndex)
    (htree : s.TreeInv) {x : B} (hx : x ∈ s.mapBlockIndex) :
    (s.addToBlockIndex block).txSum x = s.txSum x := by
  have htree' := addToBlockIndex_tree h htree
  have hold : ∀ x ∈ s.mapBlockIndex,
      x ∈ (s.addToBlockIndex block).mapBlockIndex := by
    intro x hx
    rw [addToBlockIndex_mapBlockIndex h]
    exact List.mem_cons_of_mem _ hx
  have hparent : ∀ x ∈ s.mapBlockIndex,
      (s.addToBlockIndex block).parent x = s.parent x := fun x hx =>
    congrArg CBlockIndex.pprev (addToBlockIndex_old h hx)
  apply path_induction htree _ _ hx
  · intro x hx hp
    rw [txSum_none htree hx hp,
      txSum_none htree' (hold x hx) ((hparent x hx).trans hp),
      addToBlockIndex_old h hx]
  · intro x p hx hp ih
    rw [txSum_some htree hx hp,
      txSum_some htree' (hold x hx) ((hparent x hx).trans hp), ih,
      addToBlockIndex_old h hx]

theorem addToBlockIndex_linking (h : Linking s []) :
    Linking (s.addToBlockIndex block) [] := by
  by_cases hnew : block.hash ∈ s.mapBlockIndex
  · rw [addToBlockIndex_known hnew]
    exact h
  rcases addToBlockIndex_index_self hnew with
    ⟨pprev, nHeight, nChainWork, hself, hparent⟩
  have hmem : ∀ x, x ∈ (s.addToBlockIndex block).mapBlockIndex →
      x = block.hash ∨ x ∈ s.mapBlockIndex := by
    intro x hx
    rw [addToBlockIndex_mapBlockIndex hnew] at hx
    exact List.mem_cons.mp hx
  have hin : ∀ x ∈ s.mapBlockIndex,
      x ∈ (s.addToBlockIndex block).mapBlockIndex := by
    intro x hx
    rw [addToBlockIndex_mapBlockIndex hnew]
    exact List.mem_cons_of_mem _ hx
  have hold : ∀ x ∈ s.mapBlockIndex, _ := fun x hx =>
    addToBlockIndex_old hnew hx
  have hparentOld : ∀ x ∈ s.mapBlockIndex,
      (s.addToBlockIndex block).parent x = s.parent x := fun x hx =>
    congrArg CBlockIndex.pprev (hold x hx)
  have hsets := @addToBlockIndex_sets B _ s block
  have hnew' : ((s.addToBlockIndex block).index block.hash).nChainTx = 0 ∧
      ((s.addToBlockIndex block).index block.hash).haveData = false ∧
      ((s.addToBlockIndex block).index block.hash).nTx = 0 := by
    rw [hself]
    exact ⟨rfl, rfl, rfl⟩
  have htree := addToBlockIndex_tree hnew h.tree
  constructor
  case tree =>
    exact htree
  case sound =>
    intro x hx hlink
    rcases hmem x hx with rfl | hx
    · exact absurd hnew'.1 hlink
    · rw [hold x hx] at hlink ⊢
      rw [hparentOld x hx]
      have hsound := h.sound x hx hlink
      refine ⟨hsound.1, fun p hp => ?_⟩
      rw [hold p (h.tree.closed hx hp)]
      exact hsound.2 p hp
  case sum =>
    intro x hx hlink
    rcases hmem x hx with rfl | hx
    · exact absurd hnew'.1 hlink
    · rw [addToBlockIndex_txSum hnew h.tree hx]
      rw [hold x hx] at hlink ⊢
      exact h.sum x hx hlink
  case fits =>
    intro x hx
    rcases hmem x hx with rfl | hx'
    · cases hp : (s.addToBlockIndex block).parent block.hash with
      | none =>
          rw [txSum_none htree hx hp, hnew'.2.2]
          decide
      | some p =>
          rw [txSum_some htree hx hp, hnew'.2.2, Nat.add_zero]
          rcases hmem p (htree.closed hx hp) with rfl | hp'
          · have hstep := htree.rank_some hx hp
            omega
          · rw [addToBlockIndex_txSum hnew h.tree hp']
            exact h.fits p hp'
    · rw [addToBlockIndex_txSum hnew h.tree hx']
      exact h.fits x hx'
  case queued =>
    intro x hx
    cases hx
  case nodup =>
    rw [hsets.2.1]
    exact h.nodup
  case unlinked =>
    intro p x hpx
    rw [hsets.2.1] at hpx
    have hun := h.unlinked p x hpx
    rw [hparentOld x hun.1, hold x hun.1,
      hold p (h.tree.closed hun.1 hun.2.2.1)]
    exact ⟨hin x hun.1, hun.2⟩
  case complete =>
    intro x hx hdata hzero
    right
    rcases hmem x hx with rfl | hx
    · rw [hnew'.2.1] at hdata
      cases hdata
    · rw [hold x hx] at hdata hzero
      rw [hparentOld x hx, hsets.2.1]
      exact (h.complete x hx hdata hzero).resolve_left List.not_mem_nil
  case hasTx =>
    intro x hx hdata
    rcases hmem x hx with rfl | hx
    · rw [hnew'.2.1] at hdata
      cases hdata
    · rw [hold x hx] at hdata ⊢
      exact h.hasTx x hx hdata
  case noTx =>
    intro x hx hdata
    rcases hmem x hx with rfl | hx
    · exact hnew'.2.2
    · rw [hold x hx] at hdata ⊢
      exact h.noTx x hx hdata
  case valid =>
    intro x hx hdata
    rcases hmem x hx with rfl | hx
    · rw [hnew'.2.1] at hdata
      cases hdata
    · rw [hold x hx] at hdata ⊢
      exact h.valid x hx hdata
  case candidates =>
    intro x hx
    rw [hsets.1] at hx
    have hcand := h.candidates x hx
    rw [hold x hcand.1]
    exact ⟨hin x hcand.1, hcand.2⟩
  case tip =>
    intro t ht
    rw [hsets.2.2] at ht
    have htip := h.tip t ht
    rw [hold t htip.1]
    exact ⟨hin t htip.1, htip.2⟩

/-- A known block compares with the tip as before. -/
theorem addToBlockIndex_worseThanTip (h : Linking s [])
    (hnew : block.hash ∉ s.mapBlockIndex) {x : B} (hx : x ∈ s.mapBlockIndex) :
    (s.addToBlockIndex block).worseThanTip x = s.worseThanTip x := by
  unfold worseThanTip
  rw [(@addToBlockIndex_sets B _ s block).2.2]
  cases htip : s.tip with
  | none => rfl
  | some t =>
      apply worse_congr
      · rw [addToBlockIndex_old hnew hx]
        exact ⟨rfl, rfl⟩
      · rw [addToBlockIndex_old hnew (h.tip t htip).1]
        exact ⟨rfl, rfl⟩

theorem addToBlockIndex_covered (h : Linking s []) (hcov : s.Covered) :
    (s.addToBlockIndex block).Covered := by
  by_cases hnew : block.hash ∈ s.mapBlockIndex
  · rw [addToBlockIndex_known hnew]
    exact hcov
  intro x hx hlink hmark hworse
  rw [addToBlockIndex_mapBlockIndex hnew] at hx
  rcases List.mem_cons.mp hx with rfl | hx
  · rcases addToBlockIndex_index_self hnew with ⟨_, _, _, hself, -⟩
    rw [hself] at hlink
    exact absurd rfl hlink
  · rw [addToBlockIndex_old hnew hx] at hlink hmark
    rw [(@addToBlockIndex_sets B _ s block).1]
    rw [addToBlockIndex_worseThanTip h hnew hx] at hworse
    exact hcov x hx hlink hmark hworse

end AddToBlockIndex

/-! ## Runs of arrivals -/

/-- The states that headers and data lead to, in any order, while the tip
moves to linked blocks that are not worse.  Data is for a block of the index
that has none yet, and the numbers of transactions fit `nChainTx`. -/
inductive Arrivals : State B → Prop
  | start : Arrivals {}
  | header {s : State B} (block : Header B) : Arrivals s →
      Arrivals (s.addToBlockIndex block)
  | data {s s' : State B} {b : B} {nTx : Nat} : Arrivals s →
      b ∈ s.mapBlockIndex → (s.index b).haveData = false → 0 < nTx →
      (∀ c ∈ s.mapBlockIndex, Ancestor s.parent b c →
        s.txSum c + nTx < 2 ^ 32) →
      s.receivedBlockTransactions b nTx = some s' → Arrivals s'
  | updateTip {s : State B} {t : B} : Arrivals s → t ∈ s.mapBlockIndex →
      (s.index t).nChainTx ≠ 0 → s.worseThanTip t = false →
      Arrivals { s with tip := some t }

omit [LinearOrder B] in
theorem linking_empty : Linking ({} : State B) [] := by
  constructor <;> first
    | exact List.nodup_nil
    | exact ⟨fun h _ => absurd h List.not_mem_nil,
        fun h _ => absurd h List.not_mem_nil,
        fun h _ => absurd h List.not_mem_nil⟩
    | intro b hb; cases hb
    | intro p b hb; cases hb

/-- A tip that is not worse leaves fewer blocks to cover. -/
theorem updateTip_covered {s : State B} (hcov : s.Covered) {t : B}
    (ht : s.worseThanTip t = false) :
    Covered { s with tip := some t } := by
  intro b hb hlink hmark hworse
  apply hcov b hb hlink hmark
  change s.worse b t = false at hworse
  unfold worseThanTip at *
  cases htip : s.tip with
  | none => rfl
  | some t' =>
      rw [htip] at ht
      exact not_worse_trans hworse ht

/-- The bookkeeping of a run of arrivals. -/
structure Arrived (s : State B) : Prop where
  linking : Linking s []
  covered : s.Covered
  unmarked : ∀ b ∈ s.mapBlockIndex, (s.index b).failed = false

theorem Arrived.dataAllowed {s : State B} (h : Arrived s) {b : B} {nTx : Nat}
    (hb : b ∈ s.mapBlockIndex) (hdata : (s.index b).haveData = false)
    (hnTx : 0 < nTx) (hfits : ∀ c ∈ s.mapBlockIndex,
      Ancestor s.parent b c → s.txSum c + nTx < 2 ^ 32) :
    DataAllowed s b nTx :=
  ⟨hb, hdata, h.unmarked b hb,
    fun p hp => h.unmarked p (h.linking.tree.closed hb hp), hnTx, hfits⟩

theorem Arrived.addToBlockIndex {s : State B} (h : Arrived s) (block : Header B) :
    Arrived (s.addToBlockIndex block) := by
  refine ⟨addToBlockIndex_linking h.linking,
    addToBlockIndex_covered h.linking h.covered, fun b hb => ?_⟩
  by_cases hnew : block.hash ∈ s.mapBlockIndex
  · rw [addToBlockIndex_known hnew] at hb ⊢
    exact h.unmarked b hb
  · rw [addToBlockIndex_mapBlockIndex hnew] at hb
    rcases List.mem_cons.mp hb with rfl | hb
    · rcases addToBlockIndex_index_self hnew with ⟨_, _, _, hself, -⟩
      rw [hself]
      rfl
    · rw [addToBlockIndex_old hnew hb]
      exact h.unmarked b hb

theorem Arrived.receivedBlockTransactions {s s' : State B} {b : B} {nTx : Nat}
    (h : Arrived s) (hallowed : DataAllowed s b nTx)
    (hs' : s.receivedBlockTransactions b nTx = some s') : Arrived s' := by
  rcases receivedBlockTransactions_spec h.linking h.covered hallowed with
    ⟨s'', hs'', hlinking, hcov, hsame⟩
  have heq : s'' = s' := by
    rw [hs''] at hs'
    exact Option.some.inj hs'
  subst heq
  refine ⟨hlinking, hcov, fun x hx => ?_⟩
  rw [hsame.mapBlockIndex] at hx
  have hmark := h.unmarked x hx
  unfold CBlockIndex.failed at *
  rw [hsame.failedValid, hsame.failedChild]
  exact hmark

theorem Arrived.updateTip {s : State B} {t : B} (h : Arrived s)
    (ht : t ∈ s.mapBlockIndex) (hlink : (s.index t).nChainTx ≠ 0)
    (hworse : s.worseThanTip t = false) : Arrived { s with tip := some t } := by
  have hlinking := h.linking
  refine ⟨⟨hlinking.tree, hlinking.sound, hlinking.sum, hlinking.fits,
    hlinking.queued, hlinking.nodup, hlinking.unlinked, hlinking.complete,
    hlinking.hasTx, hlinking.noTx, hlinking.valid, hlinking.candidates,
    ?_⟩, updateTip_covered h.covered hworse, h.unmarked⟩
  intro t' ht'
  rw [← Option.some.inj ht']
  exact ⟨ht, hlink⟩

/-- Candidates that are worse than the tip may go. -/
theorem Arrived.prune {s : State B} (h : Arrived s) :
    Arrived { s with setBlockIndexCandidates :=
      s.setBlockIndexCandidates.filter fun b => !s.worseThanTip b } := by
  have hlinking := h.linking
  refine ⟨⟨hlinking.tree, hlinking.sound, hlinking.sum, hlinking.fits,
    hlinking.queued, hlinking.nodup, hlinking.unlinked, hlinking.complete,
    hlinking.hasTx, hlinking.noTx, hlinking.valid, ?_, hlinking.tip⟩, ?_, h.unmarked⟩
  · intro b hb
    exact hlinking.candidates b (List.mem_of_mem_filter hb)
  · intro b hb hlink hmark hworse
    change s.worseThanTip b = false at hworse
    exact List.mem_filter.mpr ⟨h.covered b hb hlink hmark hworse, by simp [hworse]⟩

theorem Arrivals.arrived {s : State B} (h : Arrivals s) : Arrived s := by
  induction h with
  | start =>
      exact ⟨linking_empty, fun b hb => absurd hb List.not_mem_nil,
        fun b hb => absurd hb List.not_mem_nil⟩
  | header block _ ih => exact ih.addToBlockIndex block
  | data _ hb hdata hnTx hfits hs' ih =>
      exact ih.receivedBlockTransactions (ih.dataAllowed hb hdata hnTx hfits) hs'
  | updateTip _ ht hlink hworse ih => exact ih.updateTip ht hlink hworse

omit [LinearOrder B] in
/-- A block of the index has data if and only if it has transactions. -/
theorem Linking.nTx_iff {s : State B} {queue : List B} (h : Linking s queue)
    {b : B} (hb : b ∈ s.mapBlockIndex) :
    (s.index b).nTx ≠ 0 ↔ (s.index b).haveData = true := by
  constructor
  · intro hnTx
    by_contra hdata
    exact hnTx (h.noTx b hb (Bool.not_eq_true _ ▸ hdata))
  · intro hdata
    exact (h.hasTx b hb hdata).ne'

/-- **Headers and data in any order** leave every block with the data of its
whole path linked, with the count of the path, and a candidate unless it is
worse than the tip; exactly the blocks with data and without a linked parent
wait; and the linking loop always ends. -/
theorem arrivals_linked {s : State B} (h : Arrivals s) :
    (∀ b ∈ s.mapBlockIndex,
      ((s.index b).nChainTx ≠ 0 ↔
        ∀ a, Ancestor s.parent a b → (s.index a).nTx ≠ 0) ∧
      ((s.index b).nChainTx ≠ 0 → (s.index b).nChainTx = s.txSum b) ∧
      ((s.index b).nChainTx ≠ 0 → s.worseThanTip b = false →
        b ∈ s.setBlockIndexCandidates)) ∧
    (∀ p b, (p, b) ∈ s.mapBlocksUnlinked ↔
      b ∈ s.mapBlockIndex ∧ (s.index b).haveData = true ∧
        s.parent b = some p ∧ (s.index p).nChainTx = 0) ∧
    s.mapBlocksUnlinked.Nodup ∧
    (∀ b ∈ s.mapBlockIndex, ∀ nTx, (s.index b).haveData = false → 0 < nTx →
      (∀ c ∈ s.mapBlockIndex, Ancestor s.parent b c →
        s.txSum c + nTx < 2 ^ 32) →
      (s.receivedBlockTransactions b nTx).isSome) := by
  have harr := h.arrived
  have hlinking := harr.linking
  refine ⟨fun b hb => ⟨?_, hlinking.sum b hb, fun hlink hworse =>
    harr.covered b hb hlink (harr.unmarked b hb) hworse⟩, ?_, ?_, ?_⟩
  · constructor
    · intro hlink a ha
      rw [hlinking.nTx_iff (ha.mem hlinking.tree hb)]
      exact hlinking.allData hb hlink a ha
    · intro hnTx
      apply hlinking.linked hb
      intro a ha
      rw [← hlinking.nTx_iff (ha.mem hlinking.tree hb)]
      exact hnTx a ha
  · intro p b
    constructor
    · exact hlinking.unlinked p b
    · rintro ⟨hb, hdata, hp, hzero⟩
      have hbzero : (s.index b).nChainTx = 0 := by
        by_contra hlink
        exact (hlinking.sound b hb hlink).2 p hp hzero
      rcases hlinking.complete b hb hdata hbzero with hq | ⟨p', hp', hpb⟩
      · cases hq
      · rw [hp] at hp'
        rw [Option.some.inj hp']
        exact hpb
  · exact List.Nodup.of_map _ hlinking.nodup
  · intro b hb nTx hdata hnTx hfits
    rcases receivedBlockTransactions_spec hlinking harr.covered
      (harr.dataAllowed hb hdata hnTx hfits) with ⟨s', hs', -⟩
    rw [hs']
    rfl

section Example

/-- The state after the data of a block. -/
def withData (s : State Nat) (b : Nat) (nTx : Nat) : State Nat :=
  (s.receivedBlockTransactions b nTx).getD s

/-- A header whose hash is not that of the block before; the next one if it
is. -/
def header (hash hashPrevBlock proof : Nat) : Header Nat :=
  if h : hashPrevBlock ≠ hash then ⟨hash, hashPrevBlock, proof, h⟩
  else ⟨hashPrevBlock + 1, hashPrevBlock, proof, Nat.ne_of_lt (Nat.lt_add_one _)⟩

/-- Blocks `1` and `2` on top of the genesis block `0`, of equal work. -/
def equalWork : State Nat :=
  ((({} : State Nat).addToBlockIndex (header 0 9 1)).addToBlockIndex
    (header 1 0 1)).addToBlockIndex (header 2 0 1)

/-- `1` is the tip, and then the data of `2` comes. -/
def equalWorkRun : State Nat :=
  withData { withData (withData equalWork 0 1) 1 1 with tip := some 1 } 2 1

/-- A chain of two blocks with `2 ^ 32` transactions. -/
def wrapRun : State Nat :=
  withData (withData equalWork 0 (2 ^ 31)) 1 (2 ^ 31)

theorem Arrivals.withData {s : State Nat} {b : Nat} (h : Arrivals s)
    (hb : b ∈ s.mapBlockIndex) (hdata : (s.index b).haveData = false)
    (hfits : ∀ c ∈ s.mapBlockIndex, s.txSum c + 1 < 2 ^ 32) :
    Arrivals (withData s b 1) := by
  have harr := h.arrived
  rcases receivedBlockTransactions_spec harr.linking harr.covered
    (harr.dataAllowed hb hdata Nat.one_pos fun c hc _ => hfits c hc) with
    ⟨s', hs', -⟩
  apply h.data hb hdata Nat.one_pos fun c hc _ => hfits c hc
  unfold State.withData
  rw [hs']
  rfl

theorem equalWorkRun_arrivals : Arrivals equalWorkRun := by
  have h : Arrivals equalWork :=
    Arrivals.header _ (Arrivals.header _ (Arrivals.header _ Arrivals.start))
  have h0 := h.withData (b := 0) (by decide) (by decide) (by decide)
  have h1 := h0.withData (b := 1) (by decide) (by decide) (by decide)
  have htip := h1.updateTip (t := 1) (by decide) (by decide) (by decide)
  exact htip.withData (b := 2) (by decide) (by decide) (by decide)

theorem arrivals_linked_equalWork :
    Arrivals equalWorkRun ∧
      (equalWorkRun.index 2).nChainTx = equalWorkRun.txSum 2 :=
  ⟨equalWorkRun_arrivals,
    ((arrivals_linked equalWorkRun_arrivals).1 2 (by decide)).2.1 (by decide)⟩

/-- A linked block with the work of the tip that came later is no candidate,
and `nChainTx` wraps to zero at `2 ^ 32` transactions. -/
theorem equal_work_not_candidate :
    (¬ ∀ s : State Nat, Arrivals s → ∀ b ∈ s.mapBlockIndex,
      (s.index b).nChainTx ≠ 0 →
      (∀ t, s.tip = some t →
        (s.index t).nChainWork ≤ (s.index b).nChainWork) →
      b ∈ s.setBlockIndexCandidates) ∧
    (wrapRun.index 1).nChainTx = 0 ∧ wrapRun.parent 1 = some 0 ∧
      (wrapRun.index 0).nTx ≠ 0 ∧ (wrapRun.index 1).nTx ≠ 0 := by
  refine ⟨fun h => ?_, by decide⟩
  have hmem := h equalWorkRun equalWorkRun_arrivals 2 (by decide) (by decide)
    (by
      intro t ht
      have htip : equalWorkRun.tip = some 1 := by decide
      rw [htip] at ht
      rw [← Option.some.inj ht]
      decide)
  revert hmem
  decide

end Example

end State

end Agrarian.BlockIndex
