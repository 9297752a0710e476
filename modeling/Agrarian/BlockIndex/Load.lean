import Agrarian.BlockIndex.Activate
import Agrarian.Lib.Run
import Agrarian.Lib.SkipPointers

/-!
# Reloading the block index

`LoadBlockIndexDB` builds the index again from the records that the running
node wrote, in the order of the heights, while the running node extended it
with every header (`AddToBlockIndex`) and with the data of every block
(`ReceivedBlockTransactions`).

A block has another pointer after a restart; `ptr` gives the pointer that is
allocated for a hash.  The node is the index with its skip pointers and, as
`proof`, what `GetBlockProof` makes of the `nBits` of a block.  Loading that
stops with an error rebuilds nothing and is left out, as are the block files,
`pindexBestHeader` and `pindexBestInvalid`.
-/

namespace Agrarian.BlockIndex

open Agrarian.Lib Agrarian.Lib.Forest

/-- Turn the lowest '1' bit in the binary representation of a number into a
'0'. -/
def invertLowestOne (n : Nat) : Nat := n &&& (n - 1)

/-- Compute what height to jump back to with the `pskip` pointer. -/
def getSkipHeight (height : Nat) : Nat :=
  if height < 2 then 0
  else if height &&& 1 = 1 then
    invertLowestOne (invertLowestOne (height - 1)) + 1
  else invertLowestOne height

theorem invertLowestOne_lt {n : Nat} (h : n ≠ 0) : invertLowestOne n < n := by
  have hle : n &&& (n - 1) ≤ n - 1 := Nat.and_le_right
  unfold invertLowestOne
  omega

theorem getSkipHeight_lt (height : Nat) (h : height ≠ 0) :
    getSkipHeight height < height := by
  unfold getSkipHeight
  split_ifs with hsmall hodd
  · omega
  · have hfirst : invertLowestOne (height - 1) < height - 1 :=
      invertLowestOne_lt (by omega)
    have hsecond : invertLowestOne (invertLowestOne (height - 1)) ≤
        invertLowestOne (height - 1) := Nat.and_le_left
    omega
  · exact invertLowestOne_lt h

/-- The block index with the skip pointers and the proofs of the blocks. -/
structure Node (B : Type) where
  state : State B := {}
  pskip : B → Option B := fun _ => none
  proof : B → Nat := fun _ => 0

/-- `CDiskBlockIndex`: the record of a block. -/
structure CDiskBlockIndex (B : Type) where
  hash : B
  /-- `none` for the hash zero. -/
  hashPrev : Option B
  nHeight : Nat
  nTx : Nat
  haveData : Bool
  validTransactions : Bool
  failedValid : Bool
  failedChild : Bool
  /-- `GetBlockProof` of `nBits`. -/
  proof : Nat

namespace Node

variable {B P : Type} [LinearOrder B] [LinearOrder P]

/-! ## The running node -/

/-- `CBlockIndex::GetAncestor`. -/
def getAncestor (n : Node B) (b : B) (height : Nat) : Option B :=
  SkipPointers.getAncestor n.state.parent n.pskip n.state.height getSkipHeight b height

/-- `pskip` after `BuildSkip`. -/
def buildSkip (n : Node B) (b : B) : Option B :=
  match n.state.parent b with
  | some pprev => n.getAncestor pprev (getSkipHeight (n.state.height b))
  | none => n.pskip b

def addToBlockIndex (n : Node B) (block : Header B) : Node B :=
  if n.state.mapBlockIndex.contains block.hash then n
  else
    let pindexNew : Node B :=
      { state := n.state.addToBlockIndex block
        pskip := Function.update n.pskip block.hash none
        proof := Function.update n.proof block.hash block.proof }
    { pindexNew with
      pskip := Function.update pindexNew.pskip block.hash
        (pindexNew.buildSkip block.hash) }

/-- The record that `FlushStateToDisk` writes for a block. -/
def diskIndex (n : Node B) (b : B) : CDiskBlockIndex B where
  hash := b
  hashPrev := n.state.parent b
  nHeight := n.state.height b
  nTx := (n.state.index b).nTx
  haveData := (n.state.index b).haveData
  validTransactions := (n.state.index b).validTransactions
  failedValid := (n.state.index b).failedValid
  failedChild := (n.state.index b).failedChild
  proof := n.proof b

/-- The running node: headers and data come in any order, the tip moves to
linked blocks that are not worse, and then worse candidates are pruned. -/
inductive Running : Node B → Prop
  | start : Running {}
  | header {n : Node B} (block : Header B) : Running n → Running (n.addToBlockIndex block)
  | data {n : Node B} {s : State B} {b : B} {nTx : Nat} : Running n →
      b ∈ n.state.mapBlockIndex → (n.state.index b).haveData = false → 0 < nTx →
      (∀ c ∈ n.state.mapBlockIndex, Ancestor n.state.parent b c →
        n.state.txSum c + nTx < 2 ^ 32) →
      n.state.receivedBlockTransactions b nTx = some s → Running { n with state := s }
  | activate {n : Node B} {s : State B} {t : B} : Running n →
      t ∈ n.state.mapBlockIndex → (n.state.index t).nChainTx ≠ 0 →
      n.state.worseThanTip t = false →
      State.pruneBlockIndexCandidates { n.state with tip := some t } = .ok s →
      Running { n with state := s }

/-! ## Loading -/

/-- `InsertBlockIndex` of a hash that is not zero. -/
def insertBlockIndex (ptr : B → P) (n : Node P) (hash : B) : Node P :=
  if n.state.mapBlockIndex.contains (ptr hash) then n
  else
    { state :=
        { n.state with
          mapBlockIndex := ptr hash :: n.state.mapBlockIndex
          index := Function.update n.state.index (ptr hash) {} }
      pskip := Function.update n.pskip (ptr hash) none
      proof := Function.update n.proof (ptr hash) 0 }

/-- One record of `LoadBlockIndexGuts`. -/
def loadRecord (ptr : B → P) (n : Node P) (diskindex : CDiskBlockIndex B) : Node P :=
  let n := n.insertBlockIndex ptr diskindex.hash
  let n :=
    match diskindex.hashPrev with
    | some hashPrev => n.insertBlockIndex ptr hashPrev
    | none => n
  { n with
    state := n.state.modify (ptr diskindex.hash) fun e => { e with
      pprev := diskindex.hashPrev.map ptr
      nHeight := diskindex.nHeight
      nTx := diskindex.nTx
      haveData := diskindex.haveData
      validTransactions := diskindex.validTransactions
      failedValid := diskindex.failedValid
      failedChild := diskindex.failedChild }
    proof := Function.update n.proof (ptr diskindex.hash) diskindex.proof }

def loadBlockIndexGuts (ptr : B → P) (records : List (CDiskBlockIndex B)) : Node P :=
  records.foldl (loadRecord ptr) {}

/-- The blocks by height, and by their pointers. -/
def sortedByHeight (n : Node P) : List P :=
  n.state.mapBlockIndex.insertionSort fun a b =>
    toLex (n.state.height a, a) ≤ toLex (n.state.height b, b)

/-- `nChainWork` of the block before, zero for the genesis block. -/
def prevChainWork (s : State P) (b : P) : Nat :=
  match s.parent b with
  | some pprev => (s.index pprev).nChainWork
  | none => 0

/-- `nChainTx` of a block whose data is there. -/
def loadedChainTx (s : State P) (b : P) : Nat :=
  match s.parent b with
  | some pprev =>
      if (s.index pprev).nChainTx ≠ 0 then
        ((s.index pprev).nChainTx + (s.index b).nTx) % 2 ^ 32
      else 0
  | none => (s.index b).nTx

/-- The block waits for its parent. -/
def waits (s : State P) (b : P) : List (P × P) :=
  match s.parent b with
  | some pprev =>
      if (s.index b).haveData && (s.index pprev).nChainTx = 0 then [(pprev, b)] else []
  | none => []

/-- The state with the work and the count of a block. -/
def recompute (n : Node P) (pindex : P) : State P :=
  { n.state with
    index := Function.update n.state.index pindex { n.state.index pindex with
      nChainWork := prevChainWork n.state pindex + n.proof pindex
      nChainTx :=
        if (n.state.index pindex).haveData then loadedChainTx n.state pindex
        else (n.state.index pindex).nChainTx }
    mapBlocksUnlinked := n.state.mapBlocksUnlinked ++ waits n.state pindex }

def isLoadedCandidate (e : CBlockIndex P) : Bool :=
  e.isValid && (e.nChainTx ≠ 0 || e.pprev.isNone)

/-- One turn of the loop over the sorted blocks. -/
def loadStep (n : Node P) (pindex : P) : Node P :=
  let s := n.recompute pindex
  { n with
    state := if isLoadedCandidate (s.index pindex) then s.insertCandidate pindex else s
    pskip := Function.update n.pskip pindex (n.buildSkip pindex) }

/-- The end of `LoadBlockIndexDB`: the tip is the best block of the coins. -/
def setBestBlock (ptr : B → P) (best : Option B) (n : Node P) :
    Except Halt (Node P) :=
  match best with
  | none => .ok n
  | some hash =>
      if n.state.mapBlockIndex.contains (ptr hash) then
        match State.pruneBlockIndexCandidates { n.state with tip := some (ptr hash) } with
        | .ok s => .ok { n with state := s }
        | .error halt => .error halt
      else .ok n

def loadBlockIndexDB (ptr : B → P) (records : List (CDiskBlockIndex B)) (best : Option B) :
    Except Halt (Node P) :=
  let n := loadBlockIndexGuts ptr records
  (n.sortedByHeight.foldl loadStep n).setBestBlock ptr best

/-! ## Pruning -/

theorem prune_eq {s s' : State B} (hs : s.pruneBlockIndexCandidates = .ok s') :
    s' = { s with setBlockIndexCandidates :=
      s.setBlockIndexCandidates.filter fun b => !s.worseThanTip b } ∧
    s'.setBlockIndexCandidates ≠ [] := by
  unfold State.pruneBlockIndexCandidates at hs
  simp only at hs
  split_ifs at hs with hempty
  have hs' := (Except.ok.inj hs).symm
  exact ⟨hs', by rwa [hs']⟩

theorem pruned_prune (s : State B) :
    State.Pruned { s with setBlockIndexCandidates :=
      s.setBlockIndexCandidates.filter fun b => !s.worseThanTip b } := by
  intro b hb
  have hkept := (List.mem_filter.mp hb).2
  show s.worseThanTip b = false
  simpa using hkept

/-! ## What the running node maintains -/

structure Maintained (n : Node B) : Prop where
  arrived : n.state.Arrived
  nodup : n.state.mapBlockIndex.Nodup
  work : ∀ b ∈ n.state.mapBlockIndex,
    (n.state.index b).nChainWork = prevChainWork n.state b + n.proof b
  skip : ∀ b ∈ n.state.mapBlockIndex,
    SkipPointers.SkipRight n.state.parent n.pskip n.state.height getSkipHeight b
  pruned : n.state.Pruned
  validData : n.state.ValidData

namespace Maintained

variable {n : Node B}

theorem tree (h : Maintained n) : n.state.TreeInv := h.arrived.linking.tree

theorem of_sameTree {s : State B} (h : Maintained n) (hsame : State.SameTree n.state s)
    (harrived : s.Arrived) (hpruned : s.Pruned) (hvalid : s.ValidData) :
    Maintained { n with state := s } where
  arrived := harrived
  nodup := by
    show s.mapBlockIndex.Nodup
    rw [hsame.mapBlockIndex]
    exact h.nodup
  work := by
    intro b hb
    show (s.index b).nChainWork = prevChainWork s b + n.proof b
    change b ∈ s.mapBlockIndex at hb
    rw [hsame.mapBlockIndex] at hb
    rw [hsame.nChainWork, h.work b hb]
    simp only [prevChainWork, hsame.parent, hsame.nChainWork]
  skip := by
    intro b hb
    change b ∈ s.mapBlockIndex at hb
    rw [hsame.mapBlockIndex] at hb
    show SkipPointers.SkipRight s.parent n.pskip s.height getSkipHeight b
    rw [hsame.parent, hsame.height]
    exact h.skip b hb
  pruned := hpruned
  validData := hvalid

theorem work_new {s : State B} {block : Header B} (hnew : block.hash ∉ s.mapBlockIndex) :
    ((s.addToBlockIndex block).index block.hash).nChainWork =
      prevChainWork (s.addToBlockIndex block) block.hash + block.proof := by
  have hne := block.hash_ne
  unfold prevChainWork State.parent State.addToBlockIndex
  rw [if_neg hnew]
  by_cases hp : block.hashPrevBlock ∈ s.mapBlockIndex
  · simp [hp, Function.update_of_ne hne]
  · simp [hp]

/-- A new header leaves the parents and the heights of the known blocks. -/
theorem header_old {block : Header B} (hnew : block.hash ∉ n.state.mapBlockIndex) {x : B}
    (hx : x ∈ n.state.mapBlockIndex) :
    (n.state.addToBlockIndex block).parent x = n.state.parent x ∧
      (n.state.addToBlockIndex block).height x = n.state.height x := by
  have hold := State.addToBlockIndex_old hnew hx
  exact ⟨congrArg CBlockIndex.pprev hold, congrArg CBlockIndex.nHeight hold⟩

/-- The skip pointers of the known blocks stay right. -/
theorem skipRight_old (h : Maintained n) {block : Header B}
    (hnew : block.hash ∉ n.state.mapBlockIndex) {x : B} (hx : x ∈ n.state.mapBlockIndex)
    {pskip : B → Option B} (hpskip : pskip x = n.pskip x) :
    SkipPointers.SkipRight (n.state.addToBlockIndex block).parent pskip
      (n.state.addToBlockIndex block).height getSkipHeight x := by
  apply (h.skip x hx).congr hpskip
  intro a ha
  exact header_old hnew (ha.mem h.tree hx)

/-- `BuildSkip` sets that of the new block right. -/
theorem skipRight_header (h : Maintained n) {block : Header B}
    (hnew : block.hash ∉ n.state.mapBlockIndex) :
    SkipPointers.SkipRight (n.state.addToBlockIndex block).parent
      (n.addToBlockIndex block).pskip (n.state.addToBlockIndex block).height getSkipHeight
      block.hash := by
  have htree := State.addToBlockIndex_tree hnew h.tree
  have hmap := State.addToBlockIndex_mapBlockIndex hnew
  have hmem : block.hash ∈ (n.state.addToBlockIndex block).mapBlockIndex := by
    rw [hmap]
    exact List.mem_cons_self
  rw [Node.addToBlockIndex, if_neg (mt List.contains_iff_mem.mp hnew)]
  cases hp : (n.state.addToBlockIndex block).parent block.hash with
  | none =>
      have hroot := htree.rank_none hmem hp
      simp only [SkipPointers.SkipRight, hroot, if_pos, Function.update_self,
        Node.buildSkip, hp]
  | some p =>
      have hpmem := htree.closed hmem hp
      have hstep := htree.rank_some hmem hp
      have hright : ∀ a, Ancestor (n.state.addToBlockIndex block).parent a p →
          SkipPointers.SkipRight (n.state.addToBlockIndex block).parent
            (Function.update n.pskip block.hash none)
            (n.state.addToBlockIndex block).height getSkipHeight a := by
        intro a ha
        have haRank := ha.rank_le htree hpmem
        have hane : a ≠ block.hash := by
          rintro rfl
          omega
        have hamem := ha.mem htree hpmem
        rw [hmap] at hamem
        apply h.skipRight_old hnew ((List.mem_cons.mp hamem).resolve_left hane)
        exact Function.update_of_ne hane _ _
      apply SkipPointers.skipRight_of_getAncestor htree getSkipHeight_lt hmem hp hright
      simp only [Function.update_self, Node.buildSkip, hp]
      rfl

theorem header (h : Maintained n) (block : Header B) :
    Maintained (n.addToBlockIndex block) := by
  by_cases hnew : block.hash ∈ n.state.mapBlockIndex
  · rwa [Node.addToBlockIndex, if_pos (List.contains_iff_mem.mpr hnew)]
  have harrived := h.arrived.addToBlockIndex block
  have hold : ∀ x ∈ n.state.mapBlockIndex,
      (n.state.addToBlockIndex block).index x = n.state.index x :=
    fun x hx => State.addToBlockIndex_old hnew hx
  have hneHash : ∀ x ∈ n.state.mapBlockIndex, x ≠ block.hash := by
    rintro x hx rfl
    exact hnew hx
  have hmap := State.addToBlockIndex_mapBlockIndex hnew
  rw [Node.addToBlockIndex, if_neg (mt List.contains_iff_mem.mp hnew)]
  constructor
  case arrived =>
    exact harrived
  case nodup =>
    show (n.state.addToBlockIndex block).mapBlockIndex.Nodup
    rw [hmap, List.nodup_cons]
    exact ⟨hnew, h.nodup⟩
  case work =>
    intro b hb
    change b ∈ (n.state.addToBlockIndex block).mapBlockIndex at hb
    show ((n.state.addToBlockIndex block).index b).nChainWork =
      prevChainWork (n.state.addToBlockIndex block) b +
        Function.update n.proof block.hash block.proof b
    rw [hmap] at hb
    cases List.mem_cons.mp hb with
    | inl hself =>
        rw [hself, Function.update_self]
        exact work_new hnew
    | inr hb =>
        rw [Function.update_of_ne (hneHash b hb), hold b hb, h.work b hb]
        unfold prevChainWork
        rw [(header_old hnew hb).1]
        cases hp : n.state.parent b with
        | none => rfl
        | some p => simp only [hold p (h.tree.closed hb hp)]
  case skip =>
    intro b hb
    change b ∈ (n.state.addToBlockIndex block).mapBlockIndex at hb
    rw [hmap] at hb
    have hheader := h.skipRight_header hnew
    rw [Node.addToBlockIndex, if_neg (mt List.contains_iff_mem.mp hnew)] at hheader
    cases List.mem_cons.mp hb with
    | inl hself =>
        rw [hself]
        exact hheader
    | inr hb =>
        apply h.skipRight_old hnew hb
        simp [Function.update_of_ne (hneHash b hb)]
  case pruned =>
    intro b hb
    show (n.state.addToBlockIndex block).worseThanTip b = false
    change b ∈ (n.state.addToBlockIndex block).setBlockIndexCandidates at hb
    rw [(@State.addToBlockIndex_sets B _ n.state block).1] at hb
    have hbmem := (h.arrived.linking.candidates b hb).1
    rw [State.addToBlockIndex_worseThanTip h.arrived.linking hnew hbmem]
    exact h.pruned b hb
  case validData =>
    intro x hx
    change ((n.state.addToBlockIndex block).index x).validTransactions = true at hx
    show ((n.state.addToBlockIndex block).index x).haveData = true
    by_cases hself : x = block.hash
    · obtain ⟨_, _, _, hentry, -⟩ := State.addToBlockIndex_index_self hnew
      rw [hself, hentry] at hx
      cases hx
    · rw [State.addToBlockIndex_index_ne hself] at hx ⊢
      exact h.validData x hx

theorem data {s : State B} {b : B} {nTx : Nat} (h : Maintained n)
    (hallowed : n.state.DataAllowed b nTx)
    (hs : n.state.receivedBlockTransactions b nTx = some s) :
    Maintained { n with state := s } :=
  h.of_sameTree (State.receivedBlockTransactions_sameTree hs)
    (h.arrived.receivedBlockTransactions hallowed hs)
    (State.receivedBlockTransactions_pruned h.arrived.linking hallowed h.pruned hs)
    (State.receivedBlockTransactions_validData h.validData hs)

theorem activate {s : State B} {t : B} (h : Maintained n)
    (ht : t ∈ n.state.mapBlockIndex) (hlink : (n.state.index t).nChainTx ≠ 0)
    (hworse : n.state.worseThanTip t = false)
    (hs : State.pruneBlockIndexCandidates { n.state with tip := some t } = .ok s) :
    Maintained { n with state := s } := by
  obtain ⟨hs, -⟩ := prune_eq hs
  rw [hs]
  apply h.of_sameTree
  · exact ⟨rfl, rfl, rfl, fun _ => rfl⟩
  · exact (h.arrived.updateTip ht hlink hworse).prune
  · exact pruned_prune _
  · exact h.validData.of_index rfl

end Maintained

theorem Running.maintained {n : Node B} (h : Running n) : Maintained n := by
  induction h with
  | start =>
      refine ⟨⟨State.linking_empty, ?_, ?_⟩, List.nodup_nil, ?_, ?_, ?_, ?_⟩
      · intro b hb
        cases hb
      · intro b hb
        cases hb
      · intro b hb
        cases hb
      · intro b hb
        cases hb
      · intro b hb
        cases hb
      · intro b hb
        cases hb
  | header block _ ih => exact ih.header block
  | data _ hb hdata hnTx hfits hs ih =>
      exact ih.data (ih.arrived.dataAllowed hb hdata hnTx hfits) hs
  | activate _ ht hlink hworse hs ih => exact ih.activate ht hlink hworse hs

/-! ## What the records give -/

/-- The entry that a record gives. -/
def loadedEntry (ptr : B → P) (diskindex : CDiskBlockIndex B) : CBlockIndex P where
  pprev := diskindex.hashPrev.map ptr
  nHeight := diskindex.nHeight
  nTx := diskindex.nTx
  haveData := diskindex.haveData
  validTransactions := diskindex.validTransactions
  failedValid := diskindex.failedValid
  failedChild := diskindex.failedChild

section Load

variable {ptr : B → P} {n : Node B}

/-- The index after some of the records. -/
structure GutsLoaded (ptr : B → P) (n : Node B) (done : List (CDiskBlockIndex B))
    (m : Node P) : Prop where
  nodup : m.state.mapBlockIndex.Nodup
  inside : ∀ p ∈ m.state.mapBlockIndex, ∃ b ∈ n.state.mapBlockIndex, ptr b = p
  inserted : ∀ r ∈ done, ptr r.hash ∈ m.state.mapBlockIndex
  entry : ∀ r ∈ done, m.state.index (ptr r.hash) = loadedEntry ptr r ∧
    m.proof (ptr r.hash) = r.proof
  fresh : ∀ p, (∀ r ∈ done, ptr r.hash ≠ p) → m.state.index p = {} ∧ m.proof p = 0
  pskip : m.pskip = fun _ => none
  candidates : m.state.setBlockIndexCandidates = []
  unlinked : m.state.mapBlocksUnlinked = []
  tip : m.state.tip = none

omit [LinearOrder B] in
theorem mem_insertBlockIndex {m : Node P} {p : P} (hp : p ∈ m.state.mapBlockIndex) (b : B) :
    p ∈ (m.insertBlockIndex ptr b).state.mapBlockIndex := by
  unfold insertBlockIndex
  split_ifs
  · exact hp
  · exact List.mem_cons_of_mem _ hp

omit [LinearOrder B] in
/-- Inserting a hash only makes room for it. -/
theorem GutsLoaded.insert {done : List (CDiskBlockIndex B)} {m : Node P}
    (h : GutsLoaded ptr n done m) {b : B} (hb : b ∈ n.state.mapBlockIndex) :
    GutsLoaded ptr n done (m.insertBlockIndex ptr b) ∧
      ptr b ∈ (m.insertBlockIndex ptr b).state.mapBlockIndex := by
  by_cases hold : ptr b ∈ m.state.mapBlockIndex
  · rw [insertBlockIndex, if_pos (List.contains_iff_mem.mpr hold)]
    exact ⟨h, hold⟩
  · have hfresh := h.fresh (ptr b) (by
      intro r hr heq
      exact hold (heq ▸ h.inserted r hr))
    have hindex : Function.update m.state.index (ptr b) {} = m.state.index := by
      rw [← hfresh.1, Function.update_eq_self]
    have hproof : Function.update m.proof (ptr b) 0 = m.proof := by
      rw [← hfresh.2, Function.update_eq_self]
    have hpskip : Function.update m.pskip (ptr b) none = m.pskip := by
      have hnone : m.pskip (ptr b) = none := by rw [h.pskip]
      rw [← hnone, Function.update_eq_self]
    rw [insertBlockIndex, if_neg (mt List.contains_iff_mem.mp hold), hindex, hproof, hpskip]
    refine ⟨?_, List.mem_cons_self⟩
    constructor
    · exact List.nodup_cons.mpr ⟨hold, h.nodup⟩
    · intro p hp
      cases List.mem_cons.mp hp with
      | inl heq => exact ⟨b, hb, heq.symm⟩
      | inr hp => exact h.inside p hp
    · intro r hr
      exact List.mem_cons_of_mem _ (h.inserted r hr)
    · exact h.entry
    · exact h.fresh
    · exact h.pskip
    · exact h.candidates
    · exact h.unlinked
    · exact h.tip

omit [LinearOrder B] in
theorem GutsLoaded.record (hptr : Function.Injective ptr) (htree : n.state.TreeInv)
    {done : List (CDiskBlockIndex B)} {m : Node P} (h : GutsLoaded ptr n done m)
    (hdone : ∀ r ∈ done, ∃ b, r = n.diskIndex b) {b : B}
    (hb : b ∈ n.state.mapBlockIndex) :
    GutsLoaded ptr n (done ++ [n.diskIndex b]) (m.loadRecord ptr (n.diskIndex b)) := by
  have hinserted : ∃ m' : Node P, GutsLoaded ptr n done m' ∧
      ptr b ∈ m'.state.mapBlockIndex ∧
      m.loadRecord ptr (n.diskIndex b) =
        { m' with
          state := m'.state.modify (ptr b) fun e => { e with
            pprev := (n.state.parent b).map ptr
            nHeight := n.state.height b
            nTx := (n.state.index b).nTx
            haveData := (n.state.index b).haveData
            validTransactions := (n.state.index b).validTransactions
            failedValid := (n.state.index b).failedValid
            failedChild := (n.state.index b).failedChild }
          proof := Function.update m'.proof (ptr b) (n.proof b) } := by
    obtain ⟨hself, hmem⟩ := h.insert hb
    cases hp : n.state.parent b with
    | none =>
        refine ⟨_, hself, hmem, ?_⟩
        simp only [loadRecord, diskIndex, hp]
    | some p =>
        obtain ⟨hparent, -⟩ := hself.insert (htree.closed hb hp)
        refine ⟨_, hparent, mem_insertBlockIndex hmem p, ?_⟩
        simp only [loadRecord, diskIndex, hp]
  obtain ⟨m', hm', hmem, heq⟩ := hinserted
  rw [heq]
  have hsame : ∀ r ∈ done, ptr r.hash = ptr b → r = n.diskIndex b := by
    intro r hr hhash
    obtain ⟨b', rfl⟩ := hdone r hr
    rw [hptr (show ptr b' = ptr b from hhash)]
  have hentry : { m'.state.index (ptr b) with
      pprev := (n.state.parent b).map ptr
      nHeight := n.state.height b
      nTx := (n.state.index b).nTx
      haveData := (n.state.index b).haveData
      validTransactions := (n.state.index b).validTransactions
      failedValid := (n.state.index b).failedValid
      failedChild := (n.state.index b).failedChild } =
        loadedEntry ptr (n.diskIndex b) := by
    by_cases hdup : ∃ r ∈ done, ptr r.hash = ptr b
    · obtain ⟨r, hr, hhash⟩ := hdup
      have hold := (hm'.entry r hr).1
      rw [hhash, hsame r hr hhash] at hold
      rw [hold]
      rfl
    · rw [(hm'.fresh (ptr b) fun r hr hhash => hdup ⟨r, hr, hhash⟩).1]
      rfl
  have hne : ∀ p, (∀ r ∈ done ++ [n.diskIndex b], ptr r.hash ≠ p) → p ≠ ptr b := by
    rintro p hp rfl
    exact hp (n.diskIndex b) (by simp) rfl
  constructor
  case nodup =>
    exact hm'.nodup
  case inside =>
    exact hm'.inside
  case inserted =>
    intro r hr
    cases List.mem_append.mp hr with
    | inl hr => exact hm'.inserted r hr
    | inr hr =>
        rw [List.mem_singleton.mp hr]
        exact hmem
  case entry =>
    intro r hr
    by_cases hhash : ptr r.hash = ptr b
    · have hrec : r = n.diskIndex b := by
        cases List.mem_append.mp hr with
        | inl hr => exact hsame r hr hhash
        | inr hr => exact List.mem_singleton.mp hr
      rw [hhash, hrec]
      exact ⟨(Function.update_self ..).trans hentry, Function.update_self ..⟩
    · have hold : r ∈ done := by
        cases List.mem_append.mp hr with
        | inl hr => exact hr
        | inr hr =>
            rw [List.mem_singleton.mp hr] at hhash
            exact absurd rfl hhash
      exact ⟨(Function.update_of_ne hhash _ _).trans (hm'.entry r hold).1,
        (Function.update_of_ne hhash _ _).trans (hm'.entry r hold).2⟩
  case fresh =>
    intro p hp
    have hfresh := hm'.fresh p fun r hr => hp r (List.mem_append_left _ hr)
    exact ⟨(Function.update_of_ne (hne p hp) _ _).trans hfresh.1,
      (Function.update_of_ne (hne p hp) _ _).trans hfresh.2⟩
  case pskip =>
    exact hm'.pskip
  case candidates =>
    exact hm'.candidates
  case unlinked =>
    exact hm'.unlinked
  case tip =>
    exact hm'.tip

omit [LinearOrder B] in
/-- The index after all records: every block with the entry of its record. -/
theorem loadBlockIndexGuts_loaded (hptr : Function.Injective ptr) (htree : n.state.TreeInv)
    {records : List (CDiskBlockIndex B)}
    (hrecords : ∀ r ∈ records, ∃ b ∈ n.state.mapBlockIndex, r = n.diskIndex b) :
    GutsLoaded ptr n records (loadBlockIndexGuts ptr records) := by
  induction records using List.reverseRecOn with
  | nil =>
      constructor
      · exact List.nodup_nil
      · intro p hp
        cases hp
      · intro r hr
        cases hr
      · intro r hr
        cases hr
      · exact fun _ _ => ⟨rfl, rfl⟩
      · rfl
      · rfl
      · rfl
      · rfl
  | append_singleton records r ih =>
      have hprev := ih fun r hr => hrecords r (List.mem_append_left _ hr)
      obtain ⟨b, hb, rfl⟩ := hrecords r (by simp)
      rw [loadBlockIndexGuts, List.foldl_append]
      apply hprev.record hptr htree _ hb
      intro r hr
      obtain ⟨b', -, hb'⟩ := hrecords r (List.mem_append_left _ hr)
      exact ⟨b', hb'⟩

/-! ## The counts of the running node -/

omit [LinearOrder B] in
/-- The incremental count is the one that the loader computes. -/
theorem loadedChainTx_eq {s : State B} (h : s.Linking []) {b : B} (hb : b ∈ s.mapBlockIndex)
    (hdata : (s.index b).haveData = true) : loadedChainTx s b = (s.index b).nChainTx := by
  unfold loadedChainTx
  cases hp : s.parent b with
  | none =>
      have hlink : (s.index b).nChainTx ≠ 0 := by
        intro hzero
        cases h.complete b hb hdata hzero with
        | inl hq => cases hq
        | inr hwait =>
            obtain ⟨p, hp', -⟩ := hwait
            rw [hp] at hp'
            cases hp'
      simp only
      rw [h.sum b hb hlink, State.txSum_none h.tree hb hp]
  | some p =>
      have hpmem := h.tree.closed hb hp
      simp only
      by_cases hparent : (s.index p).nChainTx = 0
      · rw [if_neg (not_not.mpr hparent)]
        by_contra hlink
        exact (h.sound b hb (Ne.symm hlink)).2 p hp hparent
      · have hlink : (s.index b).nChainTx ≠ 0 := by
          intro hzero
          cases h.complete b hb hdata hzero with
          | inl hq => cases hq
          | inr hwait =>
              obtain ⟨p', hp', hun⟩ := hwait
              rw [hp] at hp'
              rw [← Option.some.inj hp'] at hun
              exact hparent (h.unlinked p b hun).2.2.2
        have hsum := State.txSum_some h.tree hb hp
        have hfits := h.fits b hb
        rw [if_pos hparent, h.sum b hb hlink, h.sum p hpmem hparent, ← hsum,
          Nat.mod_eq_of_lt hfits]

omit [LinearOrder B] in
/-- The loader makes the same blocks wait. -/
theorem mem_waits {s : State B} (h : s.Linking []) {b : B} (hb : b ∈ s.mapBlockIndex)
    (w : B × B) : w ∈ waits s b ↔ w ∈ s.mapBlocksUnlinked ∧ w.2 = b := by
  obtain ⟨p, x⟩ := w
  have hiff : (p, b) ∈ s.mapBlocksUnlinked ↔ (s.index b).haveData = true ∧
      s.parent b = some p ∧ (s.index p).nChainTx = 0 := by
    constructor
    · intro hun
      exact (h.unlinked p b hun).2
    · intro hwait
      obtain ⟨hdata, hp, hzero⟩ := hwait
      have hbzero : (s.index b).nChainTx = 0 := by
        by_contra hlink
        exact (h.sound b hb hlink).2 p hp hzero
      cases h.complete b hb hdata hbzero with
      | inl hq => cases hq
      | inr hun =>
          obtain ⟨p', hp', hun⟩ := hun
          rw [hp] at hp'
          rwa [Option.some.inj hp']
  unfold waits
  constructor
  · intro hw
    cases hp : s.parent b with
    | none => simp [hp] at hw
    | some q =>
        simp only [hp] at hw
        split_ifs at hw with hcond
        · obtain ⟨rfl, rfl⟩ := Prod.mk.inj (List.mem_singleton.mp hw)
          simp only [Bool.and_eq_true, decide_eq_true_eq] at hcond
          exact ⟨hiff.mpr ⟨hcond.1, hp, hcond.2⟩, rfl⟩
        · cases hw
  · intro hw
    obtain ⟨hun, rfl⟩ := hw
    obtain ⟨hdata, hp, hzero⟩ := hiff.mp hun
    simp [hp, hdata, hzero]

omit [LinearOrder B] in
theorem waits_nodup (s : State B) (b : B) : (waits s b).Nodup := by
  unfold waits
  split
  · split_ifs
    · exact List.nodup_singleton _
    · exact List.nodup_nil
  · exact List.nodup_nil

/-! ## The loop over the sorted blocks -/

/-- The entry of the running node, in the memory of the reloaded one. -/
def fullEntry (ptr : B → P) (n : Node B) (b : B) : CBlockIndex P :=
  { loadedEntry ptr (n.diskIndex b) with
    nChainWork := (n.state.index b).nChainWork
    nChainTx := (n.state.index b).nChainTx }

/-- The index when the loop has taken the blocks `done`. -/
structure Loading (ptr : B → P) (n : Node B) (done : List P) (m : Node P) : Prop where
  mem : ∀ p, p ∈ m.state.mapBlockIndex ↔ ∃ b ∈ n.state.mapBlockIndex, ptr b = p
  proof : ∀ b ∈ n.state.mapBlockIndex, m.proof (ptr b) = n.proof b
  tip : m.state.tip = none
  before : ∀ b ∈ n.state.mapBlockIndex, ptr b ∉ done →
    m.state.index (ptr b) = loadedEntry ptr (n.diskIndex b) ∧ m.pskip (ptr b) = none
  after : ∀ b ∈ n.state.mapBlockIndex, ptr b ∈ done →
    m.state.index (ptr b) = fullEntry ptr n b ∧
      m.pskip (ptr b) = (n.pskip b).map ptr
  unlinked : ∀ q, q ∈ m.state.mapBlocksUnlinked ↔
    ∃ w ∈ n.state.mapBlocksUnlinked, ptr w.2 ∈ done ∧ q = (ptr w.1, ptr w.2)
  nodup : m.state.mapBlocksUnlinked.Nodup
  candidates : ∀ p, p ∈ m.state.setBlockIndexCandidates ↔
    ∃ b ∈ n.state.mapBlockIndex, ptr b = p ∧ p ∈ done ∧ (n.state.index b).nChainTx ≠ 0

namespace Loading

variable {done : List P} {m : Node P}

omit [LinearOrder B] in
theorem parent (h : Loading ptr n done m) {b : B} (hb : b ∈ n.state.mapBlockIndex) :
    m.state.parent (ptr b) = (n.state.parent b).map ptr := by
  unfold State.parent
  by_cases hdone : ptr b ∈ done
  · rw [(h.after b hb hdone).1]
    rfl
  · rw [(h.before b hb hdone).1]
    rfl

omit [LinearOrder B] in
theorem height (h : Loading ptr n done m) {b : B} (hb : b ∈ n.state.mapBlockIndex) :
    m.state.height (ptr b) = n.state.height b := by
  unfold State.height
  by_cases hdone : ptr b ∈ done
  · rw [(h.after b hb hdone).1]
    rfl
  · rw [(h.before b hb hdone).1]
    rfl

omit [LinearOrder B] in
theorem tree (h : Loading ptr n done m) (htree : n.state.TreeInv) : m.state.TreeInv := by
  constructor
  · intro p q hp hq
    obtain ⟨b, hb, rfl⟩ := (h.mem p).mp hp
    rw [h.parent hb] at hq
    obtain ⟨a, ha, rfl⟩ := Option.map_eq_some_iff.mp hq
    exact (h.mem _).mpr ⟨a, htree.closed hb ha, rfl⟩
  · intro p q hp hq
    obtain ⟨b, hb, rfl⟩ := (h.mem p).mp hp
    rw [h.parent hb] at hq
    obtain ⟨a, ha, rfl⟩ := Option.map_eq_some_iff.mp hq
    rw [h.height hb, h.height (htree.closed hb ha)]
    exact htree.rank_some hb ha
  · intro p hp hq
    obtain ⟨b, hb, rfl⟩ := (h.mem p).mp hp
    rw [h.parent hb, Option.map_eq_none_iff] at hq
    rw [h.height hb]
    exact htree.rank_none hb hq

omit [LinearOrder B] in
/-- The work below the next block. -/
theorem prevChainWork (h : Loading ptr n done m) (htree : n.state.TreeInv) {b : B}
    (hb : b ∈ n.state.mapBlockIndex)
    (hparent : ∀ p, n.state.parent b = some p → ptr p ∈ done) :
    Node.prevChainWork m.state (ptr b) = Node.prevChainWork n.state b := by
  unfold Node.prevChainWork
  rw [h.parent hb]
  cases hp : n.state.parent b with
  | none => rfl
  | some p =>
      simp only [Option.map_some]
      rw [(h.after p (htree.closed hb hp) (hparent p hp)).1]
      rfl

theorem next (h : Loading ptr n done m) (hrun : Maintained n) {b : B}
    (hb : b ∈ n.state.mapBlockIndex) (hnew : ptr b ∉ done)
    (hparent : ∀ p, n.state.parent b = some p → ptr p ∈ done) :
    loadedChainTx m.state (ptr b) = loadedChainTx n.state b ∧
      waits m.state (ptr b) = (waits n.state b).map (Prod.map ptr ptr) := by
  have hentry := (h.before b hb hnew).1
  unfold loadedChainTx waits
  rw [h.parent hb, hentry]
  cases hp : n.state.parent b with
  | none => exact ⟨rfl, rfl⟩
  | some p =>
      simp only [Option.map_some]
      rw [(h.after p (hrun.tree.closed hb hp) (hparent p hp)).1]
      refine ⟨rfl, ?_⟩
      show (if (n.state.index b).haveData && (n.state.index p).nChainTx = 0 then
        [(ptr p, ptr b)] else []) = List.map _ (if _ then _ else _)
      split_ifs <;> rfl

/-- The skip pointer of the next block. -/
theorem buildSkip_eq (h : Loading ptr n done m) (hrun : Maintained n) {b : B}
    (hb : b ∈ n.state.mapBlockIndex) (hnew : ptr b ∉ done)
    (hlower : ∀ a ∈ n.state.mapBlockIndex, n.state.height a < n.state.height b →
      ptr a ∈ done) :
    m.buildSkip (ptr b) = (n.pskip b).map ptr := by
  have htree := h.tree hrun.tree
  have hbmem : ptr b ∈ m.state.mapBlockIndex := (h.mem _).mpr ⟨b, hb, rfl⟩
  have hagree : ∀ x ∈ n.state.mapBlockIndex,
      m.state.parent (ptr x) = (n.state.parent x).map ptr ∧
        m.state.height (ptr x) = n.state.height x :=
    fun x hx => ⟨h.parent hx, h.height hx⟩
  have hcopy : ∀ x ∈ n.state.mapBlockIndex, ∀ pskip : P → Option P,
      pskip (ptr x) = (n.pskip x).map ptr →
      SkipPointers.SkipRight m.state.parent pskip m.state.height getSkipHeight (ptr x) := by
    intro x hx pskip hpskip
    apply (hrun.skip x hx).map hpskip
    intro a ha
    exact hagree a (ha.mem hrun.tree hx)
  unfold Node.buildSkip
  rw [h.parent hb]
  cases hp : n.state.parent b with
  | none =>
      have hroot := hrun.skip b hb
      rw [SkipPointers.SkipRight, if_pos (hrun.tree.rank_none hb hp)] at hroot
      simp only [Option.map_none, (h.before b hb hnew).2, hroot]
  | some p =>
      have hpmem := hrun.tree.closed hb hp
      have hstep := hrun.tree.rank_some hb hp
      have hright : ∀ y, Ancestor m.state.parent y (ptr p) →
          SkipPointers.SkipRight m.state.parent m.pskip m.state.height getSkipHeight y := by
        intro y hy
        have hymem := hy.mem htree ((h.mem _).mpr ⟨p, hpmem, rfl⟩)
        have hyheight := hy.rank_le htree ((h.mem _).mpr ⟨p, hpmem, rfl⟩)
        obtain ⟨a, ha, rfl⟩ := (h.mem y).mp hymem
        rw [h.height ha, h.height hpmem] at hyheight
        apply hcopy a ha
        exact (h.after a ha (hlower a ha (by omega))).2
      have hpar : m.state.parent (ptr b) = some (ptr p) := by
        rw [h.parent hb, hp]
        rfl
      have hbuilt : SkipPointers.SkipRight m.state.parent
          (Function.update m.pskip (ptr b) (m.getAncestor (ptr p)
            (getSkipHeight (m.state.height (ptr b))))) m.state.height getSkipHeight (ptr b) := by
        apply SkipPointers.skipRight_of_getAncestor htree getSkipHeight_lt hbmem hpar hright
        rw [Function.update_self]
        rfl
      have hcopied := hcopy b hb (Function.update m.pskip (ptr b) ((n.pskip b).map ptr))
        (Function.update_self ..)
      have hunique := SkipPointers.SkipRight.unique htree hbmem hbuilt hcopied
      simpa using hunique

theorem step_index (p : P) : (loadStep m p).state.index = (m.recompute p).index := by
  unfold loadStep
  simp only
  split_ifs <;> rfl

theorem step_sets (p : P) :
    (loadStep m p).state.mapBlockIndex = m.state.mapBlockIndex ∧
      (loadStep m p).state.tip = m.state.tip ∧
      (loadStep m p).state.mapBlocksUnlinked =
        m.state.mapBlocksUnlinked ++ waits m.state p := by
  unfold loadStep
  simp only
  split_ifs
  · exact ⟨rfl, rfl, rfl⟩
  · exact ⟨rfl, rfl, rfl⟩

theorem step_entry (h : Loading ptr n done m) (hrun : Maintained n) {b : B}
    (hb : b ∈ n.state.mapBlockIndex) (hnew : ptr b ∉ done)
    (hparent : ∀ p, n.state.parent b = some p → ptr p ∈ done) :
    (loadStep m (ptr b)).state.index (ptr b) = fullEntry ptr n b := by
  have hentry := (h.before b hb hnew).1
  have hwork : Node.prevChainWork m.state (ptr b) + m.proof (ptr b) =
      (n.state.index b).nChainWork := by
    rw [h.prevChainWork hrun.tree hb hparent, h.proof b hb, hrun.work b hb]
  have hcount : (if (m.state.index (ptr b)).haveData then loadedChainTx m.state (ptr b)
      else (m.state.index (ptr b)).nChainTx) = (n.state.index b).nChainTx := by
    rw [hentry]
    show (if (n.state.index b).haveData then loadedChainTx m.state (ptr b) else 0) = _
    by_cases hdata : (n.state.index b).haveData = true
    · rw [if_pos hdata, (h.next hrun hb hnew hparent).1,
        loadedChainTx_eq hrun.arrived.linking hb hdata]
    · rw [if_neg hdata]
      by_contra hlink
      exact hdata (hrun.arrived.linking.sound b hb (Ne.symm hlink)).1
  rw [step_index, recompute]
  simp only [Function.update_self]
  rw [hwork, hcount, hentry]
  rfl

/-- The next block becomes a candidate if and only if it is linked. -/
theorem step_candidates (h : Loading ptr n done m) (hrun : Maintained n) {b : B}
    (hb : b ∈ n.state.mapBlockIndex) (hnew : ptr b ∉ done)
    (hparent : ∀ p, n.state.parent b = some p → ptr p ∈ done) (x : P) :
    x ∈ (loadStep m (ptr b)).state.setBlockIndexCandidates ↔
      x ∈ m.state.setBlockIndexCandidates ∨
        (x = ptr b ∧ (n.state.index b).nChainTx ≠ 0) := by
  have hentry := h.step_entry hrun hb hnew hparent
  have hlinking := hrun.arrived.linking
  have hcond : isLoadedCandidate (fullEntry ptr n b) = true ↔
      (n.state.index b).nChainTx ≠ 0 := by
    have hvalid : (fullEntry ptr n b).isValid =
        (!(n.state.index b).failed && (n.state.index b).validTransactions) := rfl
    have hroot : (fullEntry ptr n b).pprev.isNone = (n.state.parent b).isNone :=
      Option.isNone_map
    have hcount : (fullEntry ptr n b).nChainTx = (n.state.index b).nChainTx := rfl
    rw [isLoadedCandidate, hvalid, hroot, hcount, hrun.arrived.unmarked b hb]
    constructor
    · intro hcond
      simp only [Bool.not_false, Bool.true_and, Bool.and_eq_true, Bool.or_eq_true,
        decide_eq_true_eq, Option.isNone_iff_eq_none] at hcond
      obtain ⟨hvalidTx, hlink | hp⟩ := hcond
      · exact hlink
      · apply hlinking.linked hb
        intro a ha
        obtain rfl | ⟨p, hp', -⟩ := ha.eq_or_parent
        · exact hrun.validData a hvalidTx
        · rw [hp] at hp'
          cases hp'
    · intro hlink
      have hdata := (hlinking.sound b hb hlink).1
      simp [hlinking.valid b hb hdata, hlink]
  rw [step_index] at hentry
  unfold loadStep
  simp only [hentry]
  by_cases hlink : (n.state.index b).nChainTx = 0
  · rw [if_neg (by rw [hcond]; exact not_not.mpr hlink)]
    show x ∈ m.state.setBlockIndexCandidates ↔ _
    simp [hlink]
  · rw [if_pos (hcond.mpr hlink), State.mem_insertCandidate]
    show x = ptr b ∨ x ∈ m.state.setBlockIndexCandidates ↔ _
    simp [hlink, or_comm]

/-- One turn of the loop. -/
theorem step (hptr : Function.Injective ptr) (h : Loading ptr n done m) (hrun : Maintained n)
    {b : B} (hb : b ∈ n.state.mapBlockIndex) (hnew : ptr b ∉ done)
    (hlower : ∀ a ∈ n.state.mapBlockIndex, n.state.height a < n.state.height b →
      ptr a ∈ done) : Loading ptr n (done ++ [ptr b]) (loadStep m (ptr b)) := by
  have hparent : ∀ p, n.state.parent b = some p → ptr p ∈ done := by
    intro p hp
    have hstep := hrun.tree.rank_some hb hp
    exact hlower p (hrun.tree.closed hb hp) (by omega)
  obtain ⟨hmap, htip, hunlinked⟩ := step_sets (m := m) (ptr b)
  have hcandidates := h.step_candidates hrun hb hnew hparent
  have hwaits := (h.next hrun hb hnew hparent).2
  have hlinking := hrun.arrived.linking
  have hindexNe : ∀ x, x ≠ ptr b → (loadStep m (ptr b)).state.index x = m.state.index x := by
    intro x hx
    rw [step_index]
    exact Function.update_of_ne hx _ _
  constructor
  case mem =>
    rw [hmap]
    exact h.mem
  case proof =>
    exact h.proof
  case tip =>
    rw [htip]
    exact h.tip
  case before =>
    intro x hx hxnew
    rw [List.mem_append, List.mem_singleton, not_or] at hxnew
    rw [hindexNe _ hxnew.2]
    refine ⟨(h.before x hx hxnew.1).1, ?_⟩
    exact (Function.update_of_ne hxnew.2 _ _).trans (h.before x hx hxnew.1).2
  case after =>
    intro x hx hxdone
    by_cases hxb : ptr x = ptr b
    · rw [hxb, hptr hxb]
      refine ⟨h.step_entry hrun hb hnew hparent, ?_⟩
      exact (Function.update_self ..).trans (h.buildSkip_eq hrun hb hnew hlower)
    · have hxold : ptr x ∈ done := by
        cases List.mem_append.mp hxdone with
        | inl hold => exact hold
        | inr hself => exact absurd (List.mem_singleton.mp hself) hxb
      rw [hindexNe _ hxb]
      refine ⟨(h.after x hx hxold).1, ?_⟩
      exact (Function.update_of_ne hxb _ _).trans (h.after x hx hxold).2
  case unlinked =>
    intro q
    rw [hunlinked, hwaits, List.mem_append, h.unlinked, List.mem_map]
    constructor
    · intro hq
      cases hq with
      | inl hold =>
          obtain ⟨w, hw, hdone, hq⟩ := hold
          exact ⟨w, hw, List.mem_append_left _ hdone, hq⟩
      | inr hnext =>
          obtain ⟨w, hw, rfl⟩ := hnext
          obtain ⟨hw, hwb⟩ := (mem_waits hlinking hb w).mp hw
          exact ⟨w, hw, by rw [hwb]; simp, rfl⟩
    · intro hq
      obtain ⟨w, hw, hdone, rfl⟩ := hq
      cases List.mem_append.mp hdone with
      | inl hold => exact Or.inl ⟨w, hw, hold, rfl⟩
      | inr hself =>
          have hwb : w.2 = b := hptr (List.mem_singleton.mp hself)
          exact Or.inr ⟨w, (mem_waits hlinking hb w).mpr ⟨hw, hwb⟩, rfl⟩
  case nodup =>
    rw [hunlinked, List.nodup_append]
    refine ⟨h.nodup, ?_, ?_⟩
    · rw [hwaits]
      exact (waits_nodup _ _).map (hptr.prodMap hptr)
    · intro q hq q' hq' heq
      rw [hwaits] at hq'
      obtain ⟨w', hw', rfl⟩ := List.mem_map.mp hq'
      obtain ⟨w, hw, hdone, hqw⟩ := (h.unlinked q).mp hq
      have hwb := ((mem_waits hlinking hb w').mp hw').2
      have hsnd : ptr w.2 = ptr b := by
        rw [← hwb]
        exact (Prod.mk.inj (hqw.symm.trans heq)).2
      exact hnew (hsnd ▸ hdone)
  case candidates =>
    intro x
    rw [hcandidates x, h.candidates]
    constructor
    · intro hx
      cases hx with
      | inl hold =>
          obtain ⟨a, ha, hax, hdone, hlink⟩ := hold
          exact ⟨a, ha, hax, List.mem_append_left _ hdone, hlink⟩
      | inr hself => exact ⟨b, hb, hself.1.symm, by simp [hself.1], hself.2⟩
    · intro hx
      obtain ⟨a, ha, rfl, hdone, hlink⟩ := hx
      cases List.mem_append.mp hdone with
      | inl hold => exact Or.inl ⟨a, ha, rfl, hold, hlink⟩
      | inr hself =>
          have hab : a = b := hptr (List.mem_singleton.mp hself)
          exact Or.inr ⟨by rw [hab], by rwa [hab] at hlink⟩

end Loading

/-! ## The reloaded index -/

/-- The reloaded index is that of the running node. -/
structure Agrees (ptr : B → P) (n : Node B) (loaded : Node P) : Prop where
  blocks : ∀ p, p ∈ loaded.state.mapBlockIndex ↔ ∃ b ∈ n.state.mapBlockIndex, ptr b = p
  nChainWork : ∀ b ∈ n.state.mapBlockIndex,
    (loaded.state.index (ptr b)).nChainWork = (n.state.index b).nChainWork
  nChainTx : ∀ b ∈ n.state.mapBlockIndex,
    (loaded.state.index (ptr b)).nChainTx = (n.state.index b).nChainTx
  pskip : ∀ b ∈ n.state.mapBlockIndex, loaded.pskip (ptr b) = (n.pskip b).map ptr
  unlinked : loaded.state.mapBlocksUnlinked.Perm
    (n.state.mapBlocksUnlinked.map (Prod.map ptr ptr))
  /-- Both have the linked blocks that are not worse than the tip, each by its
  own sequence ids and pointers. -/
  running : ∀ b, b ∈ n.state.setBlockIndexCandidates ↔
    b ∈ n.state.mapBlockIndex ∧ (n.state.index b).nChainTx ≠ 0 ∧
      n.state.worseThanTip b = false
  reloaded : ∀ b ∈ n.state.mapBlockIndex, ptr b ∈ loaded.state.setBlockIndexCandidates ↔
    (n.state.index b).nChainTx ≠ 0 ∧ loaded.state.worseThanTip (ptr b) = false
  /-- These can differ for blocks with the work of the tip only. -/
  candidates : ∀ b ∈ n.state.mapBlockIndex,
    (∀ t, n.state.tip = some t →
      (n.state.index b).nChainWork = (n.state.index t).nChainWork → b = t) →
    (ptr b ∈ loaded.state.setBlockIndexCandidates ↔ b ∈ n.state.setBlockIndexCandidates)

omit [LinearOrder B] [LinearOrder P] in
theorem GutsLoaded.loading {records : List (CDiskBlockIndex B)} {m : Node P}
    (h : GutsLoaded ptr n records m)
    (hrecords : records.Perm (n.state.mapBlockIndex.map n.diskIndex)) :
    Loading ptr n [] m := by
  have hmem : ∀ b ∈ n.state.mapBlockIndex, n.diskIndex b ∈ records := by
    intro b hb
    exact hrecords.mem_iff.mpr (List.mem_map_of_mem hb)
  constructor
  case mem =>
    intro p
    constructor
    · exact h.inside p
    · rintro ⟨b, hb, rfl⟩
      exact h.inserted _ (hmem b hb)
  case proof =>
    intro b hb
    exact (h.entry _ (hmem b hb)).2
  case tip =>
    exact h.tip
  case before =>
    intro b hb _
    exact ⟨(h.entry _ (hmem b hb)).1, by rw [h.pskip]⟩
  case after =>
    intro b _ hb
    cases hb
  case unlinked =>
    intro q
    rw [h.unlinked]
    simp
  case nodup =>
    rw [h.unlinked]
    exact List.nodup_nil
  case candidates =>
    intro p
    rw [h.candidates]
    simp

/-- The loop comes to every block after the blocks below it. -/
theorem Loading.all (hptr : Function.Injective ptr) (hrun : Maintained n) {m : Node P}
    (h : Loading ptr n [] m) (hnodup : m.state.mapBlockIndex.Nodup) :
    Loading ptr n m.sortedByHeight (m.sortedByHeight.foldl loadStep m) := by
  have hperm : m.sortedByHeight.Perm m.state.mapBlockIndex := List.perm_insertionSort _ _
  have hsorted : m.sortedByHeight.Pairwise fun a b =>
      toLex (m.state.height a, a) ≤ toLex (m.state.height b, b) := by
    have : Std.Total fun a b : P =>
        toLex (m.state.height a, a) ≤ toLex (m.state.height b, b) := ⟨fun a b => le_total _ _⟩
    have : IsTrans P fun a b =>
        toLex (m.state.height a, a) ≤ toLex (m.state.height b, b) :=
      ⟨fun a b c => le_trans⟩
    exact List.pairwise_insertionSort _ _
  have hkeep := hperm.nodup_iff.mpr hnodup
  have hmem : ∀ p, p ∈ m.sortedByHeight ↔ ∃ b ∈ n.state.mapBlockIndex, ptr b = p := by
    intro p
    rw [hperm.mem_iff, h.mem]
  have hheight : ∀ b ∈ n.state.mapBlockIndex, m.state.height (ptr b) = n.state.height b :=
    fun b hb => h.height hb
  generalize hl : m.sortedByHeight = l at hsorted hkeep hmem ⊢
  have hevery : EachAfter (fun before p => ∃ after, l = before ++ p :: after) l :=
    fun before p after heq => ⟨after, heq⟩
  apply hevery.induction h
  rintro before p hbefore ⟨after, hsplit⟩
  rw [List.foldl_append]
  rw [hsplit] at hsorted hkeep
  obtain ⟨b, hb, rfl⟩ := (hmem p).mp (by rw [hsplit]; simp)
  apply hbefore.step hptr hrun hb
  · intro hold
    exact (List.disjoint_of_nodup_append hkeep) hold List.mem_cons_self
  · intro a ha hlt
    have hain : ptr a ∈ before ++ ptr b :: after := by
      rw [← hsplit]
      exact (hmem _).mpr ⟨a, ha, rfl⟩
    cases List.mem_append.mp hain with
    | inl hold => exact hold
    | inr hrest =>
        exfalso
        have hle : m.state.height (ptr b) ≤ m.state.height (ptr a) := by
          cases List.mem_cons.mp hrest with
          | inl hself => rw [hself]
          | inr hafter =>
              have hkey := (List.pairwise_cons.mp (List.pairwise_append.mp hsorted).2.1).1
                (ptr a) hafter
              rw [Prod.Lex.toLex_le_toLex] at hkey
              omega
        rw [hheight a ha, hheight b hb] at hle
        omega

/-- Blocks of different work compare alike, before and after a restart. -/
theorem Loading.worse_eq {done : List P} {m : Node P} (h : Loading ptr n done m) {a b : B}
    (ha : a ∈ n.state.mapBlockIndex) (hb : b ∈ n.state.mapBlockIndex)
    (hadone : ptr a ∈ done) (hbdone : ptr b ∈ done)
    (hwork : (n.state.index a).nChainWork = (n.state.index b).nChainWork → a = b) :
    m.state.worse (ptr a) (ptr b) = n.state.worse a b := by
  by_cases hab : a = b
  · rw [hab, State.worse_irrefl, State.worse_irrefl]
  · have hne : (n.state.index a).nChainWork ≠ (n.state.index b).nChainWork :=
      fun heq => hab (hwork heq)
    unfold State.worse
    rw [(h.after a ha hadone).1, (h.after b hb hbdone).1]
    show (if (n.state.index a).nChainWork > (n.state.index b).nChainWork then false
      else if (n.state.index a).nChainWork < (n.state.index b).nChainWork then true
      else _) = _
    by_cases hmore : (n.state.index a).nChainWork > (n.state.index b).nChainWork
    · rw [if_pos hmore, if_pos hmore]
    · have hless : (n.state.index a).nChainWork < (n.state.index b).nChainWork := by omega
      rw [if_neg hmore, if_neg hmore, if_pos hless, if_pos hless]

/-- What the loop leaves, with the candidates that are kept. -/
theorem Loading.agrees {done : List P} {m : Node P} (h : Loading ptr n done m)
    (hptr : Function.Injective ptr) (hrun : Maintained n)
    (hdone : ∀ b ∈ n.state.mapBlockIndex, ptr b ∈ done) {loaded : Node P}
    (hpskip : loaded.pskip = m.pskip)
    (hmap : loaded.state.mapBlockIndex = m.state.mapBlockIndex)
    (hindex : loaded.state.index = m.state.index)
    (hunlinked : loaded.state.mapBlocksUnlinked = m.state.mapBlocksUnlinked)
    (htip : loaded.state.tip = n.state.tip.map ptr)
    (hcandidates : ∀ p, p ∈ loaded.state.setBlockIndexCandidates ↔
      p ∈ m.state.setBlockIndexCandidates ∧ loaded.state.worseThanTip p = false) :
    Agrees ptr n loaded := by
  have hlinking := hrun.arrived.linking
  have hrunning : ∀ b, b ∈ n.state.setBlockIndexCandidates ↔
      b ∈ n.state.mapBlockIndex ∧ (n.state.index b).nChainTx ≠ 0 ∧
        n.state.worseThanTip b = false := by
    intro b
    constructor
    · intro hb
      have hbmem := hlinking.candidates b hb
      exact ⟨hbmem.1, hbmem.2, hrun.pruned b hb⟩
    · intro hb
      exact hrun.arrived.covered b hb.1 hb.2.1 (hrun.arrived.unmarked b hb.1) hb.2.2
  have hreloaded : ∀ b ∈ n.state.mapBlockIndex,
      (ptr b ∈ loaded.state.setBlockIndexCandidates ↔
        (n.state.index b).nChainTx ≠ 0 ∧ loaded.state.worseThanTip (ptr b) = false) := by
    intro b hb
    rw [hcandidates, h.candidates]
    constructor
    · intro hp
      obtain ⟨⟨a, ha, hab, -, hlink⟩, hworse⟩ := hp
      rw [hptr hab] at hlink
      exact ⟨hlink, hworse⟩
    · intro hp
      exact ⟨⟨b, hb, rfl, hdone b hb, hp.1⟩, hp.2⟩
  constructor
  case blocks =>
    intro p
    rw [hmap]
    exact h.mem p
  case nChainWork =>
    intro b hb
    rw [hindex, (h.after b hb (hdone b hb)).1]
    rfl
  case nChainTx =>
    intro b hb
    rw [hindex, (h.after b hb (hdone b hb)).1]
    rfl
  case pskip =>
    intro b hb
    rw [hpskip]
    exact (h.after b hb (hdone b hb)).2
  case unlinked =>
    rw [hunlinked, List.perm_ext_iff_of_nodup h.nodup
      ((List.Nodup.of_map _ hlinking.nodup).map (hptr.prodMap hptr))]
    intro q
    rw [h.unlinked, List.mem_map]
    constructor
    · rintro ⟨w, hw, -, rfl⟩
      exact ⟨w, hw, rfl⟩
    · rintro ⟨w, hw, rfl⟩
      exact ⟨w, hw, hdone w.2 (hlinking.unlinked w.1 w.2 hw).1, rfl⟩
  case running =>
    exact hrunning
  case reloaded =>
    exact hreloaded
  case candidates =>
    intro b hb hwork
    have hsame : loaded.state.worseThanTip (ptr b) = n.state.worseThanTip b := by
      unfold State.worseThanTip
      rw [htip]
      cases ht : n.state.tip with
      | none => rfl
      | some t =>
          have htmem := (hlinking.tip t ht).1
          have hworse := h.worse_eq hb htmem (hdone b hb) (hdone t htmem) (hwork t ht)
          simp only [Option.map_some]
          rw [← hworse]
          apply State.worse_congr
          · rw [hindex]
            exact ⟨rfl, rfl⟩
          · rw [hindex]
            exact ⟨rfl, rfl⟩
    rw [hreloaded b hb, hrunning, hsame]
    exact ⟨fun hp => ⟨hb, hp⟩, fun hp => hp.2⟩

/-- **The reloaded index agrees with that of the running node**, whatever the
order of the records and the new pointers are. -/
theorem load_agrees (hrun : Running n) (hptr : Function.Injective ptr)
    {records : List (CDiskBlockIndex B)}
    (hrecords : records.Perm (n.state.mapBlockIndex.map n.diskIndex)) :
    ∃ loaded, loadBlockIndexDB ptr records n.state.tip = .ok loaded ∧
      Agrees ptr n loaded := by
  have hmaintained := hrun.maintained
  have hguts : GutsLoaded ptr n records (loadBlockIndexGuts ptr records) := by
    apply loadBlockIndexGuts_loaded hptr hmaintained.tree
    intro r hr
    obtain ⟨b, hb, rfl⟩ := List.mem_map.mp (hrecords.mem_iff.mp hr)
    exact ⟨b, hb, rfl⟩
  have hstart := hguts.loading hrecords
  have hall := hstart.all hptr hmaintained hguts.nodup
  have hdone : ∀ b ∈ n.state.mapBlockIndex,
      ptr b ∈ (loadBlockIndexGuts ptr records).sortedByHeight := by
    intro b hb
    exact (List.mem_insertionSort _).mpr ((hstart.mem _).mpr ⟨b, hb, rfl⟩)
  unfold loadBlockIndexDB
  simp only
  generalize hm : (loadBlockIndexGuts ptr records).sortedByHeight.foldl loadStep
    (loadBlockIndexGuts ptr records) = m at hall
  cases ht : n.state.tip with
  | none =>
      refine ⟨m, rfl, ?_⟩
      apply hall.agrees hptr hmaintained hdone rfl rfl rfl rfl
      · rw [hall.tip, ht]
        rfl
      · intro p
        have hnone : m.state.worseThanTip p = false := by
          rw [State.worseThanTip, hall.tip]
        simp [hnone]
  | some t =>
      have htip := hmaintained.arrived.linking.tip t ht
      have hmem : ptr t ∈ m.state.mapBlockIndex := (hall.mem _).mpr ⟨t, htip.1, rfl⟩
      have hkept : ptr t ∈ m.state.setBlockIndexCandidates :=
        (hall.candidates _).mpr ⟨t, htip.1, rfl, hdone t htip.1, htip.2⟩
      have hprune : State.pruneBlockIndexCandidates { m.state with tip := some (ptr t) } =
          .ok { m.state with
            tip := some (ptr t)
            setBlockIndexCandidates := m.state.setBlockIndexCandidates.filter fun b =>
              !m.state.worse b (ptr t) } := by
        unfold State.pruneBlockIndexCandidates
        simp only
        rw [if_neg]
        · rfl
        · intro hempty
          have hin : ptr t ∈ m.state.setBlockIndexCandidates.filter fun b =>
              !State.worseThanTip { m.state with tip := some (ptr t) } b := by
            rw [List.mem_filter]
            refine ⟨hkept, ?_⟩
            show (!m.state.worse (ptr t) (ptr t)) = true
            rw [State.worse_irrefl]
            rfl
          rw [hempty] at hin
          cases hin
      refine ⟨_, by
        rw [setBestBlock]
        simp only
        rw [if_pos (List.contains_iff_mem.mpr hmem), hprune], ?_⟩
      apply hall.agrees hptr hmaintained hdone
      · rfl
      · rfl
      · rfl
      · rfl
      · rw [ht]
        rfl
      · intro p
        show p ∈ List.filter _ _ ↔ p ∈ m.state.setBlockIndexCandidates ∧
          m.state.worse p (ptr t) = false
        simp

end Load

section Example

open State (header)

/-- The node with the data of a block. -/
def received (n : Node Nat) (b : Nat) : Node Nat :=
  { n with state := n.state.withData b 1 }

/-- The node with another tip. -/
def withBest (n : Node Nat) (t : Nat) : Node Nat :=
  match State.pruneBlockIndexCandidates { n.state with tip := some t } with
  | .ok s => { n with state := s }
  | .error _ => n

theorem Running.received {n : Node Nat} (h : Running n) {b : Nat}
    (hb : b ∈ n.state.mapBlockIndex) (hdata : (n.state.index b).haveData = false)
    (hfits : ∀ c ∈ n.state.mapBlockIndex, n.state.txSum c + 1 < 2 ^ 32) :
    Running (n.received b) := by
  have harrived := h.maintained.arrived
  obtain ⟨s, hs, -⟩ := State.receivedBlockTransactions_spec harrived.linking harrived.covered
    (harrived.dataAllowed hb hdata Nat.one_pos fun c hc _ => hfits c hc)
  have hreceived : n.received b = { n with state := s } := by
    rw [Node.received, State.withData, hs]
    rfl
  rw [hreceived]
  exact h.data hb hdata Nat.one_pos (fun c hc _ => hfits c hc) hs

theorem Running.withBest {n : Node Nat} (h : Running n) {t : Nat}
    (ht : t ∈ n.state.mapBlockIndex) (hlink : (n.state.index t).nChainTx ≠ 0)
    (hworse : n.state.worseThanTip t = false) : Running (n.withBest t) := by
  unfold Node.withBest
  cases hs : State.pruneBlockIndexCandidates { n.state with tip := some t } with
  | error halt => exact h
  | ok s => exact h.activate ht hlink hworse hs

/-- Blocks `1` and `2` on top of the genesis block `0`, of equal work: `2` is
the tip, and then the data of `1` comes. -/
def twoBlocks : Node Nat :=
  ((({} : Node Nat).addToBlockIndex (header 0 9 1)).addToBlockIndex
    (header 1 0 1)).addToBlockIndex (header 2 0 1)

def twoBlocksRun : Node Nat :=
  (((twoBlocks.received 0).received 2).withBest 2).received 1

theorem twoBlocksRun_running : Running twoBlocksRun := by
  have h : Running twoBlocks :=
    Running.header _ (Running.header _ (Running.header _ Running.start))
  have h0 := h.received (b := 0) (by decide) (by decide) (by decide)
  have h2 := h0.received (b := 2) (by decide) (by decide) (by decide)
  have htip := h2.withBest (t := 2) (by decide) (by decide) (by decide)
  exact htip.received (b := 1) (by decide) (by decide) (by decide)

theorem load_agrees_twoBlocks :
    ∃ loaded, loadBlockIndexDB id (twoBlocksRun.state.mapBlockIndex.map
        twoBlocksRun.diskIndex) twoBlocksRun.state.tip = .ok loaded ∧
      Agrees id twoBlocksRun loaded :=
  load_agrees twoBlocksRun_running Function.injective_id (List.Perm.refl _)

/-- After a restart `1`, which is no candidate of the running node, is one:
all blocks that are loaded have sequence id 0, and its pointer is the lower
one. -/
theorem reloaded_candidate :
    ¬ ∀ n : Node Nat, Running n → ∀ loaded,
      loadBlockIndexDB id (n.state.mapBlockIndex.map n.diskIndex) n.state.tip =
        .ok loaded →
      ∀ b ∈ n.state.mapBlockIndex,
        (b ∈ loaded.state.setBlockIndexCandidates ↔
          b ∈ n.state.setBlockIndexCandidates) := by
  intro h
  have hloaded : ∃ loaded, loadBlockIndexDB id (twoBlocksRun.state.mapBlockIndex.map
      twoBlocksRun.diskIndex) twoBlocksRun.state.tip = .ok loaded ∧
        1 ∈ loaded.state.setBlockIndexCandidates :=
    ⟨_, rfl, by decide +kernel⟩
  obtain ⟨loaded, hload, hmem⟩ := hloaded
  have hin := (h twoBlocksRun twoBlocksRun_running loaded hload 1 (by decide)).mp hmem
  revert hin
  decide

end Example

end Node

end Agrarian.BlockIndex
