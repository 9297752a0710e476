import Agrarian.BlockIndex.Chain
import Agrarian.BlockIndex.Invalidate
import Agrarian.Net.BlocksInFlight

/-!
# The next blocks to download

`FindNextBlocksToDownload` walks from the last block that we have in common with
a peer towards the best block that the peer announced, and picks the blocks
whose data is neither there nor in flight.  It reads the path in chunks, each
of them filled backwards from an ancestor of the best known block.

A step that would go through a null pointer, or a failed assertion, has no
result.  A block stands for its hash, and the null hash is `none`.
-/

namespace Agrarian.Net.NextBlocks

open Agrarian.BlockIndex Agrarian.Lib Agrarian.Lib.Forest

/-- The block index with what it promises: skip pointers that lead where they
should, one genesis block, and `nChainTx` of a block set only when the block has
data and its parent is linked. -/
structure BlockTree (B : Type) where
  index : SkipIndex B
  mapBlockIndex : List B
  nChainWork : B → Nat
  /-- `IsValid(BLOCK_VALID_TREE)`. -/
  validTree : B → Bool
  /-- `BLOCK_HAVE_DATA`. -/
  haveData : B → Bool
  nChainTx : B → Nat
  genesis : B
  inv : index.Inv mapBlockIndex
  root : ∀ b ∈ mapBlockIndex, index.pprev b = none → b = genesis
  linked : ∀ b ∈ mapBlockIndex, nChainTx b ≠ 0 →
    haveData b = true ∧ ∀ p, index.pprev b = some p → nChainTx p ≠ 0

/-- The part of `CNodeState` about the blocks of the peer. -/
structure CNodeState (B : Type) where
  /-- The best known block we know this peer has announced. -/
  pindexBestKnownBlock : Option B := none
  /-- The hash of the last unknown block this peer has announced. -/
  hashLastUnknownBlock : Option B := none
  /-- The last full block we both have. -/
  pindexLastCommonBlock : Option B := none

def BLOCK_DOWNLOAD_WINDOW : Nat := 1024

variable {B : Type} [DecidableEq B]

/-! ## The functions of `main.cpp` -/

section Functions

variable (tree : BlockTree B)

/-- A block that was announced, if it is not worse than the best one so far. -/
def betterKnown (state : CNodeState B) (b : B) : Option B :=
  match state.pindexBestKnownBlock with
  | none => some b
  | some best =>
      if tree.nChainWork b ≥ tree.nChainWork best then some b else some best

/-- Check whether the last unknown block a peer advertized is not yet known. -/
def processBlockAvailability (state : CNodeState B) : CNodeState B :=
  match state.hashLastUnknownBlock with
  | none => state
  | some hash =>
      if tree.mapBlockIndex.contains hash && decide (tree.nChainWork hash > 0) then
        { state with
          pindexBestKnownBlock := betterKnown tree state hash
          hashLastUnknownBlock := none }
      else state

/-- Update tracking information about which blocks a peer is assumed to have. -/
def updateBlockAvailability (state : CNodeState B) (hash : B) : CNodeState B :=
  let state := processBlockAvailability tree state
  if tree.mapBlockIndex.contains hash && decide (tree.nChainWork hash > 0) then
    { state with pindexBestKnownBlock := betterKnown tree state hash }
  else { state with hashLastUnknownBlock := some hash }

/-- The loop of `LastCommonAncestor`. -/
def commonLoop : Nat → Option B → Option B → Option B × Option B
  | fuel + 1, some pa, some pb =>
      if pa = pb then (some pa, some pb)
      else commonLoop fuel (tree.index.pprev pa) (tree.index.pprev pb)
  | _, pa, pb => (pa, pb)

/-- `LastCommonAncestor`, with `none` where its assertion fails or the ancestor is a
null pointer. -/
def lastCommonAncestor (pa pb : B) : Option B := do
  let height := tree.index.nHeight
  let a ←
    (if height pa > height pb then tree.index.getAncestor pa (height pb) else some pa)
  let b ←
    (if height pb > height pa then tree.index.getAncestor pb (height pa) else some pb)
  let (a, b) := commonLoop tree (height a + 1) (some a) (some b)
  if a = b then a else none

/-- The variables that the inner loop changes. -/
structure Fetch (B : Type) where
  pindexLastCommonBlock : B
  vBlocks : List B
  waitingfor : NodeId
  nodeStaller : NodeId

variable (mapBlocksInFlight : B → Option NodeId) (nodeid : NodeId) (count nWindowEnd : Nat)

/-- The loop over `vToFetch`; `true` where it returns from the function. -/
def fetchLoop : List B → Fetch B → Bool × Fetch B
  | [], w => (false, w)
  | pindex :: vToFetch, w =>
      if !tree.validTree pindex then
        -- the chain that this peer is on is invalid
        (true, w)
      else if tree.haveData pindex then
        fetchLoop vToFetch
          (if tree.nChainTx pindex ≠ 0 then { w with pindexLastCommonBlock := pindex } else w)
      else
        match mapBlocksInFlight pindex with
        | none =>
            if tree.index.nHeight pindex > nWindowEnd then
              -- the end of the window
              (true, if w.vBlocks.length = 0 ∧ w.waitingfor ≠ nodeid
                then { w with nodeStaller := w.waitingfor } else w)
            else
              let w := { w with vBlocks := w.vBlocks ++ [pindex] }
              if w.vBlocks.length = count then (true, w) else fetchLoop vToFetch w
        | some sender =>
            -- the first block that is in flight already
            fetchLoop vToFetch (if w.waitingfor = -1 then { w with waitingfor := sender } else w)

/-- `vToFetch`, filled from its last entry backwards. -/
def fillBack : Nat → B → Option (List B)
  | 0, _ => some []
  | 1, pindexWalk => some [pindexWalk]
  | i + 2, pindexWalk => do
      let pprev ← tree.index.pprev pindexWalk
      let before ← fillBack (i + 1) pprev
      some (before ++ [pindexWalk])

/-- `nToFetch`; the difference is converted to an `int`. -/
def toFetch (nMaxHeight nHeight size : Nat) : Nat :=
  min (nMaxHeight - nHeight)
    (max (Int.bmod ((count : Int) - size) (2 ^ 32)) 128).toNat

/-- `while (pindexWalk->nHeight < nMaxHeight)`, towards the best known block. -/
def walkLoop (best : B) (nMaxHeight : Nat) : Nat → B → Fetch B → Option (Fetch B)
  | 0, pindexWalk, w =>
      if tree.index.nHeight pindexWalk < nMaxHeight then none else some w
  | fuel + 1, pindexWalk, w =>
      if tree.index.nHeight pindexWalk < nMaxHeight then do
        let nToFetch := toFetch count nMaxHeight (tree.index.nHeight pindexWalk) w.vBlocks.length
        let pindexWalk ←
          tree.index.getAncestor best ((tree.index.nHeight pindexWalk + nToFetch : Nat) : Int)
        let vToFetch ← fillBack tree nToFetch pindexWalk
        match fetchLoop tree mapBlocksInFlight nodeid count nWindowEnd vToFetch w with
        | (true, w) => some w
        | (false, w) => walkLoop best nMaxHeight fuel pindexWalk w
      else some w

/-- The variables of the caller that the call changes. -/
structure Found (B : Type) where
  state : CNodeState B
  vBlocks : List B
  nodeStaller : NodeId

/-- The chain of the peer: from the first guess to the walk. -/
def fromCommon (state : CNodeState B) (start best : B) (vBlocks : List B)
    (nodeStaller : NodeId) : Option (Found B) := do
  let common ← lastCommonAncestor tree start best
  if common = best then
    return { state := { state with pindexLastCommonBlock := some common }, vBlocks, nodeStaller }
  let height := tree.index.nHeight
  let nWindowEnd := height common + BLOCK_DOWNLOAD_WINDOW
  let nMaxHeight := min (height best) (nWindowEnd + 1)
  let w ← walkLoop tree mapBlocksInFlight nodeid count nWindowEnd best nMaxHeight
    (nMaxHeight - height common) common
    { pindexLastCommonBlock := common, vBlocks, waitingfor := -1, nodeStaller }
  return {
    state := { state with pindexLastCommonBlock := some w.pindexLastCommonBlock }
    vBlocks := w.vBlocks
    nodeStaller := w.nodeStaller }

/-- Update `pindexLastCommonBlock` and add not-in-flight missing successors to
`vBlocks`, until it has at most `count` entries. -/
def findNextBlocksToDownload (chainActive : CChain B) (state : CNodeState B) (vBlocks : List B)
    (nodeStaller : NodeId) : Option (Found B) :=
  if count = 0 then some { state, vBlocks, nodeStaller }
  else
    let state := processBlockAvailability tree state
    match state.pindexBestKnownBlock with
    | none => some { state, vBlocks, nodeStaller }
    | some best => do
        let tip ← chainActive.tip
        if tree.nChainWork best < tree.nChainWork tip then
          -- this peer has nothing interesting
          return { state, vBlocks, nodeStaller }
        else
          let start ←
            (match state.pindexLastCommonBlock with
            | none => chainActive.get (min (tree.index.nHeight best : Int) chainActive.height)
            | some common => some common)
          fromCommon tree mapBlocksInFlight nodeid count state start best vBlocks nodeStaller

end Functions

/-! ## The last common ancestor -/

variable {tree : BlockTree B}

/-- The highest block that two blocks both descend from. -/
structure IsCommon (tree : BlockTree B) (a b common : B) : Prop where
  left : Ancestor tree.index.pprev common a
  right : Ancestor tree.index.pprev common b
  highest : ∀ x, Ancestor tree.index.pprev x a → Ancestor tree.index.pprev x b →
    Ancestor tree.index.pprev x common

/-- The loop ends at the common block: two blocks of one height that differ have
parents of one height, as there is one genesis block only. -/
theorem commonLoop_spec {fuel : Nat} {a b : B} (ha : a ∈ tree.mapBlockIndex)
    (hb : b ∈ tree.mapBlockIndex) (hheight : tree.index.nHeight a = tree.index.nHeight b)
    (hfuel : tree.index.nHeight a < fuel) :
    ∃ common, commonLoop tree fuel (some a) (some b) = (some common, some common) ∧
      IsCommon tree a b common := by
  have hrank := tree.inv.ranked
  induction fuel generalizing a b with
  | zero => omega
  | succ fuel ih =>
      rw [commonLoop]
      split
      · next heq =>
          subst heq
          exact ⟨a, rfl, Ancestor.refl, Ancestor.refl, fun x hx _ => hx⟩
      · next hne =>
          cases hpa : tree.index.pprev a with
          | none =>
              cases hpb : tree.index.pprev b with
              | none => exact absurd ((tree.root a ha hpa).trans (tree.root b hb hpb).symm) hne
              | some pb =>
                  have hzero := hrank.rank_none ha hpa
                  have hstep := hrank.rank_some hb hpb
                  omega
          | some pa =>
              have hstepa := hrank.rank_some ha hpa
              cases hpb : tree.index.pprev b with
              | none =>
                  have hzero := hrank.rank_none hb hpb
                  omega
              | some pb =>
                  have hstepb := hrank.rank_some hb hpb
                  rcases ih (hrank.closed ha hpa) (hrank.closed hb hpb) (by omega) (by omega)
                    with ⟨common, hloop, hcommon⟩
                  refine ⟨common, hloop, Ancestor.step hpa hcommon.left,
                    Ancestor.step hpb hcommon.right, fun x hxa hxb => ?_⟩
                  apply hcommon.highest
                  · rcases hxa.eq_or_parent with rfl | ⟨p, hp, hxp⟩
                    · exact absurd (hxb.eq_of_rank_le hrank hb (by omega)) hne
                    · rw [hpa] at hp
                      rwa [Option.some.inj hp]
                  · rcases hxb.eq_or_parent with rfl | ⟨p, hp, hxp⟩
                    · exact absurd (hxa.eq_of_rank_le hrank ha (by omega)).symm hne
                    · rw [hpb] at hp
                      rwa [Option.some.inj hp]

omit [DecidableEq B] in
/-- The higher of two blocks is brought down to the height of the other. -/
theorem bringDown_spec {a : B} (ha : a ∈ tree.mapBlockIndex) (n : Nat) :
    ∃ a', (if tree.index.nHeight a > n then tree.index.getAncestor a n else some a) = some a' ∧
      Ancestor tree.index.pprev a' a ∧
      tree.index.nHeight a' = min (tree.index.nHeight a) n := by
  split
  · next hhigh =>
      rcases CChain.getAncestor_spec tree.inv ha (Nat.le_of_lt hhigh) with ⟨a', hget, hanc, hrank⟩
      exact ⟨a', hget, hanc, by omega⟩
  · exact ⟨a, rfl, Ancestor.refl, by omega⟩

theorem lastCommonAncestor_spec {a b : B} (ha : a ∈ tree.mapBlockIndex)
    (hb : b ∈ tree.mapBlockIndex) :
    ∃ common, lastCommonAncestor tree a b = some common ∧ IsCommon tree a b common := by
  have hrank := tree.inv.ranked
  rcases bringDown_spec ha (tree.index.nHeight b) with ⟨a', ha', haa, haheight⟩
  rcases bringDown_spec hb (tree.index.nHeight a) with ⟨b', hb', hbb, hbheight⟩
  rcases commonLoop_spec (haa.mem hrank ha) (hbb.mem hrank hb) (by omega)
    (Nat.lt_succ_self _) with ⟨common, hloop, hcommon⟩
  refine ⟨common, ?_, hcommon.left.trans haa, hcommon.right.trans hbb, fun x hxa hxb => ?_⟩
  · simp only [lastCommonAncestor]
    rw [ha', hb']
    simp only [Option.bind_eq_bind, Option.bind_some, hloop, if_true]
  · have hlea := hxa.rank_le hrank ha
    have hleb := hxb.rank_le hrank hb
    exact hcommon.highest x (hxa.of_rank_le hrank haa ha (by omega))
      (hxb.of_rank_le hrank hbb hb (by omega))

/-! ## One chunk -/

omit [DecidableEq B] in
/-- `vToFetch` holds the path to its last entry. -/
theorem fillBack_spec {n : Nat} {b : B} (hb : b ∈ tree.mapBlockIndex)
    (hn : n ≤ tree.index.nHeight b + 1) :
    ∃ vToFetch, fillBack tree n b = some vToFetch ∧
      (∀ x ∈ vToFetch, Ancestor tree.index.pprev x b ∧
        tree.index.nHeight b < tree.index.nHeight x + n) ∧
      vToFetch.Pairwise (tree.index.nHeight · < tree.index.nHeight ·) := by
  have hrank := tree.inv.ranked
  induction n using Nat.strong_induction_on generalizing b with
  | _ n ih =>
      match n with
      | 0 => exact ⟨[], rfl, by simp, List.Pairwise.nil⟩
      | 1 =>
          refine ⟨[b], rfl, fun x hx => ?_, List.pairwise_singleton _ _⟩
          rw [List.mem_singleton.mp hx]
          exact ⟨Ancestor.refl, by omega⟩
      | i + 2 =>
          cases hp : tree.index.pprev b with
          | none =>
              have hzero := hrank.rank_none hb hp
              omega
          | some p =>
              have hstep := hrank.rank_some hb hp
              have hpm := hrank.closed hb hp
              rcases ih (i + 1) (by omega) hpm (by omega) with
                ⟨before, hbefore, hmem, hpairwise⟩
              refine ⟨before ++ [b], ?_, fun x hx => ?_, ?_⟩
              · rw [fillBack, hp, Option.bind_eq_bind, Option.bind_some, hbefore]
                rfl
              · rcases List.mem_append.mp hx with hx | hx
                · have hspec := hmem x hx
                  exact ⟨Ancestor.step hp hspec.1, by omega⟩
                · rw [List.mem_singleton.mp hx]
                  exact ⟨Ancestor.refl, by omega⟩
              · rw [List.pairwise_append]
                refine ⟨hpairwise, List.pairwise_singleton _ _, fun x hx y hy => ?_⟩
                rw [List.mem_singleton.mp hy]
                have hle := (hmem x hx).1.rank_le hrank hpm
                omega

/-- The call that the loops belong to. -/
structure Call (B : Type) where
  common : B
  best : B
  vBlocks : List B
  mapBlocksInFlight : B → Option NodeId
  count : Nat
  nWindowEnd : Nat

/-- A block that the peer can be asked for. -/
structure Wanted (tree : BlockTree B) (call : Call B) (x : B) : Prop where
  ancestor : Ancestor tree.index.pprev x call.best
  valid : tree.validTree x = true
  noData : tree.haveData x = false
  notInFlight : call.mapBlocksInFlight x = none
  window : tree.index.nHeight x ≤ call.nWindowEnd

/-- What the loops keep, with the blocks up to the height `n` done. -/
structure Progress (tree : BlockTree B) (call : Call B) (n : Nat) (w : Fetch B) : Prop where
  appended : ∃ more, w.vBlocks = call.vBlocks ++ more ∧
    more.Pairwise (tree.index.nHeight · < tree.index.nHeight ·) ∧
    ∀ x ∈ more, Wanted tree call x ∧ tree.index.nHeight x ≤ n
  above : Ancestor tree.index.pprev call.common w.pindexLastCommonBlock
  below : Ancestor tree.index.pprev w.pindexLastCommonBlock call.best
  moved : w.pindexLastCommonBlock = call.common ∨ tree.nChainTx w.pindexLastCommonBlock ≠ 0

section Walk

variable {call : Call B} {nodeid : NodeId} {n : Nat} {w : Fetch B}

omit [DecidableEq B] in
theorem Progress.mono (h : Progress tree call n w) {m : Nat} (hle : n ≤ m) :
    Progress tree call m w where
  appended := by
    rcases h.appended with ⟨more, hmore, hpairwise, hwanted⟩
    exact ⟨more, hmore, hpairwise, fun x hx =>
      ⟨(hwanted x hx).1, (hwanted x hx).2.trans hle⟩⟩
  above := h.above
  below := h.below
  moved := h.moved

omit [DecidableEq B] in
theorem Progress.congr (h : Progress tree call n w) {w' : Fetch B}
    (hblocks : w'.vBlocks = w.vBlocks)
    (hcommon : w'.pindexLastCommonBlock = w.pindexLastCommonBlock) :
    Progress tree call n w' where
  appended := hblocks ▸ h.appended
  above := hcommon ▸ h.above
  below := hcommon ▸ h.below
  moved := hcommon ▸ h.moved

omit [DecidableEq B] in
/-- A linked block further on becomes the common block. -/
theorem Progress.move (h : Progress tree call n w) {x : B}
    (hbest : call.best ∈ tree.mapBlockIndex)
    (hcommon : Ancestor tree.index.pprev call.common call.best)
    (hlow : tree.index.nHeight call.common ≤ n)
    (hx : Ancestor tree.index.pprev x call.best) (hnext : n < tree.index.nHeight x)
    (hlinked : tree.nChainTx x ≠ 0) :
    Progress tree call n { w with pindexLastCommonBlock := x } where
  appended := h.appended
  above := hcommon.of_rank_le tree.inv.ranked hx hbest (by
    show tree.index.nHeight call.common ≤ tree.index.nHeight x
    omega)
  below := hx
  moved := Or.inr hlinked

omit [DecidableEq B] in
theorem Progress.append (h : Progress tree call n w) {x : B} (hx : Wanted tree call x)
    (hnext : n < tree.index.nHeight x) :
    Progress tree call (tree.index.nHeight x) { w with vBlocks := w.vBlocks ++ [x] } where
  appended := by
    rcases h.appended with ⟨more, hmore, hpairwise, hwanted⟩
    refine ⟨more ++ [x], ?_, ?_, fun y hy => ?_⟩
    · show w.vBlocks ++ [x] = _
      rw [hmore, List.append_assoc]
    · rw [List.pairwise_append]
      refine ⟨hpairwise, List.pairwise_singleton _ _, fun y hy z hz => ?_⟩
      rw [List.mem_singleton.mp hz]
      exact (hwanted y hy).2.trans_lt hnext
    · rcases List.mem_append.mp hy with hy | hy
      · exact ⟨(hwanted y hy).1, (hwanted y hy).2.trans (Nat.le_of_lt hnext)⟩
      · rw [List.mem_singleton.mp hy]
        exact ⟨hx, Nat.le_refl _⟩
  above := h.above
  below := h.below
  moved := h.moved

omit [DecidableEq B] in
/-- **One chunk.**  Going over blocks of the peer's path in increasing height keeps
the progress, with at most `count` blocks, and fewer where the function goes
on. -/
theorem fetchLoop_spec (nodeid : NodeId) (hbest : call.best ∈ tree.mapBlockIndex)
    (hcommon : Ancestor tree.index.pprev call.common call.best) {vToFetch : List B} {m : Nat}
    (h : Progress tree call n w) (hlow : tree.index.nHeight call.common ≤ n)
    (hroom : w.vBlocks.length < call.count)
    (hpath : ∀ x ∈ vToFetch, Ancestor tree.index.pprev x call.best ∧
      n < tree.index.nHeight x ∧ tree.index.nHeight x ≤ m)
    (hpairwise : vToFetch.Pairwise (tree.index.nHeight · < tree.index.nHeight ·)) (hnm : n ≤ m) :
    let r := fetchLoop tree call.mapBlocksInFlight nodeid call.count call.nWindowEnd vToFetch w
    Progress tree call m r.2 ∧ r.2.vBlocks.length ≤ call.count ∧
      (r.1 = false → r.2.vBlocks.length < call.count) := by
  induction vToFetch generalizing n w with
  | nil => exact ⟨h.mono hnm, Nat.le_of_lt hroom, fun _ => hroom⟩
  | cons pindex vToFetch ih =>
      have hx := hpath pindex List.mem_cons_self
      rw [List.pairwise_cons] at hpairwise
      have hrest : ∀ x ∈ vToFetch, Ancestor tree.index.pprev x call.best ∧
          n < tree.index.nHeight x ∧ tree.index.nHeight x ≤ m :=
        fun x hx => hpath x (List.mem_cons_of_mem _ hx)
      have hstop : ∀ w' : Fetch B, w'.vBlocks = w.vBlocks →
          w'.pindexLastCommonBlock = w.pindexLastCommonBlock →
          Progress tree call m w' ∧ w'.vBlocks.length ≤ call.count ∧
            (true = false → w'.vBlocks.length < call.count) := by
        intro w' hblocks hsame
        refine ⟨(h.congr hblocks hsame).mono hnm, ?_, fun htrue => by cases htrue⟩
        rw [hblocks]
        exact Nat.le_of_lt hroom
      simp only [fetchLoop]
      split
      · exact hstop w rfl rfl
      · next hvalid =>
          split
          · -- the data is there
            split
            · next hlinked =>
                exact ih (h.move hbest hcommon hlow hx.1 hx.2.1 hlinked) hlow hroom hrest
                  hpairwise.2 hnm
            · exact ih h hlow hroom hrest hpairwise.2 hnm
          · next hdata =>
              split
              · next hflight =>
                  split
                  · split
                    · exact hstop _ rfl rfl
                    · exact hstop w rfl rfl
                  · next hwindow =>
                      have hwanted : Wanted tree call pindex :=
                        ⟨hx.1, by simpa using hvalid, by simpa using hdata, hflight, by omega⟩
                      have happend := h.append hwanted hx.2.1
                      have hlength : (w.vBlocks ++ [pindex]).length = w.vBlocks.length + 1 :=
                        List.length_append
                      split
                      · next hfull =>
                          exact ⟨happend.mono hx.2.2, Nat.le_of_eq hfull,
                            fun htrue => by cases htrue⟩
                      · next hmore =>
                          apply ih happend (hlow.trans (Nat.le_of_lt hx.2.1)) _ _
                            hpairwise.2 hx.2.2
                          · show (w.vBlocks ++ [pindex]).length < call.count
                            omega
                          · exact fun x hx => ⟨(hrest x hx).1, hpairwise.1 x hx, (hrest x hx).2.2⟩
              · -- in flight already
                split
                · exact ih (h.congr rfl rfl) hlow hroom hrest hpairwise.2 hnm
                · exact ih h hlow hroom hrest hpairwise.2 hnm

omit [DecidableEq B] in
/-- **The walk** ends, and keeps the progress. -/
theorem walkLoop_spec (nodeid : NodeId) (hbest : call.best ∈ tree.mapBlockIndex)
    (hcommon : Ancestor tree.index.pprev call.common call.best) {nMaxHeight : Nat} (fuel : Nat)
    {pindexWalk : B} (hmax : nMaxHeight ≤ tree.index.nHeight call.best)
    (hfuel : nMaxHeight ≤ tree.index.nHeight pindexWalk + fuel)
    (h : Progress tree call (tree.index.nHeight pindexWalk) w)
    (hlow : tree.index.nHeight call.common ≤ tree.index.nHeight pindexWalk)
    (hroom : w.vBlocks.length < call.count) :
    ∃ w' m, walkLoop tree call.mapBlocksInFlight nodeid call.count call.nWindowEnd call.best
        nMaxHeight fuel pindexWalk w = some w' ∧
      Progress tree call m w' ∧ w'.vBlocks.length ≤ call.count := by
  have hrank := tree.inv.ranked
  induction fuel generalizing pindexWalk w with
  | zero =>
      rw [walkLoop, if_neg (by omega)]
      exact ⟨w, _, rfl, h, Nat.le_of_lt hroom⟩
  | succ fuel ih =>
      rw [walkLoop]
      split
      · next hgo =>
          have hchunk : toFetch call.count nMaxHeight (tree.index.nHeight pindexWalk)
                w.vBlocks.length ≤ nMaxHeight - tree.index.nHeight pindexWalk ∧
              0 < toFetch call.count nMaxHeight (tree.index.nHeight pindexWalk)
                w.vBlocks.length := by
            unfold toFetch
            omega
          dsimp only
          generalize toFetch call.count nMaxHeight (tree.index.nHeight pindexWalk)
            w.vBlocks.length = nToFetch at hchunk ⊢
          rcases CChain.getAncestor_spec tree.inv hbest
            (show tree.index.nHeight pindexWalk + nToFetch ≤ tree.index.nHeight call.best by
              omega) with ⟨a, hget, hanc, harank⟩
          have ham := hanc.mem hrank hbest
          rcases fillBack_spec ham (show nToFetch ≤ tree.index.nHeight a + 1 by omega) with
            ⟨vToFetch, hfill, hmem, hpairwise⟩
          rw [hget, Option.bind_eq_bind, Option.bind_some, hfill, Option.bind_eq_bind,
            Option.bind_some]
          have hpath : ∀ x ∈ vToFetch, Ancestor tree.index.pprev x call.best ∧
              tree.index.nHeight pindexWalk < tree.index.nHeight x ∧
              tree.index.nHeight x ≤ tree.index.nHeight a := by
            intro x hx
            have hx' := hmem x hx
            exact ⟨hx'.1.trans hanc, by omega, hx'.1.rank_le hrank ham⟩
          have hspec := fetchLoop_spec nodeid hbest hcommon h hlow hroom hpath hpairwise
            (by omega)
          cases hr : fetchLoop tree call.mapBlocksInFlight nodeid call.count call.nWindowEnd
              vToFetch w with
          | mk returned w' =>
              rw [hr] at hspec
              cases returned with
              | true => exact ⟨w', _, rfl, hspec.1, hspec.2.1⟩
              | false => exact ih (by omega) hspec.1 (by omega) (hspec.2.2 rfl)
      · exact ⟨w, _, rfl, h, Nat.le_of_lt hroom⟩

end Walk

/-! ## The call -/

/-- The peer's pointers lead into the block index. -/
structure CNodeState.Indexed (tree : BlockTree B) (state : CNodeState B) : Prop where
  best : ∀ b, state.pindexBestKnownBlock = some b → b ∈ tree.mapBlockIndex
  common : ∀ b, state.pindexLastCommonBlock = some b → b ∈ tree.mapBlockIndex

/-- What a call picks, and where it leaves the common block. -/
structure Picked (tree : BlockTree B) (call : Call B) (more : List B) (last : B) : Prop where
  increasing : (more.map tree.index.nHeight).Pairwise (· < ·)
  wanted : ∀ x ∈ more, Wanted tree call x
  above : Ancestor tree.index.pprev call.common last
  below : Ancestor tree.index.pprev last call.best
  /-- Every block it moved past has data and is linked. -/
  moved : ∀ x, Ancestor tree.index.pprev call.common x → x ≠ call.common →
    Ancestor tree.index.pprev x last → tree.haveData x = true ∧ tree.nChainTx x ≠ 0

omit [DecidableEq B] in
/-- Below a linked block everything has data and is linked. -/
theorem linked_ancestor {a b : B} (h : Ancestor tree.index.pprev a b)
    (hb : b ∈ tree.mapBlockIndex) (hlinked : tree.nChainTx b ≠ 0) :
    tree.haveData a = true ∧ tree.nChainTx a ≠ 0 := by
  induction h with
  | refl => exact ⟨(tree.linked _ hb hlinked).1, hlinked⟩
  | step hp _ ih =>
      exact ih (tree.inv.ranked.closed hb hp) ((tree.linked _ hb hlinked).2 _ hp)

omit [DecidableEq B] in
theorem Progress.picked {call : Call B} {n : Nat} {w : Fetch B}
    (h : Progress tree call n w) (hbest : call.best ∈ tree.mapBlockIndex) :
    ∃ more, w.vBlocks = call.vBlocks ++ more ∧
      Picked tree call more w.pindexLastCommonBlock := by
  have hrank := tree.inv.ranked
  have hlast := h.below.mem hrank hbest
  rcases h.appended with ⟨more, hmore, hpairwise, hwanted⟩
  refine ⟨more, hmore, List.pairwise_map.mpr hpairwise, fun x hx => (hwanted x hx).1,
    h.above, h.below, fun x habove hne hbelow => ?_⟩
  rcases h.moved with hsame | hlinked
  · rw [hsame] at hbelow hlast
    have hle := habove.rank_le hrank (hbelow.mem hrank hlast)
    exact absurd (hbelow.eq_of_rank_le hrank hlast hle) hne
  · exact linked_ancestor hbelow hlast hlinked

/-- The part of the call behind the checks. -/
theorem fromCommon_spec (state : CNodeState B) {start best : B}
    (hstart : start ∈ tree.mapBlockIndex) (hbest : best ∈ tree.mapBlockIndex)
    (mapBlocksInFlight : B → Option NodeId) (nodeid : NodeId) {count : Nat} {vBlocks : List B}
    (hroom : vBlocks.length < count) (nodeStaller : NodeId) :
    ∃ found more common last,
      fromCommon tree mapBlocksInFlight nodeid count state start best vBlocks nodeStaller =
        some found ∧
      found.vBlocks = vBlocks ++ more ∧ more.length ≤ count ∧
      found.state = { state with pindexLastCommonBlock := some last } ∧
      IsCommon tree start best common ∧
      Picked tree { common, best, vBlocks, mapBlocksInFlight, count
                    nWindowEnd := tree.index.nHeight common + BLOCK_DOWNLOAD_WINDOW }
        more last := by
  have hrank := tree.inv.ranked
  rcases lastCommonAncestor_spec hstart hbest with ⟨common, hlca, hcommon⟩
  let call : Call B :=
    { common, best, vBlocks, mapBlocksInFlight, count
      nWindowEnd := tree.index.nHeight common + BLOCK_DOWNLOAD_WINDOW }
  have hinitial : ∀ waitingfor, Progress tree call (tree.index.nHeight common)
      { pindexLastCommonBlock := common, vBlocks, waitingfor, nodeStaller } := fun waitingfor =>
    ⟨⟨[], (List.append_nil _).symm, List.Pairwise.nil, fun x hx => absurd hx List.not_mem_nil⟩,
      Ancestor.refl, hcommon.right, Or.inl rfl⟩
  simp only [fromCommon, hlca, Option.bind_eq_bind, Option.bind_some]
  split
  · -- the peer has nothing beyond the common block
    rcases (hinitial (-1)).picked hbest with ⟨more, hmore, hpicked⟩
    have hnil : more = [] := List.self_eq_append_right.mp hmore
    subst hnil
    exact ⟨_, [], common, common, rfl, hmore, Nat.zero_le _, rfl, hcommon, hpicked⟩
  · have hle := hcommon.right.rank_le hrank hbest
    generalize hmax : min (tree.index.nHeight best)
      (tree.index.nHeight common + BLOCK_DOWNLOAD_WINDOW + 1) = nMaxHeight
    have hmaxle : nMaxHeight ≤ tree.index.nHeight best := hmax ▸ Nat.min_le_left _ _
    rcases walkLoop_spec nodeid (show call.best ∈ tree.mapBlockIndex from hbest) hcommon.right
      (nMaxHeight - tree.index.nHeight common) hmaxle (by omega) (hinitial (-1)) (Nat.le_refl _)
      hroom with
      ⟨w, m, hwalk, hprogress, hlength⟩
    rcases hprogress.picked hbest with ⟨more, hmore, hpicked⟩
    have hcount : more.length ≤ count := by
      have hsum : w.vBlocks.length = vBlocks.length + more.length := by
        rw [hmore, List.length_append]
      exact (by omega : more.length ≤ w.vBlocks.length).trans hlength
    refine ⟨{ state := { state with pindexLastCommonBlock := some w.pindexLastCommonBlock }
              vBlocks := w.vBlocks
              nodeStaller := w.nodeStaller }, more, common, w.pindexLastCommonBlock, ?_, hmore,
      hcount, rfl, hcommon, hpicked⟩
    rw [hwalk]
    rfl

omit [DecidableEq B] in
theorem betterKnown_mem {state : CNodeState B} (h : state.Indexed tree) {b : B}
    (hb : b ∈ tree.mapBlockIndex) {best : B} (hbest : betterKnown tree state b = some best) :
    best ∈ tree.mapBlockIndex := by
  unfold betterKnown at hbest
  split at hbest
  · rwa [← Option.some.inj hbest]
  · next old hold =>
      split at hbest
      · rwa [← Option.some.inj hbest]
      · rw [← Option.some.inj hbest]
        exact h.best old hold

theorem CNodeState.Indexed.processBlockAvailability {state : CNodeState B}
    (h : state.Indexed tree) :
    (processBlockAvailability tree state).Indexed tree ∧
      (NextBlocks.processBlockAvailability tree state).pindexLastCommonBlock =
        state.pindexLastCommonBlock := by
  unfold NextBlocks.processBlockAvailability
  split
  · exact ⟨h, rfl⟩
  · split
    · next hknown =>
        have hmem := (Bool.and_eq_true_iff.mp hknown).1
        exact ⟨⟨fun b hb => betterKnown_mem h (by simpa using hmem) hb, h.common⟩, rfl⟩
    · exact ⟨h, rfl⟩

omit [DecidableEq B] in
/-- The block that the search for the common block starts from. -/
theorem CNodeState.Indexed.exists_start {state : CNodeState B} (h : state.Indexed tree)
    {chainActive : CChain B} {tip : B} (htip : tip ∈ tree.mapBlockIndex)
    (hc : chainActive.vChain = CChain.chainTo tree.index (some tip)) (best : B) :
    ∃ start, start ∈ tree.mapBlockIndex ∧
      (match state.pindexLastCommonBlock with
        | none => chainActive.get (min (tree.index.nHeight best : Int) chainActive.height)
        | some common => some common) = some start ∧
      (state.pindexLastCommonBlock = some start ∨
        state.pindexLastCommonBlock = none ∧
          chainActive.get (min (tree.index.nHeight best : Int) (tree.index.nHeight tip)) =
            some start) := by
  have hrank := tree.inv.ranked
  have htipc : ∀ t, some tip = some t → t ∈ tree.mapBlockIndex := by
    rintro t ⟨⟩
    exact htip
  cases hcommon : state.pindexLastCommonBlock with
  | some common => exact ⟨common, h.common common hcommon, rfl, Or.inl rfl⟩
  | none =>
      -- the active chain at the height of the best known block, or its tip
      rcases exists_ancestor hrank htip (Nat.min_le_right (tree.index.nHeight best) _) with
        ⟨a, hat, harank⟩
      have hget := (CChain.get_eq_some_iff hrank hc htipc).mpr ⟨tip, rfl, hat, harank⟩
      have hheight : chainActive.height = tree.index.nHeight tip := by
        rw [CChain.height, hc, CChain.chainTo, List.length_map, CChain.length_path hrank htip]
        omega
      have hmin : min (tree.index.nHeight best : Int) (tree.index.nHeight tip) =
          ((min (tree.index.nHeight best) (tree.index.nHeight tip) : Nat) : Int) := by
        omega
      rw [hheight, hmin]
      exact ⟨a, hat.mem hrank htip, hget, Or.inr ⟨rfl, hget⟩⟩

/-- **What a call does.**  It ends without a null pointer.  Where the peer has
nothing interesting it picks nothing and leaves the common block; else it picks
at most `count` blocks towards the best known block, and the common block is an
ancestor of that block again, with everything it moved past linked. -/
theorem findNextBlocksToDownload_spec (tree : BlockTree B) (tips : List (Option B))
    (htips : ∀ b, some b ∈ tips → b ∈ tree.mapBlockIndex) (tip : B)
    (htip : CChain.currentTip tips = some tip) (mapBlocksInFlight : B → Option NodeId)
    (nodeid : NodeId) (count : Nat) (state : CNodeState B) (hstate : state.Indexed tree)
    (vBlocks : List B) (hroom : count ≠ 0 → vBlocks.length < count) (nodeStaller : NodeId) :
    let chainActive := CChain.afterTips tree.index tips
    let known := (processBlockAvailability tree state).pindexBestKnownBlock
    ∃ found more,
      findNextBlocksToDownload tree mapBlocksInFlight nodeid count chainActive state vBlocks
        nodeStaller = some found ∧
      found.vBlocks = vBlocks ++ more ∧ more.length ≤ count ∧
      ((count = 0 ∨ ∀ best, known = some best → tree.nChainWork best < tree.nChainWork tip) →
        more = [] ∧ found.state.pindexLastCommonBlock = state.pindexLastCommonBlock) ∧
      (count ≠ 0 → ∀ best, known = some best →
        tree.nChainWork tip ≤ tree.nChainWork best →
        found.state.pindexBestKnownBlock = some best ∧
        ∃ start common last,
          (state.pindexLastCommonBlock = some start ∨
            state.pindexLastCommonBlock = none ∧
              chainActive.get (min (tree.index.nHeight best : Int) (tree.index.nHeight tip)) =
                some start) ∧
          IsCommon tree start best common ∧
          found.state.pindexLastCommonBlock = some last ∧
          Picked tree { common, best, vBlocks, mapBlocksInFlight, count
                        nWindowEnd := tree.index.nHeight common + BLOCK_DOWNLOAD_WINDOW }
            more last) := by
  intro chainActive known
  have hrank := tree.inv.ranked
  have htipm := CChain.currentTip_mem htips tip htip
  have hc : chainActive.vChain = CChain.chainTo tree.index (some tip) :=
    htip ▸ CChain.afterTips_eq hrank tips htips
  have htipc : ∀ t, some tip = some t → t ∈ tree.mapBlockIndex := by
    rintro t ⟨⟩
    exact htipm
  have hprocessed := hstate.processBlockAvailability
  rw [findNextBlocksToDownload]
  by_cases hcount : count = 0
  · rw [if_pos hcount]
    exact ⟨_, [], rfl, (List.append_nil _).symm, Nat.zero_le _, fun _ => ⟨rfl, rfl⟩,
      fun hne => absurd hcount hne⟩
  rw [if_neg hcount]
  dsimp only
  cases hknown : (processBlockAvailability tree state).pindexBestKnownBlock with
  | none =>
      have hknown' : known = none := hknown
      refine ⟨_, [], rfl, (List.append_nil _).symm, Nat.zero_le _,
        fun _ => ⟨rfl, hprocessed.2⟩, fun _ best hbest => ?_⟩
      rw [hknown'] at hbest
      cases hbest
  | some best =>
      have hknown' : known = some best := hknown
      have hbestm := hprocessed.1.best best hknown
      have htipeq : chainActive.tip = some tip := CChain.tip_eq hrank hc htipc
      simp only [htipeq, Option.bind_eq_bind, Option.bind_some]
      by_cases hwork : tree.nChainWork best < tree.nChainWork tip
      · rw [if_pos hwork]
        refine ⟨_, [], rfl, (List.append_nil _).symm, Nat.zero_le _,
          fun _ => ⟨rfl, hprocessed.2⟩, fun _ best' hbest' hle => ?_⟩
        rw [hknown', Option.some.injEq] at hbest'
        rw [← hbest'] at hle
        omega
      rw [if_neg hwork]
      rcases hstate.exists_start htipm hc best with ⟨start, hstartm, hstart, hfrom⟩
      rw [hprocessed.2, hstart, Option.bind_some]
      rcases fromCommon_spec (processBlockAvailability tree state) hstartm hbestm
        mapBlocksInFlight nodeid (hroom hcount) nodeStaller with
        ⟨found, more, common, last, hfound, hblocks, hlength, hresult, hcommon, hpicked⟩
      refine ⟨found, more, hfound, hblocks, hlength, fun hnothing => ?_,
        fun _ best' hbest' _ => ?_⟩
      · rcases hnothing with hzero | hless
        · exact absurd hzero hcount
        · exact absurd (hless best hknown') hwork
      · rw [hknown', Option.some.injEq] at hbest'
        subst hbest'
        rw [hresult]
        exact ⟨hknown, start, common, last, hfrom, hcommon, rfl, hpicked⟩

/-! ## The trees of runs -/

section Runs

variable {P : Type} [LinearOrder P] {g : P} {s : State P}

theorem good_linked (h : State.Good g s) (b : P) (hb : b ∈ s.mapBlockIndex)
    (hlinked : (s.index b).nChainTx ≠ 0) :
    (s.index b).haveData = true ∧ ∀ p, s.parent b = some p → (s.index p).nChainTx ≠ 0 :=
  h.linking.sound b hb hlinked

/-- The block index of a run, with its skip pointers, is a block tree. -/
def BlockTree.ofGood (h : State.Good g s) (pskip : P → Option P)
    (hskip : ∀ b ∈ s.mapBlockIndex,
      SkipPointers.SkipRight s.parent pskip s.height getSkipHeight b) : BlockTree P where
  index := { pprev := s.parent, pskip, nHeight := s.height }
  mapBlockIndex := s.mapBlockIndex
  nChainWork := fun b => (s.index b).nChainWork
  validTree := fun b => !(s.index b).failed
  haveData := fun b => (s.index b).haveData
  nChainTx := fun b => (s.index b).nChainTx
  genesis := g
  inv := ⟨h.linking.tree, hskip⟩
  root := h.root
  linked := good_linked h

end Runs

/-! ## A peer that is behind -/

theorem forked_root : ∀ b ∈ [3, 2, 1, 0], SkipIndex.forked.pprev b = none → b = 0 := by
  decide

theorem forked_allLinked : ∀ b ∈ [3, 2, 1, 0], 1 ≠ 0 →
    true = true ∧ ∀ p, SkipIndex.forked.pprev b = some p → 1 ≠ 0 :=
  fun _ _ _ => ⟨rfl, fun _ _ => Nat.one_ne_zero⟩

/-- The blocks 1 and 2 on top of the genesis block 0, and 3 on top of 2, all of
them linked; every block adds the same work. -/
def forkedTree : BlockTree Nat where
  index := SkipIndex.forked
  mapBlockIndex := [3, 2, 1, 0]
  nChainWork := fun b => SkipIndex.forked.nHeight b + 1
  validTree := fun _ => true
  haveData := fun _ => true
  nChainTx := fun _ => 1
  genesis := 0
  inv := SkipIndex.built_forked.inv
  root := forked_root
  linked := forked_allLinked

/-- A peer that announced 2, was asked for blocks while the genesis block was our
tip, and then announced 1. -/
def behindPeer : CNodeState Nat :=
  let asked := findNextBlocksToDownload forkedTree (fun _ => none) 0 16
    (CChain.afterTips forkedTree.index [some 0]) (updateBlockAvailability forkedTree {} 2) [] (-1)
  updateBlockAvailability forkedTree ((asked.map Found.state).getD {}) 1

theorem behindPeer_eq : behindPeer =
    { pindexBestKnownBlock := some 1, pindexLastCommonBlock := some 2 } :=
  rfl

theorem behindPeer_indexed : behindPeer.Indexed forkedTree := by
  rw [behindPeer_eq]
  constructor
  · rintro b ⟨⟩
    decide
  · rintro b ⟨⟩
    decide

/-- With 3 as our tip the peer has nothing interesting, and its common block stays
2, which is not on the chain of 1. -/
theorem lastCommonBlock_kept_behind :
    ¬ ∀ (tree : BlockTree Nat) (tips : List (Option Nat)) (tip : Nat)
      (mapBlocksInFlight : Nat → Option NodeId) (nodeid : NodeId) (count : Nat)
      (state : CNodeState Nat) (nodeStaller : NodeId) (found : Found Nat),
      (∀ b, some b ∈ tips → b ∈ tree.mapBlockIndex) → CChain.currentTip tips = some tip →
      state.Indexed tree →
      findNextBlocksToDownload tree mapBlocksInFlight nodeid count
        (CChain.afterTips tree.index tips) state [] nodeStaller = some found →
      ∀ best last, found.state.pindexBestKnownBlock = some best →
        found.state.pindexLastCommonBlock = some last →
        Ancestor tree.index.pprev last best := by
  intro h
  have hanc := h forkedTree [some 0, some 3] 3 (fun _ => none) 0 16 behindPeer (-1)
    { state := behindPeer, vBlocks := [], nodeStaller := -1 } (by simp [forkedTree]) rfl
    behindPeer_indexed rfl 1 2 rfl rfl
  rcases hanc.eq_or_parent with heq | ⟨p, hp, hanc⟩
  · cases heq
  · have hzero : p = 0 := by
      have hparent : forkedTree.index.pprev 1 = some 0 := rfl
      exact (Option.some.inj (hparent.symm.trans hp)).symm
    subst hzero
    rcases hanc.eq_or_parent with heq | ⟨q, hq, -⟩
    · cases heq
    · have hroot : forkedTree.index.pprev 0 = none := rfl
      rw [hroot] at hq
      cases hq

theorem headers_linked : ∀ b ∈ [3, 2, 1, 0], (if b = 0 then 1 else 0) ≠ 0 →
    decide (b = 0) = true ∧
      ∀ p, SkipIndex.forked.pprev b = some p → (if p = 0 then 1 else 0) ≠ 0 := by
  intro b _ hb
  have hzero : b = 0 := by
    by_contra hne
    rw [if_neg hne] at hb
    exact hb rfl
  subst hzero
  exact ⟨rfl, fun p hp => by cases hp⟩

/-- The same blocks; only the genesis block has data. -/
def headersTree : BlockTree Nat where
  index := SkipIndex.forked
  mapBlockIndex := [3, 2, 1, 0]
  nChainWork := fun b => SkipIndex.forked.nHeight b + 1
  validTree := fun _ => true
  haveData := fun b => decide (b = 0)
  nChainTx := fun b => if b = 0 then 1 else 0
  genesis := 0
  inv := SkipIndex.built_forked.inv
  root := forked_root
  linked := headers_linked

theorem announced_indexed : CNodeState.Indexed headersTree { pindexBestKnownBlock := some 3 } := by
  constructor
  · rintro b ⟨⟩
    decide
  · rintro b ⟨⟩

theorem findNextBlocksToDownload_spec_headers :
    ∃ found more, findNextBlocksToDownload headersTree (fun _ => none) 0 16
        (CChain.afterTips headersTree.index [some 0]) { pindexBestKnownBlock := some 3 } [] (-1) =
          some found ∧
      found.vBlocks = more ∧ more.length ≤ 16 := by
  rcases findNextBlocksToDownload_spec headersTree [some 0] (by simp [headersTree]) 0 rfl
    (fun _ => none) 0 16
    { pindexBestKnownBlock := some 3 } announced_indexed [] (by decide) (-1) with
    ⟨found, more, hfound, hblocks, hlength, -⟩
  exact ⟨found, more, hfound, hblocks, hlength⟩

example :
    (findNextBlocksToDownload headersTree (fun _ => none) 0 16
      (CChain.afterTips headersTree.index [some 0]) { pindexBestKnownBlock := some 3 } []
      (-1)).map Found.vBlocks = some [2, 3] := by
  decide

end Agrarian.Net.NextBlocks
