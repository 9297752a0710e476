import Agrarian.Validation.ConnectBlock
import Agrarian.Lib.KeyedMap

/-!
# Stake modifiers

`AddToBlockIndex` gives each block of the index a stake modifier, which
`ComputeNextStakeModifier` computes from the entries of its ancestors.

The entries here hold what the stake modifier and the kernel check read of a
`CBlockIndex`.  A pointer to an entry is the entry with those that its `pprev`
leads to: once an entry is in the index, none of these fields changes.  The
hash of a selection is a parameter.

The modifier of the block at height 3 is the address of a string literal,
converted to an integer.  That address is a constant of the running process,
and here the parameter `stakemodifier`.
-/

namespace Agrarian.Stake

open Agrarian.Lib Agrarian.Validation

/-- A block with the fields of its header that stakes depend on. -/
structure StakeBlock extends CBlock where
  nVersion : Int32 := 5
  nTime : UInt32
  nBits : UInt32 := 0
  nAccumulatorCheckpoint : Uint256 := 0
  deriving DecidableEq, Repr

structure CBlockIndex where
  hash : Uint256
  nHeight : Int := 0
  nTime : UInt32
  nAccumulatorCheckpoint : Uint256 := 0
  fProofOfStake : Bool
  nStakeModifier : UInt64 := 0
  fGeneratedStakeModifier : Bool := false
  deriving DecidableEq, Repr

namespace CBlockIndex

/-- `CBlockIndex(block)`, with the hash that the map gives it. -/
def ofBlock (block : StakeBlock) : CBlockIndex where
  hash := block.hash
  nTime := block.nTime
  nAccumulatorCheckpoint :=
    if block.nVersion > 3 then block.nAccumulatorCheckpoint else 0
  fProofOfStake := isProofOfStake block.toCBlock

def getBlockTime (pindex : CBlockIndex) : Int := pindex.nTime.toNat

def getStakeEntropyBit (pindex : CBlockIndex) : UInt64 :=
  if pindex.hash.getLsbD 0 then 1 else 0

/-- The entry without what is computed when it is added. -/
def blockData (pindex : CBlockIndex) : CBlockIndex :=
  { pindex with
    nHeight := 0, nStakeModifier := 0, fGeneratedStakeModifier := false }

end CBlockIndex

/-! ## `ComputeNextStakeModifier` -/

def MODIFIER_INTERVAL : Int := 60
def MODIFIER_INTERVAL_RATIO : Nat := 3

/-- `ModifierUpgradeBlock`, on every network. -/
def nModifierUpdateBlock : Int := 2

/-- `none` where no modifier was generated, up to the genesis block. -/
def getLastStakeModifier : List CBlockIndex → Option (UInt64 × Int)
  | [] => none
  | pindex :: rest =>
      if pindex.fGeneratedStakeModifier then
        some (pindex.nStakeModifier, pindex.getBlockTime)
      else getLastStakeModifier rest

def getStakeModifierSelectionIntervalSection (nSection : Nat) : Int :=
  let nWeight := MODIFIER_INTERVAL_RATIO - 1
  MODIFIER_INTERVAL * 63 / (63 + (63 - nSection) * nWeight : Nat)

def getStakeModifierSelectionInterval : Int :=
  ((List.range 64).map getStakeModifierSelectionIntervalSection).sum

/-- `pair<int64_t, uint256>`, compared as the pair is. -/
def candidateLe (a b : Int × Uint256) : Bool :=
  a.1 < b.1 || (a.1 = b.1 && a.2 ≤ b.2)

section Modifier

variable (selectionHash : Uint256 → UInt64 → Uint256)
variable (mapBlockIndex : Uint256 → Option CBlockIndex)

/-- The hash that decides about a candidate. -/
def hashSelection (fModifierV2 : Bool) (nStakeModifierPrev : UInt64)
    (pindex : CBlockIndex) : Uint256 :=
  let hashProof :=
    if fModifierV2 then pindex.hash
    else if pindex.fProofOfStake then 0
    else pindex.hash
  let hash := selectionHash hashProof nStakeModifierPrev
  -- selection favors proof of stake
  if pindex.fProofOfStake then hash >>> 32 else hash

/-- The loop of `SelectBlockFromCandidates`, with the best candidate so far;
`none` where a block is not in the index. -/
def selectFrom (fModifierV2 : Bool) (selected : List Uint256)
    (nSelectionIntervalStop : Int) (nStakeModifierPrev : UInt64) :
    List (Int × Uint256) → Option (Uint256 × CBlockIndex) →
      Option (Option (Uint256 × CBlockIndex))
  | [], best => some best
  | item :: rest, best =>
      match mapBlockIndex item.2 with
      | none => none
      | some pindex =>
          if best.isSome ∧ nSelectionIntervalStop < pindex.getBlockTime then
            some best
          else if pindex.hash ∈ selected then
            selectFrom fModifierV2 selected nSelectionIntervalStop
              nStakeModifierPrev rest best
          else
            let hash := hashSelection selectionHash fModifierV2
              nStakeModifierPrev pindex
            selectFrom fModifierV2 selected nSelectionIntervalStop
              nStakeModifierPrev rest
              (match best with
              | none => some (hash, pindex)
              | some (hashBest, pindexSelected) =>
                  if hash < hashBest then some (hash, pindex)
                  else some (hashBest, pindexSelected))

/-- `none` where the source returns `false`. -/
def selectBlockFromCandidates (vSortedByTimestamp : List (Int × Uint256))
    (selected : List Uint256) (nSelectionIntervalStop : Int)
    (nStakeModifierPrev : UInt64) : Option CBlockIndex :=
  -- decided by the first block that is looked at
  let fModifierV2 :=
    match vSortedByTimestamp.head? with
    | none => false
    | some item =>
        ((mapBlockIndex item.2).map fun pindex =>
          decide (nModifierUpdateBlock ≤ pindex.nHeight)).getD false
  match selectFrom selectionHash mapBlockIndex fModifierV2 selected
      nSelectionIntervalStop nStakeModifierPrev vSortedByTimestamp none with
  | some (some (_, pindexSelected)) => some pindexSelected
  | _ => none

/-- The rounds of the selection from number `nRound` on. -/
def selectRounds (vSortedByTimestamp : List (Int × Uint256))
    (nStakeModifierPrev : UInt64) :
    Nat → Nat → Int → List Uint256 → UInt64 → Option UInt64
  | 0, _, _, _, nStakeModifierNew => some nStakeModifierNew
  | rounds + 1, nRound, nSelectionIntervalStop, selected,
      nStakeModifierNew =>
      let nSelectionIntervalStop := nSelectionIntervalStop +
        getStakeModifierSelectionIntervalSection nRound
      match selectBlockFromCandidates selectionHash mapBlockIndex
          vSortedByTimestamp selected nSelectionIntervalStop
          nStakeModifierPrev with
      | none => none
      | some pindex =>
          selectRounds vSortedByTimestamp nStakeModifierPrev rounds
            (nRound + 1) nSelectionIntervalStop (pindex.hash :: selected)
            (nStakeModifierNew |||
              (pindex.getStakeEntropyBit <<< nRound.toUInt64))

/-- The candidates: blocks of the chain from the start of the interval on. -/
def candidates (chain : List CBlockIndex) (nSelectionIntervalStart : Int) :
    List (Int × Uint256) :=
  ((chain.takeWhile fun pindex =>
      nSelectionIntervalStart ≤ pindex.getBlockTime).map
    fun pindex => (pindex.getBlockTime, pindex.hash)).reverse.mergeSort
      candidateLe

variable (stakemodifier : UInt64)

/-- The modifier of the block after `pindexPrev`, the head of the chain, and
whether it was generated; what the arguments hold when the function fails is
used all the same. -/
def computeNextStakeModifier (chain : List CBlockIndex) : UInt64 × Bool :=
  match chain with
  | [] => (0, true)
  | pindexPrev :: _ =>
      -- give a stake modifier to the first block
      if pindexPrev.nHeight = 2 then (stakemodifier, true)
      else
        match getLastStakeModifier chain with
        | none => (0, false)
        | some (nStakeModifier, nModifierTime) =>
            if pindexPrev.getBlockTime / MODIFIER_INTERVAL ≤
                nModifierTime / MODIFIER_INTERVAL then
              (nStakeModifier, false)
            else
              let nSelectionIntervalStart :=
                pindexPrev.getBlockTime / MODIFIER_INTERVAL *
                  MODIFIER_INTERVAL - getStakeModifierSelectionInterval
              let vSortedByTimestamp :=
                candidates chain nSelectionIntervalStart
              match selectRounds selectionHash mapBlockIndex
                  vSortedByTimestamp nStakeModifier
                  (min 64 vSortedByTimestamp.length) 0
                  nSelectionIntervalStart [] 0 with
              | none => (nStakeModifier, false)
              | some nStakeModifierNew => (nStakeModifierNew, true)

end Modifier

/-! ## `AddToBlockIndex` -/

/-- An entry with those that `pprev` leads to. -/
structure IndexEntry where
  pindex : CBlockIndex
  pprevs : List CBlockIndex

def IndexEntry.chain (entry : IndexEntry) : List CBlockIndex :=
  entry.pindex :: entry.pprevs

abbrev BlockMap := KeyedMap Uint256 IndexEntry

/-- `mapBlockIndex[hash]`. -/
def entryOf (map : BlockMap) (hash : Uint256) : Option CBlockIndex :=
  (map.find? hash).map IndexEntry.pindex

section Index

variable (selectionHash : Uint256 → UInt64 → Uint256)
variable (stakemodifier : UInt64)

/-- The entry of a block on a chain. -/
def nextEntry (mapBlockIndex : Uint256 → Option CBlockIndex)
    (block : CBlockIndex) (chain : List CBlockIndex) : CBlockIndex :=
  let modifier := computeNextStakeModifier selectionHash mapBlockIndex
    stakemodifier chain
  { block with
    nHeight := (chain.head?.elim (-1) CBlockIndex.nHeight) + 1
    nStakeModifier := modifier.1
    fGeneratedStakeModifier := modifier.2 }

/-- Without a parent in the index no modifier is computed. -/
def addToBlockIndex (map : BlockMap) (block : StakeBlock) : BlockMap :=
  match map.find? block.hash with
  | some _ => map
  | none =>
      match map.find? block.hashPrevBlock with
      | none => map.insert block.hash ⟨CBlockIndex.ofBlock block, []⟩
      | some prev =>
          let pindexNew := CBlockIndex.ofBlock block
          -- the entry is in the index when its modifier is computed
          let map := map.insert block.hash ⟨pindexNew, prev.chain⟩
          map.insert block.hash
            ⟨nextEntry selectionHash stakemodifier (entryOf map) pindexNew
              prev.chain, prev.chain⟩

/-- The index of a node: the genesis block, and blocks whose parent is in the
index when they come. -/
inductive Run (genesis : StakeBlock) : BlockMap → Prop
  | genesis : Run genesis
      (addToBlockIndex selectionHash stakemodifier KeyedMap.empty genesis)
  | accept {map : BlockMap} {block : StakeBlock} :
      Run genesis map → (map.find? block.hashPrevBlock).isSome = true →
      Run genesis (addToBlockIndex selectionHash stakemodifier map block)

/-- The entries of a chain as a function of its blocks alone. -/
def chainIndex : List CBlockIndex → List CBlockIndex
  | [] => []
  | [block] => [block]
  | block :: rest =>
      let chain := chainIndex rest
      nextEntry selectionHash stakemodifier
        (fun hash => chain.find? fun pindex => pindex.hash = hash) block
        chain :: chain

end Index

/-! ## The modifier depends on the chain only -/

section Congr

variable {selectionHash : Uint256 → UInt64 → Uint256} {stakemodifier : UInt64}
variable {find₁ find₂ : Uint256 → Option CBlockIndex}

theorem selectFrom_congr {items : List (Int × Uint256)}
    (h : ∀ item ∈ items, find₁ item.2 = find₂ item.2) (fModifierV2 : Bool)
    (selected : List Uint256) (nStop : Int) (nPrev : UInt64)
    (best : Option (Uint256 × CBlockIndex)) :
    selectFrom selectionHash find₁ fModifierV2 selected nStop nPrev items
        best =
      selectFrom selectionHash find₂ fModifierV2 selected nStop nPrev items
        best := by
  induction items generalizing best with
  | nil => rfl
  | cons item rest ih =>
      have hrest := ih fun i hi => h i (List.mem_cons_of_mem _ hi)
      unfold selectFrom
      rw [h item List.mem_cons_self]
      cases find₂ item.2 with
      | none => rfl
      | some pindex => simp only [hrest]

theorem selectBlockFromCandidates_congr {items : List (Int × Uint256)}
    (h : ∀ item ∈ items, find₁ item.2 = find₂ item.2)
    (selected : List Uint256) (nStop : Int) (nPrev : UInt64) :
    selectBlockFromCandidates selectionHash find₁ items selected nStop nPrev =
      selectBlockFromCandidates selectionHash find₂ items selected nStop
        nPrev := by
  unfold selectBlockFromCandidates
  cases items with
  | nil => rfl
  | cons item rest =>
      simp only [List.head?_cons, h item List.mem_cons_self,
        selectFrom_congr h]

theorem selectRounds_congr {items : List (Int × Uint256)}
    (h : ∀ item ∈ items, find₁ item.2 = find₂ item.2) (nPrev : UInt64)
    (rounds nRound : Nat) (nStop : Int) (selected : List Uint256)
    (nNew : UInt64) :
    selectRounds selectionHash find₁ items nPrev rounds nRound nStop selected
        nNew =
      selectRounds selectionHash find₂ items nPrev rounds nRound nStop
        selected nNew := by
  induction rounds generalizing nRound nStop selected nNew with
  | zero => rfl
  | succ rounds ih =>
      unfold selectRounds
      simp only [selectBlockFromCandidates_congr h, ih]

theorem hash_of_mem_candidates {chain : List CBlockIndex} {nStart : Int}
    {item : Int × Uint256} (h : item ∈ candidates chain nStart) :
    ∃ pindex ∈ chain, pindex.hash = item.2 := by
  unfold candidates at h
  rw [List.mem_mergeSort, List.mem_reverse, List.mem_map] at h
  rcases h with ⟨pindex, hmem, rfl⟩
  exact ⟨pindex, (List.takeWhile_sublist _).subset hmem, rfl⟩

/-- Only the entries of the chain are looked up in the index. -/
theorem nextEntry_congr {chain : List CBlockIndex}
    (h : ∀ pindex ∈ chain, find₁ pindex.hash = find₂ pindex.hash)
    (block : CBlockIndex) :
    nextEntry selectionHash stakemodifier find₁ block chain =
      nextEntry selectionHash stakemodifier find₂ block chain := by
  have hcandidates : ∀ nStart, ∀ item ∈ candidates chain nStart,
      find₁ item.2 = find₂ item.2 := by
    intro nStart item hitem
    rcases hash_of_mem_candidates hitem with ⟨pindex, hmem, heq⟩
    rw [← heq]
    exact h pindex hmem
  have hcompute : computeNextStakeModifier selectionHash find₁ stakemodifier
      chain = computeNextStakeModifier selectionHash find₂ stakemodifier
        chain := by
    cases chain with
    | nil => rfl
    | cons pindexPrev rest =>
        unfold computeNextStakeModifier
        simp only [selectRounds_congr (hcandidates _)]
  unfold nextEntry
  rw [hcompute]

end Congr

/-! ## The index of a node -/

section Runs

variable {selectionHash : Uint256 → UInt64 → Uint256} {stakemodifier : UInt64}
variable {genesis : StakeBlock} {map : BlockMap}

theorem chainIndex_cons {block : CBlockIndex} {rest : List CBlockIndex}
    (h : rest ≠ []) :
    chainIndex selectionHash stakemodifier (block :: rest) =
      nextEntry selectionHash stakemodifier
        (fun hash => (chainIndex selectionHash stakemodifier rest).find?
          fun pindex => pindex.hash = hash) block
        (chainIndex selectionHash stakemodifier rest) ::
          chainIndex selectionHash stakemodifier rest := by
  cases rest with
  | nil => exact absurd rfl h
  | cons b rest => rfl

theorem blockData_ofBlock (block : StakeBlock) :
    (CBlockIndex.ofBlock block).blockData = CBlockIndex.ofBlock block := rfl

theorem blockData_nextEntry {find : Uint256 → Option CBlockIndex}
    {chain : List CBlockIndex} (block : StakeBlock) :
    (nextEntry selectionHash stakemodifier find (CBlockIndex.ofBlock block)
      chain).blockData = CBlockIndex.ofBlock block := rfl

/-- Every entry is found by its hash, with all that it leads to, and is the
one that belongs to its chain. -/
structure Good (selectionHash : Uint256 → UInt64 → Uint256)
    (stakemodifier : UInt64) (map : BlockMap) : Prop where
  keyed : ∀ hash entry, map.find? hash = some entry →
    entry.pindex.hash = hash
  closed : ∀ hash entry, map.find? hash = some entry →
    ∀ pindex ∈ entry.chain, entryOf map pindex.hash = some pindex
  chain_eq : ∀ hash entry, map.find? hash = some entry →
    entry.chain = chainIndex selectionHash stakemodifier
      (entry.chain.map CBlockIndex.blockData)

theorem entryOf_insert (map : BlockMap) (hash hash' : Uint256)
    (entry : IndexEntry) :
    entryOf (map.insert hash entry) hash' =
      if hash' = hash then some entry.pindex else entryOf map hash' := by
  unfold entryOf
  rw [KeyedMap.find?_insert]
  split
  · rfl
  · rfl

theorem Good.find?_chain (h : Good selectionHash stakemodifier map)
    {hash : Uint256} {entry : IndexEntry} (hentry : map.find? hash = some entry)
    {pindex : CBlockIndex} (hmem : pindex ∈ entry.chain) :
    entry.chain.find? (fun p => p.hash = pindex.hash) = some pindex := by
  cases hfind : entry.chain.find? fun p => p.hash = pindex.hash with
  | none =>
      have hnone := List.find?_eq_none.mp hfind pindex hmem
      simp at hnone
  | some p =>
      have hp := List.find?_some hfind
      have hq := h.closed hash entry hentry p (List.mem_of_find?_eq_some hfind)
      rw [decide_eq_true_eq] at hp
      rw [hp, h.closed hash entry hentry pindex hmem] at hq
      exact hq.symm

/-- A new entry goes in that belongs to a chain of the index. -/
theorem Good.insert (h : Good selectionHash stakemodifier map)
    {block : StakeBlock} {chain : List CBlockIndex} {pindexNew : CBlockIndex}
    (hfresh : map.find? block.hash = none)
    (hhash : pindexNew.hash = block.hash)
    (hchain : ∀ pindex ∈ chain, entryOf map pindex.hash = some pindex)
    (hnew : pindexNew :: chain = chainIndex selectionHash stakemodifier
      ((pindexNew :: chain).map CBlockIndex.blockData)) :
    Good selectionHash stakemodifier
      (map.insert block.hash ⟨pindexNew, chain⟩) := by
  have hne : ∀ pindex : CBlockIndex, entryOf map pindex.hash = some pindex →
      pindex.hash ≠ block.hash := by
    intro pindex hsome heq
    unfold entryOf at hsome
    rw [heq, hfresh] at hsome
    cases hsome
  constructor
  · intro hash entry hfind
    rw [KeyedMap.find?_insert] at hfind
    split at hfind
    · rename_i heq
      cases hfind
      rw [heq]
      exact hhash
    · exact h.keyed hash entry hfind
  · intro hash entry hfind pindex hmem
    rw [entryOf_insert]
    rw [KeyedMap.find?_insert] at hfind
    split at hfind
    · cases hfind
      rcases List.mem_cons.mp hmem with rfl | hmem
      · rw [if_pos hhash]
      · rw [if_neg (hne pindex (hchain pindex hmem))]
        exact hchain pindex hmem
    · have hold := h.closed hash entry hfind pindex hmem
      rw [if_neg (hne pindex hold)]
      exact hold
  · intro hash entry hfind
    rw [KeyedMap.find?_insert] at hfind
    split at hfind
    · cases hfind
      exact hnew
    · exact h.chain_eq hash entry hfind

theorem good_empty : Good selectionHash stakemodifier KeyedMap.empty where
  keyed := fun hash entry h => by
    rw [KeyedMap.find?_empty] at h
    cases h
  closed := fun hash entry h => by
    rw [KeyedMap.find?_empty] at h
    cases h
  chain_eq := fun hash entry h => by
    rw [KeyedMap.find?_empty] at h
    cases h

/-- The entry of a new block. -/
theorem addToBlockIndex_eq (h : Good selectionHash stakemodifier map)
    {block : StakeBlock} {prev : IndexEntry}
    (hfresh : map.find? block.hash = none)
    (hprev : map.find? block.hashPrevBlock = some prev) :
    addToBlockIndex selectionHash stakemodifier map block =
      map.insert block.hash ⟨nextEntry selectionHash stakemodifier
        (fun hash => prev.chain.find? fun pindex => pindex.hash = hash)
        (CBlockIndex.ofBlock block) prev.chain, prev.chain⟩ := by
  have hlookup : ∀ pindex ∈ prev.chain,
      entryOf (map.insert block.hash ⟨CBlockIndex.ofBlock block, prev.chain⟩)
          pindex.hash =
        prev.chain.find? fun p => p.hash = pindex.hash := by
    intro pindex hmem
    have hentry := h.closed _ _ hprev pindex hmem
    rw [entryOf_insert, if_neg, hentry, h.find?_chain hprev hmem]
    intro heq
    unfold entryOf at hentry
    rw [heq, hfresh] at hentry
    cases hentry
  unfold addToBlockIndex
  simp only [hfresh, hprev]
  rw [KeyedMap.insert_insert]
  congr 2
  exact nextEntry_congr hlookup _

theorem addToBlockIndex_good (h : Good selectionHash stakemodifier map)
    (block : StakeBlock) :
    Good selectionHash stakemodifier
      (addToBlockIndex selectionHash stakemodifier map block) := by
  cases hfresh : map.find? block.hash with
  | some entry =>
      unfold addToBlockIndex
      rw [hfresh]
      exact h
  | none =>
      cases hprev : map.find? block.hashPrevBlock with
      | none =>
          unfold addToBlockIndex
          simp only [hfresh, hprev]
          exact h.insert hfresh rfl (fun _ hmem => by cases hmem) rfl
      | some prev =>
          have hne : prev.chain.map CBlockIndex.blockData ≠ [] := by
            simp [IndexEntry.chain]
          have hcons : chainIndex selectionHash stakemodifier
              (CBlockIndex.ofBlock block ::
                prev.chain.map CBlockIndex.blockData) = _ :=
            chainIndex_cons hne
          rw [← h.chain_eq _ _ hprev] at hcons
          rw [addToBlockIndex_eq h hfresh hprev]
          apply h.insert hfresh rfl (h.closed _ _ hprev)
          rw [List.map_cons, blockData_nextEntry, hcons]

theorem Run.good (h : Run selectionHash stakemodifier genesis map) :
    Good selectionHash stakemodifier map := by
  induction h with
  | genesis => exact addToBlockIndex_good good_empty genesis
  | accept _ _ ih => exact addToBlockIndex_good ih _

/-- **The entries of a chain** are a function of its blocks and of the address
of the literal. -/
theorem Run.chain_eq (h : Run selectionHash stakemodifier genesis map)
    {hash : Uint256} {entry : IndexEntry}
    (hentry : map.find? hash = some entry) :
    entry.chain = chainIndex selectionHash stakemodifier
      (entry.chain.map CBlockIndex.blockData) :=
  h.good.chain_eq hash entry hentry

end Runs

/-! ## Two nodes -/

/-- A block with its ancestors, down to the genesis block. -/
inductive IsChain (genesis : StakeBlock) : List StakeBlock → Prop
  | genesis : IsChain genesis [genesis]
  | next {block parent : StakeBlock} {rest : List StakeBlock} :
      IsChain genesis (parent :: rest) →
      block.hashPrevBlock = parent.hash →
      block.hash ∉ (parent :: rest).map (fun b => b.hash) →
      IsChain genesis (block :: parent :: rest)

/-- The node has the first block in its index, with the others as its
ancestors. -/
def HoldsChain (map : BlockMap) : List StakeBlock → Prop
  | [] => True
  | block :: rest => ∃ entry, map.find? block.hash = some entry ∧
      entry.chain.map CBlockIndex.blockData =
        (block :: rest).map CBlockIndex.ofBlock

/-- The stake modifiers that are stored for the blocks. -/
def modifiersOf (map : BlockMap) (blocks : List StakeBlock) :
    List (Option UInt64) :=
  blocks.map fun block =>
    (entryOf map block.hash).map CBlockIndex.nStakeModifier

section TwoNodes

variable {selectionHash : Uint256 → UInt64 → Uint256} {stakemodifier : UInt64}
variable {genesis : StakeBlock} {map : BlockMap} {blocks : List StakeBlock}

theorem Run.modifiersOf_eq (h : Run selectionHash stakemodifier genesis map)
    (hholds : HoldsChain map blocks) :
    modifiersOf map blocks = (chainIndex selectionHash stakemodifier
      (blocks.map CBlockIndex.ofBlock)).map fun pindex =>
        some pindex.nStakeModifier := by
  cases blocks with
  | nil => rfl
  | cons block rest =>
      rcases hholds with ⟨entry, hentry, hdata⟩
      have hchain := h.chain_eq hentry
      rw [hdata] at hchain
      rw [← hchain]
      have hhashes : (block :: rest).map (fun b => b.hash) =
          entry.chain.map CBlockIndex.hash := by
        have hdata' := congrArg (List.map CBlockIndex.hash) hdata
        rw [List.map_map, List.map_map] at hdata'
        exact hdata'.symm
      calc
        modifiersOf map (block :: rest) =
            ((block :: rest).map fun b => b.hash).map fun hash =>
              (entryOf map hash).map CBlockIndex.nStakeModifier := by
          rw [List.map_map]
          rfl
        _ = entry.chain.map fun pindex =>
            (entryOf map pindex.hash).map CBlockIndex.nStakeModifier := by
          rw [hhashes, List.map_map]
          rfl
        _ = entry.chain.map fun pindex => some pindex.nStakeModifier := by
          apply List.map_congr_left
          intro pindex hmem
          rw [h.good.closed _ _ hentry pindex hmem]
          rfl

/-- The entry of a block leads to those of its ancestors, one for each
height. -/
theorem chainIndex_head (selectionHash : Uint256 → UInt64 → Uint256)
    (stakemodifier : UInt64) {block : CBlockIndex} {rest : List CBlockIndex}
    (hdata : ∀ b ∈ block :: rest, b.blockData = b) :
    ∃ pindex, chainIndex selectionHash stakemodifier (block :: rest) =
          pindex :: chainIndex selectionHash stakemodifier rest ∧
      pindex.nHeight = rest.length := by
  induction rest generalizing block with
  | nil =>
      have hblock := hdata block List.mem_cons_self
      exact ⟨block, rfl, (congrArg CBlockIndex.nHeight hblock).symm⟩
  | cons parent rest ih =>
      rcases ih fun b hb => hdata b (List.mem_cons_of_mem _ hb) with
        ⟨pindexPrev, hchain, hheight⟩
      refine ⟨_, rfl, ?_⟩
      simp only [nextEntry, hchain, List.head?_cons, Option.elim_some,
        hheight, List.length_cons, Nat.cast_add, Nat.cast_one]

theorem blockData_of_mem_map {blocks : List StakeBlock} :
    ∀ b ∈ blocks.map CBlockIndex.ofBlock, b.blockData = b := by
  intro b hb
  rcases List.mem_map.mp hb with ⟨block, _, rfl⟩
  exact blockData_ofBlock block

theorem getLastStakeModifier_eq_none {chain : List CBlockIndex}
    (h : ∀ pindex ∈ chain, pindex.fGeneratedStakeModifier = false) :
    getLastStakeModifier chain = none := by
  induction chain with
  | nil => rfl
  | cons pindex rest ih =>
      unfold getLastStakeModifier
      rw [h pindex List.mem_cons_self, if_neg Bool.false_ne_true]
      exact ih fun p hp => h p (List.mem_cons_of_mem _ hp)

theorem nextEntry_first {find : Uint256 → Option CBlockIndex}
    {block pindexPrev : CBlockIndex} {chain rest : List CBlockIndex}
    (hchain : chain = pindexPrev :: rest) (hheight : pindexPrev.nHeight = 2) :
    (nextEntry selectionHash stakemodifier find block chain).nStakeModifier =
      stakemodifier := by
  rw [hchain]
  simp only [nextEntry, computeNextStakeModifier, hheight, if_true]

theorem nextEntry_none {find : Uint256 → Option CBlockIndex}
    {block pindexPrev : CBlockIndex} {chain rest : List CBlockIndex}
    (hchain : chain = pindexPrev :: rest) (hheight : pindexPrev.nHeight ≠ 2)
    (hnone : getLastStakeModifier chain = none) :
    (nextEntry selectionHash stakemodifier find block chain).nStakeModifier =
        0 ∧
      (nextEntry selectionHash stakemodifier find block
        chain).fGeneratedStakeModifier = false := by
  rw [hchain] at hnone ⊢
  simp only [nextEntry, computeNextStakeModifier, hheight, if_false, hnone,
    and_self]

/-- Below height 3 no modifier is generated. -/
theorem chainIndex_low {blocks : List CBlockIndex}
    (hdata : ∀ b ∈ blocks, b.blockData = b) (hlength : blocks.length ≤ 3) :
    ∀ pindex ∈ chainIndex selectionHash stakemodifier blocks,
      pindex.nStakeModifier = 0 ∧ pindex.fGeneratedStakeModifier = false := by
  induction blocks with
  | nil => exact fun _ hmem => by cases hmem
  | cons block rest ih =>
      have hdata' : ∀ b ∈ rest, b.blockData = b := fun b hb =>
        hdata b (List.mem_cons_of_mem _ hb)
      have hrest := ih hdata' (by rw [List.length_cons] at hlength; omega)
      cases rest with
      | nil =>
          intro pindex hmem
          rw [List.mem_singleton.mp hmem, ← hdata block List.mem_cons_self]
          exact ⟨rfl, rfl⟩
      | cons parent rest =>
          rcases chainIndex_head selectionHash stakemodifier hdata' with
            ⟨pindexPrev, hchain, hheight⟩
          have hlow : ¬ pindexPrev.nHeight = 2 := by
            rw [hheight]
            simp only [List.length_cons] at hlength
            omega
          have hnone := getLastStakeModifier_eq_none
            fun pindex hmem => (hrest pindex hmem).2
          have hcons : chainIndex selectionHash stakemodifier
              (block :: parent :: rest) = _ := chainIndex_cons (by simp)
          intro pindex hmem
          rw [hcons] at hmem
          rcases List.mem_cons.mp hmem with rfl | hmem
          · exact nextEntry_none hchain hlow hnone
          · exact hrest pindex hmem

/-- The modifier at height 3 is the address. -/
theorem chainIndex_height_three (selectionHash : Uint256 → UInt64 → Uint256)
    (stakemodifier : UInt64) (b₃ b₂ b₁ b₀ : StakeBlock) :
    ∃ rest, (chainIndex selectionHash stakemodifier
        ([b₃, b₂, b₁, b₀].map CBlockIndex.ofBlock)).map
          CBlockIndex.nStakeModifier = stakemodifier :: rest := by
  have hdata : ∀ b ∈ [b₂, b₁, b₀].map CBlockIndex.ofBlock, b.blockData = b :=
    blockData_of_mem_map
  obtain ⟨pindexPrev, hchain, hheight⟩ : ∃ pindex,
      chainIndex selectionHash stakemodifier
          ([b₂, b₁, b₀].map CBlockIndex.ofBlock) =
        pindex :: chainIndex selectionHash stakemodifier
          ([b₁, b₀].map CBlockIndex.ofBlock) ∧
      pindex.nHeight = ([b₁, b₀].map CBlockIndex.ofBlock).length :=
    chainIndex_head selectionHash stakemodifier hdata
  have htwo : pindexPrev.nHeight = 2 := hheight
  have hcons : chainIndex selectionHash stakemodifier
      ([b₃, b₂, b₁, b₀].map CBlockIndex.ofBlock) = _ :=
    chainIndex_cons (by simp)
  rw [hcons, List.map_cons, nextEntry_first hchain htwo]
  exact ⟨_, rfl⟩

theorem chainIndex_drop {blocks : List StakeBlock} {k : Nat}
    (hk : k < blocks.length) :
    (chainIndex selectionHash stakemodifier
        (blocks.map CBlockIndex.ofBlock)).drop k =
      chainIndex selectionHash stakemodifier
        ((blocks.drop k).map CBlockIndex.ofBlock) := by
  induction k generalizing blocks with
  | zero => rfl
  | succ k ih =>
      cases blocks with
      | nil => cases hk
      | cons block rest =>
          have hlt : k < rest.length := by
            rw [List.length_cons] at hk
            omega
          have hne : rest.map CBlockIndex.ofBlock ≠ [] := by
            intro hnil
            rw [List.map_eq_nil_iff] at hnil
            rw [hnil] at hlt
            cases hlt
          rw [List.map_cons, chainIndex_cons hne, List.drop_succ_cons,
            List.drop_succ_cons]
          exact ih hlt

/-- Every chain is held by some node, wherever it keeps the literal. -/
theorem exists_run (selectionHash : Uint256 → UInt64 → Uint256)
    (stakemodifier : UInt64) (hchain : IsChain genesis blocks) :
    ∃ map, Run selectionHash stakemodifier genesis map ∧
      HoldsChain map blocks ∧
      ∀ hash, (map.find? hash).isSome = true →
        hash ∈ blocks.map fun b => b.hash := by
  induction hchain with
  | genesis =>
      refine ⟨_, Run.genesis, ⟨⟨CBlockIndex.ofBlock genesis, []⟩, ?_, rfl⟩, ?_⟩
      · unfold addToBlockIndex
        simp only [KeyedMap.find?_empty, KeyedMap.find?_insert_self]
      · intro hash hsome
        unfold addToBlockIndex at hsome
        simp only [KeyedMap.find?_empty, KeyedMap.find?_insert] at hsome
        split at hsome
        · rename_i heq
          rw [heq]
          exact List.mem_singleton.mpr rfl
        · cases hsome
  | @next block parent rest _ hparent hfresh ih =>
      rcases ih with ⟨map, hrun, ⟨prev, hprev, hdata⟩, hkeys⟩
      have hnone : map.find? block.hash = none := by
        cases hfind : map.find? block.hash with
        | none => rfl
        | some entry => exact absurd (hkeys _ (by rw [hfind]; rfl)) hfresh
      rw [← hparent] at hprev
      have heq := addToBlockIndex_eq hrun.good hnone hprev
      have hentry := congrArg (fun m : BlockMap => m.find? block.hash) heq
      simp only [KeyedMap.find?_insert_self] at hentry
      refine ⟨_, Run.accept hrun (by rw [hprev]; rfl), ⟨_, hentry, ?_⟩, ?_⟩
      · rw [List.map_cons, ← hdata]
        rfl
      · intro hash hsome
        rw [heq, KeyedMap.find?_insert] at hsome
        split at hsome
        · rename_i hhash
          rw [hhash]
          exact List.mem_cons_self
        · exact List.mem_cons_of_mem _ (hkeys hash hsome)

/-- **All nodes store the same modifiers** for a chain if and only if it ends
below height 3. -/
theorem modifiers_agree_iff (hchain : IsChain genesis blocks) :
    (∀ stakemodifier₁ stakemodifier₂ map₁ map₂,
      Run selectionHash stakemodifier₁ genesis map₁ →
      Run selectionHash stakemodifier₂ genesis map₂ →
      HoldsChain map₁ blocks → HoldsChain map₂ blocks →
      modifiersOf map₁ blocks = modifiersOf map₂ blocks) ↔
    blocks.length ≤ 3 := by
  constructor
  · intro hagree
    by_contra hlong
    rcases exists_run selectionHash 0 hchain with ⟨map₁, hrun₁, hholds₁, _⟩
    rcases exists_run selectionHash 1 hchain with ⟨map₂, hrun₂, hholds₂, _⟩
    have heq := hagree 0 1 map₁ map₂ hrun₁ hrun₂ hholds₁ hholds₂
    rw [hrun₁.modifiersOf_eq hholds₁, hrun₂.modifiersOf_eq hholds₂] at heq
    -- the block at height 3 and its ancestors
    have hdrop := congrArg (List.drop (blocks.length - 4)) heq
    rw [← List.map_drop, ← List.map_drop, chainIndex_drop (by omega),
      chainIndex_drop (by omega)] at hdrop
    have hfour : (blocks.drop (blocks.length - 4)).length = 4 := by
      rw [List.length_drop]
      omega
    rcases List.length_eq_four.mp hfour with ⟨b₃, b₂, b₁, b₀, hblocks⟩
    rw [hblocks] at hdrop
    rcases chainIndex_height_three selectionHash 0 b₃ b₂ b₁ b₀ with
      ⟨rest₁, hfirst⟩
    rcases chainIndex_height_three selectionHash 1 b₃ b₂ b₁ b₀ with
      ⟨rest₂, hsecond⟩
    have hmap : ∀ chain : List CBlockIndex,
        chain.map (fun pindex => some pindex.nStakeModifier) =
          (chain.map CBlockIndex.nStakeModifier).map some := by
      intro chain
      rw [List.map_map]
      rfl
    rw [hmap, hmap, hfirst, hsecond] at hdrop
    simp at hdrop
  · intro hlow stakemodifier₁ stakemodifier₂ map₁ map₂ hrun₁ hrun₂ hholds₁
      hholds₂
    have hlow' : (blocks.map CBlockIndex.ofBlock).length ≤ 3 := by
      rw [List.length_map]
      exact hlow
    have hzero : ∀ {stakemodifier : UInt64} {map : BlockMap},
        Run selectionHash stakemodifier genesis map → HoldsChain map blocks →
          modifiersOf map blocks = blocks.map fun _ => some 0 := by
      intro stakemodifier map hrun hholds
      have hlength : (modifiersOf map blocks).length = blocks.length :=
        List.length_map _
      rw [hrun.modifiersOf_eq hholds] at hlength ⊢
      rw [List.length_map] at hlength
      rw [List.map_congr_left (g := fun _ => some 0) fun pindex hmem => by
        rw [(chainIndex_low blockData_of_mem_map hlow' pindex hmem).1]]
      rw [List.map_const', List.map_const', hlength]
    rw [hzero hrun₁ hholds₁, hzero hrun₂ hholds₂]

end TwoNodes

/-! ### A chain of four blocks -/

/-- The proof-of-work block of a height, one minute after the one before. -/
def plainBlock (nHeight : Nat) : StakeBlock where
  hash := BitVec.ofNat 256 (100 + nHeight)
  hashPrevBlock := BitVec.ofNat 256 (99 + nHeight)
  hashMerkleRoot := 0
  vtx := []
  nTime := UInt32.ofNat (1700000000 + 60 * nHeight)

/-- The blocks up to a height. -/
def plainChain : Nat → List StakeBlock
  | 0 => [plainBlock 0]
  | n + 1 => plainBlock (n + 1) :: plainChain n

/-- The index of a node that gets the blocks up to a height in their order. -/
def plainIndex (selectionHash : Uint256 → UInt64 → Uint256)
    (stakemodifier : UInt64) : Nat → BlockMap
  | 0 => addToBlockIndex selectionHash stakemodifier KeyedMap.empty
      (plainBlock 0)
  | n + 1 => addToBlockIndex selectionHash stakemodifier
      (plainIndex selectionHash stakemodifier n) (plainBlock (n + 1))

def mixHash (hashProof : Uint256) (nStakeModifierPrev : UInt64) : Uint256 :=
  hashProof * 7 + nStakeModifierPrev.toNat

theorem plainChain_isChain_two : IsChain (plainBlock 0) (plainChain 2) :=
  IsChain.next (IsChain.next IsChain.genesis rfl (by decide)) rfl (by decide)

theorem plainIndex_run (stakemodifier : UInt64) :
    Run mixHash stakemodifier (plainBlock 0)
      (plainIndex mixHash stakemodifier 3) := by
  apply Run.accept
  · apply Run.accept
    · apply Run.accept
      · exact Run.genesis
      · rfl
    · rfl
  · rfl

/-- The chain up to height 2 has the same modifiers everywhere. -/
theorem modifiers_agree_low :
    IsChain (plainBlock 0) (plainChain 2) ∧
    ((∀ stakemodifier₁ stakemodifier₂ map₁ map₂,
      Run mixHash stakemodifier₁ (plainBlock 0) map₁ →
      Run mixHash stakemodifier₂ (plainBlock 0) map₂ →
      HoldsChain map₁ (plainChain 2) → HoldsChain map₂ (plainChain 2) →
      modifiersOf map₁ (plainChain 2) = modifiersOf map₂ (plainChain 2)) ↔
    (plainChain 2).length ≤ 3) :=
  ⟨plainChain_isChain_two, modifiers_agree_iff plainChain_isChain_two⟩

/-- **Two nodes** that keep the literal at different addresses store different
modifiers for the block at height 3. -/
theorem height_three_differs :
    Run mixHash 0x55d0c0de1000 (plainBlock 0)
        (plainIndex mixHash 0x55d0c0de1000 3) ∧
      Run mixHash 0x562a5eed2000 (plainBlock 0)
        (plainIndex mixHash 0x562a5eed2000 3) ∧
      HoldsChain (plainIndex mixHash 0x55d0c0de1000 3) (plainChain 3) ∧
      HoldsChain (plainIndex mixHash 0x562a5eed2000 3) (plainChain 3) ∧
      modifiersOf (plainIndex mixHash 0x55d0c0de1000 3) (plainChain 3) ≠
        modifiersOf (plainIndex mixHash 0x562a5eed2000 3) (plainChain 3) :=
  ⟨plainIndex_run _, plainIndex_run _, ⟨_, rfl, by decide⟩,
    ⟨_, rfl, by decide⟩, by decide⟩

end Agrarian.Stake
