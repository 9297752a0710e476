import Agrarian.Merkle.BlockTree
import Agrarian.Serialize.Stream

/-!
# Partial merkle trees

`CPartialMerkleTree` carries the part of a block's merkle tree that proves
some of its transactions to be in the block: one bit for each node visited,
in depth-first order, and the hashes of the nodes not descended into.
`TraverseAndBuild` writes the two streams, `TraverseAndExtract` walks the
same tree again and consumes them.

The two recursions meet in the relation `Emits`: what the builder appends
for a node, and what the extractor has to find there.
-/

namespace Agrarian.Merkle.PartialTree

open Agrarian.Lib.PairHash
open Agrarian.Lib.ByteCodec
open Agrarian.Serialize
open Agrarian.Merkle.BlockTree

variable (hash : Uint256 → Uint256 → Uint256)

structure CPartialMerkleTree where
  nTransactions : Nat
  vBits : List Bool
  vHash : List Uint256
  fBad : Bool
  deriving DecidableEq

/-! ## `TraverseAndBuild` and `TraverseAndExtract` -/

def calcTreeWidth (nTransactions height : Nat) : Nat :=
  (nTransactions + (1 <<< height) - 1) >>> height

def calcHash (vTxid : List Uint256) : Nat → Nat → Uint256
  | 0, pos => vTxid.getD pos 0
  | height + 1, pos =>
      let left := calcHash vTxid height (pos * 2)
      let right :=
        if pos * 2 + 1 < calcTreeWidth vTxid.length height then
          calcHash vTxid height (pos * 2 + 1)
        else left
      hash left right

/-- Whether this node is the parent of at least one matched txid. -/
def parentOfMatch (nTransactions : Nat) (vMatch : List Bool)
    (height pos : Nat) : Bool :=
  let first := pos <<< height
  let last := min ((pos + 1) <<< height) nTransactions
  (List.range' first (last - first)).foldl
    (fun fParentOfMatch p => fParentOfMatch || vMatch.getD p false) false

def traverseAndBuild (vTxid : List Uint256) (vMatch : List Bool) :
    Nat → Nat → CPartialMerkleTree → CPartialMerkleTree
  | 0, pos, t =>
      { t with
        vBits := t.vBits ++ [parentOfMatch t.nTransactions vMatch 0 pos]
        vHash := t.vHash ++ [calcHash hash vTxid 0 pos] }
  | height + 1, pos, t =>
      let fParentOfMatch :=
        parentOfMatch t.nTransactions vMatch (height + 1) pos
      let t := { t with vBits := t.vBits ++ [fParentOfMatch] }
      if !fParentOfMatch then
        { t with vHash := t.vHash ++ [calcHash hash vTxid (height + 1) pos] }
      else
        let t := traverseAndBuild vTxid vMatch height (pos * 2) t
        if pos * 2 + 1 < calcTreeWidth t.nTransactions height then
          traverseAndBuild vTxid vMatch height (pos * 2 + 1) t
        else t

/-- What `TraverseAndExtract` updates through its reference arguments, and
the tree's failure flag. -/
structure ExtractState where
  nBitsUsed : Nat
  nHashUsed : Nat
  vMatch : List Uint256
  fBad : Bool
  deriving DecidableEq

/-- Use a stored hash; at height 0 a set flag makes it a matched txid. -/
def takeHash (t : CPartialMerkleTree) (isMatch : Bool) (s : ExtractState) :
    Uint256 × ExtractState :=
  if s.nHashUsed ≥ t.vHash.length then (0, { s with fBad := true })
  else
    let node := t.vHash.getD s.nHashUsed 0
    (node, { s with
      nHashUsed := s.nHashUsed + 1
      vMatch := if isMatch then s.vMatch ++ [node] else s.vMatch })

def traverseAndExtract (t : CPartialMerkleTree) :
    Nat → Nat → ExtractState → Uint256 × ExtractState
  | 0, _, s =>
      if s.nBitsUsed ≥ t.vBits.length then (0, { s with fBad := true })
      else
        takeHash t (t.vBits.getD s.nBitsUsed false)
          { s with nBitsUsed := s.nBitsUsed + 1 }
  | height + 1, pos, s =>
      if s.nBitsUsed ≥ t.vBits.length then (0, { s with fBad := true })
      else
        let fParentOfMatch := t.vBits.getD s.nBitsUsed false
        let s := { s with nBitsUsed := s.nBitsUsed + 1 }
        if !fParentOfMatch then takeHash t false s
        else
          let (left, s) := traverseAndExtract t height (pos * 2) s
          if pos * 2 + 1 < calcTreeWidth t.nTransactions height then
            let (right, s) := traverseAndExtract t height (pos * 2 + 1) s
            (hash left right, s)
          else (hash left left, s)

/-- `while (CalcTreeWidth(nHeight) > 1) nHeight++;` no tree is higher than
it has leaves. -/
def treeHeightLoop (nTransactions : Nat) : Nat → Nat → Nat
  | 0, nHeight => nHeight
  | fuel + 1, nHeight =>
      if calcTreeWidth nTransactions nHeight > 1 then
        treeHeightLoop nTransactions fuel (nHeight + 1)
      else nHeight

def treeHeight (nTransactions : Nat) : Nat :=
  treeHeightLoop nTransactions nTransactions 0

/-- The constructor from txids and a mask that selects some of them. -/
def CPartialMerkleTree.ofMatches (vTxid : List Uint256)
    (vMatch : List Bool) : CPartialMerkleTree :=
  traverseAndBuild hash vTxid vMatch (treeHeight vTxid.length) 0
    ⟨vTxid.length, [], [], false⟩

/-- The returned root, 0 on failure, and `vMatch`. -/
def extractMatches (t : CPartialMerkleTree) : Uint256 × List Uint256 :=
  if t.nTransactions = 0 then (0, [])
  else if t.nTransactions > MAX_BLOCK_SIZE_CURRENT / 60 then (0, [])
  else if t.vHash.length > t.nTransactions then (0, [])
  else if t.vBits.length < t.vHash.length then (0, [])
  else
    let (hashMerkleRoot, s) := traverseAndExtract hash t
      (treeHeight t.nTransactions) 0 ⟨0, 0, [], t.fBad⟩
    if s.fBad then (0, s.vMatch)
    else if (s.nBitsUsed + 7) / 8 ≠ (t.vBits.length + 7) / 8 then
      (0, s.vMatch)
    else if s.nHashUsed ≠ t.vHash.length then (0, s.vMatch)
    else (hashMerkleRoot, s.vMatch)

/-! ## Serialization -/

/-- `vBytes[p / 8] |= vBits[p] << (p % 8)` for every `p`. -/
def bytesOfBits (vBits : List Bool) : List UInt8 :=
  (List.range vBits.length).foldl
    (fun vBytes p => vBytes.set (p / 8)
      (setBit (vBytes.getD (p / 8) 0) (p % 8) (vBits.getD p false)))
    (List.replicate ((vBits.length + 7) / 8) 0)

def bitsOfBytes (vBytes : List UInt8) : List Bool :=
  (List.range (vBytes.length * 8)).map fun p =>
    bitAt (vBytes.getD (p / 8) 0) (p % 8)

def CPartialMerkleTree.serialize (t : CPartialMerkleTree) : List UInt8 :=
  natLE 4 t.nTransactions ++ (writeVector writeUint256 t.vHash ++
    writeBytes (bytesOfBits t.vBits))

def CPartialMerkleTree.unserialize : Reader CPartialMerkleTree := do
  let nTransactions ← readNatLE 4
  let vHash ← readVector readUint256
  let vBytes ← readByteVector
  pure ⟨nTransactions, bitsOfBytes vBytes, vHash, false⟩

/-! ## Widths and heights -/

theorem calcTreeWidth_eq (n height : Nat) :
    calcTreeWidth n height = (n + 2 ^ height - 1) / 2 ^ height := by
  rw [calcTreeWidth, Nat.shiftRight_eq_div_pow, Nat.one_shiftLeft]

@[simp] theorem calcTreeWidth_zero (n : Nat) : calcTreeWidth n 0 = n := by
  simp [calcTreeWidth_eq]

theorem lt_calcTreeWidth {n height pos : Nat} :
    pos < calcTreeWidth n height ↔ pos * 2 ^ height < n := by
  have hpow : 0 < 2 ^ height := Nat.two_pow_pos height
  rw [calcTreeWidth_eq, Nat.lt_div_iff_mul_lt hpow]
  omega

theorem length_level (vTxid : List Uint256) (height : Nat) :
    (level hash vTxid height).length = calcTreeWidth vTxid.length height := by
  induction height with
  | zero => simp
  | succ height ih =>
      rw [level_succ, length_nextLevel, ih]
      refine eq_of_forall_lt_iff (fun pos => ?_)
      have hhalf : pos < (calcTreeWidth vTxid.length height + 1) / 2 ↔
          2 * pos < calcTreeWidth vTxid.length height := by omega
      rw [hhalf, lt_calcTreeWidth, lt_calcTreeWidth, Nat.pow_succ,
        Nat.mul_comm 2 pos, Nat.mul_assoc, Nat.mul_comm 2]

theorem one_le_calcTreeWidth {n : Nat} (hn : 1 ≤ n) (height : Nat) :
    1 ≤ calcTreeWidth n height :=
  lt_calcTreeWidth.mpr (by omega)

private theorem treeHeightLoop_spec (n fuel : Nat) :
    ∀ nHeight, n ≤ fuel + nHeight →
      calcTreeWidth n (treeHeightLoop n fuel nHeight) ≤ 1 ∧
        ∀ j, nHeight ≤ j → j < treeHeightLoop n fuel nHeight →
          1 < calcTreeWidth n j := by
  induction fuel with
  | zero =>
      intro nHeight hn
      refine ⟨?_, fun j hj hlt => absurd hlt (Nat.not_lt.mpr hj)⟩
      have hpow := @Nat.lt_two_pow_self nHeight
      refine Nat.not_lt.mp (fun h => ?_)
      rw [treeHeightLoop, lt_calcTreeWidth] at h
      omega
  | succ fuel ih =>
      intro nHeight hn
      rw [treeHeightLoop]
      split
      · next hwide =>
          obtain ⟨htop, hbelow⟩ := ih (nHeight + 1) (by omega)
          refine ⟨htop, fun j hj hlt => ?_⟩
          rcases Nat.eq_or_lt_of_le hj with rfl | hgt
          · exact hwide
          · exact hbelow j hgt hlt
      · next hnarrow =>
          exact ⟨Nat.not_lt.mp hnarrow,
            fun j hj hlt => absurd hlt (Nat.not_lt.mpr hj)⟩

/-- The first height with at most one node. -/
theorem treeHeight_spec (n : Nat) :
    calcTreeWidth n (treeHeight n) ≤ 1 ∧
      ∀ j < treeHeight n, 1 < calcTreeWidth n j := by
  obtain ⟨htop, hbelow⟩ := treeHeightLoop_spec n n 0 (Nat.le_add_right n 0)
  exact ⟨htop, fun j hj => hbelow j (Nat.zero_le j) hj⟩

/-- The tree has fewer than twice as many leaf places as leaves. -/
theorem two_pow_treeHeight_lt {n : Nat} (hn : 1 ≤ n) :
    2 ^ treeHeight n < 2 * n := by
  have hbelow := (treeHeight_spec n).2
  cases hh : treeHeight n with
  | zero => omega
  | succ k =>
      have hwide := hbelow k (by omega)
      rw [lt_calcTreeWidth] at hwide
      rw [Nat.pow_succ]
      omega

/-! ## Hashes are nodes of the block's tree -/

/-- `CalcHash` is the node at that position of that level. -/
theorem calcHash_eq_getElem (vTxid : List Uint256) (height : Nat) :
    ∀ pos (hpos : pos < (level hash vTxid height).length),
      calcHash hash vTxid height pos = (level hash vTxid height)[pos] := by
  induction height with
  | zero =>
      intro pos hpos
      exact List.getD_eq_getElem _ _ hpos
  | succ height ih =>
      intro pos hpos
      have hwidth := length_level hash vTxid height
      have hlen := hpos
      rw [level_succ, length_nextLevel] at hlen
      have hleft : 2 * pos < (level hash vTxid height).length := by omega
      have hright : min (2 * pos + 1) ((level hash vTxid height).length - 1) <
          (level hash vTxid height).length := by omega
      have hnode : (level hash vTxid (height + 1))[pos] =
          hash (level hash vTxid height)[2 * pos]
            (level hash vTxid height)[min (2 * pos + 1)
              ((level hash vTxid height).length - 1)] := by
        rw [← getElem_nextLevel hash _ pos
          (by rw [length_nextLevel]; omega) hleft hright]
        exact List.getElem_of_eq (level_succ hash vTxid height) hpos
      rw [hnode, calcHash, Nat.mul_comm pos 2, ih _ hleft]
      split
      · next hin =>
          have hmin : min (2 * pos + 1)
              ((level hash vTxid height).length - 1) = 2 * pos + 1 := by
            omega
          rw [ih (2 * pos + 1) (by omega), getElem_congr_idx hmin]
      · next hout =>
          have hmin : min (2 * pos + 1)
              ((level hash vTxid height).length - 1) = 2 * pos := by
            omega
          rw [getElem_congr_idx hmin]

/-- The node at the tree's height is the block's merkle root. -/
theorem calcHash_root {vTxid : List Uint256} (hne : vTxid ≠ []) :
    calcHash hash vTxid (treeHeight vTxid.length) 0 =
      merkleRoot hash 0 vTxid := by
  obtain ⟨htop, hbelow⟩ := treeHeight_spec vTxid.length
  have hlevel : level hash vTxid (treeHeight vTxid.length) =
      [merkleRoot hash 0 vTxid] := by
    rw [level_eq_top hash (fun j hj => ?_) (by rw [length_level]; exact htop),
      top_eq_merkleRoot hash 0 hne]
    rw [length_level]
    exact hbelow j hj
  rw [calcHash_eq_getElem hash vTxid _ 0 (by rw [hlevel]; simp)]
  simp [hlevel]

/-! ## The leaves below a node -/

/-- The txids below a node, each with its flag. -/
def leavesBelow (vTxid : List Uint256) (vMatch : List Bool)
    (height pos : Nat) : List (Uint256 × Bool) :=
  ((vTxid.zip vMatch).drop (pos * 2 ^ height)).take (2 ^ height)

/-- The txids whose flag is set, in order. -/
def matchedTxids (leaves : List (Uint256 × Bool)) : List Uint256 :=
  (leaves.filter Prod.snd).map Prod.fst

@[simp] theorem matchedTxids_append (xs ys : List (Uint256 × Bool)) :
    matchedTxids (xs ++ ys) = matchedTxids xs ++ matchedTxids ys := by
  simp [matchedTxids]

section Leaves

variable {vTxid : List Uint256} {vMatch : List Bool}

theorem leavesBelow_succ (height pos : Nat) :
    leavesBelow vTxid vMatch (height + 1) pos =
      leavesBelow vTxid vMatch height (pos * 2) ++
        leavesBelow vTxid vMatch height (pos * 2 + 1) := by
  have hstart : pos * 2 ^ (height + 1) = pos * 2 * 2 ^ height := by
    rw [Nat.pow_succ]
    ring
  have hnext : (pos * 2 + 1) * 2 ^ height =
      pos * 2 * 2 ^ height + 2 ^ height := by ring
  rw [leavesBelow, leavesBelow, leavesBelow, hstart, hnext, Nat.pow_succ,
    Nat.mul_two, List.take_add, List.drop_drop]

/-- Past the width of its level a node has no leaves. -/
theorem leavesBelow_eq_nil {height pos : Nat}
    (hpos : ¬ pos < calcTreeWidth vTxid.length height) :
    leavesBelow vTxid vMatch height pos = [] := by
  rw [lt_calcTreeWidth] at hpos
  rw [leavesBelow, List.drop_eq_nil_of_le, List.take_nil]
  rw [List.length_zip]
  omega

variable (hlen : vMatch.length = vTxid.length)
include hlen

theorem leavesBelow_zero {pos : Nat} (hpos : pos < vTxid.length) :
    leavesBelow vTxid vMatch 0 pos =
      [(vTxid.getD pos 0, vMatch.getD pos false)] := by
  have hzip : pos < (vTxid.zip vMatch).length := by
    rw [List.length_zip]
    omega
  rw [leavesBelow, Nat.pow_zero, Nat.mul_one, List.drop_eq_getElem_cons hzip,
    List.getD_eq_getElem _ _ hpos, List.getD_eq_getElem _ _ (by omega)]
  simp

theorem length_leavesBelow_pos {height pos : Nat}
    (hpos : pos < calcTreeWidth vTxid.length height) :
    1 ≤ (leavesBelow vTxid vMatch height pos).length := by
  have hpow := Nat.two_pow_pos height
  rw [lt_calcTreeWidth] at hpos
  rw [leavesBelow, List.length_take, List.length_drop, List.length_zip]
  omega

/-- The flag bit of a node says whether a leaf below it is matched. -/
theorem parentOfMatch_eq_any (height pos : Nat) :
    parentOfMatch vTxid.length vMatch height pos =
      (leavesBelow vTxid vMatch height pos).any Prod.snd := by
  have hfold : ∀ (ps : List Nat) (b : Bool),
      ps.foldl (fun f p => f || vMatch.getD p false) b =
        (b || ps.any fun p => vMatch.getD p false) := by
    intro ps
    induction ps with
    | nil => simp
    | cons p ps ih =>
        intro b
        rw [List.foldl_cons, ih, List.any_cons, Bool.or_assoc]
  have hend : (pos + 1) * 2 ^ height = pos * 2 ^ height + 2 ^ height := by ring
  rw [parentOfMatch, hfold, Bool.false_or, Nat.shiftLeft_eq,
    Nat.shiftLeft_eq, hend, Bool.eq_iff_iff, List.any_eq_true,
    List.any_eq_true]
  constructor
  · rintro ⟨p, hp, hflag⟩
    rw [List.mem_range'_1] at hp
    have hp' : p < vTxid.length := by omega
    refine ⟨(vTxid[p], vMatch[p]), ?_, ?_⟩
    · rw [leavesBelow, List.mem_take_iff_getElem]
      refine ⟨p - pos * 2 ^ height, ?_, ?_⟩
      · rw [List.length_drop, List.length_zip]
        omega
      · have hidx : pos * 2 ^ height + (p - pos * 2 ^ height) = p := by omega
        rw [List.getElem_drop, getElem_congr_idx hidx, List.getElem_zip]
    · rwa [List.getD_eq_getElem _ _ (by omega)] at hflag
  · rintro ⟨x, hx, hflag⟩
    rw [leavesBelow, List.mem_take_iff_getElem] at hx
    obtain ⟨i, hi, rfl⟩ := hx
    rw [List.length_drop, List.length_zip] at hi
    refine ⟨pos * 2 ^ height + i, ?_, ?_⟩
    · rw [List.mem_range'_1]
      omega
    · rw [List.getElem_drop, List.getElem_zip] at hflag
      rwa [List.getD_eq_getElem _ _ (by omega)]

end Leaves

/-! ## What the builder emits -/

/-- `Emits vTxid vMatch height pos bits hashes`: the streams a walk over the
node at `pos` of `height` writes, and the ones it has to find again. -/
inductive Emits (vTxid : List Uint256) (vMatch : List Bool) :
    Nat → Nat → List Bool → List Uint256 → Prop
  /-- A leaf: its flag and the txid itself. -/
  | leaf (pos : Nat) :
      Emits vTxid vMatch 0 pos
        [parentOfMatch vTxid.length vMatch 0 pos] [calcHash hash vTxid 0 pos]
  /-- Nothing of interest below: one hash stands for the subtree. -/
  | skip (height pos : Nat)
      (hmatch : parentOfMatch vTxid.length vMatch (height + 1) pos = false) :
      Emits vTxid vMatch (height + 1) pos [false]
        [calcHash hash vTxid (height + 1) pos]
  /-- A node whose right child is past the end of its level. -/
  | lone {height pos : Nat} {bits : List Bool} {hashes : List Uint256}
      (hmatch : parentOfMatch vTxid.length vMatch (height + 1) pos = true)
      (hwidth : ¬ pos * 2 + 1 < calcTreeWidth vTxid.length height)
      (hleft : Emits vTxid vMatch height (pos * 2) bits hashes) :
      Emits vTxid vMatch (height + 1) pos (true :: bits) hashes
  | both {height pos : Nat} {bits bits' : List Bool}
      {hashes hashes' : List Uint256}
      (hmatch : parentOfMatch vTxid.length vMatch (height + 1) pos = true)
      (hwidth : pos * 2 + 1 < calcTreeWidth vTxid.length height)
      (hleft : Emits vTxid vMatch height (pos * 2) bits hashes)
      (hright : Emits vTxid vMatch height (pos * 2 + 1) bits' hashes') :
      Emits vTxid vMatch (height + 1) pos (true :: (bits ++ bits'))
        (hashes ++ hashes')

/-- The builder appends what the relation allows. -/
theorem traverseAndBuild_emits (vTxid : List Uint256) (vMatch : List Bool)
    (height : Nat) :
    ∀ (pos : Nat) (t : CPartialMerkleTree),
      t.nTransactions = vTxid.length →
      ∃ bits hashes, Emits hash vTxid vMatch height pos bits hashes ∧
        traverseAndBuild hash vTxid vMatch height pos t =
          { t with vBits := t.vBits ++ bits, vHash := t.vHash ++ hashes } := by
  induction height with
  | zero =>
      intro pos t hn
      refine ⟨_, _, Emits.leaf pos, ?_⟩
      rw [traverseAndBuild, hn]
  | succ height ih =>
      intro pos t hn
      obtain ⟨n, vBits, vHash, fBad⟩ := t
      obtain rfl : n = vTxid.length := hn
      rw [traverseAndBuild]
      cases hmatch : parentOfMatch vTxid.length vMatch (height + 1) pos with
      | false => exact ⟨_, _, Emits.skip height pos hmatch, rfl⟩
      | true =>
          obtain ⟨bits, hashes, hleft, heq⟩ :=
            ih (pos * 2) ⟨vTxid.length, vBits ++ [true], vHash, fBad⟩ rfl
          simp only [Bool.not_true, Bool.false_eq_true, if_false, heq]
          split
          · next hwidth =>
              obtain ⟨bits', hashes', hright, heq'⟩ := ih (pos * 2 + 1)
                ⟨vTxid.length, vBits ++ [true] ++ bits, vHash ++ hashes, fBad⟩
                rfl
              refine ⟨_, _, Emits.both hmatch hwidth hleft hright, ?_⟩
              rw [heq']
              simp
          · next hwidth =>
              refine ⟨_, _, Emits.lone hmatch hwidth hleft, ?_⟩
              simp

section Extract

variable {vTxid : List Uint256} {vMatch : List Bool} {height pos : Nat}
  {bits : List Bool} {hashes : List Uint256}

theorem width_left {vTxid : List Uint256} {height pos : Nat}
    (hpos : pos < calcTreeWidth vTxid.length (height + 1)) :
    pos * 2 < calcTreeWidth vTxid.length height := by
  rw [lt_calcTreeWidth, Nat.pow_succ] at hpos
  rw [lt_calcTreeWidth]
  calc pos * 2 * 2 ^ height
      = pos * (2 ^ height * 2) := by ring
    _ < vTxid.length := hpos

/-- A state that has moved on by some bits, hashes and matched ids. -/
def ExtractState.advance (s : ExtractState) (bits : List Bool)
    (hashes ids : List Uint256) : ExtractState :=
  { s with
    nBitsUsed := s.nBitsUsed + bits.length
    nHashUsed := s.nHashUsed + hashes.length
    vMatch := s.vMatch ++ ids }

private theorem takeHash_eq {t : CPartialMerkleTree} {s : ExtractState}
    {node : Uint256} {before after : List Uint256} (isMatch : Bool)
    (ht : t.vHash = before ++ node :: after)
    (hs : s.nHashUsed = before.length) :
    takeHash t isMatch s =
      (node, s.advance [] [node] (if isMatch then [node] else [])) := by
  have hin : ¬ s.nHashUsed ≥ t.vHash.length := by
    rw [ht, hs]
    simp
  have hnode : t.vHash.getD s.nHashUsed 0 = node := by
    rw [ht, hs]
    simp
  rw [takeHash, if_neg hin, hnode]
  cases isMatch <;> simp [ExtractState.advance]

/-- The bit of this node is the next one in the stream. -/
private theorem nextBit {t : CPartialMerkleTree} {s : ExtractState}
    {bit : Bool} {before after : List Bool}
    (ht : t.vBits = before ++ bit :: after)
    (hs : s.nBitsUsed = before.length) :
    ¬ s.nBitsUsed ≥ t.vBits.length ∧ t.vBits.getD s.nBitsUsed false = bit := by
  rw [ht, hs]
  simp

/-- **Extraction inverts building.**  Where the streams continue with what
was emitted for a node, the extractor returns the node's hash, reports the
matched ids below it in order, and moves on by exactly those streams.  The
induction is on the emission, so that both recursions take the same turn. -/
theorem traverseAndExtract_of_emits (t : CPartialMerkleTree)
    (hn : t.nTransactions = vTxid.length)
    (hlen : vMatch.length = vTxid.length)
    (hemits : Emits hash vTxid vMatch height pos bits hashes) :
    ∀ (s : ExtractState) (bitsBefore bitsAfter : List Bool)
      (hashesBefore hashesAfter : List Uint256),
      pos < calcTreeWidth vTxid.length height →
      t.vBits = bitsBefore ++ (bits ++ bitsAfter) →
      t.vHash = hashesBefore ++ (hashes ++ hashesAfter) →
      s.nBitsUsed = bitsBefore.length → s.nHashUsed = hashesBefore.length →
      traverseAndExtract hash t height pos s =
        (calcHash hash vTxid height pos,
          s.advance bits hashes
            (matchedTxids (leavesBelow vTxid vMatch height pos))) := by
  induction hemits with
  | leaf pos =>
      intro s bitsBefore bitsAfter hashesBefore hashesAfter hpos hb hh hsb hsh
      rw [calcTreeWidth_zero] at hpos
      obtain ⟨hin, hbit⟩ := nextBit hb hsb
      have htake := takeHash_eq (s := { s with nBitsUsed := s.nBitsUsed + 1 })
        (parentOfMatch vTxid.length vMatch 0 pos) hh hsh
      rw [traverseAndExtract, if_neg hin, hbit, htake,
        parentOfMatch_eq_any hlen, leavesBelow_zero hlen hpos, calcHash]
      cases vMatch.getD pos false <;>
        simp [matchedTxids, ExtractState.advance]
  | skip height pos hmatch =>
      intro s bitsBefore bitsAfter hashesBefore hashesAfter hpos hb hh hsb hsh
      obtain ⟨hin, hbit⟩ := nextBit hb hsb
      have htake := takeHash_eq (s := { s with nBitsUsed := s.nBitsUsed + 1 })
        false hh hsh
      have hnone : matchedTxids (leavesBelow vTxid vMatch (height + 1) pos) =
          [] := by
        rw [parentOfMatch_eq_any hlen, List.any_eq_false] at hmatch
        rw [matchedTxids, List.filter_eq_nil_iff.mpr hmatch, List.map_nil]
      rw [traverseAndExtract, if_neg hin, hbit]
      simp [htake, hnone, ExtractState.advance]
  | lone hmatch hwidth hleft ih =>
      rename_i height pos bits hashes
      intro s bitsBefore bitsAfter hashesBefore hashesAfter hpos hb hh hsb hsh
      rw [List.cons_append] at hb
      obtain ⟨hin, hbit⟩ := nextBit hb hsb
      have hwalk := ih { s with nBitsUsed := s.nBitsUsed + 1 }
        (bitsBefore ++ [true]) bitsAfter hashesBefore hashesAfter
        (width_left hpos) (by rw [hb]; simp) hh (by simp [hsb]) hsh
      rw [traverseAndExtract, if_neg hin, hbit]
      simp only [Bool.not_true, Bool.false_eq_true, if_false, hwalk, hn]
      rw [if_neg hwidth, calcHash, if_neg hwidth, leavesBelow_succ,
        leavesBelow_eq_nil hwidth, List.append_nil]
      simp only [ExtractState.advance, List.length_cons, Prod.mk.injEq,
        ExtractState.mk.injEq, true_and, and_true]
      omega
  | both hmatch hwidth hleft hright ihLeft ihRight =>
      rename_i height pos bits bits' hashes hashes'
      intro s bitsBefore bitsAfter hashesBefore hashesAfter hpos hb hh hsb hsh
      rw [List.cons_append] at hb
      obtain ⟨hin, hbit⟩ := nextBit hb hsb
      have hwalkLeft := ihLeft { s with nBitsUsed := s.nBitsUsed + 1 }
        (bitsBefore ++ [true]) (bits' ++ bitsAfter)
        hashesBefore (hashes' ++ hashesAfter)
        (width_left hpos) (by rw [hb]; simp) (by rw [hh]; simp)
        (by simp [hsb]) hsh
      have hwalkRight := ihRight
        (ExtractState.advance { s with nBitsUsed := s.nBitsUsed + 1 } bits
          hashes (matchedTxids (leavesBelow vTxid vMatch height (pos * 2))))
        (bitsBefore ++ [true] ++ bits) bitsAfter
        (hashesBefore ++ hashes) hashesAfter
        hwidth (by rw [hb]; simp) (by rw [hh]; simp)
        (by simp [ExtractState.advance, hsb]; omega)
        (by simp [ExtractState.advance, hsh])
      rw [traverseAndExtract, if_neg hin, hbit]
      simp only [Bool.not_true, Bool.false_eq_true, if_false, hwalkLeft, hn]
      rw [if_pos hwidth, hwalkRight, calcHash, if_pos hwidth, leavesBelow_succ,
        matchedTxids_append]
      simp only [ExtractState.advance, List.length_cons, List.length_append,
        List.append_assoc, Prod.mk.injEq, ExtractState.mk.injEq, true_and,
        and_true]
      omega

/-! ## The size guarantees -/

/-- There is a bit for every hash and a leaf for every hash. -/
theorem length_hashes_le (hlen : vMatch.length = vTxid.length)
    (hemits : Emits hash vTxid vMatch height pos bits hashes)
    (hpos : pos < calcTreeWidth vTxid.length height) :
    hashes.length ≤ bits.length ∧
      hashes.length ≤ (leavesBelow vTxid vMatch height pos).length := by
  induction hemits with
  | leaf pos => exact ⟨by simp, length_leavesBelow_pos hlen hpos⟩
  | skip height pos hmatch =>
      exact ⟨by simp, length_leavesBelow_pos hlen hpos⟩
  | lone hmatch hwidth hleft ih =>
      have hrec := ih (width_left hpos)
      rw [leavesBelow_succ, List.length_append, List.length_cons]
      omega
  | both hmatch hwidth hleft hright ihLeft ihRight =>
      have hrecLeft := ihLeft (width_left hpos)
      have hrecRight := ihRight hwidth
      rw [leavesBelow_succ]
      simp only [List.length_append, List.length_cons]
      omega

/-- A full binary tree bounds the number of bits. -/
theorem length_bits_lt
    (hemits : Emits hash vTxid vMatch height pos bits hashes) :
    bits.length < 2 ^ (height + 1) := by
  induction hemits with
  | leaf pos => simp
  | skip height pos hmatch =>
      rw [Nat.pow_succ, Nat.pow_succ, List.length_singleton]
      have := Nat.two_pow_pos height
      omega
  | lone hmatch hwidth hleft ih =>
      rw [Nat.pow_succ, List.length_cons]
      omega
  | both hmatch hwidth hleft hright ihLeft ihRight =>
      rw [Nat.pow_succ, List.length_cons, List.length_append]
      omega

end Extract

/-! ## Bits as bytes -/

/-- The bytes after the first `k` bits have been written. -/
private theorem bytesOfBits_steps (vBits : List Bool) (k : Nat) :
    k ≤ vBits.length →
    ∀ vBytes, (List.range k).foldl
      (fun vBytes p => vBytes.set (p / 8)
        (setBit (vBytes.getD (p / 8) 0) (p % 8) (vBits.getD p false)))
      (List.replicate ((vBits.length + 7) / 8) 0) = vBytes →
    vBytes.length = (vBits.length + 7) / 8 ∧
      ∀ p, bitAt (vBytes.getD (p / 8) 0) (p % 8) =
        (decide (p < k) && vBits.getD p false) := by
  induction k with
  | zero =>
      rintro _ vBytes rfl
      refine ⟨by simp, fun p => ?_⟩
      have hzero : (List.replicate ((vBits.length + 7) / 8) (0 : UInt8)).getD
          (p / 8) 0 = 0 := by
        rw [List.getD_eq_getElem?_getD, List.getElem?_replicate]
        split <;> rfl
      rw [List.range_zero, List.foldl_nil, hzero, bitAt_zero]
      simp
  | succ k ih =>
      rintro hk vBytes rfl
      rw [List.range_succ, List.foldl_append, List.foldl_cons, List.foldl_nil]
      obtain ⟨hlen, hbits⟩ := ih (by omega) _ rfl
      generalize (List.range k).foldl _ _ = vBytes at hlen hbits
      refine ⟨by rw [List.length_set, hlen], fun p => ?_⟩
      have hin : k / 8 < vBytes.length := by omega
      by_cases hbyte : k / 8 = p / 8
      · -- the byte that receives bit `k`
        rw [hbyte, List.getD_eq_getElem?_getD,
          List.getElem?_set_self (hbyte ▸ hin), Option.getD_some,
          bitAt_setBit _ _ (Nat.mod_lt p (by decide)), hbits]
        by_cases hp : p = k
        · subst hp
          simp
        · have hmod : ¬ k % 8 = p % 8 := by omega
          have hlt : p < k + 1 ↔ p < k := by omega
          simp [hmod, hlt]
      · rw [List.getD_eq_getElem?_getD, List.getElem?_set_ne hbyte,
          ← List.getD_eq_getElem?_getD, hbits]
        have hlt : p < k + 1 ↔ p < k := by omega
        simp [hlt]

theorem length_bytesOfBits (vBits : List Bool) :
    (bytesOfBits vBits).length = (vBits.length + 7) / 8 :=
  (bytesOfBits_steps vBits vBits.length (Nat.le_refl _) _ rfl).1

/-- The bits come back, padded with zeros to whole bytes. -/
theorem bitsOfBytes_bytesOfBits (vBits : List Bool) :
    bitsOfBytes (bytesOfBits vBits) = vBits ++
      List.replicate ((vBits.length + 7) / 8 * 8 - vBits.length) false := by
  have hbits := (bytesOfBits_steps vBits vBits.length (Nat.le_refl _) _ rfl).2
  refine List.ext_getElem ?_ (fun p hp hp' => ?_)
  · rw [bitsOfBytes, List.length_map, List.length_range, length_bytesOfBits,
      List.length_append, List.length_replicate]
    omega
  · simp only [bitsOfBytes, List.getElem_map, List.getElem_range]
    rw [bytesOfBits, hbits p, List.getElem_append]
    split
    · next hlt => simp [hlt]
    · next hge => simp [hge]

/-! ## The round trip -/

section RoundTrip

variable {vTxid : List Uint256} {vMatch : List Bool}

/-- A tree that carries the emitted streams, perhaps with padding bits behind
them, passes every check of `ExtractMatches`. -/
theorem extractMatches_of_emits {bits padding : List Bool}
    {hashes : List Uint256} (hpos : 1 ≤ vTxid.length)
    (hmax : vTxid.length ≤ MAX_BLOCK_SIZE_CURRENT / 60)
    (hlen : vMatch.length = vTxid.length)
    (hemits : Emits hash vTxid vMatch (treeHeight vTxid.length) 0 bits hashes)
    (hpad : (bits.length + 7) / 8 = ((bits ++ padding).length + 7) / 8) :
    extractMatches hash ⟨vTxid.length, bits ++ padding, hashes, false⟩ =
      (merkleRoot hash 0 vTxid, matchedTxids (vTxid.zip vMatch)) := by
  have hne : vTxid ≠ [] := List.length_pos_iff.mp hpos
  have hroot : 0 < calcTreeWidth vTxid.length (treeHeight vTxid.length) :=
    one_le_calcTreeWidth hpos _
  obtain ⟨hbits, hleaves⟩ := length_hashes_le hash hlen hemits hroot
  have hall : leavesBelow vTxid vMatch (treeHeight vTxid.length) 0 =
      vTxid.zip vMatch := by
    have htop : ¬ 1 < calcTreeWidth vTxid.length (treeHeight vTxid.length) :=
      Nat.not_lt.mpr (treeHeight_spec vTxid.length).1
    rw [lt_calcTreeWidth] at htop
    rw [leavesBelow, Nat.zero_mul, List.drop_zero, List.take_of_length_le]
    rw [List.length_zip]
    omega
  have hzip : (vTxid.zip vMatch).length = vTxid.length := by
    rw [List.length_zip]
    omega
  rw [hall, hzip] at hleaves
  have hwalk := traverseAndExtract_of_emits hash
    ⟨vTxid.length, bits ++ padding, hashes, false⟩ rfl hlen hemits
    ⟨0, 0, [], false⟩ [] padding [] [] hroot (by simp) (by simp) rfl rfl
  unfold extractMatches
  rw [if_neg (by simpa using hne), if_neg (Nat.not_lt.mpr hmax),
    if_neg (Nat.not_lt.mpr hleaves),
    if_neg (by simp only [List.length_append]; omega)]
  simp only [hwalk, ExtractState.advance, Nat.zero_add, hpad, hall,
    calcHash_root hash hne, List.nil_append]
  simp

theorem reads_partialMerkleTree {t : CPartialMerkleTree}
    (hn : t.nTransactions < 256 ^ 4) (hhash : t.vHash.length ≤ MAX_SIZE)
    (hbits : (t.vBits.length + 7) / 8 ≤ MAX_SIZE) :
    Reads CPartialMerkleTree.unserialize t.serialize
      { t with vBits := bitsOfBytes (bytesOfBits t.vBits), fBad := false } := by
  have hbytes : (bytesOfBits t.vBits).length ≤ MAX_SIZE := by
    rw [length_bytesOfBits]
    exact hbits
  refine (reads_natLE hn).bind ?_
  refine (reads_vector (fun a _ => reads_uint256 a) hhash).bind ?_
  exact (reads_byteVector hbytes).bind_pure (reads_pure _)

/-- **Partial merkle trees are faithful.**  For every block of 1 to
`MAX_BLOCK_SIZE_CURRENT / 60` transactions and every selection, extraction
returns the block's merkle root and exactly the selected txids in order,
from the tree as built and from the tree sent over the wire. -/
theorem extractMatches_eq (vTxid : List Uint256) (vMatch : List Bool)
    (hpos : 1 ≤ vTxid.length)
    (hmax : vTxid.length ≤ MAX_BLOCK_SIZE_CURRENT / 60)
    (hlen : vMatch.length = vTxid.length) :
    extractMatches hash (CPartialMerkleTree.ofMatches hash vTxid vMatch) =
        (merkleRoot hash 0 vTxid, matchedTxids (vTxid.zip vMatch)) ∧
      ∀ rest, ∃ t', CPartialMerkleTree.unserialize.run
          ((CPartialMerkleTree.ofMatches hash vTxid vMatch).serialize ++
            rest) = some (t', rest) ∧
        extractMatches hash t' =
          (merkleRoot hash 0 vTxid, matchedTxids (vTxid.zip vMatch)) := by
  obtain ⟨bits, hashes, hemits, hbuild⟩ := traverseAndBuild_emits hash vTxid
    vMatch (treeHeight vTxid.length) 0 ⟨vTxid.length, [], [], false⟩ rfl
  have htree : CPartialMerkleTree.ofMatches hash vTxid vMatch =
      ⟨vTxid.length, bits, hashes, false⟩ := by
    rw [CPartialMerkleTree.ofMatches, hbuild]
    simp
  have hroot : 0 < calcTreeWidth vTxid.length (treeHeight vTxid.length) :=
    one_le_calcTreeWidth hpos _
  have hsize : vTxid.length ≤ 33333 := by
    simpa [MAX_BLOCK_SIZE_CURRENT] using hmax
  have hbits : bits.length < 4 * vTxid.length := by
    have hfull := length_bits_lt hash hemits
    have hheight := two_pow_treeHeight_lt hpos
    rw [Nat.pow_succ] at hfull
    omega
  have hhashes := (length_hashes_le hash hlen hemits hroot).1
  rw [htree]
  refine ⟨?_, fun rest => ⟨_, reads_partialMerkleTree (by simp only; omega)
    ?_ ?_ rest, ?_⟩⟩
  · have hpad : (bits.length + 7) / 8 = ((bits ++ []).length + 7) / 8 := by
      simp
    simpa using extractMatches_of_emits hash hpos hmax hlen hemits hpad
  · simp only [MAX_SIZE]
    omega
  · simp only [MAX_SIZE]
    omega
  · simp only [bitsOfBytes_bytesOfBits]
    refine extractMatches_of_emits hash hpos hmax hlen hemits ?_
    rw [List.length_append, List.length_replicate]
    omega

theorem extractMatches_eq_three :
    extractMatches (· + ·) (CPartialMerkleTree.ofMatches (· + ·)
      [1, 2, 3] [false, false, true]) = (9, [3]) := by
  have h := (extractMatches_eq (· + ·) [1, 2, 3] [false, false, true]
    (by decide) (by decide) (by decide)).1
  rw [h]
  decide

end RoundTrip

end Agrarian.Merkle.PartialTree
