import Agrarian.Merkle.BlockTree

/-!
# The merkle branch of a transaction

`GetMerkleBranch` reads the siblings on the way from a transaction to the root
out of `vMerkleTree`, and `CheckMerkleBranch` hashes its way up again.  The
vector is a cache: `BuildMerkleTree` writes it anew, and `GetMerkleBranch`
builds it where it is empty.
-/

namespace Agrarian.Merkle.BlockTree

open Agrarian.Lib.PairHash

variable {α : Type} [DecidableEq α] (hash : α → α → α) (null : α)

/-- The part of a `CBlock` that the branches depend on: the hashes of the
transactions, and the tree in memory. -/
structure CBlock (α : Type) where
  vtx : List α
  vMerkleTree : List α := []

/-- `BuildMerkleTree` on a block: it clears the vector, builds the tree and
returns the root. -/
def CBlock.buildMerkleTree (block : CBlock α) : CBlock α × α :=
  let vMerkleTree := (BlockTree.buildMerkleTree hash null block.vtx).vMerkleTree
  ({ block with vMerkleTree := vMerkleTree }, vMerkleTree.getLast?.getD null)

/-- `for (nSize = vtx.size(); nSize > 1; nSize = (nSize + 1) / 2)`, where the
number of transactions bounds the rounds. -/
def branchLoop (vMerkleTree : List α) : Nat → Nat → Nat → Nat → List α
  | 0, _, _, _ => []
  | fuel + 1, j, nSize, nIndex =>
      if nSize > 1 then
        let i := min (nIndex ^^^ 1) (nSize - 1)
        vMerkleTree.getD (j + i) null ::
          branchLoop vMerkleTree fuel (j + nSize) ((nSize + 1) / 2) (nIndex >>> 1)
      else []

/-- `CBlock::GetMerkleBranch`. -/
def CBlock.getMerkleBranch (block : CBlock α) (nIndex : Nat) : CBlock α × List α :=
  let block :=
    if block.vMerkleTree.isEmpty then (block.buildMerkleTree hash null).1 else block
  (block, branchLoop null block.vMerkleTree block.vtx.length 0 block.vtx.length nIndex)

/-- The loop of `CheckMerkleBranch` over the branch. -/
def checkLoop : List α → Int → α → α
  | [], _, h => h
  | it :: rest, nIndex, h =>
      checkLoop rest (nIndex >>> 1) (if nIndex % 2 = 1 then hash it h else hash h it)

/-- `CBlock::CheckMerkleBranch`. -/
def checkMerkleBranch (h : α) (vMerkleBranch : List α) (nIndex : Int) : α :=
  if nIndex = -1 then null else checkLoop hash vMerkleBranch nIndex h

/-! ## One level -/

omit [DecidableEq α] in
/-- Hashing a node with the sibling that the loop picks gives the node above
it, on the side that the parity of the index tells. -/
theorem hash_sibling {level : List α} {nIndex : Nat} (h : nIndex < level.length)
    (hsibling : min (nIndex ^^^ 1) (level.length - 1) < level.length)
    (habove : nIndex >>> 1 < (nextLevel hash level).length) :
    (if (nIndex : Int) % 2 = 1
      then hash level[min (nIndex ^^^ 1) (level.length - 1)] level[nIndex]
      else hash level[nIndex] level[min (nIndex ^^^ 1) (level.length - 1)]) =
      (nextLevel hash level)[nIndex >>> 1] := by
  have hhalf : nIndex >>> 1 = nIndex / 2 := Nat.shiftRight_one nIndex
  rw [getElem_nextLevel hash level (nIndex >>> 1) habove (by omega) (by omega)]
  rcases Nat.even_or_odd nIndex with heven | hodd
  · -- a left child, whose right sibling may be missing
    have hxor : nIndex ^^^ 1 = nIndex + 1 := Nat.xor_one_of_even heven
    have hmod := Nat.even_iff.mp heven
    have hleft : 2 * (nIndex >>> 1) = nIndex := by omega
    rw [if_neg (by omega)]
    simp only [hxor, hleft]
  · -- a right child, whose left sibling is there
    have hxor : nIndex ^^^ 1 = nIndex - 1 := Nat.xor_one_of_odd hodd
    have hmod := Nat.odd_iff.mp hodd
    have hleft : 2 * (nIndex >>> 1) = nIndex - 1 := by omega
    have hfirst : min (nIndex - 1) (level.length - 1) = nIndex - 1 := by omega
    have hsecond : min (nIndex - 1 + 1) (level.length - 1) = nIndex := by omega
    rw [if_pos (by omega)]
    simp only [hxor, hleft, hfirst, hsecond]

/-! ## The climb -/

omit [DecidableEq α] in
/-- **The branch leads to the top.**  The offset `j` is the start of a level in
the vector; the two loops go up the same levels, so that the hash carried along
is the node of its level at the halved index. -/
theorem checkLoop_branchLoop (fuel : Nat) :
    ∀ (pre level : List α) (nIndex : Nat) (h : nIndex < level.length),
      level.length ≤ fuel →
      [checkLoop hash (branchLoop null (pre ++ tower hash level) fuel pre.length
        level.length nIndex) nIndex level[nIndex]] = top hash level := by
  induction fuel with
  | zero =>
      intro pre level nIndex h hlen
      omega
  | succ fuel ih =>
      intro pre level nIndex h hlen
      rw [branchLoop]
      split
      · next hlt =>
          have hhalf : nIndex >>> 1 = nIndex / 2 := Nat.shiftRight_one nIndex
          have hsibling : min (nIndex ^^^ 1) (level.length - 1) < level.length := by
            omega
          have habove : nIndex >>> 1 < (nextLevel hash level).length := by
            rw [length_nextLevel]
            omega
          have hread : (pre ++ tower hash level).getD
              (pre.length + min (nIndex ^^^ 1) (level.length - 1)) null =
                level[min (nIndex ^^^ 1) (level.length - 1)] := by
            rw [List.getD_append_right _ _ _ _ (by omega), Nat.add_sub_cancel_left,
              tower_of_one_lt hash hlt, List.getD_append _ _ _ _ hsibling,
              List.getD_eq_getElem _ _ hsibling]
          have hpre : pre.length + level.length = (pre ++ level).length :=
            List.length_append.symm
          have hnext : (level.length + 1) / 2 = (nextLevel hash level).length :=
            (length_nextLevel hash level).symm
          have hshift : (nIndex : Int) >>> 1 = ((nIndex >>> 1 : Nat) : Int) := rfl
          have hup := ih (pre ++ level) (nextLevel hash level) (nIndex >>> 1) habove
            (by rw [length_nextLevel]; omega)
          rw [List.append_assoc, ← tower_of_one_lt hash hlt] at hup
          rw [top_of_one_lt hash hlt, ← hup, checkLoop, hread,
            hash_sibling hash h hsibling habove, hshift, hpre, hnext]
      · next hle =>
          have hone : level.length = 1 := by omega
          rcases List.length_eq_one_iff.mp hone with ⟨root, hroot⟩
          have hzero : nIndex = 0 := by omega
          rw [top_of_length_le hash (by omega), checkLoop]
          simp only [hzero, hroot, List.getElem_cons_zero]

/-! ## The cache -/

/-- What is asked of a block. -/
inductive TreeCall
  | build
  | branch (nIndex : Nat)

/-- What a call leaves of the block. -/
def CBlock.call (block : CBlock α) : TreeCall → CBlock α
  | .build => (block.buildMerkleTree hash null).1
  | .branch nIndex => (block.getMerkleBranch hash null nIndex).1

/-- A block as it is read, after a number of calls. -/
def CBlock.afterCalls (vtx : List α) (calls : List TreeCall) : CBlock α :=
  calls.foldl (CBlock.call hash null) { vtx := vtx }

/-- The tree in memory is not there, or the one that `BuildMerkleTree` builds. -/
structure CBlock.Fresh (block : CBlock α) (vtx : List α) : Prop where
  vtx_eq : block.vtx = vtx
  cache : block.vMerkleTree = [] ∨ block.vMerkleTree = tower hash vtx

theorem CBlock.fresh_build {block : CBlock α} {vtx : List α} (h : block.vtx = vtx) :
    (block.buildMerkleTree hash null).1.Fresh hash vtx where
  vtx_eq := h
  cache := by
    right
    show (BlockTree.buildMerkleTree hash null block.vtx).vMerkleTree = _
    rw [buildMerkleTree_eq, h]

theorem CBlock.Fresh.call {block : CBlock α} {vtx : List α}
    (h : block.Fresh hash vtx) (c : TreeCall) :
    (block.call hash null c).Fresh hash vtx := by
  cases c with
  | build => exact fresh_build hash null h.vtx_eq
  | branch nIndex =>
      simp only [CBlock.call, CBlock.getMerkleBranch]
      split
      · exact fresh_build hash null h.vtx_eq
      · exact h

theorem CBlock.fresh_afterCalls (vtx : List α) (calls : List TreeCall) :
    (CBlock.afterCalls hash null vtx calls).Fresh hash vtx := by
  have hrun : ∀ block : CBlock α, block.Fresh hash vtx →
      (calls.foldl (CBlock.call hash null) block).Fresh hash vtx := by
    induction calls with
    | nil => exact fun block h => h
    | cons c calls ih => exact fun block h => ih _ (h.call hash null c)
  exact hrun _ ⟨rfl, Or.inl rfl⟩

/-- The branch is read out of the tower of levels. -/
theorem CBlock.Fresh.getMerkleBranch {block : CBlock α} {vtx : List α}
    (h : block.Fresh hash vtx) (hne : vtx ≠ []) (nIndex : Nat) :
    (block.getMerkleBranch hash null nIndex).2 =
      branchLoop null (tower hash vtx) vtx.length 0 vtx.length nIndex := by
  have hbuilt : ∀ b : CBlock α, b.Fresh hash vtx → b.vMerkleTree ≠ [] →
      branchLoop null b.vMerkleTree b.vtx.length 0 b.vtx.length nIndex =
        branchLoop null (tower hash vtx) vtx.length 0 vtx.length nIndex := by
    intro b hb hcache
    rw [hb.cache.resolve_left hcache, hb.vtx_eq]
  have htower : tower hash vtx ≠ [] := by
    rcases tower_suffix hash vtx with ⟨below, hbelow⟩
    intro hnil
    have hlength := length_top hash hne
    rw [hnil] at hbelow
    rw [(List.append_eq_nil_iff.mp hbelow.symm).2] at hlength
    exact absurd hlength (Nat.zero_ne_one)
  simp only [CBlock.getMerkleBranch]
  split
  · apply hbuilt _ (fresh_build hash null h.vtx_eq)
    show (BlockTree.buildMerkleTree hash null block.vtx).vMerkleTree ≠ []
    rw [buildMerkleTree_eq, h.vtx_eq]
    exact htower
  · next hcache => exact hbuilt block h (by simpa using hcache)

/-- **Branches lead to the root.**  Whatever was asked of a block before, the
branch of each of its transactions hashes up to the root that `BuildMerkleTree`
computes. -/
theorem checkMerkleBranch_getMerkleBranch (vtx : List α) (calls : List TreeCall)
    (i : Nat) (h : i < vtx.length) :
    let block := CBlock.afterCalls hash null vtx calls
    checkMerkleBranch hash null vtx[i] (block.getMerkleBranch hash null i).2 i =
      (block.buildMerkleTree hash null).2 := by
  intro block
  have hne : vtx ≠ [] := List.ne_nil_of_length_pos (by omega)
  have hfresh := CBlock.fresh_afterCalls hash null vtx calls
  have hroot : (block.buildMerkleTree hash null).2 = merkleRoot hash null vtx := by
    show merkleRoot hash null block.vtx = _
    rw [hfresh.vtx_eq]
  have htop := checkLoop_branchLoop hash null vtx.length [] vtx i h (Nat.le_refl _)
  rw [top_eq_merkleRoot hash null hne] at htop
  rw [hroot, hfresh.getMerkleBranch hash null hne, checkMerkleBranch,
    if_neg (by omega)]
  exact List.cons.inj htop |>.1

theorem checkMerkleBranch_getMerkleBranch_three :
    checkMerkleBranch TermHash.node (.leaf 0) (.leaf 3)
        ((CBlock.afterCalls TermHash.node (.leaf 0) [.leaf 1, .leaf 2, .leaf 3]
          [.branch 0]).getMerkleBranch TermHash.node (.leaf 0) 2).2 2 =
      .node (.node (.leaf 1) (.leaf 2)) (.node (.leaf 3) (.leaf 3)) :=
  checkMerkleBranch_getMerkleBranch TermHash.node (.leaf 0)
    [.leaf 1, .leaf 2, .leaf 3] [.branch 0] 2 (by decide)

end Agrarian.Merkle.BlockTree
