import Agrarian.Lib.PairHash
import Agrarian.Primitives

/-!
# The merkle tree of a block

`CBlock::BuildMerkleTree` keeps every level of the tree in one vector
`vMerkleTree`: the leaves first, each pass of the inner loop appending the
next level, with `j` the offset of the level being read.  It reports
`mutated` when a level ends in two equal hashes, and `CheckBlock` turns that
report into a rejection.

The loops below work on the indices of that vector.  `outerLoop_eq` reads
their result off the levels of `Lib.PairHash`, and everything after it talks
about levels only.  The hash of two nodes is a parameter, so that no
assumption about it is hidden in a definition.
-/

namespace Agrarian.Merkle.BlockTree

open Agrarian.Lib.PairHash

variable {α : Type} [DecidableEq α] (hash : α → α → α) (null : α)

/-! ## `BuildMerkleTree` -/

/-- The vector of nodes built so far and the mutation flag. -/
structure TreeState (α : Type) where
  vMerkleTree : List α
  mutated : Bool

/-- The body of the inner loop at `i = 2 * k`. -/
def innerBody (j nSize : Nat) (s : TreeState α) (k : Nat) : TreeState α :=
  let i := 2 * k
  let i2 := min (i + 1) (nSize - 1)
  let left := s.vMerkleTree.getD (j + i) null
  let right := s.vMerkleTree.getD (j + i2) null
  -- two identical hashes at the end of the list at a particular level
  let twin := decide (i2 = i + 1) && decide (i2 + 1 = nSize) && left == right
  { vMerkleTree := s.vMerkleTree ++ [hash left right]
    mutated := s.mutated || twin }

/-- `for (i = 0; i < nSize; i += 2)`. -/
def innerLoop (j nSize : Nat) (s : TreeState α) : TreeState α :=
  (List.range ((nSize + 1) / 2)).foldl (innerBody hash null j nSize) s

/-- `for (; nSize > 1; nSize = (nSize + 1) / 2)`, where every round at least
halves `nSize`, so that the number of leaves bounds the rounds. -/
def outerLoop : Nat → Nat → Nat → TreeState α → TreeState α
  | 0, _, _, s => s
  | fuel + 1, j, nSize, s =>
      if nSize > 1 then
        outerLoop fuel (j + nSize) ((nSize + 1) / 2)
          (innerLoop hash null j nSize s)
      else s

/-- The state after both loops, from the transactions' hashes. -/
def buildMerkleTree (vtx : List α) : TreeState α :=
  outerLoop hash null vtx.length 0 vtx.length ⟨vtx, false⟩

/-- The returned root: the last node, or the null hash without nodes. -/
def merkleRoot (vtx : List α) : α :=
  (buildMerkleTree hash null vtx).vMerkleTree.getLast?.getD null

/-- The `mutated` flag the call reports. -/
def merkleMutated (vtx : List α) : Bool :=
  (buildMerkleTree hash null vtx).mutated

/-- The merkle checks of `CheckBlock` and the emptiness check after them. -/
def checkBlockMerkle (hashMerkleRoot : α) (vtx : List α) :
    Except String Unit :=
  if hashMerkleRoot ≠ merkleRoot hash null vtx then
    .error "bad-txnmrklroot"
  else if merkleMutated hash null vtx then
    .error "bad-txns-duplicate"
  else if vtx.isEmpty then
    .error "bad-blk-length"
  else .ok ()

/-! ## The loops compute the levels -/

/-- The inner loop after `k` rounds: `k` nodes of the next level appended,
and the flag raised once the last pair has been looked at. -/
theorem innerLoop_steps (pre level : List α) (m : Bool)
    (hlt : 1 < level.length) (k : Nat) (hk : k ≤ (level.length + 1) / 2) :
    (List.range k).foldl (innerBody hash null pre.length level.length)
        ⟨pre ++ level, m⟩ =
      ⟨pre ++ level ++ (nextLevel hash level).take k,
        m || (decide (level.length ≤ 2 * k) && lastPairEq level)⟩ := by
  induction k with
  | zero =>
      have hpos : ¬ level.length ≤ 2 * 0 := by omega
      rw [decide_eq_false hpos]
      simp
  | succ k ih =>
      have hklt : k < (nextLevel hash level).length := by
        rw [length_nextLevel]
        omega
      have hl : 2 * k < level.length := by omega
      have hr : min (2 * k + 1) (level.length - 1) < level.length := by omega
      have hleft : (pre ++ level ++ (nextLevel hash level).take k).getD
          (pre.length + 2 * k) null = level[2 * k] := by
        rw [List.append_assoc, List.getD_append_right _ _ _ _ (by omega),
          Nat.add_sub_cancel_left, List.getD_append _ _ _ _ hl,
          List.getD_eq_getElem _ _ hl]
      have hright : (pre ++ level ++ (nextLevel hash level).take k).getD
          (pre.length + min (2 * k + 1) (level.length - 1)) null =
            level[min (2 * k + 1) (level.length - 1)] := by
        rw [List.append_assoc, List.getD_append_right _ _ _ _ (by omega),
          Nat.add_sub_cancel_left, List.getD_append _ _ _ _ hr,
          List.getD_eq_getElem _ _ hr]
      rw [List.range_succ, List.foldl_append, ih (by omega)]
      simp only [List.foldl_cons, List.foldl_nil, innerBody, hleft, hright,
        TreeState.mk.injEq]
      constructor
      · rw [List.take_succ_eq_append_getElem hklt,
          getElem_nextLevel hash level k hklt hl hr, List.append_assoc]
      · -- the pair read in this round is the last one exactly when the
        -- level ends here
        by_cases heven : level.length = 2 * k + 2
        · have hmin : min (2 * k + 1) (level.length - 1) = 2 * k + 1 := by
            omega
          have hbefore : ¬ level.length ≤ 2 * k := by omega
          have hafter : level.length ≤ 2 * (k + 1) := by omega
          rw [lastPairEq_of_even heven, decide_eq_false hbefore,
            decide_eq_true hafter]
          simp [heven]
        · by_cases hodd : level.length = 2 * k + 1
          · rw [lastPairEq_of_odd hodd]
            simp [hodd]
          · have hbefore : ¬ level.length ≤ 2 * k := by omega
            have hafter : ¬ level.length ≤ 2 * (k + 1) := by omega
            have hend : ¬ min (2 * k + 1) (level.length - 1) + 1 =
                level.length := by omega
            simp [hbefore, hafter, hend]

/-- One round of the outer loop appends the next level. -/
theorem innerLoop_eq (pre level : List α) (m : Bool)
    (hlt : 1 < level.length) :
    innerLoop hash null pre.length level.length ⟨pre ++ level, m⟩ =
      ⟨pre ++ level ++ nextLevel hash level, m || lastPairEq level⟩ := by
  have hend : level.length ≤ 2 * ((level.length + 1) / 2) := by omega
  rw [innerLoop, innerLoop_steps hash null pre level m hlt _ (Nat.le_refl _),
    List.take_of_length_le (by simp)]
  simp [hend]

/-- **The outer loop** leaves the tower of levels in the vector and reports
whether one of them ends in an equal pair. -/
theorem outerLoop_eq (fuel : Nat) :
    ∀ (pre level : List α) (m : Bool), level.length ≤ fuel →
      outerLoop hash null fuel pre.length level.length ⟨pre ++ level, m⟩ =
        ⟨pre ++ tower hash level, m || Lib.PairHash.mutated hash level⟩ := by
  induction fuel with
  | zero =>
      intro pre level m hlen
      have hle : level.length ≤ 1 := by omega
      rw [outerLoop, tower_of_length_le hash hle, mutated_of_length_le hash hle,
        Bool.or_false]
  | succ fuel ih =>
      intro pre level m hlen
      rw [outerLoop]
      split
      · next hlt =>
          have hpre : pre.length + level.length = (pre ++ level).length := by
            simp
          have hnext : (level.length + 1) / 2 =
              (nextLevel hash level).length := by simp
          rw [innerLoop_eq hash null pre level m hlt, hpre, hnext,
            ih (pre ++ level) (nextLevel hash level) _
              (by rw [length_nextLevel]; omega),
            tower_of_one_lt hash hlt, mutated_of_one_lt hash hlt,
            List.append_assoc, Bool.or_assoc]
      · next hle =>
          have hle' : level.length ≤ 1 := by omega
          rw [tower_of_length_le hash hle', mutated_of_length_le hash hle',
            Bool.or_false]

theorem buildMerkleTree_eq (vtx : List α) :
    buildMerkleTree hash null vtx =
      ⟨tower hash vtx, Lib.PairHash.mutated hash vtx⟩ := by
  simpa [buildMerkleTree] using outerLoop_eq hash null vtx.length [] vtx false (Nat.le_refl _)

theorem merkleMutated_eq (vtx : List α) :
    merkleMutated hash null vtx = Lib.PairHash.mutated hash vtx := by
  rw [merkleMutated, buildMerkleTree_eq]

/-- The root of a block with transactions is the only node of the last
level. -/
theorem top_eq_merkleRoot {vtx : List α} (h : vtx ≠ []) :
    top hash vtx = [merkleRoot hash null vtx] := by
  obtain ⟨root, hroot⟩ := List.length_eq_one_iff.mp (length_top hash h)
  obtain ⟨below, hbelow⟩ := tower_suffix hash vtx
  rw [merkleRoot, buildMerkleTree_eq, hbelow, hroot]
  simp

example : (buildMerkleTree (· * 10 + ·) 0 [1, 2, 3]).vMerkleTree =
    [1, 2, 3, 12, 33, 153] := by decide

/-! ## Colliding transaction lists -/

theorem eq_of_merkleRoot_eq {vtx vtx' : List α}
    (hinj : ∀ a b c d, hash a b = hash c d → a = c ∧ b = d)
    (hleaf : ∀ x ∈ vtx ++ vtx', ∀ a b, x ≠ hash a b)
    (hne : vtx ≠ []) (hne' : vtx' ≠ [])
    (hclean : merkleMutated hash null vtx = false)
    (hclean' : merkleMutated hash null vtx' = false)
    (hroot : merkleRoot hash null vtx = merkleRoot hash null vtx') :
    vtx = vtx' := by
  rw [merkleMutated_eq] at hclean hclean'
  have htop : top hash vtx = top hash vtx' := by
    rw [top_eq_merkleRoot hash null hne, top_eq_merkleRoot hash null hne',
      hroot]
  rcases eq_or_level_of_top_eq hash hinj _ vtx vtx' (Nat.le_refl _) hne hne'
    hclean hclean' htop with heq | ⟨k, hk⟩ | ⟨k, hk⟩
  · exact heq
  · -- the leaves of `vtx` would be inner nodes over `vtx'`
    obtain ⟨x, hx⟩ := List.exists_mem_of_ne_nil vtx hne
    have hx' := hx
    rw [hk] at hx'
    obtain ⟨a, b, hab⟩ := mem_level_succ hash hx'
    exact absurd hab (hleaf x (List.mem_append_left _ hx) a b)
  · obtain ⟨x, hx⟩ := List.exists_mem_of_ne_nil vtx' hne'
    have hx' := hx
    rw [hk] at hx'
    obtain ⟨a, b, hab⟩ := mem_level_succ hash hx'
    exact absurd hab (hleaf x (List.mem_append_right _ hx) a b)

theorem checkBlockMerkle_ok {hashMerkleRoot : α} {vtx : List α}
    (h : checkBlockMerkle hash null hashMerkleRoot vtx = .ok ()) :
    hashMerkleRoot = merkleRoot hash null vtx ∧
      merkleMutated hash null vtx = false ∧ vtx ≠ [] := by
  unfold checkBlockMerkle at h
  split at h
  · cases h
  · next hroot =>
      split at h
      · cases h
      · next hmut =>
          split at h
          · cases h
          · next hempty =>
              exact ⟨not_not.mp hroot, by simpa using hmut,
                by simpa using hempty⟩

/-- **Merkle malleability is detected.**  Of two different transaction lists
with one root, both with transactions, at least one is reported as mutated;
so for every root `CheckBlock` lets at most one list through. -/
theorem merkle_collision_detected
    (hinj : ∀ a b c d, hash a b = hash c d → a = c ∧ b = d)
    (vtx vtx' : List α) (hleaf : ∀ x ∈ vtx ++ vtx', ∀ a b, x ≠ hash a b) :
    (vtx ≠ [] → vtx' ≠ [] → vtx ≠ vtx' →
      merkleRoot hash null vtx = merkleRoot hash null vtx' →
      merkleMutated hash null vtx = true ∨
        merkleMutated hash null vtx' = true) ∧
    ∀ hashMerkleRoot,
      checkBlockMerkle hash null hashMerkleRoot vtx = .ok () →
      checkBlockMerkle hash null hashMerkleRoot vtx' = .ok () →
      vtx = vtx' := by
  constructor
  · intro hne hne' hdiff hroot
    by_contra hclean
    rw [not_or, Bool.not_eq_true, Bool.not_eq_true] at hclean
    exact hdiff (eq_of_merkleRoot_eq hash null hinj hleaf hne hne'
      hclean.1 hclean.2 hroot)
  · intro hashMerkleRoot hok hok'
    obtain ⟨hroot, hclean, hne⟩ := checkBlockMerkle_ok hash null hok
    obtain ⟨hroot', hclean', hne'⟩ := checkBlockMerkle_ok hash null hok'
    exact eq_of_merkleRoot_eq hash null hinj hleaf hne hne' hclean hclean'
      (hroot.symm.trans hroot')

/-- Hashes as terms: a pair hash without collisions, whose leaves are not
inner nodes. -/
inductive TermHash where
  | leaf (txid : Nat)
  | node (left right : TermHash)
  deriving DecidableEq

theorem TermHash.node_inj (a b c d : TermHash)
    (h : TermHash.node a b = TermHash.node c d) : a = c ∧ b = d :=
  TermHash.node.inj h

theorem merkle_collision_detected_three :
    merkleMutated TermHash.node (.leaf 0) [.leaf 1, .leaf 2, .leaf 3] = true ∨
      merkleMutated TermHash.node (.leaf 0)
        [.leaf 1, .leaf 2, .leaf 3, .leaf 3] = true :=
  (merkle_collision_detected TermHash.node (.leaf 0) TermHash.node_inj
    [.leaf 1, .leaf 2, .leaf 3] [.leaf 1, .leaf 2, .leaf 3, .leaf 3]
    (by simp)).1 (by decide) (by decide) (by decide) (by decide)

/-- A list without transactions has the null hash as root, and so does the
list of the null hash alone: neither is reported as mutated. -/
theorem merkle_collision_empty :
    ¬ ∀ vtx vtx' : List TermHash,
      (∀ x ∈ vtx ++ vtx', ∀ a b, x ≠ TermHash.node a b) → vtx ≠ vtx' →
      merkleRoot TermHash.node (.leaf 0) vtx =
        merkleRoot TermHash.node (.leaf 0) vtx' →
      merkleMutated TermHash.node (.leaf 0) vtx = true ∨
        merkleMutated TermHash.node (.leaf 0) vtx' = true := by
  intro h
  have := h [] [.leaf 0] (by simp) (by decide) (by decide)
  revert this
  decide

end Agrarian.Merkle.BlockTree
