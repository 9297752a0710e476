import Agrarian.Merkle.PartialTree

/-!
# What a partial merkle tree can make a peer believe

The bits and the hashes of a partial merkle tree come from an untrusted peer.
When extraction arrives at the merkle root of a list of txids, every node it
has computed on the way is the node of that list's tree at the same place, as
long as no two different pairs met have one hash; so the matched hashes
it reports are txids, in order.

Extraction returns 0 when it fails, with the hashes matched so far, so that
the root has to be another one.
-/

namespace Agrarian.Merkle.PartialTree

open Agrarian.Merkle.BlockTree

variable (hash : Uint256 → Uint256 → Uint256)

/-! ## The pairs hashed -/

/-- The pairs `TraverseAndExtract` hashes on its way. -/
def extractedPairs (t : CPartialMerkleTree) :
    Nat → Nat → ExtractState → List (Uint256 × Uint256)
  | 0, _, _ => []
  | height + 1, pos, s =>
      if s.nBitsUsed ≥ t.vBits.length then []
      else
        let fParentOfMatch := t.vBits.getD s.nBitsUsed false
        let s := { s with nBitsUsed := s.nBitsUsed + 1 }
        if !fParentOfMatch then []
        else
          let pairs := extractedPairs t height (pos * 2) s
          let (left, s) := traverseAndExtract hash t height (pos * 2) s
          if pos * 2 + 1 < calcTreeWidth t.nTransactions height then
            let pairs' := extractedPairs t height (pos * 2 + 1) s
            let (right, _) := traverseAndExtract hash t height (pos * 2 + 1) s
            (left, right) :: (pairs ++ pairs')
          else (left, left) :: pairs

/-- The two hashes below an inner node of a list's tree. -/
def childHashes (vTxid : List Uint256) (height pos : Nat) : Uint256 × Uint256 :=
  let left := calcHash hash vTxid height (pos * 2)
  (left,
    if pos * 2 + 1 < calcTreeWidth vTxid.length height then
      calcHash hash vTxid height (pos * 2 + 1)
    else left)

/-- The pairs hashed in a list's tree. -/
def treePairs (vTxid : List Uint256) : List (Uint256 × Uint256) :=
  (List.range (treeHeight vTxid.length)).flatMap fun height =>
    (List.range (calcTreeWidth vTxid.length (height + 1))).map fun pos =>
      childHashes hash vTxid height pos

/-- No pair of the one list has the hash of another pair of the other. -/
def NoCollision (pairs pairs' : List (Uint256 × Uint256)) : Prop :=
  ∀ p ∈ pairs, ∀ p' ∈ pairs', hash p.1 p.2 = hash p'.1 p'.2 → p = p'

instance (pairs pairs' : List (Uint256 × Uint256)) :
    Decidable (NoCollision hash pairs pairs') :=
  decidable_of_iff ((pairs.all fun p => pairs'.all fun p' =>
    decide (hash p.1 p.2 = hash p'.1 p'.2 → p = p')) = true) (by
      simp only [NoCollision, List.all_eq_true, decide_eq_true_eq])

section NoCollision

variable {hash} {p : Uint256 × Uint256}
  {pairs pairs' tree : List (Uint256 × Uint256)}

theorem NoCollision.tail (h : NoCollision hash (p :: pairs) tree) :
    NoCollision hash pairs tree :=
  fun q hq => h q (List.mem_cons_of_mem p hq)

theorem NoCollision.left (h : NoCollision hash (pairs ++ pairs') tree) :
    NoCollision hash pairs tree :=
  fun q hq => h q (List.mem_append_left pairs' hq)

theorem NoCollision.right (h : NoCollision hash (pairs ++ pairs') tree) :
    NoCollision hash pairs' tree :=
  fun q hq => h q (List.mem_append_right pairs hq)

end NoCollision

theorem calcHash_succ (vTxid : List Uint256) (height pos : Nat) :
    calcHash hash vTxid (height + 1) pos =
      hash (childHashes hash vTxid height pos).1
        (childHashes hash vTxid height pos).2 := rfl

theorem childHashes_mem_treePairs {vTxid : List Uint256} {height pos : Nat}
    (hheight : height < treeHeight vTxid.length)
    (hpos : pos < calcTreeWidth vTxid.length (height + 1)) :
    childHashes hash vTxid height pos ∈ treePairs hash vTxid :=
  List.mem_flatMap.mpr ⟨height, List.mem_range.mpr hheight,
    List.mem_map.mpr ⟨pos, List.mem_range.mpr hpos, rfl⟩⟩

/-! ## The txids below a node -/

/-- The txids below a node of a list's tree. -/
def txidsBelow (vTxid : List Uint256) (height pos : Nat) : List Uint256 :=
  (vTxid.drop (pos * 2 ^ height)).take (2 ^ height)

theorem txidsBelow_succ (vTxid : List Uint256) (height pos : Nat) :
    txidsBelow vTxid (height + 1) pos =
      txidsBelow vTxid height (pos * 2) ++
        txidsBelow vTxid height (pos * 2 + 1) := by
  have hstart : pos * 2 ^ (height + 1) = pos * 2 * 2 ^ height := by
    rw [Nat.pow_succ]
    ring
  have hnext : (pos * 2 + 1) * 2 ^ height =
      pos * 2 * 2 ^ height + 2 ^ height := by ring
  rw [txidsBelow, txidsBelow, txidsBelow, hstart, hnext, Nat.pow_succ,
    Nat.mul_two, List.take_add, List.drop_drop]

theorem txidsBelow_zero {vTxid : List Uint256} {pos : Nat}
    (hpos : pos < vTxid.length) : txidsBelow vTxid 0 pos = [vTxid.getD pos 0] := by
  rw [txidsBelow, Nat.pow_zero, Nat.mul_one, List.drop_eq_getElem_cons hpos,
    List.getD_eq_getElem _ _ hpos]
  rfl

/-- What extraction has reported since a state: some of the given ids. -/
def ReportsOf (ids : List Uint256) (s s' : ExtractState) : Prop :=
  ∃ found, s'.vMatch = s.vMatch ++ found ∧ found.Sublist ids

theorem reportsOf_of_eq {ids : List Uint256} {s s' : ExtractState}
    (h : s'.vMatch = s.vMatch) : ReportsOf ids s s' :=
  ⟨[], by rw [h, List.append_nil], List.nil_sublist ids⟩

theorem ReportsOf.append {ids ids' : List Uint256} {s s' s'' : ExtractState}
    (h : ReportsOf ids s s') (h' : ReportsOf ids' s' s'') :
    ReportsOf (ids ++ ids') s s'' := by
  obtain ⟨found, hfound, hsub⟩ := h
  obtain ⟨found', hfound', hsub'⟩ := h'
  exact ⟨found ++ found', by rw [hfound', hfound, List.append_assoc],
    hsub.append hsub'⟩

theorem takeHash_false_vMatch (t : CPartialMerkleTree) (s : ExtractState) :
    (takeHash t false s).2.vMatch = s.vMatch := by
  rw [takeHash]
  split <;> rfl

theorem takeHash_reportsOf (t : CPartialMerkleTree) (isMatch : Bool)
    (s : ExtractState) :
    ReportsOf [(takeHash t isMatch s).1] s (takeHash t isMatch s).2 := by
  cases isMatch with
  | false => exact reportsOf_of_eq (takeHash_false_vMatch t s)
  | true =>
      rw [takeHash]
      split
      · exact reportsOf_of_eq rfl
      · exact ⟨_, rfl, List.Sublist.refl _⟩

/-! ## Extraction -/

/-- **One node.**  Extraction that arrives at the hash of a node of the
list's tree has reported only txids below that node.  The hash of an inner
node is that of its children's hashes, and as no other pair has it the
children are those of the list's tree as well. -/
theorem traverseAndExtract_sublist (t : CPartialMerkleTree)
    (vTxid : List Uint256) (hn : t.nTransactions = vTxid.length)
    (height : Nat) :
    ∀ (pos : Nat) (s : ExtractState), height ≤ treeHeight vTxid.length →
      pos < calcTreeWidth vTxid.length height →
      NoCollision hash (extractedPairs hash t height pos s)
        (treePairs hash vTxid) →
      (traverseAndExtract hash t height pos s).1 =
        calcHash hash vTxid height pos →
      ReportsOf (txidsBelow vTxid height pos) s
        (traverseAndExtract hash t height pos s).2 := by
  induction height with
  | zero =>
      intro pos s _ hpos _ hnode
      rw [calcTreeWidth_zero] at hpos
      rw [txidsBelow_zero hpos]
      rw [traverseAndExtract] at hnode ⊢
      split
      · exact reportsOf_of_eq rfl
      · next hbits =>
          rw [if_neg hbits] at hnode
          have hreports := takeHash_reportsOf t
            (t.vBits.getD s.nBitsUsed false)
            { s with nBitsUsed := s.nBitsUsed + 1 }
          rw [hnode] at hreports
          exact hreports
  | succ height ih =>
      intro pos s hheight hpos hfree hnode
      rw [traverseAndExtract] at hnode ⊢
      rw [extractedPairs] at hfree
      split
      · exact reportsOf_of_eq rfl
      next hbits =>
      rw [if_neg hbits] at hnode hfree
      cases hbit : t.vBits.getD s.nBitsUsed false with
      | false =>
          simp only [Bool.not_false, if_true]
          exact reportsOf_of_eq (takeHash_false_vMatch t _)
      | true =>
          have hmem := childHashes_mem_treePairs hash
            (by omega : height < treeHeight vTxid.length) hpos
          rw [calcHash_succ] at hnode
          simp only [hbit, Bool.not_true, Bool.false_eq_true, if_false, hn]
            at hnode hfree ⊢
          have hleft := ih (pos * 2) { s with nBitsUsed := s.nBitsUsed + 1 }
            (by omega) (width_left hpos)
          generalize traverseAndExtract hash t height (pos * 2)
            { s with nBitsUsed := s.nBitsUsed + 1 } = walk at *
          obtain ⟨left, sLeft⟩ := walk
          rw [txidsBelow_succ]
          by_cases hwidth : pos * 2 + 1 < calcTreeWidth vTxid.length height
          · have hright := ih (pos * 2 + 1) sLeft (by omega) hwidth
            simp only [if_pos hwidth] at hnode hfree ⊢
            generalize traverseAndExtract hash t height (pos * 2 + 1) sLeft =
              walk at *
            obtain ⟨right, sRight⟩ := walk
            have hchildren := hfree (left, right) List.mem_cons_self _ hmem
              hnode
            obtain ⟨rfl, hrightnode⟩ := Prod.mk.inj hchildren
            rw [if_pos hwidth] at hrightnode
            have hrest := hfree.tail
            exact (hleft hrest.left rfl).append
              (hright hrest.right hrightnode)
          · simp only [if_neg hwidth] at hnode hfree ⊢
            have hchildren := hfree (left, left) List.mem_cons_self _ hmem
              hnode
            obtain ⟨rfl, -⟩ := Prod.mk.inj hchildren
            exact (hleft hfree.tail rfl).append (reportsOf_of_eq rfl)

/-- **Matches are txids.**  A partial merkle tree of `n` transactions, with
any bits and hashes, that extracts to the root of a list of `n` txids reports
a subsequence of that list, when the root is not the value returned on
failure and no two different pairs hashed for the one and for the other
collide. -/
theorem extractMatches_sublist (t : CPartialMerkleTree)
    (vTxid : List Uint256) (hn : t.nTransactions = vTxid.length)
    (hfree : NoCollision hash
      (extractedPairs hash t (treeHeight t.nTransactions) 0 ⟨0, 0, [], t.fBad⟩)
      (treePairs hash vTxid))
    (hroot : merkleRoot hash 0 vTxid ≠ 0)
    (hret : (extractMatches hash t).1 = merkleRoot hash 0 vTxid) :
    (extractMatches hash t).2.Sublist vTxid := by
  unfold extractMatches at hret ⊢
  split
  · exact List.nil_sublist vTxid
  next hpos =>
  split
  · exact List.nil_sublist vTxid
  next hmax =>
  split
  · exact List.nil_sublist vTxid
  next hhashes =>
  split
  · exact List.nil_sublist vTxid
  next hbits =>
  rw [if_neg hpos, if_neg hmax, if_neg hhashes, if_neg hbits] at hret
  have hne : vTxid ≠ [] := by
    rintro rfl
    exact hpos hn
  have hwalk := traverseAndExtract_sublist hash t vTxid hn
    (treeHeight vTxid.length) 0 ⟨0, 0, [], t.fBad⟩ (Nat.le_refl _)
    (one_le_calcTreeWidth (List.length_pos_iff.mpr hne) _)
  rw [calcHash_root hash hne, ← hn] at hwalk
  specialize hwalk hfree
  generalize traverseAndExtract hash t (treeHeight t.nTransactions) 0
    ⟨0, 0, [], t.fBad⟩ = walk at *
  obtain ⟨hashMerkleRoot, s⟩ := walk
  dsimp only at hret hwalk ⊢
  split
  · next hbad =>
      rw [if_pos hbad] at hret
      exact absurd hret.symm hroot
  next hbad =>
  split
  · next hused =>
      rw [if_neg hbad, if_pos hused] at hret
      exact absurd hret.symm hroot
  next hused =>
  split
  · next hused' =>
      rw [if_neg hbad, if_neg hused, if_pos hused'] at hret
      exact absurd hret.symm hroot
  next hused' =>
  rw [if_neg hbad, if_neg hused, if_neg hused'] at hret
  obtain ⟨found, hfound, hsub⟩ := hwalk hret
  rw [List.nil_append] at hfound
  rw [hfound]
  exact hsub.trans ((List.take_sublist _ _).trans (List.drop_sublist _ _))

/-- A tree of three txids in which only the third is matched. -/
theorem extractMatches_sublist_three :
    (extractMatches (fun a b => 3 * a + 5 * b)
      ⟨3, [true, false, true, true], [13, 3], false⟩).2.Sublist [1, 2, 3] :=
  extractMatches_sublist (fun a b => 3 * a + 5 * b)
    ⟨3, [true, false, true, true], [13, 3], false⟩ [1, 2, 3] rfl
    (by decide +kernel) (by decide +kernel) (by decide +kernel)

/-- The root of a block of one null txid is the value returned on failure:
the bits of a second byte are not used, and the hash has been reported. -/
theorem extractMatches_null_root :
    ¬ ∀ (hash : Uint256 → Uint256 → Uint256) (t : CPartialMerkleTree)
      (vTxid : List Uint256), t.nTransactions = vTxid.length →
      NoCollision hash
        (extractedPairs hash t (treeHeight t.nTransactions) 0
          ⟨0, 0, [], t.fBad⟩)
        (treePairs hash vTxid) →
      (extractMatches hash t).1 = merkleRoot hash 0 vTxid →
      (extractMatches hash t).2.Sublist vTxid := by
  intro h
  have hreported : (extractMatches (fun a b => 3 * a + 5 * b)
      ⟨1, List.replicate 9 true, [7], false⟩) = (0, [7]) := rfl
  have hroot : merkleRoot (fun a b : Uint256 => 3 * a + 5 * b) 0 [0] = 0 := rfl
  have hsub := h (fun a b => 3 * a + 5 * b)
    ⟨1, List.replicate 9 true, [7], false⟩ [0] rfl (fun p hp => by cases hp)
    (by rw [hreported, hroot])
  rw [hreported] at hsub
  revert hsub
  decide

end Agrarian.Merkle.PartialTree
