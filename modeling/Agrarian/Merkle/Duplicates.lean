import Agrarian.Merkle.PartialTree

/-!
# Duplicated subtrees in partial merkle trees

`TraverseAndExtract` combines the hashes of two children without comparing
them, while `BuildMerkleTree` reports a tree in which two equal hashes are
combined at the end of a level.  A message that claims one transaction more than
a block has can so send the last one twice and arrive at the root of the block.

The message is read here a second time, by a parser that consumes its bits and
hashes from the front and leaves the tree that they encode.
-/

namespace Agrarian.Merkle.PartialTree

open Agrarian.Lib.PairHash
open Agrarian.Merkle.BlockTree

variable (hash : Uint256 → Uint256 → Uint256)

/-! ## The tree that a message encodes -/

/-- A partial tree as it is sent: a hash, a node whose right child is past the
end of its level, or a node with both children. -/
inductive Supplied
  | stored (node : Uint256)
  | lone (left : Supplied)
  | both (left right : Supplied)

namespace Supplied

/-- The merkle hash of a subtree. -/
def merkle : Supplied → Uint256
  | stored node => node
  | lone left => hash left.merkle left.merkle
  | both left right => hash left.merkle right.merkle

/-- The hashes of the two children of every node sent with both. -/
def siblings : Supplied → List (Uint256 × Uint256)
  | stored _ => []
  | lone left => left.siblings
  | both left right =>
      (left.merkle hash, right.merkle hash) :: (left.siblings ++ right.siblings)

/-- A node is sent with two subtrees of one merkle hash. -/
def repeats : Supplied → Bool
  | stored _ => false
  | lone left => left.repeats
  | both left right =>
      left.merkle hash == right.merkle hash || left.repeats || right.repeats

theorem repeats_eq_false_iff (tree : Supplied) :
    tree.repeats hash = false ↔ ∀ p ∈ tree.siblings hash, p.1 ≠ p.2 := by
  induction tree with
  | stored node => simp [repeats, siblings]
  | lone left ih => exact ih
  | both left right ihLeft ihRight =>
      simp only [repeats, siblings, Bool.or_eq_false_iff, ihLeft, ihRight, beq_eq_false_iff_ne,
        List.forall_mem_cons, List.forall_mem_append, and_assoc]

end Supplied

/-- The parser of the bits and hashes of a node, with what is left of both. -/
def decode (nTransactions : Nat) : Nat → Nat → List Bool → List Uint256 →
    Option (Supplied × List Bool × List Uint256)
  | _, _, [], _ => none
  | 0, _, _ :: bits, hashes =>
      match hashes with
      | [] => none
      | node :: hashes => some (.stored node, bits, hashes)
  | _ + 1, _, false :: bits, hashes =>
      match hashes with
      | [] => none
      | node :: hashes => some (.stored node, bits, hashes)
  | height + 1, pos, true :: bits, hashes => do
      let (left, bits, hashes) ← decode nTransactions height (pos * 2) bits hashes
      if pos * 2 + 1 < calcTreeWidth nTransactions height then
        let (right, bits, hashes) ← decode nTransactions height (pos * 2 + 1) bits hashes
        some (.both left right, bits, hashes)
      else some (.lone left, bits, hashes)

/-- The tree that a message encodes, within the limits on its size, with all of
its hashes and all of its bits but the padding of the last byte. -/
def CPartialMerkleTree.suppliedTree (t : CPartialMerkleTree) : Option Supplied :=
  if t.fBad || decide (t.nTransactions = 0) ||
      decide (t.nTransactions > MAX_BLOCK_SIZE_CURRENT / 60) ||
      decide (t.vHash.length > t.nTransactions) ||
      decide (t.vBits.length < t.vHash.length) then none
  else
    match decode t.nTransactions (treeHeight t.nTransactions) 0 t.vBits t.vHash with
    | some (tree, padding, []) =>
        if (t.vBits.length - padding.length + 7) / 8 = (t.vBits.length + 7) / 8 then some tree
        else none
    | _ => none

/-! ## Extraction -/

/-- The pairs that `TraverseAndExtract` combines where the right hash was sent. -/
def combinedPairs (t : CPartialMerkleTree) :
    Nat → Nat → ExtractState → List (Uint256 × Uint256)
  | 0, _, _ => []
  | height + 1, pos, s =>
      if s.nBitsUsed ≥ t.vBits.length then []
      else
        let fParentOfMatch := t.vBits.getD s.nBitsUsed false
        let s := { s with nBitsUsed := s.nBitsUsed + 1 }
        if !fParentOfMatch then []
        else
          let pairs := combinedPairs t height (pos * 2) s
          let (left, s) := traverseAndExtract hash t height (pos * 2) s
          if pos * 2 + 1 < calcTreeWidth t.nTransactions height then
            let pairs' := combinedPairs t height (pos * 2 + 1) s
            let (right, _) := traverseAndExtract hash t height (pos * 2 + 1) s
            (left, right) :: (pairs ++ pairs')
          else pairs

theorem takeHash_bad {t : CPartialMerkleTree} {isMatch : Bool} {s : ExtractState}
    (h : s.fBad = true) : (takeHash t isMatch s).2.fBad = true := by
  rw [takeHash]
  split
  · rfl
  · exact h

/-- A failure is never taken back. -/
theorem traverseAndExtract_bad (t : CPartialMerkleTree) (height pos : Nat) {s : ExtractState}
    (h : s.fBad = true) : (traverseAndExtract hash t height pos s).2.fBad = true := by
  induction height generalizing pos s with
  | zero =>
      rw [traverseAndExtract]
      split
      · rfl
      · exact takeHash_bad h
  | succ height ih =>
      rw [traverseAndExtract]
      split
      · rfl
      · dsimp only
        split
        · exact takeHash_bad h
        · have hleft := ih (pos * 2) (s := { s with nBitsUsed := s.nBitsUsed + 1 }) h
          split
          · exact ih (pos * 2 + 1) hleft
          · exact hleft

/-- The state has the given bits and hashes still before it. -/
structure Ahead (t : CPartialMerkleTree) (s : ExtractState) (bits : List Bool)
    (hashes : List Uint256) : Prop where
  bits : t.vBits.drop s.nBitsUsed = bits
  hashes : t.vHash.drop s.nHashUsed = hashes
  bits_le : s.nBitsUsed ≤ t.vBits.length
  hashes_le : s.nHashUsed ≤ t.vHash.length

section Ahead

variable {hash} {t : CPartialMerkleTree} {s : ExtractState}

theorem Ahead.nBitsUsed_eq {bits : List Bool} {hashes : List Uint256}
    (h : Ahead t s bits hashes) : t.vBits.length - bits.length = s.nBitsUsed := by
  rw [← h.bits, List.length_drop]
  exact Nat.sub_sub_self h.bits_le

theorem Ahead.hashesUsed_iff {bits : List Bool} {hashes : List Uint256}
    (h : Ahead t s bits hashes) : s.nHashUsed = t.vHash.length ↔ hashes = [] := by
  rw [← h.hashes, List.drop_eq_nil_iff]
  exact ⟨fun heq => Nat.le_of_eq heq.symm, Nat.le_antisymm h.hashes_le⟩

theorem Ahead.noBits {hashes : List Uint256} (h : Ahead t s [] hashes) :
    s.nBitsUsed ≥ t.vBits.length :=
  List.drop_eq_nil_iff.mp h.bits

/-- The next bit is read. -/
theorem Ahead.bit {bit : Bool} {bits : List Bool} {hashes : List Uint256}
    (h : Ahead t s (bit :: bits) hashes) :
    ¬ s.nBitsUsed ≥ t.vBits.length ∧ t.vBits.getD s.nBitsUsed false = bit ∧
      Ahead t { s with nBitsUsed := s.nBitsUsed + 1 } bits hashes := by
  have hlt : s.nBitsUsed < t.vBits.length := by
    by_contra hge
    have hnil := h.bits
    rw [List.drop_eq_nil_of_le (by omega)] at hnil
    cases hnil
  have hdrop := h.bits
  rw [List.drop_eq_getElem_cons hlt, List.cons.injEq] at hdrop
  refine ⟨by omega, ?_, hdrop.2, h.hashes, hlt, h.hashes_le⟩
  rw [List.getD_eq_getElem _ _ hlt, hdrop.1]

/-- Where no hash is left, taking one fails. -/
theorem Ahead.takeHash_nil {bits : List Bool} (h : Ahead t s bits []) (isMatch : Bool) :
    (takeHash t isMatch s).2.fBad = true := by
  rw [takeHash, if_pos (List.drop_eq_nil_iff.mp h.hashes)]

theorem Ahead.takeHash_cons {bits : List Bool} {node : Uint256} {hashes : List Uint256}
    (h : Ahead t s bits (node :: hashes)) (isMatch : Bool) :
    (takeHash t isMatch s).1 = node ∧ (takeHash t isMatch s).2.fBad = s.fBad ∧
      Ahead t (takeHash t isMatch s).2 bits hashes := by
  have hlt : s.nHashUsed < t.vHash.length := by
    by_contra hge
    have hnil := h.hashes
    rw [List.drop_eq_nil_of_le (by omega)] at hnil
    cases hnil
  have hdrop := h.hashes
  rw [List.drop_eq_getElem_cons hlt, List.cons.injEq] at hdrop
  rw [takeHash, if_neg (by omega)]
  refine ⟨?_, rfl, h.bits, hdrop.2, h.bits_le, hlt⟩
  dsimp only
  rw [List.getD_eq_getElem _ _ hlt, hdrop.1]

end Ahead

/-- What extraction does at a node where the parser is at `r`. -/
def Follows (t : CPartialMerkleTree) (s : ExtractState) (node : Uint256)
    (pairs : List (Uint256 × Uint256)) (s' : ExtractState) :
    Option (Supplied × List Bool × List Uint256) → Prop
  | none => s'.fBad = true
  | some (tree, bits, hashes) =>
      node = tree.merkle hash ∧ pairs = tree.siblings hash ∧ s'.fBad = s.fBad ∧
        Ahead t s' bits hashes

/-- Where a hash is taken, with the bit of the node already read. -/
theorem follows_takeHash {t : CPartialMerkleTree} {s : ExtractState} {bits : List Bool}
    {hashes : List Uint256} (isMatch : Bool) :
    Ahead t s bits hashes →
      Follows hash t s (takeHash t isMatch s).1 [] (takeHash t isMatch s).2
        (match hashes with
          | [] => none
          | node :: hashes => some (.stored node, bits, hashes)) := by
  intro h
  cases hashes with
  | nil => exact h.takeHash_nil isMatch
  | cons node hashes =>
      rcases h.takeHash_cons isMatch with ⟨hnode, hbad, hrest⟩
      exact ⟨hnode, rfl, hbad, hrest⟩

/-- **Extraction follows the parser.**  The two recursions take the same turns: at a
node that is decoded the extractor returns its merkle hash, has combined the
hashes of its siblings and moves on behind it; else it fails. -/
theorem traverseAndExtract_decode (t : CPartialMerkleTree) (height : Nat) :
    ∀ (pos : Nat) (s : ExtractState) (bits : List Bool) (hashes : List Uint256),
      Ahead t s bits hashes →
      Follows hash t s (traverseAndExtract hash t height pos s).1
        (combinedPairs hash t height pos s) (traverseAndExtract hash t height pos s).2
        (decode t.nTransactions height pos bits hashes) := by
  induction height with
  | zero =>
      intro pos s bits hashes h
      rw [traverseAndExtract]
      cases bits with
      | nil =>
          rw [if_pos h.noBits]
          simp only [decode]
          rfl
      | cons bit bits =>
          rcases h.bit with ⟨hin, hbit, hnext⟩
          rw [if_neg hin, hbit]
          exact follows_takeHash hash bit hnext
  | succ height ih =>
      intro pos s bits hashes h
      rw [traverseAndExtract, combinedPairs]
      cases bits with
      | nil =>
          rw [if_pos h.noBits]
          simp only [decode]
          rfl
      | cons bit bits =>
          rcases h.bit with ⟨hin, hbit, hnext⟩
          rw [if_neg hin, if_neg hin, hbit]
          cases bit with
          | false =>
              exact follows_takeHash hash false hnext
          | true =>
              simp only [Bool.not_true, Bool.false_eq_true, if_false, decode]
              have hleft := ih (pos * 2) { s with nBitsUsed := s.nBitsUsed + 1 } bits hashes hnext
              cases hdecode : decode t.nTransactions height (pos * 2) bits hashes with
              | none =>
                  rw [hdecode] at hleft
                  split
                  · exact traverseAndExtract_bad hash t height _ hleft
                  · exact hleft
              | some read =>
                  rcases read with ⟨left, bits', hashes'⟩
                  rw [hdecode] at hleft
                  rcases hleft with ⟨hnode, hpairs, hbad, hrest⟩
                  simp only [Option.bind_eq_bind, Option.bind_some]
                  split
                  · have hright := ih (pos * 2 + 1) _ bits' hashes' hrest
                    cases hdecode' : decode t.nTransactions height (pos * 2 + 1) bits' hashes' with
                    | none =>
                        rw [hdecode'] at hright
                        exact hright
                    | some read =>
                        rcases read with ⟨right, bits'', hashes''⟩
                        rw [hdecode'] at hright
                        rcases hright with ⟨hnode', hpairs', hbad', hrest'⟩
                        refine ⟨?_, ?_, hbad'.trans hbad, hrest'⟩
                        · rw [hnode, hnode']
                          rfl
                        · rw [hnode, hnode', hpairs, hpairs']
                          rfl
                  · refine ⟨?_, hpairs, hbad, hrest⟩
                    rw [hnode]
                    rfl

/-- The walk of `ExtractMatches` starts with the whole message ahead. -/
theorem ahead_start (t : CPartialMerkleTree) :
    Ahead t ⟨0, 0, [], t.fBad⟩ t.vBits t.vHash :=
  ⟨rfl, rfl, Nat.zero_le _, Nat.zero_le _⟩

/-- What `ExtractMatches` returns and combines, by the tree that was sent. -/
theorem extractMatches_supplied (t : CPartialMerkleTree) :
    (t.suppliedTree = none ∧ (extractMatches hash t).1 = 0) ∨
      ∃ tree, t.suppliedTree = some tree ∧
        (extractMatches hash t).1 = tree.merkle hash ∧
        combinedPairs hash t (treeHeight t.nTransactions) 0 ⟨0, 0, [], t.fBad⟩ =
          tree.siblings hash := by
  have hwalk := traverseAndExtract_decode hash t (treeHeight t.nTransactions) 0
    ⟨0, 0, [], t.fBad⟩ t.vBits t.vHash (ahead_start t)
  have hbad := traverseAndExtract_bad hash t (treeHeight t.nTransactions) 0
    (s := ⟨0, 0, [], t.fBad⟩)
  simp only [CPartialMerkleTree.suppliedTree, extractMatches]
  generalize traverseAndExtract hash t (treeHeight t.nTransactions) 0 ⟨0, 0, [], t.fBad⟩ = out
    at hwalk hbad
  rcases out with ⟨root, s⟩
  by_cases hzero : t.nTransactions = 0
  · exact .inl (by simp [hzero])
  by_cases hmany : t.nTransactions > MAX_BLOCK_SIZE_CURRENT / 60
  · exact .inl (by simp [hzero, hmany])
  by_cases hhashes : t.vHash.length > t.nTransactions
  · exact .inl (by simp [hzero, hmany, hhashes])
  by_cases hbits : t.vBits.length < t.vHash.length
  · exact .inl (by simp [hzero, hmany, hhashes, hbits])
  rw [if_neg hzero, if_neg hmany, if_neg hhashes, if_neg hbits]
  simp only [hzero, hmany, hhashes, hbits, decide_false, Bool.or_false]
  cases hfBad : t.fBad with
  | true =>
      have hfailed : s.fBad = true := hbad hfBad
      exact .inl (by simp [hfailed])
  | false =>
      cases hdecode : decode t.nTransactions (treeHeight t.nTransactions) 0 t.vBits t.vHash with
      | none =>
          rw [hdecode] at hwalk
          have hfailed : s.fBad = true := hwalk
          exact .inl (by simp [hfailed])
      | some read =>
          rcases read with ⟨tree, padding, hashes⟩
          rw [hdecode] at hwalk
          rcases hwalk with ⟨hroot, hpairs, hgood, hahead⟩
          have hgood : s.fBad = false := hgood.trans hfBad
          have hroot : root = tree.merkle hash := hroot
          rw [hfBad] at hpairs
          have hread : t.vBits.length - padding.length = s.nBitsUsed := hahead.nBitsUsed_eq
          have hused : s.nHashUsed = t.vHash.length ↔ hashes = [] := hahead.hashesUsed_iff
          cases hashes with
          | cons node hashes =>
              have hleft : s.nHashUsed ≠ t.vHash.length := by simp [hused]
              exact .inl (by simp [hgood, hleft])
          | nil =>
              have hall : s.nHashUsed = t.vHash.length := hused.mpr rfl
              by_cases hpad : (s.nBitsUsed + 7) / 8 = (t.vBits.length + 7) / 8
              · refine .inr ⟨tree, ?_, ?_, hpairs⟩
                · simp [hread, hpad]
                · simp [hgood, hpad, hall, hroot]
              · exact .inl (by simp [hgood, hpad, hread])

/-- **Equal siblings are accepted.**  The hashes combined on the way to a non-zero root
are distinct just where the message encodes no tree with such a root, or one
in which no two sibling subtrees have the same merkle hash. -/
theorem extractMatches_distinct_iff (t : CPartialMerkleTree) :
    ((extractMatches hash t).1 ≠ 0 →
        ∀ p ∈ combinedPairs hash t (treeHeight t.nTransactions) 0 ⟨0, 0, [], t.fBad⟩,
          p.1 ≠ p.2) ↔
      ∀ tree, t.suppliedTree = some tree → tree.merkle hash ≠ 0 →
        tree.repeats hash = false := by
  rcases extractMatches_supplied hash t with ⟨hnone, hroot⟩ | ⟨tree, hsome, hroot, hpairs⟩
  · rw [hnone, hroot]
    constructor
    · rintro _ tree ⟨⟩
    · exact fun _ h => absurd rfl h
  · rw [hsome, hroot, hpairs, ← Supplied.repeats_eq_false_iff]
    constructor
    · rintro h tree' ⟨⟩ hne
      exact h hne
    · exact fun h => h tree rfl

/-! ## A transaction at two positions -/

/-- Repeating the last of an odd number of transactions keeps the root. -/
theorem merkleRoot_repeat_last {xs : List Uint256} (hne : xs ≠ []) (a : Uint256)
    (heven : xs.length % 2 = 0) :
    merkleRoot hash 0 (xs ++ [a, a]) = merkleRoot hash 0 (xs ++ [a]) := by
  have htop := top_repeat_last hash hne a heven
  rw [top_eq_merkleRoot hash 0 (by simp), top_eq_merkleRoot hash 0 (by simp)] at htop
  exact List.singleton_inj.mp htop

/-- Nothing is matched where no flag is set. -/
theorem matchedTxids_replicate (xs : List Uint256) :
    matchedTxids (xs.zip (List.replicate xs.length false)) = [] := by
  induction xs with
  | nil => rfl
  | cons x xs ih =>
      rw [List.length_cons, List.replicate_succ, List.zip_cons_cons]
      exact ih

/-- In every block with an odd number of transactions but one, the last can be claimed
at a further position: the message arrives at the root of the block. -/
theorem extractMatches_repeat_last {xs : List Uint256} (hne : xs ≠ []) (a : Uint256)
    (heven : xs.length % 2 = 0) (hmax : xs.length + 2 ≤ MAX_BLOCK_SIZE_CURRENT / 60) :
    extractMatches hash (CPartialMerkleTree.ofMatches hash (xs ++ [a, a])
        (List.replicate xs.length false ++ [true, true])) =
      (merkleRoot hash 0 (xs ++ [a]), [a, a]) := by
  rw [(extractMatches_eq hash _ _ (by simp) (by simpa using hmax) (by simp)).1,
    merkleRoot_repeat_last hash hne a heven, List.zip_append (by simp), matchedTxids_append,
    matchedTxids_replicate]
  rfl

theorem extractMatches_repeat_three : extractMatches (fun a b => 3 * a + 5 * b)
      (CPartialMerkleTree.ofMatches (fun a b => 3 * a + 5 * b) [1, 2, 3, 3]
        [false, false, true, true]) =
    (merkleRoot (fun a b => 3 * a + 5 * b) 0 [1, 2, 3], [3, 3]) :=
  @extractMatches_repeat_last _ [1, 2] (by decide) 3 rfl (by decide)

/-- That message for the block of `1`, `2` and `3`. -/
def duplicated : CPartialMerkleTree :=
  CPartialMerkleTree.ofMatches (fun a b => 3 * a + 5 * b) [1, 2, 3, 3] [false, false, true, true]

theorem duplicate_accepted :
    ¬ ∀ bytes t rest, CPartialMerkleTree.unserialize.run bytes = some (t, rest) →
      (extractMatches (fun a b => 3 * a + 5 * b) t).1 ≠ 0 →
      ∀ p ∈ combinedPairs (fun a b => 3 * a + 5 * b) t (treeHeight t.nTransactions) 0
        ⟨0, 0, [], t.fBad⟩, p.1 ≠ p.2 := by
  intro h
  have hreads := reads_partialMerkleTree (t := duplicated) (by decide) (by decide) (by decide)
  have hdistinct := h _ _ _ (hreads []) (by decide) (3, 3) (by decide)
  exact hdistinct rfl

end Agrarian.Merkle.PartialTree
