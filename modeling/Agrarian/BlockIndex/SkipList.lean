import Agrarian.BlockIndex.Load

/-!
# The skip list of a chain

`GetAncestor` and `BuildSkip` over the pointers of the entries alone: a chain,
or a tree of chains, is built by giving each new entry its parent, its height
and the skip pointer that `BuildSkip` finds.

A new entry may be any pointer that is not in use, and a null pointer that is
followed makes the walk fail.
-/

namespace Agrarian.BlockIndex

open Agrarian.Lib Agrarian.Lib.Forest

/-- What `GetAncestor` reads of the entries. -/
structure SkipIndex (B : Type) where
  pprev : B → Option B := fun _ => none
  pskip : B → Option B := fun _ => none
  nHeight : B → Nat := fun _ => 0

namespace SkipIndex

variable {B : Type}

/-- The loop of `GetAncestor` after at most `steps` iterations, with
`pindexWalk` and `heightWalk`. -/
def walk (s : SkipIndex B) (height steps : Nat) (w : B × Nat) : Option (B × Nat) :=
  SkipPointers.walkSteps s.pprev s.pskip getSkipHeight height steps w

/-- `CBlockIndex::GetAncestor`. -/
def getAncestor (s : SkipIndex B) (b : B) (height : Int) : Option B :=
  if (s.nHeight b : Int) < height ∨ height < 0 then none
  else SkipPointers.getAncestor s.pprev s.pskip s.nHeight getSkipHeight b height.toNat

/-- `CBlockIndex::BuildSkip`: the pointer it leaves. -/
def buildSkip (s : SkipIndex B) (b : B) : Option B :=
  match s.pprev b with
  | some pprev => s.getAncestor pprev (getSkipHeight (s.nHeight b))
  | none => s.pskip b

/-- The block reached by following `pprev` a number of times. -/
def follow (s : SkipIndex B) : Nat → B → Option B
  | 0, b => some b
  | count + 1, b => (s.pprev b).bind (s.follow count)

theorem buildSkip_some {s : SkipIndex B} {b p : B} (hp : s.pprev b = some p)
    (hle : getSkipHeight (s.nHeight b) ≤ s.nHeight p) :
    s.buildSkip b = SkipPointers.getAncestor s.pprev s.pskip s.nHeight getSkipHeight p
      (getSkipHeight (s.nHeight b)) := by
  unfold buildSkip getAncestor
  rw [hp]
  dsimp only
  rw [if_neg (by omega), Int.toNat_natCast]

variable [DecidableEq B]

/-- A new entry with its `pprev` and its `nHeight`. -/
def newEntry (s : SkipIndex B) (b : B) (pprev : Option B) : SkipIndex B where
  pprev := Function.update s.pprev b pprev
  pskip := Function.update s.pskip b none
  nHeight := Function.update s.nHeight b (pprev.elim 0 fun p => s.nHeight p + 1)

/-- A new entry with its skip pointer. -/
def addBlock (s : SkipIndex B) (b : B) (pprev : Option B) : SkipIndex B :=
  let pindexNew := s.newEntry b pprev
  { pindexNew with pskip := Function.update pindexNew.pskip b (pindexNew.buildSkip b) }

/-- What is built from nothing, one entry on top of another. -/
inductive Built : SkipIndex B → List B → Prop
  | empty : Built {} []
  | add {s : SkipIndex B} {blocks : List B} {b : B} {pprev : Option B} :
      Built s blocks → b ∉ blocks → (∀ p, pprev = some p → p ∈ blocks) →
      Built (s.addBlock b pprev) (b :: blocks)

/-- Parents are in the index, one lower than their children, and the skip
pointer of an entry leads to the ancestor that it should lead to. -/
structure Inv (s : SkipIndex B) (blocks : List B) : Prop where
  ranked : Ranked s.pprev (· ∈ blocks) s.nHeight
  skips : ∀ b ∈ blocks, SkipPointers.SkipRight s.pprev s.pskip s.nHeight getSkipHeight b

section AddBlock

variable {s : SkipIndex B} {blocks : List B} {b : B} {pprev : Option B}

theorem addBlock_self :
    (s.addBlock b pprev).pprev b = pprev ∧
      (s.addBlock b pprev).nHeight b = pprev.elim 0 fun p => s.nHeight p + 1 := by
  constructor
  · exact Function.update_self ..
  · exact Function.update_self ..

theorem addBlock_of_ne {x : B} (h : x ≠ b) :
    (s.addBlock b pprev).pprev x = s.pprev x ∧
      (s.addBlock b pprev).nHeight x = s.nHeight x ∧
      (s.addBlock b pprev).pskip x = s.pskip x := by
  refine ⟨Function.update_of_ne h .., Function.update_of_ne h .., ?_⟩
  show Function.update (Function.update s.pskip b none) b _ x = s.pskip x
  rw [Function.update_of_ne h, Function.update_of_ne h]

theorem Inv.ranked_addBlock (hinv : s.Inv blocks) (hnew : b ∉ blocks)
    (hparent : ∀ p, pprev = some p → p ∈ blocks) :
    Ranked (s.addBlock b pprev).pprev (· ∈ b :: blocks) (s.addBlock b pprev).nHeight where
  closed := by
    intro x p hx hp
    by_cases heq : x = b
    · rw [heq, addBlock_self.1] at hp
      exact List.mem_cons_of_mem _ (hparent p hp)
    · rw [(addBlock_of_ne heq).1] at hp
      have hx' := (List.mem_cons.mp hx).resolve_left heq
      exact List.mem_cons_of_mem _ (hinv.ranked.closed hx' hp)
  rank_some := by
    intro x p hx hp
    have hne : ∀ q ∈ blocks, q ≠ b := fun q hq heq => hnew (heq ▸ hq)
    by_cases heq : x = b
    · rw [heq, addBlock_self.1] at hp
      rw [heq, addBlock_self.2, hp, (addBlock_of_ne (hne p (hparent p hp))).2.1]
      rfl
    · rw [(addBlock_of_ne heq).1] at hp
      have hx' := (List.mem_cons.mp hx).resolve_left heq
      rw [(addBlock_of_ne heq).2.1,
        (addBlock_of_ne (hne p (hinv.ranked.closed hx' hp))).2.1]
      exact hinv.ranked.rank_some hx' hp
  rank_none := by
    intro x hx hp
    by_cases heq : x = b
    · rw [heq, addBlock_self.1] at hp
      rw [heq, addBlock_self.2, hp]
      rfl
    · rw [(addBlock_of_ne heq).1] at hp
      have hx' := (List.mem_cons.mp hx).resolve_left heq
      rw [(addBlock_of_ne heq).2.1]
      exact hinv.ranked.rank_none hx' hp

/-- The pointers of the old entries stay right. -/
theorem Inv.skipRight_old (hinv : s.Inv blocks) (hnew : b ∉ blocks) {x : B} (hx : x ∈ blocks) :
    SkipPointers.SkipRight (s.addBlock b pprev).pprev (s.addBlock b pprev).pskip
      (s.addBlock b pprev).nHeight getSkipHeight x := by
  have hne : ∀ q ∈ blocks, q ≠ b := fun q hq heq => hnew (heq ▸ hq)
  apply (hinv.skips x hx).congr
  · exact (addBlock_of_ne (hne x hx)).2.2
  · intro y hy
    have hmem := hy.mem hinv.ranked hx
    exact ⟨(addBlock_of_ne (hne y hmem)).1, (addBlock_of_ne (hne y hmem)).2.1⟩

/-- `BuildSkip` finds the right pointer for the new entry. -/
theorem Inv.skipRight_new (hinv : s.Inv blocks) (hnew : b ∉ blocks)
    (hparent : ∀ p, pprev = some p → p ∈ blocks) :
    SkipPointers.SkipRight (s.addBlock b pprev).pprev (s.addBlock b pprev).pskip
      (s.addBlock b pprev).nHeight getSkipHeight b := by
  have hranked := hinv.ranked_addBlock hnew hparent
  cases pprev with
  | none =>
      have hroot : (s.newEntry b none).pprev b = none := Function.update_self ..
      have hzero : (s.addBlock b none).nHeight b = 0 := addBlock_self.2
      rw [SkipPointers.SkipRight, if_pos hzero]
      show Function.update (Function.update s.pskip b none) b _ b = none
      rw [Function.update_self]
      unfold buildSkip
      rw [hroot]
      exact Function.update_self ..
  | some p =>
      have hp := hparent p rfl
      have hpne : p ≠ b := fun heq => hnew (heq ▸ hp)
      -- the walk from the parent does not read the new entry's skip pointer
      have hold : ∀ a, Ancestor (s.addBlock b (some p)).pprev a p →
          SkipPointers.SkipRight (s.addBlock b (some p)).pprev
            (Function.update s.pskip b none) (s.addBlock b (some p)).nHeight getSkipHeight
            a := by
        intro a hanc
        have hrank := hanc.rank_le hranked (List.mem_cons_of_mem _ hp)
        have hheight : (s.addBlock b (some p)).nHeight b =
            (s.addBlock b (some p)).nHeight p + 1 := by
          rw [addBlock_self.2, (addBlock_of_ne hpne).2.1]
          rfl
        have hane : a ≠ b := by
          intro heq
          rw [heq] at hrank
          omega
        have hmem := (List.mem_cons.mp (hanc.mem hranked (List.mem_cons_of_mem _ hp))).resolve_left
          hane
        apply (hinv.skips a hmem).congr
        · exact Function.update_of_ne hane ..
        · intro y hy
          have hyne : y ≠ b := fun heq => hnew (heq ▸ hy.mem hinv.ranked hmem)
          exact ⟨(addBlock_of_ne hyne).1, (addBlock_of_ne hyne).2.1⟩
      have hbuild : (s.addBlock b (some p)).pskip b =
          SkipPointers.getAncestor (s.addBlock b (some p)).pprev (Function.update s.pskip b none)
            (s.addBlock b (some p)).nHeight getSkipHeight p
            (getSkipHeight ((s.addBlock b (some p)).nHeight b)) := by
        have hlow := getSkipHeight_lt ((s.addBlock b (some p)).nHeight b)
        have hpprev : (s.addBlock b (some p)).pprev b = some p := addBlock_self.1
        have hheight := hranked.rank_some List.mem_cons_self hpprev
        have hset : (s.addBlock b (some p)).pskip b = (s.newEntry b (some p)).buildSkip b :=
          Function.update_self ..
        rw [hset]
        exact buildSkip_some (Function.update_self ..) (by
          show getSkipHeight ((s.addBlock b (some p)).nHeight b) ≤
            (s.addBlock b (some p)).nHeight p
          omega)
      exact SkipPointers.skipRight_of_getAncestor hranked getSkipHeight_lt List.mem_cons_self
        addBlock_self.1 hold hbuild

end AddBlock

theorem Built.inv {s : SkipIndex B} {blocks : List B} (h : Built s blocks) : s.Inv blocks := by
  induction h with
  | empty =>
      exact {
        ranked := {
          closed := fun hx _ => absurd hx List.not_mem_nil
          rank_some := fun hx _ => absurd hx List.not_mem_nil
          rank_none := fun _ _ => rfl }
        skips := fun b hb => absurd hb List.not_mem_nil }
  | @add s blocks b pprev _ hnew hparent ih =>
      refine ⟨ih.ranked_addBlock hnew hparent, fun x hx => ?_⟩
      rcases List.mem_cons.mp hx with heq | hold
      · rw [heq]
        exact ih.skipRight_new hnew hparent
      · exact ih.skipRight_old hnew hold

omit [DecidableEq B] in
/-- An ancestor is reached by as many parent pointers as it is lower. -/
theorem follow_of_ancestor {s : SkipIndex B} {dom : B → Prop}
    (hranked : Ranked s.pprev dom s.nHeight) {a b : B} (hb : dom b)
    (h : Ancestor s.pprev a b) : s.follow (s.nHeight b - s.nHeight a) b = some a := by
  induction h with
  | refl =>
      rw [Nat.sub_self]
      rfl
  | @step p b hp hanc ih =>
      have hp' := hranked.closed hb hp
      have hstep := hranked.rank_some hb hp
      have hle := hanc.rank_le hranked hp'
      rw [show s.nHeight b - s.nHeight a = (s.nHeight p - s.nHeight a) + 1 by omega, follow, hp,
        Option.bind_some]
      exact ih hp'

/-- **`GetAncestor` follows `pprev`.**  From every block that was built, to every
height not above it, the walk ends after at most one iteration for each height
between, without following a null pointer, at the block that the parent
pointers lead to. -/
theorem getAncestor_eq_follow (s : SkipIndex B) (blocks : List B) (h : Built s blocks) (b : B)
    (hb : b ∈ blocks) (height : Int) (hlow : 0 ≤ height) (hhigh : height ≤ s.nHeight b) :
    ∃ a, s.getAncestor b height = some a ∧
      s.follow (s.nHeight b - height.toNat) b = some a ∧
      s.walk height.toNat (s.nHeight b - height.toNat) (b, s.nHeight b) =
        some (a, height.toNat) := by
  have hinv := h.inv
  have hskips : ∀ a, Ancestor s.pprev a b →
      SkipPointers.SkipRight s.pprev s.pskip s.nHeight getSkipHeight a :=
    fun a hanc => hinv.skips a (hanc.mem hinv.ranked hb)
  have htarget : height.toNat ≤ s.nHeight b := by omega
  obtain ⟨a, hrun, hanc, hrank⟩ := SkipPointers.walkSteps_spec hinv.ranked getSkipHeight_lt hb
    htarget (Nat.le_refl _) hskips
  obtain ⟨a', hget, hanc', hrank'⟩ := SkipPointers.getAncestor_spec hinv.ranked getSkipHeight_lt
    hb htarget hskips
  have heq : a' = a :=
    SkipPointers.ancestor_unique hinv.ranked hb hanc' hanc (hrank'.trans hrank.symm)
  have hfollow := follow_of_ancestor hinv.ranked hb hanc
  rw [hrank] at hfollow
  refine ⟨a, ?_, hfollow, hrun⟩
  rw [getAncestor, if_neg (by omega), hget, heq]

/-- The chain of the numbers below `n`, each on top of the one before. -/
def numbers : Nat → SkipIndex Nat
  | 0 => {}
  | n + 1 => (numbers n).addBlock n (if n = 0 then none else some (n - 1))

theorem built_numbers (n : Nat) : Built (numbers n) (List.range n).reverse := by
  induction n with
  | zero => exact Built.empty
  | succ n ih =>
      rw [List.range_succ, List.reverse_append]
      apply Built.add ih
      · simp
      · intro p hp
        split at hp
        · cases hp
        · cases hp
          rw [List.mem_reverse, List.mem_range]
          omega

/-- The walk in a chain of thirteen blocks, from the last one to the height 3. -/
theorem getAncestor_eq_follow_numbers :
    ∃ a, (numbers 13).getAncestor 12 3 = some a ∧ (numbers 13).follow 9 12 = some a := by
  obtain ⟨a, hget, hfollow, -⟩ := getAncestor_eq_follow (numbers 13) _ (built_numbers 13) 12
    (by decide) 3 (by decide) (by decide)
  exact ⟨a, hget, hfollow⟩

end SkipIndex

end Agrarian.BlockIndex
