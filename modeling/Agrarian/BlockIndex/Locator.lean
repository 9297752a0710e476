import Agrarian.BlockIndex.Chain

/-!
# Block locators

`GetLocator` names blocks on the way from a block to the genesis block, with
steps that double, and `FindForkInGlobalIndex` finds the first of them that is
in the chain of another node.  Blocks are named by their hashes, and each of the
two nodes has its own block tree and its own chain.
-/

namespace Agrarian.BlockIndex.CChain

open Agrarian.Lib Agrarian.Lib.Forest

variable {B : Type} [DecidableEq B] (s : SkipIndex B) (c : CChain B)

/-- The loop of `GetLocator`.  The step that a doubling past the range of an `int`
would give is not taken: the walk is at the genesis block before. -/
def locatorLoop : Nat → Option B → Nat → List B → List B
  | 0, _, _, vHave => vHave
  | _ + 1, none, _, vHave => vHave
  | fuel + 1, some pindex, nStep, vHave =>
      let vHave := vHave ++ [pindex]
      if s.nHeight pindex = 0 then vHave
      else
        let nHeight : Int := max ((s.nHeight pindex : Int) - nStep) 0
        -- the chain answers at once where it has the block
        let below :=
          if c.contains s pindex then c.get nHeight else s.getAncestor pindex nHeight
        locatorLoop fuel below (if vHave.length > 10 then nStep * 2 else nStep) vHave

/-- `CChain::GetLocator`.  The walk goes down at least one height in each round. -/
def getLocator (pindex : Option B) : List B :=
  match (if pindex.isNone then c.tip else pindex) with
  | none => []
  | some start => c.locatorLoop s (s.nHeight start + 1) (some start) 1 []

/-- `FindForkInGlobalIndex`. -/
def findForkInGlobalIndex (mapBlockIndex : List B) : List B → Option B
  | [] => c.genesis
  | hash :: vHave =>
      if mapBlockIndex.contains hash && c.contains s hash then some hash
      else findForkInGlobalIndex mapBlockIndex vHave

variable {s c}

/-- A locator of `b`: it starts at `b`, names ancestors only, and goes down to the
height 0. -/
structure IsLocator (s : SkipIndex B) (b : B) (vHave : List B) : Prop where
  start : vHave.head? = some b
  ancestors : ∀ x ∈ vHave, Ancestor s.pprev x b
  decreasing : (vHave.map s.nHeight).Pairwise (· > ·)
  genesis : (vHave.map s.nHeight).getLast? = some 0

omit [DecidableEq B] in
theorem IsLocator.cons {blocks : List B} (hrank : Ranked s.pprev (· ∈ blocks) s.nHeight)
    {a b : B} {vHave : List B} (h : IsLocator s a vHave) (ha : a ∈ blocks)
    (hab : Ancestor s.pprev a b) (hlt : s.nHeight a < s.nHeight b) :
    IsLocator s b (b :: vHave) where
  start := rfl
  ancestors := by
    intro x hx
    rcases List.mem_cons.mp hx with rfl | hx
    · exact Ancestor.refl
    · exact (h.ancestors x hx).trans hab
  decreasing := by
    rw [List.map_cons, List.pairwise_cons]
    refine ⟨fun n hn => ?_, h.decreasing⟩
    rcases List.mem_map.mp hn with ⟨x, hx, rfl⟩
    have hle := (h.ancestors x hx).rank_le hrank ha
    omega
  genesis := by
    rw [List.map_cons, List.getLast?_cons, h.genesis]
    rfl

section Tree

variable {blocks : List B} (hinv : s.Inv blocks) {tip : Option B}
  (hc : c.vChain = chainTo s tip) (htip : ∀ t, tip = some t → t ∈ blocks)
include hinv hc htip

/-- One step back leads to the ancestor at the height, by the chain or by the
skip pointers. -/
theorem stepBack_spec {b : B} (hb : b ∈ blocks) {nHeight : Nat} (hle : nHeight ≤ s.nHeight b) :
    ∃ a, (if c.contains s b then c.get nHeight else s.getAncestor b nHeight) = some a ∧
      Ancestor s.pprev a b ∧ s.nHeight a = nHeight := by
  split
  · next hin =>
      rcases exists_ancestor hinv.ranked hb hle with ⟨a, hab, harank⟩
      rcases (contains_iff hinv.ranked hc htip).mp hin with ⟨t, ht, hbt⟩
      refine ⟨a, ?_, hab, harank⟩
      exact (get_eq_some_iff hinv.ranked hc htip).mpr ⟨t, ht, hab.trans hbt, harank⟩
  · exact getAncestor_spec hinv hb hle

/-- **The loop of `GetLocator`** adds a locator of the block it is at. -/
theorem locatorLoop_spec {fuel : Nat} {b : B} (hb : b ∈ blocks) (hfuel : s.nHeight b < fuel)
    {nStep : Nat} (hstep : 0 < nStep) (vHave : List B) :
    ∃ more, c.locatorLoop s fuel (some b) nStep vHave = vHave ++ more ∧ IsLocator s b more := by
  induction fuel generalizing b nStep vHave with
  | zero => omega
  | succ fuel ih =>
      rw [locatorLoop]
      dsimp only
      split
      · next hzero =>
          refine ⟨[b], rfl, rfl, fun x hx => ?_, List.pairwise_singleton _ _, ?_⟩
          · rw [List.mem_singleton.mp hx]
            exact Ancestor.refl
          · rw [List.map_singleton, hzero]
            rfl
      · next hpos =>
          have hback : max ((s.nHeight b : Int) - nStep) 0 =
              ((s.nHeight b - nStep : Nat) : Int) := by omega
          rcases stepBack_spec hinv hc htip hb
            (Nat.sub_le (s.nHeight b) nStep) with ⟨a, ha, hab, harank⟩
          have ham := hab.mem hinv.ranked hb
          rw [hback, ha]
          have hstep' : 0 < (if (vHave ++ [b]).length > 10 then nStep * 2 else nStep) := by
            split
            · omega
            · exact hstep
          rcases ih ham (by omega) hstep' (vHave ++ [b]) with ⟨more, hmore, hlocator⟩
          refine ⟨b :: more, ?_, hlocator.cons hinv.ranked ham hab (by omega)⟩
          rw [hmore, List.append_assoc, List.singleton_append]

theorem getLocator_isLocator {b : B} (hb : b ∈ blocks) :
    IsLocator s b (c.getLocator s (some b)) := by
  rcases locatorLoop_spec hinv hc htip hb (Nat.lt_succ_self _) Nat.one_pos [] with
    ⟨more, hmore, hlocator⟩
  have heq : c.getLocator s (some b) = more := hmore
  rw [heq]
  exact hlocator

/-- The genesis block of a chain is in it, at the height 0. -/
theorem genesis_spec {g : B} (hg : c.genesis = some g) :
    c.contains s g = true ∧ s.nHeight g = 0 := by
  have hget : c.get ((0 : Nat) : Int) = some g := by
    rw [genesis] at hg
    split at hg
    · rw [get_natCast, ← List.getD_eq_getElem?_getD]
      exact hg
    · cases hg
  rcases (get_eq_some_iff hinv.ranked hc htip).mp hget with ⟨t, ht, hgt, hzero⟩
  exact ⟨(contains_iff hinv.ranked hc htip).mpr ⟨t, ht, hgt⟩, hzero⟩

omit [DecidableEq B] in
theorem genesis_eq_none_iff : c.genesis = none ↔ c.vChain = [] := by
  constructor
  · intro hnone
    cases tip with
    | none => exact hc
    | some t =>
        have htm := htip t rfl
        rcases exists_ancestor hinv.ranked htm (Nat.zero_le _) with ⟨g, hgt, hzero⟩
        have hget := (get_eq_some_iff hinv.ranked hc htip).mpr ⟨t, rfl, hgt, hzero⟩
        have hpos : c.vChain.length > 0 := by
          rw [hc, chainTo, List.length_map, length_path hinv.ranked htm]
          omega
        rw [genesis, if_pos hpos, List.getD_eq_getElem?_getD, ← get_natCast, hget] at hnone
        cases hnone
  · intro hnil
    rw [genesis, hnil]
    rfl

end Tree

/-- The result is the first named block that the chain has, else its genesis
block. -/
theorem findForkInGlobalIndex_cases (mapBlockIndex vHave : List B) :
    (∃ f ∈ vHave, c.findForkInGlobalIndex s mapBlockIndex vHave = some f ∧
        c.contains s f = true) ∨
      c.findForkInGlobalIndex s mapBlockIndex vHave = c.genesis := by
  induction vHave with
  | nil => exact Or.inr rfl
  | cons hash vHave ih =>
      rw [findForkInGlobalIndex]
      split
      · next hfound =>
          left
          exact ⟨hash, List.mem_cons_self, rfl, (Bool.and_eq_true_iff.mp hfound).2⟩
      · rcases ih with ⟨f, hf, hfind, hin⟩ | hgenesis
        · exact Or.inl ⟨f, List.mem_cons_of_mem _ hf, hfind, hin⟩
        · exact Or.inr hgenesis

/-- **Locators across nodes.**  The locator of a block of one tree goes down from
the block's height to 0 along its ancestors.  With it another node, on another
tree and chain, finds a block of its chain that is an ancestor of the block, or
its genesis block, and no higher than the fork point; it finds nothing only
where its chain is empty. -/
theorem findForkInGlobalIndex_getLocator (s s' : SkipIndex B) (blocks blocks' : List B)
    (hbuilt : s.Built blocks) (hbuilt' : s'.Built blocks')
    (tips tips' : List (Option B)) (htips : ∀ b, some b ∈ tips → b ∈ blocks)
    (htips' : ∀ b, some b ∈ tips' → b ∈ blocks') (p : B) (hp : p ∈ blocks) :
    let vHave := (afterTips s tips).getLocator s (some p)
    let c' := afterTips s' tips'
    let found := c'.findForkInGlobalIndex s' blocks' vHave
    IsLocator s p vHave ∧
    (∀ f, found = some f →
      c'.contains s' f = true ∧ (Ancestor s.pprev f p ∨ c'.genesis = some f) ∧
      ∀ fork, Ancestor s.pprev fork p → c'.contains s' fork = true →
        (∀ a, Ancestor s.pprev a p → c'.contains s' a = true →
          s'.nHeight a ≤ s'.nHeight fork) →
        s'.nHeight f ≤ s'.nHeight fork) ∧
    (found = none → c'.vChain = []) := by
  intro vHave c' found
  have hinv := hbuilt.inv
  have hinv' := hbuilt'.inv
  have hc := afterTips_eq hinv.ranked tips htips
  have hc' : c'.vChain = chainTo s' (currentTip tips') :=
    afterTips_eq hinv'.ranked tips' htips'
  have hlocator : IsLocator s p vHave :=
    getLocator_isLocator hinv hc (currentTip_mem htips) hp
  have htip' := currentTip_mem htips'
  rcases findForkInGlobalIndex_cases (s := s') (c := c') blocks' vHave with
    ⟨f, hf, hfound, hin⟩ | hgenesis
  · have hfp := hlocator.ancestors f hf
    refine ⟨hlocator, fun f' hf' => ?_, fun hnone => ?_⟩
    · have heq : f = f' := Option.some.inj (hfound.symm.trans hf')
      rw [← heq]
      exact ⟨hin, Or.inl hfp, fun fork _ _ hhighest => hhighest f hfp hin⟩
    · have habsurd : some f = none := hfound.symm.trans hnone
      cases habsurd
  · refine ⟨hlocator, fun f hf => ?_, fun hnone => ?_⟩
    · have hroot : c'.genesis = some f := hgenesis.symm.trans hf
      have hspec := genesis_spec hinv' hc' htip' hroot
      refine ⟨hspec.1, Or.inr hroot, fun fork _ _ _ => ?_⟩
      rw [hspec.2]
      exact Nat.zero_le _
    · exact (genesis_eq_none_iff hinv' hc' htip').mp (hgenesis.symm.trans hnone)

/-- Two nodes that know the same four blocks and follow different branches. -/
theorem findForkInGlobalIndex_getLocator_forked :
    IsLocator SkipIndex.forked 3
      ((afterTips SkipIndex.forked [some 3]).getLocator SkipIndex.forked (some 3)) :=
  (findForkInGlobalIndex_getLocator SkipIndex.forked SkipIndex.forked [3, 2, 1, 0] [3, 2, 1, 0]
    SkipIndex.built_forked SkipIndex.built_forked [some 3] [some 3, some 1] (by simp) (by simp)
    3 (by decide)).1

end Agrarian.BlockIndex.CChain
