import Agrarian.BlockIndex.SkipList

/-!
# The chain of a tip

`CChain` holds a chain of the block tree as a vector with the block of every
height.  `SetTip` resizes the vector and writes the new tip's chain into it from
above, down to the first entry that is already right: below it the vector is
the chain of an earlier tip, which the two tips have in common.
-/

namespace Agrarian.BlockIndex

open Agrarian.Lib Agrarian.Lib.Forest

/-- An in-memory chain; an entry that nothing was written to is a null pointer. -/
structure CChain (B : Type) where
  vChain : List (Option B) := []

namespace CChain

variable {B : Type} [DecidableEq B] (s : SkipIndex B) (c : CChain B)

/-- `CChain::operator[]`. -/
def get (nHeight : Int) : Option B :=
  if nHeight < 0 ∨ nHeight ≥ (c.vChain.length : Int) then none
  else c.vChain.getD nHeight.toNat none

/-- `CChain::Genesis`. -/
def genesis : Option B :=
  if c.vChain.length > 0 then c.vChain.getD 0 none else none

/-- `CChain::Tip`. -/
def tip : Option B :=
  if c.vChain.length < 1 then none else c.vChain.getD (c.vChain.length - 1) none

/-- `CChain::Height`. -/
def height : Int :=
  (c.vChain.length : Int) - 1

/-- `CChain::Contains`. -/
def contains (pindex : B) : Bool :=
  decide (c.get (s.nHeight pindex) = some pindex)

/-- `CChain::Next`. -/
def next (pindex : B) : Option B :=
  if c.contains s pindex then c.get ((s.nHeight pindex : Int) + 1) else none

/-- `vChain.resize`. -/
def resize (vChain : List (Option B)) (n : Nat) : List (Option B) :=
  vChain.take n ++ List.replicate (n - vChain.length) none

/-- The loop of `SetTip`, down the chain of `pindex`. -/
def setTipLoop : Nat → Option B → List (Option B) → List (Option B)
  | 0, _, vChain => vChain
  | _ + 1, none, vChain => vChain
  | fuel + 1, some pindex, vChain =>
      if vChain.getD (s.nHeight pindex) none = some pindex then vChain
      else setTipLoop fuel (s.pprev pindex) (vChain.set (s.nHeight pindex) (some pindex))

/-- `CChain::SetTip`.  The loop goes down one height in each round. -/
def setTip : Option B → CChain B
  | none => { vChain := [] }
  | some pindex =>
      { vChain := setTipLoop s (s.nHeight pindex + 1) (some pindex)
          (resize c.vChain (s.nHeight pindex + 1)) }

/-- The loop of `FindFork`. -/
def forkLoop : Nat → Option B → Option B
  | 0, pindex => pindex
  | _ + 1, none => none
  | fuel + 1, some pindex =>
      if c.contains s pindex then some pindex else forkLoop fuel (s.pprev pindex)

/-- `CChain::FindFork`.  The loop goes down one height in each round. -/
def findFork (pindex : B) : Option B :=
  let start :=
    if (s.nHeight pindex : Int) > c.height then s.getAncestor pindex c.height
    else some pindex
  c.forkLoop s (s.nHeight pindex + 1) start

/-- An empty chain after a number of calls of `SetTip`. -/
def afterTips (tips : List (Option B)) : CChain B :=
  tips.foldl (setTip s) {}

/-- The tip that was set last. -/
def currentTip (tips : List (Option B)) : Option B :=
  tips.getLast?.getD none

/-! ## `SetTip` -/

variable {s c}

/-- The path from the root to a block. -/
def path (s : SkipIndex B) (b : B) : List B :=
  pathTo s.pprev (s.nHeight b) b

/-- What the vector should hold for a tip. -/
def chainTo (s : SkipIndex B) : Option B → List (Option B)
  | none => []
  | some t => (path s t).map some

/-- An entry below the height `n` that holds its own block has the path of the
block below it. -/
def PathBelow (s : SkipIndex B) (blocks : List B) (n : Nat) (vChain : List (Option B)) : Prop :=
  ∀ x ∈ blocks, s.nHeight x < n → vChain[s.nHeight x]? = some (some x) →
    vChain.take (s.nHeight x + 1) = (path s x).map some

omit [DecidableEq B] in
theorem currentTip_mem {blocks : List B} {tips : List (Option B)}
    (htips : ∀ b, some b ∈ tips → b ∈ blocks) (t : B) (h : currentTip tips = some t) :
    t ∈ blocks := by
  apply htips t
  rw [currentTip] at h
  cases hlast : tips.getLast? with
  | none =>
      rw [hlast] at h
      cases h
  | some last =>
      rw [hlast, Option.getD_some] at h
      rw [← h]
      exact List.mem_of_getLast? hlast

section Ranked

variable {blocks : List B} (hrank : Ranked s.pprev (· ∈ blocks) s.nHeight)
include hrank

omit [DecidableEq B] in
theorem length_path {b : B} (hb : b ∈ blocks) : (path s b).length = s.nHeight b + 1 :=
  length_pathTo hrank hb

omit [DecidableEq B] hrank in
/-- Writing an entry keeps what is below it. -/
theorem PathBelow.set {n : Nat} {vChain : List (Option B)} (h : PathBelow s blocks n vChain)
    {m : Nat} (hm : m ≤ n) (entry : Option B) :
    PathBelow s blocks m (vChain.set m entry) := by
  intro x hx hlt hentry
  rw [List.getElem?_set_ne (by omega)] at hentry
  rw [List.take_set_of_le (by omega)]
  exact h x hx (by omega) hentry

/-- **The loop of `SetTip`.**  It writes the path to the block over the entries
up to its height; it may stop early, where the old entries are that path. -/
theorem setTipLoop_eq {fuel : Nat} {b : B} {vChain : List (Option B)} (hb : b ∈ blocks)
    (hfuel : s.nHeight b < fuel) (hlength : s.nHeight b < vChain.length)
    (hbelow : PathBelow s blocks (s.nHeight b + 1) vChain) :
    setTipLoop s fuel (some b) vChain =
      (path s b).map some ++ vChain.drop (s.nHeight b + 1) := by
  induction fuel generalizing b vChain with
  | zero => omega
  | succ fuel ih =>
      rw [setTipLoop]
      split
      · next hmatch =>
          have hentry : vChain[s.nHeight b]? = some (some b) := by
            rw [List.getD_eq_getElem _ _ hlength] at hmatch
            rw [List.getElem?_eq_getElem hlength, hmatch]
          rw [← hbelow b hb (Nat.lt_succ_self _) hentry, List.take_append_drop]
      · cases hp : s.pprev b with
        | none =>
            -- the genesis block is written, and the loop ends
            have hzero := hrank.rank_none hb hp
            have hstop : setTipLoop s fuel none (vChain.set (s.nHeight b) (some b)) =
                vChain.set (s.nHeight b) (some b) := by
              cases fuel <;> rfl
            rw [hstop, path, pathTo_none hrank hb hp, hzero]
            cases vChain with
            | nil => exact absurd hlength (Nat.not_lt_zero _)
            | cons old rest => rfl
        | some p =>
            have hstep := hrank.rank_some hb hp
            have hpm := hrank.closed hb hp
            rw [ih hpm (by omega) (by rw [List.length_set]; omega)
              (by rw [← hstep]; exact hbelow.set (by omega) _)]
            rw [path, path, pathTo_some hrank hb hp, List.map_append, List.append_assoc,
              ← hstep]
            congr 1
            rw [List.drop_eq_getElem_cons (by rwa [List.length_set]),
              List.getElem_set_self, List.drop_set_of_lt (by omega)]
            rfl

omit [DecidableEq B] in
theorem pathBelow_resize {old : Option B} (hold : ∀ t, old = some t → t ∈ blocks) (n : Nat) :
    PathBelow s blocks n (resize (chainTo s old) n) := by
  intro x hx hlt hentry
  -- the entry is none of the new ones
  have hin : s.nHeight x < ((chainTo s old).take n).length := by
    by_contra hout
    rw [resize, List.getElem?_append_right (by omega), List.getElem?_replicate] at hentry
    split at hentry
    · cases hentry
    · cases hentry
  rw [resize, List.getElem?_append_left hin, List.getElem?_take_of_lt hlt] at hentry
  rw [resize, List.take_append_of_le_length hin, List.take_take, Nat.min_eq_left hlt]
  cases old with
  | none => cases hentry
  | some t =>
      simp only [chainTo, List.getElem?_map, Option.map_eq_some_iff, Option.some.injEq,
        exists_eq_right] at hentry
      have hanc := (getElem?_pathTo hrank (hold t rfl)).mp hentry
      rcases hanc.path_eq hrank (hold t rfl) with ⟨l, hl⟩
      have hlength := length_path hrank hx
      simp only [chainTo, path] at hlength ⊢
      rw [hl, List.map_append, List.take_append_of_le_length (by
        rw [List.length_map, hlength]), List.take_of_length_le (by
        rw [List.length_map, hlength])]

/-- **One call.**  From the chain of any tip `SetTip` leaves the chain of the new
one. -/
theorem setTip_eq {old new : Option B} (hc : c.vChain = chainTo s old)
    (hold : ∀ t, old = some t → t ∈ blocks) (hnew : ∀ t, new = some t → t ∈ blocks) :
    (c.setTip s new).vChain = chainTo s new := by
  cases new with
  | none => rfl
  | some t =>
      have hlength : (resize (chainTo s old) (s.nHeight t + 1)).length = s.nHeight t + 1 := by
        rw [resize, List.length_append, List.length_take, List.length_replicate]
        omega
      show setTipLoop s (s.nHeight t + 1) (some t) (resize c.vChain (s.nHeight t + 1)) = _
      rw [hc, setTipLoop_eq hrank (hnew t rfl) (Nat.lt_succ_self _) (by omega)
        (pathBelow_resize hrank hold _), List.drop_of_length_le (by omega), List.append_nil]
      rfl

/-- **Every run.**  After any calls the vector is the chain of the current tip. -/
theorem afterTips_eq (tips : List (Option B)) (htips : ∀ b, some b ∈ tips → b ∈ blocks) :
    (afterTips s tips).vChain = chainTo s (currentTip tips) := by
  induction tips using List.reverseRecOn with
  | nil => rfl
  | append_singleton tips t ih =>
      have hbefore := ih fun b hb => htips b (List.mem_append_left _ hb)
      have hcurrent : currentTip (tips ++ [t]) = t := by
        rw [currentTip, List.getLast?_concat, Option.getD_some]
      rw [hcurrent, afterTips, List.foldl_append]
      apply setTip_eq hrank hbefore
      · exact currentTip_mem fun b hb => htips b (List.mem_append_left _ hb)
      · intro b hb
        apply htips b
        rw [← hb]
        exact List.mem_append_right _ (List.mem_singleton_self _)

/-! ## `Contains` and `Next` -/

omit [DecidableEq B] hrank in
theorem get_natCast (n : Nat) : c.get n = c.vChain[n]?.getD none := by
  rw [get]
  by_cases hin : n < c.vChain.length
  · rw [if_neg (by omega), Int.toNat_natCast, List.getD_eq_getElem?_getD]
  · rw [if_pos (by omega), List.getElem?_eq_none (by omega)]
    rfl

omit [DecidableEq B] in
/-- The entries of a tip's path are its ancestors, each at its height. -/
theorem getElem?_path {t b : B} (ht : t ∈ blocks) {n : Nat} :
    (path s t)[n]? = some b ↔ Ancestor s.pprev b t ∧ s.nHeight b = n := by
  constructor
  · intro h
    have hlt : n < (path s t).length := (List.getElem?_eq_some_iff.mp h).1
    rw [length_path hrank ht] at hlt
    rcases exists_ancestor hrank ht (Nat.le_of_lt_succ hlt) with ⟨a, ha, harank⟩
    have hentry := (getElem?_pathTo hrank ht).mpr ha
    rw [harank] at hentry
    have heq : b = a := Option.some.inj (h.symm.trans hentry)
    rw [heq]
    exact ⟨ha, harank⟩
  · rintro ⟨hanc, rfl⟩
    exact (getElem?_pathTo hrank ht).mpr hanc

section Tip

variable {tip : Option B} (hc : c.vChain = chainTo s tip) (htip : ∀ t, tip = some t → t ∈ blocks)
include hc htip

omit [DecidableEq B] in
theorem get_eq_some_iff {nHeight : Nat} {b : B} :
    c.get nHeight = some b ↔
      ∃ t, tip = some t ∧ Ancestor s.pprev b t ∧ s.nHeight b = nHeight := by
  rw [get_natCast, hc]
  cases tip with
  | none => simp [chainTo]
  | some t =>
      simp only [chainTo, List.getElem?_map, Option.some.injEq, exists_eq_left']
      rw [← getElem?_path hrank (htip t rfl)]
      cases (path s t)[nHeight]? with
      | none => simp
      | some a => simp

omit [DecidableEq B] in
/-- The last entry is the tip. -/
theorem tip_eq : c.tip = tip := by
  cases tip with
  | none =>
      rw [CChain.tip, hc]
      rfl
  | some t =>
      have hlength : c.vChain.length = s.nHeight t + 1 := by
        rw [hc, chainTo, List.length_map, length_path hrank (htip t rfl)]
      have hlast := (get_eq_some_iff hrank hc htip).mpr ⟨t, rfl, Ancestor.refl, rfl⟩
      rw [CChain.tip, if_neg (by omega), hlength, Nat.add_sub_cancel,
        List.getD_eq_getElem?_getD, ← get_natCast, hlast]

theorem contains_iff {b : B} :
    c.contains s b = true ↔ ∃ t, tip = some t ∧ Ancestor s.pprev b t := by
  rw [contains, decide_eq_true_iff, get_eq_some_iff hrank hc htip]
  simp only [and_true]

theorem next_eq_some_iff {b n : B} :
    c.next s b = some n ↔
      s.pprev n = some b ∧ ∃ t, tip = some t ∧ Ancestor s.pprev n t := by
  have hget : c.get ((s.nHeight b : Int) + 1) = c.get ((s.nHeight b + 1 : Nat) : Int) := rfl
  rw [next]
  constructor
  · intro h
    split at h
    · next hcontains =>
        rw [hget] at h
        rcases (get_eq_some_iff hrank hc htip).mp h with ⟨t, ht, hnt, hheight⟩
        rcases (contains_iff hrank hc htip).mp hcontains with ⟨t', ht', hbt⟩
        rw [ht] at ht'
        rw [← Option.some.inj ht'] at hbt
        have htm := htip t ht
        refine ⟨?_, t, ht, hnt⟩
        cases hp : s.pprev n with
        | none =>
            have hzero := hrank.rank_none (hnt.mem hrank htm) hp
            omega
        | some p =>
            have hstep := hrank.rank_some (hnt.mem hrank htm) hp
            have hpt := (Ancestor.step hp Ancestor.refl).trans hnt
            rw [SkipPointers.ancestor_unique hrank htm hpt hbt (by omega)]
    · cases h
  · rintro ⟨hp, t, ht, hnt⟩
    have hbt : Ancestor s.pprev b t := (Ancestor.step hp Ancestor.refl).trans hnt
    have hstep := hrank.rank_some (hnt.mem hrank (htip t ht)) hp
    rw [if_pos ((contains_iff hrank hc htip).mpr ⟨t, ht, hbt⟩), hget]
    exact (get_eq_some_iff hrank hc htip).mpr ⟨t, ht, hnt, hstep⟩

end Tip

end Ranked

/-! ## `FindFork` -/

/-- The highest block that is an ancestor of `b` and in the chain. -/
structure IsFork (s : SkipIndex B) (c : CChain B) (b f : B) : Prop where
  ancestor : Ancestor s.pprev f b
  contains : c.contains s f = true
  highest : ∀ a, Ancestor s.pprev a b → c.contains s a = true → s.nHeight a ≤ s.nHeight f

theorem IsFork.unique {blocks : List B} (hrank : Ranked s.pprev (· ∈ blocks) s.nHeight)
    {b f f' : B} (hb : b ∈ blocks) (h : IsFork s c b f) (h' : IsFork s c b f') : f = f' := by
  have hle := h.highest f' h'.ancestor h'.contains
  have hge := h'.highest f h.ancestor h.contains
  exact SkipPointers.ancestor_unique hrank hb h.ancestor h'.ancestor (by omega)

/-- What the loop of `FindFork` finds from a block on. -/
theorem forkLoop_spec {blocks : List B} (hrank : Ranked s.pprev (· ∈ blocks) s.nHeight)
    {fuel : Nat} {b : B} (hb : b ∈ blocks) (hfuel : s.nHeight b < fuel) :
    (∃ f, c.forkLoop s fuel (some b) = some f ∧ IsFork s c b f) ∨
      (c.forkLoop s fuel (some b) = none ∧
        ∀ a, Ancestor s.pprev a b → c.contains s a = false) := by
  induction fuel generalizing b with
  | zero => omega
  | succ fuel ih =>
      rw [forkLoop]
      split
      · next hcontains =>
          left
          exact ⟨b, rfl, Ancestor.refl, hcontains, fun a ha _ => ha.rank_le hrank hb⟩
      · next hcontains =>
          have hmissing : c.contains s b = false := Bool.eq_false_iff.mpr hcontains
          cases hp : s.pprev b with
          | none =>
              right
              refine ⟨by cases fuel <;> rfl, fun a ha => ?_⟩
              rcases ha.eq_or_parent with rfl | ⟨p, hp', -⟩
              · exact hmissing
              · rw [hp] at hp'
                cases hp'
          | some p =>
              have hstep := hrank.rank_some hb hp
              rcases ih (hrank.closed hb hp) (by omega) with ⟨f, hf, hfork⟩ | ⟨hnone, hall⟩
              · left
                refine ⟨f, hf, Ancestor.step hp hfork.ancestor, hfork.contains, ?_⟩
                intro a ha hin
                rcases ha.eq_or_parent with rfl | ⟨p', hp', ha'⟩
                · rw [hmissing] at hin
                  cases hin
                · rw [hp] at hp'
                  rw [← Option.some.inj hp'] at ha'
                  exact hfork.highest a ha' hin
              · right
                refine ⟨hnone, fun a ha => ?_⟩
                rcases ha.eq_or_parent with rfl | ⟨p', hp', ha'⟩
                · exact hmissing
                · rw [hp] at hp'
                  rw [← Option.some.inj hp'] at ha'
                  exact hall a ha'

omit [DecidableEq B] in
theorem getAncestor_spec {blocks : List B} (hinv : s.Inv blocks) {b : B} (hb : b ∈ blocks)
    {nHeight : Nat} (hle : nHeight ≤ s.nHeight b) :
    ∃ a, s.getAncestor b nHeight = some a ∧ Ancestor s.pprev a b ∧ s.nHeight a = nHeight := by
  rw [SkipIndex.getAncestor, if_neg (by omega), Int.toNat_natCast]
  exact SkipPointers.getAncestor_spec hinv.ranked getSkipHeight_lt hb hle
    fun a hanc => hinv.skips a (hanc.mem hinv.ranked hb)

/-- **`FindFork`** finds the fork, or nothing where the chain has no ancestor of
the block.  What is above the chain's height is not in the chain, so that the
jump to that height passes nothing over. -/
theorem findFork_spec {blocks : List B} (hinv : s.Inv blocks) {tip : Option B}
    (hc : c.vChain = chainTo s tip) (htip : ∀ t, tip = some t → t ∈ blocks) {b : B}
    (hb : b ∈ blocks) :
    (∃ f, c.findFork s b = some f ∧ IsFork s c b f) ∨
      (c.findFork s b = none ∧ ∀ a, Ancestor s.pprev a b → c.contains s a = false) := by
  have hrank := hinv.ranked
  rw [findFork]
  split
  · next habove =>
      cases tip with
      | none =>
          right
          have hempty : c.height = -1 := by
            rw [height, hc]
            rfl
          have hnull : s.getAncestor b c.height = none := by
            rw [SkipIndex.getAncestor, if_pos (by omega)]
          rw [hnull]
          refine ⟨rfl, fun a ha => ?_⟩
          rw [Bool.eq_false_iff, ne_eq, contains_iff hrank hc htip]
          rintro ⟨t, ht, -⟩
          cases ht
      | some t =>
          have htm := htip t rfl
          have hheight : c.height = s.nHeight t := by
            rw [height, hc, chainTo, List.length_map, length_path hrank htm]
            omega
          rw [hheight] at habove ⊢
          rcases getAncestor_spec hinv hb (Nat.le_of_lt (Int.ofNat_lt.mp habove)) with
            ⟨a, ha, hab, harank⟩
          have ham := hab.mem hrank hb
          have hlow : ∀ x, Ancestor s.pprev x b → c.contains s x = true →
              Ancestor s.pprev x a := by
            intro x hx hin
            rcases (contains_iff hrank hc htip).mp hin with ⟨t', ht', hxt⟩
            rw [← Option.some.inj ht'] at hxt
            have hle := hxt.rank_le hrank htm
            exact hx.of_rank_le hrank hab hb (by omega)
          rw [ha]
          rcases forkLoop_spec (c := c) hrank ham
            (show s.nHeight a < s.nHeight b + 1 by omega) with ⟨f, hf, hfork⟩ | ⟨hnone, hall⟩
          · left
            exact ⟨f, hf, hfork.ancestor.trans hab, hfork.contains,
              fun x hx hin => hfork.highest x (hlow x hx hin) hin⟩
          · right
            refine ⟨hnone, fun x hx => ?_⟩
            by_contra hin
            have hin' : c.contains s x = true := by simpa using hin
            have hmissing := hall x (hlow x hx hin')
            rw [hin'] at hmissing
            cases hmissing
  · exact forkLoop_spec hrank hb (Nat.lt_succ_self _)

/-- **The chain after any calls.**  Whatever tips of a block tree were set before,
the vector is the chain of the current tip, `Contains` and `Next` answer for
that chain, and `FindFork` finds the highest common block. -/
theorem afterTips_spec (s : SkipIndex B) (blocks : List B) (hbuilt : s.Built blocks)
    (tips : List (Option B)) (htips : ∀ b, some b ∈ tips → b ∈ blocks) :
    let c := afterTips s tips
    (∀ t, currentTip tips = some t →
      c.height = s.nHeight t ∧
      ∀ h ≤ s.nHeight t, ∃ a, c.vChain[h]? = some (some a) ∧
        Ancestor s.pprev a t ∧ s.nHeight a = h) ∧
    (currentTip tips = none → c.vChain = []) ∧
    (∀ b ∈ blocks, c.contains s b = true ↔
      ∃ t, currentTip tips = some t ∧ Ancestor s.pprev b t) ∧
    (∀ b ∈ blocks, ∀ n, c.next s b = some n ↔
      s.pprev n = some b ∧ ∃ t, currentTip tips = some t ∧ Ancestor s.pprev n t) ∧
    ∀ b ∈ blocks, (∀ f, c.findFork s b = some f ↔ IsFork s c b f) ∧
      (c.findFork s b = none ↔ ∀ a, Ancestor s.pprev a b → c.contains s a = false) := by
  intro c
  have hinv := hbuilt.inv
  have hrank := hinv.ranked
  have htip := currentTip_mem htips
  have hc : c.vChain = chainTo s (currentTip tips) := afterTips_eq hrank tips htips
  refine ⟨fun t ht => ?_, fun hnone => ?_, fun b _ => contains_iff hrank hc htip,
    fun b _ n => next_eq_some_iff hrank hc htip, fun b hb => ?_⟩
  · have htm := htip t ht
    rw [ht] at hc
    constructor
    · rw [height, hc, chainTo, List.length_map, length_path hrank htm]
      omega
    · intro h hle
      rcases exists_ancestor hrank htm hle with ⟨a, hat, harank⟩
      refine ⟨a, ?_, hat, harank⟩
      rw [hc, chainTo, List.getElem?_map,
        (getElem?_path hrank htm).mpr ⟨hat, harank⟩]
      rfl
  · rw [hc, hnone]
    rfl
  · rcases findFork_spec hinv hc htip hb with ⟨f, hf, hfork⟩ | ⟨hnone, hall⟩
    · refine ⟨fun f' => ?_, ?_⟩
      · rw [hf, Option.some.injEq]
        exact ⟨fun heq => heq ▸ hfork, fun hfork' => hfork.unique hrank hb hfork'⟩
      · rw [hf]
        refine iff_of_false (by simp) fun hall => ?_
        have hmissing := hall f hfork.ancestor
        rw [hfork.contains] at hmissing
        cases hmissing
    · refine ⟨fun f' => ?_, ?_⟩
      · rw [hnone]
        refine iff_of_false (by simp) fun hfork => ?_
        have hmissing := hall f' hfork.ancestor
        rw [hfork.contains] at hmissing
        cases hmissing
      · exact iff_of_true hnone hall

end CChain

/-- The blocks 1 and 2 on top of the block 0, and 3 on top of 2. -/
def SkipIndex.forked : SkipIndex Nat :=
  (((SkipIndex.addBlock {} 0 none).addBlock 1 (some 0)).addBlock 2 (some 0)).addBlock 3 (some 2)

theorem SkipIndex.built_forked : forked.Built [3, 2, 1, 0] := by
  apply Built.add
  · apply Built.add
    · apply Built.add
      · exact Built.add Built.empty (by decide) (by simp)
      · decide
      · simp
    · decide
    · simp
  · decide
  · simp

theorem CChain.afterTips_spec_forked :
    (afterTips SkipIndex.forked [some 3, none, some 1]).findFork SkipIndex.forked 3 =
      some 0 ↔
      IsFork SkipIndex.forked (afterTips SkipIndex.forked [some 3, none, some 1]) 3 0 := by
  have htips : ∀ b, some b ∈ [some 3, none, some 1] → b ∈ [3, 2, 1, 0] := by simp
  have hspec := afterTips_spec SkipIndex.forked [3, 2, 1, 0] SkipIndex.built_forked
    [some 3, none, some 1] htips
  exact (hspec.2.2.2.2 3 (by decide)).1 0

end Agrarian.BlockIndex
