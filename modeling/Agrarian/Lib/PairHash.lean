import Mathlib

/-!
# Levels of a pairwise hashed list

A binary hash tree over a list is built level by level: neighbours are
hashed together, and a level of odd length hashes its last element with
itself.  This file is the mathematics of that construction over an
arbitrary type `α` and an arbitrary pair function `hash`.

The construction is not injective, because a level ending in two equal
elements has the same next level as the level with one of them dropped.
`lastPairEq` recognises exactly that shape.
-/

namespace Agrarian.Lib.PairHash

variable {α : Type*} (hash : α → α → α)

/-! ## One level -/

/-- The level above: neighbours hashed together, a lone last element hashed
with itself. -/
def nextLevel : List α → List α
  | [] => []
  | [a] => [hash a a]
  | a :: b :: rest => hash a b :: nextLevel rest

/-- A level of even length whose last two elements are equal. -/
def lastPairEq [DecidableEq α] : List α → Bool
  | [] => false
  | [_] => false
  | [a, b] => a == b
  | _ :: _ :: rest => lastPairEq rest

@[simp] theorem nextLevel_nil : nextLevel hash [] = [] := rfl

@[simp] theorem nextLevel_single (a : α) :
    nextLevel hash [a] = [hash a a] := rfl

@[simp] theorem nextLevel_cons_cons (a b : α) (rest : List α) :
    nextLevel hash (a :: b :: rest) = hash a b :: nextLevel hash rest := rfl

@[simp] theorem length_nextLevel (level : List α) :
    (nextLevel hash level).length = (level.length + 1) / 2 := by
  induction level using nextLevel.induct with
  | case1 => simp
  | case2 a => simp
  | case3 a b rest ih =>
      simp only [nextLevel_cons_cons, List.length_cons, ih]
      omega

@[simp] theorem nextLevel_eq_nil {level : List α} :
    nextLevel hash level = [] ↔ level = [] := by
  rw [← List.length_eq_zero_iff, length_nextLevel, ← List.length_eq_zero_iff]
  omega

/-- Node `i` of the next level hashes the elements `2 * i` and `2 * i + 1`,
the first of them twice when the second is past the end. -/
theorem getElem_nextLevel (level : List α) (i : Nat)
    (hi : i < (nextLevel hash level).length) (hl : 2 * i < level.length)
    (hr : min (2 * i + 1) (level.length - 1) < level.length) :
    (nextLevel hash level)[i] =
      hash level[2 * i] level[min (2 * i + 1) (level.length - 1)] := by
  induction level using nextLevel.induct generalizing i with
  | case1 => simp at hi
  | case2 a =>
      have hzero : i = 0 := by simpa using hi
      subst hzero
      rfl
  | case3 a b rest ih =>
      cases i with
      | zero => simp
      | succ i =>
          have hrest : i < (nextLevel hash rest).length := by simpa using hi
          have hlen : i < (rest.length + 1) / 2 := by simpa using hrest
          simp only [nextLevel_cons_cons, List.getElem_cons_succ,
            ih i hrest (by omega) (by omega)]
          have hright : min (2 * (i + 1) + 1) ((a :: b :: rest).length - 1) =
              min (2 * i + 1) (rest.length - 1) + 2 := by
            simp only [List.length_cons]
            omega
          congr 1
          rw [getElem_congr_idx hright]
          rfl

/-- The children of an element of the next level are elements of the
level. -/
theorem mem_nextLevel {level : List α} {x : α}
    (hx : x ∈ nextLevel hash level) :
    ∃ a ∈ level, ∃ b ∈ level, x = hash a b := by
  obtain ⟨i, hi, rfl⟩ := List.mem_iff_getElem.mp hx
  have hlen : i < (level.length + 1) / 2 := by simpa using hi
  exact ⟨_, List.getElem_mem _, _, List.getElem_mem _,
    getElem_nextLevel hash level i hi (by omega) (by omega)⟩

section Injective

variable [DecidableEq α]

theorem lastPairEq_rest {a b : α} {rest : List α}
    (h : lastPairEq (a :: b :: rest) = false) : lastPairEq rest = false := by
  cases rest with
  | nil => rfl
  | cons c rest => simpa [lastPairEq] using h

theorem lastPairEq_of_odd {level : List α} {k : Nat}
    (hlen : level.length = 2 * k + 1) : lastPairEq level = false := by
  induction k generalizing level with
  | zero =>
      obtain ⟨a, rfl⟩ := List.length_eq_one_iff.mp hlen
      rfl
  | succ k ih =>
      match level with
      | a :: b :: c :: rest =>
          simp only [lastPairEq]
          exact ih (by simp only [List.length_cons] at hlen ⊢; omega)

theorem lastPairEq_of_even {level : List α} {k : Nat}
    (hlen : level.length = 2 * k + 2) :
    lastPairEq level = (level[2 * k] == level[2 * k + 1]) := by
  induction k generalizing level with
  | zero =>
      match level with
      | [a, b] => rfl
  | succ k ih =>
      match level with
      | a :: b :: c :: rest =>
          simp only [lastPairEq]
          exact ih (by simp only [List.length_cons] at hlen ⊢; omega)

/-- A level that does not end in an equal pair is recovered from the level
above it.  A lone last element and a full last pair can only be confused
when the pair is an equal one. -/
theorem nextLevel_inj
    (hinj : ∀ a b c d, hash a b = hash c d → a = c ∧ b = d)
    (level : List α) :
    ∀ level' : List α, lastPairEq level = false → lastPairEq level' = false →
      nextLevel hash level = nextLevel hash level' → level = level' := by
  induction level using nextLevel.induct with
  | case1 =>
      intro level' _ _ h
      exact ((nextLevel_eq_nil hash).mp h.symm).symm
  | case2 a =>
      intro level' _ hclean h
      match level' with
      | [] => simp at h
      | [c] =>
          have hac := hinj a a c c (by simpa using h)
          rw [hac.1]
      | [c, d] =>
          have hac := hinj a a c d (by simpa using h)
          have hcd : c = d := hac.1.symm.trans hac.2
          simp [lastPairEq, hcd] at hclean
      | c :: d :: e :: rest =>
          have hnil : nextLevel hash (e :: rest) = [] := by
            simpa using (List.cons.inj h).2.symm
          simp at hnil
  | case3 a b rest ih =>
      intro level' hclean hclean' h
      match level' with
      | [] => simp at h
      | [c] =>
          have hac := hinj a b c c (by simpa using (List.cons.inj h).1)
          have hnil : rest = [] := by
            simpa using (List.cons.inj h).2
          have hab : a = b := hac.1.trans hac.2.symm
          simp [lastPairEq, hnil, hab] at hclean
      | c :: d :: rest' =>
          obtain ⟨hhead, htail⟩ := List.cons.inj h
          obtain ⟨hac, hbd⟩ := hinj a b c d hhead
          have hrest : rest = rest' :=
            ih rest' (lastPairEq_rest hclean) (lastPairEq_rest hclean') htail
          rw [hac, hbd, hrest]

end Injective

/-! ## The tower of levels -/

/-- The level `k` steps above `leaves`. -/
def level (leaves : List α) (k : Nat) : List α := (nextLevel hash)^[k] leaves

@[simp] theorem level_zero (leaves : List α) : level hash leaves 0 = leaves :=
  rfl

theorem level_succ (leaves : List α) (k : Nat) :
    level hash leaves (k + 1) = nextLevel hash (level hash leaves k) :=
  Function.iterate_succ_apply' _ _ _

theorem level_succ' (leaves : List α) (k : Nat) :
    level hash leaves (k + 1) = level hash (nextLevel hash leaves) k :=
  Function.iterate_succ_apply _ _ _

/-- The last level of the tower: the first one with at most one element. -/
def top (leaves : List α) : List α :=
  if leaves.length ≤ 1 then leaves else top (nextLevel hash leaves)
termination_by leaves.length
decreasing_by
  simp only [length_nextLevel]
  omega

theorem top_of_length_le {leaves : List α} (h : leaves.length ≤ 1) :
    top hash leaves = leaves := by
  rw [top, if_pos h]

theorem top_of_one_lt {leaves : List α} (h : 1 < leaves.length) :
    top hash leaves = top hash (nextLevel hash leaves) := by
  rw [top, if_neg (Nat.not_le.mpr h)]

/-- A level of odd length and the one that repeats its last node have the same
parents. -/
theorem nextLevel_repeat_last (xs : List α) (a : α) (heven : xs.length % 2 = 0) :
    nextLevel hash (xs ++ [a, a]) = nextLevel hash (xs ++ [a]) := by
  induction xs using nextLevel.induct with
  | case1 => rfl
  | case2 b => simp at heven
  | case3 b c rest ih =>
      simp only [List.length_cons] at heven
      simp only [List.cons_append, nextLevel_cons_cons, ih (by omega)]

theorem top_repeat_last {xs : List α} (hne : xs ≠ []) (a : α) (heven : xs.length % 2 = 0) :
    top hash (xs ++ [a, a]) = top hash (xs ++ [a]) := by
  have hlen : 0 < xs.length := List.length_pos_iff.mpr hne
  have hone : 1 < (xs ++ [a]).length := by
    rw [List.length_append, List.length_singleton]
    omega
  rw [top_of_one_lt hash (by simp), top_of_one_lt hash hone, nextLevel_repeat_last hash xs a heven]

theorem exists_level_eq_top (leaves : List α) :
    ∃ k, top hash leaves = level hash leaves k := by
  induction leaves using top.induct hash with
  | case1 leaves h => exact ⟨0, top_of_length_le hash h⟩
  | case2 leaves h ih =>
      obtain ⟨k, hk⟩ := ih
      refine ⟨k + 1, ?_⟩
      rw [top_of_one_lt hash (Nat.not_le.mp h), hk, level_succ']

/-- The last level of a nonempty list has one element. -/
theorem length_top {leaves : List α} (h : leaves ≠ []) :
    (top hash leaves).length = 1 := by
  induction leaves using top.induct hash with
  | case1 leaves hle =>
      rw [top_of_length_le hash hle]
      have := List.length_pos_iff.mpr h
      omega
  | case2 leaves hlt ih =>
      rw [top_of_one_lt hash (Nat.not_le.mp hlt)]
      exact ih (by simpa using h)

/-- The first level with at most one element is the last level. -/
theorem level_eq_top {leaves : List α} {k : Nat}
    (hlt : ∀ j < k, 1 < (level hash leaves j).length)
    (hle : (level hash leaves k).length ≤ 1) :
    level hash leaves k = top hash leaves := by
  induction k generalizing leaves with
  | zero => exact (top_of_length_le hash hle).symm
  | succ k ih =>
      have hone : 1 < leaves.length := hlt 0 (by omega)
      rw [top_of_one_lt hash hone, level_succ']
      refine ih (fun j hj => ?_) (by rwa [← level_succ'])
      rw [← level_succ']
      exact hlt (j + 1) (by omega)

/-- All levels up to the last one, bottom first. -/
def tower (leaves : List α) : List α :=
  if leaves.length ≤ 1 then leaves
  else leaves ++ tower (nextLevel hash leaves)
termination_by leaves.length
decreasing_by
  simp only [length_nextLevel]
  omega

theorem tower_of_length_le {leaves : List α} (h : leaves.length ≤ 1) :
    tower hash leaves = leaves := by
  rw [tower, if_pos h]

theorem tower_of_one_lt {leaves : List α} (h : 1 < leaves.length) :
    tower hash leaves = leaves ++ tower hash (nextLevel hash leaves) := by
  rw [tower, if_neg (Nat.not_le.mpr h)]

/-- The tower ends with its last level. -/
theorem tower_suffix (leaves : List α) :
    ∃ below, tower hash leaves = below ++ top hash leaves := by
  induction leaves using tower.induct hash with
  | case1 leaves h =>
      exact ⟨[], by simp [tower_of_length_le hash h, top_of_length_le hash h]⟩
  | case2 leaves h ih =>
      obtain ⟨below, hbelow⟩ := ih
      have hlt : 1 < leaves.length := Nat.not_le.mp h
      refine ⟨leaves ++ below, ?_⟩
      rw [tower_of_one_lt hash hlt, hbelow, top_of_one_lt hash hlt,
        List.append_assoc]

/-- Elements above the leaves are hashes of pairs. -/
theorem mem_level_succ {leaves : List α} {k : Nat} {x : α}
    (hx : x ∈ level hash leaves (k + 1)) : ∃ a b, x = hash a b := by
  rw [level_succ] at hx
  obtain ⟨a, _, b, _, hab⟩ := mem_nextLevel hash hx
  exact ⟨a, b, hab⟩

section Collision

variable [DecidableEq α]

/-- Some level below the last one ends in an equal pair. -/
def mutated (leaves : List α) : Bool :=
  if leaves.length ≤ 1 then false
  else lastPairEq leaves || mutated (nextLevel hash leaves)
termination_by leaves.length
decreasing_by
  simp only [length_nextLevel]
  omega

theorem mutated_of_length_le {leaves : List α} (h : leaves.length ≤ 1) :
    mutated hash leaves = false := by
  rw [mutated, if_pos h]

theorem mutated_of_one_lt {leaves : List α} (h : 1 < leaves.length) :
    mutated hash leaves =
      (lastPairEq leaves || mutated hash (nextLevel hash leaves)) := by
  rw [mutated, if_neg (Nat.not_le.mpr h)]

theorem lastPairEq_of_length_le {leaves : List α} (h : leaves.length ≤ 1) :
    lastPairEq leaves = false := by
  match leaves, h with
  | [], _ => rfl
  | [_], _ => rfl

/-- Below the last level no level of a clean tower ends in an equal pair;
above it there is only one element. -/
theorem lastPairEq_level {leaves : List α}
    (hclean : mutated hash leaves = false) (k : Nat) :
    lastPairEq (level hash leaves k) = false := by
  induction k generalizing leaves with
  | zero =>
      rcases Nat.lt_or_ge 1 leaves.length with hlt | hle
      · rw [mutated_of_one_lt hash hlt, Bool.or_eq_false_iff] at hclean
        exact hclean.1
      · exact lastPairEq_of_length_le hle
  | succ k ih =>
      rw [level_succ']
      refine ih ?_
      rcases Nat.lt_or_ge 1 leaves.length with hlt | hle
      · rw [mutated_of_one_lt hash hlt, Bool.or_eq_false_iff] at hclean
        exact hclean.2
      · exact mutated_of_length_le hash (by rw [length_nextLevel]; omega)

/-- **Collisions of the tower.**  Two nonempty lists with the same last
level, both clean, are equal, or one of them is a level of the other above
its leaves.  The induction runs down from the common last level: where both
lists still have a level below, the two levels agree by `nextLevel_inj`;
the shorter tower runs out first. -/
theorem eq_or_level_of_top_eq
    (hinj : ∀ a b c d, hash a b = hash c d → a = c ∧ b = d)
    (n : Nat) :
    ∀ leaves leaves' : List α, leaves.length + leaves'.length ≤ n →
      leaves ≠ [] → leaves' ≠ [] →
      mutated hash leaves = false → mutated hash leaves' = false →
      top hash leaves = top hash leaves' →
      leaves = leaves' ∨ (∃ k, leaves = level hash leaves' (k + 1)) ∨
        (∃ k, leaves' = level hash leaves (k + 1)) := by
  induction n with
  | zero =>
      intro leaves leaves' hlen hne _ _ _ _
      have := List.length_pos_iff.mpr hne
      omega
  | succ n ih =>
      intro leaves leaves' hlen hne hne' hclean hclean' htop
      rcases Nat.lt_or_ge 1 leaves.length with hlt | hle
      · rcases Nat.lt_or_ge 1 leaves'.length with hlt' | hle'
        · have hstep := hclean
          have hstep' := hclean'
          rw [mutated_of_one_lt hash hlt, Bool.or_eq_false_iff] at hstep
          rw [mutated_of_one_lt hash hlt', Bool.or_eq_false_iff] at hstep'
          rw [top_of_one_lt hash hlt, top_of_one_lt hash hlt'] at htop
          rcases ih (nextLevel hash leaves) (nextLevel hash leaves')
              (by simp only [length_nextLevel]; omega)
              (by simpa using hne) (by simpa using hne')
              hstep.2 hstep'.2 htop with heq | ⟨k, hk⟩ | ⟨k, hk⟩
          · left
            exact nextLevel_inj hash hinj _ _ hstep.1 hstep'.1 heq
          · right; left
            refine ⟨k, nextLevel_inj hash hinj _ _ hstep.1
              (lastPairEq_level hash hclean' _) ?_⟩
            rw [hk, ← level_succ', level_succ]
          · right; right
            refine ⟨k, nextLevel_inj hash hinj _ _ hstep'.1
              (lastPairEq_level hash hclean _) ?_⟩
            rw [hk, ← level_succ', level_succ]
        · rw [top_of_length_le hash hle'] at htop
          obtain ⟨k, hk⟩ := exists_level_eq_top hash leaves
          cases k with
          | zero => exact Or.inl (by rw [← htop, hk, level_zero])
          | succ k => exact Or.inr (Or.inr ⟨k, by rw [← htop, hk]⟩)
      · rw [top_of_length_le hash hle] at htop
        obtain ⟨k, hk⟩ := exists_level_eq_top hash leaves'
        cases k with
        | zero => exact Or.inl (by rw [htop, hk, level_zero])
        | succ k => exact Or.inr (Or.inl ⟨k, by rw [htop, hk]⟩)

end Collision

end Agrarian.Lib.PairHash
