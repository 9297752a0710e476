import Mathlib

/-!
# Sorting by a key that repeats

A sort by a key alone leaves the order of entries with equal keys open: any
function that permutes its input into descending keys will do.  What is read
off the sorted list does not depend on the order of the input just when the
ties do not matter to it.  Two readings are treated: the position of an entry,
and the entry with the best score among the first few.

A sort by a comparison is such a function together with its properties.
-/

namespace Agrarian.Lib

variable {α ν σ : Type} (key : α → Int)

/-! ## Sorts -/

/-- The function sorts by descending keys, with ties in any order. -/
structure SortsDown (sort : List α → List α) : Prop where
  perm : ∀ l, (sort l).Perm l
  sorted : ∀ l, (sort l).Pairwise fun a b => key b ≤ key a

/-- The sort that keeps ties in the order of the input. -/
def sortDown (l : List α) : List α := l.insertionSort fun a b => key b ≤ key a

theorem sortDown_perm (l : List α) : (sortDown key l).Perm l :=
  List.perm_insertionSort _ l

variable {key}

theorem sortDown_sortsDown : SortsDown key (sortDown key) where
  perm := sortDown_perm key
  sorted := by
    intro l
    have htotal : Std.Total fun a b : α => key b ≤ key a :=
      ⟨fun a b => le_total (key b) (key a)⟩
    have htrans : IsTrans α fun a b => key b ≤ key a :=
      ⟨fun a b c hab hbc => hbc.trans hab⟩
    exact List.pairwise_insertionSort _ l

/-- Without ties there is one sorted list. -/
theorem SortsDown.eq_of_perm {sort : List α → List α} (h : SortsDown key sort)
    {l l' : List α} (hperm : l'.Perm l)
    (hties : ∀ a ∈ l, ∀ b ∈ l, key a = key b → a = b) : sort l' = sort l := by
  have hsame : (sort l').Perm (sort l) :=
    (h.perm l').trans (hperm.trans (h.perm l).symm)
  refine List.Perm.eq_of_pairwise ?_ (h.sorted l') (h.sorted l) hsame
  intro a b ha hb hba hab
  have hkey : key a = key b := le_antisymm hab hba
  have hmem : a ∈ l := (h.perm l).mem_iff.mp (hsame.mem_iff.mp ha)
  exact hties a hmem b ((h.perm l).mem_iff.mp hb) hkey

/-- An order of the entries that are read off a list comes from an order of
the list. -/
theorem exists_perm_filterMap {β : Type} [DecidableEq β] (f : β → Option α)
    {l : List β} {m : List α} (h : m.Perm (l.filterMap f)) :
    ∃ l' : List β, l'.Perm l ∧ l'.filterMap f = m := by
  induction m generalizing l with
  | nil => exact ⟨l, List.Perm.refl l, List.perm_nil.mp h.symm⟩
  | cons a m ih =>
      obtain ⟨x, hx, hfx⟩ : ∃ x ∈ l, f x = some a :=
        List.mem_filterMap.mp (h.mem_iff.mp (by simp))
      have hfront : l.Perm (x :: l.erase x) := List.perm_cons_erase hx
      have hrest : (a :: m).Perm (a :: (l.erase x).filterMap f) := by
        refine h.trans ((hfront.filterMap f).trans ?_)
        rw [List.filterMap_cons_some hfx]
      obtain ⟨l', hperm, heq⟩ := ih (List.perm_cons a |>.mp hrest)
      refine ⟨x :: l', (hperm.cons x).trans hfront.symm, ?_⟩
      rw [List.filterMap_cons_some hfx, heq]

/-! ## Sorts by a comparison -/

/-- `std::sort` with a comparison, which may leave ties in any order. -/
structure StdSort (less : α → α → Bool) where
  sort : List α → List α
  perm : ∀ l, (sort l).Perm l
  sorted : ∀ l, (sort l).Pairwise fun a b => less b a = false

/-- The stable sort is one, when "not above" is an order. -/
def stableSort (less : α → α → Bool) (htotal : ∀ a b, less b a = false ∨ less a b = false)
    (htrans : ∀ a b c, less b a = false → less c b = false → less c a = false) :
    StdSort less where
  sort := List.insertionSort fun a b => less b a = false
  perm := List.perm_insertionSort _
  sorted := by
    intro l
    have hto : Std.Total fun a b : α => less b a = false := ⟨htotal⟩
    have htr : IsTrans α fun a b => less b a = false := ⟨htrans⟩
    exact List.pairwise_insertionSort _ l

/-- The stable sort by descending values. -/
def sortDescending [LinearOrder α] : StdSort fun a b : α => decide (b < a) :=
  stableSort _ (fun a b => by simpa using le_total b a)
    (fun a b c hab hbc => by
      simp only [decide_eq_false_iff_not, not_lt] at hab hbc ⊢
      exact hbc.trans hab)

/-- **Two lists that are sorted by a key** agree item by item if and only if they
hold the same items, provided that the keys of one of them are distinct. -/
theorem map_stdSort_eq_iff {β γ κ : Type} [LinearOrder κ] (key : γ → κ) (f : α → γ)
    (g : β → γ) (byKey : StdSort fun a b => decide (key (f a) < key (f b)))
    (byKey' : StdSort fun a b => decide (key (g a) < key (g b))) {l : List α}
    {l' : List β} (hdistinct : (l'.map fun b => key (g b)).Nodup) :
    (byKey.sort l).map f = (byKey'.sort l').map g ↔ (l.map f).Perm (l'.map g) := by
  have hperm := (byKey.perm l).map f
  have hperm' := (byKey'.perm l').map g
  constructor
  · intro heq
    rw [heq] at hperm
    exact hperm.symm.trans hperm'
  · intro hsame
    have hboth : ((byKey.sort l).map f).Perm ((byKey'.sort l').map g) :=
      hperm.trans (hsame.trans hperm'.symm)
    have hle : ((byKey.sort l).map f).Pairwise fun a b => key a ≤ key b := by
      rw [List.pairwise_map]
      exact (byKey.sorted l).imp fun h => not_lt.mp (of_decide_eq_false h)
    have hle' : ((byKey'.sort l').map g).Pairwise fun a b => key a ≤ key b := by
      rw [List.pairwise_map]
      exact (byKey'.sorted l').imp fun h => not_lt.mp (of_decide_eq_false h)
    refine List.Perm.eq_of_pairwise ?_ hle hle' hboth
    intro a b ha hb hab hba
    have hkeys : ((l'.map g).map key).Nodup := by
      rw [List.map_map]
      exact hdistinct
    exact List.inj_on_of_nodup_map hkeys (hperm'.mem_iff.mp (hboth.mem_iff.mp ha))
      (hperm'.mem_iff.mp hb) (le_antisymm hab hba)

/-! ## Places in a sorted list -/

/-- The entries in front of one are those above it and some of its ties. -/
theorem SortsDown.length_bounds {sort : List α → List α}
    (h : SortsDown key sort) {l before after : List α} {b : α}
    (hsplit : sort l = before ++ b :: after) :
    l.countP (fun a => key b < key a) ≤ before.length ∧
      before.length < l.countP fun a => key b ≤ key a := by
  have hsorted := h.sorted l
  rw [hsplit, List.pairwise_append, List.pairwise_cons] at hsorted
  obtain ⟨-, ⟨hafter, -⟩, hbefore⟩ := hsorted
  have hlow : after.countP (fun a => decide (key b < key a)) = 0 := by
    rw [List.countP_eq_zero]
    intro a ha
    simpa using hafter a ha
  have hhigh : before.countP (fun a => decide (key b ≤ key a)) = before.length := by
    rw [List.countP_eq_length]
    intro a ha
    simpa using hbefore a ha b (by simp)
  have hle := List.countP_le_length (p := fun a => decide (key b < key a)) (l := before)
  rw [← (h.perm l).countP_eq, ← (h.perm l).countP_eq, hsplit]
  simp only [List.countP_append, List.countP_cons, hlow, hhigh, lt_irrefl,
    le_refl, decide_true, decide_false]
  constructor
  · simpa using hle
  · simp

/-- An entry at the front of the input comes first among its ties. -/
theorem sortDown_cons (key : α → Int) (b : α) (l : List α) :
    ∃ before after, sortDown key (b :: l) = before ++ b :: after ∧
      (∀ a ∈ before, key b < key a) ∧
      before.length = (b :: l).countP fun a => key b < key a := by
  obtain ⟨before, after, hsplit, hbefore⟩ : ∃ before after,
      sortDown key (b :: l) = before ++ b :: after ∧
        ∀ a ∈ before, key b < key a := by
    refine ⟨_, _, List.insertionSort_cons_eq_take_drop _ b l, ?_⟩
    intro a ha
    simpa using List.mem_takeWhile_imp ha
  refine ⟨before, after, hsplit, hbefore, ?_⟩
  have hbound := (sortDown_sortsDown.length_bounds hsplit).1
  have hall : before.countP (fun a => decide (key b < key a)) = before.length := by
    rw [List.countP_eq_length]
    simpa using hbefore
  have hperm := sortDown_perm key (b :: l)
  rw [← hperm.countP_eq, hsplit, List.countP_append, hall] at hbound ⊢
  omega

/-- Inserting an entry keeps what is below another one below it. -/
theorem orderedInsert_split (c b : α) (before : List α) {after : List α}
    (hafter : ∀ a ∈ after, key a < key b) :
    ∃ before' after',
      (before ++ b :: after).orderedInsert (fun a b => key b ≤ key a) c =
        before' ++ b :: after' ∧ ∀ a ∈ after', key a < key b := by
  induction before with
  | nil =>
      by_cases hc : key b ≤ key c
      · exact ⟨[c], after, by simp [hc], hafter⟩
      · refine ⟨[], after.orderedInsert (fun a b => key b ≤ key a) c, by simp [hc], ?_⟩
        intro a ha
        rw [List.mem_orderedInsert] at ha
        rcases ha with rfl | ha
        · omega
        · exact hafter a ha
  | cons x before ih =>
      by_cases hc : key x ≤ key c
      · exact ⟨c :: x :: before, after, by simp [hc], hafter⟩
      · obtain ⟨before', after', heq, hafter'⟩ := ih
        exact ⟨x :: before', after', by simp [hc, heq], hafter'⟩

/-- An entry at the end of the input comes last among its ties. -/
theorem sortDown_concat (key : α → Int) (l : List α) (b : α) :
    ∃ before after, sortDown key (l ++ [b]) = before ++ b :: after ∧
      before.length + 1 = (l ++ [b]).countP fun a => key b ≤ key a := by
  obtain ⟨before, after, hsplit, hafter⟩ : ∃ before after,
      sortDown key (l ++ [b]) = before ++ b :: after ∧
        ∀ a ∈ after, key a < key b := by
    induction l with
    | nil => exact ⟨[], [], rfl, by simp⟩
    | cons c l ih =>
        obtain ⟨before, after, heq, hafter⟩ := ih
        obtain ⟨before', after', heq', hafter'⟩ :=
          orderedInsert_split c b before hafter
        exact ⟨before', after', by rw [← heq', ← heq]; rfl, hafter'⟩
  refine ⟨before, after, hsplit, ?_⟩
  have hbound := (sortDown_sortsDown.length_bounds hsplit).2
  have hnone : after.countP (fun a => decide (key b ≤ key a)) = 0 := by
    rw [List.countP_eq_zero]
    simpa using hafter
  have hle := List.countP_le_length (p := fun a => decide (key b ≤ key a)) (l := before)
  have hperm := sortDown_perm key (l ++ [b])
  rw [← hperm.countP_eq, hsplit, List.countP_append, List.countP_cons, hnone]
    at hbound ⊢
  simp only [le_refl, decide_true, if_true] at hbound ⊢
  omega

/-- An entry that is moved to the front. -/
theorem perm_front [DecidableEq α] {l : List α} {b : α} (hb : b ∈ l) :
    (b :: l.erase b).Perm l :=
  (List.perm_cons_erase hb).symm

/-- An entry that is moved to the end. -/
theorem perm_back [DecidableEq α] {l : List α} {b : α} (hb : b ∈ l) :
    (l.erase b ++ [b]).Perm l :=
  List.perm_append_comm.trans (perm_front hb)

/-- **Positions** do not depend on the order of the input if and only if there
are no ties. -/
theorem position_indep_iff [DecidableEq α] [DecidableEq ν] {name : α → ν}
    {l : List α} (hnames : (l.map name).Nodup) :
    (∀ sort, SortsDown key sort → ∀ l', l'.Perm l → ∀ b ∈ l,
      ((sort l').map name).idxOf (name b) = ((sort l).map name).idxOf (name b)) ↔
    ∀ a ∈ l, ∀ b ∈ l, key a = key b → a = b := by
  constructor
  · intro hindep a ha b hb hkey
    have hperm := sortDown_perm key l
    have hfirst : ∀ c ∈ l, ((sortDown key l).map name).idxOf (name c) =
        l.countP fun a => key c < key a := by
      intro c hc
      obtain ⟨before, after, hsplit, -, hlength⟩ :=
        sortDown_cons key c (l.erase c)
      have hnodup : ((sortDown key (c :: l.erase c)).map name).Nodup :=
        (((sortDown_perm key _).trans (perm_front hc)).map name).nodup_iff.mpr hnames
      rw [hsplit, List.map_append, List.map_cons] at hnodup
      have hnotMem : name c ∉ before.map name := by
        intro hmem
        exact (List.nodup_append.mp hnodup).2.2 _ hmem _ (by simp) rfl
      rw [← hindep _ sortDown_sortsDown _ (perm_front hc) c hc, hsplit,
        List.map_append, List.map_cons, List.idxOf_append_of_notMem hnotMem,
        List.idxOf_cons_self, List.length_map, hlength,
        (perm_front hc).countP_eq]
      rfl
    have hindex : ((sortDown key l).map name).idxOf (name a) =
        ((sortDown key l).map name).idxOf (name b) := by
      rw [hfirst a ha, hfirst b hb, hkey]
    have hmem : name a ∈ (sortDown key l).map name :=
      List.mem_map_of_mem (hperm.mem_iff.mpr ha)
    exact List.inj_on_of_nodup_map hnames ha hb ((List.idxOf_inj hmem).mp hindex)
  · intro hties sort hsort l' hperm b _
    rw [hsort.eq_of_perm hperm hties]

/-! ## The best of the first few -/

section Selection

variable [LinearOrder σ]

/-- The loop that keeps the first entry whose score beats all before it. -/
def firstBest (score : α → σ) : Option α → σ → List α → Option α
  | best, _, [] => best
  | best, high, a :: l =>
      if high < score a then firstBest score (some a) (score a) l
      else firstBest score best high l

variable {score : α → σ} {low : σ}

theorem firstBest_of_le {best : Option α} {high : σ} {l : List α}
    (h : ∀ a ∈ l, score a ≤ high) : firstBest score best high l = best := by
  induction l with
  | nil => rfl
  | cons a l ih =>
      have hstep : ¬high < score a := not_lt.mpr (h a (by simp))
      rw [firstBest, if_neg hstep, ih fun b hb => h b (by simp [hb])]

theorem firstBest_split {best : Option α} {high : σ} {before after : List α}
    {b : α} (hhigh : high < score b) (hbefore : ∀ a ∈ before, score a < score b)
    (hafter : ∀ a ∈ after, score a ≤ score b) :
    firstBest score best high (before ++ b :: after) = some b := by
  induction before generalizing best high with
  | nil =>
      rw [List.nil_append, firstBest, if_pos hhigh]
      exact firstBest_of_le hafter
  | cons a before ih =>
      have hrest : ∀ c ∈ before, score c < score b :=
        fun c hc => hbefore c (by simp [hc])
      rw [List.cons_append, firstBest]
      split
      · exact ih (hbefore a (by simp)) hrest
      · exact ih hhigh hrest

theorem mem_of_firstBest {best : Option α} {high : σ} {l : List α} {b : α}
    (h : firstBest score best high l = some b) : best = some b ∨ b ∈ l := by
  induction l generalizing best high with
  | nil => exact Or.inl h
  | cons a l ih =>
      rw [firstBest] at h
      split at h
      · rcases ih h with hb | hb
        · simp at hb
          simp [hb]
        · simp [hb]
      · rcases ih h with hb | hb
        · exact Or.inl hb
        · simp [hb]

/-- The entry with the best score among the first `k` of the sorted list. -/
def selection (score : α → σ) (low : σ) (sort : List α → List α) (k : Nat)
    (l : List α) : Option α :=
  firstBest score none low ((sort l).take k)

/-- The entry is among the first `k` for some order of its ties. -/
def Reaches (key : α → Int) (k : Nat) (l : List α) (c : α) : Prop :=
  l.countP (fun a => key c < key a) < k

/-- The entry is among the first `k` for every order of its ties. -/
def Stays (key : α → Int) (k : Nat) (l : List α) (c : α) : Prop :=
  l.countP (fun a => key c ≤ key a) ≤ k

/-- Either no entry that can be among the first `k` has a score, or the best
one stays there, and whoever has the same score comes after it. -/
def Decided (key : α → Int) (score : α → σ) (low : σ) (k : Nat) (l : List α) :
    Prop :=
  (∀ c ∈ l, Reaches key k l c → score c ≤ low) ∨
  ∃ b ∈ l, Stays key k l b ∧ low < score b ∧
    ∀ c ∈ l, Reaches key k l c → c ≠ b →
      score c < score b ∨ (score c = score b ∧ key c < key b)

variable {k : Nat} {l l' : List α} {sort : List α → List α}

/-- Only entries that can be among the first `k` are. -/
theorem SortsDown.reaches_of_mem_take (h : SortsDown key sort)
    (hperm : l'.Perm l) {c : α} (hc : c ∈ (sort l').take k) :
    Reaches key k l c := by
  obtain ⟨before, after, htake⟩ := List.append_of_mem hc
  have hsplit : sort l' = before ++ c :: (after ++ (sort l').drop k) := by
    have := List.take_append_drop k (sort l')
    rw [htake] at this
    simpa using this.symm
  have hbound := (h.length_bounds hsplit).1
  rw [hperm.countP_eq] at hbound
  have hlength := congrArg List.length htake
  simp only [List.length_take, List.length_append, List.length_cons] at hlength
  unfold Reaches
  omega

/-- An entry in front of position `k` splits the first `k`. -/
theorem SortsDown.take_split (h : SortsDown key sort) {before after : List α}
    {b : α} (hsplit : sort l = before ++ b :: after) (hk : before.length < k) :
    (sort l).take k = before ++ b :: after.take (k - before.length - 1) ∧
      ∀ a ∈ before, key b ≤ key a := by
  constructor
  · rw [hsplit, List.take_append, List.take_of_length_le (by omega),
      List.take_cons (by omega)]
  · have hsorted := h.sorted l
    rw [hsplit, List.pairwise_append] at hsorted
    exact fun a ha => hsorted.2.2 a ha b (by simp)

theorem Decided.exists_selection (hnodup : l.Nodup)
    (h : Decided key score low k l) :
    ∃ best, ∀ sort, SortsDown key sort → ∀ l', l'.Perm l →
      selection score low sort k l' = best := by
  rcases h with hnone | ⟨b, hb, hstays, hlow, hbest⟩
  · refine ⟨none, ?_⟩
    intro sort hsort l' hperm
    refine firstBest_of_le ?_
    intro a ha
    have hmem := (hsort.perm l').mem_iff.mp (List.mem_of_mem_take ha)
    exact hnone a (hperm.mem_iff.mp hmem) (hsort.reaches_of_mem_take hperm ha)
  · refine ⟨some b, ?_⟩
    intro sort hsort l' hperm
    have hsame := (hsort.perm l').trans hperm
    obtain ⟨before, after, hsplit⟩ := List.append_of_mem (hsame.mem_iff.mpr hb)
    have hplace := (hsort.length_bounds hsplit).2
    rw [hperm.countP_eq] at hplace
    obtain ⟨htake, habove⟩ := hsort.take_split hsplit (hplace.trans_le hstays)
    have hothers : ∀ a ∈ (sort l').take k, a ≠ b →
        score a < score b ∨ (score a = score b ∧ key a < key b) := by
      intro a ha
      exact hbest a (hsame.mem_iff.mp (List.mem_of_mem_take ha))
        (hsort.reaches_of_mem_take hperm ha)
    have hnodup' : (sort l').Nodup := hsame.nodup_iff.mpr hnodup
    rw [hsplit] at hnodup'
    unfold selection
    rw [htake] at hothers ⊢
    refine firstBest_split hlow ?_ ?_
    · intro a ha
      have hne : a ≠ b := (List.nodup_append.mp hnodup').2.2 a ha b (by simp)
      rcases hothers a (by simp [ha]) hne with hlt | ⟨-, hkey⟩
      · exact hlt
      · exact absurd hkey (not_lt.mpr (habove a ha))
    · intro a ha
      by_cases heq : a = b
      · rw [heq]
      · rcases hothers a (by simp [ha]) heq with hlt | ⟨hscore, -⟩
        · exact hlt.le
        · exact hscore.le

/-- The best score among the entries that can be among the first `k`, and the
highest key for it. -/
structure Leads (key : α → Int) (score : α → σ) (low : σ) (k : Nat) (l : List α)
    (b : α) : Prop where
  mem : b ∈ l
  reaches : Reaches key k l b
  scores : low < score b
  best : ∀ c ∈ l, Reaches key k l c →
    score c < score b ∨ (score c = score b ∧ key c ≤ key b)

theorem exists_leads {c : α} (hc : c ∈ l) (hreaches : Reaches key k l c)
    (hlow : low < score c) : ∃ b, Leads key score low k l b := by
  classical
  have hmem : ∀ a, a ∈ (l.filter fun a => Reaches key k l a).toFinset ↔
      a ∈ l ∧ Reaches key k l a := by simp
  obtain ⟨b, hb, hmax⟩ :=
    (l.filter fun a => Reaches key k l a).toFinset.exists_max_image
      (fun a => toLex (score a, key a)) ⟨c, (hmem c).mpr ⟨hc, hreaches⟩⟩
  have hbest : ∀ a ∈ l, Reaches key k l a →
      score a < score b ∨ (score a = score b ∧ key a ≤ key b) := by
    intro a ha hra
    exact Prod.Lex.le_iff.mp (hmax a ((hmem a).mpr ⟨ha, hra⟩))
  obtain ⟨hbl, hbr⟩ := (hmem b).mp hb
  refine ⟨b, hbl, hbr, ?_, hbest⟩
  rcases hbest c hc hreaches with hlt | ⟨heq, -⟩
  · exact hlow.trans hlt
  · exact heq ▸ hlow

variable [DecidableEq α]

/-- A leading entry at the front of the input is selected. -/
theorem Leads.selection_front {b : α} (h : Leads key score low k l b) :
    selection score low (sortDown key) k (b :: l.erase b) = some b := by
  have hperm := perm_front h.mem
  obtain ⟨before, after, hsplit, habove, hlength⟩ :=
    sortDown_cons key b (l.erase b)
  rw [hperm.countP_eq] at hlength
  have hbest : ∀ a ∈ (sortDown key (b :: l.erase b)).take k,
      score a < score b ∨ (score a = score b ∧ key a ≤ key b) := by
    intro a ha
    have hmem := (sortDown_perm key _).mem_iff.mp
      (List.mem_of_mem_take ha)
    exact h.best a (hperm.mem_iff.mp hmem)
      (sortDown_sortsDown.reaches_of_mem_take hperm ha)
  have hplace : before.length < k := hlength ▸ h.reaches
  unfold selection
  rw [(sortDown_sortsDown.take_split hsplit hplace).1] at hbest ⊢
  refine firstBest_split h.scores ?_ ?_
  · intro a ha
    rcases hbest a (by simp [ha]) with hlt | ⟨-, hkey⟩
    · exact hlt
    · exact absurd (habove a ha) (not_lt.mpr hkey)
  · intro a ha
    rcases hbest a (by simp [ha]) with hlt | ⟨heq, -⟩
    · exact hlt.le
    · exact heq.le

/-- An entry at the end of the input is not selected if its ties can push it
out of the first `k`. -/
theorem selection_back {b : α} (hnodup : l.Nodup) (hb : b ∈ l)
    (hstays : ¬Stays key k l b) :
    selection score low (sortDown key) k (l.erase b ++ [b]) ≠ some b := by
  intro hselected
  have hperm := perm_back hb
  obtain ⟨before, after, hsplit, hlength⟩ := sortDown_concat key (l.erase b) b
  rw [hperm.countP_eq] at hlength
  have hplace : k ≤ before.length := by
    unfold Stays at hstays
    omega
  have hnodup' : (sortDown key (l.erase b ++ [b])).Nodup :=
    ((sortDown_perm key _).trans hperm).nodup_iff.mpr hnodup
  rcases mem_of_firstBest hselected with hnone | hmem
  · exact absurd hnone (by simp)
  · rw [hsplit] at hnodup'
    rw [hsplit, List.take_append_of_le_length hplace] at hmem
    exact (List.nodup_append.mp hnodup').2.2 b (List.mem_of_mem_take hmem) b
      (by simp) rfl

/-- **The selection** does not depend on the order of the input if and only if
the entries decide it. -/
theorem selection_indep_iff (hnodup : l.Nodup) :
    (∀ sort, SortsDown key sort → ∀ l', l'.Perm l →
      selection score low sort k l' = selection score low sort k l) ↔
    Decided key score low k l := by
  constructor
  · intro hindep
    by_cases hnone : ∀ c ∈ l, Reaches key k l c → score c ≤ low
    · exact Or.inl hnone
    · push Not at hnone
      obtain ⟨c, hc, hreaches, hlow⟩ := hnone
      obtain ⟨b, hb⟩ := exists_leads hc hreaches hlow
      have hpicked : ∀ a, Leads key score low k l a →
          selection score low (sortDown key) k l = some a := by
        intro a ha
        rw [← hindep _ sortDown_sortsDown _ (perm_front ha.mem)]
        exact ha.selection_front
      refine Or.inr ⟨b, hb.mem, ?_, hb.scores, ?_⟩
      · by_contra hstays
        have hback : selection score low (sortDown key) k (l.erase b ++ [b]) ≠
          some b := selection_back hnodup hb.mem hstays
        refine hback ?_
        rw [hindep _ sortDown_sortsDown _ (perm_back hb.mem)]
        exact hpicked b hb
      · intro a ha hra hne
        rcases hb.best a ha hra with hlt | ⟨hscore, hkey⟩
        · exact Or.inl hlt
        · refine Or.inr ⟨hscore, lt_of_le_of_ne hkey ?_⟩
          intro hsame
          -- two leading entries would both be selected
          have hleads : Leads key score low k l a := by
            refine ⟨ha, hra, hscore ▸ hb.scores, ?_⟩
            rw [hscore, hsame]
            exact hb.best
          exact hne (Option.some.inj
            ((hpicked a hleads).symm.trans (hpicked b hb)))
  · intro hdecided sort hsort l' hperm
    obtain ⟨best, hbest⟩ := hdecided.exists_selection hnodup
    rw [hbest sort hsort l' hperm, hbest sort hsort l (List.Perm.refl l)]

end Selection

end Agrarian.Lib
