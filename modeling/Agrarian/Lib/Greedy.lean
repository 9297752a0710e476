import Mathlib

/-!
# Paying with coins of dividing denominations

A purse holds some coins of each denomination, and a selection takes some of
them.  Where every denomination divides the larger ones, going through them
from the largest down is as good as any search: the largest worth that does
not exceed an amount is found, with the fewest coins that have it.  Reaching
an amount from above with the fewest coins needs no divisibility: the largest
coins do it.
-/

namespace Agrarian.Lib.Greedy

variable {κ : Type} (value : κ → Nat)

/-- Denominations from the largest down, each a divisor of the ones before
it. -/
structure Chain (ds : List κ) : Prop where
  nodup : ds.Nodup
  pos : ∀ d ∈ ds, 0 < value d
  dvd : ds.Pairwise fun d d' => value d' ∣ value d

/-- What a selection is worth. -/
def worth (ds : List κ) (f : κ → Nat) : Nat := (ds.map fun d => f d * value d).sum

/-- How many coins a selection has. -/
def size (ds : List κ) (f : κ → Nat) : Nat := (ds.map f).sum

/-- A selection from what is held. -/
def Within (held : κ → Nat) (ds : List κ) (f : κ → Nat) : Prop :=
  ∀ d ∈ ds, f d ≤ held d

section Basic

variable {value} {d : κ} {ds : List κ} {f g held : κ → Nat} {t : Nat}

theorem Chain.tail (h : Chain value (d :: ds)) : Chain value ds where
  nodup := h.nodup.of_cons
  pos x hx := h.pos x (List.mem_cons_of_mem d hx)
  dvd := h.dvd.of_cons

theorem Chain.head_pos (h : Chain value (d :: ds)) : 0 < value d :=
  h.pos d List.mem_cons_self

theorem Chain.head_dvd (h : Chain value (d :: ds)) :
    ∀ x ∈ ds, value x ∣ value d :=
  (List.pairwise_cons.mp h.dvd).1

theorem Chain.le_head (h : Chain value (d :: ds)) :
    ∀ x ∈ ds, value x ≤ value d :=
  fun x hx => Nat.le_of_dvd h.head_pos (h.head_dvd x hx)

theorem Chain.head_notMem (h : Chain value (d :: ds)) : d ∉ ds :=
  (List.nodup_cons.mp h.nodup).1

theorem Within.tail (h : Within held (d :: ds) f) : Within held ds f :=
  fun x hx => h x (List.mem_cons_of_mem d hx)

@[simp] theorem worth_nil : worth value [] f = 0 := rfl

@[simp] theorem worth_cons :
    worth value (d :: ds) f = f d * value d + worth value ds f := rfl

@[simp] theorem size_nil : size [] f = 0 := rfl

@[simp] theorem size_cons : size (d :: ds) f = f d + size ds f := rfl

theorem worth_congr (h : ∀ d ∈ ds, f d = g d) :
    worth value ds f = worth value ds g :=
  congrArg List.sum (List.map_congr_left fun d hd => by rw [h d hd])

theorem size_congr (h : ∀ d ∈ ds, f d = g d) : size ds f = size ds g :=
  congrArg List.sum (List.map_congr_left h)

theorem worth_mono (h : ∀ d ∈ ds, f d ≤ g d) :
    worth value ds f ≤ worth value ds g :=
  List.sum_le_sum fun d hd => Nat.mul_le_mul_right _ (h d hd)

theorem worth_add :
    worth value ds (fun d => f d + g d) =
      worth value ds f + worth value ds g := by
  induction ds with
  | nil => rfl
  | cons d ds ih =>
      rw [worth_cons, worth_cons, worth_cons, ih, Nat.add_mul]
      omega

theorem size_eq_worth : size ds f = worth (fun _ => 1) ds f :=
  congrArg List.sum (List.map_congr_left fun d _ => (Nat.mul_one (f d)).symm)

/-- Coins taken out of a selection and the rest of it. -/
theorem worth_sub (h : ∀ d ∈ ds, g d ≤ f d) :
    worth value ds (fun d => f d - g d) + worth value ds g =
      worth value ds f := by
  induction ds with
  | nil => rfl
  | cons d ds ih =>
      have hd := h d List.mem_cons_self
      have hrest := ih fun x hx => h x (List.mem_cons_of_mem d hx)
      have hhead : (f d - g d) * value d + g d * value d = f d * value d := by
        rw [← Nat.add_mul, Nat.sub_add_cancel hd]
      rw [worth_cons, worth_cons, worth_cons]
      omega

theorem size_sub (h : ∀ d ∈ ds, g d ≤ f d) :
    size ds (fun d => f d - g d) + size ds g = size ds f := by
  induction ds with
  | nil => rfl
  | cons d ds ih =>
      have hd := h d List.mem_cons_self
      have hrest := ih fun x hx => h x (List.mem_cons_of_mem d hx)
      rw [size_cons, size_cons, size_cons]
      omega

theorem size_pos_of_worth_pos (h : 0 < worth value ds f) : 0 < size ds f := by
  by_contra hzero
  have hnone : ∀ d ∈ ds, f d = 0 := by
    intro d hd
    have hle : f d ≤ size ds f :=
      List.single_le_sum (fun _ _ => Nat.zero_le _) _
        (List.mem_map_of_mem hd)
    omega
  rw [worth_congr (g := fun _ => 0) hnone] at h
  simp [worth] at h

/-- Coins of at most one value are worth at most their number times it. -/
theorem worth_le_size_mul {v : Nat} (h : ∀ d ∈ ds, value d ≤ v) :
    worth value ds f ≤ size ds f * v := by
  induction ds with
  | nil => simp
  | cons d ds ih =>
      have hhead : f d * value d ≤ f d * v :=
        Nat.mul_le_mul_left _ (h d List.mem_cons_self)
      have hrest := ih fun x hx => h x (List.mem_cons_of_mem d hx)
      rw [worth_cons, size_cons, Nat.add_mul]
      omega

section Update

variable [DecidableEq κ]

theorem worth_update (hd : d ∉ ds) (k : Nat) :
    worth value ds (Function.update f d k) = worth value ds f :=
  worth_congr fun _ hx => Function.update_of_ne (ne_of_mem_of_not_mem hx hd) k f

theorem size_update (hd : d ∉ ds) (k : Nat) :
    size ds (Function.update f d k) = size ds f :=
  size_congr fun _ hx => Function.update_of_ne (ne_of_mem_of_not_mem hx hd) k f

theorem worth_cons_update (hd : d ∉ ds) (k : Nat) :
    worth value (d :: ds) (Function.update f d k) =
      k * value d + worth value ds f := by
  rw [worth_cons, Function.update_self, worth_update hd]

theorem size_cons_update (hd : d ∉ ds) (k : Nat) :
    size (d :: ds) (Function.update f d k) = k + size ds f := by
  rw [size_cons, Function.update_self, size_update hd]

/-- Coins of one denomination only. -/
theorem worth_single (hnodup : ds.Nodup) (hd : d ∈ ds) (k : Nat) :
    worth value ds (Function.update (fun _ => 0) d k) = k * value d := by
  induction ds with
  | nil => exact absurd hd List.not_mem_nil
  | cons e ds ih =>
      obtain ⟨hnot, hrest⟩ := List.nodup_cons.mp hnodup
      rcases List.mem_cons.mp hd with rfl | hd
      · rw [worth_cons_update hnot]
        simp [worth]
      · have hne : e ≠ d := fun heq => hnot (heq ▸ hd)
        rw [worth_cons, Function.update_of_ne hne, ih hrest hd,
          Nat.zero_mul, Nat.zero_add]

theorem within_cons_update (hd : d ∉ ds) {k : Nat} (hk : k ≤ held d)
    (h : Within held ds f) : Within held (d :: ds) (Function.update f d k) := by
  intro x hx
  rcases List.mem_cons.mp hx with rfl | hx
  · rwa [Function.update_self]
  · rw [Function.update_of_ne (ne_of_mem_of_not_mem hx hd)]
    exact h x hx

end Update

end Basic

/-! ## Paying from below -/

section Below

variable [DecidableEq κ]

/-- From the largest denomination down, as many coins as fit. -/
def greedy (held : κ → Nat) : List κ → Nat → κ → Nat
  | [], _ => fun _ => 0
  | d :: ds, t =>
      let k := min (held d) (t / value d)
      Function.update (greedy held ds (t - k * value d)) d k

variable {value} {ds : List κ} {f held : κ → Nat} {t : Nat}

/-- **Coins that make up a multiple.**  Of coins worth at least `n`, where `n`
is a multiple of every denomination, some are worth exactly `n`: taken from
the largest down, they never step over it. -/
theorem exists_exact (hchain : Chain value ds) (f : κ → Nat) :
    ∀ n, (∀ d ∈ ds, value d ∣ n) → n ≤ worth value ds f →
      ∃ g, Within f ds g ∧ worth value ds g = n := by
  induction ds with
  | nil =>
      intro n _ hn
      exact ⟨f, fun d hd => absurd hd List.not_mem_nil,
        by rw [worth_nil] at hn ⊢; omega⟩
  | cons d ds ih =>
      intro n hdvd hn
      have hd := hchain.head_notMem
      obtain ⟨q, rfl⟩ := hdvd d List.mem_cons_self
      rw [worth_cons] at hn
      by_cases henough : q ≤ f d
      · refine ⟨Function.update (fun _ => 0) d q,
          within_cons_update hd henough (fun _ _ => Nat.zero_le _), ?_⟩
        rw [worth_cons_update hd]
        simp [worth, Nat.mul_comm]
      · have hsplit : value d * q = value d * (q - f d) + f d * value d := by
          rw [Nat.mul_comm (f d), ← Nat.mul_add]
          congr 1
          omega
        obtain ⟨g, hg, hworth⟩ := ih hchain.tail (value d * (q - f d))
          (fun x hx => (hchain.head_dvd x hx).mul_right _) (by omega)
        refine ⟨Function.update g d (f d),
          within_cons_update hd (Nat.le_refl _) hg, ?_⟩
        rw [worth_cons_update hd, hworth]
        omega

theorem greedy_within (hchain : Chain value ds) (t : Nat) :
    Within held ds (greedy value held ds t) := by
  induction ds generalizing t with
  | nil => exact fun d hd => absurd hd List.not_mem_nil
  | cons d ds ih =>
      exact within_cons_update hchain.head_notMem (Nat.min_le_left _ _)
        (ih hchain.tail _)

theorem worth_greedy_le (hchain : Chain value ds) (t : Nat) :
    worth value ds (greedy value held ds t) ≤ t := by
  induction ds generalizing t with
  | nil => exact Nat.zero_le t
  | cons d ds ih =>
      have hk : min (held d) (t / value d) * value d ≤ t :=
        Nat.le_trans (Nat.mul_le_mul_right _ (Nat.min_le_right _ _))
          (Nat.div_mul_le_self t (value d))
      have hrest := ih hchain.tail (t - min (held d) (t / value d) * value d)
      rw [greedy, worth_cons_update hchain.head_notMem]
      omega

/-- **Greedy is optimal.**  A selection worth at most `t` is worth less than
the greedy one, or as much and then it has no fewer coins.  As long as it has
fewer coins of the largest denomination, smaller ones worth one such coin are
exchanged for it; when they are not worth one, the selection was worth
less. -/
theorem greedy_optimal (hchain : Chain value ds) :
    ∀ (t : Nat) (f : κ → Nat), Within held ds f → worth value ds f ≤ t →
      worth value ds f < worth value ds (greedy value held ds t) ∨
        worth value ds f = worth value ds (greedy value held ds t) ∧
          size ds (greedy value held ds t) ≤ size ds f := by
  induction ds with
  | nil => exact fun t f _ _ => Or.inr ⟨rfl, Nat.le_refl _⟩
  | cons d ds ih =>
      intro t
      have hd := hchain.head_notMem
      rw [greedy, worth_cons_update hd, size_cons_update hd]
      generalize hk : min (held d) (t / value d) = k
      suffices hgap : ∀ (gap : Nat) (f : κ → Nat), Within held (d :: ds) f →
          worth value (d :: ds) f ≤ t → f d + gap = k →
          worth value (d :: ds) f < k * value d +
              worth value ds (greedy value held ds (t - k * value d)) ∨
            worth value (d :: ds) f = k * value d +
                worth value ds (greedy value held ds (t - k * value d)) ∧
              k + size ds (greedy value held ds (t - k * value d)) ≤
                size (d :: ds) f by
        intro f hf hle
        have hfd : f d ≤ t / value d := by
          rw [Nat.le_div_iff_mul_le hchain.head_pos]
          rw [worth_cons] at hle
          omega
        have hheld := hf d List.mem_cons_self
        exact hgap (k - f d) f hf hle (by omega)
      intro gap
      induction gap with
      | zero =>
          intro f hf hle hfd
          rw [Nat.add_zero] at hfd
          rw [worth_cons, hfd] at hle
          rw [worth_cons, size_cons, hfd]
          rcases ih hchain.tail (t - k * value d) f hf.tail (by omega) with
            hlt | ⟨heq, hsize⟩
          · left
            omega
          · right
            omega
      | succ gap ihgap =>
          intro f hf hle hfd
          by_cases hsmall : worth value ds f < value d
          · left
            have hone : f d * value d + value d ≤ k * value d := by
              rw [← Nat.succ_mul]
              exact Nat.mul_le_mul_right _ (by omega)
            rw [worth_cons]
            omega
          · -- exchange smaller coins for one of this denomination
            obtain ⟨g, hg, hworth⟩ := exists_exact hchain.tail f (value d)
              hchain.head_dvd (Nat.not_lt.mp hsmall)
            have hsub : worth value ds (fun x => f x - g x) +
                worth value ds g = worth value ds f := worth_sub hg
            have hsize : size ds (fun x => f x - g x) + size ds g =
                size ds f := size_sub hg
            have hpos : 0 < size ds g :=
              size_pos_of_worth_pos (by rw [hworth]; exact hchain.head_pos)
            have hmore : f d + 1 ≤ held d := by omega
            have hwithin : Within held (d :: ds)
                (Function.update (fun x => f x - g x) d (f d + 1)) :=
              within_cons_update hd hmore
                (fun x hx => Nat.le_trans (Nat.sub_le _ _) (hf.tail x hx))
            have hsame : worth value (d :: ds)
                (Function.update (fun x => f x - g x) d (f d + 1)) =
                  worth value (d :: ds) f := by
              rw [worth_cons_update hd, worth_cons, Nat.succ_mul]
              omega
            have hfewer : size (d :: ds)
                (Function.update (fun x => f x - g x) d (f d + 1)) ≤
                  size (d :: ds) f := by
              rw [size_cons_update hd, size_cons]
              omega
            have hnext := ihgap _ hwithin (by rw [hsame]; exact hle)
              (by rw [Function.update_self]; omega)
            rw [hsame] at hnext
            rcases hnext with hlt | ⟨heq, hle'⟩
            · exact Or.inl hlt
            · exact Or.inr ⟨heq, Nat.le_trans hle' hfewer⟩

/-- No selection from below is worth more. -/
theorem le_worth_greedy (hchain : Chain value ds) (hf : Within held ds f)
    (hle : worth value ds f ≤ t) :
    worth value ds f ≤ worth value ds (greedy value held ds t) := by
  rcases greedy_optimal hchain t f hf hle with hlt | ⟨heq, -⟩ <;> omega

/-- **Greedy is exact**: an amount that some selection is worth is met, with
the fewest coins. -/
theorem worth_greedy (hchain : Chain value ds) (hf : Within held ds f)
    (ht : worth value ds f = t) :
    worth value ds (greedy value held ds t) = t ∧
      size ds (greedy value held ds t) ≤ size ds f := by
  have hle : worth value ds (greedy value held ds t) ≤ t :=
    worth_greedy_le hchain t
  rcases greedy_optimal hchain t f hf (Nat.le_of_eq ht) with
    hlt | ⟨heq, hsize⟩
  · omega
  · exact ⟨by omega, hsize⟩

end Below

/-! ## Paying from above -/

section Above

variable [DecidableEq κ]

/-- From the largest denomination down, as many coins as it takes to reach
the amount. -/
def cover (held : κ → Nat) : List κ → Nat → κ → Nat
  | [], _ => fun _ => 0
  | d :: ds, t =>
      let k := min (held d) ((t + value d - 1) / value d)
      Function.update (cover held ds (t - k * value d)) d k

variable {value} {ds : List κ} {f held : κ → Nat} {t : Nat}

theorem cover_within (hchain : Chain value ds) (t : Nat) :
    Within held ds (cover value held ds t) := by
  induction ds generalizing t with
  | nil => exact fun d hd => absurd hd List.not_mem_nil
  | cons d ds ih =>
      exact within_cons_update hchain.head_notMem (Nat.min_le_left _ _)
        (ih hchain.tail _)

/-- Once the amount is reached no more coins are taken. -/
theorem cover_zero (hchain : Chain value ds) :
    ∀ d ∈ ds, cover value held ds 0 d = 0 := by
  induction ds with
  | nil => exact fun d hd => absurd hd List.not_mem_nil
  | cons d ds ih =>
      intro x hx
      have hpos := hchain.head_pos
      have hk : min (held d) ((0 + value d - 1) / value d) = 0 := by
        rw [Nat.div_eq_of_lt (by omega), Nat.min_zero]
      rw [cover, hk, Nat.zero_mul, Nat.sub_zero]
      rcases List.mem_cons.mp hx with rfl | hx
      · exact Function.update_self _ _ _
      · rw [Function.update_of_ne
          (ne_of_mem_of_not_mem hx hchain.head_notMem)]
        exact ih hchain.tail x hx

/-- The number of coins of one denomination: all of them, short of the
amount, or just enough. -/
private theorem cover_head {v h t : Nat} (hv : 0 < v) :
    min h ((t + v - 1) / v) = h ∧ h * v < t ∨
      t ≤ min h ((t + v - 1) / v) * v ∧
        (0 < t → 0 < min h ((t + v - 1) / v)) ∧
        min h ((t + v - 1) / v) * v < t + v := by
  have hceil := Nat.div_add_mod (t + v - 1) v
  have hmod := Nat.mod_lt (t + v - 1) hv
  rw [Nat.mul_comm] at hceil
  rcases Nat.lt_or_ge h ((t + v - 1) / v) with hlt | hge
  · left
    have hmul : h * v + v ≤ (t + v - 1) / v * v := by
      rw [← Nat.succ_mul]
      exact Nat.mul_le_mul_right v hlt
    exact ⟨Nat.min_eq_left (Nat.le_of_lt hlt), by omega⟩
  · right
    rw [Nat.min_eq_right hge]
    refine ⟨by omega, fun ht => ?_, by omega⟩
    exact Nat.div_pos (by omega) hv

/-- Where everything held is enough the amount is reached. -/
theorem le_worth_cover (hchain : Chain value ds) :
    ∀ t, t ≤ worth value ds held →
      t ≤ worth value ds (cover value held ds t) := by
  induction ds with
  | nil => exact fun t ht => ht
  | cons d ds ih =>
      intro t ht
      rw [cover, worth_cons_update hchain.head_notMem]
      rw [worth_cons] at ht
      rcases @cover_head (value d) (held d) t hchain.head_pos with
        ⟨hall, hshort⟩ | ⟨hreached, -⟩
      · rw [hall]
        have hrest := ih hchain.tail (t - held d * value d) (by omega)
        omega
      · omega

/-- Some of the coins can be left out, at the price of their number times the
largest value. -/
private theorem exists_drop {v : Nat} (hv : ∀ d ∈ ds, value d ≤ v)
    (hnodup : ds.Nodup) (f : κ → Nat) :
    ∀ m ≤ size ds f, ∃ g, Within f ds g ∧ size ds g + m = size ds f ∧
      worth value ds f ≤ worth value ds g + m * v := by
  induction ds with
  | nil =>
      intro m hm
      exact ⟨f, fun d hd => absurd hd List.not_mem_nil,
        by rw [size_nil] at *; omega, Nat.zero_le _⟩
  | cons d ds ih =>
      intro m hm
      have hd := (List.nodup_cons.mp hnodup).1
      rw [size_cons] at hm
      obtain ⟨g, hg, hsize, hworth⟩ := ih
        (fun x hx => hv x (List.mem_cons_of_mem d hx)) hnodup.of_cons
        (m - min m (f d)) (by omega)
      refine ⟨Function.update g d (f d - min m (f d)),
        within_cons_update hd (Nat.sub_le _ _) hg, ?_, ?_⟩
      · rw [size_cons_update hd, size_cons]
        omega
      · have hhead : f d * value d ≤
            (f d - min m (f d)) * value d + min m (f d) * v := by
          have hle := Nat.mul_le_mul_left (min m (f d))
            (hv d List.mem_cons_self)
          have hsum : f d * value d = (f d - min m (f d)) * value d +
              min m (f d) * value d := by
            rw [← Nat.add_mul, Nat.sub_add_cancel (Nat.min_le_right _ _)]
          omega
        have hrest : m * v = min m (f d) * v + (m - min m (f d)) * v := by
          rw [← Nat.add_mul, Nat.add_sub_cancel' (Nat.min_le_left _ _)]
        rw [worth_cons_update hd, worth_cons]
        omega

/-- **The largest coins are the fewest.**  A selection that reaches the
amount has no fewer coins: as many of its smaller coins as it lacks of the
largest denomination may be left out in exchange. -/
theorem cover_fewest (hchain : Chain value ds) :
    ∀ (t : Nat) (f : κ → Nat), Within held ds f → t ≤ worth value ds f →
      size ds (cover value held ds t) ≤ size ds f := by
  induction ds with
  | nil => exact fun t f _ _ => Nat.zero_le _
  | cons d ds ih =>
      intro t f hf ht
      have hd := hchain.head_notMem
      rw [cover, size_cons_update hd]
      have hbound : ∀ x ∈ d :: ds, value x ≤ value d := by
        intro x hx
        rcases List.mem_cons.mp hx with rfl | hx
        · exact Nat.le_refl _
        · exact hchain.le_head x hx
      have hmany : worth value (d :: ds) f ≤ size (d :: ds) f * value d :=
        worth_le_size_mul hbound
      rcases @cover_head (value d) (held d) t hchain.head_pos with
        ⟨hall, hshort⟩ | ⟨hreached, -, hjust⟩
      · rw [hall]
        have hlarger : held d < size (d :: ds) f := by
          by_contra hle
          have := Nat.mul_le_mul_right (value d) (Nat.not_lt.mp hle)
          omega
        rw [size_cons] at hlarger
        obtain ⟨g, hg, hsize, hworth⟩ := exists_drop hchain.le_head
          hchain.tail.nodup f (held d - f d) (by omega)
        have hhead : held d * value d =
            f d * value d + (held d - f d) * value d := by
          rw [← Nat.add_mul, Nat.add_sub_cancel' (hf d List.mem_cons_self)]
        rw [worth_cons] at ht
        have hrest := ih hchain.tail (t - held d * value d) g
          (fun x hx => Nat.le_trans (hg x hx) (hf.tail x hx)) (by omega)
        have hfd := hf d List.mem_cons_self
        rw [size_cons]
        omega
      · have hzero : t - min (held d) ((t + value d - 1) / value d) *
            value d = 0 := by omega
        have hnone : size ds (cover value held ds 0) = 0 := by
          rw [size_congr (g := fun _ => 0) (cover_zero hchain.tail)]
          simp [size]
        rw [hzero, hnone, Nat.add_zero]
        by_contra hlt
        have hmul : (size (d :: ds) f + 1) * value d ≤
            min (held d) ((t + value d - 1) / value d) * value d :=
          Nat.mul_le_mul_right _ (Nat.not_le.mp hlt)
        rw [Nat.succ_mul] at hmul
        omega

/-- The last coin taken is a smallest one, and without it the amount is not
reached. -/
theorem exists_last_of_cover (hchain : Chain value ds) :
    ∀ t, 0 < t → t ≤ worth value ds (cover value held ds t) →
      ∃ d ∈ ds, 0 < cover value held ds t d ∧
        worth value ds (cover value held ds t) < t + value d ∧
        ∀ x ∈ ds, 0 < cover value held ds t x → value d ≤ value x := by
  induction ds with
  | nil =>
      intro t hpos ht
      rw [worth_nil] at ht
      omega
  | cons d ds ih =>
      intro t hpos ht
      have hd := hchain.head_notMem
      rw [cover] at ht ⊢
      rw [worth_cons_update hd] at ht ⊢
      rcases @cover_head (value d) (held d) t hchain.head_pos with
        ⟨hall, hshort⟩ | ⟨hreached, htaken, hjust⟩
      · rw [hall] at ht ⊢
        obtain ⟨x, hx, htaken, hworth, hmin⟩ := ih hchain.tail
          (t - held d * value d) (by omega) (by omega)
        refine ⟨x, List.mem_cons_of_mem d hx, ?_, by omega, ?_⟩
        · rwa [Function.update_of_ne (ne_of_mem_of_not_mem hx hd)]
        · intro y hy hypos
          rcases List.mem_cons.mp hy with rfl | hy
          · exact hchain.le_head x hx
          · rw [Function.update_of_ne (ne_of_mem_of_not_mem hy hd)] at hypos
            exact hmin y hy hypos
      · have hzero : t - min (held d) ((t + value d - 1) / value d) *
            value d = 0 := by omega
        have hnone : worth value ds (cover value held ds 0) = 0 := by
          rw [worth_congr (g := fun _ => 0) (cover_zero hchain.tail)]
          simp [worth]
        rw [hzero, hnone] at ht ⊢
        refine ⟨d, List.mem_cons_self, ?_, by omega, ?_⟩
        · rw [Function.update_self]
          exact htaken hpos
        · intro y hy hypos
          rcases List.mem_cons.mp hy with rfl | hy
          · exact Nat.le_refl _
          · rw [Function.update_of_ne (ne_of_mem_of_not_mem hy hd),
              cover_zero hchain.tail y hy] at hypos
            omega

/-- **What a selection from below leaves.**  When the coins from above step
over the amount, a largest selection from below has left a coin that steps
over it as well.  Otherwise the last coin from above is so large that the
selection from below has all coins that large, and so all of those from
above. -/
theorem exists_left_of_cover (hchain : Chain value ds) {u : κ → Nat}
    (hbelow : worth value ds u < t)
    (hmax : ∀ f, Within held ds f → worth value ds f < t →
      worth value ds f ≤ worth value ds u)
    (habove : t < worth value ds (cover value held ds t)) :
    ∃ d ∈ ds, u d < held d ∧ t < worth value ds u + value d := by
  by_contra hnone
  obtain ⟨d, hd, htaken, hlast, hmin⟩ := exists_last_of_cover hchain t
    (by omega) (Nat.le_of_lt habove)
  have hwithin : Within held ds (cover value held ds t) :=
    cover_within hchain t
  -- without its last coin the selection from above is one from below
  have hone : Within (cover value held ds t) ds
      (Function.update (fun _ => 0) d 1) := by
    intro x hx
    by_cases hxd : x = d
    · subst hxd
      rw [Function.update_self]
      exact htaken
    · rw [Function.update_of_ne hxd]
      exact Nat.zero_le _
  have hvalue : worth value ds (Function.update (fun _ => 0) d 1) =
      value d := by
    rw [worth_single hchain.nodup hd, Nat.one_mul]
  have hsub : worth value ds (fun x => cover value held ds t x -
      (Function.update (fun _ => 0) d 1 : κ → Nat) x) +
        worth value ds (Function.update (fun _ => 0) d 1) =
          worth value ds (cover value held ds t) := worth_sub hone
  rw [hvalue] at hsub
  have hless := hmax (fun x => cover value held ds t x -
    (Function.update (fun _ => 0) d 1 : κ → Nat) x)
    (fun x hx => Nat.le_trans (Nat.sub_le _ _) (hwithin x hx)) (by omega)
  have hall : ∀ x ∈ ds, cover value held ds t x ≤ u x := by
    intro x hx
    by_contra hlt
    have hxpos : 0 < cover value held ds t x := by omega
    have hle := hmin x hx hxpos
    have := hwithin x hx
    exact hnone ⟨x, hx, by omega, by omega⟩
  have hsum : worth value ds (cover value held ds t) ≤ worth value ds u :=
    worth_mono hall
  omega

end Above

/-! ## Coins in a list -/

section Lists

variable [DecidableEq κ] {α : Type} (key : α → κ)

/-- How many coins of each denomination a list has. -/
def countOf (l : List α) (d : κ) : Nat := l.countP fun a => decide (key a = d)

variable {key} {value} {ds : List κ} {l : List α} {f : κ → Nat}

theorem countOf_cons (a : α) (l : List α) (d : κ) :
    countOf key (a :: l) d =
      countOf key l d + Function.update (fun _ => 0) (key a) 1 d := by
  rw [countOf, List.countP_cons, Function.update_apply]
  simp only [decide_eq_true_eq, eq_comm (a := d)]
  rfl

theorem worth_countOf (hnodup : ds.Nodup) (h : ∀ a ∈ l, key a ∈ ds) :
    worth value ds (countOf key l) =
      (l.map fun a => value (key a)).sum := by
  induction l with
  | nil => simp [worth, countOf]
  | cons a l ih =>
      have hrest := ih fun b hb => h b (List.mem_cons_of_mem a hb)
      have hhead := h a List.mem_cons_self
      rw [worth_congr fun d _ => countOf_cons a l d, worth_add, hrest,
        worth_single hnodup hhead, List.map_cons, List.sum_cons, Nat.one_mul,
        Nat.add_comm]

theorem size_countOf (hnodup : ds.Nodup) (h : ∀ a ∈ l, key a ∈ ds) :
    size ds (countOf key l) = l.length := by
  rw [size_eq_worth, worth_countOf hnodup h]
  simp

theorem countOf_sublist {l' : List α} (h : l'.Sublist l) (d : κ) :
    countOf key l' d ≤ countOf key l d :=
  h.countP_le

/-- A list has any selection from the counts of its coins. -/
theorem exists_sublist (h : ∀ d, f d ≤ countOf key l d) :
    ∃ l' : List α, l'.Sublist l ∧ ∀ d, countOf key l' d = f d := by
  induction l generalizing f with
  | nil => exact ⟨[], List.Sublist.refl [], fun d => (Nat.le_zero.mp (h d)).symm⟩
  | cons a l ih =>
      have hrest : ∀ d, d ≠ key a → f d ≤ countOf key l d := by
        intro d hne
        have hd := h d
        rwa [countOf_cons, Function.update_of_ne hne] at hd
      have hhead := h (key a)
      rw [countOf_cons, Function.update_self] at hhead
      by_cases hfew : f (key a) ≤ countOf key l (key a)
      · have hall : ∀ d, f d ≤ countOf key l d := by
          intro d
          by_cases heq : d = key a
          · rw [heq]
            exact hfew
          · exact hrest d heq
        obtain ⟨l', hsub, hcount⟩ := ih hall
        exact ⟨l', hsub.cons a, hcount⟩
      · have hless : ∀ d, Function.update f (key a) (f (key a) - 1) d ≤
            countOf key l d := by
          intro d
          by_cases heq : d = key a
          · rw [heq, Function.update_self]
            omega
          · rw [Function.update_of_ne heq]
            exact hrest d heq
        obtain ⟨l', hsub, hcount⟩ := ih hless
        refine ⟨a :: l', hsub.cons_cons a, fun d => ?_⟩
        rw [countOf_cons, hcount]
        by_cases heq : d = key a
        · rw [heq, Function.update_self, Function.update_self]
          omega
        · rw [Function.update_of_ne heq, Function.update_of_ne heq,
            Nat.add_zero]

/-- The first coins of a list, so many of each denomination. -/
def pick (key : α → κ) (l : List α) (ds : List κ) (f : κ → Nat) : List α :=
  ds.flatMap fun d => (l.filter fun a => decide (key a = d)).take (f d)

theorem countOf_pick (hnodup : ds.Nodup) (hf : Within (countOf key l) ds f)
    {d : κ} (hd : d ∈ ds) : countOf key (pick key l ds f) d = f d := by
  have hone : ∀ e, countOf key
      ((l.filter fun a => decide (key a = e)).take (f e)) d =
        if e = d then min (f e) (countOf key l e) else 0 := by
    intro e
    split
    · next heq =>
        subst heq
        rw [countOf, List.countP_eq_length.mpr, List.length_take,
          ← List.countP_eq_length_filter, ← countOf]
        exact fun a ha => (List.mem_filter.mp (List.mem_of_mem_take ha)).2
    · next hne =>
        rw [countOf, List.countP_eq_zero]
        intro a ha hkey
        have hmem := (List.mem_filter.mp (List.mem_of_mem_take ha)).2
        rw [decide_eq_true_iff] at hmem hkey
        exact hne (hmem.symm.trans hkey)
  have hzero : ∀ ds' : List κ, d ∉ ds' →
      countOf key (pick key l ds' f) d = 0 := by
    intro ds' hnot
    rw [countOf, pick, List.countP_flatMap]
    refine List.sum_eq_zero fun n hn => ?_
    obtain ⟨e, he, rfl⟩ := List.mem_map.mp hn
    exact (hone e).trans (if_neg (ne_of_mem_of_not_mem he hnot))
  induction ds with
  | nil => exact absurd hd List.not_mem_nil
  | cons e ds ih =>
      obtain ⟨hnot, hrest⟩ := List.nodup_cons.mp hnodup
      rw [pick, List.flatMap_cons, countOf, List.countP_append]
      refine (congrArg₂ (· + ·) (hone e) rfl).trans ?_
      rcases List.mem_cons.mp hd with rfl | hmem
      · rw [if_pos rfl, Nat.min_eq_left (hf d hd)]
        exact congrArg (f d + ·) (hzero ds hnot)
      · rw [if_neg (ne_of_mem_of_not_mem hmem hnot).symm, Nat.zero_add]
        exact ih hrest hf.tail hmem

theorem pick_subperm (hnodup : ds.Nodup) (f : κ → Nat) :
    (pick key l ds f).Subperm (l.filter fun a => decide (key a ∈ ds)) := by
  induction ds with
  | nil => exact List.nil_subperm
  | cons d ds ih =>
      obtain ⟨hnot, hrest⟩ := List.nodup_cons.mp hnodup
      have hparts := List.filter_append_perm (fun a => decide (key a = d))
        (l.filter fun a => decide (key a ∈ d :: ds))
      have hhead : (l.filter fun a => decide (key a ∈ d :: ds)).filter
          (fun a => decide (key a = d)) =
            l.filter fun a => decide (key a = d) := by
        rw [List.filter_filter]
        refine List.filter_congr fun a _ => ?_
        by_cases heq : key a = d <;> simp [heq]
      have htail : (l.filter fun a => decide (key a ∈ d :: ds)).filter
          (fun a => !decide (key a = d)) =
            l.filter fun a => decide (key a ∈ ds) := by
        rw [List.filter_filter]
        refine List.filter_congr fun a _ => ?_
        by_cases heq : key a = d
        · rw [heq]
          simp [hnot]
        · simp [heq]
      rw [hhead, htail] at hparts
      exact ((List.take_sublist _ _).subperm.append (ih hrest)).trans
        hparts.subperm

end Lists

end Agrarian.Lib.Greedy
