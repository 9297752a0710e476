import Mathlib

/-!
# Programs that may stop

A program of `EStateM ε σ` ends with a value or stops with an error, in the state
it had reached.  `Ensures stop pre m post` is the Hoare triple of such a program
with one condition `stop` for every way to stop, which a sequence hands on.

A loop whose body may stop goes from one configuration to the next: `StepsTo`
holds of what comes one after the other.
-/

namespace Agrarian.Lib

open Std.Do

variable {ε σ α β : Type} {stop : ε → σ → Prop} {pre : σ → Prop}

/-- From a state of `pre` the program ends in `post`, or stops in `stop`. -/
def Ensures (stop : ε → σ → Prop) (pre : σ → Prop) (m : EStateM ε σ α)
    (post : α → σ → Prop) : Prop :=
  ⦃fun s => ⌜pre s⌝⦄ m ⦃post⟨fun a s => ⌜post a s⌝, fun e s => ⌜stop e s⌝⟩⦄

/-- What a run ends with is in one of the two conditions. -/
def Outcome (stop : ε → σ → Prop) (post : α → σ → Prop) : EStateM.Result ε σ α → Prop
  | .ok a s => post a s
  | .error e s => stop e s

theorem ensures_iff {m : EStateM ε σ α} {post : α → σ → Prop} :
    Ensures stop pre m post ↔ ∀ s, pre s → Outcome stop post (m.run s) := by
  have hwp : ∀ s, (wp⟦m⟧ post⟨fun a s => ⌜post a s⌝, fun e s => ⌜stop e s⌝⟩ s).down ↔
      Outcome stop post (m.run s) := by
    intro s
    show (match m.run s with
      | .ok a s' => ULift.up (post a s')
      | .error e s' => ULift.up (stop e s')).down ↔ _
    cases m.run s with
    | ok a s' => rfl
    | error e s' => rfl
  constructor
  · intro h s hs
    exact (hwp s).mp (h s hs)
  · intro h s hs
    exact (hwp s).mpr (h s hs)

namespace Ensures

variable {post : α → σ → Prop}

/-! ## Rules -/

theorem pure {a : α} (h : ∀ s, pre s → post a s) : Ensures stop pre (pure a) post :=
  Triple.pure a fun s hs => h s hs

theorem throw {e : ε} (h : ∀ s, pre s → stop e s) :
    Ensures stop pre (throw e : EStateM ε σ α) post :=
  ensures_iff.mpr fun s hs => h s hs

theorem bind {m : EStateM ε σ α} {f : α → EStateM ε σ β} {mid : α → σ → Prop}
    {post : β → σ → Prop} (hm : Ensures stop pre m mid)
    (hf : ∀ a, Ensures stop (mid a) (f a) post) : Ensures stop pre (m >>= f) post :=
  Triple.bind m f hm hf

/-- A condition without the state is a hypothesis. -/
theorem assume {p : Prop} {m : EStateM ε σ α} (h : p → Ensures stop pre m post) :
    Ensures stop (fun s => p ∧ pre s) m post :=
  fun s hs => h hs.1 s hs.2

theorem bind_of {m : EStateM ε σ α} {f : α → EStateM ε σ β} {p : α → Prop}
    {mid : α → σ → Prop} {post : β → σ → Prop}
    (hm : Ensures stop pre m fun a s => p a ∧ mid a s)
    (hf : ∀ a, p a → Ensures stop (mid a) (f a) post) : Ensures stop pre (m >>= f) post :=
  hm.bind fun a => assume (hf a)

theorem conseq {m : EStateM ε σ α} {pre' : σ → Prop} {post' : α → σ → Prop}
    (h : Ensures stop pre' m post') (hpre : ∀ s, pre s → pre' s)
    (hpost : ∀ a s, post' a s → post a s) : Ensures stop pre m post := by
  rw [ensures_iff] at h ⊢
  intro s hs
  have hrun := h s (hpre s hs)
  cases hresult : m.run s with
  | ok a s' =>
      rw [hresult] at hrun
      exact hpost a s' hrun
  | error e s' =>
      rw [hresult] at hrun
      exact hrun

theorem weaken_pre {m : EStateM ε σ α} {pre' : σ → Prop} (h : Ensures stop pre' m post)
    (hpre : ∀ s, pre s → pre' s) : Ensures stop pre m post :=
  h.conseq hpre fun _ _ => id

theorem weaken_post {m : EStateM ε σ α} {post' : α → σ → Prop}
    (h : Ensures stop pre m post') (hpost : ∀ a s, post' a s → post a s) :
    Ensures stop pre m post :=
  h.conseq (fun _ => id) hpost

theorem ite {c : Prop} [Decidable c] {m m' : EStateM ε σ α}
    (hthen : c → Ensures stop pre m post) (helse : ¬ c → Ensures stop pre m' post) :
    Ensures stop pre (if c then m else m') post := by
  split
  · next h => exact hthen h
  · next h => exact helse h

theorem modify {f : σ → σ} {post : σ → Prop} (h : ∀ s, pre s → post (f s)) :
    Ensures stop pre (modify f : EStateM ε σ PUnit) fun _ => post :=
  ensures_iff.mpr fun s hs => h s hs

theorem set {s : σ} {post : σ → Prop} (h : post s) :
    Ensures stop pre (set s : EStateM ε σ PUnit) fun _ => post :=
  ensures_iff.mpr fun _ _ => h

/-- Reading the state leaves it as it is. -/
theorem read {f : σ → α} :
    Ensures stop pre (f <$> get : EStateM ε σ α) fun a s => a = f s ∧ pre s :=
  ensures_iff.mpr fun _ hs => ⟨rfl, hs⟩

/-- What comes after the state is read is run in that state. -/
theorem get_bind {f : σ → EStateM ε σ α}
    (h : ∀ s, pre s → Ensures stop (fun s' => s' = s) (f s) post) :
    Ensures stop pre (get >>= f) post :=
  ensures_iff.mpr fun s hs => ensures_iff.mp (h s hs) s rfl

end Ensures

/-- A sequence whose first program is known to end. -/
theorem run_bind_of_ok {m : EStateM ε σ α} {f : α → EStateM ε σ β} {s s' : σ} {a : α}
    (h : m.run s = .ok a s') : (m >>= f).run s = (f a).run s' := by
  rw [EStateM.run_bind, h]

/-! ## Loops -/

section Loops

variable {κ : Type} {step : κ → EStateM ε σ κ} {done : κ → Bool} {c c' : κ × σ}

/-- One configuration comes some steps after the other. -/
def StepsTo (step : κ → EStateM ε σ κ) : κ × σ → κ × σ → Prop :=
  Relation.ReflTransGen fun c c' => (step c.1).run c.2 = .ok c'.1 c'.2

theorem StepsTo.invariant {inv : σ → Prop}
    (hstep : ∀ k, Ensures stop inv (step k) fun _ => inv) (h : StepsTo step c c')
    (hstart : inv c.2) : inv c'.2 := by
  induction h with
  | refl => exact hstart
  | @tail mid last _ hnext ih =>
      have hrun := ensures_iff.mp (hstep mid.1) mid.2 ih
      rwa [hnext] at hrun

/-- `while (!done) step`, for so many rounds at most. -/
def runUntil (done : κ → Bool) (step : κ → EStateM ε σ κ) : Nat → κ → EStateM ε σ κ
  | 0, k => pure k
  | fuel + 1, k =>
      if done k then pure k
      else do
        let k ← step k
        runUntil done step fuel k

/-- **A loop whose steps get smaller** ends where it is done, or a step that it reaches
stops. -/
theorem outcome_runUntil {size : κ → Nat} {inv : σ → Prop}
    (hdone : ∀ k, size k = 0 → done k)
    (hstep : ∀ k, Ensures stop inv (step k) fun k' s => size k' < size k ∧ inv s)
    {fuel : Nat} {k : κ} (hfuel : size k ≤ fuel) {s : σ} (hs : inv s) :
    Outcome
      (fun e s' => ∃ c, StepsTo step (k, s) c ∧ (step c.1).run c.2 = .error e s')
      (fun k' s' => StepsTo step (k, s) (k', s') ∧ done k')
      ((runUntil done step fuel k).run s) := by
  induction fuel generalizing k s with
  | zero => exact ⟨.refl, hdone k (Nat.le_zero.mp hfuel)⟩
  | succ fuel ih =>
      rw [runUntil]
      cases hk : done k with
      | true => exact ⟨.refl, hk⟩
      | false =>
          rw [if_neg Bool.false_ne_true, EStateM.run_bind]
          have hnext := ensures_iff.mp (hstep k) s hs
          cases hrun : (step k).run s with
          | error e s' => exact ⟨(k, s), .refl, hrun⟩
          | ok k' s' =>
              rw [hrun] at hnext
              obtain ⟨hsmaller, hs'⟩ := hnext
              have hfuel' : size k' ≤ fuel := by omega
              have hrest := ih hfuel' hs'
              show Outcome _ _ ((runUntil done step fuel k').run s')
              cases hlast : (runUntil done step fuel k').run s' with
              | ok last send =>
                  rw [hlast] at hrest
                  exact ⟨.head hrun hrest.1, hrest.2⟩
              | error e send =>
                  rw [hlast] at hrest
                  obtain ⟨c, hsteps, hstop⟩ := hrest
                  exact ⟨c, .head hrun hsteps, hstop⟩

end Loops

end Agrarian.Lib
