import Agrarian.BlockIndex.Activate

/-!
# The best chain

What `ActivateBestChain` leaves active.  The candidates cover all usable
blocks that are not worse than the tip at the start of the call; as the tip
goes down and up again, a reference takes its place: the best of the old tip
and the tips that were connected since.  Only a block of the chain that was
active can spoil it, by being found invalid when it is connected again: blocks
with less work than the old tip are no candidates then.
-/

namespace Agrarian.BlockIndex

open Agrarian.Lib Agrarian.Lib.Forest

variable {B : Type} [LinearOrder B]

namespace State

/-! ## What holds during a call -/

/-- Block and ancestors are unmarked and have data. -/
def Usable (s : State B) (b : B) : Prop :=
  ∀ a, Ancestor s.parent a b → s.usable a = true

/-- The block itself is unmarked, and it and its ancestors have data. -/
def Open (s : State B) (b : B) : Prop :=
  (s.index b).failed = false ∧ s.AllData b

/-- The open blocks that are not worse than a reference are candidates. -/
def CoverFrom (s : State B) (r : Option B) : Prop :=
  ∀ b ∈ s.mapBlockIndex, s.Open b →
    (∀ x, r = some x → s.worse b x = false) → b ∈ s.setBlockIndexCandidates

/-- What a call of `ActivateBestChain` starts from: the active chain is
usable, and open blocks not worse than its tip are candidates. -/
structure Ready (s : State B) : Prop where
  base : Base s
  usable : ∀ t, s.tip = some t → s.Usable t
  cover : s.CoverFrom s.tip

/-- The block is active. -/
def Active (s : State B) (b : B) : Prop :=
  ∃ t, s.tip = some t ∧ Ancestor s.parent b t

omit [LinearOrder B] in
theorem usable_iff {s : State B} {b : B} :
    s.usable b = true ↔
      (s.index b).failed = false ∧ (s.index b).haveData = true := by
  unfold State.usable
  rw [Bool.and_eq_true, Bool.not_eq_true']

omit [LinearOrder B] in
theorem Usable.open {s : State B} {b : B} (h : s.Usable b) : s.Open b :=
  ⟨(usable_iff.mp (h b Ancestor.refl)).1,
    fun a ha => (usable_iff.mp (h a ha)).2⟩

omit [LinearOrder B] in
theorem Usable.ancestor {s : State B} {a b : B} (h : s.Usable b)
    (ha : Ancestor s.parent a b) : s.Usable a :=
  fun x hx => h x (hx.trans ha)

omit [LinearOrder B] in
theorem Kept.open {s s' : State B} (h : Kept s s') {b : B}
    (hopen : s'.Open b) : s.Open b := by
  constructor
  · by_contra hmark
    have hfailed := h.failed b (Bool.not_eq_false _ ▸ hmark)
    rw [hopen.1] at hfailed
    cases hfailed
  · intro a ha
    rw [← h.haveData]
    apply hopen.2
    rw [h.parent]
    exact ha

/-- The usable block the bookkeeping goes by: the active chain at the start
of the call is not better, and open blocks that are not worse are
candidates. -/
structure Reference (env : Env B) (s₀ s : State B) (r : Option B) :
    Prop where
  usable : ∀ x, r = some x → x ∈ s.mapBlockIndex ∧ s.Usable x ∧
    ∀ a, Ancestor s.parent a x → s₀.Active a ∨ env.verdict a = .ok
  notWorse : ∀ t, s₀.tip = some t → ∃ x, r = some x ∧ s.worse x t = false
  cover : s.CoverFrom r

/-- What holds at every point of a call that started in `s₀`. -/
structure InCall (env : Env B) (s₀ s : State B) : Prop where
  base : Base s
  parent : s.parent = s₀.parent
  usable : ∀ t, s.tip = some t → s.Usable t
  connected : ∀ a, s.Active a → s₀.Active a ∨ env.verdict a = .ok
  marked : ∀ a, s₀.Active a → (s.index a).failed = true →
    ∃ a', s₀.Active a' ∧ env.verdict a' = .invalid
  reference : (∃ a, s₀.Active a ∧ (s.index a).failed = true) ∨
    ∃ r, Reference env s₀ s r

theorem Ready.inCall {env : Env B} {s : State B} (h : s.Ready) :
    InCall env s s := by
  refine ⟨h.base, rfl, h.usable, fun a ha => Or.inl ha, ?_, Or.inr
    ⟨s.tip, ?_, ?_, h.cover⟩⟩
  · rintro a ⟨t, ht, ha⟩ hmark
    have husable := usable_iff.mp (h.usable t ht a ha)
    rw [husable.1] at hmark
    cases hmark
  · intro x hx
    exact ⟨h.base.tip x hx, h.usable x hx, fun a ha => Or.inl ⟨x, hx, ha⟩⟩
  · intro t ht
    exact ⟨t, ht, worse_irrefl s t⟩

section Moves

variable {env : Env B} {s₀ s : State B}

/-- A mark that striking off sets is below a mark that was there. -/
theorem removeChain_failed {above : List B} {test x : B}
    (h : ((s.removeChain above test).index x).failed = true) :
    (s.index x).failed = true ∨
      x ∈ above ∧ (s.index test).failed = true := by
  rw [removeChain_index] at h
  split at h
  · rename_i hmark
    exact Or.inr ⟨hmark.2, hmark.1⟩
  · exact Or.inl h

omit [LinearOrder B] in
theorem usable_of_kept {s' : State B} (hkept : Kept s s') {b : B}
    (h : s.Usable b) (hmarks : ∀ a, Ancestor s.parent a b →
      (s'.index a).failed = true → (s.index a).failed = true) :
    s'.Usable b := by
  intro a ha
  rw [hkept.parent] at ha
  have husable := usable_iff.mp (h a ha)
  rw [usable_iff, hkept.haveData]
  refine ⟨?_, husable.2⟩
  by_contra hmark
  have hfailed := hmarks a ha (Bool.not_eq_false _ ▸ hmark)
  rw [husable.1] at hfailed
  cases hfailed

/-- Striking off a chain leaves usable blocks usable. -/
theorem usable_removeChain {above : List B} {pindexNew test b : B}
    (hnew : pindexNew ∈ s.setBlockIndexCandidates)
    (htest : Ancestor s.parent test pindexNew)
    (hnot : s.usable test = false)
    (habove : ∀ x ∈ above, x ∈ s.mapBlockIndex ∧ x ≠ test ∧
      Ancestor s.parent test x) (h : s.Usable b) :
    (s.removeChain above test).Usable b := by
  have hmove : Move ⟨fun _ => .ok, fun _ => true, true⟩ s _ :=
    Move.removeChain hnew htest hnot habove
  apply usable_of_kept hmove.kept h
  intro a ha hmark
  rcases removeChain_failed hmark with hold | ⟨hmem, -⟩
  · exact hold
  · have husable := h test ((habove a hmem).2.2.trans ha)
    rw [hnot] at husable
    cases husable

/-- What is struck off is not open any more. -/
theorem not_open_removeChain {above : List B} {pindexNew test b : B}
    (hnew : pindexNew ∈ s.setBlockIndexCandidates)
    (htest : Ancestor s.parent test pindexNew)
    (hnot : s.usable test = false)
    (habove : ∀ x ∈ above, x ∈ s.mapBlockIndex ∧ x ≠ test ∧
      Ancestor s.parent test x) (hb : b ∈ above ∨ b = test) :
    ¬ (s.removeChain above test).Open b := by
  have hmove : Move ⟨fun _ => .ok, fun _ => true, true⟩ s _ :=
    Move.removeChain hnew htest hnot habove
  intro hopen
  have hopen₀ := hmove.kept.open hopen
  have hanc : Ancestor s.parent test b := by
    rcases hb with hmem | rfl
    · exact (habove b hmem).2.2
    · exact Ancestor.refl
  have hfailed : (s.index test).failed = true := by
    by_contra hmark
    have husable := usable_iff.mpr ⟨Bool.not_eq_true _ ▸ hmark,
      hopen₀.2 test hanc⟩
    rw [hnot] at husable
    cases husable
  rcases hb with hmem | rfl
  · have hmark := hopen.1
    rw [removeChain_index, if_pos ⟨hfailed, hmem⟩] at hmark
    simp [CBlockIndex.failed] at hmark
  · rw [hopen₀.1] at hfailed
    cases hfailed

theorem InCall.removeChain {above : List B} {pindexNew test : B}
    (h : InCall env s₀ s) (hnew : pindexNew ∈ s.setBlockIndexCandidates)
    (htest : Ancestor s.parent test pindexNew)
    (hnot : s.usable test = false)
    (habove : ∀ x ∈ above, x ∈ s.mapBlockIndex ∧ x ≠ test ∧
      Ancestor s.parent test x) :
    InCall env s₀ (s.removeChain above test) := by
  have hmove : Move env s _ := Move.removeChain hnew htest hnot habove
  have hkept := hmove.kept
  have htip : (s.removeChain above test).tip = s.tip :=
    (removeChain_kept s above test).2.1
  refine ⟨h.base.move hmove, hkept.parent.trans h.parent, ?_, ?_, ?_, ?_⟩
  · intro t ht
    rw [htip] at ht
    exact usable_removeChain hnew htest hnot habove (h.usable t ht)
  · intro a ha
    unfold Active at ha
    rw [htip, hkept.parent] at ha
    exact h.connected a ha
  · intro a ha hmark
    rcases removeChain_failed hmark with hold | ⟨hmem, hfailed⟩
    · exact h.marked a ha hold
    · rcases ha with ⟨t, ht, hat⟩
      have hanc := (habove a hmem).2.2
      rw [h.parent] at hanc
      exact h.marked test ⟨t, ht, hanc.trans hat⟩ hfailed
  · rcases h.reference with ⟨a, ha, hmark⟩ | ⟨r, hr⟩
    · exact Or.inl ⟨a, ha, hkept.failed a hmark⟩
    · refine Or.inr ⟨r, ?_, ?_, ?_⟩
      · intro x hx
        have hx' := hr.usable x hx
        rw [hkept.mapBlockIndex, hkept.parent]
        exact ⟨hx'.1,
          usable_removeChain hnew htest hnot habove hx'.2.1, hx'.2.2⟩
      · intro t ht
        rcases hr.notWorse t ht with ⟨x, hx, hworse⟩
        exact ⟨x, hx, (hkept.worse x t).trans hworse⟩
      · intro b hb hopen hworse
        have hmem : b ∈ s.setBlockIndexCandidates := by
          apply hr.cover b (hkept.mapBlockIndex ▸ hb) (hkept.open hopen)
          intro x hx
          rw [← hkept.worse]
          exact hworse x hx
        have hstay : ¬ (b ∈ above ∨ b = test) := fun hstruck =>
          not_open_removeChain hnew htest hnot habove hstruck hopen
        rw [not_or] at hstay
        exact mem_removeChain.mpr ⟨hmem, hstay⟩

theorem InCall.disconnectTip {t p : B} (h : InCall env s₀ s)
    (ht : s.tip = some t) (hp : s.parent t = some p) :
    InCall env s₀ { s with tip := some p } := by
  have hpt : Ancestor s.parent p t := Ancestor.step hp Ancestor.refl
  have hmove : Move env s { s with tip := some p } :=
    Move.disconnectTip ht hp
  refine ⟨h.base.move hmove, h.parent, ?_, ?_, h.marked, ?_⟩
  · intro t' ht'
    rw [← Option.some.inj ht']
    exact (h.usable t ht).ancestor hpt
  · rintro a ⟨t', ht', ha⟩
    rw [← Option.some.inj ht'] at ha
    exact h.connected a ⟨t, ht, ha.trans hpt⟩
  · rcases h.reference with hmark | ⟨r, hr⟩
    · exact Or.inl hmark
    · exact Or.inr ⟨r, hr.usable, hr.notWorse, hr.cover⟩

omit [LinearOrder B] in
/-- The active chain after a connection is the one before and the block. -/
theorem ancestor_child {s : State B} {a c : B} (hp : s.parent c = s.tip)
    (ha : Ancestor s.parent a c) : a = c ∨ s.Active a := by
  rcases ha.eq_or_parent with rfl | ⟨p, hp', ha'⟩
  · exact Or.inl rfl
  · exact Or.inr ⟨p, hp.symm.trans hp', ha'⟩

theorem InCall.connectTip {c : B} (h : InCall env s₀ s)
    (hc : c ∈ s.mapBlockIndex) (hp : s.parent c = s.tip)
    (husable : s.usable c = true) (hok : env.verdict c = .ok) :
    InCall env s₀ (s.connected c) := by
  have hcUsable : s.Usable c := by
    intro a ha
    rcases ancestor_child hp ha with rfl | ⟨t, ht, hat⟩
    · exact husable
    · exact h.usable t ht a hat
  have hcOk : ∀ a, Ancestor s.parent a c →
      s₀.Active a ∨ env.verdict a = .ok := by
    intro a ha
    rcases ancestor_child hp ha with rfl | hactive
    · exact Or.inr hok
    · exact h.connected a hactive
  refine ⟨h.base.move (Move.connectTip hc hp husable hok), h.parent, ?_, ?_,
    h.marked, ?_⟩
  · intro t ht
    rw [← Option.some.inj ht]
    exact hcUsable
  · rintro a ⟨t, ht, ha⟩
    rw [← Option.some.inj ht] at ha
    exact hcOk a ha
  · rcases h.reference with hmark | ⟨r, hr⟩
    · exact Or.inl hmark
    right
    -- the reference moves up to the new tip if it was worse
    by_cases hbetter : ∃ x, r = some x ∧ s.worse x c = false
    · rcases hbetter with ⟨x, rfl, hxc⟩
      refine ⟨some x, hr.usable, hr.notWorse, ?_⟩
      intro b hb hopen hworse
      exact mem_connected.mpr ⟨hr.cover b hb hopen hworse,
        not_worse_trans (hworse x rfl) hxc⟩
    · have hbelow : ∀ x, r = some x → s.worse c x = false := by
        intro x hx
        apply not_worse_of_worse
        by_contra hno
        exact hbetter ⟨x, hx, Bool.not_eq_true _ ▸ hno⟩
      refine ⟨some c, ?_, ?_, ?_⟩
      · intro x hx
        rw [← Option.some.inj hx]
        exact ⟨hc, hcUsable, hcOk⟩
      · intro t ht
        rcases hr.notWorse t ht with ⟨x, hx, hworse⟩
        exact ⟨c, rfl, not_worse_trans (hbelow x hx) hworse⟩
      · intro b hb hopen hworse
        have hbc : s.worse b c = false := hworse c rfl
        exact mem_connected.mpr ⟨hr.cover b hb hopen fun x hx =>
          not_worse_trans hbc (hbelow x hx), hbc⟩

omit [LinearOrder B] in
theorem not_active_child {c : B} (hbase : Base s)
    (hc : c ∈ s.mapBlockIndex) (hp : s.parent c = s.tip) :
    ¬ s.Active c := by
  rintro ⟨t, ht, hct⟩
  have hstep := hbase.tree.rank_some hc (hp.trans ht)
  have hle := hct.rank_le hbase.tree (hbase.tip t ht)
  omega

theorem invalidBlockFound_failed {c x : B}
    (h : ((s.invalidBlockFound c).index x).failed = true) :
    (s.index x).failed = true ∨ x = c := by
  rw [invalidBlockFound_index] at h
  split at h
  · rename_i hx
    exact Or.inr hx
  · exact Or.inl h

theorem InCall.invalidBlockFound {c : B} (h : InCall env s₀ s)
    (hc : c ∈ s.mapBlockIndex) (hp : s.parent c = s.tip)
    (hbad : env.verdict c = .invalid) :
    InCall env s₀ (s.invalidBlockFound c) := by
  have hmove : Move env s _ := Move.invalidBlockFound hc hp hbad
  have hkept := hmove.kept
  have hcFailed : ((s.invalidBlockFound c).index c).failed = true := by
    rw [invalidBlockFound_index, if_pos rfl]
    rfl
  have hstays : ∀ b, s.Usable b → ¬ Ancestor s.parent c b →
      (s.invalidBlockFound c).Usable b := by
    intro b hb hno
    apply usable_of_kept hkept hb
    intro a ha hmark
    rcases invalidBlockFound_failed hmark with hold | rfl
    · exact hold
    · exact absurd ha hno
  refine ⟨h.base.move hmove, hkept.parent.trans h.parent, ?_, ?_, ?_, ?_⟩
  · intro t ht
    exact hstays t (h.usable t ht) fun hct =>
      not_active_child h.base hc hp ⟨t, ht, hct⟩
  · intro a ha
    unfold Active at ha
    rw [hkept.parent] at ha
    exact h.connected a ha
  · intro a ha hmark
    rcases invalidBlockFound_failed hmark with hold | rfl
    · exact h.marked a ha hold
    · exact ⟨a, ha, hbad⟩
  · by_cases hold : s₀.Active c
    · exact Or.inl ⟨c, hold, hcFailed⟩
    rcases h.reference with ⟨a, ha, hmark⟩ | ⟨r, hr⟩
    · exact Or.inl ⟨a, ha, hkept.failed a hmark⟩
    · refine Or.inr ⟨r, ?_, ?_, ?_⟩
      · intro x hx
        have hx' := hr.usable x hx
        rw [hkept.mapBlockIndex, hkept.parent]
        refine ⟨hx'.1, hstays x hx'.2.1 fun hcx => ?_, hx'.2.2⟩
        rcases hx'.2.2 c hcx with hactive | hok
        · exact hold hactive
        · rw [hbad] at hok
          cases hok
      · intro t ht
        rcases hr.notWorse t ht with ⟨x, hx, hworse⟩
        exact ⟨x, hx, (hkept.worse x t).trans hworse⟩
      · intro b hb hopen hworse
        have hmem : b ∈ s.setBlockIndexCandidates := by
          apply hr.cover b (hkept.mapBlockIndex ▸ hb) (hkept.open hopen)
          intro x hx
          rw [← hkept.worse]
          exact hworse x hx
        refine mem_invalidBlockFound.mpr ⟨hmem, ?_⟩
        rintro rfl
        rw [hopen.1] at hcFailed
        cases hcFailed

/-- **One move** keeps the invariant of the call. -/
theorem InCall.move {s' : State B} (h : InCall env s₀ s)
    (hmove : Move env s s') : InCall env s₀ s' := by
  cases hmove with
  | removeChain hnew htest hnot habove =>
      exact h.removeChain hnew htest hnot habove
  | disconnectTip ht hp => exact h.disconnectTip ht hp
  | connectTip hc hp husable hok => exact h.connectTip hc hp husable hok
  | invalidBlockFound hc hp hbad => exact h.invalidBlockFound hc hp hbad

theorem Ready.moves {s' : State B} (h : s.Ready) (hmoves : Moves env s s') :
    InCall env s s' := by
  induction hmoves with
  | refl => exact h.inCall
  | tail _ hmove ih => exact ih.move hmove

end Moves

/-- If no block of the old chain was marked and no candidate is better than
the tip, the reference is not better either. -/
theorem InCall.tip_reference {env : Env B} {s₀ s : State B}
    (h : InCall env s₀ s) (htop : s.TopTip)
    (hold : ∀ a, s₀.Active a → (s.index a).failed = false) :
    ∃ r, Reference env s₀ s r ∧
      ∀ x, r = some x → ∃ t, s.tip = some t ∧ s.worse t x = false := by
  rcases h.reference with ⟨a, ha, hmark⟩ | ⟨r, hr⟩
  · rw [hold a ha] at hmark
    cases hmark
  refine ⟨r, hr, fun x hx => ?_⟩
  have hx' := hr.usable x hx
  apply htop x
  apply hr.cover x hx'.1 hx'.2.1.open
  intro y hy
  rw [hx] at hy
  rw [Option.some.inj hy]
  exact worse_irrefl s y

/-- Then neither is any usable block, nor the old tip. -/
theorem InCall.best {env : Env B} {s₀ s : State B} (h : InCall env s₀ s)
    (htop : s.TopTip) (hold : ∀ a, s₀.Active a → (s.index a).failed = false) :
    (∀ b ∈ s.mapBlockIndex, s.Usable b →
      ∃ t, s.tip = some t ∧ s.worse t b = false) ∧
    ∀ t₀, s₀.tip = some t₀ → ∃ t, s.tip = some t ∧ s.worse t t₀ = false := by
  rcases h.tip_reference htop hold with ⟨r, hr, htip⟩
  constructor
  · intro b hb husable
    by_cases hworse : ∀ x, r = some x → s.worse b x = false
    · exact htop b (hr.cover b hb husable.open hworse)
    · rw [not_forall] at hworse
      rcases hworse with ⟨x, hworse⟩
      rw [Classical.not_imp] at hworse
      rcases htip x hworse.1 with ⟨t, ht, htx⟩
      have hxb := not_worse_of_worse (Bool.eq_true_of_not_eq_false hworse.2)
      exact ⟨t, ht, not_worse_trans htx hxb⟩
  · intro t₀ ht₀
    rcases hr.notWorse t₀ ht₀ with ⟨x, hx, hworse⟩
    rcases htip x hx with ⟨t, ht, htx⟩
    exact ⟨t, ht, not_worse_trans htx hworse⟩

/-- And open blocks that are not worse than the tip are candidates. -/
theorem InCall.cover {env : Env B} {s₀ s : State B} (h : InCall env s₀ s)
    (htop : s.TopTip) (hold : ∀ a, s₀.Active a → (s.index a).failed = false) :
    s.CoverFrom s.tip := by
  rcases h.tip_reference htop hold with ⟨r, hr, htip⟩
  intro b hb hopen hworse
  apply hr.cover b hb hopen
  intro x hx
  rcases htip x hx with ⟨t, ht, htx⟩
  exact not_worse_trans (hworse t ht) htx

/-- A call can start wherever the bookkeeping is right and the active chain
is unmarked. -/
theorem Linking.ready {s : State B} (h : Linking s []) (hcov : s.Covered)
    (hactive : ∀ a, s.Active a → (s.index a).failed = false) : s.Ready := by
  refine ⟨⟨h.tree, fun t ht => (h.tip t ht).1,
    fun b hb => (h.candidates b hb).1⟩, fun t ht a ha => ?_,
    fun b hb hopen hworse => ?_⟩
  · exact usable_iff.mpr ⟨hactive a ⟨t, ht, ha⟩,
      h.allData (h.tip t ht).1 (h.tip t ht).2 a ha⟩
  · apply hcov b hb (h.linked hb hopen.2) hopen.1
    unfold worseThanTip
    cases htip : s.tip with
    | none => rfl
    | some t => exact hworse t htip

theorem Arrived.ready {s : State B} (h : Arrived s) : s.Ready := by
  apply h.linking.ready h.covered
  rintro a ⟨t, ht, ha⟩
  exact h.unmarked a (ha.mem h.linking.tree (h.linking.tip t ht).1)

section Example

/-- The genesis block `0` and its children `1`, `2` and `3`, with work 6, 4
and 10. -/
def siblings : State Nat :=
  (((({} : State Nat).addToBlockIndex (header 0 9 1)).addToBlockIndex
    (header 1 0 5)).addToBlockIndex (header 2 0 3)).addToBlockIndex
      (header 3 0 9)

/-- Block `3` is invalid, and in the second environment `1` as well. -/
def rejects (invalid : List Nat) : Env Nat where
  verdict b := if b ∈ invalid then .invalid else .ok
  disconnects _ := true
  flushes := true

/-- The state after a call. -/
def activated (env : Env Nat) (s : State Nat) : State Nat :=
  match activateBestChain env 10 s with
  | .ok (_, s) => s
  | .error _ => {}

theorem activated_eq {env : Env Nat} {s : State Nat}
    (h : (match activateBestChain env 10 s with
      | .ok (done, _) => done
      | .error _ => false) = true) :
    activateBestChain env 10 s = .ok (true, activated env s) := by
  unfold activated
  split at h
  · rename_i done s' heq
    rw [heq, h]
  · cases h

end Example

end State

end Agrarian.BlockIndex
