import Agrarian.Zerocoin.Denominations

/-!
# The selection of mints for a spend

`SelectMintsFromList` and the searches below it.  An exact payment within the
cap is taken first.  Otherwise the searches for a payment with change pass maps
of counts to one another, and what is selected is read off the last map.

A map that some unused mints have is `Realisable`, and every map the searches
work with stays so.
-/

namespace Agrarian.Zerocoin

open Agrarian.Lib
open Agrarian.Validation

/-! ## `getSpends` -/

/-- The mints selected so far, with the coins still to be found. -/
structure Spending where
  vSelectedMints : List CMintMeta := []
  nCoinsSpentValue : Int := 0
  mapOfDenomsUsed : DenomMap

def Spending.select (s : Spending) (mint : CMintMeta) : Spending where
  vSelectedMints := s.vSelectedMints ++ [mint]
  nCoinsSpentValue :=
    s.nCoinsSpentValue + zerocoinDenominationToAmount mint.denom
  mapOfDenomsUsed := Function.update s.mapOfDenomsUsed mint.denom
    (s.mapOfDenomsUsed mint.denom - 1)

/-- One pass over the mints for a denomination. -/
def spendPass (coin : CoinDenomination) (listMints : List CMintMeta)
    (s : Spending) : Spending :=
  listMints.foldl (fun s mint =>
    if mint.isUsed then s
    else if coin = mint.denom ∧ s.mapOfDenomsUsed coin ≠ 0 then s.select mint
    else s) s

/-- The passes for a denomination, as long as some of its coins are missing;
`none` where that goes on forever. -/
def spendLoop (coin : CoinDenomination) (listMints : List CMintMeta) :
    Nat → Spending → Option Spending
  | 0, _ => none
  | fuel + 1, s =>
      let s := spendPass coin listMints s
      if s.mapOfDenomsUsed coin ≠ 0 then spendLoop coin listMints fuel s
      else some s

/-- A list of mints based on the map of coins used, and their value. -/
def getSpends (listMints : List CMintMeta) (mapOfDenomsUsed : DenomMap) :
    Option Spending :=
  denomsDown.foldlM (fun s coin =>
    spendLoop coin listMints ((s.mapOfDenomsUsed coin).toNat + 1) s)
    { mapOfDenomsUsed := mapOfDenomsUsed }

/-! ## The searches with change -/

/-- `none` is the source's `ZQ_ERROR`. -/
def getMaxDenomHeld (mapCoinsHeld : DenomMap) : Option CoinDenomination :=
  denomsDown.find? fun coin => mapCoinsHeld coin != 0

def getNextLowerDenomHeld (this_denom : CoinDenomination)
    (mapCoinsHeld : DenomMap) : Option CoinDenomination :=
  denomsDown.find? fun denom =>
    decide (denom.toInt < this_denom.toInt) && mapCoinsHeld denom != 0

/-- `denom <= nextToMaxDenom`, where `ZQ_ERROR` is below every
denomination. -/
def upTo (nextToMaxDenom : Option CoinDenomination) (denom : CoinDenomination) :
    Bool :=
  nextToMaxDenom.any fun max => decide (denom.toInt ≤ max.toInt)

/-- The first set of coins: close to the value, but less. -/
def belowTarget (nextToMaxDenom : Option CoinDenomination) (nValueTarget : Int)
    (mapOfDenomsHeld : DenomMap) : Taking :=
  denomsDown.foldl (fun s denom =>
    if upTo nextToMaxDenom denom then
      takeLoop (fun s =>
        decide (s.nRemainingValue > zerocoinDenominationToAmount denom) &&
          decide (s.mapOfDenomsUsed denom < mapOfDenomsHeld denom))
        denom (s.rounds denom) s
    else s) { nRemainingValue := nValueTarget }

/-- Back up from the bottom: the denomination that is just bigger than the
remaining amount. -/
def fillUp (mapOfDenomsHeld : DenomMap) : List CoinDenomination → Taking → Taking
  | [], s => s
  | denom :: denoms, s =>
      let s :=
        if zerocoinDenominationToAmount denom > s.nRemainingValue ∧
            s.mapOfDenomsUsed denom < mapOfDenomsHeld denom then s.take denom
        else s
      if s.nRemainingValue < 0 then s else fillUp mapOfDenomsHeld denoms s

/-- Leave one coin out again. -/
def Taking.drop (s : Taking) (denom : CoinDenomination) : Taking where
  mapOfDenomsUsed :=
    Function.update s.mapOfDenomsUsed denom (s.mapOfDenomsUsed denom - 1)
  nRemainingValue := s.nRemainingValue
  AmountUsed := s.AmountUsed - zerocoinDenominationToAmount denom
  nCoinCount := s.nCoinCount - 1

/-- The coins of a denomination that are both spent and given back, with at
most so many coins of change left. -/
def overlapLoop (denom : CoinDenomination) :
    Nat → DenomMap × Taking → DenomMap × Taking
  | 0, p => p
  | fuel + 1, (mapAltChange, s) =>
      if mapAltChange denom ≠ 0 ∧ s.mapOfDenomsUsed denom ≠ 0 then
        overlapLoop denom fuel
          (Function.update mapAltChange denom (mapAltChange denom - 1),
            s.drop denom)
      else (mapAltChange, s)

/-- Remove what the change and the spends have in common. -/
def removeOverlap (mapAltChange : DenomMap) (s : Taking) : Taking :=
  (zerocoinDenomList.foldl (fun p denom =>
    overlapLoop denom (p.1 denom).toNat p) (mapAltChange, s)).2

/-- More spends, but less change: the number of coins in the change, and the
coins used. -/
def minimizeChange (nMaxNumberOfSpends nChangeCount : Int)
    (nextToMaxDenom : Option CoinDenomination) (nValueTarget : Int)
    (mapOfDenomsHeld mapOfDenomsUsed : DenomMap) : Int × DenomMap :=
  let s := fillUp mapOfDenomsHeld zerocoinDenomList
    (belowTarget nextToMaxDenom nValueTarget mapOfDenomsHeld)
  let s := removeOverlap (getChange (s.AmountUsed - nValueTarget)) s
  -- still possible to have the wrong mix
  let mapOfMinDenomsUsed := getSpendCoins s.AmountUsed mapOfDenomsHeld
  let nCoinCount := getNumberOfCoinsUsed mapOfMinDenomsUsed
  let AltChangeCount :=
    getNumberOfCoinsUsed (getChange (s.AmountUsed - nValueTarget))
  if AltChangeCount < nChangeCount ∧ nCoinCount ≤ nMaxNumberOfSpends then
    (AltChangeCount, mapOfMinDenomsUsed)
  else (nChangeCount, mapOfDenomsUsed)

/-- `do { if (first) take a coin } while (again)`. -/
def doTake (first again : Taking → Bool) (coin : CoinDenomination) :
    Nat → Taking → Taking
  | 0, s => s
  | fuel + 1, s =>
      let s := if first s then s.take coin else s
      if again s then doTake first again coin fuel s else s

/-- The largest coins, until the amount is reached. -/
def reachTarget (mapOfDenomsHeld : DenomMap) :
    List CoinDenomination → Taking → Taking
  | [], s => s
  | denom :: denoms, s =>
      let s := doTake
        (fun s => decide (mapOfDenomsHeld denom ≠ 0) &&
          decide (s.nRemainingValue > 0))
        (fun s => decide (s.nRemainingValue > 0) &&
          decide (s.mapOfDenomsUsed denom < mapOfDenomsHeld denom))
        denom (s.rounds denom) s
      if s.nRemainingValue < 0 then s else reachTarget mapOfDenomsHeld denoms s

/-- The number of coins in the change, where 0 means that there is no
change, and the coins used. -/
def calculateChange (nMaxNumberOfSpends : Int) (fMinimizeChange : Bool)
    (nValueTarget : Int) (mapOfDenomsHeld : DenomMap) : Int × DenomMap :=
  match zerocoinDenomList.find? fun denom =>
      decide (nValueTarget < zerocoinDenominationToAmount denom) &&
        mapOfDenomsHeld denom != 0 with
  | some minDenomOverTarget =>
      let mapOfDenomsUsed : DenomMap :=
        Function.update (fun _ => 0) minDenomOverTarget 1
      let nChangeCount := getNumberOfCoinsUsed
        (getChange (zerocoinDenominationToAmount minDenomOverTarget -
          nValueTarget))
      if fMinimizeChange then
        let nextToMaxDenom :=
          getNextLowerDenomHeld minDenomOverTarget mapOfDenomsHeld
        let r := minimizeChange nMaxNumberOfSpends nChangeCount nextToMaxDenom
          nValueTarget mapOfDenomsHeld mapOfDenomsUsed
        if r.1 < nChangeCount then r else (nChangeCount, mapOfDenomsUsed)
      else (nChangeCount, mapOfDenomsUsed)
  | none =>
      let s := reachTarget mapOfDenomsHeld denomsDown
        { nRemainingValue := nValueTarget }
      let nMaxChangeCount :=
        getNumberOfCoinsUsed (getChange (s.AmountUsed - nValueTarget))
      let maxDenomHeld := getMaxDenomHeld mapOfDenomsHeld
      let r := minimizeChange nMaxNumberOfSpends nMaxChangeCount maxDenomHeld
        nValueTarget mapOfDenomsHeld s.mapOfDenomsUsed
      let nNumSpends := getNumberOfCoinsUsed r.2
      if !fMinimizeChange && decide (s.nCoinCount < nNumSpends) then
        (nMaxChangeCount, s.mapOfDenomsUsed)
      else r

/-! ## `SelectMintsFromList` -/

/-- What a selection returns. -/
structure SelectedMints where
  vSelectedMints : List CMintMeta
  nSelectedValue : Int
  nCoinsReturned : Int
  nNeededSpends : Int
  deriving DecidableEq

/-- Change, when the target is not met exactly within the cap. -/
def selectWithChange (nValueTarget nSelectedValue nMaxNumberOfSpends : Int)
    (fMinimizeChange : Bool) (listMints : List CMintMeta)
    (mapOfDenomsHeld : DenomMap) (nNeededSpends : Int) :
    Option SelectedMints :=
  let (nCoinsReturned, mapOfDenomsUsed) := calculateChange nMaxNumberOfSpends
    fMinimizeChange nValueTarget mapOfDenomsHeld
  if nCoinsReturned = 0 then
    some ⟨[], nSelectedValue, nCoinsReturned, nNeededSpends⟩
  else do
    let spends ← getSpends listMints mapOfDenomsUsed
    return ⟨spends.vSelectedMints, spends.nCoinsSpentValue, nCoinsReturned,
      nNeededSpends⟩

/-- An `int` as a `size_t`. -/
def sizeOfInt (n : Int) : Int := if n < 0 then n + 2 ^ 64 else n

/-- Attempt to meet a target with a set of coins. -/
def selectMintsFromList (nValueTarget nSelectedValue nMaxNumberOfSpends : Int)
    (fMinimizeChange : Bool) (listMints : List CMintMeta)
    (mapOfDenomsHeld : DenomMap) : Option SelectedMints := do
  let (fCanMeetExactly, mapOfDenomsUsed) :=
    getIdealSpends nValueTarget listMints
  if fCanMeetExactly then
    let spends ← getSpends listMints mapOfDenomsUsed
    let size : Int := spends.vSelectedMints.length
    if size ≤ sizeOfInt nMaxNumberOfSpends then
      return ⟨spends.vSelectedMints, spends.nCoinsSpentValue, 0, 0⟩
    else
      selectWithChange nValueTarget spends.nCoinsSpentValue nMaxNumberOfSpends
        fMinimizeChange listMints mapOfDenomsHeld size
  else
    selectWithChange nValueTarget nSelectedValue nMaxNumberOfSpends
      fMinimizeChange listMints mapOfDenomsHeld 0

/-! ## Realisable maps -/

/-- The coins of a map are among those held. -/
def Realisable (mapOfDenomsHeld mapOfDenoms : DenomMap) : Prop :=
  ∀ denom, 0 ≤ mapOfDenoms denom ∧ mapOfDenoms denom ≤ mapOfDenomsHeld denom

section Realisable

variable {held m : DenomMap}

theorem Realisable.eq_heldOf (h : Realisable held m) (denom : CoinDenomination) :
    m denom = (heldOf m denom : Nat) :=
  (Int.toNat_of_nonneg (h denom).1).symm

theorem Realisable.value_eq (h : Realisable held m) :
    mapValue m = COIN * Greedy.worth denomValue denomsDown (heldOf m) :=
  mapValue_eq h.eq_heldOf

theorem Realisable.count_eq (h : Realisable held m) :
    getNumberOfCoinsUsed m = Greedy.size denomsDown (heldOf m) :=
  getNumberOfCoinsUsed_eq h.eq_heldOf

theorem Realisable.within (h : Realisable held m) (ds : List CoinDenomination) :
    Greedy.Within (heldOf held) ds (heldOf m) :=
  fun denom _ => Int.toNat_le_toNat (h denom).2

theorem realisable_of_within (hheld : ∀ denom, 0 ≤ held denom)
    {f : CoinDenomination → Nat} (hf : Greedy.Within (heldOf held) denomsDown f)
    (hm : ∀ denom, m denom = f denom) : Realisable held m := by
  intro denom
  have hle := hf denom (mem_denomsDown denom)
  have hnonneg := hheld denom
  rw [heldOf] at hle
  rw [hm]
  omega

theorem Realisable.update (h : Realisable held m) (denom : CoinDenomination)
    {n : Int} (hn : 0 ≤ n) (hle : n ≤ held denom) :
    Realisable held (Function.update m denom n) := by
  intro d
  by_cases hd : d = denom
  · subst hd
    rw [Function.update_self]
    exact ⟨hn, hle⟩
  · rw [Function.update_of_ne hd]
    exact h d

theorem Realisable.value_nonneg (h : Realisable held m) : 0 ≤ mapValue m := by
  rw [h.value_eq]
  exact Int.mul_nonneg (by decide) (Int.natCast_nonneg _)

theorem Realisable.count_nonneg (h : Realisable held m) :
    0 ≤ getNumberOfCoinsUsed m := by
  rw [h.count_eq]
  exact Int.natCast_nonneg _

theorem Realisable.coinsIn_value (h : Realisable held m) :
    coinsIn (mapValue m) = Greedy.worth denomValue denomsDown (heldOf m) := by
  rw [h.value_eq, coinsIn_coins]

/-- The exact amount of some coins is met, with the least number of coins. -/
theorem getSpendCoins_exact (h : Realisable held m) :
    Realisable held (getSpendCoins (mapValue m) held) ∧
      mapValue (getSpendCoins (mapValue m) held) = mapValue m ∧
      getNumberOfCoinsUsed (getSpendCoins (mapValue m) held) ≤
        getNumberOfCoinsUsed m := by
  obtain ⟨s, hs, htook⟩ := getSpendCoins_took (mapValue m) held
  have hmap := htook.map_eq
  rw [h.coinsIn_value] at hmap
  obtain ⟨hworth, hsize⟩ := Greedy.worth_greedy denoms_chain
    (h.within denomsDown) rfl
  rw [hs]
  refine ⟨realisable_of_within ?_ (Greedy.greedy_within denoms_chain _) hmap,
    ?_, ?_⟩
  · exact fun denom => Int.le_trans (h denom).1 (h denom).2
  · rw [mapValue_eq hmap, hworth, h.value_eq]
  · rw [getNumberOfCoinsUsed_eq hmap, h.count_eq]
    exact Int.ofNat_le.mpr hsize

end Realisable

/-- Change is worth the whole coins of the amount. -/
theorem getChange_value (nValue : Int) :
    Realisable (getChange nValue) (getChange nValue) ∧
      mapValue (getChange nValue) = COIN * coinsIn nValue := by
  obtain ⟨s, hs, htook⟩ := getChange_took nValue
  have hmap := htook.map_eq
  have hpays : PaysWithFewest s.mapOfDenomsUsed (COIN * coinsIn nValue) :=
    paysWithFewest_greedy (fun denom => Nat.div_le_self _ _) hmap
  rw [hs]
  exact ⟨fun denom => ⟨hpays.nonneg denom, Int.le_refl _⟩, hpays.exact⟩

/-- There is no coin in the change exactly when there is no whole coin in the
amount. -/
theorem count_getChange_pos (nValue : Int) :
    0 < getNumberOfCoinsUsed (getChange nValue) ↔ COIN ≤ nValue := by
  obtain ⟨hreal, hvalue⟩ := getChange_value nValue
  have hworth : Greedy.worth denomValue denomsDown (heldOf (getChange nValue)) =
      coinsIn nValue := by
    rw [← hreal.coinsIn_value, hvalue, coinsIn_coins]
  have hcoins := @le_coinsIn nValue 1 Nat.one_pos
  rw [Nat.cast_one, Int.mul_one] at hcoins
  rw [hreal.count_eq, ← hcoins, ← hworth]
  constructor
  · intro hpos
    by_contra hzero
    have hnone : ∀ denom ∈ denomsDown, heldOf (getChange nValue) denom = 0 := by
      intro denom _
      have hle := mul_denomValue_le (heldOf (getChange nValue)) denom
      have hmul := Nat.le_mul_of_pos_right (heldOf (getChange nValue) denom)
        (denomValue_pos denom)
      omega
    rw [Greedy.size_congr (g := fun _ => 0) hnone] at hpos
    simp [Greedy.size] at hpos
  · intro hpos
    exact Int.natCast_pos.mpr (Greedy.size_pos_of_worth_pos hpos)

theorem count_getChange_nonneg (nValue : Int) :
    0 ≤ getNumberOfCoinsUsed (getChange nValue) :=
  (getChange_value nValue).1.count_nonneg

/-! ## `minimizeChange` -/

theorem mapValue_update (m : DenomMap) (denom : CoinDenomination) (n : Int) :
    mapValue (Function.update m denom n) =
      mapValue m + (n - m denom) * zerocoinDenominationToAmount denom := by
  cases denom <;>
    simp only [mapValue, zerocoinDenomList, List.map_cons, List.map_nil,
      List.sum_cons, List.sum_nil, Function.update_apply, reduceCtorEq,
      if_true, if_false] <;>
    ring

/-- A search that has taken coins that are held, and counts their value. -/
structure Taking.Sound (held : DenomMap) (nValueTarget : Int) (s : Taking) :
    Prop where
  real : Realisable held s.mapOfDenomsUsed
  amount : s.AmountUsed = mapValue s.mapOfDenomsUsed
  remaining : s.nRemainingValue = nValueTarget - s.AmountUsed

section Sound

variable {held : DenomMap} {nValueTarget : Int} {s : Taking}

theorem Taking.Took.sound {g : CoinDenomination → Nat}
    (hheld : ∀ denom, 0 ≤ held denom)
    (hg : Greedy.Within (heldOf held) denomsDown g)
    (h : Taking.Took denomsDown g { nRemainingValue := nValueTarget } s) :
    s.Sound held nValueTarget where
  real := realisable_of_within hheld hg h.map_eq
  amount := by
    rw [mapValue_eq h.map_eq, h.amount, Int.zero_add]
  remaining := by
    rw [h.remaining, h.amount, Int.zero_add]

theorem Taking.Sound.take (h : s.Sound held nValueTarget)
    {denom : CoinDenomination} (hleft : s.mapOfDenomsUsed denom < held denom) :
    (s.take denom).Sound held nValueTarget where
  real := by
    have hused := h.real denom
    exact h.real.update denom (by omega) (by omega)
  amount := by
    rw [Taking.take, mapValue_update, ← h.amount]
    ring
  remaining := by
    rw [Taking.take, h.remaining]
    ring

/-- The denominations that the first set of coins is taken from. -/
def heldUpTo (nextToMaxDenom : Option CoinDenomination) (held : DenomMap) :
    DenomMap :=
  fun denom => if upTo nextToMaxDenom denom then held denom else 0

/-- The first set of coins is the greedy payment below the target. -/
theorem belowTarget_took (nextToMaxDenom : Option CoinDenomination)
    (nValueTarget : Int) (held : DenomMap) :
    Taking.Took denomsDown
      (Greedy.greedy denomValue (heldOf (heldUpTo nextToMaxDenom held))
        denomsDown (coinsIn (nValueTarget - 1)))
      { nRemainingValue := nValueTarget }
      (belowTarget nextToMaxDenom nValueTarget held) := by
  refine took_greedy (fun s denom hzero _ => ?_) denomsDown
    { nRemainingValue := nValueTarget } denoms_chain.nodup (fun _ _ => rfl)
    (Nat.le_refl _)
  rw [heldOf, heldUpTo]
  split
  · have h := takeLoop_held held (by decide : (0 : Int) ≤ 1) s denom hzero
    have hmore : ∀ s : Taking,
        (s.nRemainingValue - 1 ≥ zerocoinDenominationToAmount denom) =
          (s.nRemainingValue > zerocoinDenominationToAmount denom) :=
      fun s => propext (by omega)
    simp only [hmore] at h
    exact h
  · rw [Int.toNat_zero, Nat.zero_min, s.takeMany_zero]

theorem belowTarget_sound (nextToMaxDenom : Option CoinDenomination)
    (nValueTarget : Int) (hheld : ∀ denom, 0 ≤ held denom) :
    (belowTarget nextToMaxDenom nValueTarget held).Sound held nValueTarget := by
  refine (belowTarget_took nextToMaxDenom nValueTarget held).sound hheld ?_
  intro denom hdenom
  have hle : Greedy.Within (heldOf (heldUpTo nextToMaxDenom held)) denomsDown
      (Greedy.greedy denomValue (heldOf (heldUpTo nextToMaxDenom held))
        denomsDown (coinsIn (nValueTarget - 1))) :=
    Greedy.greedy_within denoms_chain _
  refine Nat.le_trans (hle denom hdenom) (Int.toNat_le_toNat ?_)
  rw [heldUpTo]
  split
  · exact Int.le_refl _
  · exact hheld denom

theorem fillUp_sound :
    ∀ (denoms : List CoinDenomination) {s : Taking},
      s.Sound held nValueTarget →
      (fillUp held denoms s).Sound held nValueTarget := by
  intro denoms
  induction denoms with
  | nil => exact fun h => h
  | cons denom denoms ih =>
      intro s h
      rw [fillUp]
      by_cases hfits : zerocoinDenominationToAmount denom >
          s.nRemainingValue ∧ s.mapOfDenomsUsed denom < held denom
      · have htaken := h.take hfits.2
        simp only [if_pos hfits]
        split
        · exact htaken
        · exact ih htaken
      · simp only [if_neg hfits]
        split
        · exact h
        · exact ih h

/-- Where a coin is left that is bigger than the remaining amount, one is
taken. -/
theorem fillUp_reaches :
    ∀ {denoms : List CoinDenomination} {s : Taking} {denom : CoinDenomination},
      denom ∈ denoms →
      s.nRemainingValue < zerocoinDenominationToAmount denom →
      s.mapOfDenomsUsed denom < held denom →
      (fillUp held denoms s).nRemainingValue < 0 := by
  intro denoms
  induction denoms with
  | nil => exact fun hmem => absurd hmem List.not_mem_nil
  | cons first denoms ih =>
      intro s denom hmem hbig hleft
      rw [fillUp]
      by_cases hfits : zerocoinDenominationToAmount first >
          s.nRemainingValue ∧ s.mapOfDenomsUsed first < held first
      · have hneg : (s.take first).nRemainingValue < 0 := by
          rw [Taking.take]
          exact Int.sub_neg_of_lt hfits.1
        simp only [if_pos hfits, if_pos hneg]
        exact hneg
      · simp only [if_neg hfits]
        split
        · assumption
        · rcases List.mem_cons.mp hmem with rfl | hmem
          · exact absurd ⟨hbig, hleft⟩ hfits
          · exact ih hmem hbig hleft

/-- What leaving out coins from the spends and the change alike keeps: the
difference of the two. -/
structure OverlapSound (held : DenomMap) (nGap : Int)
    (p : DenomMap × Taking) : Prop where
  change : ∀ denom, 0 ≤ p.1 denom
  real : Realisable held p.2.mapOfDenomsUsed
  amount : p.2.AmountUsed = mapValue p.2.mapOfDenomsUsed
  gap : p.2.AmountUsed - mapValue p.1 = nGap

theorem overlapLoop_sound {nGap : Int} (denom : CoinDenomination) :
    ∀ (fuel : Nat) {p : DenomMap × Taking}, OverlapSound held nGap p →
      OverlapSound held nGap (overlapLoop denom fuel p) := by
  intro fuel
  induction fuel with
  | zero => exact fun h => h
  | succ fuel ih =>
      rintro ⟨mapAltChange, s⟩ h
      rw [overlapLoop]
      split
      · next hboth =>
          apply ih
          have hchange : 0 ≤ mapAltChange denom := h.change denom
          have hused : 0 ≤ s.mapOfDenomsUsed denom ∧
              s.mapOfDenomsUsed denom ≤ held denom := h.real denom
          refine ⟨fun d => ?_, ?_, ?_, ?_⟩
          · have hself : Realisable mapAltChange mapAltChange :=
              fun x => ⟨h.change x, Int.le_refl _⟩
            exact (hself.update denom (by omega) (by omega) d).1
          · exact h.real.update denom (by omega) (by omega)
          · have hamount := h.amount
            dsimp only [Taking.drop] at hamount ⊢
            rw [mapValue_update, hamount]
            ring
          · have hgap := h.gap
            dsimp only [Taking.drop] at hgap ⊢
            rw [mapValue_update, ← hgap]
            ring
      · exact h

/-- Without the overlap the coins are still held, and worth more than the
target as before. -/
theorem removeOverlap_sound {mapAltChange : DenomMap}
    (h : s.Sound held nValueTarget) (hchange : ∀ denom, 0 ≤ mapAltChange denom) :
    Realisable held (removeOverlap mapAltChange s).mapOfDenomsUsed ∧
      (removeOverlap mapAltChange s).AmountUsed =
        mapValue (removeOverlap mapAltChange s).mapOfDenomsUsed ∧
      s.AmountUsed - mapValue mapAltChange ≤
        (removeOverlap mapAltChange s).AmountUsed := by
  have hfold : ∀ (denoms : List CoinDenomination) (p : DenomMap × Taking),
      OverlapSound held (s.AmountUsed - mapValue mapAltChange) p →
      OverlapSound held (s.AmountUsed - mapValue mapAltChange)
        (denoms.foldl (fun p denom =>
          overlapLoop denom (p.1 denom).toNat p) p) := by
    intro denoms
    induction denoms with
    | nil => exact fun p hp => hp
    | cons denom denoms ih =>
        exact fun p hp => ih _ (overlapLoop_sound denom _ hp)
  have hend := hfold zerocoinDenomList (mapAltChange, s)
    ⟨hchange, h.real, h.amount, rfl⟩
  have hgap := hend.gap
  have hleft : 0 ≤ mapValue (zerocoinDenomList.foldl (fun p denom =>
      overlapLoop denom (p.1 denom).toNat p) (mapAltChange, s)).1 :=
    Realisable.value_nonneg (fun denom =>
      ⟨hend.change denom, Int.le_refl _⟩)
  refine ⟨hend.real, hend.amount, ?_⟩
  rw [removeOverlap]
  omega

/-- The first set of coins leaves one that is bigger than what remains. -/
def CanFillUp (nextToMaxDenom : Option CoinDenomination) (nValueTarget : Int)
    (held : DenomMap) : Prop :=
  ∃ denom, (belowTarget nextToMaxDenom nValueTarget held).nRemainingValue <
      zerocoinDenominationToAmount denom ∧
    (belowTarget nextToMaxDenom nValueTarget held).mapOfDenomsUsed denom <
      held denom

/-- A payment with less change within the cap. -/
structure LessChange (nMaxNumberOfSpends nChangeCount nValueTarget : Int)
    (held : DenomMap) (r : Int × DenomMap) : Prop where
  real : Realisable held r.2
  fewer : r.1 < nChangeCount
  cap : getNumberOfCoinsUsed r.2 ≤ nMaxNumberOfSpends
  change : r.1 = getNumberOfCoinsUsed (getChange (mapValue r.2 - nValueTarget))

/-- **Less change.**  The search leaves the map of coins as it was, or finds
coins within the cap that give less change; with a coin to fill up with, they
reach the target. -/
theorem minimizeChange_spec (hheld : ∀ denom, 0 ≤ held denom)
    (nMaxNumberOfSpends nChangeCount : Int)
    (nextToMaxDenom : Option CoinDenomination) (nValueTarget : Int)
    (mapOfDenomsUsed : DenomMap) {r : Int × DenomMap}
    (hr : minimizeChange nMaxNumberOfSpends nChangeCount nextToMaxDenom
      nValueTarget held mapOfDenomsUsed = r) :
    r = (nChangeCount, mapOfDenomsUsed) ∨
      LessChange nMaxNumberOfSpends nChangeCount nValueTarget held r ∧
        (CanFillUp nextToMaxDenom nValueTarget held →
          nValueTarget ≤ mapValue r.2) := by
  have hbelow := belowTarget_sound nextToMaxDenom nValueTarget hheld
  have hfilled := fillUp_sound zerocoinDenomList hbelow
  rw [minimizeChange] at hr
  generalize hs : fillUp held zerocoinDenomList
    (belowTarget nextToMaxDenom nValueTarget held) = s at hfilled hr
  obtain ⟨hchange, hvalue⟩ := getChange_value (s.AmountUsed - nValueTarget)
  obtain ⟨hreal, hamount, hgap⟩ := removeOverlap_sound hfilled
    fun denom => (hchange denom).1
  generalize removeOverlap (getChange (s.AmountUsed - nValueTarget)) s = s'
    at hreal hamount hgap hr
  obtain ⟨hpaid, hexact, -⟩ := getSpendCoins_exact hreal
  rw [← hamount] at hpaid hexact
  split at hr
  · next hless =>
      right
      subst hr
      refine ⟨⟨hpaid, hless.1, hless.2, by rw [hexact]⟩, ?_⟩
      rintro ⟨denom, hbig, hleft⟩
      have hover : s.nRemainingValue < 0 := by
        rw [← hs]
        exact fillUp_reaches (List.mem_reverse.mp (mem_denomsDown denom))
          hbig hleft
      have hremaining := hfilled.remaining
      -- the change removed is not more than what is over the target
      have hwhole : COIN * (coinsIn (s.AmountUsed - nValueTarget) : Int) ≤
          s.AmountUsed - nValueTarget := by
        rw [coinsIn, COIN]
        omega
      rw [hexact]
      omega
  · exact Or.inl hr.symm

end Sound

/-! ## `calculateChange` -/

/-- The whole coins that an amount takes. -/
def coinsUp (nValue : Int) : Nat := ((nValue + COIN - 1) / COIN).toNat

theorem coinsUp_le {x : Int} {n : Nat} : coinsUp x ≤ n ↔ x ≤ COIN * n := by
  rw [coinsUp, COIN]
  omega

theorem coinsUp_sub (x : Int) (n : Nat) :
    coinsUp (x - COIN * n) = coinsUp x - n := by
  rw [coinsUp, coinsUp, COIN]
  omega

theorem coinsUp_pos {x : Int} : 0 < coinsUp x ↔ 0 < x := by
  rw [coinsUp, COIN]
  omega

/-- A loop that takes `k` coins before its condition fails. -/
theorem doTake_eq {first again : Taking → Bool} {coin : CoinDenomination} :
    ∀ {k fuel : Nat} {s : Taking}, k ≤ fuel →
      (∀ i < k, first (s.takeMany coin i) = true) →
      (k = 0 → first s = false) →
      (∀ i, again (s.takeMany coin i) = true ↔ i < k) →
      doTake first again coin fuel s = s.takeMany coin k := by
  intro k
  induction k with
  | zero =>
      intro fuel s _ _ hfirst hagain
      have hstop := hagain 0
      rw [Taking.takeMany_zero] at hstop ⊢
      cases fuel with
      | zero => rfl
      | succ fuel =>
          simp only [doTake, hfirst rfl, Bool.false_eq_true, if_false]
          exact if_neg fun h => absurd (hstop.mp h) (by omega)
  | succ k ih =>
      intro fuel s hk hfirst _ hagain
      obtain ⟨fuel, rfl⟩ := Nat.exists_eq_add_of_le' (by omega : 1 ≤ fuel)
      have hone := hfirst 0 (Nat.succ_pos k)
      rw [Taking.takeMany_zero] at hone
      have hmore : ∀ i, again ((s.take coin).takeMany coin i) = true ↔
          i < k := by
        intro i
        rw [s.takeMany_take coin i, hagain (i + 1), Nat.succ_lt_succ_iff]
      simp only [doTake, hone, if_true]
      split
      · next hagain' =>
          rw [ih (by omega) _ _ hmore, s.takeMany_take]
          · intro i hi
            rw [s.takeMany_take]
            exact hfirst (i + 1) (by omega)
          · intro hzero
            have hpos := (hmore 0).mp
            rw [Taking.takeMany_zero] at hpos
            have := hpos hagain'
            omega
      · next hstop =>
          have hzero : k = 0 := by
            have hpos := (hmore 0).mpr
            rw [Taking.takeMany_zero] at hpos
            by_contra hne
            exact hstop (hpos (by omega))
          rw [hzero, ← s.takeMany_take, Taking.takeMany_zero]

/-- How many coins of a denomination are taken before the amount is
reached. -/
theorem pos_takeMany_iff (s : Taking) (coin : CoinDenomination) (i : Nat) :
    (s.takeMany coin i).nRemainingValue > 0 ↔
      i < (coinsUp s.nRemainingValue + denomValue coin - 1) /
        denomValue coin := by
  have hpos := denomValue_pos coin
  have hleft : (s.takeMany coin i).nRemainingValue =
      s.nRemainingValue - COIN * (i * denomValue coin : Nat) := by
    rw [Taking.takeMany_remaining, amount_eq]
    push_cast
    ring
  rw [gt_iff_lt, ← coinsUp_pos, hleft, coinsUp_sub, ← Nat.succ_le_iff,
    ← Nat.succ_le_iff, Nat.le_div_iff_mul_le hpos, Nat.succ_mul]
  omega

theorem reach_eq {held : DenomMap} (hheld : ∀ denom, 0 ≤ held denom)
    (s : Taking) (denom : CoinDenomination)
    (hzero : s.mapOfDenomsUsed denom = 0) :
    doTake
      (fun s => decide (held denom ≠ 0) && decide (s.nRemainingValue > 0))
      (fun s => decide (s.nRemainingValue > 0) &&
        decide (s.mapOfDenomsUsed denom < held denom))
      denom (s.rounds denom) s =
        s.takeMany denom (min (heldOf held denom)
          ((coinsUp s.nRemainingValue + denomValue denom - 1) /
            denomValue denom)) := by
  have hnonneg := hheld denom
  have hpos := denomValue_pos denom
  have hreach := pos_takeMany_iff s denom
  refine doTake_eq ?_ (fun i hi => ?_) (fun hnone => ?_) fun i => ?_
  · have hup : coinsUp s.nRemainingValue ≤ coinsIn s.nRemainingValue + 1 := by
      rw [coinsUp, coinsIn, COIN]
      omega
    have hdiv : (coinsUp s.nRemainingValue + denomValue denom - 1) /
        denomValue denom ≤ coinsIn s.nRemainingValue / denomValue denom + 1 := by
      rw [← Nat.add_div_right _ hpos]
      exact Nat.div_le_div_right (by omega)
    rw [s.rounds_eq]
    omega
  · rw [Bool.and_eq_true, decide_eq_true_iff, decide_eq_true_iff, hreach]
    rw [heldOf] at hi
    omega
  · have hstop := hreach 0
    rw [s.takeMany_zero] at hstop
    rw [Bool.and_eq_false_iff, decide_eq_false_iff_not,
      decide_eq_false_iff_not, hstop]
    rw [heldOf] at hnone
    omega
  · rw [Bool.and_eq_true, decide_eq_true_iff, decide_eq_true_iff, hreach,
      s.takeMany_used, hzero, heldOf]
    omega

/-- The largest coins are taken until the target is reached. -/
theorem reachTarget_took {held : DenomMap} (hheld : ∀ denom, 0 ≤ held denom) :
    ∀ {denoms : List CoinDenomination} {s : Taking},
      Greedy.Chain denomValue denoms →
      (∀ denom ∈ denoms, s.mapOfDenomsUsed denom = 0) →
      Taking.Took denoms
        (Greedy.cover denomValue (heldOf held) denoms
          (coinsUp s.nRemainingValue)) s (reachTarget held denoms s) := by
  intro denoms
  induction denoms with
  | nil => exact fun _ _ => Taking.took_nil _ _
  | cons denom denoms ih =>
      intro s hchain hzero
      have hnot := hchain.head_notMem
      rw [reachTarget, reach_eq hheld s denom (hzero denom List.mem_cons_self),
        Greedy.cover]
      generalize min (heldOf held denom)
        ((coinsUp s.nRemainingValue + denomValue denom - 1) /
          denomValue denom) = k
      have hleft : coinsUp (s.takeMany denom k).nRemainingValue =
          coinsUp s.nRemainingValue - k * denomValue denom := by
        rw [← coinsUp_sub, Taking.takeMany_remaining, amount_eq]
        congr 1
        push_cast
        ring
      have hnext := ih (s := s.takeMany denom k) hchain.tail fun d hd => by
        rw [s.takeMany_used_of_ne k (ne_of_mem_of_not_mem hd hnot)]
        exact hzero d (List.mem_cons_of_mem denom hd)
      rw [hleft] at hnext
      refine Taking.Took.cons k hnot ?_
      split
      · next hover =>
          -- the target is passed, and no more coins would be taken
          have hdone : coinsUp s.nRemainingValue - k * denomValue denom = 0 := by
            rw [← hleft]
            by_contra hpos
            have := coinsUp_pos.mp (Nat.pos_of_ne_zero hpos)
            omega
          rw [hdone]
          exact Taking.took_zero (Greedy.cover_zero hchain.tail) _
      · exact hnext

/-- What `calculateChange` promises: coins that are held; with change, the
target is reached; over the cap only when no coins within it reach the target;
and without change only when some coins within the cap meet a target of whole
coins exactly, if any reach it. -/
structure ChangeSound (nMaxNumberOfSpends nValueTarget : Int) (held : DenomMap)
    (r : Int × DenomMap) : Prop where
  real : Realisable held r.2
  reaches : r.1 ≠ 0 → nValueTarget ≤ mapValue r.2 ∧
    r.1 = getNumberOfCoinsUsed (getChange (mapValue r.2 - nValueTarget))
  cap : getNumberOfCoinsUsed r.2 ≤ nMaxNumberOfSpends ∨
    ∀ m, Realisable held m → 1 ≤ getNumberOfCoinsUsed m →
      getNumberOfCoinsUsed m ≤ nMaxNumberOfSpends → mapValue m < nValueTarget
  exact : r.1 = 0 → ∀ n : Nat, nValueTarget = COIN * n →
    ∀ m, Realisable held m → nValueTarget ≤ mapValue m →
      getNumberOfCoinsUsed m ≤ nMaxNumberOfSpends →
      ∃ c, Realisable held c ∧ mapValue c = nValueTarget ∧
        getNumberOfCoinsUsed c ≤ nMaxNumberOfSpends

section Change

variable {held : DenomMap} {nMaxNumberOfSpends nValueTarget : Int}

/-- Coins that reach a target of whole coins and leave no coin of change meet
it exactly. -/
theorem Realisable.eq_of_no_change {m : DenomMap} (h : Realisable held m) {n : Nat}
    (htarget : nValueTarget = COIN * n) (hle : nValueTarget ≤ mapValue m)
    (hzero : getNumberOfCoinsUsed (getChange (mapValue m - nValueTarget)) = 0) :
    mapValue m = nValueTarget := by
  have hsmall : ¬ COIN ≤ mapValue m - nValueTarget := by
    rw [← count_getChange_pos, hzero]
    exact Int.lt_irrefl 0
  rw [h.value_eq, htarget, COIN] at *
  omega

theorem LessChange.changeSound {nChangeCount : Int} {r : Int × DenomMap}
    (h : LessChange nMaxNumberOfSpends nChangeCount nValueTarget held r)
    (hle : nValueTarget ≤ mapValue r.2) :
    ChangeSound nMaxNumberOfSpends nValueTarget held r where
  real := h.real
  reaches _ := ⟨hle, h.change⟩
  cap := Or.inl h.cap
  exact hzero _ htarget _ _ _ _ :=
    ⟨r.2, h.real, h.real.eq_of_no_change htarget hle
      (h.change.symm.trans hzero), h.cap⟩

/-- One coin, which is more than the target. -/
theorem oneCoin_changeSound (hheld : ∀ denom, 0 ≤ held denom)
    {denom : CoinDenomination}
    (hover : nValueTarget < zerocoinDenominationToAmount denom)
    (hmem : held denom ≠ 0) :
    ChangeSound nMaxNumberOfSpends nValueTarget held
      (getNumberOfCoinsUsed
        (getChange (zerocoinDenominationToAmount denom - nValueTarget)),
        Function.update (fun _ => 0) denom 1) := by
  have hpos := hheld denom
  have hnone : Realisable held fun _ => 0 :=
    fun d => ⟨Int.le_refl 0, hheld d⟩
  have hreal : Realisable held (Function.update (fun _ => 0) denom 1) :=
    hnone.update denom (by decide) (by omega)
  have hvalue : mapValue (Function.update (fun _ => 0) denom 1) =
      zerocoinDenominationToAmount denom := by
    rw [mapValue_update]
    simp [mapValue]
  have hcount : getNumberOfCoinsUsed (Function.update (fun _ => 0) denom 1) =
      1 := by
    cases denom <;> rfl
  constructor
  · exact hreal
  · intro _
    rw [hvalue]
    exact ⟨Int.le_of_lt hover, rfl⟩
  · rw [hcount]
    rcases Int.lt_or_le nMaxNumberOfSpends 1 with hlt | hle
    · exact Or.inr fun m _ hone hcap => by omega
    · exact Or.inl hle
  · intro hzero n htarget m _ _ _
    have heq := hreal.eq_of_no_change htarget (by rw [hvalue]; omega)
      (by rw [hvalue]; exact hzero)
    rw [hvalue] at heq
    omega

/-- The coins that reach the target are no more than any others that do. -/
theorem reachTarget_fewest (hheld : ∀ denom, 0 ≤ held denom) {m : DenomMap}
    (hm : Realisable held m) (hle : nValueTarget ≤ mapValue m) :
    let s := reachTarget held denomsDown { nRemainingValue := nValueTarget }
    nValueTarget ≤ mapValue s.mapOfDenomsUsed ∧
      getNumberOfCoinsUsed s.mapOfDenomsUsed ≤ getNumberOfCoinsUsed m := by
  have htook := reachTarget_took hheld
    (s := { nRemainingValue := nValueTarget }) denoms_chain fun _ _ => rfl
  have hmap := htook.map_eq
  have hreach : coinsUp nValueTarget ≤
      Greedy.worth denomValue denomsDown (heldOf m) := by
    rw [coinsUp_le, ← hm.value_eq]
    exact hle
  have hall : Greedy.worth denomValue denomsDown (heldOf m) ≤
      Greedy.worth denomValue denomsDown (heldOf held) :=
    Greedy.worth_mono (hm.within denomsDown)
  refine ⟨?_, ?_⟩
  · rw [mapValue_eq hmap, ← coinsUp_le]
    exact Greedy.le_worth_cover denoms_chain _ (Nat.le_trans hreach hall)
  · rw [getNumberOfCoinsUsed_eq hmap, hm.count_eq]
    exact Int.ofNat_le.mpr
      (Greedy.cover_fewest denoms_chain _ _ (hm.within denomsDown) hreach)

theorem reachTarget_changeSound (hheld : ∀ denom, 0 ≤ held denom)
    {s : Taking} (hs : reachTarget held denomsDown
      { nRemainingValue := nValueTarget } = s) :
    s.Sound held nValueTarget ∧
    ChangeSound nMaxNumberOfSpends nValueTarget held
      (getNumberOfCoinsUsed (getChange (s.AmountUsed - nValueTarget)),
        s.mapOfDenomsUsed) := by
  have htook := reachTarget_took hheld
    (s := { nRemainingValue := nValueTarget }) denoms_chain fun _ _ => rfl
  have hsound := htook.sound hheld (Greedy.cover_within denoms_chain _)
  rw [hs] at hsound
  have hfewest : ∀ m, Realisable held m → nValueTarget ≤ mapValue m →
      nValueTarget ≤ mapValue s.mapOfDenomsUsed ∧
        getNumberOfCoinsUsed s.mapOfDenomsUsed ≤ getNumberOfCoinsUsed m := by
    intro m hm hle
    rw [← hs]
    exact reachTarget_fewest hheld hm hle
  refine ⟨hsound, hsound.real, ?_, ?_, ?_⟩
  · intro hchange
    have hpos := (count_getChange_pos (s.AmountUsed - nValueTarget)).mp
      (by have := count_getChange_nonneg (s.AmountUsed - nValueTarget); omega)
    rw [← hsound.amount]
    rw [COIN] at hpos
    exact ⟨by omega, rfl⟩
  · by_cases hcap : getNumberOfCoinsUsed s.mapOfDenomsUsed ≤ nMaxNumberOfSpends
    · exact Or.inl hcap
    · refine Or.inr fun m hm _ hle => ?_
      by_contra hreach
      have := (hfewest m hm (Int.not_lt.mp hreach)).2
      omega
  · intro hzero n htarget m hm hreach hcap
    obtain ⟨hle, hcount⟩ := hfewest m hm hreach
    refine ⟨s.mapOfDenomsUsed, hsound.real, ?_, Int.le_trans hcount hcap⟩
    refine hsound.real.eq_of_no_change htarget hle ?_
    rw [← hsound.amount]
    exact hzero

/-- The largest denomination held is above every other one held. -/
theorem upTo_getMaxDenomHeld {denom : CoinDenomination}
    (hmem : held denom ≠ 0) : upTo (getMaxDenomHeld held) denom = true := by
  have hsorted : denomsDown.Pairwise fun a b => b.toInt ≤ a.toInt := by
    decide
  have hfirst : ∀ {denoms : List CoinDenomination},
      denoms.Pairwise (fun a b => b.toInt ≤ a.toInt) → denom ∈ denoms →
      upTo (denoms.find? fun coin => held coin != 0) denom = true := by
    intro denoms
    induction denoms with
    | nil => exact fun _ hd => absurd hd List.not_mem_nil
    | cons first denoms ih =>
        intro hdown hd
        obtain ⟨hlower, hrest⟩ := List.pairwise_cons.mp hdown
        rw [List.find?_cons]
        split
        · rw [upTo, Option.any_some, decide_eq_true_iff]
          rcases List.mem_cons.mp hd with rfl | hd
          · exact Int.le_refl _
          · exact hlower denom hd
        · next hno =>
            rcases List.mem_cons.mp hd with rfl | hd
            · exact absurd (bne_iff_ne.mpr hmem) (Bool.eq_false_iff.mp hno)
            · exact ih hrest hd
  exact hfirst hsorted (mem_denomsDown denom)

/-- A coin over the target is left when only smaller ones are taken first. -/
theorem canFillUp_of_over (hheld : ∀ denom, 0 ≤ held denom)
    {denom : CoinDenomination}
    (hover : nValueTarget < zerocoinDenominationToAmount denom)
    (hmem : held denom ≠ 0) :
    CanFillUp (getNextLowerDenomHeld denom held) nValueTarget held := by
  have hsound :=
    belowTarget_sound (getNextLowerDenomHeld denom held) nValueTarget hheld
  have htook :=
    belowTarget_took (getNextLowerDenomHeld denom held) nValueTarget held
  have hupTo : upTo (getNextLowerDenomHeld denom held) denom = false := by
    rw [upTo, Option.any_eq_false]
    intro next hnext
    have hfound := List.find?_some hnext
    rw [Bool.and_eq_true, decide_eq_true_iff] at hfound
    rw [decide_eq_false_iff_not]
    omega
  have hunused : (belowTarget (getNextLowerDenomHeld denom held) nValueTarget
      held).mapOfDenomsUsed denom = 0 := by
    have hwithin : Greedy.Within
        (heldOf (heldUpTo (getNextLowerDenomHeld denom held) held)) denomsDown
        (Greedy.greedy denomValue
          (heldOf (heldUpTo (getNextLowerDenomHeld denom held) held))
          denomsDown (coinsIn (nValueTarget - 1))) :=
      Greedy.greedy_within denoms_chain _
    have hle := hwithin denom (mem_denomsDown denom)
    rw [htook.map_eq]
    generalize Greedy.greedy denomValue _ denomsDown _ denom = used at hle ⊢
    rw [heldOf, heldUpTo, hupTo] at hle
    simpa using hle
  have hpos := hheld denom
  have hvalue := hsound.real.value_nonneg
  refine ⟨denom, ?_, by omega⟩
  rw [hsound.remaining, hsound.amount]
  omega

/-- Where the largest coins step over the target by a coin and more, the
first set of coins leaves one that reaches it as well. -/
theorem canFillUp_of_reach (hheld : ∀ denom, 0 ≤ held denom)
    (hpos : 0 < nValueTarget)
    (hover : COIN ≤ mapValue (reachTarget held denomsDown
      { nRemainingValue := nValueTarget }).mapOfDenomsUsed - nValueTarget) :
    CanFillUp (getMaxDenomHeld held) nValueTarget held := by
  have hreach := (reachTarget_took hheld
    (s := { nRemainingValue := nValueTarget }) denoms_chain
    fun _ _ => rfl).map_eq
  have htook := belowTarget_took (getMaxDenomHeld held) nValueTarget held
  have hall : heldUpTo (getMaxDenomHeld held) held = held := by
    funext denom
    rw [heldUpTo]
    split
    · rfl
    · next hno =>
        by_contra hne
        exact hno (upTo_getMaxDenomHeld fun hzero => hne hzero.symm)
  rw [hall] at htook
  have hcoins : coinsIn (nValueTarget - 1) + 1 = coinsUp nValueTarget := by
    rw [coinsIn, coinsUp, COIN]
    omega
  have habove : coinsUp nValueTarget < Greedy.worth denomValue denomsDown
      (Greedy.cover denomValue (heldOf held) denomsDown
        (coinsUp nValueTarget)) := by
    rw [mapValue_eq hreach, COIN] at hover
    generalize Greedy.worth denomValue denomsDown _ = reached at hover ⊢
    rw [coinsUp, COIN]
    omega
  have hbelow : Greedy.worth denomValue denomsDown
      (Greedy.greedy denomValue (heldOf held) denomsDown
        (coinsIn (nValueTarget - 1))) < coinsUp nValueTarget := by
    have hle : Greedy.worth denomValue denomsDown
        (Greedy.greedy denomValue (heldOf held) denomsDown
          (coinsIn (nValueTarget - 1))) ≤ coinsIn (nValueTarget - 1) :=
      Greedy.worth_greedy_le denoms_chain _
    omega
  obtain ⟨denom, hdenom, hleft, hbig⟩ := Greedy.exists_left_of_cover
    denoms_chain hbelow (fun f hf hlt => Greedy.le_worth_greedy denoms_chain hf
      (by omega)) habove
  refine ⟨denom, ?_, ?_⟩
  · have hremaining := htook.remaining
    dsimp only at hremaining
    rw [hremaining, amount_eq, COIN]
    generalize Greedy.worth denomValue denomsDown _ = below at hbig ⊢
    rw [coinsUp, COIN] at hbig
    omega
  · rw [htook.map_eq]
    rw [heldOf] at hleft
    omega

/-- **The search with change** keeps to the coins that are held. -/
theorem calculateChange_spec (hheld : ∀ denom, 0 ≤ held denom)
    (nMaxNumberOfSpends : Int) (fMinimizeChange : Bool) (nValueTarget : Int) :
    ChangeSound nMaxNumberOfSpends nValueTarget held
      (calculateChange nMaxNumberOfSpends fMinimizeChange nValueTarget
        held) := by
  rw [calculateChange]
  split
  · next denom hfound =>
      have hdenom := List.find?_some hfound
      rw [Bool.and_eq_true, decide_eq_true_iff, bne_iff_ne] at hdenom
      obtain ⟨hover, hmem⟩ := hdenom
      have hone : ChangeSound nMaxNumberOfSpends nValueTarget held _ :=
        oneCoin_changeSound hheld hover hmem
      split
      · have hmin := minimizeChange_spec hheld nMaxNumberOfSpends
          (getNumberOfCoinsUsed (getChange
            (zerocoinDenominationToAmount denom - nValueTarget)))
          (getNextLowerDenomHeld denom held) nValueTarget
          (Function.update (fun _ => 0) denom 1) rfl
        dsimp only
        generalize minimizeChange nMaxNumberOfSpends _ _ _ _ _ = r at hmin ⊢
        split
        · next hless =>
            rcases hmin with hsame | ⟨hchange, hreaches⟩
            · rw [hsame] at hless
              exact absurd hless (Int.lt_irrefl _)
            · exact hchange.changeSound
                (hreaches (canFillUp_of_over hheld hover hmem))
        · exact hone
      · exact hone
  · next hnone =>
      dsimp only
      have hfill := @canFillUp_of_reach held nValueTarget hheld
      generalize hs : reachTarget held denomsDown
        { nRemainingValue := nValueTarget } = s at hfill ⊢
      have hboth : s.Sound held nValueTarget ∧
          ChangeSound nMaxNumberOfSpends nValueTarget held _ :=
        reachTarget_changeSound hheld hs
      obtain ⟨hsound, hreached⟩ := hboth
      have hmin := minimizeChange_spec hheld nMaxNumberOfSpends
        (getNumberOfCoinsUsed (getChange (s.AmountUsed - nValueTarget)))
        (getMaxDenomHeld held) nValueTarget s.mapOfDenomsUsed rfl
      generalize minimizeChange nMaxNumberOfSpends _ _ _ _ _ = r at hmin ⊢
      split
      · exact hreached
      · rcases hmin with hsame | ⟨hchange, hreaches⟩
        · rw [hsame]
          exact hreached
        · refine hchange.changeSound ?_
          rcases Int.lt_or_le 0 nValueTarget with hpos | hnonpos
          · have hnonneg :=
              count_getChange_nonneg (mapValue r.2 - nValueTarget)
            have hlt := hchange.fewer
            rw [hchange.change] at hlt
            have hover := (count_getChange_pos _).mp
              (Int.lt_of_le_of_lt hnonneg hlt)
            rw [hsound.amount] at hover
            exact hreaches (hfill hpos hover)
          · exact Int.le_trans hnonpos hchange.real.value_nonneg

end Change

/-! ## The mints that are selected -/

/-- Mints of one denomination are selected. -/
def Spending.selectMany (s : Spending) (coin : CoinDenomination)
    (mints : List CMintMeta) : Spending where
  vSelectedMints := s.vSelectedMints ++ mints
  nCoinsSpentValue :=
    s.nCoinsSpentValue + mints.length * zerocoinDenominationToAmount coin
  mapOfDenomsUsed := Function.update s.mapOfDenomsUsed coin
    (s.mapOfDenomsUsed coin - mints.length)

theorem Spending.select_used (s : Spending) (mint : CMintMeta) :
    (s.select mint).mapOfDenomsUsed mint.denom =
      s.mapOfDenomsUsed mint.denom - 1 :=
  Function.update_self _ _ _

theorem Spending.selectMany_used (s : Spending) (coin : CoinDenomination)
    (mints : List CMintMeta) :
    (s.selectMany coin mints).mapOfDenomsUsed coin =
      s.mapOfDenomsUsed coin - mints.length :=
  Function.update_self _ _ _

theorem Spending.selectMany_used_of_ne (s : Spending)
    {coin denom : CoinDenomination} (mints : List CMintMeta)
    (h : denom ≠ coin) :
    (s.selectMany coin mints).mapOfDenomsUsed denom =
      s.mapOfDenomsUsed denom :=
  Function.update_of_ne h _ _

theorem Spending.selectMany_nil (s : Spending) (coin : CoinDenomination) :
    s.selectMany coin [] = s := by
  simp [Spending.selectMany]

theorem Spending.select_selectMany (s : Spending) (mint : CMintMeta)
    (mints : List CMintMeta) :
    (s.select mint).selectMany mint.denom mints =
      s.selectMany mint.denom (mint :: mints) := by
  simp only [Spending.selectMany, Spending.select, Function.update_self,
    Function.update_idem, List.append_assoc, List.singleton_append,
    List.length_cons, Spending.mk.injEq, true_and]
  push_cast
  refine ⟨?_, congrArg _ ?_⟩ <;> ring

/-- A pass selects the first mints of the denomination, as many as are
missing. -/
theorem spendPass_eq (coin : CoinDenomination) :
    ∀ (listMints : List CMintMeta) (n : Nat) (s : Spending),
      s.mapOfDenomsUsed coin = n →
      spendPass coin listMints s = s.selectMany coin
        (((unusedMints listMints).filter fun mint =>
          decide (mint.denom = coin)).take n) := by
  intro listMints
  induction listMints with
  | nil =>
      intro n s _
      rw [unusedMints, List.filter_nil, List.filter_nil, List.take_nil,
        s.selectMany_nil]
      rfl
  | cons mint mints ih =>
      intro n s hn
      have hcons : spendPass coin (mint :: mints) s = spendPass coin mints
          (if mint.isUsed then s
          else if coin = mint.denom ∧ s.mapOfDenomsUsed coin ≠ 0 then
            s.select mint
          else s) := rfl
      rw [hcons, unusedMints, List.filter_cons, ← unusedMints]
      cases mint.isUsed with
      | true =>
          simp only [if_true, Bool.not_true, Bool.false_eq_true, if_false]
          exact ih n s hn
      | false =>
          simp only [Bool.false_eq_true, if_false, Bool.not_false, if_true]
          rw [List.filter_cons]
          by_cases hdenom : mint.denom = coin
          · subst hdenom
            rw [if_pos (decide_eq_true rfl)]
            cases n with
            | zero =>
                rw [if_neg (fun h => h.2 hn), ih 0 s hn, List.take_zero,
                  List.take_zero]
            | succ n =>
                have hmissing : s.mapOfDenomsUsed mint.denom ≠ 0 := by omega
                rw [if_pos ⟨rfl, hmissing⟩, ih n, List.take_succ_cons,
                  s.select_selectMany]
                rw [s.select_used]
                omega
          · rw [if_neg (fun h => hdenom h.1.symm), if_neg (by simpa using hdenom),
              ih n s hn]

theorem length_take_unused {coin : CoinDenomination}
    {listMints : List CMintMeta} {n : Nat}
    (hle : n ≤ Greedy.countOf CMintMeta.denom (unusedMints listMints) coin) :
    (((unusedMints listMints).filter fun mint =>
      decide (mint.denom = coin)).take n).length = n := by
  rw [List.length_take, ← List.countP_eq_length_filter]
  exact Nat.min_eq_left hle

/-- Coins that are there are found in one pass. -/
theorem spendLoop_eq {coin : CoinDenomination} {listMints : List CMintMeta}
    {n : Nat} {s : Spending} (hn : s.mapOfDenomsUsed coin = n)
    (hle : n ≤ Greedy.countOf CMintMeta.denom (unusedMints listMints) coin)
    (fuel : Nat) :
    spendLoop coin listMints (fuel + 1) s = some (s.selectMany coin
      (((unusedMints listMints).filter fun mint =>
        decide (mint.denom = coin)).take n)) := by
  rw [spendLoop, spendPass_eq coin listMints n s hn]
  have hdone : (s.selectMany coin (((unusedMints listMints).filter fun mint =>
      decide (mint.denom = coin)).take n)).mapOfDenomsUsed coin = 0 := by
    rw [s.selectMany_used, length_take_unused hle, hn, Int.sub_self]
  exact if_neg (not_not_intro hdone)

/-- The coins of some mints. -/
def countMap (mints : List CMintMeta) : DenomMap := fun denom =>
  Greedy.countOf CMintMeta.denom mints denom

section Spends

variable {listMints mints : List CMintMeta} {m : DenomMap}

theorem countMap_eq (mints : List CMintMeta) (denom : CoinDenomination) :
    countMap mints denom =
      (Greedy.countOf CMintMeta.denom mints denom : Nat) := rfl

theorem countMap_nonneg (mints : List CMintMeta) (denom : CoinDenomination) :
    0 ≤ countMap mints denom :=
  Int.natCast_nonneg _

theorem mapValue_countMap (mints : List CMintMeta) :
    mapValue (countMap mints) = mintsValue mints := by
  rw [mapValue_eq (countMap_eq mints), mintsValue_eq]

theorem count_countMap (mints : List CMintMeta) :
    getNumberOfCoinsUsed (countMap mints) = mints.length := by
  rw [getNumberOfCoinsUsed_eq (countMap_eq mints),
    Greedy.size_countOf denoms_chain.nodup fun mint _ =>
      mem_denomsDown mint.denom]

theorem realisable_countMap (h : mints.Subperm (unusedMints listMints)) :
    Realisable (countMap (unusedMints listMints)) (countMap mints) :=
  fun _ => ⟨Int.natCast_nonneg _, Int.ofNat_le.mpr (h.countP_le _)⟩

/-- **Maps are realised by mints.**  The mints read off a map of coins that
are held are distinct unused ones with exactly these coins. -/
theorem getSpends_eq (h : Realisable (countMap (unusedMints listMints)) m) :
    ∃ s, getSpends listMints m = some s ∧
      s.vSelectedMints.Subperm (unusedMints listMints) ∧
      countMap s.vSelectedMints = m ∧
      s.nCoinsSpentValue = mapValue m := by
  have hle : ∀ denom, heldOf m denom ≤
      Greedy.countOf CMintMeta.denom (unusedMints listMints) denom := by
    intro denom
    have := (h denom).2
    rw [heldOf]
    exact Int.toNat_le.mpr this
  have hfold : ∀ (denoms : List CoinDenomination) (s : Spending),
      denoms.Nodup → (∀ denom ∈ denoms, s.mapOfDenomsUsed denom = m denom) →
      ∃ s', denoms.foldlM (fun s coin => spendLoop coin listMints
          ((s.mapOfDenomsUsed coin).toNat + 1) s) s = some s' ∧
        s'.vSelectedMints = s.vSelectedMints ++
          Greedy.pick CMintMeta.denom (unusedMints listMints) denoms
            (heldOf m) ∧
        s'.nCoinsSpentValue = s.nCoinsSpentValue +
          COIN * Greedy.worth denomValue denoms (heldOf m) := by
    intro denoms
    induction denoms with
    | nil => exact fun s _ _ => ⟨s, rfl, by simp [Greedy.pick], by simp⟩
    | cons denom denoms ih =>
        intro s hnodup hused
        obtain ⟨hnot, hrest⟩ := List.nodup_cons.mp hnodup
        have hn : s.mapOfDenomsUsed denom = (heldOf m denom : Nat) :=
          (hused denom List.mem_cons_self).trans (h.eq_heldOf denom)
        obtain ⟨s', hs', hselected, hvalue⟩ := ih (s.selectMany denom
          (((unusedMints listMints).filter fun mint =>
            decide (mint.denom = denom)).take (heldOf m denom))) hrest
          fun d hd => by
            rw [s.selectMany_used_of_ne _ (ne_of_mem_of_not_mem hd hnot)]
            exact hused d (List.mem_cons_of_mem denom hd)
        refine ⟨s', ?_, ?_, ?_⟩
        · rw [List.foldlM_cons, spendLoop_eq hn (hle denom), Option.bind_eq_bind,
            Option.bind_some, hs']
        · rw [hselected]
          exact List.append_assoc _ _ _
        · rw [hvalue, Spending.selectMany, length_take_unused (hle denom),
            Greedy.worth_cons, amount_eq]
          push_cast
          ring
  obtain ⟨s, hs, hselected, hvalue⟩ := hfold denomsDown
    { mapOfDenomsUsed := m } denoms_chain.nodup fun _ _ => rfl
  rw [List.nil_append] at hselected
  refine ⟨s, hs, ?_, ?_, ?_⟩
  · rw [hselected]
    exact (Greedy.pick_subperm denoms_chain.nodup _).trans
      List.filter_sublist.subperm
  · funext denom
    rw [hselected, countMap, Greedy.countOf_pick denoms_chain.nodup
      (fun d _ => hle d) (mem_denomsDown denom), ← h.eq_heldOf]
  · rw [hvalue, h.value_eq, Int.zero_add]

/-- The first pass meets the target with the fewest coins, if any of the
unused mints meet it. -/
theorem getIdealSpends_spec (nValueTarget : Int) (listMints : List CMintMeta) :
    Realisable (countMap (unusedMints listMints))
        (getIdealSpends nValueTarget listMints).2 ∧
      ((getIdealSpends nValueTarget listMints).1 = true →
        mapValue (getIdealSpends nValueTarget listMints).2 = nValueTarget) ∧
      ∀ c, Realisable (countMap (unusedMints listMints)) c →
        mapValue c = nValueTarget →
        (getIdealSpends nValueTarget listMints).1 = true ∧
          getNumberOfCoinsUsed (getIdealSpends nValueTarget listMints).2 ≤
            getNumberOfCoinsUsed c := by
  obtain ⟨s, hs, htook⟩ := getIdealSpends_took nValueTarget listMints
  have hcount : mintCount listMints =
      heldOf (countMap (unusedMints listMints)) := by
    funext denom
    rw [mintCount_eq]
    rfl
  rw [hcount] at htook
  have hsound := htook.sound (countMap_nonneg _)
    (Greedy.greedy_within denoms_chain _)
  have hremaining := hsound.remaining
  rw [hsound.amount] at hremaining
  rw [hs]
  refine ⟨hsound.real, fun hmet => ?_, fun c hc hvalue => ?_⟩
  · rw [beq_iff_eq, hremaining] at hmet
    exact (Int.sub_eq_zero.mp hmet).symm
  · subst hvalue
    obtain ⟨hexact, hsize⟩ := Greedy.worth_greedy denoms_chain
      (hc.within denomsDown) rfl
    have hmap := htook.map_eq
    rw [hc.coinsIn_value] at hmap
    have hvalue := mapValue_eq hmap
    rw [hexact, ← hc.value_eq] at hvalue
    refine ⟨beq_iff_eq.mpr (by omega), ?_⟩
    rw [getNumberOfCoinsUsed_eq hmap, hc.count_eq]
    exact Int.ofNat_le.mpr hsize

/-- A selection of mints for a target. -/
structure SpendsFor (nMaxNumberOfSpends nValueTarget : Int)
    (listMints : List CMintMeta) (r : SelectedMints) : Prop where
  unused : r.vSelectedMints.Subperm (unusedMints listMints)
  value : mintsValue r.vSelectedMints = r.nSelectedValue
  reaches : nValueTarget ≤ r.nSelectedValue
  change : r.nCoinsReturned =
    getNumberOfCoinsUsed (getChange (r.nSelectedValue - nValueTarget))
  cap : (r.vSelectedMints.length : Int) ≤ nMaxNumberOfSpends ∨
    ∀ mints : List CMintMeta, mints.Subperm (unusedMints listMints) →
      mints ≠ [] → (mints.length : Int) ≤ nMaxNumberOfSpends →
      mintsValue mints < nValueTarget

/-- No selection within the cap reaches the target, if it is one of whole
coins. -/
def OutOfReach (nMaxNumberOfSpends nValueTarget : Int)
    (listMints : List CMintMeta) : Prop :=
  ∀ n : Nat, 0 < n → nValueTarget = COIN * n →
    ∀ mints : List CMintMeta, mints.Subperm (unusedMints listMints) →
      (mints.length : Int) ≤ nMaxNumberOfSpends →
      mintsValue mints < nValueTarget

/-- A selection that reaches a target of whole coins is not empty. -/
theorem SpendsFor.outOfReach {nMaxNumberOfSpends nValueTarget : Int}
    {r : SelectedMints}
    (h : SpendsFor nMaxNumberOfSpends nValueTarget listMints r)
    (hnil : r.vSelectedMints = []) :
    OutOfReach nMaxNumberOfSpends nValueTarget listMints := by
  intro n hn htarget
  have hvalue := h.value
  have hreaches := h.reaches
  have hzero : mintsValue [] = 0 := rfl
  rw [hnil, hzero] at hvalue
  rw [← hvalue, htarget, COIN] at hreaches
  omega

theorem selectWithChange_spec {nMaxNumberOfSpends nValueTarget : Int}
    (nSelectedValue : Int) (fMinimizeChange : Bool) (nNeededSpends : Int)
    (hinexact : ∀ c, Realisable (countMap (unusedMints listMints)) c →
      mapValue c = nValueTarget →
      nMaxNumberOfSpends < getNumberOfCoinsUsed c) :
    ∃ r, selectWithChange nValueTarget nSelectedValue nMaxNumberOfSpends
        fMinimizeChange listMints (countMap (unusedMints listMints))
        nNeededSpends = some r ∧
      (r.vSelectedMints ≠ [] →
        SpendsFor nMaxNumberOfSpends nValueTarget listMints r) ∧
      (r.vSelectedMints = [] →
        OutOfReach nMaxNumberOfSpends nValueTarget listMints) := by
  have hsound := calculateChange_spec
    (countMap_nonneg (unusedMints listMints)) nMaxNumberOfSpends
    fMinimizeChange nValueTarget
  rw [selectWithChange]
  generalize calculateChange nMaxNumberOfSpends fMinimizeChange nValueTarget
    (countMap (unusedMints listMints)) = r at hsound ⊢
  obtain ⟨nCoinsReturned, mapOfDenomsUsed⟩ := r
  dsimp only
  split
  · next hzero =>
      refine ⟨_, rfl, fun hne => absurd rfl hne, fun _ => ?_⟩
      intro n _ htarget mints hmints hcap
      by_contra hreach
      obtain ⟨c, hc, hvalue, hcount⟩ := hsound.exact hzero n htarget
        (countMap mints) (realisable_countMap hmints)
        (by rw [mapValue_countMap]; exact Int.not_lt.mp hreach)
        (by rw [count_countMap]; exact hcap)
      have := hinexact c hc hvalue
      omega
  · next hchange =>
      obtain ⟨hle, hreturned⟩ := hsound.reaches hchange
      obtain ⟨s, hs, hsub, hmap, hvalue⟩ := getSpends_eq hsound.real
      have hmints : mintsValue s.vSelectedMints = s.nCoinsSpentValue := by
        rw [← mapValue_countMap, hmap, hvalue]
      have hspends : SpendsFor nMaxNumberOfSpends nValueTarget listMints
          ⟨s.vSelectedMints, s.nCoinsSpentValue, nCoinsReturned,
            nNeededSpends⟩ := by
        refine ⟨hsub, hmints, ?_, ?_, ?_⟩
        · rw [hvalue]
          exact hle
        · rw [hvalue]
          exact hreturned
        · rcases hsound.cap with hcap | hnone
          · left
            rw [← count_countMap, hmap]
            exact hcap
          · right
            intro mints hmints hne hlength
            rw [← mapValue_countMap]
            refine hnone _ (realisable_countMap hmints) ?_ ?_
            · have := List.length_pos_of_ne_nil hne
              rw [count_countMap]
              omega
            · rw [count_countMap]
              exact hlength
      rw [hs]
      exact ⟨_, rfl, fun _ => hspends, hspends.outOfReach⟩

/-- **The selection of mints.**  For every list of mints, cap and target a
selection is made.  What it selects are distinct unused mints, which are worth
the value it reports and reach the target, and it reports the coins of change.
They are more than the cap only where no mints within it reach the target.
When nothing is selected for a target of whole coins, no mints within the cap
reach it. -/
theorem selectMintsFromList_spec
    (nValueTarget nSelectedValue nMaxNumberOfSpends : Int)
    (fMinimizeChange : Bool) (listMints : List CMintMeta) :
    ∃ r, selectMintsFromList nValueTarget nSelectedValue nMaxNumberOfSpends
        fMinimizeChange listMints (countMap (unusedMints listMints)) = some r ∧
      (r.vSelectedMints ≠ [] →
        SpendsFor nMaxNumberOfSpends nValueTarget listMints r) ∧
      (r.vSelectedMints = [] →
        OutOfReach nMaxNumberOfSpends nValueTarget listMints) := by
  obtain ⟨hreal, hexact, hfewest⟩ := getIdealSpends_spec nValueTarget listMints
  rw [selectMintsFromList]
  generalize getIdealSpends nValueTarget listMints = ideal
    at hreal hexact hfewest ⊢
  obtain ⟨fCanMeetExactly, mapOfDenomsUsed⟩ := ideal
  dsimp only at hreal hexact hfewest ⊢
  split
  · next hmet =>
      have hvalue := hexact hmet
      obtain ⟨s, hs, hsub, hmap, hspent⟩ := getSpends_eq hreal
      have hlength : (s.vSelectedMints.length : Int) =
          getNumberOfCoinsUsed mapOfDenomsUsed := by
        rw [← count_countMap, hmap]
      rw [hvalue] at hspent
      rw [hs]
      dsimp only [Option.bind_eq_bind, Option.bind_some]
      split
      · next hcap =>
          have hmints : mintsValue s.vSelectedMints = nValueTarget := by
            rw [← mapValue_countMap, hmap, hvalue]
          have hspends : SpendsFor nMaxNumberOfSpends nValueTarget listMints
              ⟨s.vSelectedMints, s.nCoinsSpentValue, 0, 0⟩ := by
            refine ⟨hsub, hmints.trans hspent.symm, Int.le_of_eq hspent.symm,
              ?_, ?_⟩
            · rw [hspent, Int.sub_self]
              rfl
            · rcases Int.lt_or_le nMaxNumberOfSpends 0 with hneg | hpos
              · right
                intro mints _ _ hle
                omega
              · left
                rwa [sizeOfInt, if_neg (Int.not_lt.mpr hpos)] at hcap
          exact ⟨_, rfl, fun _ => hspends, hspends.outOfReach⟩
      · next hmany =>
          refine selectWithChange_spec _ fMinimizeChange _ fun c hc hvalue => ?_
          have hle := (hfewest c hc hvalue).2
          have hnonneg := hc.count_nonneg
          rw [sizeOfInt, hlength] at hmany
          split at hmany <;> omega
  · next hunmet =>
      refine selectWithChange_spec _ fMinimizeChange _ fun c hc hvalue => ?_
      exact absurd (hfewest c hc hvalue).1 hunmet

end Spends

/-- Two mints of five coins. -/
def twoFives : List CMintMeta :=
  [⟨1, .ZQ_FIVE, false⟩, ⟨2, .ZQ_FIVE, false⟩]

/-- Where no mints within the cap reach the target, more are selected than the
cap allows; the caller compares their number with it once more. -/
theorem selectMintsFromList_over_cap :
    ∃ r, selectMintsFromList (6 * COIN) 0 1 false twoFives
        (countMap (unusedMints twoFives)) = some r ∧
      r.vSelectedMints ≠ [] ∧ ¬ (r.vSelectedMints.length : Int) ≤ 1 :=
  ⟨⟨twoFives, 10 * COIN, 4, 0⟩, by decide +kernel, by decide, by decide⟩

/-! ## The calls of `getSpends` -/

section Calls

variable {listMints : List CMintMeta} {held m : DenomMap}
variable {nMaxNumberOfSpends nValueTarget : Int} {fMinimizeChange : Bool}

/-- The maps that `SelectMintsFromList` hands to `getSpends`: that of an exact payment, and that of
a payment with change. -/
inductive SpendCall (nMaxNumberOfSpends nValueTarget : Int) (fMinimizeChange : Bool)
    (listMints : List CMintMeta) (held : DenomMap) : DenomMap → Prop
  | exact (h : (getIdealSpends nValueTarget listMints).1 = true) :
      SpendCall nMaxNumberOfSpends nValueTarget fMinimizeChange listMints held
        (getIdealSpends nValueTarget listMints).2
  | change (h : (calculateChange nMaxNumberOfSpends fMinimizeChange nValueTarget held).1 ≠ 0) :
      SpendCall nMaxNumberOfSpends nValueTarget fMinimizeChange listMints held
        (calculateChange nMaxNumberOfSpends fMinimizeChange nValueTarget held).2

/-- Every map that is handed on is one of coins that unused mints have, if those held are counted
among these. -/
theorem SpendCall.realisable (hheld : Realisable (countMap (unusedMints listMints)) held)
    (h : SpendCall nMaxNumberOfSpends nValueTarget fMinimizeChange listMints held m) :
    Realisable (countMap (unusedMints listMints)) m := by
  cases h with
  | exact h => exact (getIdealSpends_spec nValueTarget listMints).1
  | change h =>
      have hreal := (calculateChange_spec (fun denom => (hheld denom).1) nMaxNumberOfSpends
        fMinimizeChange nValueTarget).real
      exact fun denom => ⟨(hreal denom).1, Int.le_trans (hreal denom).2 (hheld denom).2⟩

/-- An amount is changed into the fewest coins, but for what is less than a coin. -/
theorem getChange_fewest {nValue : Int} (h : 0 ≤ nValue) :
    PaysWithFewest (getChange nValue) (nValue / COIN * COIN) ∧
      mapValue (getChange nValue) + nValue % COIN = nValue := by
  have hcoins : (COIN * coinsIn nValue : Int) = nValue / COIN * COIN := by
    rw [coinsIn, COIN]
    omega
  obtain ⟨s, hs, htook⟩ := getChange_took nValue
  have hpays : PaysWithFewest (getChange nValue) (nValue / COIN * COIN) := by
    rw [hs, ← hcoins]
    exact paysWithFewest_greedy (fun denom => Nat.div_le_self _ _) htook.map_eq
  refine ⟨hpays, ?_⟩
  rw [hpays.exact]
  exact Int.ediv_mul_add_emod nValue COIN

/-- **Change and spends.**  An amount is changed into the fewest coins.  The callers count as held
some of the unused mints they list, and then every map that is handed to `getSpends` is met exactly
by distinct unused mints. -/
theorem getChange_getSpends_exact {nValue : Int} (hvalue : 0 ≤ nValue)
    (nMaxNumberOfSpends nValueTarget : Int) (fMinimizeChange : Bool)
    (hheld : Realisable (countMap (unusedMints listMints)) held) :
    (PaysWithFewest (getChange nValue) (nValue / COIN * COIN) ∧
      mapValue (getChange nValue) + nValue % COIN = nValue) ∧
    ∀ m, SpendCall nMaxNumberOfSpends nValueTarget fMinimizeChange listMints held m →
      ∃ s, getSpends listMints m = some s ∧ s.vSelectedMints.Subperm (unusedMints listMints) ∧
        ∀ denom, (s.vSelectedMints.countP fun mint => decide (mint.denom = denom)) =
          (m denom : Int) := by
  refine ⟨getChange_fewest hvalue, fun m hcall => ?_⟩
  obtain ⟨s, hs, hsub, hmap, -⟩ := getSpends_eq (hcall.realisable hheld)
  exact ⟨s, hs, hsub, fun denom => congrFun hmap denom⟩

theorem getChange_getSpends_twoFives :
    (PaysWithFewest (getChange (7 * COIN + 1)) ((7 * COIN + 1) / COIN * COIN) ∧
      mapValue (getChange (7 * COIN + 1)) + (7 * COIN + 1) % COIN = 7 * COIN + 1) ∧
    ∀ m, SpendCall 2 (6 * COIN) false twoFives (countMap (unusedMints twoFives)) m →
      ∃ s, getSpends twoFives m = some s ∧ s.vSelectedMints.Subperm (unusedMints twoFives) ∧
        ∀ denom, (s.vSelectedMints.countP fun mint => decide (mint.denom = denom)) =
          (m denom : Int) :=
  getChange_getSpends_exact (by decide) 2 (6 * COIN) false
    fun denom => ⟨countMap_nonneg _ denom, Int.le_refl _⟩

end Calls

end Agrarian.Zerocoin
