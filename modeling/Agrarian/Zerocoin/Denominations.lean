import Agrarian.Lib.Greedy
import Agrarian.Zerocoin.Supply

/-!
# Paying in zerocoin denominations

The searches of `denomination_functions.cpp` that go through the denominations
from the largest down: `getSpendCoins` and `getChange` take coins while they
fit, and `getIdealSpends` takes them from a list of mints.  Every denomination
divides the larger ones, so that each of them is the greedy payment, which
meets an amount exactly whenever that is possible, with the fewest coins.
-/

namespace Agrarian.Zerocoin

open Agrarian.Lib
open Agrarian.Validation

/-- `ZerocoinDenominationToAmount`. -/
def zerocoinDenominationToAmount (denom : CoinDenomination) : Int :=
  COIN * denom.toInt

/-- `reverse_iterate(zerocoinDenomList)`: the largest denomination first. -/
def denomsDown : List CoinDenomination := zerocoinDenomList.reverse

/-- A `std::map` with an entry for every denomination. -/
abbrev DenomMap := CoinDenomination → Int

/-- A mint of the wallet, with a denomination that exists. -/
structure CMintMeta where
  hashSerial : Uint256
  denom : CoinDenomination
  isUsed : Bool
  deriving DecidableEq

/-! ## The searches -/

def getNumberOfCoinsUsed (mapChange : DenomMap) : Int :=
  zerocoinDenomList.foldl (fun nChangeCount denom =>
    nChangeCount + mapChange denom) 0

/-- What a search has taken so far, and what it still has to meet. -/
structure Taking where
  mapOfDenomsUsed : DenomMap := fun _ => 0
  nRemainingValue : Int
  AmountUsed : Int := 0
  nCoinCount : Int := 0

/-- Take one coin. -/
def Taking.take (s : Taking) (coin : CoinDenomination) : Taking where
  mapOfDenomsUsed :=
    Function.update s.mapOfDenomsUsed coin (s.mapOfDenomsUsed coin + 1)
  nRemainingValue := s.nRemainingValue - zerocoinDenominationToAmount coin
  AmountUsed := s.AmountUsed + zerocoinDenominationToAmount coin
  nCoinCount := s.nCoinCount + 1

/-- `do { if (more) take a coin } while (more)`, with at most so many rounds
left. -/
def takeLoop (more : Taking → Bool) (coin : CoinDenomination) :
    Nat → Taking → Taking
  | 0, s => s
  | fuel + 1, s =>
      if more s then takeLoop more coin fuel (s.take coin) else s

/-- No loop takes more coins than the remaining value has room for, and one
more to step over it. -/
def Taking.rounds (s : Taking) (coin : CoinDenomination) : Nat :=
  (s.nRemainingValue / zerocoinDenominationToAmount coin).toNat + 1

/-- Coins are grabbed as long as the remaining amount is at least the
denomination's and we have the denomination. -/
def getSpendCoins (nValueTarget : Int) (mapOfDenomsHeld : DenomMap) :
    DenomMap :=
  (denomsDown.foldl (fun s coin =>
    takeLoop (fun s =>
      decide (s.nRemainingValue ≥ zerocoinDenominationToAmount coin) &&
        decide (s.mapOfDenomsUsed coin < mapOfDenomsHeld coin))
      coin (s.rounds coin) s)
    { nRemainingValue := nValueTarget }).mapOfDenomsUsed

/-- Get change (no limits). -/
def getChange (nValueTarget : Int) : DenomMap :=
  (denomsDown.foldl (fun s coin =>
    takeLoop (fun s =>
      decide (s.nRemainingValue ≥ zerocoinDenominationToAmount coin))
      coin (s.rounds coin) s)
    { nRemainingValue := nValueTarget }).mapOfDenomsUsed

/-- The loop of `getIdealSpends` over the mints. -/
def idealSpendsLoop (coin : CoinDenomination) :
    List CMintMeta → Taking → Taking
  | [], s => s
  | mint :: mints, s =>
      if mint.isUsed then idealSpendsLoop coin mints s
      else
        let s :=
          if s.nRemainingValue ≥ zerocoinDenominationToAmount coin ∧
              coin = mint.denom then s.take coin
          else s
        if s.nRemainingValue < zerocoinDenominationToAmount coin then s
        else idealSpendsLoop coin mints s

/-- Whether an exact match is possible, and the coins it uses. -/
def getIdealSpends (nValueTarget : Int) (listMints : List CMintMeta) :
    Bool × DenomMap :=
  let s := denomsDown.foldl
    (fun s coin => idealSpendsLoop coin listMints s)
    { nRemainingValue := nValueTarget }
  (s.nRemainingValue == 0, s.mapOfDenomsUsed)

/-! ## Denominations as a chain -/

/-- The coins in a denomination. -/
def denomValue (denom : CoinDenomination) : Nat := denom.toInt.toNat

theorem denoms_chain : Greedy.Chain denomValue denomsDown where
  nodup := by decide
  pos := by decide
  dvd := by decide

theorem mem_denomsDown (denom : CoinDenomination) : denom ∈ denomsDown := by
  cases denom <;> decide

theorem amount_eq (denom : CoinDenomination) :
    zerocoinDenominationToAmount denom = COIN * denomValue denom := by
  have hpos := denom.toInt_pos
  rw [zerocoinDenominationToAmount, denomValue,
    Int.toNat_of_nonneg (Int.le_of_lt hpos)]

/-- The whole coins in an amount. -/
def coinsIn (nValue : Int) : Nat := (nValue / COIN).toNat

/-! ## Taking coins -/

/-- Take several coins of one denomination. -/
def Taking.takeMany (s : Taking) (coin : CoinDenomination) (k : Nat) : Taking where
  mapOfDenomsUsed :=
    Function.update s.mapOfDenomsUsed coin (s.mapOfDenomsUsed coin + k)
  nRemainingValue := s.nRemainingValue - k * zerocoinDenominationToAmount coin
  AmountUsed := s.AmountUsed + k * zerocoinDenominationToAmount coin
  nCoinCount := s.nCoinCount + k

@[simp] theorem Taking.takeMany_remaining (s : Taking)
    (coin : CoinDenomination) (k : Nat) :
    (s.takeMany coin k).nRemainingValue =
      s.nRemainingValue - k * zerocoinDenominationToAmount coin := rfl

@[simp] theorem Taking.takeMany_used (s : Taking) (coin : CoinDenomination)
    (k : Nat) : (s.takeMany coin k).mapOfDenomsUsed coin =
      s.mapOfDenomsUsed coin + k :=
  Function.update_self _ _ _

theorem Taking.takeMany_used_of_ne (s : Taking) {coin x : CoinDenomination}
    (k : Nat) (h : x ≠ coin) :
    (s.takeMany coin k).mapOfDenomsUsed x = s.mapOfDenomsUsed x :=
  Function.update_of_ne h _ _

theorem Taking.takeMany_zero (s : Taking) (coin : CoinDenomination) :
    s.takeMany coin 0 = s := by
  simp [Taking.takeMany]

theorem Taking.takeMany_take (s : Taking) (coin : CoinDenomination) (k : Nat) :
    (s.take coin).takeMany coin k = s.takeMany coin (k + 1) := by
  simp only [Taking.takeMany, Taking.take, Function.update_self,
    Function.update_idem, Taking.mk.injEq]
  push_cast
  refine ⟨congrArg _ ?_, ?_, ?_, ?_⟩ <;> ring

/-- A loop whose condition holds for the first `k` coins takes them. -/
theorem takeLoop_eq {more : Taking → Bool} {coin : CoinDenomination} :
    ∀ {k fuel : Nat} {s : Taking}, k ≤ fuel →
      (∀ i, more (s.takeMany coin i) = true ↔ i < k) →
      takeLoop more coin fuel s = s.takeMany coin k := by
  intro k
  induction k with
  | zero =>
      intro fuel s _ hmore
      have hstop := hmore 0
      rw [Taking.takeMany_zero] at hstop ⊢
      cases fuel with
      | zero => rfl
      | succ fuel => rw [takeLoop, if_neg (fun h => absurd (hstop.mp h) (by omega))]
  | succ k ih =>
      intro fuel s hk hmore
      obtain ⟨fuel, rfl⟩ := Nat.exists_eq_add_of_le' (by omega : 1 ≤ fuel)
      have hfirst := (hmore 0).mpr (Nat.succ_pos k)
      rw [Taking.takeMany_zero] at hfirst
      rw [takeLoop, if_pos hfirst, ih (by omega)]
      · exact s.takeMany_take coin k
      · intro i
        rw [s.takeMany_take coin i, hmore (i + 1), Nat.succ_lt_succ_iff]

theorem le_coinsIn {x : Int} {n : Nat} (hn : 0 < n) :
    n ≤ coinsIn x ↔ COIN * n ≤ x := by
  rw [coinsIn, COIN]
  omega

theorem coinsIn_sub {x : Int} {n : Nat} :
    coinsIn (x - COIN * n) = coinsIn x - n := by
  rw [coinsIn, coinsIn, COIN]
  omega

theorem denomValue_pos (coin : CoinDenomination) : 0 < denomValue coin :=
  denoms_chain.pos coin (mem_denomsDown coin)

theorem Taking.rounds_eq (s : Taking) (coin : CoinDenomination) :
    s.rounds coin = coinsIn s.nRemainingValue / denomValue coin + 1 := by
  have hdiv : s.nRemainingValue / (COIN * denomValue coin) =
      s.nRemainingValue / COIN / denomValue coin :=
    (Int.ediv_ediv_of_nonneg (by decide)).symm
  rw [Taking.rounds, amount_eq, hdiv, coinsIn]
  generalize s.nRemainingValue / COIN = n
  rcases Int.le_total 0 n with hn | hn
  · obtain ⟨m, rfl⟩ := Int.eq_ofNat_of_zero_le hn
    rw [Int.toNat_natCast, ← Int.natCast_ediv, Int.toNat_natCast]
  · have hneg : n / denomValue coin ≤ 0 := Int.ediv_nonpos_of_nonpos_of_neg hn
      (Int.natCast_pos.mpr (denomValue_pos coin))
    rw [Int.toNat_of_nonpos hn, Int.toNat_of_nonpos hneg, Nat.zero_div]

/-- How many times an amount holds a denomination. -/
theorem ge_takeMany_iff (s : Taking) (coin : CoinDenomination) (i : Nat) :
    (s.takeMany coin i).nRemainingValue ≥ zerocoinDenominationToAmount coin ↔
      i < coinsIn s.nRemainingValue / denomValue coin := by
  have hpos := denomValue_pos coin
  have hcoins : ((i + 1) * denomValue coin : Nat) ≤ coinsIn s.nRemainingValue ↔
      COIN * ((i + 1) * denomValue coin : Nat) ≤ s.nRemainingValue :=
    le_coinsIn (Nat.mul_pos (Nat.succ_pos i) hpos)
  have hsum : COIN * (((i + 1) * denomValue coin : Nat) : Int) =
      i * (COIN * denomValue coin) + COIN * denomValue coin := by
    push_cast
    ring
  rw [← Nat.succ_le_iff, Nat.le_div_iff_mul_le hpos, Nat.succ_eq_add_one,
    hcoins, hsum, Taking.takeMany_remaining, amount_eq]
  omega

/-- What has been taken between two states: a selection of some
denominations, with its worth and its size. -/
structure Taking.Took (ds : List CoinDenomination) (g : CoinDenomination → Nat)
    (s s' : Taking) : Prop where
  used : ∀ x, s'.mapOfDenomsUsed x =
    s.mapOfDenomsUsed x + (if x ∈ ds then (g x : Int) else 0)
  remaining : s'.nRemainingValue =
    s.nRemainingValue - COIN * Greedy.worth denomValue ds g
  amount : s'.AmountUsed = s.AmountUsed + COIN * Greedy.worth denomValue ds g
  count : s'.nCoinCount = s.nCoinCount + Greedy.size ds g

theorem Taking.Took.cons {coin : CoinDenomination} {ds : List CoinDenomination}
    {g : CoinDenomination → Nat} {s s' : Taking} (k : Nat) (hcoin : coin ∉ ds)
    (h : Taking.Took ds g (s.takeMany coin k) s') :
    Taking.Took (coin :: ds) (Function.update g coin k) s s' where
  used x := by
    rw [h.used x, Taking.takeMany]
    by_cases hx : x = coin
    · subst hx
      simp [hcoin]
    · simp [hx]
  remaining := by
    rw [h.remaining, Taking.takeMany, Greedy.worth_cons_update hcoin, amount_eq]
    push_cast
    ring
  amount := by
    rw [h.amount, Taking.takeMany, Greedy.worth_cons_update hcoin, amount_eq]
    push_cast
    ring
  count := by
    rw [h.count, Taking.takeMany, Greedy.size_cons_update hcoin]
    push_cast
    ring

theorem Taking.took_zero {ds : List CoinDenomination}
    {g : CoinDenomination → Nat} (h : ∀ d ∈ ds, g d = 0) (s : Taking) :
    Taking.Took ds g s s where
  used x := by
    split
    · next hx => rw [h x hx, Nat.cast_zero, Int.add_zero]
    · exact (Int.add_zero _).symm
  remaining := by
    rw [Greedy.worth_congr (g := fun _ => 0) h]
    simp [Greedy.worth]
  amount := by
    rw [Greedy.worth_congr (g := fun _ => 0) h]
    simp [Greedy.worth]
  count := by
    rw [Greedy.size_congr (g := fun _ => 0) h]
    simp [Greedy.size]

theorem Taking.took_nil (g : CoinDenomination → Nat) (s : Taking) :
    Taking.Took [] g s s :=
  Taking.took_zero (fun _ hd => absurd hd List.not_mem_nil) s

/-- A search that goes through the denominations and takes of each one what
is held and fits is the greedy payment. -/
theorem took_greedy {step : Taking → CoinDenomination → Taking}
    {held : CoinDenomination → Nat} {slack : Int} {bound : Nat}
    (hstep : ∀ s coin, s.mapOfDenomsUsed coin = 0 →
      coinsIn (s.nRemainingValue - slack) ≤ bound →
      step s coin = s.takeMany coin (min (held coin)
        (coinsIn (s.nRemainingValue - slack) / denomValue coin))) :
    ∀ (ds : List CoinDenomination) (s : Taking), ds.Nodup →
      (∀ d ∈ ds, s.mapOfDenomsUsed d = 0) →
      coinsIn (s.nRemainingValue - slack) ≤ bound →
      Taking.Took ds (Greedy.greedy denomValue held ds
        (coinsIn (s.nRemainingValue - slack))) s (ds.foldl step s) := by
  intro ds
  induction ds with
  | nil => exact fun s _ _ _ => Taking.took_nil _ s
  | cons coin ds ih =>
      intro s hnodup hzero hbound
      obtain ⟨hcoin, hrest⟩ := List.nodup_cons.mp hnodup
      rw [List.foldl_cons, hstep s coin (hzero coin List.mem_cons_self) hbound,
        Greedy.greedy]
      generalize min (held coin)
        (coinsIn (s.nRemainingValue - slack) / denomValue coin) = k
      have hcoins : coinsIn ((s.takeMany coin k).nRemainingValue - slack) =
          coinsIn (s.nRemainingValue - slack) - k * denomValue coin := by
        rw [← coinsIn_sub, Taking.takeMany_remaining, amount_eq]
        congr 1
        push_cast
        ring
      have hnext := ih (s.takeMany coin k) hrest (fun d hd => by
        rw [s.takeMany_used_of_ne k (ne_of_mem_of_not_mem hd hcoin)]
        exact hzero d (List.mem_cons_of_mem coin hd)) (by omega)
      rw [hcoins] at hnext
      exact hnext.cons k hcoin

/-- The coins of a map that holds no negative number. -/
def heldOf (held : DenomMap) (denom : CoinDenomination) : Nat :=
  (held denom).toNat

/-- One denomination of a search that stops before it steps over the amount,
by more than the slack. -/
theorem takeLoop_held (held : DenomMap) {slack : Int} (hslack : 0 ≤ slack)
    (s : Taking) (coin : CoinDenomination)
    (hzero : s.mapOfDenomsUsed coin = 0) :
    takeLoop (fun s => decide (s.nRemainingValue - slack ≥
        zerocoinDenominationToAmount coin) &&
          decide (s.mapOfDenomsUsed coin < held coin))
      coin (s.rounds coin) s =
        s.takeMany coin (min (heldOf held coin)
          (coinsIn (s.nRemainingValue - slack) / denomValue coin)) := by
  have hfits : ∀ i, (s.takeMany coin i).nRemainingValue - slack ≥
      zerocoinDenominationToAmount coin ↔
        i < coinsIn (s.nRemainingValue - slack) / denomValue coin := by
    intro i
    have h := ge_takeMany_iff
      { s with nRemainingValue := s.nRemainingValue - slack } coin i
    rw [← h, Taking.takeMany_remaining, Taking.takeMany_remaining]
    dsimp only
    constructor <;> intro h <;> omega
  refine takeLoop_eq ?_ fun i => ?_
  · have hle : coinsIn (s.nRemainingValue - slack) ≤
        coinsIn s.nRemainingValue := by
      rw [coinsIn, coinsIn, COIN]
      omega
    have hdiv := Nat.div_le_div_right (c := denomValue coin) hle
    rw [s.rounds_eq]
    omega
  · rw [Bool.and_eq_true, decide_eq_true_iff, decide_eq_true_iff, hfits,
      s.takeMany_used, hzero, heldOf]
    omega

/-! ## The three searches -/

theorem getSpendCoins_took (nValueTarget : Int) (held : DenomMap) :
    ∃ s : Taking, getSpendCoins nValueTarget held = s.mapOfDenomsUsed ∧
      Taking.Took denomsDown
        (Greedy.greedy denomValue (heldOf held) denomsDown
          (coinsIn nValueTarget))
        { nRemainingValue := nValueTarget } s := by
  have hstep : ∀ (s : Taking) (coin : CoinDenomination),
      s.mapOfDenomsUsed coin = 0 →
      takeLoop (fun s =>
        decide (s.nRemainingValue ≥ zerocoinDenominationToAmount coin) &&
          decide (s.mapOfDenomsUsed coin < held coin))
        coin (s.rounds coin) s =
          s.takeMany coin (min (heldOf held coin)
            (coinsIn (s.nRemainingValue - 0) / denomValue coin)) := by
    intro s coin hzero
    have h := takeLoop_held held (Int.le_refl 0) s coin hzero
    simpa only [Int.sub_zero] using h
  have h := took_greedy (fun s coin hzero _ => hstep s coin hzero) denomsDown
    { nRemainingValue := nValueTarget } denoms_chain.nodup (fun _ _ => rfl)
    (Nat.le_refl _)
  rw [Int.sub_zero] at h
  exact ⟨_, rfl, h⟩

/-- Change is paid from as many coins of every denomination as are in the
amount. -/
theorem getChange_took (nValueTarget : Int) :
    ∃ s : Taking, getChange nValueTarget = s.mapOfDenomsUsed ∧
      Taking.Took denomsDown
        (Greedy.greedy denomValue (fun _ => coinsIn nValueTarget) denomsDown
          (coinsIn nValueTarget))
        { nRemainingValue := nValueTarget } s := by
  have hstep : ∀ (s : Taking) (coin : CoinDenomination),
      coinsIn (s.nRemainingValue - 0) ≤ coinsIn nValueTarget →
      takeLoop (fun s =>
        decide (s.nRemainingValue ≥ zerocoinDenominationToAmount coin))
        coin (s.rounds coin) s =
          s.takeMany coin (min (coinsIn nValueTarget)
            (coinsIn (s.nRemainingValue - 0) / denomValue coin)) := by
    intro s coin hbound
    rw [Int.sub_zero] at hbound ⊢
    have hdiv := Nat.div_le_self (coinsIn s.nRemainingValue) (denomValue coin)
    rw [Nat.min_eq_right (by omega)]
    refine takeLoop_eq (by rw [s.rounds_eq]; omega) fun i => ?_
    rw [decide_eq_true_iff, ge_takeMany_iff]
  have h := took_greedy (fun s coin _ hbound => hstep s coin hbound) denomsDown
    { nRemainingValue := nValueTarget } denoms_chain.nodup (fun _ _ => rfl)
    (by rw [Int.sub_zero])
  rw [Int.sub_zero] at h
  exact ⟨_, rfl, h⟩

/-- The unused mints of a denomination. -/
def mintCount (listMints : List CMintMeta) (denom : CoinDenomination) : Nat :=
  listMints.countP fun mint => !mint.isUsed && decide (mint.denom = denom)

/-- The loop over the mints takes every unused one of the denomination, as
long as it fits. -/
theorem idealSpendsLoop_eq (coin : CoinDenomination) :
    ∀ (listMints : List CMintMeta) (s : Taking),
      idealSpendsLoop coin listMints s = s.takeMany coin
        (min (mintCount listMints coin)
          (coinsIn s.nRemainingValue / denomValue coin)) := by
  intro listMints
  induction listMints with
  | nil =>
      intro s
      rw [mintCount, List.countP_nil, Nat.zero_min, s.takeMany_zero]
      rfl
  | cons mint mints ih =>
      intro s
      have hfits := ge_takeMany_iff s coin 0
      rw [s.takeMany_zero] at hfits
      rw [idealSpendsLoop, mintCount, List.countP_cons, ← mintCount]
      cases mint.isUsed with
      | true =>
          simp only [if_true, Bool.not_true, Bool.false_and,
            Bool.false_eq_true, if_false, Nat.add_zero]
          exact ih s
      | false =>
          simp only [Bool.not_false, Bool.true_and, Bool.false_eq_true,
            if_false, decide_eq_true_eq]
          by_cases hroom : 0 < coinsIn s.nRemainingValue / denomValue coin
          · have hge := hfits.mpr hroom
            by_cases hdenom : coin = mint.denom
            · -- a coin that fits is taken, and the loop may end with it
              have hleft : coinsIn (s.take coin).nRemainingValue /
                  denomValue coin =
                    coinsIn s.nRemainingValue / denomValue coin - 1 := by
                rw [Taking.take, amount_eq, coinsIn_sub]
                have h := Nat.sub_mul_div (coinsIn s.nRemainingValue)
                  (denomValue coin) 1
                rwa [Nat.mul_one] at h
              have hmore := ge_takeMany_iff (s.take coin) coin 0
              rw [(s.take coin).takeMany_zero, hleft] at hmore
              have htaken : (if s.nRemainingValue ≥
                  zerocoinDenominationToAmount coin ∧ coin = mint.denom then
                    s.take coin else s) = s.take coin :=
                if_pos ⟨hge, hdenom⟩
              rw [htaken, if_pos hdenom.symm]
              split
              · next hstop =>
                  have hone : min (mintCount mints coin + 1)
                      (coinsIn s.nRemainingValue / denomValue coin) = 0 + 1 := by
                    have : ¬ 0 < coinsIn s.nRemainingValue /
                        denomValue coin - 1 :=
                      fun h => absurd (hmore.mpr h) (Int.not_le.mpr hstop)
                    omega
                  rw [hone, ← s.takeMany_take coin 0, Taking.takeMany_zero]
              · rw [ih, s.takeMany_take, hleft]
                congr 1
                omega
            · have hother : (if s.nRemainingValue ≥
                  zerocoinDenominationToAmount coin ∧ coin = mint.denom then
                    s.take coin else s) = s :=
                if_neg fun h => hdenom h.2
              rw [hother, if_neg (Int.not_lt.mpr hge),
                if_neg (fun h => hdenom h.symm), ih, Nat.add_zero]
          · have hlt : s.nRemainingValue < zerocoinDenominationToAmount coin :=
              Int.not_le.mp fun h => hroom (hfits.mp h)
            have hfull : (if s.nRemainingValue ≥
                zerocoinDenominationToAmount coin ∧ coin = mint.denom then
                  s.take coin else s) = s :=
              if_neg fun h => hroom (hfits.mp h.1)
            rw [hfull, if_pos hlt, Nat.le_zero.mp (Nat.not_lt.mp hroom), Nat.min_zero,
              s.takeMany_zero]

theorem getIdealSpends_took (nValueTarget : Int) (listMints : List CMintMeta) :
    ∃ s : Taking, getIdealSpends nValueTarget listMints =
        (s.nRemainingValue == 0, s.mapOfDenomsUsed) ∧
      Taking.Took denomsDown
        (Greedy.greedy denomValue (mintCount listMints) denomsDown
          (coinsIn nValueTarget))
        { nRemainingValue := nValueTarget } s := by
  have hstep : ∀ (s : Taking) (coin : CoinDenomination),
      idealSpendsLoop coin listMints s = s.takeMany coin
        (min (mintCount listMints coin)
          (coinsIn (s.nRemainingValue - 0) / denomValue coin)) := by
    intro s coin
    rw [Int.sub_zero]
    exact idealSpendsLoop_eq coin listMints s
  have h := took_greedy (fun s coin _ _ => hstep s coin) denomsDown
    { nRemainingValue := nValueTarget } denoms_chain.nodup (fun _ _ => rfl)
    (Nat.le_refl _)
  rw [Int.sub_zero] at h
  exact ⟨_, rfl, h⟩

/-! ## Exact payments -/

/-- The mints that may be spent. -/
def unusedMints (listMints : List CMintMeta) : List CMintMeta :=
  listMints.filter fun mint => !mint.isUsed

/-- The sum of the denominations of some mints. -/
def mintsValue (mints : List CMintMeta) : Int :=
  (mints.map fun mint => zerocoinDenominationToAmount mint.denom).sum

/-- The sum of the denominations of the coins in a map. -/
def mapValue (mapOfDenoms : DenomMap) : Int :=
  (zerocoinDenomList.map fun denom =>
    mapOfDenoms denom * zerocoinDenominationToAmount denom).sum

theorem mintCount_eq (listMints : List CMintMeta) (denom : CoinDenomination) :
    mintCount listMints denom =
      Greedy.countOf CMintMeta.denom (unusedMints listMints) denom := by
  rw [mintCount, Greedy.countOf, unusedMints, List.countP_filter]
  exact List.countP_congr fun mint _ => by rw [Bool.and_comm]

theorem mapValue_eq {mapOfDenoms : DenomMap} {f : CoinDenomination → Nat}
    (h : ∀ denom, mapOfDenoms denom = f denom) :
    mapValue mapOfDenoms = COIN * Greedy.worth denomValue denomsDown f := by
  simp only [mapValue, zerocoinDenomList, denomsDown, List.map_cons,
    List.map_nil, List.sum_cons, List.sum_nil, List.reverse_cons,
    List.reverse_nil, List.nil_append, List.cons_append, Greedy.worth_cons,
    Greedy.worth_nil, h, amount_eq]
  push_cast
  ring

theorem getNumberOfCoinsUsed_eq {mapOfDenoms : DenomMap}
    {f : CoinDenomination → Nat} (h : ∀ denom, mapOfDenoms denom = f denom) :
    getNumberOfCoinsUsed mapOfDenoms = Greedy.size denomsDown f := by
  simp only [getNumberOfCoinsUsed, zerocoinDenomList, denomsDown,
    List.foldl_cons, List.foldl_nil, List.reverse_cons, List.reverse_nil,
    List.nil_append, List.cons_append, Greedy.size_cons, Greedy.size_nil, h]
  push_cast
  ring

/-- The coins of a search that starts with nothing. -/
theorem Taking.Took.map_eq {g : CoinDenomination → Nat} {nValue : Int}
    {s : Taking}
    (h : Taking.Took denomsDown g { nRemainingValue := nValue } s)
    (denom : CoinDenomination) : s.mapOfDenomsUsed denom = g denom := by
  rw [h.used, if_pos (mem_denomsDown denom), Int.zero_add]

theorem mintsValue_eq (mints : List CMintMeta) :
    mintsValue mints = COIN * Greedy.worth denomValue denomsDown
      (Greedy.countOf CMintMeta.denom mints) := by
  rw [Greedy.worth_countOf denoms_chain.nodup fun mint _ =>
    mem_denomsDown mint.denom]
  induction mints with
  | nil => rfl
  | cons mint mints ih =>
      rw [mintsValue, List.map_cons, List.sum_cons, ← mintsValue, ih,
        List.map_cons, List.sum_cons, amount_eq]
      push_cast
      ring

/-- An exact payment, with the fewest coins of all. -/
structure PaysWithFewest (mapOfDenoms : DenomMap) (nValueTarget : Int) :
    Prop where
  nonneg : ∀ denom, 0 ≤ mapOfDenoms denom
  exact : mapValue mapOfDenoms = nValueTarget
  fewest : ∀ other : DenomMap, (∀ denom, 0 ≤ other denom) →
    mapValue other = nValueTarget →
    getNumberOfCoinsUsed mapOfDenoms ≤ getNumberOfCoinsUsed other

theorem coinsIn_coins (n : Nat) : coinsIn (COIN * n) = n := by
  rw [coinsIn, COIN]
  omega

/-- One denomination of a payment is not worth more than all of it. -/
theorem mul_denomValue_le (f : CoinDenomination → Nat)
    (denom : CoinDenomination) :
    f denom * denomValue denom ≤ Greedy.worth denomValue denomsDown f :=
  List.single_le_sum (fun _ _ => Nat.zero_le _) _
    (List.mem_map_of_mem (mem_denomsDown denom))

/-- A greedy payment from enough coins of every denomination. -/
theorem paysWithFewest_greedy {mapOfDenoms : DenomMap} {n : Nat}
    {held : CoinDenomination → Nat}
    (hheld : ∀ denom, n / denomValue denom ≤ held denom)
    (hmap : ∀ denom, mapOfDenoms denom =
      (Greedy.greedy denomValue held denomsDown n denom : Nat)) :
    PaysWithFewest mapOfDenoms (COIN * n) := by
  have hwithin : ∀ f : CoinDenomination → Nat,
      Greedy.worth denomValue denomsDown f = n →
      Greedy.Within held denomsDown f := by
    intro f hf denom _
    have hone := mul_denomValue_le f denom
    rw [hf, ← Nat.le_div_iff_mul_le (denomValue_pos denom)] at hone
    exact Nat.le_trans hone (hheld denom)
  have hones : Greedy.worth denomValue denomsDown
      (Function.update (fun _ => 0) .ZQ_ONE n) = n := by
    rw [Greedy.worth_single denoms_chain.nodup (mem_denomsDown _)]
    exact Nat.mul_one n
  constructor
  · intro denom
    rw [hmap]
    exact Int.natCast_nonneg _
  · rw [mapValue_eq hmap,
      (Greedy.worth_greedy denoms_chain (hwithin _ hones) hones).1]
  · intro other hother hvalue
    have hnat : ∀ denom, other denom = (heldOf other denom : Nat) :=
      fun denom => (Int.toNat_of_nonneg (hother denom)).symm
    rw [mapValue_eq hnat, COIN] at hvalue
    have hworth : Greedy.worth denomValue denomsDown (heldOf other) = n := by
      omega
    rw [getNumberOfCoinsUsed_eq hmap, getNumberOfCoinsUsed_eq hnat]
    exact Int.ofNat_le.mpr
      (Greedy.worth_greedy denoms_chain (hwithin _ hworth) hworth).2

/-- `getIdealSpends` meets an amount exactly when some unused mints have it as
their sum. -/
theorem getIdealSpends_iff (nValueTarget : Int) (listMints : List CMintMeta) :
    (getIdealSpends nValueTarget listMints).1 = true ↔
      ∃ mints, mints.Sublist (unusedMints listMints) ∧
        mintsValue mints = nValueTarget := by
  obtain ⟨s, hs, htook⟩ := getIdealSpends_took nValueTarget listMints
  rw [hs, beq_iff_eq, htook.remaining]
  constructor
  · intro hzero
    have hwithin : ∀ denom,
        Greedy.greedy denomValue (mintCount listMints) denomsDown
          (coinsIn nValueTarget) denom ≤
            Greedy.countOf CMintMeta.denom (unusedMints listMints) denom := by
      intro denom
      rw [← mintCount_eq]
      exact Greedy.greedy_within denoms_chain _ denom (mem_denomsDown denom)
    obtain ⟨mints, hsub, hcount⟩ := Greedy.exists_sublist hwithin
    refine ⟨mints, hsub, ?_⟩
    rw [mintsValue_eq, Greedy.worth_congr fun denom _ => hcount denom]
    exact (Int.sub_eq_zero.mp hzero).symm
  · rintro ⟨mints, hsub, rfl⟩
    have hwithin : Greedy.Within (mintCount listMints) denomsDown
        (Greedy.countOf CMintMeta.denom mints) := by
      intro denom _
      rw [mintCount_eq]
      exact Greedy.countOf_sublist hsub denom
    rw [mintsValue_eq, coinsIn_coins,
      (Greedy.worth_greedy denoms_chain hwithin rfl).1, Int.sub_self]

/-- **Payments in dividing denominations.**  Whether a target can be met with
the unused mints is decided by one greedy pass over them, and payments of
whole coins that are not short of any denomination, like change, are exact
and use the fewest coins. -/
theorem idealSpends_spendCoins_exact :
    (∀ (nValueTarget : Int) (listMints : List CMintMeta),
      (getIdealSpends nValueTarget listMints).1 = true ↔
        ∃ mints, mints.Sublist (unusedMints listMints) ∧
          mintsValue mints = nValueTarget) ∧
    (∀ (n : Nat) (mapOfDenomsHeld : DenomMap),
      (∀ denom, ((n / denomValue denom : Nat) : Int) ≤
        mapOfDenomsHeld denom) →
      PaysWithFewest (getSpendCoins (COIN * n) mapOfDenomsHeld)
        (COIN * n)) ∧
    ∀ n : Nat, PaysWithFewest (getChange (COIN * n)) (COIN * n) := by
  refine ⟨getIdealSpends_iff, ?_, ?_⟩
  · intro n held hheld
    obtain ⟨s, hs, htook⟩ := getSpendCoins_took (COIN * n) held
    rw [coinsIn_coins] at htook
    rw [hs]
    refine paysWithFewest_greedy (fun denom => ?_) htook.map_eq
    have hdenom := hheld denom
    rw [heldOf]
    omega
  · intro n
    obtain ⟨s, hs, htook⟩ := getChange_took (COIN * n)
    rw [coinsIn_coins] at htook
    rw [hs]
    exact paysWithFewest_greedy (fun denom => Nat.div_le_self n _)
      htook.map_eq

theorem spendCoins_exact_twentySix :
    PaysWithFewest (getSpendCoins (COIN * (26 : Nat)) fun _ => 26)
      (COIN * (26 : Nat)) :=
  idealSpends_spendCoins_exact.2.1 26 (fun _ => 26) fun denom => by
    cases denom <;> decide

end Agrarian.Zerocoin
