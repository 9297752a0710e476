import Agrarian.Lib.Flags
import Agrarian.Lib.Selection
import Agrarian.Validation.BlockPayee

/-!
# Coins for a payment

`CWallet::SelectCoinsMinConf` of `wallet.cpp` with `ApproximateBestSubset`.  The outputs are
shuffled and sorted, and tried without the denominated ones first; one that is exact, all the
small ones, the smallest larger one or a subset of the small ones is selected.  The subset is
searched for with random draws, which here are any numbers.
-/

namespace Agrarian.Wallet

open Agrarian.Lib Agrarian.Validation

/-! ## Outputs -/

/-- A transaction of the wallet, and whether it spends from the wallet. -/
structure CWalletTx where
  hash : Uint256
  vout : List CTxOut
  isFromMe : Bool
  deriving DecidableEq, Repr

/-- `pair<const CWalletTx*, unsigned int>`. -/
abbrev OutPtr := CWalletTx × Nat

/-- The value of an output. -/
def OutPtr.nValue (out : OutPtr) : Int := (out.1.vout[out.2]?).elim 0 CTxOut.nValue

structure COutput where
  tx : CWalletTx
  i : Nat
  nDepth : Int
  fSpendable : Bool
  inTx : i < tx.vout.length

namespace COutput

def out (output : COutput) : OutPtr := (output.tx, output.i)

def nValue (output : COutput) : Int := (output.tx.vout.get ⟨output.i, output.inTx⟩).nValue

theorem nValue_out (output : COutput) : output.out.nValue = output.nValue := by
  rw [OutPtr.nValue, out, List.getElem?_eq_getElem output.inTx]
  rfl

/-- Spendable, and deep enough for a transaction of this wallet or of others. -/
def eligible (nConfMine nConfTheirs : Int) (output : COutput) : Bool :=
  output.fSpendable &&
    !decide (output.nDepth < if output.tx.isFromMe then nConfMine else nConfTheirs)

end COutput

/-- Outputs that are listed once.  They are unspent at the same time, so that their values, which
are not negative, do not add up to more than a number of 64 bits. -/
structure CoinList where
  vCoins : List COutput
  distinct : (vCoins.map COutput.out).Nodup
  nonneg : ∀ output ∈ vCoins, 0 ≤ output.nValue
  fits : FitsInt64 ((vCoins.map COutput.nValue).sum + CENT)

/-- The list in another order. -/
def CoinList.reorder (coins : CoinList) {vCoins : List COutput}
    (h : vCoins.Perm coins.vCoins) : CoinList where
  vCoins := vCoins
  distinct := (h.map COutput.out).nodup_iff.mpr coins.distinct
  nonneg output houtput := coins.nonneg output (h.mem_iff.mp houtput)
  fits := by
    rw [(h.map COutput.nValue).sum_eq]
    exact coins.fits

/-- A value with its output. -/
abbrev Coin := Int × OutPtr

def COutput.coin (output : COutput) : Coin := (output.nValue, output.out)

/-! ## The subset -/

/-- The flags of the best subset so far, and its sum. -/
structure Subset where
  vfBest : List Bool
  nBest : Int

/-- One repetition of the search. -/
structure Trial where
  nTotal : Int
  vfIncluded : List Bool
  fReachedTarget : Bool
  best : Subset

section Search

variable (vValue : List Coin) (nTargetValue : Int)

/-- In the first pass a coin is included at random, in the second one if it is not yet. -/
def includes (draw : Nat → Bool) (nPass : Nat) (vfIncluded : List Bool) (i : Nat) : Bool :=
  if nPass = 0 then draw i else vfIncluded[i]? = some false

/-- The body of the inner loop. -/
def tryCoin (draw : Nat → Bool) (nPass : Nat) (t : Trial) (i : Nat) : Trial :=
  match vValue[i]? with
  | none => t
  | some coin =>
      if includes draw nPass t.vfIncluded i then
        let nTotal := int64 (t.nTotal + coin.1)
        let vfIncluded := t.vfIncluded.set i true
        if nTargetValue ≤ nTotal then
          { nTotal := int64 (nTotal - coin.1)
            vfIncluded := vfIncluded.set i false
            fReachedTarget := true
            best := if nTotal < t.best.nBest then ⟨vfIncluded, nTotal⟩ else t.best }
        else { t with nTotal, vfIncluded }
      else t

def tryPass (draw : Nat → Bool) (nPass : Nat) (t : Trial) : Trial :=
  (List.range vValue.length).foldl (tryCoin vValue nTargetValue draw nPass) t

/-- The body of the outer loop. -/
def repetition (draw : Nat → Bool) (best : Subset) : Subset :=
  let t := tryPass vValue nTargetValue draw 0
    { nTotal := 0, vfIncluded := List.replicate vValue.length false, fReachedTarget := false, best }
  if t.fReachedTarget then t.best else (tryPass vValue nTargetValue draw 1 t).best

/-- The loop, from a repetition on. -/
def repeatFrom (draw : Nat → Nat → Bool) : Nat → Nat → Subset → Subset
  | 0, _, best => best
  | iterations + 1, nRep, best =>
      if best.nBest = nTargetValue then best
      else repeatFrom draw iterations (nRep + 1) (repetition vValue nTargetValue (draw nRep) best)

/-- `ApproximateBestSubset`; what is drawn depends on the repetition and the coin. -/
def approximateBestSubset (nTotalLower : Int) (draw : Nat → Nat → Bool) (iterations : Nat) :
    Subset :=
  repeatFrom vValue nTargetValue draw iterations 0
    ⟨List.replicate vValue.length true, nTotalLower⟩

end Search

/-! ## The selection -/

def lessThenDenom (denominations : List Int) (out1 out2 : COutput) : Bool :=
  !denominations.contains out1.nValue && denominations.contains out2.nValue

def compareValueOnly (t1 t2 : Coin) : Bool := t1.1 < t2.1

/-- What the selection depends on: the denominations, the sorts and what is drawn. -/
structure Selector where
  obfuScationDenominations : List Int
  randomShuffle : List COutput → List COutput
  shuffle_perm : ∀ vCoins, (randomShuffle vCoins).Perm vCoins
  byDenom : StdSort (lessThenDenom obfuScationDenominations)
  byValue : StdSort compareValueOnly
  /-- For the target, and for the target and a cent. -/
  draw : Nat → Nat → Bool
  drawCent : Nat → Nat → Bool

/-- What is returned, with `setCoinsRet` and `nValueRet`. -/
structure Selected where
  fSuccess : Bool
  setCoinsRet : List OutPtr
  nValueRet : Int

namespace Selected

def failed : Selected := ⟨false, [], 0⟩

/-- Inserts the coin into the set, and adds its value. -/
def add (r : Selected) (coin : Coin) : Selected :=
  { r with
    setCoinsRet := r.setCoinsRet.insert coin.2
    nValueRet := int64 (r.nValueRet + coin.1) }

def ofCoins (coins : List Coin) : Selected := coins.foldl add ⟨true, [], 0⟩

end Selected

/-- The small coins and the smallest larger one. -/
structure Scan where
  vValue : List Coin
  nTotalLower : Int
  coinLowestLarger : Option Coin

/-- `coinLowestLarger.first`, which is the largest `CAmount` at first. -/
def Scan.lowest (s : Scan) : Int := s.coinLowestLarger.elim (2 ^ 63 - 1) Prod.fst

/-- How a run through the loop over `tryDenom` ends. -/
inductive Outcome
  | ret (r : Selected)
  | next (s : Scan)
  | search (s : Scan)

namespace Selector

variable (env : Selector)

def isDenominatedAmount (nInputAmount : Int) : Bool :=
  env.obfuScationDenominations.contains nInputAmount

/-- The loop over the outputs, which stops at an exact one. -/
def scanCoins (nTargetValue nConfMine nConfTheirs : Int) (tryDenom : Nat) :
    List COutput → Scan → Except Coin Scan
  | [], s => .ok s
  | output :: rest, s =>
      if !output.fSpendable then scanCoins nTargetValue nConfMine nConfTheirs tryDenom rest s
      else if output.nDepth < (if output.tx.isFromMe then nConfMine else nConfTheirs) then
        scanCoins nTargetValue nConfMine nConfTheirs tryDenom rest s
      else
        let n := output.nValue
        if tryDenom = 0 ∧ env.isDenominatedAmount n then
          scanCoins nTargetValue nConfMine nConfTheirs tryDenom rest s
        else if n = nTargetValue then .error output.coin
        else if n < int64 (nTargetValue + CENT) then
          scanCoins nTargetValue nConfMine nConfTheirs tryDenom rest
            { s with
              vValue := s.vValue ++ [output.coin]
              nTotalLower := int64 (s.nTotalLower + n) }
        else if n < s.lowest then
          scanCoins nTargetValue nConfMine nConfTheirs tryDenom rest
            { s with coinLowestLarger := some output.coin }
        else scanCoins nTargetValue nConfMine nConfTheirs tryDenom rest s

/-- The body of the loop over `tryDenom`. -/
def tryDenoms (nTargetValue nConfMine nConfTheirs : Int) (vCoins : List COutput) (tryDenom : Nat)
    (coinLowestLarger : Option Coin) : Outcome :=
  match env.scanCoins nTargetValue nConfMine nConfTheirs tryDenom vCoins
      ⟨[], 0, coinLowestLarger⟩ with
  | .error coin => .ret (Selected.ofCoins [coin])
  | .ok s =>
      if s.nTotalLower = nTargetValue then .ret (Selected.ofCoins s.vValue)
      else if s.nTotalLower < nTargetValue then
        match s.coinLowestLarger with
        | none => if tryDenom = 0 then .next s else .ret Selected.failed
        | some coin => .ret (Selected.ofCoins [coin])
      else .search s

/-- The search for the target, and if it is not hit, for a cent more. -/
def bestSubset (nTargetValue : Int) (vValue : List Coin) (nTotalLower : Int) : Subset :=
  let best := approximateBestSubset vValue nTargetValue nTotalLower env.draw 1000
  if best.nBest ≠ nTargetValue ∧ int64 (nTargetValue + CENT) ≤ nTotalLower then
    approximateBestSubset vValue (int64 (nTargetValue + CENT)) nTotalLower env.drawCent 1000
  else best

/-- What comes after the loop. -/
def solve (nTargetValue : Int) (s : Scan) : Selected :=
  let vValue := (env.byValue.sort s.vValue.reverse).reverse
  let best := env.bestSubset nTargetValue vValue s.nTotalLower
  match s.coinLowestLarger with
  | some coin =>
      if best.nBest ≠ nTargetValue ∧ best.nBest < int64 (nTargetValue + CENT) ∨
          coin.1 ≤ best.nBest then
        Selected.ofCoins [coin]
      else Selected.ofCoins (chosen best.vfBest vValue)
  | none => Selected.ofCoins (chosen best.vfBest vValue)

/-- The loop over `tryDenom`. -/
def trySorted (nTargetValue nConfMine nConfTheirs : Int) (vCoins : List COutput) : Selected :=
  match env.tryDenoms nTargetValue nConfMine nConfTheirs vCoins 0 none with
  | .ret r => r
  | .search s => env.solve nTargetValue s
  | .next s =>
      match env.tryDenoms nTargetValue nConfMine nConfTheirs vCoins 1 s.coinLowestLarger with
      | .ret r => r
      | .search s | .next s => env.solve nTargetValue s

def selectCoinsMinConf (nTargetValue nConfMine nConfTheirs : Int) (vCoins : List COutput) :
    Selected :=
  env.trySorted nTargetValue nConfMine nConfTheirs (env.byDenom.sort (env.randomShuffle vCoins))

end Selector

/-! ## The search keeps the flags and the sum in step -/

/-- What coins are worth together. -/
def total (coins : List Coin) : Int := (coins.map Prod.fst).sum

theorem total_perm {coins coins' : List Coin} (h : coins.Perm coins') :
    total coins = total coins' := (h.map Prod.fst).sum_eq

theorem total_append (coins coins' : List Coin) :
    total (coins ++ coins') = total coins + total coins' := by
  rw [total, List.map_append, List.sum_append]
  rfl

section Search

variable {vValue : List Coin} {nTargetValue : Int}

/-- The sum is that of the coins with a flag, and reaches the target. -/
structure Subset.Reaches (vValue : List Coin) (nTargetValue : Int) (s : Subset) : Prop where
  sum : s.nBest = int64 (total (chosen s.vfBest vValue))
  enough : nTargetValue ≤ s.nBest

structure Trial.Inv (vValue : List Coin) (nTargetValue : Int) (t : Trial) : Prop where
  length : t.vfIncluded.length = vValue.length
  sum : t.nTotal = int64 (total (chosen t.vfIncluded vValue))
  best : t.best.Reaches vValue nTargetValue

variable {draw : Nat → Bool} {nPass : Nat} {t : Trial}

/-- A coin that is included has no flag yet: in the first pass, because those from it on have
none. -/
theorem tryCoin_inv {i : Nat} (h : t.Inv vValue nTargetValue)
    (hfirst : nPass = 0 → t.vfIncluded[i]? = some false) (hi : i < vValue.length) :
    (tryCoin vValue nTargetValue draw nPass t i).Inv vValue nTargetValue := by
  unfold tryCoin
  rw [List.getElem?_eq_getElem hi]
  dsimp only
  split
  · next hinclude =>
      have hflag : t.vfIncluded[i]? = some false := by
        unfold includes at hinclude
        split at hinclude
        · next hpass => exact hfirst hpass
        · exact of_decide_eq_true hinclude
      have hsum : int64 (t.nTotal + vValue[i].1) =
          int64 (total (chosen (t.vfIncluded.set i true) vValue)) := by
        have hperm := chosen_set_perm hflag (List.getElem?_eq_getElem hi)
        rw [total_perm hperm, h.sum, int64_add_left, Int.add_comm]
        rfl
      split
      · next hreach =>
          refine ⟨?_, ?_, ?_⟩
          · rw [List.length_set, List.length_set]
            exact h.length
          · show int64 (int64 (t.nTotal + vValue[i].1) - vValue[i].1) = _
            rw [set_set_self hflag, int64_sub_left, Int.add_sub_cancel, h.sum, int64_int64]
          · dsimp only
            split
            · exact ⟨hsum, hreach⟩
            · exact h.best
      · exact ⟨(List.length_set ..).trans h.length, hsum, h.best⟩
  · exact h

theorem tryCoin_flag {i j : Nat} (hne : j ≠ i) :
    (tryCoin vValue nTargetValue draw nPass t i).vfIncluded[j]? = t.vfIncluded[j]? := by
  unfold tryCoin
  split
  · rfl
  · split
    · dsimp only
      split
      · dsimp only
        rw [List.getElem?_set_ne hne.symm, List.getElem?_set_ne hne.symm]
      · dsimp only
        rw [List.getElem?_set_ne hne.symm]
    · rfl

theorem tryPass_inv (h : t.Inv vValue nTargetValue)
    (hfirst : nPass = 0 → ∀ i < vValue.length, t.vfIncluded[i]? = some false) :
    (tryPass vValue nTargetValue draw nPass t).Inv vValue nTargetValue := by
  -- the flags from the next coin on are untouched
  have hupTo : ∀ n ≤ vValue.length,
      ((List.range n).foldl (tryCoin vValue nTargetValue draw nPass) t).Inv vValue nTargetValue ∧
        ∀ j, n ≤ j →
          ((List.range n).foldl (tryCoin vValue nTargetValue draw nPass) t).vfIncluded[j]? =
            t.vfIncluded[j]? := by
    intro n hn
    induction n with
    | zero => exact ⟨h, fun j _ => rfl⟩
    | succ n ih =>
        obtain ⟨hinv, hflags⟩ := ih (Nat.le_of_succ_le hn)
        rw [List.range_succ, List.foldl_append]
        refine ⟨tryCoin_inv hinv (fun hpass => ?_) hn, fun j hj => ?_⟩
        · rw [hflags n (Nat.le_refl n)]
          exact hfirst hpass n hn
        · exact (tryCoin_flag (Nat.ne_of_gt hj)).trans (hflags j (Nat.le_of_succ_le hj))
  exact (hupTo vValue.length (Nat.le_refl _)).1

theorem repetition_reaches {best : Subset} (h : best.Reaches vValue nTargetValue) :
    (repetition vValue nTargetValue draw best).Reaches vValue nTargetValue := by
  have hfirst : (tryPass vValue nTargetValue draw 0
      { nTotal := 0
        vfIncluded := List.replicate vValue.length false
        fReachedTarget := false
        best }).Inv vValue nTargetValue := by
    refine tryPass_inv ⟨List.length_replicate, ?_, h⟩ fun _ i hi => ?_
    · dsimp only
      rw [chosen_replicate_false]
      rfl
    · exact List.getElem?_replicate_of_lt hi
  unfold repetition
  dsimp only
  split
  · exact hfirst.best
  · exact (tryPass_inv hfirst fun hpass => absurd hpass Nat.one_ne_zero).best

theorem repeatFrom_reaches {draw : Nat → Nat → Bool} {best : Subset} (iterations nRep : Nat)
    (h : best.Reaches vValue nTargetValue) :
    (repeatFrom vValue nTargetValue draw iterations nRep best).Reaches vValue nTargetValue := by
  induction iterations generalizing nRep best with
  | zero => exact h
  | succ iterations ih =>
      rw [repeatFrom]
      split
      · exact h
      · exact ih (nRep + 1) (repetition_reaches h)

/-- **The search** ends with a subset that reaches the target, if all coins do. -/
theorem approximateBestSubset_reaches {nTotalLower : Int} {draw : Nat → Nat → Bool}
    {iterations : Nat} (hsum : nTotalLower = int64 (total vValue))
    (henough : nTargetValue ≤ nTotalLower) :
    (approximateBestSubset vValue nTargetValue nTotalLower draw iterations).Reaches vValue
      nTargetValue := by
  refine repeatFrom_reaches iterations 0 ⟨?_, henough⟩
  dsimp only
  rw [chosen_replicate_true, hsum]

end Search

/-! ## What is selected -/

theorem ofCoins_eq {coins : List Coin} (h : (coins.map Prod.snd).Nodup) :
    Selected.ofCoins coins = ⟨true, (coins.map Prod.snd).reverse, int64 (total coins)⟩ := by
  induction coins using List.reverseRecOn with
  | nil => rfl
  | append_singleton coins coin ih =>
      rw [List.map_append, List.nodup_append] at h
      have hnew : coin.2 ∉ (coins.map Prod.snd).reverse := by
        rw [List.mem_reverse]
        exact fun hmem => h.2.2 coin.2 hmem coin.2 List.mem_cons_self rfl
      have hprefix := ih h.1
      have hone : total [coin] = coin.1 := by simp [total]
      unfold Selected.ofCoins at hprefix ⊢
      rw [List.foldl_append, hprefix, List.foldl_cons, List.foldl_nil, Selected.add]
      dsimp only
      rw [List.insert_of_not_mem hnew, int64_add_left, total_append, hone, List.map_append,
        List.reverse_append]
      rfl

/-- The coins of the outputs that may be spent. -/
def eligibleCoins (nConfMine nConfTheirs : Int) (vCoins : List COutput) : List Coin :=
  (vCoins.filter (COutput.eligible nConfMine nConfTheirs)).map COutput.coin

/-- A selection of distinct outputs that may be spent, with the sum of their values. -/
structure Selected.Pays (nTargetValue nConfMine nConfTheirs : Int) (vCoins : List COutput)
    (r : Selected) : Prop where
  distinct : r.setCoinsRet.Nodup
  eligible : ∀ out ∈ r.setCoinsRet, ∃ output ∈ vCoins, output.out = out ∧
    output.eligible nConfMine nConfTheirs = true
  exact : r.nValueRet = (r.setCoinsRet.map OutPtr.nValue).sum
  enough : nTargetValue ≤ r.nValueRet

section Coins

variable {coins : CoinList} {nTargetValue nConfMine nConfTheirs : Int} {l : List Coin}

theorem nodup_eligibleCoins :
    ((eligibleCoins nConfMine nConfTheirs coins.vCoins).map Prod.snd).Nodup := by
  rw [eligibleCoins, List.map_map]
  exact coins.distinct.sublist (List.filter_sublist.map _)

theorem nonneg_eligibleCoins :
    ∀ n ∈ (eligibleCoins nConfMine nConfTheirs coins.vCoins).map Prod.fst, 0 ≤ n := by
  rw [eligibleCoins, List.map_map]
  intro n hn
  obtain ⟨output, houtput, rfl⟩ := List.mem_map.mp hn
  exact coins.nonneg output (List.mem_filter.mp houtput).1

/-- Part of a list of values that are not negative. -/
theorem total_le_of_subperm {l' : List Coin} (hnonneg : ∀ n ∈ l'.map Prod.fst, 0 ≤ n)
    (h : l.Subperm l') : 0 ≤ total l ∧ total l ≤ total l' := by
  obtain ⟨part, hperm, hsub⟩ := h
  rw [← total_perm hperm]
  have hvalues := hsub.map Prod.fst
  exact ⟨List.sum_nonneg fun n hn => hnonneg n (hvalues.subset hn),
    hvalues.sum_le_sum hnonneg⟩

/-- Coins that may be spent, with a cent more, do not overflow. -/
theorem total_eligible_le (h : l.Subperm (eligibleCoins nConfMine nConfTheirs coins.vCoins)) :
    0 ≤ total l ∧ total l + CENT < 2 ^ 63 := by
  have hpart := total_le_of_subperm nonneg_eligibleCoins h
  have hall : total (eligibleCoins nConfMine nConfTheirs coins.vCoins) ≤
      (coins.vCoins.map COutput.nValue).sum := by
    rw [total, eligibleCoins, List.map_map]
    refine (List.filter_sublist.map _).sum_le_sum fun n hn => ?_
    obtain ⟨output, houtput, rfl⟩ := List.mem_map.mp hn
    exact coins.nonneg output houtput
  have hfits := coins.fits.2
  omega

theorem int64_total (h : l.Subperm (eligibleCoins nConfMine nConfTheirs coins.vCoins)) :
    int64 (total l) = total l := by
  have hbound := total_eligible_le h
  have hcent : CENT = 1000000 := rfl
  exact int64_eq_self ⟨by omega, by omega⟩

/-- Coins that may be spent and reach the target. -/
theorem pays_ofCoins (h : l.Subperm (eligibleCoins nConfMine nConfTheirs coins.vCoins))
    (henough : nTargetValue ≤ total l) :
    (Selected.ofCoins l).fSuccess = true ∧
      (Selected.ofCoins l).Pays nTargetValue nConfMine nConfTheirs coins.vCoins := by
  have hnodup : (l.map Prod.snd).Nodup := by
    obtain ⟨part, hperm, hsub⟩ := h
    rw [← (hperm.map Prod.snd).nodup_iff]
    exact nodup_eligibleCoins.sublist (hsub.map Prod.snd)
  have hmem : ∀ coin ∈ l, ∃ output ∈ coins.vCoins, output.coin = coin ∧
      output.eligible nConfMine nConfTheirs = true := by
    intro coin hcoin
    obtain ⟨output, houtput, rfl⟩ := List.mem_map.mp (h.subset hcoin)
    obtain ⟨hlisted, heligible⟩ := List.mem_filter.mp houtput
    exact ⟨output, hlisted, rfl, heligible⟩
  rw [ofCoins_eq hnodup, int64_total h]
  refine ⟨rfl, List.nodup_reverse.mpr hnodup, fun out hout => ?_, ?_, henough⟩
  · obtain ⟨coin, hcoin, rfl⟩ := List.mem_map.mp (List.mem_reverse.mp hout)
    obtain ⟨output, houtput, rfl, heligible⟩ := hmem coin hcoin
    exact ⟨output, houtput, rfl, heligible⟩
  · show total l = ((l.map Prod.snd).reverse.map OutPtr.nValue).sum
    rw [List.map_reverse, List.sum_reverse, List.map_map, total]
    refine congrArg List.sum (List.map_congr_left fun coin hcoin => ?_)
    obtain ⟨output, -, rfl, -⟩ := hmem coin hcoin
    exact output.nValue_out.symm

end Coins

/-! ## The loop over the outputs -/

namespace Selector

variable {env : Selector} {nTargetValue nConfMine nConfTheirs : Int} {tryDenom : Nat}

/-- The loop looks at the output: it may be spent, and is not denominated in the first run. -/
def considers (env : Selector) (nConfMine nConfTheirs : Int) (tryDenom : Nat)
    (output : COutput) : Bool :=
  output.eligible nConfMine nConfTheirs &&
    !(decide (tryDenom = 0) && env.isDenominatedAmount output.nValue)

theorem scanCoins_skip {output : COutput} {rest : List COutput} {s : Scan}
    (h : env.considers nConfMine nConfTheirs tryDenom output = false) :
    env.scanCoins nTargetValue nConfMine nConfTheirs tryDenom (output :: rest) s =
      env.scanCoins nTargetValue nConfMine nConfTheirs tryDenom rest s := by
  unfold considers COutput.eligible at h
  rw [scanCoins]
  by_cases hspendable : output.fSpendable = true
  · rw [if_neg (by simp [hspendable])]
    by_cases hdepth : output.nDepth < if output.tx.isFromMe then nConfMine else nConfTheirs
    · rw [if_pos hdepth]
    · rw [if_neg hdepth]
      dsimp only
      rw [if_pos]
      simpa [hspendable, hdepth] using h
  · rw [if_pos (by simpa using hspendable)]

theorem scanCoins_consider {output : COutput} {rest : List COutput} {s : Scan}
    (h : env.considers nConfMine nConfTheirs tryDenom output = true) :
    env.scanCoins nTargetValue nConfMine nConfTheirs tryDenom (output :: rest) s =
      if output.nValue = nTargetValue then .error output.coin
      else if output.nValue < int64 (nTargetValue + CENT) then
        env.scanCoins nTargetValue nConfMine nConfTheirs tryDenom rest
          { s with
            vValue := s.vValue ++ [output.coin]
            nTotalLower := int64 (s.nTotalLower + output.nValue) }
      else if output.nValue < s.lowest then
        env.scanCoins nTargetValue nConfMine nConfTheirs tryDenom rest
          { s with coinLowestLarger := some output.coin }
      else env.scanCoins nTargetValue nConfMine nConfTheirs tryDenom rest s := by
  unfold considers COutput.eligible at h
  rw [scanCoins]
  simp only [Bool.and_eq_true, Bool.not_eq_true', decide_eq_false_iff_not,
    Bool.and_eq_false_iff] at h
  obtain ⟨⟨hspendable, hdepth⟩, hdenom⟩ := h
  rw [if_neg (by simp [hspendable]), if_neg hdepth]
  dsimp only
  rw [if_neg]
  intro hboth
  rcases hdenom with hsecond | hother
  · exact hsecond hboth.1
  · rw [hother] at hboth
    exact Bool.false_ne_true hboth.2

/-- The coins that the loop looks at. -/
def consideredCoins (env : Selector) (nConfMine nConfTheirs : Int) (tryDenom : Nat)
    (vCoins : List COutput) : List Coin :=
  (vCoins.filter (env.considers nConfMine nConfTheirs tryDenom)).map COutput.coin

theorem consideredCoins_sublist {vCoins : List COutput} :
    (env.consideredCoins nConfMine nConfTheirs tryDenom vCoins).Sublist
      (eligibleCoins nConfMine nConfTheirs vCoins) := by
  refine List.Sublist.map _ (List.monotone_filter_right vCoins fun output h => ?_)
  exact (Bool.and_eq_true _ _ ▸ h).1

theorem consideredCoins_second {vCoins : List COutput} (h : tryDenom ≠ 0) :
    env.consideredCoins nConfMine nConfTheirs tryDenom vCoins =
      eligibleCoins nConfMine nConfTheirs vCoins := by
  refine congrArg (List.map _) (List.filter_congr fun output _ => ?_)
  simp [considers, h]

/-- A coin that is small for the target. -/
def isSmall (nTargetValue : Int) (coin : Coin) : Bool := coin.1 < int64 (nTargetValue + CENT)

/-- What the loop collects from coins none of which is exact. -/
structure Scanned (nTargetValue : Int) (considered : List Coin) (s s' : Scan) : Prop where
  small : s'.vValue = s.vValue ++ considered.filter (isSmall nTargetValue)
  sum : s'.nTotalLower = int64 (total s'.vValue)
  larger : ∀ coin, s'.coinLowestLarger = some coin → s.coinLowestLarger = some coin ∨
    coin ∈ considered ∧ isSmall nTargetValue coin = false
  none : s'.coinLowestLarger = none → s.coinLowestLarger = none ∧
    ∀ coin ∈ considered, isSmall nTargetValue coin = true ∨ 2 ^ 63 - 1 ≤ coin.1

/-- The result of the loop: an exact coin, or what it has collected. -/
def Collects (nTargetValue : Int) (considered : List Coin) (s : Scan) : Except Coin Scan → Prop
  | .error coin => coin ∈ considered ∧ coin.1 = nTargetValue
  | .ok s' => Scanned nTargetValue considered s s'

section Step

variable {coin : Coin} {considered : List Coin} {s s' : Scan}

theorem Scanned.consSmall {nTotalLower : Int}
    (h : Scanned nTargetValue considered
      { s with vValue := s.vValue ++ [coin], nTotalLower := nTotalLower } s')
    (hsmall : isSmall nTargetValue coin = true) :
    Scanned nTargetValue (coin :: considered) s s' where
  small := by
    rw [h.small, List.filter_cons_of_pos hsmall, List.append_assoc]
    rfl
  sum := h.sum
  larger other hother := (h.larger other hother).imp_right fun hin =>
    ⟨List.mem_cons_of_mem _ hin.1, hin.2⟩
  none hnone := ⟨(h.none hnone).1, List.forall_mem_cons.mpr ⟨Or.inl hsmall, (h.none hnone).2⟩⟩

theorem Scanned.consLower
    (h : Scanned nTargetValue considered { s with coinLowestLarger := some coin } s')
    (hlarge : isSmall nTargetValue coin = false) :
    Scanned nTargetValue (coin :: considered) s s' where
  small := by rw [h.small, List.filter_cons_of_neg (by simp [hlarge])]
  sum := h.sum
  larger other hother := by
    rcases h.larger other hother with hhere | hin
    · cases hhere
      exact Or.inr ⟨List.mem_cons_self, hlarge⟩
    · exact Or.inr ⟨List.mem_cons_of_mem _ hin.1, hin.2⟩
  none hnone := nomatch (h.none hnone).1

theorem Scanned.consHigher (h : Scanned nTargetValue considered s s')
    (hlarge : isSmall nTargetValue coin = false) (hlowest : s.lowest ≤ coin.1) :
    Scanned nTargetValue (coin :: considered) s s' where
  small := by rw [h.small, List.filter_cons_of_neg (by simp [hlarge])]
  sum := h.sum
  larger other hother := (h.larger other hother).imp_right fun hin =>
    ⟨List.mem_cons_of_mem _ hin.1, hin.2⟩
  none hnone := by
    obtain ⟨hbefore, hothers⟩ := h.none hnone
    have hlimit : s.lowest = 2 ^ 63 - 1 := by
      rw [Scan.lowest, hbefore]
      rfl
    rw [hlimit] at hlowest
    exact ⟨hbefore, List.forall_mem_cons.mpr ⟨Or.inr hlowest, hothers⟩⟩

theorem Collects.cons {r : Except Coin Scan} (h : Collects nTargetValue considered s r)
    (hok : ∀ s'', Scanned nTargetValue considered s s'' →
      Scanned nTargetValue (coin :: considered) s' s'') :
    Collects nTargetValue (coin :: considered) s' r := by
  cases r with
  | error exact => exact ⟨List.mem_cons_of_mem _ h.1, h.2⟩
  | ok s'' => exact hok s'' h

end Step

/-- **The loop over the outputs**, from any small coins whose sum is right. -/
theorem scanCoins_collects (vCoins : List COutput) (s : Scan)
    (hsum : s.nTotalLower = int64 (total s.vValue)) :
    Collects nTargetValue (env.consideredCoins nConfMine nConfTheirs tryDenom vCoins) s
      (env.scanCoins nTargetValue nConfMine nConfTheirs tryDenom vCoins s) := by
  induction vCoins generalizing s with
  | nil =>
      refine ⟨?_, hsum, fun coin h => Or.inl h, fun h => ⟨h, fun coin hcoin => nomatch hcoin⟩⟩
      exact (List.append_nil _).symm
  | cons output rest ih =>
      cases hconsiders : env.considers nConfMine nConfTheirs tryDenom output with
      | false =>
          have hcoins : env.consideredCoins nConfMine nConfTheirs tryDenom (output :: rest) =
              env.consideredCoins nConfMine nConfTheirs tryDenom rest := by
            rw [consideredCoins, List.filter_cons_of_neg (by simp [hconsiders])]
            rfl
          rw [scanCoins_skip hconsiders, hcoins]
          exact ih s hsum
      | true =>
          have hcoins : env.consideredCoins nConfMine nConfTheirs tryDenom (output :: rest) =
              output.coin :: env.consideredCoins nConfMine nConfTheirs tryDenom rest := by
            rw [consideredCoins, List.filter_cons_of_pos hconsiders]
            rfl
          rw [scanCoins_consider hconsiders, hcoins]
          split_ifs with hexact hsmall hlower
          · exact ⟨List.mem_cons_self, hexact⟩
          · have hadd : int64 (s.nTotalLower + output.nValue) =
                int64 (total (s.vValue ++ [output.coin])) := by
              rw [hsum, int64_add_left, total_append]
              simp [total, COutput.coin]
            refine Collects.cons (ih { s with
              vValue := s.vValue ++ [output.coin]
              nTotalLower := int64 (s.nTotalLower + output.nValue) } hadd) fun s'' h => ?_
            exact h.consSmall (decide_eq_true hsmall)
          · refine Collects.cons (ih { s with coinLowestLarger := some output.coin } hsum)
              fun s'' h => ?_
            exact h.consLower (decide_eq_false hsmall)
          · refine Collects.cons (ih s hsum) fun s'' h => ?_
            exact h.consHigher (decide_eq_false hsmall) (not_lt.mp hlower)

/-! ## The selection -/

section Selection

variable {coins : CoinList}

/-- Coins to search in: they may be spent, and are worth more than the target. -/
structure Searchable (nTargetValue nConfMine nConfTheirs : Int) (vCoins : List COutput)
    (s : Scan) : Prop where
  small : s.vValue.Subperm (eligibleCoins nConfMine nConfTheirs vCoins)
  sum : s.nTotalLower = int64 (total s.vValue)
  above : nTargetValue < s.nTotalLower
  larger : ∀ coin, s.coinLowestLarger = some coin →
    coin ∈ eligibleCoins nConfMine nConfTheirs vCoins ∧ nTargetValue ≤ coin.1

/-- The selection succeeds and pays, or fails because there is not enough. -/
def Selects (nTargetValue nConfMine nConfTheirs : Int) (vCoins : List COutput)
    (r : Selected) : Prop :=
  (r.fSuccess = true → r.Pays nTargetValue nConfMine nConfTheirs vCoins) ∧
    (r.fSuccess = false →
      total (eligibleCoins nConfMine nConfTheirs vCoins) < nTargetValue)

theorem selects_ofCoins {l : List Coin}
    (h : l.Subperm (eligibleCoins nConfMine nConfTheirs coins.vCoins))
    (henough : nTargetValue ≤ total l) :
    Selects nTargetValue nConfMine nConfTheirs coins.vCoins (Selected.ofCoins l) := by
  obtain ⟨hsuccess, hpays⟩ := pays_ofCoins h henough
  refine ⟨fun _ => hpays, fun hfailed => ?_⟩
  rw [hsuccess] at hfailed
  cases hfailed

theorem selects_one {coin : Coin}
    (h : coin ∈ eligibleCoins nConfMine nConfTheirs coins.vCoins) (henough : nTargetValue ≤ coin.1) :
    Selects nTargetValue nConfMine nConfTheirs coins.vCoins (Selected.ofCoins [coin]) := by
  refine selects_ofCoins (List.singleton_subperm_iff.mpr h) ?_
  simpa [total] using henough

/-- How a run through the loop may end. -/
def Ends (nTargetValue nConfMine nConfTheirs : Int) (vCoins : List COutput) (tryDenom : Nat) :
    Outcome → Prop
  | .ret r => Selects nTargetValue nConfMine nConfTheirs vCoins r
  | .next s => tryDenom = 0 ∧ s.coinLowestLarger = none
  | .search s => Searchable nTargetValue nConfMine nConfTheirs vCoins s

/-- One run through the loop, with no larger coin from the run before. -/
theorem tryDenoms_ends (hfit : FitsInt64 (nTargetValue + CENT)) :
    Ends nTargetValue nConfMine nConfTheirs coins.vCoins tryDenom
      (env.tryDenoms nTargetValue nConfMine nConfTheirs coins.vCoins tryDenom none) := by
  have hcollects : Collects nTargetValue
      (env.consideredCoins nConfMine nConfTheirs tryDenom coins.vCoins) ⟨[], 0, none⟩
      (env.scanCoins nTargetValue nConfMine nConfTheirs tryDenom coins.vCoins ⟨[], 0, none⟩) :=
    scanCoins_collects coins.vCoins _ rfl
  have hconsidered : (env.consideredCoins nConfMine nConfTheirs tryDenom coins.vCoins).Sublist
      (eligibleCoins nConfMine nConfTheirs coins.vCoins) := consideredCoins_sublist
  have hlimit : int64 (nTargetValue + CENT) = nTargetValue + CENT := int64_eq_self hfit
  have hcent : CENT = 1000000 := rfl
  have hlarge : ∀ coin, isSmall nTargetValue coin = false → nTargetValue ≤ coin.1 := by
    intro coin h
    have hge := not_lt.mp (of_decide_eq_false h)
    omega
  rw [tryDenoms]
  revert hcollects
  cases env.scanCoins nTargetValue nConfMine nConfTheirs tryDenom coins.vCoins ⟨[], 0, none⟩ with
  | error coin =>
      intro h
      exact selects_one (hconsidered.subset h.1) h.2.ge
  | ok s =>
      intro h
      have hsmall : s.vValue.Subperm (eligibleCoins nConfMine nConfTheirs coins.vCoins) := by
        rw [h.small, List.nil_append]
        exact (List.filter_sublist.trans hconsidered).subperm
      have hsum : s.nTotalLower = total s.vValue := h.sum.trans (int64_total hsmall)
      have hlarger : ∀ coin, s.coinLowestLarger = some coin →
          coin ∈ eligibleCoins nConfMine nConfTheirs coins.vCoins ∧ nTargetValue ≤ coin.1 := by
        intro coin hcoin
        have hin := (h.larger coin hcoin).resolve_left fun hnone => nomatch hnone
        exact ⟨hconsidered.subset hin.1, hlarge coin hin.2⟩
      dsimp only
      by_cases hexact : s.nTotalLower = nTargetValue
      · rw [if_pos hexact]
        exact selects_ofCoins hsmall (hsum ▸ hexact.ge)
      rw [if_neg hexact]
      by_cases hbelow : s.nTotalLower < nTargetValue
      · rw [if_pos hbelow]
        cases hlowest : s.coinLowestLarger with
        | some coin =>
            obtain ⟨hcoin, henough⟩ := hlarger coin hlowest
            exact selects_one hcoin henough
        | none =>
            by_cases hfirst : tryDenom = 0
            · dsimp only
              rw [if_pos hfirst]
              exact ⟨hfirst, hlowest⟩
            · dsimp only
              rw [if_neg hfirst]
              refine ⟨(fun hsuccess => nomatch hsuccess), fun _ => ?_⟩
              -- no coin is large, so that the small ones are all
              have hall : s.vValue = eligibleCoins nConfMine nConfTheirs coins.vCoins := by
                rw [h.small, List.nil_append, consideredCoins_second hfirst]
                refine List.filter_eq_self.mpr fun coin hcoin => ?_
                have hvalue := total_eligible_le (List.singleton_subperm_iff.mpr hcoin)
                have hone : total [coin] = coin.1 := by simp [total]
                rw [hone] at hvalue
                have hcase := (h.none hlowest).2 coin (by rwa [consideredCoins_second hfirst])
                refine hcase.resolve_right fun hmax => ?_
                omega
              rw [← hall, ← hsum]
              exact hbelow
      · rw [if_neg hbelow]
        exact ⟨hsmall, h.sum, by omega, hlarger⟩

theorem bestSubset_reaches {vValue : List Coin} {nTotalLower : Int}
    (hfit : FitsInt64 (nTargetValue + CENT)) (hsum : nTotalLower = int64 (total vValue))
    (henough : nTargetValue ≤ nTotalLower) :
    (env.bestSubset nTargetValue vValue nTotalLower).Reaches vValue nTargetValue := by
  unfold bestSubset
  dsimp only
  split
  · next hagain =>
      have hcents : (approximateBestSubset vValue (int64 (nTargetValue + CENT)) nTotalLower
          env.drawCent 1000).Reaches vValue (int64 (nTargetValue + CENT)) :=
        approximateBestSubset_reaches hsum hagain.2
      have hmore : nTargetValue ≤ int64 (nTargetValue + CENT) := by
        rw [int64_eq_self hfit]
        exact Int.le_add_of_nonneg_right (by decide)
      exact ⟨hcents.sum, hmore.trans hcents.enough⟩
  · exact approximateBestSubset_reaches hsum henough

/-- The subset, or the larger coin. -/
theorem solve_spec {s : Scan} (hfit : FitsInt64 (nTargetValue + CENT))
    (h : Searchable nTargetValue nConfMine nConfTheirs coins.vCoins s) :
    Selects nTargetValue nConfMine nConfTheirs coins.vCoins (env.solve nTargetValue s) := by
  have hperm : (env.byValue.sort s.vValue.reverse).reverse.Perm s.vValue :=
    (List.reverse_perm _).trans ((env.byValue.perm _).trans (List.reverse_perm _))
  have hsum : s.nTotalLower = int64 (total (env.byValue.sort s.vValue.reverse).reverse) := by
    rw [total_perm hperm, h.sum]
  have hpart : ∀ best : Subset,
      best.Reaches (env.byValue.sort s.vValue.reverse).reverse nTargetValue →
      Selects nTargetValue nConfMine nConfTheirs coins.vCoins
        (Selected.ofCoins (chosen best.vfBest (env.byValue.sort s.vValue.reverse).reverse)) := by
    intro best hbest
    have hsub : (chosen best.vfBest (env.byValue.sort s.vValue.reverse).reverse).Subperm
        (eligibleCoins nConfMine nConfTheirs coins.vCoins) :=
      ((chosen_sublist _ _).subperm.trans hperm.subperm).trans h.small
    refine selects_ofCoins hsub ?_
    rw [← int64_total hsub, ← hbest.sum]
    exact hbest.enough
  have hbest : (env.bestSubset nTargetValue (env.byValue.sort s.vValue.reverse).reverse
      s.nTotalLower).Reaches (env.byValue.sort s.vValue.reverse).reverse nTargetValue :=
    bestSubset_reaches hfit hsum h.above.le
  unfold solve
  dsimp only
  split
  · next coin hcoin =>
      split
      · exact selects_one (h.larger coin hcoin).1 (h.larger coin hcoin).2
      · exact hpart _ hbest
  · exact hpart _ hbest

theorem trySorted_selects (hfit : FitsInt64 (nTargetValue + CENT)) :
    Selects nTargetValue nConfMine nConfTheirs coins.vCoins
      (env.trySorted nTargetValue nConfMine nConfTheirs coins.vCoins) := by
  have hends : ∀ tryDenom, Ends nTargetValue nConfMine nConfTheirs coins.vCoins tryDenom
      (env.tryDenoms nTargetValue nConfMine nConfTheirs coins.vCoins tryDenom none) :=
    fun tryDenom => tryDenoms_ends hfit
  have hfirst := hends 0
  have hsecond := hends 1
  unfold trySorted
  cases hrun : env.tryDenoms nTargetValue nConfMine nConfTheirs coins.vCoins 0 none with
  | ret r =>
      rw [hrun] at hfirst
      exact hfirst
  | search s =>
      rw [hrun] at hfirst
      exact solve_spec hfit hfirst
  | next s =>
      rw [hrun] at hfirst
      dsimp only
      rw [hfirst.2]
      cases hagain : env.tryDenoms nTargetValue nConfMine nConfTheirs coins.vCoins 1 none with
      | ret r =>
          rw [hagain] at hsecond
          exact hsecond
      | search s =>
          rw [hagain] at hsecond
          exact solve_spec hfit hsecond
      | next s =>
          rw [hagain] at hsecond
          exact absurd hsecond.1 Nat.one_ne_zero

theorem Selects.perm {vCoins vCoins' : List COutput} {r : Selected}
    (h : Selects nTargetValue nConfMine nConfTheirs vCoins r) (hperm : vCoins.Perm vCoins') :
    Selects nTargetValue nConfMine nConfTheirs vCoins' r := by
  refine ⟨fun hsuccess => ?_, fun hfailed => ?_⟩
  · have hpays := h.1 hsuccess
    refine ⟨hpays.distinct, fun out hout => ?_, hpays.exact, hpays.enough⟩
    obtain ⟨output, houtput, hsame⟩ := hpays.eligible out hout
    exact ⟨output, hperm.mem_iff.mp houtput, hsame⟩
  · have hcoins : (eligibleCoins nConfMine nConfTheirs vCoins).Perm
        (eligibleCoins nConfMine nConfTheirs vCoins') := (hperm.filter _).map COutput.coin
    rw [← total_perm hcoins]
    exact h.2 hfailed

end Selection

end Selector

/-- **`SelectCoinsMinConf`**, for any outputs, confirmations and random draws: what is selected
are distinct outputs that may be spent and reach the target, and `nValueRet` is their sum;
nothing is selected just if all that may be spent is less than the target. -/
theorem selectCoinsMinConf_spec (env : Selector) (coins : CoinList)
    (nTargetValue nConfMine nConfTheirs : Int) (hfit : FitsInt64 (nTargetValue + CENT)) :
    Selector.Selects nTargetValue nConfMine nConfTheirs coins.vCoins
      (env.selectCoinsMinConf nTargetValue nConfMine nConfTheirs coins.vCoins) := by
  have hperm : (env.byDenom.sort (env.randomShuffle coins.vCoins)).Perm coins.vCoins :=
    (env.byDenom.perm _).trans (env.shuffle_perm _)
  refine Selector.Selects.perm ?_ hperm
  have hsorted : Selector.Selects nTargetValue nConfMine nConfTheirs
      (coins.reorder hperm).vCoins (env.selectCoinsMinConf nTargetValue nConfMine nConfTheirs
        coins.vCoins) := Selector.trySorted_selects hfit
  exact hsorted

section Example

/-- A transaction with three outputs of 3, 4 and 5 cents. -/
def threeCoinsTx : CWalletTx where
  hash := 1
  vout := [⟨3 * CENT, [], -10⟩, ⟨4 * CENT, [], -10⟩, ⟨5 * CENT, [], -10⟩]
  isFromMe := false

def threeCoins : CoinList where
  vCoins := [⟨threeCoinsTx, 0, 6, true, by decide⟩, ⟨threeCoinsTx, 1, 6, true, by decide⟩,
    ⟨threeCoinsTx, 2, 6, true, by decide⟩]
  distinct := by decide
  nonneg := by decide
  fits := by decide

/-- A selector that leaves out the largest coin in its first try. -/
def leaveLargest : Selector where
  obfuScationDenominations := []
  randomShuffle := id
  shuffle_perm _ := List.Perm.refl _
  byDenom := stableSort _ (by simp [lessThenDenom]) (by simp [lessThenDenom])
  byValue := stableSort compareValueOnly
    (by
      intro a b
      simp only [compareValueOnly, decide_eq_false_iff_not, not_lt]
      exact le_total _ _)
    (by
      intro a b c
      simp only [compareValueOnly, decide_eq_false_iff_not, not_lt]
      exact le_trans)
  draw _ i := i ≠ 0
  drawCent _ _ := false

/-- The two smaller coins are exact. -/
theorem selectCoinsMinConf_spec_three :
    (leaveLargest.selectCoinsMinConf (7 * CENT) 1 6 threeCoins.vCoins).Pays (7 * CENT) 1 6
        threeCoins.vCoins ∧
      (leaveLargest.selectCoinsMinConf (7 * CENT) 1 6 threeCoins.vCoins).nValueRet = 7 * CENT :=
  ⟨(selectCoinsMinConf_spec leaveLargest threeCoins (7 * CENT) 1 6 (by decide)).1
    (by decide +kernel), by decide +kernel⟩

end Example

end Agrarian.Wallet
