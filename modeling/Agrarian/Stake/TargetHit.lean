import Agrarian.Arith.Compact
import Agrarian.Stake.Kernel

/-!
# Stakes and the target

A stake hits when its hash is below the target of its block times its weight,
a hundredth of the staked amount.  The product is one of 256-bit words: from
the first weight on whose product does not fit, a larger stake may miss what a
smaller one hits.
-/

namespace Agrarian.Stake

/-- The check decodes the target as `SetCompact` does. -/
theorem setCompact_eq (nCompact : UInt32) :
    setCompact nCompact = (Uint256.setCompact nCompact).bn := by
  have hsize : (nCompact >>> 24).toNat = Uint256.compactSize nCompact := by
    rw [UInt32.toNat_shiftRight, Uint256.compactSize]
    rfl
  have hword : (nCompact &&& 0x007fffff).toNat = nCompact.toNat &&& 0x007fffff := by
    rw [UInt32.toNat_and]
    rfl
  simp only [setCompact, Uint256.setCompact, hsize, hword, Uint256.compactWord,
    Uint256.shiftLeft_eq]
  split
  · rfl
  · rfl

/-- `bnCoinDayWeight`. -/
def coinDayWeight (nValueIn : Int) : Uint256 := (BitVec.ofInt 64 nValueIn).setWidth 256 / 100

/-- The check with the operators of `uint256.cpp`. -/
theorem stakeTargetHit_eq (hashProofOfStake : Uint256) (nValueIn : Int)
    (bnTargetPerCoinDay : Uint256) :
    Uint256.div ((BitVec.ofInt 64 nValueIn).setWidth 256) 100 = some (coinDayWeight nValueIn) ∧
      stakeTargetHit hashProofOfStake nValueIn bnTargetPerCoinDay =
        decide (Uint256.compareTo hashProofOfStake
          (Uint256.mul (coinDayWeight nValueIn) bnTargetPerCoinDay) < 0) := by
  constructor
  · exact Uint256.div_eq_some _ (by decide)
  · have hless := Uint256.compareTo_lt hashProofOfStake
      (Uint256.mul (coinDayWeight nValueIn) bnTargetPerCoinDay)
    rw [Uint256.mul_eq] at hless
    rw [Uint256.mul_eq, stakeTargetHit]
    simp only [hless]
    rfl

/-- The weight of an amount that is no negative number. -/
theorem toNat_coinDayWeight {nValueIn : Int} (hnonneg : 0 ≤ nValueIn)
    (hfits : nValueIn < 2 ^ 63) : (coinDayWeight nValueIn).toNat = nValueIn.toNat / 100 := by
  have hofInt : (BitVec.ofInt 64 nValueIn).toNat = nValueIn.toNat := by
    rw [BitVec.toNat_ofInt]
    omega
  have hlt := (BitVec.ofInt 64 nValueIn).isLt
  have hwide : ((BitVec.ofInt 64 nValueIn).setWidth 256).toNat = nValueIn.toNat := by
    rw [BitVec.toNat_setWidth, hofInt]
    omega
  have hundred : (100 : Uint256).toNat = 100 := rfl
  rw [coinDayWeight, BitVec.toNat_udiv, hwide, hundred]

theorem stakeTargetHit_iff {hashProofOfStake bnTargetPerCoinDay : Uint256} {nValueIn : Int}
    (hnonneg : 0 ≤ nValueIn) (hfits : nValueIn < 2 ^ 63) :
    stakeTargetHit hashProofOfStake nValueIn bnTargetPerCoinDay = true ↔
      hashProofOfStake.toNat <
        nValueIn.toNat / 100 * bnTargetPerCoinDay.toNat % 2 ^ 256 := by
  have hweight := toNat_coinDayWeight hnonneg hfits
  rw [coinDayWeight] at hweight
  simp only [stakeTargetHit, decide_eq_true_eq, BitVec.lt_def, BitVec.toNat_mul, hweight]

/-- More stake hits whatever less stake does, up to the largest amount. -/
def StakeMonotone (nMaxMoneyOut : Int) (bnTargetPerCoinDay : Uint256) : Prop :=
  ∀ (hashProofOfStake : Uint256) (nValueIn nValueIn' : Int), 0 ≤ nValueIn →
    nValueIn ≤ nValueIn' → nValueIn' ≤ nMaxMoneyOut →
    stakeTargetHit hashProofOfStake nValueIn bnTargetPerCoinDay = true →
    stakeTargetHit hashProofOfStake nValueIn' bnTargetPerCoinDay = true

/-- Where a product wraps, the weight before the first one that does hits a
hash that it misses. -/
theorem exists_wrap {largest target : Nat} (htarget : target < 2 ^ 256)
    (hwrap : 2 ^ 256 ≤ largest * target) :
    ∃ weight hash, weight + 1 ≤ largest ∧ hash < weight * target % 2 ^ 256 ∧
      hash = (weight + 1) * target % 2 ^ 256 := by
  have hex : ∃ weight, 2 ^ 256 ≤ weight * target := ⟨largest, hwrap⟩
  classical
  obtain ⟨first, hfirst, hmin⟩ : ∃ first, 2 ^ 256 ≤ first * target ∧
      ∀ weight < first, weight * target < 2 ^ 256 :=
    ⟨Nat.find hex, Nat.find_spec hex, fun weight hlt => by
      have := Nat.find_min hex hlt
      omega⟩
  have hpos : first ≠ 0 := by
    intro hzero
    rw [hzero, Nat.zero_mul] at hfirst
    omega
  obtain ⟨weight, rfl⟩ := Nat.exists_eq_succ_of_ne_zero hpos
  have hbefore := hmin weight (Nat.lt_succ_self weight)
  have hle : weight + 1 ≤ largest := by
    by_contra hlt
    have := hmin largest (by omega)
    omega
  have hsucc : (weight + 1) * target = weight * target + target := Nat.succ_mul weight target
  refine ⟨weight, (weight + 1) * target % 2 ^ 256, hle, ?_, rfl⟩
  rw [Nat.succ_eq_add_one, hsucc] at hfirst
  have hmod : (weight * target + target) % 2 ^ 256 = weight * target + target - 2 ^ 256 := by
    rw [Nat.mod_eq_sub_mod hfirst, Nat.mod_eq_of_lt (by omega)]
  rw [hsucc, hmod, Nat.mod_eq_of_lt hbefore]
  omega

/-- **More stake is never worse exactly if the largest product fits.** -/
theorem stakeTargetHit_mono_iff (nMaxMoneyOut : Int) (bnTargetPerCoinDay : Uint256)
    (hmax : 0 ≤ nMaxMoneyOut) (hfits : nMaxMoneyOut < 2 ^ 63) :
    StakeMonotone nMaxMoneyOut bnTargetPerCoinDay ↔
      nMaxMoneyOut.toNat / 100 * bnTargetPerCoinDay.toNat < 2 ^ 256 := by
  constructor
  · intro hmono
    by_contra hwrap
    obtain ⟨weight, hash, hle, hbelow, hmiss⟩ :=
      exists_wrap bnTargetPerCoinDay.isLt (Nat.le_of_not_lt hwrap)
    have hhash : (BitVec.ofNat 256 hash : Uint256).toNat = hash := by
      have hmod := Nat.mod_lt (weight * bnTargetPerCoinDay.toNat) (by decide : 0 < 2 ^ 256)
      rw [BitVec.toNat_ofNat, Nat.mod_eq_of_lt (hbelow.trans hmod)]
    have hless : ((weight : Int) * 100).toNat / 100 = weight := by omega
    have hmore : (((weight + 1 : Nat) : Int) * 100).toNat / 100 = weight + 1 := by omega
    have hhit := hmono (BitVec.ofNat 256 hash) ((weight : Int) * 100)
      (((weight + 1 : Nat) : Int) * 100) (by omega) (by omega) (by omega)
    rw [stakeTargetHit_iff (by omega) (by omega), stakeTargetHit_iff (by omega) (by omega),
      hhash, hless, hmore] at hhit
    have := hhit hbelow
    omega
  · intro hproduct hashProofOfStake nValueIn nValueIn' hnonneg hle hmost hhit
    rw [stakeTargetHit_iff (by omega) (by omega)] at hhit ⊢
    have hweight : nValueIn.toNat / 100 ≤ nValueIn'.toNat / 100 :=
      Nat.div_le_div_right (by omega)
    have hlargest : nValueIn'.toNat / 100 ≤ nMaxMoneyOut.toNat / 100 :=
      Nat.div_le_div_right (by omega)
    have hmul := Nat.mul_le_mul_right bnTargetPerCoinDay.toNat hweight
    have hmul' := Nat.mul_le_mul_right bnTargetPerCoinDay.toNat hlargest
    rw [Nat.mod_eq_of_lt (by omega)] at hhit ⊢
    omega

/-- `nMaxMoneyOut` of the main network. -/
def mainMaxMoneyOut : Int := 7766279631352241920

/-- A hard target of the main network. -/
theorem stakeTargetHit_mono_iff_hard :
    StakeMonotone mainMaxMoneyOut (setCompact 0x1900ffff) :=
  (stakeTargetHit_mono_iff mainMaxMoneyOut (setCompact 0x1900ffff) (by decide)
    (by decide)).mpr (by decide +kernel)

/-- At about the limit of the main network, the hash `2 ^ 240` is hit by a stake
of 1.04857700 coins and missed by one of 1.04857800. -/
theorem more_stake_misses :
    stakeTargetHit (BitVec.ofNat 256 (2 ^ 240)) 104857700 (setCompact 0x1e0fffff) = true ∧
      stakeTargetHit (BitVec.ofNat 256 (2 ^ 240)) 104857800 (setCompact 0x1e0fffff) = false ∧
      ¬ StakeMonotone mainMaxMoneyOut (setCompact 0x1e0fffff) := by
  have hless : stakeTargetHit (BitVec.ofNat 256 (2 ^ 240)) 104857700
      (setCompact 0x1e0fffff) = true := by decide +kernel
  have hmore : stakeTargetHit (BitVec.ofNat 256 (2 ^ 240)) 104857800
      (setCompact 0x1e0fffff) = false := by decide +kernel
  refine ⟨hless, hmore, fun hmono => ?_⟩
  have hhit := hmono _ 104857700 104857800 (by decide) (by decide) (by decide) hless
  rw [hmore] at hhit
  cases hhit

end Agrarian.Stake
