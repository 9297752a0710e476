import Agrarian.Libzerocoin.Commitment

/-!
# Signatures with a serial number

`SerialNumberSignatureOfKnowledge` signs a hash with the opening of a coin whose serial number it
shows, and a commitment hides the coin.  Each of the iterations opens one of two ways, as a bit of
the hash of all commitments says.

The vectors of the class are functions of the iteration, and the seeds are those that the loop of
the constructor keeps.  What `Verify` answers is whether it returns true.
-/

namespace Agrarian.Libzerocoin

open Agrarian.Lib

/-- `getuint256`, with `none` for its range error. -/
def getuint256 (x : Int) : Option Uint256 :=
  if 256 < bitSize x then none else some (BitVec.ofNat 256 x.natAbs)

/-- What the signatures read of the parameters; the hash has a bit for each iteration. -/
structure ZerocoinParams where
  coinCommitmentGroup : IntegerGroupParams
  serialNumberSoKCommitmentGroup : IntegerGroupParams
  zkp_iterations : Nat
  zkp_iterations_le : zkp_iterations ≤ 256

namespace ZerocoinParams

variable (params : ZerocoinParams)

/-- Serials of version 2 have their first four bits set, or do not fit in 256 bits. -/
def extractVersionFromSerial (bnSerial : Int) : Nat :=
  match getuint256 bnSerial with
  | none => 2
  | some serial => if serial >>> 252 = 0xf then 2 else 1

def isValidSerial (bnSerial : Int) : Bool :=
  if bnSerial ≤ 0 then false
  else if extractVersionFromSerial bnSerial < 2 then
    bnSerial < params.coinCommitmentGroup.groupOrder
  else bitSize bnSerial ≤ 256

def isValidCommitmentToCoinRange (bnCommitment : Int) : Bool :=
  0 < bnCommitment && bnCommitment < params.serialNumberSoKCommitmentGroup.modulus

/-- `challengeCalculation`: a commitment to a commitment. -/
def challengeCalculation (a_exp b_exp h_exp : Int) : Option Int :=
  (powersMod params.serialNumberSoKCommitmentGroup.groupOrder
    [(params.coinCommitmentGroup.g, a_exp), (params.coinCommitmentGroup.h, b_exp)]).bind
    fun exponent => params.serialNumberSoKCommitmentGroup.commit exponent h_exp

/-- The groups fit together, as the constructor checks, and are usable. -/
structure Sound : Prop where
  structured : params.coinCommitmentGroup.modulus =
    params.serialNumberSoKCommitmentGroup.groupOrder
  coinCommitmentGroup : params.coinCommitmentGroup.Tested
  serialNumberSoKCommitmentGroup : params.serialNumberSoKCommitmentGroup.Tested

end ZerocoinParams

structure SerialNumberSignatureOfKnowledge (params : ZerocoinParams) where
  hash : Uint256
  s_notprime : Fin params.zkp_iterations → Int
  sprime : Fin params.zkp_iterations → Int

namespace SerialNumberSignatureOfKnowledge

variable {params : ZerocoinParams}
variable (hasher : ZerocoinParams → Int → Int → Uint256 → List Int → Uint256)
variable (seedTo1024 : Uint256 → Int)

/-- The constructor, for a coin and the commitment to it, with random numbers `r` and seeds. -/
def sign (coin : Commitment params.coinCommitmentGroup)
    (commitmentToCoin : Commitment params.serialNumberSoKCommitmentGroup) (msghash : Uint256)
    (r : Fin params.zkp_iterations → Int) (v_seed : Fin params.zkp_iterations → Uint256) :
    Option (SerialNumberSignatureOfKnowledge params) :=
  if params.coinCommitmentGroup.modulus ≠ params.serialNumberSoKCommitmentGroup.groupOrder then
    none
  else do
    let c ← (List.finRange params.zkp_iterations).mapM fun i =>
      params.challengeCalculation coin.contents (r i) (seedTo1024 (v_seed i))
    let hash := hasher params commitmentToCoin.commitmentValue coin.contents msghash c
    let sprime ← (List.finRange params.zkp_iterations).mapM fun i : Fin params.zkp_iterations =>
      if hash.getLsbD i then some ((v_seed i).toNat : Int)
      else (powMod params.coinCommitmentGroup.h (r i - coin.randomness)
        params.serialNumberSoKCommitmentGroup.groupOrder).map fun power =>
          seedTo1024 (v_seed i) - commitmentToCoin.randomness * power
    return {
      hash
      s_notprime := fun i => if hash.getLsbD i then r i else r i - coin.randomness
      sprime := fun i => sprime.getD i 0 }

/-- The commitment that `Verify` computes for an iteration. -/
def tprime (sig : SerialNumberSignatureOfKnowledge params)
    (coinSerialNumber valueOfCommitmentToCoin : Int) (isInParamsValidationRange : Bool)
    (i : Fin params.zkp_iterations) : Option Int := do
  if sig.hash.getLsbD i then
    let bn := seedTo1024 (← getuint256 (sig.sprime i))
    if params.serialNumberSoKCommitmentGroup.groupOrder < bn ∧ isInParamsValidationRange then none
    else params.challengeCalculation coinSerialNumber (sig.s_notprime i) bn
  else
    let exp ← powMod params.coinCommitmentGroup.h (sig.s_notprime i)
      params.serialNumberSoKCommitmentGroup.groupOrder
    powersMod params.serialNumberSoKCommitmentGroup.modulus
      [(valueOfCommitmentToCoin, exp), (params.serialNumberSoKCommitmentGroup.h, sig.sprime i)]

/-- `Verify` returns true. -/
def verify (sig : SerialNumberSignatureOfKnowledge params)
    (coinSerialNumber valueOfCommitmentToCoin : Int) (msghash : Uint256)
    (isInParamsValidationRange : Bool) : Bool :=
  if isInParamsValidationRange && !(params.isValidSerial coinSerialNumber &&
      params.isValidCommitmentToCoinRange valueOfCommitmentToCoin) then
    false
  else
    match (List.finRange params.zkp_iterations).mapM (sig.tprime seedTo1024 coinSerialNumber
        valueOfCommitmentToCoin isInParamsValidationRange) with
    | none => false
    | some tprime => hasher params valueOfCommitmentToCoin coinSerialNumber msghash tprime = sig.hash

variable {hasher seedTo1024}

theorem getuint256_toNat (x : Uint256) : getuint256 x.toNat = some x := by
  have hsize : x.toNat.size ≤ 256 := Nat.size_le.mpr x.isLt
  have hbits : ¬ 256 < bitSize x.toNat := by
    rw [bitSize, Int.natAbs_natCast]
    omega
  rw [getuint256, if_neg hbits, Int.natAbs_natCast, BitVec.ofNat_toNat, BitVec.setWidth_eq]

/-- A commitment is a positive number below the modulus. -/
theorem isValidCommitmentToCoinRange_of_made (hparams : params.Sound)
    (commitmentToCoin : Commitment params.serialNumberSoKCommitmentGroup) :
    params.isValidCommitmentToCoinRange commitmentToCoin.commitmentValue = true := by
  have hmodulus := hparams.serialNumberSoKCommitmentGroup.modulus
  have : NeZero params.serialNumberSoKCommitmentGroup.modulus := ⟨by omega⟩
  have : Fact (1 < params.serialNumberSoKCommitmentGroup.modulus) := ⟨hmodulus⟩
  rcases hparams.serialNumberSoKCommitmentGroup.exists_units with ⟨g, h, ⟨hg, -⟩, hh, -⟩
  have hmade := commitmentToCoin.made
  rw [IntegerGroupParams.commit_eq hg hh, Option.some_inj] at hmade
  have hpos : 0 < (residue (g ^ commitmentToCoin.contents * h ^ commitmentToCoin.randomness)) :=
    Int.natCast_pos.mpr (ZMod.val_pos.mpr (Units.ne_zero _))
  have hlt : residue (g ^ commitmentToCoin.contents * h ^ commitmentToCoin.randomness) <
      params.serialNumberSoKCommitmentGroup.modulus := Int.ofNat_lt.mpr (ZMod.val_lt _)
  rw [ZerocoinParams.isValidCommitmentToCoinRange, ← hmade, decide_eq_true hpos,
    decide_eq_true hlt]
  rfl

/-- Both ways to open an iteration lead to the same commitment. -/
theorem challengeCalculation_eq (hparams : params.Sound)
    {coin : Commitment params.coinCommitmentGroup}
    {commitmentToCoin : Commitment params.serialNumberSoKCommitmentGroup}
    (hopens : commitmentToCoin.contents = coin.commitmentValue) (r v : Int) :
    ∃ c exp, params.challengeCalculation coin.contents r v = some c ∧
      powMod params.coinCommitmentGroup.h (r - coin.randomness)
        params.serialNumberSoKCommitmentGroup.groupOrder = some exp ∧
      powersMod params.serialNumberSoKCommitmentGroup.modulus
        [(commitmentToCoin.commitmentValue, exp), (params.serialNumberSoKCommitmentGroup.h,
          v - commitmentToCoin.randomness * exp)] = some c := by
  have : NeZero params.serialNumberSoKCommitmentGroup.modulus :=
    ⟨by have := hparams.serialNumberSoKCommitmentGroup.modulus; omega⟩
  have : NeZero params.coinCommitmentGroup.modulus :=
    ⟨by have := hparams.coinCommitmentGroup.modulus; omega⟩
  rcases hparams.coinCommitmentGroup.exists_units with ⟨a, b, ⟨ha, -⟩, hb, -⟩
  rcases hparams.serialNumberSoKCommitmentGroup.exists_units with ⟨g, h, ⟨hg, horder⟩, hh, -⟩
  have hcoin := coin.made
  rw [IntegerGroupParams.commit_eq ha hb, Option.some_inj] at hcoin
  have hmade := commitmentToCoin.made
  rw [IntegerGroupParams.commit_eq hg hh, Option.some_inj, hopens, ← hcoin] at hmade
  rw [← hparams.structured] at horder ⊢
  have hC : StandsFor commitmentToCoin.commitmentValue _ := hmade ▸ standsFor_residue _
  refine ⟨residue (g ^ residue (a ^ coin.contents * (b ^ r * 1)) * h ^ v), _, ?_, powMod_eq hb _, ((product_nil.cons hh).cons hC).mod.trans ?_⟩
  · rw [ZerocoinParams.challengeCalculation, ← hparams.structured,
      ((product_nil.cons hb).cons ha).mod, Option.bind_some, IntegerGroupParams.commit_eq hg hh]
  · -- the exponents of `g` agree modulo its order
    have hexponent : g ^ residue (a ^ coin.contents * (b ^ r * 1)) =
        g ^ (residue (a ^ coin.contents * b ^ coin.randomness) *
          residue (b ^ (r - coin.randomness))) := by
      rw [zpow_eq_zpow_emod' (_ * _) horder, residue_mul_emod, mul_assoc, ← zpow_add,
        add_sub_cancel, mul_one]
    rw [hexponent]
    congr 2
    apply Additive.ofMul.injective
    simp only [ofMul_mul, ofMul_zpow, ofMul_one]
    module

/-- **Completeness.**  A signature is verified for every serial, and for a valid one with the
checks of ranges too. -/
theorem verify_sign (hparams : params.Sound) {coin : Commitment params.coinCommitmentGroup}
    {commitmentToCoin : Commitment params.serialNumberSoKCommitmentGroup}
    (hopens : commitmentToCoin.contents = coin.commitmentValue) (msghash : Uint256)
    (r : Fin params.zkp_iterations → Int) {v_seed : Fin params.zkp_iterations → Uint256}
    (hseeds : ∀ i, seedTo1024 (v_seed i) ≤ params.serialNumberSoKCommitmentGroup.groupOrder)
    {isInParamsValidationRange : Bool}
    (hserial : isInParamsValidationRange = true → params.isValidSerial coin.contents = true) :
    (sign hasher seedTo1024 coin commitmentToCoin msghash r v_seed).map
      (fun sig => sig.verify hasher seedTo1024 coin.contents commitmentToCoin.commitmentValue
        msghash isInParamsValidationRange) = some true := by
  choose c exp hc hexp hopen using fun i =>
    challengeCalculation_eq hparams hopens (r i) (seedTo1024 (v_seed i))
  have hcommitments : (List.finRange params.zkp_iterations).mapM (fun i =>
      params.challengeCalculation coin.contents (r i) (seedTo1024 (v_seed i))) =
        some ((List.finRange params.zkp_iterations).map c) := by
    rw [funext hc]
    exact List.mapM_pure
  have hrange : (isInParamsValidationRange && !(params.isValidSerial coin.contents &&
      params.isValidCommitmentToCoinRange commitmentToCoin.commitmentValue)) = false := by
    cases isInParamsValidationRange with
    | false => rfl
    | true =>
        rw [hserial rfl, isValidCommitmentToCoinRange_of_made hparams]
        rfl
  rw [sign, if_neg (not_not.mpr hparams.structured), hcommitments]
  simp only [Option.bind_eq_bind, Option.bind_some]
  generalize hhash : hasher params commitmentToCoin.commitmentValue coin.contents msghash
    ((List.finRange params.zkp_iterations).map c) = hash
  -- the responses, and what the verifier makes of them
  obtain ⟨sprime, hs⟩ : ∃ sprime : Fin params.zkp_iterations → Int, ∀ i, sprime i =
      if hash.getLsbD i then ((v_seed i).toNat : Int)
      else seedTo1024 (v_seed i) - commitmentToCoin.randomness * exp i := ⟨_, fun _ => rfl⟩
  have hsprime : ∀ i : Fin params.zkp_iterations,
      (if hash.getLsbD i then some ((v_seed i).toNat : Int)
        else (powMod params.coinCommitmentGroup.h (r i - coin.randomness)
          params.serialNumberSoKCommitmentGroup.groupOrder).map fun power =>
            seedTo1024 (v_seed i) - commitmentToCoin.randomness * power) = some (sprime i) := by
    intro i
    rw [hexp i, Option.map_some, hs i]
    split <;> rfl
  simp only [funext hsprime]
  rw [show List.mapM (fun i => some (sprime i)) _ = _ from
    @List.mapM_pure Option _ _ _ _ (List.finRange params.zkp_iterations) sprime]
  simp only [Option.pure_def, Option.bind_some, Option.map_some, Option.some_inj, verify, hrange,
    Bool.false_eq_true, if_false]
  have htprime : ∀ i, tprime seedTo1024 (⟨hash, fun i => if hash.getLsbD i then r i
        else r i - coin.randomness, fun i => ((List.finRange _).map sprime).getD i 0⟩ :
          SerialNumberSignatureOfKnowledge params) coin.contents
      commitmentToCoin.commitmentValue isInParamsValidationRange i = some (c i) := by
    intro i
    have hat : ((List.finRange params.zkp_iterations).map sprime).getD i 0 = sprime i := by simp
    unfold tprime
    dsimp only
    rw [hat, hs i]
    split
    · have hshort : ¬ (params.serialNumberSoKCommitmentGroup.groupOrder <
          seedTo1024 (v_seed i) ∧ isInParamsValidationRange = true) :=
        fun h => absurd (hseeds i) (not_le.mpr h.1)
      rw [getuint256_toNat]
      simp only [Option.bind_eq_bind, Option.bind_some, if_neg hshort, hc i]
    · rw [hexp i]
      exact hopen i
  rw [funext htprime]
  rw [show List.mapM (fun i => some (c i)) _ = _ from
    @List.mapM_pure Option _ _ _ _ (List.finRange params.zkp_iterations) c]
  exact decide_eq_true hhash

/-- Commitments modulo 47 to the coins modulo 23. -/
def smallParams : ZerocoinParams := ⟨smallGroup, ⟨4, 9, 47, 23⟩, 2, by decide⟩

def commitmentToSmallCoin : Commitment smallParams.serialNumberSoKCommitmentGroup :=
  ⟨16, 3, 21, by decide⟩

theorem verify_sign_small :
    (@sign smallParams (fun _ _ _ _ _ => 1) (fun seed => seed.toNat % 23) smallCommitment
        commitmentToSmallCoin 0 (fun _ => 6) (fun _ => 7)).map
      (fun sig => sig.verify (fun _ _ _ _ _ => 1) (fun seed => seed.toNat % 23)
        smallCommitment.contents commitmentToSmallCoin.commitmentValue 0 true) = some true :=
  verify_sign ⟨rfl, smallGroup_tested, ⟨by decide, by decide, by decide, by decide⟩⟩ rfl 0 _
    (fun _ => by decide) (fun _ => by decide)

end SerialNumberSignatureOfKnowledge

end Agrarian.Libzerocoin
