import Agrarian.Libzerocoin.Commitment

/-!
# Proofs for an accumulator

`AccumulatorProofOfKnowledge` proves that the number in a commitment is one of those in an
accumulator.  It is seven proofs that share their exponents: every equation compares a value that
was made with random exponents with the value that the responses give, next to the power of a
statement to the challenge.
-/

namespace Agrarian.Libzerocoin

open Agrarian.Lib

/-- What the proof reads of the parameters. -/
structure AccumulatorAndProofParams where
  accumulatorModulus : Nat
  maxCoinValue : Int
  accumulatorPoKCommitmentGroup : IntegerGroupParams
  accumulatorQRNCommitmentGroup : IntegerGroupParams
  k_prime : Nat
  k_dprime : Nat
  deriving DecidableEq, Repr

/-- The groups are usable, and a challenge is short against the random exponents. -/
structure AccumulatorAndProofParams.Sound (params : AccumulatorAndProofParams) : Prop where
  accumulatorModulus : params.accumulatorModulus ≠ 0
  group : params.accumulatorPoKCommitmentGroup.Tested
  g_coprime : params.accumulatorQRNCommitmentGroup.g.gcd params.accumulatorModulus = 1
  h_coprime : params.accumulatorQRNCommitmentGroup.h.gcd params.accumulatorModulus = 1
  challenge : 256 ≤ params.k_prime + params.k_dprime

/-! ## Accumulators -/

/-- The accumulator after `accumulate` for some coins, which are valid and of its
denomination. -/
def accumulate (N : Nat) (value : Int) (coins : List Int) : Option Int :=
  coins.foldlM (fun value coin => powMod value coin N) value

/-- The witness after `AddElement` for some coins. -/
def addElements (N : Nat) (witness element : Int) (coins : List Int) : Option Int :=
  coins.foldlM (fun witness coin =>
    if element ≠ coin then powMod witness coin N else some witness) witness

theorem accumulate_eq {N : Nat} [NeZero N] (u : (ZMod N)ˣ) (coins : List Int) :
    accumulate N (residue u) coins = some (residue (u ^ coins.prod)) := by
  induction coins generalizing u with
  | nil => simp [accumulate]
  | cons coin coins ih =>
      rw [List.prod_cons, zpow_mul, ← ih, accumulate, List.foldlM_cons,
        powMod_eq (standsFor_residue u)]
      rfl

theorem addElements_eq {N : Nat} (witness element : Int) (coins : List Int) :
    addElements N witness element coins =
      accumulate N witness (coins.filter (· ≠ element)) := by
  induction coins generalizing witness with
  | nil => rfl
  | cons coin coins ih =>
      by_cases hown : element = coin
      · simpa [addElements, hown] using ih witness
      · have hother : coin ≠ element := Ne.symm hown
        simp only [addElements, accumulate, List.foldlM_cons, List.filter_cons, ne_eq, hown,
          hother, not_false_eq_true, decide_true, if_true]
        exact congrArg _ (funext ih)

theorem prod_filter_ne (element : Int) (coins : List Int) :
    (coins.filter (· ≠ element)).prod * element ^ coins.count element = coins.prod := by
  induction coins with
  | nil => simp
  | cons coin coins ih =>
      by_cases hown : coin = element
      · rw [hown, List.count_cons_self, pow_succ, List.prod_cons, ← ih]
        simp
        ring
      · rw [List.count_cons_of_ne hown, List.prod_cons, ← ih]
        simp [hown, mul_assoc]

/-! ## The proof -/

/-- The exponents of the equations: random numbers or responses. -/
structure Exponents where
  alpha : Int
  beta : Int
  gamma : Int
  delta : Int
  epsilon : Int
  zeta : Int
  eta : Int
  sigma : Int
  xi : Int
  phi : Int
  psi : Int
  deriving DecidableEq, Repr

/-- Something for each of the seven equations. -/
structure Equations (α : Type) where
  st_1 : α
  st_2 : α
  st_3 : α
  t_1 : α
  t_2 : α
  t_3 : α
  t_4 : α
  deriving DecidableEq, Repr

namespace Equations

def append (x y : Equations (List (Int × Int))) : Equations (List (Int × Int)) where
  st_1 := x.st_1 ++ y.st_1
  st_2 := x.st_2 ++ y.st_2
  st_3 := x.st_3 ++ y.st_3
  t_1 := x.t_1 ++ y.t_1
  t_2 := x.t_2 ++ y.t_2
  t_3 := x.t_3 ++ y.t_3
  t_4 := x.t_4 ++ y.t_4

/-- The values: three modulo `p`, and four modulo the modulus of the accumulator. -/
def values (p N : Nat) (x : Equations (List (Int × Int))) : Option (Equations Int) := do
  let st_1 ← powersMod p x.st_1
  let st_2 ← powersMod p x.st_2
  let st_3 ← powersMod p x.st_3
  let t_1 ← powersMod N x.t_1
  let t_2 ← powersMod N x.t_2
  let t_3 ← powersMod N x.t_3
  let t_4 ← powersMod N x.t_4
  return { st_1, st_2, st_3, t_1, t_2, t_3, t_4 }

theorem values_eq {p N : Nat} [NeZero p] [NeZero N] {x : Equations (List (Int × Int))}
    {u₁ u₂ u₃ : (ZMod p)ˣ} {v₁ v₂ v₃ v₄ : (ZMod N)ˣ} (h₁ : Product p x.st_1 u₁)
    (h₂ : Product p x.st_2 u₂) (h₃ : Product p x.st_3 u₃) (k₁ : Product N x.t_1 v₁)
    (k₂ : Product N x.t_2 v₂) (k₃ : Product N x.t_3 v₃) (k₄ : Product N x.t_4 v₄) :
    x.values p N = some ⟨residue u₁, residue u₂, residue u₃, residue v₁, residue v₂,
      residue v₃, residue v₄⟩ := by
  rw [values, h₁.mod, h₂.mod, h₃.mod, k₁.mod, k₂.mod, k₃.mod, k₄.mod]
  rfl

end Equations

structure AccumulatorProofOfKnowledge where
  C_e : Int
  C_u : Int
  C_r : Int
  /-- `st_1` to `t_4`. -/
  made : Equations Int
  /-- `s_alpha` to `s_psi`. -/
  s : Exponents
  deriving DecidableEq, Repr

namespace AccumulatorProofOfKnowledge

variable (hash : AccumulatorAndProofParams → List Int → Uint256)
variable (params : AccumulatorAndProofParams)

/-- What is hashed after the parameters. -/
def transcript (C C_e C_u C_r : Int) (made : Equations Int) : List Int :=
  [params.accumulatorPoKCommitmentGroup.g, params.accumulatorPoKCommitmentGroup.h,
    params.accumulatorQRNCommitmentGroup.g, params.accumulatorQRNCommitmentGroup.h, C, C_e, C_u,
    C_r, made.st_1, made.st_2, made.st_3, made.t_1, made.t_2, made.t_3, made.t_4]

def challenge (C C_e C_u C_r : Int) (made : Equations Int) : Int :=
  (hash params (transcript params C C_e C_u C_r made)).toNat

/-- The powers whose products are the values of the equations, with the inverses of `sg`, `h_n`
and `g_n`. -/
def powersWith (C C_u C_r sg_inverse h_n_inverse g_n_inverse : Int) (x : Exponents) :
    Equations (List (Int × Int)) :=
  let sg := params.accumulatorPoKCommitmentGroup.g
  let sh := params.accumulatorPoKCommitmentGroup.h
  let g_n := params.accumulatorQRNCommitmentGroup.g
  let h_n := params.accumulatorQRNCommitmentGroup.h
  { st_1 := [(sg, x.alpha), (sh, x.phi)]
    st_2 := [(C * sg_inverse, x.gamma), (sh, x.psi)]
    st_3 := [(sg * C, x.sigma), (sh, x.xi)]
    t_1 := [(h_n, x.zeta), (g_n, x.epsilon)]
    t_2 := [(h_n, x.eta), (g_n, x.alpha)]
    t_3 := [(C_u, x.alpha), (h_n_inverse, x.beta)]
    t_4 := [(C_r, x.alpha), (h_n_inverse, x.delta), (g_n_inverse, x.beta)] }

def powersOf (C C_u C_r : Int) (x : Exponents) : Option (Equations (List (Int × Int))) := do
  let sg_inverse ← invMod params.accumulatorPoKCommitmentGroup.g
    params.accumulatorPoKCommitmentGroup.modulus
  let h_n_inverse ← invMod params.accumulatorQRNCommitmentGroup.h params.accumulatorModulus
  let g_n_inverse ← invMod params.accumulatorQRNCommitmentGroup.g params.accumulatorModulus
  return powersWith params C C_u C_r sg_inverse h_n_inverse g_n_inverse x

/-- The powers of the statements to the challenge, for the accumulator `a`. -/
def statements (a C C_e C_r c : Int) : Equations (List (Int × Int)) where
  st_1 := [(C, c)]
  st_2 := [(params.accumulatorPoKCommitmentGroup.g, c)]
  st_3 := [(params.accumulatorPoKCommitmentGroup.g, c)]
  t_1 := [(C_r, c)]
  t_2 := [(C_e, c)]
  t_3 := [(a, c)]
  t_4 := []

/-- The responses to the challenge `c`, with the inverses of `e + 1` and `e - 1`. -/
def respond (order : Nat) (e r r_1 r_2 r_3 above below c : Int) (rand : Exponents) :
    Exponents where
  alpha := rand.alpha - c * e
  beta := rand.beta - c * r_2 * e
  zeta := rand.zeta - c * r_3
  sigma := rand.sigma - c * above
  eta := rand.eta - c * r_1
  epsilon := rand.epsilon - c * r_2
  delta := rand.delta - c * r_3 * e
  xi := rand.xi + c * r * above
  phi := (rand.phi - c * r) % order
  gamma := rand.gamma - c * below
  psi := rand.psi + c * r * below

/-- The constructor, for the random numbers `r_1` to `r_3` and `r_alpha` to `r_psi`. -/
def prove (commitmentToCoin : Commitment params.accumulatorPoKCommitmentGroup) (witness : Int)
    (r_1 r_2 r_3 : Int) (rand : Exponents) : Option AccumulatorProofOfKnowledge := do
  let N := params.accumulatorModulus
  let order := params.accumulatorPoKCommitmentGroup.groupOrder
  let C := commitmentToCoin.commitmentValue
  let e := commitmentToCoin.contents
  let C_e ← powers N [(params.accumulatorQRNCommitmentGroup.g, e),
    (params.accumulatorQRNCommitmentGroup.h, r_1)]
  let masked ← powMod params.accumulatorQRNCommitmentGroup.h r_2 N
  let C_u := witness * masked
  let C_r ← powers N [(params.accumulatorQRNCommitmentGroup.g, r_2),
    (params.accumulatorQRNCommitmentGroup.h, r_3)]
  let parts ← powersOf params C C_u C_r rand
  let made ← parts.values params.accumulatorPoKCommitmentGroup.modulus N
  let above ← invMod (e + 1) order
  let below ← invMod (e - 1) order
  return {
    C_e, C_u, C_r, made
    s := respond order e commitmentToCoin.randomness r_1 r_2 r_3 above below
      (challenge hash params C C_e C_u C_r made) rand }

/-- `Verify` for the accumulator `a`. -/
def verify (proof : AccumulatorProofOfKnowledge) (a valueOfCommitmentToCoin : Int) :
    Option Bool := do
  let c := challenge hash params valueOfCommitmentToCoin proof.C_e proof.C_u proof.C_r proof.made
  let parts ← powersOf params valueOfCommitmentToCoin proof.C_u proof.C_r proof.s
  let made ← ((statements params a valueOfCommitmentToCoin proof.C_e proof.C_r c).append
    parts).values params.accumulatorPoKCommitmentGroup.modulus params.accumulatorModulus
  let bound := params.maxCoinValue * 2 ^ (params.k_prime + params.k_dprime + 1)
  return proof.made = made && (-bound ≤ proof.s.alpha && proof.s.alpha ≤ bound)

/-! ## Completeness -/

section Group

variable {G : Type} [CommGroup G] {g h w : G}

/-- The equation for the inverse of a number that differs by `d` from the one in the
commitment. -/
theorem st_eq {order : Nat} {e d i k : Int} (hg : g ^ order = 1)
    (hi : (e + d) * i = 1 + order * k) (r c x y : Int) :
    g ^ c * ((g ^ e * h ^ r * g ^ d) ^ (x - c * i) * (h ^ (y + c * r * i) * 1)) =
      (g ^ e * h ^ r * g ^ d) ^ x * (h ^ y * 1) := by
  have horder : (order : Int) • Additive.ofMul g = 0 := by
    rw [natCast_zsmul, ← ofMul_pow, hg, ofMul_one]
  have hinverse : (1 - (e + d) * i) • Additive.ofMul g = 0 := by
    rw [hi, show 1 - (1 + (order : Int) * k) = -k * order by ring, mul_smul, horder, smul_zero]
  apply Additive.ofMul.injective
  simp only [ofMul_mul, ofMul_zpow, ofMul_one]
  rw [← sub_eq_zero]
  calc _ = c • ((1 - (e + d) * i) • Additive.ofMul g) := by module
    _ = 0 := by rw [hinverse, smul_zero]

theorem st_1_eq {order : Nat} (hh : h ^ order = 1) (e r c x y : Int) :
    (g ^ e * h ^ r) ^ c * (g ^ (x - c * e) * (h ^ ((y - c * r) % order) * 1)) =
      g ^ x * (h ^ y * 1) := by
  rw [← zpow_eq_zpow_emod' _ hh]
  apply Additive.ofMul.injective
  simp only [ofMul_mul, ofMul_zpow, ofMul_one]
  module

theorem t_eq (e r c x y : Int) :
    (g ^ e * (h ^ r * 1)) ^ c * (h ^ (y - c * r) * (g ^ (x - c * e) * 1)) =
      h ^ y * (g ^ x * 1) := by
  apply Additive.ofMul.injective
  simp only [ofMul_mul, ofMul_zpow, ofMul_one]
  module

theorem t_3_eq (e r c x y : Int) :
    (w ^ e) ^ c * ((w * h ^ r) ^ (x - c * e) * (h⁻¹ ^ (y - c * r * e) * 1)) =
      (w * h ^ r) ^ x * (h⁻¹ ^ y * 1) := by
  apply Additive.ofMul.injective
  simp only [ofMul_mul, ofMul_zpow, ofMul_inv, ofMul_one]
  module

theorem t_4_eq (e r s c x y z : Int) :
    (g ^ r * (h ^ s * 1)) ^ (x - c * e) *
        (h⁻¹ ^ (y - c * s * e) * (g⁻¹ ^ (z - c * r * e) * 1)) =
      (g ^ r * (h ^ s * 1)) ^ x * (h⁻¹ ^ y * (g⁻¹ ^ z * 1)) := by
  apply Additive.ofMul.injective
  simp only [ofMul_mul, ofMul_zpow, ofMul_inv, ofMul_one]
  module

end Group

variable {hash params}

/-- An honest response is in the range. -/
theorem alpha_in_range {bound e r : Int} {k k' : Nat} (hk : 256 ≤ k + k') (c : Uint256)
    (he : 0 ≤ e ∧ e ≤ bound) (hr : |r| ≤ bound * 2 ^ (k + k')) :
    -(bound * 2 ^ (k + k' + 1)) ≤ r - c.toNat * e ∧
      r - c.toNat * e ≤ bound * 2 ^ (k + k' + 1) := by
  have hc : (c.toNat : Int) ≤ 2 ^ (k + k') := by
    have hlt : c.toNat < 2 ^ (k + k') := lt_of_lt_of_le c.isLt (Nat.pow_le_pow_right (by decide) hk)
    exact_mod_cast hlt.le
  have hproduct : (c.toNat : Int) * e ≤ 2 ^ (k + k') * bound :=
    mul_le_mul hc he.2 he.1 (by positivity)
  have hnonneg : 0 ≤ (c.toNat : Int) * e := mul_nonneg (Int.natCast_nonneg _) he.1
  have hdouble : bound * 2 ^ (k + k' + 1) = bound * 2 ^ (k + k') + 2 ^ (k + k') * bound := by ring
  rw [abs_le] at hr
  omega

/-- The proof that is made with a witness is accepted for the accumulator, if the coin and its neighbours have no factor in common with the order of the group. -/
theorem prove_accepted (hparams : params.Sound)
    {coin : Commitment params.accumulatorPoKCommitmentGroup}
    (hcontents : 0 ≤ coin.contents ∧ coin.contents ≤ params.maxCoinValue)
    (habove : (coin.contents + 1).gcd params.accumulatorPoKCommitmentGroup.groupOrder = 1)
    (hbelow : (coin.contents - 1).gcd params.accumulatorPoKCommitmentGroup.groupOrder = 1)
    {witness a : Int} (hwitness : witness.gcd params.accumulatorModulus = 1)
    (ha : powMod witness coin.contents params.accumulatorModulus = some a)
    (r_1 r_2 r_3 : Int) {rand : Exponents}
    (hrand : |rand.alpha| ≤ params.maxCoinValue * 2 ^ (params.k_prime + params.k_dprime)) :
    (prove hash params coin witness r_1 r_2 r_3 rand).bind
      (fun proof => proof.verify hash params a coin.commitmentValue) = some true := by
  have : NeZero params.accumulatorModulus := ⟨hparams.accumulatorModulus⟩
  have : NeZero params.accumulatorPoKCommitmentGroup.modulus :=
    ⟨by have := hparams.group.modulus; omega⟩
  rcases hparams.group.exists_units with ⟨u, v, ⟨hu, huorder⟩, hv, hvorder⟩
  rcases exists_unit hparams.g_coprime with ⟨g, hg⟩
  rcases exists_unit hparams.h_coprime with ⟨h, hh⟩
  rcases exists_unit hwitness with ⟨w, hw⟩
  rcases invMod_spec habove with ⟨above, k, habove, hk⟩
  rcases invMod_spec hbelow with ⟨below, k', hbelow, hk'⟩
  -- what the numbers of the proof stand for
  have hC : StandsFor coin.commitmentValue (u ^ coin.contents * v ^ coin.randomness) := by
    have hmade := coin.made
    rw [IntegerGroupParams.commit_eq hu hv, Option.some_inj] at hmade
    exact hmade ▸ standsFor_residue _
  rw [powMod_eq hw, Option.some_inj] at ha
  rcases (product_nil.cons (e := r_1) hh).cons (e := coin.contents) hg with ⟨C_e, hC_e, hCe⟩
  rcases (product_nil.cons (e := r_3) hh).cons (e := r_2) hg with ⟨C_r, hC_r, hCr⟩
  have hCu := hw.mul (standsFor_residue (h ^ r_2))
  have hbelow' : StandsFor (coin.commitmentValue * residue u⁻¹)
      (u ^ coin.contents * v ^ coin.randomness * u ^ (-1 : Int)) := by
    rw [zpow_neg_one]
    exact hC.mul (standsFor_residue _)
  have habove' : StandsFor (params.accumulatorPoKCommitmentGroup.g * coin.commitmentValue)
      (u ^ coin.contents * v ^ coin.randomness * u ^ (1 : Int)) := by
    rw [zpow_one, mul_comm _ u]
    exact hu.mul hC
  have hhinv := standsFor_residue h⁻¹
  have hginv := standsFor_residue g⁻¹
  have hparts : ∃ parts : Exponents → Equations (List (Int × Int)),
      parts = powersWith params coin.commitmentValue (witness * residue (h ^ r_2)) C_r
        (residue u⁻¹) (residue h⁻¹) (residue g⁻¹) ∧
      ∀ x, powersOf params coin.commitmentValue (witness * residue (h ^ r_2)) C_r x =
        some (parts x) := by
    refine ⟨_, rfl, fun x => ?_⟩
    rw [powersOf, invMod_eq hu, invMod_eq hh, invMod_eq hg]
    rfl
  rcases hparts with ⟨parts, hdef, hparts⟩
  -- the seven values, once with the random numbers and once with the responses
  have hproducts : ∀ x : Exponents, _ := fun x =>
    And.intro ((product_nil.cons (e := x.phi) hv).cons (e := x.alpha) hu) <|
    And.intro ((product_nil.cons (e := x.psi) hv).cons (e := x.gamma) hbelow') <|
    And.intro ((product_nil.cons (e := x.xi) hv).cons (e := x.sigma) habove') <|
    And.intro ((product_nil.cons (e := x.epsilon) hg).cons (e := x.zeta) hh) <|
    And.intro ((product_nil.cons (e := x.alpha) hg).cons (e := x.eta) hh) <|
    And.intro ((product_nil.cons (e := x.beta) hhinv).cons (e := x.alpha) hCu) <|
    ((product_nil.cons (e := x.beta) hginv).cons (e := x.delta) hhinv).cons (e := x.alpha) hCr
  have hverified : ∃ made, (parts rand).values params.accumulatorPoKCommitmentGroup.modulus
        params.accumulatorModulus = some made ∧
      ∀ c, ((statements params a coin.commitmentValue C_e C_r c).append
        (parts (respond params.accumulatorPoKCommitmentGroup.groupOrder coin.contents
          coin.randomness r_1 r_2 r_3 above below c rand))).values
          params.accumulatorPoKCommitmentGroup.modulus params.accumulatorModulus = some made := by
    rcases hproducts rand with ⟨h₁, h₂, h₃, h₄, h₅, h₆, h₇⟩
    rw [hdef]
    refine ⟨_, Equations.values_eq h₁ h₂ h₃ h₄ h₅ h₆ h₇, fun c => ?_⟩
    rcases hproducts (respond params.accumulatorPoKCommitmentGroup.groupOrder
      coin.contents coin.randomness r_1 r_2 r_3 above below c rand) with
      ⟨k₁, k₂, k₃, k₄, k₅, k₆, k₇⟩
    refine (Equations.values_eq (k₁.cons (e := c) hC) (k₂.cons (e := c) hu)
      (k₃.cons (e := c) hu) (k₄.cons (e := c) hCr) (k₅.cons (e := c) hCe)
      (k₆.cons (e := c) (ha ▸ standsFor_residue _)) k₇).trans ?_
    simp only [respond]
    rw [st_1_eq hvorder, st_eq huorder hk', st_eq huorder hk, t_eq, t_eq, t_3_eq, t_4_eq]
  rcases hverified with ⟨made, hmade, hverified⟩
  have hrange := alpha_in_range hparams.challenge (hash params (transcript params
    coin.commitmentValue C_e (witness * residue (h ^ r_2)) C_r made)) hcontents hrand
  rw [prove]
  simp only [hC_e, powMod_eq hh, hC_r, hparts, hmade, habove, hbelow, Option.bind_eq_bind,
    Option.bind_some, Option.pure_def, verify, hverified, decide_true, Bool.true_and,
    Option.some.injEq, Bool.and_eq_true, decide_eq_true_eq]
  exact hrange

/-- **A coin that is accumulated once**, wherever among the others, has a witness with which the
proof for it is accepted. -/
theorem verify_prove_accumulated (hparams : params.Sound)
    {coin : Commitment params.accumulatorPoKCommitmentGroup}
    (hcontents : 0 ≤ coin.contents ∧ coin.contents ≤ params.maxCoinValue)
    (habove : (coin.contents + 1).gcd params.accumulatorPoKCommitmentGroup.groupOrder = 1)
    (hbelow : (coin.contents - 1).gcd params.accumulatorPoKCommitmentGroup.groupOrder = 1)
    {base : Int} (hbase : base.gcd params.accumulatorModulus = 1)
    (hrange : 0 ≤ base ∧ base < params.accumulatorModulus)
    {coins : List Int} (honce : coins.count coin.contents = 1) (r_1 r_2 r_3 : Int)
    {rand : Exponents}
    (hrand : |rand.alpha| ≤ params.maxCoinValue * 2 ^ (params.k_prime + params.k_dprime)) :
    ∃ a witness, accumulate params.accumulatorModulus base coins = some a ∧
      addElements params.accumulatorModulus base coin.contents coins = some witness ∧
      (prove hash params coin witness r_1 r_2 r_3 rand).bind
        (fun proof => proof.verify hash params a coin.commitmentValue) = some true := by
  have : NeZero params.accumulatorModulus := ⟨hparams.accumulatorModulus⟩
  rcases exists_unit hbase with ⟨u, hu⟩
  have hreduced : base = residue u := by rw [← hu.emod, Int.emod_eq_of_lt hrange.1 hrange.2]
  have hstand := standsFor_residue (u ^ (coins.filter (· ≠ coin.contents)).prod)
  refine ⟨_, _, hreduced ▸ accumulate_eq u coins,
    hreduced ▸ (addElements_eq _ _ coins).trans (accumulate_eq u _),
    prove_accepted hparams hcontents habove hbelow ?_ ?_ r_1 r_2 r_3 hrand⟩
  · exact gcd_eq_one hstand
  · rw [powMod_eq hstand, ← zpow_mul, ← prod_filter_ne coin.contents coins, honce, pow_one]

/-- An accumulator modulo 35. -/
def smallParams : AccumulatorAndProofParams :=
  ⟨35, 22, smallGroup, ⟨4, 9, 35, 6⟩, 160, 128⟩

theorem verify_prove_accumulated_small : ∃ a witness, accumulate 35 4 [2, 5, 3] = some a ∧
    addElements 35 4 5 [2, 5, 3] = some witness ∧
    (prove (fun _ _ => 7) smallParams smallCommitment witness 1 2 3
      ⟨1, 2, 3, 4, 5, 6, 7, 8, 9, 10, 11⟩).bind
      (fun proof => proof.verify (fun _ _ => 7) smallParams a 16) = some true :=
  @verify_prove_accumulated _ smallParams
    ⟨by decide, smallGroup_tested, by decide, by decide, by decide⟩ smallCommitment (by decide)
    (by decide) (by decide) 4 (by decide) (by decide) [2, 5, 3] (by decide) 1 2 3 _
    (by decide +kernel)

end AccumulatorProofOfKnowledge

end Agrarian.Libzerocoin
