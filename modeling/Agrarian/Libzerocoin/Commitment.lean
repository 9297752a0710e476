import Agrarian.Lib.ModPow
import Agrarian.Uint256

/-!
# Commitments

`Commitment` of `Commitment.cpp` hides a number behind a random one, and
`CommitmentProofOfKnowledge` proves that two commitments, in groups of their own, are to the same
number.  `mintCoinFast` of `Coin.cpp` looks for a commitment that can be a coin.

Random numbers are arguments, and the hash of a transcript and the test for primes are parameters.
-/

namespace Agrarian.Libzerocoin

open Agrarian.Lib

/-- `bitSize` of a `CBigNum`. -/
def bitSize (x : Int) : Nat := max 1 x.natAbs.size

structure IntegerGroupParams where
  g : Int
  h : Int
  modulus : Nat
  groupOrder : Nat
  deriving DecidableEq, Repr

/-- What `deriveIntegerGroupParams` tests of the generators, for moduli that are no unit. -/
structure IntegerGroupParams.Tested (p : IntegerGroupParams) : Prop where
  modulus : 1 < p.modulus
  groupOrder : 0 < p.groupOrder
  g_order : powMod p.g p.groupOrder p.modulus = some 1
  h_order : powMod p.h p.groupOrder p.modulus = some 1

namespace IntegerGroupParams

variable (p : IntegerGroupParams)

/-- The element that `x` is committed to with the randomness `r`. -/
def commit (x r : Int) : Option Int := powersMod p.modulus [(p.g, x), (p.h, r)]

/-- The ephemeral commitment that `Verify` computes from two responses. -/
def unmask (A challenge S S' : Int) : Option Int :=
  (powMod A challenge p.modulus).bind fun power =>
    (invMod power p.modulus).bind fun inverse =>
      (p.commit S S').map fun answer => inverse * answer % p.modulus

/-- The generators as units of their order. -/
theorem Tested.exists_units {p : IntegerGroupParams} (hp : p.Tested) :
    ∃ u v : (ZMod p.modulus)ˣ, (StandsFor p.g u ∧ u ^ p.groupOrder = 1) ∧
      StandsFor p.h v ∧ v ^ p.groupOrder = 1 := by
  rcases exists_unit_of_pow hp.modulus hp.groupOrder hp.g_order with ⟨u, hu⟩
  rcases exists_unit_of_pow hp.modulus hp.groupOrder hp.h_order with ⟨v, hv⟩
  exact ⟨u, v, hu, hv⟩

variable {p}

theorem commit_eq [NeZero p.modulus] {u v : (ZMod p.modulus)ˣ} (hg : StandsFor p.g u)
    (hh : StandsFor p.h v) (x r : Int) : p.commit x r = some (residue (u ^ x * v ^ r)) := by
  have hproduct := (product_nil.cons (e := r) hh).cons (e := x) hg
  rw [mul_one] at hproduct
  exact hproduct.mod

/-- The responses that belong to a commitment lead back to the ephemeral one. -/
theorem Tested.unmask_eq (hp : p.Tested) {x r A : Int} (hA : p.commit x r = some A)
    (challenge r₁ r₂ : Int) :
    p.unmask A challenge (r₁ + x * challenge) (r₂ + r * challenge) = p.commit r₁ r₂ := by
  have : NeZero p.modulus := ⟨by have := hp.modulus; omega⟩
  rcases hp.exists_units with ⟨u, v, ⟨hg, -⟩, hh, -⟩
  rw [commit_eq hg hh, Option.some_inj] at hA
  rw [unmask, ← hA, powMod_eq (standsFor_residue _), Option.bind_some,
    invMod_eq (standsFor_residue _), Option.bind_some, commit_eq hg hh, Option.map_some,
    residue_mul_emod, commit_eq hg hh]
  congr 2
  apply Additive.ofMul.injective
  simp only [ofMul_mul, ofMul_inv, ofMul_zpow]
  module

end IntegerGroupParams

/-- A commitment and its opening. -/
structure Commitment (p : IntegerGroupParams) where
  contents : Int
  randomness : Int
  commitmentValue : Int
  made : p.commit contents randomness = some commitmentValue

/-- The squares modulo 23, and a commitment to 5. -/
def smallGroup : IntegerGroupParams := ⟨2, 3, 23, 11⟩

theorem smallGroup_tested : smallGroup.Tested :=
  ⟨by decide, by decide, by decide, by decide⟩

def smallCommitment : Commitment smallGroup := ⟨5, 4, 16, by decide⟩

/-! ## Minting -/

def MAX_COINMINT_ATTEMPTS : Nat := 10000

section Mint

variable (p : IntegerGroupParams) (minCoinValue maxCoinValue : Int) (isPrime : Int → Bool)

/-- The test of a commitment that is to be a coin. -/
def canBeCoin (commitmentValue : Int) : Bool :=
  isPrime commitmentValue && minCoinValue ≤ commitmentValue && commitmentValue ≤ maxCoinValue

/-- The attempts of `mintCoinFast`, each with the random number it adds. -/
def mintAttempts : List Int → Int → Int → Option (Int × Int)
  | [], _, _ => none
  | r_delta :: later, r, commitmentValue =>
      if canBeCoin minCoinValue maxCoinValue isPrime commitmentValue then
        some (r, commitmentValue)
      else
        (powMod p.h r_delta p.modulus).bind fun factor =>
          mintAttempts later ((r + r_delta) % p.groupOrder)
            (commitmentValue * factor % p.modulus)

/-- `mintCoinFast` for the serial `s`: the randomness and the value of the coin. -/
def mintCoinFast (s r : Int) (deltas : List Int) : Option (Int × Int) :=
  (p.commit s r).bind fun commitmentValue =>
    mintAttempts p minCoinValue maxCoinValue isPrime (deltas.take MAX_COINMINT_ATTEMPTS) r
      commitmentValue

variable {p minCoinValue maxCoinValue isPrime}

/-- Another attempt keeps the number and the randomness an opening of the commitment. -/
theorem IntegerGroupParams.Tested.commit_add (hp : p.Tested) {s r r_delta C factor : Int}
    (hC : p.commit s r = some C) (hfactor : powMod p.h r_delta p.modulus = some factor) :
    p.commit s ((r + r_delta) % p.groupOrder) = some (C * factor % p.modulus) := by
  have : NeZero p.modulus := ⟨by have := hp.modulus; omega⟩
  rcases hp.exists_units with ⟨u, v, ⟨hg, -⟩, hh, hv⟩
  rw [commit_eq hg hh, Option.some_inj] at hC
  rw [powMod_eq hh, Option.some_inj] at hfactor
  rw [commit_eq hg hh, ← hC, ← hfactor, residue_mul_emod, ← zpow_eq_zpow_emod' _ hv, zpow_add,
    mul_assoc]

/-- **The coin found** is a commitment to its serial number with the randomness that is kept,
and passes the test. -/
theorem mintCoinFast_opens (hp : p.Tested) {s r : Int} {deltas : List Int}
    (hr : 0 ≤ r ∧ r < p.groupOrder) {randomness value : Int}
    (h : mintCoinFast p minCoinValue maxCoinValue isPrime s r deltas =
      some (randomness, value)) :
    p.commit s randomness = some value ∧ (0 ≤ randomness ∧ randomness < p.groupOrder) ∧
      canBeCoin minCoinValue maxCoinValue isPrime value = true := by
  have hattempts : ∀ (deltas : List Int) (r C : Int), p.commit s r = some C →
      0 ≤ r ∧ r < p.groupOrder →
      mintAttempts p minCoinValue maxCoinValue isPrime deltas r C = some (randomness, value) →
      p.commit s randomness = some value ∧ (0 ≤ randomness ∧ randomness < p.groupOrder) ∧
        canBeCoin minCoinValue maxCoinValue isPrime value = true := by
    intro deltas
    induction deltas with
    | nil => intro r C _ _ hnone; cases hnone
    | cons r_delta later ih =>
        intro r C hC hr hfound
        unfold mintAttempts at hfound
        split at hfound
        · next hcoin =>
            cases hfound
            exact ⟨hC, hr, hcoin⟩
        · cases hfactor : powMod p.h r_delta p.modulus with
          | none =>
              rw [hfactor] at hfound
              cases hfound
          | some factor =>
              rw [hfactor, Option.bind_some] at hfound
              have horder : (0 : Int) < p.groupOrder := by exact_mod_cast hp.groupOrder
              exact ih _ _ (hp.commit_add hC hfactor)
                ⟨Int.emod_nonneg _ horder.ne', Int.emod_lt_of_pos _ horder⟩ hfound
  unfold mintCoinFast at h
  cases hC : p.commit s r with
  | none =>
      rw [hC] at h
      cases h
  | some C =>
      rw [hC, Option.bind_some] at h
      exact hattempts _ r C hC hr h

/-- The second attempt finds a coin. -/
theorem mintCoinFast_opens_small :
    smallGroup.commit 5 5 = some 2 ∧ ((0 : Int) ≤ 5 ∧ (5 : Int) < smallGroup.groupOrder) ∧
      canBeCoin 0 22 (fun x => x = 2) 2 = true :=
  mintCoinFast_opens (r := 4) smallGroup_tested (by decide) (show
    mintCoinFast smallGroup 0 22 (fun x => x = 2) 5 4 [1, 1] = some (5, 2) by decide)

end Mint

/-! ## Equal contents -/

def COMMITMENT_EQUALITY_CHALLENGE_SIZE : Nat := 256
def COMMITMENT_EQUALITY_SECMARGIN : Nat := 512

structure CommitmentProofOfKnowledge where
  S1 : Int
  S2 : Int
  S3 : Int
  challenge : Int
  deriving DecidableEq, Repr

namespace CommitmentProofOfKnowledge

/-- The size of the random numbers. -/
def randomSize (ap bp : IntegerGroupParams) : Nat :=
  COMMITMENT_EQUALITY_CHALLENGE_SIZE + COMMITMENT_EQUALITY_SECMARGIN +
    max (max (bitSize ap.modulus) (bitSize bp.modulus))
      (max (bitSize ap.groupOrder) (bitSize bp.groupOrder))

/-- What `randBignum` draws for `maxRange`. -/
def Drawn (ap bp : IntegerGroupParams) (r : Int) : Prop :=
  0 ≤ r ∧ r < 2 ^ randomSize ap bp - 1

variable (calculateChallenge :
  IntegerGroupParams → IntegerGroupParams → Int → Int → Int → Int → Uint256)
variable {ap bp : IntegerGroupParams}

/-- The constructor, with `none` where it throws. -/
def prove (a : Commitment ap) (b : Commitment bp) (r1 r2 r3 : Int) :
    Option CommitmentProofOfKnowledge :=
  if a.contents ≠ b.contents then none
  else
    (ap.commit r1 r2).bind fun T1 => (bp.commit r1 r3).map fun T2 =>
      let challenge : Int :=
        (calculateChallenge ap bp a.commitmentValue b.commitmentValue T1 T2).toNat
      { S1 := r1 + a.contents * challenge
        S2 := r2 + a.randomness * challenge
        S3 := r3 + b.randomness * challenge
        challenge }

variable (ap bp)

/-- A response of an invalid size. -/
def badResponse (S : Int) : Bool := 64 * randomSize ap bp < bitSize S || S < 0

/-- `Verify`, with `none` where it throws. -/
def verify (proof : CommitmentProofOfKnowledge) (A B : Int) : Option Bool :=
  if badResponse ap bp proof.S1 || badResponse ap bp proof.S2 || badResponse ap bp proof.S3 ||
      proof.challenge < 0 ||
      2 ^ COMMITMENT_EQUALITY_CHALLENGE_SIZE - 1 < proof.challenge then
    some false
  else
    (ap.unmask A proof.challenge proof.S1 proof.S2).bind fun T1 =>
      (bp.unmask B proof.challenge proof.S1 proof.S3).map fun T2 =>
        ((calculateChallenge ap bp A B T1 T2).toNat : Int) = proof.challenge

variable {ap bp} {calculateChallenge}

theorem badResponse_eq_false {r x : Int} (challenge : Uint256) (hr : Drawn ap bp r)
    (hx : 0 ≤ x ∧ x < 2 ^ randomSize ap bp) :
    badResponse ap bp (r + x * challenge.toNat) = false := by
  have hc : (challenge.toNat : Int) < 2 ^ 256 := by exact_mod_cast challenge.isLt
  have hproduct : x * challenge.toNat ≤ 2 ^ randomSize ap bp * 2 ^ 256 :=
    mul_le_mul hx.2.le hc.le (Int.natCast_nonneg _) (by positivity)
  have hnonneg : 0 ≤ r + x * challenge.toNat :=
    add_nonneg hr.1 (mul_nonneg hx.1 (Int.natCast_nonneg _))
  have hlong : 768 ≤ randomSize ap bp := by
    unfold randomSize COMMITMENT_EQUALITY_CHALLENGE_SIZE COMMITMENT_EQUALITY_SECMARGIN
    omega
  have hsum : r + x * challenge.toNat < 2 ^ (randomSize ap bp + 257) := by
    have hsplit : (2 : Int) ^ (randomSize ap bp + 257) =
        2 ^ randomSize ap bp * 2 ^ 256 + 2 ^ randomSize ap bp * 2 ^ 256 := by
      rw [show randomSize ap bp + 257 = randomSize ap bp + 256 + 1 from rfl, pow_succ, pow_add,
        mul_two]
    have hlt := hr.2
    omega
  have hsize : bitSize (r + x * challenge.toNat) ≤ 64 * randomSize ap bp := by
    have hbits : (r + x * challenge.toNat).natAbs.size ≤ randomSize ap bp + 257 := by
      rw [Nat.size_le]
      have hcast : ((r + x * challenge.toNat).natAbs : Int) < (2 ^ (randomSize ap bp + 257) : Nat) := by
        rw [Int.natAbs_of_nonneg hnonneg]
        exact_mod_cast hsum
      exact_mod_cast hcast
    unfold bitSize
    omega
  simp only [badResponse, Bool.or_eq_false_iff, decide_eq_false_iff_not]
  omega

/-- Numbers below the order of a group are short enough. -/
theorem lt_two_pow_randomSize {order : Nat} {x : Int} (h : x < order)
    (horder : bitSize order ≤ randomSize ap bp) : x < 2 ^ randomSize ap bp := by
  have hsize : order < 2 ^ randomSize ap bp := by
    rw [← Nat.size_le]
    unfold bitSize at horder
    rw [Int.natAbs_natCast] at horder
    omega
  have hcast : (order : Int) < 2 ^ randomSize ap bp := by exact_mod_cast hsize
  omega

/-- **Completeness.**  The proof for two commitments to one number is accepted, whatever random
numbers are drawn for it. -/
theorem verify_prove (hap : ap.Tested) (hbp : bp.Tested) {a : Commitment ap} {b : Commitment bp}
    (hsame : a.contents = b.contents)
    (hcontents : 0 ≤ a.contents ∧ a.contents < 2 ^ randomSize ap bp)
    (ha : 0 ≤ a.randomness ∧ a.randomness < ap.groupOrder)
    (hb : 0 ≤ b.randomness ∧ b.randomness < bp.groupOrder) {r1 r2 r3 : Int}
    (hr1 : Drawn ap bp r1) (hr2 : Drawn ap bp r2) (hr3 : Drawn ap bp r3) :
    (prove calculateChallenge a b r1 r2 r3).bind
      (fun proof => proof.verify calculateChallenge ap bp a.commitmentValue b.commitmentValue) =
        some true := by
  have : NeZero ap.modulus := ⟨by have := hap.modulus; omega⟩
  have : NeZero bp.modulus := ⟨by have := hbp.modulus; omega⟩
  rcases hap.exists_units with ⟨u, v, ⟨hg, -⟩, hh, -⟩
  rcases hbp.exists_units with ⟨u', v', ⟨hg', -⟩, hh', -⟩
  have hT1 := IntegerGroupParams.commit_eq hg hh r1 r2
  have hT2 := IntegerGroupParams.commit_eq hg' hh' r1 r3
  rw [prove, if_neg (not_not.mpr hsame), hT1, Option.bind_some, hT2, Option.map_some,
    Option.bind_some]
  generalize hchallenge : calculateChallenge ap bp a.commitmentValue b.commitmentValue
    (residue (u ^ r1 * v ^ r2)) (residue (u' ^ r1 * v' ^ r3)) = challenge
  have hlow := badResponse_eq_false challenge hr1 hcontents
  have ha' := badResponse_eq_false challenge hr2
    ⟨ha.1, lt_two_pow_randomSize ha.2 (by unfold randomSize; omega)⟩
  have hb' := badResponse_eq_false challenge hr3
    ⟨hb.1, lt_two_pow_randomSize hb.2 (by unfold randomSize; omega)⟩
  have hc : (challenge.toNat : Int) < 2 ^ 256 := by exact_mod_cast challenge.isLt
  have hrange : ¬ ((challenge.toNat : Int) < 0) ∧
      ¬ ((2 : Int) ^ COMMITMENT_EQUALITY_CHALLENGE_SIZE - 1 < challenge.toNat) := by
    unfold COMMITMENT_EQUALITY_CHALLENGE_SIZE
    omega
  have hunmask := hap.unmask_eq a.made challenge.toNat r1 r2
  have hunmask' := hbp.unmask_eq b.made challenge.toNat r1 r3
  rw [← hsame, hT2] at hunmask'
  rw [hT1] at hunmask
  simp only [verify, hlow, ha', hb', hrange.1, hrange.2, hunmask, hunmask', Bool.or_false,
    decide_false, Bool.false_eq_true, if_false, Option.bind_some, Option.map_some, hchallenge,
    decide_true]

theorem verify_prove_small :
    (prove (fun _ _ _ _ _ _ => 7) smallCommitment smallCommitment 1 2 3).bind
      (fun proof => proof.verify (fun _ _ _ _ _ _ => 7) smallGroup smallGroup 16 16) =
        some true :=
  verify_prove smallGroup_tested smallGroup_tested rfl (by decide +kernel) (by decide)
    (by decide) ⟨by decide, by decide +kernel⟩ ⟨by decide, by decide +kernel⟩
    ⟨by decide, by decide +kernel⟩

end CommitmentProofOfKnowledge

end Agrarian.Libzerocoin
