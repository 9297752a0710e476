import Agrarian.Arith.Compact

/-!
# Work and trust of a chain

`GetBlockProof` and `GetBlockTrust`, with the sums that `AddToBlockIndex`
keeps of them along a chain.  An entry of the index is added on top of the
entries that its `pprev` leads to.

The expected number of hashes for a target is `2 ^ 256 / (target + 1)`.  The
work of a block is computed without its numerator; the trust of a
proof-of-stake block shifts a one out of the word instead, and is zero.
-/

namespace Agrarian.Pow

open Agrarian.Uint256

/-- What the work of a chain and the next target are computed from. -/
structure CBlockIndex where
  nHeight : Nat := 0
  nTime : UInt32
  nBits : UInt32
  fProofOfStake : Bool
  bnChainTrust : Uint256 := 0
  nChainWork : Uint256 := 0
  deriving DecidableEq

namespace CBlockIndex

def getBlockTime (pindex : CBlockIndex) : Int := pindex.nTime.toNat

end CBlockIndex

/-- `none` where the division throws. -/
def getBlockProof (block : CBlockIndex) : Option Uint256 :=
  let target := setCompact block.nBits
  if target.fNegative || target.fOverflow || target.bn == 0 then some 0
  else (div (complement target.bn) (add target.bn 1)).map fun quotient => add quotient 1

def getBlockTrust (block : CBlockIndex) : Option Uint256 :=
  let bnTarget := (setCompact block.nBits).bn
  if compareTo bnTarget 0 ≤ 0 then some 0
  else if block.fProofOfStake then
    -- return trust score as usual
    div (shiftLeft 1 256) (add bnTarget 1)
  else
    (div (shiftRight (complement 0) 20) (add bnTarget 1)).map fun bnPoWTrust =>
      if 0 < compareTo bnPoWTrust 1 then bnPoWTrust else 1

/-- The entry that `AddToBlockIndex` makes of a block on top of a chain. -/
def addToBlockIndex (pindexNew : CBlockIndex) : List CBlockIndex → Option CBlockIndex
  | [] =>
      (getBlockProof pindexNew).map fun proof =>
        { pindexNew with bnChainTrust := 0, nChainWork := add 0 proof }
  | pprev :: _ =>
      (getBlockTrust pindexNew).bind fun trust =>
        (getBlockProof pindexNew).map fun proof =>
          { pindexNew with
            nHeight := pprev.nHeight + 1
            bnChainTrust := add pprev.bnChainTrust trust
            nChainWork := add pprev.nChainWork proof }

/-- The entries of a chain of blocks, the tip first. -/
def chainIndex : List CBlockIndex → Option (List CBlockIndex)
  | [] => some []
  | block :: rest =>
      (chainIndex rest).bind fun pprevs =>
        (addToBlockIndex block pprevs).map (· :: pprevs)

/-! ## Targets -/

/-- The target that a code stands for, if it stands for one. -/
def target (nBits : UInt32) : Option Nat :=
  let decoded := setCompact nBits
  if decoded.fNegative || decoded.fOverflow || decoded.bn == 0 then none
  else some decoded.bn.toNat

/-- The expected number of hashes that meet a target. -/
def expectedHashes (nBits : UInt32) : Nat :=
  match target nBits with
  | some t => 2 ^ 256 / (t + 1)
  | none => 0

theorem target_eq_some {nBits : UInt32} {t : Nat} (h : target nBits = some t) :
    (setCompact nBits).fNegative = false ∧ (setCompact nBits).fOverflow = false ∧
      (setCompact nBits).bn ≠ 0 ∧ (setCompact nBits).bn.toNat = t := by
  unfold target at h
  dsimp only at h
  split at h
  · cases h
  · rename_i hvalid
    simp only [Bool.or_eq_true, beq_iff_eq, not_or, Bool.not_eq_true] at hvalid
    cases h
    exact ⟨hvalid.1.1, hvalid.1.2, hvalid.2, rfl⟩

theorem target_pos {nBits : UInt32} {t : Nat} (h : target nBits = some t) : 0 < t := by
  obtain ⟨-, -, hne, rfl⟩ := target_eq_some h
  by_contra hzero
  exact hne (BitVec.eq_of_toNat_eq (Nat.eq_zero_of_not_pos hzero))

/-- The mantissa leaves room above every target. -/
theorem bn_add_one_lt (nBits : UInt32) : (setCompact nBits).bn.toNat + 1 < 2 ^ 256 := by
  have hword := compactWord_lt nBits
  by_cases hlong : compactSize nBits ≤ 3
  · have hzero : 8 * (compactSize nBits - 3) = 0 := by omega
    rw [toNat_setCompact, hzero, Nat.pow_zero, Nat.mul_one]
    omega
  · -- the number ends on a byte that is zero
    have hdvd : 2 ^ 8 ∣ (setCompact nBits).bn.toNat := by
      have hpow : 2 ^ 8 ∣ 2 ^ (8 * (compactSize nBits - 3)) :=
        Nat.pow_dvd_pow 2 (by omega)
      rw [toNat_setCompact]
      exact (Nat.dvd_mod_iff (by decide)).mpr (hpow.mul_left _)
    have hlt := (setCompact nBits).bn.isLt
    omega

theorem toNat_add_one (nBits : UInt32) :
    (add (setCompact nBits).bn 1).toNat = (setCompact nBits).bn.toNat + 1 := by
  have hlt := bn_add_one_lt nBits
  rw [add_eq, BitVec.toNat_add]
  exact Nat.mod_eq_of_lt hlt

theorem add_one_ne_zero (nBits : UInt32) : add (setCompact nBits).bn 1 ≠ 0 := by
  intro hzero
  have := toNat_add_one nBits
  rw [hzero] at this
  have hz : (0 : Uint256).toNat = 0 := rfl
  omega

/-! ## Work -/

/-- What is left of `2 ^ 256` makes one hash less. -/
theorem div_complement {t : Nat} (h : t + 1 ≤ 2 ^ 256) :
    (2 ^ 256 - 1 - t) / (t + 1) + 1 = 2 ^ 256 / (t + 1) := by
  rw [← Nat.add_div_right _ (by omega)]
  congr 1
  omega

theorem expectedHashes_lt (nBits : UInt32) : expectedHashes nBits < 2 ^ 256 := by
  unfold expectedHashes
  split
  · rename_i t ht
    have hpos := target_pos ht
    exact Nat.div_lt_self (by decide) (by omega)
  · decide

theorem getBlockProof_eq (block : CBlockIndex) :
    ∃ proof, getBlockProof block = some proof ∧ proof.toNat = expectedHashes block.nBits := by
  have hwork := expectedHashes_lt block.nBits
  unfold getBlockProof
  dsimp only
  by_cases hvalid : ((setCompact block.nBits).fNegative || (setCompact block.nBits).fOverflow ||
      (setCompact block.nBits).bn == 0) = true
  · have hnone : target block.nBits = none := if_pos hvalid
    rw [if_pos hvalid]
    refine ⟨0, rfl, ?_⟩
    unfold expectedHashes
    rw [hnone]
    rfl
  · have hsome : target block.nBits = some (setCompact block.nBits).bn.toNat := if_neg hvalid
    have hlt := bn_add_one_lt block.nBits
    have hdiv := div_complement hlt.le
    unfold expectedHashes at hwork ⊢
    rw [hsome] at hwork ⊢
    rw [if_neg hvalid, div_eq_some _ (add_one_ne_zero block.nBits), Option.map_some]
    refine ⟨_, rfl, ?_⟩
    have hquotient : (complement (setCompact block.nBits).bn /
        add (setCompact block.nBits).bn 1).toNat =
          (2 ^ 256 - 1 - (setCompact block.nBits).bn.toNat) /
            ((setCompact block.nBits).bn.toNat + 1) := by
      rw [BitVec.toNat_udiv, toNat_add_one, complement_eq, BitVec.toNat_not]
    have hone : (1 : Uint256).toNat = 1 := rfl
    rw [add_eq, BitVec.toNat_add, hquotient, hone, hdiv]
    exact Nat.mod_eq_of_lt hwork

theorem expectedHashes_antitone {a b : UInt32} {t u : Nat} (ht : target a = some t)
    (hu : target b = some u) (hle : t ≤ u) : expectedHashes b ≤ expectedHashes a := by
  unfold expectedHashes
  rw [ht, hu]
  exact Nat.div_le_div_left (by omega) (by omega)

/-- The work of the blocks of a chain, as a number. -/
def totalWork (blocks : List CBlockIndex) : Nat :=
  (blocks.map fun block => expectedHashes block.nBits).sum

@[simp] theorem totalWork_cons (block : CBlockIndex) (rest : List CBlockIndex) :
    totalWork (block :: rest) = expectedHashes block.nBits + totalWork rest := by
  simp [totalWork]

theorem getBlockTrust_isSome (block : CBlockIndex) : ∃ trust, getBlockTrust block = some trust := by
  unfold getBlockTrust
  dsimp only
  split
  · exact ⟨0, rfl⟩
  · split
    · exact ⟨_, div_eq_some _ (add_one_ne_zero block.nBits)⟩
    · rw [div_eq_some _ (add_one_ne_zero block.nBits)]
      exact ⟨_, rfl⟩

/-- What the index holds for the tip of a chain. -/
theorem addToBlockIndex_work (pindexNew : CBlockIndex) (pprevs : List CBlockIndex) :
    ∃ pindex, addToBlockIndex pindexNew pprevs = some pindex ∧
      pindex.nBits = pindexNew.nBits ∧
      pindex.nChainWork.toNat =
        ((pprevs.head?.map fun pprev => pprev.nChainWork.toNat).getD 0 +
          expectedHashes pindexNew.nBits) % 2 ^ 256 := by
  obtain ⟨proof, hproof, hwork⟩ := getBlockProof_eq pindexNew
  obtain ⟨trust, htrust⟩ := getBlockTrust_isSome pindexNew
  cases pprevs with
  | nil =>
      rw [addToBlockIndex, hproof]
      refine ⟨_, rfl, rfl, ?_⟩
      show (add 0 proof).toNat = _
      rw [add_eq, BitVec.toNat_add, hwork]
      rfl
  | cons pprev rest =>
      rw [addToBlockIndex, hproof, htrust]
      refine ⟨_, rfl, rfl, ?_⟩
      show (add pprev.nChainWork proof).toNat = _
      rw [add_eq, BitVec.toNat_add, hwork]
      rfl

/-- The work of a chain, up to multiples of `2 ^ 256`. -/
theorem chainIndex_work (blocks : List CBlockIndex) :
    ∃ entries, chainIndex blocks = some entries ∧ entries.length = blocks.length ∧
      (entries.head?.map fun pindex => pindex.nChainWork.toNat).getD 0 =
        totalWork blocks % 2 ^ 256 := by
  induction blocks with
  | nil => exact ⟨[], rfl, rfl, rfl⟩
  | cons block rest ih =>
      obtain ⟨pprevs, hrest, hlen, hsum⟩ := ih
      obtain ⟨pindex, hadd, -, hwork⟩ := addToBlockIndex_work block pprevs
      refine ⟨pindex :: pprevs, ?_, by simp [hlen], ?_⟩
      · rw [chainIndex, hrest, Option.bind_some, hadd, Option.map_some]
      · show pindex.nChainWork.toNat = _
        rw [hwork, hsum, totalWork_cons, Nat.mod_add_mod, Nat.add_comm]

/-- **The work of a block is the quotient, and that of a chain the sum.**  A
code that stands for no target has no work, no division is by zero, a higher
target is less work, and the sum is exact as long as it fits. -/
theorem blockProof_exact :
    (∀ block : CBlockIndex, ∃ proof, getBlockProof block = some proof ∧
      proof.toNat = match target block.nBits with
        | some t => 2 ^ 256 / (t + 1)
        | none => 0) ∧
    (∀ (a b : CBlockIndex) (t u : Nat) (p q : Uint256), target a.nBits = some t →
      target b.nBits = some u → t ≤ u → getBlockProof a = some p →
      getBlockProof b = some q → q ≤ p) ∧
    (∀ blocks : List CBlockIndex, ∃ entries, chainIndex blocks = some entries ∧
      entries.length = blocks.length ∧ ∀ pindex, entries.head? = some pindex →
        totalWork blocks < 2 ^ 256 → pindex.nChainWork.toNat = totalWork blocks) := by
  refine ⟨getBlockProof_eq, ?_, ?_⟩
  · intro a b t u p q ht hu hle hp hq
    obtain ⟨p', hp', hpwork⟩ := getBlockProof_eq a
    obtain ⟨q', hq', hqwork⟩ := getBlockProof_eq b
    rw [hp] at hp'
    rw [hq] at hq'
    cases hp'
    cases hq'
    rw [BitVec.le_def, hpwork, hqwork]
    exact expectedHashes_antitone ht hu hle
  · intro blocks
    obtain ⟨entries, hentries, hlen, hwork⟩ := chainIndex_work blocks
    refine ⟨entries, hentries, hlen, ?_⟩
    intro pindex hhead hfits
    rw [hhead] at hwork
    rw [Nat.mod_eq_of_lt hfits] at hwork
    exact hwork

/-- Two blocks at about the limit of the main network. -/
theorem blockProof_exact_limit :
    ∃ entries, chainIndex [⟨1, 0, 0x1e0fffff, true, 0, 0⟩, ⟨0, 0, 0x1e0fffff, false, 0, 0⟩] =
      some entries ∧ ∀ pindex, entries.head? = some pindex →
        pindex.nChainWork.toNat = 2097154 := by
  obtain ⟨entries, hentries, -, hwork⟩ := blockProof_exact.2.2
    [⟨1, 0, 0x1e0fffff, true, 0, 0⟩, ⟨0, 0, 0x1e0fffff, false, 0, 0⟩]
  have htotal : totalWork
      [⟨1, 0, 0x1e0fffff, true, 0, 0⟩, ⟨0, 0, 0x1e0fffff, false, 0, 0⟩] = 2097154 := by
    decide +kernel
  refine ⟨entries, hentries, fun pindex hhead => ?_⟩
  rw [hwork pindex hhead (by rw [htotal]; decide), htotal]

/-! ## Trust -/

/-- The numerator is shifted out of the word. -/
theorem shiftLeft_one_eq_zero : shiftLeft 1 256 = 0 := by
  rw [shiftLeft_eq]
  exact BitVec.shiftLeft_eq_zero (Nat.le_refl 256)

theorem getBlockTrust_proofOfStake {block : CBlockIndex} (h : block.fProofOfStake = true) :
    getBlockTrust block = some 0 := by
  unfold getBlockTrust
  dsimp only
  rw [if_pos h]
  split
  · rfl
  · rw [shiftLeft_one_eq_zero, div_eq_some _ (add_one_ne_zero block.nBits)]
    congr 1
    apply BitVec.eq_of_toNat_eq
    rw [BitVec.toNat_udiv]
    exact Nat.zero_div _

theorem addToBlockIndex_eq {pindexNew pprev : CBlockIndex} {trust proof : Uint256}
    (htrust : getBlockTrust pindexNew = some trust)
    (hproof : getBlockProof pindexNew = some proof) (rest : List CBlockIndex) :
    addToBlockIndex pindexNew (pprev :: rest) =
      some { pindexNew with
        nHeight := pprev.nHeight + 1
        bnChainTrust := add pprev.bnChainTrust trust
        nChainWork := add pprev.nChainWork proof } := by
  rw [addToBlockIndex, htrust, hproof, Option.bind_some, Option.map_some]

/-- **A proof-of-stake block adds no trust.**  Its trust is zero although its
target has a quotient of at least one, and the trust of its chain is that of
its parent. -/
theorem proofOfStake_trust (block : CBlockIndex) (t : Nat) (hstake : block.fProofOfStake = true)
    (ht : target block.nBits = some t) :
    getBlockTrust block = some 0 ∧ 1 ≤ 2 ^ 256 / (t + 1) ∧
      (¬ ∃ trust, getBlockTrust block = some trust ∧ trust.toNat = 2 ^ 256 / (t + 1)) ∧
      ∀ (pprev : CBlockIndex) (rest : List CBlockIndex),
        ∃ pindex, addToBlockIndex block (pprev :: rest) = some pindex ∧
          pindex.bnChainTrust = pprev.bnChainTrust ∧
          ¬ pprev.bnChainTrust < pindex.bnChainTrust := by
  have hzero := getBlockTrust_proofOfStake hstake
  have hpos : 1 ≤ 2 ^ 256 / (t + 1) := by
    obtain ⟨-, -, -, hbn⟩ := target_eq_some ht
    have hlt := bn_add_one_lt block.nBits
    exact Nat.div_pos (by omega) (by omega)
  refine ⟨hzero, hpos, ?_, ?_⟩
  · rintro ⟨trust, htrust, heq⟩
    rw [hzero] at htrust
    cases htrust
    have hz : (0 : Uint256).toNat = 0 := rfl
    omega
  · intro pprev rest
    obtain ⟨proof, hproof, -⟩ := getBlockProof_eq block
    have hsum : add pprev.bnChainTrust 0 = pprev.bnChainTrust := by
      rw [add_eq]
      exact BitVec.add_zero _
    refine ⟨_, addToBlockIndex_eq hzero hproof rest, hsum, ?_⟩
    show ¬ pprev.bnChainTrust < add pprev.bnChainTrust 0
    rw [hsum]
    exact BitVec.lt_irrefl _

/-- A block with the target of the main network's limit. -/
theorem proofOfStake_trust_limit :
    getBlockTrust ⟨0, 0, 0x1e0fffff, true, 0, 0⟩ = some 0 :=
  (proofOfStake_trust ⟨0, 0, 0x1e0fffff, true, 0, 0⟩ (0x0fffff * 2 ^ 216) rfl
    (by decide +kernel)).1

/-- A proof-of-stake block that meets a target of about `2 ^ 236` has the trust
zero, and its quotient is more than a million. -/
theorem stake_adds_nothing :
    target 0x1e0fffff = some (0x0fffff * 2 ^ 216) ∧
      2 ^ 256 / (0x0fffff * 2 ^ 216 + 1) = 1048577 ∧
      getBlockTrust ⟨0, 0, 0x1e0fffff, true, 0, 0⟩ = some 0 ∧
      (addToBlockIndex ⟨0, 0, 0x1e0fffff, true, 0, 0⟩
        [⟨2, 0, 0x1e0fffff, false, 5, 5⟩]).map CBlockIndex.bnChainTrust = some 5 := by
  decide +kernel

end Agrarian.Pow
