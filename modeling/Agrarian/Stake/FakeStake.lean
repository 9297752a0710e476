import Agrarian.Stake.AcceptBlock

/-!
# Fake stakes

A proof-of-stake block that stakes what its chain has already spent, or never
had, can not be connected, but costs nothing to make.  `AcceptBlock` is to
keep such a block off the disk, also where its parent is not the tip.

On the tip the coins of the tip decide.  On any other block they are looked
up, but what is found has no effect: only what the blocks above the split
spend is compared.
-/

namespace Agrarian.Stake

open Agrarian.Lib Agrarian.Coins Agrarian.Validation Agrarian.Zerocoin

section FakeStake

variable (params : StakeParams) (oracle : Oracle) (checks : BlockChecks)
variable (tree : BlockTree)

/-- An input of a stake in the chain of these blocks: an unspent output, or a
zerocoin whose serial is not spent. -/
def UnspentOn (entries : List CBlockIndex) (stakeTxIn : CTransaction)
    (txin : CTxIn) : Prop :=
  if isZerocoin txin then
    ∃ nSerial, serialOf oracle checks stakeTxIn txin = some nSerial ∧
      ¬ SerialSpentOn oracle checks tree entries nSerial
  else unspentIn (tree.txsOf entries) txin.prevout = true

/-- What the block stakes, if it is stored, is unspent in the chain that ends
at its parent. -/
def StoresOnlyUnspent (fAlreadyCheckedBlock : Bool) (block : StakeBlock) :
    Prop :=
  ∀ pindexPrev stakeTxIn, isProofOfStake block.toCBlock = true →
    tree.mapBlockIndex block.hashPrevBlock = some pindexPrev →
    block.vtx[1]? = some stakeTxIn →
    acceptBlock params oracle checks tree fAlreadyCheckedBlock block =
      .ok true →
    ∀ txin ∈ stakeTxIn.vin,
      UnspentOn oracle checks tree (tree.path pindexPrev) stakeTxIn txin

/-- The output is one of the fork, or it was unspent at the split. -/
def UnspentAtSplit (pindexPrev : CBlockIndex) (out : COutPoint) : Prop :=
  if ∃ tx ∈ tree.txsOf (tree.fork pindexPrev), tx.hash = out.hash then
    createdIn (tree.txsOf (tree.fork pindexPrev)) out = true
  else unspentIn (tree.txsOf (tree.common pindexPrev)) out = true

/-- The database leads to a spend that counts. -/
def FindsSerial (pindexPrev : CBlockIndex) (nSerial : Uint256) : Prop :=
  ∃ nHeightTx, tree.isSerialInBlockchain nSerial = some nHeightTx ∧
    (tree.tip ≠ some pindexPrev →
      ∀ split, (tree.common pindexPrev).head? = some split →
        nHeightTx ≤ split.nHeight)

/-- The checks tell whether the input is spent, or nothing below the split has
spent it. -/
def Covered (pindexPrev : CBlockIndex) (stakeTxIn : CTransaction)
    (txin : CTxIn) : Prop :=
  if isZerocoin txin then
    ∃ nSerial, serialOf oracle checks stakeTxIn txin = some nSerial ∧
      ¬ SerialSpentOn oracle checks tree (tree.fork pindexPrev) nSerial ∧
      (SerialSpentOn oracle checks tree (tree.common pindexPrev) nSerial →
        txin.isZerocoinSpend = true ∧ FindsSerial tree pindexPrev nSerial)
  else
    (tree.tip = some pindexPrev ∧
      stakeTxIn.hasZerocoinSpendInputs = false) ∨
      UnspentAtSplit tree pindexPrev txin.prevout

variable {params oracle checks tree}
variable {pindexPrev : CBlockIndex} {stakeTxIn : CTransaction}

/-! ## The chain of the parent -/

theorem path_eq : tree.path pindexPrev =
    tree.fork pindexPrev ++ tree.common pindexPrev := by
  unfold BlockTree.fork BlockTree.common
  rw [List.takeWhile_append_dropWhile]

theorem txsOf_append (newer older : List CBlockIndex) :
    tree.txsOf (newer ++ older) = tree.txsOf newer ++ tree.txsOf older := by
  unfold BlockTree.txsOf
  rw [List.flatMap_append]

theorem serialSpentOn_append {newer older : List CBlockIndex}
    {nSerial : Uint256} :
    SerialSpentOn oracle checks tree (newer ++ older) nSerial ↔
      SerialSpentOn oracle checks tree newer nSerial ∨
        SerialSpentOn oracle checks tree older nSerial := by
  unfold SerialSpentOn
  simp only [List.mem_append, or_and_right, exists_or]

/-- The chain of the tip is the active chain, with nothing above it. -/
theorem tip_path (htip : tree.tip = some pindexPrev) :
    tree.path pindexPrev = tree.chainActive.reverse ∧
      tree.isActive pindexPrev = true := by
  unfold BlockTree.tip at htip
  rw [List.getLast?_eq_getElem?] at htip
  have hheight := tree.heights _ _ htip
  have hlinked := tree.linked _ _ htip
  obtain ⟨hlt, hget⟩ := List.getElem?_eq_some_iff.mp htip
  constructor
  · have hsplit : tree.chainActive = tree.chainActive.take
        (tree.chainActive.length - 1) ++ [pindexPrev] := by
      have hdrop := List.drop_eq_getElem_cons hlt
      rw [hget, Nat.sub_add_cancel (by omega), List.drop_length] at hdrop
      rw [← hdrop, List.take_append_drop]
    unfold BlockTree.path
    rw [hlinked]
    conv_rhs => rw [hsplit]
    rw [List.reverse_append, List.reverse_singleton, List.singleton_append]
  · unfold BlockTree.isActive chainContains chainAt
    rw [decide_eq_true_eq, hheight, if_neg (by omega), Int.toNat_natCast]
    exact htip

theorem tip_fork (htip : tree.tip = some pindexPrev) :
    tree.fork pindexPrev = [] := by
  unfold BlockTree.fork BlockTree.path
  simp [(tip_path htip).2]

/-! ## An input that is not refused -/

/-- A transaction of the fork that spends the output names it. -/
theorem spentOn_of_spendsOutput {entries : List CBlockIndex}
    {tx : CTransaction} (htx : tx ∈ tree.txsOf entries) {out : COutPoint}
    (h : spendsOutput tx out = true) : tree.SpentOn entries out := by
  unfold BlockTree.txsOf at htx
  obtain ⟨pindex, hpindex, htx⟩ := List.mem_flatMap.mp htx
  unfold spendsOutput at h
  rw [Bool.and_eq_true, List.any_eq_true] at h
  obtain ⟨-, txin, htxin, hprevout⟩ := h
  exact ⟨pindex, hpindex, tx, List.mem_reverse.mp htx, txin, htxin,
    of_decide_eq_true hprevout⟩

/-- An output that the fork does not spend is unspent at the parent exactly
when it is one of the fork or was unspent at the split. -/
theorem unspentAtSplit_iff {out : COutPoint}
    (hspent : ¬ tree.SpentOn (tree.fork pindexPrev) out) :
    UnspentAtSplit tree pindexPrev out ↔
      unspentIn (tree.txsOf (tree.path pindexPrev)) out = true := by
  have hnone : ∀ tx ∈ tree.txsOf (tree.fork pindexPrev),
      spendsOutput tx out = false := by
    intro tx htx
    rw [Bool.eq_false_iff]
    exact fun h => hspent (spentOn_of_spendsOutput htx h)
  unfold UnspentAtSplit
  rw [path_eq, txsOf_append, unspentIn_append _ _ _ hnone]
  split <;> rfl

/-- **A stake of coins on the tip**: the coins of the tip are those of the
parent's chain. -/
theorem unspent_of_tip (htip : tree.tip = some pindexPrev)
    (hcoins : stakeTxIn.hasZerocoinSpendInputs = false)
    (hrefused : ¬ Refused oracle tree pindexPrev stakeTxIn) {txin : CTxIn}
    (hmem : txin ∈ stakeTxIn.vin) :
    unspentIn (tree.txsOf (tree.path pindexPrev)) txin.prevout = true := by
  have havailable : ((tree.pcoinsTip txin.prevout.hash).any fun coins =>
      coins.isAvailable txin.prevout.n) = true := by
    by_contra hspent
    exact hrefused (.unavailable htip hcoins txin hmem
      (Bool.eq_false_iff.mpr hspent))
  rw [tree.unspent_coins] at havailable
  rw [(tip_path htip).1]
  exact havailable

theorem mem_agrInputs {txin : CTxIn} (hmem : txin ∈ stakeTxIn.vin)
    (hcoin : ¬ isZerocoin txin = true) : txin ∈ agrInputs stakeTxIn := by
  unfold isZerocoin at hcoin
  unfold agrInputs
  rw [List.mem_filter]
  refine ⟨hmem, ?_⟩
  cases hspend : txin.isZerocoinSpend with
  | true => simp [hspend] at hcoin
  | false => rfl

/-- **An input that is not refused** is unspent in the chain of the parent
exactly when it is covered. -/
theorem covered_iff (hrefused : ¬ Refused oracle tree pindexPrev stakeTxIn)
    {txin : CTxIn} (hmem : txin ∈ stakeTxIn.vin) :
    Covered oracle checks tree pindexPrev stakeTxIn txin ↔
      UnspentOn oracle checks tree (tree.path pindexPrev) stakeTxIn txin := by
  unfold Covered UnspentOn
  by_cases hzerocoin : isZerocoin txin = true
  · rw [if_pos hzerocoin, if_pos hzerocoin]
    constructor
    · rintro ⟨nSerial, hserial, hfork, hcommon⟩
      refine ⟨nSerial, hserial, ?_⟩
      rw [path_eq, serialSpentOn_append]
      rintro (hspent | hspent)
      · exact hfork hspent
      · obtain ⟨hprivate, nHeightTx, hfound, hbelow⟩ := hcommon hspent
        have hown : nSerial = (oracle.coinSpendOf txin).nSerial := by
          unfold serialOf at hserial
          rw [isZerocoinPublicSpend_eq_false hprivate] at hserial
          exact (Option.some.inj hserial).symm
        rw [hown] at hfound
        exact hrefused (.serialInChain txin
          (List.mem_filter.mpr ⟨hmem, hprivate⟩) nHeightTx hfound hbelow)
    · rintro ⟨nSerial, hserial, hspent⟩
      rw [path_eq, serialSpentOn_append, not_or] at hspent
      exact ⟨nSerial, hserial, hspent.1, fun h => absurd h hspent.2⟩
  · rw [if_neg hzerocoin, if_neg hzerocoin]
    by_cases htip : tree.tip = some pindexPrev
    · have hspent : ¬ tree.SpentOn (tree.fork pindexPrev) txin.prevout := by
        rw [tip_fork htip]
        rintro ⟨pindex, hpindex, _⟩
        cases hpindex
      rw [unspentAtSplit_iff hspent]
      constructor
      · rintro (⟨_, hcoins⟩ | hunspent)
        · exact unspent_of_tip htip hcoins hrefused hmem
        · exact hunspent
      · exact Or.inr
    · have hspent : ¬ tree.SpentOn (tree.fork pindexPrev) txin.prevout :=
        fun h => hrefused (.spentOnFork htip txin
          (mem_agrInputs hmem hzerocoin) h)
      rw [unspentAtSplit_iff hspent]
      constructor
      · rintro (⟨h, _⟩ | hunspent)
        · exact absurd h htip
        · exact hunspent
      · exact Or.inr

/-- **The stakes that are stored are unspent** exactly when every input that
passes the checks is covered: on the tip a stake of coins always is, and
elsewhere an output must be one of the fork or have been unspent at the
split. -/
theorem storesOnlyUnspent_iff {fAlreadyCheckedBlock : Bool}
    {block : StakeBlock} :
    StoresOnlyUnspent params oracle checks tree fAlreadyCheckedBlock block ↔
      ∀ pindexPrev stakeTxIn, isProofOfStake block.toCBlock = true →
        block.vtx[1]? = some stakeTxIn →
        HeaderChecks params oracle checks tree fAlreadyCheckedBlock block
          pindexPrev →
        StakeChecks params oracle checks tree block pindexPrev stakeTxIn →
        ¬ Refused oracle tree pindexPrev stakeTxIn →
        ∀ txin ∈ stakeTxIn.vin,
          Covered oracle checks tree pindexPrev stakeTxIn txin := by
  constructor
  · intro hunspent pindexPrev stakeTxIn hstake htx hheader hchecks hrefused
      txin hmem
    have haccept := (acceptBlock_stake_iff hstake).mpr
      ⟨pindexPrev, stakeTxIn, htx, hheader, hchecks, hrefused⟩
    rw [covered_iff hrefused hmem]
    exact hunspent pindexPrev stakeTxIn hstake hheader.parent htx haccept txin
      hmem
  · intro hcovered pindexPrev stakeTxIn hstake hparent htx haccept txin hmem
    obtain ⟨pindexPrev', stakeTxIn', htx', hheader, hchecks, hrefused⟩ :=
      (acceptBlock_stake_iff hstake).mp haccept
    rw [htx] at htx'
    cases htx'
    have hsame := hheader.parent
    rw [hparent] at hsame
    cases hsame
    rw [← covered_iff hrefused hmem]
    exact hcovered pindexPrev stakeTxIn hstake htx hheader hchecks hrefused
      txin hmem

end FakeStake

/-! ### A stake of a coin that was spent

The parent is the block below the tip, and the stake is the coin of block 2,
which block 301 spent. -/

def fakeStakeTx : CTransaction where
  hash := 20003
  vin := [{ prevout := ⟨10002, 0⟩ }]
  vout := [{ nValue := 0, scriptPubKey := [] },
    { nValue := 50 * COIN, scriptPubKey := [CScript.OP_CHECKSIG] }]

def fakeStakeBlock : StakeBlock where
  hash := 7000
  hashPrevBlock := 1529
  hashMerkleRoot := 0
  vtx := [regCoinbase 530, fakeStakeTx]
  nTime := UInt32.ofNat (1700000000 + 60 * 530)
  nBits := 0x1d00ffff

theorem fakeStakeBlock_parent :
    regTree.mapBlockIndex fakeStakeBlock.hashPrevBlock =
      some (regEntry 529) := by
  have hindex := regIndex_regEntry (show 529 < 531 by omega)
  exact hindex

theorem regTree_getIndexFrom :
    regTree.toNode.getIndexFrom (regCoinbase 2) = some (regEntry 2) := by
  rw [Node.getIndexFrom_eq_some]
  have hheight : (regEntry 2).nHeight = ((2 : Nat) : Int) := rfl
  have hchain : regTree.toNode.chainActive = regChain := rfl
  refine ⟨regCoinbase 2, by decide, ?_⟩
  rw [hchain, hheight, regChain_at, if_pos (by omega)]

theorem regTree_kernelModifier :
    getKernelStakeModifier regTestStakeParams regTree.toNode.mapBlockIndex
      regTree.toNode.chainActive (regEntry 2).hash = some 0 := by
  have hindex : regTree.toNode.mapBlockIndex (regEntry 2).hash =
      some (regEntry 2) := by
    have hentry := regIndex_regEntry (show 2 < 531 by omega)
    exact hentry
  unfold getKernelStakeModifier
  rw [hindex]
  rfl

theorem fakeStakeBlock_kernel : (checkProofOfStake regTestStakeParams regOracle
    regTree.toNode fakeStakeBlock 529).isSome = true := by
  have hstake : coinStake regTestStakeParams regOracle regTree.toNode
      fakeStakeTx { prevout := ⟨10002, 0⟩ } = some
        { pindexFrom := regEntry 2
          nStakeModifier := some 0
          uniqueness := .coin 0 10002
          nValue := 50 * COIN } := by
    have hlookup : regTree.toNode.getTransaction 10002 =
        some (regCoinbase 2, 1002) := by
      decide
    have hout : (regCoinbase 2).vout[0]? = some
        { nValue := 50 * COIN, scriptPubKey := [CScript.OP_CHECKSIG] } := by
      decide
    unfold coinStake
    simp only [hlookup, hout, regTree_getIndexFrom, Option.map_some,
      regTree_kernelModifier]
    rfl
  have htx : fakeStakeBlock.vtx[1]? = some fakeStakeTx := rfl
  have htxin : fakeStakeTx.vin.head? =
      some { prevout := ⟨10002, 0⟩ } := rfl
  have hcoinstake : (!fakeStakeTx.isCoinStake) = false := by decide
  have hcoin : CTxIn.isZerocoinSpend { prevout := ⟨10002, 0⟩ } = false := by
    decide
  unfold checkProofOfStake
  simp only [htx, htxin, hcoinstake, hcoin, Bool.false_eq_true, if_false,
    hstake, Option.bind_some]
  unfold checkKernel
  have hread : regTree.toNode.readBlockFromDisk (regEntry 2) =
      some (regBlock (regEntry 2)) := rfl
  simp only [hread]
  decide

theorem regTree_active_path {n : Nat} (hn : n < 531) :
    regTree.path (regEntry n) = (regChain.take (n + 1)).reverse := by
  have hget : regChain[n]? = some (regEntry n) := by
    rw [regChain_getElem?, if_pos hn]
  have hancestors : regTree.ancestors (regEntry n) =
      (regChain.take n).reverse := rfl
  rw [BlockTree.path, hancestors, List.take_add_one, hget,
    Option.toList_some, List.reverse_append, List.reverse_singleton,
    List.singleton_append]

/-- **A fake stake**: the coin is spent in every chain that the node knows,
and the stake is stored. -/
theorem fake_stake_stored :
    ¬ StoresOnlyUnspent regTestStakeParams regOracle {} regTree false
      fakeStakeBlock := by
  have hstake : isProofOfStake fakeStakeBlock.toCBlock = true := by decide
  have htx : fakeStakeBlock.vtx[1]? = some fakeStakeTx := rfl
  have hactive := regTree_isActive (show 529 < 531 by omega)
  have hfork : regTree.fork (regEntry 529) = [] := by
    unfold BlockTree.fork BlockTree.path
    simp [hactive]
  have hsplit : (regTree.common (regEntry 529)).head? =
      some (regEntry 529) := by
    unfold BlockTree.common BlockTree.path
    simp [hactive]
  have hzerocoins : zAGRInputs fakeStakeTx = [] := by decide
  have htip : regTree.tip ≠ some (regEntry 529) := by
    intro htip
    have hheight : ((529 : Nat) : Int) = ((530 : Nat) : Int) := by
      have hchain : regTree.chainActive = regChain := rfl
      rw [BlockTree.tip, hchain, List.getLast?_eq_getElem?,
        regChain_length] at htip
      exact regTree.heights 530 (regEntry 529) htip
    omega
  intro hunspent
  have haccept : acceptBlock regTestStakeParams regOracle {} regTree false
      fakeStakeBlock = .ok true := by
    rw [acceptBlock_stake_iff hstake]
    refine ⟨regEntry 529, fakeStakeTx, htx, ?_, ?_, ?_⟩
    · exact ⟨by decide, fakeStakeBlock_parent, rfl, rfl,
        fakeStakeBlock_kernel, rfl, rfl, rfl, rfl⟩
    · constructor
      · decide
      · exact fun _ _ => rfl
      · intro _
        rw [hfork]
        refine ⟨by decide, regEntry 529, hsplit, ?_, rfl⟩
        intro pindex hpindex
        cases hpindex
      · exact fun _ _ _ => ⟨rfl, rfl⟩
    · intro hrefused
      cases hrefused with
      | spentOnFork _ txin _ hspent =>
          rw [hfork] at hspent
          obtain ⟨pindex, hpindex, _⟩ := hspent
          cases hpindex
      | serialOnFork _ _ txin hmem =>
          rw [hzerocoins] at hmem
          cases hmem
      | serialInChain txin hmem =>
          rw [hzerocoins] at hmem
          cases hmem
      | unavailable h => exact htip h
  have hinput := hunspent (regEntry 529) fakeStakeTx hstake
    fakeStakeBlock_parent htx haccept { prevout := ⟨10002, 0⟩ } (by decide)
  have hspent := regChain_unspent (by omega : 301 < 529 + 1) ⟨10002, 0⟩
  unfold UnspentOn at hinput
  rw [if_neg (by decide), regTree_active_path (by omega)] at hinput
  have htxs : regTree.txsOf (regChain.take (529 + 1)).reverse =
      (regChain.take (529 + 1)).reverse.flatMap fun pindex =>
        (regBlock pindex).vtx.reverse := rfl
  rw [htxs, hspent] at hinput
  cases hinput

end Agrarian.Stake
