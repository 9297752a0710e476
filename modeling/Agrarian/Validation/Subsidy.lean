import Agrarian.Primitives
import Agrarian.Lib.MachineInt

/-!
# Amounts and block rewards

The network parameters that amounts depend on, the range of valid amounts,
and what a block may create: `GetBlockValue` and `GetMasternodePayment`.
-/

namespace Agrarian.Validation

open Agrarian.Lib

/-- The number of base units in a coin. -/
def COIN : Int := 100000000

structure CChainParams where
  /-- `NetworkID() == TESTNET`. -/
  fTestNet : Bool
  nMaxMoneyOut : Int
  /-- The limit is an amount, and one fits into 64 bits. -/
  nMaxMoneyOut_nonneg : 0 ≤ nMaxMoneyOut
  nMaxMoneyOut_lt : nMaxMoneyOut < 2 ^ 63
  nLastPOWBlock : Int
  nFirstPoSBlock : Int
  nBudgetCycleBlocks : Int
  nMasternodeCountDrift : Nat

/-- `CMainParams`. -/
def mainParams : CChainParams where
  fTestNet := false
  nMaxMoneyOut := 7766279631352241920
  nMaxMoneyOut_nonneg := by norm_num
  nMaxMoneyOut_lt := by norm_num
  nLastPOWBlock := 2629800
  nFirstPoSBlock := 2
  nBudgetCycleBlocks := 4320
  nMasternodeCountDrift := 20

variable (params : CChainParams)

def moneyRange (nValue : Int) : Bool :=
  0 ≤ nValue && nValue ≤ params.nMaxMoneyOut

/-- What a block may create.  A proof-of-work block beyond the last one has
no reward. -/
def getBlockValue (nHeight : Int) (fProofOfStake : Bool) : Int :=
  if nHeight = 0 then 5000000000 * COIN
  else if fProofOfStake then 10 * COIN
  else if 0 < nHeight ∧ nHeight ≤ params.nLastPOWBlock then 50 * COIN
  else 0

/-- `GetBlockValue(nHeight)`: the value of a proof-of-work block. -/
def getBlockValueOfHeight (nHeight : Int) : Int :=
  getBlockValue params nHeight false

/-- A quarter of the block value; the product with `0.25` is exact. -/
def getMasternodePayment (nHeight blockValue : Int) : Int :=
  if params.fTestNet ∧ nHeight < 200 then 0 else blockValue / 4

theorem getBlockValue_nonneg (nHeight : Int) (fProofOfStake : Bool) :
    0 ≤ getBlockValue params nHeight fProofOfStake := by
  unfold getBlockValue COIN
  split
  · omega
  split
  · omega
  split
  · omega
  · omega

end Agrarian.Validation
