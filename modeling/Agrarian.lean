import Agrarian.Stake.FakeStake
import Agrarian.SwiftTX.LockedInputs
import Agrarian.SwiftTX.Votes
import Agrarian.SwiftTX.Notify
import Agrarian.Spork.SignedText
import Agrarian.Masternode.OrphanVotes
import Agrarian.Validation.Revalidation
import Agrarian.Validation.CheckQueue
import Agrarian.Zerocoin.Reindex
import Agrarian.Stake.TargetHit
import Agrarian.Pow.NextWork
import Agrarian.Stake.KernelModifier
import Agrarian.Stake.Selection
import Agrarian.Net.Messages
import Agrarian.Net.AddrManCalls
import Agrarian.Serialize.CompactSize
import Agrarian.Coins.UndoRecord
import Agrarian.Coins.SerializeSize
import Agrarian.Serialize.Amounts
import Agrarian.Serialize.Scripts
import Agrarian.Merkle.Matches
import Agrarian.Zerocoin.SelectMints
import Agrarian.BlockIndex.MedianTime
import Agrarian.Merkle.Branch
import Agrarian.BlockIndex.Locator
import Agrarian.Net.NextBlocks
import Agrarian.Mempool.Orphans
import Agrarian.Validation.CheckTransaction
import Agrarian.Merkle.Duplicates
import Agrarian.Zerocoin.SupplyRuns
import Agrarian.Validation.MoneySupply
import Agrarian.Masternode.RandomPick
import Agrarian.Masternode.WinnerRanks
import Agrarian.Mempool.Descendants
import Agrarian.Validation.BlockFiles
import Agrarian.Mempool.FeeEstimate
import Agrarian.Script.Safety
import Agrarian.Script.Arithmetic
import Agrarian.Script.MultiSig
import Agrarian.Script.SignatureHash
import Agrarian.Masternode.CheckAndRemove
import Agrarian.Masternode.Allotment
import Agrarian.Net.BloomFilter
import Agrarian.Wallet.CoinStake
import Agrarian.Arith.BaseUint
import Agrarian.Util.Base58
import Agrarian.Util.TimeData
import Agrarian.Net.LimitedMap
import Agrarian.Validation.ExternalBlockFile
import Agrarian.Zerocoin.GenerateWitness
import Agrarian.Zerocoin.SyncWithChain
import Agrarian.Wallet.RightTransaction
import Agrarian.Libzerocoin.AccumulatorProof
import Agrarian.Libzerocoin.SerialNumberSignature
