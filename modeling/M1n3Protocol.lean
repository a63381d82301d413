import M1n3Protocol.Lib.Sha256
import M1n3Protocol.Lib.Bytes
import M1n3Protocol.Lib.Checked
import M1n3Protocol.Lib.ObjStore
import M1n3Protocol.Lib.Machine
import M1n3Protocol.Lib.ProRata
import M1n3Protocol.Chain.MiningStep
import M1n3Protocol.Chain.HashiStep
import M1n3Protocol.Proofs.Rounds
import M1n3Protocol.Proofs.Exclusivity
import M1n3Protocol.Proofs.Dedup
import M1n3Protocol.Proofs.Provenance
import M1n3Protocol.Proofs.Rewards
import M1n3Protocol.Proofs.Vault
import M1n3Protocol.Chain.SlotStep
import M1n3Protocol.Lib.BitcoinTx
import M1n3Protocol.Lib.CompactTarget
import M1n3Protocol.Proofs.Coinbase
import M1n3Protocol.Proofs.Redemption
import M1n3Protocol.Chain.Market
import M1n3Protocol.Chain.OrderJournal
import M1n3Protocol.Proofs.Accounts
import M1n3Protocol.Proofs.Blocks
import M1n3Protocol.Proofs.DepositIndex
import M1n3Protocol.Proofs.Hashpower
import M1n3Protocol.Proofs.LifeCycle
import M1n3Protocol.Proofs.Market
import M1n3Protocol.Proofs.OneMiner
import M1n3Protocol.Proofs.PoolPay
import M1n3Protocol.Proofs.Recordable
import M1n3Protocol.Proofs.SoldWork
import M1n3Protocol.Proofs.Attribution
import M1n3Protocol.Proofs.Heights
import M1n3Protocol.Proofs.Lockout
import M1n3Protocol.Proofs.SlotLedger
import M1n3Protocol.Proofs.SlotRate
import M1n3Protocol.Lib.BitcoinBlock
import M1n3Protocol.Lib.HashChain
import M1n3Protocol.Lib.Hex
import M1n3Protocol.Lib.Merkle
import M1n3Protocol.Proofs.AssembledBlock
import M1n3Protocol.Proofs.OneLane
import M1n3Protocol.Proofs.ShareHandOff
import M1n3Protocol.Proofs.Stranded
import M1n3Protocol.Client.MinerClient
import M1n3Protocol.Client.SubmitBatch
import M1n3Protocol.Keeper.Keeper
import M1n3Protocol.Lib.Run
import M1n3Protocol.Proofs.BatchSettled
import M1n3Protocol.Proofs.CoinbaseRoundTrip
import M1n3Protocol.Proofs.DifficultyFloor
import M1n3Protocol.Proofs.DifficultyPush
import M1n3Protocol.Proofs.Forwarding
import M1n3Protocol.Proofs.HeaderOnce
import M1n3Protocol.Proofs.KeeperRetry
import M1n3Protocol.Proofs.MerkleBranches
import M1n3Protocol.Proofs.PooledShares
import M1n3Protocol.Proofs.StatsClosed
import M1n3Protocol.Contract.Compact
import M1n3Protocol.Lib.CoinbaseTail
import M1n3Protocol.Lib.Js
import M1n3Protocol.Proofs.CoinbaseTail
import M1n3Protocol.Proofs.CompactTargets
import M1n3Protocol.Proofs.SameTemplate
import M1n3Protocol.Client.OrderBook
import M1n3Protocol.Proofs.LiveOrders
import M1n3Protocol.Proofs.SlotWatcher
import M1n3Protocol.Client.PegLoop
import M1n3Protocol.Lib.Decimal
import M1n3Protocol.Lib.Grid
import M1n3Protocol.Lib.JsText
import M1n3Protocol.Operator.PayoutTx
import M1n3Protocol.Proofs.AmountText
import M1n3Protocol.Proofs.DedupTables
import M1n3Protocol.Proofs.HedgeFloor
import M1n3Protocol.Proofs.PayoutValue
import M1n3Protocol.Proofs.PegStable
import M1n3Protocol.Proofs.TargetCompare
import M1n3Protocol.Chain.Otc
import M1n3Protocol.Client.VersionCache
import M1n3Protocol.Contract.MerkleProof
import M1n3Protocol.Lib.MerkleProof
import M1n3Protocol.Lib.Ranking
import M1n3Protocol.Proofs.MerkleProof
import M1n3Protocol.Proofs.OtcDesk
import M1n3Protocol.Proofs.Session
import M1n3Protocol.Proofs.TemplateSelector
import M1n3Protocol.Proofs.VersionCache
import M1n3Protocol.Lib.Base64
import M1n3Protocol.Proofs.Explorer
import M1n3Protocol.Proofs.PageTargets
