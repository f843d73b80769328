import SkyMoonScope.Core.MerkleTree.Binding
import SkyMoonScope.CrossChainVerifier.MerkleSoundness
import SkyMoonScope.CrossChainVerifier.Batches
import SkyMoonScope.CrossChainVerifier.LeafBinding
import SkyMoonScope.LiquidityPool.ShareValue
import SkyMoonScope.LiquidityPool.Quotes
import SkyMoonScope.LiquidityPool.Ownership
import SkyMoonScope.LiquidityPool.RestakedRewards
import SkyMoonScope.LiquidityPool.HoldingPeriod
import SkyMoonScope.LiquidityPool.PauseAuthority
import SkyMoonScope.LiquidityPool.AdminConsistency
import SkyMoonScope.Core.Jobs.StatusRace
import SkyMoonScope.Core.Jobs.Stranding
import SkyMoonScope.Core.Jobs.Executions
import SkyMoonScope.Core.Auth
import SkyMoonScope.Core.LeaderLock
import SkyMoonScope.Core.Webhooks
import SkyMoonScope.Core.FeeCollector.DeadLetters
import SkyMoonScope.Core.RpcThrottle
import SkyMoonScope.Core.Simulation.Failover
import SkyMoonScope.Core.Simulation.Instrumenter.Behaviour
import SkyMoonScope.Core.RpcProvider.Gossip
import SkyMoonScope.Core.CallTrace.RoundTrip
import SkyMoonScope.Core.SysAlarms
import SkyMoonScope.Core.Shares
import SkyMoonScope.PrivateTransfer.Roots
import SkyMoonScope.FlashLoanVault.Safety
import SkyMoonScope.Cdp.Interest
import SkyMoonScope.Cdp.Solvency
import SkyMoonScope.Math.MulDiv
import SkyMoonScope.Math.Isqrt
import SkyMoonScope.Math.ExpRange
import SkyMoonScope.MultiYieldVault.Conservation
import SkyMoonScope.ConcentratedAmm.Liquidity
import SkyMoonScope.ConcentratedAmm.PriceTicks
import SkyMoonScope.ConcentratedAmm.Ratios
import SkyMoonScope.PrivateTransfer.SingleSpend
import SkyMoonScope.EmergencyGuard.Quorum
import SkyMoonScope.EmergencyGuard.Agreement
import SkyMoonScope.TokenContract.Supply
import SkyMoonScope.Governance.Execution
import SkyMoonScope.TimelockedEscrow.Settlement
import SkyMoonScope.StatementVerifier.KeyBinding
import SkyMoonScope.TwapOracle.Average
import SkyMoonScope.Gasless.Replay
import SkyMoonScope.AuctionFactory.Registry
import SkyMoonScope.LiquidityPoolFactory
import SkyMoonScope.SoulboundToken
import SkyMoonScope.OracleAggregator.Majority
import SkyMoonScope.EnglishAuction.Settlement
import SkyMoonScope.StakingRewards.Accrual
import SkyMoonScope.Cdp.Liquidation
import SkyMoonScope.HybridAmmLob.AmmLeg
import SkyMoonScope.ConcentratedAmm.MulDiv
import SkyMoonScope.MultiYieldVault.Fifo
import SkyMoonScope.MultiYieldVault.Schedules
import SkyMoonScope.MultiYieldVault.Split
import SkyMoonScope.ConcentratedAmm.RoundTrip
import SkyMoonScope.ConcentratedAmm.SwapLoop
import SkyMoonScope.StakingRewards.Epochs
import SkyMoonScope.OracleAggregator.OrderIndependence
import SkyMoonScope.OracleAggregator.Twap
import SkyMoonScope.DutchAuction.Auction
import SkyMoonScope.BatchTransfer.Ledger
import SkyMoonScope.PrivateTransfer.Notes
import SkyMoonScope.Core.WasmBranchAnalysis.Branches
import SkyMoonScope.Core.WasmBranchAnalysis.Estimate
import SkyMoonScope.Core.WasmBranchAnalysis.Variations
import SkyMoonScope.Core.SorobanMeta.Sections
import SkyMoonScope.Core.ArgParser.MapOrder
import SkyMoonScope.Core.Auth
import SkyMoonScope.Core.Cache.Keys
import SkyMoonScope.Core.Cache.LedgerEntries
import SkyMoonScope.Core.Simulation.ResourceSearch
import SkyMoonScope.Core.FeeAnalytics
import SkyMoonScope.Core.CallTrace.Unwinding
import SkyMoonScope.ConcentratedAmm.NextTick
import SkyMoonScope.Core.Cache.Results
import SkyMoonScope.Core.Simulation.Consensus
import SkyMoonScope.Core.RpcProvider.Latency
import SkyMoonScope.Core.Shares.Links
import SkyMoonScope.Core.CallTrace.Mermaid
import SkyMoonScope.Core.Simulation.OptimizeLimits
import SkyMoonScope.Core.WorkerPool
import SkyMoonScope.Core.SimulationService
import SkyMoonScope.Core.Cache.Disk
