import TrumpCoin.Chainstate.Supply
import TrumpCoin.Payments.DoublePayment
import TrumpCoin.Payments.WinnerRuns
import TrumpCoin.Chainstate.Reversal
import TrumpCoin.Chainstate.ValueRange
import TrumpCoin.Patriotnodes.Delivery
import TrumpCoin.Stake.Selection
import TrumpCoin.Chainstate.TipFollowers
import TrumpCoin.Chainstate.CacheRefinement
import TrumpCoin.Sapling.WitnessRuns
import TrumpCoin.Evo.DBRuns
import TrumpCoin.Net.BlockDelivery
import TrumpCoin.Net.Banning
import TrumpCoin.Net.Spork
import TrumpCoin.Net.RollingBloomFilter
import TrumpCoin.Patriotnodes.Sync
import TrumpCoin.Chainstate.ScriptFlags
import TrumpCoin.Pow
import TrumpCoin.SigHash
import TrumpCoin.Payments.BudgetState
import TrumpCoin.Evo.Projection
import TrumpCoin.Evo.Checking
