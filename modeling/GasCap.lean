import GasCap.Books
import GasCap.Coverage
import GasCap.Backing
import GasCap.Strike
import GasCap.Exit
import GasCap.ClaimOrder
import GasCap.Reentrancy
import GasCap.Fallback
import GasCap.Traders
import GasCap.Providers
import GasCap.Pool
import GasCap.Exposure
import GasCap.Independence
import GasCap.Registrations
import GasCap.Ownerless
import GasCap.CreateMarketScript
import GasCap.Creators
import GasCap.EventLog
import GasCap.Serialization
import GasCap.Solvency
import GasCap.Stress
import GasCap.Isolation
import GasCap.SettlementScripts
import GasCap.ListScripts
import GasCap.MintScripts
import GasCap.LiquidityScripts
import GasCap.CrossCalls
import GasCap.ResultLines
import GasCap.InteractScript
