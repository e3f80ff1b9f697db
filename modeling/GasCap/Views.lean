import GasCap.Market
import GasCap.Lib.FixedArray

/-!
# The views of a market

`getPosition`, `getActiveTraders`, `getContractState`, `getUserProfile`, `liquidityProvided`, and
`getMarketInfo`, which read the state of a market without a call's context.
-/

namespace GasCap

def getPosition (trader : Address) (m : Market) : Position := m.positions trader

/-- The traders marked as active, collected in the two loops of the source. The second one panics
when it writes beyond the array. -/
def getActiveTraders (m : Market) : Except Revert (List Address) :=
  let count := FixedArray.count m.isActiveTrader m.activeTraders 0
  let traders := List.replicate count 0
  FixedArray.fill (.panic 0x32) m.isActiveTrader id m.activeTraders traders 0

/-- What `getContractState` returns. -/
structure ContractState where
  strikePrice : Uint256
  expiryTimestamp : Uint256
  isSettled : Bool
  settlementPrice : Uint256
  totalLiquidity : Uint256
  participantCount : ℕ

def getContractState (m : Market) : ContractState where
  strikePrice := m.strikePrice
  expiryTimestamp := m.expiryTimestamp
  isSettled := m.isSettled
  settlementPrice := m.settlementPrice
  totalLiquidity := m.totalLiquidity
  participantCount := m.participants.length

def getUserProfile (user : Address) (m : Market) : UserProfile := m.users user

/-- The getter of a public mapping. -/
def liquidityProvided (provider : Address) (m : Market) : Uint256 := m.liquidityProvided provider

/-- What `getMarketInfo` returns. -/
structure StaticInfo where
  creator : Address
  name : String
  description : String
  strikePrice : Uint256
  expiryTimestamp : Uint256
  isSettled : Bool
  settlementPrice : Uint256

/-- The static information about a market: who created it, and its configuration. -/
def getMarketInfo (m : Market) : StaticInfo where
  creator := m.contractCreator
  name := m.marketName
  description := m.marketDescription
  strikePrice := m.strikePrice
  expiryTimestamp := m.expiryTimestamp
  isSettled := m.isSettled
  settlementPrice := m.settlementPrice

/-- The view returns the traders marked as active, in their order. -/
theorem getActiveTraders_eq (m : Market) :
    getActiveTraders m = .ok (m.activeTraders.filter m.isActiveTrader) := by
  unfold getActiveTraders
  rw [FixedArray.collect_eq, List.map_id]

end GasCap
