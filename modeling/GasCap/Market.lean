import GasCap.Lib.Checked
import Mathlib.Data.Fintype.Basic
import Mathlib.Logic.Function.Basic

/-!
# The state of a market

The storage of `GasCapFutures.sol`, one field for each state variable, together with the native
balance of its account. A `uint256` is a 256-bit word and an address is a number below `2^160`; a
mapping is a function, of which all but finitely many values are the default. The balance is a
natural number: what bounds it is the supply of the chain's native token, which no call of the market
sees.

A call that fails returns the `Revert` that its caller sees: the text of a failed `require`, the code
of a panic, no data, or what a recipient reverts with.
-/

namespace GasCap

/-- `uint256` -/
abbrev Uint256 := BitVec 256

/-- `address` -/
def Address := Fin (2^160)

instance : DecidableEq Address := inferInstanceAs (DecidableEq (Fin (2^160)))

instance : Fintype Address := inferInstanceAs (Fintype (Fin (2^160)))

instance (n : ℕ) : OfNat Address n := inferInstanceAs (OfNat (Fin (2^160)) n)

/-- The marker for the native token. -/
def NATIVE_TOKEN : Address := 0

/-! ## Reverts -/

/-- What the caller of a failed call sees. -/
inductive Revert
  /-- A failed `require`, with its message. -/
  | reason (message : String)
  /-- A panic: `0x11` for an overflow, and `0x21` for a value that is none of an enumeration's. -/
  | panic (code : ℕ)
  /-- A revert without data: a payment that a function does not take, return data that cannot be
  decoded, or a transfer of more than the balance. -/
  | empty
  /-- Other data, of a recipient that reverts. -/
  | custom (data : List (BitVec 8))
  deriving DecidableEq, Repr

/-- `require(p, message)` -/
abbrev require (p : Prop) [Decidable p] (message : String) : Except Revert Unit :=
  Checked.ensure (.reason message) p

/-- The panic of an arithmetic overflow. -/
def overflow : Revert := .panic 0x11

/-- `x + y` on `uint256` -/
abbrev checkedAdd (x y : Uint256) : Except Revert Uint256 := Checked.add overflow x y

/-- `x - y` on `uint256` -/
abbrev checkedSub (x y : Uint256) : Except Revert Uint256 := Checked.sub overflow x y

/-- `x * y` on `uint256` -/
abbrev checkedMul (x y : Uint256) : Except Revert Uint256 := Checked.mul overflow x y

/-- The result of an operation on `int256`. -/
abbrev checkedInt (z : ℤ) : Except Revert ℤ := Checked.signed overflow 256 z

/-- `int256(x)` -/
abbrev int256 (x : Uint256) : ℤ := x.toInt

/-- `uint256(z)` -/
abbrev uint256 (z : ℤ) : Uint256 := BitVec.ofInt 256 z

/-! ## Records -/

inductive MarginMode
  | ISOLATED
  | CROSS
  deriving DecidableEq, Repr

inductive EntryType
  | MARKET
  | LIMIT
  | STOP
  deriving DecidableEq, Repr

/-- `EntryType(x)` on a `uint8` -/
def EntryType.ofUint8 (x : BitVec 8) : Except Revert EntryType :=
  match x.toNat with
  | 0 => .ok .MARKET
  | 1 => .ok .LIMIT
  | 2 => .ok .STOP
  | _ => .error (.panic 0x21)

structure UserProfile where
  isRegistered : Bool
  username : String
  metadataURI : String
  createdAt : Uint256
  lastLoginAt : Uint256

/-- The profile of an address that never registered. -/
def UserProfile.none : UserProfile := ⟨false, "", "", 0, 0⟩

structure Position where
  «exists» : Bool
  isLong : Bool
  quantity : Uint256
  collateral : Uint256
  leverage : Uint256
  marginMode : MarginMode
  entryType : EntryType
  limitPrice : Uint256
  stopPrice : Uint256
  collateralAsset : Address
  settlementAsset : Address
  isActive : Bool
  isClaimed : Bool

/-- The position of an address that never opened one. -/
def Position.none : Position :=
  ⟨false, false, 0, 0, 0, .ISOLATED, .MARKET, 0, 0, 0, 0, false, false⟩

/-- The storage of a market, and its native balance. -/
structure Market where
  ftsoRegistry : Address
  owner : Address
  contractCreator : Address
  marketName : String
  marketDescription : String
  /-- The strike price, in gwei. -/
  strikePrice : Uint256
  expiryTimestamp : Uint256
  settlementTimestamp : Uint256
  isSettled : Bool
  settlementPrice : Uint256
  allowedCollateralAssets : Address → Bool
  allowedSettlementAssets : Address → Bool
  users : Address → UserProfile
  positions : Address → Position
  participants : List Address
  activeTraders : List Address
  isActiveTrader : Address → Bool
  totalLiquidity : Uint256
  liquidityProvided : Address → Uint256
  liquidityProviders : List Address
  /-- `address(this).balance` -/
  balance : ℕ

/-! ## Events and native transfers -/

inductive Event
  | UserRegistered (user : Address) (username metadataURI : String)
  | UserLoggedIn (user : Address) (timestamp : Uint256)
  | FuturesMinted (trader : Address) (isLong : Bool) (quantity collateral leverage : Uint256)
      (marginMode : MarginMode) (entryType : EntryType) (limitPrice stopPrice : Uint256)
      (collateralAsset settlementAsset : Address)
  | LiquidityAdded (provider : Address) (amount : Uint256)
  | LiquidityRemoved (provider : Address) (amount : Uint256)
  | ContractSettled (settlementPrice timestamp : Uint256)
  | PayoutClaimed (trader : Address) (amount : Uint256)
  deriving DecidableEq

/-- The six ways in which native money moves into or out of a market. -/
inductive Flow
  /-- In, with the opening of a position. -/
  | opened
  /-- In, by `addLiquidity`. -/
  | added
  /-- In, by `receive`. -/
  | donated
  /-- Out, by `removeLiquidity`. -/
  | removed
  /-- Out, by `claimPayout`. -/
  | claimed
  /-- Out, by `emergencyWithdraw`. -/
  | drained
  deriving DecidableEq, Repr

/-- A movement of native money between a market and another account. -/
structure Movement where
  flow : Flow
  party : Address
  amount : ℕ
  deriving DecidableEq

/-- What a function of the market leaves behind: the storage, the native transfer that it makes as
its last effect, and the event that it emits after that. -/
structure Frame where
  market : Market
  payment : Option Movement
  event : Option Event

end GasCap
