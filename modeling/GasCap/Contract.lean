import GasCap.Oracle

/-!
# The functions of a market

The constructor and the functions of `GasCapFutures.sol` that change its state, in the order of the
source, and `calculatePayout`. Each takes what the call sees (`Env`), its arguments, and the market
with `msg.value` already in its balance, as the EVM credits it before the code runs. It returns a
`Frame` or reverts. A native transfer is the last effect of every function that makes one, and only
the emission of an event follows it, so a function leaves its transfer in the frame for the caller's
side to carry out (`Execution.lean`).
-/

namespace GasCap

/-! ## Construction -/

/-- The arguments of the constructor, and what it sees of its caller and its block. -/
structure Deployment where
  env : Env
  strikePrice : Uint256
  expiryDuration : Uint256
  marketName : String
  marketDescription : String

/-- The constructor, which takes no payment. -/
def construct (d : Deployment) : Except Revert Market := do
  Checked.ensure .empty (d.env.value = 0)
  let expiryTimestamp ← checkedAdd d.env.timestamp d.expiryDuration
  return {
    ftsoRegistry := 0xaD67FE66660Fb8dFE9d6b1b4240d8650e30F6019
    owner := d.env.sender
    contractCreator := d.env.sender
    marketName := d.marketName
    marketDescription := d.marketDescription
    strikePrice := d.strikePrice
    expiryTimestamp := expiryTimestamp
    settlementTimestamp := 0
    isSettled := false
    settlementPrice := 0
    -- By default, the native token is allowed as collateral and for settlement.
    allowedCollateralAssets := Function.update (fun _ => false) NATIVE_TOKEN true
    allowedSettlementAssets := Function.update (fun _ => false) NATIVE_TOKEN true
    users := fun _ => .none
    positions := fun _ => .none
    participants := []
    activeTraders := []
    isActiveTrader := fun _ => false
    totalLiquidity := 0
    liquidityProvided := fun _ => 0
    liquidityProviders := []
    balance := 0 }

/-! ## Modifiers -/

def onlyRegistered (env : Env) (m : Market) : Except Revert Unit :=
  require ((m.users env.sender).isRegistered = true) "User not registered"

def onlyOwner (env : Env) (m : Market) : Except Revert Unit :=
  require (env.sender = m.owner) "Not owner"

def beforeExpiry (env : Env) (m : Market) : Except Revert Unit :=
  require (env.timestamp < m.expiryTimestamp) "Contract expired"

def afterExpiry (env : Env) (m : Market) : Except Revert Unit :=
  require (m.expiryTimestamp ≤ env.timestamp) "Not yet expired"

def notSettled (m : Market) : Except Revert Unit :=
  require (m.isSettled = false) "Already settled"

def settled (m : Market) : Except Revert Unit :=
  require (m.isSettled = true) "Not settled yet"

/-! ## Users -/

def registerUser (env : Env) (username metadataURI : String) (m : Market) :
    Except Revert Frame := do
  require ((m.users env.sender).isRegistered = false) "Already registered"
  let profile : UserProfile := ⟨true, username, metadataURI, env.timestamp, env.timestamp⟩
  return {
    market := { m with users := Function.update m.users env.sender profile }
    payment := none
    event := some (.UserRegistered env.sender username metadataURI) }

def login (env : Env) (m : Market) : Except Revert Frame := do
  onlyRegistered env m
  let profile := { m.users env.sender with lastLoginAt := env.timestamp }
  return {
    market := { m with users := Function.update m.users env.sender profile }
    payment := none
    event := some (.UserLoggedIn env.sender env.timestamp) }

/-! ## Asset configuration -/

def setCollateralAssetAllowed (env : Env) (asset : Address) (allowed : Bool) (m : Market) :
    Except Revert Frame := do
  onlyOwner env m
  let assets := Function.update m.allowedCollateralAssets asset allowed
  return ⟨{ m with allowedCollateralAssets := assets }, none, none⟩

def setSettlementAssetAllowed (env : Env) (asset : Address) (allowed : Bool) (m : Market) :
    Except Revert Frame := do
  onlyOwner env m
  let assets := Function.update m.allowedSettlementAssets asset allowed
  return ⟨{ m with allowedSettlementAssets := assets }, none, none⟩

/-! ## Opening a position -/

/-- The arguments of `_openPosition`. -/
structure Order where
  isLong : Bool
  quantity : Uint256
  leverage : Uint256
  marginMode : MarginMode
  entryType : EntryType
  limitPrice : Uint256
  stopPrice : Uint256
  collateralAsset : Address
  settlementAsset : Address
  collateralAmount : Uint256

/-- The position that an order opens. -/
def Order.position (o : Order) : Position where
  «exists» := true
  isLong := o.isLong
  quantity := o.quantity
  collateral := o.collateralAmount
  leverage := o.leverage
  marginMode := o.marginMode
  entryType := o.entryType
  limitPrice := o.limitPrice
  stopPrice := o.stopPrice
  collateralAsset := o.collateralAsset
  settlementAsset := o.settlementAsset
  isActive := true
  isClaimed := false

/-- The collateral of an order against the value sent along: native collateral is the value, and
other collateral comes without any. No token transfer takes place for the latter. -/
def checkCollateral (env : Env) (o : Order) : Except Revert Unit :=
  if o.collateralAsset = NATIVE_TOKEN then do
    require (0 < o.collateralAmount) "Must provide collateral"
    require (env.value = o.collateralAmount) "msg.value mismatch"
  else do
    require (0 < o.collateralAmount) "Must provide ERC20 collateral"
    require (env.value = 0) "No native token with ERC20 collateral (TODO)"

/-- The prices that an order's entry type asks for. -/
def checkEntry (o : Order) : Except Revert Unit :=
  match o.entryType with
  | .MARKET => .ok ()
  | .LIMIT => require (0 < o.limitPrice) "Limit price required"
  | .STOP => require (0 < o.stopPrice) "Stop price required"

/-- Records a new participant, and an active trader unless it is one already. -/
def Market.track (m : Market) (trader : Address) : Market :=
  let m := { m with participants := m.participants ++ [trader] }
  if m.isActiveTrader trader then m
  else { m with
    isActiveTrader := Function.update m.isActiveTrader trader true
    activeTraders := m.activeTraders ++ [trader] }

def _openPosition (env : Env) (o : Order) (m : Market) : Except Revert Frame := do
  beforeExpiry env m
  notSettled m
  onlyRegistered env m
  require (0 < o.quantity) "Quantity must be positive"
  require (0 < o.leverage) "Leverage must be > 0"
  require ((m.positions env.sender).exists = false) "Position already exists"
  require (m.allowedCollateralAssets o.collateralAsset = true) "Collateral asset not allowed"
  require (m.allowedSettlementAssets o.settlementAsset = true) "Settlement asset not allowed"
  checkCollateral env o
  checkEntry o
  let positions := Function.update m.positions env.sender o.position
  return {
    market := { m with positions := positions }.track env.sender
    payment := none
    event := some (.FuturesMinted env.sender o.isLong o.quantity o.collateralAmount o.leverage
      o.marginMode o.entryType o.limitPrice o.stopPrice o.collateralAsset o.settlementAsset) }

/-- `_marginMode == 0 ? MarginMode.ISOLATED : MarginMode.CROSS` -/
def MarginMode.ofUint8 (x : BitVec 8) : MarginMode := if x = 0 then .ISOLATED else .CROSS

/-- The order of `mintLong` and `mintShort`: market entry, with the value sent along as native
collateral, settled in the native token. -/
def mintOrder (env : Env) (isLong : Bool) (quantity leverage : Uint256) (marginMode : BitVec 8) :
    Order where
  isLong := isLong
  quantity := quantity
  leverage := leverage
  marginMode := .ofUint8 marginMode
  entryType := .MARKET
  limitPrice := 0
  stopPrice := 0
  collateralAsset := NATIVE_TOKEN
  settlementAsset := NATIVE_TOKEN
  collateralAmount := env.value

def mintLong (env : Env) (quantity leverage : Uint256) (marginMode : BitVec 8) (m : Market) :
    Except Revert Frame :=
  _openPosition env (mintOrder env true quantity leverage marginMode) m

def mintShort (env : Env) (quantity leverage : Uint256) (marginMode : BitVec 8) (m : Market) :
    Except Revert Frame :=
  _openPosition env (mintOrder env false quantity leverage marginMode) m

/-- The arguments of `openCustomPosition`, with its two enumerations as the `uint8` that they are
passed as. -/
structure CustomOrder where
  isLong : Bool
  quantity : Uint256
  leverage : Uint256
  marginMode : BitVec 8
  entryType : BitVec 8
  limitPrice : Uint256
  stopPrice : Uint256
  collateralAsset : Address
  settlementAsset : Address
  collateralAmount : Uint256
  deriving DecidableEq

/-- The order that the arguments of `openCustomPosition` stand for. -/
def CustomOrder.order (c : CustomOrder) (entryType : EntryType) : Order where
  isLong := c.isLong
  quantity := c.quantity
  leverage := c.leverage
  marginMode := .ofUint8 c.marginMode
  entryType := entryType
  limitPrice := c.limitPrice
  stopPrice := c.stopPrice
  collateralAsset := c.collateralAsset
  settlementAsset := c.settlementAsset
  collateralAmount := c.collateralAmount

def openCustomPosition (env : Env) (c : CustomOrder) (m : Market) : Except Revert Frame := do
  let entryType ← EntryType.ofUint8 c.entryType
  _openPosition env (c.order entryType) m

/-! ## Liquidity -/

def addLiquidity (env : Env) (m : Market) : Except Revert Frame := do
  require (0 < env.value) "Must provide liquidity"
  -- A provider that removed everything is listed once more when it comes back.
  let providers :=
    if m.liquidityProvided env.sender = 0 then m.liquidityProviders ++ [env.sender]
    else m.liquidityProviders
  let provided ← checkedAdd (m.liquidityProvided env.sender) env.value
  let totalLiquidity ← checkedAdd m.totalLiquidity env.value
  return {
    market := { m with
      liquidityProviders := providers
      liquidityProvided := Function.update m.liquidityProvided env.sender provided
      totalLiquidity := totalLiquidity }
    payment := none
    event := some (.LiquidityAdded env.sender env.value) }

def removeLiquidity (env : Env) (amount : Uint256) (m : Market) : Except Revert Frame := do
  -- Neither the expiry nor the settlement is looked at.
  require (amount ≤ m.liquidityProvided env.sender) "Insufficient provided liquidity"
  let provided ← checkedSub (m.liquidityProvided env.sender) amount
  let totalLiquidity ← checkedSub m.totalLiquidity amount
  return {
    market := { m with
      liquidityProvided := Function.update m.liquidityProvided env.sender provided
      totalLiquidity := totalLiquidity }
    payment := some ⟨.removed, env.sender, amount.toNat⟩
    event := some (.LiquidityRemoved env.sender amount) }

/-! ## Settlement -/

def settleContract (env : Env) (m : Market) : Except Revert Frame := do
  afterExpiry env m
  notSettled m
  let (price, timestamp) ← _getGasPriceWithFallback env
  -- One hour of tolerance.
  let oldest ← checkedSub m.expiryTimestamp 3600
  require (oldest ≤ timestamp) "Price data too old"
  return {
    market := { m with
      settlementPrice := price
      settlementTimestamp := timestamp
      isSettled := true }
    payment := none
    event := some (.ContractSettled price timestamp) }

/-- The profit or loss of a position, in checked `int256` arithmetic. -/
def calculatePnl (priceDiff : ℤ) (pos : Position) : Except Revert ℤ := do
  let pnl ←
    if pos.isLong then checkedInt (priceDiff * int256 pos.quantity)
    else do
      let negated ← checkedInt (-priceDiff)
      checkedInt (negated * int256 pos.quantity)
  checkedInt (pnl * int256 pos.leverage)

def calculatePayout (m : Market) (trader : Address) : Except Revert Uint256 := do
  settled m
  let pos := m.positions trader
  if pos.exists = false ∨ pos.quantity = 0 ∨ pos.isClaimed = true then
    return 0
  else do
    -- The casts are not checked: they read a word from `2^255` on as a negative number.
    let priceDiff ← checkedInt (int256 m.settlementPrice - int256 m.strikePrice)
    let pnl ← calculatePnl priceDiff pos
    let totalPayout ← checkedInt (int256 pos.collateral + pnl)
    -- A loss is limited to the collateral.
    if totalPayout < 0 then
      return 0
    else
      return uint256 totalPayout

/-- Marks a trader's position as claimed and no longer active. -/
def Market.close (m : Market) (trader : Address) : Market :=
  let pos := { m.positions trader with isClaimed := true, isActive := false }
  let m := { m with positions := Function.update m.positions trader pos }
  if m.isActiveTrader trader then
    { m with isActiveTrader := Function.update m.isActiveTrader trader false }
  else m

def claimPayout (env : Env) (m : Market) : Except Revert Frame := do
  settled m
  let pos := m.positions env.sender
  require (pos.exists = true) "No position"
  require (pos.isClaimed = false) "Already claimed"
  let payout ← calculatePayout m env.sender
  -- The source marks the position before the checks that follow, whose failure undoes the marks.
  if 0 < payout then do
    require (pos.settlementAsset = NATIVE_TOKEN) "Non-native settlement not implemented"
    require (payout.toNat ≤ m.balance) "Insufficient contract balance"
    return {
      market := m.close env.sender
      payment := some ⟨.claimed, env.sender, payout.toNat⟩
      event := some (.PayoutClaimed env.sender payout) }
  else
    return ⟨m.close env.sender, none, none⟩

def emergencyWithdraw (env : Env) (m : Market) : Except Revert Frame := do
  onlyOwner env m
  notSettled m
  return ⟨m, some ⟨.drained, m.owner, m.balance⟩, none⟩

/-- `receive`. Native money that arrives without a call has the same effect. -/
def receive (m : Market) : Except Revert Frame := .ok ⟨m, none, none⟩

end GasCap
