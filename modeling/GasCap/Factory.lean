import GasCap.Execution
import GasCap.Lib.FixedArray

/-!
# The factory of markets

The constructor and the functions of `GasCapFuturesFactory.sol`, in the order of the source, and the
system of a factory and the markets that it created. A call to `createMarket` deploys a market, whose
constructor sees the factory as its caller, and nothing else in the code of the factory calls a
market to change it. `Chain` is the state of the factory and of all its markets, and `Chain.step`
executes a message to one of them; `step_createMarket` and `step_call` say when it succeeds, and what
it does, and `step_market_cases` what it leaves at an address. The factory's own address does not
change, so it is a parameter.
-/

namespace GasCap

open Machine

structure MarketInfo where
  market : Address
  creator : Address
  createdAt : Uint256
  deriving DecidableEq

/-- The storage of a factory. -/
structure Factory where
  owner : Address
  markets : List MarketInfo
  /-- For each creator, the indices of its markets. -/
  marketsByCreator : Address → List ℕ

inductive FactoryEvent
  | MarketCreated (market creator : Address) (index : ℕ) (strikePrice expiryTimestamp : Uint256)
  deriving DecidableEq

/-- The constructor of the factory, which takes no payment. -/
def constructFactory (env : Env) : Except Revert Factory := do
  Checked.ensure .empty (env.value = 0)
  return { owner := env.sender, markets := [], marketsByCreator := fun _ => [] }

/-! ## The functions of the factory -/

/-- The arguments of `createMarket`. -/
structure MarketParams where
  strikePrice : Uint256
  expiryDuration : Uint256
  marketName : String
  marketDescription : String

/-- What `createMarket` leaves behind: the storage of the factory, the market with its address, the
index that it returns with the address, and its event. -/
structure Creation where
  factory : Factory
  marketAddress : Address
  market : World
  index : ℕ
  event : FactoryEvent

/-- The deployment that `createMarket` makes, as the factory at `self`. -/
def MarketParams.deployment (p : MarketParams) (self : Address) (env : Env) : Deployment where
  env := { env with sender := self, value := 0 }
  strikePrice := p.strikePrice
  expiryDuration := p.expiryDuration
  marketName := p.marketName
  marketDescription := p.marketDescription

/-- `createMarket` of the factory at `self`, where `create` carries out `new`. -/
def createMarket (self : Address) (create : Deployment → Except Revert (Address × World)) (env : Env)
    (p : MarketParams) (f : Factory) : Except Revert Creation := do
  Checked.ensure .empty (env.value = 0)
  let (marketAddress, market) ← create (p.deployment self env)
  let markets := f.markets ++ [⟨marketAddress, env.sender, env.timestamp⟩]
  let index := markets.length - 1
  let indices := f.marketsByCreator env.sender ++ [index]
  return {
    factory := { f with
      markets := markets
      marketsByCreator := Function.update f.marketsByCreator env.sender indices }
    marketAddress := marketAddress
    market := market
    index := index
    event := .MarketCreated marketAddress env.sender index p.strikePrice
      market.market.expiryTimestamp }

def marketsCount (f : Factory) : ℕ := f.markets.length

def getMarket (index : ℕ) (f : Factory) : Except Revert MarketInfo := do
  require (index < f.markets.length) "Index out of range"
  match f.markets[index]? with
  | some info => return info
  | none => .error (.panic 0x32)

/-- The addresses of all markets, copied in a loop. -/
def getAllMarkets (f : Factory) : Except Revert (List Address) :=
  let len := f.markets.length
  let list := List.replicate len 0
  FixedArray.copy (.panic 0x32) MarketInfo.market f.markets len 0 list

def getMarketsByCreator (creator : Address) (f : Factory) : List ℕ := f.marketsByCreator creator

/-! ## The system of a factory and its markets -/

/-- A factory, the markets at the addresses where it created them, and its events, the last ones
first. -/
structure Chain where
  factory : Factory
  markets : Address → Option World
  events : List FactoryEvent

/-- A transaction to the factory or to one of its markets. -/
inductive Message
  /-- A call of `createMarket`, and the address that the creation comes to. -/
  | createMarket (env : Env) (params : MarketParams) (address : Address)
  /-- A call of the market at an address. -/
  | call (market : Address) (tx : Tx)

/-- What a message sees of its sender and its block. -/
def Message.env : Message → Env
  | .createMarket env _ _ => env
  | .call _ tx => tx.env

def Message.isCreation : Message → Bool
  | .createMarket .. => true
  | .call .. => false

/-- Creates a market at an address, which fails where there is a contract already. -/
def Chain.create (self address : Address) (c : Chain) (d : Deployment) :
    Except Revert (Address × World) := do
  Checked.ensure .empty ((c.markets address).isNone = true ∧ address ≠ self)
  let market ← deploy d
  return (address, market)

/-- Executes a message in the system of the factory at `self`. -/
def Chain.step (self : Address) : Message → Chain → Except Revert Chain
  | .createMarket env params address, c => do
    let creation ← GasCap.createMarket self (c.create self address) env params c.factory
    return {
      factory := creation.factory
      markets := Function.update c.markets creation.marketAddress (some creation.market)
      events := creation.event :: c.events }
  | .call market tx, c =>
    match c.markets market with
    | none => .error .empty
    | some w => do
      let w' ← exec tx w
      return { c with markets := Function.update c.markets market (some w') }

/-- A factory right after its construction. -/
def deployFactory (env : Env) : Except Revert Chain := do
  let factory ← constructFactory env
  return { factory := factory, markets := fun _ => none, events := [] }

/-! ## When a message succeeds -/

section Step

variable {self : Address} {c c' : Chain}

/-- The factory after the creation of a market. -/
def Factory.register (f : Factory) (info : MarketInfo) : Factory :=
  { f with
    markets := f.markets ++ [info]
    marketsByCreator := Function.update f.marketsByCreator info.creator
      (f.marketsByCreator info.creator ++ [f.markets.length]) }

/-- A creation comes to a new market at an address where there is none. -/
theorem create_eq_ok {address a : Address} {d : Deployment} {w : World} :
    c.create self address d = .ok (a, w) ↔
      c.markets address = none ∧ address ≠ self ∧ deploy d = .ok w ∧ a = address := by
  rw [Chain.create, Checked.ensure_bind_eq_ok, Checked.bind_eq_ok, Option.isNone_iff_eq_none]
  constructor
  · rintro ⟨⟨hnone, hne⟩, w', hw', hpair⟩
    cases hpair
    exact ⟨hnone, hne, hw', rfl⟩
  · rintro ⟨hnone, hne, hw, rfl⟩
    exact ⟨⟨hnone, hne⟩, w, hw, rfl⟩

/-- `createMarket` deploys a market with the factory as its caller, and registers it for the sender
with the time of the block. -/
theorem step_createMarket {env : Env} {p : MarketParams} {address : Address} :
    Chain.step self (.createMarket env p address) c = .ok c' ↔
      env.value = 0 ∧ c.markets address = none ∧ address ≠ self ∧
        ∃ w, deploy (p.deployment self env) = .ok w ∧
          c' = {
            factory := c.factory.register ⟨address, env.sender, env.timestamp⟩
            markets := Function.update c.markets address (some w)
            events := .MarketCreated address env.sender c.factory.markets.length p.strikePrice
              w.market.expiryTimestamp :: c.events } := by
  have hindex : ∀ info : MarketInfo,
      (c.factory.markets ++ [info]).length - 1 = c.factory.markets.length := by
    intro info
    rw [List.length_append, List.length_singleton, Nat.add_sub_cancel]
  simp only [Chain.step, GasCap.createMarket, Checked.bind_eq_ok, Checked.ensure_eq_ok,
    Checked.pure_eq_ok, Prod.exists, create_eq_ok, Factory.register]
  constructor
  · rintro ⟨creation, ⟨-, hvalue, a, w, ⟨hnone, hne, hw, rfl⟩, rfl⟩, rfl⟩
    rw [hindex]
    exact ⟨hvalue, hnone, hne, w, hw, rfl⟩
  · rintro ⟨hvalue, hnone, hne, w, hw, rfl⟩
    refine ⟨_, ⟨(), hvalue, address, w, ⟨hnone, hne, hw, rfl⟩, rfl⟩, ?_⟩
    rw [hindex]

/-- A call of a market is a step of that market, and leaves the factory as it is. -/
theorem step_call {a : Address} {tx : Tx} :
    Chain.step self (.call a tx) c = .ok c' ↔
      ∃ w w', c.markets a = some w ∧ exec tx w = .ok w' ∧
        c' = { c with markets := Function.update c.markets a (some w') } := by
  rw [Chain.step]
  cases c.markets a with
  | none => exact ⟨fun h => (by cases h), fun ⟨w, _, hw, _⟩ => by cases hw⟩
  | some w =>
    simp only [Checked.bind_eq_ok, Checked.pure_eq_ok, Option.some.injEq, exists_and_left,
      exists_eq_left']

/-- What is at an address after a message was there before, or has been created there, or has executed
a call. -/
theorem step_market_cases {msg : Message} {a : Address} {u : World}
    (h : Chain.step self msg c = .ok c') (hu : c'.markets a = some u) :
    c.markets a = some u ∨
      (∃ env p, msg = .createMarket env p a ∧ c.markets a = none ∧
        deploy (p.deployment self env) = .ok u) ∨
      ∃ tx w, msg = .call a tx ∧ c.markets a = some w ∧ exec tx w = .ok u := by
  cases msg with
  | createMarket env p address =>
    obtain ⟨-, hnone, -, w, hw, rfl⟩ := step_createMarket.mp h
    simp only at hu
    rcases eq_or_ne a address with rfl | hne
    · rw [Function.update_self] at hu
      cases hu
      exact .inr (.inl ⟨env, p, rfl, hnone, hw⟩)
    · rw [Function.update_of_ne hne] at hu
      exact .inl hu
  | call market tx =>
    obtain ⟨w, w', hw, hexec, rfl⟩ := step_call.mp h
    simp only at hu
    rcases eq_or_ne a market with rfl | hne
    · rw [Function.update_self] at hu
      cases hu
      exact .inr (.inr ⟨tx, w, rfl, hw, hexec⟩)
    · rw [Function.update_of_ne hne] at hu
      exact .inl hu

end Step

/-! ## A sample run

Three markets by two creators, and a trader that opens a position in the first of them. -/

/-- The state of a new factory after a sequence of messages, or the error of the first that fails. -/
def launchFactory (self : Address) (env : Env) (msgs : List Message) : Except Revert Chain := do
  let c ← deployFactory env
  runAll (Chain.step self) msgs c

/-- What a launch ends in is a run from the deployment of the factory. -/
theorem launchFactory_eq_ok {self : Address} {env : Env} {msgs : List Message} {c : Chain} :
    launchFactory self env msgs = .ok c ↔
      ∃ c₀, deployFactory env = .ok c₀ ∧ Run (Chain.step self) c₀ msgs c := by
  simp only [launchFactory, Checked.bind_eq_ok, run_iff_runAll]

/-- A launch that is tested to succeed with `p` ends in a state with `p`. -/
theorem exists_launchFactory (self : Address) (env : Env) (msgs : List Message) (p : Chain → Bool)
    (h : (launchFactory self env msgs).toOption.any p = true) :
    ∃ c, launchFactory self env msgs = .ok c ∧ p c = true :=
  Checked.exists_of_any h

/-- The address of the sample factory. -/
def sampleFactory : Address := 0xFA

/-- The arguments of the sample creations. -/
def sampleParams : MarketParams := ⟨50, 604800, "Test Market", "Unit test gas futures"⟩

def sampleMessages : List Message :=
  [.createMarket (quietEnv 6 0 1700000001) sampleParams 0xA1,
    .createMarket (quietEnv 7 0 1700000002) sampleParams 0xA2,
    .createMarket (quietEnv 6 0 1700000003) sampleParams 0xA3,
    .call 0xA1 ⟨quietEnv 2 0 1700000004, .registerUser "longUser" "", none⟩,
    .call 0xA1 ⟨quietEnv 2 ether 1700000005, .mintLong 10 1 0, none⟩]

end GasCap
