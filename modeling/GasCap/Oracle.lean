import GasCap.Market

/-!
# The price oracle

The market asks the FTSO registry for two prices, by static calls to an account that it does not
control. `Response` is what such a call comes back with: a revert, or a success with return data of
any length (an account without code succeeds without data). `_getGasPriceWithFallback` takes the FLR
price, on a revert the BTC price, and on a second revert a price made from the block number. Return
data too short for two words makes the market itself revert, which no `catch` clause sees.
-/

namespace GasCap

/-- The outcome of a call to the registry. -/
inductive Response
  | revert
  | success (data : List (BitVec 8))
  deriving DecidableEq

/-- The number that big-endian bytes represent. -/
def wordOfBytes (bytes : List (BitVec 8)) : Uint256 :=
  bytes.foldl (fun word byte => word * 256 + byte.zeroExtend 256) 0

/-- The two words that return data decode to, if it is long enough. -/
def decodePrice (data : List (BitVec 8)) : Option (Uint256 × Uint256) :=
  if 64 ≤ data.length then
    some (wordOfBytes (data.take 32), wordOfBytes ((data.drop 32).take 32))
  else none

/-- What a call sees of its caller and its block, and what the registry would answer it. -/
structure Env where
  /-- `msg.sender` -/
  sender : Address
  /-- `msg.value` -/
  value : Uint256
  /-- `block.timestamp` -/
  timestamp : Uint256
  /-- `block.number` -/
  number : Uint256
  /-- The registry's response to `getCurrentPrice("FLR")`. -/
  flr : Response
  /-- The registry's response to `getCurrentPrice("BTC")`. -/
  btc : Response

/-- A price of the registry, divided down and moved up by `base`. -/
def priceOfResponse (data : List (BitVec 8)) (base : Uint256) :
    Except Revert (Uint256 × Uint256) :=
  match decodePrice data with
  | none => .error .empty
  | some (price, timestamp) => do
    let gasPrice ← checkedAdd (price / 1000000) base
    return (gasPrice, timestamp)

/-- The price made from the block number, 20 to 49 gwei. -/
def mockPrice (number : Uint256) : Except Revert Uint256 := do
  let offset ← checkedMul (number % 30) 1000000000
  checkedAdd 20000000000 offset

def _getGasPriceWithFallback (env : Env) : Except Revert (Uint256 × Uint256) :=
  match env.flr with
  | .success data => priceOfResponse data 20000000000
  -- A `catch` clause runs when the registry reverted, and only then.
  | .revert =>
    match env.btc with
    | .success data => priceOfResponse data 25000000000
    | .revert => do
      let price ← mockPrice env.number
      return (price, env.timestamp)

def getCurrentGasPrice (env : Env) : Except Revert (Uint256 × Uint256) :=
  _getGasPriceWithFallback env

/-- Every price is at least 20 gwei, at the scale of `1e9`. -/
theorem priceOfResponse_ge {data : List (BitVec 8)} {base price timestamp : Uint256}
    (h : priceOfResponse data base = .ok (price, timestamp)) : base.toNat ≤ price.toNat := by
  unfold priceOfResponse at h
  split at h
  · cases h
  · obtain ⟨gasPrice, hadd, hret⟩ := Checked.bind_eq_ok.mp h
    cases hret
    have := Checked.add_eq_ok.mp hadd
    omega

/-- The price made from the block number is `20 + number % 30` gwei. -/
theorem mockPrice_eq (number : Uint256) :
    ∃ price, mockPrice number = .ok price ∧
      price.toNat = 20000000000 + number.toNat % 30 * 1000000000 := by
  have hmod : (number % 30).toNat = number.toNat % 30 := by
    rw [BitVec.toNat_umod]; rfl
  obtain ⟨offset, hmul⟩ : ∃ offset, checkedMul (number % 30) 1000000000 = .ok offset := by
    refine ⟨_, if_pos ?_⟩
    rw [hmod, show (1000000000 : Uint256).toNat = 1000000000 from rfl]
    omega
  have hoff := Checked.mul_eq_ok.mp hmul
  rw [hmod, show (1000000000 : Uint256).toNat = 1000000000 from rfl] at hoff
  obtain ⟨price, hadd⟩ : ∃ price, checkedAdd 20000000000 offset = .ok price := by
    apply Checked.exists_add
    rw [show (20000000000 : Uint256).toNat = 20000000000 from rfl]
    omega
  refine ⟨price, ?_, ?_⟩
  · rw [mockPrice, Checked.bind_eq_ok]
    exact ⟨offset, hmul, hadd⟩
  · rw [Checked.add_eq_ok.mp hadd, hoff]
    rfl

/-- Every price that the market gets is at least 20 gwei, at the scale of `1e9`. -/
theorem _getGasPriceWithFallback_ge {env : Env} {price timestamp : Uint256}
    (h : _getGasPriceWithFallback env = .ok (price, timestamp)) :
    20000000000 ≤ price.toNat := by
  unfold _getGasPriceWithFallback at h
  split at h
  · exact priceOfResponse_ge h
  · split at h
    · exact le_trans (by decide) (priceOfResponse_ge h)
    · obtain ⟨price', hmock, hprice⟩ := mockPrice_eq env.number
      rw [hmock] at h
      cases h
      omega

end GasCap
