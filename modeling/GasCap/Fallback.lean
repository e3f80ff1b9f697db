import GasCap.Oracle

/-!
# The price fallback

`_getGasPriceWithFallback` is to come to a price whatever the registry answers: the FLR price, the
BTC price where there is none, and the price made from the block number where there is neither
(`fallbackPrice`). A response has a price if it is a success with two decodable words. The arithmetic
on the way never overflows, but a success with shorter data makes the market revert where the next
price should be taken, so the fallback comes to its price exactly when the first response that is not
a revert is `Decodable` (`fallback_returns_iff`).
-/

namespace GasCap

/-- A response is a revert, or has two decodable words. -/
def Response.Decodable (r : Response) : Prop := ∀ data, r = .success data → 64 ≤ data.length

/-- The two words of a response, if it is a success that has them. -/
def Response.decoded : Response → Option (Uint256 × Uint256)
  | .revert => none
  | .success data => decodePrice data

/-- What the fallback should return: the FLR price if its call succeeded with two decodable words,
otherwise the BTC price if its call did, and otherwise the price made from the block number with the
timestamp of the block. -/
def fallbackPrice (env : Env) : ℕ × Uint256 :=
  match env.flr.decoded with
  | some (price, timestamp) => (price.toNat / 1000000 + 20 * 10^9, timestamp)
  | none =>
    match env.btc.decoded with
    | some (price, timestamp) => (price.toNat / 1000000 + 25 * 10^9, timestamp)
    | none => (20 * 10^9 + env.number.toNat % 30 * 10^9, env.timestamp)

/-- The fallback returns the price that it should. -/
def FallsBack (env : Env) : Prop :=
  ∃ price timestamp, _getGasPriceWithFallback env = .ok (price, timestamp) ∧
    fallbackPrice env = (price.toNat, timestamp)

/-- Data that is long enough has two words. -/
theorem decodePrice_eq_some {data : List (BitVec 8)} (h : 64 ≤ data.length) :
    ∃ price timestamp, decodePrice data = some (price, timestamp) :=
  ⟨_, _, if_pos h⟩

/-- Data that is too short has none. -/
theorem decodePrice_eq_none {data : List (BitVec 8)} (h : ¬ 64 ≤ data.length) :
    decodePrice data = none :=
  if_neg h

/-- A price of the registry, divided down, is far from the largest word, so a base below `2^64` can
be added to it. -/
theorem priceOfResponse_of_decoded {data : List (BitVec 8)} {base price timestamp : Uint256}
    (h : decodePrice data = some (price, timestamp)) (hbase : base.toNat < 2^64) :
    ∃ gasPrice, priceOfResponse data base = .ok (gasPrice, timestamp) ∧
      gasPrice.toNat = price.toNat / 1000000 + base.toNat := by
  have hdiv : (price / 1000000).toNat = price.toNat / 1000000 := by
    rw [BitVec.toNat_udiv]
    rfl
  have hlt := price.isLt
  obtain ⟨gasPrice, hadd⟩ : ∃ gasPrice, checkedAdd (price / 1000000) base = .ok gasPrice := by
    apply Checked.exists_add
    rw [hdiv]
    omega
  refine ⟨gasPrice, ?_, ?_⟩
  · unfold priceOfResponse
    rw [h]
    exact Checked.bind_eq_ok.mpr ⟨gasPrice, hadd, rfl⟩
  · rw [Checked.add_eq_ok.mp hadd, hdiv]

/-- Return data without two words makes the market revert. -/
theorem priceOfResponse_of_short {data : List (BitVec 8)} (base : Uint256)
    (h : ¬ 64 ≤ data.length) : priceOfResponse data base = .error .empty := by
  unfold priceOfResponse
  rw [decodePrice_eq_none h]

/-- A success decides by its length whether its price, moved up by `base`, is returned, whatever the
price `other` of the next response is. -/
theorem priceOfResponse_iff (data : List (BitVec 8)) (base : Uint256) (hbase : base.toNat < 2^64)
    (other : ℕ × Uint256) :
    (∃ price timestamp, priceOfResponse data base = .ok (price, timestamp) ∧
      (match decodePrice data with
        | some (price, timestamp) => (price.toNat / 1000000 + base.toNat, timestamp)
        | none => other) = (price.toNat, timestamp)) ↔ 64 ≤ data.length := by
  constructor
  · rintro ⟨price, timestamp, hprice, -⟩
    by_contra hshort
    rw [priceOfResponse_of_short base hshort] at hprice
    cases hprice
  · intro hlen
    obtain ⟨price, timestamp, hdecode⟩ := decodePrice_eq_some hlen
    obtain ⟨gasPrice, hprice, hvalue⟩ := priceOfResponse_of_decoded hdecode hbase
    refine ⟨gasPrice, timestamp, hprice, ?_⟩
    rw [hdecode, hvalue]

/-- A success of the FLR call decides what the fallback returns. -/
theorem fallsBack_flr {env : Env} {data : List (BitVec 8)} (h : env.flr = .success data) :
    FallsBack env ↔ 64 ≤ data.length := by
  unfold FallsBack fallbackPrice _getGasPriceWithFallback
  rw [h]
  exact priceOfResponse_iff data 20000000000 (by decide) _

/-- After a revert of the FLR call, a success of the BTC call decides what the fallback returns. -/
theorem fallsBack_btc {env : Env} {data : List (BitVec 8)} (hflr : env.flr = .revert)
    (h : env.btc = .success data) : FallsBack env ↔ 64 ≤ data.length := by
  unfold FallsBack fallbackPrice _getGasPriceWithFallback
  rw [hflr, h]
  exact priceOfResponse_iff data 25000000000 (by decide) _

/-- After two reverts, the fallback returns the price made from the block number. -/
theorem fallsBack_mock {env : Env} (hflr : env.flr = .revert) (hbtc : env.btc = .revert) :
    FallsBack env := by
  obtain ⟨price, hprice, hvalue⟩ := mockPrice_eq env.number
  refine ⟨price, env.timestamp, ?_, ?_⟩
  · unfold _getGasPriceWithFallback
    rw [hflr, hbtc]
    exact Checked.bind_eq_ok.mpr ⟨price, hprice, rfl⟩
  · unfold fallbackPrice
    rw [hflr, hbtc, hvalue]
    rfl

/-- **When the fallback returns**: for every pair of responses of the registry, every block number,
and every timestamp, the fallback returns the price that it should if and only if the FLR response
is a revert or has two decodable words, and so does the BTC response where the FLR response is a
revert. -/
theorem fallback_returns_iff (env : Env) :
    FallsBack env ↔ env.flr.Decodable ∧ (env.flr = .revert → env.btc.Decodable) := by
  cases hflr : env.flr with
  | success data =>
    rw [fallsBack_flr hflr]
    constructor
    · intro hlen
      refine ⟨fun data' hdata => ?_, fun hrevert => by cases hrevert⟩
      cases hdata
      exact hlen
    · exact fun h => h.1 data rfl
  | revert =>
    cases hbtc : env.btc with
    | success data =>
      rw [fallsBack_btc hflr hbtc]
      constructor
      · intro hlen
        refine ⟨fun data' hdata => (by cases hdata), fun _ data' hdata => ?_⟩
        cases hdata
        exact hlen
      · exact fun h => h.2 rfl data rfl
    | revert =>
      refine ⟨fun _ => ⟨fun data hdata => ?_, fun _ data hdata => ?_⟩,
        fun _ => fallsBack_mock hflr hbtc⟩
      · cases hdata
      · cases hdata

/-- A registry without code answers every call with a success and no data. The fallback reverts,
where it should return the price made from the block number. -/
theorem fallback_reverts :
    _getGasPriceWithFallback ⟨1, 0, 1700604801, 7, .success [], .success []⟩ = .error .empty ∧
      fallbackPrice ⟨1, 0, 1700604801, 7, .success [], .success []⟩ = (27 * 10^9, 1700604801) ∧
      ¬ FallsBack ⟨1, 0, 1700604801, 7, .success [], .success []⟩ := by
  refine ⟨rfl, rfl, ?_⟩
  rintro ⟨price, timestamp, hprice, -⟩
  cases hprice

end GasCap
