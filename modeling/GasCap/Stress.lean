import GasCap.Lib.Payoff
import GasCap.Ownerless
import GasCap.Solvency
import GasCap.Strike

/-!
# Testing a market at two prices

What `calculatePayout` computes of a position before it cuts off the losses is a `Payoff` of the
settlement price (`Position.payoff`), so what a market owes its traders after the settlement is convex
in the price, and over a range of prices it is largest at one of the two ends
(`outstanding_settledAt_le`). From its expiry on the book of a market is closed, and until the
settlement no call but the owner's withdrawal takes a surplus away at any price
(`exec_surplus_settledAt`). So a market that has no shortfall at two prices after its expiry settles
without one at every price between them, and pays everybody (`two_price_test`). Where the registry
answers neither call, the prices are 20 to 49 gwei (`mock_price_between`).
-/

namespace GasCap

open Machine

/-- The market as if it were settled at a price. -/
def Market.settledAt (m : Market) (price : Uint256) : Market :=
  { m with settlementPrice := price, isSettled := true }

/-- The state as if the market were settled at a price. -/
def World.settledAt (w : World) (price : Uint256) : World :=
  { w with market := w.market.settledAt price }

/-! ## Payoffs of positions -/

section Payoffs

variable {m : Market} {p : Position} {lo price hi : Uint256}

/-- The sign of a position. -/
def Position.sign (p : Position) : ℤ := if p.isLong then 1 else -1

/-- The gain of a position is the move of the price with its sign. -/
theorem Position.gain_eq (p : Position) (priceDiff : ℤ) :
    p.gain priceDiff = p.sign * priceDiff := by
  unfold Position.gain Position.sign
  split_ifs <;> omega

/-- What is owed for a position, as a payoff of the settlement price. -/
def Position.payoff (p : Position) (strikePrice : Uint256) : Payoff where
  base := int256 p.collateral -
    p.sign * int256 p.quantity * int256 p.leverage * int256 strikePrice
  slope := p.sign * int256 p.quantity * int256 p.leverage

/-- What `calculatePayout` computes at a price is the payoff. -/
theorem owed_settledAt (m : Market) (p : Position) (price : Uint256) :
    Owed (m.settledAt price) p = (p.payoff m.strikePrice).raw (int256 price) := by
  unfold Owed Position.pnl Position.payoff Payoff.raw Market.priceDiff Market.settledAt
  rw [p.gain_eq]
  ring

/-- What is between two signed values is one. -/
theorem Fits.between {a b z : ℤ} (ha : Checked.Fits 256 a) (hb : Checked.Fits 256 b)
    (h : min a b ≤ z ∧ z ≤ max a b) : Checked.Fits 256 z := by
  obtain ⟨ha₁, ha₂⟩ := ha
  obtain ⟨hb₁, hb₂⟩ := hb
  constructor <;> omega

/-- A multiple of a payoff of the price fits between two prices at which it fits. -/
theorem fits_between {f : Payoff} {lo price hi : ℤ} (hlo : lo ≤ price) (hhi : price ≤ hi)
    (h₁ : Checked.Fits 256 (f.raw lo)) (h₂ : Checked.Fits 256 (f.raw hi)) :
    Checked.Fits 256 (f.raw price) :=
  Fits.between h₁ h₂ (f.raw_between hlo hhi)

/-- A position that is in range at two prices is in range between them. -/
theorem InRange.between (hlo : int256 lo ≤ int256 price) (hhi : int256 price ≤ int256 hi)
    (h₁ : InRange (m.settledAt lo) p) (h₂ : InRange (m.settledAt hi) p) :
    InRange (m.settledAt price) p := by
  -- Each result on the way is affine in the price.
  have hdiff : ∀ x, (m.settledAt x).priceDiff =
      Payoff.raw ⟨-int256 m.strikePrice, 1⟩ (int256 x) := by
    intro x
    unfold Market.priceDiff Market.settledAt Payoff.raw
    ring
  have hgain : ∀ x, p.gain (m.settledAt x).priceDiff =
      Payoff.raw ⟨-(p.sign * int256 m.strikePrice), p.sign⟩ (int256 x) := by
    intro x
    rw [p.gain_eq, hdiff]
    unfold Payoff.raw
    ring
  have hproduct : ∀ x, p.gain (m.settledAt x).priceDiff * int256 p.quantity =
      Payoff.raw ⟨-(p.sign * int256 m.strikePrice * int256 p.quantity),
        p.sign * int256 p.quantity⟩ (int256 x) := by
    intro x
    rw [hgain]
    unfold Payoff.raw
    ring
  have hpnl : ∀ x, p.pnl (m.settledAt x).priceDiff =
      Payoff.raw ⟨-(p.sign * int256 m.strikePrice * int256 p.quantity * int256 p.leverage),
        p.sign * int256 p.quantity * int256 p.leverage⟩ (int256 x) := by
    intro x
    unfold Position.pnl
    rw [hproduct]
    unfold Payoff.raw
    ring
  constructor
  · rw [hdiff]
    exact fits_between hlo hhi (hdiff lo ▸ h₁.priceDiff) (hdiff hi ▸ h₂.priceDiff)
  · rw [hgain]
    exact fits_between hlo hhi (hgain lo ▸ h₁.gain) (hgain hi ▸ h₂.gain)
  · rw [hproduct]
    exact fits_between hlo hhi (hproduct lo ▸ h₁.product) (hproduct hi ▸ h₂.product)
  · rw [hpnl]
    exact fits_between hlo hhi (hpnl lo ▸ h₁.pnl) (hpnl hi ▸ h₂.pnl)
  · rw [owed_settledAt]
    exact fits_between hlo hhi (owed_settledAt m p lo ▸ h₁.owed) (owed_settledAt m p hi ▸ h₂.owed)

end Payoffs

/-! ## What is owed at a price -/

/-- A trader with an unclaimed position that is settled in the native token. -/
def Market.Pays (m : Market) (t : Address) : Prop :=
  (m.positions t).exists = true ∧ (m.positions t).isClaimed = false ∧
    (m.positions t).settlementAsset = NATIVE_TOKEN

instance (m : Market) (t : Address) : Decidable (m.Pays t) := inferInstanceAs (Decidable (_ ∧ _))

/-- What is due to a trader, as a payoff of the settlement price. -/
def Market.payoff (m : Market) (t : Address) : Payoff :=
  if m.Pays t then (m.positions t).payoff m.strikePrice else ⟨0, 0⟩

section Prices

variable {m : Market} {w : World} {lo price hi : Uint256}

/-- What is due to a trader at a price is the value of its payoff. -/
theorem due_settledAt (hl : Lifecycle m) {t : Address}
    (hrange : m.Pays t → InRange (m.settledAt price) (m.positions t)) :
    (due (m.settledAt price) t : ℤ) = (m.payoff t).value (int256 price) := by
  by_cases hpays : m.Pays t
  · have hq := (hl.accepted t hpays.1).quantity_pos
    have ha : Awaiting (m.settledAt price) t := ⟨rfl, hpays.1, hpays.2.1⟩
    obtain ⟨v, hv⟩ := exists_payout ha hq (hrange hpays)
    have hvalue := ((calculatePayout_eq_ok ha hq).mp hv).2
    have hdue : due (m.settledAt price) t = v.toNat := by
      rw [← payoutOf_eq hv]
      exact if_pos hpays
    have howed : Owed (m.settledAt price) ((m.settledAt price).positions t) =
        ((m.positions t).payoff m.strikePrice).raw (int256 price) := owed_settledAt m _ price
    rw [hdue, hvalue, howed]
    unfold Market.payoff Payoff.value
    rw [if_pos hpays]
    omega
  · have hdue : due (m.settledAt price) t = 0 := if_neg hpays
    have hzero : (m.payoff t).value (int256 price) = 0 := by
      unfold Market.payoff Payoff.value Payoff.raw
      simp only [if_neg hpays, zero_mul, add_zero, max_self]
    rw [hdue, hzero]
    rfl

/-- What is owed to the traders at a price is the value of their payoffs. -/
theorem outstanding_settledAt (hl : Lifecycle m)
    (hrange : ∀ t, m.Pays t → InRange (m.settledAt price) (m.positions t)) :
    (outstanding (m.settledAt price) : ℤ) = ∑ t, (m.payoff t).value (int256 price) := by
  unfold outstanding
  rw [Nat.cast_sum]
  exact Finset.sum_congr rfl fun t _ => due_settledAt hl (hrange t)

/-- **The worst price is at an end**: between two prices at which all payouts are returned, they are
returned, and what is owed to the traders is at most what is owed at one of the two. -/
theorem outstanding_settledAt_le (hl : Lifecycle m) (hlo : int256 lo ≤ int256 price)
    (hhi : int256 price ≤ int256 hi)
    (h₁ : ∀ t, m.Pays t → InRange (m.settledAt lo) (m.positions t))
    (h₂ : ∀ t, m.Pays t → InRange (m.settledAt hi) (m.positions t)) :
    (∀ t, m.Pays t → InRange (m.settledAt price) (m.positions t)) ∧
      outstanding (m.settledAt price) ≤
        max (outstanding (m.settledAt lo)) (outstanding (m.settledAt hi)) := by
  have hrange : ∀ t, m.Pays t → InRange (m.settledAt price) (m.positions t) :=
    fun t ht => InRange.between hlo hhi (h₁ t ht) (h₂ t ht)
  have hbook := Payoff.sum_value_le Finset.univ m.payoff hlo hhi
  rw [← outstanding_settledAt hl hrange, ← outstanding_settledAt hl h₁,
    ← outstanding_settledAt hl h₂] at hbook
  exact ⟨hrange, by omega⟩

/-- At a price, all payouts are returned and there is no shortfall. -/
structure Withstands (w : World) (price : Uint256) : Prop where
  inRange : ∀ t, w.market.Pays t → InRange (w.market.settledAt price) (w.market.positions t)
  surplus_nonneg : 0 ≤ surplus (w.settledAt price)

/-- Computes whether a market withstands a price, from its participants. -/
def World.withstands (w : World) (price : Uint256) : Bool :=
  let m := w.market.settledAt price
  w.market.participants.all (fun t => decide (m.Pays t → InRange m (m.positions t))) &&
    decide (m.totalLiquidity.toNat + (m.participants.map (due m)).sum ≤ m.balance)

/-- The test is right where the participants are the traders with a position. -/
theorem withstands_iff (hl : Lifecycle w.market) :
    w.withstands price = true ↔ Withstands w price := by
  have hout : outstanding (w.market.settledAt price) =
      ((w.market.settledAt price).participants.map (due (w.market.settledAt price))).sum :=
    hl.sum_positions _ fun t ht => due_of_not_exists ht
  have hsurplus : surplus (w.settledAt price) = (w.market.settledAt price).balance -
      ((w.market.settledAt price).totalLiquidity.toNat +
        outstanding (w.market.settledAt price)) := rfl
  unfold World.withstands
  simp only [Bool.and_eq_true, List.all_eq_true, decide_eq_true_eq]
  rw [← hout]
  constructor
  · rintro ⟨hrange, hcovers⟩
    refine ⟨fun t ht => hrange t ((hl.participant_iff t).mpr ht.1) ht, ?_⟩
    omega
  · intro h
    have hnonneg := h.surplus_nonneg
    exact ⟨fun t _ ht => h.inRange t ht, by omega⟩

/-- A market that withstands two prices withstands those between them. -/
theorem Withstands.between (hl : Lifecycle w.market) (hlo : int256 lo ≤ int256 price)
    (hhi : int256 price ≤ int256 hi) (h₁ : Withstands w lo) (h₂ : Withstands w hi) :
    Withstands w price := by
  obtain ⟨hrange, hle⟩ := outstanding_settledAt_le hl hlo hhi h₁.inRange h₂.inRange
  refine ⟨hrange, ?_⟩
  have hsurplus₁ := h₁.surplus_nonneg
  have hsurplus₂ := h₂.surplus_nonneg
  unfold surplus World.settledAt at hsurplus₁ hsurplus₂ ⊢
  simp only [Market.settledAt] at hsurplus₁ hsurplus₂ hle ⊢
  omega

end Prices

/-! ## Until the settlement -/

section Unsettled

variable {tx : Tx} {w w' : World} {price : Uint256}

/-- Before the settlement, only openings change positions. -/
theorem Effect.positions_of_unsettled {env : Env} {call : Call} (h : Effect env call w w')
    (hs : w.market.isSettled = false) (hcall : call.inflow ≠ some .opened) :
    w'.market.positions = w.market.positions := by
  rcases h.positions_cases with ⟨hp, -⟩ | ⟨o, horder, -⟩ | ⟨_, -, hc, -⟩
  · exact hp
  · exact absurd (body_of_order horder).2 hcall
  · have hsettled := hc.settled
    rw [hs] at hsettled
    cases hsettled

/-- What is due at a price depends on the positions and the strike. -/
theorem outstanding_settledAt_congr {m m' : Market} (hp : m'.positions = m.positions)
    (hk : m'.strikePrice = m.strikePrice) :
    outstanding (m'.settledAt price) = outstanding (m.settledAt price) := by
  unfold outstanding
  apply Finset.sum_congr rfl
  intro t _
  have hpos : (m'.settledAt price).positions t = (m.settledAt price).positions t :=
    congrFun hp t
  exact due_congr hpos (calculatePayout_congr rfl rfl hk hpos)

/-- Before the settlement, a call that neither opens a position nor drains the market changes the
surplus at a price by what it donates. -/
theorem exec_surplus_settledAt (hs : w.market.isSettled = false)
    (hopened : tx.call.inflow ≠ some .opened) (hdrained : tx.call ≠ .emergencyWithdraw)
    (hsettle : tx.call ≠ .settleContract) (h : exec tx w = .ok w') :
    w'.market.isSettled = false ∧
      surplus (w'.settledAt price) = surplus (w.settledAt price) + donatedSince w w' := by
  have heffect := exec_effect h
  have hunsettled : w'.market.isSettled = false := by
    generalize hcall : tx.call = call at heffect hsettle
    cases heffect with
    | settleContract => exact absurd rfl hsettle
    | _ => exact hs
  refine ⟨hunsettled, ?_⟩
  have hfinished : ¬ tx.call.IsFinished := by
    rintro (hcall | hcall | hcall)
    · exact hopened hcall
    · exact hsettle hcall
    · exact hdrained hcall
  have hnet := heffect.net hfinished
  have hpaid := (heffect.paid hunsettled).2
  have hout : outstanding (w'.market.settledAt price) = outstanding (w.market.settledAt price) :=
    outstanding_settledAt_congr (heffect.positions_of_unsettled hs hopened)
      heffect.strike_expiry.1
  unfold surplus donatedSince World.settledAt
  rw [hout]
  simp only [Market.settledAt]
  omega

/-- Before the settlement, a call that neither opens a position nor drains the market leaves what the
market withstands. -/
theorem Withstands.exec (hw : Withstands w price) (hs : w.market.isSettled = false)
    (hopened : tx.call.inflow ≠ some .opened) (hdrained : tx.call ≠ .emergencyWithdraw)
    (hsettle : tx.call ≠ .settleContract) (h : exec tx w = .ok w') : Withstands w' price := by
  have hpos := (exec_effect h).positions_of_unsettled hs hopened
  have hstrike := (exec_effect h).strike_expiry.1
  constructor
  · intro t ht
    have hpays : w.market.Pays t := by
      unfold Market.Pays at ht ⊢
      rwa [hpos] at ht
    rw [hpos]
    apply (hw.inRange t hpays).congr
    unfold Market.priceDiff Market.settledAt
    rw [hstrike]
  · have hsurplus := hw.surplus_nonneg
    have hconserved : surplus (w'.settledAt price) =
        surplus (w.settledAt price) + donatedSince w w' :=
      (exec_surplus_settledAt hs hopened hdrained hsettle h).2
    have hmono := (exec_effect h).donated_mono
    unfold donatedSince at hconserved
    omega

end Unsettled

/-! ## At the settlement and after it -/

section Settled

variable {tx : Tx} {w w' : World}

/-- A settlement makes of the market what it was as if settled at its price. -/
theorem exec_settleContract_surplus (hcall : tx.call = .settleContract) (h : exec tx w = .ok w') :
    surplus w' = surplus (w.settledAt w'.market.settlementPrice) := by
  obtain ⟨-, hs, -, -⟩ := exec_settleContract hcall h
  obtain ⟨-, hstrike, hpos⟩ := exec_settleContract_price hcall h
  have hout : outstanding w'.market =
      outstanding (w.market.settledAt w'.market.settlementPrice) := by
    unfold outstanding
    apply Finset.sum_congr rfl
    intro t _
    have hsettled : w'.market.isSettled =
        (w.market.settledAt w'.market.settlementPrice).isSettled := hs
    exact due_congr (congrFun hpos t) (calculatePayout_congr hsettled rfl hstrike (congrFun hpos t))
  have heffect := exec_effect h
  rw [hcall] at heffect
  unfold surplus World.settledAt
  rw [hout]
  cases heffect with
  | opened order _ => cases order
  | settleContract => rfl

/-- After the settlement, positions that are paid in the native token stay in range. -/
theorem exec_inRange (hs : w.market.isSettled = true)
    (hrange : ∀ t, w.market.Pays t → InRange w.market (w.market.positions t))
    (h : exec tx w = .ok w') {t : Address} (ht : w'.market.Pays t) :
    InRange w'.market (w'.market.positions t) := by
  have hafter := exec_of_settled hs h
  have hprice := congrArg Terms.settlementPrice hafter.terms
  have hstrike := congrArg Terms.strikePrice hafter.terms
  simp only [Market.terms] at hprice hstrike
  have hclaim : ¬ tx.IsClaimOf t := by
    intro hclaim
    have hclaimed := hafter.own t hclaim
    rw [ht.2.1] at hclaimed
    cases hclaimed
  have hpos := hafter.others t hclaim
  have hpays : w.market.Pays t := by
    unfold Market.Pays at ht ⊢
    rwa [hpos] at ht
  rw [hpos]
  apply (hrange t hpays).congr
  unfold Market.priceDiff
  rw [hprice, hstrike]

/-- A trader with an unclaimed position in range that is settled in the native token. -/
theorem Market.Pays.redeemable {t : Address} (ht : w.market.Pays t) (hl : Lifecycle w.market)
    (hs : w.market.isSettled = true) (hrange : InRange w.market (w.market.positions t)) :
    Redeemable w.market t := by
  obtain ⟨hexists, hunclaimed, hnative⟩ := ht
  have ha : Awaiting w.market t := ⟨hs, hexists, hunclaimed⟩
  obtain ⟨payout, hpayout⟩ := exists_payout ha (hl.accepted t hexists).quantity_pos hrange
  exact ⟨ha, payout, hpayout, .inr hnative⟩

end Settled

/-! ## The test -/

/-- A call from the expiry on, which is no withdrawal of the owner, and if it settles the market, gets
a price between two. -/
structure Within (lo hi : Uint256) (tx : Tx) (w : World) : Prop where
  expired : w.market.expiryTimestamp ≤ tx.env.timestamp
  no_drain : tx.call ≠ .emergencyWithdraw
  price : tx.call = .settleContract → ∀ price timestamp,
    getCurrentGasPrice tx.env = .ok (price, timestamp) → lo ≤ price ∧ price ≤ hi

/-- A market that withstands two prices, before its settlement and after it. -/
structure Tested (lo hi : Uint256) (w : World) : Prop where
  represented : Represented w
  lifecycle : Lifecycle w.market
  unsettled : w.market.isSettled = false → Withstands w lo ∧ Withstands w hi
  settled : w.market.isSettled = true → 0 ≤ surplus w ∧
    ∀ t, w.market.Pays t → InRange w.market (w.market.positions t)

section Test

variable {lo hi : Uint256} {tx : Tx} {w w' : World}

/-- Words below half the range are ordered as their casts. -/
theorem int256_le_int256 {x y : Uint256} (h : x ≤ y) (hy : y.toNat < 2^255) :
    int256 x ≤ int256 y := by
  rw [BitVec.le_def] at h
  unfold int256
  rw [Checked.toInt_of_lt (x := x) (by omega), Checked.toInt_of_lt hy]
  exact_mod_cast h

/-- A settlement at a price between the two leaves a market that passed the test. -/
theorem Tested.settle (hw : Tested lo hi w) (hhi : hi.toNat < 2^255)
    (htx : Within lo hi tx w) (hcall : tx.call = .settleContract) (h : exec tx w = .ok w') :
    Tested lo hi w' := by
  obtain ⟨hopen, hs, -, -⟩ := exec_settleContract hcall h
  obtain ⟨hrecorded, hstrike, hpos⟩ := exec_settleContract_price hcall h
  obtain ⟨hlo', hhi'⟩ := htx.price hcall _ _ hrecorded
  obtain ⟨h₁, h₂⟩ := hw.unsettled hopen
  have hhalf : w'.market.settlementPrice.toNat < 2^255 := by
    rw [BitVec.le_def] at hhi'
    omega
  have hprice : Withstands w w'.market.settlementPrice :=
    .between hw.lifecycle (int256_le_int256 hlo' hhalf) (int256_le_int256 hhi' hhi) h₁ h₂
  refine ⟨exec_represented hw.represented h, (exec_effect h).lifecycle hw.lifecycle, ?_, fun _ => ?_⟩
  · intro hs'
    rw [hs] at hs'
    cases hs'
  · refine ⟨?_, fun t ht => ?_⟩
    · rw [exec_settleContract_surplus hcall h]
      exact hprice.surplus_nonneg
    · have hpays : w.market.Pays t := by
        unfold Market.Pays at ht ⊢
        rwa [hpos] at ht
      rw [hpos]
      apply (hprice.inRange t hpays).congr
      unfold Market.priceDiff Market.settledAt
      rw [hstrike]

/-- A call from the expiry on leaves a market that passed the test. -/
theorem exec_tested (hhi : hi.toNat < 2^255) (hw : Tested lo hi w) (htx : Within lo hi tx w)
    (h : exec tx w = .ok w') : Tested lo hi w' := by
  by_cases hcall : tx.call = .settleContract
  · exact hw.settle hhi htx hcall h
  refine ⟨exec_represented hw.represented h, (exec_effect h).lifecycle hw.lifecycle, ?_, ?_⟩
  · intro hs'
    have hs : w.market.isSettled = false := by
      rw [← Bool.not_eq_true]
      intro hs
      rw [(exec_effect h).isSettled_mono hs] at hs'
      cases hs'
    -- The book is closed from the expiry on.
    have hopened : tx.call.inflow ≠ some .opened := by
      intro hi'
      obtain ⟨o, hopenable, -, -⟩ := Tx.Opens.effect (t := tx.env.sender) ⟨hi', rfl⟩ h
      have hbefore := hopenable.beforeExpiry
      have hexpired := htx.expired
      rw [BitVec.lt_def] at hbefore
      rw [BitVec.le_def] at hexpired
      omega
    obtain ⟨h₁, h₂⟩ := hw.unsettled hs
    exact ⟨h₁.exec hs hopened htx.no_drain hcall h, h₂.exec hs hopened htx.no_drain hcall h⟩
  · intro hs'
    cases hs : w.market.isSettled with
    | false =>
      have heffect := exec_effect h
      generalize hc : tx.call = call at heffect hcall
      cases heffect with
      | settleContract => exact absurd rfl hcall
      | _ => exact absurd (hs.symm.trans hs') Bool.false_ne_true
    | true =>
      obtain ⟨hsurplus, hrange⟩ := hw.settled hs
      have hconserved := exec_surplus hs h
      have hmono := (exec_effect h).donated_mono
      unfold donatedSince at hconserved
      exact ⟨by omega, fun t ht => exec_inRange hs hrange h ht⟩

/-- **The test at two prices**: let a market withstand two prices below `2^255` in a reachable state:
at both, all payouts of its positions are returned, and the balance covers them with the pool. In every
run of calls from its expiry on without a withdrawal of the owner, in which a settlement gets a price
between the two, it withstands both prices until the settlement. After the settlement it has no
shortfall: the claim of every unclaimed position that is settled in the native token succeeds, and so
does every removal within its provider's entry, in any order, where they accept the transfer. -/
theorem two_price_test {txs : List Tx} (h : Reachable w) (hs : w.market.isSettled = false)
    (hhi : hi.toNat < 2^255) (h₁ : Withstands w lo) (h₂ : Withstands w hi)
    (run : GuardedRun exec (Within lo hi) w txs w') :
    (w'.market.isSettled = false → Withstands w' lo ∧ Withstands w' hi) ∧
      (w'.market.isSettled = true → 0 ≤ surplus w' ∧
        (∀ c : ClaimCall, w'.market.Pays c.env.sender → ∃ w'', exec c.tx w' = .ok w'') ∧
        ∀ r : Removal, r.amount ≤ w'.market.liquidityProvided r.env.sender →
          ∃ w'', exec r.tx w' = .ok w'') := by
  have hstart : Tested lo hi w := by
    refine ⟨h.represented, h.lifecycle, fun _ => ⟨h₁, h₂⟩, fun hs' => ?_⟩
    rw [hs] at hs'
    cases hs'
  have hend : Tested lo hi w' :=
    run.invariant (fun _ _ _ htx hw he => exec_tested hhi hw htx he) hstart
  refine ⟨hend.unsettled, fun hs' => ?_⟩
  obtain ⟨hsurplus, hrange⟩ := hend.settled hs'
  have hsolvent : Solvent w' := ⟨hend.represented, hs', hsurplus⟩
  refine ⟨hsurplus, fun c hc => ?_, hsolvent.exec_removal⟩
  exact hsolvent.exec_claim c (hc.redeemable hend.lifecycle hs' (hrange _ hc))

end Test

/-- Where the registry answers neither call, the prices are 20 to 49 gwei. -/
theorem mock_price_between {env : Env} {price timestamp : Uint256} (hflr : env.flr = .revert)
    (hbtc : env.btc = .revert) (h : getCurrentGasPrice env = .ok (price, timestamp)) :
    20000000000 ≤ price ∧ price ≤ 49000000000 := by
  obtain ⟨price', hmock, hvalue⟩ := mockPrice_eq env.number
  unfold getCurrentGasPrice _getGasPriceWithFallback at h
  rw [hflr, hbtc] at h
  simp only [hmock] at h
  cases h
  have hmod := Nat.mod_lt env.number.toNat (show 0 < 30 by decide)
  rw [BitVec.le_def, BitVec.le_def, hvalue]
  have h₁ : (20000000000 : Uint256).toNat = 20000000000 := rfl
  have h₂ : (49000000000 : Uint256).toNat = 49000000000 := rfl
  omega

/-- The long and the short of the sample run have the same size, so that their market withstands all
prices that are made from the block number. After the settlement and the long's claim, the short can
claim. -/
theorem two_price_test_sample :
    ∃ w w' w'', launch sampleDeployment sampleOpening = .ok w ∧
      Run exec w [sampleSettlement, sampleClaim] w' ∧ 0 ≤ surplus w' ∧
      exec ⟨quietEnv 3 0 1700604803, .claimPayout, none⟩ w' = .ok w'' := by
  obtain ⟨w, hw, hp⟩ := exists_launch sampleDeployment sampleOpening
    (fun w => decide (w.market.isSettled = false ∧ w.market.expiryTimestamp = 1700604800) &&
      (w.withstands 20000000000 && w.withstands 49000000000) &&
      (exec sampleSettlement w).toOption.any fun w₁ : World =>
        decide (w₁.market.expiryTimestamp = 1700604800) &&
        (exec sampleClaim w₁).toOption.any fun w' : World =>
          decide (w'.market.isSettled = true ∧ w'.market.Pays 3)) (by decide +kernel)
  simp only [Bool.and_eq_true, decide_eq_true_eq] at hp
  obtain ⟨⟨⟨hs, hexpiry⟩, hlo, hhi⟩, hruns⟩ := hp
  obtain ⟨w₁, hw₁, hp₁⟩ := Checked.exists_of_any hruns
  rw [Bool.and_eq_true] at hp₁
  have hexpiry₁ := of_decide_eq_true hp₁.1
  obtain ⟨w', hw', hp'⟩ := Checked.exists_of_any hp₁.2
  obtain ⟨hs', hpays⟩ := of_decide_eq_true hp'
  have hreach := reachable_of_launch hw
  have hsettle : Within 20000000000 49000000000 sampleSettlement w :=
    ⟨by rw [hexpiry]; decide, by decide, fun _ _ _ => mock_price_between rfl rfl⟩
  have hclaim : Within 20000000000 49000000000 sampleClaim w₁ :=
    ⟨by rw [hexpiry₁]; decide, by decide, fun hcall => by cases hcall⟩
  have run : GuardedRun exec (Within 20000000000 49000000000) w [sampleSettlement, sampleClaim] w' :=
    .cons hsettle hw₁ (.single hclaim hw')
  obtain ⟨hsurplus, hclaims, -⟩ := (two_price_test hreach hs (by decide)
    ((withstands_iff hreach.lifecycle).mp hlo) ((withstands_iff hreach.lifecycle).mp hhi) run).2 hs'
  obtain ⟨w'', hw''⟩ := hclaims ⟨quietEnv 3 0 1700604803, rfl⟩ hpays
  exact ⟨w, w', w'', hw, run.guarded fun _ _ _ => trivial, hsurplus, hw''⟩

end GasCap
