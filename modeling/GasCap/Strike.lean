import GasCap.Finality
import GasCap.PriceLines

/-!
# The unit of the strike

The strike of a market is a number of gwei, and the price that a settlement records is at the scale
of `1e9`: twenty gwei are `20 * 1e9`. `calculatePayout` subtracts one from the other as they are. The
script `settle.js` announces the winners with the price divided by `1e9` (`forecast`). A payout is that
of the price in gwei exactly where the price is not between the strike and `1e9` times the strike, and
so is the announcement except where rounding hides the difference (`payout_in_gwei_iff`). Every
recorded price is at least `20 * 1e9`.
-/

namespace GasCap

open Machine

/-- A settlement records the price that `getCurrentGasPrice` returns, and leaves the strike and the
positions. -/
theorem exec_settleContract_price {tx : Tx} {w w' : World} (hcall : tx.call = .settleContract)
    (h : exec tx w = .ok w') :
    getCurrentGasPrice tx.env = .ok (w'.market.settlementPrice, w'.market.settlementTimestamp) ∧
      w'.market.strikePrice = w.market.strikePrice ∧
      w'.market.positions = w.market.positions := by
  have heffect := exec_effect h
  rw [hcall] at heffect
  cases heffect with
  | opened order _ => cases order
  | settleContract _ _ _ price_eq _ _ => exact ⟨price_eq, rfl, rfl⟩

/-- A strike below `20 * 1e9` is below every price that a settlement records, so every long is on the
winning side of it. -/
theorem exec_settleContract_above {tx : Tx} {w w' : World} (hcall : tx.call = .settleContract)
    (h : exec tx w = .ok w') (hk : w'.market.strikePrice.toNat < 20 * 10^9) :
    w'.market.strikePrice < w'.market.settlementPrice := by
  have hprice := _getGasPriceWithFallback_ge (exec_settleContract_price hcall h).1
  rw [BitVec.lt_def]
  omega

/-- A position that exists at a settlement waits for its claim after it. -/
theorem awaiting_of_settlement {tx : Tx} {w w' : World} {t : Address} (hreach : Reachable w)
    (hcall : tx.call = .settleContract) (h : exec tx w = .ok w')
    (ht : (w.market.positions t).exists = true) : Awaiting w'.market t := by
  obtain ⟨hopen, hs, -, -⟩ := exec_settleContract hcall h
  have hpos := (exec_settleContract_price hcall h).2.2
  refine ⟨hs, by rw [hpos]; exact ht, ?_⟩
  rw [hpos]
  by_contra hclaimed
  have hsettled := (hreach.lifecycle.claimed t (Bool.eq_true_of_not_eq_false hclaimed)).2
  rw [hopen] at hsettled
  cases hsettled

/-- The payout of a position exceeds its collateral exactly when the settlement price, in gwei, is on
its side of the strike. -/
def PaysInGwei (m : Market) (p : Position) (payout : Uint256) : Prop :=
  (p.isLong = true →
    (p.collateral < payout ↔ m.strikePrice.toNat * 10^9 < m.settlementPrice.toNat)) ∧
  (p.isLong = false →
    (p.collateral < payout ↔ m.settlementPrice.toNat < m.strikePrice.toNat * 10^9))

/-- For a long, the price is not above the strike, or is so in gwei, and for a short, it is below the
strike, or is not so in gwei. -/
def SidesAgree (p : Position) (price strike : Uint256) : Prop :=
  (p.isLong = true → price ≤ strike ∨ strike.toNat * 10^9 < price.toNat) ∧
  (p.isLong = false → price < strike ∨ strike.toNat * 10^9 ≤ price.toNat)

/-- **When payouts and announcements respect the unit of the strike**: at the price that
`getCurrentGasPrice` returned to `settle.js`, the settlement pays a position more than its collateral
exactly when the price in gwei is on its side, if and only if the price is not between the strike and
`1e9` times the strike. `settle.js` announces the side on which the price in gwei is if and only if the
numbers that it compares are ordered as the price and `1e9` times the strike, which they are for a
strike up to 9007199 and wherever the two are more than one part in `2^51` apart. -/
theorem payout_in_gwei_iff {tx : Tx} {w w' : World} {t : Address}
    {price timestamp payout : Uint256} (hreach : Reachable w) (hcall : tx.call = .settleContract)
    (hprice : getCurrentGasPrice tx.env = .ok (price, timestamp)) (h : exec tx w = .ok w')
    (ht : (w.market.positions t).exists = true)
    (hr : HalfRange w'.market (w'.market.positions t))
    (hv : calculatePayout w'.market t = .ok payout) :
    w'.market.settlementPrice = price ∧
      (PaysInGwei w'.market (w'.market.positions t) payout ↔
        SidesAgree (w.market.positions t) price w.market.strikePrice) ∧
      (AnnouncesInGwei price w.market.strikePrice ↔ RoundedAsExact price w.market.strikePrice) ∧
      (w.market.strikePrice.toNat ≤ 9007199 ∨
          w.market.strikePrice.toNat * 10^9 * (2^51 + 1) < price.toNat * 2^51 ∨
          price.toNat * (2^51 + 1) < w.market.strikePrice.toNat * 10^9 * 2^51 →
        RoundedAsExact price w.market.strikePrice) := by
  obtain ⟨hrecorded, hstrike, hpos⟩ := exec_settleContract_price hcall h
  have ha := awaiting_of_settlement hreach hcall h ht
  have hp := (hreach.exec h).lifecycle.accepted t ha.position
  have hgain := payout_gt_collateral_iff ha hp hr hv
  rw [hprice] at hrecorded
  obtain ⟨rfl, -⟩ := Prod.mk.inj (Except.ok.inj hrecorded)
  rw [← hstrike, ← hpos]
  refine ⟨rfl, ?_, announcesInGwei_iff _ _, fun h => h.elim (roundedAsExact_of_le _)
    roundedAsExact_of_apart⟩
  unfold PaysInGwei SidesAgree
  simp only [BitVec.lt_def, BitVec.le_def]
  rw [hgain]
  unfold Position.gain
  -- The payout is decided by the price and the strike as they are, without the unit.
  cases hl : (w'.market.positions t).isLong with
  | true =>
    simp only [if_true, forall_const, Bool.true_eq_false, false_implies, and_true]
    omega
  | false =>
    simp only [Bool.false_eq_true, if_false, forall_const, false_implies, true_and]
    omega

/-- The short of the sample run, after its settlement. -/
theorem payout_in_gwei_iff_sample :
    ∃ w w' payout, launch sampleDeployment sampleOpening = .ok w ∧
      exec sampleSettlement w = .ok w' ∧ calculatePayout w'.market 3 = .ok payout ∧
      (PaysInGwei w'.market (w'.market.positions 3) payout ↔
        SidesAgree (w.market.positions 3) 20000000000 w.market.strikePrice) ∧
      (AnnouncesInGwei 20000000000 w.market.strikePrice ↔
        RoundedAsExact 20000000000 w.market.strikePrice) := by
  obtain ⟨w, hw, hp⟩ := exists_launch sampleDeployment sampleOpening
    (fun w => decide ((w.market.positions 3).exists = true) &&
      (exec sampleSettlement w).toOption.any fun w' : World =>
        decide (HalfRange w'.market (w'.market.positions 3) ∧
          calculatePayout w'.market 3 = .ok 999999800000000500)) (by decide +kernel)
  rw [Bool.and_eq_true] at hp
  obtain ⟨w', hw', hp'⟩ := Checked.exists_of_any hp.2
  obtain ⟨hr, hv⟩ := of_decide_eq_true hp'
  have hprice : getCurrentGasPrice sampleSettlement.env = .ok (20000000000, _) := rfl
  obtain ⟨-, hpays, hannounces, -⟩ := payout_in_gwei_iff (reachable_of_launch hw) rfl hprice hw'
    (of_decide_eq_true hp.1) hr hv
  exact ⟨w, w', _, hw, hw', hv, hpays, hannounces⟩

/-- The long of the sample run is paid more than its collateral, with a strike of 50 gwei and a
price of 20 gwei, for which `settle.js` announces the shorts. -/
theorem long_paid_below_strike :
    ∃ w w' payout, launch sampleDeployment sampleOpening = .ok w ∧
      exec sampleSettlement w = .ok w' ∧ (w'.market.positions 2).exists = true ∧
      HalfRange w'.market (w'.market.positions 2) ∧ calculatePayout w'.market 2 = .ok payout ∧
      (w'.market.positions 2).isLong = true ∧ (w'.market.positions 2).collateral < payout ∧
      w'.market.settlementPrice.toNat < w'.market.strikePrice.toNat * 10^9 ∧
      forecast w'.market.settlementPrice w'.market.strikePrice = .shortsWin ∧
      ¬ PaysInGwei w'.market (w'.market.positions 2) payout := by
  obtain ⟨w, hw, hp⟩ := exists_launch sampleDeployment sampleOpening
    (fun w => (exec sampleSettlement w).toOption.any fun w' : World =>
      decide ((w'.market.positions 2).exists = true ∧
        HalfRange w'.market (w'.market.positions 2) ∧
        calculatePayout w'.market 2 = .ok 1000000199999999500 ∧
        (w'.market.positions 2).isLong = true ∧
        (w'.market.positions 2).collateral < 1000000199999999500 ∧
        w'.market.strikePrice.toNat ≤ 9007199 ∧
        w'.market.settlementPrice.toNat < w'.market.strikePrice.toNat * 10^9))
    (by decide +kernel)
  obtain ⟨w', hw', hp'⟩ := Checked.exists_of_any hp
  obtain ⟨ht, hr, hv, hl, hc, hstrike, hk⟩ := of_decide_eq_true hp'
  have hannounced : AnnouncesInGwei w'.market.settlementPrice w'.market.strikePrice :=
    (announcesInGwei_iff _ _).mpr (roundedAsExact_of_le _ hstrike)
  refine ⟨w, w', _, hw, hw', ht, hr, hv, hl, hc, hk, hannounced.2.mpr hk, ?_⟩
  intro hpays
  have := ((hpays.1 hl).mp hc)
  omega

end GasCap
