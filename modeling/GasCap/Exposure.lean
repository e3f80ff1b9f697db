import GasCap.Coverage
import Mathlib.Algebra.BigOperators.Ring.Finset

/-!
# Payouts in unbounded integers

What a position is to be paid is its collateral and its profit, cut off at zero, as the recorded
numbers give it in unbounded integers (`exactPayout`). `calculatePayout` computes it from casts of
these numbers that keep them modulo `2^256`, so a payout that it returns is the balanced remainder of
the exact one. The two are the same exactly when the exact one is a value of `int256`, or both are
losses (`calculatePayout_exact_iff`).

Where all numbers are below `2^255`, the payouts of a book of positions add up to its collateral, the
move of the price times the net exposure, and the debt of the positions that lost more than their
collateral (`book_payouts`).
-/

namespace GasCap

open Machine

/-- The collateral of a position and its profit, in unbounded integers and from the recorded
numbers. -/
def exactPayout (m : Market) (p : Position) : ℤ :=
  if p.isLong then
    p.collateral.toNat +
      (m.settlementPrice.toNat - m.strikePrice.toNat) * p.quantity.toNat * p.leverage.toNat
  else
    p.collateral.toNat -
      (m.settlementPrice.toNat - m.strikePrice.toNat) * p.quantity.toNat * p.leverage.toNat

/-- An integer that is a value of `int256`, or a loss that wraps around to a loss. -/
def ReadsExactly (z : ℤ) : Prop := Checked.Fits 256 z ∨ z < -2^(256 - 1) ∧ z.bmod (2^256) ≤ 0

instance (z : ℤ) : Decidable (ReadsExactly z) := inferInstanceAs (Decidable (_ ∨ _))

/-- What is owed by the casts is what is owed by the recorded numbers, modulo `2^256`. -/
theorem owed_modEq (m : Market) (p : Position) : Owed m p ≡ exactPayout m p [ZMOD 2^256] := by
  have hdiff : m.priceDiff ≡ m.settlementPrice.toNat - m.strikePrice.toNat [ZMOD 2^256] :=
    (Checked.toInt_modEq m.settlementPrice).sub (Checked.toInt_modEq m.strikePrice)
  have hquantity := Checked.toInt_modEq p.quantity
  have hleverage := Checked.toInt_modEq p.leverage
  have hcollateral := Checked.toInt_modEq p.collateral
  unfold Owed Position.pnl Position.gain exactPayout
  by_cases hl : p.isLong = true
  · simp only [hl, if_true]
    exact hcollateral.add ((hdiff.mul hquantity).mul hleverage)
  · simp only [if_neg hl]
    rw [sub_eq_add_neg (p.collateral.toNat : ℤ), ← neg_mul, ← neg_mul]
    exact hcollateral.add ((hdiff.neg.mul hquantity).mul hleverage)

/-- A payout that is returned is the balanced remainder of the exact one, cut off at zero. -/
theorem payout_eq_max_bmod {m : Market} {t : Address} {v : Uint256} (ha : Awaiting m t)
    (hq : 0 < (m.positions t).quantity) (hv : calculatePayout m t = .ok v) :
    (v.toNat : ℤ) = max 0 ((exactPayout m (m.positions t)).bmod (2^256)) := by
  obtain ⟨hrange, hvalue⟩ := (calculatePayout_eq_ok ha hq).mp hv
  rw [← Checked.eq_bmod_of_fits (by decide) hrange.owed (owed_modEq m (m.positions t)), hvalue]
  omega

/-- **When `calculatePayout` is exact**: for every position that waits for its claim in a reachable
market, a payout that is returned is the collateral and the profit of the position, cut off at zero,
if and only if the collateral and the profit together are a value of `int256` or a loss that wraps
around to a loss. -/
theorem calculatePayout_exact_iff {w : World} {t : Address} {v : Uint256} (h : Reachable w)
    (ha : Awaiting w.market t) (hv : calculatePayout w.market t = .ok v) :
    (v.toNat : ℤ) = max 0 (exactPayout w.market (w.market.positions t)) ↔
      ReadsExactly (exactPayout w.market (w.market.positions t)) := by
  have hq := (h.lifecycle.accepted t ha.position).quantity_pos
  rw [payout_eq_max_bmod ha hq hv]
  exact Checked.max_bmod_iff (by decide) _

/-- The payout of the sample run's long is exact. -/
theorem calculatePayout_exact_iff_sample :
    ∃ w v, launch sampleDeployment (sampleOpening ++ [sampleSettlement]) = .ok w ∧
      calculatePayout w.market 2 = .ok v ∧
      (v.toNat : ℤ) = max 0 (exactPayout w.market (w.market.positions 2)) := by
  obtain ⟨w, hw, hp⟩ := exists_launch sampleDeployment (sampleOpening ++ [sampleSettlement])
    (fun w => decide (Awaiting w.market 2 ∧
      calculatePayout w.market 2 = .ok 1000000199999999500 ∧
      ReadsExactly (exactPayout w.market (w.market.positions 2)))) (by decide +kernel)
  obtain ⟨ha, hv, hexact⟩ := of_decide_eq_true hp
  exact ⟨w, _, hw, hv, (calculatePayout_exact_iff (reachable_of_launch hw) ha hv).mpr hexact⟩

/-- A market with the largest strike price. -/
def highStrikeDeployment : Deployment := { sampleDeployment with strikePrice := -1 }

/-- One long contract, and the settlement. -/
def highStrikeRun : List Tx :=
  [⟨quietEnv 2 0 1700000001, .registerUser "longUser" "", none⟩,
    ⟨quietEnv 2 ether 1700000002, .mintLong 1 1 0, none⟩,
    sampleSettlement]

/-- The cast reads the largest strike price as `-1`, so that a long which lost everything is paid its
collateral and a profit. -/
theorem payout_wraps :
    ∃ w, launch highStrikeDeployment highStrikeRun = .ok w ∧ Awaiting w.market 2 ∧
      w.market.strikePrice.toNat = 2^256 - 1 ∧
      calculatePayout w.market 2 = .ok 1000000020000000001 ∧
      max 0 (exactPayout w.market (w.market.positions 2)) = 0 := by
  obtain ⟨w, hw, hp⟩ := exists_launch highStrikeDeployment highStrikeRun
    (fun w => decide (Awaiting w.market 2 ∧ w.market.strikePrice.toNat = 2^256 - 1 ∧
      calculatePayout w.market 2 = .ok 1000000020000000001 ∧
      max 0 (exactPayout w.market (w.market.positions 2)) = 0)) (by decide +kernel)
  exact ⟨w, hw, of_decide_eq_true hp⟩

/-! ## A book of positions -/

/-- The contracts of a position, with its leverage. -/
def Position.size (p : Position) : ℤ := p.quantity.toNat * p.leverage.toNat

/-- The profit of a position, in unbounded integers and from the recorded numbers. -/
def Position.profit (p : Position) (m : Market) : ℤ :=
  p.gain (m.settlementPrice.toNat - m.strikePrice.toNat) * p.quantity.toNat * p.leverage.toNat

/-- What a position lost beyond its collateral. -/
def Position.badDebt (p : Position) (m : Market) : ℤ :=
  max 0 (-p.profit m - p.collateral.toNat)

/-- The long contracts of a book without the short ones. -/
def netExposure (m : Market) (U : Finset Address) : ℤ :=
  ∑ t ∈ U with (m.positions t).isLong = true, (m.positions t).size -
    ∑ t ∈ U with (m.positions t).isLong = false, (m.positions t).size

/-- The collateral of a book. -/
def bookCollateral (m : Market) (U : Finset Address) : ℤ :=
  ∑ t ∈ U, ((m.positions t).collateral.toNat : ℤ)

/-- The debt of the positions of a book that lost more than their collateral. -/
def bookBadDebt (m : Market) (U : Finset Address) : ℤ := ∑ t ∈ U, (m.positions t).badDebt m

/-- A trader whose payout is returned, from numbers below half the range. -/
structure Payable (m : Market) (t : Address) : Prop where
  awaiting : Awaiting m t
  halfRange : HalfRange m (m.positions t)
  returns : ∃ v, calculatePayout m t = .ok v

/-- The payout of a position is its collateral and its profit, without what it lost beyond the
collateral. -/
theorem Payable.payout_eq {m : Market} {t : Address} (h : Payable m t)
    (hq : 0 < (m.positions t).quantity) :
    (payoutOf m t : ℤ) = (m.positions t).collateral.toNat + (m.positions t).profit m +
      (m.positions t).badDebt m := by
  obtain ⟨v, hv⟩ := h.returns
  have hvalue := ((calculatePayout_eq_ok h.awaiting hq).mp hv).2
  rw [payoutOf_eq hv, hvalue, h.halfRange.owed_eq]
  unfold Position.badDebt Position.profit
  omega

/-- The profits of a book are the move of the price times the net exposure. -/
theorem sum_profit (m : Market) (U : Finset Address) :
    ∑ t ∈ U, (m.positions t).profit m =
      (m.settlementPrice.toNat - m.strikePrice.toNat) * netExposure m U := by
  have hsplit : ∀ t ∈ U, (m.positions t).profit m =
      (m.settlementPrice.toNat - m.strikePrice.toNat) *
        if (m.positions t).isLong = true then (m.positions t).size
        else -(m.positions t).size := by
    intro t _
    unfold Position.profit Position.gain Position.size
    split_ifs
    · rw [mul_assoc]
    · rw [mul_assoc, neg_mul, mul_neg]
  rw [Finset.sum_congr rfl hsplit, ← Finset.mul_sum, Finset.sum_ite, Finset.sum_neg_distrib,
    ← sub_eq_add_neg, netExposure]
  simp only [Bool.not_eq_true]

/-- **What the pool owes the book**: in a reachable settled state, the payouts of a book of positions,
whose numbers are below `2^255` and whose payouts are returned, add up to the collateral of the book,
the move of the price times its net exposure, and its bad debt. A book without a net exposure is paid
its collateral and its bad debt, and its collateral alone where no loss exceeds the collateral. -/
theorem book_payouts {w : World} (h : Reachable w) (U : Finset Address)
    (hU : ∀ t ∈ U, Payable w.market t) :
    (∑ t ∈ U, (payoutOf w.market t : ℤ) = bookCollateral w.market U +
      (w.market.settlementPrice.toNat - w.market.strikePrice.toNat) * netExposure w.market U +
        bookBadDebt w.market U) ∧
    (netExposure w.market U = 0 →
      ∑ t ∈ U, (payoutOf w.market t : ℤ) =
        bookCollateral w.market U + bookBadDebt w.market U) ∧
    (netExposure w.market U = 0 →
      (∀ t ∈ U, -(w.market.positions t).profit w.market ≤
        (w.market.positions t).collateral.toNat) →
      ∑ t ∈ U, (payoutOf w.market t : ℤ) = bookCollateral w.market U) := by
  have hpayout : ∀ t ∈ U, (payoutOf w.market t : ℤ) =
      (w.market.positions t).collateral.toNat + (w.market.positions t).profit w.market +
        (w.market.positions t).badDebt w.market := fun t ht =>
    (hU t ht).payout_eq (h.lifecycle.accepted t (hU t ht).awaiting.position).quantity_pos
  have hbook : ∑ t ∈ U, (payoutOf w.market t : ℤ) = bookCollateral w.market U +
      (w.market.settlementPrice.toNat - w.market.strikePrice.toNat) * netExposure w.market U +
        bookBadDebt w.market U := by
    rw [Finset.sum_congr rfl hpayout, Finset.sum_add_distrib, Finset.sum_add_distrib, sum_profit]
    rfl
  refine ⟨hbook, fun hnet => ?_, fun hnet hloss => ?_⟩
  · rw [hbook, hnet, mul_zero, add_zero]
  · have hdebt : bookBadDebt w.market U = 0 := by
      apply Finset.sum_eq_zero
      intro t ht
      have := hloss t ht
      unfold Position.badDebt
      omega
    rw [hbook, hnet, hdebt, mul_zero, add_zero, add_zero]

/-- A position that waits for its claim, with numbers below half the range and in range. -/
theorem Reachable.payable {w : World} (h : Reachable w) {t : Address} (ha : Awaiting w.market t)
    (hr : HalfRange w.market (w.market.positions t))
    (hin : InRange w.market (w.market.positions t)) : Payable w.market t :=
  ⟨ha, hr, exists_payout ha (h.lifecycle.accepted t ha.position).quantity_pos hin⟩

/-- The long and the short of the sample run are paid their collateral. -/
theorem book_payouts_sample :
    ∃ w, launch sampleDeployment (sampleOpening ++ [sampleSettlement]) = .ok w ∧
      ∑ t ∈ ({2, 3} : Finset Address), (payoutOf w.market t : ℤ) =
        bookCollateral w.market {2, 3} := by
  obtain ⟨w, hw, hp⟩ := exists_launch sampleDeployment (sampleOpening ++ [sampleSettlement])
    (fun w => decide ((Awaiting w.market 2 ∧ HalfRange w.market (w.market.positions 2) ∧
        InRange w.market (w.market.positions 2) ∧
        -(w.market.positions 2).profit w.market ≤ (w.market.positions 2).collateral.toNat) ∧
      (Awaiting w.market 3 ∧ HalfRange w.market (w.market.positions 3) ∧
        InRange w.market (w.market.positions 3) ∧
        -(w.market.positions 3).profit w.market ≤ (w.market.positions 3).collateral.toNat) ∧
      netExposure w.market {2, 3} = 0)) (by decide +kernel)
  obtain ⟨⟨ha₂, hr₂, hin₂, hloss₂⟩, ⟨ha₃, hr₃, hin₃, hloss₃⟩, hnet⟩ := of_decide_eq_true hp
  have hreach := reachable_of_launch hw
  refine ⟨w, hw, (book_payouts hreach {2, 3} fun t ht => ?_).2.2 hnet fun t ht => ?_⟩
  · rcases Finset.mem_insert.mp ht with rfl | ht
    · exact hreach.payable ha₂ hr₂ hin₂
    · obtain rfl := Finset.mem_singleton.mp ht
      exact hreach.payable ha₃ hr₃ hin₃
  · rcases Finset.mem_insert.mp ht with rfl | ht
    · exact hloss₂
    · obtain rfl := Finset.mem_singleton.mp ht
      exact hloss₃

end GasCap
