import GasCap.PriceLines
import GasCap.SettlementScripts

/-!
# The results that scripts print

After a settlement, `settle.js` compares the price with the strike as they are, as the payouts do, and
names the winners (`results_name_winners`). `interact.js` compares a payout with the collateral of its
position. Both compare what `Number` makes of the amounts, which is never the wrong way round, but may
hide a small difference (`interactProfit_cases`).
-/

namespace GasCap

open Machine Rounding

/-- The result that `settle.js` prints of a settlement. -/
inductive ResultLine
  /-- "Price went UP by …", with the longs as winners -/
  | up
  /-- "Price went DOWN by …", with the shorts as winners -/
  | down
  /-- "Exactly at strike", a draw in which the collateral is returned -/
  | atStrike
  deriving DecidableEq

def resultLine (settlement : PrintedSettlement) : ResultLine :=
  let settlementPriceNum := number settlement.settlementPrice
  let strikePriceNum := number settlement.strikePrice
  if settlementPriceNum > strikePriceNum then .up
  else if settlementPriceNum < strikePriceNum then .down
  else .atStrike

/-- The profit line of `interact.js`. -/
def interactProfit (payout collateral : Uint256) : ProfitLine :=
  let profit := difference 53 (number payout) (number collateral)
  if profit > 0 then .profit
  else if profit < 0 then .loss
  else .breakEven

/-! ## The profit -/

section Profit

variable {payout collateral : Uint256}

/-- The profit line of `interact.js` compares the numbers. -/
theorem interactProfit_iff (payout collateral : Uint256) :
    (interactProfit payout collateral = .profit ↔ number collateral < number payout) ∧
      (interactProfit payout collateral = .loss ↔ number payout < number collateral) ∧
      (interactProfit payout collateral = .breakEven ↔ number payout = number collateral) := by
  obtain ⟨hprofit, hloss, heven⟩ :=
    comparison_iff (x := difference 53 (number payout) (number collateral)) (y := 0)
      (by decide : ProfitLine.profit ≠ .loss) (by decide : ProfitLine.profit ≠ .breakEven) (by decide)
  exact ⟨hprofit.trans (difference_pos (by decide)), hloss.trans (difference_neg (by decide)),
    heven.trans (difference_eq_zero (by decide))⟩

/-- The profit line of `interact.js` is that of `claim.js`, or it says break-even of a difference of at
most one part in `2^53` of both. -/
theorem interactProfit_cases (payout collateral : Uint256) :
    interactProfit payout collateral = profitLine payout collateral ∨
      (interactProfit payout collateral = .breakEven ∧
        |(payout.toNat : ℚ) - collateral.toNat| ≤ (payout.toNat + collateral.toNat) / 2^53) := by
  obtain ⟨hprofit, hloss, heven⟩ := interactProfit_iff payout collateral
  obtain ⟨hprofit', hloss', -⟩ := profitLine_iff payout collateral
  rcases lt_trichotomy (number payout) (number collateral) with hlt | heq | hlt
  · left
    rw [hloss.mpr hlt, hloss'.mpr (lt_of_number_lt hlt)]
  · refine .inr ⟨heven.mpr heq, ?_⟩
    -- Both are rounded to the same number.
    have hpayout := abs_round_sub_le 53 (Nat.cast_nonneg (α := ℚ) payout.toNat)
    have hcollateral := abs_round_sub_le 53 (Nat.cast_nonneg (α := ℚ) collateral.toNat)
    unfold number at heq
    rw [heq, abs_sub_comm] at hpayout
    calc |(payout.toNat : ℚ) - collateral.toNat|
        ≤ |(payout.toNat : ℚ) - round 53 collateral.toNat| +
            |round 53 collateral.toNat - (collateral.toNat : ℚ)| := abs_sub_le _ _ _
      _ ≤ payout.toNat / 2^53 + collateral.toNat / 2^53 := add_le_add hpayout hcollateral
      _ = (payout.toNat + collateral.toNat) / 2^53 := (add_div _ _ _).symm
  · left
    rw [hprofit.mpr hlt, hprofit'.mpr (lt_of_number_lt hlt)]

/-- A payout of nothing is a loss. -/
theorem interactProfit_zero (h : 0 < collateral) : interactProfit 0 collateral = .loss := by
  rw [(interactProfit_iff 0 collateral).2.1, number_lt_iff (.inl (by decide))]
  exact BitVec.lt_def.mp h

end Profit

/-! ## The result of a settlement -/

/-- A settled market has a price of at least 20 gwei, at the scale of `1e9`. -/
theorem Reachable.settlementPrice_ge {w : World} (h : Reachable w)
    (hs : w.market.isSettled = true) : 20 * 10^9 ≤ w.market.settlementPrice.toNat := by
  obtain ⟨d, w₀, txs, h₀, run⟩ := h
  refine run.invariant (I := fun w => w.market.isSettled = true →
    20 * 10^9 ≤ w.market.settlementPrice.toNat) ?_ ?_ hs
  · intro tx w w' _ hw he
    have heffect := exec_effect he
    generalize tx.call = call at heffect
    cases heffect with
    | settleContract _ _ _ price_eq _ _ => exact fun _ => _getGasPriceWithFallback_ge price_eq
    | _ => exact hw
  · intro hs₀
    rw [(deploy_fresh h₀).isSettled] at hs₀
    cases hs₀

/-- The result compares the prices, which are at the strike where neither is above the other. -/
theorem resultLine_iff (settlement : PrintedSettlement) :
    (resultLine settlement = .up ↔
      number settlement.strikePrice < number settlement.settlementPrice) ∧
    (resultLine settlement = .down ↔
      number settlement.settlementPrice < number settlement.strikePrice) ∧
    (resultLine settlement = .atStrike ↔
      number settlement.settlementPrice = number settlement.strikePrice) :=
  comparison_iff (by decide) (by decide) (by decide)

/-- Above the strike, the longs have a profit and the shorts a loss. -/
theorem HalfRange.profitLine_above {m : Market} {p : Position} {payout : Uint256}
    (hr : HalfRange m p) (hp : p.Accepted) (hpayout : payout.toNat = (Owed m p).toNat)
    (hlt : m.strikePrice.toNat < m.settlementPrice.toNat) :
    profitLine payout p.collateral = if p.isLong then .profit else .loss := by
  obtain ⟨hprofit, hloss, -⟩ := hr.profitLine_iff hp hpayout
  unfold Position.gain at hprofit hloss
  cases hlong : p.isLong with
  | true =>
    rw [hlong, if_pos rfl] at hprofit
    rw [if_pos rfl, hprofit]
    omega
  | false =>
    rw [hlong, if_neg Bool.false_ne_true] at hloss
    rw [if_neg Bool.false_ne_true, hloss]
    omega

/-- Below the strike, the longs have a loss and the shorts a profit. -/
theorem HalfRange.profitLine_below {m : Market} {p : Position} {payout : Uint256}
    (hr : HalfRange m p) (hp : p.Accepted) (hpayout : payout.toNat = (Owed m p).toNat)
    (hlt : m.settlementPrice.toNat < m.strikePrice.toNat) :
    profitLine payout p.collateral = if p.isLong then .loss else .profit := by
  obtain ⟨hprofit, hloss, -⟩ := hr.profitLine_iff hp hpayout
  unfold Position.gain at hprofit hloss
  cases hlong : p.isLong with
  | true =>
    rw [hlong, if_pos rfl] at hloss
    rw [if_pos rfl, hloss]
    omega
  | false =>
    rw [hlong, if_neg Bool.false_ne_true] at hprofit
    rw [if_neg Bool.false_ne_true, hprofit]
    omega

/-- At the strike, and nowhere else, a position breaks even. -/
theorem HalfRange.profitLine_at {m : Market} {p : Position} {payout : Uint256}
    (hr : HalfRange m p) (hp : p.Accepted) (hpayout : payout.toNat = (Owed m p).toNat) :
    profitLine payout p.collateral = .breakEven ↔
      m.settlementPrice.toNat = m.strikePrice.toNat := by
  obtain ⟨-, -, heven⟩ := hr.profitLine_iff hp hpayout
  rw [heven]
  unfold Position.gain
  split_ifs <;> omega

section Run

variable {K : Type*} [DecidableEq K] {s s' : Joint World ProcessState K}
  {turns : List (Turn K ProcessCall Tx)}

/-- **The winners that `settle.js` names have won**: in every run of the processes, after a settlement
that a process of `settle.js` has printed, its line says that the price went up or down only where the
payout of every long, or of every short, is a profit in the sense of `claim.js`, and the payout of
every other position is a loss. For a strike below `2^53` it says that there is a draw exactly where
there is one. For a strike below 20 gwei at the scale of `1e9` it always says that the price went up,
whatever was forecast. -/
theorem results_name_winners (h : Reachable s.shared) (hstart : ∀ k, (s.locals k).isStart = true)
    (run : Run processes.step s turns s') {k : K} {own : Bool} {settlement : PrintedSettlement}
    (hk : s'.locals k = .reported own settlement) :
    (settlement.strikePrice.toNat < 20 * 10^9 → resultLine settlement = .up) ∧
    ∀ trader payout, Awaiting s'.shared.market trader →
      HalfRange s'.shared.market (s'.shared.market.positions trader) →
        calculatePayout s'.shared.market trader = .ok payout →
          (resultLine settlement = .up →
            profitLine payout (s'.shared.market.positions trader).collateral =
              if (s'.shared.market.positions trader).isLong then .profit else .loss) ∧
          (resultLine settlement = .down →
            profitLine payout (s'.shared.market.positions trader).collateral =
              if (s'.shared.market.positions trader).isLong then .loss else .profit) ∧
          (settlement.strikePrice.toNat < 2^53 →
            (resultLine settlement = .atStrike ↔
              profitLine payout (s'.shared.market.positions trader).collateral = .breakEven)) := by
  obtain ⟨hreach, hsound⟩ := run_processes_sound h hstart run
  have hsettlement : settlement.Of s'.shared.market := by
    have hsoundk := hsound k
    rw [hk] at hsoundk
    exact hsoundk
  obtain ⟨hup, hdown, hequal⟩ := resultLine_iff settlement
  constructor
  · intro hstrike
    have hprice := hreach.settlementPrice_ge hsettlement.settled
    rw [hsettlement.settlementPrice] at hprice
    rw [hup, number_lt_iff (.inl (by omega))]
    omega
  · intro trader payout ha hhalf hpayout
    have haccepted : (s'.shared.market.positions trader).Accepted :=
      hreach.lifecycle.accepted trader ha.position
    obtain ⟨-, howed⟩ := (calculatePayout_eq_ok ha haccepted.quantity_pos).mp hpayout
    rw [← hsettlement.settlementPrice, ← hsettlement.strikePrice] at hup hdown
    refine ⟨fun hline => ?_, fun hline => ?_, fun hstrike => ?_⟩
    · exact hhalf.profitLine_above haccepted howed (lt_of_number_lt (hup.mp hline))
    · exact hhalf.profitLine_below haccepted howed (lt_of_number_lt (hdown.mp hline))
    -- The numbers are equal where neither is below the other, and so are the prices.
    · have habove := number_lt_iff (x := settlement.strikePrice) (y := settlement.settlementPrice)
        (.inl hstrike)
      have hbelow := number_lt_iff (x := settlement.settlementPrice) (y := settlement.strikePrice)
        (.inr hstrike)
      rw [hequal, hhalf.profitLine_at haccepted howed, hsettlement.settlementPrice,
        hsettlement.strikePrice, le_antisymm_iff, ← not_lt, ← not_lt, habove, hbelow]
      omega

end Run

/-- A process that settled the market and has printed the settlement is at its end. -/
theorem reported_of_printed {t : ProcessState} {settlement : PrintedSettlement}
    (hown : t.settledIt = true) (hprinted : t.printed = some settlement) :
    t = .reported true settlement := by
  cases t with
  | confirmed => cases hprinted
  | reported own settlement' =>
    cases own with
    | true =>
      cases hprinted
      rfl
    | false => cases hown
  | _ => cases hown

/-- The first process of the sample says that the price went up, and the long has a profit. -/
theorem results_name_winners_sample :
    ∃ w s payout, launchProcesses (sampleTurns.take 12) = .ok (w, s) ∧
      s.locals 0 = .reported true ⟨50, 20000000000⟩ ∧ resultLine ⟨50, 20000000000⟩ = .up ∧
      calculatePayout s.shared.market 2 = .ok payout ∧
      profitLine payout (s.shared.market.positions 2).collateral = .profit := by
  obtain ⟨⟨w, s⟩, hs, hp⟩ := Checked.exists_of_any (x := launchProcesses (sampleTurns.take 12))
    (p := fun r => decide ((r.2.locals 0).settledIt = true ∧
      (r.2.locals 0).printed = some ⟨50, 20000000000⟩ ∧
      r.2.shared.market.isSettled = true ∧
      (r.2.shared.market.positions 2).exists = true ∧
      (r.2.shared.market.positions 2).isClaimed = false ∧
      (r.2.shared.market.positions 2).isLong = true ∧
      HalfRange r.2.shared.market (r.2.shared.market.positions 2) ∧
      (calculatePayout r.2.shared.market 2).toOption.isSome = true)) (by decide +kernel)
  obtain ⟨hown, hprinted, hsettled, hexists, hunclaimed, hlong, hhalf, hsome⟩ := of_decide_eq_true hp
  obtain ⟨hw, hstart, run⟩ := launchProcesses_eq_ok hs
  have hk : s.locals 0 = .reported true ⟨50, 20000000000⟩ := reported_of_printed hown hprinted
  obtain ⟨hup, hwinners⟩ := results_name_winners hw hstart run hk
  have hline : resultLine ⟨50, 20000000000⟩ = .up := hup (by decide)
  cases hpayout : calculatePayout s.shared.market 2 with
  | error e =>
    rw [hpayout] at hsome
    cases hsome
  | ok payout =>
    obtain ⟨hprofit, -⟩ := hwinners 2 payout ⟨hsettled, hexists, hunclaimed⟩ hhalf hpayout
    refine ⟨w, s, payout, hs, hk, hline, hpayout, ?_⟩
    rw [hprofit hline, hlong, if_pos rfl]

end GasCap
