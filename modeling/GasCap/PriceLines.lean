import GasCap.Lib.Rounding
import GasCap.Market

/-!
# The lines that scripts compute with `Number`

`settle.js` and `interact.js` convert amounts and prices with `Number` and compare what they get, which
are numbers with 53 bits: `Number(x)` rounds an integer, and so do the division by `1e9` and the
subtraction. Between `1e-9` and `2^256` they neither overflow nor underflow, so the arithmetic is that
of `Rounding`.

Before the settlement, both scripts compare the price in gwei with the strike. `RoundedAsExact` says
that the rounded numbers compare as the price and `1e9` times the strike do: they always do for a
strike of up to 9007199 gwei (`roundedAsExact_of_le`), and for any strike where the two differ by more
than one part in `2^51` (`roundedAsExact_of_apart`).
-/

namespace GasCap

open Rounding

/-- A line with one text for a number above another and one for a number below it says which of the two
it is, and its third text that they are equal. -/
theorem comparison_iff {α β : Type*} [LinearOrder α] {x y : α} [Decidable (y < x)] [Decidable (x < y)]
    {above below equal : β} (hab : above ≠ below) (hae : above ≠ equal) (hbe : below ≠ equal) :
    ((if y < x then above else if x < y then below else equal) = above ↔ y < x) ∧
      ((if y < x then above else if x < y then below else equal) = below ↔ x < y) ∧
      ((if y < x then above else if x < y then below else equal) = equal ↔ x = y) := by
  rcases lt_trichotomy x y with hlt | heq | hlt
  · rw [if_neg hlt.not_gt, if_pos hlt]
    exact ⟨iff_of_false hab.symm hlt.not_gt, iff_of_true rfl hlt, iff_of_false hbe hlt.ne⟩
  · rw [if_neg heq.not_gt, if_neg heq.not_lt]
    exact ⟨iff_of_false hae.symm heq.not_gt, iff_of_false hbe.symm heq.not_lt, iff_of_true rfl heq⟩
  · rw [if_pos hlt]
    exact ⟨iff_of_true rfl hlt, iff_of_false hab hlt.not_gt, iff_of_false hae hlt.ne'⟩

/-- `Number` of an integer. -/
def number (x : Uint256) : ℚ := round 53 x.toNat

/-- `Number(currentPrice) / 1e9`. -/
def priceInGwei (currentPrice : Uint256) : ℚ := round 53 (number currentPrice / 10^9)

/-- The winners that `settle.js` expects before a settlement. -/
inductive ExpectedResult
  /-- "Longs win by …" -/
  | longsWin
  /-- "Shorts win by …" -/
  | shortsWin
  /-- "Draw" -/
  | draw
  deriving DecidableEq

/-- The comparison of `settle.js` before a settlement. -/
def forecast (currentPrice strikePrice : Uint256) : ExpectedResult :=
  if number strikePrice < priceInGwei currentPrice then .longsWin
  else if priceInGwei currentPrice < number strikePrice then .shortsWin
  else .draw

/-- The line of `interact.js` on the price and the strike. -/
inductive StrikeLine
  /-- "Long favorable" -/
  | longFavorable
  /-- "Short favorable" -/
  | shortFavorable
  /-- "At strike price" -/
  | atStrike
  deriving DecidableEq

def strikeLine (currentPrice strikePrice : Uint256) : StrikeLine :=
  let diff := difference 53 (priceInGwei currentPrice) (number strikePrice)
  if diff > 0 then .longFavorable
  else if diff < 0 then .shortFavorable
  else .atStrike

/-! ## Integers as numbers -/

section Numbers

variable {x y : Uint256}

theorem number_nonneg (x : Uint256) : 0 ≤ number x := by
  have hzero : Representable 53 0 := ⟨0, 0, by norm_num, by norm_num⟩
  exact hzero.le_round (by decide) le_rfl (Nat.cast_nonneg _)

/-- Below `2^53`, an integer is a number as it is, and from there on it stays there. -/
theorem number_cases (x : Uint256) :
    (x.toNat < 2^53 ∧ number x = x.toNat) ∨ (2^53 ≤ x.toNat ∧ 2^53 ≤ number x) := by
  rcases lt_or_ge x.toNat (2^53) with hlt | hge
  · exact .inl ⟨hlt, (representable_natCast hlt).round_eq_self (Nat.cast_nonneg _)⟩
  · have hpow : Representable 53 (2^53 : ℚ) := by
      exact_mod_cast representable_zpow (p := 53) (by decide) 53
    have hcast : (2^53 : ℚ) ≤ x.toNat := by exact_mod_cast hge
    exact .inr ⟨hge, hpow.le_round (by decide) (by positivity) hcast⟩

/-- Numbers of integers are not compared the wrong way round. -/
theorem lt_of_number_lt (h : number x < number y) : x.toNat < y.toNat := by
  have hlt : (x.toNat : ℚ) < y.toNat := lt_of_round_lt (by decide) (Nat.cast_nonneg _) h
  exact_mod_cast hlt

/-- A comparison with an integer below `2^53` is exact. -/
theorem natCast_lt_number_iff {n : ℕ} (hn : n < 2^53) : (n : ℚ) < number x ↔ n < x.toNat := by
  rcases number_cases x with ⟨-, heq⟩ | ⟨hge, hge'⟩
  · rw [heq, Nat.cast_lt]
  · have hbelow : (n : ℚ) < 2^53 := by exact_mod_cast hn
    exact iff_of_true (hbelow.trans_le hge') (hn.trans_le hge)

theorem number_lt_natCast_iff {n : ℕ} (hn : n < 2^53) : number x < n ↔ x.toNat < n := by
  rcases number_cases x with ⟨-, heq⟩ | ⟨hge, hge'⟩
  · rw [heq, Nat.cast_lt]
  · have hbelow : (n : ℚ) ≤ 2^53 := by exact_mod_cast hn.le
    exact iff_of_false (hbelow.trans hge').not_gt (hn.le.trans hge).not_gt

/-- A comparison of two numbers is exact where one of them is below `2^53`. -/
theorem number_lt_iff (h : x.toNat < 2^53 ∨ y.toNat < 2^53) :
    number x < number y ↔ x.toNat < y.toNat := by
  rcases h with hx | hy
  · have hexact : number x = x.toNat :=
      (representable_natCast hx).round_eq_self (Nat.cast_nonneg _)
    rw [hexact, natCast_lt_number_iff hx]
  · have hexact : number y = y.toNat :=
      (representable_natCast hy).round_eq_self (Nat.cast_nonneg _)
    rw [hexact, number_lt_natCast_iff hy]

end Numbers

/-! ## The price in gwei -/

section Forecast

variable {price strike : Uint256}

/-- A price that is not `1e9` times the strike is away from it by more than what the division may
lose. -/
theorem price_gap (hstrike : strike.toNat ≤ 9007199) (hne : number price ≠ strike.toNat * 10^9) :
    number price / 2^53 < |number price - strike.toNat * 10^9| := by
  rcases number_cases price with ⟨hlt, heq⟩ | ⟨-, hge⟩
  · rw [heq] at hne ⊢
    -- Both are integers, so they differ by one at least.
    have hint : (price.toNat : ℤ) - strike.toNat * 10^9 ≠ 0 := by
      rw [sub_ne_zero]
      exact_mod_cast hne
    have hone : ((1 : ℤ) : ℚ) ≤ (|(price.toNat : ℤ) - strike.toNat * 10^9| : ℤ) :=
      Int.cast_le.mpr (Int.one_le_abs hint)
    push_cast at hone
    have hlost : (price.toNat : ℚ) / 2^53 < 1 := by
      rw [div_lt_one (by positivity)]
      exact_mod_cast hlt
    exact hlost.trans_le hone
  · have hcast : (strike.toNat : ℚ) ≤ 9007199 := by exact_mod_cast hstrike
    refine lt_of_lt_of_le ?_ (le_abs_self _)
    norm_num at hge ⊢
    linarith

/-- The rounded numbers compare as the price and the strike do in exact arithmetic. -/
def RoundedAsExact (price strike : Uint256) : Prop :=
  (number strike < priceInGwei price ↔ strike.toNat * 10^9 < price.toNat) ∧
    (priceInGwei price < number strike ↔ price.toNat < strike.toNat * 10^9)

/-- For a strike up to 9007199, the division by `1e9` loses nothing of the comparison with it. -/
theorem roundedAsExact_of_le (price : Uint256) (hstrike : strike.toNat ≤ 9007199) :
    RoundedAsExact price strike := by
  have hsmall : strike.toNat < 2^53 := by omega
  have hsmall' : strike.toNat * 10^9 < 2^53 := by omega
  have hscaled : ((strike.toNat * 10^9 : ℕ) : ℚ) = strike.toNat * 10^9 := by push_cast; rfl
  have hrep : Representable 53 (strike.toNat : ℚ) := representable_natCast hsmall
  have hexact : number strike = strike.toNat := hrep.round_eq_self (Nat.cast_nonneg _)
  have hnonneg : 0 ≤ number price / 10^9 := div_nonneg (number_nonneg price) (by norm_num)
  have hpos : (0 : ℚ) < 10^9 := by norm_num
  have habove : (strike.toNat : ℚ) < number price / 10^9 ↔ strike.toNat * 10^9 < number price :=
    lt_div_iff₀ hpos
  have hbelow : number price / 10^9 < strike.toNat ↔ number price < strike.toNat * 10^9 :=
    div_lt_iff₀ hpos
  have hlost : number price / 10^9 / 2^53 = number price / 2^53 / 10^9 := div_right_comm _ _ _
  rw [RoundedAsExact, hexact]
  constructor
  · -- The price in gwei is above the strike by more than the error of the division.
    have hdivision : (strike.toNat : ℚ) < priceInGwei price ↔
        (strike.toNat : ℚ) < number price / 10^9 := by
      refine hrep.lt_round_iff (by decide) (Nat.cast_nonneg _) hnonneg fun h => ?_
      have hgap := price_gap hstrike (habove.mp h).ne'
      rw [abs_of_pos (sub_pos.mpr (habove.mp h))] at hgap
      rw [hlost, div_lt_iff₀ hpos, sub_mul, div_mul_cancel₀ _ hpos.ne']
      exact hgap
    rw [hdivision, habove, ← hscaled]
    exact natCast_lt_number_iff hsmall'
  · have hdivision : priceInGwei price < strike.toNat ↔ number price / 10^9 < strike.toNat := by
      refine hrep.round_lt_iff (by decide) (Nat.cast_nonneg _) hnonneg fun h => ?_
      have hgap := price_gap hstrike (hbelow.mp h).ne
      rw [abs_sub_comm, abs_of_pos (sub_pos.mpr (hbelow.mp h))] at hgap
      rw [hlost, div_lt_iff₀ hpos, sub_mul, div_mul_cancel₀ _ hpos.ne']
      exact hgap
    rw [hdivision, hbelow, ← hscaled]
    exact number_lt_natCast_iff hsmall'

/-- The forecast compares the price in gwei with the strike. -/
theorem forecast_iff (price strike : Uint256) :
    (forecast price strike = .longsWin ↔ number strike < priceInGwei price) ∧
      (forecast price strike = .shortsWin ↔ priceInGwei price < number strike) ∧
      (forecast price strike = .draw ↔ priceInGwei price = number strike) :=
  comparison_iff (by decide) (by decide) (by decide)

/-- So does the line of `interact.js`: a rounded difference has the sign of the difference. -/
theorem strikeLine_iff (price strike : Uint256) :
    (strikeLine price strike = .longFavorable ↔ number strike < priceInGwei price) ∧
      (strikeLine price strike = .shortFavorable ↔ priceInGwei price < number strike) ∧
      (strikeLine price strike = .atStrike ↔ priceInGwei price = number strike) := by
  obtain ⟨hlong, hshort, hequal⟩ :=
    comparison_iff (x := difference 53 (priceInGwei price) (number strike)) (y := 0)
      (by decide : StrikeLine.longFavorable ≠ .shortFavorable)
      (by decide : StrikeLine.longFavorable ≠ .atStrike) (by decide)
  exact ⟨hlong.trans (difference_pos (by decide)), hshort.trans (difference_neg (by decide)),
    hequal.trans (difference_eq_zero (by decide))⟩

/-- What the rounding of the price in gwei may lose: a part in `2^53` for the conversion and one for the
division. -/
theorem priceInGwei_bounds (price : Uint256) :
    price.toNat * (1 - 1 / 2^53) * (1 - 1 / 2^53) ≤ priceInGwei price * 10^9 ∧
      priceInGwei price * 10^9 ≤ price.toNat * (1 + 1 / 2^53) * (1 + 1 / 2^53) := by
  have hnonneg : 0 ≤ number price / 10^9 := div_nonneg (number_nonneg price) (by norm_num)
  obtain ⟨hlow, hhigh⟩ := abs_le.mp (abs_round_sub_le 53 (Nat.cast_nonneg (α := ℚ) price.toNat))
  obtain ⟨hlow', hhigh'⟩ := abs_le.mp (abs_round_sub_le 53 hnonneg)
  unfold priceInGwei
  unfold number at hlow' hhigh' ⊢
  norm_num at hlow hhigh hlow' hhigh' ⊢
  constructor <;> linarith

/-- Where the price differs from `1e9` times the strike by more than one part in `2^51`, rounding does
not change which of them is above. -/
theorem roundedAsExact_of_apart
    (h : strike.toNat * 10^9 * (2^51 + 1) < price.toNat * 2^51 ∨
      price.toNat * (2^51 + 1) < strike.toNat * 10^9 * 2^51) : RoundedAsExact price strike := by
  obtain ⟨hlow, hhigh⟩ := priceInGwei_bounds price
  obtain ⟨hlow', hhigh'⟩ := abs_le.mp (abs_round_sub_le 53 (Nat.cast_nonneg (α := ℚ) strike.toNat))
  have hstrike : (0 : ℚ) ≤ strike.toNat := Nat.cast_nonneg _
  have hprice : (0 : ℚ) ≤ price.toNat := Nat.cast_nonneg _
  unfold RoundedAsExact
  unfold number
  rcases h with h | h
  · have habove : strike.toNat * 10^9 < price.toNat := by
      refine lt_of_mul_lt_mul_right (a := 2^51) (lt_of_le_of_lt ?_ h) (by decide)
      exact Nat.mul_le_mul_left _ (by decide)
    have hreal : (strike.toNat : ℚ) * 10^9 * (2^51 + 1) < price.toNat * 2^51 := by exact_mod_cast h
    have hlt : round 53 strike.toNat < priceInGwei price := by
      norm_num at hlow hhigh' hreal ⊢
      linarith
    exact ⟨iff_of_true hlt habove, iff_of_false hlt.not_gt habove.not_gt⟩
  · have hbelow : price.toNat < strike.toNat * 10^9 := by
      refine lt_of_mul_lt_mul_right (a := 2^51) (lt_of_le_of_lt ?_ h) (by decide)
      exact Nat.mul_le_mul_left _ (by decide)
    have hreal : (price.toNat : ℚ) * (2^51 + 1) < strike.toNat * 10^9 * 2^51 := by exact_mod_cast h
    have hlt : priceInGwei price < round 53 strike.toNat := by
      norm_num at hhigh hlow' hreal ⊢
      linarith
    exact ⟨iff_of_false hlt.not_gt hbelow.not_gt, iff_of_true hlt hbelow⟩

/-- The script announces the side on which the price is in exact arithmetic. -/
def AnnouncesInGwei (price strike : Uint256) : Prop :=
  (forecast price strike = .longsWin ↔ strike.toNat * 10^9 < price.toNat) ∧
    (forecast price strike = .shortsWin ↔ price.toNat < strike.toNat * 10^9)

/-- `settle.js` does so exactly where rounding does not change the comparison. -/
theorem announcesInGwei_iff (price strike : Uint256) :
    AnnouncesInGwei price strike ↔ RoundedAsExact price strike := by
  obtain ⟨hlong, hshort, -⟩ := forecast_iff price strike
  unfold AnnouncesInGwei RoundedAsExact
  rw [hlong, hshort]

/-- Numbers compared as above come from a price that is above by all but one part in `2^53`. -/
theorem lt_of_number_lt_priceInGwei (h : number strike < priceInGwei price) :
    strike.toNat * 10^9 * 2^53 < price.toNat * 2^53 + price.toNat := by
  have hnonneg : 0 ≤ number price / 10^9 := div_nonneg (number_nonneg price) (by norm_num)
  obtain ⟨-, hhigh⟩ := abs_le.mp (abs_round_sub_le 53 (Nat.cast_nonneg (α := ℚ) price.toNat))
  -- The division does not reverse the comparison, and `Number` errs by a part in `2^53`.
  have hprice : (strike.toNat : ℚ) < number price / 10^9 := lt_of_round_lt (by decide) hnonneg h
  rw [lt_div_iff₀ (by norm_num)] at hprice
  have hreal : (strike.toNat : ℚ) * 10^9 * 2^53 < price.toNat * 2^53 + price.toNat := by
    unfold number at hprice
    norm_num at hprice hhigh ⊢
    linarith
  exact_mod_cast hreal

/-- Numbers compared as below come from a price that is below by all but one part in `2^53`. -/
theorem lt_of_priceInGwei_lt_number (h : priceInGwei price < number strike) :
    price.toNat * 2^53 < strike.toNat * 10^9 * 2^53 + price.toNat := by
  obtain ⟨hlow, -⟩ := abs_le.mp (abs_round_sub_le 53 (Nat.cast_nonneg (α := ℚ) price.toNat))
  have hprice : number price / 10^9 < (strike.toNat : ℚ) :=
    lt_of_round_lt (by decide) (Nat.cast_nonneg _) h
  rw [div_lt_iff₀ (by norm_num)] at hprice
  have hreal : (price.toNat : ℚ) * 2^53 < strike.toNat * 10^9 * 2^53 + price.toNat := by
    unfold number at hprice
    norm_num at hprice hlow ⊢
    linarith
  exact_mod_cast hreal

/-- **What is forecast in double precision**: for a strike of up to 9007199 gwei, the results that
`settle.js` and `interact.js` announce for a price are those of the comparison in exact arithmetic. For
any strike and any price, they announce no side from which the price is away by more than one part in
`2^53`. -/
theorem forecast_exact (price strike : Uint256) :
    (strike.toNat ≤ 9007199 →
      AnnouncesInGwei price strike ∧
        (strikeLine price strike = .longFavorable ↔ strike.toNat * 10^9 < price.toNat) ∧
        (strikeLine price strike = .shortFavorable ↔ price.toNat < strike.toNat * 10^9)) ∧
    (forecast price strike = .longsWin ∨ strikeLine price strike = .longFavorable →
      strike.toNat * 10^9 * 2^53 < price.toNat * 2^53 + price.toNat) ∧
    (forecast price strike = .shortsWin ∨ strikeLine price strike = .shortFavorable →
      price.toNat * 2^53 < strike.toNat * 10^9 * 2^53 + price.toNat) := by
  obtain ⟨hlong, hshort, -⟩ := forecast_iff price strike
  obtain ⟨hlong', hshort', -⟩ := strikeLine_iff price strike
  rw [hlong, hshort, hlong', hshort', or_self, or_self]
  refine ⟨fun hstrike => ?_, lt_of_number_lt_priceInGwei, lt_of_priceInGwei_lt_number⟩
  have hexact := roundedAsExact_of_le price hstrike
  exact ⟨(announcesInGwei_iff price strike).mpr hexact, hexact⟩

/-- From 9007200 gwei on, a price one wei above the strike is announced as a draw. -/
example : forecast 9007200000000001 9007200 = .draw := by decide +kernel

end Forecast

end GasCap
