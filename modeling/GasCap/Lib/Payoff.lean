import Mathlib.Analysis.Convex.Jensen

/-!
# Payoffs that are cut off at zero

A payoff is an affine function of a price, of which only the positive part is paid. The sum of such
payments is convex in the price, so over an interval it is largest at one of the two ends
(`Payoff.sum_value_le`): a book of payoffs has to be tested at the two ends only. What is not cut off
stays between its values at the ends (`Payoff.raw_between`).
-/

/-- An affine function of a price. -/
structure Payoff where
  base : ℤ
  slope : ℤ

namespace Payoff

variable {T : Type*} {lo price hi : ℤ}

/-- The payoff at a price. -/
def raw (f : Payoff) (price : ℤ) : ℤ := f.base + f.slope * price

/-- What is paid at a price. -/
def value (f : Payoff) (price : ℤ) : ℤ := max 0 (f.raw price)

/-- A payoff is between its values at the ends of an interval. -/
theorem raw_between (f : Payoff) (hlo : lo ≤ price) (hhi : price ≤ hi) :
    min (f.raw lo) (f.raw hi) ≤ f.raw price ∧ f.raw price ≤ max (f.raw lo) (f.raw hi) := by
  unfold raw
  rcases le_total 0 f.slope with hslope | hslope
  · have h₁ : f.slope * lo ≤ f.slope * price := mul_le_mul_of_nonneg_left hlo hslope
    have h₂ : f.slope * price ≤ f.slope * hi := mul_le_mul_of_nonneg_left hhi hslope
    omega
  · have h₁ : f.slope * price ≤ f.slope * lo := mul_le_mul_of_nonpos_left hlo hslope
    have h₂ : f.slope * hi ≤ f.slope * price := mul_le_mul_of_nonpos_left hhi hslope
    omega

/-- What is paid at a rational price. -/
def rationalValue (f : Payoff) (price : ℚ) : ℚ := max 0 (f.base + f.slope * price)

/-- What is paid at an integer price. -/
theorem rationalValue_intCast (f : Payoff) (price : ℤ) : f.rationalValue price = f.value price := by
  unfold rationalValue value raw
  push_cast
  rfl

/-- The payment of a payoff is convex in the price. -/
theorem convexOn_rationalValue (f : Payoff) : ConvexOn ℚ Set.univ f.rationalValue := by
  have hlinear : ConvexOn ℚ Set.univ fun price : ℚ => (f.slope : ℚ) * price :=
    (LinearMap.mulLeft ℚ (f.slope : ℚ)).convexOn convex_univ
  have haffine := (convexOn_const (f.base : ℚ) convex_univ).add hlinear
  exact (convexOn_const 0 convex_univ).sup haffine

/-- **The two ends decide**: over an interval of prices, the payments of a book of payoffs add up to at
most what they add up to at one of its ends. -/
theorem sum_value_le (U : Finset T) (f : T → Payoff) (hlo : lo ≤ price) (hhi : price ≤ hi) :
    ∑ t ∈ U, (f t).value price ≤
      max (∑ t ∈ U, (f t).value lo) (∑ t ∈ U, (f t).value hi) := by
  have hconvex : ConvexOn ℚ Set.univ (∑ t ∈ U, (f t).rationalValue) :=
    Finset.sum_induction _ (ConvexOn ℚ Set.univ) (fun _ _ => ConvexOn.add)
      (convexOn_const 0 convex_univ) fun t _ => (f t).convexOn_rationalValue
  have hcast : ∀ x : ℤ, (∑ t ∈ U, (f t).rationalValue) (x : ℚ) =
      ((∑ t ∈ U, (f t).value x : ℤ) : ℚ) := by
    intro x
    rw [Finset.sum_apply, Int.cast_sum]
    exact Finset.sum_congr rfl fun t _ => (f t).rationalValue_intCast x
  have hends := hconvex.le_max_of_mem_Icc (Set.mem_univ (lo : ℚ)) (Set.mem_univ (hi : ℚ))
    (z := (price : ℚ)) ⟨Int.cast_le.mpr hlo, Int.cast_le.mpr hhi⟩
  rw [hcast, hcast, hcast] at hends
  exact_mod_cast hends

end Payoff
