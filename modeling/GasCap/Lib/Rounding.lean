import Mathlib.Algebra.Order.Field.Power
import Mathlib.Data.Int.Log
import Mathlib.Data.Rat.Floor
import Mathlib.Tactic.FieldSimp
import Mathlib.Tactic.GCongr
import Mathlib.Tactic.Linarith
import Mathlib.Tactic.NormNum
import Mathlib.Tactic.Positivity
import Mathlib.Tactic.Ring

/-!
# Rounding to a binary precision

`round p` rounds a number that is not negative to `p` significant bits, to the nearest such number and
to an even significand between two of them, as binary floating-point arithmetic does where it neither
overflows nor underflows. The numbers with `p` bits (`Representable`) are those that it leaves alone
(`round_eq_self`), it is monotone (`round_mono`), and its relative error is at most `2^-p`
(`abs_round_sub_le`). So a comparison of rounded numbers is never the wrong way round
(`lt_of_round_lt`), one with a representable number is exact unless the other number is within the
error (`Representable.round_lt_iff`, `Representable.lt_round_iff`), and a rounded `difference` has the
sign of the difference.
-/

namespace Rounding

/-! ## To an integer -/

/-- The nearest integer, and the even one where two are as near. -/
def nearestEven (x : ℚ) : ℤ :=
  let n := ⌊x⌋
  if x - n < 1 / 2 then n
  else if 1 / 2 < x - n then n + 1
  -- Between two integers, the even one.
  else if n % 2 = 0 then n
  else n + 1

/-- It is an integer next to the number, at most a half away. -/
theorem nearestEven_cases (x : ℚ) :
    (nearestEven x = ⌊x⌋ ∧ x - ⌊x⌋ ≤ 1 / 2) ∨ (nearestEven x = ⌊x⌋ + 1 ∧ 1 / 2 ≤ x - ⌊x⌋) := by
  unfold nearestEven
  dsimp only
  split_ifs with hlow hhigh heven
  · exact .inl ⟨rfl, hlow.le⟩
  · exact .inr ⟨rfl, hhigh.le⟩
  · exact .inl ⟨rfl, not_lt.mp hhigh⟩
  · exact .inr ⟨rfl, not_lt.mp hlow⟩

theorem abs_nearestEven_sub_le (x : ℚ) : |(nearestEven x : ℚ) - x| ≤ 1 / 2 := by
  have hfloor : (⌊x⌋ : ℚ) ≤ x := Int.floor_le x
  have hnext : x < ⌊x⌋ + 1 := Int.lt_floor_add_one x
  rw [abs_le]
  rcases nearestEven_cases x with ⟨heq, hhalf⟩ | ⟨heq, hhalf⟩
  · rw [heq]
    constructor <;> linarith
  · rw [heq, Int.cast_add, Int.cast_one]
    constructor <;> linarith

@[simp] theorem nearestEven_intCast (n : ℤ) : nearestEven n = n := by
  unfold nearestEven
  dsimp only
  rw [Int.floor_intCast, sub_self, if_pos (by norm_num)]

/-- Between two numbers with the same integer below them, the larger one is not rounded lower. -/
theorem nearestEven_mono {x y : ℚ} (h : x ≤ y) : nearestEven x ≤ nearestEven y := by
  have hfloor : ⌊x⌋ ≤ ⌊y⌋ := Int.floor_mono h
  rcases hfloor.lt_or_eq with hlt | heq
  · rcases nearestEven_cases x with ⟨hx, -⟩ | ⟨hx, -⟩ <;>
      rcases nearestEven_cases y with ⟨hy, -⟩ | ⟨hy, -⟩ <;> omega
  · unfold nearestEven
    rw [← heq]
    dsimp only
    have hsub : x - ⌊x⌋ ≤ y - ⌊x⌋ := sub_le_sub_right h _
    split_ifs <;> first | omega | (exfalso; linarith)

/-! ## To a number of bits -/

section Precision

variable {p : ℕ} {x y f : ℚ}

/-- The distance of neighbouring numbers with `p` bits at the magnitude of `x`. -/
def ulp (p : ℕ) (x : ℚ) : ℚ := 2^(Int.log 2 x + 1 - p)

/-- The number with `p` significant bits that is nearest to `x`, which is not negative. -/
def round (p : ℕ) (x : ℚ) : ℚ := nearestEven (x / ulp p x) * ulp p x

/-- A number with at most `p` significant bits. -/
def Representable (p : ℕ) (f : ℚ) : Prop := ∃ (m : ℕ) (e : ℤ), m < 2^p ∧ f = m * 2^e

theorem ulp_pos (p : ℕ) (x : ℚ) : 0 < ulp p x := by
  unfold ulp
  positivity

/-- Counted in its `ulp`, a positive number has `p` bits before the point. -/
theorem significand_bounds (hx : 0 < x) :
    2^((p : ℤ) - 1) ≤ x / ulp p x ∧ x / ulp p x < 2^(p : ℤ) := by
  have hlow : (2 : ℚ)^Int.log 2 x ≤ x := Int.zpow_log_le_self (by decide) hx
  have hhigh : x < (2 : ℚ)^(Int.log 2 x + 1) := Int.lt_zpow_succ_log_self (by decide) x
  have hexp : (p : ℤ) - 1 + (Int.log 2 x + 1 - p) = Int.log 2 x := by omega
  have hexp' : (p : ℤ) + (Int.log 2 x + 1 - p) = Int.log 2 x + 1 := by omega
  rw [le_div_iff₀ (ulp_pos p x), div_lt_iff₀ (ulp_pos p x)]
  unfold ulp
  rw [← zpow_add₀ two_ne_zero, ← zpow_add₀ two_ne_zero, hexp, hexp']
  exact ⟨hlow, hhigh⟩

@[simp] theorem round_zero (p : ℕ) : round p 0 = 0 := by
  have hzero : nearestEven 0 = 0 := by exact_mod_cast nearestEven_intCast 0
  unfold round
  rw [zero_div, hzero, Int.cast_zero, zero_mul]

/-- Rounding errs by half an `ulp` at most. -/
theorem abs_round_sub_le_ulp (p : ℕ) (x : ℚ) : |round p x - x| ≤ ulp p x / 2 := by
  have hulp : 0 < ulp p x := ulp_pos p x
  have hsub : round p x - x = (nearestEven (x / ulp p x) - x / ulp p x) * ulp p x := by
    unfold round
    field_simp
  calc |round p x - x| = |(nearestEven (x / ulp p x) : ℚ) - x / ulp p x| * ulp p x := by
        rw [hsub, abs_mul, abs_of_pos hulp]
    _ ≤ 1 / 2 * ulp p x :=
        mul_le_mul_of_nonneg_right (abs_nearestEven_sub_le _) hulp.le
    _ = ulp p x / 2 := by ring

/-- **The error of rounding** is at most `2^-p` of the number. -/
theorem abs_round_sub_le (p : ℕ) (hx : 0 ≤ x) : |round p x - x| ≤ x / 2^p := by
  rcases hx.eq_or_lt with rfl | hpos
  · rw [round_zero, sub_self, abs_zero, zero_div]
  · have hlow : (2 : ℚ)^Int.log 2 x ≤ x := Int.zpow_log_le_self (by decide) hpos
    have hulp : ulp p x / 2 = 2^Int.log 2 x / 2^p := by
      unfold ulp
      rw [zpow_sub₀ two_ne_zero, zpow_add_one₀ two_ne_zero, zpow_natCast]
      ring
    calc |round p x - x| ≤ ulp p x / 2 := abs_round_sub_le_ulp p x
      _ = 2^Int.log 2 x / 2^p := hulp
      _ ≤ x / 2^p := div_le_div_of_nonneg_right hlow (by positivity)

/-- A number with `p` bits is a whole number of any unit that is not above its own. -/
theorem exists_mul_of_le {m : ℕ} {e k : ℤ} (h : k ≤ e) : ∃ n : ℤ, (m * 2^e : ℚ) = n * 2^k := by
  obtain ⟨d, rfl⟩ := Int.le.dest h
  refine ⟨m * 2^d, ?_⟩
  rw [zpow_add₀ two_ne_zero, zpow_natCast]
  push_cast
  ring

/-- A number with `p` bits is a whole number of its `ulp`. -/
theorem Representable.exists_mul_ulp (hf : Representable p f) (hpos : 0 < f) :
    ∃ n : ℤ, f = n * ulp p f := by
  obtain ⟨m, e, hm, hfm⟩ := hf
  -- Its `ulp` is not above the unit of its significand.
  have hhigh : f < 2^((p : ℤ) + e) := by
    rw [hfm, zpow_add₀ two_ne_zero, zpow_natCast]
    have hcast : (m : ℚ) < 2^p := by exact_mod_cast hm
    exact mul_lt_mul_of_pos_right hcast (by positivity)
  have hlog : Int.log 2 f < p + e := by
    rwa [← Int.lt_zpow_iff_log_lt (by decide) hpos, Nat.cast_ofNat]
  obtain ⟨n, hn⟩ := exists_mul_of_le (m := m) (by omega : Int.log 2 f + 1 - p ≤ e)
  exact ⟨n, hfm.trans hn⟩

/-- **Rounding leaves alone** what has `p` bits. -/
theorem Representable.round_eq_self (hf : Representable p f) (hnonneg : 0 ≤ f) : round p f = f := by
  rcases hnonneg.eq_or_lt with rfl | hpos
  · exact round_zero p
  · obtain ⟨n, hn⟩ := hf.exists_mul_ulp hpos
    have hscaled : f / ulp p f = n := by
      rw [div_eq_iff (ulp_pos p f).ne']
      exact hn
    unfold round
    rw [hscaled, nearestEven_intCast]
    exact hn.symm

/-- A natural number below `2^p` has `p` bits. -/
theorem representable_natCast {n : ℕ} (h : n < 2^p) : Representable p n :=
  ⟨n, 0, h, by rw [zpow_zero, mul_one]⟩

/-- A power of two has one bit. -/
theorem representable_zpow (hp : 0 < p) (e : ℤ) : Representable p (2^e) :=
  ⟨1, e, Nat.one_lt_two_pow hp.ne', by rw [Nat.cast_one, one_mul]⟩

/-! ## Comparisons -/

/-- Rounding does not leave the powers of two around a number. -/
theorem round_bounds (hp : 0 < p) (hx : 0 < x) :
    2^Int.log 2 x ≤ round p x ∧ round p x ≤ 2^(Int.log 2 x + 1) := by
  obtain ⟨hlow, hhigh⟩ := significand_bounds (p := p) hx
  have hpow : (2 : ℚ)^((p : ℤ) - 1) = ((2^(p - 1) : ℕ) : ℤ) := by
    rw [← Nat.cast_pred hp, zpow_natCast]
    norm_cast
  have hpow' : (2 : ℚ)^(p : ℤ) = ((2^p : ℕ) : ℤ) := by
    rw [zpow_natCast]
    norm_cast
  -- Both powers of two are integers, counted in the `ulp`.
  have hlow' : (2 : ℚ)^((p : ℤ) - 1) ≤ nearestEven (x / ulp p x) := by
    rw [hpow] at hlow ⊢
    have hmono := nearestEven_mono hlow
    rw [nearestEven_intCast] at hmono
    exact_mod_cast hmono
  have hhigh' : (nearestEven (x / ulp p x) : ℚ) ≤ 2^(p : ℤ) := by
    rw [hpow'] at hhigh ⊢
    have hmono := nearestEven_mono hhigh.le
    rw [nearestEven_intCast] at hmono
    exact_mod_cast hmono
  have hbottom : (2 : ℚ)^Int.log 2 x = 2^((p : ℤ) - 1) * ulp p x := by
    unfold ulp
    rw [← zpow_add₀ two_ne_zero]
    congr 1
    omega
  have htop : (2 : ℚ)^(Int.log 2 x + 1) = 2^(p : ℤ) * ulp p x := by
    unfold ulp
    rw [← zpow_add₀ two_ne_zero]
    congr 1
    omega
  have hulp : 0 ≤ ulp p x := (ulp_pos p x).le
  unfold round
  rw [hbottom, htop]
  exact ⟨mul_le_mul_of_nonneg_right hlow' hulp, mul_le_mul_of_nonneg_right hhigh' hulp⟩

theorem round_pos (hp : 0 < p) (hx : 0 < x) : 0 < round p x :=
  lt_of_lt_of_le (by positivity) (round_bounds hp hx).1

/-- **Rounding is monotone**: within the same powers of two it is that of the significands, and
otherwise there is a power of two between the numbers. -/
theorem round_mono (hp : 0 < p) (hx : 0 ≤ x) (h : x ≤ y) : round p x ≤ round p y := by
  rcases hx.eq_or_lt with rfl | hpos
  · rcases h.eq_or_lt with rfl | hy
    · exact le_rfl
    · rw [round_zero]
      exact (round_pos hp hy).le
  · have hy : 0 < y := hpos.trans_le h
    rcases (Int.log_mono_right hpos h : Int.log 2 x ≤ Int.log 2 y).eq_or_lt with heq | hlt
    · have hulp : ulp p x = ulp p y := by
        unfold ulp
        rw [heq]
      have hscaled : x / ulp p y ≤ y / ulp p y := div_le_div_of_nonneg_right h (ulp_pos p y).le
      unfold round
      rw [hulp]
      exact mul_le_mul_of_nonneg_right (by exact_mod_cast nearestEven_mono hscaled) (ulp_pos p y).le
    · calc round p x ≤ 2^(Int.log 2 x + 1) := (round_bounds hp hpos).2
        _ ≤ 2^Int.log 2 y := zpow_le_zpow_right₀ one_le_two hlt
        _ ≤ round p y := (round_bounds hp hy).1

/-- Rounded numbers are not compared the wrong way round. -/
theorem lt_of_round_lt (hp : 0 < p) (hy : 0 ≤ y) (h : round p x < round p y) : x < y := by
  by_contra hle
  exact absurd (round_mono hp hy (not_lt.mp hle)) (not_le.mpr h)

/-- What is not below a representable number is not rounded to one below. -/
theorem Representable.le_round (hf : Representable p f) (hp : 0 < p) (hnonneg : 0 ≤ f)
    (h : f ≤ x) : f ≤ round p x := by
  have hmono : round p f ≤ round p x := round_mono hp hnonneg h
  rwa [hf.round_eq_self hnonneg] at hmono

/-- A number that is above a representable one by more than its error is rounded to one above. -/
theorem Representable.lt_round_iff (hf : Representable p f) (hp : 0 < p) (hnonneg : 0 ≤ f)
    (hx : 0 ≤ x) (hgap : f < x → x / 2^p < x - f) : f < round p x ↔ f < x := by
  constructor
  · intro h
    rw [← hf.round_eq_self hnonneg] at h
    exact lt_of_round_lt hp hx h
  · intro h
    have herror := (abs_le.mp (abs_round_sub_le p hx)).1
    have hroom := hgap h
    linarith

/-- A number that is below a representable one by more than its error is rounded to one below. -/
theorem Representable.round_lt_iff (hf : Representable p f) (hp : 0 < p) (hnonneg : 0 ≤ f)
    (hx : 0 ≤ x) (hgap : x < f → x / 2^p < f - x) : round p x < f ↔ x < f := by
  constructor
  · intro h
    rw [← hf.round_eq_self hnonneg] at h
    exact lt_of_round_lt hp hnonneg h
  · intro h
    have herror := (abs_le.mp (abs_round_sub_le p hx)).2
    have hroom := hgap h
    linarith

/-! ## Differences -/

/-- The difference of two numbers, rounded. -/
def difference (p : ℕ) (x y : ℚ) : ℚ := if y ≤ x then round p (x - y) else -round p (y - x)

/-- A rounded difference has the sign of the difference. -/
theorem difference_pos (hp : 0 < p) : 0 < difference p x y ↔ y < x := by
  unfold difference
  split_ifs with h
  · rcases h.eq_or_lt with rfl | hlt
    · rw [sub_self, round_zero]
      exact iff_of_false (lt_irrefl _) (lt_irrefl _)
    · exact iff_of_true (round_pos hp (sub_pos.mpr hlt)) hlt
  · have hlt : x < y := not_le.mp h
    have hround : 0 < round p (y - x) := round_pos hp (sub_pos.mpr hlt)
    exact iff_of_false (by linarith) hlt.not_gt

/-- A rounded difference changes its sign with the order of the numbers. -/
theorem difference_neg (hp : 0 < p) : difference p x y < 0 ↔ x < y := by
  have hswap : difference p x y < 0 ↔ 0 < difference p y x := by
    unfold difference
    rcases lt_trichotomy x y with hlt | rfl | hlt
    · rw [if_neg hlt.not_ge, if_pos hlt.le, neg_lt_zero]
    · rw [if_pos le_rfl, sub_self, round_zero]
    · rw [if_pos hlt.le, if_neg hlt.not_ge]
      have hround : 0 < round p (x - y) := round_pos hp (sub_pos.mpr hlt)
      exact iff_of_false (by linarith) (by linarith)
  rw [hswap, difference_pos hp]

/-- A rounded difference is zero for equal numbers only. -/
theorem difference_eq_zero (hp : 0 < p) : difference p x y = 0 ↔ x = y := by
  rw [eq_iff_le_not_lt, eq_iff_le_not_lt, ← not_lt, ← not_lt, difference_pos hp, difference_neg hp]

end Precision

end Rounding
