import GasCap.Positions
import Mathlib.Algebra.Order.Ring.Abs
import Mathlib.Tactic.Positivity

/-!
# What a settled position pays

`calculatePayout` computes in `int256`, where every result is checked and no cast is. `Owed` is the
number that it computes in unbounded integers from the casts of its operands, `InRange` is that no
check fails on the way, and `calculatePayout_eq_ok` says that a position that waits for its claim
(`Awaiting`) has the payout `Owed`, cut off at zero, exactly when it is in range. That depends on the
profit or loss and on what is owed alone, but for a number next to the range (`inRange_iff`).
`_openPosition` bounds neither, and accepts every settlement asset that is allowed, so a position can be
stuck: `notStuck_iff` says which ones are not.
-/

namespace GasCap

open Machine

/-- A trader whose position waits for its claim. -/
structure Awaiting (m : Market) (trader : Address) : Prop where
  settled : m.isSettled = true
  position : (m.positions trader).exists = true
  unclaimed : (m.positions trader).isClaimed = false

instance (m : Market) (trader : Address) : Decidable (Awaiting m trader) :=
  decidable_of_iff (m.isSettled = true ∧ (m.positions trader).exists = true ∧
    (m.positions trader).isClaimed = false) ⟨fun ⟨h₁, h₂, h₃⟩ => ⟨h₁, h₂, h₃⟩,
      fun ⟨h₁, h₂, h₃⟩ => ⟨h₁, h₂, h₃⟩⟩

/-- The move of the price from the strike to the settlement, as the casts read it. -/
def Market.priceDiff (m : Market) : ℤ := int256 m.settlementPrice - int256 m.strikePrice

/-- The move of the price in the direction of a position. -/
def Position.gain (p : Position) (priceDiff : ℤ) : ℤ := if p.isLong then priceDiff else -priceDiff

/-- The profit or loss of a position, in unbounded integers. -/
def Position.pnl (p : Position) (priceDiff : ℤ) : ℤ :=
  p.gain priceDiff * int256 p.quantity * int256 p.leverage

/-- The collateral of a position and its profit or loss, in unbounded integers. -/
def Owed (m : Market) (p : Position) : ℤ := int256 p.collateral + p.pnl m.priceDiff

/-- Every result of `calculatePayout` is one that an `int256` can hold. -/
structure InRange (m : Market) (p : Position) : Prop where
  priceDiff : Checked.Fits 256 m.priceDiff
  gain : Checked.Fits 256 (p.gain m.priceDiff)
  product : Checked.Fits 256 (p.gain m.priceDiff * int256 p.quantity)
  pnl : Checked.Fits 256 (p.pnl m.priceDiff)
  owed : Checked.Fits 256 (Owed m p)

instance (m : Market) (p : Position) : Decidable (InRange m p) :=
  decidable_of_iff (Checked.Fits 256 m.priceDiff ∧ Checked.Fits 256 (p.gain m.priceDiff) ∧
    Checked.Fits 256 (p.gain m.priceDiff * int256 p.quantity) ∧
    Checked.Fits 256 (p.pnl m.priceDiff) ∧ Checked.Fits 256 (Owed m p))
    ⟨fun ⟨h₁, h₂, h₃, h₄, h₅⟩ => ⟨h₁, h₂, h₃, h₄, h₅⟩,
      fun ⟨h₁, h₂, h₃, h₄, h₅⟩ => ⟨h₁, h₂, h₃, h₄, h₅⟩⟩

/-- Whether a position is in range depends on the move of the price. -/
theorem InRange.congr {m m' : Market} {p : Position} (h : InRange m p)
    (hdiff : m'.priceDiff = m.priceDiff) : InRange m' p := by
  obtain ⟨h₁, h₂, h₃, h₄, h₅⟩ := h
  unfold Owed at h₅
  rw [← hdiff] at h₁ h₂ h₃ h₄ h₅
  exact ⟨h₁, h₂, h₃, h₄, h₅⟩

/-- The profit or loss is returned if the results on the way fit. -/
theorem calculatePnl_eq_ok {priceDiff z : ℤ} {p : Position} (hd : Checked.Fits 256 priceDiff) :
    calculatePnl priceDiff p = .ok z ↔
      Checked.Fits 256 (p.gain priceDiff) ∧
        Checked.Fits 256 (p.gain priceDiff * int256 p.quantity) ∧
        Checked.Fits 256 (p.pnl priceDiff) ∧ z = p.pnl priceDiff := by
  unfold calculatePnl Position.pnl Position.gain
  by_cases hl : p.isLong = true
  · simp only [hl, if_true, Checked.bind_eq_ok, Checked.signed_eq_ok]
    constructor
    · rintro ⟨y, ⟨hy, rfl⟩, hz, rfl⟩
      exact ⟨hd, hy, hz, rfl⟩
    · rintro ⟨-, hy, hz, rfl⟩
      exact ⟨_, ⟨hy, rfl⟩, hz, rfl⟩
  · simp only [if_neg hl, Checked.bind_eq_ok, Checked.signed_eq_ok]
    constructor
    · rintro ⟨x, ⟨hx, rfl⟩, y, ⟨hy, rfl⟩, hz, rfl⟩
      exact ⟨hx, hy, hz, rfl⟩
    · rintro ⟨hx, hy, hz, rfl⟩
      exact ⟨_, ⟨hx, rfl⟩, _, ⟨hy, rfl⟩, hz, rfl⟩

/-- A word is the cast of an integer, cut off at zero, if it has its value. -/
theorem payout_eq_iff {z : ℤ} {v : Uint256} (hz : Checked.Fits 256 z) :
    (if z < 0 then (pure 0 : Except Revert Uint256) else pure (uint256 z)) = .ok v ↔
      v.toNat = z.toNat := by
  split_ifs with hneg
  · rw [Checked.pure_eq_ok, ← BitVec.toNat_inj, Int.toNat_of_nonpos (by omega)]
    rfl
  · rw [Checked.pure_eq_ok, ← BitVec.toNat_inj, Checked.toNat_ofInt_of_nonneg hz (by omega)]

/-- **What `calculatePayout` returns** for a position that waits for its claim: what is owed, cut off
at zero, if every result on the way fits. -/
theorem calculatePayout_eq_ok {m : Market} {trader : Address} {v : Uint256}
    (h : Awaiting m trader) (hq : 0 < (m.positions trader).quantity) :
    calculatePayout m trader = .ok v ↔
      InRange m (m.positions trader) ∧ v.toNat = (Owed m (m.positions trader)).toNat := by
  have hskip : ¬ ((m.positions trader).exists = false ∨ (m.positions trader).quantity = 0 ∨
      (m.positions trader).isClaimed = true) := by
    rintro (he | hz | hc)
    · rw [h.position] at he
      cases he
    · rw [hz] at hq
      exact absurd hq (by decide)
    · rw [h.unclaimed] at hc
      cases hc
  rw [calculatePayout, GasCap.settled, Checked.ensure_bind_eq_ok, if_neg hskip]
  simp only [Checked.bind_eq_ok, Checked.signed_eq_ok]
  -- Each step on the way returns the exact number, and its check is a field of `InRange`.
  constructor
  · rintro ⟨-, d, ⟨hd, rfl⟩, z, hz, y, ⟨hy, rfl⟩, hv⟩
    obtain ⟨hg, hp, hpnl, rfl⟩ := (calculatePnl_eq_ok hd).mp hz
    exact ⟨⟨hd, hg, hp, hpnl, hy⟩, (payout_eq_iff hy).mp hv⟩
  · rintro ⟨r, hv⟩
    exact ⟨h.settled, _, ⟨r.priceDiff, rfl⟩, _,
      (calculatePnl_eq_ok r.priceDiff).mpr ⟨r.gain, r.product, r.pnl, rfl⟩, _, ⟨r.owed, rfl⟩,
      (payout_eq_iff r.owed).mpr hv⟩

/-- A position in range has a payout. -/
theorem exists_payout {m : Market} {trader : Address} (h : Awaiting m trader)
    (hq : 0 < (m.positions trader).quantity) (hr : InRange m (m.positions trader)) :
    ∃ v, calculatePayout m trader = .ok v := by
  refine ⟨uint256 ((Owed m (m.positions trader)).toNat : ℤ), ?_⟩
  rw [calculatePayout_eq_ok h hq]
  refine ⟨hr, ?_⟩
  -- Cutting off at zero keeps the number in range.
  have hfits : Checked.Fits 256 ((Owed m (m.positions trader)).toNat : ℤ) := by
    obtain ⟨hlo, hhi⟩ := hr.owed
    constructor <;> omega
  rw [Checked.toNat_ofInt_of_nonneg hfits (by omega), Int.toNat_natCast]

/-- The numbers that a position is settled with are below half the range of a word. -/
structure HalfRange (m : Market) (p : Position) : Prop where
  settlementPrice : m.settlementPrice.toNat < 2^255
  strikePrice : m.strikePrice.toNat < 2^255
  quantity : p.quantity.toNat < 2^255
  leverage : p.leverage.toNat < 2^255
  collateral : p.collateral.toNat < 2^255

instance (m : Market) (p : Position) : Decidable (HalfRange m p) :=
  decidable_of_iff (m.settlementPrice.toNat < 2^255 ∧ m.strikePrice.toNat < 2^255 ∧
    p.quantity.toNat < 2^255 ∧ p.leverage.toNat < 2^255 ∧ p.collateral.toNat < 2^255)
    ⟨fun ⟨h₁, h₂, h₃, h₄, h₅⟩ => ⟨h₁, h₂, h₃, h₄, h₅⟩,
      fun ⟨h₁, h₂, h₃, h₄, h₅⟩ => ⟨h₁, h₂, h₃, h₄, h₅⟩⟩

/-! ## The range -/

/-- The profit or loss of a position and what is owed for it, in unbounded integers, are numbers of an
`int256`, and no result on the way is the first number above these. -/
structure FitsInt256 (m : Market) (p : Position) : Prop where
  pnl : Checked.Fits 256 (p.pnl m.priceDiff)
  owed : Checked.Fits 256 (Owed m p)
  priceDiff_ne : m.priceDiff ≠ 2^255
  gain_ne : p.gain m.priceDiff ≠ 2^255
  product_ne : p.gain m.priceDiff * int256 p.quantity ≠ 2^255

instance (m : Market) (p : Position) : Decidable (FitsInt256 m p) :=
  decidable_of_iff (Checked.Fits 256 (p.pnl m.priceDiff) ∧ Checked.Fits 256 (Owed m p) ∧
    m.priceDiff ≠ 2^255 ∧ p.gain m.priceDiff ≠ 2^255 ∧
    p.gain m.priceDiff * int256 p.quantity ≠ 2^255)
    ⟨fun ⟨h₁, h₂, h₃, h₄, h₅⟩ => ⟨h₁, h₂, h₃, h₄, h₅⟩,
      fun ⟨h₁, h₂, h₃, h₄, h₅⟩ => ⟨h₁, h₂, h₃, h₄, h₅⟩⟩

/-- Within `2^255`, only the number itself is out of range. -/
theorem fits_of_abs_le {z : ℤ} (h : |z| ≤ 2^255) (hne : z ≠ 2^255) : Checked.Fits 256 z := by
  obtain ⟨hlo, hhi⟩ := abs_le.mp h
  exact ⟨hlo, lt_of_le_of_ne hhi hne⟩

/-- A number in range is within `2^255`, and is another one. -/
theorem abs_le_of_fits {z : ℤ} (h : Checked.Fits 256 z) : |z| ≤ 2^255 ∧ z ≠ 2^255 :=
  ⟨abs_le.mpr ⟨h.1, le_of_lt h.2⟩, ne_of_lt h.2⟩

/-- The cast of a positive word is not zero. -/
theorem int256_ne_zero {x : Uint256} (h : 0 < x) : int256 x ≠ 0 := by
  intro hzero
  have hx : x = 0 := BitVec.toInt_inj.mp (hzero.trans BitVec.toInt_zero.symm)
  rw [hx] at h
  exact absurd h (by decide)

/-- Multiplication by another integer than zero does not bring a number closer to zero. -/
theorem abs_le_abs_mul {a b : ℤ} (hb : b ≠ 0) : |a| ≤ |a * b| := by
  rw [abs_mul]
  exact le_mul_of_one_le_right (abs_nonneg a) (Int.one_le_abs hb)

/-- **What makes `calculatePayout` overflow**: the results on the way are in range when the profit or
loss and what is owed are, except where one of them is the first number above the range. -/
theorem inRange_iff {m : Market} {p : Position} (hq : 0 < p.quantity) (hl : 0 < p.leverage) :
    InRange m p ↔ FitsInt256 m p := by
  constructor
  · intro h
    exact ⟨h.pnl, h.owed, (abs_le_of_fits h.priceDiff).2, (abs_le_of_fits h.gain).2,
      (abs_le_of_fits h.product).2⟩
  · intro h
    -- Each result is at most as far from zero as the next one.
    have hproduct : |p.gain m.priceDiff * int256 p.quantity| ≤ 2^255 :=
      (abs_le_abs_mul (int256_ne_zero hl)).trans (abs_le_of_fits h.pnl).1
    have hgain : |p.gain m.priceDiff| ≤ 2^255 :=
      (abs_le_abs_mul (int256_ne_zero hq)).trans hproduct
    have hdiff : |m.priceDiff| ≤ 2^255 := by
      unfold Position.gain at hgain
      split_ifs at hgain
      · exact hgain
      · rwa [abs_neg] at hgain
    exact ⟨fits_of_abs_le hdiff h.priceDiff_ne, fits_of_abs_le hgain h.gain_ne,
      fits_of_abs_le hproduct h.product_ne, h.pnl, h.owed⟩

/-- Below half the range, the move of the price is that of the recorded numbers. -/
theorem HalfRange.priceDiff_eq {m : Market} {p : Position} (h : HalfRange m p) :
    m.priceDiff = m.settlementPrice.toNat - m.strikePrice.toNat := by
  unfold Market.priceDiff int256
  rw [Checked.toInt_of_lt h.settlementPrice, Checked.toInt_of_lt h.strikePrice]

/-- Below half the range, what is owed is computed from the recorded numbers. -/
theorem HalfRange.owed_eq {m : Market} {p : Position} (h : HalfRange m p) :
    Owed m p = p.collateral.toNat +
      p.gain (m.settlementPrice.toNat - m.strikePrice.toNat) * p.quantity.toNat *
        p.leverage.toNat := by
  unfold Owed Position.pnl int256
  rw [h.priceDiff_eq, Checked.toInt_of_lt h.collateral, Checked.toInt_of_lt h.quantity,
    Checked.toInt_of_lt h.leverage]

/-- Below half the range, the profit or loss is only to be bounded from below, and what is owed from
above. -/
theorem HalfRange.fitsInt256_iff {m : Market} {p : Position} (h : HalfRange m p) (hp : p.Accepted) :
    FitsInt256 m p ↔
      -2^255 ≤ p.gain (m.settlementPrice.toNat - m.strikePrice.toNat) * p.quantity.toNat *
        p.leverage.toNat ∧
      p.collateral.toNat + p.gain (m.settlementPrice.toNat - m.strikePrice.toNat) *
        p.quantity.toNat * p.leverage.toNat < 2^255 := by
  have hpnl : p.pnl m.priceDiff =
      p.gain (m.settlementPrice.toNat - m.strikePrice.toNat) * p.quantity.toNat *
        p.leverage.toNat := by
    unfold Position.pnl int256
    rw [h.priceDiff_eq, Checked.toInt_of_lt h.quantity, Checked.toInt_of_lt h.leverage]
  have hleverage : (0 : ℤ) < p.leverage.toNat := by
    exact_mod_cast BitVec.lt_def.mp hp.leverage_pos
  rw [← hpnl]
  constructor
  · intro hfits
    have howed := hfits.owed.2
    rw [h.owed_eq, ← hpnl] at howed
    exact ⟨hfits.pnl.1, howed⟩
  · rintro ⟨hlo, hhi⟩
    have hfits : Checked.Fits 256 (p.pnl m.priceDiff) := ⟨hlo, by omega⟩
    have howed : Owed m p = p.collateral.toNat + p.pnl m.priceDiff := by rw [h.owed_eq, hpnl]
    have hdiff : -2^255 < m.priceDiff ∧ m.priceDiff < 2^255 := by
      rw [h.priceDiff_eq]
      have := h.settlementPrice
      have := h.strikePrice
      omega
    refine ⟨hfits, ⟨?_, ?_⟩, ne_of_lt hdiff.2, ?_, ?_⟩
    · rw [howed]
      exact hlo.trans (by omega)
    · rw [howed]
      exact hhi
    · unfold Position.gain
      split_ifs <;> omega
    -- The product would be the profit of one at the least leverage.
    · intro hproduct
      have hle : (2 : ℤ)^255 * 1 ≤ 2^255 * p.leverage.toNat :=
        mul_le_mul_of_nonneg_left hleverage (by positivity)
      have hlt := hfits.2
      unfold Position.pnl at hlt
      rw [hproduct, int256, Checked.toInt_of_lt h.leverage] at hlt
      exact absurd hlt (not_lt.mpr (by simpa using hle))

/-- A position is paid more than its collateral when the price moved in its direction. -/
theorem payout_gt_collateral_iff {m : Market} {trader : Address} {payout : Uint256}
    (h : Awaiting m trader) (hp : (m.positions trader).Accepted)
    (hr : HalfRange m (m.positions trader)) (hv : calculatePayout m trader = .ok payout) :
    (m.positions trader).collateral.toNat < payout.toNat ↔
      0 < (m.positions trader).gain (m.settlementPrice.toNat - m.strikePrice.toNat) := by
  generalize hg : (m.positions trader).gain (m.settlementPrice.toNat - m.strikePrice.toNat) = g
  have hq : (0 : ℤ) < (m.positions trader).quantity.toNat := by
    exact_mod_cast BitVec.lt_def.mp hp.quantity_pos
  have hl : (0 : ℤ) < (m.positions trader).leverage.toNat := by
    exact_mod_cast BitVec.lt_def.mp hp.leverage_pos
  -- Quantity and leverage are positive, so the profit has the sign of the gain.
  have hpnl : 0 < g * (m.positions trader).quantity.toNat * (m.positions trader).leverage.toNat ↔
      0 < g := by
    rw [mul_pos_iff_of_pos_right hl, mul_pos_iff_of_pos_right hq]
  have hpay := ((calculatePayout_eq_ok h hp.quantity_pos).mp hv).2
  rw [hr.owed_eq, hg] at hpay
  rw [← hpnl]
  omega

/-- A claimed position has nothing left to pay. -/
theorem calculatePayout_of_claimed {m : Market} {trader : Address} (hs : m.isSettled = true)
    (hc : (m.positions trader).isClaimed = true) : calculatePayout m trader = .ok 0 := by
  rw [calculatePayout, GasCap.settled, Checked.ensure_bind_eq_ok,
    if_pos (.inr (.inr hc)), Checked.pure_eq_ok]
  exact ⟨hs, rfl⟩

/-- The payout depends on the settlement, the strike, and the position alone. -/
theorem calculatePayout_congr {m m' : Market} {trader : Address}
    (hs : m'.isSettled = m.isSettled) (hp : m'.settlementPrice = m.settlementPrice)
    (hk : m'.strikePrice = m.strikePrice) (hpos : m'.positions trader = m.positions trader) :
    calculatePayout m' trader = calculatePayout m trader := by
  unfold calculatePayout GasCap.settled
  rw [hs, hp, hk, hpos]

/-! ## Claims -/

/-- The claim of a trader whose payout is covered has its effect, if the payout is made in the native
token or is none. -/
theorem claim_effect {env : Env} {w : World} {payout : Uint256} (hv : env.value = 0)
    (h : Awaiting w.market env.sender) (hp : calculatePayout w.market env.sender = .ok payout)
    (hn : payout = 0 ∨ (w.market.positions env.sender).settlementAsset = NATIVE_TOKEN)
    (hb : payout.toNat ≤ w.market.balance) :
    ∃ w', Effect env .claimPayout w w' ∧
      w'.market = { w.market.closed env.sender with balance := w.market.balance - payout.toNat } := by
  rcases eq_or_ne payout 0 with rfl | hne
  · refine ⟨⟨_, _, []⟩, .claimNothing hv ⟨h.settled, h.position, h.unclaimed, hp, ?_, hb⟩, rfl⟩
    intro hpos
    exact absurd hpos (by decide)
  · have hpos : 0 < payout := by
      rw [BitVec.lt_def]
      have : payout.toNat ≠ 0 := by rwa [ne_eq, ← BitVec.toNat_zero, BitVec.toNat_inj]
      exact Nat.pos_of_ne_zero this
    refine ⟨⟨_, _, []⟩, .claimPayout hv hpos
      ⟨h.settled, h.position, h.unclaimed, hp, ?_, hb⟩, rfl⟩
    exact fun _ => hn.resolve_left hne

/-- A claim with a payout, of a position that is settled in another asset, is refused. -/
theorem claim_refused {tx : Tx} {w : World} {payout : Uint256} (hcall : tx.call = .claimPayout)
    (hv : tx.env.value = 0) (h : Awaiting w.market tx.env.sender)
    (hp : calculatePayout w.market tx.env.sender = .ok payout) (hpos : 0 < payout)
    (hn : (w.market.positions tx.env.sender).settlementAsset ≠ NATIVE_TOKEN) :
    exec tx w = .error (.reason "Non-native settlement not implemented") := by
  apply exec_error_of_body (by rw [hcall]; rfl) hv
  rw [hcall]
  show claimPayout tx.env w.market = _
  -- The checks before the one that fails hold.
  rw [claimPayout, GasCap.settled, Checked.ensure_bind_of_pos h.settled,
    Checked.ensure_bind_of_pos h.position, Checked.ensure_bind_of_pos h.unclaimed, hp]
  show (if 0 < payout then _ else _) = _
  rw [if_pos hpos, Checked.ensure_bind_of_neg hn]

/-- The trader has a payout, and can claim it where the balance covers it and it accepts the transfer. -/
def NotStuck (w : World) (trader : Address) : Prop :=
  ∃ payout, calculatePayout w.market trader = .ok payout ∧
    (payout.toNat ≤ w.market.balance →
      ∀ tx : Tx, tx.call = .claimPayout → tx.env.sender = trader → tx.env.value = 0 →
        tx.rejection = none → ∃ w', exec tx w = .ok w')

/-- A claim that a balance covers goes through, if it is made in the native token or is none. -/
theorem claim_goes_through {tx : Tx} {w : World} {payout : Uint256} (hcall : tx.call = .claimPayout)
    (hv : tx.env.value = 0) (hr : tx.rejection = none) (ha : Awaiting w.market tx.env.sender)
    (hpayout : calculatePayout w.market tx.env.sender = .ok payout)
    (hn : payout = 0 ∨ (w.market.positions tx.env.sender).settlementAsset = NATIVE_TOKEN)
    (hb : payout.toNat ≤ w.market.balance) : ∃ w', exec tx w = .ok w' := by
  obtain ⟨w₁, heffect, -⟩ := claim_effect hv ha hpayout hn hb
  rw [← hcall] at heffect
  obtain ⟨w', hw', -⟩ := exec_of_effect tx heffect hr
  exact ⟨w', hw'⟩

/-- **Which positions are stuck**: in every reachable settled state, a position that waits for its claim
is not stuck exactly if its profit or loss and what is owed for it are numbers of an `int256`, and it is
settled in the native token, or nothing is owed for it, or the balance does not cover it. For numbers
below `2^255`, the first says that the profit or loss is at least `-2^255`, and what is owed below
`2^255`. -/
theorem notStuck_iff {w : World} (h : Reachable w) {t : Address} (ha : Awaiting w.market t) :
    (NotStuck w t ↔ FitsInt256 w.market (w.market.positions t) ∧
      ((w.market.positions t).settlementAsset = NATIVE_TOKEN ∨
        Owed w.market (w.market.positions t) ≤ 0 ∨
        w.market.balance < Owed w.market (w.market.positions t))) ∧
    (HalfRange w.market (w.market.positions t) →
      (FitsInt256 w.market (w.market.positions t) ↔
        -2^255 ≤ (w.market.positions t).gain
          (w.market.settlementPrice.toNat - w.market.strikePrice.toNat) *
            (w.market.positions t).quantity.toNat * (w.market.positions t).leverage.toNat ∧
        (w.market.positions t).collateral.toNat + (w.market.positions t).gain
          (w.market.settlementPrice.toNat - w.market.strikePrice.toNat) *
            (w.market.positions t).quantity.toNat * (w.market.positions t).leverage.toNat <
          2^255)) := by
  have haccepted : (w.market.positions t).Accepted := h.lifecycle.accepted t ha.position
  have hq := haccepted.quantity_pos
  refine ⟨?_, fun hhalf => hhalf.fitsInt256_iff haccepted⟩
  rw [← inRange_iff hq haccepted.leverage_pos]
  constructor
  · rintro ⟨payout, hpayout, hclaim⟩
    obtain ⟨hrange, howed⟩ := (calculatePayout_eq_ok ha hq).mp hpayout
    refine ⟨hrange, ?_⟩
    by_contra hnone
    simp only [not_or, not_le, not_lt] at hnone
    obtain ⟨hasset, hpos, hcovered⟩ := hnone
    -- The claim would be refused, although the balance covers it.
    have hpayoutPos : 0 < payout := by
      rw [BitVec.lt_def]
      show 0 < payout.toNat
      omega
    obtain ⟨w', hw'⟩ := hclaim (by omega) ⟨quietEnv t 0 0, .claimPayout, none⟩ rfl rfl rfl rfl
    have hrefused : exec ⟨quietEnv t 0 0, .claimPayout, none⟩ w = _ :=
      claim_refused rfl rfl ha hpayout hpayoutPos hasset
    rw [hw'] at hrefused
    cases hrefused
  · rintro ⟨hrange, hassets⟩
    obtain ⟨payout, hpayout⟩ := exists_payout ha hq hrange
    have howed := ((calculatePayout_eq_ok ha hq).mp hpayout).2
    refine ⟨payout, hpayout, ?_⟩
    rintro hb tx hcall rfl hv hr
    refine claim_goes_through hcall hv hr ha hpayout ?_ hb
    rcases hassets with hnative | hnothing | hshort
    · exact .inr hnative
    · left
      rw [← BitVec.toNat_inj, howed, Int.toNat_of_nonpos hnothing]
      rfl
    · omega

/-- The long of the sample run is not stuck. -/
theorem notStuck_iff_sample :
    ∃ w payout w', launch sampleDeployment (sampleOpening ++ [sampleSettlement]) = .ok w ∧
      calculatePayout w.market 2 = .ok payout ∧ exec sampleClaim w = .ok w' := by
  obtain ⟨w, hw, hp⟩ := exists_launch sampleDeployment (sampleOpening ++ [sampleSettlement])
    (fun w => decide (Awaiting w.market 2 ∧ FitsInt256 w.market (w.market.positions 2) ∧
      (w.market.positions 2).settlementAsset = NATIVE_TOKEN ∧
      Owed w.market (w.market.positions 2) ≤ w.market.balance)) (by decide +kernel)
  obtain ⟨ha, hfits, hn, hb⟩ := of_decide_eq_true hp
  have hq := ((reachable_of_launch hw).lifecycle.accepted 2 ha.position).quantity_pos
  obtain ⟨payout, hpayout, hclaim⟩ :=
    (notStuck_iff (reachable_of_launch hw) ha).1.mpr ⟨hfits, .inl hn⟩
  have howed := ((calculatePayout_eq_ok ha hq).mp hpayout).2
  obtain ⟨w', hw'⟩ := hclaim (by omega) sampleClaim rfl rfl rfl rfl
  exact ⟨w, payout, w', hw, hpayout, hw'⟩

/-- A market with one position, of `quantity` contracts and the settlement asset `asset`, which the
owner allows, and with ten ethers of liquidity, after its settlement. -/
def soloRun (quantity : Uint256) (asset : Address) : List Tx :=
  [⟨quietEnv 1 0 1700000001, .setSettlementAssetAllowed asset true, none⟩,
    ⟨quietEnv 2 0 1700000002, .registerUser "longUser" "", none⟩,
    ⟨quietEnv 2 ether 1700000003,
      .openCustomPosition ⟨true, quantity, 1, 0, 0, 0, 0, NATIVE_TOKEN, asset, ether⟩, none⟩,
    ⟨quietEnv 4 (10 * ether) 1700000004, .addLiquidity, none⟩,
    sampleSettlement]

/-- Two positions that are stuck: one in the native token, whose payout overflows and whose ether stays
in the market, and one that is settled in an asset that the owner allowed, with a payout that the
balance covers. -/
theorem position_stuck :
    (∃ w, launch sampleDeployment (soloRun (2^254) NATIVE_TOKEN) = .ok w ∧
      Awaiting w.market 2 ∧ (w.market.positions 2).settlementAsset = NATIVE_TOKEN ∧
      w.market.balance = 11 * ether.toNat ∧ calculatePayout w.market 2 = .error overflow ∧
      exec sampleClaim w = .error overflow) ∧
    ∃ w payout, launch sampleDeployment (soloRun 10 9) = .ok w ∧ Awaiting w.market 2 ∧
      calculatePayout w.market 2 = .ok payout ∧ payout.toNat ≤ w.market.balance ∧
      exec sampleClaim w = .error (.reason "Non-native settlement not implemented") := by
  constructor
  · obtain ⟨w, hw, hp⟩ := exists_launch sampleDeployment (soloRun (2^254) NATIVE_TOKEN)
      (fun w => decide (Awaiting w.market 2 ∧
        (w.market.positions 2).settlementAsset = NATIVE_TOKEN ∧
        w.market.balance = 11 * ether.toNat ∧ calculatePayout w.market 2 = .error overflow))
      (by decide +kernel)
    obtain ⟨ha, hn, hb, hpayout⟩ := of_decide_eq_true hp
    refine ⟨w, hw, ha, hn, hb, hpayout, exec_error_of_body rfl rfl ?_⟩
    show claimPayout sampleClaim.env w.market = _
    have ha' : Awaiting w.market sampleClaim.env.sender := ha
    rw [claimPayout, GasCap.settled, Checked.ensure_bind_of_pos ha'.settled,
      Checked.ensure_bind_of_pos ha'.position, Checked.ensure_bind_of_pos ha'.unclaimed,
      show calculatePayout w.market sampleClaim.env.sender = .error overflow from hpayout]
    rfl
  · obtain ⟨w, hw, hp⟩ := exists_launch sampleDeployment (soloRun 10 9)
      (fun w => decide (Awaiting w.market 2 ∧
        calculatePayout w.market 2 = .ok 1000000199999999500 ∧
        1000000199999999500 ≤ w.market.balance ∧
        (w.market.positions 2).settlementAsset ≠ NATIVE_TOKEN)) (by decide +kernel)
    obtain ⟨ha, hpayout, hb, hn⟩ := of_decide_eq_true hp
    exact ⟨w, _, hw, ha, hpayout, hb, claim_refused rfl rfl ha hpayout (by decide) hn⟩

end GasCap
