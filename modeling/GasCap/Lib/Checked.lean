import Mathlib.Algebra.Order.Ring.Int
import Mathlib.Data.BitVec
import Mathlib.Data.Int.ModEq
import Mathlib.Tactic.Ring

/-!
# Checked arithmetic on words

Unsigned words of width `w` are `BitVec w`, and the signed values of that width are the integers
that `Fits` them. The operations of a language with checked arithmetic either return the exact
result or fail with an error, so each is determined by an equation between numbers: `add_eq_ok`,
`sub_eq_ok`, and `mul_eq_ok` for words, and `signed_eq_ok` for the check that follows every signed
operation. A cast from an unsigned word to a signed value is `BitVec.toInt`, which is not checked:
`toInt_of_lt` says where it keeps the value. It keeps the value modulo `2^w` in any case, so checked
operations on unchecked casts compute the balanced remainder of the exact result
(`eq_bmod_of_fits`), and `max_bmod_iff` says when the remainder and the result are the same but for
losses.
-/

namespace Checked

universe u

variable {ε : Type*} {α β : Type u} {w : ℕ}

/-- A sequence of fallible computations succeeds when both of its parts do. -/
theorem bind_eq_ok {x : Except ε α} {f : α → Except ε β} {b : β} :
    (x >>= f) = .ok b ↔ ∃ a, x = .ok a ∧ f a = .ok b := by
  cases x with
  | ok a => exact ⟨fun h => ⟨a, rfl, h⟩, fun ⟨a', ha, h⟩ => by cases ha; exact h⟩
  | error e => exact ⟨fun h => (by cases h), fun ⟨a, ha, _⟩ => by cases ha⟩

/-- A computation that only returns a value succeeds with it. -/
theorem pure_eq_ok {a b : α} : (pure a : Except ε α) = .ok b ↔ b = a :=
  ⟨fun h => by cases h; rfl, fun h => by rw [h]; rfl⟩

/-- A computation that is tested to succeed with `p` returns a value with `p`. -/
theorem exists_of_any {x : Except ε α} {p : α → Bool} (h : x.toOption.any p = true) :
    ∃ a, x = .ok a ∧ p a = true := by
  cases x with
  | error e => cases h
  | ok a => exact ⟨a, rfl, h⟩

/-- The check of a condition. -/
def ensure (e : ε) (p : Prop) [Decidable p] : Except ε Unit := if p then .ok () else .error e

/-- A check succeeds when its condition holds. -/
theorem ensure_eq_ok {e : ε} {p : Prop} [Decidable p] {u : Unit} : ensure e p = .ok u ↔ p := by
  unfold ensure
  split_ifs with h <;> simp [h]

/-- What follows a check runs when its condition holds. -/
theorem ensure_bind_eq_ok {β : Type} {e : ε} {p : Prop} [Decidable p] {f : Unit → Except ε β}
    {b : β} :
    (ensure e p >>= f) = .ok b ↔ p ∧ f () = .ok b := by
  rw [bind_eq_ok]
  constructor
  · rintro ⟨⟨⟩, hp, hf⟩
    exact ⟨ensure_eq_ok.mp hp, hf⟩
  · rintro ⟨hp, hf⟩
    exact ⟨(), ensure_eq_ok.mpr hp, hf⟩

/-- A check that holds goes on. -/
theorem ensure_bind_of_pos {β : Type} {e : ε} {p : Prop} [Decidable p] {f : Unit → Except ε β}
    (h : p) : (ensure e p >>= f) = f () := by
  rw [ensure, if_pos h]
  rfl

/-- A check that fails stops with its error. -/
theorem ensure_bind_of_neg {β : Type} {e : ε} {p : Prop} [Decidable p] {f : Unit → Except ε β}
    (h : ¬ p) : (ensure e p >>= f) = .error e := by
  rw [ensure, if_neg h]
  rfl

/-! ## Unsigned words -/

/-- The sum of two words, unless it overflows. -/
def add (e : ε) (x y : BitVec w) : Except ε (BitVec w) :=
  if x.toNat + y.toNat < 2^w then .ok (x + y) else .error e

/-- The difference of two words, unless it underflows. -/
def sub (e : ε) (x y : BitVec w) : Except ε (BitVec w) :=
  if y.toNat ≤ x.toNat then .ok (x - y) else .error e

/-- The product of two words, unless it overflows. -/
def mul (e : ε) (x y : BitVec w) : Except ε (BitVec w) :=
  if x.toNat * y.toNat < 2^w then .ok (x * y) else .error e

/-- A checked sum is the sum of the numbers. -/
theorem add_eq_ok {e : ε} {x y z : BitVec w} :
    add e x y = .ok z ↔ z.toNat = x.toNat + y.toNat := by
  unfold add
  have hz := z.isLt
  split_ifs with h
  -- The sum does not wrap, and where it would, no word has its value.
  · rw [Except.ok.injEq, ← BitVec.toNat_inj, BitVec.toNat_add, Nat.mod_eq_of_lt h, eq_comm]
  · simp only [false_iff]
    omega

/-- A checked difference is the difference of the numbers. -/
theorem sub_eq_ok {e : ε} {x y z : BitVec w} :
    sub e x y = .ok z ↔ z.toNat + y.toNat = x.toNat := by
  unfold sub
  split_ifs with h
  · rw [Except.ok.injEq, ← BitVec.toNat_inj, BitVec.toNat_sub_of_le (BitVec.le_def.mpr h)]
    omega
  · simp only [false_iff]
    omega

/-- A checked product is the product of the numbers. -/
theorem mul_eq_ok {e : ε} {x y z : BitVec w} :
    mul e x y = .ok z ↔ z.toNat = x.toNat * y.toNat := by
  unfold mul
  have hz := z.isLt
  split_ifs with h
  · rw [Except.ok.injEq, ← BitVec.toNat_inj, BitVec.toNat_mul, Nat.mod_eq_of_lt h, eq_comm]
  · simp only [false_iff]
    omega

/-- A word whose number is the sum of two others' is their sum. -/
theorem eq_add_of_toNat {x y z : BitVec w} (h : z.toNat = x.toNat + y.toNat) : z = x + y := by
  apply BitVec.eq_of_toNat_eq
  rw [BitVec.toNat_add, ← h, Nat.mod_eq_of_lt z.isLt]

/-- A word whose number is the difference of two others' is their difference. -/
theorem eq_sub_of_toNat {x y z : BitVec w} (h : z.toNat + y.toNat = x.toNat) : z = x - y :=
  eq_sub_of_add_eq (eq_add_of_toNat h.symm).symm

/-- A sum that fits a word is returned. -/
theorem exists_add {e : ε} {x y : BitVec w} (h : x.toNat + y.toNat < 2^w) :
    ∃ z, add e x y = .ok z :=
  ⟨x + y, if_pos h⟩

/-- A difference that is not negative is returned. -/
theorem exists_sub {e : ε} {x y : BitVec w} (h : y.toNat ≤ x.toNat) : ∃ z, sub e x y = .ok z :=
  ⟨x - y, if_pos h⟩

/-! ## Signed values -/

/-- The integers that a signed word of width `w` can represent. -/
def Fits (w : ℕ) (z : ℤ) : Prop := -2^(w - 1) ≤ z ∧ z < 2^(w - 1)

instance (w : ℕ) (z : ℤ) : Decidable (Fits w z) := inferInstanceAs (Decidable (_ ∧ _))

/-- The check after a signed operation. -/
def signed (e : ε) (w : ℕ) (z : ℤ) : Except ε ℤ := if Fits w z then .ok z else .error e

/-- A checked signed result is the exact one. -/
theorem signed_eq_ok {e : ε} {z z' : ℤ} : signed e w z = .ok z' ↔ Fits w z ∧ z' = z := by
  unfold signed
  split_ifs with h <;> simp [h, eq_comm]

/-- A word below half the range keeps its value in the cast to a signed one. -/
theorem toInt_of_lt {x : BitVec w} (h : x.toNat < 2^(w - 1)) : x.toInt = x.toNat := by
  rcases Nat.eq_zero_or_pos w with rfl | hw
  · simp [BitVec.of_length_zero]
  · apply BitVec.toInt_eq_toNat_of_lt
    calc 2 * x.toNat < 2 * 2^(w - 1) := by omega
      _ = 2^w := by rw [← pow_succ', Nat.sub_add_cancel hw]

/-- A signed value that is not negative keeps its value in the cast to a word. -/
theorem toNat_ofInt_of_nonneg {z : ℤ} (h : Fits w z) (hz : 0 ≤ z) :
    (BitVec.ofInt w z).toNat = z.toNat := by
  have hw : (2 : ℤ)^(w - 1) ≤ 2^w := pow_le_pow_right₀ (by norm_num) (Nat.sub_le w 1)
  have hlt : z < 2^w := lt_of_lt_of_le h.2 hw
  rw [BitVec.toNat_ofInt, Nat.cast_pow, Nat.cast_ofNat, Int.emod_eq_of_lt hz hlt]

/-- The cast of a word keeps its value modulo `2^w`. -/
theorem toInt_modEq (x : BitVec w) : x.toInt ≡ x.toNat [ZMOD 2^w] := by
  have h : x.toInt % ((2^w : ℕ) : ℤ) = x.toNat % ((2^w : ℕ) : ℤ) := by
    rw [BitVec.toInt_eq_toNat_bmod, Int.bmod_emod]
  rwa [Nat.cast_pow, Nat.cast_ofNat] at h

/-- A signed value is the balanced remainder of what it is congruent to. -/
theorem eq_bmod_of_fits {z z' : ℤ} (hw : 0 < w) (h : Fits w z) (hmod : z ≡ z' [ZMOD 2^w]) :
    z = z'.bmod (2^w) := by
  have hpow : (2 : ℤ) * 2^(w - 1) = 2^w := by
    rw [← pow_succ', Nat.sub_add_cancel hw]
  have hself : z.bmod (2^w) = z := by
    obtain ⟨hlo, hhi⟩ := h
    apply Int.bmod_eq_of_le_mul_two <;> rw [Nat.cast_pow, Nat.cast_ofNat] <;> omega
  have hmod' : z % ((2^w : ℕ) : ℤ) = z' % ((2^w : ℕ) : ℤ) := by
    rw [Nat.cast_pow, Nat.cast_ofNat]
    exact hmod
  rw [← hself, ← Int.emod_bmod z, hmod', Int.emod_bmod]

/-- A balanced remainder is a signed value. -/
theorem fits_bmod (hw : 0 < w) (z : ℤ) : Fits w (z.bmod (2^w)) := by
  have hpow : (2 : ℤ) * 2^(w - 1) = 2^w := by
    rw [← pow_succ', Nat.sub_add_cancel hw]
  have hlo := Int.le_bmod (x := z) (Nat.two_pow_pos w)
  have hhi := Int.bmod_lt (x := z) (Nat.two_pow_pos w)
  rw [Nat.cast_pow, Nat.cast_ofNat] at hlo hhi
  constructor <;> omega

/-- Cut off at zero, an integer and its balanced remainder are the same when the integer is a signed
value, or when both are losses. -/
theorem max_bmod_iff (hw : 0 < w) (z : ℤ) :
    max 0 (z.bmod (2^w)) = max 0 z ↔
      Fits w z ∨ z < -2^(w - 1) ∧ z.bmod (2^w) ≤ 0 := by
  have hpow : (0 : ℤ) < 2^(w - 1) := pow_pos (by norm_num) _
  obtain ⟨hlo, hhi⟩ := fits_bmod hw z
  constructor
  · intro h
    -- The remainder is below `2^(w - 1)`, so a larger integer is not the same.
    rcases lt_or_ge z (-2^(w - 1)) with hz | hz
    · exact .inr ⟨hz, by omega⟩
    · exact .inl ⟨hz, by omega⟩
  · rintro (hfits | ⟨hz, hloss⟩)
    · rw [← eq_bmod_of_fits hw hfits (Int.ModEq.refl z)]
    · omega

end Checked
