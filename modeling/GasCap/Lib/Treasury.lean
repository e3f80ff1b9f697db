import Mathlib.Algebra.BigOperators.Group.Finset.Basic
import Mathlib.Algebra.Order.BigOperators.Group.Finset
import Mathlib.Data.Fintype.BigOperators
import Mathlib.Data.Fintype.Basic
import Mathlib.Tactic.Abel

/-!
# A treasury that holds deposits and stakes

A treasury holds one pot of money for many accounts. An account may deposit money, which it can
withdraw on demand, and may lock a stake, which stays. Anyone may donate. The treasury may pay out of
the pot, whatever it is made of, and its owner may drain it. `Treasury` keeps the books of all this,
and carries with them the proof that they balance: what is held and what went out by payments and
drains is what was donated, deposited and not withdrawn, and staked. The operations are the only way
to build one, and `Treasury.Step` is the relation between a treasury and what one of them makes of
it.

As long as nothing was paid or drained, the pot covers every deposit and every stake
(`Treasury.covered`), so an account can always withdraw what it deposited
(`Treasury.Covered.withdraw_le`), and the others remain covered (`Treasury.Covered.withdraw`).
-/

/-! ## Sums over a mapping with one entry replaced -/

namespace Mapping

variable {α β M : Type*} [Fintype α] [DecidableEq α] [AddCommMonoid M]

/-- Sums whose summands agree but for one differ by this one. -/
theorem sum_replace (f g : α → M) (a : α) (h : ∀ x, x ≠ a → g x = f x) :
    ∑ x, g x + f a = ∑ x, f x + g a := by
  have hrest : ∑ x ∈ Finset.univ.erase a, g x = ∑ x ∈ Finset.univ.erase a, f x := by
    apply Finset.sum_congr rfl
    intro x hx
    exact h x (Finset.ne_of_mem_erase hx)
  rw [← Finset.add_sum_erase _ g (Finset.mem_univ a),
    ← Finset.add_sum_erase _ f (Finset.mem_univ a), hrest]
  abel

/-- Replacing one entry of a mapping replaces its summand. -/
theorem sum_update (g : α → β → M) (f : α → β) (a : α) (v : β) :
    ∑ x, g x (Function.update f a v x) + g a (f a) = ∑ x, g x (f x) + g a v := by
  have h := sum_replace (fun x => g x (f x)) (fun x => g x (Function.update f a v x)) a
    fun x hx => by rw [Function.update_of_ne hx]
  simpa only [Function.update_self] using h

/-- A sum in which only the members of a list count is the sum over the list. -/
theorem sum_list {l : List α} (hl : l.Nodup) (g : α → M) (hg : ∀ x, x ∉ l → g x = 0) :
    ∑ x, g x = (l.map g).sum := by
  rw [← List.sum_toFinset g hl]
  symm
  apply Finset.sum_subset (Finset.subset_univ _)
  intro x _ hx
  exact hg x fun hmem => hx (List.mem_toFinset.mpr hmem)

end Mapping

/-! ## The books -/

/-- The books of a treasury: what is held, what came in and went out, and the proof that they
balance. -/
structure Treasury (Account : Type*) [Fintype Account] where
  /-- The money in the pot. -/
  held : ℕ
  /-- What was donated. -/
  donated : ℕ
  /-- What was paid out of the pot. -/
  paid : ℕ
  /-- What was drained. -/
  drained : ℕ
  /-- What each account deposited. -/
  added : Account → ℕ
  /-- What each account withdrew. -/
  removed : Account → ℕ
  /-- What each account staked. -/
  stake : Account → ℕ
  /-- No account withdrew more than it deposited. -/
  removed_le : ∀ a, removed a ≤ added a
  /-- The books balance. -/
  balanced : held + paid + drained = donated + ∑ a, (added a - removed a) + ∑ a, stake a

namespace Treasury

variable {Account : Type*} [Fintype Account]

/-- What an account deposited and did not withdraw. -/
def credit (τ : Treasury Account) (a : Account) : ℕ := τ.added a - τ.removed a

/-- The treasury in which nothing has happened. -/
def empty : Treasury Account where
  held := 0
  donated := 0
  paid := 0
  drained := 0
  added _ := 0
  removed _ := 0
  stake _ := 0
  removed_le _ := le_refl 0
  balanced := by simp

/-- A donation. -/
def donate (τ : Treasury Account) (n : ℕ) : Treasury Account :=
  { τ with
    held := τ.held + n
    donated := τ.donated + n
    balanced := by have := τ.balanced; omega }

/-- A payment out of the pot. -/
def pay (τ : Treasury Account) (n : ℕ) (h : n ≤ τ.held) : Treasury Account :=
  { τ with
    held := τ.held - n
    paid := τ.paid + n
    balanced := by have := τ.balanced; omega }

/-- The whole pot is drained. -/
def drain (τ : Treasury Account) : Treasury Account :=
  { τ with
    held := 0
    drained := τ.drained + τ.held
    balanced := by have := τ.balanced; omega }

/-! ## Coverage -/

/-- The pot covers every deposit and every stake. -/
def Covered (τ : Treasury Account) : Prop := ∑ a, τ.credit a + ∑ a, τ.stake a ≤ τ.held

/-- As long as nothing was paid or drained, the pot covers every deposit and every stake. -/
theorem covered (τ : Treasury Account) (hp : τ.paid = 0) (hd : τ.drained = 0) : τ.Covered := by
  have hb := τ.balanced
  rw [hp, hd] at hb
  unfold Covered credit
  omega

/-- No account has more credit than all accounts together. -/
theorem credit_le_sum (τ : Treasury Account) (a : Account) : τ.credit a ≤ ∑ b, τ.credit b :=
  Finset.single_le_sum (fun _ _ => Nat.zero_le _) (Finset.mem_univ a)

/-- A covered pot holds every account's credit. -/
theorem Covered.withdraw_le {τ : Treasury Account} (hτ : τ.Covered) {a : Account} {n : ℕ}
    (ha : n ≤ τ.credit a) : n ≤ τ.held := by
  have := τ.credit_le_sum a
  unfold Covered at hτ
  omega

/-! ## Operations on one account -/

variable [DecidableEq Account]

/-- An account deposits. -/
def deposit (τ : Treasury Account) (a : Account) (n : ℕ) : Treasury Account :=
  { τ with
    held := τ.held + n
    added := Function.update τ.added a (τ.added a + n)
    removed_le := by
      intro b
      have := τ.removed_le b
      rcases eq_or_ne b a with rfl | h
      · rw [Function.update_self]; omega
      · rwa [Function.update_of_ne h]
    balanced := by
      have hsum := Mapping.sum_update (fun b x => x - τ.removed b) τ.added a (τ.added a + n)
      have := τ.balanced
      have := τ.removed_le a
      omega }

/-- An account withdraws some of what it deposited. -/
def withdraw (τ : Treasury Account) (a : Account) (n : ℕ) (ha : n ≤ τ.credit a)
    (h : n ≤ τ.held) : Treasury Account :=
  { τ with
    held := τ.held - n
    removed := Function.update τ.removed a (τ.removed a + n)
    removed_le := by
      intro b
      have := τ.removed_le b
      rcases eq_or_ne b a with rfl | hb
      · rw [Function.update_self]; unfold credit at ha; omega
      · rwa [Function.update_of_ne hb]
    balanced := by
      have hsum := Mapping.sum_update (fun b x => τ.added b - x) τ.removed a (τ.removed a + n)
      have := τ.balanced
      unfold credit at ha
      omega }

/-- An account locks a stake. -/
def lock (τ : Treasury Account) (a : Account) (n : ℕ) : Treasury Account :=
  { τ with
    held := τ.held + n
    stake := Function.update τ.stake a (τ.stake a + n)
    balanced := by
      have hsum := Mapping.sum_update (fun _ x => x) τ.stake a (τ.stake a + n)
      have := τ.balanced
      omega }

/-- What one operation makes of a treasury. -/
inductive Step : Treasury Account → Treasury Account → Prop
  | idle (τ) : Step τ τ
  | donate (τ n) : Step τ (τ.donate n)
  | deposit (τ a n) : Step τ (τ.deposit a n)
  | withdraw (τ a n ha h) : Step τ (τ.withdraw a n ha h)
  | lock (τ a n) : Step τ (τ.lock a n)
  | pay (τ n h) : Step τ (τ.pay n h)
  | drain (τ) : Step τ τ.drain

@[simp] theorem credit_lock (τ : Treasury Account) (a : Account) (n : ℕ) :
    (τ.lock a n).credit = τ.credit := rfl

/-- A deposit adds to the account's credit. -/
@[simp] theorem credit_deposit (τ : Treasury Account) (a : Account) (n : ℕ) :
    (τ.deposit a n).credit = Function.update τ.credit a (τ.credit a + n) := by
  funext b
  have := τ.removed_le b
  rcases eq_or_ne b a with rfl | h
  · simp only [credit, deposit, Function.update_self]; omega
  · simp only [credit, deposit, Function.update_of_ne h]

/-- A withdrawal takes from the account's credit. -/
@[simp] theorem credit_withdraw (τ : Treasury Account) (a : Account) (n : ℕ) (ha h) :
    (τ.withdraw a n ha h).credit = Function.update τ.credit a (τ.credit a - n) := by
  funext b
  rcases eq_or_ne b a with rfl | h
  · simp only [credit, withdraw, Function.update_self]; omega
  · simp only [credit, withdraw, Function.update_of_ne h]

/-- A withdrawal leaves a covered pot covered. -/
theorem Covered.withdraw {τ : Treasury Account} (hτ : τ.Covered) {a : Account} {n : ℕ}
    (ha : n ≤ τ.credit a) (h : n ≤ τ.held) : (τ.withdraw a n ha h).Covered := by
  have hsum := Mapping.sum_update (fun _ x => x) τ.credit a (τ.credit a - n)
  unfold Covered at *
  rw [credit_withdraw]
  simp only [Treasury.withdraw]
  omega

end Treasury
