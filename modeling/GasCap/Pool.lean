import GasCap.Exit
import GasCap.Payout
import GasCap.Views

/-!
# The reported pool

`getContractState` reports `totalLiquidity`, which is what all providers together may remove. Every
deposit and every removal changes it with the balance. A claim is paid out of the same balance and
leaves it as it is, so the pool is still held after a claim only if the balance had the payout to
spare over it (`exec_poolHeld_iff`). Nothing else but the owner's withdrawal takes money from the pool,
so it is held in all settled states of a run exactly when every claim is such (`pool_held_iff`). In
terms of what came in and went out, it is held as long as the payouts are within the native collateral
and the donations (`Reachable.poolHeld_iff`).
-/

namespace GasCap

open Machine

/-- The market holds the pool that it reports. -/
def PoolHeld (w : World) : Prop :=
  (getContractState w.market).totalLiquidity.toNat ≤ w.market.balance

instance (w : World) : Decidable (PoolHeld w) := inferInstanceAs (Decidable (_ ≤ _))

/-- A call is no claim whose payout exceeds what the balance has over the pool. -/
def SparesPool (tx : Tx) (w : World) : Prop :=
  tx.call = .claimPayout → ∀ payout, calculatePayout w.market tx.env.sender = .ok payout →
    w.market.totalLiquidity.toNat + payout.toNat ≤ w.market.balance

/-- What a call does to the pool and the balance: a claim takes its payout off the balance, and any
other call but the owner's withdrawal leaves what the balance has over the pool or adds to it. -/
theorem Effect.pool_cases {env : Env} {call : Call} {w w' : World}
    (h : Effect env call w w') (hcall : call ≠ .emergencyWithdraw) :
    (∃ payout, call = .claimPayout ∧ calculatePayout w.market env.sender = .ok payout ∧
      w'.market.totalLiquidity = w.market.totalLiquidity ∧
      w'.market.balance + payout.toNat = w.market.balance) ∨
    (call ≠ .claimPayout ∧
      w'.market.totalLiquidity.toNat + w.market.balance ≤
        w.market.totalLiquidity.toNat + w'.market.balance) := by
  cases h with
  | claimNothing _ claimable => exact .inl ⟨0, rfl, claimable.payout_eq, rfl, rfl⟩
  | claimPayout _ _ claimable =>
    exact .inl ⟨_, rfl, claimable.payout_eq, rfl, Nat.sub_add_cancel claimable.enough⟩
  | emergencyWithdraw _ _ _ => exact absurd rfl hcall
  | opened order _ =>
    refine .inr ⟨?_, Nat.add_le_add_left (Nat.le_add_right _ _) _⟩
    rintro rfl
    cases order
  | addLiquidity _ _ total_eq =>
    refine .inr ⟨by simp, ?_⟩
    simp only
    omega
  | removeLiquidity _ _ total_eq enough =>
    refine .inr ⟨by simp, ?_⟩
    simp only
    omega
  | receive => exact .inr ⟨by simp, Nat.add_le_add_left (Nat.le_add_right _ _) _⟩
  | _ => exact .inr ⟨by simp, le_refl _⟩

/-- A call to a market that holds the pool, which is not the owner's withdrawal, leaves the pool held
exactly when it spares it. -/
theorem exec_poolHeld_iff {tx : Tx} {w w' : World} (hw : PoolHeld w)
    (hcall : tx.call ≠ .emergencyWithdraw) (h : exec tx w = .ok w') :
    PoolHeld w' ↔ SparesPool tx w := by
  unfold PoolHeld SparesPool at *
  simp only [getContractState] at *
  rcases (exec_effect h).pool_cases hcall with ⟨payout, hclaim, hpay, htotal, hb⟩ | ⟨hclaim, hle⟩
  · rw [htotal]
    constructor
    · intro hheld _ payout' hpay'
      cases hpay.symm.trans hpay'
      omega
    · intro hspares
      have := hspares hclaim payout hpay
      omega
  · exact ⟨fun _ hclaim' => absurd hclaim' hclaim, fun _ => by omega⟩

/-- Before the settlement, a market that nobody drained holds the pool. -/
theorem KeepsFunds.poolHeld {w : World} (h : KeepsFunds w) (hs : w.market.isSettled = false) :
    PoolHeld w :=
  h.pool_le hs

/-- A market that nobody drained holds the pool as long as the payouts are within what was donated and
the native collateral. -/
theorem Reachable.poolHeld_iff {w : World} (h : Reachable w)
    (hdrained : total .drained w.journal = 0) :
    PoolHeld w ↔ total .claimed w.journal ≤
      total .donated w.journal + ∑ t, nativeCollateral (w.market.positions t) := by
  obtain ⟨τ, hτ⟩ := h.represented
  have hb := τ.balanced
  have hstake : ∑ t, nativeCollateral (w.market.positions t) = ∑ t, τ.stake t :=
    Finset.sum_congr rfl fun t _ => (hτ.stake t).symm
  have hpool : w.market.totalLiquidity.toNat = ∑ a, (τ.added a - τ.removed a) := hτ.pool
  rw [hτ.held, hτ.paid, hτ.drained, hτ.donated, hdrained] at hb
  unfold PoolHeld
  simp only [getContractState]
  omega

/-- **When the reported pool exists**: a run from the constructor without a withdrawal of the owner
holds the reported pool in all its settled states if and only if, in the state before each of its
claims, the balance is at least the pool and the payout of the claim together. -/
theorem pool_held_iff {d : Deployment} {w₀ w : World} {txs : List Tx} (h₀ : deploy d = .ok w₀)
    (run : GuardedRun exec (fun tx _ => tx.call ≠ .emergencyWithdraw) w₀ txs w) :
    (∀ before after w₁, txs = before ++ after →
      GuardedRun exec (fun tx _ => tx.call ≠ .emergencyWithdraw) w₀ before w₁ →
      w₁.market.isSettled = true → PoolHeld w₁) ↔ GuardedRun exec SparesPool w₀ txs w := by
  have hfresh : PoolHeld w₀ :=
    (deploy_fresh h₀).keepsFunds.poolHeld (deploy_fresh h₀).isSettled
  rw [← run.forall_prefix_iff (J := PoolHeld)
    (fun _ _ _ hcall hw h => exec_poolHeld_iff hw hcall h) hfresh]
  -- The states before the settlement hold the pool in any case.
  constructor
  · intro hall before after w₁ heq hbefore
    by_cases hs : w₁.market.isSettled = true
    · exact hall before after w₁ heq hbefore hs
    · exact (run_keepsFunds h₀ hbefore).poolHeld (Bool.eq_false_iff.mpr hs)
  · exact fun hall before after w₁ heq hbefore _ => hall before after w₁ heq hbefore

/-- The sample run holds the pool, before and after the long's claim. -/
theorem pool_held_iff_sample :
    ∃ w w', launch sampleDeployment (sampleOpening ++ [sampleSettlement]) = .ok w ∧
      exec sampleClaim w = .ok w' ∧ PoolHeld w ∧ PoolHeld w' := by
  obtain ⟨w, hw, hp⟩ := exists_launch sampleDeployment (sampleOpening ++ [sampleSettlement])
    (fun w => decide (w.market.isSettled = true ∧
      calculatePayout w.market 2 = .ok 1000000199999999500 ∧
      w.market.totalLiquidity.toNat + 1000000199999999500 ≤ w.market.balance) &&
      (exec sampleClaim w).toOption.any fun w' => w'.market.isSettled) (by decide +kernel)
  rw [Bool.and_eq_true] at hp
  obtain ⟨hs, hpay, hspare⟩ := of_decide_eq_true hp.1
  obtain ⟨w', hw', hs'⟩ := Checked.exists_of_any hp.2
  obtain ⟨w₀, h₀, run⟩ := launch_eq_ok.mp hw
  -- Only the last call is a claim, and the balance has its payout to spare.
  have hcalls : ∀ tx ∈ sampleOpening ++ [sampleSettlement],
      tx.call ≠ .emergencyWithdraw ∧ tx.call ≠ .claimPayout := by decide
  have hspares : SparesPool sampleClaim w := by
    intro _ payout hpayout
    cases hpay.symm.trans hpayout
    exact hspare
  have hguard : GuardedRun exec (fun tx _ => tx.call ≠ .emergencyWithdraw) w₀ _ w :=
    run.guarded fun tx htx _ => (hcalls tx htx).1
  have hall := (pool_held_iff h₀ (hguard.append (.single (by decide) hw'))).mpr
    ((run.guarded fun tx htx _ hclaim => absurd hclaim (hcalls tx htx).2).append
      (.single hspares hw'))
  exact ⟨w, w', hw, hw', hall _ _ w rfl hguard hs,
    hall _ [] w' (List.append_nil _).symm (hguard.append (.single (by decide) hw')) hs'⟩

/-- After the claim of a single long, whose profit is paid out of the pool, the market no longer holds
the pool that it reports. -/
theorem pool_missing :
    ∃ w, launch sampleDeployment (soloRun 10 NATIVE_TOKEN ++ [sampleClaim]) = .ok w ∧
      w.market.isSettled = true ∧ total .drained w.journal = 0 ∧ ¬ PoolHeld w := by
  obtain ⟨w, hw, hp⟩ := exists_launch sampleDeployment (soloRun 10 NATIVE_TOKEN ++ [sampleClaim])
    (fun w => decide (w.market.isSettled = true ∧ total .drained w.journal = 0 ∧ ¬ PoolHeld w))
    (by decide +kernel)
  exact ⟨w, hw, of_decide_eq_true hp⟩

end GasCap
