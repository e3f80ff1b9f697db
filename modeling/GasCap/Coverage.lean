import GasCap.Finality
import GasCap.Lib.Treasury

/-!
# What is still owed after the settlement

`outstanding` is the sum of the payouts that traders with an unclaimed position, settled in the
native token, can still claim, and a settled market is `Covered` while its balance is at least that.
A claim takes its payout off both sides, and no other call but `removeLiquidity` takes anything off
the balance, so only a removal can break the coverage, and it does exactly when its amount exceeds
what the outstanding payouts leave of the balance (`coverage_kept`). `removeLiquidity` has no guard
on the phase of the market, although liquidity is removable before the settlement only by the
README, and `emergencyWithdraw`, the other way to take money out, has one.
-/

namespace GasCap

open Machine

/-- The payout of a trader, or nothing while `calculatePayout` reverts. -/
def payoutOf (m : Market) (t : Address) : ℕ :=
  match calculatePayout m t with
  | .ok payout => payout.toNat
  | .error _ => 0

/-- What a trader can still claim in native money: nothing where the payout reverts, or is in another
asset. -/
def due (m : Market) (t : Address) : ℕ :=
  if (m.positions t).exists = true ∧ (m.positions t).isClaimed = false ∧
      (m.positions t).settlementAsset = NATIVE_TOKEN then payoutOf m t
  else 0

/-- What all traders can still claim in native money. -/
def outstanding (m : Market) : ℕ := ∑ t, due m t

/-- The balance covers what can still be claimed. -/
def Covered (w : World) : Prop := outstanding w.market ≤ w.market.balance

/-- The payout that `calculatePayout` returns. -/
theorem payoutOf_eq {m : Market} {t : Address} {payout : Uint256}
    (h : calculatePayout m t = .ok payout) : payoutOf m t = payout.toNat := by
  unfold payoutOf
  rw [h]

/-- What a trader can claim depends on its position and its payout alone. -/
theorem due_congr {m m' : Market} {t : Address} (hpos : m'.positions t = m.positions t)
    (hpay : calculatePayout m' t = calculatePayout m t) : due m' t = due m t := by
  unfold due payoutOf
  rw [hpos, hpay]

/-- A trader without a position can claim nothing. -/
theorem due_of_not_exists {m : Market} {t : Address} (h : (m.positions t).exists = false) :
    due m t = 0 := by
  unfold due
  exact if_neg fun hpos => absurd hpos.1 (by rw [h]; exact Bool.false_ne_true)

/-- A trader that claimed can claim nothing. -/
theorem due_of_claimed {m : Market} {t : Address} (h : (m.positions t).isClaimed = true) :
    due m t = 0 := by
  unfold due
  exact if_neg fun hpos => absurd hpos.2.1 (by rw [h]; exact Bool.noConfusion)

/-- What a trader can claim is what its claim pays. -/
theorem Claimable.due_eq {m : Market} {t : Address} {payout : Uint256}
    (h : Claimable m t payout) : due m t = payout.toNat := by
  unfold due
  rw [payoutOf_eq h.payout_eq]
  split_ifs with hpos
  · rfl
  -- A claim of a position that is settled in another asset pays nothing.
  · have hzero : ¬ 0 < payout := fun hp => hpos ⟨h.position, h.unclaimed, h.native hp⟩
    rw [BitVec.lt_def] at hzero
    exact (Nat.eq_zero_of_not_pos hzero).symm

/-- In a reachable market, only participants can claim. -/
theorem Reachable.outstanding_eq {w : World} (h : Reachable w) :
    outstanding w.market = (w.market.participants.map (due w.market)).sum :=
  h.lifecycle.sum_positions _ fun _ => due_of_not_exists

/-- What a call to a settled market does to its balance. -/
theorem settled_balance_cases {tx : Tx} {w w' : World} (hs : w.market.isSettled = true)
    (h : exec tx w = .ok w') :
    (∃ amount, tx.call = .removeLiquidity amount ∧
      w'.market.balance + amount.toNat = w.market.balance) ∨
    (∃ payout, tx.call = .claimPayout ∧ Claimable w.market tx.env.sender payout ∧
      w'.market.balance + payout.toNat = w.market.balance) ∨
    ((∀ amount, tx.call ≠ .removeLiquidity amount) ∧ tx.call ≠ .claimPayout ∧
      w.market.balance ≤ w'.market.balance) := by
  obtain ⟨env, call, rejection⟩ := tx
  have heffect := exec_effect h
  simp only at heffect ⊢
  cases heffect with
  | opened order openable =>
    have hopen := openable.notSettled
    rw [hs] at hopen
    cases hopen
  | emergencyWithdraw _ _ unsettled =>
    rw [hs] at unsettled
    cases unsettled
  | removeLiquidity _ _ _ enough => exact .inl ⟨_, rfl, Nat.sub_add_cancel enough⟩
  | claimNothing _ claimable => exact .inr (.inl ⟨0, rfl, claimable, rfl⟩)
  | claimPayout _ _ claimable =>
    exact .inr (.inl ⟨_, rfl, claimable, Nat.sub_add_cancel claimable.enough⟩)
  | addLiquidity | receive =>
    exact .inr (.inr ⟨fun _ => by simp, by simp, Nat.le_add_right _ _⟩)
  | _ => exact .inr (.inr ⟨fun _ => by simp, by simp, le_refl _⟩)

/-- A call that is no claim leaves what can still be claimed. -/
theorem AfterSettlement.outstanding_eq {tx : Tx} {w w' : World} (hs : w.market.isSettled = true)
    (h : AfterSettlement tx w w') (hcall : tx.call ≠ .claimPayout) :
    outstanding w'.market = outstanding w.market := by
  unfold outstanding
  apply Finset.sum_congr rfl
  intro t _
  have ht : ¬ tx.IsClaimOf t := fun hclaim => hcall hclaim.1
  exact due_congr (h.others t ht) (h.payout hs ht)

/-- A claim takes its payout off what can still be claimed. -/
theorem AfterSettlement.outstanding_claim {tx : Tx} {w w' : World} {payout : Uint256}
    (hs : w.market.isSettled = true) (h : AfterSettlement tx w w')
    (hcall : tx.call = .claimPayout) (hc : Claimable w.market tx.env.sender payout) :
    outstanding w'.market + payout.toNat = outstanding w.market := by
  have hothers : ∀ t, t ≠ tx.env.sender → due w'.market t = due w.market t := by
    intro t hne
    have ht : ¬ tx.IsClaimOf t := fun hclaim => hne hclaim.2.symm
    exact due_congr (h.others t ht) (h.payout hs ht)
  have hown : due w'.market tx.env.sender = 0 := due_of_claimed (h.own _ ⟨hcall, rfl⟩)
  calc outstanding w'.market + payout.toNat
      = outstanding w'.market + due w.market tx.env.sender := by rw [hc.due_eq]
    _ = outstanding w.market + due w'.market tx.env.sender :=
      Mapping.sum_replace (due w.market) (due w'.market) tx.env.sender hothers
    _ = outstanding w.market := by rw [hown, Nat.add_zero]

/-- A call keeps within the coverage unless it removes more liquidity than the outstanding payouts
leave of the balance. -/
def KeepsCoverage (tx : Tx) (w : World) : Prop :=
  ∀ amount, tx.call = .removeLiquidity amount →
    outstanding w.market + amount.toNat ≤ w.market.balance

/-- A call to a covered settled market leaves it covered exactly when it keeps within the
coverage. -/
theorem exec_covered_iff {tx : Tx} {w w' : World} (hs : w.market.isSettled = true)
    (hcov : Covered w) (h : exec tx w = .ok w') : Covered w' ↔ KeepsCoverage tx w := by
  have hafter := exec_of_settled hs h
  unfold Covered KeepsCoverage at *
  rcases settled_balance_cases hs h with ⟨amount, hcall, hb⟩ | ⟨payout, hcall, hc, hb⟩ |
    ⟨hremove, hclaim, hb⟩
  -- A removal takes its amount off the balance alone.
  · have hout := hafter.outstanding_eq hs (by rw [hcall]; simp)
    rw [hout]
    constructor
    · intro hcov' amount' hcall'
      rw [hcall] at hcall'
      cases hcall'
      omega
    · intro hkeeps
      have := hkeeps amount hcall
      omega
  -- A claim takes its payout off both sides.
  · have hout := hafter.outstanding_claim hs hcall hc
    constructor
    · intro _ amount hcall'
      rw [hcall] at hcall'
      cases hcall'
    · intro _
      omega
  -- No other call takes anything off the balance.
  · have hout := hafter.outstanding_eq hs hclaim
    constructor
    · intro _ amount hcall
      exact absurd hcall (hremove amount)
    · intro _
      omega

/-- **When the coverage is kept**: a successful call to a covered settled market leaves it covered
exactly when it does not remove more liquidity than the outstanding payouts leave of the balance,
and a run of such calls keeps it covered. -/
theorem coverage_kept {w : World} (hs : w.market.isSettled = true) (hcov : Covered w) :
    (∀ tx w', exec tx w = .ok w' → (Covered w' ↔ KeepsCoverage tx w)) ∧
    ∀ txs w', GuardedRun exec KeepsCoverage w txs w' → Covered w' := by
  refine ⟨fun tx w' h => exec_covered_iff hs hcov h, fun txs w' run => ?_⟩
  have hend := run.invariant (I := fun w => w.market.isSettled = true ∧ Covered w)
    (fun _ _ _ hkeeps hw h =>
      ⟨(exec_of_settled hw.1 h).settled, (exec_covered_iff hw.1 hw.2 h).mpr hkeeps⟩)
    ⟨hs, hcov⟩
  exact hend.2

/-- The sample run is covered after its settlement, and after the long's claim. -/
theorem coverage_kept_sample :
    ∃ w, launch sampleDeployment (sampleOpening ++ [sampleSettlement]) = .ok w ∧
      (∀ tx w', exec tx w = .ok w' → (Covered w' ↔ KeepsCoverage tx w)) ∧
      ∃ w', exec sampleClaim w = .ok w' ∧ Covered w' := by
  obtain ⟨w, hw, hp⟩ := exists_launch sampleDeployment (sampleOpening ++ [sampleSettlement])
    (fun w => decide (w.market.isSettled = true ∧
      (w.market.participants.map (due w.market)).sum ≤ w.market.balance) &&
      (exec sampleClaim w).toOption.any fun _ => true) (by decide +kernel)
  rw [Bool.and_eq_true] at hp
  obtain ⟨hs, hcov⟩ := of_decide_eq_true hp.1
  obtain ⟨w', hw', -⟩ := Checked.exists_of_any hp.2
  rw [← (reachable_of_launch hw).outstanding_eq] at hcov
  obtain ⟨hstep, hrun⟩ := coverage_kept hs hcov
  refine ⟨w, hw, hstep, w', hw', hrun [sampleClaim] w' (.single ?_ hw')⟩
  intro amount hcall
  cases hcall

/-- A provider removes its liquidity after the settlement. -/
def lateRemoval : Tx := ⟨quietEnv 4 0 1700604802, .removeLiquidity (10 * ether), none⟩

/-- A removal of liquidity after the settlement leaves a market that covered its payouts without
the money for one. -/
theorem coverage_broken :
    ∃ w w', launch sampleDeployment (soloRun 10 NATIVE_TOKEN) = .ok w ∧
      w.market.isSettled = true ∧ Covered w ∧ exec lateRemoval w = .ok w' ∧ ¬ Covered w' := by
  obtain ⟨w, hw, hp⟩ := exists_launch sampleDeployment (soloRun 10 NATIVE_TOKEN)
    (fun w => decide (w.market.isSettled = true ∧
      (w.market.participants.map (due w.market)).sum ≤ w.market.balance) &&
      (exec lateRemoval w).toOption.any fun w' : World =>
        decide (w'.market.balance < (w'.market.participants.map (due w'.market)).sum))
    (by decide +kernel)
  rw [Bool.and_eq_true] at hp
  obtain ⟨hs, hcov⟩ := of_decide_eq_true hp.1
  obtain ⟨w', hw', hlt⟩ := Checked.exists_of_any hp.2
  have hreach := reachable_of_launch hw
  refine ⟨w, w', hw, hs, ?_, hw', ?_⟩
  · unfold Covered
    rw [hreach.outstanding_eq]
    exact hcov
  · unfold Covered
    rw [(hreach.exec hw').outstanding_eq]
    exact Nat.not_le.mpr (of_decide_eq_true hlt)

end GasCap
