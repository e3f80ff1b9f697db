import GasCap.ClaimOrder
import GasCap.Exit

/-!
# Who can be paid after the settlement

After its settlement a market owes its traders the payouts that are `outstanding`, and its providers
the pool. Owed is what can be claimed: a payout that reverts, or that is settled in another asset than
the native one, counts as nothing, since no claim gets it before or after. What the balance has over
both is the `surplus`, or what it lacks. A claim and a removal take the same from both sides, so
nothing but a donation changes the surplus (`surplus_conserved`): a surplus stays in the market for
good, since the owner's withdrawal is closed, and a shortfall stays somebody's loss.

Where there is a surplus or nothing is lacking, no claim and no removal is ever refused for lack of
money, whatever the others do (`solvent_exits`), and all can be paid exactly then
(`exit_complete_iff`). In terms of what came in, the surplus at the settlement is the collateral less
the payouts, and does not depend on the liquidity (`Reachable.surplus_eq`).
-/

namespace GasCap

open Machine

/-- What the balance has over the pool and the payouts that can be claimed, negative where it lacks
some of them. -/
def surplus (w : World) : ℤ :=
  w.market.balance - (w.market.totalLiquidity.toNat + outstanding w.market)

/-- What was donated to the market between two states. -/
def donatedSince (w w' : World) : ℤ := total .donated w'.journal - total .donated w.journal

/-- What a call does to the balance, the pool, and the journal: apart from openings and withdrawals of
the owner, what comes in is added to the pool or donated, and what goes out is removed from it or the
payout of a claim. -/
theorem Effect.net {env : Env} {call : Call} {w w' : World} (h : Effect env call w w')
    (hcall : ¬ call.IsFinished) :
    w'.market.balance + total .claimed w'.journal + total .donated w.journal +
        w.market.totalLiquidity.toNat =
      w.market.balance + total .claimed w.journal + total .donated w'.journal +
        w'.market.totalLiquidity.toNat := by
  cases h with
  | opened order _ => exact absurd (.inl (body_of_order order).2) hcall
  | emergencyWithdraw _ _ _ => exact absurd (.inr (.inr rfl)) hcall
  | addLiquidity _ _ total_eq =>
    simp only [total_cons, reduceCtorEq, if_false]
    omega
  | removeLiquidity _ _ total_eq enough =>
    simp only [total_cons, reduceCtorEq, if_false]
    omega
  | claimPayout _ _ claimable =>
    have henough := claimable.enough
    simp only [total_cons, reduceCtorEq, if_false, if_true, Market.closed]
    omega
  | receive =>
    simp only [total_cons, reduceCtorEq, if_false, if_true]
    omega
  | _ => rfl

/-- A claim moves its payout from what is outstanding to what was claimed, and no other call to a
settled market changes either. -/
theorem exec_outstanding {tx : Tx} {w w' : World} (hs : w.market.isSettled = true)
    (h : exec tx w = .ok w') :
    outstanding w'.market + total .claimed w'.journal =
      outstanding w.market + total .claimed w.journal := by
  have hafter : AfterSettlement tx w w' := exec_of_settled hs h
  obtain ⟨env, call, rejection⟩ := tx
  have heffect := exec_effect h
  simp only at heffect
  cases heffect with
  | opened order _ => exact absurd (.inl (body_of_order order).2) hafter.not_finished
  | claimNothing _ claimable =>
    have hout := hafter.outstanding_claim hs rfl claimable
    have hzero : (0 : Uint256).toNat = 0 := rfl
    simp only [hzero] at hout ⊢
    omega
  | claimPayout _ _ claimable =>
    have hout := hafter.outstanding_claim hs rfl claimable
    simp only [total_cons, if_true] at hout ⊢
    omega
  | addLiquidity _ _ _ | removeLiquidity _ _ _ _ | emergencyWithdraw _ _ _ | receive =>
    have hout := hafter.outstanding_eq hs (by simp)
    simp only [hout, total_cons, reduceCtorEq, if_false, Nat.zero_add]
  | _ => rw [hafter.outstanding_eq hs (by simp)]

/-- A call to a settled market changes the surplus by what it donates. -/
theorem exec_surplus {tx : Tx} {w w' : World} (hs : w.market.isSettled = true)
    (h : exec tx w = .ok w') : surplus w' = surplus w + donatedSince w w' := by
  have hnet := (exec_effect h).net (exec_of_settled hs h).not_finished
  have hout := exec_outstanding hs h
  unfold surplus donatedSince
  omega

/-- A call takes no donation back. -/
theorem Effect.donated_mono {env : Env} {call : Call} {w w' : World} (h : Effect env call w w') :
    total .donated w.journal ≤ total .donated w'.journal := by
  cases h with
  | opened _ _ | addLiquidity _ _ _ | removeLiquidity _ _ _ _ | claimPayout _ _ _
  | emergencyWithdraw _ _ _ | receive =>
    rw [total_cons]
    exact Nat.le_add_left _ _
  | _ => exact le_refl _

/-! ## The surplus stays -/

section Surplus

variable {w w' : World} {txs : List Tx}

/-- A run of a settled market changes the surplus by what it donates. -/
theorem run_surplus (run : Run exec w txs w') (hs : w.market.isSettled = true) :
    surplus w' = surplus w + donatedSince w w' := by
  have hconstant : surplus w' - total .donated w'.journal = surplus w - total .donated w.journal := by
    refine run.constant (I := fun w => w.market.isSettled = true)
      (fun w => surplus w - (total .donated w.journal : ℤ))
      (fun _ _ _ _ hs h => (exec_of_settled hs h).settled) hs ?_
    intro tx _ s s' _ hs h
    have hstep := exec_surplus hs h
    unfold donatedSince at hstep
    omega
  unfold donatedSince
  omega

/-- A run takes no donation back. -/
theorem run_donatedSince (run : Run exec w txs w') : 0 ≤ donatedSince w w' := by
  have hmono : total .donated w.journal ≤ total .donated w'.journal :=
    run.invariant (I := fun w' => total .donated w.journal ≤ total .donated w'.journal)
      (fun _ _ _ _ hle h => hle.trans (exec_effect h).donated_mono) (le_refl _)
  unfold donatedSince
  omega

/-- **The surplus stays**: in every run from a settled state, the surplus changes by the donations
alone, which only add to it. So whatever the accounts do, the owner included, a surplus is never paid
to anybody: the balance stays at least that, and comes to it when everybody has been paid. What is
lacking stays owed: the payouts and the pool that remain are at least that less the donations. -/
theorem surplus_conserved (run : Run exec w txs w') (hs : w.market.isSettled = true) :
    surplus w' = surplus w + donatedSince w w' ∧ 0 ≤ donatedSince w w' ∧
      surplus w ≤ w'.market.balance ∧
      -surplus w - donatedSince w w' ≤
        w'.market.totalLiquidity.toNat + outstanding w'.market ∧
      (outstanding w'.market = 0 → w'.market.totalLiquidity = 0 →
        w'.market.balance = surplus w + donatedSince w w') := by
  have hsurplus := run_surplus run hs
  have hdonated := run_donatedSince run
  unfold surplus at hsurplus ⊢
  refine ⟨hsurplus, hdonated, by omega, by omega, fun hout hpool => ?_⟩
  have hzero : w'.market.totalLiquidity.toNat = 0 := by rw [hpool]; rfl
  omega

/-- The surplus of a reachable market, which owes payouts to its participants only. -/
theorem Reachable.surplus_eq_sum (h : Reachable w) :
    surplus w = w.market.balance - (w.market.totalLiquidity.toNat +
      (w.market.participants.map (due w.market)).sum : ℕ) := by
  unfold surplus
  rw [h.outstanding_eq]
  omega

/-- A market with one position lacks its profit after the settlement, and still does after the claim
that is paid out of the pool. -/
theorem surplus_conserved_sample :
    ∃ w w', launch sampleDeployment (soloRun 10 NATIVE_TOKEN) = .ok w ∧
      exec sampleClaim w = .ok w' ∧ surplus w = -199999999500 ∧
      surplus w' = -199999999500 + donatedSince w w' := by
  obtain ⟨w, hw, hp⟩ := exists_launch sampleDeployment (soloRun 10 NATIVE_TOKEN)
    (fun w => decide (w.market.isSettled = true ∧
      w.market.balance + 199999999500 = w.market.totalLiquidity.toNat +
        (w.market.participants.map (due w.market)).sum) &&
      (exec sampleClaim w).toOption.any fun _ => true) (by decide +kernel)
  rw [Bool.and_eq_true] at hp
  obtain ⟨hs, hlack⟩ := of_decide_eq_true hp.1
  obtain ⟨w', hw', -⟩ := Checked.exists_of_any hp.2
  have hsurplus : surplus w = -199999999500 := by
    rw [(reachable_of_launch hw).surplus_eq_sum]
    omega
  refine ⟨w, w', hw, hw', hsurplus, ?_⟩
  rw [← hsurplus]
  exact (surplus_conserved (.single trivial hw') hs).1

/-- **Where the surplus comes from**: in every reachable state, it is the native collateral and the
donations less the payouts, made or outstanding, and the withdrawals of the owner. The liquidity adds
nothing to it. -/
theorem Reachable.surplus_eq (h : Reachable w) :
    surplus w = (∑ t, nativeCollateral (w.market.positions t) : ℕ) + total .donated w.journal -
      (total .claimed w.journal + outstanding w.market) - total .drained w.journal := by
  obtain ⟨τ, hτ⟩ := h.represented
  have hb := τ.balanced
  have hstake : ∑ t, nativeCollateral (w.market.positions t) = ∑ t, τ.stake t :=
    Finset.sum_congr rfl fun t _ => (hτ.stake t).symm
  have hpool : w.market.totalLiquidity.toNat = ∑ a, (τ.added a - τ.removed a) := hτ.pool
  rw [hτ.held, hτ.paid, hτ.drained, hτ.donated] at hb
  rw [hstake]
  unfold surplus
  omega

end Surplus

/-! ## Exits without a shortfall -/

section Exits

variable {w w' : World} {txs : List Tx}

/-- What a trader whose claim can only fail for lack of money is paid is outstanding. -/
theorem Redeemable.payoutOf_le {t : Address} (h : Redeemable w.market t) :
    payoutOf w.market t ≤ outstanding w.market := by
  obtain ⟨payout, hpay, hnative⟩ := h.payable
  have hdue : payoutOf w.market t = due w.market t := by
    unfold due
    rcases hnative with rfl | hnative
    · rw [payoutOf_eq hpay]
      split_ifs <;> rfl
    · rw [if_pos ⟨h.awaiting.position, h.awaiting.unclaimed, hnative⟩]
  rw [hdue]
  exact Finset.single_le_sum (fun t _ => Nat.zero_le (due w.market t)) (Finset.mem_univ t)

/-- A trader to whom something is due is one whose claim can only fail for lack of money. -/
theorem Redeemable.of_due {t : Address} (hs : w.market.isSettled = true)
    (h : due w.market t ≠ 0) : Redeemable w.market t := by
  unfold due at h
  split_ifs at h with hopen
  · obtain ⟨hposition, hunclaimed, hnative⟩ := hopen
    refine ⟨⟨hs, hposition, hunclaimed⟩, ?_⟩
    unfold payoutOf at h
    split at h
    · exact ⟨_, ‹_›, .inr hnative⟩
    · exact absurd rfl h
  · exact absurd rfl h

/-- A settled market without a shortfall. -/
structure Solvent (w : World) : Prop where
  represented : Represented w
  settled : w.market.isSettled = true
  surplus_nonneg : 0 ≤ surplus w

/-- A call leaves a settled market without a shortfall. -/
theorem exec_solvent {tx : Tx} (hw : Solvent w) (h : exec tx w = .ok w') : Solvent w' where
  represented := exec_represented hw.represented h
  settled := (exec_of_settled hw.settled h).settled
  surplus_nonneg := by
    have hconserved := exec_surplus hw.settled h
    have hmono := (exec_effect h).donated_mono
    have hsurplus := hw.surplus_nonneg
    unfold donatedSince at hconserved
    omega

/-- A run leaves a settled market without a shortfall. -/
theorem run_solvent {P : Tx → World → Prop} (hw : Solvent w) (run : GuardedRun exec P w txs w') :
    Solvent w' :=
  run.invariant (fun _ _ _ _ hw h => exec_solvent hw h) hw

/-- Without a shortfall the balance covers the pool and the payouts. -/
theorem Solvent.owed_le (hw : Solvent w) :
    w.market.totalLiquidity.toNat + outstanding w.market ≤ w.market.balance := by
  have hsurplus := hw.surplus_nonneg
  unfold surplus at hsurplus
  omega

/-- Without a shortfall a removal within its provider's entry succeeds. -/
theorem Solvent.exec_removal (hw : Solvent w) (r : Removal)
    (hr : r.amount ≤ w.market.liquidityProvided r.env.sender) : ∃ w', exec r.tx w = .ok w' := by
  have howed := hw.owed_le
  have hentry := hw.represented.entry_le r.env.sender
  have hle : r.amount.toNat ≤ (w.market.liquidityProvided r.env.sender).toNat := BitVec.le_def.mp hr
  exact hw.represented.exec_removal r.value_eq hr (by omega)

/-- Without a shortfall a claim that can only fail for lack of money succeeds. -/
theorem Solvent.exec_claim (hw : Solvent w) (c : ClaimCall)
    (hc : Redeemable w.market c.env.sender) : ∃ w', exec c.tx w = .ok w' := by
  have howed := hw.owed_le
  have hpay := hc.payoutOf_le
  exact exec_claim_of_le hc (by omega)

/-- **Without a shortfall nobody is turned away**: from a reachable settled state without a shortfall,
every run, of any calls in any order, leads to a state without one, in which every trader whose claim
can only fail for lack of money can claim, and every provider can remove any amount up to its entry,
where they accept the transfer. -/
theorem solvent_exits (h : Reachable w) (hs : w.market.isSettled = true) (hsurplus : 0 ≤ surplus w)
    (run : Run exec w txs w') :
    0 ≤ surplus w' ∧
      (∀ c : ClaimCall, Redeemable w'.market c.env.sender → ∃ w'', exec c.tx w' = .ok w'') ∧
      ∀ r : Removal, r.amount ≤ w'.market.liquidityProvided r.env.sender →
        ∃ w'', exec r.tx w' = .ok w'' := by
  have hsolvent : Solvent w' := run_solvent ⟨h.represented, hs, hsurplus⟩ run
  exact ⟨hsolvent.surplus_nonneg, hsolvent.exec_claim, hsolvent.exec_removal⟩

/-- The sample run settles without a shortfall, so the short can still claim after the long. -/
theorem solvent_exits_sample :
    ∃ w w' w'', launch sampleDeployment (sampleOpening ++ [sampleSettlement]) = .ok w ∧
      exec sampleClaim w = .ok w' ∧ 0 ≤ surplus w' ∧
      exec ⟨quietEnv 3 0 1700604803, .claimPayout, none⟩ w' = .ok w'' := by
  obtain ⟨w, hw, hp⟩ := exists_launch sampleDeployment (sampleOpening ++ [sampleSettlement])
    (fun w => decide (w.market.isSettled = true ∧ w.market.totalLiquidity.toNat +
        (w.market.participants.map (due w.market)).sum ≤ w.market.balance) &&
      (exec sampleClaim w).toOption.any fun w' : World => decide (due w'.market 3 ≠ 0))
    (by decide +kernel)
  rw [Bool.and_eq_true] at hp
  obtain ⟨hs, hcovers⟩ := of_decide_eq_true hp.1
  obtain ⟨w', hw', hdue⟩ := Checked.exists_of_any hp.2
  have hreach := reachable_of_launch hw
  have hsurplus : 0 ≤ surplus w := by
    rw [hreach.surplus_eq_sum]
    omega
  obtain ⟨hsurplus', hclaims, -⟩ := solvent_exits hreach hs hsurplus (.single trivial hw')
  have hs' : w'.market.isSettled = true := (exec_of_settled hs hw').settled
  obtain ⟨w'', hw''⟩ := hclaims ⟨quietEnv 3 0 1700604803, rfl⟩
    (.of_due hs' (of_decide_eq_true hdue))
  exact ⟨w, w', w'', hw, hw', hsurplus', hw''⟩

/-! ## When all can be paid -/

/-- A call by which an account takes out what it is owed. -/
def Call.IsExit (call : Call) : Prop :=
  call = .claimPayout ∨ ∃ amount, call = .removeLiquidity amount

/-- An exit donates nothing. -/
theorem exec_exit_donated {tx : Tx} (hexit : tx.call.IsExit) (h : exec tx w = .ok w') :
    total .donated w'.journal = total .donated w.journal := by
  have heffect := exec_effect h
  rcases hexit with hcall | ⟨amount, hcall⟩
  · rw [hcall] at heffect
    cases heffect with
    | opened order _ => cases order
    | claimNothing _ _ => rfl
    | claimPayout _ _ _ => simp
  · rw [hcall] at heffect
    cases heffect with
    | opened order _ => cases order
    | removeLiquidity _ _ _ _ => simp

/-- What can be claimed and removed. -/
def owed (w : World) : ℕ := outstanding w.market + w.market.totalLiquidity.toNat

/-- Where a payout is outstanding and nothing lacks, a claim succeeds and lowers what is owed. -/
theorem Solvent.exists_claim (hw : Solvent w) (hout : outstanding w.market ≠ 0) :
    ∃ tx w', tx.call.IsExit ∧ exec tx w = .ok w' ∧ owed w' < owed w := by
  obtain ⟨t, -, hdue⟩ := Finset.exists_ne_zero_of_sum_ne_zero hout
  have hredeem : Redeemable w.market t := .of_due hw.settled hdue
  have hpayout : payoutOf w.market t ≠ 0 := by
    unfold due at hdue
    split_ifs at hdue with hopen
    · exact hdue
    · exact absurd rfl hdue
  obtain ⟨w', hw'⟩ := hw.exec_claim ⟨quietEnv t 0 0, rfl⟩ hredeem
  refine ⟨_, w', .inl rfl, hw', ?_⟩
  obtain ⟨-, hm, -, htotal⟩ := GasCap.exec_claim hw'
  have hmoved := exec_outstanding hw.settled hw'
  have hpaid : total .claimed w'.journal = payoutOf w.market t + total .claimed w.journal := htotal
  have hpool : w'.market.totalLiquidity = w.market.totalLiquidity := by rw [hm]; rfl
  unfold owed
  rw [hpool]
  omega

/-- Where the pool has liquidity and nothing lacks, a removal succeeds and lowers what is owed. -/
theorem Solvent.exists_removal (hw : Solvent w) (hpool : w.market.totalLiquidity.toNat ≠ 0) :
    ∃ tx w', tx.call.IsExit ∧ exec tx w = .ok w' ∧ owed w' < owed w := by
  obtain ⟨τ, hτ⟩ := hw.represented
  rw [hτ.pool] at hpool
  obtain ⟨a, -, hcredit⟩ := Finset.exists_ne_zero_of_sum_ne_zero hpool
  rw [hτ.credit] at hcredit
  obtain ⟨w', hw'⟩ := hw.exec_removal ⟨quietEnv a 0 0, w.market.liquidityProvided a, rfl⟩
    (BitVec.le_refl _)
  refine ⟨_, w', .inr ⟨_, rfl⟩, hw', ?_⟩
  have hmoved := exec_outstanding hw.settled hw'
  have heffect := exec_effect hw'
  unfold Removal.tx at heffect
  simp only at heffect
  unfold owed
  cases heffect with
  | opened order _ => cases order
  | removeLiquidity _ _ total_eq _ =>
    simp only [total_cons, reduceCtorEq, if_false] at hmoved ⊢
    omega

/-- Where something is owed and nothing lacks, an exit succeeds and lowers what is owed. -/
theorem Solvent.exists_exit (hw : Solvent w) (howed : owed w ≠ 0) :
    ∃ tx w', tx.call.IsExit ∧ exec tx w = .ok w' ∧ owed w' < owed w := by
  by_cases hout : outstanding w.market = 0
  · have hpool : w.market.totalLiquidity.toNat ≠ 0 := by
      unfold owed at howed
      omega
    exact hw.exists_removal hpool
  · exact hw.exists_claim hout

/-- **When all can be paid**: in a reachable settled state, some sequence of claims and removals takes
out the pool and every payout that is returned and settled in the native token, exactly when there is
no shortfall of them. -/
theorem exit_complete_iff (h : Reachable w) (hs : w.market.isSettled = true) :
    (∃ txs w', Run exec w txs w' ∧ (∀ tx ∈ txs, tx.call.IsExit) ∧ owed w' = 0) ↔
      0 ≤ surplus w := by
  constructor
  · rintro ⟨txs, w', run, hexits, howed⟩
    have hdonated : total .donated w'.journal = total .donated w.journal :=
      run.constant (I := fun _ => True) (fun w => total .donated w.journal)
        (fun _ _ _ _ _ _ => trivial) trivial
        fun tx htx _ _ _ _ he => exec_exit_donated (hexits tx htx) he
    have hconserved := run_surplus run hs
    unfold donatedSince at hconserved
    have hend : surplus w' = w'.market.balance := by
      unfold owed at howed
      unfold surplus
      omega
    omega
  · intro hsurplus
    have hprogress : ∀ w, Solvent w → owed w ≠ 0 →
        ∃ tx w', tx.call.IsExit ∧ exec tx w = .ok w' ∧ Solvent w' ∧ owed w' < owed w := by
      intro w hw howed
      obtain ⟨tx, w', hexit, hexec, hlt⟩ := hw.exists_exit howed
      exact ⟨tx, w', hexit, hexec, exec_solvent hw hexec, hlt⟩
    obtain ⟨txs, w', run, hexits, -, howed⟩ :=
      exists_run_of_variant owed hprogress ⟨h.represented, hs, hsurplus⟩
    exact ⟨txs, w', run, hexits, howed⟩

end Exits

/-- All accounts of the sample run can be paid, and of a market with one position in profit not all
can. -/
theorem exit_complete_iff_sample :
    (∃ w txs w', launch sampleDeployment (sampleOpening ++ [sampleSettlement]) = .ok w ∧
      Run exec w txs w' ∧ owed w' = 0) ∧
    ∃ w, launch sampleDeployment (soloRun 10 NATIVE_TOKEN) = .ok w ∧
      ¬ ∃ txs w', Run exec w txs w' ∧ (∀ tx ∈ txs, tx.call.IsExit) ∧ owed w' = 0 := by
  constructor
  · obtain ⟨w, hw, hp⟩ := exists_launch sampleDeployment (sampleOpening ++ [sampleSettlement])
      (fun w => decide (w.market.isSettled = true ∧ w.market.totalLiquidity.toNat +
        (w.market.participants.map (due w.market)).sum ≤ w.market.balance)) (by decide +kernel)
    obtain ⟨hs, hcovers⟩ := of_decide_eq_true hp
    have hreach := reachable_of_launch hw
    obtain ⟨txs, w', run, -, howed⟩ := (exit_complete_iff hreach hs).mpr (by
      rw [hreach.surplus_eq_sum]
      omega)
    exact ⟨w, txs, w', hw, run, howed⟩
  · obtain ⟨w, hw, hp⟩ := exists_launch sampleDeployment (soloRun 10 NATIVE_TOKEN)
      (fun w => decide (w.market.isSettled = true ∧ w.market.balance <
        w.market.totalLiquidity.toNat + (w.market.participants.map (due w.market)).sum))
      (by decide +kernel)
    obtain ⟨hs, hlacks⟩ := of_decide_eq_true hp
    have hreach := reachable_of_launch hw
    refine ⟨w, hw, fun hexit => ?_⟩
    have hsurplus := (exit_complete_iff hreach hs).mp hexit
    rw [hreach.surplus_eq_sum] at hsurplus
    omega

end GasCap
