import GasCap.Books

/-!
# Liquidity providers exit before the settlement

Until its settlement a market makes no payout, and without a withdrawal of its owner it still holds
everything that came in, so its books are those of a covered treasury (`exec_keepsFunds`). Such a
treasury can pay every account its credit and stays covered, so any sequence of removals within the
providers' entries succeeds, and leaves the native collateral (`providers_exit`).
-/

namespace GasCap

open Machine

/-- The market holds what came in: nothing was drained, and nothing paid before the settlement. -/
structure KeepsFunds (w : World) : Prop where
  represented : Represented w
  paid : w.market.isSettled = false → total .claimed w.journal = 0
  drained : total .drained w.journal = 0

/-- A new market holds what came in. -/
theorem Fresh.keepsFunds {w : World} (h : Fresh w) : KeepsFunds w where
  represented := ⟨Treasury.empty, h.represents⟩
  paid _ := by rw [h.journal]; rfl
  drained := by rw [h.journal]; rfl

/-- A call makes no payout before the settlement. -/
theorem Effect.paid {env : Env} {call : Call} {w w' : World} (h : Effect env call w w')
    (hs : w'.market.isSettled = false) :
    w.market.isSettled = false ∧ total .claimed w'.journal = total .claimed w.journal := by
  cases h with
  | settleContract _ _ _ _ _ _ => cases hs
  | claimNothing _ claimable =>
    have hsettled : w.market.isSettled = false := hs
    rw [claimable.settled] at hsettled
    cases hsettled
  | claimPayout _ _ claimable =>
    have hsettled : w.market.isSettled = false := hs
    rw [claimable.settled] at hsettled
    cases hsettled
  | opened _ openable => exact ⟨openable.notSettled, by simp⟩
  | addLiquidity _ _ _ | removeLiquidity _ _ _ _ | emergencyWithdraw _ _ _ | receive =>
    exact ⟨hs, by simp⟩
  | _ => exact ⟨hs, rfl⟩

/-- Only the owner's withdrawal drains a market. -/
theorem Effect.drained {env : Env} {call : Call} {w w' : World} (h : Effect env call w w')
    (hcall : call ≠ .emergencyWithdraw) :
    total .drained w'.journal = total .drained w.journal := by
  cases h with
  | emergencyWithdraw _ _ _ => exact absurd rfl hcall
  | opened _ _ | addLiquidity _ _ _ | removeLiquidity _ _ _ _ | claimPayout _ _ _ | receive => simp
  | _ => rfl

/-- A call that is not the owner's withdrawal lets the market hold what came in. -/
theorem exec_keepsFunds {tx : Tx} {w w' : World} (hw : KeepsFunds w)
    (hcall : tx.call ≠ .emergencyWithdraw) (h : exec tx w = .ok w') : KeepsFunds w' where
  represented := exec_represented hw.represented h
  paid hs := by
    obtain ⟨hs', hpaid⟩ := (exec_effect h).paid hs
    rw [hpaid, hw.paid hs']
  drained := by rw [(exec_effect h).drained hcall, hw.drained]

/-- A run without a withdrawal of the owner leads to a market that holds what came in. -/
theorem run_keepsFunds {d : Deployment} {w₀ w : World} {txs : List Tx} (h₀ : deploy d = .ok w₀)
    (run : GuardedRun exec (fun tx _ => tx.call ≠ .emergencyWithdraw) w₀ txs w) : KeepsFunds w :=
  run.invariant (fun _ _ _ hcall hw h => exec_keepsFunds hw hcall h) (deploy_fresh h₀).keepsFunds

/-- Before the settlement, the books of a market that holds what came in are covered. -/
theorem KeepsFunds.covered {w : World} (h : KeepsFunds w) (hs : w.market.isSettled = false) :
    ∃ τ, Represents w τ ∧ τ.Covered := by
  obtain ⟨τ, hτ⟩ := h.represented
  exact ⟨τ, hτ, τ.covered (hτ.paid.trans (h.paid hs)) (hτ.drained.trans h.drained)⟩

/-- Before the settlement, a market that holds what came in holds its pool. -/
theorem KeepsFunds.pool_le {w : World} (h : KeepsFunds w) (hs : w.market.isSettled = false) :
    w.market.totalLiquidity.toNat ≤ w.market.balance := by
  obtain ⟨τ, hτ, hc⟩ := h.covered hs
  have hpool := hτ.pool
  have hheld := hτ.held
  unfold Treasury.Covered at hc
  omega

/-- A covered treasury holds the native collateral of the market that it has the books of. -/
theorem Represents.collateral_le {w : World} {τ : Treasury Address} (h : Represents w τ)
    (hc : τ.Covered) : ∑ t, nativeCollateral (w.market.positions t) ≤ w.market.balance := by
  have hstake : ∑ t, nativeCollateral (w.market.positions t) = ∑ t, τ.stake t :=
    Finset.sum_congr rfl fun t _ => (h.stake t).symm
  have hheld := h.held
  unfold Treasury.Covered at hc
  omega

/-! ## Removals -/

/-- A removal of liquidity by a provider that accepts the transfer. -/
structure Removal where
  env : Env
  amount : Uint256
  value_eq : env.value = 0

/-- The call of a removal. -/
def Removal.tx (r : Removal) : Tx := ⟨r.env, .removeLiquidity r.amount, none⟩

/-- What a removal pays. -/
def Removal.payment (r : Removal) : Movement := ⟨.removed, r.env.sender, r.amount.toNat⟩

/-- What a provider asks for in a sequence of removals. -/
def requested (a : Address) (removals : List Removal) : ℕ :=
  ((removals.filter fun r => r.env.sender = a).map fun r => r.amount.toNat).sum

/-- A removal adds to what its provider asks for. -/
theorem requested_cons (a : Address) (r : Removal) (removals : List Removal) :
    requested a (r :: removals) =
      (if r.env.sender = a then r.amount.toNat else 0) + requested a removals := by
  unfold requested
  by_cases h : r.env.sender = a <;> simp [h]

/-- A removal within its provider's credit succeeds if the treasury is covered, pays its amount, and
leaves the treasury covered. -/
theorem exec_removal (r : Removal) {w : World} {τ : Treasury Address} (hτ : Represents w τ)
    (hc : τ.Covered) (ha : r.amount.toNat ≤ τ.credit r.env.sender) :
    ∃ w', exec r.tx w = .ok w' ∧
      Represents w' (τ.withdraw r.env.sender r.amount.toNat ha (hc.withdraw_le ha)) ∧
      w'.journal = r.payment :: w.journal ∧
      w'.market.balance + r.amount.toNat = w.market.balance := by
  have hcredit := hτ.credit r.env.sender
  have hpool := hτ.pool
  have hle := τ.credit_le_sum r.env.sender
  -- The pot of a covered treasury holds the amount, and neither the entry nor the total underflows.
  have henough : r.amount.toNat ≤ w.market.balance := by
    rw [← hτ.held]
    exact hc.withdraw_le ha
  obtain ⟨provided, hprovided⟩ := Checked.exists_sub (e := overflow)
    (x := w.market.liquidityProvided r.env.sender) (y := r.amount) (by omega)
  obtain ⟨totalLiquidity, htotal⟩ := Checked.exists_sub (e := overflow)
    (x := w.market.totalLiquidity) (y := r.amount) (by omega)
  have hprovided := Checked.sub_eq_ok.mp hprovided
  have htotal := Checked.sub_eq_ok.mp htotal
  have heffect : Effect r.env (.removeLiquidity r.amount) w ⟨_, _, w.events⟩ :=
    .removeLiquidity r.value_eq hprovided htotal henough
  obtain ⟨w', hw', hm, hj⟩ := exec_of_effect r.tx heffect rfl
  have hbooks : Represents ⟨_, _, w.events⟩ _ :=
    hτ.removeLiquidity hprovided htotal ha (hc.withdraw_le ha)
  refine ⟨w', hw', hbooks.congr hm hj, hj, ?_⟩
  rw [hm]
  exact Nat.sub_add_cancel henough

/-- Removals within the providers' credits succeed in any order if the treasury is covered, and
leave it covered. -/
theorem run_removals (removals : List Removal) : ∀ {w : World} {τ : Treasury Address},
    Represents w τ → τ.Covered → (∀ a, requested a removals ≤ τ.credit a) →
    ∃ w' τ', Run exec w (removals.map Removal.tx) w' ∧ Represents w' τ' ∧ τ'.Covered ∧
      w'.journal = (removals.map Removal.payment).reverse ++ w.journal ∧
      w'.market.balance + (removals.map fun r => r.amount.toNat).sum = w.market.balance := by
  induction removals with
  | nil =>
    intro w τ hτ hc _
    exact ⟨w, τ, .nil w, hτ, hc, rfl, rfl⟩
  | cons r removals ih =>
    intro w τ hτ hc hle
    have ha : r.amount.toNat ≤ τ.credit r.env.sender := by
      have h := hle r.env.sender
      rw [requested_cons, if_pos rfl] at h
      omega
    obtain ⟨w₁, hw₁, hτ₁, hj₁, hb₁⟩ := exec_removal r hτ hc ha
    -- The credits that the first removal leaves cover the requests that remain.
    have hrest : ∀ a, requested a removals ≤ (τ.withdraw r.env.sender r.amount.toNat ha
        (hc.withdraw_le ha)).credit a := by
      intro a
      have h := hle a
      rw [requested_cons] at h
      rw [Treasury.credit_withdraw]
      rcases eq_or_ne a r.env.sender with rfl | hne
      · rw [if_pos rfl] at h
        rw [Function.update_self]
        omega
      · rw [if_neg hne.symm] at h
        rw [Function.update_of_ne hne]
        omega
    obtain ⟨w', τ', run, hτ', hc', hj', hb'⟩ := ih hτ₁ (hc.withdraw ha (hc.withdraw_le ha)) hrest
    refine ⟨w', τ', .cons trivial hw₁ run, hτ', hc', ?_, ?_⟩
    · rw [hj', hj₁, List.map_cons, List.reverse_cons, List.append_assoc, List.singleton_append]
    · rw [List.map_cons, List.sum_cons]
      omega

/-- **Liquidity providers can exit before the settlement**: after every run without a withdrawal of
the owner, as long as the market is not settled, every sequence of removals, in any order and in any
amounts that add up to at most each provider's entry, succeeds and pays its amounts. What is left
covers the native collateral of all positions. -/
theorem providers_exit {d : Deployment} {w₀ w : World} {txs : List Tx} (h₀ : deploy d = .ok w₀)
    (run : GuardedRun exec (fun tx _ => tx.call ≠ .emergencyWithdraw) w₀ txs w)
    (hs : w.market.isSettled = false) (removals : List Removal)
    (hle : ∀ a, requested a removals ≤ (w.market.liquidityProvided a).toNat) :
    ∃ w', Run exec w (removals.map Removal.tx) w' ∧
      w'.journal = (removals.map Removal.payment).reverse ++ w.journal ∧
      w'.market.balance + (removals.map fun r => r.amount.toNat).sum = w.market.balance ∧
      ∑ t, nativeCollateral (w'.market.positions t) ≤ w'.market.balance := by
  obtain ⟨τ, hτ, hc⟩ := (run_keepsFunds h₀ run).covered hs
  have hcredit : ∀ a, requested a removals ≤ τ.credit a := fun a => by
    rw [hτ.credit]
    exact hle a
  obtain ⟨w', τ', run', hτ', hc', hj, hb⟩ := run_removals removals hτ hc hcredit
  exact ⟨w', run', hj, hb, hτ'.collateral_le hc'⟩

/-- The provider of the sample run exits in two removals before the settlement. -/
theorem providers_exit_sample :
    ∃ w w', launch sampleDeployment sampleOpening = .ok w ∧
      Run exec w ([⟨quietEnv 4 0 1700000006, 3 * ether, rfl⟩,
        ⟨quietEnv 4 0 1700000007, 7 * ether, rfl⟩].map Removal.tx) w' ∧
      ∑ t, nativeCollateral (w'.market.positions t) ≤ w'.market.balance := by
  obtain ⟨w, hw, hp⟩ := exists_launch sampleDeployment sampleOpening
    (fun w => decide (w.market.isSettled = false ∧
      10 * ether ≤ w.market.liquidityProvided 4)) (by decide +kernel)
  obtain ⟨hs, hprovided⟩ := of_decide_eq_true hp
  obtain ⟨w₀, h₀, run⟩ := launch_eq_ok.mp hw
  have hcalls : ∀ tx ∈ sampleOpening, tx.call ≠ .emergencyWithdraw := by decide
  obtain ⟨w', run', -, -, hle⟩ := providers_exit h₀ (run.guarded fun tx htx _ => hcalls tx htx) hs
    [⟨quietEnv 4 0 1700000006, 3 * ether, rfl⟩, ⟨quietEnv 4 0 1700000007, 7 * ether, rfl⟩] (by
      intro a
      rcases eq_or_ne a 4 with rfl | hne
      · exact BitVec.le_def.mp hprovided
      · simp [requested, quietEnv, hne.symm])
  exact ⟨w, w', hw, run', hle⟩

end GasCap
