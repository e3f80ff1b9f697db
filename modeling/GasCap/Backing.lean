import GasCap.Books
import GasCap.Positions

/-!
# Claims on native money, and the money behind them

A position that is settled in the native token has a claim on its collateral in native money,
whatever its collateral asset is, while an opening brings native money only for native collateral:
the transfer of any other is commented out. `Backed` says that the claims do not exceed the money
that the openings brought. Every opening with a native settlement and another collateral adds a claim
and no money (`exec_unbacked`), and no other call moves the two apart, so every run without such
openings keeps a market backed (`run_backed`).
-/

namespace GasCap

open Machine

/-- The claim of a position on native money. -/
def nativeClaim (p : Position) : ℕ :=
  if p.exists = true ∧ p.settlementAsset = NATIVE_TOKEN then p.collateral.toNat else 0

/-- The claims of all positions on native money. -/
def nativeClaims (m : Market) : ℕ := ∑ t, nativeClaim (m.positions t)

/-- The claims on native money do not exceed what the openings brought. -/
def Backed (w : World) : Prop := nativeClaims w.market ≤ total .opened w.journal

/-- An order with a native settlement has native collateral. -/
def Order.IsBacked (o : Order) : Prop :=
  o.settlementAsset = NATIVE_TOKEN → o.collateralAsset = NATIVE_TOKEN

instance (o : Order) : Decidable o.IsBacked := inferInstanceAs (Decidable (_ → _))

/-- A call opens no position with a native settlement and other collateral. -/
def OpensBacked (tx : Tx) (_ : World) : Prop := ∀ o, tx.call.order tx.env = some o → o.IsBacked

/-- An address without a position has no claim. -/
theorem nativeClaim_of_not_exists {p : Position} (h : p.exists = false) : nativeClaim p = 0 := by
  unfold nativeClaim
  exact if_neg fun hp => absurd hp.1 (by rw [h]; exact Bool.false_ne_true)

/-- In a reachable market, only participants have claims. -/
theorem Reachable.nativeClaims_eq {w : World} (h : Reachable w) :
    nativeClaims w.market =
      (w.market.participants.map fun t => nativeClaim (w.market.positions t)).sum :=
  h.lifecycle.sum_positions _ fun _ => nativeClaim_of_not_exists

/-- A claim leaves the claims on the collateral recorded. -/
theorem nativeClaims_closed (m : Market) (trader : Address) :
    nativeClaims (m.closed trader) = nativeClaims m := by
  unfold nativeClaims
  apply Finset.sum_congr rfl
  intro t _
  rcases eq_or_ne t trader with rfl | h
  · rw [closed_positions_self]
    rfl
  · rw [closed_positions_of_ne h]

/-- An opening adds the claim of its position. -/
theorem nativeClaims_opened {env : Env} {o : Order} {m : Market} (h : Openable env o m) :
    nativeClaims (m.opened env.sender o) = nativeClaims m + nativeClaim o.position := by
  have hsum := Mapping.sum_update (fun _ p => nativeClaim p) m.positions env.sender o.position
  have hzero : nativeClaim (m.positions env.sender) = 0 := nativeClaim_of_not_exists h.fresh
  rw [hzero, Nat.add_zero] at hsum
  exact hsum

/-- A call adds to the claims, and to the money that the openings brought, by an opening only. -/
theorem Effect.backing_cases {env : Env} {call : Call} {w w' : World}
    (h : Effect env call w w') :
    (∃ o, call.order env = some o ∧
      nativeClaims w'.market = nativeClaims w.market + nativeClaim o.position ∧
      total .opened w'.journal = total .opened w.journal + o.nativeAmount.toNat) ∨
    (nativeClaims w'.market = nativeClaims w.market ∧
      total .opened w'.journal = total .opened w.journal) := by
  cases h with
  | @opened _ o _ _ order openable =>
    refine .inl ⟨o, order, nativeClaims_opened openable, ?_⟩
    rw [total_cons, if_pos rfl, openable.value_eq, Nat.add_comm]
  | claimNothing _ _ => exact .inr ⟨nativeClaims_closed _ _, rfl⟩
  | claimPayout _ _ _ => exact .inr ⟨nativeClaims_closed _ _, by simp⟩
  | addLiquidity _ _ _ | removeLiquidity _ _ _ _ | emergencyWithdraw _ _ _ | receive =>
    exact .inr ⟨rfl, by simp⟩
  | _ => exact .inr ⟨rfl, rfl⟩

/-- A backed order claims no more than the money it brings. -/
theorem Order.IsBacked.le {o : Order} (h : o.IsBacked) :
    nativeClaim o.position ≤ o.nativeAmount.toNat := by
  unfold nativeClaim Order.nativeAmount
  split_ifs with hp hc
  · exact le_refl _
  · exact absurd (h hp.2) hc
  · exact Nat.zero_le _
  · exact Nat.zero_le _

/-- A call that opens no position with a native settlement and other collateral keeps a market
backed. -/
theorem exec_backed {tx : Tx} {w w' : World} (hb : Backed w) (ho : OpensBacked tx w)
    (h : exec tx w = .ok w') : Backed w' := by
  unfold Backed at *
  -- Both sides grow by an opening only, the claims by no more than the money.
  rcases (exec_effect h).backing_cases with ⟨o, horder, hclaims, htotal⟩ | ⟨hclaims, htotal⟩
  · have hle := (ho o horder).le
    omega
  · omega

/-- An opening with a native settlement and other collateral adds a claim and no money. -/
theorem exec_unbacked {tx : Tx} {w w' : World} {o : Order} (horder : tx.call.order tx.env = some o)
    (ho : ¬ o.IsBacked) (h : exec tx w = .ok w') :
    nativeClaims w'.market = nativeClaims w.market + o.collateralAmount.toNat ∧
      0 < o.collateralAmount.toNat ∧ total .opened w'.journal = total .opened w.journal := by
  obtain ⟨openable, hm, hj⟩ := exec_opened horder h
  obtain ⟨hs, hc⟩ := Classical.not_imp.mp ho
  have hclaim : nativeClaim o.position = o.collateralAmount.toNat := if_pos ⟨rfl, hs⟩
  have hvalue : tx.env.value.toNat = 0 := by
    rw [openable.value_eq, Order.nativeAmount, if_neg hc]
    rfl
  refine ⟨?_, BitVec.lt_def.mp openable.collateral_pos, ?_⟩
  · rw [hm, ← hclaim]
    exact nativeClaims_opened openable
  · rw [hj, total_cons, if_pos rfl, hvalue, Nat.zero_add]

/-- **When native claims are backed**: every run from the constructor in which no opening has a
native settlement and other collateral leads to a market whose claims on native money do not exceed
the money that the openings brought. -/
theorem run_backed {d : Deployment} {w₀ w : World} {txs : List Tx} (h₀ : deploy d = .ok w₀)
    (run : GuardedRun exec OpensBacked w₀ txs w) : Backed w := by
  have hfresh : Backed w₀ := by
    have hreach : Reachable w₀ := ⟨d, w₀, [], h₀, .nil w₀⟩
    unfold Backed
    rw [hreach.nativeClaims_eq, (deploy_fresh h₀).participants]
    exact Nat.zero_le _
  exact run.invariant (fun _ _ _ ho hb h => exec_backed hb ho h) hfresh

/-- The sample run is backed. -/
theorem run_backed_sample :
    ∃ w, launch sampleDeployment sampleRun = .ok w ∧ Backed w := by
  obtain ⟨w, hw, -⟩ := exists_launch sampleDeployment sampleRun (fun _ => true) (by decide +kernel)
  obtain ⟨w₀, h₀, run⟩ := launch_eq_ok.mp hw
  have hall : ∀ tx ∈ sampleRun, (tx.call.order tx.env).all (fun o => decide o.IsBacked) = true := by
    decide +kernel
  refine ⟨w, hw, run_backed h₀ (run.guarded fun tx htx _ o horder => ?_)⟩
  have h := hall tx htx
  rw [horder] at h
  exact of_decide_eq_true h

/-- The owner allows another collateral, and a trader opens a position with it that is settled in the
native token. -/
def unbackedRun : List Tx :=
  [⟨quietEnv 1 0 1700000001, .setCollateralAssetAllowed 9 true, none⟩,
    ⟨quietEnv 2 0 1700000002, .registerUser "longUser" "", none⟩,
    ⟨quietEnv 2 0 1700000003,
      .openCustomPosition ⟨true, 10, 1, 0, 0, 0, 0, 9, NATIVE_TOKEN, ether⟩, none⟩]

/-- A claim on native money that no native money is behind. -/
theorem claim_unbacked :
    ∃ w, launch sampleDeployment unbackedRun = .ok w ∧ total .opened w.journal = 0 ∧
      ¬ Backed w := by
  obtain ⟨w, hw, hp⟩ := exists_launch sampleDeployment unbackedRun
    (fun w => decide (total .opened w.journal = 0 ∧
      0 < (w.market.participants.map fun t => nativeClaim (w.market.positions t)).sum))
    (by decide +kernel)
  obtain ⟨hzero, hpos⟩ := of_decide_eq_true hp
  refine ⟨w, hw, hzero, ?_⟩
  unfold Backed
  rw [(reachable_of_launch hw).nativeClaims_eq, hzero]
  exact Nat.not_le.mpr hpos

end GasCap
