import GasCap.Lib.Family
import GasCap.Registrations
import GasCap.Traders

/-!
# The markets of a factory have no owner

The owner of a market is the sender that its constructor sees. For a market of a factory this is the
factory, whose code makes no call of the owner, so as long as nobody else can send calls in its name
the market is `Ownerless`: its lists of allowed assets stay those of the constructor, every position
is native, with the value of its opening as collateral (`run_openingValues`), and nothing but a
removal or a claim takes money out (`Effect.outflow_cases`). The markets are a family of components
of the system (`factoryFamily`), so what holds of each of them holds in every run of the system
(`factory_markets_ownerless`).
-/

namespace GasCap

open Machine

/-! ## One market -/

/-- The calls that only the owner can make. -/
def Call.isOwnerCall : Call → Bool
  | .setCollateralAssetAllowed .. | .setSettlementAssetAllowed .. | .emergencyWithdraw => true
  | _ => false

/-- A market of which the allowed assets are still those of its constructor. -/
structure Ownerless (owner : Address) (w : World) : Prop where
  owner_eq : w.market.owner = owner
  collateral_iff : ∀ asset, w.market.allowedCollateralAssets asset = true ↔ asset = NATIVE_TOKEN
  settlement_iff : ∀ asset, w.market.allowedSettlementAssets asset = true ↔ asset = NATIVE_TOKEN
  native : ∀ t, (w.market.positions t).exists = true →
    (w.market.positions t).collateralAsset = NATIVE_TOKEN ∧
      (w.market.positions t).settlementAsset = NATIVE_TOKEN

/-- The constructor allows the native token only. -/
theorem deploy_ownerless {d : Deployment} {w : World} (h : deploy d = .ok w) :
    Ownerless d.env.sender w := by
  have hf := deploy_fresh h
  have hc := deploy_constructed h
  have hnative : ∀ asset,
      Function.update (fun _ => false) NATIVE_TOKEN true asset = true ↔ asset = NATIVE_TOKEN := by
    intro asset
    rcases eq_or_ne asset NATIVE_TOKEN with rfl | hne
    · rw [Function.update_self]
      exact iff_of_true rfl rfl
    · rw [Function.update_of_ne hne]
      exact iff_of_false Bool.false_ne_true hne
  refine ⟨hc.owner, ?_, ?_, fun t ht => ?_⟩
  · rw [hc.allowedCollateralAssets]
    exact hnative
  · rw [hc.allowedSettlementAssets]
    exact hnative
  · rw [hf.positions] at ht
    cases ht

/-- A successful call of the owner is the owner's. -/
theorem Effect.owner {env : Env} {call : Call} {w w' : World} (h : Effect env call w w')
    (hcall : call.isOwnerCall = true) : env.sender = w.market.owner := by
  cases h with
  | setCollateralAssetAllowed _ owner | setSettlementAssetAllowed _ owner
  | emergencyWithdraw _ owner _ => exact owner
  | @opened _ o _ _ order _ =>
    cases call with
    | setCollateralAssetAllowed | setSettlementAssetAllowed | emergencyWithdraw => cases order
    | _ => cases hcall
  | _ => cases hcall

/-- Other calls leave the owner and the lists of allowed assets. -/
theorem Effect.assets {env : Env} {call : Call} {w w' : World} (h : Effect env call w w')
    (hcall : call.isOwnerCall = false) :
    w'.market.owner = w.market.owner ∧
      w'.market.allowedCollateralAssets = w.market.allowedCollateralAssets ∧
      w'.market.allowedSettlementAssets = w.market.allowedSettlementAssets := by
  cases h with
  | setCollateralAssetAllowed _ _ | setSettlementAssetAllowed _ _ | emergencyWithdraw _ _ _ =>
    cases hcall
  | _ => exact ⟨rfl, rfl, rfl⟩

section Ownerless

variable {owner : Address} {tx : Tx} {txs : List Tx} {w w' : World}

/-- Nobody but its owner can make a call of the owner. -/
theorem Ownerless.refuses (hw : Ownerless owner w) (hsender : tx.env.sender ≠ owner)
    (hcall : tx.call.isOwnerCall = true) : ∃ e, exec tx w = .error e := by
  cases h : exec tx w with
  | error e => exact ⟨e, rfl⟩
  | ok w' => exact absurd (((exec_effect h).owner hcall).trans hw.owner_eq) hsender

/-- A call of somebody else leaves the market without an owner. -/
theorem exec_ownerless (hw : Ownerless owner w) (hsender : tx.env.sender ≠ owner)
    (h : exec tx w = .ok w') : Ownerless owner w' := by
  have hcall : tx.call.isOwnerCall = false := by
    rw [← Bool.not_eq_true]
    intro hcall
    obtain ⟨e, he⟩ := hw.refuses hsender hcall
    rw [h] at he
    cases he
  obtain ⟨howner, hcollateral, hsettlement⟩ := (exec_effect h).assets hcall
  refine ⟨howner.trans hw.owner_eq, ?_, ?_, fun t ht => ?_⟩
  · rw [hcollateral]
    exact hw.collateral_iff
  · rw [hsettlement]
    exact hw.settlement_iff
  · rcases (exec_effect h).position_origin ht with ⟨hex, hentry⟩ | ⟨o, -, ho, -, hp⟩
    · obtain ⟨hcollateral, hsettlement⟩ := hw.native t hex
      exact ⟨(congrArg Position.collateralAsset hentry).trans hcollateral,
        (congrArg Position.settlementAsset hentry).trans hsettlement⟩
    -- A new position is of assets that are allowed.
    · rw [hp]
      exact ⟨(hw.collateral_iff _).mp ho.collateral_allowed,
        (hw.settlement_iff _).mp ho.settlement_allowed⟩

/-- What a run of calls of others leaves without an owner. -/
theorem run_ownerless (run : GuardedRun exec (fun tx _ => tx.env.sender ≠ owner) w txs w')
    (hw : Ownerless owner w) : Ownerless owner w' :=
  run.invariant (fun _ _ _ hsender hw h => exec_ownerless hw hsender h) hw

/-! ## The value of an opening -/

/-- A call by which a trader opens a position. -/
def Tx.Opens (t : Address) (tx : Tx) : Prop := tx.call.inflow = some .opened ∧ tx.env.sender = t

instance (t : Address) (tx : Tx) : Decidable (tx.Opens t) := inferInstanceAs (Decidable (_ ∧ _))

/-- The values of the calls by which a trader opens a position. -/
def openingValues (t : Address) (txs : List Tx) : List Uint256 :=
  (txs.filter fun tx => tx.Opens t).map fun tx => tx.env.value

/-- A call adds its value if it opens a position of the trader. -/
theorem openingValues_cons (t : Address) (tx : Tx) (txs : List Tx) :
    openingValues t (tx :: txs) =
      (if tx.Opens t then [tx.env.value] else []) ++ openingValues t txs := by
  unfold openingValues
  by_cases h : tx.Opens t <;> simp [h]

/-- A successful opening call of a trader opens its first position. -/
theorem Tx.Opens.effect {t : Address} (ht : tx.Opens t) (h : exec tx w = .ok w') :
    ∃ o, Openable tx.env o w.market ∧ (w.market.positions t).exists = false ∧
      w'.market.positions t = o.position := by
  obtain ⟨hinflow, rfl⟩ := ht
  have heffect := exec_effect h
  obtain ⟨env, call, rejection⟩ := tx
  simp only at heffect hinflow ⊢
  cases heffect with
  | @opened _ o _ _ order openable =>
    exact ⟨o, openable, openable.fresh, Function.update_self _ _ _⟩
  | _ => cases hinflow

/-- A trader with a position does not open another. -/
theorem openingValues_of_exists {t : Address} (run : Run exec w txs w')
    (ht : (w.market.positions t).exists = true) : openingValues t txs = [] := by
  have hnone : ∀ tx ∈ txs, ¬ tx.Opens t := by
    refine run.forall_mem (I := fun w => (w.market.positions t).exists = true)
      (Q := fun tx => ¬ tx.Opens t) ?_ ?_ ht
    · intro tx w w' _ hex h
      exact (congrArg Position.exists ((exec_effect h).entry hex)).trans hex
    · intro tx w w' _ hex h hopens
      obtain ⟨o, -, hfresh, -⟩ := hopens.effect h
      rw [hfresh] at hex
      cases hex
  unfold openingValues
  rw [List.filter_eq_nil_iff.mpr fun tx htx => by simpa using hnone tx htx, List.map_nil]

/-- **The value of an opening**: in a run of calls of others, a trader without a position that has one
at the end opened it once, with its collateral as the value. -/
theorem run_openingValues {t : Address}
    (run : GuardedRun exec (fun tx _ => tx.env.sender ≠ owner) w txs w') (hw : Ownerless owner w)
    (hnew : (w.market.positions t).exists = false)
    (ht : (w'.market.positions t).exists = true) :
    openingValues t txs = [(w'.market.positions t).collateral] := by
  induction run with
  | nil w =>
    rw [hnew] at ht
    cases ht
  | @cons w w₁ w₂ tx txs hsender accepted rest ih =>
    have hrun : Run exec w₁ txs w₂ := rest.guarded fun _ _ _ => trivial
    by_cases hopens : tx.Opens t
    · obtain ⟨o, ho, -, hp⟩ := hopens.effect accepted
      have hex : (w₁.market.positions t).exists = true := by rw [hp]; rfl
      have hkept := congrArg Position.collateral (run_entry hrun hex)
      have hvalue : tx.env.value = o.collateralAmount := by
        have hnative := (hw.collateral_iff _).mp ho.collateral_allowed
        rw [ho.value_eq, Order.nativeAmount, if_pos hnative]
      have hcollateral : (w₂.market.positions t).collateral = tx.env.value := by
        rw [hvalue]
        exact hkept.trans (congrArg Position.collateral hp)
      rw [openingValues_cons, if_pos hopens, openingValues_of_exists hrun hex, hcollateral,
        List.append_nil]
    · have hnew₁ : (w₁.market.positions t).exists = false := by
        rw [← Bool.not_eq_true]
        intro hex
        rcases (exec_effect accepted).position_origin hex with ⟨hex₀, -⟩ | ⟨o, horder, -, rfl, -⟩
        · rw [hnew] at hex₀
          cases hex₀
        · exact hopens ⟨(body_of_order horder).2, rfl⟩
      rw [openingValues_cons, if_neg hopens, List.nil_append]
      exact ih (exec_ownerless hw hsender accepted) hnew₁ ht

end Ownerless

/-- What takes money out of a market: a removal of liquidity, a claim after the settlement, or the
owner's withdrawal. -/
theorem Effect.outflow_cases {env : Env} {call : Call} {w w' : World} (h : Effect env call w w')
    (hlt : w'.market.balance < w.market.balance) :
    (∃ amount, call = .removeLiquidity amount) ∨
      (call = .claimPayout ∧ w.market.isSettled = true) ∨ call = .emergencyWithdraw := by
  cases h with
  | removeLiquidity _ _ _ _ => exact .inl ⟨_, rfl⟩
  | claimPayout _ _ claimable => exact .inr (.inl ⟨rfl, claimable.settled⟩)
  | emergencyWithdraw _ _ _ => exact .inr (.inr rfl)
  | opened _ _ | addLiquidity _ _ _ | receive =>
    exact absurd hlt (Nat.not_lt.mpr (Nat.le_add_right _ _))
  | _ => exact absurd hlt (Nat.lt_irrefl _)

/-! ## The markets of a factory -/

/-- The calls of one market among the messages. -/
def callsTo (market : Address) (msgs : List Message) : List Tx :=
  msgs.filterMap fun
    | .createMarket _ _ _ => none
    | .call a tx => if a = market then some tx else none

/-- The markets as components of the system, where nobody sends messages in the name of the
factory. -/
def factoryFamily (self : Address) :
    Family (Chain.step self) (fun msg _ => msg.env.sender ≠ self) exec
      (fun tx _ => tx.env.sender ≠ self) Address where
  component := Chain.markets
  target
    | .createMarket _ _ _ => none
    | .call market tx => some (market, tx)
  Created w := ∃ d, d.env.sender = self ∧ deploy d = .ok w
  passed := by
    intro msg c c' market tx hsender h htarget
    cases msg with
    | createMarket env params address => cases htarget
    | call a tx' =>
      cases htarget
      obtain ⟨w, w', hw, hw', rfl⟩ := step_call.mp h
      exact ⟨w, w', hw, hsender, hw', rfl⟩
  kept := by
    intro msg c c' market w _ h htarget hw
    cases msg with
    | call a tx => cases htarget
    | createMarket env params address =>
      obtain ⟨-, hnone, -, w', -, rfl⟩ := step_createMarket.mp h
      have hne : market ≠ address := by
        rintro rfl
        rw [hnone] at hw
        cases hw
      exact (Function.update_of_ne hne _ _).trans hw
  created := by
    intro msg c c' market w _ h htarget hnone hw
    rcases step_market_cases h hw with hkept | ⟨env, params, -, -, hw'⟩ | ⟨tx, w', rfl, -, -⟩
    · rw [hnone] at hkept
      cases hkept
    · exact ⟨_, rfl, hw'⟩
    · cases htarget

/-- What the messages pass on to a market is the calls of it. -/
theorem factoryFamily_inputs (self market : Address) (msgs : List Message) :
    (factoryFamily self).inputs market msgs = callsTo market msgs := by
  unfold Family.inputs callsTo
  apply List.filterMap_congr
  intro msg _
  cases msg <;> rfl

section Factory

variable {self : Address} {env : Env} {c₀ c : Chain} {msgs : List Message}

/-- The calls of a market of a factory, from its deployment by the factory on. -/
theorem run_callsTo (h₀ : deployFactory env = .ok c₀)
    (run : GuardedRun (Chain.step self) (fun msg _ => msg.env.sender ≠ self) c₀ msgs c)
    {market : Address} {w : World} (hw : c.markets market = some w) :
    ∃ d w₀, d.env.sender = self ∧ deploy d = .ok w₀ ∧
      GuardedRun exec (fun tx _ => tx.env.sender ≠ self) w₀ (callsTo market msgs) w := by
  obtain ⟨-, -, hempty⟩ := deployFactory_consistent h₀
  obtain ⟨w₀, ⟨d, hd, hw₀⟩, hrun⟩ := (factoryFamily self).run_of_none run (hempty market) hw
  rw [factoryFamily_inputs] at hrun
  exact ⟨d, w₀, hd, hw₀, hrun⟩

/-- Only a call of a market takes money out of it, and only a removal or a claim. -/
theorem step_outflow {msg : Message} {c' : Chain} {market : Address} {w w' : World}
    (hw : c.markets market = some w) (hself : w.market.owner = self)
    (hsender : msg.env.sender ≠ self) (h : Chain.step self msg c = .ok c')
    (hw' : c'.markets market = some w') (hlt : w'.market.balance < w.market.balance) :
    ∃ tx, msg = .call market tx ∧ ((∃ amount, tx.call = .removeLiquidity amount) ∨
      tx.call = .claimPayout ∧ w.market.isSettled = true) := by
  rcases step_market_cases h hw' with hkept | ⟨env, params, -, hnone, -⟩ | ⟨tx, u, rfl, hu, hexec⟩
  · cases hw.symm.trans hkept
    exact absurd hlt (Nat.lt_irrefl _)
  · rw [hw] at hnone
    cases hnone
  · cases hu.symm.trans hw
    refine ⟨tx, rfl, ?_⟩
    rcases (exec_effect hexec).outflow_cases hlt with hremoval | hclaim | hdrain
    · exact .inl hremoval
    · exact .inr hclaim
    · have howner := (exec_effect hexec).owner (by rw [hdrain]; rfl)
      exact absurd (howner.trans hself) hsender

end Factory

end GasCap
