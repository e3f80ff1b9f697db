import GasCap.Execution
import GasCap.Spec

/-!
# What a call can do

`Effect env call w w'` lists, call by call, when a call succeeds and what it makes of the market and
the journal; the event log is left open. `exec_effect` says that a successful call has its effect,
`exec_of_effect` that a call with an effect succeeds if the recipient of its transfer accepts, and
`preserves_of_effect` that what every effect preserves is preserved by calls whose recipients call
back. Every invariant is proved by cases on `Effect`, and no later proof unfolds a function of the
market.
-/

namespace GasCap

open Machine

/-- The order that an opening call places. -/
def Call.order (env : Env) : Call → Option Order
  | .mintLong quantity leverage marginMode =>
    some (mintOrder env true quantity leverage marginMode)
  | .mintShort quantity leverage marginMode =>
    some (mintOrder env false quantity leverage marginMode)
  | .openCustomPosition c =>
    match EntryType.ofUint8 c.entryType with
    | .ok entryType => some (c.order entryType)
    | .error _ => none
  | _ => none

/-- When a call succeeds, and the market and the journal that it leaves. -/
inductive Effect (env : Env) : Call → World → World → Prop
  | registerUser {username metadataURI w events} (value : env.value = 0)
      (fresh : (w.market.users env.sender).isRegistered = false) :
      Effect env (.registerUser username metadataURI) w
        ⟨{ w.market with
            users := Function.update w.market.users env.sender
              ⟨true, username, metadataURI, env.timestamp, env.timestamp⟩ },
          w.journal, events⟩
  | login {w events} (value : env.value = 0)
      (registered : (w.market.users env.sender).isRegistered = true) :
      Effect env .login w
        ⟨{ w.market with
            users := Function.update w.market.users env.sender
              { w.market.users env.sender with lastLoginAt := env.timestamp } },
          w.journal, events⟩
  | setCollateralAssetAllowed {asset allowed w events} (value : env.value = 0)
      (owner : env.sender = w.market.owner) :
      Effect env (.setCollateralAssetAllowed asset allowed) w
        ⟨{ w.market with
            allowedCollateralAssets :=
              Function.update w.market.allowedCollateralAssets asset allowed },
          w.journal, events⟩
  | setSettlementAssetAllowed {asset allowed w events} (value : env.value = 0)
      (owner : env.sender = w.market.owner) :
      Effect env (.setSettlementAssetAllowed asset allowed) w
        ⟨{ w.market with
            allowedSettlementAssets :=
              Function.update w.market.allowedSettlementAssets asset allowed },
          w.journal, events⟩
  | opened {call o w events} (order : call.order env = some o) (openable : Openable env o w.market) :
      Effect env call w
        ⟨{ w.market.opened env.sender o with
            balance := w.market.balance + env.value.toNat },
          ⟨.opened, env.sender, env.value.toNat⟩ :: w.journal, events⟩
  | addLiquidity {w events} {provided totalLiquidity : Uint256} (value : 0 < env.value)
      (provided_eq : provided.toNat =
        (w.market.liquidityProvided env.sender).toNat + env.value.toNat)
      (total_eq : totalLiquidity.toNat = w.market.totalLiquidity.toNat + env.value.toNat) :
      Effect env .addLiquidity w
        ⟨{ w.market with
            liquidityProviders :=
              if w.market.liquidityProvided env.sender = 0 then
                w.market.liquidityProviders ++ [env.sender]
              else w.market.liquidityProviders
            liquidityProvided := Function.update w.market.liquidityProvided env.sender provided
            totalLiquidity := totalLiquidity
            balance := w.market.balance + env.value.toNat },
          ⟨.added, env.sender, env.value.toNat⟩ :: w.journal, events⟩
  | removeLiquidity {amount w events} {provided totalLiquidity : Uint256} (value : env.value = 0)
      (provided_eq : provided.toNat + amount.toNat =
        (w.market.liquidityProvided env.sender).toNat)
      (total_eq : totalLiquidity.toNat + amount.toNat = w.market.totalLiquidity.toNat)
      (enough : amount.toNat ≤ w.market.balance) :
      Effect env (.removeLiquidity amount) w
        ⟨{ w.market with
            liquidityProvided := Function.update w.market.liquidityProvided env.sender provided
            totalLiquidity := totalLiquidity
            balance := w.market.balance - amount.toNat },
          ⟨.removed, env.sender, amount.toNat⟩ :: w.journal, events⟩
  | settleContract {w events} {price timestamp : Uint256} (value : env.value = 0)
      (expired : w.market.expiryTimestamp ≤ env.timestamp) (unsettled : w.market.isSettled = false)
      (price_eq : _getGasPriceWithFallback env = .ok (price, timestamp))
      (expiry_ge : 3600 ≤ w.market.expiryTimestamp.toNat)
      (recent : w.market.expiryTimestamp.toNat ≤ timestamp.toNat + 3600) :
      Effect env .settleContract w
        ⟨{ w.market with
            settlementPrice := price, settlementTimestamp := timestamp, isSettled := true },
          w.journal, events⟩
  | claimNothing {w events} (value : env.value = 0)
      (claimable : Claimable w.market env.sender 0) :
      Effect env .claimPayout w ⟨w.market.closed env.sender, w.journal, events⟩
  | claimPayout {w events} {payout : Uint256} (value : env.value = 0) (pos : 0 < payout)
      (claimable : Claimable w.market env.sender payout) :
      Effect env .claimPayout w
        ⟨{ w.market.closed env.sender with balance := w.market.balance - payout.toNat },
          ⟨.claimed, env.sender, payout.toNat⟩ :: w.journal, events⟩
  | emergencyWithdraw {w events} (value : env.value = 0) (owner : env.sender = w.market.owner)
      (unsettled : w.market.isSettled = false) :
      Effect env .emergencyWithdraw w
        ⟨{ w.market with balance := 0 },
          ⟨.drained, w.market.owner, w.market.balance⟩ :: w.journal, events⟩
  | receive {w events} :
      Effect env .receive w
        ⟨{ w.market with balance := w.market.balance + env.value.toNat },
          ⟨.donated, env.sender, env.value.toNat⟩ :: w.journal, events⟩

/-- An effect leaves the event log open. -/
theorem Effect.congr {env : Env} {call : Call} {w w₁ w₂ : World} (h : Effect env call w w₁)
    (hm : w₂.market = w₁.market) (hj : w₂.journal = w₁.journal) : Effect env call w w₂ := by
  obtain ⟨m, j, events⟩ := w₂
  simp only at hm hj
  subst hm hj
  cases h with
  | registerUser value fresh => exact .registerUser value fresh
  | login value registered => exact .login value registered
  | setCollateralAssetAllowed value owner => exact .setCollateralAssetAllowed value owner
  | setSettlementAssetAllowed value owner => exact .setSettlementAssetAllowed value owner
  | opened order openable => exact .opened order openable
  | addLiquidity value provided_eq total_eq => exact .addLiquidity value provided_eq total_eq
  | removeLiquidity value provided_eq total_eq enough =>
    exact .removeLiquidity value provided_eq total_eq enough
  | settleContract value expired unsettled price_eq expiry_ge recent =>
    exact .settleContract value expired unsettled price_eq expiry_ge recent
  | claimNothing value claimable => exact .claimNothing value claimable
  | claimPayout value pos claimable => exact .claimPayout value pos claimable
  | emergencyWithdraw value owner unsettled => exact .emergencyWithdraw value owner unsettled
  | receive => exact .receive

/-! ## Entering a call -/

/-- A market does not look at its balance to open a position. -/
theorem Openable.credit {env : Env} {o : Order} {m : Market} {b : ℕ} :
    Openable env o { m with balance := b } ↔ Openable env o m := by
  constructor
  · rintro ⟨h1, h2, h3, h4, h5, h6, h7, h8, h9, h10, h11, h12⟩
    exact ⟨h1, h2, h3, h4, h5, h6, h7, h8, h9, h10, h11, h12⟩
  · rintro ⟨h1, h2, h3, h4, h5, h6, h7, h8, h9, h10, h11, h12⟩
    exact ⟨h1, h2, h3, h4, h5, h6, h7, h8, h9, h10, h11, h12⟩

/-- A call that is not payable is entered when it comes without value, its function returns a frame,
and the frame's transfer can be made. -/
theorem enter_eq_ok_of_none {tx : Tx} {w : World} {p : Progress World}
    (hi : tx.call.inflow = none) :
    enter tx w = .ok p ↔ tx.env.value = 0 ∧ ∃ frame,
      tx.call.body tx.env w.market = .ok frame ∧ depart frame w.journal w.events = .ok p := by
  simp only [enter, arrive, hi, Checked.bind_eq_ok, Checked.ensure_eq_ok, Checked.pure_eq_ok]
  constructor
  · rintro ⟨arrived, ⟨-, hv, rfl⟩, frame, hb, hd⟩
    rw [hv] at hb
    exact ⟨hv, frame, hb, hd⟩
  · rintro ⟨hv, frame, hb, hd⟩
    refine ⟨[], ⟨(), hv, rfl⟩, frame, ?_, hd⟩
    rw [hv]
    exact hb

/-- A payable call is entered when its function returns a frame on the market with its value, and
the frame's transfer can be made. -/
theorem enter_eq_ok_of_some {tx : Tx} {w : World} {p : Progress World} {flow : Flow}
    (hi : tx.call.inflow = some flow) :
    enter tx w = .ok p ↔ ∃ frame,
      tx.call.body tx.env { w.market with balance := w.market.balance + tx.env.value.toNat } =
        .ok frame ∧
      depart frame (⟨flow, tx.env.sender, tx.env.value.toNat⟩ :: w.journal) w.events = .ok p := by
  simp only [enter, arrive, hi, Checked.bind_eq_ok, Except.ok.injEq, exists_eq_left',
    List.singleton_append]

/-- A frame with a transfer hands over control, with the money moved, if the market has it. -/
theorem depart_some {m : Market} {payment : Movement} {event : Option Event}
    {journal : List Movement} {events : List Event} {p : Progress World} :
    depart ⟨m, some payment, event⟩ journal events = .ok p ↔
      payment.amount ≤ m.balance ∧
        p = .callout ⟨{ m with balance := m.balance - payment.amount }, payment :: journal, events⟩
          fun w => { w with events := event.toList ++ w.events } := by
  rw [depart, Checked.ensure_bind_eq_ok, Checked.pure_eq_ok]

/-- What a call does after its callout is known before it. -/
theorem depart_resume {frame : Frame} {journal : List Movement} {events : List Event} {s : World}
    {resume : World → World} (h : depart frame journal events = .ok (.callout s resume))
    (v : World) : (resume v).market = v.market ∧ (resume v).journal = v.journal := by
  obtain ⟨m, payment, event⟩ := frame
  cases payment with
  | none => cases h
  | some payment =>
    obtain ⟨-, hp⟩ := depart_some.mp h
    cases hp
    exact ⟨rfl, rfl⟩

/-- After its callout a call only adds to the event log. -/
theorem enter_resume {tx : Tx} {w s : World} {resume : World → World}
    (h : enter tx w = .ok (.callout s resume)) (v : World) :
    (resume v).market = v.market ∧ (resume v).journal = v.journal := by
  cases hi : tx.call.inflow with
  | none =>
    obtain ⟨-, frame, -, hd⟩ := (enter_eq_ok_of_none hi).mp h
    exact depart_resume hd v
  | some flow =>
    obtain ⟨frame, -, hd⟩ := (enter_eq_ok_of_some hi).mp h
    exact depart_resume hd v

/-- An opening call runs `_openPosition` on its order. -/
theorem body_of_order {env : Env} {call : Call} {o : Order} (h : call.order env = some o) :
    call.body env = _openPosition env o ∧ call.inflow = some .opened := by
  cases call with
  | mintLong quantity leverage marginMode => cases h; exact ⟨rfl, rfl⟩
  | mintShort quantity leverage marginMode => cases h; exact ⟨rfl, rfl⟩
  | openCustomPosition c =>
    refine ⟨?_, rfl⟩
    funext m
    simp only [Call.order] at h
    split at h
    · rename_i entryType he
      cases h
      rw [Call.body, openCustomPosition, he]
      rfl
    · cases h
  | _ => cases h

/-- A successful opening call places an order. -/
theorem order_of_body {env : Env} {call : Call} {m : Market} {frame : Frame}
    (hi : call.inflow = some .opened) (h : call.body env m = .ok frame) :
    ∃ o, call.order env = some o := by
  cases call with
  | mintLong quantity leverage marginMode => exact ⟨_, rfl⟩
  | mintShort quantity leverage marginMode => exact ⟨_, rfl⟩
  | openCustomPosition c =>
    obtain ⟨entryType, he, -⟩ := Checked.bind_eq_ok.mp h
    exact ⟨c.order entryType, by rw [Call.order, he]⟩
  | _ => cases hi

/-- An opening call that is entered has its effect. -/
theorem enter_opened {tx : Tx} {w : World} {p : Progress World}
    (hi : tx.call.inflow = some .opened) (h : enter tx w = .ok p) :
    Effect tx.env tx.call w p.state := by
  obtain ⟨frame, hb, hd⟩ := (enter_eq_ok_of_some hi).mp h
  obtain ⟨o, ho⟩ := order_of_body hi hb
  rw [(body_of_order ho).1, _openPosition_eq_ok, Openable.credit] at hb
  obtain ⟨hopen, rfl⟩ := hb
  cases hd
  exact .opened ho hopen

/-- A call that is entered has its effect. -/
theorem enter_effect {tx : Tx} {w : World} {p : Progress World} (h : enter tx w = .ok p) :
    Effect tx.env tx.call w p.state := by
  obtain ⟨env, call, rejection⟩ := tx
  cases call with
  | registerUser username metadataURI =>
    obtain ⟨hv, frame, hb, hd⟩ := (enter_eq_ok_of_none rfl).mp h
    obtain ⟨fresh, rfl⟩ := registerUser_eq_ok.mp hb
    cases hd
    exact .registerUser hv fresh
  | login =>
    obtain ⟨hv, frame, hb, hd⟩ := (enter_eq_ok_of_none rfl).mp h
    obtain ⟨registered, rfl⟩ := login_eq_ok.mp hb
    cases hd
    exact .login hv registered
  | setCollateralAssetAllowed asset allowed =>
    obtain ⟨hv, frame, hb, hd⟩ := (enter_eq_ok_of_none rfl).mp h
    obtain ⟨owner, rfl⟩ := setCollateralAssetAllowed_eq_ok.mp hb
    cases hd
    exact .setCollateralAssetAllowed hv owner
  | setSettlementAssetAllowed asset allowed =>
    obtain ⟨hv, frame, hb, hd⟩ := (enter_eq_ok_of_none rfl).mp h
    obtain ⟨owner, rfl⟩ := setSettlementAssetAllowed_eq_ok.mp hb
    cases hd
    exact .setSettlementAssetAllowed hv owner
  | mintLong quantity leverage marginMode => exact enter_opened rfl h
  | mintShort quantity leverage marginMode => exact enter_opened rfl h
  | openCustomPosition order => exact enter_opened rfl h
  | addLiquidity =>
    obtain ⟨frame, hb, hd⟩ := (enter_eq_ok_of_some rfl).mp h
    obtain ⟨hv, provided, totalLiquidity, hp, ht, rfl⟩ := addLiquidity_eq_ok.mp hb
    cases hd
    exact .addLiquidity hv hp ht
  | removeLiquidity amount =>
    obtain ⟨hv, frame, hb, hd⟩ := (enter_eq_ok_of_none rfl).mp h
    obtain ⟨provided, totalLiquidity, hp, ht, rfl⟩ := removeLiquidity_eq_ok.mp hb
    obtain ⟨enough, rfl⟩ := depart_some.mp hd
    exact .removeLiquidity hv hp ht enough
  | settleContract =>
    obtain ⟨hv, frame, hb, hd⟩ := (enter_eq_ok_of_none rfl).mp h
    obtain ⟨price, timestamp, h1, h2, h3, h4, h5, rfl⟩ := settleContract_eq_ok.mp hb
    cases hd
    exact .settleContract hv h1 h2 h3 h4 h5
  | claimPayout =>
    obtain ⟨hv, frame, hb, hd⟩ := (enter_eq_ok_of_none rfl).mp h
    obtain ⟨payout, claimable, rfl⟩ := claimPayout_eq_ok.mp hb
    -- A claim without a payout makes no transfer, so it is another effect.
    split_ifs at hd with hpos
    · obtain ⟨enough, rfl⟩ := depart_some.mp hd
      exact .claimPayout hv hpos claimable
    · cases hd
      obtain rfl : payout = 0 := by simpa using hpos
      exact .claimNothing hv claimable
  | emergencyWithdraw =>
    obtain ⟨hv, frame, hb, hd⟩ := (enter_eq_ok_of_none rfl).mp h
    obtain ⟨owner, unsettled, rfl⟩ := emergencyWithdraw_eq_ok.mp hb
    obtain ⟨enough, rfl⟩ := depart_some.mp hd
    simp only [Progress.state, Nat.sub_self]
    exact .emergencyWithdraw hv owner unsettled
  | receive =>
    obtain ⟨frame, hb, hd⟩ := (enter_eq_ok_of_some rfl).mp h
    cases hb
    cases hd
    exact .receive

/-- A call with an effect is entered and comes to it. -/
theorem enter_of_effect {tx : Tx} {w w₁ : World} (h : Effect tx.env tx.call w w₁) :
    ∃ p, enter tx w = .ok p ∧ p.state.market = w₁.market ∧ p.state.journal = w₁.journal := by
  obtain ⟨env, call, rejection⟩ := tx
  cases h with
  | registerUser value fresh =>
    exact ⟨_, (enter_eq_ok_of_none rfl).mpr ⟨value, _, registerUser_eq_ok.mpr ⟨fresh, rfl⟩, rfl⟩,
      rfl, rfl⟩
  | login value registered =>
    exact ⟨_, (enter_eq_ok_of_none rfl).mpr ⟨value, _, login_eq_ok.mpr ⟨registered, rfl⟩, rfl⟩,
      rfl, rfl⟩
  | setCollateralAssetAllowed value owner =>
    exact ⟨_, (enter_eq_ok_of_none rfl).mpr
      ⟨value, _, setCollateralAssetAllowed_eq_ok.mpr ⟨owner, rfl⟩, rfl⟩, rfl, rfl⟩
  | setSettlementAssetAllowed value owner =>
    exact ⟨_, (enter_eq_ok_of_none rfl).mpr
      ⟨value, _, setSettlementAssetAllowed_eq_ok.mpr ⟨owner, rfl⟩, rfl⟩, rfl, rfl⟩
  | opened order openable =>
    obtain ⟨hbody, hi⟩ := body_of_order order
    have hcredit := (Openable.credit (b := w.market.balance + env.value.toNat)).mpr openable
    have hopen := _openPosition_eq_ok.mpr ⟨hcredit, rfl⟩
    exact ⟨_, (enter_eq_ok_of_some hi).mpr ⟨_, (congrFun hbody _).trans hopen, rfl⟩, rfl, rfl⟩
  | addLiquidity value provided_eq total_eq =>
    exact ⟨_, (enter_eq_ok_of_some rfl).mpr
      ⟨_, addLiquidity_eq_ok.mpr ⟨value, _, _, provided_eq, total_eq, rfl⟩, rfl⟩, rfl, rfl⟩
  | removeLiquidity value provided_eq total_eq enough =>
    exact ⟨_, (enter_eq_ok_of_none rfl).mpr ⟨value, _,
      removeLiquidity_eq_ok.mpr ⟨_, _, provided_eq, total_eq, rfl⟩, depart_some.mpr ⟨enough, rfl⟩⟩,
      rfl, rfl⟩
  | settleContract value expired unsettled price_eq expiry_ge recent =>
    exact ⟨_, (enter_eq_ok_of_none rfl).mpr ⟨value, _, settleContract_eq_ok.mpr
      ⟨_, _, expired, unsettled, price_eq, expiry_ge, recent, rfl⟩, rfl⟩, rfl, rfl⟩
  | claimNothing value claimable =>
    exact ⟨_, (enter_eq_ok_of_none rfl).mpr
      ⟨value, _, claimPayout_eq_ok.mpr ⟨0, claimable, rfl⟩, rfl⟩, rfl, rfl⟩
  | claimPayout value pos claimable =>
    have hbody := claimPayout_eq_ok.mpr ⟨_, claimable, rfl⟩
    rw [if_pos pos, if_pos pos] at hbody
    exact ⟨_, (enter_eq_ok_of_none rfl).mpr
      ⟨value, _, hbody, depart_some.mpr ⟨claimable.enough, rfl⟩⟩, rfl, rfl⟩
  | emergencyWithdraw value owner unsettled =>
    refine ⟨_, (enter_eq_ok_of_none rfl).mpr ⟨value, _,
      emergencyWithdraw_eq_ok.mpr ⟨owner, unsettled, rfl⟩, depart_some.mpr ⟨le_refl _, rfl⟩⟩, ?_, rfl⟩
    simp only [Progress.state, Nat.sub_self]
  | receive => exact ⟨_, (enter_eq_ok_of_some rfl).mpr ⟨_, rfl, rfl⟩, rfl, rfl⟩

/-! ## Executing a call -/

/-- A successful call has its effect. -/
theorem exec_effect {tx : Tx} {w w' : World} (h : exec tx w = .ok w') :
    Effect tx.env tx.call w w' := by
  rcases CallMachine.step_eq_ok.mp h with he | ⟨s, resume, he, -, rfl⟩
  · exact enter_effect he
  -- After the callout, only the event log changes.
  · obtain ⟨hm, hj⟩ := enter_resume he s
    exact (enter_effect he).congr hm hj

/-- A successful opening call opens the position of its order. -/
theorem exec_opened {tx : Tx} {w w' : World} {o : Order} (horder : tx.call.order tx.env = some o)
    (h : exec tx w = .ok w') :
    Openable tx.env o w.market ∧
      w'.market = { w.market.opened tx.env.sender o with
        balance := w.market.balance + tx.env.value.toNat } ∧
      w'.journal = ⟨.opened, tx.env.sender, tx.env.value.toNat⟩ :: w.journal := by
  obtain ⟨env, call, rejection⟩ := tx
  have heffect := exec_effect h
  simp only at heffect horder ⊢
  cases heffect with
  | opened order openable =>
    rw [order] at horder
    cases horder
    exact ⟨openable, rfl, rfl⟩
  | _ => cases horder

/-- A call with an effect succeeds, if the recipient of its transfer accepts. -/
theorem exec_of_effect (tx : Tx) {w w₁ : World} (h : Effect tx.env tx.call w w₁)
    (ha : tx.rejection = none) :
    ∃ w', exec tx w = .ok w' ∧ w'.market = w₁.market ∧ w'.journal = w₁.journal := by
  obtain ⟨p, hp, hm, hj⟩ := enter_of_effect h
  cases p with
  | done s => exact ⟨s, CallMachine.step_eq_ok.mpr (.inl hp), hm, hj⟩
  | callout s resume =>
    obtain ⟨hm', hj'⟩ := enter_resume hp s
    exact ⟨resume s, CallMachine.step_eq_ok.mpr (.inr ⟨s, resume, hp, ha, rfl⟩), hm'.trans hm,
      hj'.trans hj⟩

/-- A call that is not payable fails with the error of its function. -/
theorem exec_error_of_body {tx : Tx} {w : World} {e : Revert} (hi : tx.call.inflow = none)
    (hv : tx.env.value = 0) (hb : tx.call.body tx.env w.market = .error e) :
    exec tx w = .error e := by
  have harrive : arrive tx = .ok [] := by
    unfold arrive
    rw [hi]
    exact Checked.ensure_bind_of_pos hv
  have hmarket : { w.market with balance := w.market.balance + tx.env.value.toNat } = w.market := by
    rw [hv]
    rfl
  apply CallMachine.step_error_of_enter
  show enter tx w = .error e
  unfold enter
  rw [harrive]
  show (tx.call.body tx.env { w.market with
    balance := w.market.balance + tx.env.value.toNat } >>= _) = _
  rw [hmarket, hb]
  rfl

/-- What every effect preserves, calls preserve even if their recipients call back, as long as it
does not depend on the event log. -/
theorem preserves_of_effect {I : World → Prop}
    (heffect : ∀ {env call w w'}, I w → Effect env call w w' → I w')
    (hevents : ∀ {w w' : World}, I w → w'.market = w.market → w'.journal = w.journal → I w') :
    machine.Preserves (fun _ => True) I where
  done h he := heffect h (enter_effect he)
  handover h he _ := heffect h (enter_effect he)
  resume h he := hevents h (enter_resume he _).1 (enter_resume he _).2

/-- No call changes the strike or the expiry. -/
theorem Effect.strike_expiry {env : Env} {call : Call} {w w' : World} (h : Effect env call w w') :
    w'.market.strikePrice = w.market.strikePrice ∧
      w'.market.expiryTimestamp = w.market.expiryTimestamp := by
  cases h <;> exact ⟨rfl, rfl⟩

/-! ## Deployment -/

/-- What every new market starts with. -/
structure Fresh (w : World) : Prop where
  positions : w.market.positions = fun _ => .none
  participants : w.market.participants = []
  isSettled : w.market.isSettled = false
  totalLiquidity : w.market.totalLiquidity = 0
  liquidityProvided : w.market.liquidityProvided = fun _ => 0
  balance : w.market.balance = 0
  journal : w.journal = []

/-- What the constructor writes besides. -/
structure Constructed (d : Deployment) (m : Market) : Prop where
  owner : m.owner = d.env.sender
  allowedCollateralAssets :
    m.allowedCollateralAssets = Function.update (fun _ => false) NATIVE_TOKEN true
  allowedSettlementAssets :
    m.allowedSettlementAssets = Function.update (fun _ => false) NATIVE_TOKEN true
  activeTraders : m.activeTraders = []
  isActiveTrader : m.isActiveTrader = fun _ => false
  liquidityProviders : m.liquidityProviders = []

/-- What a deployment starts with. -/
theorem deploy_spec {d : Deployment} {w : World} (h : deploy d = .ok w) :
    Fresh w ∧ Constructed d w.market ∧ w.market.contractCreator = d.env.sender := by
  obtain ⟨m, hm, hw⟩ := Checked.bind_eq_ok.mp h
  obtain rfl := Checked.pure_eq_ok.mp hw
  rw [construct, Checked.ensure_bind_eq_ok, Checked.bind_eq_ok] at hm
  obtain ⟨-, expiry, -, hm⟩ := hm
  obtain rfl := Checked.pure_eq_ok.mp hm
  exact ⟨⟨rfl, rfl, rfl, rfl, rfl, rfl, rfl⟩, ⟨rfl, rfl, rfl, rfl, rfl, rfl⟩, rfl⟩

/-- A deployment starts without positions, liquidity, and money. -/
theorem deploy_fresh {d : Deployment} {w : World} (h : deploy d = .ok w) : Fresh w :=
  (deploy_spec h).1

/-- What the constructor writes besides at a deployment. -/
theorem deploy_constructed {d : Deployment} {w : World} (h : deploy d = .ok w) :
    Constructed d w.market :=
  (deploy_spec h).2.1

/-- The creator of a market is the sender of its deployment. -/
theorem deploy_contractCreator {d : Deployment} {w : World} (h : deploy d = .ok w) :
    w.market.contractCreator = d.env.sender :=
  (deploy_spec h).2.2

/-- The strike of a market is that of its deployment, and the expiry the duration from then on. -/
theorem deploy_strike_expiry {d : Deployment} {w : World} (h : deploy d = .ok w) :
    w.market.strikePrice = d.strikePrice ∧
      w.market.expiryTimestamp.toNat = d.env.timestamp.toNat + d.expiryDuration.toNat := by
  obtain ⟨m, hm, hw⟩ := Checked.bind_eq_ok.mp h
  obtain rfl := Checked.pure_eq_ok.mp hw
  rw [construct, Checked.ensure_bind_eq_ok, Checked.bind_eq_ok] at hm
  obtain ⟨-, expiry, hexpiry, hm⟩ := hm
  obtain rfl := Checked.pure_eq_ok.mp hm
  exact ⟨rfl, Checked.add_eq_ok.mp hexpiry⟩

end GasCap
