import GasCap.Exit
import GasCap.Lib.Locality

/-!
# Calls of different users commute

What the calls of users before the settlement need is what their sender sees (`UserView`): the
settings of the market, which these calls never change, and the sender's own records. What they do to
the records of others is nothing, and to what all share they add: to the arrays at the end, and to
`totalLiquidity` and the balance a difference (`Acts`). A removal needs in addition that neither
`totalLiquidity` nor the balance is short of it. Both cover every entry as long as the market holds
what came in (`KeepsFunds`), so the removals of others do not matter. So the calls are the inputs of a
`LocalMachine` (`userMachine`), and two of different senders commute (`users_commute`).
-/

namespace GasCap

open Machine

/-! ## The calls of users -/

/-- The calls by which users register, log in, open positions, and move liquidity. -/
def Call.isUserCall : Call → Bool
  | .registerUser .. | .login | .mintLong .. | .mintShort .. | .openCustomPosition ..
  | .addLiquidity | .removeLiquidity .. => true
  | _ => false

/-- What no call of a user changes. -/
structure Settings where
  ftsoRegistry : Address
  owner : Address
  contractCreator : Address
  marketName : String
  marketDescription : String
  strikePrice : Uint256
  expiryTimestamp : Uint256
  settlementTimestamp : Uint256
  isSettled : Bool
  settlementPrice : Uint256
  allowedCollateralAssets : Address → Bool
  allowedSettlementAssets : Address → Bool

/-- The settings of a market. -/
def Market.settings (m : Market) : Settings where
  ftsoRegistry := m.ftsoRegistry
  owner := m.owner
  contractCreator := m.contractCreator
  marketName := m.marketName
  marketDescription := m.marketDescription
  strikePrice := m.strikePrice
  expiryTimestamp := m.expiryTimestamp
  settlementTimestamp := m.settlementTimestamp
  isSettled := m.isSettled
  settlementPrice := m.settlementPrice
  allowedCollateralAssets := m.allowedCollateralAssets
  allowedSettlementAssets := m.allowedSettlementAssets

/-- The settings of a market and the records of one user. -/
structure UserView where
  settings : Settings
  profile : UserProfile
  position : Position
  isActiveTrader : Bool
  provided : Uint256

/-- What a user sees of a market. -/
def Market.view (a : Address) (m : Market) : UserView where
  settings := m.settings
  profile := m.users a
  position := m.positions a
  isActiveTrader := m.isActiveTrader a
  provided := m.liquidityProvided a

/-! ## What a call of a user does -/

/-- The records that a call leaves its sender, and what it adds to the arrays and the pool. -/
structure Change where
  profile : UserProfile
  position : Position
  isActiveTrader : Bool
  provided : Uint256
  participants : List Address
  activeTraders : List Address
  liquidityProviders : List Address
  deposit : Uint256
  withdrawal : Uint256

/-- The change that leaves everything as it is. -/
def UserView.unchanged (v : UserView) : Change :=
  ⟨v.profile, v.position, v.isActiveTrader, v.provided, [], [], [], 0, 0⟩

/-- The change that a call makes, given what its sender sees. -/
def change (env : Env) (call : Call) (v : UserView) : Change :=
  match call with
  | .registerUser username metadataURI =>
    { v.unchanged with profile := ⟨true, username, metadataURI, env.timestamp, env.timestamp⟩ }
  | .login => { v.unchanged with profile := { v.profile with lastLoginAt := env.timestamp } }
  | .addLiquidity =>
    { v.unchanged with
      provided := v.provided + env.value
      liquidityProviders := if v.provided = 0 then [env.sender] else []
      deposit := env.value }
  | .removeLiquidity amount =>
    { v.unchanged with provided := v.provided - amount, withdrawal := amount }
  | call =>
    match call.order env with
    | none => v.unchanged
    | some o =>
      { v.unchanged with
        position := o.position
        isActiveTrader := true
        participants := [env.sender]
        activeTraders := if v.isActiveTrader then [] else [env.sender] }

/-- A change of a user's records and of what all share, with `value` coming in. -/
structure Acts (a : Address) (value : Uint256) (c : Change) (m m' : Market) : Prop where
  settings : m'.settings = m.settings
  users : m'.users = Function.update m.users a c.profile
  positions : m'.positions = Function.update m.positions a c.position
  isActiveTrader : m'.isActiveTrader = Function.update m.isActiveTrader a c.isActiveTrader
  liquidityProvided : m'.liquidityProvided = Function.update m.liquidityProvided a c.provided
  participants : m'.participants = m.participants ++ c.participants
  activeTraders : m'.activeTraders = m.activeTraders ++ c.activeTraders
  liquidityProviders : m'.liquidityProviders = m.liquidityProviders ++ c.liquidityProviders
  totalLiquidity : m'.totalLiquidity = m.totalLiquidity + c.deposit - c.withdrawal
  balance : m'.balance + c.withdrawal.toNat = m.balance + value.toNat

/-- Two markets that differ in the order of the three arrays at most. -/
structure SameUpToOrder (m m' : Market) : Prop where
  settings : m'.settings = m.settings
  users : m'.users = m.users
  positions : m'.positions = m.positions
  isActiveTrader : m'.isActiveTrader = m.isActiveTrader
  liquidityProvided : m'.liquidityProvided = m.liquidityProvided
  participants : m'.participants.Perm m.participants
  activeTraders : m'.activeTraders.Perm m.activeTraders
  liquidityProviders : m'.liquidityProviders.Perm m.liquidityProviders
  totalLiquidity : m'.totalLiquidity = m.totalLiquidity
  balance : m'.balance = m.balance

/-- Other users see nothing of a change. -/
theorem Acts.frame {a b : Address} {value : Uint256} {c : Change} {m m' : Market}
    (h : Acts b value c m m') (hne : a ≠ b) : m'.view a = m.view a := by
  unfold Market.view
  rw [h.settings, h.users, h.positions, h.isActiveTrader, h.liquidityProvided]
  simp only [Function.update_of_ne hne]

/-- Elements added to an array in two orders. -/
theorem append_comm_perm {α : Type} (xs ys zs : List α) : (xs ++ ys ++ zs).Perm (xs ++ zs ++ ys) := by
  rw [List.append_assoc, List.append_assoc]
  exact List.perm_append_comm.append_left xs

/-- The changes of two users can be made in either order. -/
theorem Acts.comm {a b : Address} {va vb : Uint256} {ca cb : Change} {m m₁ m₂ m₁₂ m₂₁ : Market}
    (hne : a ≠ b) (h₁ : Acts a va ca m m₁) (h₁₂ : Acts b vb cb m₁ m₁₂) (h₂ : Acts b vb cb m m₂)
    (h₂₁ : Acts a va ca m₂ m₂₁) : SameUpToOrder m₁₂ m₂₁ where
  settings := by rw [h₂₁.settings, h₂.settings, h₁₂.settings, h₁.settings]
  users := by rw [h₂₁.users, h₂.users, h₁₂.users, h₁.users, Function.update_comm hne]
  positions := by
    rw [h₂₁.positions, h₂.positions, h₁₂.positions, h₁.positions, Function.update_comm hne]
  isActiveTrader := by
    rw [h₂₁.isActiveTrader, h₂.isActiveTrader, h₁₂.isActiveTrader, h₁.isActiveTrader,
      Function.update_comm hne]
  liquidityProvided := by
    rw [h₂₁.liquidityProvided, h₂.liquidityProvided, h₁₂.liquidityProvided, h₁.liquidityProvided,
      Function.update_comm hne]
  participants := by
    rw [h₂₁.participants, h₂.participants, h₁₂.participants, h₁.participants]
    exact append_comm_perm _ _ _
  activeTraders := by
    rw [h₂₁.activeTraders, h₂.activeTraders, h₁₂.activeTraders, h₁.activeTraders]
    exact append_comm_perm _ _ _
  liquidityProviders := by
    rw [h₂₁.liquidityProviders, h₂.liquidityProviders, h₁₂.liquidityProviders,
      h₁.liquidityProviders]
    exact append_comm_perm _ _ _
  totalLiquidity := by
    rw [h₂₁.totalLiquidity, h₂.totalLiquidity, h₁₂.totalLiquidity, h₁.totalLiquidity]
    ring
  balance := by
    have hb₁ := h₁.balance
    have hb₁₂ := h₁₂.balance
    have hb₂ := h₂.balance
    have hb₂₁ := h₂₁.balance
    omega

/-- The change of an opening. -/
theorem change_of_order {env : Env} {call : Call} {o : Order} (h : call.order env = some o)
    (v : UserView) :
    change env call v =
      { v.unchanged with
        position := o.position
        isActiveTrader := true
        participants := [env.sender]
        activeTraders := if v.isActiveTrader then [] else [env.sender] } := by
  cases call with
  | mintLong _ _ _ | mintShort _ _ _ | openCustomPosition _ => simp only [change, h]
  | _ => cases h

/-- A call of a user makes its change. -/
theorem Effect.acts {env : Env} {call : Call} {w w' : World} (h : Effect env call w w')
    (hcall : call.isUserCall = true) :
    Acts env.sender env.value (change env call (w.market.view env.sender)) w.market w'.market := by
  cases h with
  | registerUser value _ | login value _ =>
    constructor <;> simp [change, UserView.unchanged, Market.view, Market.settings, value]
  | opened order _ =>
    rw [change_of_order order]
    by_cases hactive : w.market.isActiveTrader env.sender = true <;>
      constructor <;>
        simp [UserView.unchanged, Market.view, Market.settings, Market.opened, hactive]
  | addLiquidity _ provided_eq total_eq =>
    have hprovided := Checked.eq_add_of_toNat provided_eq
    have htotal := Checked.eq_add_of_toNat total_eq
    by_cases hzero : w.market.liquidityProvided env.sender = 0#256 <;>
      constructor <;>
        simp [change, UserView.unchanged, Market.view, Market.settings, hprovided, htotal, hzero]
  | removeLiquidity value provided_eq total_eq enough =>
    have hprovided := Checked.eq_sub_of_toNat provided_eq
    have htotal := Checked.eq_sub_of_toNat total_eq
    have hbalance := Nat.sub_add_cancel enough
    constructor <;>
      simp [change, UserView.unchanged, Market.view, Market.settings, value, hprovided, htotal,
        hbalance]
  | _ => cases hcall

/-! ## When a call of a user succeeds -/

/-- What a call of a user requires of its value and of what its sender sees. -/
def Enabled (env : Env) (call : Call) (m : Market) : Prop :=
  match call with
  | .registerUser _ _ => env.value = 0 ∧ (m.users env.sender).isRegistered = false
  | .login => env.value = 0 ∧ (m.users env.sender).isRegistered = true
  | .addLiquidity => 0 < env.value
  | .removeLiquidity amount => env.value = 0 ∧ amount ≤ m.liquidityProvided env.sender
  | call => ∃ o, call.order env = some o ∧ Openable env o m

/-- What an opening requires is visible to its sender. -/
theorem Openable.of_view {env : Env} {o : Order} {m m' : Market} (h : Openable env o m)
    (hview : m'.view env.sender = m.view env.sender) : Openable env o m' := by
  have hsettings : m'.settings = m.settings := congrArg UserView.settings hview
  have huser : m'.users env.sender = m.users env.sender := congrArg UserView.profile hview
  have hposition : m'.positions env.sender = m.positions env.sender :=
    congrArg UserView.position hview
  have hexpiry : m'.expiryTimestamp = m.expiryTimestamp :=
    congrArg Settings.expiryTimestamp hsettings
  have hsettled : m'.isSettled = m.isSettled := congrArg Settings.isSettled hsettings
  have hcollateral : m'.allowedCollateralAssets = m.allowedCollateralAssets :=
    congrArg Settings.allowedCollateralAssets hsettings
  have hsettlement : m'.allowedSettlementAssets = m.allowedSettlementAssets :=
    congrArg Settings.allowedSettlementAssets hsettings
  exact { h with
    beforeExpiry := hexpiry ▸ h.beforeExpiry
    notSettled := hsettled ▸ h.notSettled
    registered := huser ▸ h.registered
    fresh := hposition ▸ h.fresh
    collateral_allowed := hcollateral ▸ h.collateral_allowed
    settlement_allowed := hsettlement ▸ h.settlement_allowed }

/-- What a call of a user requires is visible to its sender. -/
theorem Enabled.of_view {env : Env} {call : Call} {m m' : Market} (h : Enabled env call m)
    (hview : m'.view env.sender = m.view env.sender) : Enabled env call m' := by
  have huser : m'.users env.sender = m.users env.sender := congrArg UserView.profile hview
  have hprovided : m'.liquidityProvided env.sender = m.liquidityProvided env.sender :=
    congrArg UserView.provided hview
  unfold Enabled at *
  split at h
  · rw [huser]
    exact h
  · rw [huser]
    exact h
  · exact h
  · rw [hprovided]
    exact h
  · obtain ⟨o, ho, hopen⟩ := h
    exact ⟨o, ho, hopen.of_view hview⟩

/-- A call that succeeds had what it requires. -/
theorem Effect.enabled {env : Env} {call : Call} {w w' : World} (h : Effect env call w w')
    (hcall : call.isUserCall = true) : Enabled env call w.market := by
  cases h with
  | registerUser value fresh => exact ⟨value, fresh⟩
  | login value registered => exact ⟨value, registered⟩
  | opened order openable =>
    cases call with
    | mintLong _ _ _ | mintShort _ _ _ | openCustomPosition _ => exact ⟨_, order, openable⟩
    | _ => cases order
  | addLiquidity value _ _ => exact value
  | removeLiquidity value provided_eq _ _ =>
    refine ⟨value, ?_⟩
    rw [BitVec.le_def]
    omega
  | _ => cases hcall

/-- A call that has what it requires succeeds in a market that holds what came in, as long as the
value fits the balance. -/
theorem Enabled.effect {env : Env} {call : Call} {w : World} (h : Enabled env call w.market)
    (hkeeps : KeepsFunds w) (hs : w.market.isSettled = false) (hcall : call.isUserCall = true)
    (hfits : w.market.balance + env.value.toNat < 2^256) : ∃ w', Effect env call w w' := by
  -- Every entry is within the pool, and the pool within the balance.
  have hentry := hkeeps.represented.entry_le env.sender
  have hpool := hkeeps.pool_le hs
  cases call with
  | registerUser username metadataURI =>
    exact ⟨⟨_, _, w.events⟩, .registerUser h.1 h.2⟩
  | login => exact ⟨⟨_, _, w.events⟩, .login h.1 h.2⟩
  | mintLong _ _ _ | mintShort _ _ _ | openCustomPosition _ =>
    obtain ⟨o, order, openable⟩ := h
    exact ⟨⟨_, _, w.events⟩, .opened order openable⟩
  | addLiquidity =>
    obtain ⟨provided, hprovided⟩ := Checked.exists_add (e := overflow)
      (x := w.market.liquidityProvided env.sender) (y := env.value) (by omega)
    obtain ⟨totalLiquidity, htotal⟩ := Checked.exists_add (e := overflow)
      (x := w.market.totalLiquidity) (y := env.value) (by omega)
    exact ⟨⟨_, _, w.events⟩,
      .addLiquidity h (Checked.add_eq_ok.mp hprovided) (Checked.add_eq_ok.mp htotal)⟩
  | removeLiquidity amount =>
    obtain ⟨hvalue, hle⟩ := h
    have hamount := BitVec.le_def.mp hle
    obtain ⟨provided, hprovided⟩ := Checked.exists_sub (e := overflow)
      (x := w.market.liquidityProvided env.sender) (y := amount) hamount
    obtain ⟨totalLiquidity, htotal⟩ := Checked.exists_sub (e := overflow)
      (x := w.market.totalLiquidity) (y := amount) (by omega)
    exact ⟨⟨_, _, w.events⟩, .removeLiquidity hvalue (Checked.sub_eq_ok.mp hprovided)
      (Checked.sub_eq_ok.mp htotal) (by omega)⟩
  | _ => cases hcall

/-! ## Two calls -/

/-- The states in which the call of a user only depends on what its sender sees. -/
structure Ready (tx : Tx) (w : World) : Prop where
  userCall : tx.call.isUserCall = true
  accepts : tx.rejection = none
  keepsFunds : KeepsFunds w
  unsettled : w.market.isSettled = false
  fits : w.market.balance + tx.env.value.toNat < 2^256

/-- The machine of the calls of users. -/
def userMachine : LocalMachine World Revert Tx Address UserView Market where
  step := exec
  obs := World.market
  agent tx := tx.env.sender
  view := Market.view
  Good := Ready
  Enabled tx := Enabled tx.env tx.call
  Acts tx v := Acts tx.env.sender tx.env.value (change tx.env tx.call v)
  Equiv := SameUpToOrder
  accepted := by
    intro tx w hready
    constructor
    · rintro ⟨w', h⟩
      exact (exec_effect h).enabled hready.userCall
    · intro h
      obtain ⟨w₁, heffect⟩ :=
        h.effect hready.keepsFunds hready.unsettled hready.userCall hready.fits
      obtain ⟨w', hw', -⟩ := exec_of_effect tx heffect hready.accepts
      exact ⟨w', hw'⟩
  acts hready h := (exec_effect h).acts hready.userCall
  enabled_congr hview := ⟨fun h => h.of_view hview.symm, fun h => h.of_view hview⟩
  frame hne h := h.frame hne
  comm hne h₁ h₁₂ h₂ h₂₁ := h₁.comm hne h₁₂ h₂ h₂₁

/-- After the call of another user, a call still only depends on what its sender sees. -/
theorem Ready.after {ta tb : Tx} {w w' : World} (ha : Ready ta w) (hb : Ready tb w)
    (hfits : w.market.balance + ta.env.value.toNat + tb.env.value.toNat < 2^256)
    (h : exec tb w = .ok w') : Ready ta w' := by
  have hacts := (exec_effect h).acts hb.userCall
  have hcall : tb.call ≠ .emergencyWithdraw := by
    intro heq
    have huser := hb.userCall
    rw [heq] at huser
    cases huser
  have hsettled : w'.market.isSettled = w.market.isSettled :=
    congrArg Settings.isSettled hacts.settings
  have hbalance := hacts.balance
  exact ⟨ha.userCall, ha.accepts, exec_keepsFunds hb.keepsFunds hcall h,
    hsettled.trans hb.unsettled, by omega⟩

/-- **Calls of different users commute before the settlement**: in every unsettled state of a run
without a withdrawal of the owner, where two accounts each make a call of a user, with a value that
they hold and as recipients that accept transfers, and the native supply fits a word, one call
succeeds if and only if it succeeds after the other one, whether that succeeds or not. If both succeed,
they do so in either order, and the two orders end in the same state up to the order of the arrays. -/
theorem users_commute {d : Deployment} {w₀ w : World} {txs : List Tx} (h₀ : deploy d = .ok w₀)
    (run : GuardedRun exec (fun tx _ => tx.call ≠ .emergencyWithdraw) w₀ txs w)
    (hs : w.market.isSettled = false) (ta tb : Tx) (hne : ta.env.sender ≠ tb.env.sender)
    (hcalla : ta.call.isUserCall = true) (hcallb : tb.call.isUserCall = true)
    (haccepta : ta.rejection = none) (hacceptb : tb.rejection = none) (wealth : Address → ℕ)
    (hsupply : w.market.balance + ∑ a, wealth a < 2^256)
    (hvaluea : ta.env.value.toNat ≤ wealth ta.env.sender)
    (hvalueb : tb.env.value.toNat ≤ wealth tb.env.sender) :
    ((∃ w', exec ta w = .ok w') ↔ ∃ w', exec ta (attempt exec tb w) = .ok w') ∧
    ∀ wa wb, exec ta w = .ok wa → exec tb w = .ok wb →
      ∃ wab wba, exec tb wa = .ok wab ∧ exec ta wb = .ok wba ∧
        SameUpToOrder wab.market wba.market := by
  have hkeeps : KeepsFunds w := run_keepsFunds h₀ run
  -- The two senders are different, so they hold both values together.
  have hpair : wealth ta.env.sender + wealth tb.env.sender ≤ ∑ a, wealth a := by
    rw [← Finset.sum_pair hne]
    exact Finset.sum_le_sum_of_subset (Finset.subset_univ _)
  have hfits : w.market.balance + ta.env.value.toNat + tb.env.value.toNat < 2^256 := by omega
  have hfits' : w.market.balance + tb.env.value.toNat + ta.env.value.toNat < 2^256 := by omega
  have ha : Ready ta w := ⟨hcalla, haccepta, hkeeps, hs, by omega⟩
  have hb : Ready tb w := ⟨hcallb, hacceptb, hkeeps, hs, by omega⟩
  constructor
  · unfold attempt
    split
    · rename_i wb hwb
      exact userMachine.accepted_iff hne ha hb hwb (ha.after hb hfits hwb)
    · exact Iff.rfl
  · intro wa wb hwa hwb
    exact userMachine.diamond hne ha hb hwa hwb (ha.after hb hfits hwb) (hb.after ha hfits' hwa)

/-- A provider removes its liquidity. -/
def earlyRemoval : Tx := ⟨quietEnv 4 0 1700000006, .removeLiquidity (10 * ether), none⟩

/-- Another provider deposits. -/
def newDeposit : Tx := ⟨quietEnv 5 ether 1700000006, .addLiquidity, none⟩

/-- In the sample run before the settlement, the removal and the deposit can be made in either
order. -/
theorem users_commute_sample :
    ∃ w wa wb wab wba, launch sampleDeployment sampleOpening = .ok w ∧
      exec earlyRemoval w = .ok wa ∧ exec newDeposit w = .ok wb ∧
      exec newDeposit wa = .ok wab ∧ exec earlyRemoval wb = .ok wba ∧
      SameUpToOrder wab.market wba.market := by
  obtain ⟨w, hw, hp⟩ := exists_launch sampleDeployment sampleOpening
    (fun w => decide (w.market.isSettled = false ∧
      w.market.balance + ether.toNat < 2^256) &&
      (exec earlyRemoval w).toOption.any (fun _ => true) &&
      (exec newDeposit w).toOption.any fun _ => true) (by decide +kernel)
  rw [Bool.and_eq_true, Bool.and_eq_true] at hp
  obtain ⟨⟨hstate, hremoval⟩, hdeposit⟩ := hp
  obtain ⟨hs, hsupply⟩ := of_decide_eq_true hstate
  obtain ⟨wa, hwa, -⟩ := Checked.exists_of_any hremoval
  obtain ⟨wb, hwb, -⟩ := Checked.exists_of_any hdeposit
  obtain ⟨w₀, h₀, run⟩ := launch_eq_ok.mp hw
  have hcalls : ∀ tx ∈ sampleOpening, tx.call ≠ .emergencyWithdraw := by decide
  -- Only the new provider has money to send.
  have hwealth : ∑ a, (if a = (5 : Address) then ether.toNat else 0) = ether.toNat := by
    rw [Finset.sum_ite_eq', if_pos (Finset.mem_univ _)]
  obtain ⟨-, hdiamond⟩ := users_commute h₀ (run.guarded fun tx htx _ => hcalls tx htx) hs
    earlyRemoval newDeposit (by decide) rfl rfl rfl rfl (fun a => if a = 5 then ether.toNat else 0)
    (by rw [hwealth]; exact hsupply) (by decide) (by decide)
  obtain ⟨wab, wba, hwab, hwba, hsame⟩ := hdiamond wa wb hwa hwb
  exact ⟨w, wa, wb, wab, wba, hw, hwa, hwb, hwab, hwba, hsame⟩

end GasCap
