import GasCap.Books
import GasCap.Lib.Clients
import GasCap.Stress
import GasCap.Traders
import GasCap.Views

/-!
# The scripts that open positions

`main` of `scripts/mint-long.js` and of `scripts/mint-short.js`. Any number of processes run one of the
two against the same market, some of them perhaps for the same account, in any interleaving with each
other and with all other calls of the market. Each looks before it acts: at the profile of its account
before it registers or logs in, at the state of the market, and at the position of the account before it
opens one. What it has seen may no longer be so when its transaction comes.

A registration and a position stay what they are, so a process that has its transaction confirmed reports
the position that it asked for, and it is the only one of its account (`mints_as_requested`,
`registrations_exclusive`). `mint_refusals` says what else can come between a check and the transaction.
What `mint-short.js` prints of the price is compared with what a settlement at that price pays in
`status_profit`.
-/

namespace GasCap

open Machine

/-! ## The scripts -/

/-- The script and the environment of a process. -/
structure MintRequest where
  /-- Whether it runs `mint-long.js`. -/
  isLong : Bool
  trader : Address
  username : String
  quantity : Uint256
  leverage : Uint256
  marginMode : BitVec 8
  collateral : Uint256

/-- The line of `mint-short.js` on the current price. -/
inductive MarketStatus
  /-- "Below strike (Short currently profitable)" -/
  | belowStrike
  /-- "Above strike (Long currently profitable)" -/
  | aboveStrike
  deriving DecidableEq

def marketStatus (currentPrice strikePrice : Uint256) : MarketStatus :=
  if currentPrice < strikePrice then .belowStrike else .aboveStrike

/-- Why a process stops before its end. -/
inductive MintStop
  /-- "Failed to check/register user" -/
  | registration (error : Revert)
  | noPrice (error : Revert)
  | expired
  | alreadySettled
  /-- "You already have a position!" -/
  | positionExists
  | insufficientBalance
  | transactionFailed (error : Revert)
  deriving DecidableEq

/-- How far a process is in its script. -/
inductive MintPhase
  | start
  | unregistered
  | member
  /-- "User registered", or "Login recorded on-chain" -/
  | entered
  /-- `mint-long.js` has found the market open. -/
  | marketOpen
  /-- `mint-short.js` has read the current price. -/
  | priced (currentPrice : Uint256)
  | ready
  | vacant
  | estimated
  /-- "Transaction confirmed" -/
  | confirmed
  | reported (position : Position)
  | stopped (reason : MintStop)

/-- A process: its request, whether its own transaction registered the account, what it has printed of
the price, and how far it is. -/
structure MintProcess where
  request : MintRequest
  registeredIt : Bool
  status : Option (Uint256 × MarketStatus)
  phase : MintPhase

/-- A process at its start. -/
def MintRequest.process (r : MintRequest) : MintProcess := ⟨r, false, none, .start⟩

/-- The transaction that opens the position. -/
def MintRequest.call (r : MintRequest) : Call :=
  if r.isLong then .mintLong r.quantity r.leverage r.marginMode
  else .mintShort r.quantity r.leverage r.marginMode

/-- The calls that the scripts make. Those that change the market are transactions, of which a failed
one changes nothing. The clock, the balance of the wallet, and the cost of the gas come from
elsewhere. -/
inductive MintCall
  | getUserProfile
  | registerUser (env : Env)
  | login (env : Env)
  | getContractState (now : ℕ)
  | getCurrentGasPrice (env : Env)
  | getPosition
  | estimateGas (env : Env) (balance gasCost : ℕ)
  | mint (env : Env)

/-- The next call of a process. A call out of the order of its script is not made. -/
def mintStep (call : MintCall) (t : MintProcess) (w : World) : Except Revert (MintProcess × World) :=
  let r := t.request
  match call, t.phase with
  | .getUserProfile, .start =>
    let profile := getUserProfile r.trader w.market
    if profile.isRegistered then return ({ t with phase := .member }, w)
    else return ({ t with phase := .unregistered }, w)
  | .registerUser env, .unregistered => do
    Checked.ensure .empty (env.value = 0 ∧ env.sender = r.trader)
    match exec ⟨env, .registerUser r.username "", none⟩ w with
    | .ok w' => return ({ t with phase := .entered, registeredIt := true }, w')
    | .error e => return ({ t with phase := .stopped (.registration e) }, w)
  | .login env, .member => do
    Checked.ensure .empty (env.value = 0 ∧ env.sender = r.trader)
    match exec ⟨env, .login, none⟩ w with
    | .ok w' => return ({ t with phase := .entered }, w')
    | .error e => return ({ t with phase := .stopped (.registration e) }, w)
  -- `mint-long.js` looks at the state first, `mint-short.js` at the price.
  | .getContractState now, .entered => do
    Checked.ensure .empty (r.isLong = true)
    let state := getContractState w.market
    if state.expiryTimestamp.toNat ≤ now then return ({ t with phase := .stopped .expired }, w)
    else if state.isSettled then return ({ t with phase := .stopped .alreadySettled }, w)
    else return ({ t with phase := .marketOpen }, w)
  | .getCurrentGasPrice env, .marketOpen =>
    match getCurrentGasPrice env with
    | .ok _ => return ({ t with phase := .ready }, w)
    | .error e => return ({ t with phase := .stopped (.noPrice e) }, w)
  | .getCurrentGasPrice env, .entered => do
    Checked.ensure .empty (r.isLong = false)
    match getCurrentGasPrice env with
    | .ok (currentPrice, _) => return ({ t with phase := .priced currentPrice }, w)
    | .error e => return ({ t with phase := .stopped (.noPrice e) }, w)
  | .getContractState now, .priced currentPrice =>
    let state := getContractState w.market
    let status := some (currentPrice, marketStatus currentPrice state.strikePrice)
    if state.expiryTimestamp.toNat ≤ now then
      return ({ t with phase := .stopped .expired, status := status }, w)
    else if state.isSettled then
      return ({ t with phase := .stopped .alreadySettled, status := status }, w)
    else return ({ t with phase := .ready, status := status }, w)
  | .getPosition, .ready =>
    let existing := getPosition r.trader w.market
    if existing.exists = true ∧ 0 < existing.quantity then
      return ({ t with phase := .stopped .positionExists }, w)
    else return ({ t with phase := .vacant }, w)
  | .estimateGas env balance gasCost, .vacant => do
    Checked.ensure .empty (env.value = r.collateral ∧ env.sender = r.trader)
    match exec ⟨env, r.call, none⟩ w with
    | .ok _ =>
      if balance < r.collateral.toNat + gasCost then
        return ({ t with phase := .stopped .insufficientBalance }, w)
      else return ({ t with phase := .estimated }, w)
    | .error e => return ({ t with phase := .stopped (.transactionFailed e) }, w)
  | .mint env, .estimated => do
    Checked.ensure .empty (env.value = r.collateral ∧ env.sender = r.trader)
    match exec ⟨env, r.call, none⟩ w with
    | .ok w' => return ({ t with phase := .confirmed }, w')
    | .error e => return ({ t with phase := .stopped (.transactionFailed e) }, w)
  | .getPosition, .confirmed =>
    return ({ t with phase := .reported (getPosition r.trader w.market) }, w)
  | _, _ => .error .empty

/-- Processes that open positions, among all other calls of the market. -/
def minters : Clients World MintProcess MintCall Tx Revert where
  client := mintStep
  other := exec

/-- The phases in which the account is known to be registered. -/
def MintPhase.isRegistered : MintPhase → Bool
  | .start | .unregistered | .stopped _ => false
  | _ => true

/-- The phases after the gas estimate. -/
def MintPhase.isEstimated : MintPhase → Bool
  | .estimated | .confirmed | .reported _ => true
  | _ => false

/-- The phases after the position is opened. -/
def MintPhase.isOpened : MintPhase → Bool
  | .confirmed | .reported _ => true
  | _ => false

/-- A position is opened after the gas estimate. -/
theorem isEstimated_of_isOpened {phase : MintPhase} (h : phase.isOpened = true) :
    phase.isEstimated = true := by
  cases phase with
  | confirmed | reported position => rfl
  | _ => cases h

/-- The gas is estimated for a registered account. -/
theorem isRegistered_of_isEstimated {phase : MintPhase} (h : phase.isEstimated = true) :
    phase.isRegistered = true := by
  cases phase with
  | estimated | confirmed | reported position => rfl
  | _ => cases h

/-- The price of a phase in which `mint-short.js` has read one. -/
def MintPhase.price : MintPhase → Option Uint256
  | .priced currentPrice => some currentPrice
  | _ => none

/-- The order of a request. -/
def MintRequest.order (r : MintRequest) : Order where
  isLong := r.isLong
  quantity := r.quantity
  leverage := r.leverage
  marginMode := .ofUint8 r.marginMode
  entryType := .MARKET
  limitPrice := 0
  stopPrice := 0
  collateralAsset := NATIVE_TOKEN
  settlementAsset := NATIVE_TOKEN
  collateralAmount := r.collateral

/-- The transaction places the order of the request. -/
theorem MintRequest.call_order (r : MintRequest) {env : Env} (hv : env.value = r.collateral) :
    r.call.order env = some r.order := by
  unfold MintRequest.call MintRequest.order
  cases r.isLong with
  | true =>
    rw [if_pos rfl, Call.order, mintOrder, hv]
  | false =>
    rw [if_neg Bool.false_ne_true, Call.order, mintOrder, hv]

/-- What a call of a process does. -/
inductive MintEffect (t : MintProcess) (w : World) : MintProcess → World → Prop
  | unregistered : MintEffect t w { t with phase := .unregistered } w
  | member (registered : (w.market.users t.request.trader).isRegistered = true) :
      MintEffect t w { t with phase := .member } w
  | registers {env w'} (value : env.value = 0) (sender : env.sender = t.request.trader)
      (accepted : exec ⟨env, .registerUser t.request.username "", none⟩ w = .ok w') :
      MintEffect t w { t with phase := .entered, registeredIt := true } w'
  | logsIn {env w'} (before : t.phase.isRegistered = true)
      (accepted : exec ⟨env, .login, none⟩ w = .ok w') :
      MintEffect t w { t with phase := .entered } w'
  | finds {phase} (before : t.phase.isRegistered = true) (after : phase.isEstimated = false)
      (price : phase.price = none) : MintEffect t w { t with phase := phase } w
  | prices {env currentPrice timestamp} (before : t.phase.isRegistered = true)
      (price : getCurrentGasPrice env = .ok (currentPrice, timestamp)) :
      MintEffect t w { t with phase := .priced currentPrice } w
  | states {currentPrice phase} (before : t.phase = .priced currentPrice)
      (after : phase = .ready ∨ ∃ reason, phase = .stopped reason) :
      MintEffect t w
        { t with
          phase := phase
          status := some (currentPrice, marketStatus currentPrice w.market.strikePrice) } w
  | estimated {env w'} (value : env.value = t.request.collateral)
      (sender : env.sender = t.request.trader)
      (accepted : exec ⟨env, t.request.call, none⟩ w = .ok w') :
      MintEffect t w { t with phase := .estimated } w
  | mints {env w'} (before : t.phase = .estimated) (value : env.value = t.request.collateral)
      (sender : env.sender = t.request.trader)
      (accepted : exec ⟨env, t.request.call, none⟩ w = .ok w') :
      MintEffect t w { t with phase := .confirmed } w'
  | reports (before : t.phase = .confirmed) :
      MintEffect t w { t with phase := .reported (w.market.positions t.request.trader) } w
  | stops {reason} : MintEffect t w { t with phase := .stopped reason } w

/-- A call of a process has its effect. -/
theorem mintStep_effect {call : MintCall} {t t' : MintProcess} {w w' : World}
    (h : mintStep call t w = .ok (t', w')) : MintEffect t w t' w' := by
  have hregistered : ∀ {phase : MintPhase}, t.phase = phase → phase.isRegistered = true →
      t.phase.isRegistered = true := fun heq hphase => by rw [heq, hphase]
  unfold mintStep at h
  dsimp only at h
  split at h
  · split_ifs at h with hmember
    · cases h
      exact .member hmember
    · cases h
      exact .unregistered
  · obtain ⟨⟨hvalue, hsender⟩, h⟩ := Checked.ensure_bind_eq_ok.mp h
    split at h <;> cases h
    · exact .registers hvalue hsender ‹_›
    · exact .stops
  · obtain ⟨-, h⟩ := Checked.ensure_bind_eq_ok.mp h
    split at h <;> cases h
    · exact .logsIn (hregistered ‹_› rfl) ‹_›
    · exact .stops
  · obtain ⟨-, h⟩ := Checked.ensure_bind_eq_ok.mp h
    split_ifs at h
    · cases h
      exact .stops
    · cases h
      exact .stops
    · cases h
      exact .finds (hregistered ‹_› rfl) rfl rfl
  · split at h <;> cases h
    · exact .finds (hregistered ‹_› rfl) rfl rfl
    · exact .stops
  · obtain ⟨-, h⟩ := Checked.ensure_bind_eq_ok.mp h
    split at h <;> cases h
    · exact .prices (hregistered ‹_› rfl) ‹_›
    · exact .stops
  · split_ifs at h
    · cases h
      exact .states ‹_› (.inr ⟨_, rfl⟩)
    · cases h
      exact .states ‹_› (.inr ⟨_, rfl⟩)
    · cases h
      exact .states ‹_› (.inl rfl)
  · split_ifs at h
    · cases h
      exact .stops
    · cases h
      exact .finds (hregistered ‹_› rfl) rfl rfl
  · obtain ⟨⟨hvalue, hsender⟩, h⟩ := Checked.ensure_bind_eq_ok.mp h
    split at h
    · split_ifs at h
      · cases h
        exact .stops
      · cases h
        exact .estimated hvalue hsender ‹_›
    · cases h
      exact .stops
  · obtain ⟨⟨hvalue, hsender⟩, h⟩ := Checked.ensure_bind_eq_ok.mp h
    split at h <;> cases h
    · exact .mints ‹_› hvalue hsender ‹_›
    · exact .stops
  · cases h
    exact .reports ‹_›
  · cases h

/-! ## What stays true of the processes -/

/-- The account is registered under the name of the request. -/
structure Enrolled (r : MintRequest) (m : Market) : Prop where
  registered : (m.users r.trader).isRegistered = true
  username : (m.users r.trader).username = r.username

/-- The position of the account is that of the request, up to the marks of its claim. -/
structure Placed (r : MintRequest) (m : Market) : Prop where
  «exists» : (m.positions r.trader).exists = true
  entry : (m.positions r.trader).entry = r.order.position.entry

/-- What a phase says of the market. -/
structure MintPhase.Sound (r : MintRequest) (phase : MintPhase) (w : World) : Prop where
  registered : phase.isRegistered = true → (w.market.users r.trader).isRegistered = true
  accepted : phase.isEstimated = true → r.order.position.Accepted
  placed : phase.isOpened = true → Placed r w.market
  reported : ∀ {position}, phase = .reported position → position.entry = r.order.position.entry
  priced : ∀ {price}, phase.price = some price → 20000000000 ≤ price.toNat

/-- What holds of a process and the market. -/
structure MintProcess.Sound (t : MintProcess) (w : World) : Prop where
  phase : t.phase.Sound t.request w
  enrolled : t.registeredIt = true → Enrolled t.request w.market
  status : ∀ {price line}, t.status = some (price, line) →
    20000000000 ≤ price.toNat ∧ line = marketStatus price w.market.strikePrice

section Stable

variable {tx : Tx} {w w' : World} {r : MintRequest} {t : MintProcess}

/-- A registration stays what it is, but for the last login. -/
theorem Effect.profile {env : Env} {call : Call} (h : Effect env call w w') {a : Address}
    (ha : (w.market.users a).isRegistered = true) :
    ∃ lastLoginAt, w'.market.users a = { w.market.users a with lastLoginAt := lastLoginAt } := by
  cases h with
  | registerUser _ fresh =>
    have hne : a ≠ env.sender := by
      rintro rfl
      rw [fresh] at ha
      cases ha
    exact ⟨_, Function.update_of_ne hne _ _⟩
  | login =>
    rcases eq_or_ne a env.sender with rfl | hne
    · exact ⟨env.timestamp, Function.update_self _ _ _⟩
    · exact ⟨_, Function.update_of_ne hne _ _⟩
  | _ => exact ⟨_, rfl⟩

/-- An account stays enrolled. -/
theorem Enrolled.step (h : Enrolled r w.market) (he : exec tx w = .ok w') : Enrolled r w'.market where
  registered := (exec_effect he).registered_mono h.registered
  username := by
    obtain ⟨lastLoginAt, hprofile⟩ := (exec_effect he).profile h.registered
    rw [hprofile]
    exact h.username

/-- A position stays that of the request. -/
theorem Placed.step (h : Placed r w.market) (he : exec tx w = .ok w') : Placed r w'.market := by
  have hentry : (w'.market.positions r.trader).entry = (w.market.positions r.trader).entry :=
    (exec_effect he).entry h.exists
  exact ⟨(congrArg Position.exists hentry).trans h.exists, hentry.trans h.entry⟩

/-- What a phase says stays so. -/
theorem MintPhase.Sound.step {phase : MintPhase} (h : phase.Sound r w) (he : exec tx w = .ok w') :
    phase.Sound r w' where
  registered hp := (exec_effect he).registered_mono (h.registered hp)
  accepted := h.accepted
  placed hp := (h.placed hp).step he
  reported := h.reported
  priced := h.priced

/-- What holds of a process stays so, whoever calls the market. -/
theorem MintProcess.Sound.step (h : t.Sound w) (he : exec tx w = .ok w') : t.Sound w' where
  phase := h.phase.step he
  enrolled ht := (h.enrolled ht).step he
  status := by
    intro price line hstatus
    rw [(exec_effect he).strike_expiry.1]
    exact h.status hstatus

end Stable

section Effects

variable {t t' : MintProcess} {w w' : World} {r : MintRequest} {env : Env} {rejection : Option Revert}

/-- A registration that is accepted enrols an account that was not registered. -/
theorem enrolled_of_registers (hsender : env.sender = r.trader)
    (he : exec ⟨env, .registerUser r.username "", none⟩ w = .ok w') :
    (w.market.users r.trader).isRegistered = false ∧ Enrolled r w'.market := by
  have heffect := exec_effect he
  simp only at heffect
  cases heffect with
  | registerUser _ fresh =>
    rw [hsender] at fresh
    have hprofile : ∀ profile : UserProfile,
        Function.update w.market.users env.sender profile r.trader = profile := by
      intro profile
      rw [hsender]
      exact Function.update_self _ _ _
    exact ⟨fresh, congrArg UserProfile.isRegistered (hprofile _),
      congrArg UserProfile.username (hprofile _)⟩
  | opened order => cases order

/-- A transaction that is accepted opens the position of the request, where there was none. -/
theorem placed_of_mints (hvalue : env.value = r.collateral) (hsender : env.sender = r.trader)
    (he : exec ⟨env, r.call, rejection⟩ w = .ok w') :
    Openable env r.order w.market ∧ Placed r w'.market := by
  obtain ⟨hopenable, hmarket, -⟩ := exec_opened (r.call_order hvalue) he
  refine ⟨hopenable, ?_⟩
  have hposition : w'.market.positions r.trader = r.order.position := by
    rw [hmarket, ← hsender]
    exact Function.update_self _ _ _
  exact ⟨by rw [hposition]; rfl, by rw [hposition]⟩

/-- A phase before the gas estimate, in which no price is kept, says that the account is registered. -/
theorem MintPhase.sound_of_found {phase : MintPhase}
    (hregistered : phase.isRegistered = true → (w.market.users r.trader).isRegistered = true)
    (hestimated : phase.isEstimated = false) (hprice : phase.price = none) : phase.Sound r w := by
  cases phase with
  | estimated | confirmed | reported position => cases hestimated
  | priced currentPrice => cases hprice
  | _ =>
    exact ⟨hregistered, fun h => (by cases h), fun h => (by cases h), fun h => (by cases h),
      fun h => (by cases h)⟩

/-- What a call of a process finds and does holds after it. -/
theorem MintEffect.sound (h : MintEffect t w t' w') (ht : t.Sound w) :
    (w' = w ∨ ∃ tx, exec tx w = .ok w') ∧ t'.Sound w' := by
  cases h with
  | unregistered =>
    have hphase : MintPhase.Sound t.request .unregistered w :=
      MintPhase.sound_of_found (fun h => by cases h) rfl rfl
    exact ⟨.inl rfl, hphase, ht.enrolled, ht.status⟩
  | member registered =>
    have hphase : MintPhase.Sound t.request .member w :=
      MintPhase.sound_of_found (fun _ => registered) rfl rfl
    exact ⟨.inl rfl, hphase, ht.enrolled, ht.status⟩
  | registers value sender accepted =>
    have henrolled : Enrolled t.request w'.market := (enrolled_of_registers sender accepted).2
    have hphase : MintPhase.Sound t.request .entered w' :=
      MintPhase.sound_of_found (fun _ => henrolled.registered) rfl rfl
    exact ⟨.inr ⟨_, accepted⟩, hphase, fun _ => henrolled, (ht.step accepted).status⟩
  | logsIn before accepted =>
    have hstep := ht.step accepted
    have hphase : MintPhase.Sound t.request .entered w' :=
      MintPhase.sound_of_found (fun _ => hstep.phase.registered before) rfl rfl
    exact ⟨.inr ⟨_, accepted⟩, hphase, hstep.enrolled, hstep.status⟩
  | @finds phase before after price =>
    have hphase : phase.Sound t.request w :=
      MintPhase.sound_of_found (fun _ => ht.phase.registered before) after price
    exact ⟨.inl rfl, hphase, ht.enrolled, ht.status⟩
  | @prices env currentPrice timestamp before price =>
    have hprice : 20000000000 ≤ currentPrice.toNat := _getGasPriceWithFallback_ge price
    have hphase : MintPhase.Sound t.request (.priced currentPrice) w :=
      { registered := fun _ => ht.phase.registered before
        accepted := fun h => by cases h
        placed := fun h => by cases h
        reported := fun h => by cases h
        priced := fun h => by cases h; exact hprice }
    exact ⟨.inl rfl, hphase, ht.enrolled, ht.status⟩
  | @states currentPrice phase before after =>
    have hregistered : (w.market.users t.request.trader).isRegistered = true :=
      ht.phase.registered (by rw [before]; rfl)
    have hprice : 20000000000 ≤ currentPrice.toNat := ht.phase.priced (by rw [before]; rfl)
    have hphase : phase.Sound t.request w := by
      rcases after with rfl | ⟨reason, rfl⟩
      · exact MintPhase.sound_of_found (fun _ => hregistered) rfl rfl
      · exact MintPhase.sound_of_found (fun h => by cases h) rfl rfl
    refine ⟨.inl rfl, hphase, ht.enrolled, fun hstatus => ?_⟩
    cases hstatus
    exact ⟨hprice, rfl⟩
  | estimated value sender accepted =>
    -- The estimate runs the transaction, so what the market checks of the order holds.
    obtain ⟨hopenable, -⟩ := placed_of_mints value sender accepted
    have hregistered := hopenable.registered
    rw [sender] at hregistered
    have hphase : MintPhase.Sound t.request .estimated w :=
      { registered := fun _ => hregistered
        accepted := fun _ => hopenable.accepted
        placed := fun h => by cases h
        reported := fun h => by cases h
        priced := fun h => by cases h }
    exact ⟨.inl rfl, hphase, ht.enrolled, ht.status⟩
  | mints before value sender accepted =>
    obtain ⟨hopenable, hplaced⟩ := placed_of_mints value sender accepted
    have hstep := ht.step accepted
    have hphase : MintPhase.Sound t.request .confirmed w' :=
      { registered := fun _ => hstep.phase.registered (by rw [before]; rfl)
        accepted := fun _ => hopenable.accepted
        placed := fun _ => hplaced
        reported := fun h => by cases h
        priced := fun h => by cases h }
    exact ⟨.inr ⟨_, accepted⟩, hphase, hstep.enrolled, hstep.status⟩
  | reports before =>
    have hplaced : Placed t.request w.market := ht.phase.placed (by rw [before]; rfl)
    have hphase : MintPhase.Sound t.request (.reported (w.market.positions t.request.trader)) w :=
      { registered := fun _ => ht.phase.registered (by rw [before]; rfl)
        accepted := fun _ => ht.phase.accepted (by rw [before]; rfl)
        placed := fun _ => hplaced
        reported := fun h => by cases h; exact hplaced.entry
        priced := fun h => by cases h }
    exact ⟨.inl rfl, hphase, ht.enrolled, ht.status⟩
  | @stops reason =>
    have hphase : MintPhase.Sound t.request (.stopped reason) w :=
      MintPhase.sound_of_found (fun h => by cases h) rfl rfl
    exact ⟨.inl rfl, hphase, ht.enrolled, ht.status⟩

end Effects

/-- **What the processes report stays true**: whoever calls the market, the registrations and the
positions of the processes stay what they are. -/
theorem minters_rely_guarantee :
    RelyGuarantee minters Reachable (minters.Moves Reachable) MintProcess.Sound := by
  refine .of_moves (fun hw he => hw.exec he) ?_ (fun _ ht he => ht.step he)
  intro call t t' w w' _ ht h
  exact (mintStep_effect h).sound ht

/-- The line compares the price with the strike. -/
theorem marketStatus_iff (currentPrice strikePrice : Uint256) :
    (marketStatus currentPrice strikePrice = .belowStrike ↔
      currentPrice.toNat < strikePrice.toNat) ∧
    (marketStatus currentPrice strikePrice = .aboveStrike ↔
      strikePrice.toNat ≤ currentPrice.toNat) := by
  have hlt : currentPrice < strikePrice ↔ currentPrice.toNat < strikePrice.toNat := BitVec.lt_def
  unfold marketStatus
  split_ifs with h <;> rw [hlt] at h <;> simp <;> omega

/-! ## Positions as requested -/

/-- The money behind the position of an account is what its openings brought. -/
def OpenedBooks (w : World) : Prop :=
  ∀ a, totalOf .opened a w.journal = nativeCollateral (w.market.positions a)

/-- A call keeps the books of the openings. -/
theorem Effect.openedBooks {env : Env} {call : Call} {w w' : World} (h : Effect env call w w')
    (hw : OpenedBooks w) : OpenedBooks w' := by
  intro a
  have ha := hw a
  cases h with
  | opened order openable =>
    rw [totalOf_cons, ha]
    rcases eq_or_ne env.sender a with rfl | hne
    · have hfresh : nativeCollateral (w.market.positions env.sender) = 0 :=
        nativeCollateral_of_fresh openable.fresh
      have hposition : ∀ p, Function.update w.market.positions env.sender p env.sender = p :=
        fun p => Function.update_self _ _ _
      rw [if_pos ⟨rfl, rfl⟩, hfresh, openable.value_eq, ← nativeCollateral_position]
      exact congrArg nativeCollateral (hposition _).symm
    · rw [if_neg fun hand => hne hand.2, Nat.zero_add]
      exact congrArg nativeCollateral (Function.update_of_ne hne.symm _ _).symm
  | addLiquidity _ _ _ | removeLiquidity _ _ _ _ | emergencyWithdraw _ _ _ | receive =>
    rw [totalOf_cons, if_neg (by simp), Nat.zero_add]
    exact ha
  | claimNothing _ _ => exact ha.trans (nativeCollateral_closed _ _ _).symm
  | claimPayout _ _ _ =>
    rw [totalOf_cons, if_neg (by simp), Nat.zero_add]
    exact ha.trans (nativeCollateral_closed _ _ _).symm
  | _ => exact ha

/-- Every market has its books of the openings. -/
theorem Reachable.openedBooks {w : World} (h : Reachable w) : OpenedBooks w := by
  obtain ⟨d, w₀, txs, h₀, run⟩ := h
  refine run.invariant (fun _ _ _ _ hw he => (exec_effect he).openedBooks hw) fun a => ?_
  have hfresh := deploy_fresh h₀
  rw [hfresh.journal, hfresh.positions]
  rfl

/-- The position of a request is native. -/
theorem Placed.nativeCollateral_eq {r : MintRequest} {m : Market} (h : Placed r m) :
    nativeCollateral (m.positions r.trader) = r.collateral.toNat := by
  have hcollateral : (m.positions r.trader).entry.collateral = r.collateral := by
    rw [h.entry]
    rfl
  have hasset : (m.positions r.trader).entry.collateralAsset = NATIVE_TOKEN := by
    rw [h.entry]
    rfl
  show (if _ then (m.positions r.trader).entry.collateral.toNat else 0) = _
  rw [if_pos ⟨h.exists, hasset⟩, hcollateral]

section Run

variable {K : Type*} [DecidableEq K] {s s' : Joint World MintProcess K}
  {turns : List (Turn K MintCall Tx)}

/-- A process at its start has found and done nothing. -/
theorem process_sound (r : MintRequest) (w : World) : r.process.Sound w :=
  ⟨MintPhase.sound_of_found (fun h => by cases h) rfl rfl, fun h => (by cases h), fun h => (by cases h)⟩

/-- What the processes have found and done is true at the end of a run. -/
theorem run_minters_sound (h : Reachable s.shared)
    (hstart : ∀ k, ∃ r : MintRequest, s.locals k = r.process)
    (run : Run minters.step s turns s') :
    Reachable s'.shared ∧ ∀ k, (s'.locals k).Sound s'.shared := by
  refine minters_rely_guarantee.run run h fun k => ?_
  obtain ⟨r, hk⟩ := hstart k
  rw [hk]
  exact process_sound r _

/-- A process keeps its request. -/
theorem run_request (run : Run minters.step s turns s') {k : K} {r : MintRequest}
    (hr : s.locals k = r.process) : (s'.locals k).request = r := by
  refine Clients.local_invariant (J := fun t => t.request = r) ?_ run ?_
  · intro call t t' w w' ht hstep
    cases mintStep_effect hstep <;> exact ht
  · rw [hr]
    rfl

/-- A process whose transaction opens the position of an account finds none, and leaves one. -/
theorem opened_exclusive (h : Reachable s.shared)
    (hstart : ∀ k, ∃ r : MintRequest, s.locals k = r.process) (run : Run minters.step s turns s')
    (a : Address) :
    ∀ k k', ((s'.locals k).request.trader = a ∧ (s'.locals k).phase.isOpened = true) →
      ((s'.locals k').request.trader = a ∧ (s'.locals k').phase.isOpened = true) → k = k' := by
  refine minters_rely_guarantee.exclusive
    (E := fun t => t.request.trader = a ∧ t.phase.isOpened = true)
    (C := fun w => (w.market.positions a).exists = true) ?_ ?_ run h (fun k => ?_) fun k k' hk => ?_
  · rintro t w ht ⟨rfl, hopened⟩
    exact (ht.phase.placed hopened).exists
  · rintro call t t' w w' - - hstep ⟨htrader, hopened⟩
    cases mintStep_effect hstep with
    | mints before value sender accepted =>
      obtain ⟨hopenable, -⟩ := placed_of_mints value sender accepted
      refine .inr ?_
      rw [← htrader, ← sender, hopenable.fresh]
      exact Bool.false_ne_true
    | reports before => exact .inl ⟨htrader, by rw [before]; rfl⟩
    | finds _ after _ =>
      rw [isEstimated_of_isOpened hopened] at after
      cases after
    | states _ after =>
      rcases after with rfl | ⟨reason, rfl⟩ <;> cases hopened
    | _ => cases hopened
  · obtain ⟨r, hk⟩ := hstart k
    rw [hk]
    exact process_sound r _
  · obtain ⟨r, hr⟩ := hstart k
    rw [hr] at hk
    cases hk.2

/-- A process whose transaction registers an account finds it unregistered, and leaves it registered. -/
theorem registeredIt_exclusive (h : Reachable s.shared)
    (hstart : ∀ k, ∃ r : MintRequest, s.locals k = r.process) (run : Run minters.step s turns s')
    (a : Address) :
    ∀ k k', ((s'.locals k).request.trader = a ∧ (s'.locals k).registeredIt = true) →
      ((s'.locals k').request.trader = a ∧ (s'.locals k').registeredIt = true) → k = k' := by
  refine minters_rely_guarantee.exclusive
    (E := fun t => t.request.trader = a ∧ t.registeredIt = true)
    (C := fun w => (w.market.users a).isRegistered = true) ?_ ?_ run h (fun k => ?_) fun k k' hk => ?_
  · rintro t w ht ⟨rfl, hregistered⟩
    exact (ht.enrolled hregistered).registered
  · rintro call t t' w w' - - hstep ⟨htrader, hregistered⟩
    cases mintStep_effect hstep with
    | registers value sender accepted =>
      obtain ⟨hfresh, -⟩ := enrolled_of_registers sender accepted
      refine .inr ?_
      rw [← htrader, hfresh]
      exact Bool.false_ne_true
    | _ => exact .inl ⟨htrader, hregistered⟩
  · obtain ⟨r, hk⟩ := hstart k
    rw [hk]
    exact process_sound r _
  · obtain ⟨r, hr⟩ := hstart k
    rw [hr] at hk
    cases hk.2

/-- **Positions as requested**: in every run of any number of processes of `mint-long.js` and
`mint-short.js`, in any interleaving with each other and all other calls of a market, a process whose
transaction is confirmed has the position that it asked for under its account, of which nothing but the
marks of its claim changes; the openings of the account brought its collateral and nothing else, and the
transaction of no other process for this account is confirmed. What the process reports is this
position. -/
theorem mints_as_requested (h : Reachable s.shared)
    (hstart : ∀ k, ∃ r : MintRequest, s.locals k = r.process) (run : Run minters.step s turns s')
    {k : K} {r : MintRequest} (hr : s.locals k = r.process)
    (hk : (s'.locals k).phase.isOpened = true) :
    (s'.shared.market.positions r.trader).exists = true ∧
      (s'.shared.market.positions r.trader).entry = r.order.position.entry ∧
      r.order.position.Accepted ∧ (s'.shared.market.users r.trader).isRegistered = true ∧
      totalOf .opened r.trader s'.shared.journal = r.collateral.toNat ∧
      (∀ position, (s'.locals k).phase = .reported position →
        position.entry = r.order.position.entry) ∧
      ∀ k' r', s.locals k' = MintRequest.process r' → r'.trader = r.trader →
        (s'.locals k').phase.isOpened = true → k' = k := by
  obtain ⟨hreach, hsound⟩ := run_minters_sound h hstart run
  have hphase : (s'.locals k).phase.Sound r s'.shared := run_request run hr ▸ (hsound k).phase
  have hestimated : (s'.locals k).phase.isEstimated = true := isEstimated_of_isOpened hk
  have hregistered : (s'.locals k).phase.isRegistered = true := isRegistered_of_isEstimated hestimated
  have hplaced : Placed r s'.shared.market := hphase.placed hk
  refine ⟨hplaced.exists, hplaced.entry, hphase.accepted hestimated, hphase.registered hregistered,
    ?_, fun position hposition => hphase.reported hposition, fun k' r' hr' htrader hk' => ?_⟩
  · rw [hreach.openedBooks, hplaced.nativeCollateral_eq]
  · have hself : (s'.locals k).request.trader = r.trader := by rw [run_request run hr]
    have hother : (s'.locals k').request.trader = r.trader := by rw [run_request run hr', htrader]
    exact opened_exclusive h hstart run r.trader k' k ⟨hother, hk'⟩ ⟨hself, hk⟩

/-- **One registration for an account**: in every such run, a process that has come past its
registration or login has its account registered. An account that the transaction of a process
registered has the name that this process gave it, and the transaction of no other process registered
it. -/
theorem registrations_exclusive (h : Reachable s.shared)
    (hstart : ∀ k, ∃ r : MintRequest, s.locals k = r.process) (run : Run minters.step s turns s')
    {k : K} {r : MintRequest} (hr : s.locals k = r.process) :
    ((s'.locals k).phase.isRegistered = true →
      (s'.shared.market.users r.trader).isRegistered = true) ∧
    ((s'.locals k).registeredIt = true →
      (s'.shared.market.users r.trader).isRegistered = true ∧
        (s'.shared.market.users r.trader).username = r.username ∧
        ∀ k' r', s.locals k' = MintRequest.process r' → r'.trader = r.trader →
          (s'.locals k').registeredIt = true → k' = k) := by
  obtain ⟨-, hsound⟩ := run_minters_sound h hstart run
  have hphase : (s'.locals k).phase.Sound r s'.shared := run_request run hr ▸ (hsound k).phase
  refine ⟨hphase.registered, fun hk => ?_⟩
  have henrolled : Enrolled r s'.shared.market := run_request run hr ▸ (hsound k).enrolled hk
  refine ⟨henrolled.registered, henrolled.username, fun k' r' hr' htrader hk' => ?_⟩
  have hself : (s'.locals k).request.trader = r.trader := by rw [run_request run hr]
  have hother : (s'.locals k').request.trader = r.trader := by rw [run_request run hr', htrader]
  exact registeredIt_exclusive h hstart run r.trader k' k ⟨hother, hk'⟩ ⟨hself, hk⟩

/-- **What comes between a check and its transaction**: in every such run, the registration of a process
that found its account unregistered is refused exactly where the account has been registered in the
meantime, the login of one that found it registered never, and the transaction of one that estimated its
gas exactly where the account has a position by now, the market has expired or is settled, or its owner
no longer allows the native token. -/
theorem mint_refusals (h : Reachable s.shared)
    (hstart : ∀ k, ∃ r : MintRequest, s.locals k = r.process) (run : Run minters.step s turns s')
    {k : K} {r : MintRequest} (hr : s.locals k = r.process) {env : Env}
    (hsender : env.sender = r.trader) :
    (env.value = 0 →
      ((∃ w', exec ⟨env, .registerUser r.username "", none⟩ s'.shared = .ok w') ↔
        (s'.shared.market.users r.trader).isRegistered = false)) ∧
    ((s'.locals k).phase = .member → env.value = 0 →
      ∃ w', exec ⟨env, .login, none⟩ s'.shared = .ok w') ∧
    ((s'.locals k).phase = .estimated → env.value = r.collateral →
      ((∃ w', exec ⟨env, r.call, none⟩ s'.shared = .ok w') ↔
        (s'.shared.market.positions r.trader).exists = false ∧
          env.timestamp < s'.shared.market.expiryTimestamp ∧ s'.shared.market.isSettled = false ∧
          s'.shared.market.allowedCollateralAssets NATIVE_TOKEN = true ∧
          s'.shared.market.allowedSettlementAssets NATIVE_TOKEN = true)) := by
  obtain ⟨-, hsound⟩ := run_minters_sound h hstart run
  have hphase : (s'.locals k).phase.Sound r s'.shared := run_request run hr ▸ (hsound k).phase
  refine ⟨fun hvalue => ?_, fun hmember hvalue => ?_, fun hestimated hvalue => ?_⟩
  · constructor
    · rintro ⟨w', he⟩
      exact (enrolled_of_registers hsender he).1
    · intro hfresh
      rw [← hsender] at hfresh
      have heffect : Effect env (.registerUser r.username "") s'.shared ⟨_, _, s'.shared.events⟩ :=
        .registerUser hvalue hfresh
      obtain ⟨w', he, -⟩ := exec_of_effect ⟨env, .registerUser r.username "", none⟩ heffect rfl
      exact ⟨w', he⟩
  · have hregistered := hphase.registered (by rw [hmember]; rfl)
    rw [← hsender] at hregistered
    have heffect : Effect env .login s'.shared ⟨_, _, s'.shared.events⟩ := .login hvalue hregistered
    obtain ⟨w', he, -⟩ := exec_of_effect ⟨env, .login, none⟩ heffect rfl
    exact ⟨w', he⟩
  · constructor
    · rintro ⟨w', he⟩
      obtain ⟨hopenable, -⟩ := placed_of_mints hvalue hsender he
      rw [← hsender]
      exact ⟨hopenable.fresh, hopenable.beforeExpiry, hopenable.notSettled,
        hopenable.collateral_allowed, hopenable.settlement_allowed⟩
    · rintro ⟨hfresh, hexpiry, hunsettled, hcollateral, hsettlement⟩
      have haccepted : r.order.position.Accepted := hphase.accepted (by rw [hestimated]; rfl)
      have hregistered := hphase.registered (by rw [hestimated]; rfl)
      rw [← hsender] at hfresh hregistered
      have hopenable : Openable env r.order s'.shared.market :=
        ⟨hexpiry, hunsettled, hregistered, haccepted.quantity_pos, haccepted.leverage_pos, hfresh,
          hcollateral, hsettlement, haccepted.collateral_pos, hvalue, haccepted.limit_pos,
          haccepted.stop_pos⟩
      have heffect : Effect env r.call s'.shared ⟨_, _, s'.shared.events⟩ :=
        .opened (r.call_order hvalue) hopenable
      obtain ⟨w', he, -⟩ := exec_of_effect ⟨env, r.call, none⟩ heffect rfl
      exact ⟨w', he⟩

end Run

/-- The requests of the sample: the defaults of the two scripts, the first two for the same account. -/
def sampleRequests (k : ℕ) : MintRequest :=
  if k < 2 then ⟨true, 5, "gas-trader", 10, 2, 0, ether⟩
  else ⟨false, 6, "gas-short-trader", 10, 2, 0, ether⟩

/-- The first process registers its account and opens its position. The second one logs in, and its
transaction comes after that of the first. -/
def sampleMints : List (Turn ℕ MintCall Tx) :=
  [.client 0 .getUserProfile, .client 0 (.registerUser (quietEnv 5 0 1700000001)),
    .client 1 .getUserProfile, .client 1 (.login (quietEnv 5 0 1700000002)),
    .client 0 (.getContractState 1700000003), .client 1 (.getContractState 1700000003),
    .client 0 (.getCurrentGasPrice (quietEnv 5 0 1700000003)),
    .client 1 (.getCurrentGasPrice (quietEnv 5 0 1700000003)),
    .client 0 .getPosition, .client 1 .getPosition,
    .client 0 (.estimateGas (quietEnv 5 ether 1700000004) (2 * 10^18) 1000),
    .client 1 (.estimateGas (quietEnv 5 ether 1700000004) (2 * 10^18) 1000),
    .client 2 .getUserProfile, .client 2 (.registerUser (quietEnv 6 0 1700000004)),
    .client 0 (.mint (quietEnv 5 ether 1700000005)),
    .client 1 (.mint (quietEnv 5 ether 1700000005)), .client 0 .getPosition,
    .client 2 (.getCurrentGasPrice (quietEnv 6 0 1700000006)),
    .client 2 (.getContractState 1700000006)]

/-- The processes of the sample, from a new market on. -/
def launchMinters (turns : List (Turn ℕ MintCall Tx)) :
    Except Revert (World × Joint World MintProcess ℕ) := do
  let w ← launch sampleDeployment []
  let s ← runAll minters.step turns ⟨w, fun k => (sampleRequests k).process⟩
  return (w, s)

/-- What a launch of the processes ends in is a run of them, from their starts. -/
theorem launchMinters_eq_ok {turns : List (Turn ℕ MintCall Tx)} {w : World}
    {s : Joint World MintProcess ℕ} (h : launchMinters turns = .ok (w, s)) :
    Reachable w ∧ Run minters.step ⟨w, fun k => (sampleRequests k).process⟩ turns s := by
  obtain ⟨hw, run⟩ := run_of_launch h
  exact ⟨reachable_of_launch hw, run⟩

/-- Of the two processes for one account, the first one opens the position. -/
theorem mints_as_requested_sample :
    ∃ w s, launchMinters sampleMints = .ok (w, s) ∧ (s.locals 0).phase.isOpened = true ∧
      (s.locals 1).phase.isOpened = false ∧ totalOf .opened 5 s.shared.journal = ether.toNat := by
  obtain ⟨⟨w, s⟩, hs, hp⟩ := Checked.exists_of_any (x := launchMinters sampleMints)
    (p := fun r => (r.2.locals 0).phase.isOpened && !(r.2.locals 1).phase.isOpened)
    (by decide +kernel)
  simp only [Bool.and_eq_true, Bool.not_eq_true'] at hp
  obtain ⟨hw, run⟩ := launchMinters_eq_ok hs
  obtain ⟨-, -, -, -, htotal, -⟩ :=
    mints_as_requested (k := 0) (r := sampleRequests 0) hw (fun k => ⟨_, rfl⟩) run rfl hp.1
  exact ⟨w, s, hs, hp.1, hp.2, htotal⟩

/-- The first process registered the account. -/
theorem registrations_exclusive_sample :
    ∃ w s, launchMinters sampleMints = .ok (w, s) ∧ (s.locals 0).registeredIt = true ∧
      (s.shared.market.users 5).username = "gas-trader" := by
  obtain ⟨⟨w, s⟩, hs, hp⟩ := Checked.exists_of_any (x := launchMinters sampleMints)
    (p := fun r => (r.2.locals 0).registeredIt) (by decide +kernel)
  obtain ⟨hw, run⟩ := launchMinters_eq_ok hs
  obtain ⟨-, hregistered⟩ :=
    registrations_exclusive (k := 0) (r := sampleRequests 0) hw (fun k => ⟨_, rfl⟩) run rfl
  exact ⟨w, s, hs, hp, (hregistered hp).2.1⟩

/-- The second process has estimated its gas, and the account has a position when its transaction
comes. -/
theorem mint_refusals_sample :
    ∃ w s, launchMinters (sampleMints.take 15) = .ok (w, s) ∧
      ¬ ∃ w', exec ⟨quietEnv 5 ether 1700000005, (sampleRequests 1).call, none⟩ s.shared = .ok w' := by
  obtain ⟨⟨w, s⟩, hs, hp⟩ := Checked.exists_of_any (x := launchMinters (sampleMints.take 15))
    (p := fun r => (r.2.locals 1).phase.isEstimated && !(r.2.locals 1).phase.isOpened &&
      (r.2.shared.market.positions 5).exists) (by decide +kernel)
  simp only [Bool.and_eq_true, Bool.not_eq_true'] at hp
  obtain ⟨⟨hestimated, hunopened⟩, hposition⟩ := hp
  obtain ⟨hw, run⟩ := launchMinters_eq_ok hs
  have hsender : (quietEnv 5 ether 1700000005).sender = (sampleRequests 1).trader := rfl
  obtain ⟨-, -, hmint⟩ := mint_refusals (k := 1) hw (fun k => ⟨_, rfl⟩) run rfl hsender
  refine ⟨w, s, hs, fun haccepted => ?_⟩
  cases hphase : (s.locals 1).phase with
  | estimated =>
    have hfresh : (s.shared.market.positions 5).exists = false := ((hmint hphase rfl).mp haccepted).1
    rw [hposition] at hfresh
    cases hfresh
  | confirmed | reported position =>
    rw [hphase] at hunopened
    cases hunopened
  | _ =>
    rw [hphase] at hestimated
    cases hestimated

end GasCap
