import GasCap.Books
import GasCap.Lib.Replay
import GasCap.Positions
import Mathlib.Data.Multiset.AddSub

/-!
# What the events of a market tell

`Report` is what a reader of the events of `GasCapFutures.sol` can know of a market without reading
its storage: who registered under which name and metadata, when a user logged in last, what every
position was opened with and in which order, the liquidity ledger, the settlement, and every movement
of native money that has an event. `Event.apply` is what one event adds to it. Two ways of moving
money have no event, `receive` and `emergencyWithdraw`, and neither has the claim of a position
without a payout, so the report has no donations, no withdrawals of the owner, and no marks of the
positions. The event of a registration has no time, so the report has none either.

A market emits an event at the end of a call, after its native transfer. Where the recipient of the
transfer calls back, the events of these calls come first, although the state changed in the other
order. The two events of calls with a transfer commute with all events (`late_commutes`), so the log
still tells the truth when the calls have returned (`events_tell`).
-/

namespace GasCap

open Machine

/-- The ways of moving native money that have an event. -/
def Flow.hasEvent : Flow → Bool
  | .opened | .added | .removed | .claimed => true
  | .donated | .drained => false

/-- What the events of a market tell of it. -/
structure Report where
  /-- The name and the metadata of every registered user. -/
  profiles : Address → Option (String × String)
  /-- The time of the last login, of the users that logged in. -/
  lastLogins : Address → Option Uint256
  /-- The positions as they were opened, without their marks. -/
  entries : Address → Position
  participants : List Address
  liquidityProvided : Address → Uint256
  totalLiquidity : Uint256
  /-- The price of the settlement and its time. -/
  settlement : Option (Uint256 × Uint256)
  movements : Multiset Movement

/-- What is known of a market without events. -/
def Report.empty : Report where
  profiles := fun _ => none
  lastLogins := fun _ => none
  entries := fun _ => .none
  participants := []
  liquidityProvided := fun _ => 0
  totalLiquidity := 0
  settlement := none
  movements := 0

/-- What an event adds to a report. -/
def Event.apply : Event → Report → Report
  | .UserRegistered user username metadataURI, r =>
    { r with profiles := Function.update r.profiles user (some (username, metadataURI)) }
  | .UserLoggedIn user timestamp, r =>
    { r with lastLogins := Function.update r.lastLogins user (some timestamp) }
  | .FuturesMinted trader isLong quantity collateral leverage marginMode entryType limitPrice
      stopPrice collateralAsset settlementAsset, r =>
    { r with
      entries := Function.update r.entries trader
        ⟨true, isLong, quantity, collateral, leverage, marginMode, entryType, limitPrice, stopPrice,
          collateralAsset, settlementAsset, false, false⟩
      participants := r.participants ++ [trader]
      -- Only native collateral is sent along.
      movements := ⟨.opened, trader, if collateralAsset = NATIVE_TOKEN then collateral.toNat else 0⟩
        ::ₘ r.movements }
  | .LiquidityAdded provider amount, r =>
    { r with
      liquidityProvided :=
        Function.update r.liquidityProvided provider (r.liquidityProvided provider + amount)
      totalLiquidity := r.totalLiquidity + amount
      movements := ⟨.added, provider, amount.toNat⟩ ::ₘ r.movements }
  | .LiquidityRemoved provider amount, r =>
    { r with
      liquidityProvided :=
        Function.update r.liquidityProvided provider (r.liquidityProvided provider - amount)
      totalLiquidity := r.totalLiquidity - amount
      movements := ⟨.removed, provider, amount.toNat⟩ ::ₘ r.movements }
  | .ContractSettled settlementPrice timestamp, r =>
    { r with settlement := some (settlementPrice, timestamp) }
  | .PayoutClaimed trader amount, r =>
    { r with movements := ⟨.claimed, trader, amount.toNat⟩ ::ₘ r.movements }

/-- A user as the report has it. -/
def UserProfile.reported (u : UserProfile) : Option (String × String) :=
  if u.isRegistered then some (u.username, u.metadataURI) else Option.none

/-- The settlement as the report has it. -/
def Market.settlement (m : Market) : Option (Uint256 × Uint256) :=
  if m.isSettled then some (m.settlementPrice, m.settlementTimestamp) else none

/-- The movements of a journal that have an event. -/
def reportedMovements (journal : List Movement) : Multiset Movement :=
  (journal.filter fun mv => mv.flow.hasEvent : List Movement)

/-- The report is true of the market. -/
structure Report.Shows (r : Report) (w : World) : Prop where
  profiles : ∀ u, r.profiles u = (w.market.users u).reported
  loggedIn : ∀ u, r.lastLogins u ≠ none → (w.market.users u).isRegistered = true
  /-- A user that never logged in has the time of its registration as its last login. -/
  lastLogins : ∀ u,
    (w.market.users u).lastLoginAt = (r.lastLogins u).getD (w.market.users u).createdAt
  entries : ∀ t, r.entries t = (w.market.positions t).entry
  participants : r.participants = w.market.participants
  liquidityProvided : r.liquidityProvided = w.market.liquidityProvided
  totalLiquidity : r.totalLiquidity = w.market.totalLiquidity
  settlement : r.settlement = w.market.settlement
  movements : r.movements = reportedMovements w.journal

/-! ## Late events -/

/-- Two additions to the entries of a mapping commute. -/
theorem update_add_comm {α M : Type*} [DecidableEq α] [AddCommSemigroup M] (f : α → M) (a b : α)
    (x y : M) :
    Function.update (Function.update f a (f a + x)) b (Function.update f a (f a + x) b + y) =
      Function.update (Function.update f b (f b + y)) a (Function.update f b (f b + y) a + x) := by
  funext c
  rcases eq_or_ne a b with rfl | hab
  · simp only [Function.update_idem, Function.update_self, add_right_comm]
  · rw [Function.update_of_ne hab.symm, Function.update_of_ne hab,
      Function.update_comm hab]

/-- The event of a removal may be applied before or after any other. -/
theorem removed_commutes (provider : Address) (amount : Uint256) :
    Commutes Event.apply (.LiquidityRemoved provider amount) := by
  intro e r
  cases e with
  | LiquidityAdded provider' amount' =>
    have hledger := update_add_comm r.liquidityProvided provider' provider amount' (-amount)
    have htotal := add_right_comm r.totalLiquidity amount' (-amount)
    simp only [← sub_eq_add_neg] at hledger htotal
    simp only [Event.apply, hledger, htotal, Multiset.cons_swap]
  | LiquidityRemoved provider' amount' =>
    have hledger := update_add_comm r.liquidityProvided provider' provider (-amount') (-amount)
    have htotal := add_right_comm r.totalLiquidity (-amount') (-amount)
    simp only [← sub_eq_add_neg] at hledger htotal
    simp only [Event.apply, hledger, htotal, Multiset.cons_swap]
  | _ => simp only [Event.apply, Multiset.cons_swap]

/-- The event of a claim may be applied before or after any other. -/
theorem claimed_commutes (trader : Address) (amount : Uint256) :
    Commutes Event.apply (.PayoutClaimed trader amount) := by
  intro e r
  cases e <;> simp only [Event.apply, Multiset.cons_swap]

/-! ## What one call tells -/

section Call

variable {r : Report} {w : World} {env : Env} {events : List Event}

/-- The report is of the market and the journal alone. -/
theorem Report.Shows.congr {w' : World} (h : r.Shows w) (hm : w'.market = w.market)
    (hj : w'.journal = w.journal) : r.Shows w' := by
  obtain ⟨market, journal, events⟩ := w'
  simp only at hm hj
  subst hm hj
  exact ⟨h.profiles, h.loggedIn, h.lastLogins, h.entries, h.participants, h.liquidityProvided,
    h.totalLiquidity, h.settlement, h.movements⟩

/-- The event of a registration tells of the new profile. -/
theorem Report.Shows.registerUser {username metadataURI : String} (h : r.Shows w)
    (fresh : (w.market.users env.sender).isRegistered = false) :
    (Event.apply (.UserRegistered env.sender username metadataURI) r).Shows
      ⟨{ w.market with
          users := Function.update w.market.users env.sender
            ⟨true, username, metadataURI, env.timestamp, env.timestamp⟩ },
        w.journal, events⟩ where
  profiles u := by
    unfold Event.apply
    rcases eq_or_ne u env.sender with rfl | hne
    · simp only [Function.update_self]
      rfl
    · simp only [Function.update_of_ne hne]
      exact h.profiles u
  loggedIn u hlogin := by
    rcases eq_or_ne u env.sender with rfl | hne
    · simp only [Function.update_self]
    · simp only [Function.update_of_ne hne]
      exact h.loggedIn u hlogin
  lastLogins u := by
    unfold Event.apply
    rcases eq_or_ne u env.sender with rfl | hne
    · -- A user that logged in was registered, and could not register again.
      have hnone : r.lastLogins env.sender = none := by
        by_contra hlogin
        have hregistered := h.loggedIn env.sender hlogin
        rw [fresh] at hregistered
        cases hregistered
      simp only [Function.update_self, hnone, Option.getD_none]
    · simp only [Function.update_of_ne hne]
      exact h.lastLogins u
  entries := h.entries
  participants := h.participants
  liquidityProvided := h.liquidityProvided
  totalLiquidity := h.totalLiquidity
  settlement := h.settlement
  movements := h.movements

/-- The event of a login tells of its time. -/
theorem Report.Shows.login (h : r.Shows w)
    (registered : (w.market.users env.sender).isRegistered = true) :
    (Event.apply (.UserLoggedIn env.sender env.timestamp) r).Shows
      ⟨{ w.market with
          users := Function.update w.market.users env.sender
            { w.market.users env.sender with lastLoginAt := env.timestamp } },
        w.journal, events⟩ where
  profiles u := by
    rcases eq_or_ne u env.sender with rfl | hne
    · simp only [Function.update_self]
      exact h.profiles env.sender
    · simp only [Function.update_of_ne hne]
      exact h.profiles u
  loggedIn u hlogin := by
    unfold Event.apply at hlogin
    rcases eq_or_ne u env.sender with rfl | hne
    · simp only [Function.update_self]
      exact registered
    · simp only [Function.update_of_ne hne] at hlogin ⊢
      exact h.loggedIn u hlogin
  lastLogins u := by
    unfold Event.apply
    rcases eq_or_ne u env.sender with rfl | hne
    · simp only [Function.update_self, Option.getD_some]
    · simp only [Function.update_of_ne hne]
      exact h.lastLogins u
  entries := h.entries
  participants := h.participants
  liquidityProvided := h.liquidityProvided
  totalLiquidity := h.totalLiquidity
  settlement := h.settlement
  movements := h.movements

/-- The event of an opening tells of the position and of the value that came with it. -/
theorem Report.Shows.opened {o : Order} (h : r.Shows w) (ho : Openable env o w.market) :
    (Event.apply (.FuturesMinted env.sender o.isLong o.quantity o.collateralAmount o.leverage
      o.marginMode o.entryType o.limitPrice o.stopPrice o.collateralAsset o.settlementAsset) r).Shows
      ⟨{ w.market.opened env.sender o with
          balance := w.market.balance + env.value.toNat },
        ⟨.opened, env.sender, env.value.toNat⟩ :: w.journal, events⟩ where
  profiles := h.profiles
  loggedIn := h.loggedIn
  lastLogins := h.lastLogins
  entries t := by
    unfold Event.apply Market.opened
    rcases eq_or_ne t env.sender with rfl | hne
    · simp only [Function.update_self]
      rfl
    · simp only [Function.update_of_ne hne]
      exact h.entries t
  participants := by
    unfold Event.apply Market.opened
    simp only [h.participants]
  liquidityProvided := h.liquidityProvided
  totalLiquidity := h.totalLiquidity
  settlement := h.settlement
  movements := by
    have hvalue : env.value.toNat =
        if o.collateralAsset = NATIVE_TOKEN then o.collateralAmount.toNat else 0 := by
      rw [ho.value_eq, Order.nativeAmount]
      split_ifs <;> rfl
    unfold Event.apply
    simp only [h.movements, ← hvalue]
    rfl

/-- The event of a deposit tells of its amount. -/
theorem Report.Shows.addLiquidity {providers : List Address} {provided totalLiquidity : Uint256}
    {balance : ℕ} (h : r.Shows w)
    (hp : provided.toNat = (w.market.liquidityProvided env.sender).toNat + env.value.toNat)
    (ht : totalLiquidity.toNat = w.market.totalLiquidity.toNat + env.value.toNat) :
    (Event.apply (.LiquidityAdded env.sender env.value) r).Shows
      ⟨{ w.market with
          liquidityProviders := providers
          liquidityProvided := Function.update w.market.liquidityProvided env.sender provided
          totalLiquidity := totalLiquidity
          balance := balance },
        ⟨.added, env.sender, env.value.toNat⟩ :: w.journal, events⟩ where
  profiles := h.profiles
  loggedIn := h.loggedIn
  lastLogins := h.lastLogins
  entries := h.entries
  participants := h.participants
  liquidityProvided := by
    unfold Event.apply
    simp only [h.liquidityProvided, Checked.eq_add_of_toNat hp]
  totalLiquidity := by
    unfold Event.apply
    simp only [h.totalLiquidity, Checked.eq_add_of_toNat ht]
  settlement := h.settlement
  movements := by
    unfold Event.apply
    simp only [h.movements]
    rfl

/-- The event of a removal tells of its amount. -/
theorem Report.Shows.removeLiquidity {amount provided totalLiquidity : Uint256} {balance : ℕ}
    (h : r.Shows w)
    (hp : provided.toNat + amount.toNat = (w.market.liquidityProvided env.sender).toNat)
    (ht : totalLiquidity.toNat + amount.toNat = w.market.totalLiquidity.toNat) :
    (Event.apply (.LiquidityRemoved env.sender amount) r).Shows
      ⟨{ w.market with
          liquidityProvided := Function.update w.market.liquidityProvided env.sender provided
          totalLiquidity := totalLiquidity
          balance := balance },
        ⟨.removed, env.sender, amount.toNat⟩ :: w.journal, events⟩ where
  profiles := h.profiles
  loggedIn := h.loggedIn
  lastLogins := h.lastLogins
  entries := h.entries
  participants := h.participants
  liquidityProvided := by
    unfold Event.apply
    simp only [h.liquidityProvided, Checked.eq_sub_of_toNat hp]
  totalLiquidity := by
    unfold Event.apply
    simp only [h.totalLiquidity, Checked.eq_sub_of_toNat ht]
  settlement := h.settlement
  movements := by
    unfold Event.apply
    simp only [h.movements]
    rfl

/-- A claim leaves the entry of every position. -/
theorem closed_entry (m : Market) (trader t : Address) :
    ((m.closed trader).positions t).entry = (m.positions t).entry := by
  rcases eq_or_ne t trader with rfl | hne
  · rw [closed_positions_self]
    rfl
  · rw [closed_positions_of_ne hne]

/-- A claim without a payout has no event, and a report without marks nothing to tell of it. -/
theorem Report.Shows.closed {balance : ℕ} (h : r.Shows w) :
    r.Shows ⟨{ w.market.closed env.sender with balance := balance }, w.journal, events⟩ :=
  ⟨h.profiles, h.loggedIn, h.lastLogins, fun t => (h.entries t).trans (closed_entry _ _ t).symm,
    h.participants, h.liquidityProvided, h.totalLiquidity, h.settlement, h.movements⟩

/-- The event of a claim tells of its payout. -/
theorem Report.Shows.claimPayout {payout : Uint256} {balance : ℕ} (h : r.Shows w) :
    (Event.apply (.PayoutClaimed env.sender payout) r).Shows
      ⟨{ w.market.closed env.sender with balance := balance },
        ⟨.claimed, env.sender, payout.toNat⟩ :: w.journal, events⟩ where
  profiles := h.profiles
  loggedIn := h.loggedIn
  lastLogins := h.lastLogins
  entries t := (h.entries t).trans (closed_entry _ _ t).symm
  participants := h.participants
  liquidityProvided := h.liquidityProvided
  totalLiquidity := h.totalLiquidity
  settlement := h.settlement
  movements := by
    unfold Event.apply
    simp only [h.movements]
    rfl

/-- What a call leaves when it returns or hands over control: its event follows, and tells what it
did. Where control is handed over, it is late and may be applied before or after any other. -/
def Tells (r : Report) (w : World) : Progress World → Prop
  | .done s => ∃ event : Option Event, s.events = event.toList ++ w.events ∧
      (replay Event.apply r event.toList).Shows s
  | .callout s resume => ∃ event : Option Event, (∀ e ∈ event.toList, Commutes Event.apply e) ∧
      s.events = w.events ∧ (replay Event.apply r event.toList).Shows s ∧
      resume = fun v => { v with events := event.toList ++ v.events }

/-- The event of a call with a transfer may be applied before or after any other. -/
theorem late_commutes {late : Event} (h : Commutes Event.apply late) :
    ∀ e ∈ (some late).toList, Commutes Event.apply e := by
  intro e he
  rw [Option.toList_some, List.mem_singleton] at he
  rw [he]
  exact h

/-- An opening tells of the position. -/
theorem enter_tells_opened {tx : Tx} {p : Progress World} (hr : r.Shows w)
    (hi : tx.call.inflow = some .opened) (h : enter tx w = .ok p) : Tells r w p := by
  obtain ⟨frame, hb, hd⟩ := (enter_eq_ok_of_some hi).mp h
  obtain ⟨o, ho⟩ := order_of_body hi hb
  rw [(body_of_order ho).1, _openPosition_eq_ok, Openable.credit] at hb
  obtain ⟨hopen, rfl⟩ := hb
  cases hd
  exact ⟨some _, rfl, hr.opened hopen⟩

/-- **What a call tells**: if the report was true of the market before the call, its event makes it
true of the market after it. -/
theorem enter_tells {tx : Tx} {p : Progress World} (hr : r.Shows w)
    (h : enter tx w = .ok p) : Tells r w p := by
  obtain ⟨env, call, rejection⟩ := tx
  cases call with
  | registerUser username metadataURI =>
    obtain ⟨-, frame, hb, hd⟩ := (enter_eq_ok_of_none rfl).mp h
    obtain ⟨fresh, rfl⟩ := registerUser_eq_ok.mp hb
    cases hd
    exact ⟨some _, rfl, hr.registerUser fresh⟩
  | login =>
    obtain ⟨-, frame, hb, hd⟩ := (enter_eq_ok_of_none rfl).mp h
    obtain ⟨registered, rfl⟩ := login_eq_ok.mp hb
    cases hd
    exact ⟨some _, rfl, hr.login registered⟩
  | setCollateralAssetAllowed asset allowed =>
    obtain ⟨-, frame, hb, hd⟩ := (enter_eq_ok_of_none rfl).mp h
    obtain ⟨-, rfl⟩ := setCollateralAssetAllowed_eq_ok.mp hb
    cases hd
    exact ⟨none, rfl, ⟨hr.profiles, hr.loggedIn, hr.lastLogins, hr.entries,
      hr.participants, hr.liquidityProvided, hr.totalLiquidity, hr.settlement, hr.movements⟩⟩
  | setSettlementAssetAllowed asset allowed =>
    obtain ⟨-, frame, hb, hd⟩ := (enter_eq_ok_of_none rfl).mp h
    obtain ⟨-, rfl⟩ := setSettlementAssetAllowed_eq_ok.mp hb
    cases hd
    exact ⟨none, rfl, ⟨hr.profiles, hr.loggedIn, hr.lastLogins, hr.entries,
      hr.participants, hr.liquidityProvided, hr.totalLiquidity, hr.settlement, hr.movements⟩⟩
  | mintLong quantity leverage marginMode => exact enter_tells_opened hr rfl h
  | mintShort quantity leverage marginMode => exact enter_tells_opened hr rfl h
  | openCustomPosition order => exact enter_tells_opened hr rfl h
  | addLiquidity =>
    obtain ⟨frame, hb, hd⟩ := (enter_eq_ok_of_some rfl).mp h
    obtain ⟨-, provided, totalLiquidity, hp, ht, rfl⟩ := addLiquidity_eq_ok.mp hb
    cases hd
    exact ⟨some _, rfl, hr.addLiquidity hp ht⟩
  | removeLiquidity amount =>
    obtain ⟨-, frame, hb, hd⟩ := (enter_eq_ok_of_none rfl).mp h
    obtain ⟨provided, totalLiquidity, hp, ht, rfl⟩ := removeLiquidity_eq_ok.mp hb
    obtain ⟨-, rfl⟩ := depart_some.mp hd
    exact ⟨some _, late_commutes (removed_commutes _ _), rfl, hr.removeLiquidity hp ht, rfl⟩
  | settleContract =>
    obtain ⟨-, frame, hb, hd⟩ := (enter_eq_ok_of_none rfl).mp h
    obtain ⟨price, timestamp, -, -, -, -, -, rfl⟩ := settleContract_eq_ok.mp hb
    cases hd
    exact ⟨some _, rfl, ⟨hr.profiles, hr.loggedIn, hr.lastLogins, hr.entries,
      hr.participants, hr.liquidityProvided, hr.totalLiquidity, rfl, hr.movements⟩⟩
  | claimPayout =>
    obtain ⟨-, frame, hb, hd⟩ := (enter_eq_ok_of_none rfl).mp h
    obtain ⟨payout, -, rfl⟩ := claimPayout_eq_ok.mp hb
    split_ifs at hd with hpos
    · obtain ⟨-, rfl⟩ := depart_some.mp hd
      exact ⟨some _, late_commutes (claimed_commutes _ _), rfl, hr.claimPayout, rfl⟩
    · cases hd
      exact ⟨none, rfl, hr.closed⟩
  | emergencyWithdraw =>
    obtain ⟨-, frame, hb, hd⟩ := (enter_eq_ok_of_none rfl).mp h
    obtain ⟨-, -, rfl⟩ := emergencyWithdraw_eq_ok.mp hb
    obtain ⟨-, rfl⟩ := depart_some.mp hd
    refine ⟨none, fun e he => absurd he List.not_mem_nil, rfl, ?_, rfl⟩
    exact ⟨hr.profiles, hr.loggedIn, hr.lastLogins, hr.entries, hr.participants,
      hr.liquidityProvided, hr.totalLiquidity, hr.settlement, hr.movements⟩
  | receive =>
    obtain ⟨frame, hb, hd⟩ := (enter_eq_ok_of_some rfl).mp h
    cases hb
    cases hd
    exact ⟨none, rfl, ⟨hr.profiles, hr.loggedIn, hr.lastLogins, hr.entries,
      hr.participants, hr.liquidityProvided, hr.totalLiquidity, hr.settlement, hr.movements⟩⟩

end Call

/-! ## What the log tells -/

/-- The calls of a market report what they do, whatever the recipients of their transfers call. -/
theorem market_reports : Reports machine World.events Event.apply Report.Shows where
  done := by
    intro tx w s r hr he
    obtain ⟨event, hevents, hshows⟩ := enter_tells hr he
    exact ⟨event.toList, hevents, hshows⟩
  callout := by
    intro tx w s resume r hr he
    obtain ⟨event, hcomm, hevents, hshows, rfl⟩ := enter_tells hr he
    exact ⟨hevents, event.toList, hcomm, hshows, fun r' v => ⟨rfl, fun h => h.congr rfl rfl⟩⟩

/-- Nothing is known of a new market, which has no events. -/
theorem deploy_shows {d : Deployment} {w : World} (h : deploy d = .ok w) :
    Report.empty.Shows w ∧ w.events = [] := by
  obtain ⟨m, hm, hw⟩ := Checked.bind_eq_ok.mp h
  obtain rfl := Checked.pure_eq_ok.mp hw
  rw [construct, Checked.ensure_bind_eq_ok, Checked.bind_eq_ok] at hm
  obtain ⟨-, expiry, -, hm⟩ := hm
  obtain rfl := Checked.pure_eq_ok.mp hm
  exact ⟨⟨fun u => rfl, fun u hlogin => absurd rfl hlogin, fun u => rfl, fun t => rfl, rfl, rfl, rfl,
    rfl, rfl⟩, rfl⟩

/-- **The events tell the truth**: after every sequence of calls to a new market, in which the
recipients of transfers make any calls before these return, the replay of the event log shows the
names and the metadata of all users, the last logins of those that logged in (the others have that
of their registration), all positions as they were opened, in their order, the liquidity ledger, the
settlement, and, up to their order, all movements of native money but donations and withdrawals of
the owner. Later calls only add to the log. -/
theorem events_tell {d : Deployment} {w₀ : World} (h₀ : deploy d = .ok w₀)
    (ts : List (CallTree Tx)) :
    (replay Event.apply .empty (machine.execAll ts w₀).events).Shows (machine.execAll ts w₀) ∧
      ∀ later, (machine.execAll ts w₀).events <:+
        (machine.execAll later (machine.execAll ts w₀)).events := by
  obtain ⟨hempty, hnone⟩ := deploy_shows h₀
  obtain ⟨new, hlog, hshows⟩ := market_reports.run ts hempty
  rw [hnone, List.append_nil] at hlog
  rw [← hlog] at hshows
  refine ⟨hshows, fun later => ?_⟩
  obtain ⟨added, hlater, -⟩ := market_reports.run later hshows
  rw [hlater]
  exact List.suffix_append _ _

/-- The sample run up to its expiry, with a provider that removes the rest of its liquidity while it is
paid the first part. -/
def nestedRemovals : List (CallTree Tx) :=
  sampleOpening.map (fun tx => .node tx []) ++
    [.node ⟨quietEnv 4 0 1700000006, .removeLiquidity (3 * ether), none⟩
      [.node ⟨quietEnv 4 0 1700000006, .removeLiquidity (7 * ether), none⟩ []]]

/-- The events of nested removals come in the order in which they return, and tell the truth. -/
theorem events_tell_sample :
    ∃ w₀, deploy sampleDeployment = .ok w₀ ∧
      (machine.execAll nestedRemovals w₀).events.take 2 =
        [.LiquidityRemoved 4 (3 * ether), .LiquidityRemoved 4 (7 * ether)] ∧
      (machine.execAll nestedRemovals w₀).market.liquidityProvided 4 = 0 ∧
      (replay Event.apply .empty (machine.execAll nestedRemovals w₀).events).liquidityProvided 4 =
        0 := by
  obtain ⟨w₀, h₀, hp⟩ := Checked.exists_of_any (x := deploy sampleDeployment)
    (p := fun w₀ => decide ((machine.execAll nestedRemovals w₀).events.take 2 =
      [.LiquidityRemoved 4 (3 * ether), .LiquidityRemoved 4 (7 * ether)] ∧
      (machine.execAll nestedRemovals w₀).market.liquidityProvided 4 = 0)) (by decide +kernel)
  obtain ⟨hevents, hledger⟩ := of_decide_eq_true hp
  have hshows := (events_tell h₀ nestedRemovals).1
  refine ⟨w₀, h₀, hevents, hledger, ?_⟩
  rw [hshows.liquidityProvided]
  exact hledger

end GasCap
