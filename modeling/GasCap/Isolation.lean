import GasCap.Creators
import GasCap.Lib.Product
import GasCap.Ownerless

/-!
# Markets in isolation

A factory and its markets share no state that a call of a market reads or writes: a creation is a step
of the registry and of the address that the market comes to, and a call is a step of its market alone.
So the system is a `Product` of the registry and of all addresses (`systemProduct`), and messages can
be reordered as long as the creations stay in their order and so do the messages for each address
(`order_of_messages`). Each market of a factory is in the state in which its own calls would have left
it had it been deployed on its own (`market_runs_alone`), so what is true of every single market is
true of those of a factory. The events of the factory are its registry once more, with the
configuration that the markets report (`created_events`).
-/

namespace GasCap

open Machine

/-! ## The registry and the addresses -/

/-- The address of the market that a message creates or calls. -/
def Message.address : Message → Address
  | .createMarket _ _ address => address
  | .call market _ => market

/-- A factory and its events, the last ones first. -/
abbrev RegistryState := Factory × List FactoryEvent

/-- What a creation does to the registry. -/
def registryStep (self : Address) : Message → RegistryState → Except Revert RegistryState
  | .createMarket env params address, (factory, events) => do
    Checked.ensure .empty (env.value = 0 ∧ address ≠ self)
    let market ← deploy (params.deployment self env)
    return (factory.register ⟨address, env.sender, env.timestamp⟩,
      .MarketCreated address env.sender factory.markets.length params.strikePrice
        market.market.expiryTimestamp :: events)
  | .call .., _ => .error .empty

/-- What a message does at its address. -/
def addressStep (self : Address) : Message → Option World → Except Revert (Option World)
  | .createMarket env params _, none => do
    let market ← deploy (params.deployment self env)
    return some market
  | .call _ tx, some w => do
    let w' ← exec tx w
    return some w'
  | _, _ => .error .empty

section Steps

variable {self : Address} {env : Env} {params : MarketParams} {address : Address} {tx : Tx}

/-- The registry registers the creation of a market that can be deployed. -/
theorem registryStep_createMarket {r r' : RegistryState} :
    registryStep self (.createMarket env params address) r = .ok r' ↔
      (env.value = 0 ∧ address ≠ self) ∧ ∃ w, deploy (params.deployment self env) = .ok w ∧
        r' = (r.1.register ⟨address, env.sender, env.timestamp⟩,
          .MarketCreated address env.sender r.1.markets.length params.strikePrice
            w.market.expiryTimestamp :: r.2) := by
  unfold registryStep
  rw [Checked.ensure_bind_eq_ok, Checked.bind_eq_ok]
  simp only [Checked.pure_eq_ok]

/-- A market can be created where there is none. -/
theorem addressStep_createMarket {u u' : Option World} :
    addressStep self (.createMarket env params address) u = .ok u' ↔
      u = none ∧ ∃ w, deploy (params.deployment self env) = .ok w ∧ u' = some w := by
  cases u with
  | none =>
    rw [addressStep, Checked.bind_eq_ok, and_iff_right rfl]
    simp only [Checked.pure_eq_ok]
  | some w => exact ⟨fun h => (by cases h), fun h => by cases h.1⟩

/-- A market that is there can be called. -/
theorem addressStep_call {u u' : Option World} :
    addressStep self (.call address tx) u = .ok u' ↔
      ∃ w w', u = some w ∧ exec tx w = .ok w' ∧ u' = some w' := by
  cases u with
  | none => exact ⟨fun h => (by cases h), fun ⟨_, _, h, _⟩ => by cases h⟩
  | some w =>
    rw [addressStep, Checked.bind_eq_ok]
    simp only [Checked.pure_eq_ok, Option.some.injEq, exists_and_left, exists_eq_left']

end Steps

/-- The registry, or what is at an address. -/
def Part : Option Address → Type
  | none => RegistryState
  | some _ => Option World

/-- The state of the system is that of its registry and its addresses. -/
def Chain.parts : Chain ≃ ∀ k, Part k where
  toFun c
    | none => (c.factory, c.events)
    | some address => c.markets address
  invFun parts := ⟨(parts none).1, fun address => parts (some address), (parts none).2⟩
  left_inv _ := rfl
  right_inv parts := by
    funext k
    cases k <;> rfl

/-- States with the same registry and the same markets are the same. -/
theorem Chain.eq_of_parts {c : Chain} {factory : Factory} {events : List FactoryEvent}
    {markets : Address → Option World} (hregistry : (c.factory, c.events) = (factory, events))
    (hmarkets : c.markets = markets) : c = ⟨factory, markets, events⟩ := by
  obtain ⟨rfl, rfl⟩ := Prod.mk.inj hregistry
  rw [← hmarkets]

/-- Whether a part of the system takes part in a message. -/
def Message.concerns : Option Address → Message → Bool
  | none, msg => msg.isCreation
  | some address, msg => msg.address = address

/-- The step of a part of the system. -/
def partStep (self : Address) : ∀ k, Message → Part k → Except Revert (Part k)
  | none => registryStep self
  | some _ => addressStep self

/-- **A factory and its markets are a product** of the registry and all addresses. -/
def systemProduct (self : Address) : Product (Chain.step self) Part Revert where
  components := Chain.parts
  concerns := Message.concerns
  cstep := partStep self
  step_iff := by
    intro msg c c'
    rw [Option.forall]
    show _ ↔ (if msg.isCreation then
        registryStep self msg (c.factory, c.events) = .ok (c'.factory, c'.events)
        else (c'.factory, c'.events) = (c.factory, c.events)) ∧
      ∀ a, if decide (msg.address = a) then addressStep self msg (c.markets a) = .ok (c'.markets a)
        else c'.markets a = c.markets a
    simp only [decide_eq_true_eq]
    rw [changes_at_iff (R := fun a u => addressStep self msg (c.markets a) = .ok u)]
    cases msg with
    | createMarket env params address =>
      rw [step_createMarket, Message.isCreation, if_pos rfl, registryStep_createMarket]
      simp only [Message.address, addressStep_createMarket]
      constructor
      · rintro ⟨hvalue, hnone, hne, w, hw, rfl⟩
        exact ⟨⟨⟨hvalue, hne⟩, w, hw, rfl⟩, _, ⟨hnone, w, hw, rfl⟩, rfl⟩
      · rintro ⟨⟨⟨hvalue, hne⟩, w, hw, hregistry⟩, u, ⟨hnone, w', hw', rfl⟩, hmarkets⟩
        cases hw.symm.trans hw'
        exact ⟨hvalue, hnone, hne, w, hw, Chain.eq_of_parts hregistry hmarkets⟩
    | call address tx =>
      rw [step_call, Message.isCreation, if_neg Bool.false_ne_true]
      simp only [Message.address, addressStep_call]
      constructor
      · rintro ⟨w, w', hw, hexec, rfl⟩
        exact ⟨rfl, _, ⟨w, w', hw, hexec, rfl⟩, rfl⟩
      · rintro ⟨hregistry, u, ⟨w, w', hw, hexec, rfl⟩, hmarkets⟩
        exact ⟨w, w', hw, hexec, Chain.eq_of_parts hregistry hmarkets⟩

/-! ## The order of messages -/

/-- The creations among the messages. -/
def creations (msgs : List Message) : List Message := msgs.filter Message.isCreation

/-- The messages that create or call the market at an address. -/
def messagesFor (address : Address) (msgs : List Message) : List Message :=
  msgs.filter fun msg => msg.address = address

section Order

variable {self : Address} {c c' : Chain} {msgs msgs' : List Message}

/-- **Only the order at each address and that of the creations matters**: two sequences of messages in
which the creations come in the same order, and so do the messages for each address, are accepted in
the same states of the system and lead to the same states. -/
theorem order_of_messages (hcreations : creations msgs = creations msgs')
    (haddresses : ∀ address, messagesFor address msgs = messagesFor address msgs') :
    Run (Chain.step self) c msgs c' ↔ Run (Chain.step self) c msgs' c' := by
  apply (systemProduct self).run_congr
  intro k
  cases k with
  | none => exact hcreations
  | some address => exact haddresses address

/-- The registry makes a run of its own of the creations. -/
theorem run_registry (run : Run (Chain.step self) c msgs c') :
    Run (registryStep self) (c.factory, c.events) (creations msgs) (c'.factory, c'.events) :=
  (systemProduct self).run_component run none

/-- Each address makes a run of its own of the messages for it. -/
theorem run_address (run : Run (Chain.step self) c msgs c') (address : Address) :
    Run (addressStep self) (c.markets address) (messagesFor address msgs) (c'.markets address) :=
  (systemProduct self).run_component run (some address)

end Order

/-! ## Each market on its own -/

section Address

variable {self address : Address} {msgs : List Message} {u : Option World} {w : World}

/-- The calls among the calls of a market are these. -/
theorem callsTo_map_call (address : Address) (txs : List Tx) :
    callsTo address (txs.map (.call address)) = txs := by
  unfold callsTo
  rw [List.filterMap_map]
  simp

/-- The calls of a market are among the messages for its address. -/
theorem callsTo_messagesFor (address : Address) (msgs : List Message) :
    callsTo address (messagesFor address msgs) = callsTo address msgs := by
  unfold callsTo messagesFor
  rw [List.filterMap_filter]
  apply List.filterMap_congr
  intro msg _
  cases msg with
  | createMarket env params address => exact ite_self _
  | call market tx =>
    by_cases hm : market = address <;> simp [Message.address, hm]

/-- From a market on, what is accepted at an address are calls that the market accepts. -/
theorem run_addressStep_some (hmsgs : ∀ msg ∈ msgs, msg.address = address) :
    Run (addressStep self) (some w) msgs u ↔
      ∃ txs w', msgs = txs.map (.call address) ∧ Run exec w txs w' ∧ u = some w' := by
  induction msgs generalizing w with
  | nil =>
    constructor
    · intro run
      exact ⟨[], w, rfl, .nil w, run.eq_of_nil⟩
    · rintro ⟨txs, w', htxs, run, rfl⟩
      obtain rfl := List.map_eq_nil_iff.mp htxs.symm
      rw [run.eq_of_nil]
      exact .nil _
  | cons msg msgs ih =>
    have hrest : ∀ msg ∈ msgs, msg.address = address :=
      fun m hm => hmsgs m (List.mem_cons_of_mem _ hm)
    obtain rfl : msg.address = address := hmsgs msg List.mem_cons_self
    constructor
    · intro run
      cases run with
      | cons _ accepted rest =>
        cases msg with
        | createMarket env params address => cases (addressStep_createMarket.mp accepted).1
        | call address tx =>
          obtain ⟨_, w₁, hw, hexec, rfl⟩ := addressStep_call.mp accepted
          cases hw
          obtain ⟨txs, w', rfl, run, hu⟩ := (ih hrest).mp rest
          exact ⟨tx :: txs, w', rfl, .cons trivial hexec run, hu⟩
    · rintro ⟨txs, w', htxs, run, hu⟩
      cases txs with
      | nil => cases htxs
      | cons tx txs =>
        rw [List.map_cons] at htxs
        obtain ⟨hmsg, rfl⟩ := List.cons.inj htxs
        cases run with
        | cons _ accepted rest =>
          rw [hmsg]
          exact .cons trivial (addressStep_call.mpr ⟨w, _, rfl, accepted, rfl⟩)
            ((ih hrest).mpr ⟨txs, w', rfl, rest, hu⟩)

/-- Where there is no market, what is accepted at an address is nothing, or the creation of a market and
calls that it accepts. -/
theorem run_addressStep_none (hmsgs : ∀ msg ∈ msgs, msg.address = address) :
    Run (addressStep self) none msgs u ↔
      (msgs = [] ∧ u = none) ∨ ∃ env params txs w,
        msgs = .createMarket env params address :: txs.map (.call address) ∧
          launch (params.deployment self env) txs = .ok w ∧ u = some w := by
  cases msgs with
  | nil =>
    constructor
    · exact fun run => .inl ⟨rfl, run.eq_of_nil⟩
    · rintro (⟨-, rfl⟩ | ⟨_, _, _, _, hmsgs, -⟩)
      · exact .nil _
      · cases hmsgs
  | cons msg msgs =>
    have hrest : ∀ msg ∈ msgs, msg.address = address :=
      fun m hm => hmsgs m (List.mem_cons_of_mem _ hm)
    obtain rfl : msg.address = address := hmsgs msg List.mem_cons_self
    constructor
    · intro run
      cases run with
      | cons _ accepted rest =>
        cases msg with
        | createMarket env params address =>
          obtain ⟨-, w₀, h₀, rfl⟩ := addressStep_createMarket.mp accepted
          obtain ⟨txs, w, htxs, run, hu⟩ := (run_addressStep_some hrest).mp rest
          exact .inr ⟨env, params, txs, w, by rw [htxs]; rfl, launch_eq_ok.mpr ⟨w₀, h₀, run⟩, hu⟩
        | call address tx =>
          obtain ⟨_, _, hnone, -, -⟩ := addressStep_call.mp accepted
          cases hnone
    · rintro (⟨hnil, -⟩ | ⟨env, params, txs, w, hcons, hlaunch, hu⟩)
      · cases hnil
      · obtain ⟨hmsg, hmsgs⟩ := List.cons.inj hcons
        obtain ⟨w₀, h₀, run⟩ := launch_eq_ok.mp hlaunch
        have hcreate : addressStep self msg none = .ok (some w₀) := by
          rw [hmsg]
          exact addressStep_createMarket.mpr ⟨rfl, w₀, h₀, rfl⟩
        exact .cons trivial hcreate ((run_addressStep_some hrest).mpr ⟨txs, w, hmsgs, run, hu⟩)

end Address

section Factory

variable {self : Address} {env : Env} {c₀ c : Chain} {msgs : List Message}

/-- The messages for an address have it. -/
theorem address_of_mem {address : Address} {msg : Message} (h : msg ∈ messagesFor address msgs) :
    msg.address = address :=
  of_decide_eq_true (List.mem_filter.mp h).2

/-- In a run from the deployment of a factory, the messages for an address are none, or the creation
of a market and calls of it, which lead to the market there when it is deployed by itself. -/
theorem run_launched (h₀ : deployFactory env = .ok c₀) (run : Run (Chain.step self) c₀ msgs c)
    (address : Address) :
    (messagesFor address msgs = [] ∧ c.markets address = none) ∨
      ∃ creation params txs w,
        messagesFor address msgs = .createMarket creation params address :: txs.map (.call address) ∧
          launch (params.deployment self creation) txs = .ok w ∧ c.markets address = some w := by
  obtain ⟨-, -, hempty⟩ := deployFactory_consistent h₀
  have haddress := run_address run address
  rwa [hempty, run_addressStep_none fun msg => address_of_mem] at haddress

/-- **A market of a factory is a market on its own**: in every run from the deployment of a factory, an
address without a market has had no message, and the messages for any other are the creation of the
market and after it calls. The market is in the state to which these calls lead when it is deployed by
itself, whatever the messages for other addresses and their order. -/
theorem market_runs_alone (h₀ : deployFactory env = .ok c₀)
    (run : Run (Chain.step self) c₀ msgs c) (address : Address) :
    (messagesFor address msgs = [] ∧ c.markets address = none) ∨
      ∃ creation params w,
        messagesFor address msgs =
          .createMarket creation params address :: (callsTo address msgs).map (.call address) ∧
        launch (params.deployment self creation) (callsTo address msgs) = .ok w ∧
        c.markets address = some w := by
  rcases run_launched h₀ run address with hnone | ⟨creation, params, txs, w, hmsgs, hlaunch, hw⟩
  · exact .inl hnone
  · have hcalls : callsTo address msgs = txs := by
      rw [← callsTo_messagesFor, hmsgs]
      exact callsTo_map_call address txs
    rw [hcalls]
    exact .inr ⟨creation, params, w, hmsgs, hlaunch, hw⟩

/-- The registry accepts all creations of markets that can be deployed. -/
theorem exists_run_registry {msgs : List Message} (r : RegistryState)
    (h : ∀ msg ∈ msgs, ∃ env params address, msg = .createMarket env params address ∧
      (env.value = 0 ∧ address ≠ self) ∧ ∃ w, deploy (params.deployment self env) = .ok w) :
    ∃ r', Run (registryStep self) r msgs r' := by
  induction msgs generalizing r with
  | nil => exact ⟨r, .nil r⟩
  | cons msg msgs ih =>
    obtain ⟨env, params, address, rfl, hcreation, w, hw⟩ := h msg List.mem_cons_self
    have hstep := registryStep_createMarket (r := r).mpr ⟨hcreation, w, hw, rfl⟩
    obtain ⟨r', run⟩ := ih _ fun m hm => h m (List.mem_cons_of_mem _ hm)
    exact ⟨r', .cons trivial hstep run⟩

/-- **Which sequences of messages are accepted**: those whose creations carry no value and come to an
address other than the factory's, and in which the messages for each address are none, or the creation
of a market and after it calls that this market accepts when it is deployed by itself. -/
theorem factory_accepts_iff (h₀ : deployFactory env = .ok c₀) :
    (∃ c, Run (Chain.step self) c₀ msgs c) ↔
      (∀ creation params address, .createMarket creation params address ∈ msgs →
        creation.value = 0 ∧ address ≠ self) ∧
      ∀ address, messagesFor address msgs = [] ∨ ∃ creation params txs w,
        messagesFor address msgs =
          .createMarket creation params address :: txs.map (.call address) ∧
        launch (params.deployment self creation) txs = .ok w := by
  obtain ⟨-, -, hempty⟩ := deployFactory_consistent h₀
  constructor
  · rintro ⟨c, run⟩
    refine ⟨fun creation params address hmem => ?_, fun address => ?_⟩
    · have hcreations : ∀ msg ∈ creations msgs, ∀ creation params address,
          msg = .createMarket creation params address → creation.value = 0 ∧ address ≠ self := by
        refine (run_registry run).forall_mem (I := fun _ => True) (fun _ _ _ _ _ _ => trivial) ?_
          trivial
        rintro _ r r' - - accepted creation params address rfl
        exact (registryStep_createMarket.mp accepted).1
      exact hcreations _ (List.mem_filter.mpr ⟨hmem, rfl⟩) creation params address rfl
    · rcases run_launched h₀ run address with ⟨hnil, -⟩ | ⟨creation, params, txs, w, h, hw, -⟩
      · exact .inl hnil
      · exact .inr ⟨creation, params, txs, w, h, hw⟩
  · rintro ⟨hvalues, haddresses⟩
    -- What the messages for an address leave there.
    have hslot : ∀ address, ∃ u, Run (addressStep self) (c₀.markets address)
        (messagesFor address msgs) u := by
      intro address
      rw [hempty]
      rcases haddresses address with hnil | ⟨creation, params, txs, w, hmsgs, hw⟩
      · exact ⟨none, (run_addressStep_none fun _ => address_of_mem).mpr (.inl ⟨hnil, rfl⟩)⟩
      · exact ⟨some w, (run_addressStep_none fun _ => address_of_mem).mpr
          (.inr ⟨creation, params, txs, w, hmsgs, hw, rfl⟩)⟩
    have hdeployed : ∀ msg ∈ creations msgs, ∃ env params address,
        msg = .createMarket env params address ∧ (env.value = 0 ∧ address ≠ self) ∧
          ∃ w, deploy (params.deployment self env) = .ok w := by
      intro msg hmsg
      obtain ⟨hmem, hcreation⟩ := List.mem_filter.mp hmsg
      cases msg with
      | call address tx => cases hcreation
      | createMarket env params address =>
        refine ⟨env, params, address, rfl, hvalues env params address hmem, ?_⟩
        have hfor : .createMarket env params address ∈ messagesFor address msgs :=
          List.mem_filter.mpr ⟨hmem, decide_eq_true rfl⟩
        rcases haddresses address with hnil | ⟨creation, params', txs, w, hmsgs, hw⟩
        · rw [hnil] at hfor
          cases hfor
        · rw [hmsgs] at hfor
          obtain ⟨w₀, h₀, -⟩ := launch_eq_ok.mp hw
          rcases List.mem_cons.mp hfor with hfirst | hcall
          · cases hfirst
            exact ⟨w₀, h₀⟩
          · obtain ⟨tx, -, htx⟩ := List.mem_map.mp hcall
            cases htx
    obtain ⟨r, hregistry⟩ := exists_run_registry (c₀.factory, c₀.events) hdeployed
    choose u hu using hslot
    refine ⟨⟨r.1, u, r.2⟩, (systemProduct self).run_iff.mpr fun k => ?_⟩
    cases k with
    | none => exact hregistry
    | some address => exact hu address

end Factory

/-! ## The events of a factory -/

section Events

variable {self : Address} {env : Env} {c₀ c c' : Chain} {msg : Message} {msgs : List Message}

/-- The event is that of the creation of the market in an entry, with the configuration that the
market reports. -/
def Announces (c : Chain) (index : ℕ) (event : FactoryEvent) : Prop :=
  ∃ info w, getMarket index c.factory = .ok info ∧ c.markets info.market = some w ∧
    event = .MarketCreated info.market info.creator index (getMarketInfo w.market).strikePrice
      (getMarketInfo w.market).expiryTimestamp

/-- The events, in the order in which they were emitted, are those of the entries of the registry. -/
structure Announced (c : Chain) : Prop where
  length_eq : c.events.length = marketsCount c.factory
  announces : ∀ {index event}, c.events.reverse[index]? = some event → Announces c index event

/-- A market that is there stays, and a message is a call of it or leaves it. -/
theorem step_market_kept {address : Address} {w : World} (hw : c.markets address = some w)
    (h : Chain.step self msg c = .ok c') :
    ∃ w', c'.markets address = some w' ∧ (w' = w ∨ ∃ tx, exec tx w = .ok w') := by
  cases msg with
  | createMarket env params address' =>
    obtain ⟨-, hnone, -, w', -, rfl⟩ := step_createMarket.mp h
    have hne : address ≠ address' := by
      rintro rfl
      rw [hnone] at hw
      cases hw
    exact ⟨w, by rw [← hw]; exact Function.update_of_ne hne _ _, .inl rfl⟩
  | call market tx =>
    obtain ⟨u, u', hu, hexec, rfl⟩ := step_call.mp h
    rcases eq_or_ne address market with rfl | hne
    · cases hu.symm.trans hw
      exact ⟨u', Function.update_self .., .inr ⟨tx, hexec⟩⟩
    · exact ⟨w, by rw [← hw]; exact Function.update_of_ne hne _ _, .inl rfl⟩

/-- A market keeps the configuration that it was created with. -/
theorem step_configuration {address : Address} {w : World} (hw : c.markets address = some w)
    (h : Chain.step self msg c = .ok c') :
    ∃ w', c'.markets address = some w' ∧ w'.market.strikePrice = w.market.strikePrice ∧
      w'.market.expiryTimestamp = w.market.expiryTimestamp := by
  obtain ⟨w', hw', hmove⟩ := step_market_kept hw h
  refine ⟨w', hw', ?_⟩
  rcases hmove with rfl | ⟨tx, hexec⟩
  · exact ⟨rfl, rfl⟩
  · exact (exec_effect hexec).strike_expiry

/-- What an event announces stays as it is. -/
theorem Announces.step {index : ℕ} {event : FactoryEvent} (ha : Announces c index event)
    (h : Chain.step self msg c = .ok c') : Announces c' index event := by
  obtain ⟨info, w, hinfo, hw, rfl⟩ := ha
  obtain ⟨w', hw', hstrike, hexpiry⟩ := step_configuration hw h
  have hentry : getMarket index c'.factory = .ok info :=
    getMarket_of_prefix (run_markets (.single trivial h)) hinfo
  refine ⟨info, w', hentry, hw', ?_⟩
  unfold getMarketInfo
  rw [hstrike, hexpiry]

/-- A message keeps the events those of the registry. -/
theorem step_announced (ha : Announced c) (h : Chain.step self msg c = .ok c') : Announced c' := by
  have hkept : ∀ {index event}, c.events.reverse[index]? = some event → Announces c' index event :=
    fun hevent => (ha.announces hevent).step h
  cases msg with
  | createMarket env params address =>
    obtain ⟨-, -, -, w, hw, rfl⟩ := step_createMarket.mp h
    have hlength := ha.length_eq
    refine ⟨?_, fun {index event} hevent => ?_⟩
    · simp only [List.length_cons, marketsCount, Factory.register, List.length_append,
        List.length_nil, hlength]
    · rw [List.reverse_cons] at hevent
      rcases lt_or_ge index c.events.reverse.length with hlt | hge
      · rw [List.getElem?_append_left hlt] at hevent
        exact hkept hevent
      -- The last event is that of the creation.
      · rw [List.getElem?_append_right hge, List.getElem?_singleton] at hevent
        split_ifs at hevent with hlast
        have hindex : index = c.factory.markets.length := by
          rw [List.length_reverse, hlength] at hge hlast
          unfold marketsCount at hge hlast
          omega
        cases hevent
        subst hindex
        refine ⟨_, w, getMarket_eq_ok.mpr (List.getElem?_concat_length ..),
          Function.update_self .., ?_⟩
        have hstrike : (getMarketInfo w.market).strikePrice = params.strikePrice :=
          (deploy_strike_expiry hw).1
        rw [hstrike]
        rfl
  | call market tx =>
    obtain ⟨w, w', -, -, rfl⟩ := step_call.mp h
    exact ⟨ha.length_eq, hkept⟩

/-- **The events of a factory are its registry**: in every run from its deployment, a factory has
emitted as many events as it has markets. The event at an index, counted in the order of the emissions,
has the index, the address, and the creator of the entry of the registry there, and the strike and the
expiry that the market reports, at the end of the run as at its creation. -/
theorem created_events (h₀ : deployFactory env = .ok c₀)
    (run : Run (Chain.step self) c₀ msgs c) :
    c.events.length = marketsCount c.factory ∧
      ∀ index, index < marketsCount c.factory → ∃ info w,
        getMarket index c.factory = .ok info ∧ c.markets info.market = some w ∧
          c.events.reverse[index]? = some (.MarketCreated info.market info.creator index
            (getMarketInfo w.market).strikePrice (getMarketInfo w.market).expiryTimestamp) := by
  have hempty : Announced c₀ := by
    obtain ⟨f, hf, hc⟩ := Checked.bind_eq_ok.mp h₀
    obtain rfl := Checked.pure_eq_ok.mp hc
    rw [constructFactory, Checked.ensure_bind_eq_ok] at hf
    obtain rfl := Checked.pure_eq_ok.mp hf.2
    exact ⟨rfl, fun hevent => by cases hevent⟩
  have ha : Announced c := run.invariant (fun _ _ _ _ hc h => step_announced hc h) hempty
  refine ⟨ha.length_eq, fun index hindex => ?_⟩
  have hlt : index < c.events.reverse.length := by
    rw [List.length_reverse, ha.length_eq]
    exact hindex
  have hevent := List.getElem?_eq_getElem hlt
  obtain ⟨info, w, hinfo, hw, heq⟩ := ha.announces hevent
  exact ⟨info, w, hinfo, hw, by rw [hevent, heq]⟩

end Events

/-! ## Sample runs -/

/-- The messages of the sample run, where the trader registers and opens its position before the other
two markets are created. -/
def reorderedMessages : List Message :=
  (sampleMessages.take 1 ++ sampleMessages.drop 3) ++ (sampleMessages.drop 1).take 2

/-- The trader can open its position before the other markets are there. -/
theorem order_of_messages_sample :
    ∃ c, launchFactory sampleFactory (quietEnv 1 0 1700000000) sampleMessages = .ok c ∧
      launchFactory sampleFactory (quietEnv 1 0 1700000000) reorderedMessages = .ok c := by
  obtain ⟨c, hc, -⟩ := exists_launchFactory sampleFactory (quietEnv 1 0 1700000000) sampleMessages
    (fun _ => true) (by decide +kernel)
  obtain ⟨c₀, h₀, run⟩ := launchFactory_eq_ok.mp hc
  refine ⟨c, hc, launchFactory_eq_ok.mpr ⟨c₀, h₀, ?_⟩⟩
  have hcreations : creations sampleMessages = creations reorderedMessages := rfl
  refine (order_of_messages hcreations fun address => ?_).mp run
  -- The address is that of one of the three markets, or has no message.
  by_cases h₁ : (0xA1 : Address) = address
  · subst h₁
    rfl
  by_cases h₂ : (0xA2 : Address) = address
  · subst h₂
    rfl
  by_cases h₃ : (0xA3 : Address) = address
  · subst h₃
    rfl
  simp [messagesFor, reorderedMessages, sampleMessages, Message.address, h₁, h₂, h₃]

/-- The first market of the sample run has had two calls since its creation. -/
theorem market_runs_alone_sample :
    ∃ c w, launchFactory sampleFactory (quietEnv 1 0 1700000000) sampleMessages = .ok c ∧
      c.markets 0xA1 = some w ∧ ∃ creation, ∃ params : MarketParams,
        launch (params.deployment sampleFactory creation) (callsTo 0xA1 sampleMessages) = .ok w := by
  obtain ⟨c, hc, -⟩ := exists_launchFactory sampleFactory (quietEnv 1 0 1700000000) sampleMessages
    (fun _ => true) (by decide +kernel)
  obtain ⟨c₀, h₀, run⟩ := launchFactory_eq_ok.mp hc
  rcases market_runs_alone h₀ run 0xA1 with ⟨hnil, -⟩ | ⟨creation, params, w, -, hlaunch, hw⟩
  · cases hnil
  · exact ⟨c, w, hc, hw, creation, params, hlaunch⟩

/-- A call before the creation of its market is not accepted. -/
theorem factory_accepts_iff_sample :
    ∃ c₀, deployFactory (quietEnv 1 0 1700000000) = .ok c₀ ∧
      ¬ ∃ c, Run (Chain.step sampleFactory) c₀ sampleMessages.reverse c := by
  obtain ⟨c₀, h₀, -⟩ := Checked.exists_of_any (x := deployFactory (quietEnv 1 0 1700000000))
    (p := fun _ => true) (by decide +kernel)
  refine ⟨c₀, h₀, fun haccepted => ?_⟩
  obtain ⟨-, haddresses⟩ := (factory_accepts_iff h₀).mp haccepted
  rcases haddresses 0xA1 with hnil | ⟨creation, params, txs, w, hmsgs, -⟩
  · cases hnil
  · cases hmsgs

/-- The events of the sample run tell of three markets. -/
theorem created_events_sample :
    ∃ c, launchFactory sampleFactory (quietEnv 1 0 1700000000) sampleMessages = .ok c ∧
      marketsCount c.factory = 3 ∧ c.events.length = 3 := by
  obtain ⟨c, hc, hp⟩ := exists_launchFactory sampleFactory (quietEnv 1 0 1700000000) sampleMessages
    (fun c => decide (marketsCount c.factory = 3)) (by decide +kernel)
  obtain ⟨c₀, h₀, run⟩ := launchFactory_eq_ok.mp hc
  have hcount := of_decide_eq_true hp
  exact ⟨c, hc, hcount, (created_events h₀ run).1.trans hcount⟩

end GasCap
