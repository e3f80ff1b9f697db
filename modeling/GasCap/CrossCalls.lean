import GasCap.Isolation
import GasCap.Serialization

/-!
# Calls across markets

A recipient of a native transfer may call the market back, and as well any other market, or the
factory; what the 2300 gas of `transfer` keep it from doing is not left out here. `system` is the machine
of all these calls: a message to the factory or to one of its markets, which may hand over control with
the transfer of its market, and is resumed on whatever the calls in between have made of this market. Its
messages are `Serial` for the factory, its events, and the books of all markets (`system_serial`), so no
nesting of calls across markets comes to more than a sequence of messages (`cross_calls_serial`), and a
recipient finds the registry and the markets as plain messages leave them (`callbacks_find_order`).
-/

namespace GasCap

open Machine

/-! ## The machine of the system -/

/-- Changes the market at an address. -/
def Chain.modify (c : Chain) (a : Address) (f : World → World) : Chain :=
  { c with markets := Function.update c.markets a ((c.markets a).map f) }

/-- Puts a market at an address. -/
def Chain.put (c : Chain) (a : Address) (w : World) : Chain :=
  { c with markets := Function.update c.markets a (some w) }

/-- Runs a message to its end or to the native transfer of the market that it calls. A creation makes no
transfer. -/
def Chain.enter (self : Address) : Message → Chain → Except Revert (Progress Chain)
  | .createMarket env params address, c => do
    let c' ← Chain.step self (.createMarket env params address) c
    return .done c'
  | .call a tx, c =>
    match c.markets a with
    | none => .error .empty
    | some w =>
      match GasCap.enter tx w with
      | .error e => .error e
      | .ok (.done w') => .ok (.done (c.put a w'))
      -- What is left to do is done on the market as the recipient leaves it.
      | .ok (.callout w' resume) => .ok (.callout (c.put a w') fun c => c.modify a resume)

/-- What the recipient of the transfer of a message reverts with, if it does. -/
def Message.rejection : Message → Option Revert
  | .createMarket .. => none
  | .call _ tx => tx.rejection

/-- The machine of the messages to the factory at `self` and its markets. -/
def system (self : Address) : CallMachine Chain Message Revert where
  enter := Chain.enter self
  rejection := Message.rejection

theorem system_enter (self : Address) (msg : Message) (c : Chain) :
    (system self).enter msg c = Chain.enter self msg c := rfl

/-- Changing a market that was put at an address puts the changed one there. -/
theorem modify_put (c : Chain) (a : Address) (w : World) (f : World → World) :
    (c.put a w).modify a f = c.put a (f w) := by
  have hmap : (Function.update c.markets a (some w) a).map f = some (f w) := by
    rw [Function.update_self, Option.map_some]
  unfold Chain.modify Chain.put
  dsimp only
  rw [hmap, Function.update_idem]

section Enter

variable {self : Address} {c c' : Chain} {a : Address} {tx : Tx}

/-- A creation is entered and done at once. -/
theorem enter_createMarket {env : Env} {params : MarketParams} {p : Progress Chain} :
    (system self).enter (.createMarket env params a) c = .ok p ↔
      ∃ c', Chain.step self (.createMarket env params a) c = .ok c' ∧ p = .done c' := by
  rw [system_enter, Chain.enter, Checked.bind_eq_ok]
  constructor
  · rintro ⟨c', hc', hp⟩
    exact ⟨c', hc', (Except.ok.inj hp).symm⟩
  · rintro ⟨c', hc', rfl⟩
    exact ⟨c', hc', rfl⟩

/-- A call of a market is done where the market has done it. -/
theorem enter_call_done :
    (system self).enter (.call a tx) c = .ok (.done c') ↔
      ∃ w w', c.markets a = some w ∧ enter tx w = .ok (.done w') ∧ c' = c.put a w' := by
  rw [system_enter, Chain.enter]
  cases c.markets a with
  | none => exact ⟨fun h => (by cases h), fun ⟨_, _, h, _⟩ => by cases h⟩
  | some w =>
    dsimp only
    constructor
    · intro h
      split at h
      · cases h
      · cases h
        exact ⟨w, _, rfl, ‹_›, rfl⟩
      · cases h
    · rintro ⟨w₁, w', hw, he, rfl⟩
      cases hw
      rw [he]

/-- A call of a market hands over control where the market does. -/
theorem enter_call_callout {resume : Chain → Chain} :
    (system self).enter (.call a tx) c = .ok (.callout c' resume) ↔
      ∃ w w' r, c.markets a = some w ∧ enter tx w = .ok (.callout w' r) ∧ c' = c.put a w' ∧
        resume = fun c => c.modify a r := by
  rw [system_enter, Chain.enter]
  cases c.markets a with
  | none => exact ⟨fun h => (by cases h), fun ⟨_, _, _, h, _⟩ => by cases h⟩
  | some w =>
    dsimp only
    constructor
    · intro h
      split at h
      · cases h
      · cases h
      · cases h
        exact ⟨w, _, _, rfl, ‹_›, rfl, rfl⟩
    · rintro ⟨w₁, w', r, hw, he, rfl, rfl⟩
      cases hw
      rw [he]

/-- A message whose recipient makes no calls is a step of the system. -/
theorem system_step {msg : Message} :
    (system self).step msg c = .ok c' ↔ Chain.step self msg c = .ok c' := by
  rw [CallMachine.step_eq_ok]
  cases msg with
  | createMarket env params address =>
    constructor
    · rintro (hdone | ⟨c₁, resume, hcallout, -⟩)
      · obtain ⟨c₁, hstep, hp⟩ := enter_createMarket.mp hdone
        cases hp
        exact hstep
      · obtain ⟨c₁, -, hp⟩ := enter_createMarket.mp hcallout
        cases hp
    · intro hstep
      exact .inl (enter_createMarket.mpr ⟨c', hstep, rfl⟩)
  | call a tx =>
    rw [step_call]
    constructor
    · rintro (hdone | ⟨c₁, resume, hcallout, hrejection, rfl⟩)
      · obtain ⟨w, w', hw, he, rfl⟩ := enter_call_done.mp hdone
        exact ⟨w, w', hw, CallMachine.step_eq_ok.mpr (.inl he), rfl⟩
      · obtain ⟨w, w₁, r, hw, he, rfl, rfl⟩ := enter_call_callout.mp hcallout
        refine ⟨w, r w₁, hw, CallMachine.step_eq_ok.mpr (.inr ⟨w₁, r, he, hrejection, rfl⟩), ?_⟩
        exact modify_put c a w₁ r
    · rintro ⟨w, w', hw, hexec, rfl⟩
      rcases CallMachine.step_eq_ok.mp hexec with he | ⟨w₁, r, he, hrejection, rfl⟩
      · have hdone : (system self).enter (.call a tx) c = .ok (.done (c.put a w')) :=
          enter_call_done.mpr ⟨w, w', hw, he, rfl⟩
        exact .inl hdone
      · have hcallout : (system self).enter (.call a tx) c =
            .ok (.callout (c.put a w₁) fun c => c.modify a r) :=
          enter_call_callout.mpr ⟨w, w₁, r, hw, he, rfl, rfl⟩
        exact .inr ⟨_, _, hcallout, hrejection, (modify_put c a w₁ r).symm⟩

/-- So a run of such messages is a run of the system. -/
theorem run_system_iff {msgs : List Message} :
    Run (system self).step c msgs c' ↔ Run (Chain.step self) c msgs c' :=
  ⟨fun run => run.congr fun _ _ _ h => system_step.mp h,
    fun run => run.congr fun _ _ _ h => system_step.mpr h⟩

end Enter

/-! ## What the messages depend on -/

/-- What a factory and its markets have written: the storage and the events of the factory, and the
books of the markets. -/
def Chain.ledger (c : Chain) :
    Factory × List FactoryEvent × (Address → Option (Market × List Movement)) :=
  (c.factory, c.events, fun a => (c.markets a).map World.books)

section Ledger

variable {self : Address} {c c' d : Chain} {a : Address} {w v : World}

/-- With the same ledger, there is a market with the same books at the same address. -/
theorem books_of_ledger (h : d.ledger = c.ledger) (hw : c.markets a = some w) :
    ∃ v, d.markets a = some v ∧ v.books = w.books := by
  have hmarkets : (d.markets a).map World.books = (c.markets a).map World.books :=
    congrFun (congrArg (fun ledger => ledger.2.2) h) a
  rw [hw, Option.map_some, Option.map_eq_some_iff] at hmarkets
  exact hmarkets

/-- With the same ledger, there is a contract at the same addresses. -/
theorem none_of_ledger (h : d.ledger = c.ledger) (hnone : c.markets a = none) :
    d.markets a = none := by
  have hmarkets : (d.markets a).map World.books = (c.markets a).map World.books :=
    congrFun (congrArg (fun ledger => ledger.2.2) h) a
  rw [hnone, Option.map_none, Option.map_eq_none_iff] at hmarkets
  exact hmarkets

/-- Markets with the same books, put at an address, leave the same ledger. -/
theorem ledger_put (h : d.ledger = c.ledger) (hbooks : v.books = w.books) :
    (d.put a v).ledger = (c.put a w).ledger := by
  obtain ⟨hfactory, hrest⟩ := Prod.mk.inj h
  obtain ⟨hevents, hmarkets⟩ := Prod.mk.inj hrest
  refine Prod.ext hfactory (Prod.ext hevents ?_)
  funext b
  show (Function.update d.markets a (some v) b).map World.books =
    (Function.update c.markets a (some w) b).map World.books
  rcases eq_or_ne b a with rfl | hne
  · rw [Function.update_self, Function.update_self, Option.map_some, Option.map_some, hbooks]
  · rw [Function.update_of_ne hne, Function.update_of_ne hne]
    exact congrFun hmarkets b

/-- A change that leaves the books of a market leaves the ledger. -/
theorem ledger_modify {f : World → World} (hf : ∀ w, (f w).books = w.books) :
    (c.modify a f).ledger = c.ledger := by
  refine Prod.ext rfl (Prod.ext rfl ?_)
  funext b
  show (Function.update c.markets a ((c.markets a).map f) b).map World.books =
    (c.markets b).map World.books
  rcases eq_or_ne b a with rfl | hne
  · rw [Function.update_self, Option.map_map]
    exact congrArg (fun g => (c.markets b).map g) (funext hf)
  · rw [Function.update_of_ne hne]

/-- A creation that is carried out on one system is carried out on another with the same ledger, and
leaves the same one. -/
theorem create_serial {env : Env} {params : MarketParams} (h : d.ledger = c.ledger)
    (hc : Chain.step self (.createMarket env params a) c = .ok c') :
    ∃ d', Chain.step self (.createMarket env params a) d = .ok d' ∧ d'.ledger = c'.ledger := by
  obtain ⟨hvalue, hnone, hne, w, hw, rfl⟩ := step_createMarket.mp hc
  have hstep := step_createMarket.mpr ⟨hvalue, none_of_ledger h hnone, hne, w, hw, rfl⟩
  refine ⟨_, hstep, ?_⟩
  obtain ⟨hfactory, hrest⟩ := Prod.mk.inj h
  obtain ⟨hevents, -⟩ := Prod.mk.inj hrest
  have hmarkets : (d.put a w).ledger.2.2 = (c.put a w).ledger.2.2 :=
    congrArg (fun ledger => ledger.2.2) (ledger_put h rfl)
  rw [hfactory, hevents]
  exact Prod.ext rfl (Prod.ext rfl hmarkets)

/-- **The messages of the system are serial** for its ledger. -/
theorem system_serial (self : Address) : (system self).Serial Chain.ledger where
  done := by
    intro msg c d c' hd hmsg
    cases msg with
    | createMarket env params address =>
      obtain ⟨c₁, hstep, hp⟩ := enter_createMarket.mp hmsg
      cases hp
      obtain ⟨d', hstep', hledger⟩ := create_serial hd hstep
      exact ⟨d', enter_createMarket.mpr ⟨d', hstep', rfl⟩, hledger⟩
    | call a tx =>
      obtain ⟨w, w', hw, he, rfl⟩ := enter_call_done.mp hmsg
      obtain ⟨v, hv, hbooks⟩ := books_of_ledger hd hw
      obtain ⟨v', he', hbooks'⟩ := market_serial.done hbooks he
      have hdone : (system self).enter (.call a tx) d = .ok (.done (d.put a v')) :=
        enter_call_done.mpr ⟨v, v', hv, he', rfl⟩
      exact ⟨_, hdone, ledger_put hd hbooks'⟩
  callout := by
    intro msg c d c₁ resume hd hmsg
    cases msg with
    | createMarket env params address =>
      obtain ⟨c₁, -, hp⟩ := enter_createMarket.mp hmsg
      cases hp
    | call a tx =>
      obtain ⟨w, w₁, r, hw, he, rfl, rfl⟩ := enter_call_callout.mp hmsg
      obtain ⟨v, hv, hbooks⟩ := books_of_ledger hd hw
      obtain ⟨v₁, r', he', hbooks'⟩ := market_serial.callout hbooks he
      have hcallout : (system self).enter (.call a tx) d =
          .ok (.callout (d.put a v₁) fun c => c.modify a r') :=
        enter_call_callout.mpr ⟨v, v₁, r', hv, he', rfl, rfl⟩
      exact ⟨_, _, hcallout, ledger_put hd hbooks'⟩
  resume := by
    intro msg c c₁ resume d hmsg
    cases msg with
    | createMarket env params address =>
      obtain ⟨c₁, -, hp⟩ := enter_createMarket.mp hmsg
      cases hp
    | call a tx =>
      obtain ⟨w, w₁, r, hw, he, rfl, rfl⟩ := enter_call_callout.mp hmsg
      exact ledger_modify fun v => market_serial.resume he

/-- **Calls across markets are no more than a sequence of messages**: whatever messages to the factory
and to any of its markets the recipients of transfers send before these return, the factory, its
events, and the storage, the balance, and the journal of every market at the end are those of a plain
run, without callbacks, of some of the messages, in the order in which they began. -/
theorem cross_calls_serial (self : Address) (ts : List (CallTree Message)) (c₀ : Chain) :
    ∃ msgs c, msgs.Sublist (CallTree.callsAll ts) ∧ Run (Chain.step self) c₀ msgs c ∧
      c.ledger = ((system self).execAll ts c₀).ledger := by
  obtain ⟨msgs, c, hsub, run, hledger⟩ := CallMachine.execAll_serial (system_serial self) ts rfl
  exact ⟨msgs, c, hsub, run_system_iff.mp run, hledger⟩

end Ledger

/-! ## The states at callouts -/

/-- The message, to a market whose recipient accepts. -/
def Message.willing : Message → Message
  | .createMarket env params address => .createMarket env params address
  | .call address tx => .call address tx.willing

/-- Until its callout, a message does not depend on whether the recipient accepts. -/
theorem system_enter_willing (self : Address) (msg : Message) (c : Chain) :
    (system self).enter msg.willing c = (system self).enter msg c := by
  cases msg <;> rfl

/-- The recipient of a willing message accepts. -/
theorem system_rejection_willing (self : Address) (msg : Message) :
    (system self).rejection msg.willing = none := by
  cases msg <;> rfl

/-- The registry is that of the markets that are there, and each of these is, as far as its books go,
where plain calls lead it. -/
structure InOrder (c : Chain) : Prop where
  consistent : Consistent c
  reachable : ∀ {a w}, c.markets a = some w → ∃ v, Reachable v ∧ v.books = w.books

/-- With the same ledger, a system is in order too. -/
theorem InOrder.congr {c d : Chain} (hc : InOrder c) (h : d.ledger = c.ledger) : InOrder d := by
  have hfactory : d.factory = c.factory := congrArg Prod.fst h
  have hsome : ∀ a, (d.markets a).isSome = (c.markets a).isSome := by
    intro a
    cases hw : c.markets a with
    | none => rw [none_of_ledger h hw]
    | some w =>
      obtain ⟨v, hv, -⟩ := books_of_ledger h hw
      rw [hv]
      rfl
  refine ⟨⟨?_, fun a => ?_, ?_⟩, ?_⟩
  · rw [hfactory]
    exact hc.consistent.registers
  · rw [hfactory, hsome]
    exact hc.consistent.address_iff a
  · rw [hfactory]
    exact hc.consistent.addresses_nodup
  · intro a u hu
    obtain ⟨w, hw, hwu⟩ := books_of_ledger h.symm hu
    obtain ⟨v, hv, hvw⟩ := hc.reachable hw
    exact ⟨v, hv, hvw.trans hwu⟩

/-- A plain run from the deployment of a factory keeps the system in order. -/
theorem run_inOrder {self : Address} {env : Env} {c₀ c : Chain} {msgs : List Message}
    (h₀ : deployFactory env = .ok c₀) (run : Run (Chain.step self) c₀ msgs c) : InOrder c := by
  refine ⟨run_consistent h₀ run, ?_⟩
  intro a w hw
  rcases run_launched h₀ run a with ⟨-, hnone⟩ | ⟨creation, params, txs, v, -, hlaunch, hv⟩
  · rw [hw] at hnone
    cases hnone
  · cases hw.symm.trans hv
    exact ⟨w, reachable_of_launch hlaunch, rfl⟩

/-- **No callback finds a system that plain messages do not lead to**: in every run from the
deployment of a factory in which the recipients of transfers send any messages to the factory and its
markets before these return, between the messages, when one begins, and when a recipient runs, the
registry lists exactly the markets that are there, each at an address of its own, and every market has
the storage, the balance, and the journal of one that calls lead to when it is deployed by itself. -/
theorem callbacks_find_order {self : Address} {env : Env} {c₀ : Chain}
    (h₀ : deployFactory env = .ok c₀) (ts : List (CallTree Message)) :
    (∀ p ∈ (system self).pointsAll ts c₀, p.Holds InOrder) ∧
      InOrder ((system self).execAll ts c₀) := by
  have hplain : ∀ {c₀ : Chain} {msgs : List Message} {c : Chain}, deployFactory env = .ok c₀ →
      Run (system self).step c₀ msgs c → ∀ d, d.ledger = c.ledger → InOrder d :=
    fun h₀ run _ hd => (run_inOrder h₀ (run_system_iff.mp run)).congr hd
  obtain ⟨hpoints, hend⟩ := (system_serial self).points_hold
    (J := fun ledger => ∀ d : Chain, d.ledger = ledger → InOrder d)
    (system_enter_willing self) (system_rejection_willing self) hplain ts h₀
  refine ⟨fun p hp => ?_, hend _ rfl⟩
  have hpoint := hpoints p hp
  cases p with
  | between c => exact hpoint c rfl
  | callout msg c c' => exact ⟨hpoint.1 c rfl, hpoint.2 c' rfl⟩

/-- A provider that adds liquidity to a market and removes it, and while it is paid has another market
created and adds the liquidity to that one. -/
def crossRun : List (CallTree Message) :=
  [.node (.createMarket (quietEnv 6 0 1700000001) sampleParams 0xA1) [],
    .node (.call 0xA1 ⟨quietEnv 4 ether 1700000002, .addLiquidity, none⟩) [],
    .node (.call 0xA1 ⟨quietEnv 4 0 1700000003, .removeLiquidity ether, none⟩)
      [.node (.createMarket (quietEnv 4 0 1700000003) sampleParams 0xA2) [],
        .node (.call 0xA2 ⟨quietEnv 4 ether 1700000003, .addLiquidity, none⟩) []]]

/-- The balance of the market at an address. -/
def balanceAt (c : Chain) (a : Address) : Option ℕ := (c.markets a).map fun w => w.market.balance

/-- The provider finds the system in order, and has moved its liquidity to a second market. -/
theorem callbacks_find_order_sample :
    ∃ c₀, deployFactory (quietEnv 1 0 1700000000) = .ok c₀ ∧
      (∀ p ∈ (system sampleFactory).pointsAll crossRun c₀, p.Holds InOrder) ∧
      ((system sampleFactory).execAll crossRun c₀).factory.markets.map MarketInfo.market =
        [0xA1, 0xA2] ∧
      balanceAt ((system sampleFactory).execAll crossRun c₀) 0xA1 = some 0 ∧
      balanceAt ((system sampleFactory).execAll crossRun c₀) 0xA2 = some 1000000000000000000 := by
  obtain ⟨c₀, h₀, hp⟩ := Checked.exists_of_any (x := deployFactory (quietEnv 1 0 1700000000))
    (p := fun c₀ =>
      decide (((system sampleFactory).execAll crossRun c₀).factory.markets.map MarketInfo.market =
        [0xA1, 0xA2]) &&
      decide (balanceAt ((system sampleFactory).execAll crossRun c₀) 0xA1 = some 0) &&
      decide (balanceAt ((system sampleFactory).execAll crossRun c₀) 0xA2 =
        some 1000000000000000000))
    (by decide +kernel)
  simp only [Bool.and_eq_true, decide_eq_true_eq] at hp
  obtain ⟨⟨hmarkets, hfirst⟩, hsecond⟩ := hp
  exact ⟨c₀, h₀, (callbacks_find_order h₀ crossRun).1, hmarkets, hfirst, hsecond⟩

end GasCap
