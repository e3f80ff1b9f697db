import GasCap.Lib.Clients
import GasCap.Registrations

/-!
# The script that creates a market

`main` of `scripts/create-market.js`, which any number of clients run against one factory, in any
interleaving with each other and with other messages to the factory and its markets. Once its
creation is mined, a client reads the number of markets and then the last of them, and prints the
address of that market for the other scripts. It does not look at the event in its receipt.

The entry of a client's own creation and the entry that it prints are both in the registry from then
on (`scriptClients_rely_guarantee`), and between them are as many others as were created before the
client read the number (`lastIndex_eq`). So a client prints its own market exactly when there were
none (`printsOwnMarkets_iff`); what is created between its two reads does no harm.
-/

namespace GasCap

open Machine

/-! ## The script -/

/-- The receipt of a transaction to the factory. -/
structure Receipt where
  blockNumber : Uint256
  logs : List FactoryEvent
  deriving DecidableEq

/-- The receipt of a transaction that leads from `c` to `c'`. -/
def Chain.receipt (env : Env) (c c' : Chain) : Receipt where
  blockNumber := env.number
  logs := c'.events.take (c'.events.length - c.events.length)

/-- How far a client is in the script, and what it has read so far. -/
inductive ScriptState
  | ready
  /-- "Market creation tx confirmed, block: ..." -/
  | confirmed (receipt : Receipt)
  | counted (receipt : Receipt) (lastIndex : ℤ)
  /-- "New market created: Index: ... Address: ... Use this as CONTRACT_ADDRESS for other scripts." -/
  | printed (receipt : Receipt) (lastIndex : ℤ) (marketAddress : Address)
  deriving DecidableEq

/-- The calls that the script makes, each of which the factory executes atomically. The arguments of
the first are those of the environment variables, or defaults. -/
inductive ScriptCall
  | createMarket (env : Env) (params : MarketParams) (address : Address)
  | marketsCount
  | getMarket

/-- The next call of a client. A call out of the order of the script is not made. -/
def scriptStep (self : Address) : ScriptCall → ScriptState → Chain → Except Revert (ScriptState × Chain)
  | .createMarket env params address, .ready, c => do
    let c' ← Chain.step self (.createMarket env params address) c
    return (.confirmed (c.receipt env c'), c')
  | .marketsCount, .confirmed receipt, c => do
    let lastIndex : ℤ := marketsCount c.factory - 1
    return (.counted receipt lastIndex, c)
  | .getMarket, .counted receipt lastIndex, c => do
    -- An argument below zero is no `uint256`.
    Checked.ensure .empty (0 ≤ lastIndex)
    let marketInfo ← getMarket lastIndex.toNat c.factory
    return (.printed receipt lastIndex marketInfo.market, c)
  | _, _, _ => .error .empty

/-- Clients that run the script, among others that send messages to the factory and its markets. -/
def scriptClients (self : Address) : Clients Chain ScriptState ScriptCall Message Revert where
  client := scriptStep self
  other := Chain.step self

/-- What a call of the script does. -/
inductive ScriptEffect (self : Address) : ScriptCall → ScriptState → Chain → ScriptState → Chain → Prop
  | createMarket {env : Env} {params : MarketParams} {address : Address} {c c' : Chain}
      (created : Chain.step self (.createMarket env params address) c = .ok c') :
      ScriptEffect self (.createMarket env params address) .ready c
        (.confirmed (c.receipt env c')) c'
  | marketsCount {receipt : Receipt} {c : Chain} :
      ScriptEffect self .marketsCount (.confirmed receipt) c
        (.counted receipt (marketsCount c.factory - 1)) c
  | getMarket {receipt : Receipt} {lastIndex : ℤ} {info : MarketInfo} {c : Chain}
      (nonneg : 0 ≤ lastIndex) (entry : getMarket lastIndex.toNat c.factory = .ok info) :
      ScriptEffect self .getMarket (.counted receipt lastIndex) c
        (.printed receipt lastIndex info.market) c

/-- A call of the script has its effect. -/
theorem scriptStep_effect {self : Address} {call : ScriptCall} {t t' : ScriptState} {c c' : Chain}
    (h : scriptStep self call t c = .ok (t', c')) : ScriptEffect self call t c t' c' := by
  unfold scriptStep at h
  split at h
  · obtain ⟨c₁, hcreated, hpair⟩ := Checked.bind_eq_ok.mp h
    cases Checked.pure_eq_ok.mp hpair
    exact .createMarket hcreated
  · cases Checked.pure_eq_ok.mp h
    exact .marketsCount
  · obtain ⟨hnonneg, hread⟩ := Checked.ensure_bind_eq_ok.mp h
    obtain ⟨info, hinfo, hpair⟩ := Checked.bind_eq_ok.mp hread
    cases Checked.pure_eq_ok.mp hpair
    exact .getMarket hnonneg hinfo
  · cases h

section Effect

variable {self : Address} {call : ScriptCall} {t t' : ScriptState} {receipt : Receipt} {c c' : Chain}

/-- A client that has not begun makes its creation. -/
theorem ScriptEffect.of_ready (h : ScriptEffect self call .ready c t' c') :
    ∃ env params address, call = .createMarket env params address ∧
      Chain.step self (.createMarket env params address) c = .ok c' ∧
      t' = .confirmed (c.receipt env c') := by
  cases h with
  | createMarket created => exact ⟨_, _, _, rfl, created, rfl⟩

/-- A client whose creation is mined reads the number of markets. -/
theorem ScriptEffect.of_confirmed (h : ScriptEffect self call (.confirmed receipt) c t' c') :
    call = .marketsCount ∧ t' = .counted receipt (GasCap.marketsCount c.factory - 1) ∧ c' = c := by
  cases h with
  | marketsCount => exact ⟨rfl, rfl, rfl⟩

/-- What a client has once it has read the number of markets. -/
def ScriptState.read : ScriptState → Option (Receipt × ℤ)
  | .counted receipt lastIndex | .printed receipt lastIndex _ => some (receipt, lastIndex)
  | _ => none

def ScriptState.isPrinted : ScriptState → Bool
  | .printed .. => true
  | _ => false

/-- Only the last call of the script prints. -/
theorem ScriptEffect.isPrinted_iff (h : ScriptEffect self call t c t' c') :
    t'.isPrinted = true ↔ t.isPrinted = true ∨ call = .getMarket := by
  cases h with
  | createMarket _ | marketsCount => simp [ScriptState.isPrinted]
  | getMarket _ _ => exact iff_of_true rfl (.inr rfl)

/-- A client keeps what it has read. -/
theorem ScriptEffect.read_eq (h : ScriptEffect self call t c t' c') {x : Receipt × ℤ}
    (hread : t.read = some x) : t'.read = some x := by
  cases h with
  | createMarket _ => cases hread
  | marketsCount => cases hread
  | getMarket _ _ => exact hread

end Effect

/-! ## What a client knows of the registry -/

def FactoryEvent.market : FactoryEvent → Address
  | .MarketCreated market .. => market

/-- The market that the transaction of a receipt created, as its event says. -/
def Receipt.ownMarket (receipt : Receipt) : Option Address :=
  receipt.logs.head?.map FactoryEvent.market

/-- The transaction of the receipt created the entry at the index `i`. -/
def Receipt.RecordedAt (receipt : Receipt) (i : ℕ) (c : Chain) : Prop :=
  ∃ info, getMarket i c.factory = .ok info ∧ ∃ strikePrice expiryTimestamp,
    receipt.logs = [.MarketCreated info.market info.creator i strikePrice expiryTimestamp]

/-- What holds of the local state of a client and the registry: the client's own market has an entry,
and so has the market that it reads, which is not an earlier one. -/
def ScriptState.Sound : ScriptState → Chain → Prop
  | .ready, _ => True
  | .confirmed receipt, c => ∃ i, receipt.RecordedAt i c
  | .counted receipt lastIndex, c =>
    ∃ i : ℕ, receipt.RecordedAt i c ∧ i ≤ lastIndex ∧ lastIndex < marketsCount c.factory
  | .printed receipt lastIndex marketAddress, c =>
    ∃ i : ℕ, receipt.RecordedAt i c ∧ i ≤ lastIndex ∧
      ∃ info, getMarket lastIndex.toNat c.factory = .ok info ∧ info.market = marketAddress

section Registry

variable {self : Address} {c c' : Chain} {receipt : Receipt} {i j : ℕ}

/-- A creation is recorded at the end of the registry. -/
theorem receipt_recordedAt {env : Env} {params : MarketParams} {address : Address}
    (h : Chain.step self (.createMarket env params address) c = .ok c') :
    (c.receipt env c').RecordedAt (marketsCount c.factory) c' := by
  obtain ⟨-, -, -, w, -, rfl⟩ := step_createMarket.mp h
  refine ⟨⟨address, env.sender, env.timestamp⟩, ?_, params.strikePrice,
    w.market.expiryTimestamp, ?_⟩
  · rw [getMarket_eq_ok]
    exact List.getElem?_concat_length
  · simp only [Chain.receipt, List.length_cons, Nat.add_sub_cancel_left, List.take_succ_cons,
      List.take_zero, marketsCount]

/-- A receipt stays that of its entry when the registry is extended. -/
theorem Receipt.RecordedAt.extend (h : receipt.RecordedAt i c)
    (hmarkets : c.factory.markets <+: c'.factory.markets) : receipt.RecordedAt i c' := by
  obtain ⟨info, hinfo, hlogs⟩ := h
  exact ⟨info, getMarket_of_prefix hmarkets hinfo, hlogs⟩

/-- A receipt is that of one entry. -/
theorem Receipt.RecordedAt.index_eq (hi : receipt.RecordedAt i c) (hj : receipt.RecordedAt j c') :
    i = j := by
  obtain ⟨info, -, strike, expiry, hlogs⟩ := hi
  obtain ⟨info', -, strike', expiry', hlogs'⟩ := hj
  have hlog := (List.cons.inj (hlogs.symm.trans hlogs')).1
  exact (FactoryEvent.MarketCreated.inj hlog).2.2.1

/-- The event of a receipt has the address of the entry. -/
theorem Receipt.RecordedAt.ownMarket (h : receipt.RecordedAt i c) :
    ∃ info, getMarket i c.factory = .ok info ∧ receipt.ownMarket = some info.market := by
  obtain ⟨info, hinfo, strike, expiry, hlogs⟩ := h
  refine ⟨info, hinfo, ?_⟩
  rw [Receipt.ownMarket, hlogs]
  rfl

/-- The entry of a client's own market is there, so the index of the last one is not before it. -/
theorem Receipt.RecordedAt.lt_marketsCount (h : receipt.RecordedAt i c) :
    i < marketsCount c.factory := by
  obtain ⟨info, hinfo, -⟩ := h
  exact GasCap.lt_marketsCount hinfo

/-- An entry of the registry is a client's own market exactly when it is at the index of the client's
creation. -/
theorem Receipt.RecordedAt.ownMarket_eq_iff (hc : Consistent c) (h : receipt.RecordedAt i c)
    {info : MarketInfo} (hinfo : getMarket j c.factory = .ok info) :
    receipt.ownMarket = some info.market ↔ j = i := by
  obtain ⟨info', hinfo', hown⟩ := h.ownMarket
  rw [hown, Option.some.injEq]
  constructor
  · intro heq
    exact (hc.market_inj hinfo' hinfo heq).symm
  · rintro rfl
    cases hinfo.symm.trans hinfo'
    rfl

/-- **What a client knows stays true**: whatever the others do, they only extend the registry, so the
markets that a client has created and read stay where they are. -/
theorem scriptClients_rely_guarantee (self : Address) :
    RelyGuarantee (scriptClients self) Consistent
      (fun c c' => c.factory.markets <+: c'.factory.markets) ScriptState.Sound where
  client := by
    intro call t t' c c' hc hsound h
    cases scriptStep_effect h with
    | createMarket created =>
      have hextend := run_markets (.single trivial created)
      exact ⟨step_consistent hc created, hextend, _, receipt_recordedAt created⟩
    | marketsCount =>
      obtain ⟨i, hi⟩ := hsound
      have hlt : i < marketsCount c.factory := hi.lt_marketsCount
      exact ⟨hc, List.prefix_refl _, i, hi, by omega, by omega⟩
    | getMarket _ entry =>
      obtain ⟨i, hi, hle, -⟩ := hsound
      exact ⟨hc, List.prefix_refl _, i, hi, hle, _, entry, rfl⟩
  other := by
    intro msg c c' hc h
    exact ⟨step_consistent hc h, run_markets (.single trivial h)⟩
  stable := by
    intro t c c' hextend hsound
    have hcount : marketsCount c.factory ≤ marketsCount c'.factory := hextend.length_le
    cases t with
    | ready => trivial
    | confirmed receipt =>
      obtain ⟨i, hi⟩ := hsound
      exact ⟨i, hi.extend hextend⟩
    | counted receipt lastIndex =>
      obtain ⟨i, hi, hle, hlt⟩ := hsound
      exact ⟨i, hi.extend hextend, hle, by omega⟩
    | printed receipt lastIndex marketAddress =>
      obtain ⟨i, hi, hle, info, hinfo, haddress⟩ := hsound
      exact ⟨i, hi.extend hextend, hle, info, getMarket_of_prefix hextend hinfo, haddress⟩

end Registry

/-! ## What is created before a client reads -/

section Schedule

variable {K : Type*} [DecidableEq K]

/-- The turns of clients that run the script, and of others. -/
abbrev ScriptTurn (K : Type*) := Turn K ScriptCall Message

/-- A market is created in the turn, by a client or by someone else. -/
def ScriptTurn.isCreation : ScriptTurn K → Bool
  | .client _ (.createMarket ..) => true
  | .client _ _ => false
  | .other msg => msg.isCreation

/-- The creation transaction of the client `k` is mined in the turn. -/
def ScriptTurn.creates (k : K) : ScriptTurn K → Bool
  | .client k' (.createMarket ..) => decide (k' = k)
  | _ => false

/-- The client `k` reads the number of markets in the turn. -/
def ScriptTurn.counts (k : K) : ScriptTurn K → Bool
  | .client k' .marketsCount => decide (k' = k)
  | _ => false

/-- The number of markets that are created after that of the client `k` and before it reads the
number of markets. -/
def creationsBetween (k : K) (turns : List (ScriptTurn K)) : ℕ :=
  (window (ScriptTurn.creates k) (ScriptTurn.counts k) turns).countP ScriptTurn.isCreation

/-- Only turns of the client create its market or count. -/
theorem ScriptTurn.not_own {k : K} {turn : ScriptTurn K} (h : turn.isOf k = false) :
    ScriptTurn.creates k turn = false ∧ ScriptTurn.counts k turn = false := by
  cases turn with
  | client k' call =>
    cases call with
    | createMarket env params address => exact ⟨h, rfl⟩
    | marketsCount => exact ⟨rfl, h⟩
    | getMarket => exact ⟨rfl, rfl⟩
  | other msg => exact ⟨rfl, rfl⟩

end Schedule

/-- A creation raises the number of markets by one, and nothing else changes it. -/
theorem step_marketsCount {self : Address} {msg : Message} {c c' : Chain}
    (h : Chain.step self msg c = .ok c') :
    marketsCount c'.factory = marketsCount c.factory + if msg.isCreation then 1 else 0 := by
  cases msg with
  | createMarket env params address =>
    obtain ⟨-, -, -, w, -, rfl⟩ := step_createMarket.mp h
    simp only [marketsCount, Factory.register, List.length_append, List.length_singleton,
      Message.isCreation, if_true]
  | call market tx =>
    obtain ⟨w, w', -, -, rfl⟩ := step_call.mp h
    rfl

section Run

variable {K : Type*} [DecidableEq K] {self : Address} {k : K} {turns : List (ScriptTurn K)}
  {s s' : Joint Chain ScriptState K}

/-- The same for the turns of a schedule. -/
theorem turn_marketsCount {turn : ScriptTurn K} (h : (scriptClients self).step turn s = .ok s') :
    marketsCount s'.shared.factory =
      marketsCount s.shared.factory + if turn.isCreation then 1 else 0 := by
  cases turn with
  | client k call =>
    have heffect := scriptStep_effect (Clients.client_eq_ok h)
    generalize s.locals k = t, s'.locals k = t', s.shared = c, s'.shared = c' at heffect ⊢
    cases heffect with
    | createMarket created => exact step_marketsCount created
    | marketsCount => rfl
    | getMarket _ _ => rfl
  | other msg =>
    obtain ⟨c, hother, rfl⟩ := Clients.step_other.mp h
    exact step_marketsCount hother

/-- What a client has read it keeps in every run. -/
theorem run_read (run : Run (scriptClients self).step s turns s') {x : Receipt × ℤ}
    (h : (s.locals k).read = some x) : (s'.locals k).read = some x := by
  refine Clients.local_invariant (J := fun t => t.read = some x) ?_ run h
  intro call t t' c c' hread hclient
  exact (scriptStep_effect hclient).read_eq hread

/-- The first turn of a client is its creation. -/
theorem run_creates (run : Run (scriptClients self).step s turns s') (hready : s.locals k = .ready)
    (hmoved : s'.locals k ≠ .ready) :
    ∃ before created rest s₁ receipt i, turns = before ++ created :: rest ∧
      (∀ turn ∈ before, turn.isOf k = false) ∧ ScriptTurn.creates k created = true ∧
      s₁.locals k = .confirmed receipt ∧ receipt.RecordedAt i s₁.shared ∧
      marketsCount s₁.shared.factory = i + 1 ∧ Run (scriptClients self).step s₁ rest s' := by
  rw [← hready] at hmoved
  obtain ⟨before, call, rest, s₀, s₁, rfl, hbefore, -, hlocal, hstep, hrest⟩ :=
    Clients.exists_own_turn run hmoved
  have heffect := scriptStep_effect (Clients.client_eq_ok hstep)
  rw [hlocal, hready] at heffect
  obtain ⟨env, params, address, rfl, created, hconfirmed⟩ := heffect.of_ready
  have hcount : marketsCount s₁.shared.factory = marketsCount s₀.shared.factory + 1 :=
    step_marketsCount created
  exact ⟨before, _, rest, s₁, _, _, rfl, hbefore, decide_eq_true rfl, hconfirmed,
    receipt_recordedAt created, hcount, hrest⟩

/-- The next turn of a client reads the number of markets, to which the others have added their
creations. -/
theorem run_counts (run : Run (scriptClients self).step s turns s') {receipt : Receipt}
    (hconfirmed : s.locals k = .confirmed receipt) {x : Receipt × ℤ}
    (hread : (s'.locals k).read = some x) :
    ∃ mid counted after, turns = mid ++ counted :: after ∧
      (∀ turn ∈ mid, turn.isOf k = false) ∧ ScriptTurn.counts k counted = true ∧
      x = (receipt,
        (marketsCount s.shared.factory : ℤ) + mid.countP ScriptTurn.isCreation - 1) := by
  have hmoved : s'.locals k ≠ s.locals k := by
    intro heq
    rw [heq, hconfirmed] at hread
    cases hread
  obtain ⟨mid, call, after, s₁, s₂, rfl, hmid, hbetween, hlocal, hstep, hafter⟩ :=
    Clients.exists_own_turn run hmoved
  have hcreations : marketsCount s₁.shared.factory =
      marketsCount s.shared.factory + mid.countP ScriptTurn.isCreation :=
    hbetween.count_eq (fun s => marketsCount s.shared.factory) _ fun _ _ _ _ => turn_marketsCount
  have heffect := scriptStep_effect (Clients.client_eq_ok hstep)
  rw [hlocal, hconfirmed] at heffect
  obtain ⟨rfl, hcounted, -⟩ := heffect.of_confirmed
  -- What it reads it keeps until the end.
  have hread₂ : (s₂.locals k).read = some (receipt, (marketsCount s₁.shared.factory : ℤ) - 1) := by
    rw [hcounted]
    rfl
  have hlast := run_read hafter hread₂
  rw [hread] at hlast
  refine ⟨mid, _, after, rfl, hmid, decide_eq_true rfl, ?_⟩
  rw [Option.some.inj hlast, hcreations, Nat.cast_add]

/-- **The index that a client reads** is that of its own creation plus the number of the creations
in between. -/
theorem lastIndex_eq (run : Run (scriptClients self).step s turns s') (hready : s.locals k = .ready)
    {receipt : Receipt} {lastIndex : ℤ} (hread : (s'.locals k).read = some (receipt, lastIndex)) :
    ∃ (i : ℕ) (c : Chain), receipt.RecordedAt i c ∧ lastIndex = i + creationsBetween k turns := by
  have hmoved : s'.locals k ≠ .ready := by
    intro heq
    rw [heq] at hread
    cases hread
  obtain ⟨before, created, rest, s₁, receipt₁, i, rfl, hbefore, hcreated, hconfirmed, hrecorded,
    hcount, hrest⟩ := run_creates run hready hmoved
  obtain ⟨mid, counted, after, rfl, hmid, hcounted, hx⟩ := run_counts hrest hconfirmed hread
  obtain ⟨rfl, hindex⟩ := Prod.mk.inj hx
  have hwindow : window (ScriptTurn.creates k) (ScriptTurn.counts k)
      (before ++ created :: (mid ++ counted :: after)) = mid :=
    window_eq (fun turn hturn => (ScriptTurn.not_own (hbefore turn hturn)).1) hcreated
      (fun turn hturn => (ScriptTurn.not_own (hmid turn hturn)).2) hcounted
  refine ⟨i, s₁.shared, hrecorded, ?_⟩
  rw [creationsBetween, hwindow, hindex, hcount]
  push_cast
  omega

/-- The clients that have printed are those that have read a market. -/
theorem run_isPrinted (run : Run (scriptClients self).step s turns s') :
    (s'.locals k).isPrinted = true ↔
      (s.locals k).isPrinted = true ∨ .client k .getMarket ∈ turns := by
  have hturn : ∀ (turn : ScriptTurn K) s s', True → (scriptClients self).step turn s = .ok s' →
      ((s'.locals k).isPrinted = true ↔
        (s.locals k).isPrinted = true ∨ turn = .client k .getMarket) := by
    intro turn s s' _ hstep
    rcases Clients.turn_cases (k := k) hstep with ⟨hother, hkept⟩ | ⟨call, rfl, hclient⟩
    · have hne : turn ≠ .client k .getMarket := by
        rintro rfl
        exact absurd rfl (of_decide_eq_false hother)
      rw [hkept, or_iff_left hne]
    · rw [(scriptStep_effect hclient).isPrinted_iff, Turn.client.injEq, and_iff_right rfl]
  rw [run.gained_iff hturn, exists_eq_right]

end Run

/-! ## Which market is printed -/

section Factory

variable {K : Type*} [DecidableEq K] {self : Address} {env : Env} {c₀ : Chain}
  {turns : List (ScriptTurn K)} {s : Joint Chain ScriptState K}

/-- In every schedule the registry is consistent, and what all the clients know of it is true. -/
theorem run_sound (h₀ : deployFactory env = .ok c₀)
    (run : Run (scriptClients self).step ⟨c₀, fun _ => .ready⟩ turns s) :
    Consistent s.shared ∧ ∀ k, (s.locals k).Sound s.shared :=
  (scriptClients_rely_guarantee self).run run (deployFactory_consistent h₀).1 fun _ => trivial

/-- A client whose creation is mined can always go on to the end of the script. -/
theorem exists_next_turn (h₀ : deployFactory env = .ok c₀)
    (run : Run (scriptClients self).step ⟨c₀, fun _ => .ready⟩ turns s) (k : K) (receipt : Receipt) :
    (s.locals k = .confirmed receipt →
      ∃ s', (scriptClients self).step (.client k .marketsCount) s = .ok s') ∧
    ∀ lastIndex, s.locals k = .counted receipt lastIndex →
      ∃ s', (scriptClients self).step (.client k .getMarket) s = .ok s' := by
  constructor
  · intro hconfirmed
    have hclient : scriptStep self .marketsCount (s.locals k) s.shared =
        .ok (.counted receipt (marketsCount s.shared.factory - 1), s.shared) := by
      rw [hconfirmed]
      rfl
    exact ⟨_, Clients.step_client.mpr ⟨_, _, hclient, rfl⟩⟩
  · intro lastIndex hcounted
    -- The index is that of an entry, since the registry does not shrink.
    have hsound := (run_sound h₀ run).2 k
    rw [hcounted] at hsound
    obtain ⟨i, -, hle, hlt⟩ := hsound
    have hnonneg : 0 ≤ lastIndex := by omega
    have hlast : lastIndex.toNat < marketsCount s.shared.factory := by omega
    obtain ⟨info, hinfo⟩ := exists_getMarket hlast
    have hclient : scriptStep self .getMarket (s.locals k) s.shared =
        .ok (.printed receipt lastIndex info.market, s.shared) := by
      rw [hcounted, scriptStep, Checked.ensure_bind_of_pos hnonneg, hinfo]
      rfl
    exact ⟨_, Clients.step_client.mpr ⟨_, _, hclient, rfl⟩⟩

/-- **Whose market a client prints**: its own exactly when nobody has created another one between its
creation and its reading of the number of markets. -/
theorem printed_own_iff (h₀ : deployFactory env = .ok c₀)
    (run : Run (scriptClients self).step ⟨c₀, fun _ => .ready⟩ turns s) {k : K} {receipt : Receipt}
    {lastIndex : ℤ} {marketAddress : Address}
    (hprinted : s.locals k = .printed receipt lastIndex marketAddress) :
    receipt.ownMarket = some marketAddress ↔ creationsBetween k turns = 0 := by
  obtain ⟨hc, hsound⟩ := run_sound h₀ run
  have hk := hsound k
  rw [hprinted] at hk
  obtain ⟨i, hi, -, info, hinfo, rfl⟩ := hk
  have hread : (s.locals k).read = some (receipt, lastIndex) := by
    rw [hprinted]
    rfl
  obtain ⟨j, c, hj, hindex⟩ := lastIndex_eq run rfl hread
  have hij : j = i := hj.index_eq hi
  calc receipt.ownMarket = some info.market ↔ lastIndex.toNat = i := hi.ownMarket_eq_iff hc hinfo
    _ ↔ creationsBetween k turns = 0 := by omega

/-- Every client that is at the end of the script has printed the address of its own market. -/
def PrintsOwnMarkets (s : Joint Chain ScriptState K) : Prop :=
  ∀ k receipt lastIndex marketAddress,
    s.locals k = .printed receipt lastIndex marketAddress → receipt.ownMarket = some marketAddress

/-- **Which schedules are safe**: for any number of clients and every schedule of their turns and those
of others, all clients that print print their own market exactly when none of them had another market
created between its creation and its reading of the number of markets. -/
theorem printsOwnMarkets_iff (h₀ : deployFactory env = .ok c₀)
    (run : Run (scriptClients self).step ⟨c₀, fun _ => .ready⟩ turns s) :
    PrintsOwnMarkets s ↔ ∀ k, .client k .getMarket ∈ turns → creationsBetween k turns = 0 := by
  constructor
  · intro hown k hmem
    have hprinted : (s.locals k).isPrinted = true := (run_isPrinted run).mpr (.inr hmem)
    cases hlocal : s.locals k with
    | printed receipt lastIndex marketAddress =>
      exact (printed_own_iff h₀ run hlocal).mp (hown k receipt lastIndex marketAddress hlocal)
    | ready | confirmed | counted =>
      rw [hlocal] at hprinted
      cases hprinted
  · intro hnone k receipt lastIndex marketAddress hlocal
    have hprinted : (s.locals k).isPrinted = true := by
      rw [hlocal]
      rfl
    rcases (run_isPrinted run).mp hprinted with hstart | hmem
    · cases hstart
    · exact (printed_own_iff h₀ run hlocal).mpr (hnone k hmem)

end Factory

/-! ## Sample schedules -/

/-- The state after a schedule of clients of a new factory, or the error of the first turn that
fails. -/
def launchScripts (self : Address) (env : Env) (turns : List (ScriptTurn ℕ)) :
    Except Revert (Joint Chain ScriptState ℕ) := do
  let c ← deployFactory env
  runAll (scriptClients self).step turns { shared := c, locals := fun _ => .ready }

/-- What a launch ends in is a run from the deployment of the factory. -/
theorem launchScripts_eq_ok {self : Address} {env : Env} {turns : List (ScriptTurn ℕ)}
    {s : Joint Chain ScriptState ℕ} :
    launchScripts self env turns = .ok s ↔
      ∃ c₀, deployFactory env = .ok c₀ ∧
        Run (scriptClients self).step { shared := c₀, locals := fun _ => .ready } turns s := by
  simp only [launchScripts, Checked.bind_eq_ok, run_iff_runAll]

/-- The arguments of the script when no environment variables are set: 25 gwei for 7 days. -/
def defaultParams : MarketParams where
  strikePrice := 25
  expiryDuration := 7 * 24 * 60 * 60
  marketName := "Gas Futures v1"
  marketDescription := "Coston2 gas price futures using FTSO"

/-- Two clients, whose creations are both mined before either of them reads. -/
def racingTurns : List (ScriptTurn ℕ) :=
  [.client 0 (.createMarket (quietEnv 6 0 1700000001) defaultParams 0xA1),
    .client 1 (.createMarket (quietEnv 7 0 1700000002) defaultParams 0xA2),
    .client 0 .marketsCount, .client 0 .getMarket, .client 1 .marketsCount, .client 1 .getMarket]

/-- The same two clients, of which the second begins when the first has read the number of markets. -/
def orderlyTurns : List (ScriptTurn ℕ) :=
  [.client 0 (.createMarket (quietEnv 6 0 1700000001) defaultParams 0xA1),
    .client 0 .marketsCount,
    .client 1 (.createMarket (quietEnv 7 0 1700000002) defaultParams 0xA2),
    .client 0 .getMarket, .client 1 .marketsCount, .client 1 .getMarket]

/-- In a race the first client prints the market of the second. -/
theorem racing_prints_other_market :
    ∃ s receipt, launchScripts sampleFactory (quietEnv 1 0 1700000000) racingTurns = .ok s ∧
      s.locals 0 = .printed receipt 1 0xA2 ∧ receipt.ownMarket = some 0xA1 ∧
      ¬ PrintsOwnMarkets s := by
  let receipt : Receipt := ⟨0, [.MarketCreated 0xA1 6 0 25 1700604801]⟩
  obtain ⟨s, hs, hp⟩ := Checked.exists_of_any
    (x := launchScripts sampleFactory (quietEnv 1 0 1700000000) racingTurns)
    (p := fun s => decide (s.locals 0 = .printed receipt 1 0xA2)) (by decide +kernel)
  have hlocal : s.locals 0 = .printed receipt 1 0xA2 := of_decide_eq_true hp
  refine ⟨s, receipt, hs, hlocal, rfl, fun hown => ?_⟩
  have hmarket : receipt.ownMarket = some 0xA2 := hown 0 receipt 1 0xA2 hlocal
  exact absurd hmarket (by decide)

/-- One after the other, both print their own, although the second creates its market before the
first has read the entry. -/
theorem printsOwnMarkets_iff_sample :
    ∃ s, launchScripts sampleFactory (quietEnv 1 0 1700000000) orderlyTurns = .ok s ∧
      PrintsOwnMarkets s ∧ (s.locals 0).isPrinted = true ∧ (s.locals 1).isPrinted = true := by
  obtain ⟨s, hs, hp⟩ := Checked.exists_of_any
    (x := launchScripts sampleFactory (quietEnv 1 0 1700000000) orderlyTurns)
    (p := fun s => (s.locals 0).isPrinted && (s.locals 1).isPrinted) (by decide +kernel)
  obtain ⟨c₀, h₀, run⟩ := launchScripts_eq_ok.mp hs
  refine ⟨s, hs, (printsOwnMarkets_iff h₀ run).mpr ?_, (Bool.and_eq_true _ _).mp hp⟩
  intro k hk
  have hclient : k = 0 ∨ k = 1 := by simpa [orderlyTurns] using hk
  rcases hclient with rfl | rfl
  · rfl
  · rfl

end GasCap
