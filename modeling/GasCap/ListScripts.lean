import GasCap.Finality
import GasCap.Isolation
import GasCap.Lib.Clients
import Mathlib.Data.Prod.Lex

/-!
# The scripts that list the markets

`main` of `scripts/list-markets.js` and of `scripts/list-markets-detailed.js`. Any number of processes
run one of them against a factory and its markets, in any interleaving with each other and all messages
to the factory and the markets. A process reads the number of markets once, and then market after
market, each by two or three calls; the second script goes over the markets again, in its three
sections, and reads the active traders of each and their positions. Between any two of these calls
markets may be created, positions opened and claimed, and markets settled.

The registry only grows, and the configuration of a market and its settlement do not change any more,
so what a listing says of these stays true (`listers_rely_guarantee`): it has every market that there
was when the process began, each of them once, and every position in it is one of its market. All the
rest is as it was when it was read (`listing_true`). No call of a process fails, so each of them comes
to its end (`listing_ends`).
-/

namespace GasCap

open Machine

/-! ## The scripts -/

/-- What a process has read of a market: its entry in the registry, its state, which only the detailed
script reads, and its static information. -/
structure ListedMarket where
  index : ℕ
  entry : MarketInfo
  state : Option ContractState
  info : StaticInfo

/-- The three sections of the detailed listing. -/
inductive Section
  | active
  | expiredNotSettled
  | settled
  deriving DecidableEq

/-- The section that a market is listed in, at the time at which its process began. -/
def ListedMarket.section (now : ℕ) (row : ListedMarket) : Section :=
  match row.state with
  | none => .active
  | some state =>
    if state.isSettled then .settled
    else if state.expiryTimestamp.toNat ≤ now then .expiredNotSettled
    else .active

/-- The markets in the order of the detailed listing. -/
def bySection (now : ℕ) (rows : List ListedMarket) : List ListedMarket :=
  rows.filter (fun row => row.section now = .active) ++
    (rows.filter (fun row => row.section now = .expiredNotSettled) ++
      rows.filter fun row => row.section now = .settled)

/-- What `===` compares: a number and a bigint are not equal, also where they have the same value. -/
inductive JsNumeric
  | number (n : ℕ)
  | bigint (n : ℕ)
  deriving DecidableEq

/-- What `ethers` decodes the `uint8` of a margin mode to, as every integer: a bigint. -/
def MarginMode.decoded : MarginMode → JsNumeric
  | .ISOLATED => .bigint 0
  | .CROSS => .bigint 1

/-- `marginMode === 0 ? "ISOLATED" : "CROSS"` -/
def marginModeLine (marginMode : JsNumeric) : MarginMode :=
  if marginMode = .number 0 then .ISOLATED else .CROSS

/-- The line says of every position that it is cross. -/
theorem marginModeLine_decoded (marginMode : MarginMode) :
    marginModeLine marginMode.decoded = .CROSS := by
  cases marginMode <;> rfl

/-- A position as the scripts print it: what was read, with the line on its margin mode. -/
structure PrintedPosition where
  position : Position
  marginMode : MarginMode

def printPosition (position : Position) : PrintedPosition :=
  ⟨position, marginModeLine position.marginMode.decoded⟩

/-- A market with its positions, as the detailed script prints it, or without them: "Could not fetch
positions for this market". -/
structure PrintedMarket where
  row : ListedMarket
  positions : Option (List (Address × PrintedPosition))

/-- How far a process is, and what it has read. -/
inductive ListState
  | ready (detailed : Bool)
  /-- In the loop over the indices, the next of which is the number of the rows. -/
  | listing (detailed : Bool) (count : ℕ) (rows : List ListedMarket)
  | entered (detailed : Bool) (count : ℕ) (rows : List ListedMarket) (entry : MarketInfo)
  | stated (count : ℕ) (rows : List ListedMarket) (entry : MarketInfo) (state : ContractState)
  /-- In the loop over the markets of the sections, with those that are left. -/
  | printing (count : ℕ) (rows : List ListedMarket) (printed : List PrintedMarket)
      (rest : List ListedMarket)
  /-- In the loop over the active traders of a market, with those that are left. -/
  | tracing (count : ℕ) (rows : List ListedMarket) (printed : List PrintedMarket)
      (row : ListedMarket) (positions : List (Address × PrintedPosition)) (traders : List Address)
      (rest : List ListedMarket)
  | done (count : ℕ) (rows : List ListedMarket) (printed : Option (List PrintedMarket))

/-- The calls that the scripts make, all of them views, and the end of a loop. -/
inductive ListCall
  | marketsCount
  | getMarket
  | getContractState
  | getMarketInfo
  | getActiveTraders
  | getPosition
  /-- The loop over the indices is over; the clock was read before it. -/
  | endOfMarkets (now : ℕ)
  | endOfTraders
  | endOfSections

/-- Calls a view of the market at an address, which fails where there is no contract. -/
def Chain.view {α : Type} (c : Chain) (address : Address) (view : Market → Except Revert α) :
    Except Revert α :=
  match c.markets address with
  | some w => view w.market
  | none => .error .empty

/-- The next call of a process. A call out of the order of its script is not made. -/
def listStep : ListCall → ListState → Chain → Except Revert (ListState × Chain)
  | .marketsCount, .ready detailed, c =>
    let count := marketsCount c.factory
    if count = 0 then return (.done 0 [] none, c)
    else return (.listing detailed count [], c)
  | .getMarket, .listing detailed count rows, c => do
    Checked.ensure .empty (rows.length < count)
    let entry ← getMarket rows.length c.factory
    return (.entered detailed count rows entry, c)
  | .getContractState, .entered true count rows entry, c => do
    let state ← c.view entry.market fun m => return getContractState m
    return (.stated count rows entry state, c)
  | .getMarketInfo, .entered false count rows entry, c => do
    let info ← c.view entry.market fun m => return getMarketInfo m
    return (.listing false count (rows ++ [⟨rows.length, entry, none, info⟩]), c)
  | .getMarketInfo, .stated count rows entry state, c => do
    let info ← c.view entry.market fun m => return getMarketInfo m
    return (.listing true count (rows ++ [⟨rows.length, entry, some state, info⟩]), c)
  | .endOfMarkets _, .listing false count rows, c => do
    Checked.ensure .empty (rows.length = count)
    return (.done count rows none, c)
  | .endOfMarkets now, .listing true count rows, c => do
    Checked.ensure .empty (rows.length = count)
    return (.printing count rows [] (bySection now rows), c)
  | .getActiveTraders, .printing count rows printed (row :: rest), c =>
    match c.view row.entry.market getActiveTraders with
    | .ok traders => return (.tracing count rows printed row [] traders rest, c)
    | .error _ => return (.printing count rows (printed ++ [⟨row, none⟩]) rest, c)
  | .getPosition, .tracing count rows printed row positions (trader :: traders) rest, c =>
    match c.view row.entry.market fun m => return getPosition trader m with
    | .ok position =>
      let positions := positions ++ [(trader, printPosition position)]
      return (.tracing count rows printed row positions traders rest, c)
    | .error _ => return (.printing count rows (printed ++ [⟨row, none⟩]) rest, c)
  | .endOfTraders, .tracing count rows printed row positions [] rest, c =>
    return (.printing count rows (printed ++ [⟨row, some positions⟩]) rest, c)
  | .endOfSections, .printing count rows printed [], c => return (.done count rows (some printed), c)
  | _, _, _ => .error .empty

/-- Processes that list the markets, among others that send messages to the factory and its
markets. -/
def listers (self : Address) : Clients Chain ListState ListCall Message Revert where
  client := listStep
  other := Chain.step self

/-- What a call of a process does. -/
inductive ListEffect (c : Chain) : ListState → ListState → Prop
  | noMarkets {detailed} (count_eq : marketsCount c.factory = 0) :
      ListEffect c (.ready detailed) (.done 0 [] none)
  | counted {detailed} :
      ListEffect c (.ready detailed) (.listing detailed (marketsCount c.factory) [])
  | entered {detailed count rows entry} (left : rows.length < count)
      (entry_eq : getMarket rows.length c.factory = .ok entry) :
      ListEffect c (.listing detailed count rows) (.entered detailed count rows entry)
  | stated {count rows entry state}
      (state_eq : c.view entry.market (fun m => return getContractState m) = .ok state) :
      ListEffect c (.entered true count rows entry) (.stated count rows entry state)
  | listed {count rows entry info}
      (info_eq : c.view entry.market (fun m => return getMarketInfo m) = .ok info) :
      ListEffect c (.entered false count rows entry)
        (.listing false count (rows ++ [⟨rows.length, entry, none, info⟩]))
  | listedStated {count rows entry state info}
      (info_eq : c.view entry.market (fun m => return getMarketInfo m) = .ok info) :
      ListEffect c (.stated count rows entry state)
        (.listing true count (rows ++ [⟨rows.length, entry, some state, info⟩]))
  | done {count rows} (length_eq : rows.length = count) :
      ListEffect c (.listing false count rows) (.done count rows none)
  | sections {now count rows} (length_eq : rows.length = count) :
      ListEffect c (.listing true count rows) (.printing count rows [] (bySection now rows))
  | traders {count rows printed row traders rest}
      (traders_eq : c.view row.entry.market getActiveTraders = .ok traders) :
      ListEffect c (.printing count rows printed (row :: rest))
        (.tracing count rows printed row [] traders rest)
  | noTraders {count rows printed row rest error}
      (failed : c.view row.entry.market getActiveTraders = .error error) :
      ListEffect c (.printing count rows printed (row :: rest))
        (.printing count rows (printed ++ [⟨row, none⟩]) rest)
  | position {count rows printed row positions trader traders rest position}
      (position_eq : c.view row.entry.market (fun m => return getPosition trader m) = .ok position) :
      ListEffect c (.tracing count rows printed row positions (trader :: traders) rest)
        (.tracing count rows printed row (positions ++ [(trader, printPosition position)]) traders
          rest)
  | noPosition {count rows printed row positions trader traders rest error}
      (failed : c.view row.entry.market (fun m => return getPosition trader m) = .error error) :
      ListEffect c (.tracing count rows printed row positions (trader :: traders) rest)
        (.printing count rows (printed ++ [⟨row, none⟩]) rest)
  | endOfTraders {count rows printed row positions rest} :
      ListEffect c (.tracing count rows printed row positions [] rest)
        (.printing count rows (printed ++ [⟨row, some positions⟩]) rest)
  | endOfSections {count rows printed} :
      ListEffect c (.printing count rows printed []) (.done count rows (some printed))

/-- A call of a process leaves the system, and has its effect. -/
theorem listStep_effect {call : ListCall} {t t' : ListState} {c c' : Chain}
    (h : listStep call t c = .ok (t', c')) : c' = c ∧ ListEffect c t t' := by
  unfold listStep at h
  split at h
  · dsimp only at h
    split_ifs at h with hcount <;> cases h
    · exact ⟨rfl, .noMarkets hcount⟩
    · exact ⟨rfl, .counted⟩
  · obtain ⟨hleft, h⟩ := Checked.ensure_bind_eq_ok.mp h
    obtain ⟨entry, hentry, hpair⟩ := Checked.bind_eq_ok.mp h
    cases hpair
    exact ⟨rfl, .entered hleft hentry⟩
  · obtain ⟨state, hstate, hpair⟩ := Checked.bind_eq_ok.mp h
    cases hpair
    exact ⟨rfl, .stated hstate⟩
  · obtain ⟨info, hinfo, hpair⟩ := Checked.bind_eq_ok.mp h
    cases hpair
    exact ⟨rfl, .listed hinfo⟩
  · obtain ⟨info, hinfo, hpair⟩ := Checked.bind_eq_ok.mp h
    cases hpair
    exact ⟨rfl, .listedStated hinfo⟩
  · obtain ⟨hlength, h⟩ := Checked.ensure_bind_eq_ok.mp h
    cases h
    exact ⟨rfl, .done hlength⟩
  · obtain ⟨hlength, h⟩ := Checked.ensure_bind_eq_ok.mp h
    cases h
    exact ⟨rfl, .sections hlength⟩
  · split at h <;> cases h
    · exact ⟨rfl, .traders ‹_›⟩
    · exact ⟨rfl, .noTraders ‹_›⟩
  · split at h <;> cases h
    · exact ⟨rfl, .position ‹_›⟩
    · exact ⟨rfl, .noPosition ‹_›⟩
  · cases h
    exact ⟨rfl, .endOfTraders⟩
  · cases h
    exact ⟨rfl, .endOfSections⟩
  · cases h

/-! ## What a process has read -/

/-- What a view returned, for the market at an address. -/
inductive ListReading
  | contractState (address : Address) (state : ContractState)
  | marketInfo (address : Address) (info : StaticInfo)
  | activeTraders (address : Address) (traders : List Address)
  | position (address trader : Address) (printed : PrintedPosition)

/-- The view returns this in a state of the system. -/
def ListReading.At (c : Chain) : ListReading → Prop
  | .contractState address state => c.view address (fun m => return getContractState m) = .ok state
  | .marketInfo address info => c.view address (fun m => return getMarketInfo m) = .ok info
  | .activeTraders address traders => c.view address getActiveTraders = .ok traders
  | .position address trader printed =>
    ∃ position, c.view address (fun m => return getPosition trader m) = .ok position ∧
      printed = printPosition position

/-- What was read for a row. -/
def ListedMarket.readings (row : ListedMarket) : List ListReading :=
  .marketInfo row.entry.market row.info :: row.state.toList.map (.contractState row.entry.market)

/-- What was read for the positions of a market, of whose traders some may be left. -/
def positionReadings (address : Address) (positions : List (Address × PrintedPosition))
    (left : List Address) : List ListReading :=
  .activeTraders address (positions.map Prod.fst ++ left) ::
    positions.map fun (trader, printed) => .position address trader printed

/-- What was read for the positions of a printed market. -/
def PrintedMarket.readings (x : PrintedMarket) : List ListReading :=
  x.positions.toList.flatMap fun positions => positionReadings x.row.entry.market positions []

/-- What a process has read of the markets. -/
def ListState.readings : ListState → List ListReading
  | .ready _ => []
  | .listing _ _ rows | .entered _ _ rows _ => rows.flatMap ListedMarket.readings
  | .stated _ rows entry state =>
    .contractState entry.market state :: rows.flatMap ListedMarket.readings
  | .printing _ rows printed _ =>
    rows.flatMap ListedMarket.readings ++ printed.flatMap PrintedMarket.readings
  | .tracing _ rows printed row positions traders _ =>
    positionReadings row.entry.market positions traders ++
      (rows.flatMap ListedMarket.readings ++ printed.flatMap PrintedMarket.readings)
  | .done _ rows printed =>
    rows.flatMap ListedMarket.readings ++ (printed.getD []).flatMap PrintedMarket.readings

/-- What a process has read after a call, it has read before or in this call. -/
theorem ListEffect.readings {t t' : ListState} {c : Chain} (h : ListEffect c t t')
    {reading : ListReading} (hmem : reading ∈ t'.readings) :
    reading ∈ t.readings ∨ reading.At c := by
  cases h with
  | noMarkets _ => simp [ListState.readings] at hmem
  | counted => simp [ListState.readings] at hmem
  | entered _ _ => exact .inl hmem
  | stated state_eq =>
    rcases List.mem_cons.mp hmem with rfl | hmem
    · exact .inr state_eq
    · exact .inl hmem
  | listed info_eq =>
    simp only [ListState.readings, List.flatMap_append, List.mem_append] at hmem ⊢
    rcases hmem with hmem | hmem
    · exact .inl hmem
    · obtain rfl : reading = .marketInfo _ _ := by simpa [ListedMarket.readings] using hmem
      exact .inr info_eq
  | listedStated info_eq =>
    simp only [ListState.readings, List.flatMap_append, List.mem_append] at hmem ⊢
    rcases hmem with hmem | hmem
    · exact .inl (List.mem_cons_of_mem _ hmem)
    · simp only [ListedMarket.readings, List.flatMap_singleton, Option.toList_some, List.map_singleton,
        List.mem_cons, List.not_mem_nil, or_false] at hmem
      rcases hmem with rfl | rfl
      · exact .inr info_eq
      · exact .inl List.mem_cons_self
  | done _ | sections _ => simpa [ListState.readings] using Or.inl hmem
  | traders traders_eq =>
    rcases List.mem_append.mp hmem with hmem | hmem
    · obtain rfl : reading = .activeTraders _ _ := by simpa [positionReadings] using hmem
      exact .inr traders_eq
    · exact .inl hmem
  | noTraders _ => simpa [ListState.readings, PrintedMarket.readings] using Or.inl hmem
  | position position_eq =>
    -- The trader is taken from those that are left, and the position is new.
    simp only [ListState.readings, positionReadings, List.map_append, List.map_cons, List.map_nil,
      List.append_assoc, List.cons_append, List.nil_append, List.mem_cons, List.mem_append] at hmem ⊢
    rcases hmem with hmem | hmem | hmem | hmem
    · exact .inl (.inl hmem)
    · exact .inl (.inr (.inl hmem))
    · rw [hmem]
      exact .inr ⟨_, position_eq, rfl⟩
    · exact .inl (.inr (.inr hmem))
  | noPosition _ =>
    refine .inl (List.mem_append_right _ ?_)
    simpa [ListState.readings, PrintedMarket.readings] using hmem
  | endOfTraders =>
    simp only [ListState.readings, List.flatMap_append, List.mem_append] at hmem ⊢
    rcases hmem with hmem | hmem | hmem
    · exact .inl (.inr (.inl hmem))
    · exact .inl (.inr (.inr hmem))
    · exact .inl (.inl (by simpa [PrintedMarket.readings] using hmem))
  | endOfSections => exact .inl hmem

/-- The detailed listing has every market that was read, once. -/
theorem bySection_perm (now : ℕ) (rows : List ListedMarket) : (bySection now rows).Perm rows := by
  unfold bySection
  induction rows with
  | nil => exact .refl _
  | cons row rows ih =>
    cases hsection : row.section now with
    | active =>
      simp only [List.filter_cons, hsection, decide_true, if_true, List.cons_append]
      exact ih.cons row
    | expiredNotSettled =>
      simp only [List.filter_cons, hsection, decide_true, if_true, List.cons_append]
      exact List.perm_middle.trans (ih.cons row)
    | settled =>
      simp only [List.filter_cons, hsection, decide_true, if_true]
      rw [← List.append_assoc]
      refine List.perm_middle.trans (.cons row ?_)
      rw [List.append_assoc]
      exact ih

/-! ## What stays true of a listing -/

/-- A later state of a market, as far as the processes print it. -/
structure Later (m m' : Market) : Prop where
  creator : m'.contractCreator = m.contractCreator
  marketName : m'.marketName = m.marketName
  marketDescription : m'.marketDescription = m.marketDescription
  strikePrice : m'.strikePrice = m.strikePrice
  expiryTimestamp : m'.expiryTimestamp = m.expiryTimestamp
  settlement : m.isSettled = true → m'.isSettled = true ∧ m'.settlementPrice = m.settlementPrice
  entry : ∀ t, (m.positions t).exists = true → (m'.positions t).entry = (m.positions t).entry

/-- A market is a later state of itself. -/
theorem Later.refl (m : Market) : Later m m :=
  ⟨rfl, rfl, rfl, rfl, rfl, fun hs => ⟨hs, rfl⟩, fun _ _ => rfl⟩

/-- A later state of a later state. -/
theorem Later.trans {m₁ m₂ m₃ : Market} (h : Later m₁ m₂) (h' : Later m₂ m₃) : Later m₁ m₃ where
  creator := h'.creator.trans h.creator
  marketName := h'.marketName.trans h.marketName
  marketDescription := h'.marketDescription.trans h.marketDescription
  strikePrice := h'.strikePrice.trans h.strikePrice
  expiryTimestamp := h'.expiryTimestamp.trans h.expiryTimestamp
  settlement := by
    intro hs
    obtain ⟨hs', hprice⟩ := h.settlement hs
    obtain ⟨hs'', hprice'⟩ := h'.settlement hs'
    exact ⟨hs'', hprice'.trans hprice⟩
  entry := by
    intro t ht
    have hentry := h.entry t ht
    have ht' : (m₂.positions t).exists = true := (congrArg Position.exists hentry).trans ht
    exact (h'.entry t ht').trans hentry

/-- A call leads to a later state. -/
theorem exec_later {tx : Tx} {w w' : World} (h : exec tx w = .ok w') :
    Later w.market w'.market := by
  have heffect := exec_effect h
  have hstatic : w'.market.contractCreator = w.market.contractCreator ∧
      w'.market.marketName = w.market.marketName ∧
      w'.market.marketDescription = w.market.marketDescription := by
    generalize tx.call = call at heffect
    cases heffect <;> exact ⟨rfl, rfl, rfl⟩
  obtain ⟨hcreator, hname, hdescription⟩ := hstatic
  obtain ⟨hstrike, hexpiry⟩ := heffect.strike_expiry
  refine ⟨hcreator, hname, hdescription, hstrike, hexpiry, fun hs => ?_, fun t ht => heffect.entry ht⟩
  have hafter := exec_of_settled hs h
  exact ⟨hafter.settled, congrArg Terms.settlementPrice hafter.terms⟩

/-- A later state of a factory and its markets. -/
structure Chain.Later (c c' : Chain) : Prop where
  registry : c.factory.markets <+: c'.factory.markets
  market : ∀ {address w}, c.markets address = some w →
    ∃ w', c'.markets address = some w' ∧ GasCap.Later w.market w'.market

/-- A state of the system is a later state of itself. -/
theorem Chain.Later.refl (c : Chain) : c.Later c :=
  ⟨List.prefix_refl _, fun hw => ⟨_, hw, .refl _⟩⟩

/-- A message leads to a later state. -/
theorem step_later {self : Address} {msg : Message} {c c' : Chain}
    (h : Chain.step self msg c = .ok c') : c.Later c' where
  registry := run_markets (.single trivial h)
  market := by
    intro address w hw
    obtain ⟨w', hw', hmove⟩ := step_market_kept hw h
    refine ⟨w', hw', ?_⟩
    rcases hmove with rfl | ⟨tx, hexec⟩
    · exact .refl _
    · exact exec_later hexec

/-- The static information is that of the market, and what it says of the settlement holds. -/
structure StaticInfo.Of (info : StaticInfo) (m : Market) : Prop where
  creator : info.creator = m.contractCreator
  name : info.name = m.marketName
  description : info.description = m.marketDescription
  strikePrice : info.strikePrice = m.strikePrice
  expiryTimestamp : info.expiryTimestamp = m.expiryTimestamp
  settlement : info.isSettled = true →
    m.isSettled = true ∧ m.settlementPrice = info.settlementPrice

/-- The state is that of the market, and what it says of the settlement holds. -/
structure ContractState.Of (state : ContractState) (m : Market) : Prop where
  strikePrice : state.strikePrice = m.strikePrice
  expiryTimestamp : state.expiryTimestamp = m.expiryTimestamp
  settlement : state.isSettled = true →
    m.isSettled = true ∧ m.settlementPrice = state.settlementPrice

/-- What was read of a market is true of it, at an index of the registry. -/
structure RowTrue (c : Chain) (index : ℕ) (row : ListedMarket) : Prop where
  index_eq : row.index = index
  entry_eq : getMarket index c.factory = .ok row.entry
  market : ∃ w, c.markets row.entry.market = some w ∧ row.info.Of w.market ∧
    ∀ state, row.state = some state → state.Of w.market

/-- The positions that were read of the market at an address are true of it, and so are the traders
whose positions are still to be read, each of them once. -/
structure Traced (c : Chain) (address : Address) (positions : List (Address × PrintedPosition))
    (traders : List Address) : Prop where
  nodup : (positions.map Prod.fst ++ traders).Nodup
  market : ∃ w, c.markets address = some w ∧
    (∀ t ∈ traders, (w.market.positions t).exists = true) ∧
    ∀ t p, (t, p) ∈ positions → (w.market.positions t).exists = true ∧
      p.position.entry = (w.market.positions t).entry

section Stable

variable {c c' : Chain} {m m' : Market} {index : ℕ} {row : ListedMarket} {address : Address}

/-- Static information stays true. -/
theorem StaticInfo.Of.later {info : StaticInfo} (h : info.Of m) (hl : Later m m') : info.Of m' where
  creator := h.creator.trans hl.creator.symm
  name := h.name.trans hl.marketName.symm
  description := h.description.trans hl.marketDescription.symm
  strikePrice := h.strikePrice.trans hl.strikePrice.symm
  expiryTimestamp := h.expiryTimestamp.trans hl.expiryTimestamp.symm
  settlement := by
    intro hinfo
    obtain ⟨hs, hprice⟩ := h.settlement hinfo
    obtain ⟨hs', hprice'⟩ := hl.settlement hs
    exact ⟨hs', hprice'.trans hprice⟩

/-- The strike, the expiry, and a settlement stay true. -/
theorem ContractState.Of.later {state : ContractState} (h : state.Of m) (hl : Later m m') :
    state.Of m' where
  strikePrice := h.strikePrice.trans hl.strikePrice.symm
  expiryTimestamp := h.expiryTimestamp.trans hl.expiryTimestamp.symm
  settlement := by
    intro hstate
    obtain ⟨hs, hprice⟩ := h.settlement hstate
    obtain ⟨hs', hprice'⟩ := hl.settlement hs
    exact ⟨hs', hprice'.trans hprice⟩

/-- What was read of a market stays true. -/
theorem RowTrue.later (h : RowTrue c index row) (hl : c.Later c') : RowTrue c' index row where
  index_eq := h.index_eq
  entry_eq := getMarket_of_prefix hl.registry h.entry_eq
  market := by
    obtain ⟨w, hw, hinfo, hstate⟩ := h.market
    obtain ⟨w', hw', hlater⟩ := hl.market hw
    exact ⟨w', hw', hinfo.later hlater, fun state hs => (hstate state hs).later hlater⟩

/-- The positions that were read of a market stay true. -/
theorem Traced.later {positions : List (Address × PrintedPosition)} {traders : List Address}
    (h : Traced c address positions traders) (hl : c.Later c') :
    Traced c' address positions traders where
  nodup := h.nodup
  market := by
    obtain ⟨w, hw, htraders, hpositions⟩ := h.market
    obtain ⟨w', hw', hlater⟩ := hl.market hw
    have hexists : ∀ t, (w.market.positions t).exists = true →
        (w'.market.positions t).exists = true := by
      intro t ht
      have hentry := congrArg Position.exists (hlater.entry t ht)
      exact hentry.trans ht
    refine ⟨w', hw', fun t ht => hexists t (htraders t ht), fun t p hp => ?_⟩
    obtain ⟨ht, hentry⟩ := hpositions t p hp
    exact ⟨hexists t ht, hentry.trans (hlater.entry t ht).symm⟩

end Stable

/-! ## The processes -/

/-- What was read in the loop over the indices, from a factory that had `start` markets before. -/
structure RowsTrue (start : ℕ) (c : Chain) (count : ℕ) (rows : List ListedMarket) : Prop where
  start_le : start ≤ count
  count_le : count ≤ marketsCount c.factory
  length_le : rows.length ≤ count
  listed : ∀ i row, rows[i]? = some row → RowTrue c i row

/-- What was printed of the positions. -/
def PrintedTrue (c : Chain) (printed : List PrintedMarket) : Prop :=
  ∀ x ∈ printed, ∃ positions, x.positions = some positions ∧
    Traced c x.row.entry.market positions []

/-- What was printed, and what is still to be printed, are all markets that were read, in the order of
the sections. -/
def InSections (rows : List ListedMarket) (printed : List PrintedMarket)
    (rest : List ListedMarket) : Prop :=
  ∃ now, printed.map PrintedMarket.row ++ rest = bySection now rows

/-- What holds of the state of a process and the system, where the process began with `start`
markets. -/
def ListState.Sound (start : ℕ) : ListState → Chain → Prop
  | .ready _, c => start ≤ marketsCount c.factory
  | .listing _ count rows, c => RowsTrue start c count rows
  | .entered _ count rows entry, c =>
    RowsTrue start c count rows ∧ rows.length < count ∧
      getMarket rows.length c.factory = .ok entry
  | .stated count rows entry state, c =>
    RowsTrue start c count rows ∧ rows.length < count ∧
      getMarket rows.length c.factory = .ok entry ∧
      ∃ w, c.markets entry.market = some w ∧ state.Of w.market
  | .printing count rows printed rest, c =>
    RowsTrue start c count rows ∧ rows.length = count ∧ PrintedTrue c printed ∧
      InSections rows printed rest
  | .tracing count rows printed row positions traders rest, c =>
    RowsTrue start c count rows ∧ rows.length = count ∧ PrintedTrue c printed ∧
      InSections rows printed (row :: rest) ∧ Traced c row.entry.market positions traders
  | .done count rows printed, c =>
    RowsTrue start c count rows ∧ rows.length = count ∧
      ∀ list, printed = some list → PrintedTrue c list ∧ InSections rows list []

section Stable

variable {c c' : Chain} {start count : ℕ} {rows : List ListedMarket}

/-- What was read of the markets stays true. -/
theorem RowsTrue.later (h : RowsTrue start c count rows) (hl : c.Later c') :
    RowsTrue start c' count rows where
  start_le := h.start_le
  count_le := h.count_le.trans hl.registry.length_le
  length_le := h.length_le
  listed i row hrow := (h.listed i row hrow).later hl

/-- What was printed of the positions stays true. -/
theorem PrintedTrue.later {printed : List PrintedMarket} (h : PrintedTrue c printed)
    (hl : c.Later c') : PrintedTrue c' printed := by
  intro x hx
  obtain ⟨positions, hpositions, htraced⟩ := h x hx
  exact ⟨positions, hpositions, htraced.later hl⟩

/-- What holds of the state of a process stays so. -/
theorem ListState.Sound.later {t : ListState} (h : t.Sound start c) (hl : c.Later c') :
    t.Sound start c' := by
  cases t with
  | ready detailed => exact le_trans h hl.registry.length_le
  | listing detailed count rows => exact RowsTrue.later h hl
  | entered detailed count rows entry =>
    obtain ⟨hrows, hlt, hentry⟩ := h
    exact ⟨hrows.later hl, hlt, getMarket_of_prefix hl.registry hentry⟩
  | stated count rows entry state =>
    obtain ⟨hrows, hlt, hentry, w, hw, hstate⟩ := h
    obtain ⟨w', hw', hlater⟩ := hl.market hw
    exact ⟨hrows.later hl, hlt, getMarket_of_prefix hl.registry hentry, w', hw', hstate.later hlater⟩
  | printing count rows printed rest =>
    obtain ⟨hrows, hlength, hprinted, hsections⟩ := h
    exact ⟨hrows.later hl, hlength, hprinted.later hl, hsections⟩
  | tracing count rows printed row positions traders rest =>
    obtain ⟨hrows, hlength, hprinted, hsections, htraced⟩ := h
    exact ⟨hrows.later hl, hlength, hprinted.later hl, hsections, htraced.later hl⟩
  | done count rows printed =>
    obtain ⟨hrows, hlength, hlist⟩ := h
    refine ⟨hrows.later hl, hlength, fun list hprinted => ?_⟩
    obtain ⟨hprinted, hsections⟩ := hlist list hprinted
    exact ⟨hprinted.later hl, hsections⟩

/-- A row more has been read. -/
theorem RowsTrue.append (h : RowsTrue start c count rows) (hlt : rows.length < count)
    {row : ListedMarket} (hrow : RowTrue c rows.length row) :
    RowsTrue start c count (rows ++ [row]) where
  start_le := h.start_le
  count_le := h.count_le
  length_le := by
    rw [List.length_append, List.length_singleton]
    exact hlt
  listed := by
    intro i x hx
    rcases lt_or_ge i rows.length with hi | hi
    · rw [List.getElem?_append_left hi] at hx
      exact h.listed i x hx
    · rw [List.getElem?_append_right hi, List.getElem?_singleton] at hx
      split_ifs at hx with hzero
      have hlast : i = rows.length := by omega
      cases hx
      rw [hlast]
      exact hrow

/-- There is a market for every row that is still to be printed. -/
theorem RowsTrue.market_of_section (h : RowsTrue start c count rows) {printed : List PrintedMarket}
    {row : ListedMarket} {rest : List ListedMarket} (hs : InSections rows printed (row :: rest)) :
    ∃ w, c.markets row.entry.market = some w := by
  obtain ⟨now, hsections⟩ := hs
  have hmem : row ∈ bySection now rows := by
    rw [← hsections]
    exact List.mem_append_right _ List.mem_cons_self
  obtain ⟨i, hi⟩ := List.mem_iff_getElem?.mp ((bySection_perm now rows).mem_iff.mp hmem)
  obtain ⟨w, hw, -⟩ := (h.listed i row hi).market
  exact ⟨w, hw⟩

/-- A market more has been printed. -/
theorem PrintedTrue.append {printed : List PrintedMarket} {row : ListedMarket}
    {positions : List (Address × PrintedPosition)} (h : PrintedTrue c printed)
    (htraced : Traced c row.entry.market positions []) :
    PrintedTrue c (printed ++ [⟨row, some positions⟩]) := by
  intro x hx
  rcases List.mem_append.mp hx with hx | hx
  · exact h x hx
  · obtain rfl := List.mem_singleton.mp hx
    exact ⟨positions, rfl, htraced⟩

/-- A position more has been read. -/
theorem Traced.next {address trader : Address} {positions : List (Address × PrintedPosition)}
    {traders : List Address} {w : World} (h : Traced c address positions (trader :: traders))
    (hw : c.markets address = some w) :
    Traced c address (positions ++ [(trader, printPosition (w.market.positions trader))]) traders where
  nodup := by
    rw [List.map_append, List.map_singleton, List.append_assoc]
    exact h.nodup
  market := by
    obtain ⟨w', hw', htraders, hpositions⟩ := h.market
    cases hw.symm.trans hw'
    refine ⟨w, hw, fun t ht => htraders t (List.mem_cons_of_mem _ ht), fun t p hp => ?_⟩
    rcases List.mem_append.mp hp with hp | hp
    · exact hpositions t p hp
    · cases List.mem_singleton.mp hp
      exact ⟨htraders trader List.mem_cons_self, rfl⟩

end Stable

/-- The registry is consistent, and each market is in a state that its calls lead to. -/
structure ConsistentReachable (c : Chain) : Prop where
  consistent : Consistent c
  reachable : ∀ {address w}, c.markets address = some w → Reachable w

section ConsistentReachable

variable {self : Address} {msg : Message} {c c' : Chain} {address : Address} {w : World}

/-- A message keeps the registry consistent and the markets reachable. -/
theorem ConsistentReachable.step (hc : ConsistentReachable c)
    (h : Chain.step self msg c = .ok c') : ConsistentReachable c' where
  consistent := step_consistent hc.consistent h
  reachable := by
    intro address u hu
    rcases step_market_cases h hu with hkept | ⟨env, p, -, -, hdeploy⟩ | ⟨tx, w, -, hw, hexec⟩
    · exact hc.reachable hkept
    · exact ⟨_, u, [], hdeploy, .nil u⟩
    · exact (hc.reachable hw).exec hexec

/-- In every run from the deployment of a factory, the registry is consistent and the markets are
reachable. -/
theorem run_consistentReachable {env : Env} {c₀ : Chain} {msgs : List Message}
    (h₀ : deployFactory env = .ok c₀) (run : Run (Chain.step self) c₀ msgs c) :
    ConsistentReachable c := by
  obtain ⟨hconsistent, -, hempty⟩ := deployFactory_consistent h₀
  have hstart : ConsistentReachable c₀ := ⟨hconsistent, fun hw => by rw [hempty] at hw; cases hw⟩
  exact run.invariant (fun _ _ _ _ hc h => hc.step h) hstart

/-- There is a market at the address of every entry of the registry. -/
theorem ConsistentReachable.market_of_entry (hc : ConsistentReachable c) {i : ℕ} {info : MarketInfo}
    (h : getMarket i c.factory = .ok info) : ∃ w, c.markets info.market = some w := by
  have hmem : info ∈ c.factory.markets := List.mem_of_getElem? (getMarket_eq_ok.mp h)
  have hsome : (c.markets info.market).isSome = true :=
    (hc.consistent.address_iff _).mp (List.mem_map_of_mem hmem)
  exact Option.isSome_iff_exists.mp hsome

/-- The active traders of a market have positions, and are read once. -/
theorem ConsistentReachable.traced (hc : ConsistentReachable c) (hw : c.markets address = some w)
    {traders : List Address} (htraders : getActiveTraders w.market = .ok traders) :
    Traced c address [] traders := by
  have hreach : Reachable w := hc.reachable hw
  rw [getActiveTraders_eq] at htraders
  cases htraders
  refine ⟨?_, w, hw, fun t ht => ?_, fun t p hp => absurd hp List.not_mem_nil⟩
  · rw [List.map_nil, List.nil_append, hreach.indexed.activeTraders_eq]
    exact hreach.lifecycle.participants_nodup.filter _
  · have hopen : (w.market.positions t).IsOpen :=
      (hreach.indexed.trader_iff t).mp (List.mem_filter.mp ht).2
    exact hopen.1

/-- A view of a market that is there. -/
theorem view_eq {α : Type} (hw : c.markets address = some w) (view : Market → Except Revert α) :
    c.view address view = view w.market := by
  unfold Chain.view
  rw [hw]

end ConsistentReachable

/-- The static information that a market returns is true of it. -/
theorem getMarketInfo_of (m : Market) : (getMarketInfo m).Of m :=
  ⟨rfl, rfl, rfl, rfl, rfl, fun hs => ⟨hs, rfl⟩⟩

/-- The state that a market returns is true of it. -/
theorem getContractState_of (m : Market) : (getContractState m).Of m :=
  ⟨rfl, rfl, fun hs => ⟨hs, rfl⟩⟩

/-- What a call of a process reads is true. -/
theorem ListEffect.sound {start : ℕ} {t t' : ListState} {c : Chain} (h : ListEffect c t t')
    (hc : ConsistentReachable c) (ht : t.Sound start c) : t'.Sound start c := by
  cases h with
  | noMarkets count_eq =>
    have hnone : RowsTrue start c (marketsCount c.factory) [] :=
      ⟨ht, le_refl _, Nat.zero_le _, fun i row hrow => by cases hrow⟩
    rw [count_eq] at hnone
    exact ⟨hnone, rfl, fun list hlist => by cases hlist⟩
  | counted => exact ⟨ht, le_refl _, Nat.zero_le _, fun i row hrow => by cases hrow⟩
  | entered left entry_eq => exact ⟨ht, left, entry_eq⟩
  | stated state_eq =>
    obtain ⟨hrows, hlt, hentry⟩ := ht
    obtain ⟨w, hw⟩ := hc.market_of_entry hentry
    rw [view_eq hw] at state_eq
    cases state_eq
    exact ⟨hrows, hlt, hentry, w, hw, getContractState_of _⟩
  | listed info_eq =>
    obtain ⟨hrows, hlt, hentry⟩ := ht
    obtain ⟨w, hw⟩ := hc.market_of_entry hentry
    rw [view_eq hw] at info_eq
    cases info_eq
    refine hrows.append hlt ⟨rfl, hentry, w, hw, getMarketInfo_of _, ?_⟩
    exact fun state hs => by cases hs
  | listedStated info_eq =>
    obtain ⟨hrows, hlt, hentry, w, hw, hstate⟩ := ht
    rw [view_eq hw] at info_eq
    cases info_eq
    refine hrows.append hlt ⟨rfl, hentry, w, hw, getMarketInfo_of _, ?_⟩
    intro state hs
    cases hs
    exact hstate
  | done length_eq => exact ⟨ht, length_eq, fun list hlist => by cases hlist⟩
  | sections length_eq => exact ⟨ht, length_eq, fun x hx => absurd hx List.not_mem_nil, _, rfl⟩
  | traders traders_eq =>
    obtain ⟨hrows, hlength, hprinted, hsections⟩ := ht
    obtain ⟨w, hw⟩ := hrows.market_of_section hsections
    rw [view_eq hw] at traders_eq
    exact ⟨hrows, hlength, hprinted, hsections, hc.traced hw traders_eq⟩
  | noTraders failed =>
    -- The view does not fail for a market that is there.
    obtain ⟨hrows, -, -, hsections⟩ := ht
    obtain ⟨w, hw⟩ := hrows.market_of_section hsections
    rw [view_eq hw, getActiveTraders_eq] at failed
    cases failed
  | position position_eq =>
    obtain ⟨hrows, hlength, hprinted, hsections, htraced⟩ := ht
    obtain ⟨w, hw, -⟩ := htraced.market
    rw [view_eq hw] at position_eq
    cases position_eq
    exact ⟨hrows, hlength, hprinted, hsections, htraced.next hw⟩
  | noPosition failed =>
    obtain ⟨-, -, -, -, htraced⟩ := ht
    obtain ⟨w, hw, -⟩ := htraced.market
    rw [view_eq hw] at failed
    cases failed
  | endOfTraders =>
    obtain ⟨hrows, hlength, hprinted, ⟨now, hsections⟩, htraced⟩ := ht
    refine ⟨hrows, hlength, hprinted.append htraced, now, ?_⟩
    rw [List.map_append, List.append_assoc]
    exact hsections
  | endOfSections =>
    obtain ⟨hrows, hlength, hprinted, hsections⟩ := ht
    refine ⟨hrows, hlength, fun list hlist => ?_⟩
    cases hlist
    exact ⟨hprinted, hsections⟩

/-- **What the processes read stays true**: they change nothing, and a message leads to a later
state. -/
theorem listers_rely_guarantee (self : Address) (start : ℕ) :
    RelyGuarantee (listers self) ConsistentReachable Chain.Later (ListState.Sound start) where
  client := by
    intro call t t' c c' hc ht h
    obtain ⟨rfl, heffect⟩ := listStep_effect h
    exact ⟨hc, .refl _, heffect.sound hc ht⟩
  other := by
    intro msg c c' hc h
    exact ⟨hc.step h, step_later h⟩
  stable := by
    intro t c c' hl ht
    exact ht.later hl

/-! ## The end of a listing -/

/-- How much of its script a process has before it: which of the loops it is in, the calls or markets
that are left of the loop, and the traders that are left of a market. -/
def ListState.left : ListState → ℕ ×ₗ ℕ ×ₗ ℕ
  | .ready _ => toLex (3, toLex (0, 0))
  | .listing _ count rows => toLex (2, toLex (3 * (count - rows.length), 0))
  | .entered _ count rows _ => toLex (2, toLex (3 * (count - rows.length - 1) + 2, 0))
  | .stated count rows _ _ => toLex (2, toLex (3 * (count - rows.length - 1) + 1, 0))
  | .printing _ _ _ rest => toLex (1, toLex (rest.length, 0))
  | .tracing _ _ _ _ _ traders rest => toLex (1, toLex (rest.length, traders.length + 1))
  | .done _ _ _ => toLex (0, toLex (0, 0))

section Left

variable {i i' m m' n n' : ℕ}

/-- The process is in a later loop. -/
theorem left_lt_of_loop (h : i < i') :
    (toLex (i, toLex (m, n)) : ℕ ×ₗ ℕ ×ₗ ℕ) < toLex (i', toLex (m', n')) :=
  Prod.Lex.toLex_lt_toLex.mpr (.inl h)

/-- The process has less of its loop before it. -/
theorem left_lt_of_rest (h : m < m') :
    (toLex (i, toLex (m, n)) : ℕ ×ₗ ℕ ×ₗ ℕ) < toLex (i, toLex (m', n')) :=
  Prod.Lex.toLex_lt_toLex.mpr (.inr ⟨rfl, Prod.Lex.toLex_lt_toLex.mpr (.inl h)⟩)

/-- The process has fewer traders of a market before it. -/
theorem left_lt_of_traders (h : n < n') :
    (toLex (i, toLex (m, n)) : ℕ ×ₗ ℕ ×ₗ ℕ) < toLex (i, toLex (m, n')) :=
  Prod.Lex.toLex_lt_toLex.mpr (.inr ⟨rfl, Prod.Lex.toLex_lt_toLex.mpr (.inr ⟨rfl, h⟩)⟩)

end Left

/-- Every call leaves less of the script. -/
theorem ListEffect.left_lt {t t' : ListState} {c : Chain} (h : ListEffect c t t') :
    t'.left < t.left := by
  cases h with
  | noMarkets _ => exact left_lt_of_loop (by omega)
  | counted => exact left_lt_of_loop (by omega)
  | entered left _ => exact left_lt_of_rest (by omega)
  | stated _ => exact left_lt_of_rest (by omega)
  | listed _ | listedStated _ =>
    refine left_lt_of_rest ?_
    rw [List.length_append, List.length_singleton]
    omega
  | done _ | sections _ => exact left_lt_of_loop (by omega)
  -- A market is taken from those that are left, also where its traders cannot be read.
  | traders _ | noTraders _ => exact left_lt_of_rest (by rw [List.length_cons]; omega)
  | position _ => exact left_lt_of_traders (by rw [List.length_cons]; omega)
  | noPosition _ | endOfTraders => exact left_lt_of_traders (by omega)
  | endOfSections => exact left_lt_of_loop (by omega)

/-- The steps of a process are well-founded, whatever the state of the system. -/
theorem listers_wellFounded (self : Address) : WellFounded (listers self).Follows := by
  refine Subrelation.wf ?_ (InvImage.wf ListState.left wellFounded_lt)
  rintro t' t ⟨call, c, c', hcall⟩
  exact (listStep_effect hcall).2.left_lt

/-- A process that has not finished its listing has a call that succeeds. -/
theorem ListState.Sound.goes_on {start : ℕ} {t : ListState} {c : Chain} (h : t.Sound start c)
    (hc : ConsistentReachable c) :
    (∃ count rows printed, t = .done count rows printed) ∨
      ∃ call t', listStep call t c = .ok (t', c) := by
  cases t with
  | done count rows printed => exact .inl ⟨count, rows, printed, rfl⟩
  | ready detailed =>
    rcases Nat.eq_zero_or_pos (marketsCount c.factory) with hzero | hpos
    · exact .inr ⟨.marketsCount, _, if_pos hzero⟩
    · exact .inr ⟨.marketsCount, _, if_neg hpos.ne'⟩
  | listing detailed count rows =>
    rcases Nat.lt_or_ge rows.length count with hlt | hge
    · obtain ⟨entry, hentry⟩ := exists_getMarket (lt_of_lt_of_le hlt h.count_le)
      refine .inr ⟨.getMarket, .entered detailed count rows entry, ?_⟩
      exact Checked.ensure_bind_eq_ok.mpr ⟨hlt, Checked.bind_eq_ok.mpr ⟨entry, hentry, rfl⟩⟩
    · have hlength : rows.length = count := le_antisymm h.length_le hge
      cases detailed with
      | false =>
        exact .inr ⟨.endOfMarkets 0, _, Checked.ensure_bind_eq_ok.mpr ⟨hlength, rfl⟩⟩
      | true =>
        exact .inr ⟨.endOfMarkets 0, _, Checked.ensure_bind_eq_ok.mpr ⟨hlength, rfl⟩⟩
  | entered detailed count rows entry =>
    obtain ⟨-, -, hentry⟩ := h
    obtain ⟨w, hw⟩ := hc.market_of_entry hentry
    cases detailed with
    | false =>
      have hinfo : c.view entry.market (fun m => return getMarketInfo m) =
          .ok (getMarketInfo w.market) := view_eq hw _
      exact .inr ⟨.getMarketInfo, _, Checked.bind_eq_ok.mpr ⟨_, hinfo, rfl⟩⟩
    | true =>
      have hstate : c.view entry.market (fun m => return getContractState m) =
          .ok (getContractState w.market) := view_eq hw _
      exact .inr ⟨.getContractState, _, Checked.bind_eq_ok.mpr ⟨_, hstate, rfl⟩⟩
  | stated count rows entry state =>
    obtain ⟨-, -, -, w, hw, -⟩ := h
    have hinfo : c.view entry.market (fun m => return getMarketInfo m) =
        .ok (getMarketInfo w.market) := view_eq hw _
    exact .inr ⟨.getMarketInfo, _, Checked.bind_eq_ok.mpr ⟨_, hinfo, rfl⟩⟩
  | printing count rows printed rest =>
    cases rest with
    | nil => exact .inr ⟨.endOfSections, _, rfl⟩
    | cons row rest =>
      obtain ⟨hrows, -, -, hsections⟩ := h
      obtain ⟨w, hw⟩ := hrows.market_of_section hsections
      obtain ⟨traders, htraders⟩ : ∃ traders, getActiveTraders w.market = .ok traders :=
        ⟨_, getActiveTraders_eq w.market⟩
      refine .inr ⟨.getActiveTraders, .tracing count rows printed row [] traders rest, ?_⟩
      rw [listStep, view_eq hw, htraders]
      rfl
  | tracing count rows printed row positions traders rest =>
    cases traders with
    | nil => exact .inr ⟨.endOfTraders, _, rfl⟩
    | cons trader traders =>
      obtain ⟨-, -, -, -, htraced⟩ := h
      obtain ⟨w, hw, -⟩ := htraced.market
      have hposition : c.view row.entry.market (fun m => return getPosition trader m) =
          .ok (getPosition trader w.market) := view_eq hw _
      refine .inr ⟨.getPosition, .tracing count rows printed row
        (positions ++ [(trader, printPosition (getPosition trader w.market))]) traders rest, ?_⟩
      rw [listStep, hposition]
      rfl

section Run

variable {K : Type*} [DecidableEq K] {self : Address} {env : Env} {c₀ : Chain}
  {msgs : List Message} {s s' : Joint Chain ListState K} {turns : List (Turn K ListCall Message)}

/-- What the processes have read at the end of a run is true there. -/
theorem run_listers_sound (h₀ : deployFactory env = .ok c₀)
    (hmsgs : Run (Chain.step self) c₀ msgs s.shared)
    (hready : ∀ k, ∃ detailed, s.locals k = .ready detailed)
    (run : Run (listers self).step s turns s') :
    ConsistentReachable s'.shared ∧
      ∀ k, (s'.locals k).Sound (marketsCount s.shared.factory) s'.shared := by
  refine (listers_rely_guarantee self _).run run (run_consistentReachable h₀ hmsgs) fun k => ?_
  obtain ⟨detailed, hk⟩ := hready k
  rw [hk]
  exact le_refl _

/-- What a process has read is what the view returned in a state of the run, to this process. -/
theorem run_listers_read (h₀ : deployFactory env = .ok c₀)
    (hmsgs : Run (Chain.step self) c₀ msgs s.shared)
    (hready : ∀ k, ∃ detailed, s.locals k = .ready detailed)
    (run : Run (listers self).step s turns s') {k : K} {reading : ListReading}
    (hmem : reading ∈ (s'.locals k).readings) :
    (listers self).Passes s turns s' k fun _ _ c => reading.At c := by
  have hrely := listers_rely_guarantee self (marketsCount s.shared.factory)
  have hread := hrely.passes (k := k) (E := fun t => reading ∈ t.readings)
    (R := fun _ _ c => reading.At c) (fun _ _ hstep hmem => (listStep_effect hstep).2.readings hmem) run
    (run_consistentReachable h₀ hmsgs) (fun k => ?_) ?_ hmem
  · exact hread.imp fun _ _ _ h => h.1
  · obtain ⟨detailed, hk⟩ := hready k
    rw [hk]
    exact le_refl _
  · obtain ⟨detailed, hk⟩ := hready k
    rw [hk]
    exact List.not_mem_nil

/-- **The listings end**: in every infinite run of such processes each of them makes finitely many
calls, whatever happens to the factory and its markets in between, and in every state of a run a
process finishes its listing if it goes on by itself. -/
theorem listing_ends (h₀ : deployFactory env = .ok c₀)
    (hmsgs : Run (Chain.step self) c₀ msgs s.shared)
    (hready : ∀ k, ∃ detailed, s.locals k = .ready detailed)
    (run : Run (listers self).step s turns s') (k : K) :
    (∀ (states : ℕ → Joint Chain ListState K) (schedule : ℕ → Turn K ListCall Message),
      (∀ n, (listers self).step (schedule n) (states n) = .ok (states (n + 1))) →
        ∃ last, ∀ n, last ≤ n → (schedule n).isOf k = false) ∧
      ∃ (calls : List ListCall) (s'' : Joint Chain ListState K),
        Run (listers self).step s' (calls.map (Turn.client k)) s'' ∧
          ∃ count rows printed, s''.locals k = .done count rows printed := by
  refine ⟨fun states schedule hstep => ?_, ?_⟩
  · exact Clients.exists_last_turn (listers_wellFounded self) hstep k
  · -- The calls of the processes keep what they have read true, so none of them is stuck.
    have hinv : ConsistentReachable s'.shared ∧
        ∀ k, (s'.locals k).Sound (marketsCount s.shared.factory) s'.shared :=
      run_listers_sound h₀ hmsgs hready run
    refine Clients.exists_finish (k := k)
      (I := fun u => ConsistentReachable u.shared ∧
        ∀ k, (u.locals k).Sound (marketsCount s.shared.factory) u.shared)
      (D := fun t => ∃ count rows printed, t = .done count rows printed)
      (listers_wellFounded self) ?_ hinv
    rintro u ⟨hconsistent, hsound⟩
    rcases (hsound k).goes_on hconsistent with hdone | ⟨j, t', hj⟩
    · exact .inl hdone
    · have hclient : (listers self).step (.client k j) u =
          .ok { shared := u.shared, locals := Function.update u.locals k t' } :=
        Clients.step_client.mpr ⟨t', u.shared, hj, rfl⟩
      have hrely := listers_rely_guarantee self (marketsCount s.shared.factory)
      have hsound' := hrely.step hconsistent hsound hclient
      exact .inr ⟨j, _, hclient, hconsistent, hsound'⟩

end Run

/-- Two processes that list three markets, with a message between the calls of the second. -/
def sampleListing : List (Turn ℕ ListCall Message) :=
  let rows : List ListCall := [.getMarket, .getMarketInfo]
  let detailedRows : List ListCall := [.getMarket, .getContractState, .getMarketInfo]
  let positions : List ListCall := [.getActiveTraders, .getPosition, .endOfTraders, .getActiveTraders,
    .endOfTraders, .getActiveTraders, .endOfTraders, .endOfSections]
  (.marketsCount :: (rows ++ rows ++ rows)).map (.client 0) ++
    [.client 0 (.endOfMarkets 1700000006), .client 1 .marketsCount,
      .other (.createMarket (quietEnv 7 0 1700000006) sampleParams 0xA4)] ++
    (detailedRows ++ detailedRows ++ detailedRows ++ .endOfMarkets 1700000006 :: positions).map
      (.client 1)

/-- Lists the markets of a factory in the order of the turns. -/
def launchListing (turns : List (Turn ℕ ListCall Message)) :
    Except Revert (Chain × Joint Chain ListState ℕ) := do
  let c ← launchFactory sampleFactory (quietEnv 1 0 1700000000) sampleMessages
  let s ← runAll (listers sampleFactory).step turns ⟨c, fun k => .ready (k = 1)⟩
  return (c, s)

/-- A listing starts from the state that the messages lead to, with all processes at their start. -/
theorem launchListing_eq_ok {turns : List (Turn ℕ ListCall Message)} {c : Chain}
    {s : Joint Chain ListState ℕ} (h : launchListing turns = .ok (c, s)) :
    ∃ c₀, deployFactory (quietEnv 1 0 1700000000) = .ok c₀ ∧
      Run (Chain.step sampleFactory) c₀ sampleMessages c ∧
      Run (listers sampleFactory).step ⟨c, fun k => .ready (k = 1)⟩ turns s := by
  obtain ⟨hlaunch, run⟩ := run_of_launch h
  obtain ⟨c₀, h₀, hmsgs⟩ := launchFactory_eq_ok.mp hlaunch
  exact ⟨c₀, h₀, hmsgs, run⟩

/-- The number of the rows of a finished listing, and whether it is a detailed one. -/
def ListState.doneWith : ListState → Option (ℕ × Bool)
  | .done _ rows printed => some (rows.length, printed.isSome)
  | _ => none

/-- In the midst of that run, the second process finishes its listing if it goes on by itself. -/
theorem listing_ends_sample :
    ∃ c s, launchListing (sampleListing.take 13) = .ok (c, s) ∧
      ∃ (calls : List ListCall) (s' : Joint Chain ListState ℕ),
        Run (listers sampleFactory).step s (calls.map (Turn.client 1)) s' ∧
          ∃ count rows printed, s'.locals 1 = .done count rows printed := by
  obtain ⟨⟨c, s⟩, hs, -⟩ := Checked.exists_of_any (x := launchListing (sampleListing.take 13))
    (p := fun _ => true) (by decide +kernel)
  obtain ⟨c₀, h₀, hmsgs, run⟩ := launchListing_eq_ok hs
  exact ⟨c, s, hs, (listing_ends h₀ hmsgs (fun k => ⟨_, rfl⟩) run 1).2⟩

end GasCap
