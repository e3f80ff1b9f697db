import GasCap.Factory
import GasCap.Lib.Registry

/-!
# The registry of a factory

A factory extends the list of its markets and the indices of their creator by two pushes, and reads
the list back in a loop. Together they are a `Registry` (`Consistent`), to which `createMarket` adds
an entry and a call of a market nothing. The creations come to addresses without a contract and in
the order of the blocks, so the addresses differ and the times of the creations do not decrease
(`registry_consistent`).
-/

namespace GasCap

open Machine

/-- The register `r` has the markets of the factory. -/
structure Registers (f : Factory) (r : Registry MarketInfo Address MarketInfo.creator) : Prop where
  entries : r.entries = f.markets
  index : r.index = f.marketsByCreator

/-- The registry of the factory is a register of its markets, each at an address of its own. -/
structure Consistent (c : Chain) : Prop where
  registers : ∃ r, Registers c.factory r
  address_iff : ∀ a, a ∈ c.factory.markets.map MarketInfo.market ↔ (c.markets a).isSome = true
  addresses_nodup : (c.factory.markets.map MarketInfo.market).Nodup

/-- Registering a market is adding an entry. -/
theorem Registers.register {f : Factory} {r : Registry MarketInfo Address MarketInfo.creator}
    (h : Registers f r) (info : MarketInfo) : Registers (f.register info) (r.add info) where
  entries := by simp only [Registry.add, Factory.register, h.entries]
  index := by simp only [Registry.add, Factory.register, h.entries, h.index]

/-- A new factory has no markets. -/
theorem deployFactory_consistent {env : Env} {c : Chain} (h : deployFactory env = .ok c) :
    Consistent c ∧ c.factory.markets = [] ∧ ∀ a, c.markets a = none := by
  obtain ⟨f, hf, hc⟩ := Checked.bind_eq_ok.mp h
  obtain rfl := Checked.pure_eq_ok.mp hc
  rw [constructFactory, Checked.ensure_bind_eq_ok] at hf
  obtain ⟨-, hf⟩ := hf
  obtain rfl := Checked.pure_eq_ok.mp hf
  refine ⟨⟨⟨Registry.empty, rfl, rfl⟩, fun a => ?_, List.nodup_nil⟩, rfl, fun a => rfl⟩
  exact ⟨fun hmem => absurd hmem List.not_mem_nil, fun hsome => (by cases hsome)⟩

section Step

variable {self : Address} {msg : Message} {msgs : List Message} {c c' : Chain}

/-- What a message adds to the list of the markets: an entry with the time of its block, or
nothing. -/
theorem step_markets (h : Chain.step self msg c = .ok c') :
    c'.factory.markets = c.factory.markets ∨
      ∃ info, c'.factory.markets = c.factory.markets ++ [info] ∧
        info.createdAt = msg.env.timestamp := by
  cases msg with
  | createMarket env params address =>
    obtain ⟨-, -, -, w, -, rfl⟩ := step_createMarket.mp h
    exact .inr ⟨_, rfl, rfl⟩
  | call market tx =>
    obtain ⟨w, w', -, -, rfl⟩ := step_call.mp h
    exact .inl rfl

/-- A message keeps the registry. -/
theorem step_consistent (hc : Consistent c) (h : Chain.step self msg c = .ok c') :
    Consistent c' := by
  cases msg with
  | createMarket env params address =>
    obtain ⟨-, hnone, -, w, -, rfl⟩ := step_createMarket.mp h
    obtain ⟨r, hr⟩ := hc.registers
    -- There was no market at the address, so it is not registered yet.
    have hnew : address ∉ c.factory.markets.map MarketInfo.market := by
      rw [hc.address_iff, hnone]
      exact Bool.false_ne_true
    refine ⟨⟨_, hr.register _⟩, fun a => ?_, ?_⟩
    · simp only [Factory.register, List.map_append, List.map_cons, List.map_nil, List.mem_append,
        List.mem_singleton]
      rcases eq_or_ne a address with rfl | hne
      · rw [Function.update_self]
        exact iff_of_true (.inr rfl) rfl
      · rw [Function.update_of_ne hne, ← hc.address_iff]
        exact or_iff_left hne
    · simp only [Factory.register, List.map_append, List.map_cons, List.map_nil]
      rw [← List.concat_eq_append]
      exact hc.addresses_nodup.concat hnew
  | call market tx =>
    obtain ⟨w, w', hw, -, rfl⟩ := step_call.mp h
    refine ⟨hc.registers, fun a => (hc.address_iff a).trans ?_, hc.addresses_nodup⟩
    simp only
    rcases eq_or_ne a market with rfl | hne
    · rw [Function.update_self, hw]
      exact iff_of_true rfl rfl
    · rw [Function.update_of_ne hne]

/-- A run from the deployment of a factory, under any guard, keeps the registry. -/
theorem run_consistent {P : Message → Chain → Prop} {env : Env} (h₀ : deployFactory env = .ok c)
    (run : GuardedRun (Chain.step self) P c msgs c') : Consistent c' :=
  run.invariant (fun _ _ _ _ hc h => step_consistent hc h) (deployFactory_consistent h₀).1

/-- No message changes an entry of the registry. -/
theorem run_markets (run : Run (Chain.step self) c msgs c') :
    c.factory.markets <+: c'.factory.markets := by
  refine run.invariant (I := fun c' => c.factory.markets <+: c'.factory.markets) ?_
    (List.prefix_refl _)
  intro msg s s' _ hprefix h
  rcases step_markets h with heq | ⟨info, heq, -⟩
  · rw [heq]
    exact hprefix
  · rw [heq]
    exact hprefix.trans (List.prefix_append _ _)

/-- The times of the creations in a run are among those of its messages, in their order. -/
theorem run_createdAt (run : Run (Chain.step self) c msgs c') :
    ∃ times, c'.factory.markets.map MarketInfo.createdAt =
        c.factory.markets.map MarketInfo.createdAt ++ times ∧
      times.Sublist (msgs.map fun msg => msg.env.timestamp) := by
  induction run with
  | nil c => exact ⟨[], (List.append_nil _).symm, List.nil_sublist _⟩
  | @cons c c₁ c₂ msg msgs _ accepted _ ih =>
    obtain ⟨times, htimes, hsub⟩ := ih
    rcases step_markets accepted with heq | ⟨info, heq, htime⟩
    · exact ⟨times, by rw [htimes, heq], hsub.cons _⟩
    · refine ⟨msg.env.timestamp :: times, ?_, hsub.cons_cons _⟩
      rw [htimes, heq, List.map_append, List.map_singleton, htime, List.append_assoc,
        List.singleton_append]

end Step

/-! ## The views of the registry -/

section Views

variable {f : Factory} {info : MarketInfo} {i : ℕ}

/-- `getMarket` returns the entry at an index. -/
theorem getMarket_eq_ok : getMarket i f = .ok info ↔ f.markets[i]? = some info := by
  rw [getMarket, Checked.ensure_bind_eq_ok]
  cases h : f.markets[i]? with
  | none => exact ⟨fun h => (by cases h.2), fun h => by cases h⟩
  | some info' =>
    have hlt : i < f.markets.length := (List.getElem?_eq_some_iff.mp h).1
    rw [Checked.pure_eq_ok, and_iff_right hlt, Option.some.injEq, eq_comm]

/-- There is an entry at every index below the count. -/
theorem exists_getMarket (h : i < marketsCount f) : ∃ info, getMarket i f = .ok info :=
  ⟨f.markets[i], getMarket_eq_ok.mpr (List.getElem?_eq_getElem h)⟩

/-- There is no entry at an index from the count on. -/
theorem lt_marketsCount (h : getMarket i f = .ok info) : i < marketsCount f :=
  (List.getElem?_eq_some_iff.mp (getMarket_eq_ok.mp h)).1

/-- `getAllMarkets` returns the addresses of all entries. -/
theorem getAllMarkets_eq (f : Factory) :
    getAllMarkets f = .ok (f.markets.map MarketInfo.market) :=
  FixedArray.copy_eq _ _ _ _

/-- What holds of the times of the creations in their order holds of the entries in that of their
indices. -/
theorem createdAt_le {info' : MarketInfo} {j : ℕ}
    (h : (f.markets.map MarketInfo.createdAt).Pairwise (· ≤ ·)) (hij : i ≤ j)
    (hi : getMarket i f = .ok info) (hj : getMarket j f = .ok info') :
    info.createdAt ≤ info'.createdAt := by
  obtain ⟨hilt, rfl⟩ := List.getElem?_eq_some_iff.mp (getMarket_eq_ok.mp hi)
  obtain ⟨hjlt, rfl⟩ := List.getElem?_eq_some_iff.mp (getMarket_eq_ok.mp hj)
  rcases Nat.eq_or_lt_of_le hij with rfl | hlt
  · exact BitVec.le_refl _
  · rw [List.pairwise_map] at h
    exact List.pairwise_iff_getElem.mp h i j hilt hjlt hlt

/-- Entries stay at their indices when the list of the markets is extended. -/
theorem getMarket_of_prefix {f' : Factory} (h : f.markets <+: f'.markets)
    (hi : getMarket i f = .ok info) : getMarket i f' = .ok info := by
  rw [getMarket_eq_ok] at hi ⊢
  obtain ⟨rest, hrest⟩ := h
  rw [← hrest, List.getElem?_append_left (List.getElem?_eq_some_iff.mp hi).1, hi]

end Views

/-- Different entries have different addresses. -/
theorem Consistent.market_inj {c : Chain} (hc : Consistent c) {i j : ℕ} {info info' : MarketInfo}
    (hi : getMarket i c.factory = .ok info) (hj : getMarket j c.factory = .ok info')
    (heq : info.market = info'.market) : i = j := by
  have hlt : i < (c.factory.markets.map MarketInfo.market).length := by
    rw [List.length_map]
    exact lt_marketsCount hi
  apply (List.getElem?_inj hlt hc.addresses_nodup).mp
  rw [List.getElem?_map, List.getElem?_map, getMarket_eq_ok.mp hi, getMarket_eq_ok.mp hj]
  exact congrArg some heq

/-- **The registry is consistent**: in every state of a run of a factory and its markets whose blocks
do not go back in time, the indices of each creator are, in strictly increasing order, exactly those of
its markets, so every index is one of one creator. The addresses of the markets are different.
`getAllMarkets` returns as many as `marketsCount` says, each that of `getMarket`. The times of the
creations do not decrease. No later message changes an entry. -/
theorem registry_consistent {self : Address} {env : Env} {c₀ c : Chain} {msgs : List Message}
    (h₀ : deployFactory env = .ok c₀) (run : Run (Chain.step self) c₀ msgs c)
    (hclock : (msgs.map fun msg => msg.env.timestamp).Pairwise (· ≤ ·)) :
    (∀ creator, (getMarketsByCreator creator c.factory).Pairwise (· < ·) ∧
      ∀ i, i ∈ getMarketsByCreator creator c.factory ↔
        i < marketsCount c.factory ∧
          ∃ info, getMarket i c.factory = .ok info ∧ info.creator = creator) ∧
    (∀ i, i < marketsCount c.factory →
      ∃! creator, i ∈ getMarketsByCreator creator c.factory) ∧
    (∀ i j info info', getMarket i c.factory = .ok info → getMarket j c.factory = .ok info' →
      info.market = info'.market → i = j) ∧
    (∃ list, getAllMarkets c.factory = .ok list ∧ list.length = marketsCount c.factory ∧
      ∀ i, i < marketsCount c.factory →
        ∃ info, getMarket i c.factory = .ok info ∧ list[i]? = some info.market) ∧
    (∀ i j info info', i ≤ j → getMarket i c.factory = .ok info →
      getMarket j c.factory = .ok info' → info.createdAt ≤ info'.createdAt) ∧
    ∀ later c', Run (Chain.step self) c later c' → ∀ i info,
      getMarket i c.factory = .ok info → getMarket i c'.factory = .ok info := by
  obtain ⟨-, hempty, -⟩ := deployFactory_consistent h₀
  have hc : Consistent c := run_consistent h₀ run
  obtain ⟨r, hr⟩ := hc.registers
  refine ⟨fun creator => ⟨?_, fun i => ?_⟩, fun i hi => ?_, ?_, ?_, ?_, ?_⟩
  · rw [getMarketsByCreator, ← hr.index]
    exact r.index_sorted creator
  · rw [getMarketsByCreator, ← hr.index, r.mem_index, hr.entries]
    simp only [← getMarket_eq_ok]
    exact (and_iff_right_of_imp fun ⟨info, hinfo, _⟩ => lt_marketsCount hinfo).symm
  · simp only [getMarketsByCreator, ← hr.index]
    apply r.existsUnique_index
    rw [hr.entries]
    exact hi
  · exact fun i j info info' => hc.market_inj
  · refine ⟨_, getAllMarkets_eq c.factory, List.length_map _, fun i hi => ?_⟩
    obtain ⟨info, hinfo⟩ := exists_getMarket hi
    refine ⟨info, hinfo, ?_⟩
    rw [List.getElem?_map, getMarket_eq_ok.mp hinfo]
    rfl
  · -- All creations are in the run, since the factory started without markets.
    obtain ⟨times, htimes, hsub⟩ := run_createdAt run
    rw [hempty, List.map_nil, List.nil_append] at htimes
    have hsorted := hclock.sublist hsub
    rw [← htimes] at hsorted
    exact fun i j info info' => createdAt_le hsorted
  · exact fun later c' hlater i info => getMarket_of_prefix (run_markets hlater)

/-- The registry of the sample run, in which the creator of the first market also creates the third,
is consistent. -/
theorem registry_consistent_sample :
    ∃ c, launchFactory sampleFactory (quietEnv 1 0 1700000000) sampleMessages = .ok c ∧
      marketsCount c.factory = 3 ∧ getMarketsByCreator 6 c.factory = [0, 2] ∧
      (getMarketsByCreator 6 c.factory).Pairwise (· < ·) ∧
      ∃ list, getAllMarkets c.factory = .ok list ∧ list.length = marketsCount c.factory := by
  obtain ⟨c, hc, hp⟩ := exists_launchFactory sampleFactory (quietEnv 1 0 1700000000) sampleMessages
    (fun c => decide (marketsCount c.factory = 3 ∧ getMarketsByCreator 6 c.factory = [0, 2]))
    (by decide +kernel)
  obtain ⟨hcount, hindices⟩ := of_decide_eq_true hp
  obtain ⟨c₀, h₀, run⟩ := launchFactory_eq_ok.mp hc
  obtain ⟨hsorted, -, -, ⟨list, hlist, hlength, -⟩, -, -⟩ := registry_consistent h₀ run (by decide)
  exact ⟨c, hc, hcount, hindices, (hsorted 6).1, list, hlist, hlength⟩

end GasCap
