import GasCap.Effect
import GasCap.Registrations
import GasCap.Views

/-!
# The creators of the markets

A market takes the sender that its constructor sees for its creator and its owner, and no call
changes either, so it has one `Admin` (`Effect.admin`). For a market that is deployed directly this is
the account that deploys it (`deploy_admin`). A factory registers the sender of `createMarket` as the
creator, but the sender that the constructor sees is the factory, which is therefore the admin of all
markets in every run (`run_administered`). So the registry and the markets agree on their creators
only in a run in which the factory itself is the sender of all creations (`creatorsAgree_iff`).
-/

namespace GasCap

open Machine

/-! ## The admin of a market -/

/-- The market reports the account as its creator, and makes the calls of the owner for it alone. -/
structure Admin (account : Address) (m : Market) : Prop where
  creator : (getMarketInfo m).creator = account
  onlyOwner_iff : ∀ env, onlyOwner env m = .ok () ↔ env.sender = account

section Admin

variable {a b : Address} {m : Market}

/-- The modifier compares the sender with the owner in the storage. -/
theorem onlyOwner_eq_ok {env : Env} : onlyOwner env m = .ok () ↔ env.sender = m.owner := by
  unfold onlyOwner require
  exact Checked.ensure_eq_ok

/-- An account is the admin when it is both the creator and the owner in the storage. -/
theorem Admin.of_fields (hcreator : m.contractCreator = a) (howner : m.owner = a) : Admin a m where
  creator := hcreator
  onlyOwner_iff := by
    intro env
    rw [onlyOwner_eq_ok, howner]

/-- Everybody but the admin is refused. -/
theorem Admin.refuses (ha : Admin a m) {env : Env} (hsender : env.sender ≠ a) :
    onlyOwner env m = .error (.reason "Not owner") := by
  have hne : ¬ env.sender = m.owner := by
    rw [← onlyOwner_eq_ok, ha.onlyOwner_iff]
    exact hsender
  unfold onlyOwner require Checked.ensure
  rw [if_neg hne]

/-- A market has at most one admin. -/
theorem Admin.unique (ha : Admin a m) (hb : Admin b m) : a = b :=
  ha.creator.symm.trans hb.creator

/-- The admin of a deployed market is the sender that its constructor sees. -/
theorem deploy_admin {d : Deployment} {w : World} (h : deploy d = .ok w) :
    Admin d.env.sender w.market :=
  Admin.of_fields (deploy_contractCreator h) (deploy_constructed h).owner

/-- No call changes the creator or the owner in the storage. -/
theorem Effect.creator_owner {env : Env} {call : Call} {w w' : World} (h : Effect env call w w') :
    w'.market.contractCreator = w.market.contractCreator ∧ w'.market.owner = w.market.owner := by
  cases h <;> exact ⟨rfl, rfl⟩

/-- No call changes the admin. -/
theorem Effect.admin {env : Env} {call : Call} {w w' : World} (h : Effect env call w w')
    (ha : Admin a w.market) : Admin a w'.market := by
  obtain ⟨hcreator, howner⟩ := h.creator_owner
  refine ⟨?_, fun env => ?_⟩
  · calc (getMarketInfo w'.market).creator = (getMarketInfo w.market).creator := hcreator
      _ = a := ha.creator
  · rw [onlyOwner_eq_ok, howner, ← onlyOwner_eq_ok]
    exact ha.onlyOwner_iff env

end Admin

/-! ## The markets of a factory -/

/-- The account is the admin of all markets. -/
def Administered (account : Address) (c : Chain) : Prop :=
  ∀ address w, c.markets address = some w → Admin account w.market

/-- The accounts that create markets in a sequence of messages, in their order. -/
def creators (msgs : List Message) : List Address :=
  msgs.filterMap fun msg => match msg with
    | .createMarket env _ _ => some env.sender
    | .call .. => none

/-- The creator in each entry of the registry is the admin of the market there. -/
def CreatorsAgree (c : Chain) : Prop :=
  ∀ i, i < marketsCount c.factory →
    ∃ info w, getMarket i c.factory = .ok info ∧ c.markets info.market = some w ∧
      Admin info.creator w.market

section Factory

variable {self : Address} {env : Env} {c₀ c c' : Chain} {msg : Message} {msgs : List Message}

/-- The account created a market in the messages. -/
theorem mem_creators {account : Address} :
    account ∈ creators msgs ↔
      ∃ env params address, .createMarket env params address ∈ msgs ∧ env.sender = account := by
  rw [creators, List.mem_filterMap]
  constructor
  · rintro ⟨msg, hmem, hsender⟩
    cases msg with
    | createMarket env params address =>
      exact ⟨env, params, address, hmem, Option.some.inj hsender⟩
    | call market tx => cases hsender
  · rintro ⟨env, params, address, hmem, hsender⟩
    exact ⟨_, hmem, congrArg some hsender⟩

/-- A message keeps the factory the admin of all markets, those that it creates included. -/
theorem step_administered (hc : Administered self c) (h : Chain.step self msg c = .ok c') :
    Administered self c' := by
  intro a u hu
  rcases step_market_cases h hu with hkept | ⟨env, params, -, -, hw⟩ | ⟨tx, w, -, hw, hexec⟩
  · exact hc a u hkept
  -- The sender that the constructor sees is the factory.
  · exact deploy_admin hw
  · exact (exec_effect hexec).admin (hc a w hw)

/-- A message registers its sender as the creator, if it creates a market. -/
theorem step_creators (h : Chain.step self msg c = .ok c') :
    c'.factory.markets.map MarketInfo.creator =
      c.factory.markets.map MarketInfo.creator ++ creators [msg] := by
  cases msg with
  | createMarket env params address =>
    obtain ⟨-, -, -, w, -, rfl⟩ := step_createMarket.mp h
    simp only [Factory.register, List.map_append, List.map_cons, List.map_nil]
    rfl
  | call market tx =>
    obtain ⟨w, w', -, -, rfl⟩ := step_call.mp h
    exact (List.append_nil _).symm

/-- **One admin for all markets**: in every run from its deployment, a factory is the admin of all its
markets. -/
theorem run_administered (h₀ : deployFactory env = .ok c₀)
    (run : Run (Chain.step self) c₀ msgs c) : Administered self c := by
  refine run.invariant (fun _ _ _ _ hc h => step_administered hc h) ?_
  obtain ⟨-, -, hnone⟩ := deployFactory_consistent h₀
  intro a w hw
  rw [hnone a] at hw
  cases hw

/-- The creators in the registry are the senders of the creations of the run. -/
theorem run_creators (run : Run (Chain.step self) c msgs c') :
    c'.factory.markets.map MarketInfo.creator =
      c.factory.markets.map MarketInfo.creator ++ creators msgs := by
  induction run with
  | nil c => exact (List.append_nil _).symm
  | @cons c c₁ c₂ msg msgs _ accepted _ ih =>
    calc c₂.factory.markets.map MarketInfo.creator
        = c₁.factory.markets.map MarketInfo.creator ++ creators msgs := ih
      _ = c.factory.markets.map MarketInfo.creator ++ (creators [msg] ++ creators msgs) := by
          rw [step_creators accepted, List.append_assoc]
      _ = c.factory.markets.map MarketInfo.creator ++ creators (msg :: msgs) := by
          rw [creators, creators, creators, ← List.filterMap_append, List.singleton_append]

/-- The same from the deployment of the factory, which has no markets. -/
theorem factory_creators (h₀ : deployFactory env = .ok c₀)
    (run : Run (Chain.step self) c₀ msgs c) :
    c.factory.markets.map MarketInfo.creator = creators msgs := by
  obtain ⟨-, hempty, -⟩ := deployFactory_consistent h₀
  rw [run_creators run, hempty, List.map_nil, List.nil_append]

/-- Where a factory is the admin of all markets, its registry agrees with them on the creators of
which it is the only one. -/
theorem Administered.agree_iff (ha : Administered self c) (hc : Consistent c) :
    CreatorsAgree c ↔ ∀ account ∈ c.factory.markets.map MarketInfo.creator, account = self := by
  constructor
  · intro hagree account hmem
    obtain ⟨info, hinfo, rfl⟩ := List.mem_map.mp hmem
    obtain ⟨i, hi⟩ := List.mem_iff_getElem?.mp hinfo
    have hentry : getMarket i c.factory = .ok info := getMarket_eq_ok.mpr hi
    obtain ⟨info', w, hentry', hw, hadmin⟩ := hagree i (lt_marketsCount hentry)
    cases hentry.symm.trans hentry'
    exact hadmin.unique (ha _ w hw)
  · intro hself i hi
    obtain ⟨info, hentry⟩ := exists_getMarket hi
    have hmem : info ∈ c.factory.markets := List.mem_of_getElem? (getMarket_eq_ok.mp hentry)
    have hsome : (c.markets info.market).isSome = true :=
      (hc.address_iff _).mp (List.mem_map_of_mem hmem)
    obtain ⟨w, hw⟩ := Option.isSome_iff_exists.mp hsome
    have hcreator : info.creator = self := hself _ (List.mem_map_of_mem hmem)
    refine ⟨info, w, hentry, hw, ?_⟩
    rw [hcreator]
    exact ha _ w hw

/-- **When the registry and the markets agree**: in every run from the deployment of a factory, the
creator in every entry of the registry is the one that the market reports, and the account that the
market takes for its owner, exactly when the factory itself was the sender of all creations. -/
theorem creatorsAgree_iff (h₀ : deployFactory env = .ok c₀)
    (run : Run (Chain.step self) c₀ msgs c) :
    CreatorsAgree c ↔
      ∀ env params address, .createMarket env params address ∈ msgs → env.sender = self := by
  have hadmin : Administered self c := run_administered h₀ run
  rw [hadmin.agree_iff (run_consistent h₀ run), factory_creators h₀ run]
  constructor
  · intro hself env params address hmem
    exact hself _ (mem_creators.mpr ⟨env, params, address, hmem, rfl⟩)
  · intro hself account haccount
    obtain ⟨env, params, address, hmem, rfl⟩ := mem_creators.mp haccount
    exact hself env params address hmem

/-- **They agree on no market**: where nobody sends messages in the name of the factory, the creator in
an entry is never the admin of the market there. -/
theorem creators_disagree (h₀ : deployFactory env = .ok c₀)
    (run : GuardedRun (Chain.step self) (fun msg _ => msg.env.sender ≠ self) c₀ msgs c) {i : ℕ}
    {info : MarketInfo} {w : World} (hinfo : getMarket i c.factory = .ok info)
    (hw : c.markets info.market = some w) : ¬ Admin info.creator w.market := by
  have hrun : Run (Chain.step self) c₀ msgs c := run.guarded fun _ _ _ => trivial
  have hsenders : ∀ msg ∈ msgs, msg.env.sender ≠ self :=
    run.forall_mem (I := fun _ => True) (fun _ _ _ _ _ _ => trivial) (fun _ _ _ h _ _ => h) trivial
  have hentry : info ∈ c.factory.markets := List.mem_of_getElem? (getMarket_eq_ok.mp hinfo)
  have hcreator : info.creator ∈ creators msgs := by
    rw [← factory_creators h₀ hrun]
    exact List.mem_map_of_mem hentry
  obtain ⟨env, params, address, hmem, hsender⟩ := mem_creators.mp hcreator
  intro hadmin
  have hself : info.creator = self := hadmin.unique (run_administered h₀ hrun _ w hw)
  exact hsenders _ hmem (hsender.trans hself)

end Factory

/-! ## Sample runs -/

/-- The factory has account 6 for the creator of its first market, and the market has the factory: the
account may not make a call of the owner. -/
theorem creator_is_not_admin :
    ∃ c w, launchFactory sampleFactory (quietEnv 1 0 1700000000) sampleMessages = .ok c ∧
      getMarket 0 c.factory = .ok ⟨0xA1, 6, 1700000001⟩ ∧ c.markets 0xA1 = some w ∧
      (getMarketInfo w.market).creator = sampleFactory ∧
      onlyOwner (quietEnv 6 0 1700000006) w.market = .error (.reason "Not owner") ∧
      ¬ CreatorsAgree c := by
  obtain ⟨c, hc, hp⟩ := exists_launchFactory sampleFactory (quietEnv 1 0 1700000000) sampleMessages
    (fun c => decide (c.factory.markets[0]? = some (⟨0xA1, 6, 1700000001⟩ : MarketInfo)) &&
      (c.markets 0xA1).isSome) (by decide +kernel)
  obtain ⟨hentry, hsome⟩ := (Bool.and_eq_true _ _).mp hp
  have hinfo : getMarket 0 c.factory = .ok ⟨0xA1, 6, 1700000001⟩ :=
    getMarket_eq_ok.mpr (of_decide_eq_true hentry)
  obtain ⟨w, hw⟩ := Option.isSome_iff_exists.mp hsome
  obtain ⟨c₀, h₀, run⟩ := launchFactory_eq_ok.mp hc
  have hadmin : Admin sampleFactory w.market := run_administered h₀ run 0xA1 w hw
  refine ⟨c, w, hc, hinfo, hw, hadmin.creator, hadmin.refuses (by decide), fun hagree => ?_⟩
  obtain ⟨info, w', hinfo', hw', hadmin'⟩ := hagree 0 (lt_marketsCount hinfo)
  cases hinfo.symm.trans hinfo'
  cases hw.symm.trans hw'
  exact absurd (hadmin.unique hadmin') (by decide)

/-- The factory and its markets disagree once two accounts have created markets, and agree while nobody
has. -/
theorem creatorsAgree_iff_sample :
    (∃ c, launchFactory sampleFactory (quietEnv 1 0 1700000000) sampleMessages = .ok c ∧
      marketsCount c.factory = 3 ∧ ¬ CreatorsAgree c) ∧
    ∃ c₀, deployFactory (quietEnv 1 0 1700000000) = .ok c₀ ∧ CreatorsAgree c₀ := by
  obtain ⟨c, hc, hp⟩ := exists_launchFactory sampleFactory (quietEnv 1 0 1700000000) sampleMessages
    (fun c => decide (marketsCount c.factory = 3)) (by decide +kernel)
  obtain ⟨c₀, h₀, run⟩ := launchFactory_eq_ok.mp hc
  refine ⟨⟨c, hc, of_decide_eq_true hp, ?_⟩, c₀, h₀, ?_⟩
  · rw [creatorsAgree_iff h₀ run]
    intro hself
    have hsender := hself (quietEnv 6 0 1700000001) sampleParams 0xA1 List.mem_cons_self
    exact absurd hsender (by decide)
  · have hnone : Run (Chain.step sampleFactory) c₀ [] c₀ := .nil c₀
    rw [creatorsAgree_iff h₀ hnone]
    intro env params address hmem
    exact absurd hmem List.not_mem_nil

end GasCap
