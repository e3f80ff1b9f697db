import GasCap.Positions
import GasCap.Views

/-!
# The records of the traders

A market records its traders five times: in the positions with their two marks, in the participants,
in the list of active traders, and in the flags of these. All are written by an opening and a claim
only (`Effect.records_cases`), and `Indexed` says that they agree, also with the order of the openings
in the journal. So the list of active traders is that of the participants, and `getActiveTraders`
returns the traders whose position is open, in the order in which they opened it.
-/

namespace GasCap

open Machine

/-- The accounts that opened a position, in the order of their openings. -/
def openers (journal : List Movement) : List Address :=
  ((journal.filter fun mv => mv.flow = .opened).map Movement.party).reverse

/-- A position that was opened and is not claimed. -/
def Position.IsOpen (p : Position) : Prop := p.exists = true ∧ p.isClaimed = false

instance (p : Position) : Decidable p.IsOpen := inferInstanceAs (Decidable (_ ∧ _))

/-- The records that a market keeps of its traders. -/
structure TraderRecords where
  positions : Address → Position
  participants : List Address
  activeTraders : List Address
  isActiveTrader : Address → Bool

/-- The records of a market's traders. -/
def Market.records (m : Market) : TraderRecords :=
  ⟨m.positions, m.participants, m.activeTraders, m.isActiveTrader⟩

/-- The records of the traders agree with each other, with the users, and with the journal. -/
structure Indexed (w : World) : Prop where
  activeTraders_eq : w.market.activeTraders = w.market.participants
  openers_eq : openers w.journal = w.market.participants
  trader_iff : ∀ t, w.market.isActiveTrader t = true ↔ (w.market.positions t).IsOpen
  active_iff : ∀ t, (w.market.positions t).isActive = true ↔ (w.market.positions t).IsOpen
  registered : ∀ t, (w.market.positions t).exists = true →
    (w.market.users t).isRegistered = true

/-- A movement is an opener's if it came with an opening. -/
theorem openers_cons (mv : Movement) (journal : List Movement) :
    openers (mv :: journal) =
      openers journal ++ if mv.flow = .opened then [mv.party] else [] := by
  unfold openers
  by_cases h : mv.flow = .opened <;> simp [h]

/-! ## What a call does to the records -/

/-- A call leaves the records of the traders, unless it opens a position or claims. -/
theorem Effect.records_cases {env : Env} {call : Call} {w w' : World}
    (h : Effect env call w w') :
    (w'.market.records = w.market.records ∧ openers w'.journal = openers w.journal) ∨
    (∃ o, Openable env o w.market ∧
      w'.market.records = (w.market.opened env.sender o).records ∧
      openers w'.journal = openers w.journal ++ [env.sender]) ∨
    ∃ payout, Claimable w.market env.sender payout ∧
      w'.market.records = (w.market.closed env.sender).records ∧
      openers w'.journal = openers w.journal := by
  cases h with
  | opened order openable =>
    refine .inr (.inl ⟨_, openable, rfl, ?_⟩)
    rw [openers_cons, if_pos rfl]
  | claimNothing _ claimable => exact .inr (.inr ⟨0, claimable, rfl, rfl⟩)
  | claimPayout _ _ claimable =>
    refine .inr (.inr ⟨_, claimable, rfl, ?_⟩)
    rw [openers_cons, if_neg (by simp), List.append_nil]
  | addLiquidity _ _ _ | removeLiquidity _ _ _ _ | emergencyWithdraw _ _ _ | receive =>
    refine .inl ⟨rfl, ?_⟩
    rw [openers_cons, if_neg (by simp), List.append_nil]
  | _ => exact .inl ⟨rfl, rfl⟩

/-- A profile that is registered can replace one. -/
theorem isRegistered_update {users : Address → UserProfile} {a t : Address} {p : UserProfile}
    (hp : p.isRegistered = true) (ht : (users t).isRegistered = true) :
    (Function.update users a p t).isRegistered = true := by
  rcases eq_or_ne t a with rfl | hne
  · rwa [Function.update_self]
  · rwa [Function.update_of_ne hne]

/-- A registered user stays registered. -/
theorem Effect.registered_mono {env : Env} {call : Call} {w w' : World}
    (h : Effect env call w w') {t : Address} (ht : (w.market.users t).isRegistered = true) :
    (w'.market.users t).isRegistered = true := by
  cases h with
  | registerUser _ _ => exact isRegistered_update rfl ht
  | login _ registered => exact isRegistered_update registered ht
  | _ => exact ht

/-- Two records that agree on every trader still do when both are updated for one trader with values
that agree. -/
theorem agree_update {α β : Type*} {P : α → Prop} {Q : β → Prop} {f : Address → α} {g : Address → β}
    (hfg : ∀ t, P (f t) ↔ Q (g t)) (a : Address) {x : α} {y : β} (hxy : P x ↔ Q y) (t : Address) :
    P (Function.update f a x t) ↔ Q (Function.update g a y t) := by
  rcases eq_or_ne t a with rfl | hne
  · rw [Function.update_self, Function.update_self]
    exact hxy
  · rw [Function.update_of_ne hne, Function.update_of_ne hne]
    exact hfg t

/-- An opening keeps the records in agreement. -/
theorem Indexed.opened {env : Env} {o : Order} {w w' : World} (hw : Indexed w)
    (ho : Openable env o w.market)
    (hr : w'.market.records = (w.market.opened env.sender o).records)
    (hj : openers w'.journal = openers w.journal ++ [env.sender])
    (husers : ∀ t, (w.market.users t).isRegistered = true →
      (w'.market.users t).isRegistered = true) : Indexed w' := by
  obtain ⟨hpos, hparts, hactive, hflag⟩ := TraderRecords.mk.inj hr
  -- The sender has no position yet, so its flag is not set and it is appended to both lists.
  have hunset : ¬ w.market.isActiveTrader env.sender = true := by
    rw [hw.trader_iff]
    intro hopen
    have hexists := hopen.1
    rw [ho.fresh] at hexists
    cases hexists
  have hopen : o.position.IsOpen := ⟨rfl, rfl⟩
  constructor
  · rw [hactive, hparts]
    simp only [Market.opened]
    rw [if_neg hunset, hw.activeTraders_eq]
  · rw [hj, hparts, hw.openers_eq]
    rfl
  · rw [hflag, hpos]
    exact agree_update (P := (· = true)) (Q := Position.IsOpen) hw.trader_iff env.sender
      (iff_of_true rfl hopen)
  · rw [hpos]
    exact agree_update (P := fun p : Position => p.isActive = true) (Q := Position.IsOpen)
      hw.active_iff env.sender (iff_of_true rfl hopen)
  · intro t ht
    apply husers
    rw [hpos] at ht
    simp only [Market.opened] at ht
    rcases eq_or_ne t env.sender with rfl | hne
    · exact ho.registered
    · rw [Function.update_of_ne hne] at ht
      exact hw.registered t ht

/-- A claim keeps the records in agreement. -/
theorem Indexed.closed {trader : Address} {w w' : World} (hw : Indexed w)
    (hr : w'.market.records = (w.market.closed trader).records)
    (hj : openers w'.journal = openers w.journal)
    (husers : ∀ t, (w.market.users t).isRegistered = true →
      (w'.market.users t).isRegistered = true) : Indexed w' := by
  obtain ⟨hpos, hparts, hactive, hflag⟩ := TraderRecords.mk.inj hr
  have hclosed : ¬ Position.IsOpen
      { w.market.positions trader with isClaimed := true, isActive := false } :=
    fun hopen => Bool.noConfusion hopen.2
  constructor
  · rw [hactive, hparts]
    exact hw.activeTraders_eq
  · rw [hj, hparts]
    exact hw.openers_eq
  · rw [hflag, hpos]
    exact agree_update (P := (· = true)) (Q := Position.IsOpen) hw.trader_iff trader
      (iff_of_false Bool.false_ne_true hclosed)
  · rw [hpos]
    exact agree_update (P := fun p : Position => p.isActive = true) (Q := Position.IsOpen)
      hw.active_iff trader (iff_of_false Bool.false_ne_true hclosed)
  · intro t ht
    rw [hpos, closed_exists] at ht
    exact husers t (hw.registered t ht)

/-- A call keeps the records in agreement. -/
theorem Effect.indexed {env : Env} {call : Call} {w w' : World} (hw : Indexed w)
    (h : Effect env call w w') : Indexed w' := by
  have husers : ∀ t, (w.market.users t).isRegistered = true →
      (w'.market.users t).isRegistered = true := fun _ ht => h.registered_mono ht
  rcases h.records_cases with ⟨hr, hj⟩ | ⟨o, ho, hr, hj⟩ | ⟨_, -, hr, hj⟩
  · obtain ⟨hpos, hparts, hactive, hflag⟩ := TraderRecords.mk.inj hr
    constructor
    · rw [hactive, hparts]
      exact hw.activeTraders_eq
    · rw [hj, hparts]
      exact hw.openers_eq
    · rw [hflag, hpos]
      exact hw.trader_iff
    · rw [hpos]
      exact hw.active_iff
    · intro t ht
      rw [hpos] at ht
      exact husers t (hw.registered t ht)
  · exact hw.opened ho hr hj husers
  · exact hw.closed hr hj husers

/-- A new market has no records of traders. -/
theorem deploy_indexed {d : Deployment} {w : World} (h : deploy d = .ok w) : Indexed w := by
  have hf := deploy_fresh h
  have hc := deploy_constructed h
  have hnone : ∀ t, ¬ (w.market.positions t).IsOpen := by
    rw [hf.positions]
    exact fun _ hopen => Bool.noConfusion hopen.1
  constructor
  · rw [hc.activeTraders, hf.participants]
  · rw [hf.journal, hf.participants]
    rfl
  · intro t
    rw [hc.isActiveTrader]
    exact iff_of_false Bool.false_ne_true (hnone t)
  · intro t
    refine iff_of_false ?_ (hnone t)
    rw [hf.positions]
    exact Bool.false_ne_true
  · intro t ht
    rw [hf.positions] at ht
    cases ht

/-- The records of every reachable market agree. -/
theorem Reachable.indexed {w : World} (h : Reachable w) : Indexed w := by
  obtain ⟨d, w₀, txs, h₀, run⟩ := h
  exact run.invariant (fun _ _ _ _ hw he => (exec_effect he).indexed hw) (deploy_indexed h₀)

/-- **The life cycle of a position, and the indexes of the traders**: in every reachable state, the
participants and the list of active traders are the same list, without duplicates, of the traders
with a position. A trader is flagged as active when its position is marked so, which is from its
opening to its claim, and a claim is one in a settled market. A position is a registered user's and
passed the checks of its opening, and keeps all its fields but the marks in every further run. -/
theorem traders_agree {w : World} (h : Reachable w) :
    w.market.participants = w.market.activeTraders ∧ w.market.participants.Nodup ∧
    (∀ t, t ∈ w.market.participants ↔ (w.market.positions t).exists = true) ∧
    (∀ t, (w.market.isActiveTrader t = true ↔ (w.market.positions t).isActive = true) ∧
      ((w.market.positions t).isActive = true ↔
        (w.market.positions t).exists = true ∧ (w.market.positions t).isClaimed = false)) ∧
    (∀ t, (w.market.positions t).isClaimed = true → w.market.isSettled = true) ∧
    (∀ t, (w.market.positions t).exists = true →
      (w.market.users t).isRegistered = true ∧ (w.market.positions t).Accepted) ∧
    ∀ txs w', Run exec w txs w' → ∀ t, (w.market.positions t).exists = true →
      ∃ isActive isClaimed, w'.market.positions t =
        { w.market.positions t with isActive := isActive, isClaimed := isClaimed } := by
  have hi := h.indexed
  have hl := h.lifecycle
  refine ⟨hi.activeTraders_eq.symm, hl.participants_nodup, hl.participant_iff, fun t => ?_,
    fun t ht => (hl.claimed t ht).2, fun t ht => ⟨hi.registered t ht, hl.accepted t ht⟩, ?_⟩
  · exact ⟨(hi.trader_iff t).trans (hi.active_iff t).symm, hi.active_iff t⟩
  · intro txs w' run t ht
    exact ⟨_, _, Position.eq_of_entry_eq (run_entry run ht)⟩

/-- The records of the sample run agree. -/
theorem traders_agree_sample :
    ∃ w, launch sampleDeployment sampleRun = .ok w ∧
      w.market.participants = w.market.activeTraders ∧
      ((w.market.positions 2).isActive = true ↔
        (w.market.positions 2).exists = true ∧ (w.market.positions 2).isClaimed = false) := by
  obtain ⟨w, hw, -⟩ := exists_launch sampleDeployment sampleRun (fun _ => true)
    (by decide +kernel)
  obtain ⟨hparts, -, -, hactive, -⟩ := traders_agree (reachable_of_launch hw)
  exact ⟨w, hw, hparts, (hactive 2).2⟩

/-! ## The open book -/

/-- **`getActiveTraders` enumerates the open book**: in every reachable state, the view returns, with
every slot of its array written and none beyond it, the traders whose position exists and is not
claimed, each of them once, in the order in which the positions were opened. -/
theorem getActiveTraders_open {w : World} (h : Reachable w) :
    ∃ traders, getActiveTraders w.market = .ok traders ∧
      traders = (openers w.journal).filter (fun t => decide (w.market.positions t).IsOpen) ∧
      traders.Nodup ∧
      ∀ t, t ∈ traders ↔
        (w.market.positions t).exists = true ∧ (w.market.positions t).isClaimed = false := by
  have hi := h.indexed
  have hl := h.lifecycle
  have hflag : w.market.isActiveTrader = fun t => decide (w.market.positions t).IsOpen := by
    funext t
    rw [Bool.eq_iff_iff, hi.trader_iff, decide_eq_true_iff]
  refine ⟨_, getActiveTraders_eq w.market, ?_, ?_, fun t => ?_⟩
  · rw [hflag, hi.activeTraders_eq, hi.openers_eq]
  · rw [hi.activeTraders_eq]
    exact hl.participants_nodup.filter _
  · rw [List.mem_filter, hi.trader_iff, hi.activeTraders_eq, hl.participant_iff]
    exact ⟨fun ht => ht.2, fun ht => ⟨ht.1, ht⟩⟩

/-- After the sample run, in which the long claimed, the short is the open book. -/
theorem getActiveTraders_open_sample :
    ∃ w traders, launch sampleDeployment sampleRun = .ok w ∧
      getActiveTraders w.market = .ok traders ∧ traders = [3] ∧
      ((3 : Address) ∈ traders ↔
        (w.market.positions 3).exists = true ∧ (w.market.positions 3).isClaimed = false) := by
  obtain ⟨w, hw, hp⟩ := exists_launch sampleDeployment sampleRun
    (fun w => decide (w.market.activeTraders.filter w.market.isActiveTrader = [3]))
    (by decide +kernel)
  obtain ⟨traders, htraders, -, -, hmem⟩ := getActiveTraders_open (reachable_of_launch hw)
  have heq : traders = w.market.activeTraders.filter w.market.isActiveTrader :=
    Except.ok.inj (htraders.symm.trans (getActiveTraders_eq w.market))
  exact ⟨w, traders, hw, htraders, heq.trans (of_decide_eq_true hp), hmem 3⟩

end GasCap
