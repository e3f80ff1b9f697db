import GasCap.Effect
import GasCap.Lib.Treasury

/-!
# The positions of a market

A position comes to a market by an opening, which checks it, and is changed by its trader's claim
only, which marks it. `Effect.positions_cases` says so of one call, so what an opening recorded of a
position stays (`run_entry`). `Reachable.lifecycle` says what follows for every reachable market: an
existing position passed the checks of its opening (`Position.Accepted`), a claimed one exists, in a
settled market, and the participants are the traders with a position, each of them once. So a sum over
all traders is one over the participants (`Lifecycle.sum_positions`).
-/

namespace GasCap

open Machine

/-- What `_openPosition` checks of a position. -/
structure Position.Accepted (p : Position) : Prop where
  quantity_pos : 0 < p.quantity
  leverage_pos : 0 < p.leverage
  collateral_pos : 0 < p.collateral
  limit_pos : p.entryType = .LIMIT → 0 < p.limitPrice
  stop_pos : p.entryType = .STOP → 0 < p.stopPrice

/-- What holds of the positions of a market at every time. -/
structure Lifecycle (m : Market) : Prop where
  accepted : ∀ t, (m.positions t).exists = true → (m.positions t).Accepted
  claimed : ∀ t, (m.positions t).isClaimed = true →
    (m.positions t).exists = true ∧ m.isSettled = true
  participant_iff : ∀ t, t ∈ m.participants ↔ (m.positions t).exists = true
  participants_nodup : m.participants.Nodup

/-- An order that can be opened makes an accepted position. -/
theorem Openable.accepted {env : Env} {o : Order} {m : Market} (h : Openable env o m) :
    o.position.Accepted :=
  ⟨h.quantity_pos, h.leverage_pos, h.collateral_pos, h.limit_pos, h.stop_pos⟩

/-- A claim changes the position of its trader only. -/
theorem closed_positions_of_ne {m : Market} {trader t : Address} (h : t ≠ trader) :
    (m.closed trader).positions t = m.positions t := by
  unfold Market.closed
  exact Function.update_of_ne h _ _

/-- The position of a trader after its claim. -/
theorem closed_positions_self (m : Market) (trader : Address) :
    (m.closed trader).positions trader =
      { m.positions trader with isClaimed := true, isActive := false } := by
  unfold Market.closed
  exact Function.update_self _ _ _

/-- A claim leaves every position in existence. -/
theorem closed_exists (m : Market) (trader t : Address) :
    ((m.closed trader).positions t).exists = (m.positions t).exists := by
  rcases eq_or_ne t trader with rfl | h
  · rw [closed_positions_self]
  · rw [closed_positions_of_ne h]

/-- What a call does to the positions and the participants: nothing, unless it opens a position or
claims. -/
theorem Effect.positions_cases {env : Env} {call : Call} {w w' : World}
    (h : Effect env call w w') :
    (w'.market.positions = w.market.positions ∧
      w'.market.participants = w.market.participants) ∨
      (∃ o, call.order env = some o ∧ Openable env o w.market ∧
        w'.market.positions = Function.update w.market.positions env.sender o.position ∧
        w'.market.participants = w.market.participants ++ [env.sender]) ∨
      ∃ payout, call = .claimPayout ∧ Claimable w.market env.sender payout ∧
        w'.market.positions = (w.market.closed env.sender).positions ∧
        w'.market.participants = w.market.participants := by
  cases h with
  | opened order openable => exact .inr (.inl ⟨_, order, openable, rfl, rfl⟩)
  | claimNothing _ claimable => exact .inr (.inr ⟨0, rfl, claimable, rfl, rfl⟩)
  | claimPayout _ _ claimable => exact .inr (.inr ⟨_, rfl, claimable, rfl, rfl⟩)
  | _ => exact .inl ⟨rfl, rfl⟩

/-! ## The life of a position -/

/-- What an opening records of a position, without the two marks. -/
def Position.entry (p : Position) : Position := { p with isActive := false, isClaimed := false }

/-- Positions with the same entry differ in the marks only. -/
theorem Position.eq_of_entry_eq {p p' : Position} (h : p'.entry = p.entry) :
    p' = { p with isActive := p'.isActive, isClaimed := p'.isClaimed } := by
  obtain ⟨⟩ := p
  obtain ⟨⟩ := p'
  simp only [Position.entry, Position.mk.injEq, and_true] at h ⊢
  exact h

/-- A call leaves the entry of every existing position. -/
theorem Effect.entry {env : Env} {call : Call} {w w' : World} (h : Effect env call w w')
    {t : Address} (ht : (w.market.positions t).exists = true) :
    (w'.market.positions t).entry = (w.market.positions t).entry := by
  rcases h.positions_cases with ⟨hp, -⟩ | ⟨o, -, ho, hp, -⟩ | ⟨_, -, -, hp, -⟩
  · rw [hp]
  -- An existing position is not the sender's, who could not open another.
  · have hne : t ≠ env.sender := by
      rintro rfl
      rw [ho.fresh] at ht
      cases ht
    rw [hp, Function.update_of_ne hne]
  · rw [hp]
    rcases eq_or_ne t env.sender with rfl | hne
    · rw [closed_positions_self]
      rfl
    · rw [closed_positions_of_ne hne]

/-- An existing position was there before a call, with the same entry, or the call opened it. -/
theorem Effect.position_origin {env : Env} {call : Call} {w w' : World} (h : Effect env call w w')
    {t : Address} (ht : (w'.market.positions t).exists = true) :
    ((w.market.positions t).exists = true ∧
      (w'.market.positions t).entry = (w.market.positions t).entry) ∨
    ∃ o, call.order env = some o ∧ Openable env o w.market ∧ t = env.sender ∧
      w'.market.positions t = o.position := by
  by_cases hex : (w.market.positions t).exists = true
  · exact .inl ⟨hex, h.entry hex⟩
  · rcases h.positions_cases with ⟨hp, -⟩ | ⟨o, horder, ho, hp, -⟩ | ⟨_, -, -, hp, -⟩
    · rw [hp] at ht
      exact absurd ht hex
    · rw [hp] at ht ⊢
      rcases eq_or_ne t env.sender with rfl | hne
      · exact .inr ⟨o, horder, ho, rfl, Function.update_self _ _ _⟩
      · rw [Function.update_of_ne hne] at ht
        exact absurd ht hex
    · rw [hp, closed_exists] at ht
      exact absurd ht hex

/-- The entry of an existing position stays as it is. -/
theorem run_entry {w w' : World} {txs : List Tx} (run : Run exec w txs w') {t : Address}
    (ht : (w.market.positions t).exists = true) :
    (w'.market.positions t).entry = (w.market.positions t).entry := by
  apply run.constant (I := fun w => (w.market.positions t).exists = true)
    (fun w => (w.market.positions t).entry) ?_ ht
  · exact fun _ _ _ _ _ hex he => (exec_effect he).entry hex
  · intro _ _ _ _ hex he
    exact (congrArg Position.exists ((exec_effect he).entry hex)).trans hex

/-! ## The life cycle -/

/-- A settled market stays settled. -/
theorem Effect.isSettled_mono {env : Env} {call : Call} {w w' : World} (h : Effect env call w w')
    (hs : w.market.isSettled = true) : w'.market.isSettled = true := by
  cases h with
  | settleContract => rfl
  | _ => exact hs

/-- A position with the entry of an accepted one is accepted. -/
theorem Position.Accepted.of_entry {p p' : Position} (h : p.Accepted) (he : p'.entry = p.entry) :
    p'.Accepted := by
  have hp : p.entry.Accepted :=
    ⟨h.quantity_pos, h.leverage_pos, h.collateral_pos, h.limit_pos, h.stop_pos⟩
  rw [← he] at hp
  exact ⟨hp.quantity_pos, hp.leverage_pos, hp.collateral_pos, hp.limit_pos, hp.stop_pos⟩

/-- A call leaves every existing position an accepted one. -/
theorem Effect.accepted {env : Env} {call : Call} {w w' : World} (hl : Lifecycle w.market)
    (h : Effect env call w w') {t : Address} (ht : (w'.market.positions t).exists = true) :
    (w'.market.positions t).Accepted := by
  rcases h.position_origin ht with ⟨hex, hentry⟩ | ⟨o, -, ho, -, hp⟩
  · exact (hl.accepted t hex).of_entry hentry
  · rw [hp]
    exact ho.accepted

/-- An opening keeps the life cycle of the positions. -/
theorem Lifecycle.opened {env : Env} {o : Order} {m m' : Market} (hl : Lifecycle m)
    (ho : Openable env o m)
    (ha : ∀ t, (m'.positions t).exists = true → (m'.positions t).Accepted)
    (hs : m.isSettled = true → m'.isSettled = true)
    (hp : m'.positions = Function.update m.positions env.sender o.position)
    (hparts : m'.participants = m.participants ++ [env.sender]) : Lifecycle m' where
  accepted := ha
  claimed t ht := by
    rw [hp] at ht ⊢
    rcases eq_or_ne t env.sender with rfl | hne
    · rw [Function.update_self] at ht
      cases ht
    · rw [Function.update_of_ne hne] at ht ⊢
      exact ⟨(hl.claimed t ht).1, hs (hl.claimed t ht).2⟩
  participant_iff t := by
    rw [hp, hparts, List.mem_append, List.mem_singleton, hl.participant_iff]
    rcases eq_or_ne t env.sender with rfl | hne
    · rw [Function.update_self]
      exact ⟨fun _ => rfl, fun _ => .inr rfl⟩
    · rw [Function.update_of_ne hne]
      exact ⟨fun h => h.resolve_right hne, .inl⟩
  participants_nodup := by
    -- A participant has a position already, and could not open one.
    have hnew : env.sender ∉ m.participants := by
      rw [hl.participant_iff, ho.fresh]
      exact Bool.false_ne_true
    rw [hparts, ← List.concat_eq_append]
    exact hl.participants_nodup.concat hnew

/-- A claim keeps the life cycle of the positions. -/
theorem Lifecycle.closed {trader : Address} {payout : Uint256} {m m' : Market} (hl : Lifecycle m)
    (hc : Claimable m trader payout)
    (ha : ∀ t, (m'.positions t).exists = true → (m'.positions t).Accepted)
    (hs : m.isSettled = true → m'.isSettled = true)
    (hp : m'.positions = (m.closed trader).positions)
    (hparts : m'.participants = m.participants) : Lifecycle m' where
  accepted := ha
  claimed t ht := by
    rw [hp] at ht ⊢
    rw [closed_exists]
    rcases eq_or_ne t trader with rfl | hne
    · exact ⟨hc.position, hs hc.settled⟩
    · rw [closed_positions_of_ne hne] at ht
      exact ⟨(hl.claimed t ht).1, hs (hl.claimed t ht).2⟩
  participant_iff t := by
    rw [hp, hparts, closed_exists]
    exact hl.participant_iff t
  participants_nodup := by
    rw [hparts]
    exact hl.participants_nodup

/-- A call keeps the life cycle of the positions. -/
theorem Effect.lifecycle {env : Env} {call : Call} {w w' : World} (hl : Lifecycle w.market)
    (h : Effect env call w w') : Lifecycle w'.market := by
  have ha : ∀ t, (w'.market.positions t).exists = true → (w'.market.positions t).Accepted :=
    fun _ ht => h.accepted hl ht
  have hs := h.isSettled_mono
  rcases h.positions_cases with ⟨hp, hparts⟩ | ⟨o, -, ho, hp, hparts⟩ | ⟨_, -, hc, hp, hparts⟩
  -- Without a change of a position, only the settlement can have changed, and it stays.
  · constructor
    · exact ha
    · intro t ht
      rw [hp] at ht ⊢
      exact ⟨(hl.claimed t ht).1, hs (hl.claimed t ht).2⟩
    · rw [hp, hparts]
      exact hl.participant_iff
    · rw [hparts]
      exact hl.participants_nodup
  · exact hl.opened ho ha hs hp hparts
  · exact hl.closed hc ha hs hp hparts

/-- A new market has no positions. -/
theorem Fresh.lifecycle {w : World} (h : Fresh w) : Lifecycle w.market where
  accepted t ht := by
    rw [h.positions] at ht
    cases ht
  claimed t ht := by
    rw [h.positions] at ht
    cases ht
  participant_iff t := by
    rw [h.positions, h.participants]
    exact ⟨fun hmem => absurd hmem List.not_mem_nil, fun hex => (by cases hex)⟩
  participants_nodup := by
    rw [h.participants]
    exact List.nodup_nil

/-- The positions of every reachable market keep their life cycle. -/
theorem Reachable.lifecycle {w : World} (h : Reachable w) : Lifecycle w.market := by
  obtain ⟨d, w₀, txs, h₀, run⟩ := h
  exact run.invariant (I := fun w => Lifecycle w.market)
    (fun _ _ _ _ hl he => (exec_effect he).lifecycle hl) (deploy_fresh h₀).lifecycle

/-- A sum over all traders, in which only a position counts, is a sum over the participants. -/
theorem Lifecycle.sum_positions {m : Market} (hl : Lifecycle m) (g : Address → ℕ)
    (hg : ∀ t, (m.positions t).exists = false → g t = 0) :
    ∑ t, g t = (m.participants.map g).sum := by
  apply Mapping.sum_list hl.participants_nodup
  intro t ht
  rw [hl.participant_iff] at ht
  exact hg t (Bool.eq_false_iff.mpr ht)

end GasCap
