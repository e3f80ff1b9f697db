import GasCap.Books
import GasCap.Positions

/-!
# Payments under reentrancy

The recipient of a transfer may call the market back before the transfer returns, and the calls that
it makes may call back in turn: a `CallTree`. Every function that transfers has written what it
records about the transfer before it hands over control, and does nothing but emit an event after
it, so what every call preserves by itself holds also at every point at which a recipient runs
(`preserves_of_effect`). `PaidOnce` is such an invariant, and so are the books. That every payment of
a claim is the payout at the time of its claim (`Recorded`) is an invariant over the callouts of the
run itself.
-/

namespace GasCap

open Machine

/-- The number of payments of claims to a trader. -/
def claimCount (t : Address) (journal : List Movement) : ℕ :=
  journal.countP fun mv => mv.flow = .claimed ∧ mv.party = t

/-- A movement counts if it is the payment of a claim to the trader. -/
@[simp] theorem claimCount_cons (t : Address) (mv : Movement) (journal : List Movement) :
    claimCount t (mv :: journal) =
      claimCount t journal + if mv.flow = .claimed ∧ mv.party = t then 1 else 0 := by
  unfold claimCount
  rw [List.countP_cons]
  simp only [decide_eq_true_eq]

/-- The number of payments that a position can have had. -/
def Position.maxPayments (p : Position) : ℕ := (p.exists && p.isClaimed).toNat

/-- Only a trader with a claimed position was paid, and only once. -/
def PaidOnce (w : World) : Prop :=
  ∀ t, claimCount t w.journal ≤ (w.market.positions t).maxPayments

/-- A new market has paid nothing. -/
theorem Fresh.paidOnce {w : World} (h : Fresh w) : PaidOnce w := by
  intro t
  rw [h.journal]
  exact Nat.zero_le _

/-- A market whose positions and claims did not change has still paid each trader once. -/
theorem PaidOnce.congr {w w' : World} (h : PaidOnce w)
    (hm : w'.market.positions = w.market.positions)
    (hj : ∀ t, claimCount t w'.journal = claimCount t w.journal) : PaidOnce w' := by
  intro t
  rw [hj, hm]
  exact h t

/-- A claim, with or without a payment, leaves its trader paid once. -/
theorem PaidOnce.closed {w w' : World} {trader : Address} {payout : Uint256} (h : PaidOnce w)
    (hc : Claimable w.market trader payout)
    (hm : w'.market.positions = (w.market.closed trader).positions)
    (hj : ∀ t, claimCount t w'.journal ≤ claimCount t w.journal + if trader = t then 1 else 0) :
    PaidOnce w' := by
  intro t
  have hbefore := h t
  have hafter := hj t
  rw [hm]
  rcases eq_or_ne t trader with rfl | hne
  · have hnone : (w.market.positions t).maxPayments = 0 := by
      rw [Position.maxPayments, hc.unclaimed, Bool.and_false]
      rfl
    have hone : ((w.market.closed t).positions t).maxPayments = 1 := by
      rw [closed_positions_self, Position.maxPayments, hc.position]
      rfl
    rw [if_pos rfl] at hafter
    omega
  · rw [if_neg hne.symm] at hafter
    rw [closed_positions_of_ne hne]
    exact le_trans hafter hbefore

/-- An opening leaves its trader unpaid. -/
theorem PaidOnce.opened {env : Env} {o : Order} {w w' : World} (h : PaidOnce w)
    (ho : Openable env o w.market)
    (hm : w'.market.positions = Function.update w.market.positions env.sender o.position)
    (hj : ∀ t, claimCount t w'.journal = claimCount t w.journal) : PaidOnce w' := by
  intro t
  have hbefore := h t
  rw [hj, hm]
  rcases eq_or_ne t env.sender with rfl | hne
  · have hnone : (w.market.positions env.sender).maxPayments = 0 := by
      rw [Position.maxPayments, ho.fresh, Bool.false_and]
      rfl
    omega
  · rw [Function.update_of_ne hne]
    exact hbefore

/-- A call pays each trader once, if those before it did. -/
theorem Effect.paidOnce {env : Env} {call : Call} {w w' : World} (hw : PaidOnce w)
    (h : Effect env call w w') : PaidOnce w' := by
  cases h with
  | opened _ openable => exact hw.opened openable rfl fun t => by simp
  | claimNothing _ claimable => exact hw.closed claimable rfl fun t => Nat.le_add_right _ _
  | claimPayout _ _ claimable => exact hw.closed claimable rfl fun t => by simp
  | addLiquidity _ _ _ | removeLiquidity _ _ _ _ | emergencyWithdraw _ _ _ | receive =>
    exact hw.congr rfl fun t => by simp
  | _ => exact hw.congr rfl fun t => rfl

/-- What holds at every point of a run with callbacks. -/
structure Accounted (w : World) : Prop where
  represented : Represented w
  paidOnce : PaidOnce w

/-- What holds at every point is preserved by calls whose recipients call back. -/
theorem accounted_preserves : machine.Preserves (fun _ => True) Accounted := by
  apply preserves_of_effect
  · intro env call w w' hw h
    obtain ⟨τ, hτ⟩ := hw.represented
    obtain ⟨τ', -, hτ'⟩ := h.simulates hτ
    exact ⟨⟨τ', hτ'⟩, h.paidOnce hw.paidOnce⟩
  · intro w w' hw hm hj
    obtain ⟨τ, hτ⟩ := hw.represented
    refine ⟨⟨τ, hτ.congr hm hj⟩, hw.paidOnce.congr (by rw [hm]) fun t => by rw [hj]⟩

/-- No double payment, and no removal of more than was added, with the liquidity ledger intact. -/
structure Sound (w : World) : Prop where
  claimed_once : ∀ t, claimCount t w.journal ≤ 1
  removed_le : ∀ a, totalOf .removed a w.journal ≤ totalOf .added a w.journal
  pool : w.market.totalLiquidity.toNat = ∑ a, (w.market.liquidityProvided a).toNat

/-- What holds at every point of a run rules out double payments. -/
theorem Accounted.sound {w : World} (h : Accounted w) : Sound w := by
  obtain ⟨τ, hτ⟩ := h.represented
  refine ⟨fun t => ?_, fun a => ?_, ?_⟩
  · exact le_trans (h.paidOnce t) (Bool.toNat_le _)
  · rw [← hτ.removed, ← hτ.added]
    exact τ.removed_le a
  · rw [hτ.pool]
    exact Finset.sum_congr rfl fun a _ => hτ.credit a

/-! ## Payments and their callouts -/

/-- The payment of a claim was made by a call, at whose start it was the payout of the trader, and is
in the journal when the trader runs. -/
def Recorded (points : List (Point World Tx)) (mv : Movement) : Prop :=
  ∃ tx s s' payout, .callout tx s s' ∈ points ∧ tx.call = .claimPayout ∧
    tx.env.sender = mv.party ∧ calculatePayout s.market mv.party = .ok payout ∧
    mv.amount = payout.toNat ∧ s'.journal = mv :: s.journal

/-- No payable call takes its value in as the payment of a claim. -/
theorem inflow_ne_claimed (call : Call) : call.inflow ≠ some .claimed := by
  intro h
  cases call <;> cases h

/-- A frame without a transfer writes nothing. -/
theorem depart_done_journal {frame : Frame} {journal : List Movement} {events : List Event}
    {s : World} (h : depart frame journal events = .ok (.done s)) : s.journal = journal := by
  obtain ⟨m, payment, event⟩ := frame
  cases payment with
  | none =>
    cases h
    rfl
  | some payment =>
    obtain ⟨-, hp⟩ := depart_some.mp h
    cases hp

/-- A call that is not payable and writes a movement made a transfer, which its recipient accepted. -/
theorem accepts_of_paid {tx : Tx} {w w' : World} (hi : tx.call.inflow = none)
    (he : exec tx w = .ok w') (hj : w'.journal ≠ w.journal) : tx.rejection = none := by
  rcases CallMachine.step_eq_ok.mp he with hdone | ⟨_, _, _, haccepts, _⟩
  · obtain ⟨-, frame, -, hdepart⟩ := (enter_eq_ok_of_none hi).mp hdone
    exact absurd (depart_done_journal hdepart) hj
  · exact haccepts

/-- A call without a transfer writes no payment of a claim. -/
theorem enter_done_journal {tx : Tx} {w s : World} (h : enter tx w = .ok (.done s)) {mv : Movement}
    (hmv : mv ∈ s.journal) (hflow : mv.flow = .claimed) : mv ∈ w.journal := by
  cases hi : tx.call.inflow with
  | none =>
    obtain ⟨-, frame, -, hd⟩ := (enter_eq_ok_of_none hi).mp h
    rwa [depart_done_journal hd] at hmv
  | some flow =>
    obtain ⟨frame, -, hd⟩ := (enter_eq_ok_of_some hi).mp h
    rw [depart_done_journal hd] at hmv
    rcases List.mem_cons.mp hmv with rfl | hmv
    · obtain rfl : flow = .claimed := hflow
      exact absurd hi (inflow_ne_claimed _)
    · exact hmv

/-- An effect writes no payment of a claim but that of the claim itself. -/
theorem Effect.claimed_journal {env : Env} {call : Call} {w w' : World}
    (h : Effect env call w w') {mv : Movement} (hmv : mv ∈ w'.journal)
    (hflow : mv.flow = .claimed) : mv ∈ w.journal ∨
      ∃ payout, call = .claimPayout ∧ env.sender = mv.party ∧
        calculatePayout w.market mv.party = .ok payout ∧ mv.amount = payout.toNat ∧
        w'.journal = mv :: w.journal := by
  cases h with
  | claimPayout _ _ claimable =>
    rcases List.mem_cons.mp hmv with rfl | hmv
    · exact .inr ⟨_, rfl, rfl, claimable.payout_eq, rfl, rfl⟩
    · exact .inl hmv
  | opened _ _ | addLiquidity _ _ _ | removeLiquidity _ _ _ _ | emergencyWithdraw _ _ _ | receive =>
    rcases List.mem_cons.mp hmv with rfl | hmv
    · cases hflow
    · exact .inl hmv
  | _ => exact .inl hmv

/-- Where all payments of claims are recorded, calls write only recorded ones, for callouts among the
points. -/
theorem recorded_preserves (points : List (Point World Tx)) :
    machine.Preserves (fun p => p ∈ points)
      (fun w => ∀ mv ∈ w.journal, mv.flow = .claimed → Recorded points mv) where
  done hw h mv hmv hflow := hw mv (enter_done_journal h hmv hflow) hflow
  -- The payment of a claim is written where control is handed over, which is a point of the run.
  handover hw h hp mv hmv hflow := by
    rcases (enter_effect h).claimed_journal hmv hflow with hmv | ⟨payout, hcall, hclaim⟩
    · exact hw mv hmv hflow
    · exact ⟨_, _, _, payout, hp, hcall, hclaim⟩
  resume hw h mv hmv hflow := by
    rw [(enter_resume h _).2] at hmv
    exact hw mv hmv hflow

/-- **No double payment, even under reentrancy**: in every run from the constructor in which the
recipients of transfers make any calls before these return, each trader is paid by `claimPayout` at
most once, each provider removes at most what it added, and `totalLiquidity` is the sum of all
entries, between calls, at every callout, and at the end. Every payment of a claim was the payout
of its trader when its call began. -/
theorem no_double_payment {d : Deployment} {w₀ : World} (h₀ : deploy d = .ok w₀)
    (ts : List (CallTree Tx)) :
    (∀ p ∈ machine.pointsAll ts w₀, p.Holds Sound) ∧ Sound (machine.execAll ts w₀) ∧
      ∀ mv ∈ (machine.execAll ts w₀).journal, mv.flow = .claimed →
        Recorded (machine.pointsAll ts w₀) mv := by
  have hfresh := deploy_fresh h₀
  have hstart : Accounted w₀ := ⟨⟨Treasury.empty, hfresh.represents⟩, hfresh.paidOnce⟩
  refine ⟨fun p hp => ?_, ?_, ?_⟩
  · have hpoint := CallMachine.pointsAll_preserves accounted_preserves ts hstart p hp
    cases p with
    | between s => exact Accounted.sound hpoint
    | callout tx s s' => exact ⟨hpoint.1.sound, hpoint.2.sound⟩
  · exact (CallMachine.execAll_preserves accounted_preserves ts hstart fun _ _ => trivial).sound
  · refine CallMachine.execAll_preserves (recorded_preserves _) ts ?_ fun p hp => hp
    intro mv hmv
    rw [hfresh.journal] at hmv
    cases hmv

/-- The sample run, with a long that claims again while it is paid. -/
def reentrantRun : List (CallTree Tx) :=
  (sampleOpening ++ [sampleSettlement]).map (fun tx => .node tx []) ++
    [.node sampleClaim [.node sampleClaim []]]

/-- The long that claims again while it is paid is paid once. -/
theorem no_double_payment_sample :
    ∃ w₀, deploy sampleDeployment = .ok w₀ ∧
      totalOf .claimed 2 (machine.execAll reentrantRun w₀).journal = 1000000199999999500 ∧
      claimCount 2 (machine.execAll reentrantRun w₀).journal ≤ 1 := by
  obtain ⟨w₀, h₀, hp⟩ := Checked.exists_of_any (x := deploy sampleDeployment)
    (p := fun w₀ => decide (totalOf .claimed 2 (machine.execAll reentrantRun w₀).journal =
      1000000199999999500)) (by decide +kernel)
  exact ⟨w₀, h₀, of_decide_eq_true hp, (no_double_payment h₀ reentrantRun).2.1.claimed_once 2⟩

end GasCap
