import GasCap.Books
import GasCap.Lib.Serial
import GasCap.Reentrancy
import GasCap.Traders

/-!
# What reentrancy cannot do

Before a market hands over control with a native transfer it has written all that it will write, and
its functions look at the storage, the balance, and the call alone. So its calls are `Serial` for the
market and the journal (`market_serial`): a run whose recipients call back leaves the market and the
journal of a plain run of the calls that succeeded, one after the other (`reentrant_run_serial`). The
states that a recipient finds when it runs are states of plain runs too, so whatever holds in all
reachable states holds there (`callouts_attained`).
-/

namespace GasCap

open Machine

/-- What a market has written: its storage, its balance, and the journal. -/
def World.books (w : World) : Market × List Movement := (w.market, w.journal)

/-- Worlds with the same books differ in the event log only. -/
theorem World.eq_of_books {w v : World} (h : v.books = w.books) :
    v = { w with events := v.events } := by
  obtain ⟨hm, hj⟩ := Prod.mk.inj h
  obtain ⟨m, j, events⟩ := v
  simp only at hm hj
  rw [hm, hj]

/-- A call is entered on the books, whatever the event log is. -/
theorem enter_iff {tx : Tx} {w : World} {p : Progress World} :
    enter tx w = .ok p ↔ ∃ arrived frame, arrive tx = .ok arrived ∧
      tx.call.body tx.env { w.market with balance := w.market.balance + tx.env.value.toNat } =
        .ok frame ∧ depart frame (arrived ++ w.journal) w.events = .ok p := by
  unfold enter
  simp only [Checked.bind_eq_ok]
  constructor
  · rintro ⟨arrived, harrive, frame, hbody, hdepart⟩
    exact ⟨arrived, frame, harrive, hbody, hdepart⟩
  · rintro ⟨arrived, frame, harrive, hbody, hdepart⟩
    exact ⟨arrived, harrive, frame, hbody, hdepart⟩

/-- A frame without a transfer ends its call, and one with a transfer does not. -/
theorem depart_done {frame : Frame} {journal : List Movement} {events : List Event} {s : World} :
    depart frame journal events = .ok (.done s) ↔
      frame.payment = none ∧ s = ⟨frame.market, journal, frame.event.toList ++ events⟩ := by
  obtain ⟨m, payment, event⟩ := frame
  cases payment with
  | none =>
    refine ⟨fun h => ?_, fun h => ?_⟩
    · cases h
      exact ⟨rfl, rfl⟩
    · rw [h.2]
      rfl
  | some payment =>
    rw [depart_some]
    exact ⟨fun h => (by cases h.2), fun h => by cases h.1⟩

/-- **The calls of a market are serial** for its books. -/
theorem market_serial : machine.Serial World.books where
  done := by
    intro tx w v w' hv he
    obtain ⟨arrived, frame, harrive, hbody, hdepart⟩ := enter_iff.mp he
    obtain ⟨hnone, rfl⟩ := depart_done.mp hdepart
    rw [World.eq_of_books hv]
    -- The same frame, on the other event log, ends the call there too.
    have hdone : depart frame (arrived ++ w.journal) v.events =
        .ok (.done ⟨frame.market, arrived ++ w.journal, frame.event.toList ++ v.events⟩) :=
      depart_done.mpr ⟨hnone, rfl⟩
    exact ⟨_, enter_iff.mpr ⟨arrived, frame, harrive, hbody, hdone⟩, rfl⟩
  callout := by
    intro tx w v s resume hv he
    obtain ⟨arrived, ⟨m, payment, event⟩, harrive, hbody, hdepart⟩ := enter_iff.mp he
    rw [World.eq_of_books hv]
    cases payment with
    | none => cases hdepart
    | some payment =>
      obtain ⟨henough, hp⟩ := depart_some.mp hdepart
      cases hp
      have hcallout : depart ⟨m, some payment, event⟩ (arrived ++ w.journal) v.events =
          .ok (.callout ⟨{ m with balance := m.balance - payment.amount },
              payment :: (arrived ++ w.journal), v.events⟩
            fun w => { w with events := event.toList ++ w.events }) :=
        depart_some.mpr ⟨henough, rfl⟩
      exact ⟨_, _, enter_iff.mpr ⟨arrived, _, harrive, hbody, hcallout⟩, rfl⟩
  resume := by
    intro tx w s resume v he
    obtain ⟨hm, hj⟩ := enter_resume he v
    exact Prod.ext hm hj

/-- **Reentrancy is no more than a sequence of calls**: whatever calls the recipients of transfers make
before these return, the market and the journal at the end are those of a plain run, without
callbacks, of some of the calls, in the order in which they began. -/
theorem reentrant_run_serial (ts : List (CallTree Tx)) (w₀ : World) :
    ∃ txs w, txs.Sublist (CallTree.callsAll ts) ∧ Run exec w₀ txs w ∧
      w.market = (machine.execAll ts w₀).market ∧ w.journal = (machine.execAll ts w₀).journal := by
  obtain ⟨txs, w, hsub, run, hbooks⟩ := CallMachine.execAll_serial market_serial ts rfl
  obtain ⟨hm, hj⟩ := Prod.mk.inj hbooks
  exact ⟨txs, w, hsub, run, hm, hj⟩

/-! ## The states at callouts -/

/-- The call, from an account that accepts its transfer. -/
def Tx.willing (tx : Tx) : Tx := { tx with rejection := none }

/-- Until its callout, a call does not depend on whether its recipient accepts. -/
theorem enter_willing (tx : Tx) (w : World) : machine.enter tx.willing w = machine.enter tx w := rfl

/-- The recipient of a willing call accepts. -/
theorem rejection_willing (tx : Tx) : machine.rejection tx.willing = none := rfl

/-- **What holds in all reachable states holds at every callout**: whatever is true of the market and
the journal in every state that plain calls lead to is true in all states of every run from the
constructor in which recipients make any calls before their transfers return, between the calls, when
a call begins, and when a recipient runs. -/
theorem callouts_attained {d : Deployment} {w₀ : World} (h₀ : deploy d = .ok w₀)
    (ts : List (CallTree Tx)) {J : Market → List Movement → Prop}
    (hJ : ∀ w, Reachable w → J w.market w.journal) :
    (∀ p ∈ machine.pointsAll ts w₀, p.Holds fun w => J w.market w.journal) ∧
      J (machine.execAll ts w₀).market (machine.execAll ts w₀).journal := by
  have hreachable : ∀ {w₀ : World} {txs : List Tx} {w : World}, (∃ d, deploy d = .ok w₀) →
      Run machine.step w₀ txs w → J w.market w.journal := by
    rintro w₀ txs w ⟨d, h₀⟩ run
    exact hJ w ⟨d, w₀, txs, h₀, run⟩
  exact market_serial.points_hold (J := fun books => J books.1 books.2) enter_willing
    rejection_willing hreachable ts ⟨d, h₀⟩

/-- At every callout of the run of the long that claims again, each participant has a position. -/
theorem callouts_attained_sample :
    ∃ w₀, deploy sampleDeployment = .ok w₀ ∧
      ∀ p ∈ machine.pointsAll reentrantRun w₀, p.Holds fun w =>
        ∀ t ∈ w.market.participants, (w.market.positions t).exists = true := by
  obtain ⟨w₀, h₀, -⟩ := Checked.exists_of_any (x := deploy sampleDeployment)
    (p := fun _ => true) (by decide +kernel)
  have hJ : ∀ w, Reachable w → ∀ t ∈ w.market.participants,
      (w.market.positions t).exists = true :=
    fun w hw t => (hw.lifecycle.participant_iff t).mp
  exact ⟨w₀, h₀, (callouts_attained h₀ reentrantRun
    (J := fun m _ => ∀ t ∈ m.participants, (m.positions t).exists = true) hJ).1⟩

end GasCap
