import GasCap.Payout

/-!
# Settlement is final

A settlement closes the openings, the settlement, and the owner's withdrawal, and fixes the terms of
the market. `AfterSettlement` lists what a call to a settled market leaves alone, the lemmas of the
section `SettledRun` carry it along a run, and `settlement_final` puts it together with what holds at
the settlement itself. No assumption on the order of block timestamps is needed: a settled market
does not look at the time.
-/

namespace GasCap

open Machine

/-- What a settlement fixes. -/
structure Terms where
  strikePrice : Uint256
  expiryTimestamp : Uint256
  settlementPrice : Uint256
  settlementTimestamp : Uint256
  participants : List Address

/-- The terms of a market. -/
def Market.terms (m : Market) : Terms :=
  ⟨m.strikePrice, m.expiryTimestamp, m.settlementPrice, m.settlementTimestamp, m.participants⟩

/-- A call that a settled market refuses. -/
def Call.IsFinished (call : Call) : Prop :=
  call.inflow = some .opened ∨ call = .settleContract ∨ call = .emergencyWithdraw

/-- The claim of a trader. -/
def Tx.IsClaimOf (tx : Tx) (t : Address) : Prop := tx.call = .claimPayout ∧ tx.env.sender = t

/-- What a call to a settled market leaves alone, and what it marks. -/
structure AfterSettlement (tx : Tx) (w w' : World) : Prop where
  settled : w'.market.isSettled = true
  terms : w'.market.terms = w.market.terms
  not_finished : ¬ tx.call.IsFinished
  others : ∀ t, ¬ tx.IsClaimOf t → w'.market.positions t = w.market.positions t
  own : ∀ t, tx.IsClaimOf t → (w'.market.positions t).isClaimed = true

/-- The claim of a trader marks its position and no other. -/
theorem afterSettlement_of_claim {tx : Tx} {w w' : World} {b : ℕ} {payout : Uint256}
    (hcall : tx.call = .claimPayout) (h : Claimable w.market tx.env.sender payout)
    (hm : w'.market = { w.market.closed tx.env.sender with balance := b }) :
    AfterSettlement tx w w' where
  settled := by rw [hm]; exact h.settled
  terms := by rw [hm]; rfl
  not_finished := by
    rw [hcall]
    rintro (h | h | h) <;> cases h
  others t ht := by
    rw [hm]
    exact closed_positions_of_ne fun heq => ht ⟨hcall, heq.symm⟩
  own t ht := by
    rw [hm, ← ht.2]
    show ((w.market.closed tx.env.sender).positions tx.env.sender).isClaimed = true
    rw [closed_positions_self]

/-- **What a call to a settled market leaves alone.** -/
theorem exec_of_settled {tx : Tx} {w w' : World} (hs : w.market.isSettled = true)
    (h : exec tx w = .ok w') : AfterSettlement tx w w' := by
  obtain ⟨env, call, rejection⟩ := tx
  have heffect := exec_effect h
  simp only at heffect
  cases heffect with
  -- The calls that are finished require that the market is not settled.
  | opened order openable =>
    have hopen := openable.notSettled
    rw [hs] at hopen
    cases hopen
  | settleContract _ _ unsettled =>
    rw [hs] at unsettled
    cases unsettled
  | emergencyWithdraw _ _ unsettled =>
    rw [hs] at unsettled
    cases unsettled
  | claimNothing _ claimable => exact afterSettlement_of_claim rfl claimable rfl
  | claimPayout _ _ claimable => exact afterSettlement_of_claim rfl claimable rfl
  | _ =>
    refine ⟨hs, rfl, ?_, fun _ _ => rfl, fun t ht => ?_⟩
    · rintro (h | h | h) <;> cases h
    · cases ht.1

/-- A call to a settled market leaves the payout of every trader whose claim it is not. -/
theorem AfterSettlement.payout {tx : Tx} {w w' : World} {t : Address}
    (h : AfterSettlement tx w w') (hs : w.market.isSettled = true) (ht : ¬ tx.IsClaimOf t) :
    calculatePayout w'.market t = calculatePayout w.market t := by
  have hprice := congrArg Terms.settlementPrice h.terms
  have hstrike := congrArg Terms.strikePrice h.terms
  exact calculatePayout_congr (h.settled.trans hs.symm) hprice hstrike (h.others t ht)

/-- After its claim, the position of a trader stays claimed. -/
theorem AfterSettlement.claimed {tx : Tx} {w w' : World} {t : Address}
    (h : AfterSettlement tx w w') (hc : (w.market.positions t).isClaimed = true) :
    (w'.market.positions t).isClaimed = true := by
  by_cases ht : tx.IsClaimOf t
  · exact h.own t ht
  · rw [h.others t ht]
    exact hc

section SettledRun

variable {w w' : World} {txs : List Tx}

/-- A settled market stays settled. -/
theorem run_settled (run : Run exec w txs w') (hs : w.market.isSettled = true) :
    w'.market.isSettled = true :=
  run.invariant (I := fun w => w.market.isSettled = true)
    (fun _ _ _ _ hs h => (exec_of_settled hs h).settled) hs

/-- The terms of a settled market do not change. -/
theorem run_terms (run : Run exec w txs w') (hs : w.market.isSettled = true) :
    w'.market.terms = w.market.terms :=
  run.constant (I := fun w => w.market.isSettled = true) (fun w => w.market.terms)
    (fun _ _ _ _ hs h => (exec_of_settled hs h).settled) hs
    fun _ _ _ _ _ hs h => (exec_of_settled hs h).terms

/-- A settled market accepts no opening, no settlement, and no withdrawal of the owner. -/
theorem run_not_finished (run : Run exec w txs w') (hs : w.market.isSettled = true) :
    ∀ tx ∈ txs, ¬ tx.call.IsFinished :=
  run.forall_mem (I := fun w => w.market.isSettled = true)
    (fun _ _ _ _ hs h => (exec_of_settled hs h).settled)
    (fun _ _ _ _ hs h => (exec_of_settled hs h).not_finished) hs

/-- The payout of a trader is the same until its claim. -/
theorem run_payout (run : Run exec w txs w') (hs : w.market.isSettled = true) {t : Address}
    (ht : ∀ tx ∈ txs, ¬ tx.IsClaimOf t) :
    calculatePayout w'.market t = calculatePayout w.market t :=
  run.constant (I := fun w => w.market.isSettled = true) (fun w => calculatePayout w.market t)
    (fun _ _ _ _ hs h => (exec_of_settled hs h).settled) hs
    fun tx htx _ _ _ hs h => (exec_of_settled hs h).payout hs (ht tx htx)

/-- After a claim of its trader, a position is claimed. -/
theorem run_claimed (run : Run exec w txs w') (hs : w.market.isSettled = true) {t : Address}
    (ht : ∃ tx ∈ txs, tx.IsClaimOf t) : (w'.market.positions t).isClaimed = true := by
  obtain ⟨tx, htx, hclaim⟩ := ht
  obtain ⟨before, after, rfl⟩ := List.append_of_mem htx
  obtain ⟨w₁, hbefore, hrest⟩ := run.split
  -- The claim marks the position, and the calls after it leave the mark.
  cases hrest with
  | cons _ accepted hafter =>
    have hs₁ := run_settled hbefore hs
    have hstep := exec_of_settled hs₁ accepted
    have hend := hafter.invariant
      (I := fun w => w.market.isSettled = true ∧ (w.market.positions t).isClaimed = true)
      (fun _ _ _ _ hw h => ⟨(exec_of_settled hw.1 h).settled, (exec_of_settled hw.1 h).claimed hw.2⟩)
      ⟨hstep.settled, hstep.own t hclaim⟩
    exact hend.2

end SettledRun

/-- A settlement comes after the expiry, with a price that is at most an hour older, and settles the
market. -/
theorem exec_settleContract {tx : Tx} {w w' : World} (hcall : tx.call = .settleContract)
    (h : exec tx w = .ok w') :
    w.market.isSettled = false ∧ w'.market.isSettled = true ∧
      w'.market.expiryTimestamp ≤ tx.env.timestamp ∧
      w'.market.expiryTimestamp.toNat ≤ w'.market.settlementTimestamp.toNat + 3600 := by
  have heffect := exec_effect h
  rw [hcall] at heffect
  cases heffect with
  | opened order _ => cases order
  | settleContract _ expired unsettled _ _ recent => exact ⟨unsettled, rfl, expired, recent⟩

/-- **Settlement is final**: in every run, `settleContract` succeeds at most once. Where it does, it
is not before the expiry, and the price is at most an hour older than the expiry. After it, no
opening, settlement, or withdrawal of the owner succeeds, the terms stay as they are, and so does
the payout of every trader, until its own claim, and from then on it is zero. -/
theorem settlement_final {w₀ w : World} {txs : List Tx} (run : Run exec w₀ txs w) :
    txs.countP (fun tx => tx.call = .settleContract) ≤ 1 ∧
    ∀ before tx after, txs = before ++ tx :: after → tx.call = .settleContract →
      ∃ w₁, Run exec w₀ (before ++ [tx]) w₁ ∧ Run exec w₁ after w ∧
        w₁.market.expiryTimestamp ≤ tx.env.timestamp ∧
        w₁.market.expiryTimestamp.toNat ≤ w₁.market.settlementTimestamp.toNat + 3600 ∧
        (∀ tx' ∈ after, ¬ tx'.call.IsFinished) ∧
        w.market.terms = w₁.market.terms ∧
        ∀ t, ((∀ tx' ∈ after, ¬ tx'.IsClaimOf t) →
            calculatePayout w.market t = calculatePayout w₁.market t) ∧
          ((∃ tx' ∈ after, tx'.IsClaimOf t) → calculatePayout w.market t = .ok 0) := by
  constructor
  · refine (run.countP_le_one (C := fun w => w.market.isSettled = true) ?_ ?_).1
    · intro _ _ _ h hs
      exact (exec_effect h).isSettled_mono hs
    · intro _ _ _ h hp
      obtain ⟨hopen, hclosed, -⟩ := exec_settleContract (of_decide_eq_true hp) h
      exact ⟨by rw [hopen]; exact Bool.false_ne_true, hclosed⟩
  · rintro before tx after rfl hcall
    obtain ⟨w', hbefore, hrest⟩ := run.split
    cases hrest with
    | @cons _ w₁ _ _ _ _ accepted hafter =>
      obtain ⟨-, hs, hexpired, hrecent⟩ := exec_settleContract hcall accepted
      refine ⟨w₁, hbefore.append (.single trivial accepted), hafter, hexpired, hrecent,
        run_not_finished hafter hs, run_terms hafter hs, fun t => ⟨run_payout hafter hs, ?_⟩⟩
      intro ht
      exact calculatePayout_of_claimed (run_settled hafter hs) (run_claimed hafter hs ht)

/-- The settlement of the sample run is final. -/
theorem settlement_final_sample :
    ∃ w₀ w₁ w, deploy sampleDeployment = .ok w₀ ∧
      sampleRun.countP (fun tx => tx.call = .settleContract) ≤ 1 ∧
      Run exec w₀ (sampleOpening ++ [sampleSettlement]) w₁ ∧ Run exec w₁ [sampleClaim] w ∧
      w.market.terms = w₁.market.terms ∧
      calculatePayout w.market 3 = calculatePayout w₁.market 3 ∧
      calculatePayout w.market 2 = .ok 0 := by
  obtain ⟨w, hw, -⟩ := exists_launch sampleDeployment sampleRun (fun _ => true) (by decide +kernel)
  obtain ⟨w₀, h₀, run⟩ := launch_eq_ok.mp hw
  obtain ⟨hone, hfinal⟩ := settlement_final run
  obtain ⟨w₁, hbefore, hafter, -, -, -, hterms, hpayout⟩ :=
    hfinal sampleOpening sampleSettlement [sampleClaim] rfl rfl
  refine ⟨w₀, w₁, w, h₀, hone, hbefore, hafter, hterms, (hpayout 3).1 ?_, (hpayout 2).2 ?_⟩
  · intro tx htx hclaim
    obtain rfl := List.mem_singleton.mp htx
    exact absurd hclaim.2 (by decide)
  · exact ⟨sampleClaim, List.mem_singleton.mpr rfl, rfl, rfl⟩

end GasCap
