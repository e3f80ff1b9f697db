import GasCap.Lib.Clients
import GasCap.Reentrancy
import GasCap.Strike
import GasCap.Views

/-!
# The scripts of a settlement

`main` of `scripts/settle.js` and of `scripts/claim.js`. Any number of processes run one of the two
against the same market, in any interleaving with each other and with all other calls of the market,
also those that their own accounts make elsewhere. Between two calls of a process, the market may have
changed, and what it has printed by then stays on the screen.

A settlement is final, so what the processes print of it stays true (`processes_rely_guarantee`), and
they all print the same, whoever settled the market (`settlements_agree`). A process that has its claim
confirmed has been paid the payout that it printed before (`claims_pay_as_printed`). What it says of the
price fits the profit that it prints, unless the position was claimed elsewhere before its payout was
read (`analysis_matches_profit`). What `settle.js` advises after a failed estimate fits the error, but
for data of the oracle that are too old, for which it never says so (`settle_hints`).
-/

namespace GasCap

open Machine

/-! ## What the scripts print -/

/-- A settlement as `settle.js` and `claim.js` print it. -/
structure PrintedSettlement where
  strikePrice : Uint256
  settlementPrice : Uint256
  deriving DecidableEq

/-- The settlement in the result of `getContractState`. -/
def ContractState.settlement (state : ContractState) : PrintedSettlement :=
  ⟨state.strikePrice, state.settlementPrice⟩

/-- The advice of `settle.js` after a failed settlement. -/
inductive SettleHint
  /-- "Contract has not expired yet. Wait until expiry time." -/
  | notExpired
  /-- "Contract is already settled." -/
  | alreadySettled
  /-- "FTSO price data is too old. Try again in a few minutes." -/
  | dataTooOld
  /-- "Check the contract state and try again." -/
  | checkState
  deriving DecidableEq

/-- `message.includes(text)` -/
def includes (message text : String) : Bool := text.toList <:+: message.toList

/-- The texts that `settle.js` looks for in the message of its error. -/
def settleHint (message : String) : SettleHint :=
  if includes message "Not yet expired" then .notExpired
  else if includes message "Already settled" then .alreadySettled
  else if includes message "FTSO data too old" then .dataTooOld
  else .checkState

/-- The line on the profit, which is positive, negative, or zero, in `claim.js`. -/
inductive ProfitLine
  | profit
  | loss
  | breakEven
  deriving DecidableEq

def profitLine (payout collateral : Uint256) : ProfitLine :=
  let profit : ℤ := payout.toNat - collateral.toNat
  if profit > 0 then .profit
  else if profit < 0 then .loss
  else .breakEven

/-- The settlement analysis of `claim.js`. -/
inductive Analysis
  | won
  | lost
  | draw
  deriving DecidableEq

def settlementAnalysis (isLong : Bool) (settlement : PrintedSettlement) : Analysis :=
  let priceDiff : ℤ := settlement.settlementPrice.toNat - settlement.strikePrice.toNat
  if priceDiff > 0 then if isLong then .won else .lost
  else if priceDiff < 0 then if isLong then .lost else .won
  else .draw

/-! ## The scripts -/

/-- Why a process stops before its end. -/
inductive Stop
  | notExpired
  | settlementFailed (hint : SettleHint)
  | notSettled
  | noPosition
  | alreadyClaimed
  | error (error : Revert)
  deriving DecidableEq

/-- How far a process is in its script, and what it has read and printed. -/
inductive ProcessState
  -- `settle.js`
  | settler
  /-- "Contract has expired! Ready for settlement." -/
  | expired (strikePrice : Uint256)
  | priced (expected : Option ExpectedResult)
  | estimated
  /-- "Transaction confirmed" -/
  | confirmed
  /-- "Contract Settled!" of a process with its own transaction, or "Contract is already settled!" -/
  | reported (own : Bool) (settlement : PrintedSettlement)
  -- `claim.js`
  | claimer (trader : Address)
  | found (trader : Address) (settlement : PrintedSettlement)
  | holding (trader : Address) (settlement : PrintedSettlement) (position : Position)
  /-- The payout, the line on the profit, and the analysis are printed. -/
  | computed (trader : Address) (settlement : PrintedSettlement) (position : Position)
      (payout : Uint256)
  /-- "Your payout is 0 (max loss = collateral). No need to claim.", after the same lines. -/
  | noNeed (trader : Address) (settlement : PrintedSettlement) (position : Position)
  /-- "Transaction confirmed" of the claim. -/
  | paid (trader : Address) (settlement : PrintedSettlement) (position : Position)
      (payout : Uint256)
  /-- The claim failed. -/
  | refused (trader : Address) (settlement : PrintedSettlement) (position : Position)
      (payout : Uint256) (error : Revert)
  -- Both exit early.
  | stopped (printed : Option PrintedSettlement) (reason : Stop)

/-- The calls that the scripts make. Those that change the market are transactions, of which a failed
one changes nothing. The clock of a process is its own, and `message` is that of the error that
`ethers` throws if the call fails. -/
inductive ProcessCall
  | getContractState (now : ℕ)
  | getCurrentGasPrice (env : Env)
  | estimateGas (env : Env) (message : String)
  | settleContract (env : Env) (message : String)
  | getPosition
  | calculatePayout
  | claimPayout (env : Env) (rejection : Option Revert)

/-- The next call of a process. A call out of the order of its script is not made. -/
def processStep : ProcessCall → ProcessState → World → Except Revert (ProcessState × World)
  | .getContractState now, .settler, w =>
    let state := getContractState w.market
    if state.isSettled then return (.reported false state.settlement, w)
    else if now < state.expiryTimestamp.toNat then return (.stopped none .notExpired, w)
    else return (.expired state.strikePrice, w)
  | .getCurrentGasPrice env, .expired strikePrice, w =>
    match getCurrentGasPrice env with
    | .ok (currentPrice, _) => return (.priced (some (forecast currentPrice strikePrice)), w)
    | .error _ => return (.priced none, w)
  | .estimateGas env message, .priced _, w => do
    Checked.ensure .empty (env.value = 0)
    match exec ⟨env, .settleContract, none⟩ w with
    | .ok _ => return (.estimated, w)
    | .error _ => return (.stopped none (.settlementFailed (settleHint message)), w)
  | .settleContract env message, .estimated, w => do
    Checked.ensure .empty (env.value = 0)
    match exec ⟨env, .settleContract, none⟩ w with
    | .ok w' => return (.confirmed, w')
    | .error _ => return (.stopped none (.settlementFailed (settleHint message)), w)
  | .getContractState _, .confirmed, w =>
    return (.reported true (getContractState w.market).settlement, w)
  | .getContractState _, .claimer trader, w =>
    let state := getContractState w.market
    if state.isSettled then return (.found trader state.settlement, w)
    else return (.stopped none .notSettled, w)
  | .getPosition, .found trader settlement, w =>
    let position := getPosition trader w.market
    if position.exists = false ∨ position.quantity = 0 then
      return (.stopped (some settlement) .noPosition, w)
    else if position.isClaimed then return (.stopped (some settlement) .alreadyClaimed, w)
    else return (.holding trader settlement position, w)
  | .calculatePayout, .holding trader settlement position, w =>
    match calculatePayout w.market trader with
    | .ok payout =>
      if payout = 0 then return (.noNeed trader settlement position, w)
      else return (.computed trader settlement position payout, w)
    | .error e => return (.stopped (some settlement) (.error e), w)
  | .claimPayout env rejection, .computed trader settlement position payout, w => do
    Checked.ensure .empty (env.value = 0 ∧ env.sender = trader)
    match exec ⟨env, .claimPayout, rejection⟩ w with
    | .ok w' => return (.paid trader settlement position payout, w')
    | .error e => return (.refused trader settlement position payout e, w)
  | _, _, _ => .error .empty

/-- Processes that run the scripts, among all other calls of the market. -/
def processes : Clients World ProcessState ProcessCall Tx Revert where
  client := processStep
  other := exec

/-- What a call of a process does. -/
inductive ProcessEffect : ProcessState → World → ProcessState → World → Prop
  | alreadySettled {w} (settled : w.market.isSettled = true) :
      ProcessEffect .settler w (.reported false (getContractState w.market).settlement) w
  | expired {w} (unsettled : w.market.isSettled = false) :
      ProcessEffect .settler w (.expired w.market.strikePrice) w
  | priced {strikePrice expected w} : ProcessEffect (.expired strikePrice) w (.priced expected) w
  | estimated {expected w} : ProcessEffect (.priced expected) w .estimated w
  | settled {env w w'} (accepted : exec ⟨env, .settleContract, none⟩ w = .ok w') :
      ProcessEffect .estimated w .confirmed w'
  | reported {w} :
      ProcessEffect .confirmed w (.reported true (getContractState w.market).settlement) w
  | found {trader w} (settled : w.market.isSettled = true) :
      ProcessEffect (.claimer trader) w (.found trader (getContractState w.market).settlement) w
  | holding {trader settlement w} («exists» : (w.market.positions trader).exists = true)
      (quantity : (w.market.positions trader).quantity ≠ 0) :
      ProcessEffect (.found trader settlement) w
        (.holding trader settlement (w.market.positions trader)) w
  | computed {trader settlement position payout w}
      (payout_eq : calculatePayout w.market trader = .ok payout) (pos : payout ≠ 0) :
      ProcessEffect (.holding trader settlement position) w
        (.computed trader settlement position payout) w
  | noNeed {trader settlement position w}
      (payout_eq : calculatePayout w.market trader = .ok 0) :
      ProcessEffect (.holding trader settlement position) w (.noNeed trader settlement position) w
  | paid {env rejection settlement position payout w w'} (value : env.value = 0)
      (accepted : exec ⟨env, .claimPayout, rejection⟩ w = .ok w') :
      ProcessEffect (.computed env.sender settlement position payout) w
        (.paid env.sender settlement position payout) w'
  | stopped {t reason w} : ProcessEffect t w (.stopped none reason) w
  | found_stopped {trader settlement reason w} :
      ProcessEffect (.found trader settlement) w (.stopped (some settlement) reason) w
  | holding_stopped {trader settlement position reason w} :
      ProcessEffect (.holding trader settlement position) w (.stopped (some settlement) reason) w
  | refused {trader settlement position payout error w} :
      ProcessEffect (.computed trader settlement position payout) w
        (.refused trader settlement position payout error) w

/-- A call of a process has its effect. -/
theorem processStep_effect {call : ProcessCall} {t t' : ProcessState} {w w' : World}
    (h : processStep call t w = .ok (t', w')) : ProcessEffect t w t' w' := by
  unfold processStep at h
  split at h
  · dsimp only at h
    split_ifs at h with hs
    · cases h
      exact .alreadySettled hs
    · cases h
      exact .stopped
    · cases h
      exact .expired (Bool.eq_false_of_not_eq_true hs)
  · split at h <;> cases h <;> exact .priced
  · obtain ⟨-, h⟩ := Checked.ensure_bind_eq_ok.mp h
    split at h <;> cases h
    · exact .estimated
    · exact .stopped
  · obtain ⟨-, h⟩ := Checked.ensure_bind_eq_ok.mp h
    split at h <;> cases h
    · exact .settled ‹_›
    · exact .stopped
  · cases h
    exact .reported
  · dsimp only at h
    split_ifs at h with hs
    · cases h
      exact .found hs
    · cases h
      exact .stopped
  · dsimp only at h
    split_ifs at h with hnone hclaimed
    · cases h
      exact .found_stopped
    · cases h
      exact .found_stopped
    · cases h
      rw [not_or, Bool.not_eq_false] at hnone
      exact .holding hnone.1 hnone.2
  · split at h
    · split_ifs at h with hzero
      · cases h
        rename_i hpayout
        rw [hzero] at hpayout
        exact .noNeed hpayout
      · cases h
        exact .computed ‹_› hzero
    · cases h
      exact .holding_stopped
  · obtain ⟨⟨hvalue, rfl⟩, h⟩ := Checked.ensure_bind_eq_ok.mp h
    split at h <;> cases h
    · exact .paid hvalue ‹_›
    · exact .refused
  · cases h

/-! ## What stays true of the prints -/

/-- The market is settled, as printed. -/
structure PrintedSettlement.Of (settlement : PrintedSettlement) (m : Market) : Prop where
  settled : m.isSettled = true
  strikePrice : m.strikePrice = settlement.strikePrice
  settlementPrice : m.settlementPrice = settlement.settlementPrice

/-- The position of the trader is the printed one, up to the marks of its claim. -/
structure Holds (trader : Address) (settlement : PrintedSettlement) (position : Position)
    (m : Market) : Prop where
  settlement : settlement.Of m
  «exists» : position.exists = true
  quantity : position.quantity ≠ 0
  entry : (m.positions trader).entry = position.entry

/-- The payout is that of the printed position at the printed settlement. -/
structure Computed (trader : Address) (settlement : PrintedSettlement) (position : Position)
    (payout : Uint256) (m : Market) : Prop extends Holds trader settlement position m where
  inRange : InRange m position
  payout_eq : payout.toNat = (Owed m position).toNat
  pos : payout ≠ 0

/-- The trader has been paid the payout, and nothing else. -/
structure Paid (trader : Address) (payout : Uint256) (w : World) : Prop where
  claimed : (w.market.positions trader).isClaimed = true
  paid : totalOf .claimed trader w.journal = payout.toNat

/-- What holds of the state of a process and the market. -/
def ProcessState.Sound : ProcessState → World → Prop
  | .confirmed, w => w.market.isSettled = true
  | .reported _ settlement, w => settlement.Of w.market
  | .found _ settlement, w => settlement.Of w.market
  | .holding trader settlement position, w => Holds trader settlement position w.market
  | .noNeed trader settlement position, w => Holds trader settlement position w.market
  | .computed trader settlement position payout, w
  | .refused trader settlement position payout _, w =>
    Computed trader settlement position payout w.market
  | .paid trader settlement position payout, w =>
    Computed trader settlement position payout w.market ∧ Paid trader payout w
  | .stopped (some settlement) _, w => settlement.Of w.market
  | _, _ => True

section Stable

variable {tx : Tx} {w w' : World} {trader : Address} {settlement : PrintedSettlement}
  {position : Position} {payout : Uint256}

/-- A settlement stays what it is. -/
theorem PrintedSettlement.Of.step (h : settlement.Of w.market) (he : exec tx w = .ok w') :
    settlement.Of w'.market := by
  have hafter := exec_of_settled h.settled he
  have hstrike : w'.market.strikePrice = w.market.strikePrice := congrArg Terms.strikePrice hafter.terms
  have hprice : w'.market.settlementPrice = w.market.settlementPrice :=
    congrArg Terms.settlementPrice hafter.terms
  exact ⟨hafter.settled, hstrike.trans h.strikePrice, hprice.trans h.settlementPrice⟩

/-- The position of the trader is one that is there. -/
theorem Holds.position_exists {m : Market} (h : Holds trader settlement position m) :
    (m.positions trader).exists = true :=
  (congrArg Position.exists h.entry).trans h.exists

/-- A position stays the printed one. -/
theorem Holds.step (h : Holds trader settlement position w.market) (he : exec tx w = .ok w') :
    Holds trader settlement position w'.market where
  settlement := h.settlement.step he
  «exists» := h.exists
  quantity := h.quantity
  entry := ((exec_effect he).entry h.position_exists).trans h.entry

/-- The move of the price is that of the printed settlement. -/
theorem PrintedSettlement.Of.priceDiff_eq {m : Market} (h : settlement.Of m) :
    m.priceDiff = int256 settlement.settlementPrice - int256 settlement.strikePrice := by
  unfold Market.priceDiff
  rw [h.settlementPrice, h.strikePrice]

/-- A payout stays that of the printed position. -/
theorem Computed.step (h : Computed trader settlement position payout w.market)
    (he : exec tx w = .ok w') : Computed trader settlement position payout w'.market := by
  have hdiff : w'.market.priceDiff = w.market.priceDiff := by
    rw [h.settlement.priceDiff_eq, (h.settlement.step he).priceDiff_eq]
  have howed : Owed w'.market position = Owed w.market position := by
    unfold Owed
    rw [hdiff]
  exact ⟨h.toHolds.step he, h.inRange.congr hdiff, by rw [howed]; exact h.payout_eq, h.pos⟩

/-- After its claim, a trader is paid nothing more. -/
theorem Effect.totalOf_claimed {env : Env} {call : Call} (h : Effect env call w w')
    (hc : (w.market.positions trader).isClaimed = true) :
    totalOf .claimed trader w'.journal = totalOf .claimed trader w.journal := by
  cases h with
  | claimPayout _ _ claimable =>
    have hne : env.sender ≠ trader := by
      rintro rfl
      have hunclaimed := claimable.unclaimed
      rw [hc] at hunclaimed
      cases hunclaimed
    simp [hne]
  | opened _ _ | addLiquidity _ _ _ | removeLiquidity _ _ _ _ | emergencyWithdraw _ _ _ | receive =>
    simp
  | _ => rfl

/-- A trader that has been paid is paid nothing more. -/
theorem Paid.step (h : Paid trader payout w) (hs : w.market.isSettled = true)
    (he : exec tx w = .ok w') : Paid trader payout w' where
  claimed := (exec_of_settled hs he).claimed h.claimed
  paid := ((exec_effect he).totalOf_claimed h.claimed).trans h.paid

/-- What holds of the state of a process stays so, whoever calls the market. -/
theorem ProcessState.Sound.step {t : ProcessState} (h : t.Sound w) (he : exec tx w = .ok w') :
    t.Sound w' := by
  cases t with
  | confirmed => exact (exec_effect he).isSettled_mono h
  | reported own settlement => exact PrintedSettlement.Of.step h he
  | found trader settlement => exact PrintedSettlement.Of.step h he
  | holding trader settlement position => exact Holds.step h he
  | noNeed trader settlement position => exact Holds.step h he
  | computed trader settlement position payout => exact Computed.step h he
  | refused trader settlement position payout error => exact Computed.step h he
  | paid trader settlement position payout =>
    exact ⟨h.1.step he, h.2.step h.1.settlement.settled he⟩
  | stopped printed reason =>
    cases printed with
    | none => trivial
    | some settlement => exact PrintedSettlement.Of.step h he
  | _ => trivial

end Stable

/-! ## Payouts and claims of processes -/

section Claims

variable {m : Market} {w w' : World} {trader : Address} {settlement : PrintedSettlement}
  {position : Position} {payout : Uint256}

/-- What is owed for a position does not depend on the marks of its claim. -/
theorem owed_of_entry {p p' : Position} (h : p'.entry = p.entry) :
    (InRange m p' ↔ InRange m p) ∧ Owed m p' = Owed m p := by
  obtain ⟨isActive, isClaimed, rfl⟩ : ∃ isActive isClaimed,
      p' = { p with isActive := isActive, isClaimed := isClaimed } :=
    ⟨_, _, Position.eq_of_entry_eq h⟩
  refine ⟨⟨fun h => ?_, fun h => ?_⟩, rfl⟩
  · exact ⟨h.priceDiff, h.gain, h.product, h.pnl, h.owed⟩
  · exact ⟨h.priceDiff, h.gain, h.product, h.pnl, h.owed⟩

/-- What `calculatePayout` returns for an unclaimed position is the payout of the printed one. -/
theorem Holds.payout_iff (h : Holds trader settlement position m)
    (hunclaimed : (m.positions trader).isClaimed = false) :
    calculatePayout m trader = .ok payout ↔
      InRange m position ∧ payout.toNat = (Owed m position).toNat := by
  have ha : Awaiting m trader := ⟨h.settlement.settled, h.position_exists, hunclaimed⟩
  have hquantity : (m.positions trader).entry.quantity = position.entry.quantity := by
    rw [h.entry]
  have hpos : 0 < (m.positions trader).quantity := by
    have hne : position.quantity.toNat ≠ 0 := by
      rw [← BitVec.toNat_zero, ne_eq, BitVec.toNat_inj]
      exact h.quantity
    show 0 < (m.positions trader).entry.quantity
    rw [hquantity, BitVec.lt_def]
    exact Nat.pos_of_ne_zero hne
  obtain ⟨hrange, howed⟩ := owed_of_entry (m := m) h.entry
  rw [calculatePayout_eq_ok ha hpos, hrange, howed]

/-- A payout that is not zero is that of an unclaimed position. -/
theorem Holds.computed (h : Holds trader settlement position m)
    (hpayout : calculatePayout m trader = .ok payout) (hne : payout ≠ 0) :
    Computed trader settlement position payout m := by
  have hunclaimed : (m.positions trader).isClaimed = false := by
    rw [← Bool.not_eq_true]
    intro hclaimed
    have hzero := calculatePayout_of_claimed h.settlement.settled hclaimed
    rw [hpayout] at hzero
    exact hne (Except.ok.inj hzero)
  obtain ⟨hrange, howed⟩ := (h.payout_iff hunclaimed).mp hpayout
  exact ⟨h, hrange, howed, hne⟩

/-- As long as the position is unclaimed, the printed payout is what a claim pays. -/
theorem Computed.calculatePayout_eq (h : Computed trader settlement position payout m)
    (hunclaimed : (m.positions trader).isClaimed = false) :
    calculatePayout m trader = .ok payout :=
  (h.payout_iff hunclaimed).mpr ⟨h.inRange, h.payout_eq⟩

/-- Without payments of claims there is nothing paid to a trader. -/
theorem totalOf_claimed_eq_zero {journal : List Movement} (h : claimCount trader journal = 0) :
    totalOf .claimed trader journal = 0 := by
  have hnone : journal.filter (fun mv => mv.flow = .claimed ∧ mv.party = trader) = [] := by
    rw [List.filter_eq_nil_iff]
    exact List.countP_eq_zero.mp h
  unfold totalOf
  rw [hnone]
  rfl

/-- Every trader has been paid once at most. -/
theorem Reachable.paidOnce (h : Reachable w) : PaidOnce w := by
  obtain ⟨d, w₀, txs, h₀, run⟩ := h
  exact run.invariant (fun _ _ _ _ hw he => (exec_effect he).paidOnce hw) (deploy_fresh h₀).paidOnce

/-- A claim that is accepted pays the printed payout. -/
theorem Computed.claim {env : Env} {rejection : Option Revert} (hw : Reachable w)
    (h : Computed env.sender settlement position payout w.market)
    (he : exec ⟨env, .claimPayout, rejection⟩ w = .ok w') :
    (w.market.positions env.sender).isClaimed = false ∧ Paid env.sender payout w' := by
  have heffect := exec_effect he
  simp only at heffect
  have hnone : ∀ (hunclaimed : (w.market.positions env.sender).isClaimed = false),
      totalOf .claimed env.sender w.journal = 0 := by
    intro hunclaimed
    have hcount := hw.paidOnce env.sender
    unfold Position.maxPayments at hcount
    rw [hunclaimed, Bool.and_false] at hcount
    exact totalOf_claimed_eq_zero (Nat.le_zero.mp hcount)
  cases heffect with
  | opened order _ => cases order
  | claimNothing _ claimable =>
    -- The payout would be zero.
    have hpayout := h.calculatePayout_eq claimable.unclaimed
    rw [claimable.payout_eq] at hpayout
    exact absurd (Except.ok.inj hpayout).symm h.pos
  | claimPayout _ _ claimable =>
    have hpayout := h.calculatePayout_eq claimable.unclaimed
    rw [claimable.payout_eq] at hpayout
    cases hpayout
    refine ⟨claimable.unclaimed, ?_, ?_⟩
    · show ((w.market.closed env.sender).positions env.sender).isClaimed = true
      rw [closed_positions_self]
    · rw [totalOf_cons, hnone claimable.unclaimed]
      simp

end Claims

/-- **What the processes print stays true**: whoever calls the market, the settlements, the positions,
and the payouts that the processes have printed stay what they are. -/
theorem processes_rely_guarantee :
    RelyGuarantee processes Reachable (processes.Moves Reachable) ProcessState.Sound := by
  refine .of_moves (fun hw he => hw.exec he) ?_ (fun _ ht he => ht.step he)
  intro call t t' w w' hw ht h
  cases processStep_effect h with
  | alreadySettled settled => exact ⟨.inl rfl, settled, rfl, rfl⟩
  | expired | priced | estimated => exact ⟨.inl rfl, trivial⟩
  | settled accepted => exact ⟨.inr ⟨_, accepted⟩, (exec_settleContract rfl accepted).2.1⟩
  | reported => exact ⟨.inl rfl, ht, rfl, rfl⟩
  | found settled => exact ⟨.inl rfl, settled, rfl, rfl⟩
  | holding «exists» quantity => exact ⟨.inl rfl, ht, «exists», quantity, rfl⟩
  | computed payout_eq pos => exact ⟨.inl rfl, Holds.computed ht payout_eq pos⟩
  | paid value accepted =>
    exact ⟨.inr ⟨_, accepted⟩, Computed.step ht accepted, (Computed.claim hw ht accepted).2⟩
  | stopped => exact ⟨.inl rfl, trivial⟩
  | found_stopped => exact ⟨.inl rfl, ht⟩
  | holding_stopped => exact ⟨.inl rfl, Holds.settlement ht⟩
  | noNeed payout_eq => exact ⟨.inl rfl, ht⟩
  | refused => exact ⟨.inl rfl, ht⟩

/-! ## Agreement on the settlement -/

/-- The start of a script. -/
def ProcessState.isStart : ProcessState → Bool
  | .settler | .claimer _ => true
  | _ => false

/-- What a process has printed of the settlement. -/
def ProcessState.printed : ProcessState → Option PrintedSettlement
  | .reported _ settlement | .found _ settlement | .holding _ settlement _
  | .computed _ settlement _ _ | .noNeed _ settlement _ | .paid _ settlement _ _
  | .refused _ settlement _ _ _ => some settlement
  | .stopped printed _ => printed
  | _ => none

/-- The transaction of the process settled the market. -/
def ProcessState.settledIt : ProcessState → Bool
  | .confirmed | .reported true _ => true
  | _ => false

/-- The trader that the process had paid. -/
def ProcessState.paidTo : ProcessState → Option Address
  | .paid trader _ _ _ => some trader
  | _ => none

section Run

variable {K : Type*} [DecidableEq K] {s s' : Joint World ProcessState K}
  {turns : List (Turn K ProcessCall Tx)}

/-- At its start, a process has printed nothing. -/
theorem start_sound {t : ProcessState} {w : World} (h : t.isStart = true) :
    t.Sound w ∧ t.settledIt = false ∧ t.paidTo = none := by
  cases t with
  | settler | claimer _ => exact ⟨trivial, rfl, rfl⟩
  | _ => cases h

/-- What the processes have printed at the end of a run is true there. -/
theorem run_processes_sound (h : Reachable s.shared) (hstart : ∀ k, (s.locals k).isStart = true)
    (run : Run processes.step s turns s') :
    Reachable s'.shared ∧ ∀ k, (s'.locals k).Sound s'.shared :=
  processes_rely_guarantee.run run h fun k => (start_sound (hstart k)).1

/-- A printed settlement is that of the market. -/
theorem ProcessState.Sound.printed {t : ProcessState} {w : World} (h : t.Sound w)
    {settlement : PrintedSettlement} (hp : t.printed = some settlement) : settlement.Of w.market := by
  cases t with
  | reported own settlement' | found trader settlement' =>
    cases hp
    exact h
  | holding trader settlement' position | noNeed trader settlement' position =>
    cases hp
    exact Holds.settlement h
  | computed trader settlement' position payout | refused trader settlement' position payout error =>
    cases hp
    exact (Computed.toHolds h).settlement
  | paid trader settlement' position payout =>
    cases hp
    exact h.1.settlement
  | stopped printed reason =>
    cases printed with
    | none => cases hp
    | some settlement' =>
      cases hp
      exact h
  | _ => cases hp

/-- A process whose transaction settles the market finds it unsettled, and leaves it settled. -/
theorem settledIt_exclusive (h : Reachable s.shared) (hstart : ∀ k, (s.locals k).isStart = true)
    (run : Run processes.step s turns s') :
    ∀ k k', (s'.locals k).settledIt = true → (s'.locals k').settledIt = true → k = k' := by
  refine processes_rely_guarantee.exclusive (E := fun t => t.settledIt = true)
    (C := fun w => w.market.isSettled = true) ?_ ?_ run h (fun k => (start_sound (hstart k)).1) ?_
  · intro t w ht hsettled
    cases t with
    | confirmed => exact ht
    | reported own settlement => exact PrintedSettlement.Of.settled ht
    | _ => cases hsettled
  · intro call t t' w w' hw ht hstep hsettled
    cases processStep_effect hstep with
    | settled accepted =>
      obtain ⟨hopen, -⟩ := exec_settleContract rfl accepted
      exact .inr (by rw [hopen]; exact Bool.false_ne_true)
    | reported => exact .inl rfl
    | _ => cases hsettled
  · intro k k' hk
    have hfalse := (start_sound (w := s.shared) (hstart k)).2.1
    rw [hk] at hfalse
    cases hfalse

/-- **All processes agree on the settlement**: in every run of any number of processes of `settle.js`
and `claim.js`, in any interleaving with each other and all other calls of a market, the transaction of
at most one process settles the market, and all that print a settlement print the same, which is that
of the market from then on. -/
theorem settlements_agree (h : Reachable s.shared) (hstart : ∀ k, (s.locals k).isStart = true)
    (run : Run processes.step s turns s') :
    (∀ k k', (s'.locals k).settledIt = true → (s'.locals k').settledIt = true → k = k') ∧
      (∀ k settlement, (s'.locals k).printed = some settlement →
        s'.shared.market.isSettled = true ∧
          s'.shared.market.strikePrice = settlement.strikePrice ∧
          s'.shared.market.settlementPrice = settlement.settlementPrice) ∧
      ∀ k k' settlement settlement', (s'.locals k).printed = some settlement →
        (s'.locals k').printed = some settlement' → settlement = settlement' := by
  obtain ⟨-, hsound⟩ := run_processes_sound h hstart run
  refine ⟨settledIt_exclusive h hstart run, fun k settlement hk => ?_, ?_⟩
  · have hof := (hsound k).printed hk
    exact ⟨hof.settled, hof.strikePrice, hof.settlementPrice⟩
  · intro k k' settlement settlement' hk hk'
    have hof := (hsound k).printed hk
    have hof' := (hsound k').printed hk'
    have hstrike : settlement.strikePrice = settlement'.strikePrice :=
      hof.strikePrice.symm.trans hof'.strikePrice
    have hprice : settlement.settlementPrice = settlement'.settlementPrice :=
      hof.settlementPrice.symm.trans hof'.settlementPrice
    calc settlement = ⟨settlement.strikePrice, settlement.settlementPrice⟩ := rfl
      _ = ⟨settlement'.strikePrice, settlement'.settlementPrice⟩ := by rw [hstrike, hprice]
      _ = settlement' := rfl

/-! ## Payments as printed -/

/-- A process that has its claim paid finds the position unclaimed, and leaves it claimed. -/
theorem paidTo_exclusive (h : Reachable s.shared) (hstart : ∀ k, (s.locals k).isStart = true)
    (run : Run processes.step s turns s') (trader : Address) :
    ∀ k k', (s'.locals k).paidTo = some trader → (s'.locals k').paidTo = some trader → k = k' := by
  refine processes_rely_guarantee.exclusive (E := fun t => t.paidTo = some trader)
    (C := fun w => (w.market.positions trader).isClaimed = true) ?_ ?_ run h
    (fun k => (start_sound (hstart k)).1) ?_
  · intro t w ht hpaid
    cases t with
    | paid trader' settlement position payout =>
      cases hpaid
      exact ht.2.claimed
    | _ => cases hpaid
  · intro call t t' w w' hw ht hstep hpaid
    cases processStep_effect hstep with
    | paid value accepted =>
      cases hpaid
      obtain ⟨hunclaimed, -⟩ := Computed.claim hw ht accepted
      exact .inr (by rw [hunclaimed]; exact Bool.false_ne_true)
    | _ => cases hpaid
  · intro k k' hk
    have hnone := (start_sound (w := s.shared) (hstart k)).2.2
    rw [hk] at hnone
    cases hnone

end Run

/-- When the claim of a process that has printed its payout is accepted. -/
theorem Computed.accepted_iff {env : Env} {rejection : Option Revert} {w : World}
    {settlement : PrintedSettlement} {position : Position} {payout : Uint256}
    (h : Computed env.sender settlement position payout w.market) (hv : env.value = 0) :
    (∃ w', exec ⟨env, .claimPayout, rejection⟩ w = .ok w') ↔
      (w.market.positions env.sender).isClaimed = false ∧
        position.settlementAsset = NATIVE_TOKEN ∧ payout.toNat ≤ w.market.balance ∧
        rejection = none := by
  have hasset : (w.market.positions env.sender).entry.settlementAsset =
      position.entry.settlementAsset := by rw [h.entry]
  constructor
  · rintro ⟨w', he⟩
    have heffect := exec_effect he
    simp only at heffect
    cases heffect with
    | opened order _ => cases order
    | claimNothing _ claimable =>
      have hpayout := h.calculatePayout_eq claimable.unclaimed
      rw [claimable.payout_eq] at hpayout
      exact absurd (Except.ok.inj hpayout).symm h.pos
    | claimPayout _ pos claimable =>
      have hpayout := h.calculatePayout_eq claimable.unclaimed
      rw [claimable.payout_eq] at hpayout
      cases hpayout
      refine ⟨claimable.unclaimed, hasset.symm.trans (claimable.native pos), claimable.enough, ?_⟩
      exact accepts_of_paid rfl he (List.cons_ne_self _ _)
  · rintro ⟨hunclaimed, hnative, henough, rfl⟩
    have ha : Awaiting w.market env.sender :=
      ⟨h.settlement.settled, h.position_exists, hunclaimed⟩
    obtain ⟨w₁, heffect, -⟩ := claim_effect hv ha (h.calculatePayout_eq hunclaimed)
      (.inr (hasset.trans hnative)) henough
    obtain ⟨w', he, -⟩ := exec_of_effect ⟨env, .claimPayout, none⟩ heffect rfl
    exact ⟨w', he⟩

section Run

variable {K : Type*} [DecidableEq K] {s s' : Joint World ProcessState K}
  {turns : List (Turn K ProcessCall Tx)}

/-- **Claims pay what the processes print**: in every run of any number of processes of `settle.js` and
`claim.js`, in any interleaving with each other and all other calls of a market, a process whose claim
is confirmed has had its trader paid exactly the payout that it printed before, for the position that
it printed, and no other process has had this trader paid. The claim of a process that has printed a
payout is refused only where the position has been claimed elsewhere in the meantime, is settled in
another asset, or the balance is short of it, or its trader refuses the transfer. -/
theorem claims_pay_as_printed (h : Reachable s.shared)
    (hstart : ∀ k, (s.locals k).isStart = true) (run : Run processes.step s turns s') :
    (∀ k trader settlement position payout,
      s'.locals k = .paid trader settlement position payout →
        totalOf .claimed trader s'.shared.journal = payout.toNat ∧
          (s'.shared.market.positions trader).entry = position.entry ∧
          ∀ k', (s'.locals k').paidTo = some trader → k' = k) ∧
      ∀ k settlement position payout env rejection,
        s'.locals k = .computed env.sender settlement position payout → env.value = 0 →
          ((∃ w', exec ⟨env, .claimPayout, rejection⟩ s'.shared = .ok w') ↔
            (s'.shared.market.positions env.sender).isClaimed = false ∧
              position.settlementAsset = NATIVE_TOKEN ∧
              payout.toNat ≤ s'.shared.market.balance ∧ rejection = none) := by
  obtain ⟨-, hsound⟩ := run_processes_sound h hstart run
  constructor
  · intro k trader settlement position payout hk
    have hpaid : (ProcessState.paid trader settlement position payout).Sound s'.shared :=
      hk ▸ hsound k
    refine ⟨hpaid.2.paid, hpaid.1.entry, fun k' hk' => ?_⟩
    have hself : (s'.locals k).paidTo = some trader := by
      rw [hk]
      rfl
    exact paidTo_exclusive h hstart run trader k' k hk' hself
  · intro k settlement position payout env rejection hk hv
    have hcomputed : (ProcessState.computed env.sender settlement position payout).Sound s'.shared :=
      hk ▸ hsound k
    exact Computed.accepted_iff hcomputed hv

/-! ## The analysis -/

/-- The line on the profit compares the payout with the collateral. -/
theorem profitLine_iff (payout collateral : Uint256) :
    (profitLine payout collateral = .profit ↔ collateral.toNat < payout.toNat) ∧
      (profitLine payout collateral = .loss ↔ payout.toNat < collateral.toNat) ∧
      (profitLine payout collateral = .breakEven ↔ payout.toNat = collateral.toNat) := by
  obtain ⟨hprofit, hloss, heven⟩ :=
    comparison_iff (x := (payout.toNat - collateral.toNat : ℤ)) (y := 0)
      (by decide : ProfitLine.profit ≠ .loss) (by decide : ProfitLine.profit ≠ .breakEven) (by decide)
  refine ⟨hprofit.trans ?_, hloss.trans ?_, heven.trans ?_⟩ <;> omega

/-- The analysis compares the prices, for a long or a short. -/
theorem settlementAnalysis_iff (position : Position) (settlement : PrintedSettlement) :
    (settlementAnalysis position.isLong settlement = .won ↔
      0 < position.gain (settlement.settlementPrice.toNat - settlement.strikePrice.toNat)) ∧
    (settlementAnalysis position.isLong settlement = .lost ↔
      position.gain (settlement.settlementPrice.toNat - settlement.strikePrice.toNat) < 0) ∧
    (settlementAnalysis position.isLong settlement = .draw ↔
      position.gain (settlement.settlementPrice.toNat - settlement.strikePrice.toNat) = 0) := by
  unfold Position.gain
  cases position.isLong with
  | true =>
    exact comparison_iff (by decide : Analysis.won ≠ .lost) (by decide : Analysis.won ≠ .draw)
      (by decide)
  | false =>
    -- A price above the strike is a loss for a short, and one below it a win.
    obtain ⟨hlost, hwon, hdraw⟩ :=
      comparison_iff (x := (settlement.settlementPrice.toNat - settlement.strikePrice.toNat : ℤ))
        (y := 0) (by decide : Analysis.lost ≠ .won) (by decide : Analysis.lost ≠ .draw) (by decide)
    exact ⟨hwon.trans neg_pos.symm, hlost.trans neg_lt_zero.symm, hdraw.trans neg_eq_zero.symm⟩

/-- The profit line of what is owed for a position has the sign of its gain. -/
theorem HalfRange.profitLine_iff {m : Market} {p : Position} {payout : Uint256} (hr : HalfRange m p)
    (hp : p.Accepted) (hpayout : payout.toNat = (Owed m p).toNat) :
    (profitLine payout p.collateral = .profit ↔
      0 < p.gain (m.settlementPrice.toNat - m.strikePrice.toNat)) ∧
    (profitLine payout p.collateral = .loss ↔
      p.gain (m.settlementPrice.toNat - m.strikePrice.toNat) < 0) ∧
    (profitLine payout p.collateral = .breakEven ↔
      p.gain (m.settlementPrice.toNat - m.strikePrice.toNat) = 0) := by
  obtain ⟨hprofit, hloss, heven⟩ := GasCap.profitLine_iff payout p.collateral
  rw [hr.owed_eq] at hpayout
  rw [hprofit, hloss, heven]
  generalize p.gain _ = gain at hpayout ⊢
  have hquantity : (0 : ℤ) < p.quantity.toNat := by
    exact_mod_cast BitVec.lt_def.mp hp.quantity_pos
  have hleverage : (0 : ℤ) < p.leverage.toNat := by
    exact_mod_cast BitVec.lt_def.mp hp.leverage_pos
  have hcollateral : 0 < p.collateral.toNat := BitVec.lt_def.mp hp.collateral_pos
  -- Quantity and leverage are positive, so the profit has the sign of the gain.
  have hsign : ∀ g : ℤ, 0 < g * p.quantity.toNat * p.leverage.toNat ↔ 0 < g := by
    intro g
    rw [mul_pos_iff_of_pos_right hleverage, mul_pos_iff_of_pos_right hquantity]
  have hpos := hsign gain
  have hneg := hsign (-gain)
  rw [neg_mul, neg_mul] at hneg
  generalize gain * p.quantity.toNat * p.leverage.toNat = pnl at hpayout hpos hneg
  refine ⟨?_, ?_, ?_⟩ <;> omega

/-- The analysis says of a position what the line on its profit says. -/
def Analysis.Fits (analysis : Analysis) (line : ProfitLine) : Prop :=
  (analysis = .won ↔ line = .profit) ∧ (analysis = .lost ↔ line = .loss) ∧
    (analysis = .draw ↔ line = .breakEven)

/-- The bounds on a position and a settlement are the same in every market with this settlement. -/
theorem HalfRange.congr {m m' : Market} {p : Position} (h : HalfRange m p)
    (hstrike : m'.strikePrice = m.strikePrice) (hprice : m'.settlementPrice = m.settlementPrice) :
    HalfRange m' p := by
  refine ⟨?_, ?_, h.quantity, h.leverage, h.collateral⟩
  · rw [hprice]
    exact h.settlementPrice
  · rw [hstrike]
    exact h.strikePrice

/-- For the payout of a printed position, the analysis fits the profit. -/
theorem Holds.analysis_fits {w : World} {trader : Address} {settlement : PrintedSettlement}
    {position : Position} {payout : Uint256} (h : Holds trader settlement position w.market)
    (hreach : Reachable w) (hhalf : HalfRange w.market position)
    (hpayout : payout.toNat = (Owed w.market position).toNat) :
    (settlementAnalysis position.isLong settlement).Fits (profitLine payout position.collateral) := by
  have haccepted : position.Accepted :=
    (hreach.lifecycle.accepted trader h.position_exists).of_entry h.entry.symm
  -- Both lines have the sign of the gain, at the printed settlement.
  obtain ⟨hwon, hlost, hdraw⟩ := settlementAnalysis_iff position settlement
  obtain ⟨hprofit, hloss, heven⟩ := hhalf.profitLine_iff haccepted hpayout
  rw [h.settlement.settlementPrice, h.settlement.strikePrice] at hprofit hloss heven
  unfold Analysis.Fits
  rw [hwon, hlost, hdraw, hprofit, hloss, heven]
  exact ⟨Iff.rfl, Iff.rfl, Iff.rfl⟩

/-- A payout of nothing is a loss. -/
theorem Holds.loss_of_zero {w : World} {trader : Address} {settlement : PrintedSettlement}
    {position : Position} (h : Holds trader settlement position w.market) (hreach : Reachable w) :
    profitLine 0 position.collateral = .loss := by
  have haccepted : position.Accepted :=
    (hreach.lifecycle.accepted trader h.position_exists).of_entry h.entry.symm
  exact (profitLine_iff 0 position.collateral).2.1.mpr (BitVec.lt_def.mp haccepted.collateral_pos)

/-- What a process of `claim.js` has printed of its claim: the trader, the settlement, the position, and
the payout, with the lines on the profit and the analysis. -/
def ProcessState.claim : ProcessState → Option (Address × PrintedSettlement × Position × Uint256)
  | .noNeed trader settlement position => some (trader, settlement, position, 0)
  | .computed trader settlement position payout | .paid trader settlement position payout
  | .refused trader settlement position payout _ => some (trader, settlement, position, payout)
  | _ => none

/-- A process has the position that it has printed, whatever came of its claim. -/
theorem ProcessState.Sound.claim {t : ProcessState} {w : World} (h : t.Sound w) {trader : Address}
    {settlement : PrintedSettlement} {position : Position} {payout : Uint256}
    (hclaim : t.claim = some (trader, settlement, position, payout)) :
    Holds trader settlement position w.market := by
  cases t with
  | noNeed =>
    cases hclaim
    exact h
  | computed | refused =>
    cases hclaim
    exact Computed.toHolds h
  | paid =>
    cases hclaim
    exact h.1.toHolds
  | _ => cases hclaim

/-- The lines are printed when the payout is read. -/
theorem processStep_claim {call : ProcessCall} {t t' : ProcessState} {w w' : World}
    (h : processStep call t w = .ok (t', w')) {trader : Address} {settlement : PrintedSettlement}
    {position : Position} {payout : Uint256}
    (hclaim : t'.claim = some (trader, settlement, position, payout)) :
    t.claim = some (trader, settlement, position, payout) ∨
      t = .holding trader settlement position ∧ calculatePayout w.market trader = .ok payout := by
  cases processStep_effect h with
  | computed payout_eq =>
    cases hclaim
    exact .inr ⟨rfl, payout_eq⟩
  | noNeed payout_eq =>
    cases hclaim
    exact .inr ⟨rfl, payout_eq⟩
  | paid | refused => exact .inl hclaim
  | _ => cases hclaim

end Run

/-! ## The advice after a failed settlement -/

section Hints

variable {env : Env} {m : Market} {e : Revert}

/-- What `settleContract` fails with: the reason of its first check that fails, the reason for data
that are too old, or, in the oracle or for an expiry in the first hour, a revert without a reason. -/
inductive SettleError (env : Env) (m : Market) : Revert → Prop
  | notExpired (early : env.timestamp < m.expiryTimestamp) :
      SettleError env m (.reason "Not yet expired")
  | alreadySettled (expired : m.expiryTimestamp ≤ env.timestamp) (settled : m.isSettled = true) :
      SettleError env m (.reason "Already settled")
  | dataTooOld {price timestamp} (expired : m.expiryTimestamp ≤ env.timestamp)
      (unsettled : m.isSettled = false)
      (price_eq : getCurrentGasPrice env = .ok (price, timestamp))
      (old : timestamp.toNat + 3600 < m.expiryTimestamp.toNat) :
      SettleError env m (.reason "Price data too old")
  | other {error : Revert} (expired : m.expiryTimestamp ≤ env.timestamp)
      (unsettled : m.isSettled = false) (unreasoned : error = .empty ∨ error = overflow) :
      SettleError env m error

/-- A price of the registry fails without a reason. -/
theorem priceOfResponse_error {data : List (BitVec 8)} {base : Uint256}
    (h : priceOfResponse data base = .error e) : e = .empty ∨ e = overflow := by
  unfold priceOfResponse at h
  split at h
  · exact .inl (Except.error.inj h).symm
  · unfold checkedAdd Checked.add at h
    split_ifs at h
    · cases h
    · exact .inr (Except.error.inj h).symm

/-- The oracle fails without a reason. -/
theorem getCurrentGasPrice_error (h : getCurrentGasPrice env = .error e) :
    e = .empty ∨ e = overflow := by
  unfold getCurrentGasPrice _getGasPriceWithFallback at h
  split at h
  · exact priceOfResponse_error h
  · split at h
    · exact priceOfResponse_error h
    · obtain ⟨price, hprice, -⟩ := mockPrice_eq env.number
      rw [hprice] at h
      cases h

/-- Why a settlement fails. -/
theorem settleContract_error (h : settleContract env m = .error e) : SettleError env m e := by
  unfold settleContract GasCap.afterExpiry GasCap.notSettled at h
  by_cases hexpired : m.expiryTimestamp ≤ env.timestamp
  · rw [Checked.ensure_bind_of_pos hexpired] at h
    by_cases hs : m.isSettled = false
    · rw [Checked.ensure_bind_of_pos hs] at h
      cases horacle : _getGasPriceWithFallback env with
      | error e' =>
        rw [horacle] at h
        cases h
        exact .other hexpired hs (getCurrentGasPrice_error horacle)
      | ok result =>
        obtain ⟨price, timestamp⟩ := result
        rw [horacle] at h
        cases hsub : checkedSub m.expiryTimestamp 3600 with
        | error e' =>
          have he' : e' = overflow := by
            unfold checkedSub Checked.sub at hsub
            split_ifs at hsub
            exact (Except.error.inj hsub).symm
          rw [hsub] at h
          cases h
          exact .other hexpired hs (.inr he')
        | ok oldest =>
          rw [hsub] at h
          change (require (oldest ≤ timestamp) "Price data too old" >>= fun _ => _) = .error e at h
          by_cases hold : oldest ≤ timestamp
          · rw [Checked.ensure_bind_of_pos hold] at h
            cases h
          · rw [Checked.ensure_bind_of_neg hold] at h
            cases h
            have hdiff : oldest.toNat + 3600 = m.expiryTimestamp.toNat :=
              Checked.sub_eq_ok.mp hsub
            rw [BitVec.le_def] at hold
            exact .dataTooOld hexpired hs horacle (by omega)
    · rw [Checked.ensure_bind_of_neg hs] at h
      cases h
      exact .alreadySettled hexpired (Bool.eq_true_of_not_eq_false hs)
  · rw [Checked.ensure_bind_of_neg hexpired] at h
    cases h
    exact .notExpired (BitVec.not_le.mp hexpired)

/-- A settlement without a value fails with an error of its function. -/
theorem exec_settleContract_error {w : World} (hv : env.value = 0)
    (h : exec ⟨env, .settleContract, none⟩ w = .error e) : SettleError env w.market e := by
  cases hbody : settleContract env w.market with
  | error e' =>
    have he' : exec ⟨env, .settleContract, none⟩ w = .error e' := exec_error_of_body rfl hv hbody
    rw [h] at he'
    cases he'
    exact settleContract_error hbody
  | ok frame =>
    obtain ⟨price, timestamp, hexpired, hs, hprice, hhour, hrecent, -⟩ :=
      settleContract_eq_ok.mp hbody
    have heffect : Effect env .settleContract w ⟨_, w.journal, []⟩ :=
      .settleContract hv hexpired hs hprice hhour hrecent
    obtain ⟨w', hw', -⟩ := exec_of_effect ⟨env, .settleContract, none⟩ heffect rfl
    rw [h] at hw'
    cases hw'

/-- A message that has, of the texts that `settle.js` looks for, those that are in the reason of the
revert, and none where there is no reason. The messages that `ethers` gives of a failed estimate are
of this kind, since they quote the reason. A transaction that is mined and reverts has no reason. -/
def QuotesReason (message : String) (error : Revert) : Prop :=
  ∀ text ∈ ["Not yet expired", "Already settled", "FTSO data too old"],
    includes message text = true ↔ ∃ reason, error = .reason reason ∧ includes reason text = true

section QuotesReason

variable {message reason text : String}

/-- In a message that quotes the reason, a text is found where it is in the reason. -/
theorem QuotesReason.includes_eq (h : QuotesReason message (.reason reason))
    (htext : text ∈ ["Not yet expired", "Already settled", "FTSO data too old"]) :
    includes message text = includes reason text := by
  rw [Bool.eq_iff_iff, h text htext]
  constructor
  · rintro ⟨_, hreason, hincludes⟩
    cases hreason
    exact hincludes
  · exact fun hincludes => ⟨reason, rfl, hincludes⟩

/-- The advice for a message that quotes the reason is that for the reason. -/
theorem QuotesReason.settleHint_eq (h : QuotesReason message (.reason reason)) :
    settleHint message = settleHint reason := by
  unfold settleHint
  rw [h.includes_eq (by simp), h.includes_eq (by simp), h.includes_eq (by simp)]

/-- For an error without a reason, the advice is to check the state. -/
theorem QuotesReason.settleHint_of_unreasoned (h : QuotesReason message e)
    (he : e = .empty ∨ e = overflow) :
    settleHint message = .checkState := by
  have hnone : ∀ text ∈ ["Not yet expired", "Already settled", "FTSO data too old"],
      includes message text = false := by
    intro text htext
    rw [← Bool.not_eq_true, h text htext]
    rintro ⟨reason, hreason, -⟩
    rcases he with rfl | rfl <;> cases hreason
  unfold settleHint
  rw [hnone _ (by simp), hnone _ (by simp), hnone _ (by simp)]
  rfl

end QuotesReason

/-- **What `settle.js` advises**: after a failed estimate, with a message that quotes the reason of its
error, it says that the contract has not expired exactly when that is so, and that it is settled exactly
when that is so and it has expired. In all other cases it says to check the state. That the data are too
old it never says, also where they are: the text that it looks for is none of the contract's. -/
theorem settle_hints {expected : Option ExpectedResult} {message : String} {w w' : World}
    {hint : SettleHint}
    (h : processStep (.estimateGas env message) (.priced expected) w =
      .ok (.stopped none (.settlementFailed hint), w'))
    (hmessage : ∀ e, exec ⟨env, .settleContract, none⟩ w = .error e → QuotesReason message e) :
    (hint = .notExpired ↔ env.timestamp < w.market.expiryTimestamp) ∧
      (hint = .alreadySettled ↔
        w.market.expiryTimestamp ≤ env.timestamp ∧ w.market.isSettled = true) ∧
      (hint = .checkState ↔
        w.market.expiryTimestamp ≤ env.timestamp ∧ w.market.isSettled = false) ∧
      hint ≠ .dataTooOld := by
  obtain ⟨hv, h⟩ := Checked.ensure_bind_eq_ok.mp h
  split at h
  · cases h
  rename_i e he
  cases h
  have hquotes := hmessage e he
  cases exec_settleContract_error hv he with
  | notExpired early =>
    have hhint : settleHint "Not yet expired" = .notExpired := by decide
    have hnot : ¬ w.market.expiryTimestamp ≤ env.timestamp := BitVec.not_le.mpr early
    rw [hquotes.settleHint_eq, hhint]
    simp [early, hnot]
  | alreadySettled expired settled =>
    have hhint : settleHint "Already settled" = .alreadySettled := by decide
    have hnot : ¬ env.timestamp < w.market.expiryTimestamp := BitVec.not_lt.mpr expired
    rw [hquotes.settleHint_eq, hhint]
    simp [expired, settled, hnot]
  | dataTooOld expired unsettled price_eq old =>
    have hhint : settleHint "Price data too old" = .checkState := by decide
    have hnot : ¬ env.timestamp < w.market.expiryTimestamp := BitVec.not_lt.mpr expired
    rw [hquotes.settleHint_eq, hhint]
    simp [expired, unsettled, hnot]
  | other expired unsettled unreasoned =>
    have hnot : ¬ env.timestamp < w.market.expiryTimestamp := BitVec.not_lt.mpr expired
    rw [hquotes.settleHint_of_unreasoned unreasoned]
    simp [expired, unsettled, hnot]

/-- The environment of the sample settlement, with a price of the registry from 1970. -/
def staleEnv : Env := { sampleSettlement.env with flr := .success (List.replicate 64 0) }

/-- An estimate of the settlement of the sample run that fails for a price from 1970. -/
theorem settle_hints_sample :
    ∃ w hint, launch sampleDeployment sampleOpening = .ok w ∧
      processStep (.estimateGas staleEnv "execution reverted: \"Price data too old\"") (.priced none) w =
        .ok (.stopped none (.settlementFailed hint), w) ∧ hint ≠ .dataTooOld := by
  obtain ⟨w, hw, hp⟩ := exists_launch sampleDeployment sampleOpening
    (fun w => match exec ⟨staleEnv, .settleContract, none⟩ w with
      | .ok _ => false
      | .error e => decide (e = .reason "Price data too old")) (by decide +kernel)
  split at hp
  · cases hp
  rename_i e he
  obtain rfl : e = .reason "Price data too old" := of_decide_eq_true hp
  have hstep : processStep (.estimateGas staleEnv "execution reverted: \"Price data too old\"")
      (.priced none) w =
        .ok (.stopped none (.settlementFailed
          (settleHint "execution reverted: \"Price data too old\"")), w) := by
    have hv : staleEnv.value = 0 := rfl
    rw [processStep, Checked.ensure_bind_of_pos hv, he]
    rfl
  refine ⟨w, _, hw, hstep, (settle_hints hstep fun e' he' => ?_).2.2.2⟩
  rw [he] at he'
  cases he'
  -- The message includes the reason, and none of the three texts.
  intro text htext
  have hnone : includes "execution reverted: \"Price data too old\"" text = false ∧
      includes "Price data too old" text = false := by
    revert text
    decide
  rw [hnone.1]
  refine ⟨fun h => (by cases h), ?_⟩
  rintro ⟨reason, hreason, hincludes⟩
  cases hreason
  rw [hnone.2] at hincludes
  cases hincludes

end Hints

/-! ## A sample run -/

/-- Two processes that settle a market, and one that claims for the long. -/
def sampleProcesses (k : ℕ) : ProcessState := if k < 2 then .settler else .claimer 2

/-- The processes run after the opening of the sample run. Both of the first two send a transaction
that settles the market, and the first one of these is mined before. -/
def sampleTurns : List (Turn ℕ ProcessCall Tx) :=
  [.client 0 (.getContractState 1700604801), .client 1 (.getContractState 1700604801),
    .client 0 (.getCurrentGasPrice sampleSettlement.env),
    .client 1 (.getCurrentGasPrice sampleSettlement.env),
    .client 0 (.estimateGas sampleSettlement.env ""),
    .client 1 (.estimateGas sampleSettlement.env ""),
    .client 0 (.settleContract sampleSettlement.env ""),
    .client 1 (.settleContract sampleSettlement.env "transaction execution reverted"),
    .client 0 (.getContractState 1700604801),
    .client 2 (.getContractState 1700604801), .client 2 .getPosition, .client 2 .calculatePayout,
    .client 2 (.claimPayout sampleClaim.env none)]

/-- The processes of the sample, from a market on. -/
def launchProcesses (turns : List (Turn ℕ ProcessCall Tx)) :
    Except Revert (World × Joint World ProcessState ℕ) := do
  let w ← launch sampleDeployment sampleOpening
  let s ← runAll processes.step turns ⟨w, sampleProcesses⟩
  return (w, s)

/-- What a launch of the processes ends in is a run of them, from their starts. -/
theorem launchProcesses_eq_ok {turns : List (Turn ℕ ProcessCall Tx)} {w : World}
    {s : Joint World ProcessState ℕ} (h : launchProcesses turns = .ok (w, s)) :
    Reachable w ∧ (∀ k, (sampleProcesses k).isStart = true) ∧
      Run processes.step ⟨w, sampleProcesses⟩ turns s := by
  obtain ⟨hw, run⟩ := run_of_launch h
  refine ⟨reachable_of_launch hw, fun k => ?_, run⟩
  unfold sampleProcesses
  split_ifs <;> rfl

/-- The first process settles the market, and the third one prints the same settlement. -/
theorem settlements_agree_sample :
    ∃ w s, launchProcesses sampleTurns = .ok (w, s) ∧ (s.locals 0).settledIt = true ∧
      (s.locals 1).settledIt = false ∧ s.shared.market.settlementPrice = 20000000000 ∧
      (s.locals 0).printed = (s.locals 2).printed := by
  obtain ⟨⟨w, s⟩, hs, hp⟩ := Checked.exists_of_any (x := launchProcesses sampleTurns)
    (p := fun r => (r.2.locals 0).settledIt && !(r.2.locals 1).settledIt &&
      decide ((r.2.locals 0).printed = some ⟨50, 20000000000⟩ ∧
        (r.2.locals 2).printed.isSome = true)) (by decide +kernel)
  simp only [Bool.and_eq_true, Bool.not_eq_true', decide_eq_true_eq] at hp
  obtain ⟨⟨hfirst, hsecond⟩, hprinted, hsome⟩ := hp
  obtain ⟨settlement, hsettlement⟩ := Option.isSome_iff_exists.mp hsome
  obtain ⟨hw, hstart, run⟩ := launchProcesses_eq_ok hs
  obtain ⟨-, hmarket, hsame⟩ := settlements_agree hw hstart run
  refine ⟨w, s, hs, hfirst, hsecond, (hmarket 0 _ hprinted).2.2, ?_⟩
  rw [hprinted, hsettlement, hsame 0 2 _ _ hprinted hsettlement]

/-- The third process has the long paid. -/
theorem claims_pay_as_printed_sample :
    ∃ w s, launchProcesses sampleTurns = .ok (w, s) ∧
      ∃ settlement position payout, s.locals 2 = .paid 2 settlement position payout ∧
        totalOf .claimed 2 s.shared.journal = payout.toNat := by
  obtain ⟨⟨w, s⟩, hs, hp⟩ := Checked.exists_of_any (x := launchProcesses sampleTurns)
    (p := fun r => decide ((r.2.locals 2).paidTo = some 2)) (by decide +kernel)
  have hpaid : (s.locals 2).paidTo = some 2 := of_decide_eq_true hp
  obtain ⟨hw, hstart, run⟩ := launchProcesses_eq_ok hs
  obtain ⟨hpays, -⟩ := claims_pay_as_printed hw hstart run
  cases hk : s.locals 2 with
  | paid trader settlement position payout =>
    rw [hk] at hpaid
    cases hpaid
    exact ⟨w, s, hs, settlement, position, payout, hk, (hpays 2 2 _ _ _ hk).1⟩
  | _ =>
    rw [hk] at hpaid
    cases hpaid

end GasCap
