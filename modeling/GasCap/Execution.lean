import GasCap.Contract
import GasCap.Lib.CallTree
import GasCap.Lib.Machine

/-!
# Executing calls

A `World` is a market with the journal of every movement of native money into and out of it, and the
log of the events that it emitted. No function of the market reads the journal or the log: they are
what an observer of the chain writes down. `enter` runs a call to its end or to its native transfer,
with the money moved and the recipient about to run, and `machine` is the machine of these calls, in
which a recipient may call back. `exec` executes one call whose recipient only accepts or refuses the
transfer, as it does within the gas that `transfer` leaves it.
-/

namespace GasCap

open Machine

/-- The calls that a market can receive. -/
inductive Call
  | registerUser (username metadataURI : String)
  | login
  | setCollateralAssetAllowed (asset : Address) (allowed : Bool)
  | setSettlementAssetAllowed (asset : Address) (allowed : Bool)
  | mintLong (quantity leverage : Uint256) (marginMode : BitVec 8)
  | mintShort (quantity leverage : Uint256) (marginMode : BitVec 8)
  | openCustomPosition (order : CustomOrder)
  | addLiquidity
  | removeLiquidity (amount : Uint256)
  | settleContract
  | claimPayout
  | emergencyWithdraw
  | receive
  deriving DecidableEq

/-- The function that a call runs. -/
def Call.body (env : Env) : Call → Market → Except Revert Frame
  | .registerUser username metadataURI => GasCap.registerUser env username metadataURI
  | .login => GasCap.login env
  | .setCollateralAssetAllowed asset allowed => GasCap.setCollateralAssetAllowed env asset allowed
  | .setSettlementAssetAllowed asset allowed => GasCap.setSettlementAssetAllowed env asset allowed
  | .mintLong quantity leverage marginMode => GasCap.mintLong env quantity leverage marginMode
  | .mintShort quantity leverage marginMode => GasCap.mintShort env quantity leverage marginMode
  | .openCustomPosition order => GasCap.openCustomPosition env order
  | .addLiquidity => GasCap.addLiquidity env
  | .removeLiquidity amount => GasCap.removeLiquidity env amount
  | .settleContract => GasCap.settleContract env
  | .claimPayout => GasCap.claimPayout env
  | .emergencyWithdraw => GasCap.emergencyWithdraw env
  | .receive => GasCap.receive

/-- The way in which a payable call takes native money. The other calls refuse it. -/
def Call.inflow : Call → Option Flow
  | .mintLong .. | .mintShort .. | .openCustomPosition .. => some .opened
  | .addLiquidity => some .added
  | .receive => some .donated
  | _ => none

/-- A call with what it sees of its caller and its block, and what the recipient of its native
transfer, if it makes one, reverts with, if it does. -/
structure Tx where
  env : Env
  call : Call
  rejection : Option Revert

/-- A market, the movements of native money so far, and the events so far, the last ones first. -/
structure World where
  market : Market
  journal : List Movement
  events : List Event

/-- The movement that brings a payable call's value in, and the check that a call that is not
payable comes without any. -/
def arrive (tx : Tx) : Except Revert (List Movement) :=
  match tx.call.inflow with
  | some flow => .ok [⟨flow, tx.env.sender, tx.env.value.toNat⟩]
  | none => do
    Checked.ensure .empty (tx.env.value = 0)
    return []

/-- Carries out the native transfer of a frame, up to the point where the recipient runs. -/
def depart (frame : Frame) (journal : List Movement) (events : List Event) :
    Except Revert (Progress World) :=
  match frame.payment with
  | none => .ok (.done ⟨frame.market, journal, frame.event.toList ++ events⟩)
  | some payment => do
    Checked.ensure .empty (payment.amount ≤ frame.market.balance)
    let market := { frame.market with balance := frame.market.balance - payment.amount }
    -- Only the event remains to be emitted when the recipient returns.
    return .callout ⟨market, payment :: journal, events⟩
      fun w => { w with events := frame.event.toList ++ w.events }

/-- Runs a call to its end or to its native transfer. -/
def enter (tx : Tx) (w : World) : Except Revert (Progress World) := do
  let arrived ← arrive tx
  -- The value is in the balance before the function runs.
  let market := { w.market with balance := w.market.balance + tx.env.value.toNat }
  let frame ← tx.call.body tx.env market
  depart frame (arrived ++ w.journal) w.events

/-- The machine of a market's calls. -/
def machine : CallMachine World Tx Revert where
  enter := enter
  -- `transfer` forwards what its recipient reverts with.
  rejection := Tx.rejection

/-- Executes one call whose recipient makes no calls of its own. -/
def exec (tx : Tx) (w : World) : Except Revert World := machine.step tx w

/-- A market right after its construction. -/
def deploy (d : Deployment) : Except Revert World := do
  let market ← construct d
  return ⟨market, [], []⟩

/-- The states that a market can come to by successful calls. -/
def Reachable (w : World) : Prop :=
  ∃ d w₀ txs, deploy d = .ok w₀ ∧ Run exec w₀ txs w

/-- The state after a deployment and a sequence of calls, or the error of the first that fails. -/
def launch (d : Deployment) (txs : List Tx) : Except Revert World := do
  let w ← deploy d
  runAll exec txs w

/-- What a launch ends in is a run from the deployment. -/
theorem launch_eq_ok {d : Deployment} {txs : List Tx} {w : World} :
    launch d txs = .ok w ↔ ∃ w₀, deploy d = .ok w₀ ∧ Run exec w₀ txs w := by
  simp only [launch, Checked.bind_eq_ok, run_iff_runAll]

/-- What a launch ends in is reachable. -/
theorem reachable_of_launch {d : Deployment} {txs : List Tx} {w : World}
    (h : launch d txs = .ok w) : Reachable w := by
  obtain ⟨w₀, h₀, run⟩ := launch_eq_ok.mp h
  exact ⟨d, w₀, txs, h₀, run⟩

/-- A call leads from a reachable state to one. -/
theorem Reachable.exec {w w' : World} {tx : Tx} (h : Reachable w) (he : exec tx w = .ok w') :
    Reachable w' := by
  obtain ⟨d, w₀, txs, h₀, run⟩ := h
  exact ⟨d, w₀, txs ++ [tx], h₀, run.append (.single trivial he)⟩

/-- A launch that is tested to succeed with `p` ends in a state with `p`. -/
theorem exists_launch (d : Deployment) (txs : List Tx) (p : World → Bool)
    (h : (launch d txs).toOption.any p = true) : ∃ w, launch d txs = .ok w ∧ p w = true :=
  Checked.exists_of_any h

/-! ## A sample run

The setting of the settlement tests in `scripts/test.js`: a market with the strike of 50 gwei and an
expiry of seven days, a long and a short of ten contracts with one ether each, and ten ethers of
liquidity. The registry answers neither call. -/

/-- A call while the registry answers neither call. -/
def quietEnv (sender : Address) (value timestamp : Uint256) : Env :=
  ⟨sender, value, timestamp, 0, .revert, .revert⟩

/-- One ether. -/
def ether : Uint256 := 1000000000000000000

/-- The deployment of the tests. -/
def sampleDeployment : Deployment :=
  ⟨quietEnv 1 0 1700000000, 50, 604800, "Test Market", "Unit test gas futures"⟩

/-- The calls of the tests before the market expires. -/
def sampleOpening : List Tx :=
  [⟨quietEnv 2 0 1700000001, .registerUser "longUser" "", none⟩,
    ⟨quietEnv 3 0 1700000002, .registerUser "shortUser" "", none⟩,
    ⟨quietEnv 2 ether 1700000003, .mintLong 10 1 0, none⟩,
    ⟨quietEnv 3 ether 1700000004, .mintShort 10 1 0, none⟩,
    ⟨quietEnv 4 (10 * ether) 1700000005, .addLiquidity, none⟩]

/-- The settlement of the tests, after expiry. -/
def sampleSettlement : Tx := ⟨quietEnv 1 0 1700604801, .settleContract, none⟩

/-- The long's claim. -/
def sampleClaim : Tx := ⟨quietEnv 2 0 1700604802, .claimPayout, none⟩

/-- The whole scenario of the tests. -/
def sampleRun : List Tx := sampleOpening ++ [sampleSettlement, sampleClaim]

/-! ## Totals of the journal -/

/-- The money that moved in one way. -/
def total (flow : Flow) (journal : List Movement) : ℕ :=
  ((journal.filter fun mv => mv.flow = flow).map Movement.amount).sum

/-- The money that moved in one way from or to one account. -/
def totalOf (flow : Flow) (party : Address) (journal : List Movement) : ℕ :=
  ((journal.filter fun mv => mv.flow = flow ∧ mv.party = party).map Movement.amount).sum

/-- A movement adds to the total of its flow. -/
@[simp] theorem total_cons (flow : Flow) (mv : Movement) (journal : List Movement) :
    total flow (mv :: journal) = (if mv.flow = flow then mv.amount else 0) + total flow journal := by
  unfold total
  by_cases h : mv.flow = flow <;> simp [h]

/-- A movement adds to the total of its flow and its party. -/
@[simp] theorem totalOf_cons (flow : Flow) (party : Address) (mv : Movement)
    (journal : List Movement) :
    totalOf flow party (mv :: journal) =
      (if mv.flow = flow ∧ mv.party = party then mv.amount else 0) +
        totalOf flow party journal := by
  unfold totalOf
  by_cases h : mv.flow = flow ∧ mv.party = party <;> simp [h]

end GasCap
