import GasCap.Books
import GasCap.Lib.Tally
import GasCap.Reentrancy
import GasCap.Views

/-!
# The scripts of the liquidity providers

`main` of `scripts/add-liquidity.js` and of `scripts/remove-liquidity.js`. Any number of processes run
one of the two against the same market, some of them perhaps for the same account, in any interleaving
with each other and with all other calls of the market.

Each confirmed transaction of a process counts once in the entry of its account and in the pool
(`liquidity_tally`). The check of `remove-liquidity.js` comes before its transaction; it holds until then
unless the account removes liquidity elsewhere (`removal_goes_through`).
-/

namespace GasCap

open Machine

/-! ## The scripts -/

/-- The script and the environment of a process. -/
structure LiquidityRequest where
  /-- Whether it runs `add-liquidity.js`. -/
  adds : Bool
  provider : Address
  amount : Uint256

/-- Why a process stops before its end. -/
inductive LiquidityStop
  /-- "Cannot add liquidity - contract is already settled!" -/
  | alreadySettled
  | insufficientBalance
  /-- "You are trying to remove more liquidity than you provided." -/
  | insufficientLiquidity
  | transactionFailed (error : Revert)
  deriving DecidableEq

/-- How far a process is in its script. -/
inductive LiquidityPhase
  | start
  /-- `add-liquidity.js` has found the market unsettled and the balance sufficient. -/
  | ready
  /-- `remove-liquidity.js` has read the entry of its account. -/
  | read (provided : Uint256)
  | checked
  | estimated
  /-- "Transaction confirmed" -/
  | confirmed
  | stated (totalLiquidity : Uint256)
  | reported (totalLiquidity provided : Uint256)
  | stopped (reason : LiquidityStop)

/-- A process, its request, and how far it is. -/
structure LiquidityProcess where
  request : LiquidityRequest
  phase : LiquidityPhase

/-- A process at its start. -/
def LiquidityRequest.process (r : LiquidityRequest) : LiquidityProcess := ⟨r, .start⟩

/-- The calls that the scripts make. The balance of the wallet comes from elsewhere. -/
inductive LiquidityCall
  | getContractState (balance : ℕ)
  | liquidityProvided
  | estimateGas (env : Env)
  | addLiquidity (env : Env)
  | removeLiquidity (env : Env) (rejection : Option Revert)

/-- The next call of a process. A call out of the order of its script is not made. -/
def liquidityStep (call : LiquidityCall) (t : LiquidityProcess) (w : World) :
    Except Revert (LiquidityProcess × World) :=
  let r := t.request
  match call, t.phase with
  | .getContractState balance, .start => do
    Checked.ensure .empty (r.adds = true)
    let state := getContractState w.market
    if state.isSettled then return ({ t with phase := .stopped .alreadySettled }, w)
    else if balance < r.amount.toNat then
      return ({ t with phase := .stopped .insufficientBalance }, w)
    else return ({ t with phase := .ready }, w)
  | .addLiquidity env, .ready => do
    Checked.ensure .empty (r.adds = true ∧ env.value = r.amount ∧ env.sender = r.provider)
    match exec ⟨env, .addLiquidity, none⟩ w with
    | .ok w' => return ({ t with phase := .confirmed }, w')
    | .error e => return ({ t with phase := .stopped (.transactionFailed e) }, w)
  | .liquidityProvided, .start => do
    Checked.ensure .empty (r.adds = false)
    return ({ t with phase := .read (liquidityProvided r.provider w.market) }, w)
  -- Of the state, only the pool is printed, and a warning if the market is settled.
  | .getContractState _, .read provided =>
    if provided < r.amount then return ({ t with phase := .stopped .insufficientLiquidity }, w)
    else return ({ t with phase := .checked }, w)
  | .estimateGas env, .checked => do
    Checked.ensure .empty (env.value = 0 ∧ env.sender = r.provider)
    match exec ⟨env, .removeLiquidity r.amount, none⟩ w with
    | .ok _ => return ({ t with phase := .estimated }, w)
    | .error e => return ({ t with phase := .stopped (.transactionFailed e) }, w)
  | .removeLiquidity env rejection, .estimated => do
    Checked.ensure .empty (r.adds = false ∧ env.value = 0 ∧ env.sender = r.provider)
    match exec ⟨env, .removeLiquidity r.amount, rejection⟩ w with
    | .ok w' => return ({ t with phase := .confirmed }, w')
    | .error e => return ({ t with phase := .stopped (.transactionFailed e) }, w)
  | .getContractState _, .confirmed =>
    return ({ t with phase := .stated (getContractState w.market).totalLiquidity }, w)
  | .liquidityProvided, .stated totalLiquidity =>
    return ({ t with phase := .reported totalLiquidity (liquidityProvided r.provider w.market) }, w)
  | _, _ => .error .empty

/-- Processes of liquidity providers, among all other calls of the market. -/
def providers : Clients World LiquidityProcess LiquidityCall Tx Revert where
  client := liquidityStep
  other := exec

/-- The phases after the transaction of the process. -/
def LiquidityPhase.isConfirmed : LiquidityPhase → Bool
  | .confirmed | .stated _ | .reported _ _ => true
  | _ => false

/-- What a call of a process does. -/
inductive LiquidityEffect (t : LiquidityProcess) (w : World) : LiquidityProcess → World → Prop
  | adds {env w'} (script : t.request.adds = true) (value : env.value = t.request.amount)
      (sender : env.sender = t.request.provider) (before : t.phase = .ready)
      (accepted : exec ⟨env, .addLiquidity, none⟩ w = .ok w') :
      LiquidityEffect t w { t with phase := .confirmed } w'
  | removes {env rejection w'} (script : t.request.adds = false)
      (sender : env.sender = t.request.provider) (before : t.phase = .estimated)
      (accepted : exec ⟨env, .removeLiquidity t.request.amount, rejection⟩ w = .ok w') :
      LiquidityEffect t w { t with phase := .confirmed } w'
  | read (before : t.phase.isConfirmed = false) :
      LiquidityEffect t w
        { t with phase := .read (w.market.liquidityProvided t.request.provider) } w
  | checked {provided} (before : t.phase = .read provided) (enough : t.request.amount ≤ provided) :
      LiquidityEffect t w { t with phase := .checked } w
  | estimated (before : t.phase = .checked) : LiquidityEffect t w { t with phase := .estimated } w
  | ready (before : t.phase.isConfirmed = false) : LiquidityEffect t w { t with phase := .ready } w
  | reports {phase} (before : t.phase.isConfirmed = true) (after : phase.isConfirmed = true) :
      LiquidityEffect t w { t with phase := phase } w
  | stops {reason} (before : t.phase.isConfirmed = false) :
      LiquidityEffect t w { t with phase := .stopped reason } w

/-- A call of a process has its effect. -/
theorem liquidityStep_effect {call : LiquidityCall} {t t' : LiquidityProcess} {w w' : World}
    (h : liquidityStep call t w = .ok (t', w')) : LiquidityEffect t w t' w' := by
  have hbefore : ∀ {phase : LiquidityPhase} {b : Bool}, t.phase = phase → phase.isConfirmed = b →
      t.phase.isConfirmed = b := fun heq hphase => by rw [heq, hphase]
  unfold liquidityStep at h
  dsimp only at h
  split at h
  · obtain ⟨-, h⟩ := Checked.ensure_bind_eq_ok.mp h
    split_ifs at h
    · cases h
      exact .stops (hbefore ‹_› rfl)
    · cases h
      exact .stops (hbefore ‹_› rfl)
    · cases h
      exact .ready (hbefore ‹_› rfl)
  · obtain ⟨⟨hscript, hvalue, hsender⟩, h⟩ := Checked.ensure_bind_eq_ok.mp h
    split at h <;> cases h
    · exact .adds hscript hvalue hsender ‹_› ‹_›
    · exact .stops (hbefore ‹_› rfl)
  · obtain ⟨-, h⟩ := Checked.ensure_bind_eq_ok.mp h
    cases h
    exact .read (hbefore ‹_› rfl)
  · split_ifs at h with hshort
    · cases h
      exact .stops (hbefore ‹_› rfl)
    · cases h
      exact .checked ‹_› (BitVec.not_lt.mp hshort)
  · obtain ⟨-, h⟩ := Checked.ensure_bind_eq_ok.mp h
    split at h <;> cases h
    · exact .estimated ‹_›
    · exact .stops (hbefore ‹_› rfl)
  · obtain ⟨⟨hscript, -, hsender⟩, h⟩ := Checked.ensure_bind_eq_ok.mp h
    split at h <;> cases h
    · exact .removes hscript hsender ‹_› ‹_›
    · exact .stops (hbefore ‹_› rfl)
  · cases h
    exact .reports (hbefore ‹_› rfl) rfl
  · cases h
    exact .reports (hbefore ‹_› rfl) rfl
  · cases h

/-! ## What the transactions add and remove -/

/-- What a process has added to the pool. -/
def LiquidityProcess.contribution (t : LiquidityProcess) : ℤ :=
  if t.phase.isConfirmed then
    if t.request.adds then t.request.amount.toNat else -t.request.amount.toNat
  else 0

/-- What a process has added to the entry of an account. -/
def LiquidityProcess.contributionOf (a : Address) (t : LiquidityProcess) : ℤ :=
  if t.request.provider = a then t.contribution else 0

section Contribution

variable {tx : Tx} {t t' : LiquidityProcess} {w w' : World}

/-- A process has contributed nothing before its transaction. -/
theorem contribution_of_unconfirmed (h : t.phase.isConfirmed = false) : t.contribution = 0 := by
  unfold LiquidityProcess.contribution
  rw [h]
  exact if_neg Bool.false_ne_true

/-- The entries and the pool change by what the contribution of the process to them does. -/
structure Counted (t : LiquidityProcess) (w : World) (t' : LiquidityProcess) (w' : World) : Prop where
  request : t'.request = t.request
  entry : ∀ a, ((w'.market.liquidityProvided a).toNat : ℤ) + t.contributionOf a =
    (w.market.liquidityProvided a).toNat + t'.contributionOf a
  pool : (w'.market.totalLiquidity.toNat : ℤ) + t.contribution =
    w.market.totalLiquidity.toNat + t'.contribution

/-- A call that leaves the market, and whether the process is confirmed, is counted. -/
theorem counted_of_kept {phase : LiquidityPhase} (hphase : phase.isConfirmed = t.phase.isConfirmed) :
    Counted t w { t with phase := phase } w := by
  have hkept : ({ t with phase := phase } : LiquidityProcess).contribution = t.contribution := by
    unfold LiquidityProcess.contribution
    rw [hphase]
  refine ⟨rfl, fun a => ?_, by rw [hkept]⟩
  unfold LiquidityProcess.contributionOf
  rw [hkept]

/-- The transaction of a process is counted. -/
theorem counted_of_exec (he : exec tx w = .ok w') (hsender : tx.env.sender = t.request.provider)
    (hbefore : t.phase.isConfirmed = false)
    (hafter : tx.contribution =
      if t.request.adds then (t.request.amount.toNat : ℤ) else -t.request.amount.toNat) :
    Counted t w { t with phase := .confirmed } w' := by
  obtain ⟨hentry, hpool⟩ := exec_contribution he
  have hnothing : t.contribution = 0 := contribution_of_unconfirmed hbefore
  have hconfirmed : ({ t with phase := .confirmed } : LiquidityProcess).contribution =
      tx.contribution := hafter.symm
  refine ⟨rfl, fun a => ?_, ?_⟩
  · unfold LiquidityProcess.contributionOf
    rw [hentry, hconfirmed, hnothing, ite_self, add_zero, Tx.contributionOf, hsender]
  · rw [hpool, hconfirmed, hnothing, add_zero]

/-- Every call of a process is counted. -/
theorem LiquidityEffect.counted (h : LiquidityEffect t w t' w') : Counted t w t' w' := by
  cases h with
  | adds script value sender before accepted =>
    refine counted_of_exec accepted sender (by rw [before]; rfl) ?_
    rw [if_pos script, ← value]
    rfl
  | removes script sender before accepted =>
    refine counted_of_exec accepted sender (by rw [before]; rfl) ?_
    rw [if_neg (by rw [script]; exact Bool.false_ne_true)]
    rfl
  | read before | ready before | stops before => exact counted_of_kept before.symm
  | checked before _ | estimated before => exact counted_of_kept (by rw [before]; rfl)
  | reports before after => exact counted_of_kept (after.trans before.symm)

end Contribution

/-- The entry of an account is a tally of what the processes and the other calls contribute to it. -/
theorem entry_tally (a : Address) :
    Tally providers (fun w => ((w.market.liquidityProvided a).toNat : ℤ))
      (LiquidityProcess.contributionOf a) (Tx.contributionOf a) where
  client h := (liquidityStep_effect h).counted.entry a
  other h := (exec_contribution h).1 a

/-- So is the pool. -/
theorem pool_tally :
    Tally providers (fun w => (w.market.totalLiquidity.toNat : ℤ)) LiquidityProcess.contribution
      Tx.contribution where
  client h := (liquidityStep_effect h).counted.pool
  other h := (exec_contribution h).2

section Run

variable {K : Type*} [DecidableEq K] {s s' : Joint World LiquidityProcess K}
  {turns : List (Turn K LiquidityCall Tx)}

/-- **No update is lost**: in every run of any number of processes of `add-liquidity.js` and
`remove-liquidity.js`, in any interleaving with each other and all other calls of a market, the entry
of every account changes by the amounts of the confirmed processes of this account, added or removed,
and by what the other calls of the account add and remove. The pool changes by all of these. -/
theorem liquidity_tally [Fintype K]
    (hstart : ∀ k, ∃ r : LiquidityRequest, s.locals k = r.process)
    (run : Run providers.step s turns s') :
    (∀ a, ((s'.shared.market.liquidityProvided a).toNat : ℤ) =
      (s.shared.market.liquidityProvided a).toNat + ∑ k, (s'.locals k).contributionOf a +
        broughtBy (Tx.contributionOf a) turns) ∧
      (s'.shared.market.totalLiquidity.toNat : ℤ) =
        s.shared.market.totalLiquidity.toNat + ∑ k, (s'.locals k).contribution +
          broughtBy Tx.contribution turns := by
  -- At their start, the processes have contributed nothing.
  have hnothing : ∀ k, (s.locals k).contribution = 0 := by
    intro k
    obtain ⟨r, hk⟩ := hstart k
    rw [hk]
    rfl
  constructor
  · intro a
    have hsum : ∑ k, (s.locals k).contributionOf a = 0 := by
      refine Finset.sum_eq_zero fun k _ => ?_
      unfold LiquidityProcess.contributionOf
      rw [hnothing, ite_self]
    have htally := (entry_tally a).run run
    rw [hsum, add_zero] at htally
    exact htally
  · have hsum : ∑ k, (s.locals k).contribution = 0 := Finset.sum_eq_zero fun k _ => hnothing k
    have htally := pool_tally.run run
    rw [hsum, add_zero] at htally
    exact htally

/-! ## The check of a removal -/

/-- A turn removes liquidity of an account. A process that has estimated its gas sends its transaction
next. -/
def RemovesFrom (a : Address) (turn : Turn K LiquidityCall Tx) (s : Joint World LiquidityProcess K) :
    Prop :=
  match turn with
  | .client k _ => (s.locals k).phase = .estimated ∧ (s.locals k).request.provider = a
  | .other tx => tx.env.sender = a ∧ ∃ amount, tx.call = .removeLiquidity amount

/-- What the process of a removal has checked holds of the entry of its account. -/
def LiquidityPhase.Sound (r : LiquidityRequest) (phase : LiquidityPhase) (w : World) : Prop :=
  match phase with
  | .read provided => provided ≤ w.market.liquidityProvided r.provider
  | .checked | .estimated => r.amount ≤ w.market.liquidityProvided r.provider
  | _ => True

/-- A call that removes nothing of an account leaves its entry or adds to it. -/
theorem exec_entry_le {tx : Tx} {w w' : World} {a : Address} (he : exec tx w = .ok w')
    (h : ¬ (tx.env.sender = a ∧ ∃ amount, tx.call = .removeLiquidity amount)) :
    w.market.liquidityProvided a ≤ w'.market.liquidityProvided a := by
  have hentry := (exec_contribution he).1 a
  have hnonneg : 0 ≤ tx.contributionOf a := by
    unfold Tx.contributionOf
    split_ifs with hsender
    · have hcall : ∀ amount, tx.call ≠ .removeLiquidity amount := fun amount hamount =>
        h ⟨hsender, amount, hamount⟩
      unfold Tx.contribution
      split
      · exact Int.natCast_nonneg _
      · exact absurd ‹_› (hcall _)
      · exact le_refl _
    · exact le_refl _
  rw [BitVec.le_def]
  omega

/-- So does a turn. -/
theorem turn_entry_le {turn : Turn K LiquidityCall Tx} {a : Address}
    (hstep : providers.step turn s = .ok s') (h : ¬ RemovesFrom a turn s) :
    s.shared.market.liquidityProvided a ≤ s'.shared.market.liquidityProvided a := by
  cases turn with
  | other tx =>
    obtain ⟨w', he, rfl⟩ := Clients.step_other.mp hstep
    exact exec_entry_le he h
  | client k call =>
    have hclient := Clients.client_eq_ok hstep
    generalize s'.shared = w' at hclient ⊢
    generalize s'.locals k = t' at hclient
    cases liquidityStep_effect hclient with
    | adds script value sender before accepted =>
      exact exec_entry_le accepted fun ⟨_, amount, hamount⟩ => by cases hamount
    | removes script sender before accepted =>
      exact exec_entry_le accepted fun ⟨hsender, _⟩ => h ⟨before, sender.symm.trans hsender⟩
    | _ => exact BitVec.le_refl _

/-- What a process has checked stays so, unless another turn removes liquidity of its account. -/
theorem LiquidityPhase.Sound.turn {turn : Turn K LiquidityCall Tx} {k : K} {r : LiquidityRequest}
    (hr : (s.locals k).request = r) (h : (s.locals k).phase.Sound r s.shared)
    (hstep : providers.step turn s = .ok s')
    (hleft : turn.isOf k = true ∨ ¬ RemovesFrom r.provider turn s) :
    (s'.locals k).phase.Sound r s'.shared := by
  rcases Clients.turn_cases (k := k) hstep with ⟨hother, hkept⟩ | ⟨call, -, hown⟩
  · have hle : s.shared.market.liquidityProvided r.provider ≤
        s'.shared.market.liquidityProvided r.provider := by
      rcases hleft with hof | hleft
      · rw [hother] at hof
        cases hof
      · exact turn_entry_le hstep hleft
    rw [hkept]
    unfold LiquidityPhase.Sound at h ⊢
    split at h
    · exact BitVec.le_trans h hle
    · exact BitVec.le_trans h hle
    · exact BitVec.le_trans h hle
    · trivial
  -- The turn is the process's own.
  · subst hr
    generalize s'.shared = w' at hown ⊢
    generalize s'.locals k = t' at hown ⊢
    cases liquidityStep_effect hown with
    | read before => exact BitVec.le_refl _
    | checked before enough =>
      rw [before] at h
      exact BitVec.le_trans enough h
    | estimated before =>
      rw [before] at h
      exact h
    | @reports phase before after =>
      cases phase with
      | confirmed | stated | reported => trivial
      | _ => cases after
    | _ => trivial

/-- A turn of a process leads from a reachable state to one. -/
theorem turn_reachable {turn : Turn K LiquidityCall Tx} (h : Reachable s.shared)
    (hstep : providers.step turn s = .ok s') : Reachable s'.shared := by
  cases turn with
  | other tx =>
    obtain ⟨w', he, rfl⟩ := Clients.step_other.mp hstep
    exact h.exec he
  | client k call =>
    have hclient := Clients.client_eq_ok hstep
    generalize s'.shared = w' at hclient ⊢
    generalize s'.locals k = t' at hclient
    cases liquidityStep_effect hclient with
    | adds script value sender before accepted => exact h.exec accepted
    | removes script sender before accepted => exact h.exec accepted
    | _ => exact h

/-- **The check of a removal holds until its transaction**: in every run of the processes and all other
calls of a market in which no turn but those of a process of `remove-liquidity.js` itself removes
liquidity of its account, the transaction of this process, once it has estimated its gas, is refused
only where the balance is short of the amount or the account does not accept the transfer. -/
theorem removal_goes_through (h : Reachable s.shared) {k : K} {r : LiquidityRequest}
    (hr : s.locals k = r.process)
    (run : GuardedRun providers.step
      (fun turn s => turn.isOf k = true ∨ ¬ RemovesFrom r.provider turn s) s turns s')
    (hk : (s'.locals k).phase = .estimated) {env : Env} {rejection : Option Revert}
    (hsender : env.sender = r.provider) (hvalue : env.value = 0) :
    (∃ w', exec ⟨env, .removeLiquidity r.amount, rejection⟩ s'.shared = .ok w') ↔
      r.amount.toNat ≤ s'.shared.market.balance ∧ rejection = none := by
  have hinv := run.invariant (I := fun s => Reachable s.shared ∧ (s.locals k).request = r ∧
    (s.locals k).phase.Sound r s.shared) ?_ ⟨h, by rw [hr]; rfl, by rw [hr]; trivial⟩
  · obtain ⟨hreach, -, hsound⟩ := hinv
    rw [hk] at hsound
    constructor
    · rintro ⟨w', he⟩
      have heffect := exec_effect he
      simp only at heffect
      cases heffect with
      | opened order _ => cases order
      | removeLiquidity _ _ _ enough =>
        exact ⟨enough, accepts_of_paid rfl he (List.cons_ne_self _ _)⟩
    · rintro ⟨hbalance, rfl⟩
      have hentry : r.amount ≤ s'.shared.market.liquidityProvided env.sender := hsender ▸ hsound
      exact hreach.represented.exec_removal hvalue hentry hbalance
  · rintro turn u u' hleft ⟨hreach, hrequest, hsound⟩ hstep
    refine ⟨turn_reachable hreach hstep, ?_, hsound.turn hrequest hstep hleft⟩
    rcases Clients.turn_cases (k := k) hstep with ⟨-, hkept⟩ | ⟨call, -, hown⟩
    · rw [hkept]
      exact hrequest
    · exact (liquidityStep_effect hown).counted.request.trans hrequest

end Run

/-- The requests of the sample: to add one ether and to remove three, for the same account. -/
def sampleLiquidityRequests (k : Fin 2) : LiquidityRequest :=
  if k = 0 then ⟨true, 4, ether⟩ else ⟨false, 4, 3 * ether⟩

/-- The two processes, in between each other. -/
def sampleLiquidity : List (Turn (Fin 2) LiquidityCall Tx) :=
  [.client 0 (.getContractState (2 * 10^18)), .client 1 .liquidityProvided,
    .client 0 (.addLiquidity (quietEnv 4 ether 1700000006)), .client 1 (.getContractState 0),
    .other ⟨quietEnv 4 ether 1700000007, .addLiquidity, none⟩,
    .client 1 (.estimateGas (quietEnv 4 0 1700000008)),
    .client 1 (.removeLiquidity (quietEnv 4 0 1700000009) none)]

/-- The second process alone, up to its gas estimate. -/
def sampleRemoval : List (Turn (Fin 2) LiquidityCall Tx) :=
  [.client 1 .liquidityProvided, .client 1 (.getContractState 0),
    .other ⟨quietEnv 4 ether 1700000007, .addLiquidity, none⟩,
    .client 1 (.estimateGas (quietEnv 4 0 1700000008))]

/-- The processes of the sample, from a market on. -/
def launchProviders (turns : List (Turn (Fin 2) LiquidityCall Tx)) :
    Except Revert (World × Joint World LiquidityProcess (Fin 2)) := do
  let w ← launch sampleDeployment sampleOpening
  let s ← runAll providers.step turns ⟨w, fun k => (sampleLiquidityRequests k).process⟩
  return (w, s)

/-- What a launch of the processes ends in is a run of them, from their starts. -/
theorem launchProviders_eq_ok {turns : List (Turn (Fin 2) LiquidityCall Tx)} {w : World}
    {s : Joint World LiquidityProcess (Fin 2)} (h : launchProviders turns = .ok (w, s)) :
    Reachable w ∧ Run providers.step ⟨w, fun k => (sampleLiquidityRequests k).process⟩ turns s := by
  obtain ⟨hw, run⟩ := run_of_launch h
  exact ⟨reachable_of_launch hw, run⟩

/-- Both processes are confirmed, and both count in the entry of their account. -/
theorem liquidity_tally_sample :
    ∃ w s, launchProviders sampleLiquidity = .ok (w, s) ∧ (s.locals 0).phase.isConfirmed = true ∧
      (s.locals 1).phase.isConfirmed = true ∧
      ((s.shared.market.liquidityProvided 4).toNat : ℤ) =
        (w.market.liquidityProvided 4).toNat + ∑ k, (s.locals k).contributionOf 4 +
          broughtBy (Tx.contributionOf 4) sampleLiquidity := by
  obtain ⟨⟨w, s⟩, hs, hp⟩ := Checked.exists_of_any (x := launchProviders sampleLiquidity)
    (p := fun r => (r.2.locals 0).phase.isConfirmed && (r.2.locals 1).phase.isConfirmed)
    (by decide +kernel)
  simp only [Bool.and_eq_true] at hp
  obtain ⟨-, run⟩ := launchProviders_eq_ok hs
  exact ⟨w, s, hs, hp.1, hp.2, (liquidity_tally (fun k => ⟨_, rfl⟩) run).1 4⟩

/-- The transaction of the second process goes through. -/
theorem removal_goes_through_sample :
    ∃ w s w', launchProviders sampleRemoval = .ok (w, s) ∧
      exec ⟨quietEnv 4 0 1700000009, .removeLiquidity (3 * ether), none⟩ s.shared = .ok w' := by
  obtain ⟨⟨w, s⟩, hs, hp⟩ := Checked.exists_of_any (x := launchProviders sampleRemoval)
    (p := fun r => match (r.2.locals 1).phase with
      | .estimated => decide ((3 * ether).toNat ≤ r.2.shared.market.balance)
      | _ => false) (by decide +kernel)
  obtain ⟨hw, run⟩ := launchProviders_eq_ok hs
  -- The other turn adds liquidity.
  have hguarded := run.guarded (Q := fun turn s => turn.isOf 1 = true ∨ ¬ RemovesFrom 4 turn s)
    fun turn hturn u => by
      simp only [sampleRemoval, List.mem_cons, List.not_mem_nil, or_false] at hturn
      rcases hturn with rfl | rfl | rfl | rfl
      · exact .inl rfl
      · exact .inl rfl
      · exact .inr fun ⟨_, amount, hamount⟩ => by cases hamount
      · exact .inl rfl
  have hsender : (quietEnv 4 0 1700000009).sender = (sampleLiquidityRequests 1).provider := rfl
  dsimp only at hp
  split at hp
  · obtain ⟨w', he⟩ := (removal_goes_through (k := 1) hw rfl hguarded ‹_› hsender rfl).mpr
      ⟨of_decide_eq_true hp, rfl⟩
    exact ⟨w, s, w', hs, he⟩
  · cases hp

end GasCap
