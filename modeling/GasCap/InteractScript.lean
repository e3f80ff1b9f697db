import GasCap.ListScripts
import GasCap.MintScripts
import GasCap.ResultLines

/-!
# The script that shows a market

`main` of `scripts/interact.js`, which calls the views of a market one after the other and prints what
they return, in any interleaving with all other calls of the market. The views do not fail, but for the
price and the payout, whose sections then print an error and are left. The section on all open
positions calls a function that the contract does not have, so it prints an error without a call.

All that a process prints is what it has read in some state of the run. What it has printed of the
configuration of the market, of its settlement, of the price, of the position, and of the registration
of the account stays true, but for the margin mode, which it prints as cross of every position
(`prints_stay_true`). A payout is calculated after the position was read, and the claim may have come in
between, or long before: then it is zero, and the line on the profit is a loss, whatever the claim has
paid. Otherwise it is that of the position, with the right line up to the precision of `Number`
(`payouts_shown`).
-/

namespace GasCap

open Machine

/-! ## The script -/

/-- The call that a process makes next, and what it has read for the section it is in. -/
inductive InteractPhase
  | contractState
  | gasPrice
  /-- The price has been read, and the strike is to be read once more. -/
  | strike (price : Uint256)
  | marketInfo
  | position
  /-- The position has been printed, and its payout depends on whether the market is settled. -/
  | settlement (position : Position)
  | payout (position : Position)
  | profile
  | done

/-- A process with its account, and what it has printed in its sections. -/
structure InteractProcess where
  account : Address
  phase : InteractPhase
  state : Option ContractState
  /-- The price and its timestamp. -/
  price : Option (Uint256 × Uint256)
  line : Option StrikeLine
  info : Option StaticInfo
  /-- The position, or that there is none. -/
  position : Option (Option PrintedPosition)
  /-- The payout and its profit line, of a position that was printed. -/
  payout : Option (Position × Uint256 × ProfitLine)
  profile : Option UserProfile

/-- A process at its start. -/
def interact (account : Address) : InteractProcess :=
  ⟨account, .contractState, none, none, none, none, none, none, none⟩

/-- The calls that the script makes. -/
inductive InteractCall
  | getContractState
  | getCurrentGasPrice (env : Env)
  | getMarketInfo
  | getPosition
  | calculatePayout
  | getUserProfile

/-- The next call of a process. A call out of the order of the script is not made. -/
def interactStep (call : InteractCall) (t : InteractProcess) (w : World) :
    Except Revert (InteractProcess × World) :=
  match call, t.phase with
  | .getContractState, .contractState =>
    return ({ t with phase := .gasPrice, state := some (getContractState w.market) }, w)
  | .getCurrentGasPrice env, .gasPrice =>
    match getCurrentGasPrice env with
    | .ok (price, timestamp) =>
      return ({ t with phase := .strike price, price := some (price, timestamp) }, w)
    | .error _ => return ({ t with phase := .marketInfo }, w)
  | .getContractState, .strike price =>
    let line := strikeLine price (getContractState w.market).strikePrice
    return ({ t with phase := .marketInfo, line := some line }, w)
  | .getMarketInfo, .marketInfo =>
    return ({ t with phase := .position, info := some (getMarketInfo w.market) }, w)
  | .getPosition, .position =>
    let position := getPosition t.account w.market
    if position.exists = true ∧ 0 < position.quantity then
      let printed := printPosition position
      return ({ t with phase := .settlement position, position := some (some printed) }, w)
    -- "No position found"
    else return ({ t with phase := .profile, position := some none }, w)
  | .getContractState, .settlement position =>
    if (getContractState w.market).isSettled then return ({ t with phase := .payout position }, w)
    else return ({ t with phase := .profile }, w)
  | .calculatePayout, .payout position =>
    match calculatePayout w.market t.account with
    | .ok payout =>
      let line := interactProfit payout position.collateral
      return ({ t with phase := .profile, payout := some (position, payout, line) }, w)
    -- "Payout calculation not available"
    | .error _ => return ({ t with phase := .profile }, w)
  | .getUserProfile, .profile =>
    return ({ t with phase := .done, profile := some (getUserProfile t.account w.market) }, w)
  | _, _ => .error .empty

/-- Processes that run the script, among all other calls of the market. -/
def interactions : Clients World InteractProcess InteractCall Tx Revert where
  client := interactStep
  other := exec

/-- What a call of a process does. -/
inductive InteractEffect (t : InteractProcess) (w : World) : InteractCall → InteractProcess → Prop
  | contractState (before : t.phase = .contractState) :
      InteractEffect t w .getContractState
        { t with phase := .gasPrice, state := some (getContractState w.market) }
  | gasPrice {env price timestamp} (before : t.phase = .gasPrice)
      (price_eq : getCurrentGasPrice env = .ok (price, timestamp)) :
      InteractEffect t w (.getCurrentGasPrice env)
        { t with phase := .strike price, price := some (price, timestamp) }
  | noGasPrice {env} : InteractEffect t w (.getCurrentGasPrice env) { t with phase := .marketInfo }
  | strike {price} (before : t.phase = .strike price) :
      InteractEffect t w .getContractState
        { t with phase := .marketInfo, line := some (strikeLine price w.market.strikePrice) }
  | marketInfo :
      InteractEffect t w .getMarketInfo
        { t with phase := .position, info := some (getMarketInfo w.market) }
  | position («exists» : (w.market.positions t.account).exists = true)
      (quantity : 0 < (w.market.positions t.account).quantity) :
      InteractEffect t w .getPosition
        { t with
          phase := .settlement (w.market.positions t.account)
          position := some (some (printPosition (w.market.positions t.account))) }
  | noPosition (absent : ¬ ((w.market.positions t.account).exists = true ∧
        0 < (w.market.positions t.account).quantity)) :
      InteractEffect t w .getPosition { t with phase := .profile, position := some none }
  | settled {position} (before : t.phase = .settlement position)
      (settled : w.market.isSettled = true) :
      InteractEffect t w .getContractState { t with phase := .payout position }
  | unsettled : InteractEffect t w .getContractState { t with phase := .profile }
  | payout {position payout} (before : t.phase = .payout position)
      (payout_eq : calculatePayout w.market t.account = .ok payout) :
      InteractEffect t w .calculatePayout
        { t with
          phase := .profile
          payout := some (position, payout, interactProfit payout position.collateral) }
  | noPayout : InteractEffect t w .calculatePayout { t with phase := .profile }
  | userProfile :
      InteractEffect t w .getUserProfile
        { t with phase := .done, profile := some (getUserProfile t.account w.market) }

/-- A call of a process changes nothing of the market, and has its effect. -/
theorem interactStep_effect {call : InteractCall} {t t' : InteractProcess} {w w' : World}
    (h : interactStep call t w = .ok (t', w')) : w' = w ∧ InteractEffect t w call t' := by
  unfold interactStep at h
  dsimp only at h
  split at h
  · cases h
    exact ⟨rfl, .contractState ‹_›⟩
  · split at h <;> cases h
    · exact ⟨rfl, .gasPrice ‹_› ‹_›⟩
    · exact ⟨rfl, .noGasPrice⟩
  · cases h
    exact ⟨rfl, .strike ‹_›⟩
  · cases h
    exact ⟨rfl, .marketInfo⟩
  · split_ifs at h with hposition <;> cases h
    · exact ⟨rfl, .position hposition.1 hposition.2⟩
    · exact ⟨rfl, .noPosition hposition⟩
  · split_ifs at h with hs <;> cases h
    · exact ⟨rfl, .settled ‹_› hs⟩
    · exact ⟨rfl, .unsettled⟩
  · split at h <;> cases h
    · exact ⟨rfl, .payout ‹_› ‹_›⟩
    · exact ⟨rfl, .noPayout⟩
  · cases h
    exact ⟨rfl, .userProfile⟩
  · cases h

/-! ## What a process has read -/

/-- What a call has returned to a process. -/
inductive InteractReading
  | contractState (state : ContractState)
  | gasPrice (price timestamp : Uint256)
  | marketInfo (info : StaticInfo)
  | position (printed : PrintedPosition)
  | noPosition
  | userProfile (profile : UserProfile)

/-- This is what the call returns to a process with the account, in a state of the market. -/
def InteractReading.At (account : Address) (call : InteractCall) (w : World) : InteractReading → Prop
  | .contractState state => state = getContractState w.market
  | .gasPrice price timestamp =>
    ∃ env, call = .getCurrentGasPrice env ∧ getCurrentGasPrice env = .ok (price, timestamp)
  | .marketInfo info => info = getMarketInfo w.market
  | .position printed => printed = printPosition (getPosition account w.market)
  | .noPosition => ¬ ((getPosition account w.market).exists = true ∧
      0 < (getPosition account w.market).quantity)
  | .userProfile profile => profile = getUserProfile account w.market

/-- The process has read this for what it has printed. -/
def InteractProcess.HasRead (t : InteractProcess) : InteractReading → Prop
  | .contractState state => t.state = some state
  | .gasPrice price timestamp => t.price = some (price, timestamp)
  | .marketInfo info => t.info = some info
  | .position printed => t.position = some (some printed)
  | .noPosition => t.position = some none
  | .userProfile profile => t.profile = some profile

/-- A call leaves the account of its process. -/
theorem InteractEffect.account_eq {call : InteractCall} {t t' : InteractProcess} {w : World}
    (h : InteractEffect t w call t') : t'.account = t.account := by
  cases h <;> rfl

/-- What a process has read after a call, it has read before or in this call. -/
theorem InteractEffect.reads {call : InteractCall} {t t' : InteractProcess} {w : World}
    (h : InteractEffect t w call t') {reading : InteractReading} (hread : t'.HasRead reading) :
    t.HasRead reading ∨ reading.At t.account call w := by
  cases h with
  | contractState _ =>
    cases reading with
    | contractState state => exact .inr (Option.some.inj hread).symm
    | _ => exact .inl hread
  | gasPrice _ price_eq =>
    cases reading with
    | gasPrice price timestamp =>
      cases hread
      exact .inr ⟨_, rfl, price_eq⟩
    | _ => exact .inl hread
  | marketInfo =>
    cases reading with
    | marketInfo info => exact .inr (Option.some.inj hread).symm
    | _ => exact .inl hread
  | position _ _ =>
    cases reading with
    | position printed => exact .inr (Option.some.inj (Option.some.inj hread)).symm
    | noPosition => cases hread
    | _ => exact .inl hread
  | noPosition absent =>
    cases reading with
    | position printed => cases hread
    | noPosition => exact .inr absent
    | _ => exact .inl hread
  | userProfile =>
    cases reading with
    | userProfile profile => exact .inr (Option.some.inj hread).symm
    | _ => exact .inl hread
  -- The other calls print nothing of what is read.
  | noGasPrice | strike _ | settled _ _ | unsettled | payout _ _ | noPayout =>
    exact .inl (by cases reading <;> exact hread)

/-! ## What stays true of the prints -/

/-- The position of the account is the printed one, up to the marks of its claim, and a printed claim
has been made. -/
structure Shown (account : Address) (position : Position) (m : Market) : Prop where
  «exists» : position.exists = true
  quantity : 0 < position.quantity
  entry : (m.positions account).entry = position.entry
  claimed : position.isClaimed = true → (m.positions account).isClaimed = true

/-- The price has not been read yet. -/
def InteractPhase.isEarly : InteractPhase → Bool
  | .contractState | .gasPrice => true
  | _ => false

/-- What a process has read and is about to use is true. -/
def InteractPhase.Sound (account : Address) (w : World) : InteractPhase → Prop
  | .settlement p => Shown account p w.market
  | .payout p => Shown account p w.market ∧ w.market.isSettled = true
  | _ => True

/-- What a process has printed is true of the market. -/
structure InteractProcess.Sound (t : InteractProcess) (w : World) : Prop where
  phase : t.phase.Sound t.account w
  state : ∀ {state}, t.state = some state → state.Of w.market
  price : ∀ {price timestamp}, t.price = some (price, timestamp) → 20 * 10^9 ≤ price.toNat
  strike : ∀ {price}, t.phase = .strike price → ∃ timestamp, t.price = some (price, timestamp)
  early : t.phase.isEarly = true → t.line = none
  line : ∀ {line}, t.line = some line → ∃ price timestamp, t.price = some (price, timestamp) ∧
    line = strikeLine price w.market.strikePrice
  info : ∀ {info}, t.info = some info → info.Of w.market
  position : ∀ {printed}, t.position = some (some printed) →
    Shown t.account printed.position w.market
  profile : ∀ {profile}, t.profile = some profile → profile.isRegistered = true →
    ∃ lastLoginAt, w.market.users t.account = { profile with lastLoginAt := lastLoginAt }

section Stable

variable {tx : Tx} {w w' : World} {account : Address} {position : Position} {payout : Uint256}

/-- A claim is not taken back. -/
theorem Reachable.claimed_mono (hw : Reachable w) (he : GasCap.exec tx w = .ok w')
    (hc : (w.market.positions account).isClaimed = true) :
    (w'.market.positions account).isClaimed = true :=
  (exec_of_settled (hw.lifecycle.claimed account hc).2 he).claimed hc

/-- A position that was shown is there. -/
theorem Shown.position_exists {m : Market} (h : Shown account position m) :
    (m.positions account).exists = true :=
  (congrArg Position.exists h.entry).trans h.exists

/-- A position stays as it was shown. -/
theorem Shown.step (h : Shown account position w.market) (hw : Reachable w)
    (he : exec tx w = .ok w') : Shown account position w'.market where
  «exists» := h.exists
  quantity := h.quantity
  entry := ((exec_effect he).entry h.position_exists).trans h.entry
  claimed hc := hw.claimed_mono he (h.claimed hc)

/-- What a process has printed stays true, whoever calls the market. -/
theorem InteractProcess.Sound.step {t : InteractProcess} (h : t.Sound w) (hw : Reachable w)
    (he : exec tx w = .ok w') : t.Sound w' where
  phase := by
    have hphase := h.phase
    cases hp : t.phase with
    | settlement position =>
      rw [hp] at hphase
      exact Shown.step hphase hw he
    | payout position =>
      rw [hp] at hphase
      exact ⟨hphase.1.step hw he, (exec_effect he).isSettled_mono hphase.2⟩
    | _ =>
      rw [hp] at hphase
      exact hphase
  state hs := (h.state hs).later (exec_later he)
  price := h.price
  strike := h.strike
  early := h.early
  line := by
    intro line hl
    rw [(exec_effect he).strike_expiry.1]
    exact h.line hl
  info hi := (h.info hi).later (exec_later he)
  position hp := (h.position hp).step hw he
  profile := by
    intro profile hp hr
    obtain ⟨lastLoginAt, hprofile⟩ := h.profile hp hr
    have hregistered : (w.market.users t.account).isRegistered = true := by
      rw [hprofile]
      exact hr
    obtain ⟨lastLoginAt', hafter⟩ := (exec_effect he).profile hregistered
    rw [hprofile] at hafter
    exact ⟨lastLoginAt', hafter⟩

end Stable

/-! ## The calls of a process -/

section Calls

variable {w w' : World} {account : Address} {position : Position} {payout : Uint256}

/-- What `calculatePayout` returns for a position that was shown, by the mark of its claim. -/
theorem Shown.payout_cases {m : Market} (h : Shown account position m) (hs : m.isSettled = true)
    (hpayout : calculatePayout m account = .ok payout) :
    ((m.positions account).isClaimed = true ∧ payout = 0) ∨
      ((m.positions account).isClaimed = false ∧ position.isClaimed = false ∧
        payout.toNat = (Owed m position).toNat) := by
  cases hc : (m.positions account).isClaimed with
  | true =>
    rw [calculatePayout_of_claimed hs hc] at hpayout
    exact .inl ⟨rfl, (Except.ok.inj hpayout).symm⟩
  | false =>
    have hunclaimed : position.isClaimed = false := by
      rw [← Bool.not_eq_true]
      intro hclaimed
      rw [h.claimed hclaimed] at hc
      cases hc
    have hholds : Holds account ⟨m.strikePrice, m.settlementPrice⟩ position m :=
      ⟨⟨hs, rfl, rfl⟩, h.exists, fun hzero => absurd (hzero ▸ h.quantity) (by decide), h.entry⟩
    exact .inr ⟨rfl, hunclaimed, ((hholds.payout_iff hc).mp hpayout).2⟩

/-- What a call of a process prints is true. -/
theorem InteractEffect.sound {call : InteractCall} {t t' : InteractProcess}
    (h : InteractEffect t w call t') (ht : t.Sound w) : t'.Sound w := by
  cases h with
  | contractState before =>
    have hnone : t.line = none := ht.early (by rw [before]; rfl)
    refine { ht with phase := trivial, strike := nofun, early := fun _ => hnone, state := ?_ }
    intro state hstate
    cases hstate
    exact getContractState_of _
  | @gasPrice env price timestamp before price_eq =>
    refine { ht with phase := trivial, early := nofun, price := ?_, strike := ?_, line := ?_ }
    · intro price timestamp heq
      cases heq
      exact _getGasPriceWithFallback_ge price_eq
    · intro price heq
      cases heq
      exact ⟨timestamp, rfl⟩
    · intro line hline
      have hnone : t.line = none := ht.early (by rw [before]; rfl)
      rw [hnone] at hline
      cases hline
  | @strike price before =>
    refine { ht with phase := trivial, strike := nofun, early := nofun, line := ?_ }
    intro line hline
    cases hline
    obtain ⟨timestamp, hprice⟩ := ht.strike before
    exact ⟨price, timestamp, hprice, rfl⟩
  | marketInfo =>
    refine { ht with phase := trivial, strike := nofun, early := nofun, info := ?_ }
    intro info hinfo
    cases hinfo
    exact getMarketInfo_of _
  | position «exists» quantity =>
    have hshown : Shown t.account (w.market.positions t.account) w.market :=
      ⟨«exists», quantity, rfl, id⟩
    refine { ht with phase := hshown, strike := nofun, early := nofun, position := ?_ }
    intro printed hprinted
    cases hprinted
    exact hshown
  | noPosition _ =>
    exact { ht with phase := trivial, strike := nofun, early := nofun, position := nofun }
  | settled before settled =>
    have hshown := ht.phase
    rw [before] at hshown
    exact { ht with phase := ⟨hshown, settled⟩, strike := nofun, early := nofun }
  | noGasPrice | unsettled | payout _ _ | noPayout =>
    exact { ht with phase := trivial, strike := nofun, early := nofun }
  | userProfile =>
    refine { ht with phase := trivial, strike := nofun, early := nofun, profile := ?_ }
    intro profile hprofile hregistered
    cases hprofile
    exact ⟨_, rfl⟩

/-- The payout is printed when it is read. -/
theorem InteractEffect.payout_cases {call : InteractCall} {t t' : InteractProcess}
    (h : InteractEffect t w call t') {line : ProfitLine}
    (hpayout : t'.payout = some (position, payout, line)) :
    t.payout = some (position, payout, line) ∨
      t.phase = .payout position ∧ calculatePayout w.market t.account = .ok payout ∧
        line = interactProfit payout position.collateral := by
  cases h with
  | payout before payout_eq =>
    cases hpayout
    exact .inr ⟨before, payout_eq, rfl⟩
  | _ => exact .inl hpayout

end Calls

/-- **What the processes print stays true**, whoever calls the market. -/
theorem interactions_rely_guarantee :
    RelyGuarantee interactions Reachable (interactions.Moves Reachable) InteractProcess.Sound := by
  refine .of_moves (fun hw he => hw.exec he) ?_ (fun hw ht he => ht.step hw he)
  intro call t t' w w' _ ht h
  obtain ⟨rfl, heffect⟩ := interactStep_effect h
  exact ⟨.inl rfl, heffect.sound ht⟩

/-- The calls of others lead to a later state of the market. -/
theorem later_of_moves {w w' : World}
    (h : Relation.ReflTransGen (interactions.Moves Reachable) w w') : Later w.market w'.market := by
  induction h with
  | refl => exact .refl _
  | tail _ hmoves ih =>
    rcases hmoves with rfl | ⟨-, tx, he⟩
    · exact ih
    · exact ih.trans (exec_later he)

/-- At its start, a process has printed nothing. -/
theorem interact_sound (account : Address) (w : World) : (interact account).Sound w where
  phase := trivial
  state := nofun
  price := nofun
  strike := nofun
  early _ := rfl
  line := nofun
  info := nofun
  position := nofun
  profile := nofun

/-- At the start of a run, no process has printed anything. -/
theorem start_interactions_sound {K : Type*} {s : Joint World InteractProcess K}
    (hstart : ∀ k, ∃ account, s.locals k = interact account) (k : K) :
    (s.locals k).Sound s.shared := by
  obtain ⟨account, hk⟩ := hstart k
  rw [hk]
  exact interact_sound account _

section Run

variable {K : Type*} [DecidableEq K] {s s' : Joint World InteractProcess K}
  {turns : List (Turn K InteractCall Tx)}

/-- What a process has read is what the call returned in a state of the run, to this process. -/
theorem run_interactions_read (h : Reachable s.shared)
    (hstart : ∀ k, ∃ account, s.locals k = interact account)
    (run : Run interactions.step s turns s') {k : K} {reading : InteractReading}
    (hread : (s'.locals k).HasRead reading) :
    interactions.Passes s turns s' k fun call _ w =>
      reading.At (s'.locals k).account call w := by
  have hpasses := interactions_rely_guarantee.passes (k := k)
    (E := fun t => t.account = (s'.locals k).account ∧ t.HasRead reading)
    (R := fun call _ w => reading.At (s'.locals k).account call w) ?_ run h
    (start_interactions_sound hstart) ?_ ⟨rfl, hread⟩
  · exact hpasses.imp fun _ _ _ h => h.1
  · rintro call t t' w w' - - hstep ⟨haccount, hread⟩
    obtain ⟨-, heffect⟩ := interactStep_effect hstep
    rw [heffect.account_eq] at haccount
    rw [← haccount]
    exact (heffect.reads hread).imp_left fun hbefore => ⟨rfl, hbefore⟩
  · rintro ⟨-, hread⟩
    obtain ⟨account, hk⟩ := hstart k
    rw [hk] at hread
    cases reading <;> cases hread

/-- **The payouts that `interact.js` shows**: in every run of any number of processes, in any
interleaving with all other calls of a market, a process that has printed a payout for a position has
read it in some state of the run. Where the position had been claimed there, also if it was printed as
unclaimed, the payout is zero and printed as a loss, whatever the claim paid. Where it was unclaimed,
the payout is the one owed for it at the settlement, which stays that of the market, and the line on the
profit is the one of `claim.js`, or it says break-even where payout and collateral differ by at most one
part in `2^53` of both. -/
theorem payouts_shown (h : Reachable s.shared)
    (hstart : ∀ k, ∃ account, s.locals k = interact account)
    (run : Run interactions.step s turns s') {k : K} {position : Position} {payout : Uint256}
    {line : ProfitLine} (hk : (s'.locals k).payout = some (position, payout, line)) :
    interactions.Passes s turns s' k fun _ t w =>
      t.phase = .payout position ∧
      calculatePayout w.market (s'.locals k).account = .ok payout ∧
      ((w.market.positions (s'.locals k).account).isClaimed = true →
        payout = 0 ∧ line = .loss) ∧
      ((w.market.positions (s'.locals k).account).isClaimed = false →
        position.isClaimed = false ∧ payout.toNat = (Owed s'.shared.market position).toNat ∧
        (line = profitLine payout position.collateral ∨ line = .breakEven ∧
          |(payout.toNat : ℚ) - position.collateral.toNat| ≤
            (payout.toNat + position.collateral.toNat) / 2^53)) := by
  have hpasses := interactions_rely_guarantee.passes (k := k)
    (E := fun t => t.account = (s'.locals k).account ∧ t.payout = some (position, payout, line))
    (R := fun _ t w => Reachable w ∧ t.phase = .payout position ∧
      Shown (s'.locals k).account position w.market ∧ w.market.isSettled = true ∧
      calculatePayout w.market (s'.locals k).account = .ok payout ∧
      line = interactProfit payout position.collateral) ?_ run h
    (start_interactions_sound hstart) ?_ ⟨rfl, hk⟩
  · refine hpasses.imp fun _ t w hread => ?_
    obtain ⟨⟨hw, hphase, hshown, hs, hpayout, rfl⟩, hmoves⟩ := hread
    have haccepted : position.Accepted :=
      (hw.lifecycle.accepted _ hshown.position_exists).of_entry hshown.entry.symm
    refine ⟨hphase, hpayout, fun hclaimed => ?_, fun hunclaimed => ?_⟩
    · rcases hshown.payout_cases hs hpayout with ⟨-, rfl⟩ | ⟨hunclaimed, -⟩
      · exact ⟨rfl, interactProfit_zero haccepted.collateral_pos⟩
      · rw [hclaimed] at hunclaimed
        cases hunclaimed
    · rcases hshown.payout_cases hs hpayout with ⟨hclaimed, -⟩ | ⟨-, hprinted, howed⟩
      · rw [hclaimed] at hunclaimed
        cases hunclaimed
      -- What is owed depends on the terms of the settlement alone, which stay.
      · have hlater : Later w.market s'.shared.market := later_of_moves hmoves
        have hsame : Owed s'.shared.market position = Owed w.market position := by
          unfold Owed Market.priceDiff
          rw [hlater.strikePrice, (hlater.settlement hs).2]
        exact ⟨hprinted, howed.trans (congrArg Int.toNat hsame.symm),
          interactProfit_cases payout position.collateral⟩
  · rintro call t t' w w' hw ht hstep ⟨haccount, hprinted⟩
    obtain ⟨-, heffect⟩ := interactStep_effect hstep
    rw [heffect.account_eq] at haccount
    rw [← haccount]
    rcases heffect.payout_cases hprinted with hbefore | ⟨hphase, hpayout, hline⟩
    · exact .inl ⟨rfl, hbefore⟩
    · have hsound := ht.phase
      rw [hphase] at hsound
      exact .inr ⟨hw, hphase, hsound.1, hsound.2, hpayout, hline⟩
  · rintro ⟨-, hprinted⟩
    obtain ⟨account, hk⟩ := hstart k
    rw [hk] at hprinted
    cases hprinted

/-- **What `interact.js` prints**: in every such run, the states, the price, the information, the
position, and the profile that a process has printed, also that there is no position, are what its
calls returned in states of the run. What it has printed of the configuration of the market, and of its
settlement once there is one, is that of the market at the end; the price was at least 20 gwei, at the
scale of `1e9`, and for a strike of up to 9007199 gwei the line on it compares it with the strike in
exact arithmetic; the position of the account is the printed one but for the marks of its claim, with
any margin mode printed as cross; and a registration has the printed name, metadata, and time. -/
theorem prints_stay_true (h : Reachable s.shared)
    (hstart : ∀ k, ∃ account, s.locals k = interact account)
    (run : Run interactions.step s turns s') (k : K) :
    (∀ reading, (s'.locals k).HasRead reading →
      interactions.Passes s turns s' k fun call _ w =>
        reading.At (s'.locals k).account call w) ∧
    (∀ state, (s'.locals k).state = some state → state.Of s'.shared.market) ∧
    (∀ info, (s'.locals k).info = some info → info.Of s'.shared.market) ∧
    (∀ price timestamp, (s'.locals k).price = some (price, timestamp) → 20 * 10^9 ≤ price.toNat) ∧
    (∀ line, (s'.locals k).line = some line → ∃ price timestamp,
      (s'.locals k).price = some (price, timestamp) ∧
      line = strikeLine price s'.shared.market.strikePrice ∧
      (s'.shared.market.strikePrice.toNat ≤ 9007199 →
        (line = .longFavorable ↔ s'.shared.market.strikePrice.toNat * 10^9 < price.toNat) ∧
        (line = .shortFavorable ↔ price.toNat < s'.shared.market.strikePrice.toNat * 10^9))) ∧
    (∀ printed, (s'.locals k).position = some (some printed) →
      printed.position.exists = true ∧ printed.marginMode = .CROSS ∧
        (s'.shared.market.positions (s'.locals k).account).entry = printed.position.entry ∧
        (printed.position.isClaimed = true →
          (s'.shared.market.positions (s'.locals k).account).isClaimed = true)) ∧
    ∀ profile, (s'.locals k).profile = some profile → profile.isRegistered = true →
      ∃ lastLoginAt, s'.shared.market.users (s'.locals k).account =
        { profile with lastLoginAt := lastLoginAt } := by
  have hread : ∀ reading, (s'.locals k).HasRead reading →
      interactions.Passes s turns s' k fun call _ w => reading.At (s'.locals k).account call w :=
    fun _ hread => run_interactions_read h hstart run hread
  obtain ⟨-, hsound⟩ :=
    interactions_rely_guarantee.run run h (start_interactions_sound hstart)
  refine ⟨hread, fun _ => (hsound k).state, fun _ => (hsound k).info, fun _ _ => (hsound k).price,
    fun line hline => ?_, fun printed hprinted => ?_, fun _ => (hsound k).profile⟩
  · obtain ⟨price, timestamp, hprice, rfl⟩ := (hsound k).line hline
    refine ⟨price, timestamp, hprice, rfl, fun hstrike => ?_⟩
    obtain ⟨hlong, hshort, -⟩ := strikeLine_iff price s'.shared.market.strikePrice
    rw [hlong, hshort]
    exact roundedAsExact_of_le price hstrike
  · have hshown := (hsound k).position hprinted
    obtain ⟨before, call, after, s₁, s₂, -, -, -, -, hposition⟩ :=
      hread (.position printed) hprinted
    have hmode : printed.marginMode = .CROSS := by
      rw [show printed = printPosition _ from hposition]
      exact marginModeLine_decoded _
    exact ⟨hshown.exists, hmode, hshown.entry, hshown.claimed⟩

end Run

/-- A process for the long of the sample run, whose claim is confirmed while the process prints. -/
def sampleInteraction : List (Turn ℕ InteractCall Tx) :=
  [.client 0 .getContractState, .client 0 (.getCurrentGasPrice sampleClaim.env),
    .client 0 .getContractState, .client 0 .getMarketInfo, .client 0 .getPosition,
    .other sampleClaim, .client 0 .getContractState, .client 0 .calculatePayout,
    .client 0 .getUserProfile]

/-- The processes of the sample, from the settled market on. -/
def launchInteractions (turns : List (Turn ℕ InteractCall Tx)) :
    Except Revert (World × Joint World InteractProcess ℕ) := do
  let w ← launch sampleDeployment (sampleOpening ++ [sampleSettlement])
  let s ← runAll interactions.step turns ⟨w, fun _ => interact 2⟩
  return (w, s)

/-- What a launch of the processes ends in is a run of them, from their starts. -/
theorem launchInteractions_eq_ok {turns : List (Turn ℕ InteractCall Tx)} {w : World}
    {s : Joint World InteractProcess ℕ} (h : launchInteractions turns = .ok (w, s)) :
    Reachable w ∧ Run interactions.step ⟨w, fun _ => interact 2⟩ turns s := by
  obtain ⟨hw, run⟩ := run_of_launch h
  exact ⟨reachable_of_launch hw, run⟩

/-- The long has a profit, and is shown a loss. -/
theorem payouts_shown_sample :
    ∃ w s position, launchInteractions sampleInteraction = .ok (w, s) ∧
      (s.locals 0).payout = some (position, 0, .loss) ∧ position.isClaimed = false ∧
      position.collateral.toNat < totalOf .claimed 2 s.shared.journal ∧
      interactions.Passes ⟨w, fun _ => interact 2⟩ sampleInteraction s 0 fun _ _ w =>
        calculatePayout w.market (s.locals 0).account = .ok 0 ∧
        (w.market.positions (s.locals 0).account).isClaimed = true := by
  obtain ⟨⟨w, s⟩, hs, hp⟩ := Checked.exists_of_any (x := launchInteractions sampleInteraction)
    (p := fun r => (r.2.locals 0).payout.any fun (position, payout, line) =>
      decide (payout = 0 ∧ line = .loss ∧ position.isClaimed = false ∧
        0 < (Owed r.2.shared.market position).toNat ∧
        position.collateral.toNat < totalOf .claimed 2 r.2.shared.journal)) (by decide +kernel)
  obtain ⟨⟨position, payout, line⟩, hprinted, hp⟩ := (Option.any_eq_true _ _).mp hp
  obtain ⟨rfl, rfl, hunclaimed, howed, hpaid⟩ := of_decide_eq_true hp
  obtain ⟨hw, run⟩ := launchInteractions_eq_ok hs
  refine ⟨w, s, position, hs, hprinted, hunclaimed, hpaid, ?_⟩
  refine (payouts_shown hw (fun _ => ⟨2, rfl⟩) run hprinted).imp fun _ _ w hread => ?_
  obtain ⟨-, hpayout, -, hopen⟩ := hread
  refine ⟨hpayout, ?_⟩
  by_contra hclaimed
  obtain ⟨-, hzero, -⟩ := hopen (Bool.eq_false_of_not_eq_true hclaimed)
  rw [← hzero] at howed
  exact absurd howed (by decide)

/-- The sample process has printed the settlement, which it has read. -/
theorem prints_stay_true_sample :
    ∃ w s state, launchInteractions sampleInteraction = .ok (w, s) ∧
      (s.locals 0).state = some state ∧ state.isSettled = true ∧
      s.shared.market.settlementPrice = state.settlementPrice ∧
      interactions.Passes ⟨w, fun _ => interact 2⟩ sampleInteraction s 0 fun _ _ w =>
        state = getContractState w.market := by
  obtain ⟨⟨w, s⟩, hs, hp⟩ := Checked.exists_of_any (x := launchInteractions sampleInteraction)
    (p := fun r => (r.2.locals 0).state.any fun state => state.isSettled) (by decide +kernel)
  obtain ⟨state, hprinted, hsettled⟩ := (Option.any_eq_true _ _).mp hp
  obtain ⟨hw, run⟩ := launchInteractions_eq_ok hs
  obtain ⟨hread, hstate, -⟩ := prints_stay_true hw (fun _ => ⟨2, rfl⟩) run 0
  exact ⟨w, s, state, hs, hprinted, hsettled, ((hstate state hprinted).settlement hsettled).2,
    hread (.contractState state) hprinted⟩

end GasCap
