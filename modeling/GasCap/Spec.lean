import GasCap.Contract

/-!
# When each function of a market succeeds

One lemma for each function of `Contract.lean` that changes the state: when it returns a frame, and
which. Where a function's guards are many, they are the fields of a structure (`Openable` for the
openings, `Claimable` for `claimPayout`), and the market that it leaves is a definition of its own
(`Market.opened`, `Market.closed`). `Effect.lean` puts them together to what a call can do.
-/

namespace GasCap

section Functions

variable {env : Env} {m : Market} {frame : Frame}

theorem registerUser_eq_ok {username metadataURI : String} :
    registerUser env username metadataURI m = .ok frame ↔
      (m.users env.sender).isRegistered = false ∧
        frame = ⟨{ m with
          users := Function.update m.users env.sender
            ⟨true, username, metadataURI, env.timestamp, env.timestamp⟩ }, none,
          some (.UserRegistered env.sender username metadataURI)⟩ := by
  rw [registerUser, Checked.ensure_bind_eq_ok, Checked.pure_eq_ok]

theorem login_eq_ok :
    login env m = .ok frame ↔
      (m.users env.sender).isRegistered = true ∧
        frame = ⟨{ m with
          users := Function.update m.users env.sender
            { m.users env.sender with lastLoginAt := env.timestamp } }, none,
          some (.UserLoggedIn env.sender env.timestamp)⟩ := by
  rw [login, onlyRegistered, Checked.ensure_bind_eq_ok, Checked.pure_eq_ok]

theorem setCollateralAssetAllowed_eq_ok {asset : Address} {allowed : Bool} :
    setCollateralAssetAllowed env asset allowed m = .ok frame ↔
      env.sender = m.owner ∧
        frame = ⟨{ m with
          allowedCollateralAssets := Function.update m.allowedCollateralAssets asset allowed }, none,
          none⟩ := by
  rw [setCollateralAssetAllowed, onlyOwner, Checked.ensure_bind_eq_ok, Checked.pure_eq_ok]

theorem setSettlementAssetAllowed_eq_ok {asset : Address} {allowed : Bool} :
    setSettlementAssetAllowed env asset allowed m = .ok frame ↔
      env.sender = m.owner ∧
        frame = ⟨{ m with
          allowedSettlementAssets := Function.update m.allowedSettlementAssets asset allowed }, none,
          none⟩ := by
  rw [setSettlementAssetAllowed, onlyOwner, Checked.ensure_bind_eq_ok, Checked.pure_eq_ok]

/-! ## Openings -/

/-- The native collateral of an order, which is the value that it must come with. -/
def Order.nativeAmount (o : Order) : Uint256 :=
  if o.collateralAsset = NATIVE_TOKEN then o.collateralAmount else 0

/-- What an opening call requires. -/
structure Openable (env : Env) (o : Order) (m : Market) : Prop where
  beforeExpiry : env.timestamp < m.expiryTimestamp
  notSettled : m.isSettled = false
  registered : (m.users env.sender).isRegistered = true
  quantity_pos : 0 < o.quantity
  leverage_pos : 0 < o.leverage
  fresh : (m.positions env.sender).exists = false
  collateral_allowed : m.allowedCollateralAssets o.collateralAsset = true
  settlement_allowed : m.allowedSettlementAssets o.settlementAsset = true
  collateral_pos : 0 < o.collateralAmount
  value_eq : env.value = o.nativeAmount
  limit_pos : o.entryType = .LIMIT → 0 < o.limitPrice
  stop_pos : o.entryType = .STOP → 0 < o.stopPrice

/-- The market after an opening. -/
def Market.opened (m : Market) (trader : Address) (o : Order) : Market :=
  { m with
    positions := Function.update m.positions trader o.position
    participants := m.participants ++ [trader]
    isActiveTrader := Function.update m.isActiveTrader trader true
    activeTraders :=
      if m.isActiveTrader trader then m.activeTraders else m.activeTraders ++ [trader] }

/-- Tracking a trader is one update of the participants and the active traders. -/
theorem track_eq (m : Market) (trader : Address) (o : Order) :
    { m with positions := Function.update m.positions trader o.position }.track trader =
      m.opened trader o := by
  unfold Market.track Market.opened
  by_cases h : m.isActiveTrader trader = true
  · have hself : Function.update m.isActiveTrader trader true = m.isActiveTrader := by
      rw [← h, Function.update_eq_self]
    simp [h, hself]
  · simp [h]

theorem checkCollateral_eq_ok {o : Order} {u : Unit} :
    checkCollateral env o = .ok u ↔ 0 < o.collateralAmount ∧ env.value = o.nativeAmount := by
  unfold checkCollateral Order.nativeAmount
  split_ifs <;> rw [Checked.ensure_bind_eq_ok, Checked.ensure_eq_ok]

theorem checkEntry_eq_ok {o : Order} {u : Unit} :
    checkEntry o = .ok u ↔
      (o.entryType = .LIMIT → 0 < o.limitPrice) ∧ (o.entryType = .STOP → 0 < o.stopPrice) := by
  unfold checkEntry
  split <;> simp_all [Checked.ensure_eq_ok]

theorem _openPosition_eq_ok {o : Order} :
    _openPosition env o m = .ok frame ↔
      Openable env o m ∧
        frame = ⟨m.opened env.sender o, none,
          some (.FuturesMinted env.sender o.isLong o.quantity o.collateralAmount o.leverage
            o.marginMode o.entryType o.limitPrice o.stopPrice o.collateralAsset
            o.settlementAsset)⟩ := by
  simp only [_openPosition, GasCap.beforeExpiry, GasCap.notSettled, onlyRegistered,
    Checked.ensure_bind_eq_ok, Checked.bind_eq_ok (x := checkCollateral _ _),
    Checked.bind_eq_ok (x := checkEntry _), checkCollateral_eq_ok, checkEntry_eq_ok,
    Checked.pure_eq_ok, track_eq]
  constructor
  · rintro ⟨h1, h2, h3, h4, h5, h6, h7, h8, -, ⟨h9, h10⟩, -, ⟨h11, h12⟩, hframe⟩
    exact ⟨⟨h1, h2, h3, h4, h5, h6, h7, h8, h9, h10, h11, h12⟩, hframe⟩
  · rintro ⟨h, hframe⟩
    exact ⟨h.beforeExpiry, h.notSettled, h.registered, h.quantity_pos, h.leverage_pos, h.fresh,
      h.collateral_allowed, h.settlement_allowed, (), ⟨h.collateral_pos, h.value_eq⟩, (),
      ⟨h.limit_pos, h.stop_pos⟩, hframe⟩

/-! ## Liquidity -/

theorem addLiquidity_eq_ok :
    addLiquidity env m = .ok frame ↔
      0 < env.value ∧ ∃ provided totalLiquidity : Uint256,
        provided.toNat = (m.liquidityProvided env.sender).toNat + env.value.toNat ∧
        totalLiquidity.toNat = m.totalLiquidity.toNat + env.value.toNat ∧
        frame = ⟨{ m with
          liquidityProviders :=
            if m.liquidityProvided env.sender = 0 then m.liquidityProviders ++ [env.sender]
            else m.liquidityProviders
          liquidityProvided := Function.update m.liquidityProvided env.sender provided
          totalLiquidity := totalLiquidity }, none,
          some (.LiquidityAdded env.sender env.value)⟩ := by
  rw [addLiquidity, Checked.ensure_bind_eq_ok]
  simp only [Checked.bind_eq_ok, Checked.add_eq_ok, Checked.pure_eq_ok, ← exists_and_left]

theorem removeLiquidity_eq_ok {amount : Uint256} :
    removeLiquidity env amount m = .ok frame ↔
      ∃ provided totalLiquidity : Uint256,
        provided.toNat + amount.toNat = (m.liquidityProvided env.sender).toNat ∧
        totalLiquidity.toNat + amount.toNat = m.totalLiquidity.toNat ∧
        frame = ⟨{ m with
          liquidityProvided := Function.update m.liquidityProvided env.sender provided
          totalLiquidity := totalLiquidity },
          some ⟨.removed, env.sender, amount.toNat⟩,
          some (.LiquidityRemoved env.sender amount)⟩ := by
  rw [removeLiquidity, Checked.ensure_bind_eq_ok]
  simp only [Checked.bind_eq_ok, Checked.sub_eq_ok, Checked.pure_eq_ok]
  constructor
  · rintro ⟨-, provided, hp, totalLiquidity, ht, hframe⟩
    exact ⟨provided, totalLiquidity, hp, ht, hframe⟩
  · rintro ⟨provided, totalLiquidity, hp, ht, hframe⟩
    -- The check of the entry follows from the difference, which does not underflow.
    refine ⟨?_, provided, hp, totalLiquidity, ht, hframe⟩
    rw [BitVec.le_def]
    omega

/-! ## Settlement -/

theorem settleContract_eq_ok :
    settleContract env m = .ok frame ↔
      ∃ price timestamp : Uint256,
        m.expiryTimestamp ≤ env.timestamp ∧ m.isSettled = false ∧
        _getGasPriceWithFallback env = .ok (price, timestamp) ∧
        3600 ≤ m.expiryTimestamp.toNat ∧ m.expiryTimestamp.toNat ≤ timestamp.toNat + 3600 ∧
        frame = ⟨{ m with
          settlementPrice := price, settlementTimestamp := timestamp, isSettled := true }, none,
          some (.ContractSettled price timestamp)⟩ := by
  have h3600 : (3600 : Uint256).toNat = 3600 := rfl
  simp only [settleContract, GasCap.afterExpiry, GasCap.notSettled, Checked.ensure_bind_eq_ok,
    Checked.bind_eq_ok (x := _getGasPriceWithFallback _), Checked.bind_eq_ok (x := checkedSub _ _),
    Checked.sub_eq_ok, Checked.pure_eq_ok, h3600, BitVec.le_def, Prod.exists]
  constructor
  · rintro ⟨h1, h2, price, timestamp, hprice, oldest, hold, hle, hframe⟩
    exact ⟨price, timestamp, h1, h2, hprice, by omega, by omega, hframe⟩
  · rintro ⟨price, timestamp, h1, h2, hprice, hexp, hle, hframe⟩
    obtain ⟨oldest, hsub⟩ :=
      Checked.exists_sub (e := overflow) (x := m.expiryTimestamp) (y := 3600) hexp
    have hold := Checked.sub_eq_ok.mp hsub
    rw [h3600] at hold
    exact ⟨h1, h2, price, timestamp, hprice, oldest, hold, by omega, hframe⟩

/-- The market after a claim. -/
def Market.closed (m : Market) (trader : Address) : Market :=
  { m with
    positions := Function.update m.positions trader
      { m.positions trader with isClaimed := true, isActive := false }
    isActiveTrader := Function.update m.isActiveTrader trader false }

/-- Closing a position is one update of the positions and the active traders. -/
theorem close_eq (m : Market) (trader : Address) : m.close trader = m.closed trader := by
  unfold Market.close Market.closed
  by_cases h : m.isActiveTrader trader = true
  · simp [h]
  · have hself : Function.update m.isActiveTrader trader false = m.isActiveTrader := by
      rw [← Bool.eq_false_iff.mpr h, Function.update_eq_self]
    simp [h, hself]

/-- What `claimPayout` requires to pay `payout`. -/
structure Claimable (m : Market) (trader : Address) (payout : Uint256) : Prop where
  settled : m.isSettled = true
  position : (m.positions trader).exists = true
  unclaimed : (m.positions trader).isClaimed = false
  payout_eq : calculatePayout m trader = .ok payout
  native : 0 < payout → (m.positions trader).settlementAsset = NATIVE_TOKEN
  enough : payout.toNat ≤ m.balance

theorem claimPayout_eq_ok :
    claimPayout env m = .ok frame ↔
      ∃ payout, Claimable m env.sender payout ∧
        frame = ⟨m.closed env.sender,
          if 0 < payout then some ⟨.claimed, env.sender, payout.toNat⟩ else none,
          if 0 < payout then some (.PayoutClaimed env.sender payout) else none⟩ := by
  simp only [claimPayout, GasCap.settled, Checked.ensure_bind_eq_ok,
    Checked.bind_eq_ok (x := calculatePayout _ _), close_eq]
  constructor
  · rintro ⟨h1, h2, h3, payout, h4, hrest⟩
    refine ⟨payout, ?_⟩
    -- The two guards on the transfer are checked only where there is something to transfer.
    split_ifs at hrest with hpos
    · rw [Checked.ensure_bind_eq_ok, Checked.ensure_bind_eq_ok, Checked.pure_eq_ok] at hrest
      obtain ⟨h5, h6, hframe⟩ := hrest
      rw [if_pos hpos, if_pos hpos]
      exact ⟨⟨h1, h2, h3, h4, fun _ => h5, h6⟩, hframe⟩
    · rw [Checked.pure_eq_ok] at hrest
      rw [if_neg hpos, if_neg hpos]
      have hzero : payout.toNat = 0 := by
        rw [BitVec.lt_def] at hpos
        simpa using hpos
      exact ⟨⟨h1, h2, h3, h4, fun h => absurd h hpos, by omega⟩, hrest⟩
  · rintro ⟨payout, h, hframe⟩
    refine ⟨h.settled, h.position, h.unclaimed, payout, h.payout_eq, ?_⟩
    split_ifs at hframe ⊢ with hpos
    · rw [Checked.ensure_bind_eq_ok, Checked.ensure_bind_eq_ok, Checked.pure_eq_ok]
      exact ⟨h.native hpos, h.enough, hframe⟩
    · rw [Checked.pure_eq_ok]
      exact hframe

theorem emergencyWithdraw_eq_ok :
    emergencyWithdraw env m = .ok frame ↔
      env.sender = m.owner ∧ m.isSettled = false ∧
        frame = ⟨m, some ⟨.drained, m.owner, m.balance⟩, none⟩ := by
  rw [emergencyWithdraw, onlyOwner, GasCap.notSettled, Checked.ensure_bind_eq_ok,
    Checked.ensure_bind_eq_ok, Checked.pure_eq_ok]

end Functions

end GasCap
