import GasCap.Effect
import GasCap.Lib.Treasury

/-!
# A market keeps the books of a treasury

`Represents w τ` says that the treasury `τ` has the books of the market in `w`: the pot is the native
balance, the deposits and withdrawals are the movements of the journal by `addLiquidity` and
`removeLiquidity`, what an account deposited and did not withdraw is its entry of
`liquidityProvided`, `totalLiquidity` is the sum of these, and the stakes are the collateral of the
positions with native collateral. Every effect of a call is a step of the treasury
(`Effect.simulates`), so a reachable market is represented by some treasury
(`Reachable.represented`), and the balance of its books is the conservation of the market's funds.
-/

namespace GasCap

open Machine

/-- The native money behind a position. -/
def nativeCollateral (p : Position) : ℕ :=
  if p.exists = true ∧ p.collateralAsset = NATIVE_TOKEN then p.collateral.toNat else 0

/-- The treasury `τ` has the books of the market in `w`. -/
structure Represents (w : World) (τ : Treasury Address) : Prop where
  held : τ.held = w.market.balance
  donated : τ.donated = total .donated w.journal
  paid : τ.paid = total .claimed w.journal
  drained : τ.drained = total .drained w.journal
  added : ∀ a, τ.added a = totalOf .added a w.journal
  removed : ∀ a, τ.removed a = totalOf .removed a w.journal
  stake : ∀ t, τ.stake t = nativeCollateral (w.market.positions t)
  credit : ∀ a, τ.credit a = (w.market.liquidityProvided a).toNat
  pool : w.market.totalLiquidity.toNat = ∑ a, τ.credit a

/-- The books are of the market and the journal alone. -/
theorem Represents.congr {w w' : World} {τ : Treasury Address} (h : Represents w τ)
    (hm : w'.market = w.market) (hj : w'.journal = w.journal) : Represents w' τ := by
  obtain ⟨market, journal, events⟩ := w'
  simp only at hm hj
  subst hm hj
  exact ⟨h.held, h.donated, h.paid, h.drained, h.added, h.removed, h.stake, h.credit, h.pool⟩

/-- The native money behind the position of an order is the value that the order comes with. -/
theorem nativeCollateral_position (o : Order) :
    nativeCollateral o.position = o.nativeAmount.toNat := by
  unfold nativeCollateral Order.position Order.nativeAmount
  split_ifs <;> simp_all

/-- A claim leaves the money behind every position recorded. -/
theorem nativeCollateral_closed (m : Market) (trader t : Address) :
    nativeCollateral ((m.closed trader).positions t) = nativeCollateral (m.positions t) := by
  unfold Market.closed
  rcases eq_or_ne t trader with rfl | h
  · simp only [Function.update_self, nativeCollateral]
  · simp only [Function.update_of_ne h]

/-- An address without a position has no money behind one. -/
theorem nativeCollateral_of_fresh {p : Position} (h : p.exists = false) :
    nativeCollateral p = 0 := by
  unfold nativeCollateral
  simp [h]

/-- A new market has the books of the empty treasury. -/
theorem Fresh.represents {w : World} (h : Fresh w) : Represents w Treasury.empty where
  held := h.balance.symm
  donated := by rw [h.journal]; rfl
  paid := by rw [h.journal]; rfl
  drained := by rw [h.journal]; rfl
  added a := by rw [h.journal]; rfl
  removed a := by rw [h.journal]; rfl
  stake t := by rw [h.positions]; rfl
  credit a := by rw [h.liquidityProvided]; rfl
  pool := by rw [h.totalLiquidity]; simp [Treasury.credit, Treasury.empty]

/-- An opening locks its value as a stake. -/
theorem Represents.opened {env : Env} {o : Order} {w : World} {τ : Treasury Address}
    {events : List Event} (h : Represents w τ) (ho : Openable env o w.market) :
    Represents ⟨{ w.market.opened env.sender o with
      balance := w.market.balance + env.value.toNat },
      ⟨.opened, env.sender, env.value.toNat⟩ :: w.journal, events⟩
      (τ.lock env.sender env.value.toNat) where
  held := by simp only [Treasury.lock, h.held]
  donated := by simp [Treasury.lock, h.donated]
  paid := by simp [Treasury.lock, h.paid]
  drained := by simp [Treasury.lock, h.drained]
  added a := by simp [Treasury.lock, h.added]
  removed a := by simp [Treasury.lock, h.removed]
  stake t := by
    -- A trader has no stake before its first position, so the lock is the whole of it.
    have hs : τ.stake env.sender = 0 := by rw [h.stake, nativeCollateral_of_fresh ho.fresh]
    simp only [Treasury.lock, Market.opened, hs, ho.value_eq, Nat.zero_add]
    rcases eq_or_ne t env.sender with rfl | ht
    · rw [Function.update_self, Function.update_self, nativeCollateral_position]
    · rw [Function.update_of_ne ht, Function.update_of_ne ht, h.stake]
  credit a := by rw [Treasury.credit_lock]; exact h.credit a
  pool := by rw [Treasury.credit_lock]; exact h.pool

/-- A movement adds to what its account has of its flow. -/
theorem totalOf_update {f : Address → ℕ} {flow : Flow} {journal : List Movement}
    (hf : ∀ b, f b = totalOf flow b journal) (a : Address) (n : ℕ) (b : Address) :
    Function.update f a (f a + n) b = totalOf flow b (⟨flow, a, n⟩ :: journal) := by
  simp only [totalOf_cons, true_and]
  rcases eq_or_ne b a with rfl | hne
  · rw [Function.update_self, if_pos rfl, hf, Nat.add_comm]
  · rw [Function.update_of_ne hne, if_neg hne.symm, hf, Nat.zero_add]

/-- A mapping to words that is updated has the numbers of the updated mapping. -/
theorem toNat_update {f : Address → ℕ} {words : Address → Uint256}
    (hf : ∀ b, f b = (words b).toNat) (a : Address) (word : Uint256) (b : Address) :
    Function.update f a word.toNat b = (Function.update words a word b).toNat := by
  rcases eq_or_ne b a with rfl | hne
  · rw [Function.update_self, Function.update_self]
  · rw [Function.update_of_ne hne, Function.update_of_ne hne, hf]

/-- `addLiquidity` deposits its value. -/
theorem Represents.addLiquidity {env : Env} {w : World} {τ : Treasury Address}
    {providers : List Address} {provided totalLiquidity : Uint256} {events : List Event}
    (h : Represents w τ)
    (hp : provided.toNat = (w.market.liquidityProvided env.sender).toNat + env.value.toNat)
    (ht : totalLiquidity.toNat = w.market.totalLiquidity.toNat + env.value.toNat) :
    Represents ⟨{ w.market with
      liquidityProviders := providers
      liquidityProvided := Function.update w.market.liquidityProvided env.sender provided
      totalLiquidity := totalLiquidity
      balance := w.market.balance + env.value.toNat },
      ⟨.added, env.sender, env.value.toNat⟩ :: w.journal, events⟩
      (τ.deposit env.sender env.value.toNat) where
  held := by simp only [Treasury.deposit, h.held]
  donated := by simp [Treasury.deposit, h.donated]
  paid := by simp [Treasury.deposit, h.paid]
  drained := by simp [Treasury.deposit, h.drained]
  added := totalOf_update h.added env.sender env.value.toNat
  removed a := by simp [Treasury.deposit, h.removed]
  stake := h.stake
  credit a := by
    have hentry : τ.credit env.sender + env.value.toNat = provided.toNat := by
      rw [hp, h.credit]
    rw [Treasury.credit_deposit, hentry]
    exact toNat_update h.credit env.sender provided a
  pool := by
    have hsum := Mapping.sum_update (fun _ x => x) τ.credit env.sender
      (τ.credit env.sender + env.value.toNat)
    have hpool := h.pool
    simp only [Treasury.credit_deposit] at hsum ⊢
    omega

/-- `removeLiquidity` withdraws its amount. -/
theorem Represents.removeLiquidity {a : Address} {amount : Uint256} {w : World}
    {τ : Treasury Address} {provided totalLiquidity : Uint256} {events : List Event}
    (h : Represents w τ)
    (hp : provided.toNat + amount.toNat = (w.market.liquidityProvided a).toNat)
    (ht : totalLiquidity.toNat + amount.toNat = w.market.totalLiquidity.toNat)
    (hc : amount.toNat ≤ τ.credit a) (hb : amount.toNat ≤ τ.held) :
    Represents ⟨{ w.market with
      liquidityProvided := Function.update w.market.liquidityProvided a provided
      totalLiquidity := totalLiquidity
      balance := w.market.balance - amount.toNat },
      ⟨.removed, a, amount.toNat⟩ :: w.journal, events⟩
      (τ.withdraw a amount.toNat hc hb) where
  held := by simp only [Treasury.withdraw, h.held]
  donated := by simp [Treasury.withdraw, h.donated]
  paid := by simp [Treasury.withdraw, h.paid]
  drained := by simp [Treasury.withdraw, h.drained]
  added b := by simp [Treasury.withdraw, h.added]
  removed := totalOf_update h.removed a amount.toNat
  stake := h.stake
  credit b := by
    have hcredit := h.credit a
    have hentry : τ.credit a - amount.toNat = provided.toNat := by omega
    rw [Treasury.credit_withdraw, hentry]
    exact toNat_update h.credit a provided b
  pool := by
    have hsum := Mapping.sum_update (fun _ x => x) τ.credit a (τ.credit a - amount.toNat)
    have hpool := h.pool
    simp only [Treasury.credit_withdraw] at hsum ⊢
    omega

/-- `claimPayout` pays out of the pot. -/
theorem Represents.claimPayout {a : Address} {payout : ℕ} {w : World} {τ : Treasury Address}
    {events : List Event} (h : Represents w τ) (hb : payout ≤ τ.held) :
    Represents ⟨{ w.market.closed a with balance := w.market.balance - payout },
      ⟨.claimed, a, payout⟩ :: w.journal, events⟩ (τ.pay payout hb) where
  held := by simp only [Treasury.pay, h.held]
  donated := by simp [Treasury.pay, h.donated]
  paid := by simp [Treasury.pay, h.paid, Nat.add_comm]
  drained := by simp [Treasury.pay, h.drained]
  added b := by simp [Treasury.pay, h.added]
  removed b := by simp [Treasury.pay, h.removed]
  stake t := (h.stake t).trans (nativeCollateral_closed w.market a t).symm
  credit := h.credit
  pool := h.pool

/-- **The market refines the treasury**: what a call does is a step of the books. -/
theorem Effect.simulates {env : Env} {call : Call} {w w' : World} {τ : Treasury Address}
    (h : Represents w τ) (he : Effect env call w w') :
    ∃ τ', Treasury.Step τ τ' ∧ Represents w' τ' := by
  cases he with
  | registerUser _ _ | login _ _ | setCollateralAssetAllowed _ _ | setSettlementAssetAllowed _ _
  | settleContract _ _ _ _ _ _ =>
    exact ⟨τ, .idle τ, h.held, h.donated, h.paid, h.drained, h.added, h.removed, h.stake, h.credit,
      h.pool⟩
  | opened _ openable => exact ⟨_, .lock _ _ _, h.opened openable⟩
  | addLiquidity _ provided_eq total_eq =>
    exact ⟨_, .deposit _ _ _, h.addLiquidity provided_eq total_eq⟩
  | removeLiquidity _ provided_eq total_eq enough =>
    -- The entry of the sender bounds the amount, and the entry is its credit.
    have hc := h.credit env.sender
    have hb := h.held
    exact ⟨_, .withdraw _ _ _ (by omega) (by omega),
      h.removeLiquidity provided_eq total_eq (by omega) (by omega)⟩
  | claimNothing _ _ =>
    refine ⟨τ, .idle τ, h.held, h.donated, h.paid, h.drained, h.added, h.removed, fun t => ?_,
      h.credit, h.pool⟩
    exact (h.stake t).trans (nativeCollateral_closed w.market env.sender t).symm
  | claimPayout _ _ claimable =>
    have hb := claimable.enough
    rw [← h.held] at hb
    exact ⟨_, .pay _ _ hb, h.claimPayout hb⟩
  | emergencyWithdraw _ _ _ =>
    refine ⟨τ.drain, .drain τ, rfl, ?_, ?_, ?_, ?_, ?_, h.stake, h.credit, h.pool⟩
    · simp [Treasury.drain, h.donated]
    · simp [Treasury.drain, h.paid]
    · simp [Treasury.drain, h.drained, h.held, Nat.add_comm]
    · simp [Treasury.drain, h.added]
    · simp [Treasury.drain, h.removed]
  | receive =>
    refine ⟨τ.donate env.value.toNat, .donate τ _, ?_, ?_, ?_, ?_, ?_, ?_, h.stake, h.credit, h.pool⟩
    · simp [Treasury.donate, h.held]
    · simp [Treasury.donate, h.donated, Nat.add_comm]
    · simp [Treasury.donate, h.paid]
    · simp [Treasury.donate, h.drained]
    · simp [Treasury.donate, h.added]
    · simp [Treasury.donate, h.removed]

/-- Some treasury has the books of the market. -/
def Represented (w : World) : Prop := ∃ τ, Represents w τ

/-- A new market's books are a treasury's. -/
theorem deploy_represented {d : Deployment} {w : World} (h : deploy d = .ok w) : Represented w :=
  ⟨Treasury.empty, (deploy_fresh h).represents⟩

/-- A call keeps the books a treasury's. -/
theorem exec_represented {tx : Tx} {w w' : World} (h : Represented w) (he : exec tx w = .ok w') :
    Represented w' := by
  obtain ⟨τ, hτ⟩ := h
  obtain ⟨τ', -, hτ'⟩ := (exec_effect he).simulates hτ
  exact ⟨τ', hτ'⟩

/-- The books of a reachable market are a treasury's. -/
theorem Reachable.represented {w : World} (h : Reachable w) : Represented w := by
  obtain ⟨d, w₀, txs, h₀, run⟩ := h
  exact run.invariant (fun _ _ _ _ hw he => exec_represented hw he) (deploy_represented h₀)

/-- No account has more liquidity than there is in the pool. -/
theorem Represented.entry_le {w : World} (h : Represented w) (a : Address) :
    (w.market.liquidityProvided a).toNat ≤ w.market.totalLiquidity.toNat := by
  obtain ⟨τ, hτ⟩ := h
  have hle := τ.credit_le_sum a
  rw [hτ.pool, ← hτ.credit]
  exact hle

/-- A removal within the entry of its provider and the balance succeeds. -/
theorem Represented.exec_removal {env : Env} {amount : Uint256} {w : World} (h : Represented w)
    (hv : env.value = 0) (hentry : amount ≤ w.market.liquidityProvided env.sender)
    (hbalance : amount.toNat ≤ w.market.balance) :
    ∃ w', exec ⟨env, .removeLiquidity amount, none⟩ w = .ok w' := by
  have hle := h.entry_le env.sender
  rw [BitVec.le_def] at hentry
  obtain ⟨provided, hprovided⟩ := Checked.exists_sub (e := overflow) hentry
  obtain ⟨totalLiquidity, htotal⟩ := Checked.exists_sub (e := overflow) (hentry.trans hle)
  have hprovided := Checked.sub_eq_ok.mp hprovided
  have htotal := Checked.sub_eq_ok.mp htotal
  have heffect : Effect env (.removeLiquidity amount) w ⟨_, _, w.events⟩ :=
    .removeLiquidity hv hprovided htotal hbalance
  obtain ⟨w', hw', -⟩ := exec_of_effect ⟨env, .removeLiquidity amount, none⟩ heffect rfl
  exact ⟨w', hw'⟩

/-! ## Conservation -/

/-- **Conservation of funds**: in every reachable state, the balance and everything paid and drained
are everything donated, the liquidity, and the collateral of every position with native
collateral. -/
theorem funds_conserved {w : World} (h : Reachable w) :
    w.market.balance + total .claimed w.journal + total .drained w.journal =
      total .donated w.journal + w.market.totalLiquidity.toNat +
        ∑ t, nativeCollateral (w.market.positions t) := by
  obtain ⟨τ, hτ⟩ := h.represented
  have hb := τ.balanced
  have hstake : ∑ t, nativeCollateral (w.market.positions t) = ∑ t, τ.stake t :=
    Finset.sum_congr rfl fun t _ => (hτ.stake t).symm
  rw [hτ.held, hτ.paid, hτ.drained, hτ.donated] at hb
  rw [hstake, hτ.pool]
  exact hb

/-- The sample run conserves its funds. -/
theorem funds_conserved_sample :
    ∃ w, launch sampleDeployment sampleRun = .ok w ∧
      w.market.balance + total .claimed w.journal + total .drained w.journal =
        total .donated w.journal + w.market.totalLiquidity.toNat +
          ∑ t, nativeCollateral (w.market.positions t) := by
  obtain ⟨w, hw, -⟩ := exists_launch sampleDeployment sampleRun (fun _ => true)
    (by decide +kernel)
  exact ⟨w, hw, funds_conserved (reachable_of_launch hw)⟩

/-! ## The liquidity ledger -/

/-- What a call adds to the pool, and to the entry of its sender. -/
def Tx.contribution (tx : Tx) : ℤ :=
  match tx.call with
  | .addLiquidity => tx.env.value.toNat
  | .removeLiquidity amount => -amount.toNat
  | _ => 0

/-- What a call adds to the entry of an account. -/
def Tx.contributionOf (a : Address) (tx : Tx) : ℤ := if tx.env.sender = a then tx.contribution else 0

section Contribution

variable {tx : Tx} {w w' : World}

/-- An opening contributes nothing to the pool. -/
theorem contribution_of_order {o : Order} (h : tx.call.order tx.env = some o) :
    tx.contribution = 0 := by
  obtain ⟨env, call, rejection⟩ := tx
  cases call with
  | addLiquidity | removeLiquidity => cases h
  | _ => rfl

/-- A call changes the entry of its sender and the pool by its contribution, or nothing of the
liquidity. -/
theorem exec_liquidity_cases (h : exec tx w = .ok w') :
    (tx.contribution = 0 ∧ w'.market.liquidityProvided = w.market.liquidityProvided ∧
      w'.market.totalLiquidity = w.market.totalLiquidity) ∨
    ∃ provided : Uint256,
      w'.market.liquidityProvided =
        Function.update w.market.liquidityProvided tx.env.sender provided ∧
      (provided.toNat : ℤ) =
        (w.market.liquidityProvided tx.env.sender).toNat + tx.contribution ∧
      (w'.market.totalLiquidity.toNat : ℤ) = w.market.totalLiquidity.toNat + tx.contribution := by
  obtain ⟨env, call, rejection⟩ := tx
  have heffect := exec_effect h
  simp only at heffect
  cases heffect with
  | @addLiquidity _ _ _ totalLiquidity _ provided_eq total_eq =>
    have hcontribution : Tx.contribution ⟨env, .addLiquidity, rejection⟩ = env.value.toNat := rfl
    refine .inr ⟨_, rfl, ?_, ?_⟩
    · rw [hcontribution, provided_eq, Nat.cast_add]
    · show (totalLiquidity.toNat : ℤ) = _
      rw [hcontribution, total_eq, Nat.cast_add]
  | @removeLiquidity amount _ _ _ totalLiquidity _ provided_eq total_eq _ =>
    have hcontribution : Tx.contribution ⟨env, .removeLiquidity amount, rejection⟩ = -amount.toNat := rfl
    refine .inr ⟨_, rfl, ?_, ?_⟩
    · rw [hcontribution]
      show _ = ((w.market.liquidityProvided env.sender).toNat : ℤ) + _
      omega
    · show (totalLiquidity.toNat : ℤ) = _
      rw [hcontribution]
      omega
  | opened order _ => exact .inl ⟨contribution_of_order order, rfl, rfl⟩
  | _ => exact .inl ⟨rfl, rfl, rfl⟩

/-- A call changes every entry and the pool by its contribution to them. -/
theorem exec_contribution (h : exec tx w = .ok w') :
    (∀ a, ((w'.market.liquidityProvided a).toNat : ℤ) =
      (w.market.liquidityProvided a).toNat + tx.contributionOf a) ∧
      (w'.market.totalLiquidity.toNat : ℤ) = w.market.totalLiquidity.toNat + tx.contribution := by
  unfold Tx.contributionOf
  rcases exec_liquidity_cases h with ⟨hzero, hentries, htotal⟩ | ⟨provided, hentries, hprovided, htotal⟩
  · rw [hzero, hentries, htotal]
    exact ⟨fun a => by rw [ite_self, add_zero], (add_zero _).symm⟩
  · refine ⟨fun a => ?_, htotal⟩
    rw [hentries]
    rcases eq_or_ne tx.env.sender a with rfl | hne
    · rw [Function.update_self, if_pos rfl, hprovided]
    · rw [Function.update_of_ne hne.symm, if_neg hne, add_zero]

end Contribution

/-- **The liquidity ledger**: after every run of a new market, `totalLiquidity` is the sum of all entries
of `liquidityProvided`, each entry is the total of what the calls of its account added minus the total
of what they removed, and no removal that passes its check underflows `totalLiquidity`. -/
theorem liquidity_ledger {d : Deployment} {txs : List Tx} {w₀ w : World} (h₀ : deploy d = .ok w₀)
    (run : Run exec w₀ txs w) :
    w.market.totalLiquidity.toNat = ∑ a, (w.market.liquidityProvided a).toNat ∧
      (∀ a, ((w.market.liquidityProvided a).toNat : ℤ) = (txs.map (Tx.contributionOf a)).sum) ∧
      ∀ a (amount : Uint256), amount ≤ w.market.liquidityProvided a →
        amount ≤ w.market.totalLiquidity := by
  have hrepresented : Represented w := Reachable.represented ⟨d, w₀, txs, h₀, run⟩
  obtain ⟨τ, hτ⟩ := hrepresented
  have hcredit : ∑ a, (w.market.liquidityProvided a).toNat = ∑ a, τ.credit a :=
    Finset.sum_congr rfl fun a _ => (hτ.credit a).symm
  refine ⟨hτ.pool.trans hcredit.symm, fun a => ?_, fun a amount ha => ?_⟩
  · have hsum := run.sum_eq (fun w => ((w.market.liquidityProvided a).toNat : ℤ))
      (Tx.contributionOf a) fun _ _ _ _ he => (exec_contribution he).1 a
    simp only [(deploy_fresh h₀).liquidityProvided] at hsum
    simpa using hsum
  · have hle := Represented.entry_le ⟨τ, hτ⟩ a
    rw [BitVec.le_def] at ha ⊢
    omega

/-- Two providers, the first of which removes a part of its liquidity and provides more later. -/
def providerCalls : List Tx :=
  [⟨quietEnv 4 (10 * ether) 1700000001, .addLiquidity, none⟩,
    ⟨quietEnv 5 ether 1700000002, .addLiquidity, none⟩,
    ⟨quietEnv 4 0 1700000003, .removeLiquidity (3 * ether), none⟩,
    ⟨quietEnv 4 ether 1700000004, .addLiquidity, none⟩]

/-- The ledger of the two providers. -/
theorem liquidity_ledger_sample :
    ∃ w, launch sampleDeployment providerCalls = .ok w ∧
      w.market.totalLiquidity.toNat = ∑ a, (w.market.liquidityProvided a).toNat ∧
      ((w.market.liquidityProvided 4).toNat : ℤ) = 8 * 10^18 ∧
      ((w.market.liquidityProvided 5).toNat : ℤ) = 10^18 := by
  obtain ⟨w, hw, -⟩ := exists_launch sampleDeployment providerCalls (fun _ => true)
    (by decide +kernel)
  obtain ⟨w₀, h₀, run⟩ := launch_eq_ok.mp hw
  obtain ⟨hpool, hentries, -⟩ := liquidity_ledger h₀ run
  exact ⟨w, hw, hpool, hentries 4, hentries 5⟩

end GasCap
