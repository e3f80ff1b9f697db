import GasCap.Coverage

/-!
# The order of claims

A claim is paid out of a balance that other claims are paid from, and changes nothing else that
theirs depend on. So the claims of a set of traders succeed in every order, and lead to the same
market (`Market.redeemed`), if the balance covers the sum of their payouts, and in no order if it does
not (`claims_order_independent`). The traders are those whose claim can only fail for lack of money
(`Redeemable`).
-/

namespace GasCap

open Machine

/-- A trader whose claim can only fail for lack of money. -/
structure Redeemable (m : Market) (t : Address) : Prop where
  awaiting : Awaiting m t
  payable : ∃ payout, calculatePayout m t = .ok payout ∧
    (payout = 0 ∨ (m.positions t).settlementAsset = NATIVE_TOKEN)

/-- A claim by a trader that accepts the transfer. -/
structure ClaimCall where
  env : Env
  value_eq : env.value = 0

/-- The call of a claim. -/
def ClaimCall.tx (c : ClaimCall) : Tx := ⟨c.env, .claimPayout, none⟩

/-- The traders of a sequence of claims. -/
def claimants (claims : List ClaimCall) : List Address := claims.map fun c => c.env.sender

/-- The claims are those of the traders in `U`, one of each, in some order. -/
structure IsOrderOf (claims : List ClaimCall) (U : Finset Address) : Prop where
  nodup : (claimants claims).Nodup
  claimants_eq : (claimants claims).toFinset = U

/-- The market after the claims of the traders in `U`. -/
def Market.redeemed (m : Market) (U : Finset Address) : Market :=
  { m with
    positions := fun t =>
      if t ∈ U then { m.positions t with isClaimed := true, isActive := false } else m.positions t
    isActiveTrader := fun t => if t ∈ U then false else m.isActiveTrader t
    balance := m.balance - ∑ t ∈ U, payoutOf m t }

/-- The market after the claim of one trader. -/
def Market.redeem (m : Market) (trader : Address) : Market :=
  { m.closed trader with balance := m.balance - payoutOf m trader }

/-! ## One claim -/

/-- A claim leaves the payout of every other trader. -/
theorem calculatePayout_redeem {m : Market} {trader t : Address} (h : t ≠ trader) :
    calculatePayout (m.redeem trader) t = calculatePayout m t :=
  calculatePayout_congr rfl rfl rfl (closed_positions_of_ne h)

/-- A claim leaves the payout of every other trader. -/
theorem payoutOf_redeem {m : Market} {trader t : Address} (h : t ≠ trader) :
    payoutOf (m.redeem trader) t = payoutOf m t := by
  unfold payoutOf
  rw [calculatePayout_redeem h]

/-- A claim leaves every other trader redeemable. -/
theorem Redeemable.redeem {m : Market} {trader t : Address} (hr : Redeemable m t)
    (h : t ≠ trader) : Redeemable (m.redeem trader) t := by
  have hpos : (m.redeem trader).positions t = m.positions t := closed_positions_of_ne h
  obtain ⟨payout, hpay, hnative⟩ := hr.payable
  refine ⟨⟨hr.awaiting.settled, ?_, ?_⟩, payout, ?_, ?_⟩
  · rw [hpos]
    exact hr.awaiting.position
  · rw [hpos]
    exact hr.awaiting.unclaimed
  · rw [calculatePayout_redeem h]
    exact hpay
  · rw [hpos]
    exact hnative

/-- The claim of a redeemable trader succeeds if the balance covers its payout. -/
theorem exec_claim_of_le {c : ClaimCall} {w : World} (hr : Redeemable w.market c.env.sender)
    (hb : payoutOf w.market c.env.sender ≤ w.market.balance) : ∃ w', exec c.tx w = .ok w' := by
  obtain ⟨payout, hpay, hnative⟩ := hr.payable
  rw [payoutOf_eq hpay] at hb
  obtain ⟨w₁, heffect, -⟩ := claim_effect c.value_eq hr.awaiting hpay hnative hb
  obtain ⟨w', hw', -⟩ := exec_of_effect c.tx heffect rfl
  exact ⟨w', hw'⟩

/-- What a successful claim does: it is covered, marks its trader's position, and pays the trader its
payout. -/
theorem exec_claim {c : ClaimCall} {w w' : World} (h : exec c.tx w = .ok w') :
    payoutOf w.market c.env.sender ≤ w.market.balance ∧
      w'.market = w.market.redeem c.env.sender ∧
      (∀ t, totalOf .claimed t w'.journal =
        (if c.env.sender = t then payoutOf w.market t else 0) + totalOf .claimed t w.journal) ∧
      total .claimed w'.journal = payoutOf w.market c.env.sender + total .claimed w.journal := by
  have heffect := exec_effect h
  unfold ClaimCall.tx at heffect
  simp only at heffect
  unfold Market.redeem
  cases heffect with
  | opened order _ => cases order
  -- A claim without a payout writes nothing, which is its payout.
  | claimNothing _ claimable =>
    have hzero := payoutOf_eq claimable.payout_eq
    rw [hzero]
    refine ⟨Nat.zero_le _, rfl, fun t => ?_, (Nat.zero_add _).symm⟩
    split_ifs with ht
    · rw [← ht, hzero]
      exact (Nat.zero_add _).symm
    · exact (Nat.zero_add _).symm
  | claimPayout _ _ claimable =>
    have hpay := payoutOf_eq claimable.payout_eq
    rw [hpay]
    refine ⟨claimable.enough, rfl, fun t => ?_, ?_⟩
    · rw [totalOf_cons]
      simp only [true_and]
      split_ifs with ht
      · rw [← ht, hpay]
      · rfl
    · rw [total_cons, if_pos rfl]

/-! ## Claims in order -/

/-- Marking the entries of `U` after that of another trader is marking them all. -/
theorem mark_insert {α : Type*} (mark : α → α) (f : Address → α) {trader : Address}
    {U : Finset Address} (h : trader ∉ U) (t : Address) :
    (if t ∈ U then mark (Function.update f trader (mark (f trader)) t)
      else Function.update f trader (mark (f trader)) t) =
      if t ∈ insert trader U then mark (f t) else f t := by
  simp only [Finset.mem_insert]
  rcases eq_or_ne t trader with rfl | hne
  · rw [if_neg h, if_pos (.inl rfl), Function.update_self]
  · simp only [Function.update_of_ne hne, hne, false_or]

/-- The claims of the traders in `U` after that of another are the claims of all of them. -/
theorem redeemed_redeem {m : Market} {trader : Address} {U : Finset Address} (h : trader ∉ U) :
    (m.redeem trader).redeemed U = m.redeemed (insert trader U) := by
  have hne : ∀ t ∈ U, t ≠ trader := fun t ht heq => h (heq ▸ ht)
  have hsum : ∑ t ∈ U, payoutOf (m.redeem trader) t = ∑ t ∈ U, payoutOf m t :=
    Finset.sum_congr rfl fun t ht => payoutOf_redeem (hne t ht)
  have hpositions : ((m.redeem trader).redeemed U).positions =
      (m.redeemed (insert trader U)).positions := by
    funext t
    exact mark_insert (fun p => { p with isClaimed := true, isActive := false }) m.positions h t
  have hactive : ((m.redeem trader).redeemed U).isActiveTrader =
      (m.redeemed (insert trader U)).isActiveTrader := by
    funext t
    exact mark_insert (fun _ => false) m.isActiveTrader h t
  have hbalance : ((m.redeem trader).redeemed U).balance =
      (m.redeemed (insert trader U)).balance := by
    simp only [Market.redeemed]
    rw [hsum, Finset.sum_insert h]
    exact Nat.sub_sub _ _ _
  -- The other fields of the two markets are those of `m`.
  calc (m.redeem trader).redeemed U
      = { m with
          positions := ((m.redeem trader).redeemed U).positions
          isActiveTrader := ((m.redeem trader).redeemed U).isActiveTrader
          balance := ((m.redeem trader).redeemed U).balance } := rfl
    _ = m.redeemed (insert trader U) := by rw [hpositions, hactive, hbalance]; rfl

section Claims

variable {c : ClaimCall} {claims : List ClaimCall} {w w' : World}

/-- Claims of different traders: that of the first, and those of different others. -/
theorem claimants_nodup_cons : (claimants (c :: claims)).Nodup ↔
    c.env.sender ∉ claimants claims ∧ (claimants claims).Nodup :=
  List.nodup_cons

/-- After the first of some claims by different traders, the others are redeemable, with the same
payouts. -/
theorem redeemable_tail (hnodup : (claimants (c :: claims)).Nodup)
    (hr : ∀ t ∈ claimants (c :: claims), Redeemable w.market t)
    (hm : w'.market = w.market.redeem c.env.sender) :
    (∀ t ∈ claimants claims, Redeemable w'.market t) ∧
      ∀ t ∈ claimants claims, payoutOf w'.market t = payoutOf w.market t := by
  have hfresh : ∀ t ∈ claimants claims, t ≠ c.env.sender := by
    intro t ht heq
    rw [heq] at ht
    exact (claimants_nodup_cons.mp hnodup).1 ht
  rw [hm]
  exact ⟨fun t ht => (hr t (List.mem_cons_of_mem _ ht)).redeem (hfresh t ht),
    fun t ht => payoutOf_redeem (hfresh t ht)⟩

/-- The payouts of some claims are those of the first and those of the others after it. -/
theorem sum_payouts_cons (hpay : ∀ t ∈ claimants claims,
    payoutOf w'.market t = payoutOf w.market t) :
    ((claimants (c :: claims)).map (payoutOf w.market)).sum =
      payoutOf w.market c.env.sender + ((claimants claims).map (payoutOf w'.market)).sum := by
  rw [List.map_congr_left hpay]
  rfl

/-- The claims of different traders succeed if the balance covers their payouts. -/
theorem run_claims_of_le : ∀ (claims : List ClaimCall) {w : World}, (claimants claims).Nodup →
    (∀ t ∈ claimants claims, Redeemable w.market t) →
    ((claimants claims).map (payoutOf w.market)).sum ≤ w.market.balance →
    ∃ w', Run exec w (claims.map ClaimCall.tx) w' := by
  intro claims
  induction claims with
  | nil => exact fun _ _ _ => ⟨_, .nil _⟩
  | cons c claims ih =>
    intro w hnodup hr hsum
    have hfirst : payoutOf w.market c.env.sender ≤ w.market.balance :=
      le_trans (Nat.le_add_right _ _) hsum
    obtain ⟨w₁, hw₁⟩ := exec_claim_of_le (hr _ List.mem_cons_self) hfirst
    obtain ⟨-, hm, -, -⟩ := exec_claim hw₁
    obtain ⟨hr', hpay⟩ := redeemable_tail hnodup hr hm
    have hsum₁ : ((claimants claims).map (payoutOf w₁.market)).sum ≤ w₁.market.balance := by
      rw [sum_payouts_cons hpay] at hsum
      rw [hm]
      show _ ≤ w.market.balance - payoutOf w.market c.env.sender
      rw [← hm]
      omega
    obtain ⟨w', run⟩ := ih (claimants_nodup_cons.mp hnodup).2 hr' hsum₁
    exact ⟨w', .cons trivial hw₁ run⟩

/-- What the claims of different traders do if they succeed: their payouts were covered, the market
is the one after all of them, and each trader was paid its payout. -/
theorem run_claims : ∀ (claims : List ClaimCall) {w w' : World}, (claimants claims).Nodup →
    (∀ t ∈ claimants claims, Redeemable w.market t) → Run exec w (claims.map ClaimCall.tx) w' →
    ((claimants claims).map (payoutOf w.market)).sum ≤ w.market.balance ∧
      w'.market = w.market.redeemed (claimants claims).toFinset ∧
      ∀ t, totalOf .claimed t w'.journal =
        (if t ∈ claimants claims then payoutOf w.market t else 0) + totalOf .claimed t w.journal := by
  intro claims
  induction claims with
  | nil =>
    intro w w' _ _ run
    cases run
    exact ⟨Nat.zero_le _, rfl, fun t => (Nat.zero_add _).symm⟩
  | cons c claims ih =>
    intro w w' hnodup hr run
    obtain ⟨hnew, hnodup'⟩ := claimants_nodup_cons.mp hnodup
    cases run with
    | @cons _ w₁ _ _ _ _ accepted rest =>
      obtain ⟨hfirst, hm, htotal, -⟩ := exec_claim accepted
      obtain ⟨hr', hpay⟩ := redeemable_tail hnodup hr hm
      obtain ⟨hsum, hm', htotal'⟩ := ih hnodup' hr' rest
      have hbalance : w₁.market.balance = w.market.balance - payoutOf w.market c.env.sender := by
        rw [hm]
        rfl
      refine ⟨?_, ?_, fun t => ?_⟩
      · rw [sum_payouts_cons hpay]
        omega
      · rw [hm', hm, redeemed_redeem (by rwa [List.mem_toFinset])]
        show _ = w.market.redeemed (c.env.sender :: claimants claims).toFinset
        rw [List.toFinset_cons]
      -- The first trader is paid by the first claim, and the others by theirs.
      · rw [htotal', htotal]
        show _ = (if t ∈ c.env.sender :: claimants claims then payoutOf w.market t else 0) + _
        rcases eq_or_ne t c.env.sender with rfl | hne
        · rw [if_neg hnew, if_pos rfl, if_pos List.mem_cons_self, Nat.zero_add]
        · rw [if_neg hne.symm, Nat.zero_add]
          by_cases ht : t ∈ claimants claims
          · rw [if_pos ht, if_pos (List.mem_cons_of_mem _ ht), hpay t ht]
          · rw [if_neg ht, if_neg (by simp [hne, ht])]

/-- Claims that may fail pay no more than the balance. -/
theorem attempts_claims_le (claims : List ClaimCall) (w : World) :
    total .claimed (attempts exec (claims.map ClaimCall.tx) w).journal ≤
      total .claimed w.journal + w.market.balance := by
  have hkept : total .claimed (attempts exec (claims.map ClaimCall.tx) w).journal +
      (attempts exec (claims.map ClaimCall.tx) w).market.balance =
        total .claimed w.journal + w.market.balance := by
    refine attempts_invariant (I := fun w' : World => total .claimed w'.journal + w'.market.balance =
      total .claimed w.journal + w.market.balance) ?_ rfl
    intro tx htx s s' hs h
    obtain ⟨c, -, rfl⟩ := List.mem_map.mp htx
    obtain ⟨hle, hm, -, htotal⟩ := exec_claim h
    have hbalance : s'.market.balance = s.market.balance - payoutOf s.market c.env.sender := by
      rw [hm]
      rfl
    omega
  omega

end Claims

/-- **Claims are independent of their order exactly when they are covered**: if the balance covers
the sum of the payouts of some redeemable traders, their claims succeed in every order, pay each
trader its payout, and lead to the same market. If it does not, then in every order some claim fails
when its turn comes, and what is paid in total is at most the balance. -/
theorem claims_order_independent {w : World} {U : Finset Address}
    (hU : ∀ t ∈ U, Redeemable w.market t) :
    (∑ t ∈ U, payoutOf w.market t ≤ w.market.balance →
      ∃ m, ∀ claims, IsOrderOf claims U → ∃ w', Run exec w (claims.map ClaimCall.tx) w' ∧
        w'.market = m ∧ ∀ t ∈ U, totalOf .claimed t w'.journal =
          payoutOf w.market t + totalOf .claimed t w.journal) ∧
    (w.market.balance < ∑ t ∈ U, payoutOf w.market t →
      ∀ claims, IsOrderOf claims U →
        (∃ before c after, claims = before ++ c :: after ∧
          ∃ e, exec c.tx (attempts exec (before.map ClaimCall.tx) w) = .error e) ∧
        total .claimed (attempts exec (claims.map ClaimCall.tx) w).journal ≤
          total .claimed w.journal + w.market.balance) := by
  have hredeem : ∀ {claims}, IsOrderOf claims U →
      ∀ t ∈ claimants claims, Redeemable w.market t := fun horder t ht =>
    hU t (by rw [← horder.claimants_eq, List.mem_toFinset]; exact ht)
  have hsum : ∀ {claims}, IsOrderOf claims U →
      ((claimants claims).map (payoutOf w.market)).sum = ∑ t ∈ U, payoutOf w.market t := by
    intro claims horder
    rw [← horder.claimants_eq, List.sum_toFinset _ horder.nodup]
  constructor
  · intro hle
    refine ⟨w.market.redeemed U, fun claims horder => ?_⟩
    obtain ⟨w', run⟩ := run_claims_of_le claims horder.nodup (hredeem horder)
      (by rw [hsum horder]; exact hle)
    obtain ⟨-, hm, htotal⟩ := run_claims claims horder.nodup (hredeem horder) run
    rw [horder.claimants_eq] at hm
    refine ⟨w', run, hm, fun t ht => ?_⟩
    rw [htotal, if_pos]
    rw [← List.mem_toFinset, horder.claimants_eq]
    exact ht
  · intro hlt claims horder
    refine ⟨?_, attempts_claims_le claims w⟩
    -- If no claim failed, the payouts were covered.
    have hnone : ¬ ∃ w', Run exec w (claims.map ClaimCall.tx) w' := by
      rintro ⟨w', run⟩
      have hle := (run_claims claims horder.nodup (hredeem horder) run).1
      rw [hsum horder] at hle
      omega
    obtain ⟨before, tx, after, hsplit, e, he⟩ := exists_refusal hnone
    obtain ⟨claims₁, claims₂, rfl, rfl, hrest⟩ := List.map_eq_append_iff.mp hsplit
    obtain ⟨c, claims₃, rfl, rfl, rfl⟩ := List.map_eq_cons_iff.mp hrest
    exact ⟨claims₁, c, claims₃, rfl, e, he⟩

/-- The long and the short of the sample run can claim in both orders. -/
theorem claims_order_independent_sample :
    ∃ w m, launch sampleDeployment (sampleOpening ++ [sampleSettlement]) = .ok w ∧
      ∀ claims, IsOrderOf claims {2, 3} → ∃ w', Run exec w (claims.map ClaimCall.tx) w' ∧
        w'.market = m ∧ ∀ t ∈ ({2, 3} : Finset Address), totalOf .claimed t w'.journal =
          payoutOf w.market t + totalOf .claimed t w.journal := by
  obtain ⟨w, hw, hp⟩ := exists_launch sampleDeployment (sampleOpening ++ [sampleSettlement])
    (fun w => decide (payoutOf w.market 2 + payoutOf w.market 3 ≤ w.market.balance ∧
      Awaiting w.market 2 ∧ (w.market.positions 2).settlementAsset = NATIVE_TOKEN ∧
      calculatePayout w.market 2 = .ok 1000000199999999500 ∧
      Awaiting w.market 3 ∧ (w.market.positions 3).settlementAsset = NATIVE_TOKEN ∧
      calculatePayout w.market 3 = .ok 999999800000000500)) (by decide +kernel)
  obtain ⟨hle, ha₂, hn₂, hpay₂, ha₃, hn₃, hpay₃⟩ := of_decide_eq_true hp
  have hU : ∀ t ∈ ({2, 3} : Finset Address), Redeemable w.market t := by
    intro t ht
    rcases Finset.mem_insert.mp ht with rfl | ht
    · exact ⟨ha₂, _, hpay₂, .inr hn₂⟩
    · obtain rfl := Finset.mem_singleton.mp ht
      exact ⟨ha₃, _, hpay₃, .inr hn₃⟩
  have hne : (2 : Address) ≠ 3 := by decide
  rw [← Finset.sum_pair hne] at hle
  obtain ⟨m, hm⟩ := (claims_order_independent hU).1 hle
  exact ⟨w, m, hw, hm⟩

end GasCap
