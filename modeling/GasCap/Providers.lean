import GasCap.Books

/-!
# The list of liquidity providers

`addLiquidity` appends its sender to `liquidityProviders` when the sender's entry is zero, as it is
before its first deposit. The entry is zero again after the provider removed everything, and another
deposit then lists the provider once more. So the providers are listed once each exactly in the runs
in which no provider comes back after its entry has returned to zero (`providers_once_iff`); nothing
ever takes a provider off the list.
-/

namespace GasCap

open Machine

/-- The providers are the accounts that added liquidity. -/
def Listed (w : World) : Prop :=
  ∀ a, a ∈ w.market.liquidityProviders ↔ 0 < totalOf .added a w.journal

/-- Every account that added liquidity is listed once, and the entries of the listed accounts add up to
`totalLiquidity`. -/
structure ProvidersOnce (w : World) : Prop where
  count_eq : ∀ a, 0 < totalOf .added a w.journal → w.market.liquidityProviders.count a = 1
  sum_eq : (w.market.liquidityProviders.map fun a => (w.market.liquidityProvided a).toNat).sum =
    w.market.totalLiquidity.toNat

/-- A call adds no liquidity for an account that has added some before and whose entry is zero. -/
def AddsOnce (tx : Tx) (w : World) : Prop :=
  tx.call = .addLiquidity → w.market.liquidityProvided tx.env.sender = 0 →
    totalOf .added tx.env.sender w.journal = 0

instance (tx : Tx) (w : World) : Decidable (AddsOnce tx w) := inferInstanceAs (Decidable (_ → _))

/-- Only `addLiquidity` changes the list of providers and what the accounts added. -/
theorem Effect.providers_cases {env : Env} {call : Call} {w w' : World}
    (h : Effect env call w w') :
    (call = .addLiquidity ∧ 0 < env.value.toNat ∧
      w'.market.liquidityProviders =
        (if w.market.liquidityProvided env.sender = 0 then
          w.market.liquidityProviders ++ [env.sender]
        else w.market.liquidityProviders) ∧
      ∀ a, totalOf .added a w'.journal =
        (if env.sender = a then env.value.toNat else 0) + totalOf .added a w.journal) ∨
    (call ≠ .addLiquidity ∧ w'.market.liquidityProviders = w.market.liquidityProviders ∧
      ∀ a, totalOf .added a w'.journal = totalOf .added a w.journal) := by
  cases h with
  | addLiquidity value _ _ => exact .inl ⟨rfl, BitVec.lt_def.mp value, rfl, fun a => by simp⟩
  | opened order _ =>
    refine .inr ⟨?_, rfl, fun a => by simp⟩
    rintro rfl
    cases order
  | removeLiquidity _ _ _ _ | claimPayout _ _ _ | emergencyWithdraw _ _ _ | receive =>
    exact .inr ⟨by simp, rfl, fun a => by simp⟩
  | _ => exact .inr ⟨by simp, rfl, fun _ => rfl⟩

/-- An account with an entry added liquidity. -/
theorem Represented.added_pos {w : World} (h : Represented w) {a : Address}
    (ha : w.market.liquidityProvided a ≠ 0) : 0 < totalOf .added a w.journal := by
  obtain ⟨τ, hτ⟩ := h
  have hcredit := hτ.credit a
  have hle : τ.credit a ≤ τ.added a := Nat.sub_le _ _
  have hpos : (w.market.liquidityProvided a).toNat ≠ 0 := by
    rwa [ne_eq, ← BitVec.toNat_zero, BitVec.toNat_inj]
  rw [← hτ.added]
  omega

/-- A call keeps the providers the accounts that added liquidity. -/
theorem Effect.listed {env : Env} {call : Call} {w w' : World} (hb : Represented w)
    (hw : Listed w) (h : Effect env call w w') : Listed w' := by
  intro a
  rcases h.providers_cases with ⟨-, hvalue, hlist, hadded⟩ | ⟨-, hlist, hadded⟩
  · rw [hlist, hadded]
    rcases eq_or_ne env.sender a with rfl | hne
    -- The sender is appended, or has an entry and was listed before.
    · rw [if_pos rfl]
      refine iff_of_true ?_ (by omega)
      split_ifs with hzero
      · exact List.mem_append_right _ List.mem_cons_self
      · exact (hw _).mpr (hb.added_pos hzero)
    · rw [if_neg hne, Nat.zero_add, ← hw a]
      split_ifs with hzero
      · rw [List.mem_append, List.mem_singleton]
        exact ⟨fun hmem => hmem.resolve_right hne.symm, .inl⟩
      · exact Iff.rfl
  · rw [hlist, hadded]
    exact hw a

/-- A call leaves no provider listed twice if none was, and if it is not the deposit of a provider
that comes back. -/
theorem exec_nodup_iff {tx : Tx} {w w' : World} (hw : Listed w) (h : exec tx w = .ok w') :
    w'.market.liquidityProviders.Nodup ↔
      w.market.liquidityProviders.Nodup ∧ AddsOnce tx w := by
  unfold AddsOnce
  rcases (exec_effect h).providers_cases with ⟨hcall, -, hlist, -⟩ | ⟨hcall, hlist, -⟩
  · have hmem := hw tx.env.sender
    rw [hlist]
    split_ifs with hzero
    · rw [← List.concat_eq_append, List.nodup_concat, hmem, and_comm, Nat.pos_iff_ne_zero,
        not_not]
      exact and_congr_right' ⟨fun hadded _ _ => hadded, fun hadds => hadds hcall hzero⟩
    · exact ⟨fun hnodup => ⟨hnodup, fun _ hzero' => absurd hzero' hzero⟩, And.left⟩
  · rw [hlist]
    exact ⟨fun hnodup => ⟨hnodup, fun hcall' => absurd hcall' hcall⟩, And.left⟩

/-- Where the providers are the accounts that added liquidity, they are listed once each, with their
entries adding up, exactly if the list has no duplicates. -/
theorem providersOnce_iff_nodup {w : World} (hb : Represented w) (hw : Listed w) :
    ProvidersOnce w ↔ w.market.liquidityProviders.Nodup := by
  constructor
  · intro h
    rw [List.nodup_iff_count_le_one]
    intro a
    by_cases ha : a ∈ w.market.liquidityProviders
    · exact le_of_eq (h.count_eq a ((hw a).mp ha))
    · rw [List.count_eq_zero_of_not_mem ha]
      exact Nat.zero_le 1
  · intro hnodup
    refine ⟨fun a ha => List.count_eq_one_of_mem hnodup ((hw a).mpr ha), ?_⟩
    -- An account that is not listed has no entry.
    have hzero : ∀ a, a ∉ w.market.liquidityProviders →
        (w.market.liquidityProvided a).toNat = 0 := by
      intro a ha
      by_contra hne
      refine ha ((hw a).mpr (hb.added_pos fun hentry => hne ?_))
      rw [hentry]
      rfl
    obtain ⟨τ, hτ⟩ := hb
    rw [← Mapping.sum_list hnodup _ hzero, hτ.pool]
    exact Finset.sum_congr rfl fun a _ => (hτ.credit a).symm

/-- **When the providers are a set**: in every run from the constructor, every account that added
liquidity is listed once, and the entries of the listed accounts add up to `totalLiquidity`, if and
only if no call of the run adds liquidity for an account that has added some before and whose entry
is zero again. -/
theorem providers_once_iff {d : Deployment} {w₀ w : World} {txs : List Tx}
    (h₀ : deploy d = .ok w₀) (run : Run exec w₀ txs w) :
    ProvidersOnce w ↔ GuardedRun exec AddsOnce w₀ txs w := by
  have hlisted₀ : Listed w₀ := by
    intro a
    rw [(deploy_fresh h₀).journal, (deploy_constructed h₀).liquidityProviders]
    exact iff_of_false List.not_mem_nil (Nat.lt_irrefl 0)
  have hstep : ∀ tx w w', True → Represented w ∧ Listed w → exec tx w = .ok w' →
      Represented w' ∧ Listed w' := fun _ _ _ _ hw he =>
    ⟨exec_represented hw.1 he, (exec_effect he).listed hw.1 hw.2⟩
  have hstart : Represented w₀ ∧ Listed w₀ := ⟨deploy_represented h₀, hlisted₀⟩
  have hend := run.invariant (I := fun w => Represented w ∧ Listed w) hstep hstart
  have hnodup₀ : w₀.market.liquidityProviders.Nodup := by
    rw [(deploy_constructed h₀).liquidityProviders]
    exact List.nodup_nil
  rw [providersOnce_iff_nodup hend.1 hend.2,
    run.guarded_iff (I := fun w => Represented w ∧ Listed w)
      (J := fun w => w.market.liquidityProviders.Nodup) hstep
      (fun _ _ _ _ hw he => exec_nodup_iff hw.2 he) hstart]
  exact and_iff_right hnodup₀

/-- The two providers, of which one removes a part of its liquidity and provides more later, are a
set. -/
theorem providers_once_iff_sample :
    ∃ w, launch sampleDeployment providerCalls = .ok w ∧ ProvidersOnce w := by
  obtain ⟨w₀, h₀, hp⟩ := Checked.exists_of_any (x := deploy sampleDeployment)
    (p := fun w₀ => (runAll exec providerCalls w₀).toOption.any (fun _ => true) &&
      guardedAll exec AddsOnce providerCalls w₀) (by decide +kernel)
  rw [Bool.and_eq_true] at hp
  obtain ⟨w, hw, -⟩ := Checked.exists_of_any hp.1
  have run : Run exec w₀ providerCalls w := (run_iff_runAll _ _ _ _).mpr hw
  exact ⟨w, launch_eq_ok.mpr ⟨w₀, h₀, run⟩,
    (providers_once_iff h₀ run).mpr (.of_all run hp.2)⟩

/-- A provider that removes everything and comes back. -/
def comebackRun : List Tx :=
  [⟨quietEnv 4 ether 1700000001, .addLiquidity, none⟩,
    ⟨quietEnv 4 0 1700000002, .removeLiquidity ether, none⟩,
    ⟨quietEnv 4 ether 1700000003, .addLiquidity, none⟩]

/-- A provider that comes back is listed twice, and the entries of the list add up to twice the
liquidity. -/
theorem provider_listed_twice :
    ∃ w, launch sampleDeployment comebackRun = .ok w ∧ w.market.liquidityProviders = [4, 4] ∧
      (w.market.liquidityProviders.map fun a => (w.market.liquidityProvided a).toNat).sum =
        2 * w.market.totalLiquidity.toNat ∧
      0 < w.market.totalLiquidity.toNat ∧ ¬ ProvidersOnce w := by
  obtain ⟨w, hw, hp⟩ := exists_launch sampleDeployment comebackRun
    (fun w => decide (w.market.liquidityProviders = [4, 4] ∧
      (w.market.liquidityProviders.map fun a => (w.market.liquidityProvided a).toNat).sum =
        2 * w.market.totalLiquidity.toNat ∧
      0 < w.market.totalLiquidity.toNat)) (by decide +kernel)
  obtain ⟨hlist, hsum, hpos⟩ := of_decide_eq_true hp
  refine ⟨w, hw, hlist, hsum, hpos, fun h => ?_⟩
  have := h.sum_eq
  omega

end GasCap
