import GasCap.Lib.Clients
import GasCap.Lib.Treasury
import Mathlib.Tactic.Abel

/-!
# Tallies of clients

A shared state holds an amount, and each client has a share in it that its local state tells. In a
`Tally` every step of a client changes the amount by what it changes the client's share by, and every
step of someone else by what it brings. Then no update is lost and none counted twice, whatever the
interleaving: in every run the amount changes by the changes of all shares and by what the others bring
(`Tally.run`).
-/

namespace Machine

variable {σ τ κ ι ε K G : Type*} [AddCancelCommMonoid G]

/-- The amount `held` by the shared state changes as the `share` of the client whose step it is, or by
what the step of someone else has `brought`. -/
structure Tally (M : Clients σ τ κ ι ε) (held : σ → G) (share : τ → G) (brought : ι → G) : Prop where
  client : ∀ {j t t' c c'}, M.client j t c = .ok (t', c') → held c' + share t = held c + share t'
  other : ∀ {i c c'}, M.other i c = .ok c' → held c' = held c + brought i

/-- What the turns of the others bring. -/
def broughtBy (brought : ι → G) (turns : List (Turn K κ ι)) : G :=
  (turns.map fun
    | .client _ _ => 0
    | .other i => brought i).sum

namespace Tally

variable [DecidableEq K] [Fintype K] {M : Clients σ τ κ ι ε} {held : σ → G} {share : τ → G}
  {brought : ι → G} {P : Turn K κ ι → Joint σ τ K → Prop} {s s' : Joint σ τ K}
  {turns : List (Turn K κ ι)}

/-- A turn changes the amount by the changes of the shares and by what it brings. -/
theorem step (h : Tally M held share brought) {turn : Turn K κ ι} (hstep : M.step turn s = .ok s') :
    held s'.shared + ∑ k, share (s.locals k) =
      held s.shared + ∑ k, share (s'.locals k) + broughtBy brought [turn] := by
  cases turn with
  | other i =>
    obtain ⟨c, hother, rfl⟩ := Clients.step_other.mp hstep
    have hheld : held c = held s.shared + brought i := h.other hother
    have hbrought : broughtBy brought [(.other i : Turn K κ ι)] = brought i := List.sum_singleton
    rw [hheld, hbrought]
    abel
  | client k j =>
    obtain ⟨t, c, hclient, rfl⟩ := Clients.step_client.mp hstep
    have hheld : held c + share (s.locals k) = held s.shared + share t := h.client hclient
    have hshares := Mapping.sum_update (fun _ => share) s.locals k t
    have hbrought : broughtBy brought [(.client k j : Turn K κ ι)] = 0 := List.sum_singleton
    rw [hbrought, add_zero]
    -- The share of the client is on both sides.
    apply add_right_cancel (b := share (s.locals k))
    calc held c + ∑ k, share (s.locals k) + share (s.locals k)
        = held c + share (s.locals k) + ∑ k, share (s.locals k) := by abel
      _ = held s.shared + (∑ k, share (s.locals k) + share t) := by rw [hheld]; abel
      _ = held s.shared + (∑ x, share (Function.update s.locals k t x) + share (s.locals k)) := by
          rw [hshares]
      _ = held s.shared + ∑ x, share (Function.update s.locals k t x) + share (s.locals k) := by abel

/-- **The tally rule**: a run changes the amount by the changes of the shares of all clients and by what
the others bring. -/
theorem run (h : Tally M held share brought) (run : GuardedRun M.step P s turns s') :
    held s'.shared + ∑ k, share (s.locals k) =
      held s.shared + ∑ k, share (s'.locals k) + broughtBy brought turns := by
  induction run with
  | nil s => exact (add_zero _).symm
  | @cons s s₁ s' turn turns _ accepted _ ih =>
    have hstep := h.step accepted
    have hcons : broughtBy brought (turn :: turns) =
        broughtBy brought [turn] + broughtBy brought turns := by
      unfold broughtBy
      rw [List.map_cons, List.sum_cons, List.map_singleton, List.sum_singleton]
    rw [hcons]
    apply add_right_cancel (b := ∑ k, share (s₁.locals k))
    calc held s'.shared + ∑ k, share (s.locals k) + ∑ k, share (s₁.locals k)
        = held s'.shared + ∑ k, share (s₁.locals k) + ∑ k, share (s.locals k) := by abel
      _ = held s₁.shared + ∑ k, share (s.locals k) + ∑ k, share (s'.locals k) +
            broughtBy brought turns := by rw [ih]; abel
      _ = _ := by rw [hstep]; abel

end Tally

end Machine
