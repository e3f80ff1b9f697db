import GasCap.Lib.Machine
import Mathlib.Logic.Equiv.Basic
import Mathlib.Logic.Function.Basic

/-!
# Machines that are products

The state of a machine may be no more than the states of its components, and an input a step that
some of them make together: it is accepted exactly when each component that it concerns accepts it,
and it changes no other. A sequence of inputs is a run of such a `Product` exactly when what concerns
each component is a run of that component (`Product.run_iff`). So the order of two inputs matters only
where they concern a common component (`Product.run_congr`).
-/

namespace Machine

variable {σ ι ε η K : Type*} {τ : K → Type*}

/-- A function that changes at one place at most is an update there. -/
theorem changes_at_iff {α β : Type*} [DecidableEq α] {f f' : α → β} {a : α} {R : α → β → Prop} :
    (∀ b, if a = b then R b (f' b) else f' b = f b) ↔ ∃ u, R a u ∧ f' = Function.update f a u := by
  constructor
  · intro h
    have ha := h a
    rw [if_pos rfl] at ha
    refine ⟨f' a, ha, Function.eq_update_iff.mpr ⟨rfl, fun b hb => ?_⟩⟩
    have hkept := h b
    rwa [if_neg hb.symm] at hkept
  · rintro ⟨u, hu, rfl⟩ b
    split_ifs with hb
    · subst hb
      rwa [Function.update_self]
    · exact Function.update_of_ne (Ne.symm hb) _ _

/-- How a machine is the product of components with the states `τ`. -/
structure Product (step : ι → σ → Except ε σ) (τ : K → Type*) (η : Type*) where
  components : σ ≃ ∀ k, τ k
  /-- Whether a component takes part in an input. -/
  concerns : K → ι → Bool
  cstep : ∀ k, ι → τ k → Except η (τ k)
  step_iff : ∀ {i s s'}, step i s = .ok s' ↔
    ∀ k, if concerns k i then cstep k i (components s k) = .ok (components s' k)
      else components s' k = components s k

namespace Product

variable {step : ι → σ → Except ε σ} (P : Product step τ η) {s s' : σ} {is js : List ι}

/-- The inputs that concern a component, in their order. -/
def inputs (k : K) (is : List ι) : List ι := is.filter (P.concerns k)

/-- A run of the product is a run of each component. -/
theorem run_component (run : Run step s is s') (k : K) :
    Run (P.cstep k) (P.components s k) (P.inputs k is) (P.components s' k) := by
  induction run with
  | nil s => exact .nil _
  | @cons s s₁ s' i is _ accepted _ ih =>
    have hpart := P.step_iff.mp accepted k
    unfold inputs at ih ⊢
    by_cases hk : P.concerns k i = true
    · rw [if_pos hk] at hpart
      rw [List.filter_cons_of_pos hk]
      exact .cons trivial hpart ih
    · rw [if_neg hk] at hpart
      rw [List.filter_cons_of_neg hk, ← hpart]
      exact ih

/-- The first input is a step of the components that it concerns, and the rest goes on from there. -/
theorem uncons {k : K} {i : ι} {t t' : τ k} (run : Run (P.cstep k) t (P.inputs k (i :: is)) t') :
    ∃ t₁, (if P.concerns k i then P.cstep k i t = .ok t₁ else t₁ = t) ∧
      Run (P.cstep k) t₁ (P.inputs k is) t' := by
  unfold inputs at run ⊢
  by_cases hk : P.concerns k i = true
  · rw [List.filter_cons_of_pos hk] at run
    cases run with
    | cons _ accepted rest => exact ⟨_, by rwa [if_pos hk], rest⟩
  · rw [List.filter_cons_of_neg hk] at run
    exact ⟨t, by rw [if_neg hk], run⟩

/-- Runs of all components are a run of the product. -/
theorem run_of_components
    (h : ∀ k, Run (P.cstep k) (P.components s k) (P.inputs k is) (P.components s' k)) :
    Run step s is s' := by
  induction is generalizing s with
  | nil =>
    have hsame : P.components s' = P.components s := funext fun k => (h k).eq_of_nil
    rw [P.components.injective hsame]
    exact .nil s
  | cons i is ih =>
    choose t hstep hrest using fun k => P.uncons (h k)
    -- The states of the components after the input are those of one state.
    obtain ⟨s₁, rfl⟩ := P.components.surjective t
    exact .cons trivial (P.step_iff.mpr hstep) (ih hrest)

/-- **Runs of a product are runs of its components**, each on the inputs that concern it. -/
theorem run_iff :
    Run step s is s' ↔
      ∀ k, Run (P.cstep k) (P.components s k) (P.inputs k is) (P.components s' k) :=
  ⟨fun run k => P.run_component run k, P.run_of_components⟩

/-- Sequences of inputs that are the same for each component lead to the same states. -/
theorem run_congr (h : ∀ k, P.inputs k is = P.inputs k js) : Run step s is s' ↔ Run step s js s' := by
  rw [P.run_iff, P.run_iff]
  simp only [h]

end Product

end Machine
