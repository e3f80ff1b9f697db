import GasCap.Lib.Machine
import Mathlib.Logic.Function.Basic

/-!
# Machines made of machines

A machine may keep a family of components, which are machines themselves: an input is either passed on
to one of them, or it leaves those that exist as they are and may create others. `Family` says how the
inputs of such a machine act on its components. What is left of a run when only the inputs that are
passed on to one component are kept is a run of that component, from the state in which it was found
(`Family.run_of_some`) or created (`Family.run_of_none`).
-/

namespace Machine

variable {σ ι ε τ κ η K : Type*} [DecidableEq K]

/-- How the inputs of a machine, under its guard `P`, act on its components, whose guard is `Q`. -/
structure Family (step : ι → σ → Except ε σ) (P : ι → σ → Prop) (cstep : κ → τ → Except η τ)
    (Q : κ → τ → Prop) (K : Type*) [DecidableEq K] where
  component : σ → K → Option τ
  /-- The component that an input is passed on to, and what is passed on. -/
  target : ι → Option (K × κ)
  /-- The states in which components are created. -/
  Created : τ → Prop
  passed : ∀ {i s s' k j}, P i s → step i s = .ok s' → target i = some (k, j) →
    ∃ t t', component s k = some t ∧ Q j t ∧ cstep j t = .ok t' ∧
      component s' = Function.update (component s) k (some t')
  kept : ∀ {i s s' k t}, P i s → step i s = .ok s' → target i = none →
    component s k = some t → component s' k = some t
  created : ∀ {i s s' k t}, P i s → step i s = .ok s' → target i = none →
    component s k = none → component s' k = some t → Created t

namespace Family

variable {step : ι → σ → Except ε σ} {P : ι → σ → Prop} {cstep : κ → τ → Except η τ}
  {Q : κ → τ → Prop} (F : Family step P cstep Q K) {s s' : σ} {is : List ι} {k : K}

/-- What a sequence of inputs passes on to a component. -/
def inputs (k : K) (is : List ι) : List κ :=
  is.filterMap fun i => match F.target i with
    | some (k', j) => if k' = k then some j else none
    | none => none

/-- An input for a component is passed on to it. -/
theorem inputs_cons_self {i : ι} {j : κ} (h : F.target i = some (k, j)) :
    F.inputs k (i :: is) = j :: F.inputs k is := by
  unfold inputs
  rw [List.filterMap_cons_some]
  simp only [h, if_pos]

/-- An input for another component is not passed on. -/
theorem inputs_cons_of_ne {i : ι} {k' : K} {j : κ} (h : F.target i = some (k', j)) (hne : k' ≠ k) :
    F.inputs k (i :: is) = F.inputs k is := by
  unfold inputs
  rw [List.filterMap_cons_none]
  simp only [h, if_neg hne]

/-- An input for no component is not passed on. -/
theorem inputs_cons_none {i : ι} (h : F.target i = none) :
    F.inputs k (i :: is) = F.inputs k is := by
  unfold inputs
  rw [List.filterMap_cons_none]
  simp only [h]

/-- A component that is there at the start of a run makes a run of its own. -/
theorem run_of_some (run : GuardedRun step P s is s') :
    ∀ {t}, F.component s k = some t →
      ∃ t', F.component s' k = some t' ∧ GuardedRun cstep Q t (F.inputs k is) t' := by
  induction run with
  | nil s => exact fun {t} ht => ⟨t, ht, .nil t⟩
  | @cons s s₁ s₂ i is guard accepted _ ih =>
    intro t ht
    cases htarget : F.target i with
    | none =>
      rw [F.inputs_cons_none htarget]
      exact ih (F.kept guard accepted htarget ht)
    | some target =>
      obtain ⟨k', j⟩ := target
      obtain ⟨u, u', hu, hj, hstep, hcomponent⟩ := F.passed guard accepted htarget
      rcases eq_or_ne k' k with rfl | hne
      -- The input is a step of the component.
      · cases hu.symm.trans ht
        rw [F.inputs_cons_self htarget]
        have hu' : F.component s₁ k' = some u' := by rw [hcomponent, Function.update_self]
        obtain ⟨t', ht', rest⟩ := ih hu'
        exact ⟨t', ht', .cons hj hstep rest⟩
      · rw [F.inputs_cons_of_ne htarget hne]
        refine ih ?_
        rw [hcomponent, Function.update_of_ne hne.symm, ht]

/-- A component that is created in a run makes a run of its own from its creation. -/
theorem run_of_none (run : GuardedRun step P s is s') :
    F.component s k = none → ∀ {t'}, F.component s' k = some t' →
      ∃ t, F.Created t ∧ GuardedRun cstep Q t (F.inputs k is) t' := by
  induction run with
  | nil s =>
    intro hs t' ht'
    rw [hs] at ht'
    cases ht'
  | @cons s s₁ s₂ i is guard accepted rest ih =>
    intro hs t' ht'
    cases htarget : F.target i with
    | none =>
      rw [F.inputs_cons_none htarget]
      -- The input creates the component, or a later one does.
      cases hs₁ : F.component s₁ k with
      | none => exact ih hs₁ ht'
      | some t =>
        obtain ⟨u, hu, run⟩ := F.run_of_some rest hs₁
        cases hu.symm.trans ht'
        exact ⟨t, F.created guard accepted htarget hs hs₁, run⟩
    | some target =>
      obtain ⟨k', j⟩ := target
      obtain ⟨u, u', hu, -, -, hcomponent⟩ := F.passed guard accepted htarget
      have hne : k' ≠ k := by
        rintro rfl
        rw [hs] at hu
        cases hu
      rw [F.inputs_cons_of_ne htarget hne]
      refine ih ?_ ht'
      rw [hcomponent, Function.update_of_ne hne.symm, hs]

end Family

end Machine
