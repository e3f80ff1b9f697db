/-!
# Machines whose inputs are local

Each input of a `LocalMachine` belongs to an agent. Whether it is accepted depends on what its agent
sees of the state, and it changes nothing that another agent sees. It may change what they share, as
long as the changes of different agents commute. Then no agent's input decides whether another's is
accepted (`LocalMachine.accepted_iff`), and two accepted inputs of different agents can be given in
either order and lead to equivalent states (`LocalMachine.diamond`).

The states are compared by what `obs` shows of them, and the laws are asked for in the states that are
`Good` for the input.
-/

namespace Machine

universe u v

/-- A machine whose inputs are local to the agents that they belong to. -/
structure LocalMachine (σ ε : Type u) (ι Agent View μ : Type v) where
  step : ι → σ → Except ε σ
  /-- What is compared of a state. -/
  obs : σ → μ
  /-- The agent of an input. -/
  agent : ι → Agent
  /-- What an agent sees. -/
  view : Agent → μ → View
  /-- The states in which the laws hold of an input. -/
  Good : ι → σ → Prop
  /-- The condition for an input. -/
  Enabled : ι → μ → Prop
  /-- What an input does, given what its agent sees. -/
  Acts : ι → View → μ → μ → Prop
  /-- What the order of two inputs may change. -/
  Equiv : μ → μ → Prop
  accepted : ∀ {i s}, Good i s → ((∃ s', step i s = .ok s') ↔ Enabled i (obs s))
  acts : ∀ {i s s'}, Good i s → step i s = .ok s' → Acts i (view (agent i) (obs s)) (obs s) (obs s')
  enabled_congr : ∀ {i m m'}, view (agent i) m' = view (agent i) m → (Enabled i m' ↔ Enabled i m)
  frame : ∀ {i j v m m'}, agent i ≠ agent j → Acts j v m m' → view (agent i) m' = view (agent i) m
  comm : ∀ {i j u v m m₁ m₂ m₁₂ m₂₁}, agent i ≠ agent j → Acts i u m m₁ → Acts j v m₁ m₁₂ →
    Acts j v m m₂ → Acts i u m₂ m₂₁ → Equiv m₁₂ m₂₁

namespace LocalMachine

variable {σ ε : Type u} {ι Agent View μ : Type v} (M : LocalMachine σ ε ι Agent View μ)
variable {i j : ι} {s s₁ s₂ : σ}

/-- An input is accepted before the input of another agent exactly when it is accepted after it. -/
theorem accepted_iff (hne : M.agent i ≠ M.agent j) (hi : M.Good i s) (hj : M.Good j s)
    (h : M.step j s = .ok s₂) (hi' : M.Good i s₂) :
    (∃ s', M.step i s = .ok s') ↔ ∃ s', M.step i s₂ = .ok s' := by
  rw [M.accepted hi, M.accepted hi']
  exact (M.enabled_congr (M.frame hne (M.acts hj h))).symm

/-- **The diamond**: two accepted inputs of different agents are accepted in either order, and lead to
equivalent states. -/
theorem diamond (hne : M.agent i ≠ M.agent j) (hi : M.Good i s) (hj : M.Good j s)
    (h₁ : M.step i s = .ok s₁) (h₂ : M.step j s = .ok s₂) (hi' : M.Good i s₂)
    (hj' : M.Good j s₁) :
    ∃ s₁₂ s₂₁, M.step j s₁ = .ok s₁₂ ∧ M.step i s₂ = .ok s₂₁ ∧ M.Equiv (M.obs s₁₂) (M.obs s₂₁) := by
  obtain ⟨s₁₂, h₁₂⟩ := (M.accepted_iff hne.symm hj hi h₁ hj').mp ⟨s₂, h₂⟩
  obtain ⟨s₂₁, h₂₁⟩ := (M.accepted_iff hne hi hj h₂ hi').mp ⟨s₁, h₁⟩
  have hacts₁ := M.acts hi h₁
  have hacts₂ := M.acts hj h₂
  have hacts₁₂ := M.acts hj' h₁₂
  have hacts₂₁ := M.acts hi' h₂₁
  -- Each agent sees the same before and after the other's input, and so does the same.
  rw [M.frame hne.symm hacts₁] at hacts₁₂
  rw [M.frame hne hacts₂] at hacts₂₁
  exact ⟨s₁₂, s₂₁, h₁₂, h₂₁, M.comm hne hacts₁ hacts₁₂ hacts₂ hacts₂₁⟩

end LocalMachine

end Machine
