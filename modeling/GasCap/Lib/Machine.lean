import Mathlib.Algebra.Group.Defs
import Mathlib.Data.List.Basic
import Mathlib.Tactic.ByContra

/-!
# Runs of a machine that may refuse its inputs

A machine is a function `step` that takes an input and a state to the next state, or refuses the
input with an error. A `GuardedRun` is a sequence of inputs that the machine accepts one after the
other, each in a state in which the guard holds, and a `Run` is one without a guard. The rules here
carry a property of one step to the whole run: `GuardedRun.invariant` for what each step preserves,
`GuardedRun.forall_mem` for what each accepted input satisfies, `GuardedRun.constant` for what no
step changes, `GuardedRun.count_eq` for what counts inputs, `GuardedRun.sum_eq` for what sums up amounts
of them, and `GuardedRun.countP_le_one` for what happens at most once. Three more say which runs have a
property that is no invariant: `GuardedRun.guarded_iff` for one that is never regained,
`GuardedRun.gained_iff` for one that is never lost, and `GuardedRun.forall_prefix_iff` for one that is
to hold in every state on the way. `guardedAll` computes whether the inputs of a sequence satisfy a
guard where they stand. `attempts` runs a sequence in which a refused input leaves the state as it is,
and `exists_refusal` finds the refused input where the sequence is no run. `exists_run_of_variant`
builds a run to a goal from a variant that some input can always lower.
-/

namespace Machine

variable {σ ι ε α : Type*}

/-- From `s`, the inputs `is` are accepted in order and lead to `s'`, and the guard `P` holds of each
input at the state that it is given in. -/
inductive GuardedRun (step : ι → σ → Except ε σ) (P : ι → σ → Prop) : σ → List ι → σ → Prop
  | nil (s : σ) : GuardedRun step P s [] s
  | cons {s₀ s₁ s₂ : σ} {i : ι} {is : List ι} (guard : P i s₀) (accepted : step i s₀ = .ok s₁)
      (rest : GuardedRun step P s₁ is s₂) : GuardedRun step P s₀ (i :: is) s₂

/-- From `s`, the inputs `is` are accepted in order and lead to `s'`. -/
abbrev Run (step : ι → σ → Except ε σ) : σ → List ι → σ → Prop :=
  GuardedRun step fun _ _ => True

section Run

variable {step : ι → σ → Except ε σ} {P Q : ι → σ → Prop} {s₀ s₁ s₂ : σ} {i : ι} {is js : List ι}

/-- A run is one of every machine that accepts the same inputs and gets to the same states. -/
theorem GuardedRun.congr {step' : ι → σ → Except ε σ} (run : GuardedRun step P s₀ is s₁)
    (h : ∀ i s s', step i s = .ok s' → step' i s = .ok s') : GuardedRun step' P s₀ is s₁ := by
  induction run with
  | nil s => exact .nil s
  | cons guard accepted _ ih => exact .cons guard (h _ _ _ accepted) ih

/-- A run whose inputs satisfy the guard in every state is one under the guard. -/
theorem GuardedRun.guarded (run : GuardedRun step P s₀ is s₁) (h : ∀ i ∈ is, ∀ s, Q i s) :
    GuardedRun step Q s₀ is s₁ := by
  induction run with
  | nil s => exact .nil s
  | cons _ accepted _ ih =>
    exact .cons (h _ List.mem_cons_self _) accepted
      (ih fun j hj => h j (List.mem_cons_of_mem _ hj))

/-- An accepted input is a run of one step. -/
theorem GuardedRun.single (guard : P i s₀) (accepted : step i s₀ = .ok s₁) :
    GuardedRun step P s₀ [i] s₁ :=
  .cons guard accepted (.nil s₁)

/-- Without inputs, the state stays. -/
theorem GuardedRun.eq_of_nil (run : GuardedRun step P s₀ [] s₁) : s₁ = s₀ := by
  cases run with
  | nil _ => rfl

/-- Runs compose. -/
theorem GuardedRun.append (h₁ : GuardedRun step P s₀ is s₁) (h₂ : GuardedRun step P s₁ js s₂) :
    GuardedRun step P s₀ (is ++ js) s₂ := by
  induction h₁ with
  | nil _ => exact h₂
  | cons guard accepted _ ih => exact .cons guard accepted (ih h₂)

/-- A run over a concatenation passes through a state between its two parts. -/
theorem GuardedRun.split (run : GuardedRun step P s₀ (is ++ js) s₂) :
    ∃ s₁, GuardedRun step P s₀ is s₁ ∧ GuardedRun step P s₁ js s₂ := by
  induction is generalizing s₀ with
  | nil => exact ⟨s₀, .nil s₀, run⟩
  | cons i is ih =>
    rw [List.cons_append] at run
    cases run with
    | cons guard accepted rest =>
      obtain ⟨s, h₁, h₂⟩ := ih rest
      exact ⟨s, .cons guard accepted h₁, h₂⟩

/-- **The invariant rule**: what every guarded step preserves holds at the end of every run that
starts with it. -/
theorem GuardedRun.invariant {I : σ → Prop}
    (hstep : ∀ i s s', P i s → I s → step i s = .ok s' → I s')
    (run : GuardedRun step P s₀ is s₁) (h : I s₀) : I s₁ := by
  induction run with
  | nil _ => exact h
  | cons guard accepted _ ih => exact ih (hstep _ _ _ guard h accepted)

/-- Where every step from a state with the invariant satisfies `Q`, every input of the run does. -/
theorem GuardedRun.forall_mem {I : σ → Prop} {Q : ι → Prop}
    (hstep : ∀ i s s', P i s → I s → step i s = .ok s' → I s')
    (hQ : ∀ i s s', P i s → I s → step i s = .ok s' → Q i)
    (run : GuardedRun step P s₀ is s₁) (h : I s₀) : ∀ i ∈ is, Q i := by
  induction run with
  | nil _ => simp
  | cons guard accepted _ ih =>
    intro j hj
    rcases List.mem_cons.mp hj with rfl | hj
    · exact hQ _ _ _ guard h accepted
    · exact ih (hstep _ _ _ guard h accepted) j hj

/-- What no step of the run changes is the same at its end, where each step may use an invariant
and that its own input is one of the run's. -/
theorem GuardedRun.constant {I : σ → Prop} (g : σ → α)
    (hstep : ∀ i s s', P i s → I s → step i s = .ok s' → I s')
    (run : GuardedRun step P s₀ is s₁) (h : I s₀)
    (hg : ∀ i ∈ is, ∀ s s', P i s → I s → step i s = .ok s' → g s' = g s) : g s₁ = g s₀ := by
  induction run with
  | nil _ => rfl
  | cons guard accepted _ ih =>
    rw [ih (hstep _ _ _ guard h accepted) fun j hj => hg j (List.mem_cons_of_mem _ hj)]
    exact hg _ List.mem_cons_self _ _ guard h accepted

/-- **The counting rule**: what every step raises by one if its input has `p`, and leaves otherwise, is
raised by a run once for each of its inputs with `p`. -/
theorem GuardedRun.count_eq (n : σ → ℕ) (p : ι → Bool)
    (hstep : ∀ i s s', P i s → step i s = .ok s' → n s' = n s + if p i then 1 else 0)
    (run : GuardedRun step P s₀ is s₁) : n s₁ = n s₀ + is.countP p := by
  induction run with
  | nil _ => rfl
  | cons guard accepted _ ih =>
    have hfirst := hstep _ _ _ guard accepted
    rw [ih, hfirst, List.countP_cons]
    omega

/-- **The summing rule**: what every step changes by an amount of its input, a run changes by the sum of
these. -/
theorem GuardedRun.sum_eq {G : Type*} [AddMonoid G] (n : σ → G) (f : ι → G)
    (hstep : ∀ i s s', P i s → step i s = .ok s' → n s' = n s + f i)
    (run : GuardedRun step P s₀ is s₁) : n s₁ = n s₀ + (is.map f).sum := by
  induction run with
  | nil _ => exact (add_zero _).symm
  | cons guard accepted _ ih =>
    have hfirst := hstep _ _ _ guard accepted
    rw [ih, hfirst, List.map_cons, List.sum_cons, add_assoc]

/-- **The latch rule**: inputs that are accepted only while a latch is open, and close it, are
accepted at most once, where no input opens it again. -/
theorem GuardedRun.countP_le_one {C : σ → Prop} {p : ι → Bool}
    (hkeep : ∀ i s s', step i s = .ok s' → C s → C s')
    (hclose : ∀ i s s', step i s = .ok s' → p i = true → ¬ C s ∧ C s')
    (run : GuardedRun step P s₀ is s₁) : is.countP p ≤ 1 ∧ (C s₀ → is.countP p = 0) := by
  induction run with
  | nil _ => simp
  | @cons _ _ _ i _ _ accepted _ ih =>
    obtain ⟨hone, hzero⟩ := ih
    -- Before the input that closes the latch it is open, and after it no other is accepted.
    by_cases hp : p i = true
    · obtain ⟨hopen, hclosed⟩ := hclose _ _ _ accepted hp
      rw [List.countP_cons_of_pos hp, hzero hclosed]
      exact ⟨Nat.le_refl _, fun h => absurd h hopen⟩
    · rw [List.countP_cons_of_neg hp]
      exact ⟨hone, fun h => hzero (hkeep _ _ _ accepted h)⟩

/-- **The loss rule**: where every step keeps `J` exactly when its input satisfies `Q`, and regains it
never, a run keeps `J` exactly when all its inputs satisfy `Q`. -/
theorem GuardedRun.guarded_iff {I J : σ → Prop}
    (hstep : ∀ i s s', P i s → I s → step i s = .ok s' → I s')
    (hiff : ∀ i s s', P i s → I s → step i s = .ok s' → (J s' ↔ J s ∧ Q i s))
    (run : GuardedRun step P s₀ is s₁) (h : I s₀) :
    J s₁ ↔ J s₀ ∧ GuardedRun step Q s₀ is s₁ := by
  induction run with
  | nil s => exact ⟨fun hj => ⟨hj, .nil s⟩, fun hj => hj.1⟩
  | cons guard accepted _ ih =>
    rw [ih (hstep _ _ _ guard h accepted), hiff _ _ _ guard h accepted]
    constructor
    · rintro ⟨⟨hj, hq⟩, hrest⟩
      exact ⟨hj, .cons hq accepted hrest⟩
    · rintro ⟨hj, hrun⟩
      cases hrun with
      | cons hq accepted' hrest =>
        cases accepted.symm.trans accepted'
        exact ⟨⟨hj, hq⟩, hrest⟩

/-- **The gain rule**: what every step keeps, and an input establishes exactly when it has `p`, holds
at the end of a run exactly when it held at its start or the run has an input with `p`. -/
theorem GuardedRun.gained_iff {J : σ → Prop} {p : ι → Prop}
    (hiff : ∀ i s s', P i s → step i s = .ok s' → (J s' ↔ J s ∨ p i))
    (run : GuardedRun step P s₀ is s₁) : J s₁ ↔ J s₀ ∨ ∃ i ∈ is, p i := by
  induction run with
  | nil s => simp
  | cons guard accepted _ ih =>
    rw [ih, hiff _ _ _ guard accepted, List.exists_mem_cons_iff, or_assoc]

/-- **The prefix rule**: where every step from a state with `J` keeps it exactly when its input
satisfies `Q`, all states on the way have `J` exactly when all inputs satisfy `Q`. -/
theorem GuardedRun.forall_prefix_iff {J : σ → Prop}
    (hiff : ∀ i s s', P i s → J s → step i s = .ok s' → (J s' ↔ Q i s))
    (run : GuardedRun step P s₀ is s₁) (h : J s₀) :
    (∀ before after s, is = before ++ after → GuardedRun step P s₀ before s → J s) ↔
      GuardedRun step Q s₀ is s₁ := by
  induction run with
  | nil s =>
    refine ⟨fun _ => .nil s, fun _ before after s' heq hbefore => ?_⟩
    obtain ⟨rfl, -⟩ := List.append_eq_nil_iff.mp heq.symm
    cases hbefore
    exact h
  | @cons s₀ s₁ s₂ i is guard accepted _ ih =>
    constructor
    · intro hall
      have h₁ : J s₁ := hall [i] is s₁ rfl (.single guard accepted)
      refine .cons ((hiff _ _ _ guard h accepted).mp h₁) accepted ((ih h₁).mp ?_)
      intro before after s heq hbefore
      exact hall (i :: before) after s (by rw [heq]; rfl) (.cons guard accepted hbefore)
    · intro hrun before after s heq hbefore
      cases hrun with
      | cons hq accepted' hrest =>
        cases accepted.symm.trans accepted'
        have h₁ : J s₁ := (hiff _ _ _ guard h accepted).mpr hq
        -- The first state is the start, and the others are on the way of the rest.
        cases hbefore with
        | nil _ => exact h
        | cons _ accepted'' hbefore' =>
          obtain ⟨rfl, rfl⟩ := List.cons.inj heq
          cases accepted.symm.trans accepted''
          exact (ih h₁).mpr hrest _ _ _ rfl hbefore'

end Run

/-! ## Executing a sequence of inputs -/

/-- The state after the inputs, or the error of the first one refused. -/
def runAll (step : ι → σ → Except ε σ) : List ι → σ → Except ε σ
  | [], s => .ok s
  | i :: is, s =>
    match step i s with
    | .ok s' => runAll step is s'
    | .error e => .error e

/-- Executing the inputs succeeds exactly on the runs. -/
theorem run_iff_runAll (step : ι → σ → Except ε σ) (is : List ι) (s s' : σ) :
    Run step s is s' ↔ runAll step is s = .ok s' := by
  constructor
  · intro run
    induction run with
    | nil _ => rfl
    | cons _ accepted _ ih => simpa only [runAll, accepted] using ih
  · intro h
    induction is generalizing s with
    | nil => cases h; exact .nil _
    | cons i is ih =>
      cases hi : step i s with
      | ok s₁ =>
        rw [runAll, hi] at h
        exact .cons trivial hi (ih s₁ h)
      | error e =>
        rw [runAll, hi] at h
        cases h

/-- What is executed from the result of a computation, and returned with that result, is a run. -/
theorem run_of_launch {ε ι α σ : Type} {step : ι → σ → Except ε σ} {x : Except ε α} {start : α → σ}
    {is : List ι} {a : α} {s : σ}
    (h : (x >>= fun a => runAll step is (start a) >>= fun s => pure (a, s)) = .ok (a, s)) :
    x = .ok a ∧ Run step (start a) is s := by
  cases x with
  | error e => cases h
  | ok b =>
    have hrest : (runAll step is (start b) >>= fun s => pure (b, s)) = .ok (a, s) := h
    cases hs : runAll step is (start b) with
    | error e =>
      rw [hs] at hrest
      cases hrest
    | ok s' =>
      rw [hs] at hrest
      cases hrest
      exact ⟨rfl, (run_iff_runAll _ _ _ _).mpr hs⟩

/-- Computes whether every accepted input of a sequence satisfies its condition where it stands. -/
def guardedAll (step : ι → σ → Except ε σ) (P : ι → σ → Prop) [∀ i s, Decidable (P i s)] :
    List ι → σ → Bool
  | [], _ => true
  | i :: is, s =>
    decide (P i s) &&
      match step i s with
      | .ok s' => guardedAll step P is s'
      | .error _ => true

/-- A run for which the conditions compute to be satisfied has them. -/
theorem GuardedRun.of_all {step : ι → σ → Except ε σ} {P : ι → σ → Prop}
    [∀ i s, Decidable (P i s)] {is : List ι} {s₀ s₁ : σ} (run : Run step s₀ is s₁)
    (h : guardedAll step P is s₀ = true) : GuardedRun step P s₀ is s₁ := by
  induction run with
  | nil s => exact .nil s
  | cons _ accepted _ ih =>
    simp only [guardedAll, accepted, Bool.and_eq_true, decide_eq_true_eq] at h
    exact .cons h.1 accepted (ih h.2)

/-- The state after one input, which is the state before it when the input is refused. -/
def attempt (step : ι → σ → Except ε σ) (i : ι) (s : σ) : σ :=
  match step i s with
  | .ok s' => s'
  | .error _ => s

/-- The state after a sequence of inputs of which the refused ones change nothing. -/
def attempts (step : ι → σ → Except ε σ) : List ι → σ → σ
  | [], s => s
  | i :: is, s => attempts step is (attempt step i s)

/-- An attempt preserves what an accepted input preserves. -/
theorem attempt_invariant {step : ι → σ → Except ε σ} {I : σ → Prop} {i : ι} {s : σ}
    (hstep : ∀ s', step i s = .ok s' → I s') (h : I s) : I (attempt step i s) := by
  unfold attempt
  split
  · exact hstep _ ‹_›
  · exact h

/-- The invariant rule for attempts. -/
theorem attempts_invariant {step : ι → σ → Except ε σ} {I : σ → Prop} {is : List ι}
    (hstep : ∀ i ∈ is, ∀ s s', I s → step i s = .ok s' → I s') {s : σ} (h : I s) :
    I (attempts step is s) := by
  induction is generalizing s with
  | nil => exact h
  | cons i is ih =>
    refine ih (fun j hj => hstep j (List.mem_cons_of_mem _ hj)) ?_
    exact attempt_invariant (fun s' hs' => hstep i List.mem_cons_self s s' h hs') h

/-- A sequence of inputs that is no run has an input that is refused when its turn comes. -/
theorem exists_refusal {step : ι → σ → Except ε σ} {is : List ι} {s : σ}
    (h : ¬ ∃ s', Run step s is s') :
    ∃ before i after, is = before ++ i :: after ∧
      ∃ e, step i (attempts step before s) = .error e := by
  induction is generalizing s with
  | nil => exact absurd ⟨s, .nil s⟩ h
  | cons i is ih =>
    cases hi : step i s with
    -- The first input that the machine does not accept has only accepted ones before it.
    | error e => exact ⟨[], i, is, rfl, e, hi⟩
    | ok s₁ =>
      have hrest : ¬ ∃ s', Run step s₁ is s' := by
        rintro ⟨s', run⟩
        exact h ⟨s', .cons trivial hi run⟩
      obtain ⟨before, j, after, rfl, e, hj⟩ := ih hrest
      refine ⟨i :: before, j, after, rfl, e, ?_⟩
      rw [attempts, attempt, hi]
      exact hj

/-- **The progress rule**: where in every state with `I` in which a variant is not zero, some input with
`p` is accepted, keeps `I`, and lowers the variant, there is a run of such inputs to a state in which
the variant is zero. -/
theorem exists_run_of_variant {step : ι → σ → Except ε σ} {I : σ → Prop} {p : ι → Prop}
    (variant : σ → ℕ)
    (hstep : ∀ s, I s → variant s ≠ 0 →
      ∃ i s', p i ∧ step i s = .ok s' ∧ I s' ∧ variant s' < variant s) {s : σ} (h : I s) :
    ∃ is s', Run step s is s' ∧ (∀ i ∈ is, p i) ∧ I s' ∧ variant s' = 0 := by
  generalize hn : variant s = n
  induction n using Nat.strongRecOn generalizing s with
  | ind n ih =>
    by_cases hzero : variant s = 0
    · exact ⟨[], s, .nil s, by simp, h, hzero⟩
    · obtain ⟨i, s₁, hp, hi, h₁, hlt⟩ := hstep s h hzero
      obtain ⟨is, s', run, his, h', hgoal⟩ := ih (variant s₁) (hn ▸ hlt) h₁ rfl
      refine ⟨i :: is, s', .cons trivial hi run, ?_, h', hgoal⟩
      intro j hj
      rcases List.mem_cons.mp hj with rfl | hj
      · exact hp
      · exact his j hj

end Machine
