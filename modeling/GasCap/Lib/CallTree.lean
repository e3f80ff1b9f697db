/-!
# Calls that hand over control before they return

A call of a `CallMachine` runs to its end, or to the point where it hands control to another party
(a `callout`) and is resumed once that party returns. While it has control, the party may make calls
of its own, which may hand over control in turn: a `CallTree` is a call with the calls made during
its callout. A call that fails undoes its own effects and those of every call nested in it, whatever
became of these.

`exec` runs a tree and `execAll` a sequence of trees. `points` lists the states that an observer of
the whole execution could see: the state before and after every call, and for every callout the
states in which its call began and in which control was handed over, also where a failure undoes them
later. `execAll_preserves` and `points_preserves` are the rules for both: what `enter` preserves up
to the callout, and `resume` after it, holds at every point and at the end. `execAll_relates` is the
rule for what relates the end of a call to its start, where a call may rely on the same of the calls
during its callout.
-/

namespace Machine

universe u v

variable {σ ε : Type u} {ι : Type v}

/-- What a call comes to by itself: it has finished, or hands over control in state `s` and will
finish by `resume` on whatever state it gets back. -/
inductive Progress (σ : Type u)
  | done (s : σ)
  | callout (s : σ) (resume : σ → σ)

/-- The state that a call has come to. -/
def Progress.state : Progress σ → σ
  | .done s => s
  | .callout s _ => s

/-- A call together with the calls made during its callout, in order. -/
inductive CallTree (ι : Type v)
  | node (call : ι) (nested : List (CallTree ι))

/-- A machine whose calls may hand over control. -/
structure CallMachine (σ : Type u) (ι : Type v) (ε : Type u) where
  /-- Runs a call to its end or to its callout. -/
  enter : ι → σ → Except ε (Progress σ)
  /-- The error with which the party that the call hands control to stops it, if it does. -/
  rejection : ι → Option ε

/-- What an observer of an execution sees. -/
inductive Point (σ : Type u) (ι : Type v)
  /-- A state between two calls. -/
  | between (s : σ)
  /-- A call that began in `entry` and handed over control in `handover`. -/
  | callout (call : ι) (entry handover : σ)

/-- A property of states holds of those that a point shows. -/
def Point.Holds (I : σ → Prop) : Point σ ι → Prop
  | .between s => I s
  | .callout _ entry handover => I entry ∧ I handover

namespace CallMachine

variable (M : CallMachine σ ι ε)

mutual

/-- Executes a tree of calls. -/
def exec : CallTree ι → σ → Except ε σ
  | .node call nested, s =>
    match M.enter call s with
    | .error e => .error e
    | .ok (.done s') => .ok s'
    | .ok (.callout s' resume) =>
      match M.rejection call with
      | none => .ok (resume (execAll nested s'))
      -- A rejection undoes the nested calls with the call itself.
      | some e => .error e

/-- Executes trees of calls in order. The failing ones change nothing. -/
def execAll : List (CallTree ι) → σ → σ
  | [], s => s
  | t :: ts, s =>
    match exec t s with
    | .ok s' => execAll ts s'
    | .error _ => execAll ts s

end

mutual

/-- The points that the execution of a tree passes through after its first state. -/
def points : CallTree ι → σ → List (Point σ ι)
  | .node call nested, s =>
    match M.enter call s with
    | .error _ => []
    | .ok (.done _) => []
    | .ok (.callout s' _) => .callout call s s' :: pointsAll nested s'

/-- The points that the execution of trees in order passes through. -/
def pointsAll : List (CallTree ι) → σ → List (Point σ ι)
  | [], s => [.between s]
  | t :: ts, s =>
    .between s :: points t s ++
      match M.exec t s with
      | .ok s' => pointsAll ts s'
      | .error _ => pointsAll ts s

end

/-- A call during whose callout nothing happens. -/
def step (call : ι) (s : σ) : Except ε σ := M.exec (.node call []) s

/-- Calls preserve `I`, for callouts among the points of `T`. -/
structure Preserves (T : Point σ ι → Prop) (I : σ → Prop) : Prop where
  /-- A call that hands over no control preserves `I`. -/
  done : ∀ {call s s'}, I s → M.enter call s = .ok (.done s') → I s'
  /-- A call preserves `I` up to its callout. -/
  handover : ∀ {call s s' resume}, I s → M.enter call s = .ok (.callout s' resume) →
    T (.callout call s s') → I s'
  /-- What a call does after its callout preserves `I`. -/
  resume : ∀ {call s s' resume v}, I v → M.enter call s = .ok (.callout s' resume) → I (resume v)

variable {M} {T : Point σ ι → Prop} {I : σ → Prop}

mutual

/-- The invariant rule for a tree of calls. -/
theorem exec_preserves (hM : M.Preserves T I) : ∀ (t : CallTree ι) {s s' : σ}, I s →
    (∀ p ∈ M.points t s, T p) → M.exec t s = .ok s' → I s'
  | .node call nested, s, s', h, hT, hs => by
    rw [exec] at hs
    rw [points] at hT
    -- The cases are those of `exec`: the call fails, finishes, or hands over control.
    split at hs
    · cases hs
    · cases hs
      exact hM.done h ‹_›
    · rename_i s₁ resume he
      rw [he] at hT
      split at hs
      · cases hs
        -- The nested calls start where control is handed over, and `resume` gets what they leave.
        have h₁ : I s₁ := hM.handover h he (hT _ List.mem_cons_self)
        exact hM.resume (execAll_preserves hM nested h₁
          fun p hp => hT p (List.mem_cons_of_mem _ hp)) he
      · cases hs

/-- The invariant rule for trees of calls in order. -/
theorem execAll_preserves (hM : M.Preserves T I) : ∀ (ts : List (CallTree ι)) {s : σ}, I s →
    (∀ p ∈ M.pointsAll ts s, T p) → I (M.execAll ts s)
  | [], s, h, _ => by rw [execAll]; exact h
  | t :: ts, s, h, hT => by
    rw [pointsAll] at hT
    rw [execAll]
    have ht : ∀ p ∈ M.points t s, T p := fun p hp =>
      hT p (List.mem_append_left _ (List.mem_cons_of_mem _ hp))
    -- The points of the other trees depend on whether the first one succeeds.
    split
    · rename_i s' hs
      rw [hs] at hT
      exact execAll_preserves hM ts (exec_preserves hM t h ht hs)
        fun p hp => hT p (List.mem_append_right _ hp)
    · rename_i e he
      rw [he] at hT
      exact execAll_preserves hM ts h fun p hp => hT p (List.mem_append_right _ hp)

end

mutual

/-- The invariant holds at every point of a tree's execution. -/
theorem points_preserves (hM : M.Preserves (fun _ => True) I) : ∀ (t : CallTree ι) {s : σ}, I s →
    ∀ p ∈ M.points t s, p.Holds I
  | .node call nested, s, h, p, hp => by
    rw [points] at hp
    split at hp
    · simp at hp
    · simp at hp
    · rename_i s₁ resume he
      have h₁ : I s₁ := hM.handover h he trivial
      rcases List.mem_cons.mp hp with rfl | hp
      · exact ⟨h, h₁⟩
      · exact pointsAll_preserves hM nested h₁ p hp

/-- The invariant holds at every point of the execution of trees in order. -/
theorem pointsAll_preserves (hM : M.Preserves (fun _ => True) I) : ∀ (ts : List (CallTree ι))
    {s : σ}, I s → ∀ p ∈ M.pointsAll ts s, p.Holds I
  | [], s, h, p, hp => by
    rw [pointsAll, List.mem_singleton] at hp
    rw [hp]
    exact h
  | t :: ts, s, h, p, hp => by
    rw [pointsAll, List.cons_append, List.mem_cons, List.mem_append] at hp
    rcases hp with rfl | hp | hp
    · exact h
    · exact points_preserves hM t h p hp
    · split at hp
      · rename_i s' hs
        exact pointsAll_preserves hM ts (exec_preserves hM t h (fun _ _ => trivial) hs) p hp
      · exact pointsAll_preserves hM ts h p hp

end

/-- Calls relate the states before and after them by `R`. For a call with a callout, `R` is known of
the calls in between. -/
structure Relates (M : CallMachine σ ι ε) (R : σ → σ → Prop) : Prop where
  refl : ∀ s, R s s
  trans : ∀ {s₁ s₂ s₃}, R s₁ s₂ → R s₂ s₃ → R s₁ s₃
  /-- A call that hands over no control. -/
  done : ∀ {call s s'}, M.enter call s = .ok (.done s') → R s s'
  /-- A call with a callout, from whose handover the calls in between lead to `s₂`. -/
  callout : ∀ {call s s₁ s₂ resume}, M.enter call s = .ok (.callout s₁ resume) → R s₁ s₂ →
    R s (resume s₂)

variable {R : σ → σ → Prop}

mutual

/-- The rule for a relation between the start and the end of a tree of calls. -/
theorem exec_relates (hM : M.Relates R) : ∀ (t : CallTree ι) {s s' : σ},
    M.exec t s = .ok s' → R s s'
  | .node call nested, s, s', hs => by
    rw [exec] at hs
    split at hs
    · cases hs
    · cases hs
      exact hM.done ‹_›
    · rename_i s₁ resume he
      split at hs
      · cases hs
        exact hM.callout he (execAll_relates hM nested s₁)
      · cases hs

/-- The rule for a relation between the start and the end of trees of calls in order. -/
theorem execAll_relates (hM : M.Relates R) : ∀ (ts : List (CallTree ι)) (s : σ),
    R s (M.execAll ts s)
  | [], s => by rw [execAll]; exact hM.refl s
  | t :: ts, s => by
    rw [execAll]
    split
    · rename_i s' hs
      exact hM.trans (exec_relates hM t hs) (execAll_relates hM ts s')
    · exact execAll_relates hM ts s

end

/-- A call during whose callout nothing happens, by cases on how far it comes by itself. -/
theorem step_eq_ok {call : ι} {s s' : σ} : M.step call s = .ok s' ↔
    M.enter call s = .ok (.done s') ∨
      ∃ s₁ resume, M.enter call s = .ok (.callout s₁ resume) ∧ M.rejection call = none ∧
        s' = resume s₁ := by
  rw [step, exec]
  rcases M.enter call s with e | s₁ | ⟨s₁, resume⟩
  · simp
  · simp
  · rcases M.rejection call with _ | e
    · simp only [execAll]
      constructor
      · intro h
        cases h
        exact .inr ⟨s₁, resume, rfl, trivial, rfl⟩
      · intro h
        rcases h with h | ⟨s₂, resume', h, -, rfl⟩
        · cases h
        · cases h
          rfl
    · simp

/-- A call that cannot be entered fails. -/
theorem step_error_of_enter {call : ι} {s : σ} {e : ε} (h : M.enter call s = .error e) :
    M.step call s = .error e := by
  rw [step, exec, h]

end CallMachine

end Machine
