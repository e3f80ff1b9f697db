import GasCap.Lib.CallTree
import GasCap.Lib.Machine

/-!
# Calls that have done their work before they hand over control

A machine is `Serial` for what `obs` shows of its states if a call does to it all that it ever does
before it hands over control, and looks at nothing else. The calls that a recipient makes during a
callout might then as well come after the call: `exec_serial` says that an execution of trees shows
what a plain sequence of the calls that succeeded shows, in the order in which they began. What is
undone, with the calls nested in it, is not in the sequence.

The states in which control is handed over show what states of plain runs show too (`Attained`), so what
all plain runs show holds at every point of an execution (`Serial.points_hold`).
-/

namespace Machine

universe u v w

variable {σ ε : Type u} {ι : Type v} {μ : Type w}

mutual

/-- The calls of a tree, in the order in which they begin. -/
def CallTree.calls : CallTree ι → List ι
  | .node call nested => call :: callsAll nested

/-- The calls of trees in order. -/
def CallTree.callsAll : List (CallTree ι) → List ι
  | [] => []
  | t :: ts => t.calls ++ callsAll ts

end

namespace CallMachine

/-- Whether a call succeeds, and what it does to what `obs` shows, depends on that alone, and the call
does nothing to it after its callout. -/
structure Serial (M : CallMachine σ ι ε) (obs : σ → μ) : Prop where
  done : ∀ {call s t s'}, obs t = obs s → M.enter call s = .ok (.done s') →
    ∃ t', M.enter call t = .ok (.done t') ∧ obs t' = obs s'
  callout : ∀ {call s t s₁ resume}, obs t = obs s → M.enter call s = .ok (.callout s₁ resume) →
    ∃ t₁ resume', M.enter call t = .ok (.callout t₁ resume') ∧ obs t₁ = obs s₁
  resume : ∀ {call s s₁ resume v}, M.enter call s = .ok (.callout s₁ resume) →
    obs (resume v) = obs v

variable {M : CallMachine σ ι ε} {obs : σ → μ}

mutual

/-- A tree that succeeds shows what a sequence of its calls shows. -/
theorem exec_serial (hM : M.Serial obs) : ∀ (tree : CallTree ι) {s s' t : σ},
    obs t = obs s → M.exec tree s = .ok s' →
    ∃ calls t', calls.Sublist tree.calls ∧ Run M.step t calls t' ∧ obs t' = obs s'
  | .node call nested, s, s', t, ht, hs => by
    rw [exec] at hs
    split at hs
    · cases hs
    · rename_i s₁ he
      cases hs
      obtain ⟨t', he', hobs⟩ := hM.done ht he
      have hstep : M.step call t = .ok t' := step_eq_ok.mpr (.inl he')
      refine ⟨[call], t', ?_, .single trivial hstep, hobs⟩
      rw [CallTree.calls]
      exact (List.nil_sublist _).cons_cons call
    · rename_i s₁ resume he
      split at hs
      · rename_i hrejection
        cases hs
        obtain ⟨t₁, resume', he', hobs⟩ := hM.callout ht he
        have hstep : M.step call t = .ok (resume' t₁) :=
          step_eq_ok.mpr (.inr ⟨t₁, resume', he', hrejection, rfl⟩)
        -- The nested calls begin where the call by itself ends, as far as `obs` shows.
        have hstart : obs (resume' t₁) = obs s₁ := (hM.resume he').trans hobs
        obtain ⟨calls, t', hsub, run, hend⟩ := execAll_serial hM nested hstart
        refine ⟨call :: calls, t', ?_, .cons trivial hstep run, hend.trans (hM.resume he).symm⟩
        rw [CallTree.calls]
        exact hsub.cons_cons call
      · cases hs

/-- **Serialization**: the execution of trees in order shows what a plain sequence of some of their
calls shows, in the order in which these began. -/
theorem execAll_serial (hM : M.Serial obs) : ∀ (ts : List (CallTree ι)) {s t : σ},
    obs t = obs s →
    ∃ calls t', calls.Sublist (CallTree.callsAll ts) ∧ Run M.step t calls t' ∧
      obs t' = obs (M.execAll ts s)
  | [], s, t, ht => ⟨[], t, List.nil_sublist _, .nil t, by rw [execAll]; exact ht⟩
  | tree :: ts, s, t, ht => by
    rw [execAll, CallTree.callsAll]
    split
    · rename_i s' hs
      obtain ⟨calls, t', hsub, run, hobs⟩ := exec_serial hM tree ht hs
      obtain ⟨calls', t'', hsub', run', hobs'⟩ := execAll_serial hM ts hobs
      exact ⟨calls ++ calls', t'', hsub.append hsub', run.append run', hobs'⟩
    -- A tree that fails is left out with all its calls.
    · obtain ⟨calls, t', hsub, run, hobs⟩ := execAll_serial hM ts ht
      exact ⟨calls, t', hsub.trans (List.sublist_append_right _ _), run, hobs⟩

end

/-! ## The states at callouts -/

/-- A state shows what some state of a plain run, from one with `start`, shows. -/
def Attained (M : CallMachine σ ι ε) (obs : σ → μ) (start : σ → Prop) (s : σ) : Prop :=
  ∃ s₀ calls t, start s₀ ∧ Run M.step s₀ calls t ∧ obs t = obs s

/-- Calls of a serial machine lead from what plain runs show to the same, also where the party that a
call hands control to will not let it continue: for every call there is a willing one, which differs
from it in nothing but that its party would. -/
theorem Serial.attained (hM : M.Serial obs) {start : σ → Prop} {willing : ι → ι}
    (henter : ∀ call s, M.enter (willing call) s = M.enter call s)
    (hwilling : ∀ call, M.rejection (willing call) = none) :
    M.Preserves (fun _ => True) (M.Attained obs start) where
  done := by
    rintro call s s' ⟨s₀, calls, t, h₀, run, ht⟩ he
    obtain ⟨t', he', hobs⟩ := hM.done ht he
    have hstep : M.step call t = .ok t' := step_eq_ok.mpr (.inl he')
    exact ⟨s₀, calls ++ [call], t', h₀, run.append (.single trivial hstep), hobs⟩
  handover := by
    rintro call s s₁ resume ⟨s₀, calls, t, h₀, run, ht⟩ he -
    obtain ⟨t₁, resume', he', hobs⟩ := hM.callout ht he
    -- The willing call shows at its end what the call shows where it hands over control.
    have hstep : M.step (willing call) t = .ok (resume' t₁) :=
      step_eq_ok.mpr (.inr ⟨t₁, resume', (henter call t).trans he', hwilling call, rfl⟩)
    have hend : obs (resume' t₁) = obs s₁ := (hM.resume he').trans hobs
    exact ⟨s₀, calls ++ [willing call], _, h₀, run.append (.single trivial hstep), hend⟩
  resume := by
    rintro call s s₁ resume v ⟨s₀, calls, t, h₀, run, ht⟩ he
    exact ⟨s₀, calls, t, h₀, run, ht.trans (hM.resume he).symm⟩

/-- **What all plain runs show holds at every point** of an execution, and at its end. -/
theorem Serial.points_hold (hM : M.Serial obs) {start : σ → Prop} {willing : ι → ι}
    (henter : ∀ call s, M.enter (willing call) s = M.enter call s)
    (hwilling : ∀ call, M.rejection (willing call) = none) {J : μ → Prop}
    (hJ : ∀ {s₀ calls t}, start s₀ → Run M.step s₀ calls t → J (obs t)) (ts : List (CallTree ι))
    {s : σ} (hs : start s) :
    (∀ p ∈ M.pointsAll ts s, p.Holds fun s => J (obs s)) ∧ J (obs (M.execAll ts s)) := by
  have hattained : ∀ {s}, M.Attained obs start s → J (obs s) := by
    rintro s ⟨s₀, calls, t, h₀, run, ht⟩
    rw [← ht]
    exact hJ h₀ run
  have hstart : M.Attained obs start s := ⟨s, [], s, hs, .nil s, rfl⟩
  have hpreserves : M.Preserves (fun _ => True) (M.Attained obs start) := hM.attained henter hwilling
  constructor
  · intro p hp
    have hpoint := pointsAll_preserves hpreserves ts hstart p hp
    cases p with
    | between s => exact hattained hpoint
    | callout call s s' => exact ⟨hattained hpoint.1, hattained hpoint.2⟩
  · exact hattained (execAll_preserves hpreserves ts hstart fun _ _ => trivial)

end CallMachine

end Machine
