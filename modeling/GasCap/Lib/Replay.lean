import GasCap.Lib.CallTree

/-!
# Logs that tell what happened

A machine whose calls add events to a log, and a report that a reader of the log keeps: each event
changes it by `apply`, and `replay` is the report after a whole log, the last event first. The report
`Shows` some of the state. It stays true to the state if every call adds the events whose replay
makes of the report what the call makes of the state (`Reports`).

A call that hands over control may emit its events only after it has control back. The calls in
between then find a log that is behind the state, and their events come before those of the call. The
report is right again when the call returns if the late events commute with all others
(`Commutes`), which is what `Reports.run` needs of them.
-/

namespace Machine

universe u v w x

variable {β : Type w} {γ : Type x} {apply : β → γ → γ}

/-- The report after the events of a log, the last one first. -/
def replay (apply : β → γ → γ) (r : γ) (log : List β) : γ := log.foldr apply r

/-- An event that may be applied before or after any other. -/
def Commutes (apply : β → γ → γ) (e : β) : Prop :=
  ∀ e' r, apply e (apply e' r) = apply e' (apply e r)

/-- A log is replayed in parts, the older one first. -/
theorem replay_append (r : γ) (new old : List β) :
    replay apply r (new ++ old) = replay apply (replay apply r old) new :=
  List.foldr_append

/-- An event that commutes may be replayed before a log. -/
theorem Commutes.replay_cons {e : β} (he : Commutes apply e) (r : γ) (log : List β) :
    replay apply (apply e r) log = apply e (replay apply r log) := by
  induction log with
  | nil => rfl
  | cons e' log ih =>
    calc replay apply (apply e r) (e' :: log) = apply e' (replay apply (apply e r) log) := rfl
      _ = apply e' (apply e (replay apply r log)) := by rw [ih]
      _ = apply e (replay apply r (e' :: log)) := (he e' _).symm

/-- Events that commute may be replayed before a log. -/
theorem replay_comm {late : List β} (hlate : ∀ e ∈ late, Commutes apply e) (r : γ)
    (log : List β) :
    replay apply (replay apply r late) log = replay apply (replay apply r log) late := by
  induction late with
  | nil => rfl
  | cons e late ih =>
    have he : Commutes apply e := hlate e List.mem_cons_self
    have hrest := ih fun e' he' => hlate e' (List.mem_cons_of_mem _ he')
    calc replay apply (replay apply r (e :: late)) log
        = apply e (replay apply (replay apply r late) log) := he.replay_cons _ log
      _ = replay apply (replay apply r log) (e :: late) := by rw [hrest]; rfl

/-! ## Reports of a machine -/

section Reports

variable {σ ε : Type u} {ι : Type v}

/-- Each call adds to the log the events whose replay makes of a report that shows the state before
the call one that shows the state after it. The events of a call with a callout come after it, and
commute. -/
structure Reports (M : CallMachine σ ι ε) (log : σ → List β) (apply : β → γ → γ)
    (Shows : γ → σ → Prop) : Prop where
  done : ∀ {call s s' r}, Shows r s → M.enter call s = .ok (.done s') →
    ∃ new, log s' = new ++ log s ∧ Shows (replay apply r new) s'
  callout : ∀ {call s s₁ resume r}, Shows r s → M.enter call s = .ok (.callout s₁ resume) →
    log s₁ = log s ∧ ∃ late, (∀ e ∈ late, Commutes apply e) ∧ Shows (replay apply r late) s₁ ∧
      ∀ r' v, log (resume v) = late ++ log v ∧ (Shows r' v → Shows r' (resume v))

variable {M : CallMachine σ ι ε} {log : σ → List β} {Shows : γ → σ → Prop}

/-- The relation between the start and the end of a call that reports. -/
def Extends (log : σ → List β) (apply : β → γ → γ) (Shows : γ → σ → Prop) (s s' : σ) : Prop :=
  ∀ r, Shows r s → ∃ new, log s' = new ++ log s ∧ Shows (replay apply r new) s'

/-- Calls that report extend the log by what they do. -/
theorem Reports.relates (h : Reports M log apply Shows) :
    M.Relates (Extends log apply Shows) where
  refl s r hr := ⟨[], rfl, hr⟩
  trans := by
    intro s₁ s₂ s₃ h₁ h₂ r hr
    obtain ⟨new, hlog, hshows⟩ := h₁ r hr
    obtain ⟨new', hlog', hshows'⟩ := h₂ _ hshows
    refine ⟨new' ++ new, ?_, ?_⟩
    · rw [hlog', hlog, List.append_assoc]
    · rw [replay_append]
      exact hshows'
  done := fun he r hr => h.done hr he
  callout := by
    intro call s s₁ s₂ resume he hnested r hr
    obtain ⟨hlog₁, late, hlate, hshows₁, hresume⟩ := h.callout hr he
    obtain ⟨new, hlog₂, hshows₂⟩ := hnested _ hshows₁
    obtain ⟨hlog, hkeep⟩ := hresume (replay apply (replay apply r late) new) s₂
    -- In the log the late events come last, and in the state they came first.
    refine ⟨late ++ new, ?_, ?_⟩
    · rw [hlog, hlog₂, hlog₁, List.append_assoc]
    · rw [replay_append, ← replay_comm hlate]
      exact hkeep hshows₂

/-- **The replay rule**: after calls that report, whose recipients call back, the replay of what they
added to the log shows the state. -/
theorem Reports.run (h : Reports M log apply Shows) (ts : List (CallTree ι)) {r : γ} {s : σ}
    (hr : Shows r s) :
    ∃ new, log (M.execAll ts s) = new ++ log s ∧ Shows (replay apply r new) (M.execAll ts s) :=
  CallMachine.execAll_relates h.relates ts s r hr

end Reports

end Machine
