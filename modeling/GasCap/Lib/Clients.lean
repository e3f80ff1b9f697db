import GasCap.Lib.Machine
import Mathlib.Logic.Function.Basic
import Mathlib.Logic.Relation
import Mathlib.Order.WellFounded

/-!
# Clients of a shared state

Any number of clients act on a shared state, each with a local state that nothing but its own steps
reads or changes, and so do others that have none. A schedule is a sequence of `Turn`s, and its runs
are those of `Clients.step`, so what is proved of every run holds of every interleaving.

`Clients.turn_cases` says what a turn is to one client among the others, and the rules for runs follow
from it. `RelyGuarantee.run` is the rule of rely and guarantee: an assertion about the local state of a
client and the shared state holds for all clients in every run, where each step of a client establishes
the client's own and whatever anyone guarantees to do to the shared state keeps those of all the others.
`RelyGuarantee.exclusive` is what follows for a local state that no two clients can be in.
`Clients.exists_own_turn` finds the first turn of a client in a run that changes its local state, so that
the turns of the others until then can be counted; a `window` is what they do between two turns of a
client. A run `Passes` a turn of a client in some state on its way: what a client has read is what the
shared state was at the turn that reads it (`RelyGuarantee.passes`). `Clients.exists_last_turn` and
`Clients.exists_finish` are for clients whose steps are well-founded: each takes finitely many turns in
every run, and finishes by itself where it is never stuck.
-/

namespace Machine

variable {σ τ κ ι ε K : Type*}

/-- A shared state, and the local states of the clients. -/
structure Joint (σ τ K : Type*) where
  shared : σ
  locals : K → τ

/-- A step of the client `k`, or of someone else. -/
inductive Turn (K κ ι : Type*)
  | client (k : K) (j : κ)
  | other (i : ι)

/-- What a step of a client does to its local state and to the shared state, and what a step of
someone else does to the shared state. -/
structure Clients (σ τ κ ι ε : Type*) where
  client : κ → τ → σ → Except ε (τ × σ)
  other : ι → σ → Except ε σ

variable [DecidableEq K]

/-- Whether a turn is one of the client `k`. -/
def Turn.isOf (k : K) : Turn K κ ι → Bool
  | .client k' _ => decide (k' = k)
  | .other _ => false

/-- A turn, in which the local states of the other clients stay as they are. -/
def Clients.step (M : Clients σ τ κ ι ε) : Turn K κ ι → Joint σ τ K → Except ε (Joint σ τ K)
  | .client k j, s =>
    match M.client j (s.locals k) s.shared with
    | .ok (t, c) => .ok { shared := c, locals := Function.update s.locals k t }
    | .error e => .error e
  | .other i, s =>
    match M.other i s.shared with
    | .ok c => .ok { s with shared := c }
    | .error e => .error e

section Step

variable {M : Clients σ τ κ ι ε} {s s' : Joint σ τ K} {k : K} {j : κ} {i : ι}

/-- A turn of a client is a step of its local state with the shared state. -/
theorem Clients.step_client :
    M.step (.client k j) s = .ok s' ↔
      ∃ t c, M.client j (s.locals k) s.shared = .ok (t, c) ∧
        s' = { shared := c, locals := Function.update s.locals k t } := by
  rw [Clients.step]
  cases M.client j (s.locals k) s.shared with
  | error e => exact ⟨fun h => (by cases h), fun ⟨_, _, h, _⟩ => by cases h⟩
  | ok next =>
    constructor
    · intro h
      exact ⟨next.1, next.2, rfl, (Except.ok.inj h).symm⟩
    · rintro ⟨t, c, hnext, rfl⟩
      cases hnext
      rfl

/-- A turn of a client, by what it leaves of the client's own local state. -/
theorem Clients.client_eq_ok (h : M.step (.client k j) s = .ok s') :
    M.client j (s.locals k) s.shared = .ok (s'.locals k, s'.shared) := by
  obtain ⟨t, c, hclient, rfl⟩ := Clients.step_client.mp h
  simpa only [Function.update_self] using hclient

/-- A turn of someone else is a step of the shared state. -/
theorem Clients.step_other :
    M.step (.other i) s = .ok s' ↔
      ∃ c, M.other i s.shared = .ok c ∧ s' = { s with shared := c } := by
  rw [Clients.step]
  cases M.other i s.shared with
  | error e => exact ⟨fun h => (by cases h), fun ⟨_, h, _⟩ => by cases h⟩
  | ok c =>
    constructor
    · intro h
      exact ⟨c, rfl, (Except.ok.inj h).symm⟩
    · rintro ⟨c', hc, rfl⟩
      cases hc
      rfl

/-- Only its own turns change the local state of a client. -/
theorem Clients.locals_eq {turn : Turn K κ ι} (h : M.step turn s = .ok s')
    (hturn : turn.isOf k = false) : s'.locals k = s.locals k := by
  cases turn with
  | client k' j =>
    obtain ⟨t, c, -, rfl⟩ := Clients.step_client.mp h
    have hne : k ≠ k' := Ne.symm (of_decide_eq_false hturn)
    exact Function.update_of_ne hne t s.locals
  | other i =>
    obtain ⟨c, -, rfl⟩ := Clients.step_other.mp h
    rfl

/-- A turn of the client `k` is a step of that client. -/
theorem Turn.exists_of_isOf {turn : Turn K κ ι} (h : turn.isOf k = true) :
    ∃ j, turn = .client k j := by
  cases turn with
  | client k' j => exact ⟨j, by rw [of_decide_eq_true h]⟩
  | other i => cases h

/-- What a turn is to the client `k`: a turn of somebody else, which leaves its local state, or a step
of its own. -/
theorem Clients.turn_cases {turn : Turn K κ ι} (h : M.step turn s = .ok s') :
    (turn.isOf k = false ∧ s'.locals k = s.locals k) ∨
      ∃ j, turn = .client k j ∧
        M.client j (s.locals k) s.shared = .ok (s'.locals k, s'.shared) := by
  cases hturn : turn.isOf k with
  | false => exact .inl ⟨rfl, Clients.locals_eq h hturn⟩
  | true =>
    obtain ⟨j, rfl⟩ := Turn.exists_of_isOf hturn
    exact .inr ⟨j, rfl, Clients.client_eq_ok h⟩

/-- What the steps of a client preserve of its local state, every run does. -/
theorem Clients.local_invariant {P : Turn K κ ι → Joint σ τ K → Prop} {turns : List (Turn K κ ι)}
    {J : τ → Prop} (hclient : ∀ j t t' c c', J t → M.client j t c = .ok (t', c') → J t')
    (run : GuardedRun M.step P s turns s') (h : J (s.locals k)) : J (s'.locals k) := by
  refine run.invariant (I := fun s => J (s.locals k)) ?_ h
  intro turn s s' _ hJ hstep
  rcases Clients.turn_cases (k := k) hstep with ⟨-, hkept⟩ | ⟨j, -, hown⟩
  · rw [hkept]
    exact hJ
  · exact hclient _ _ _ _ _ hJ hown

end Step

/-! ## Rely and guarantee -/

/-- Every step keeps `I` and does no more to the shared state than `G`, a step of a client establishes
its assertion `A`, and `G` keeps the assertions of all clients. -/
structure RelyGuarantee (M : Clients σ τ κ ι ε) (I : σ → Prop) (G : σ → σ → Prop)
    (A : τ → σ → Prop) : Prop where
  client : ∀ {j t t' c c'}, I c → A t c → M.client j t c = .ok (t', c') → I c' ∧ G c c' ∧ A t' c'
  other : ∀ {i c c'}, I c → M.other i c = .ok c' → I c' ∧ G c c'
  stable : ∀ {t c c'}, G c c' → A t c → A t c'

namespace RelyGuarantee

variable {M : Clients σ τ κ ι ε} {I : σ → Prop} {G : σ → σ → Prop} {A : τ → σ → Prop}
  {P : Turn K κ ι → Joint σ τ K → Prop} {s s' : Joint σ τ K} {turns : List (Turn K κ ι)}

/-- Every turn guarantees `G` of the shared state. -/
theorem guarantee (h : RelyGuarantee M I G A) {turn : Turn K κ ι} (hI : I s.shared)
    (hA : ∀ k, A (s.locals k) s.shared) (hstep : M.step turn s = .ok s') :
    I s'.shared ∧ G s.shared s'.shared := by
  cases turn with
  | client k j =>
    obtain ⟨hI', hG, -⟩ := h.client hI (hA k) (Clients.client_eq_ok hstep)
    exact ⟨hI', hG⟩
  | other i =>
    obtain ⟨c, hother, rfl⟩ := Clients.step_other.mp hstep
    exact h.other hI hother

/-- Every turn keeps the assertions of all clients. -/
theorem step (h : RelyGuarantee M I G A) {turn : Turn K κ ι} (hI : I s.shared)
    (hA : ∀ k, A (s.locals k) s.shared) (hstep : M.step turn s = .ok s') (k : K) :
    A (s'.locals k) s'.shared := by
  rcases Clients.turn_cases (k := k) hstep with ⟨-, hkept⟩ | ⟨j, -, hown⟩
  · have hG : G s.shared s'.shared := (h.guarantee hI hA hstep).2
    rw [hkept]
    exact h.stable hG (hA k)
  -- The turn is the client's own, which establishes its assertion.
  · obtain ⟨-, -, hA'⟩ := h.client hI (hA k) hown
    exact hA'

/-- **The rule of rely and guarantee**: every run keeps the invariant of the shared state and the
assertions of all clients. -/
theorem run (h : RelyGuarantee M I G A) (run : GuardedRun M.step P s turns s')
    (hI : I s.shared) (hA : ∀ k, A (s.locals k) s.shared) :
    I s'.shared ∧ ∀ k, A (s'.locals k) s'.shared := by
  refine run.invariant (I := fun s => I s.shared ∧ ∀ k, A (s.locals k) s.shared) ?_ ⟨hI, hA⟩
  intro turn s s' _ hinv hstep
  exact ⟨(h.guarantee hinv.1 hinv.2 hstep).1, h.step hinv.1 hinv.2 hstep⟩

/-- **The exclusion rule**: where a client that is in `E` has `C` of the shared state, and gets into `E`
only where the shared state does not have it, no two clients are in `E`. -/
theorem exclusive (h : RelyGuarantee M I G A) {E : τ → Prop} {C : σ → Prop}
    (hclosed : ∀ {t c}, A t c → E t → C c)
    (hgain : ∀ {j t t' c c'}, I c → A t c → M.client j t c = .ok (t', c') → E t' → E t ∨ ¬ C c)
    (run : GuardedRun M.step P s turns s') (hI : I s.shared) (hA : ∀ k, A (s.locals k) s.shared)
    (hE : ∀ k k', E (s.locals k) → E (s.locals k') → k = k') :
    ∀ k k', E (s'.locals k) → E (s'.locals k') → k = k' := by
  have hrun := run.invariant
    (I := fun s => (I s.shared ∧ ∀ k, A (s.locals k) s.shared) ∧
      ∀ k k', E (s.locals k) → E (s.locals k') → k = k') ?_ ⟨⟨hI, hA⟩, hE⟩
  · exact hrun.2
  rintro turn s s' - ⟨⟨hI, hA⟩, hE⟩ hstep
  refine ⟨⟨(h.guarantee hI hA hstep).1, h.step hI hA hstep⟩, ?_⟩
  -- A client that was in `E` before the turn keeps the one whose turn it is out.
  have hown : ∀ {k k' j}, M.client j (s.locals k) s.shared = .ok (s'.locals k, s'.shared) →
      s'.locals k' = s.locals k' → E (s'.locals k) → E (s'.locals k') → k = k' := by
    intro k k' j hj hkept hk hk'
    rw [hkept] at hk'
    rcases hgain hI (hA k) hj hk with hbefore | hopen
    · exact hE k k' hbefore hk'
    · exact absurd (hclosed (hA k') hk') hopen
  intro k k' hk hk'
  rcases Clients.turn_cases (k := k) hstep with ⟨-, hkept⟩ | ⟨j, hturn, hj⟩
  · rcases Clients.turn_cases (k := k') hstep with ⟨-, hkept'⟩ | ⟨j', -, hj'⟩
    · rw [hkept] at hk
      rw [hkept'] at hk'
      exact hE k k' hk hk'
    · exact (hown hj' hkept hk' hk).symm
  · rcases Clients.turn_cases (k := k') hstep with ⟨-, hkept'⟩ | ⟨j', hturn', -⟩
    · exact hown hj hkept' hk hk'
    · rw [hturn] at hturn'
      exact (Turn.client.inj hturn').1

end RelyGuarantee

/-- What someone's step does to the shared state, or nothing. -/
def Clients.Moves (M : Clients σ τ κ ι ε) (I : σ → Prop) (c c' : σ) : Prop :=
  c' = c ∨ I c ∧ ∃ i, M.other i c = .ok c'

/-- The rule for clients that only make steps that others can make too: what each of these steps keeps,
whoever makes it, is stable. -/
theorem RelyGuarantee.of_moves {M : Clients σ τ κ ι ε} {I : σ → Prop} {A : τ → σ → Prop}
    (hother : ∀ {i c c'}, I c → M.other i c = .ok c' → I c')
    (hclient : ∀ {j t t' c c'}, I c → A t c → M.client j t c = .ok (t', c') →
      (c' = c ∨ ∃ i, M.other i c = .ok c') ∧ A t' c')
    (hstable : ∀ {t i c c'}, I c → A t c → M.other i c = .ok c' → A t c') :
    RelyGuarantee M I (M.Moves I) A where
  client := by
    intro j t t' c c' hI hA h
    obtain ⟨hmoves, hA'⟩ := hclient hI hA h
    rcases hmoves with rfl | ⟨i, hi⟩
    · exact ⟨hI, .inl rfl, hA'⟩
    · exact ⟨hother hI hi, .inr ⟨hI, i, hi⟩, hA'⟩
  other := by
    intro i c c' hI h
    exact ⟨hother hI h, .inr ⟨hI, i, h⟩⟩
  stable := by
    intro t c c' hmoves hA
    rcases hmoves with rfl | ⟨hI, i, hi⟩
    · exact hA
    · exact hstable hI hA hi

/-! ## The turns of one client -/

/-- A run that changes the local state of a client has a first turn of that client. -/
theorem Clients.exists_own_turn {M : Clients σ τ κ ι ε} {P : Turn K κ ι → Joint σ τ K → Prop}
    {s s' : Joint σ τ K} {turns : List (Turn K κ ι)} {k : K}
    (run : GuardedRun M.step P s turns s') (hne : s'.locals k ≠ s.locals k) :
    ∃ before j after s₁ s₂, turns = before ++ .client k j :: after ∧
      (∀ turn ∈ before, turn.isOf k = false) ∧ GuardedRun M.step P s before s₁ ∧
      s₁.locals k = s.locals k ∧ M.step (.client k j) s₁ = .ok s₂ ∧
      GuardedRun M.step P s₂ after s' := by
  induction run with
  | nil s => exact absurd rfl hne
  | @cons s s₀ s' turn turns guard accepted rest ih =>
    rcases Clients.turn_cases (k := k) accepted with ⟨hturn, hkept⟩ | ⟨j, rfl, -⟩
    -- The local state is still the same after the turn of someone else.
    · rw [← hkept] at hne
      obtain ⟨before, j, after, s₁, s₂, rfl, hbefore, hrun, hlocal, hstep, hafter⟩ := ih hne
      refine ⟨turn :: before, j, after, s₁, s₂, rfl, ?_, .cons guard accepted hrun,
        hlocal.trans hkept, hstep, hafter⟩
      intro turn' hmem
      rcases List.mem_cons.mp hmem with rfl | hmem
      · exact hturn
      · exact hbefore turn' hmem
    · exact ⟨[], j, turns, s, s₀, rfl, by simp, .nil s, rfl, accepted, rest⟩

/-- On the way of the run, the client `k` takes a turn with `R` of its step and of its local state and
the shared state before it. -/
def Clients.Passes (M : Clients σ τ κ ι ε) (s : Joint σ τ K) (turns : List (Turn K κ ι))
    (s' : Joint σ τ K) (k : K) (R : κ → τ → σ → Prop) : Prop :=
  ∃ before j after s₁ s₂, turns = before ++ .client k j :: after ∧ Run M.step s before s₁ ∧
    M.step (.client k j) s₁ = .ok s₂ ∧ Run M.step s₂ after s' ∧ R j (s₁.locals k) s₁.shared

/-- What holds of the turn that a run passes. -/
theorem Clients.Passes.imp {M : Clients σ τ κ ι ε} {s s' : Joint σ τ K} {turns : List (Turn K κ ι)}
    {k : K} {R R' : κ → τ → σ → Prop} (h : M.Passes s turns s' k R)
    (himp : ∀ j t c, R j t c → R' j t c) : M.Passes s turns s' k R' := by
  obtain ⟨before, j, after, s₁, s₂, hturns, hbefore, hstep, hafter, hR⟩ := h
  exact ⟨before, j, after, s₁, s₂, hturns, hbefore, hstep, hafter, himp _ _ _ hR⟩

/-- A run passes what it passes after its first turn. -/
theorem Clients.Passes.cons {M : Clients σ τ κ ι ε} {s s₀ s' : Joint σ τ K}
    {turn : Turn K κ ι} {turns : List (Turn K κ ι)} {k : K} {R : κ → τ → σ → Prop}
    (hstep : M.step turn s = .ok s₀) (h : M.Passes s₀ turns s' k R) :
    M.Passes s (turn :: turns) s' k R := by
  obtain ⟨before, j, after, s₁, s₂, rfl, hbefore, hj, hafter, hR⟩ := h
  exact ⟨turn :: before, j, after, s₁, s₂, rfl, .cons trivial hstep hbefore, hj, hafter, hR⟩

namespace RelyGuarantee

variable {M : Clients σ τ κ ι ε} {I : σ → Prop} {G : σ → σ → Prop} {A : τ → σ → Prop}
  {s s' : Joint σ τ K} {turns : List (Turn K κ ι)}

/-- A run does no more to the shared state than what everyone guarantees. -/
theorem run_guarantee (h : RelyGuarantee M I G A) (run : Run M.step s turns s') (hI : I s.shared)
    (hA : ∀ k, A (s.locals k) s.shared) : Relation.ReflTransGen G s.shared s'.shared := by
  induction run with
  | nil s => exact .refl
  | cons guard accepted rest ih =>
    obtain ⟨hI', hG⟩ := h.guarantee hI hA accepted
    exact (ih hI' (h.step hI hA accepted)).head hG

/-- **The rule for what a client has read**: a run that gets a client into `E` passes a turn that gets
it there, with `R` of it. What happens to the shared state from there to the end is no more than what
everyone guarantees. -/
theorem passes (h : RelyGuarantee M I G A) {k : K} {E : τ → Prop} {R : κ → τ → σ → Prop}
    (hstep : ∀ {j t t' c c'}, I c → A t c → M.client j t c = .ok (t', c') → E t' → E t ∨ R j t c)
    (run : Run M.step s turns s') (hI : I s.shared) (hA : ∀ k, A (s.locals k) s.shared)
    (hstart : ¬ E (s.locals k)) (hend : E (s'.locals k)) :
    M.Passes s turns s' k fun j t c => R j t c ∧ Relation.ReflTransGen G c s'.shared := by
  induction run with
  | nil s => exact absurd hend hstart
  | @cons s s₀ s' turn turns guard accepted rest ih =>
    obtain ⟨hI', hG⟩ := h.guarantee hI hA accepted
    have hA' := h.step hI hA accepted
    by_cases hE : E (s₀.locals k)
    · rcases Clients.turn_cases (k := k) accepted with ⟨-, hkept⟩ | ⟨j, rfl, hown⟩
      · rw [hkept] at hE
        exact absurd hE hstart
      · have hR := (hstep hI (hA k) hown hE).resolve_left hstart
        have hpath := (h.run_guarantee rest hI' hA').head hG
        exact ⟨[], j, turns, s, s₀, rfl, .nil s, accepted, rest, hR, hpath⟩
    · exact .cons accepted (ih hI' hA' hE hend)

end RelyGuarantee

/-! ## Clients that come to an end -/

/-- A step of a client leads from one of its local states to another, whatever the shared state. -/
def Clients.Follows (M : Clients σ τ κ ι ε) (t' t : τ) : Prop :=
  ∃ j c c', M.client j t c = .ok (t', c')

/-- Where the steps of a client are well-founded, whatever the shared state does, a client has a last
turn in every infinite run. -/
theorem Clients.exists_last_turn {M : Clients σ τ κ ι ε} (hwf : WellFounded M.Follows)
    {states : ℕ → Joint σ τ K} {schedule : ℕ → Turn K κ ι}
    (hstep : ∀ n, M.step (schedule n) (states n) = .ok (states (n + 1))) (k : K) :
    ∃ last, ∀ n, last ≤ n → (schedule n).isOf k = false := by
  -- The client stays in a local state that is minimal among those that it gets to.
  obtain ⟨t, ⟨last, hlast⟩, hmin⟩ :=
    hwf.has_min (Set.range fun n => (states n).locals k) ⟨_, 0, rfl⟩
  have hturn : ∀ n, (states n).locals k = t →
      (schedule n).isOf k = false ∧ (states (n + 1)).locals k = t := by
    intro n hn
    rcases Clients.turn_cases (k := k) (hstep n) with ⟨hother, hkept⟩ | ⟨j, -, hown⟩
    · exact ⟨hother, hkept.trans hn⟩
    · have hfollows : M.Follows ((states (n + 1)).locals k) t := hn ▸ ⟨j, _, _, hown⟩
      exact absurd hfollows (hmin _ ⟨n + 1, rfl⟩)
  have hstay : ∀ n, last ≤ n → (states n).locals k = t := by
    intro n hn
    induction n, hn using Nat.le_induction with
    | base => exact hlast
    | succ n _ ih => exact (hturn n ih).2
  exact ⟨last, fun n hn => (hturn n (hstay n hn)).1⟩

/-- Where the steps of a client are well-founded, and it has one in every state with `I` until it is in
`D`, its own turns lead it there. -/
theorem Clients.exists_finish {M : Clients σ τ κ ι ε} (hwf : WellFounded M.Follows)
    {I : Joint σ τ K → Prop} {D : τ → Prop} {k : K}
    (hstep : ∀ s, I s → D (s.locals k) ∨ ∃ j s', M.step (.client k j) s = .ok s' ∧ I s')
    {s : Joint σ τ K} (h : I s) :
    ∃ (js : List κ) (s' : Joint σ τ K), Run M.step s (js.map (Turn.client k)) s' ∧ D (s'.locals k) := by
  generalize ht : s.locals k = t
  induction t using hwf.induction generalizing s with
  | h t ih =>
    rcases hstep s h with hdone | ⟨j, s₁, hj, h₁⟩
    · exact ⟨[], s, .nil s, hdone⟩
    · have hfollows : M.Follows (s₁.locals k) t := ht ▸ ⟨j, _, _, Clients.client_eq_ok hj⟩
      obtain ⟨js, s', run, hdone⟩ := ih _ hfollows h₁ rfl
      exact ⟨j :: js, s', .cons trivial hj run, hdone⟩

/-! ## Windows of a schedule -/

section Window

variable {α : Type*} {p q : α → Bool} {before mid after : List α} {x y : α}

/-- What stands between the first element with `p` and the next one with `q`. -/
def window (p q : α → Bool) (l : List α) : List α :=
  ((l.dropWhile fun x => !p x).tail).takeWhile fun x => !q x

/-- A window from the first element with `p` to the first one with `q` after it. -/
theorem window_eq (hbefore : ∀ z ∈ before, p z = false) (hx : p x = true)
    (hmid : ∀ z ∈ mid, q z = false) (hy : q y = true) :
    window p q (before ++ x :: (mid ++ y :: after)) = mid := by
  have hdrop : (before ++ x :: (mid ++ y :: after)).dropWhile (fun x => !p x) =
      x :: (mid ++ y :: after) := by
    rw [List.dropWhile_append_of_pos fun z hz => by rw [hbefore z hz]; rfl]
    exact List.dropWhile_cons_of_neg (by rw [hx]; exact Bool.false_ne_true)
  rw [window, hdrop, List.tail_cons,
    List.takeWhile_append_of_pos fun z hz => by rw [hmid z hz]; rfl,
    List.takeWhile_cons_of_neg (by rw [hy]; exact Bool.false_ne_true), List.append_nil]

end Window

end Machine
