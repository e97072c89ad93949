import Iwaya.Foundation.Interrupt

/-!
# Programs that follow a protocol

What a program may call depends on what it has done: a handle is used while it is open, a
child is reaped after it was started. Such a rule is an automaton over the events (`step`),
undefined where an event is not allowed, and a program follows it from a state
(`Effects.Follows`) if no run of it gets stuck there; the postcondition says in which state
each result is given.

The rules are closed under sequencing and under cleanups, a cleanup being what takes the
state back (`Effects.Follows.scope`). Since a process that is interrupted has done the
beginning of a run, it has kept to the protocol as well (`Effects.Snapshot.Within.follows`).
-/

namespace Effects

variable {Kind : Type} {Arg Ans : Kind → Type} {ε ε' α β σ : Type}

open Prog

/-- The automaton of a protocol. -/
abbrev Protocol (Arg Ans : Kind → Type) (σ : Type) : Type := σ → Event Arg Ans → Option σ

/-- **Following a protocol** from a state on: every run is allowed, and ends in a state that
goes with its result. -/
def Follows (step : Protocol Arg Ans σ) (s : σ) (P : Except ε α → σ → Prop)
    (p : Prog Arg Ans ε α) : Prop :=
  ∀ tr r, Runs p tr r → ∃ s', tr.foldlM step s = some s' ∧ P r s'

/-- The postcondition that says nothing of the result. -/
def Ends (s : σ) : Except ε α → σ → Prop := fun _ s' => s' = s

/-- The postcondition of a program that gains something: `f a` is the state with what it has
gained, and `s` the state without. -/
def Gains (f : α → σ) (s : σ) : Except ε α → σ → Prop
  | .ok a, s' => s' = f a
  | .error _, s' => s' = s

/-- The postcondition that says something of a result, and nothing of an error. -/
def Given (R : α → σ → Prop) : Except ε α → σ → Prop
  | .ok a, s' => R a s'
  | .error _, _ => True

variable {step : Protocol Arg Ans σ} {s s' : σ} {P P' : Except ε α → σ → Prop}
  {Q : Except ε β → σ → Prop} {p : Prog Arg Ans ε α} {tr : List (Event Arg Ans)}

theorem follows_done {a : α} (h : P (.ok a) s) : Follows step s P (done a) := by
  intro tr r hr
  obtain ⟨rfl, rfl⟩ := runs_done_iff.mp hr
  exact ⟨s, rfl, h⟩

theorem follows_fail {e : ε} (h : P (.error e) s) : Follows step s P (fail e) := by
  intro tr r hr
  obtain ⟨rfl, rfl⟩ := runs_fail_iff.mp hr
  exact ⟨s, rfl, h⟩

theorem follows_ofExcept {c : Except ε α} (h : P c s) :
    Follows step s P (Prog.ofExcept c : Prog Arg Ans ε α) := by
  cases c with
  | ok a => exact follows_done h
  | error e => exact follows_fail h

theorem Follows.mono (hp : Follows step s P p) (h : ∀ r s', P r s' → P' r s') :
    Follows step s P' p := by
  intro tr r hr
  obtain ⟨s', hs', hP⟩ := hp tr r hr
  exact ⟨s', hs', h r s' hP⟩

/-- **The rule for sequencing.** -/
theorem Follows.bind {f : α → Prog Arg Ans ε β} (hp : Follows step s P p)
    (herror : ∀ e s', P (.error e) s' → Q (.error e) s')
    (hf : ∀ a s', P (.ok a) s' → Follows step s' Q (f a)) : Follows step s Q (p.bind f) := by
  intro tr r hr
  rcases runs_bind_iff.mp hr with ⟨e, rfl, h⟩ | ⟨a, t₁, t₂, rfl, h₁, h₂⟩
  · obtain ⟨s', hs', hP⟩ := hp _ _ h
    exact ⟨s', hs', herror e s' hP⟩
  · obtain ⟨s₁, hs₁, hP⟩ := hp _ _ h₁
    obtain ⟨s₂, hs₂, hQ⟩ := hf a s₁ hP _ _ h₂
    exact ⟨s₂, by rw [List.foldlM_append, hs₁]; exact hs₂, hQ⟩

/-- Sequencing after a part that ends in one state. -/
theorem Follows.then {f : α → Prog Arg Ans ε β} (hp : Follows step s (Ends s') p)
    (herror : ∀ e, Q (.error e) s') (hf : ∀ a, Follows step s' Q (f a)) :
    Follows step s Q (p.bind f) :=
  hp.bind (fun e _ h => h ▸ herror e) fun a _ h => h ▸ hf a

/-- Sequencing after a part that gains something. -/
theorem Follows.gain {g : α → σ} {f : α → Prog Arg Ans ε β} (hp : Follows step s (Gains g s') p)
    (herror : ∀ e, Q (.error e) s') (hf : ∀ a, Follows step (g a) Q (f a)) :
    Follows step s Q (p.bind f) :=
  hp.bind (fun e _ h => h ▸ herror e) fun a _ h => h ▸ hf a

/-- Sequencing where nothing is said of an error. -/
theorem Follows.given {R : α → σ → Prop} {R' : β → σ → Prop} {f : α → Prog Arg Ans ε β}
    (hp : Follows step s (Given R) p) (hf : ∀ a s', R a s' → Follows step s' (Given R') (f a)) :
    Follows step s (Given R') (p.bind f) :=
  hp.bind (fun _ _ _ => trivial) hf

/-- A call and what comes after it: each answer takes the state on. -/
theorem follows_perform_bind {k : Kind} {x : Arg k} {f : Ans k → Prog Arg Ans ε β}
    (h : ∀ ans, ∃ s', step s ⟨k, x, ans⟩ = some s' ∧ Follows step s' Q (f ans)) :
    Follows step s Q ((perform k x).bind f) := by
  intro tr r hr
  obtain ⟨ans, t, rfl, ht⟩ := runs_perform_bind_iff.mp hr
  obtain ⟨s', hs', hf⟩ := h ans
  obtain ⟨s'', hs'', hQ⟩ := hf _ _ ht
  exact ⟨s'', by rw [List.foldlM_cons, hs']; exact hs'', hQ⟩

theorem follows_perform {k : Kind} {x : Arg k} {P : Except ε (Ans k) → σ → Prop}
    (h : ∀ ans, ∃ s', step s ⟨k, x, ans⟩ = some s' ∧ P (.ok ans) s') :
    Follows step s P (perform k x) :=
  follows_perform_bind fun ans => (h ans).imp fun _ hs => ⟨hs.1, follows_done hs.2⟩

theorem Follows.mapError {g : ε → ε'} {P' : Except ε' α → σ → Prop} (hp : Follows step s P p)
    (h : ∀ r s', P r s' → P' (r.mapError g) s') : Follows step s P' (p.mapError g) := by
  intro tr r hr
  obtain ⟨r', hr', rfl⟩ := runs_mapError_iff.mp hr
  obtain ⟨s', hs', hP⟩ := hp _ _ hr'
  exact ⟨s', hs', h r' s' hP⟩

theorem Follows.mapError_ends (g : ε → ε') (hp : Follows step s (Ends s') p) :
    Follows step s (Ends s') (p.mapError g) :=
  hp.mapError fun _ _ h => h

theorem Follows.mapError_gains {f : α → σ} (g : ε → ε') (hp : Follows step s (Gains f s') p) :
    Follows step s (Gains f s') (p.mapError g) :=
  hp.mapError fun r _ h => by cases r <;> exact h

theorem Follows.mapError_given {R : α → σ → Prop} (g : ε → ε') (hp : Follows step s (Given R) p) :
    Follows step s (Given R) (p.mapError g) :=
  hp.mapError fun r _ h => by cases r <;> exact h

/-- A cleanup on the failing ways out takes the state back on them. -/
theorem Follows.onFail {c : Prog Arg Ans Empty Unit} (hp : Follows step s P p)
    (hok : ∀ a s', P (.ok a) s' → P' (.ok a) s')
    (hc : ∀ e s', P (.error e) s' → Follows step s' (fun _ s'' => P' (.error e) s'') c) :
    Follows step s P' (p.onFail c) := by
  intro tr r hr
  rcases runs_onFail_iff.mp hr with ⟨a, rfl, h⟩ | ⟨e, t₁, t₂, rfl, rfl, h₁, h₂⟩
  · obtain ⟨s', hs', hP⟩ := hp _ _ h
    exact ⟨s', hs', hok a s' hP⟩
  · obtain ⟨s₁, hs₁, hP⟩ := hp _ _ h₁
    obtain ⟨s₂, hs₂, hP'⟩ := hc e s₁ hP _ _ h₂
    exact ⟨s₂, by rw [List.foldlM_append, hs₁]; exact hs₂, hP'⟩

/-- Something gained that a cleanup gives back unless the program hands it over. -/
theorem Follows.handOver {c : Prog Arg Ans Empty Unit} {s₁ s₂ : σ}
    (hp : Follows step s (Ends s₁) p) (hc : Follows step s₁ (Ends s₂) c) :
    Follows step s (Gains (fun _ => s₁) s₂) (p.onFail c) :=
  hp.onFail (fun _ _ h => h) fun _ _ h => by
    rw [h]
    exact hc

/-- **The rule for destructors**: what the body ends in, the cleanup takes back, whatever
the body's result. -/
theorem Follows.scope {c : Prog Arg Ans Empty Unit} (hp : Follows step s P p)
    (hc : ∀ r s', P r s' → Follows step s' (fun _ s'' => P' r s'') c) :
    Follows step s P' (p.scope c) := by
  intro tr r hr
  obtain ⟨t₁, t₂, rfl, h₁, h₂⟩ := runs_scope_iff.mp hr
  obtain ⟨s₁, hs₁, hP⟩ := hp _ _ h₁
  obtain ⟨s₂, hs₂, hP'⟩ := hc r s₁ hP _ _ h₂
  exact ⟨s₂, by rw [List.foldlM_append, hs₁]; exact hs₂, hP'⟩

theorem Follows.scope_ends {c : Prog Arg Ans Empty Unit} {s₁ s₂ : σ}
    (hp : Follows step s (Ends s₁) p) (hc : Follows step s₁ (Ends s₂) c) :
    Follows step s (Ends s₂) (p.scope c) :=
  hp.scope fun _ _ h => by
    rw [h]
    exact hc

/-- **The rule for loops**: the state is the same before and after each pass. -/
theorem follows_traverse {f : α → Prog Arg Ans ε β} {l : List α}
    (hf : ∀ a ∈ l, Follows step s (Ends s) (f a)) :
    Follows step s (Ends s) (Prog.traverse f l) := by
  induction l with
  | nil => exact follows_done rfl
  | cons a l ih =>
    refine (hf a List.mem_cons_self).then (fun _ => rfl) fun b => ?_
    refine (ih fun x hx => hf x (List.mem_cons_of_mem _ hx)).then (fun _ => rfl) fun bs => ?_
    exact follows_done rfl

/-- Events that leave a state as it is, one after the other. -/
theorem foldlM_of_forall (h : ∀ e ∈ tr, step s e = some s) : tr.foldlM step s = some s := by
  induction tr with
  | nil => rfl
  | cons e tr ih =>
    rw [List.foldlM_cons, h e List.mem_cons_self]
    exact ih fun x hx => h x (List.mem_cons_of_mem _ hx)

/-- **A program whose events leave the state as it is** follows the protocol from it. -/
theorem follows_of_emits {C : Event Arg Ans → Prop} (hp : Emits C p)
    (h : ∀ e, C e → step s e = some s) : Follows step s (Ends s) p :=
  fun tr r hr => ⟨s, foldlM_of_forall fun e he => h e (hp tr r hr e he), rfl⟩

/-! ### Two protocols at once -/

/-- Both protocols, each in its own state. -/
def Protocol.prod {τ : Type} (step : Protocol Arg Ans σ) (step' : Protocol Arg Ans τ) :
    Protocol Arg Ans (σ × τ) :=
  fun s e => (step s.1 e).bind fun a => (step' s.2 e).map fun b => (a, b)

/-- What one event does to both. -/
theorem Protocol.prod_eq_some {τ : Type} {step : Protocol Arg Ans σ} {step' : Protocol Arg Ans τ}
    {s s' : σ × τ} {e : Event Arg Ans} : step.prod step' s e = some s' ↔
      step s.1 e = some s'.1 ∧ step' s.2 e = some s'.2 := by
  obtain ⟨a, b⟩ := s'
  simp only [Protocol.prod, Option.bind_eq_some_iff, Option.map_eq_some_iff, Prod.mk.injEq]
  constructor
  · rintro ⟨x, hx, y, hy, rfl, rfl⟩
    exact ⟨hx, hy⟩
  · rintro ⟨hx, hy⟩
    exact ⟨a, hx, b, hy, rfl, rfl⟩

/-- What many do. -/
theorem foldlM_prod_iff {τ : Type} {step : Protocol Arg Ans σ} {step' : Protocol Arg Ans τ}
    {s s' : σ × τ} : tr.foldlM (step.prod step') s = some s' ↔
      tr.foldlM step s.1 = some s'.1 ∧ tr.foldlM step' s.2 = some s'.2 := by
  induction tr generalizing s with
  | nil => simp [Prod.ext_iff]
  | cons e tr ih =>
    simp only [List.foldlM_cons, Option.bind_eq_bind, Option.bind_eq_some_iff]
    constructor
    · rintro ⟨s₁, he, htr⟩
      obtain ⟨h1, h2⟩ := Protocol.prod_eq_some.mp he
      obtain ⟨h3, h4⟩ := ih.mp htr
      exact ⟨⟨s₁.1, h1, h3⟩, s₁.2, h2, h4⟩
    · rintro ⟨⟨a, h1, h3⟩, b, h2, h4⟩
      exact ⟨(a, b), Protocol.prod_eq_some.mpr ⟨h1, h2⟩, ih.mpr ⟨h3, h4⟩⟩

/-- **A program that follows two protocols follows both at once.** -/
theorem Follows.prod {τ : Type} {step' : Protocol Arg Ans τ} {t : τ} {P' : Except ε α → τ → Prop}
    (hp : Follows step s P p) (hp' : Follows step' t P' p) :
    Follows (step.prod step') (s, t) (fun r q => P r q.1 ∧ P' r q.2) p := by
  intro tr r hr
  obtain ⟨a, ha, hP⟩ := hp tr r hr
  obtain ⟨b, hb, hP'⟩ := hp' tr r hr
  exact ⟨(a, b), foldlM_prod_iff.mpr ⟨ha, hb⟩, hP, hP'⟩

/-! ### Interrupted processes -/

/-- A protocol is kept by every beginning of what keeps it. -/
theorem exists_foldlM_of_append {t₁ t₂ : List (Event Arg Ans)} {s' : σ}
    (h : (t₁ ++ t₂).foldlM step s = some s') :
    ∃ s₁, t₁.foldlM step s = some s₁ ∧ t₂.foldlM step s₁ = some s' := by
  rw [List.foldlM_append] at h
  exact Option.bind_eq_some_iff.mp h

/-- **A property kept by every allowed event** holds after all of them. -/
theorem foldlM_keeps {I : σ → Prop} (hstep : ∀ s e s', e ∈ tr → step s e = some s' → I s → I s')
    (h : tr.foldlM step s = some s') (hs : I s) : I s' := by
  induction tr generalizing s with
  | nil =>
    obtain rfl := Option.some.inj h
    exact hs
  | cons e tr ih =>
    rw [List.foldlM_cons] at h
    obtain ⟨s₁, h₁, h₂⟩ := Option.bind_eq_some_iff.mp h
    exact ih (fun s e s' he => hstep s e s' (List.mem_cons_of_mem _ he)) h₂
      (hstep s e s₁ List.mem_cons_self h₁ hs)

/-- **A process keeps to the protocol** wherever it is interrupted. -/
theorem Snapshot.Within.follows {τ : Type} {c : Snapshot Arg Ans ε α τ} (env : Env Ans)
    (hw : c.Within p) (hp : Follows step s P p) : ∃ s', c.trace.foldlM step s = some s' := by
  obtain ⟨t, r, hr⟩ := hw.exists_runs env
  obtain ⟨s', hs', -⟩ := hp _ _ hr
  obtain ⟨s₁, hs₁, -⟩ := exists_foldlM_of_append hs'
  exact ⟨s₁, hs₁⟩

end Effects
