import Iwaya.Foundation.Interrupt

/-!
# Programs beside other parties

A program runs in a process, and the process is not alone: what is around it decides how
and when a call is answered (`Effects.Surroundings.answers`), goes on by itself while the
process computes or waits in a call (`Effects.Surroundings.moves`), and survives the
process when that is killed (`Effects.Surroundings.kills`).

A course (`Effects.Surroundings.Course`) is any order of such turns that a condition
allows, one turn at a time. Every property of a course is proved by what one turn keeps
(`Effects.Surroundings.Course.keeps`), with what the process did so far always the
beginning of a run of its program.
-/

namespace Effects

open Relation

variable {Kind : Type} {Arg Ans : Kind → Type} {ε α σ Λ : Type}

/-- A call under way. -/
structure Waiting (Arg : Kind → Type) where
  kind : Kind
  arg : Arg kind

/-- The call a process is in. -/
def Process.waiting : Process Arg Ans ε α → Option (Waiting Arg)
  | live (.call k x _) => some ⟨k, x⟩
  | _ => none

/-- A process in a call is live, and goes on with the answer. -/
theorem Process.waiting_eq_some {q : Process Arg Ans ε α} {w : Waiting Arg} :
    q.waiting = some w ↔ ∃ next, q = .live (.call w.kind w.arg next) := by
  constructor
  · intro h
    rcases q with (a | e | ⟨k, x, next⟩) | r | _
    · cases h
    · cases h
    · obtain rfl := Option.some.inj h
      exact ⟨next, rfl⟩
    · cases h
    · cases h
  · rintro ⟨next, rfl⟩
    rfl

/-- **What is around a process**, in a state and with kinds of moves of its own. -/
structure Surroundings (Arg Ans : Kind → Type) (σ Λ : Type) where
  /-- A call returns. -/
  answers : σ → Event Arg Ans → σ → Prop
  /-- Something happens, while the process is in a call or not. -/
  moves : Option (Waiting Arg) → σ → Λ → σ → Prop
  /-- The process is killed. -/
  kills : σ → σ → Prop

/-- What happens next. -/
inductive Turn (Arg Ans : Kind → Type) (Λ : Type) where
  | answer (e : Event Arg Ans)
  | move (l : Λ)
  | over
  | kill

/-- **One turn.** -/
inductive Surroundings.Takes (w : Surroundings Arg Ans σ Λ) :
    Snapshot Arg Ans ε α σ → Turn Arg Ans Λ → Snapshot Arg Ans ε α σ → Prop
  /-- The call the process is in is answered. -/
  | answer {k : Kind} {x : Arg k} {next : Ans k → Prog Arg Ans ε α} {tr : List (Event Arg Ans)}
    {s s' : σ} {ans : Ans k} (h : w.answers s ⟨k, x, ans⟩ s') :
    Takes w ⟨.live (.call k x next), tr, s⟩ (.answer ⟨k, x, ans⟩)
      ⟨.live (next ans), tr ++ [⟨k, x, ans⟩], s'⟩
  /-- The surroundings move. -/
  | move {q : Process Arg Ans ε α} {tr : List (Event Arg Ans)} {s s' : σ} {l : Λ}
    (h : w.moves q.waiting s l s') : Takes w ⟨q, tr, s⟩ (.move l) ⟨q, tr, s'⟩
  /-- The program is done. -/
  | done {a : α} {tr : List (Event Arg Ans)} {s : σ} :
    Takes w ⟨.live (.done a), tr, s⟩ .over ⟨.ended (.ok a), tr, s⟩
  /-- It has failed. -/
  | fail {e : ε} {tr : List (Event Arg Ans)} {s : σ} :
    Takes w ⟨.live (.fail e), tr, s⟩ .over ⟨.ended (.error e), tr, s⟩
  /-- It is killed. -/
  | kill {p : Prog Arg Ans ε α} {tr : List (Event Arg Ans)} {s s' : σ} (h : w.kills s s') :
    Takes w ⟨.live p, tr, s⟩ .kill ⟨.killed, tr, s'⟩

/-- **A course**: any turns that the condition allows where they are taken. -/
def Surroundings.Course (w : Surroundings Arg Ans σ Λ)
    (allowed : Snapshot Arg Ans ε α σ → Turn Arg Ans Λ → Prop) :
    Snapshot Arg Ans ε α σ → Snapshot Arg Ans ε α σ → Prop :=
  ReflTransGen fun c c' => ∃ t, w.Takes c t c' ∧ allowed c t

/-- No condition on the turns. -/
def anyTurn : Snapshot Arg Ans ε α σ → Turn Arg Ans Λ → Prop := fun _ _ => True

namespace Surroundings

variable {w : Surroundings Arg Ans σ Λ} {p : Prog Arg Ans ε α} {s₀ : σ}
  {allowed : Snapshot Arg Ans ε α σ → Turn Arg Ans Λ → Prop} {c c' c'' : Snapshot Arg Ans ε α σ}
  {t : Turn Arg Ans Λ}

/-- A turn stays within the program. -/
theorem Takes.within (h : w.Takes c t c') (hc : c.Within p) : c'.Within p := by
  rcases h with h | h | _ | _ | h
  · intro t r hr
    simpa using hc _ _ (.call _ hr)
  · exact hc
  · have h : Runs p _ _ := hc _ _ (.done _)
    rwa [List.append_nil] at h
  · have h : Runs p _ _ := hc _ _ (.fail _)
    rwa [List.append_nil] at h
  · exact ⟨_, hc⟩

/-- **What every turn keeps holds after any course**, and the process is within its
program throughout. -/
theorem Course.keeps {I : Snapshot Arg Ans ε α σ → Prop}
    (h : w.Course allowed ⟨.live p, [], s₀⟩ c) (start : I ⟨.live p, [], s₀⟩)
    (step : ∀ c t c', c.Within p → I c → w.Takes c t c' → allowed c t → I c') :
    c.Within p ∧ I c := by
  induction h with
  | refl => exact ⟨fun t r hr => hr, start⟩
  | tail _ hs ih =>
    obtain ⟨t, ht, hok⟩ := hs
    exact ⟨ht.within ih.1, step _ t _ ih.1 ih.2 ht hok⟩

/-! ### Courses along a run -/

/-- **A course that follows a run**: the process did `tr`, and `t` is what it would still
do. -/
def Reaches (w : Surroundings Arg Ans σ Λ) (c₀ : Snapshot Arg Ans ε α σ)
    (tr : List (Event Arg Ans)) (s : σ) (t : List (Event Arg Ans)) (r : Except ε α) : Prop :=
  ∃ q, w.Course anyTurn c₀ ⟨.live q, tr, s⟩ ∧ Runs q t r

section

variable {c₀ : Snapshot Arg Ans ε α σ} {tr t₁ t₂ : List (Event Arg Ans)} {s s' : σ}
  {e : Event Arg Ans} {r : Except ε α} {l : Λ}

/-- A call is answered as in the run. -/
theorem Reaches.answer (h : w.Reaches c₀ tr s (e :: t₂) r) (ha : w.answers s e s') :
    w.Reaches c₀ (tr ++ [e]) s' t₂ r := by
  obtain ⟨q, hq, hr⟩ := h
  rcases hr with _ | _ | ⟨ans, hr⟩
  exact ⟨_, hq.tail ⟨_, .answer ha, trivial⟩, hr⟩

/-- So are many, if the surroundings stay as they are. -/
theorem Reaches.answers (h : w.Reaches c₀ tr s (t₁ ++ t₂) r) (ha : ∀ e ∈ t₁, w.answers s e s) :
    w.Reaches c₀ (tr ++ t₁) s t₂ r := by
  induction t₁ generalizing tr with
  | nil => rwa [List.append_nil]
  | cons e t₁ ih =>
    rw [List.append_cons]
    exact ih (h.answer (ha e List.mem_cons_self)) fun x hx => ha x (List.mem_cons_of_mem e hx)

/-- Something happens during a call. -/
theorem Reaches.move (h : w.Reaches c₀ tr s (e :: t₂) r)
    (hm : w.moves (some ⟨e.kind, e.arg⟩) s l s') : w.Reaches c₀ tr s' (e :: t₂) r := by
  obtain ⟨q, hq, hr⟩ := h
  rcases hr with _ | _ | ⟨ans, hr⟩
  exact ⟨_, hq.tail ⟨_, .move hm, trivial⟩, .call ans hr⟩

/-- At the end of the run the process is over. -/
theorem Reaches.over (h : w.Reaches c₀ tr s [] r) : w.Course anyTurn c₀ ⟨.ended r, tr, s⟩ := by
  obtain ⟨q, hq, hr⟩ := h
  rcases hr with _ | _ | _
  · exact hq.tail ⟨_, .done, trivial⟩
  · exact hq.tail ⟨_, .fail, trivial⟩

/-- And the process is in the next call of the run. -/
theorem Reaches.waiting (h : w.Reaches c₀ tr s (e :: t₂) r) :
    ∃ q, w.Course anyTurn c₀ ⟨q, tr, s⟩ ∧ q.waiting = some ⟨e.kind, e.arg⟩ := by
  obtain ⟨q, hq, hr⟩ := h
  rcases hr with _ | _ | ⟨ans, hr⟩
  exact ⟨_, hq, rfl⟩

end

end Surroundings

/-- **What a process in a call did** begins a run that goes on with any answer. -/
theorem Snapshot.Within.exists_runs_call {p : Prog Arg Ans ε α} (env : Env Ans) {k : Kind}
    {x : Arg k} {next : Ans k → Prog Arg Ans ε α} {tr : List (Event Arg Ans)} {s : σ}
    (h : Snapshot.Within p ⟨.live (.call k x next), tr, s⟩) (ans : Ans k) :
    ∃ t r, Runs p (tr ++ ⟨k, x, ans⟩ :: t) r :=
  ⟨_, _, h _ _ (.call ans (runs_exec env 0 (next ans)))⟩

end Effects
