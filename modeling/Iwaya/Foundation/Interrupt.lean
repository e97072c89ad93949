import Mathlib.Data.List.Induction
import Mathlib.Logic.Relation
import Iwaya.Foundation.Prog

/-!
# Programs in a process that a signal can end

A program runs in a process, one call at a time. At any moment a signal can arrive: it is
queued if what the process has done so far makes it caught, and ends the process on the
spot otherwise, without anything the program would still have done. Beside the process
there is an outside that changes by itself (`drift`).

A history (`Effects.History`) is any interleaving of the three, with the configurations
it visited and those at which a signal arrived. Whatever happened, what the process did
is the beginning of one of the program's runs (`Effects.History.within`), and a killed
process was killed at one of the signals (`Effects.History.killed`).
-/

namespace Effects

open Relation

variable {Kind : Type} {Arg Ans : Kind → Type} {ε α σ : Type}

/-- **The process**: running, over, or killed. -/
inductive Process (Arg Ans : Kind → Type) (ε α : Type) where
  /-- Still running this program. -/
  | live (p : Prog Arg Ans ε α)
  /-- Over, with a result. -/
  | ended (r : Except ε α)
  /-- Ended by a signal. -/
  | killed

/-- The process is no more. -/
def Process.Terminated : Process Arg Ans ε α → Prop
  | live _ => False
  | ended _ => True
  | killed => True

/-- The process, what it did, and its outside. -/
structure Snapshot (Arg Ans : Kind → Type) (ε α σ : Type) where
  process : Process Arg Ans ε α
  trace : List (Event Arg Ans)
  outside : σ

/-- What happens without a signal. -/
inductive Advance (drift : σ → σ → Prop) : Snapshot Arg Ans ε α σ → Snapshot Arg Ans ε α σ → Prop
  /-- The process makes its next call. -/
  | call {k : Kind} {x : Arg k} {next : Ans k → Prog Arg Ans ε α} {tr : List (Event Arg Ans)}
    {s : σ} (ans : Ans k) :
    Advance drift ⟨.live (.call k x next), tr, s⟩ ⟨.live (next ans), tr ++ [⟨k, x, ans⟩], s⟩
  /-- It is done. -/
  | done {a : α} {tr : List (Event Arg Ans)} {s : σ} :
    Advance drift ⟨.live (.done a), tr, s⟩ ⟨.ended (.ok a), tr, s⟩
  /-- It has failed. -/
  | fail {e : ε} {tr : List (Event Arg Ans)} {s : σ} :
    Advance drift ⟨.live (.fail e), tr, s⟩ ⟨.ended (.error e), tr, s⟩
  /-- The outside changes. -/
  | drift {q : Process Arg Ans ε α} {tr : List (Event Arg Ans)} {s s' : σ} (h : drift s s') :
    Advance drift ⟨q, tr, s⟩ ⟨q, tr, s'⟩

/-- A signal arrives at a running process. -/
inductive Signal (caught : List (Event Arg Ans) → Prop) :
    Snapshot Arg Ans ε α σ → Snapshot Arg Ans ε α σ → Prop
  /-- It is queued. -/
  | queued {p : Prog Arg Ans ε α} {tr : List (Event Arg Ans)} {s : σ} (h : caught tr) :
    Signal caught ⟨.live p, tr, s⟩ ⟨.live p, tr, s⟩
  /-- It ends the process. -/
  | kill {p : Prog Arg Ans ε α} {tr : List (Event Arg Ans)} {s : σ} (h : ¬caught tr) :
    Signal caught ⟨.live p, tr, s⟩ ⟨.killed, tr, s⟩

/-- **A history**: the configurations at which a signal arrived, the ones that were
visited, and the last of these. -/
inductive History (caught : List (Event Arg Ans) → Prop) (drift : σ → σ → Prop)
    (c₀ : Snapshot Arg Ans ε α σ) :
    List (Snapshot Arg Ans ε α σ) → List (Snapshot Arg Ans ε α σ) → Snapshot Arg Ans ε α σ → Prop
  /-- Nothing has happened. -/
  | start : History caught drift c₀ [] [c₀] c₀
  /-- The process or its outside goes on. -/
  | step {signals visited : List (Snapshot Arg Ans ε α σ)} {c c' : Snapshot Arg Ans ε α σ}
    (h : History caught drift c₀ signals visited c) (hs : Advance drift c c') :
    History caught drift c₀ signals (c' :: visited) c'
  /-- A signal arrives. -/
  | signal {signals visited : List (Snapshot Arg Ans ε α σ)} {c c' : Snapshot Arg Ans ε α σ}
    (h : History caught drift c₀ signals visited c) (hs : Signal caught c c') :
    History caught drift c₀ (c :: signals) (c' :: visited) c'

variable {caught : List (Event Arg Ans) → Prop} {drift : σ → σ → Prop} {p : Prog Arg Ans ε α}
  {s₀ : σ} {c₀ c c' : Snapshot Arg Ans ε α σ} {signals visited : List (Snapshot Arg Ans ε α σ)}

/-- **Every visited configuration ends a shorter history.** -/
theorem History.shorten (h : History caught drift c₀ signals visited c)
    {v : Snapshot Arg Ans ε α σ} (hv : v ∈ visited) :
    ∃ signals' visited', History caught drift c₀ signals' visited' v ∧ signals' ⊆ signals := by
  induction h with
  | start =>
    obtain rfl := List.mem_singleton.mp hv
    exact ⟨_, _, .start, List.Subset.refl _⟩
  | step h hs ih =>
    rcases List.mem_cons.mp hv with rfl | hv
    · exact ⟨_, _, h.step hs, List.Subset.refl _⟩
    · exact ih hv
  | signal h hs ih =>
    rcases List.mem_cons.mp hv with rfl | hv
    · exact ⟨_, _, h.signal hs, List.Subset.refl _⟩
    · obtain ⟨signals', visited', h', hsub⟩ := ih hv
      exact ⟨signals', visited', h', List.subset_cons_of_subset _ hsub⟩

/-- Signals arrive at visited configurations, whose outcome is visited too. -/
theorem History.of_signal (h : History caught drift c₀ signals visited c)
    {s : Snapshot Arg Ans ε α σ} (hs : s ∈ signals) :
    s ∈ visited ∧ ∃ v ∈ visited, Signal caught s v := by
  have hlast : ∀ {signals visited c}, History caught drift c₀ signals visited c → c ∈ visited := by
    rintro _ _ _ (_ | _ | _) <;> exact List.mem_cons_self
  induction h with
  | start => cases hs
  | step h hstep ih =>
    obtain ⟨h1, v, hv, h2⟩ := ih hs
    exact ⟨List.mem_cons_of_mem _ h1, v, List.mem_cons_of_mem _ hv, h2⟩
  | signal h hsig ih =>
    rcases List.mem_cons.mp hs with rfl | hs
    · exact ⟨List.mem_cons_of_mem _ (hlast h), _, List.mem_cons_self, hsig⟩
    · obtain ⟨h1, v, hv, h2⟩ := ih hs
      exact ⟨List.mem_cons_of_mem _ h1, v, List.mem_cons_of_mem _ hv, h2⟩

/-! ### What the process did -/

/-- What a configuration did so far, as a beginning of the runs of a program. -/
def Snapshot.Within (p : Prog Arg Ans ε α) (c : Snapshot Arg Ans ε α σ) : Prop :=
  match c.process with
  | .live q => ∀ t r, Runs q t r → Runs p (c.trace ++ t) r
  | .ended r => Runs p c.trace r
  | .killed => ∃ q : Prog Arg Ans ε α, ∀ t r, Runs q t r → Runs p (c.trace ++ t) r

/-- A step stays within the program. -/
theorem Advance.within (hs : Advance drift c c') (hc : c.Within p) : c'.Within p := by
  rcases hs with ⟨ans⟩ | _ | _ | hd
  · -- a run of what is left is one of the call with this answer
    intro t r hr
    simpa using hc _ _ (.call ans hr)
  · have h : Runs p _ _ := hc _ _ (.done _)
    rwa [List.append_nil] at h
  · have h : Runs p _ _ := hc _ _ (.fail _)
    rwa [List.append_nil] at h
  · exact hc

/-- So does a signal. -/
theorem Signal.within (hs : Signal caught c c') (hc : c.Within p) : c'.Within p := by
  rcases hs with h | h
  · exact hc
  · exact ⟨_, hc⟩

/-- **Every configuration of a history is within the program.** -/
theorem History.within (h : History caught drift ⟨.live p, [], s₀⟩ signals visited c) :
    c.Within p := by
  induction h with
  | start => exact fun t r hr => hr
  | step _ hs ih => exact hs.within ih
  | signal _ hs ih => exact hs.within ih

/-- What a configuration did is the beginning of a run. -/
theorem Snapshot.Within.exists_runs (env : Env Ans) (h : c.Within p) :
    ∃ t r, Runs p (c.trace ++ t) r := by
  obtain ⟨process, tr, s⟩ := c
  rcases process with q | r | _
  · exact ⟨_, _, h _ _ (runs_exec env 0 q)⟩
  · have h : Runs p tr r := h
    exact ⟨[], r, by rwa [List.append_nil]⟩
  · obtain ⟨q, hq⟩ := h
    exact ⟨_, _, hq _ _ (runs_exec env 0 q)⟩

/-- **A killed process was killed at a signal** that was not caught, and did nothing
since. -/
theorem History.killed (h : History caught drift ⟨.live p, [], s₀⟩ signals visited c)
    (hk : c.process = .killed) : ∃ s ∈ signals, ¬caught s.trace ∧ s.trace = c.trace ∧
      ReflTransGen drift s.outside c.outside := by
  induction h with
  | start => cases hk
  | step h hs ih =>
    -- of these steps only the outside's leave a killed process as it is
    rcases hs with ⟨ans⟩ | _ | _ | hd
    · cases hk
    · cases hk
    · cases hk
    · obtain ⟨s, hs, hn, ht, hr⟩ := ih hk
      exact ⟨s, hs, hn, ht, hr.tail hd⟩
  | signal h hs ih =>
    rcases hs with _ | hn
    · cases hk
    · exact ⟨_, List.mem_cons_self, hn, rfl, .refl⟩

/-- **Any beginning of a run is reached without a signal.** -/
theorem history_of_runs {t₁ t₂ : List (Event Arg Ans)} {r : Except ε α} (h : Runs p (t₁ ++ t₂) r)
    (s₀ : σ) : ∃ q visited, History caught drift ⟨.live p, [], s₀⟩ [] visited ⟨.live q, t₁, s₀⟩ ∧
      Runs q t₂ r := by
  induction t₁ using List.reverseRecOn generalizing t₂ with
  | nil => exact ⟨p, _, .start, h⟩
  | append_singleton t₁ e ih =>
    rw [List.append_assoc, List.singleton_append] at h
    obtain ⟨q, visited, hq, hr⟩ := ih h
    obtain ⟨ans, hr⟩ := hr
    exact ⟨_, _, hq.step (.call _), by assumption⟩

end Effects
