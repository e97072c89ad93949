import Iwaya.Foundation.Surroundings

/-!
# Courses with their turns, and courses that can be completed

A course says that one configuration is reached from another. `Effects.Surroundings.Follows`
keeps the turns as well, for what is said by counting them; it goes through the same
configurations (`Effects.Surroundings.Follows.course`,
`Effects.Surroundings.exists_follows`).

A process among other parties can also be stuck: it is in a call that nothing around it will
ever answer. If every call it can be in is answered after some moves of the surroundings,
it is never stuck (`Effects.Surroundings.completes`): a program is a finite tree, so that
the answers lead to its end. That the surroundings come to such an answer, and how often they
move before it, is proved by a measure (`Effects.Surroundings.comes_to`,
`Effects.Surroundings.Follows.pays`).
-/

namespace Effects

namespace Surroundings

variable {Kind : Type} {Arg Ans : Kind → Type} {ε α σ Λ : Type} {w : Surroundings Arg Ans σ Λ}
  {c c' c'' : Snapshot Arg Ans ε α σ} {ts : List (Turn Arg Ans Λ)}

/-! ### The turns of a course -/

/-- **A course with the list of its turns.** -/
inductive Follows (w : Surroundings Arg Ans σ Λ) (c : Snapshot Arg Ans ε α σ) :
    List (Turn Arg Ans Λ) → Snapshot Arg Ans ε α σ → Prop
  /-- No turn. -/
  | refl : Follows w c [] c
  /-- One more. -/
  | tail {ts : List (Turn Arg Ans Λ)} {c' c'' : Snapshot Arg Ans ε α σ} {t : Turn Arg Ans Λ}
    (h : Follows w c ts c') (ht : w.Takes c' t c'') : Follows w c (ts ++ [t]) c''

theorem Follows.single {t : Turn Arg Ans Λ} (h : w.Takes c t c') : w.Follows c [t] c' :=
  .tail .refl h

theorem Follows.course (h : w.Follows c ts c') : w.Course anyTurn c c' := by
  induction h with
  | refl => exact .refl
  | tail _ ht ih => exact ih.tail ⟨_, ht, trivial⟩

theorem exists_follows (h : w.Course anyTurn c c') : ∃ ts, w.Follows c ts c' := by
  induction h with
  | refl => exact ⟨[], .refl⟩
  | tail _ hs ih =>
    obtain ⟨ts, h⟩ := ih
    obtain ⟨t, ht, -⟩ := hs
    exact ⟨_, h.tail ht⟩

theorem Follows.trans {ts' : List (Turn Arg Ans Λ)} (h : w.Follows c ts c')
    (h' : w.Follows c' ts' c'') : w.Follows c (ts ++ ts') c'' := by
  induction h' with
  | refl => rwa [List.append_nil]
  | tail _ ht ih =>
    rw [← List.append_assoc]
    exact ih.tail ht

/-! ### Never stuck -/

/-- **What a process does can be completed**, if each call it can come to is answered after
some moves of the surroundings. -/
theorem completes {I : Snapshot Arg Ans ε α σ → Prop}
    (hcall : ∀ (k : Kind) (x : Arg k) (next : Ans k → Prog Arg Ans ε α) tr s,
      I ⟨.live (.call k x next), tr, s⟩ →
      ∃ c ans s', w.Course anyTurn ⟨.live (.call k x next), tr, s⟩ c ∧
        w.Takes c (.answer ⟨k, x, ans⟩) ⟨.live (next ans), tr ++ [⟨k, x, ans⟩], s'⟩ ∧
        I ⟨.live (next ans), tr ++ [⟨k, x, ans⟩], s'⟩)
    {p : Prog Arg Ans ε α} {tr : List (Event Arg Ans)} {s : σ} (h : I ⟨.live p, tr, s⟩) :
    ∃ r t s', w.Course anyTurn ⟨.live p, tr, s⟩ ⟨.ended r, tr ++ t, s'⟩ ∧ Runs p t r := by
  induction p generalizing tr s with
  | done a =>
    refine ⟨_, [], s, ?_, .done a⟩
    rw [List.append_nil]
    exact .single ⟨_, .done, trivial⟩
  | fail e =>
    refine ⟨_, [], s, ?_, .fail e⟩
    rw [List.append_nil]
    exact .single ⟨_, .fail, trivial⟩
  | call k x next ih =>
    obtain ⟨c, ans, s', hc, hans, hI⟩ := hcall k x next tr s h
    obtain ⟨r, t, s'', hend, hruns⟩ := ih ans hI
    refine ⟨r, ⟨k, x, ans⟩ :: t, s'', ?_, .call ans hruns⟩
    rw [List.append_cons]
    exact (hc.tail ⟨_, hans, trivial⟩).trans hend

/-! ### Measures -/

/-- **Turns that cost are paid by a measure** that each of them lowers. -/
theorem Follows.pays {I : Snapshot Arg Ans ε α σ → Prop} (m : Snapshot Arg Ans ε α σ → ℕ)
    (cost : Turn Arg Ans Λ → Bool)
    (step : ∀ c t c', I c → w.Takes c t c' → I c' ∧ [t].countP cost + m c' ≤ m c)
    (h : w.Follows c ts c') (hI : I c) : I c' ∧ ts.countP cost + m c' ≤ m c := by
  induction h with
  | refl => exact ⟨hI, by simp⟩
  | tail _ ht ih =>
    obtain ⟨hI', hpaid⟩ := ih
    obtain ⟨hI'', hle⟩ := step _ _ _ hI' ht
    refine ⟨hI'', ?_⟩
    rw [List.countP_append]
    omega

/-- **A goal is come to** if short of it there is always a turn that lowers a measure. -/
theorem comes_to {I : Snapshot Arg Ans ε α σ → Prop} (goal : Snapshot Arg Ans ε α σ → Prop)
    (m : Snapshot Arg Ans ε α σ → ℕ)
    (step : ∀ c, I c → ¬goal c → ∃ t c', w.Takes c t c' ∧ I c' ∧ m c' < m c) (hI : I c) :
    ∃ c', w.Course anyTurn c c' ∧ I c' ∧ goal c' := by
  induction hn : m c using Nat.strongRecOn generalizing c with
  | ind n ih =>
    by_cases hgoal : goal c
    · exact ⟨c, .refl, hI, hgoal⟩
    · obtain ⟨t, c', ht, hI', hlt⟩ := step c hI hgoal
      obtain ⟨c'', hcourse, hgoal'⟩ := ih (m c') (hn ▸ hlt) hI' rfl
      exact ⟨c'', .head ⟨t, ht, trivial⟩ hcourse, hgoal'⟩

end Surroundings

end Effects
