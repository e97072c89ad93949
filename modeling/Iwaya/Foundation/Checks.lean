import Mathlib.Data.List.Nodup

/-!
# Sequences of checks

A validator is a sequence of checks in `Except`, some of them run over a list and
some of them remembering what was already seen. What a successful run establishes
is read off here once: a sequence succeeds when each of its steps does
(`Checks.bind_eq_ok`), a refusal leaves the negation of its condition
(`Checks.refuse_eq_ok`), and a pass that refuses a key seen before succeeds exactly
when the keys are pairwise distinct and every element passes on its own
(`Checks.foldlM_seen`).
-/

namespace Checks

variable {ε α β κ : Type}

/-- A sequence succeeds when each step succeeds in turn. -/
theorem bind_eq_ok {x : Except ε α} {f : α → Except ε β} {b : β} :
    (x >>= f) = .ok b ↔ ∃ a, x = .ok a ∧ f a = .ok b := by
  cases x <;> simp [bind, Except.bind]

theorem ok_bind (a : α) (f : α → Except ε β) : (Except.ok a >>= f) = f a := rfl

/-- Another rendering of the errors changes no success. -/
@[simp] theorem mapError_eq_ok {ε' : Type} {x : Except ε α} {f : ε → ε'} {a : α} :
    x.mapError f = .ok a ↔ x = .ok a := by
  cases x <;> simp [Except.mapError]

/-- Refuse with `e` if `c` holds, and go on otherwise. -/
def refuse (c : Prop) [Decidable c] (e : ε) : Except ε Unit :=
  if c then .error e else .ok ()

@[simp] theorem refuse_eq_ok {c : Prop} [Decidable c] {e : ε} {u : Unit} :
    refuse c e = .ok u ↔ ¬c := by
  by_cases h : c <;> simp [refuse, h]

/-- A sequence that starts with a check fails there, or further on. -/
theorem refuse_bind_eq_error {c : Prop} [Decidable c] {e e' : ε} {f : Unit → Except ε β} :
    (refuse c e >>= f) = .error e' ↔ (c ∧ e = e') ∨ (¬c ∧ f () = .error e') := by
  by_cases h : c <;> simp [refuse, h, bind, Except.bind]

theorem refuse_eq_error {c : Prop} [Decidable c] {e e' : ε} :
    refuse c e = .error e' ↔ c ∧ e = e' := by
  by_cases h : c <;> simp [refuse, h]

/-- Run a check on every element, in order. -/
def forAll (f : α → Except ε Unit) : List α → Except ε Unit
  | [] => .ok ()
  | x :: l => f x >>= fun _ => forAll f l

/-- A list passes when every element does. -/
theorem forAll_eq_ok {f : α → Except ε Unit} {l : List α} {u : Unit} :
    forAll f l = .ok u ↔ ∀ x ∈ l, f x = .ok () := by
  induction l with
  | nil => simp [forAll]
  | cons x l ih =>
    rw [forAll, bind_eq_ok, List.forall_mem_cons]
    constructor
    · rintro ⟨_, hx, h⟩
      exact ⟨hx, ih.mp h⟩
    · rintro ⟨hx, h⟩
      exact ⟨(), hx, ih.mpr h⟩

/-- A pass of refusals fails at the first element that is refused. -/
theorem forAll_refuse (p : α → Prop) [DecidablePred p] (e : α → ε) (l : List α) :
    forAll (fun x => refuse (p x) (e x)) l =
      match l.find? fun x => p x with
      | some x => .error (e x)
      | none => .ok () := by
  induction l with
  | nil => rfl
  | cons x l ih =>
    rw [forAll, ih]
    by_cases h : p x <;> simp [refuse, h, bind, Except.bind]

/-- A pass that reads every element on its own. -/
theorem mapM_eq_ok {f : α → Except ε β} {ok : α → Prop} {read : α → β}
    (h : ∀ a b, f a = .ok b ↔ ok a ∧ b = read a) (l : List α) (r : List β) :
    l.mapM f = .ok r ↔ (∀ a ∈ l, ok a) ∧ r = l.map read := by
  induction l generalizing r with
  | nil => simp [pure, Except.pure, eq_comm]
  | cons a l ih =>
    simp only [List.mapM_cons, bind_eq_ok, h, ih, List.forall_mem_cons, List.map_cons]
    constructor
    · rintro ⟨_, ⟨ha, rfl⟩, _, ⟨hl, rfl⟩, hr⟩
      exact ⟨⟨ha, hl⟩, (Except.ok.inj hr).symm⟩
    · rintro ⟨⟨ha, hl⟩, rfl⟩
      exact ⟨_, ⟨ha, rfl⟩, _, ⟨hl, rfl⟩, rfl⟩

variable {σ : Type}

/-- A pass whose state is what the elements so far amount to. -/
theorem foldlM_built {ok : α → Prop} {step : σ → α → Except ε σ} {build : List α → σ}
    (hstep : ∀ done a s', step (build done) a = .ok s' ↔ ok a ∧ s' = build (done ++ [a]))
    (l done : List α) (s' : σ) :
    l.foldlM step (build done) = .ok s' ↔ (∀ a ∈ l, ok a) ∧ s' = build (done ++ l) := by
  induction l generalizing done with
  | nil => simp [pure, Except.pure, eq_comm]
  | cons a l ih =>
    simp only [List.foldlM_cons, bind_eq_ok, hstep, List.forall_mem_cons]
    constructor
    · rintro ⟨_, ⟨ha, rfl⟩, hl⟩
      obtain ⟨hall, rfl⟩ := (ih _).mp hl
      exact ⟨⟨ha, hall⟩, by rw [List.append_assoc, List.singleton_append]⟩
    · rintro ⟨⟨ha, hl⟩, rfl⟩
      refine ⟨_, ⟨ha, rfl⟩, (ih _).mpr ⟨hl, ?_⟩⟩
      rw [List.append_assoc, List.singleton_append]

/-- **A pass that takes each key once**, with such a state. -/
theorem foldlM_built_once {key : α → κ} {ok : α → Prop} {step : σ → α → Except ε σ}
    {build : List α → σ}
    (hstep : ∀ done a s', step (build done) a = .ok s' ↔
      ok a ∧ key a ∉ done.map key ∧ s' = build (done ++ [a])) (l done : List α) (s' : σ) :
    l.foldlM step (build done) = .ok s' ↔
      (l.map key).Nodup ∧ (∀ a ∈ l, ok a ∧ key a ∉ done.map key) ∧ s' = build (done ++ l) := by
  induction l generalizing done with
  | nil => simp [pure, Except.pure, eq_comm]
  | cons a l ih =>
    simp only [List.foldlM_cons, bind_eq_ok, hstep, List.forall_mem_cons, List.map_cons,
      List.nodup_cons]
    constructor
    · rintro ⟨_, ⟨ha, hnew, rfl⟩, hl⟩
      obtain ⟨hnd, hall, rfl⟩ := (ih _).mp hl
      simp only [List.map_append, List.map_cons, List.map_nil, List.mem_append,
        List.mem_singleton, not_or] at hall
      refine ⟨⟨fun hm => ?_, hnd⟩,
        ⟨⟨ha, hnew⟩, fun b hb => ⟨(hall b hb).1, (hall b hb).2.1⟩⟩,
        by rw [List.append_assoc, List.singleton_append]⟩
      obtain ⟨b, hb, hab⟩ := List.mem_map.mp hm
      exact (hall b hb).2.2 hab
    · rintro ⟨⟨hm, hnd⟩, ⟨⟨ha, hnew⟩, hl⟩, rfl⟩
      refine ⟨_, ⟨ha, hnew, rfl⟩, (ih _).mpr ⟨hnd, fun b hb => ⟨(hl b hb).1, ?_⟩, ?_⟩⟩
      · simp only [List.map_append, List.map_cons, List.map_nil, List.mem_append,
          List.mem_singleton, not_or]
        exact ⟨(hl b hb).2, fun hab => hm (hab ▸ List.mem_map_of_mem hb)⟩
      · rw [List.append_assoc, List.singleton_append]

/-- **A pass that remembers keys**: if one step succeeds exactly when its key is
new and its element passes, the pass succeeds exactly when the keys are distinct,
none was seen before, and every element passes. -/
theorem foldlM_seen (key : α → κ) (ok : α → Prop) (step : List κ → α → Except ε (List κ))
    (hstep : ∀ seen x seen', step seen x = .ok seen' ↔
      key x ∉ seen ∧ ok x ∧ seen' = key x :: seen) (l : List α) (seen seen' : List κ) :
    l.foldlM step seen = .ok seen' ↔
      (l.map key).Nodup ∧ (∀ x ∈ l, key x ∉ seen ∧ ok x) ∧ seen' = (l.map key).reverse ++ seen := by
  -- what was seen are the keys so far, on top of those seen before
  have hbuilt : ∀ done x s', step ((done.map key).reverse ++ seen) x = .ok s' ↔
      (key x ∉ seen ∧ ok x) ∧ key x ∉ done.map key ∧
        s' = ((done ++ [x]).map key).reverse ++ seen := by
    intro done x s'
    simp only [hstep, List.mem_append, List.mem_reverse, not_or, List.map_append, List.map_cons,
      List.map_nil, List.reverse_append, List.reverse_cons, List.reverse_nil, List.nil_append,
      List.cons_append]
    tauto
  simpa using foldlM_built_once hbuilt l [] seen'

end Checks
