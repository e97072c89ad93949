import Iwaya.Foundation.Lockstep

/-!
# Two runs that are answered differently

`Effects.Sim` compares two runs that get the same answers. Here the answers differ as well,
up to a relation of their own: the two programs make related calls for as long as they are
given related answers, and end alike (`Effects.Coupled`). What an answer holds beyond that
relation can then reach nothing that the relation on the arguments does not let through,
and `Effects.Coupled.exec` reads this off two runs.

The rules are those of the two-run logic, and one more: a program that makes only calls
whose answers are the same is coupled to itself (`Effects.coupled_self`).
-/

namespace Effects

open Prog

variable {Kind : Type} {Arg Ans : Kind → Type} {ε ε' α β : Type}

/-- **Two programs that do the same on related answers.** -/
inductive Coupled (R : (k : Kind) → Arg k → Arg k → Prop) (A : (k : Kind) → Ans k → Ans k → Prop)
    (Q : α → β → Prop) : Prog Arg Ans ε α → Prog Arg Ans ε β → Prop
  /-- Both are done, with related results. -/
  | done {a : α} {b : β} (h : Q a b) : Coupled R A Q (done a) (done b)
  /-- Both have failed, alike. -/
  | fail (e : ε) : Coupled R A Q (fail e) (fail e)
  /-- Both make a call of one kind. -/
  | call {k : Kind} {x y : Arg k} {next : Ans k → Prog Arg Ans ε α}
    {next' : Ans k → Prog Arg Ans ε β} (hx : R k x y)
    (h : ∀ ans ans', A k ans ans' → Coupled R A Q (next ans) (next' ans')) :
    Coupled R A Q (call k x next) (call k y next')

variable {R : (k : Kind) → Arg k → Arg k → Prop} {A : (k : Kind) → Ans k → Ans k → Prop}
  {Q : α → β → Prop} {p : Prog Arg Ans ε α} {q : Prog Arg Ans ε β}

/-! ### The rules -/

theorem Coupled.bind {α' β' : Type} {Q' : α' → β' → Prop} {f : α → Prog Arg Ans ε α'}
    {g : β → Prog Arg Ans ε β'} (h : Coupled R A Q p q)
    (hf : ∀ a b, Q a b → Coupled R A Q' (f a) (g b)) : Coupled R A Q' (p.bind f) (q.bind g) := by
  induction h with
  | done h => exact hf _ _ h
  | fail e => exact .fail e
  | call hx _ ih => exact .call hx ih

/-- Less may be asked of the results. -/
theorem Coupled.mono {Q' : α → β → Prop} (h : Coupled R A Q p q) (hQ : ∀ a b, Q a b → Q' a b) :
    Coupled R A Q' p q := by
  induction h with
  | done h => exact .done (hQ _ _ h)
  | fail e => exact .fail e
  | call hx _ ih => exact .call hx ih

theorem Coupled.perform {k : Kind} {x y : Arg k} (h : R k x y) :
    Coupled R A (A k) (perform k x : Prog Arg Ans ε (Ans k)) (perform k y) :=
  .call h fun _ _ hans => .done hans

theorem Coupled.mapError (g : ε → ε') (h : Coupled R A Q p q) :
    Coupled R A Q (p.mapError g) (q.mapError g) := by
  induction h with
  | done h => exact .done h
  | fail e => exact .fail (g e)
  | call hx _ ih => exact .call hx ih

/-- Two computed results. -/
theorem coupled_ofExcept {c : Except ε α} {c' : Except ε β} (h : ResultRel Q c c') :
    Coupled R A Q (Prog.ofExcept c : Prog Arg Ans ε α) (Prog.ofExcept c') := by
  rcases h with h | e
  · exact .done h
  · exact .fail e

theorem coupled_traverse {γ : Type} {f g : γ → Prog Arg Ans ε α} {l : List γ}
    (h : ∀ a ∈ l, Coupled R A Eq (f a) (g a)) :
    Coupled R A Eq (Prog.traverse f l) (Prog.traverse g l) := by
  induction l with
  | nil => exact .done rfl
  | cons a l ih =>
    refine (h a List.mem_cons_self).bind ?_
    rintro b _ rfl
    refine (ih fun x hx => h x (List.mem_cons_of_mem _ hx)).bind ?_
    rintro bs _ rfl
    exact .done rfl

/-- **A program that is answered the same**: of a kind of call it makes, related answers
are equal and every argument is related to itself. -/
theorem coupled_self {C : Event Arg Ans → Prop} (env : Env Ans)
    (hC : ∀ e, C e → R e.kind e.arg e.arg ∧ ∀ ans', A e.kind e.ans ans' → e.ans = ans')
    (hp : Emits C p) : Coupled R A Eq p p := by
  induction p with
  | done a => exact .done rfl
  | fail e => exact .fail e
  | call k x next ih =>
    -- after each answer there is some run, so the call is one of those made
    have hcall : ∀ ans, C ⟨k, x, ans⟩ := fun ans =>
      hp _ _ (.call ans (runs_exec env 0 (next ans))) _ List.mem_cons_self
    refine .call (hC _ (hcall (env 0 k))).1 fun ans ans' hans => ?_
    obtain rfl := (hC _ (hcall ans)).2 ans' hans
    exact ih ans fun tr r h e he => hp _ r (.call ans h) e (List.mem_cons_of_mem _ he)

/-! ### Two runs -/

/-- Two events of one kind with related arguments and related answers. -/
inductive EventCoupled (R : (k : Kind) → Arg k → Arg k → Prop)
    (A : (k : Kind) → Ans k → Ans k → Prop) : Event Arg Ans → Event Arg Ans → Prop
  /-- The only way to be related. -/
  | mk {k : Kind} {x y : Arg k} {ans ans' : Ans k} (h : R k x y) (hans : A k ans ans') :
    EventCoupled R A ⟨k, x, ans⟩ ⟨k, y, ans'⟩

/-- **What coupling proves**: under environments whose answers are related, the two runs make
related calls and end alike. -/
theorem Coupled.exec {env env' : Env Ans} (h : Coupled R A Q p q) {i j : ℕ}
    (henv : ∀ n k, A k (env (i + n) k) (env' (j + n) k)) :
    List.Forall₂ (EventCoupled R A) (exec env i p).1 (Effects.exec env' j q).1 ∧
      ResultRel Q (Effects.exec env i p).2 (Effects.exec env' j q).2 := by
  induction h generalizing i j with
  | done h => exact ⟨.nil, .ok h⟩
  | fail e => exact ⟨.nil, .error e⟩
  | @call k x y next next' hx _ ih =>
    have h0 : A k (env i k) (env' j k) := by simpa using henv 0 k
    have hn : ∀ n k, A k (env (i + 1 + n) k) (env' (j + 1 + n) k) := fun n k => by
      have := henv (1 + n) k
      simpa only [Nat.add_assoc] using this
    obtain ⟨h1, h2⟩ := ih _ _ h0 hn
    exact ⟨.cons (.mk hx h0) h1, h2⟩

end Effects
