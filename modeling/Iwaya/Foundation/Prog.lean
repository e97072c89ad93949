import Mathlib.Data.List.Basic
import Mathlib.Data.List.Forall2

/-!
# Programs that call the outside world

A program is a finite tree: it is done, it has failed, or it makes one external
call and goes on with the answer. Nothing about the outside is assumed – a run
(`Effects.Runs`) is a program together with *some* list of answers, so a
statement about every run is a statement about every assignment of success and
failure to the calls.

Three families of rules are developed, all closed under sequencing so that a
long procedure is verified step by step:

* inversion (`Effects.runs_bind_iff`, `Effects.runs_scope_iff`): a run of a
  composite program splits at the seam;
* one-run properties of the calls: `Effects.Emits` bounds what a program may
  call, and `Effects.FailStop` says that after a bad answer only cleanup is left;
* a two-run logic: `Effects.Sim` relates two programs that make the same calls up
  to a relation on the arguments, and `Effects.Sim.exec` reads it off the runs of
  both under one environment.
-/

namespace Effects

variable {Kind : Type} {Arg Ans : Kind → Type}

/-- **Programs**: done, failed, or one call and what to do with its answer. -/
inductive Prog (Arg Ans : Kind → Type) (ε α : Type) : Type
  /-- Nothing left to do. -/
  | done (a : α) : Prog Arg Ans ε α
  /-- Given up with an error. -/
  | fail (e : ε) : Prog Arg Ans ε α
  /-- One call of kind `k`. -/
  | call (k : Kind) (x : Arg k) (next : Ans k → Prog Arg Ans ε α) : Prog Arg Ans ε α

/-- One call together with the answer it got. -/
structure Event (Arg Ans : Kind → Type) where
  kind : Kind
  arg : Arg kind
  ans : Ans kind

variable {ε ε' α β γ : Type}

namespace Prog

/-- Sequencing: an error skips the rest. -/
def bind : Prog Arg Ans ε α → (α → Prog Arg Ans ε β) → Prog Arg Ans ε β
  | done a, f => f a
  | fail e, _ => fail e
  | call k x next, f => call k x fun ans => bind (next ans) f

instance : Monad (Prog Arg Ans ε) where
  pure := done
  bind := bind

/-- The program that makes one call and returns its answer. -/
def perform (k : Kind) (x : Arg k) : Prog Arg Ans ε (Ans k) := call k x done

/-- A computed result as a program that makes no call. -/
def ofExcept : Except ε α → Prog Arg Ans ε α
  | .ok a => done a
  | .error e => fail e

/-- The same program under another error type. -/
def mapError (g : ε → ε') : Prog Arg Ans ε α → Prog Arg Ans ε' α
  | done a => done a
  | fail e => fail (g e)
  | call k x next => call k x fun ans => mapError g (next ans)

/-- A cleanup that goes on with `p`. It has no error of its own. -/
def after (cleanup : Prog Arg Ans Empty Unit) (p : Prog Arg Ans ε α) : Prog Arg Ans ε α :=
  (cleanup.mapError Empty.elim).bind fun _ => p

/-- `p`, and `cleanup` if it fails: an early return past a value with a
destructor. -/
def onFail (p : Prog Arg Ans ε α) (cleanup : Prog Arg Ans Empty Unit) : Prog Arg Ans ε α :=
  match p with
  | done a => done a
  | fail e => cleanup.after (fail e)
  | call k x next => call k x fun ans => onFail (next ans) cleanup

/-- `p`, and then `cleanup` whatever became of `p`: the scope of a value with a
destructor. -/
def scope (p : Prog Arg Ans ε α) (cleanup : Prog Arg Ans Empty Unit) : Prog Arg Ans ε α :=
  (p.onFail cleanup).bind fun a => cleanup.after (done a)

/-- `f` on every element, in order, and the list of the results. -/
def traverse (f : α → Prog Arg Ans ε β) : List α → Prog Arg Ans ε (List β)
  | [] => done []
  | a :: l => (f a).bind fun b => (traverse f l).bind fun bs => done (b :: bs)

@[simp] theorem pure_eq (a : α) : (pure a : Prog Arg Ans ε α) = done a := rfl

@[simp] theorem bind_eq (p : Prog Arg Ans ε α) (f : α → Prog Arg Ans ε β) : p >>= f = p.bind f :=
  rfl

@[simp] theorem done_bind (a : α) (f : α → Prog Arg Ans ε β) : (done a).bind f = f a := rfl

@[simp] theorem fail_bind (e : ε) (f : α → Prog Arg Ans ε β) :
    (fail e : Prog Arg Ans ε α).bind f = fail e := rfl

end Prog

open Prog

/-! ### Runs -/

/-- **A run**: the calls a program makes with the answers they got, and how it
ended. -/
inductive Runs : Prog Arg Ans ε α → List (Event Arg Ans) → Except ε α → Prop
  /-- A finished program makes no call. -/
  | done (a : α) : Runs (done a) [] (.ok a)
  /-- Nor does a failed one. -/
  | fail (e : ε) : Runs (fail e) [] (.error e)
  /-- A call is answered, and the program goes on. -/
  | call {k : Kind} {x : Arg k} {next : Ans k → Prog Arg Ans ε α} (ans : Ans k)
    {tr : List (Event Arg Ans)} {r : Except ε α} (h : Runs (next ans) tr r) :
    Runs (call k x next) (⟨k, x, ans⟩ :: tr) r

variable {p : Prog Arg Ans ε α} {tr : List (Event Arg Ans)}

@[simp] theorem runs_done_iff {a : α} {r : Except ε α} :
    Runs (done a : Prog Arg Ans ε α) tr r ↔ tr = [] ∧ r = .ok a := by
  constructor
  · rintro ⟨⟩
    exact ⟨rfl, rfl⟩
  · rintro ⟨rfl, rfl⟩
    exact .done a

@[simp] theorem runs_fail_iff {e : ε} {r : Except ε α} :
    Runs (fail e : Prog Arg Ans ε α) tr r ↔ tr = [] ∧ r = .error e := by
  constructor
  · rintro ⟨⟩
    exact ⟨rfl, rfl⟩
  · rintro ⟨rfl, rfl⟩
    exact .fail e

/-- **The answers decide**: what a run did and came to is known from its calls, whatever was
called after it. -/
theorem Runs.unique {tr' u u' : List (Event Arg Ans)} {r r' : Except ε α} (h : Runs p tr r)
    (h' : Runs p tr' r') (ht : tr ++ u = tr' ++ u') : tr = tr' ∧ r = r' := by
  induction h generalizing tr' with
  | done a =>
    cases h'
    exact ⟨rfl, rfl⟩
  | fail e =>
    cases h'
    exact ⟨rfl, rfl⟩
  | call ans h ih =>
    rcases h' with _ | _ | ⟨ans', h'⟩
    obtain ⟨he, hrest⟩ := List.cons.inj ht
    obtain rfl := eq_of_heq (Event.mk.inj he).2.2
    obtain ⟨rfl, rfl⟩ := ih h' hrest
    exact ⟨rfl, rfl⟩

theorem runs_call_iff {k : Kind} {x : Arg k} {next : Ans k → Prog Arg Ans ε α} {r : Except ε α} :
    Runs (call k x next) tr r ↔ ∃ ans tr', tr = ⟨k, x, ans⟩ :: tr' ∧ Runs (next ans) tr' r := by
  constructor
  · rintro ⟨⟩
    exact ⟨_, _, rfl, by assumption⟩
  · rintro ⟨ans, tr', rfl, h⟩
    exact .call ans h

@[simp] theorem runs_perform_iff {k : Kind} {x : Arg k} {r : Except ε (Ans k)} :
    Runs (perform k x : Prog Arg Ans ε (Ans k)) tr r ↔ ∃ ans, tr = [⟨k, x, ans⟩] ∧ r = .ok ans := by
  simp [perform, runs_call_iff]

@[simp] theorem runs_ofExcept_iff {c r : Except ε α} :
    Runs (Prog.ofExcept c : Prog Arg Ans ε α) tr r ↔ tr = [] ∧ r = c := by
  cases c <;> simp [Prog.ofExcept]

/-- **A run of a sequence splits at the seam**: either the first half failed and
was all there was, or it finished and the second half ran on its result. -/
theorem runs_bind_iff {f : α → Prog Arg Ans ε β} {r : Except ε β} :
    Runs (p.bind f) tr r ↔
      (∃ e, r = .error e ∧ Runs p tr (.error e)) ∨
        ∃ a t₁ t₂, tr = t₁ ++ t₂ ∧ Runs p t₁ (.ok a) ∧ Runs (f a) t₂ r := by
  induction p generalizing tr with
  | done a => simp
  | fail e => simp [and_comm]
  | call k x next ih =>
    -- the first call belongs to the first half, and the seam is further on
    rw [Prog.bind, runs_call_iff]
    constructor
    · rintro ⟨ans, tr', rfl, h⟩
      rcases (ih ans).mp h with ⟨e, rfl, he⟩ | ⟨a, t₁, t₂, rfl, h₁, h₂⟩
      · exact Or.inl ⟨e, rfl, .call ans he⟩
      · exact Or.inr ⟨a, _ :: t₁, t₂, rfl, .call ans h₁, h₂⟩
    · rintro (⟨e, rfl, he⟩ | ⟨a, t₁, t₂, rfl, h₁, h₂⟩)
      · obtain ⟨ans, tr', rfl, h⟩ := runs_call_iff.mp he
        exact ⟨ans, tr', rfl, (ih ans).mpr (Or.inl ⟨e, rfl, h⟩)⟩
      · obtain ⟨ans, tr', rfl, h⟩ := runs_call_iff.mp h₁
        exact ⟨ans, tr' ++ t₂, rfl, (ih ans).mpr (Or.inr ⟨a, tr', t₂, rfl, h, h₂⟩)⟩

/-- A sequence that finished finished both its halves. -/
theorem runs_bind_ok_iff {f : α → Prog Arg Ans ε β} {b : β} :
    Runs (p.bind f) tr (.ok b) ↔
      ∃ a t₁ t₂, tr = t₁ ++ t₂ ∧ Runs p t₁ (.ok a) ∧ Runs (f a) t₂ (.ok b) := by
  simp [runs_bind_iff]

/-- A call and what comes after it. -/
theorem runs_perform_bind_iff {k : Kind} {x : Arg k} {f : Ans k → Prog Arg Ans ε β}
    {r : Except ε β} :
    Runs ((perform k x).bind f) tr r ↔ ∃ ans tr', tr = ⟨k, x, ans⟩ :: tr' ∧ Runs (f ans) tr' r :=
  runs_call_iff

/-- A computed result and what comes after it. -/
theorem runs_ofExcept_bind_iff {c : Except ε α} {f : α → Prog Arg Ans ε β} {r : Except ε β} :
    Runs ((Prog.ofExcept c).bind f) tr r ↔
      (∃ e, c = .error e ∧ tr = [] ∧ r = .error e) ∨ ∃ a, c = .ok a ∧ Runs (f a) tr r := by
  cases c <;> simp [Prog.ofExcept]

theorem runs_mapError_iff {g : ε → ε'} {r : Except ε' α} :
    Runs (p.mapError g) tr r ↔ ∃ r', Runs p tr r' ∧ r = r'.mapError g := by
  induction p generalizing tr with
  | done a => simp [mapError, Except.mapError]
  | fail e => simp [mapError, Except.mapError]
  | call k x next ih =>
    simp only [mapError, runs_call_iff, ih]
    constructor
    · rintro ⟨ans, tr', rfl, r', h, rfl⟩
      exact ⟨r', ⟨ans, tr', rfl, h⟩, rfl⟩
    · rintro ⟨r', ⟨ans, tr', rfl, h⟩, rfl⟩
      exact ⟨ans, tr', rfl, r', h, rfl⟩

theorem runs_after_iff {c : Prog Arg Ans Empty Unit} {r : Except ε α} :
    Runs (c.after p) tr r ↔ ∃ t₁ t₂, tr = t₁ ++ t₂ ∧ Runs c t₁ (.ok ()) ∧ Runs p t₂ r := by
  simp only [after, runs_bind_iff, runs_mapError_iff]
  constructor
  · rintro (⟨e, -, r', -, hr'⟩ | ⟨u, t₁, t₂, rfl, ⟨r', h, hr'⟩, h'⟩)
    · rcases r' with e' | _
      · exact e'.elim
      · simp [Except.mapError] at hr'
    · rcases r' with e' | _
      · exact e'.elim
      · exact ⟨t₁, t₂, rfl, h, h'⟩
  · rintro ⟨t₁, t₂, rfl, h, h'⟩
    exact Or.inr ⟨(), t₁, t₂, rfl, ⟨_, h, rfl⟩, h'⟩

/-- **An early return past a destructor**: the run of a failed body goes on with
one of the cleanup. -/
theorem runs_onFail_iff {c : Prog Arg Ans Empty Unit} {r : Except ε α} :
    Runs (p.onFail c) tr r ↔ (∃ a, r = .ok a ∧ Runs p tr (.ok a)) ∨
      ∃ e t₁ t₂, r = .error e ∧ tr = t₁ ++ t₂ ∧ Runs p t₁ (.error e) ∧ Runs c t₂ (.ok ()) := by
  induction p generalizing tr with
  | done a =>
    simp only [onFail, runs_done_iff]
    constructor
    · rintro ⟨rfl, rfl⟩
      exact Or.inl ⟨a, rfl, rfl, rfl⟩
    · rintro (⟨b, rfl, rfl, hb⟩ | ⟨e, t₁, t₂, -, -, ⟨-, he⟩, -⟩)
      · exact ⟨rfl, hb⟩
      · cases he
  | fail e =>
    simp only [onFail, runs_after_iff, runs_fail_iff]
    constructor
    · rintro ⟨t₁, t₂, rfl, h, rfl, rfl⟩
      exact Or.inr ⟨e, [], t₁, rfl, by simp, ⟨rfl, rfl⟩, h⟩
    · rintro (⟨b, -, -, hb⟩ | ⟨e', t₁, t₂, rfl, rfl, ⟨rfl, he⟩, h⟩)
      · cases hb
      · exact ⟨t₂, [], by simp, h, rfl, he⟩
  | call k x next ih =>
    simp only [onFail, runs_call_iff, ih]
    constructor
    · rintro ⟨ans, tr', rfl, ⟨a, rfl, h⟩ | ⟨e, t₁, t₂, rfl, rfl, h₁, h₂⟩⟩
      · exact Or.inl ⟨a, rfl, ans, tr', rfl, h⟩
      · exact Or.inr ⟨e, _ :: t₁, t₂, rfl, rfl, ⟨ans, t₁, rfl, h₁⟩, h₂⟩
    · rintro (⟨a, rfl, ans, tr', rfl, h⟩ | ⟨e, t₁, t₂, rfl, rfl, ⟨ans, tr', rfl, h₁⟩, h₂⟩)
      · exact ⟨ans, tr', rfl, Or.inl ⟨a, rfl, h⟩⟩
      · exact ⟨ans, tr' ++ t₂, rfl, Or.inr ⟨e, tr', t₂, rfl, rfl, h₁, h₂⟩⟩

/-- **A scope with a destructor**: its runs are those of the body followed by one
of the cleanup, with the body's result. -/
theorem runs_scope_iff {c : Prog Arg Ans Empty Unit} {r : Except ε α} :
    Runs (p.scope c) tr r ↔ ∃ t₁ t₂, tr = t₁ ++ t₂ ∧ Runs p t₁ r ∧ Runs c t₂ (.ok ()) := by
  simp only [scope, runs_bind_iff, runs_onFail_iff, runs_after_iff, runs_done_iff]
  constructor
  · rintro (⟨e, rfl, ⟨a, ha, -⟩ | ⟨e', t₁, t₂, he, rfl, h₁, h₂⟩⟩ |
      ⟨a, s₁, s₂, rfl, ⟨b, hb, h⟩ | ⟨e, t₁, t₂, he, -⟩, t₁, t₂, rfl, hc, rfl, rfl⟩)
    · cases ha
    · cases he
      exact ⟨t₁, t₂, rfl, h₁, h₂⟩
    · cases hb
      exact ⟨s₁, t₁, by simp, h, hc⟩
    · cases he
  · rintro ⟨t₁, t₂, rfl, h₁, h₂⟩
    rcases r with e | a
    · exact Or.inl ⟨e, rfl, Or.inr ⟨e, t₁, t₂, rfl, rfl, h₁, h₂⟩⟩
    · exact Or.inr ⟨a, t₁, t₂, rfl, Or.inl ⟨a, rfl, h₁⟩, t₂, [], by simp, h₂, rfl, rfl⟩

/-- In two related lists every element of the one has its counterpart. -/
theorem exists_of_forall₂ {R : α → β → Prop} {l : List α} {l' : List β} (h : List.Forall₂ R l l')
    {a : α} (ha : a ∈ l) : ∃ b ∈ l', R a b := by
  induction h with
  | nil => cases ha
  | cons hab _ ih =>
    rcases List.mem_cons.mp ha with rfl | ha
    · exact ⟨_, List.mem_cons_self, hab⟩
    · obtain ⟨b, hb, h⟩ := ih ha
      exact ⟨b, List.mem_cons_of_mem _ hb, h⟩

/-- A relation of two lists changed with the membership at hand. -/
theorem forall₂_imp_mem {R S : α → β → Prop} {l : List α} {l' : List β} (h : List.Forall₂ R l l')
    (hS : ∀ a b, b ∈ l' → R a b → S a b) : List.Forall₂ S l l' := by
  induction h with
  | nil => exact .nil
  | cons hab _ ih =>
    exact .cons (hS _ _ List.mem_cons_self hab)
      (ih fun a b hb => hS a b (List.mem_cons_of_mem _ hb))

/-- A loop that finished finished on every element. -/
theorem forall₂_of_runs_traverse {f : α → Prog Arg Ans ε β} {l : List α} {bs : List β}
    (h : Runs (Prog.traverse f l) tr (.ok bs)) :
    List.Forall₂ (fun a b => ∃ t, Runs (f a) t (.ok b)) l bs := by
  induction l generalizing tr bs with
  | nil =>
    obtain ⟨-, hb⟩ := runs_done_iff.mp h
    obtain rfl := Except.ok.inj hb
    exact .nil
  | cons a l ih =>
    rcases runs_bind_iff.mp h with ⟨e, he, -⟩ | ⟨b, t₁, t₂, -, h₁, h₂⟩
    · cases he
    · rcases runs_bind_iff.mp h₂ with ⟨e, he, -⟩ | ⟨bs', t₃, t₄, -, h₃, h₄⟩
      · cases he
      · obtain ⟨-, hb⟩ := runs_done_iff.mp h₄
        obtain rfl := Except.ok.inj hb
        exact .cons ⟨t₁, h₁⟩ (ih h₃)

/-- **A loop that failed** finished on some elements and failed on the next; the rest of
them it never came to. -/
theorem runs_traverse_error {f : α → Prog Arg Ans ε β} {l : List α} {e : ε}
    (h : Runs (Prog.traverse f l) tr (.error e)) :
    ∃ before a after bs t₁ t₂, l = before ++ a :: after ∧ tr = t₁ ++ t₂ ∧
      Runs (Prog.traverse f before) t₁ (.ok bs) ∧ Runs (f a) t₂ (.error e) := by
  induction l generalizing tr with
  | nil =>
    obtain ⟨-, he⟩ := runs_done_iff.mp h
    cases he
  | cons a l ih =>
    rcases runs_bind_iff.mp h with ⟨e', he, h₁⟩ | ⟨b, t₁, t₂, rfl, h₁, h₂⟩
    · obtain rfl := Except.error.inj he
      exact ⟨[], a, l, [], [], tr, rfl, rfl, .done _, h₁⟩
    · rcases runs_bind_iff.mp h₂ with ⟨e', he, h₃⟩ | ⟨bs, t₃, t₄, rfl, h₃, h₄⟩
      · obtain rfl := Except.error.inj he
        obtain ⟨before, a', after, bs, t₃, t₄, rfl, rfl, h₅, h₆⟩ := ih h₃
        refine ⟨a :: before, a', after, b :: bs, t₁ ++ t₃, t₄, rfl, by simp, ?_, h₆⟩
        exact runs_bind_iff.mpr (Or.inr ⟨b, t₁, t₃, rfl, h₁, runs_bind_iff.mpr
          (Or.inr ⟨bs, t₃, [], by simp, h₅, .done _⟩)⟩)
      · obtain ⟨-, he⟩ := runs_done_iff.mp h₄
        cases he

/-- **A loop, part by part**: the elements it finished on, each with its own calls and
its result, and then, if it failed, the element it failed on. -/
theorem runs_traverse_parts {f : α → Prog Arg Ans ε β} {l : List α} {r : Except ε (List β)}
    (h : Runs (Prog.traverse f l) tr r) :
    ∃ parts : List (α × List (Event Arg Ans) × β),
      (∀ x ∈ parts, Runs (f x.1) x.2.1 (.ok x.2.2)) ∧
      ((r = .ok (parts.map fun x => x.2.2) ∧ l = parts.map Prod.fst ∧
          tr = parts.flatMap fun x => x.2.1) ∨
        ∃ a rest t e, l = parts.map Prod.fst ++ a :: rest ∧ Runs (f a) t (.error e) ∧
          r = .error e ∧ tr = (parts.flatMap fun x => x.2.1) ++ t) := by
  induction l generalizing tr r with
  | nil =>
    obtain ⟨rfl, rfl⟩ := runs_done_iff.mp h
    exact ⟨[], by simp, Or.inl ⟨rfl, rfl, rfl⟩⟩
  | cons a l ih =>
    rcases runs_bind_iff.mp h with ⟨e, rfl, h₁⟩ | ⟨b, t₁, t₂, rfl, h₁, h₂⟩
    · exact ⟨[], by simp, Or.inr ⟨a, l, tr, e, rfl, h₁, rfl, rfl⟩⟩
    · rcases runs_bind_iff.mp h₂ with ⟨e, rfl, h₃⟩ | ⟨bs, t₃, t₄, rfl, h₃, h₄⟩
      · obtain ⟨parts, hp, ⟨he, -⟩ | ⟨a', rest, t, e', rfl, h₅, he, rfl⟩⟩ := ih h₃
        · cases he
        · refine ⟨(a, t₁, b) :: parts, List.forall_mem_cons.mpr ⟨h₁, hp⟩, Or.inr
            ⟨a', rest, t, e', rfl, h₅, he, ?_⟩⟩
          rw [List.flatMap_cons, List.append_assoc]
      · obtain ⟨parts, hp, ⟨he, rfl, rfl⟩ | ⟨a', rest, t, e', -, -, he, -⟩⟩ := ih h₃
        · obtain ⟨rfl, rfl⟩ := runs_done_iff.mp h₄
          obtain rfl := Except.ok.inj he
          refine ⟨(a, t₁, b) :: parts, List.forall_mem_cons.mpr ⟨h₁, hp⟩, Or.inl
            ⟨rfl, rfl, ?_⟩⟩
          rw [List.flatMap_cons, List.append_nil]
        · cases he

/-! ### What a program may call -/

/-- Every call of every run is in the class `C`. -/
def Emits (C : Event Arg Ans → Prop) (p : Prog Arg Ans ε α) : Prop :=
  ∀ tr r, Runs p tr r → ∀ e ∈ tr, C e

theorem emits_done (C : Event Arg Ans → Prop) (a : α) : Emits C (done a : Prog Arg Ans ε α) := by
  intro tr r h
  obtain ⟨rfl, -⟩ := runs_done_iff.mp h
  simp

theorem emits_fail (C : Event Arg Ans → Prop) (e : ε) : Emits C (fail e : Prog Arg Ans ε α) := by
  intro tr r h
  obtain ⟨rfl, -⟩ := runs_fail_iff.mp h
  simp

theorem Emits.bind {C : Event Arg Ans → Prop} {f : α → Prog Arg Ans ε β} (hp : Emits C p)
    (hf : ∀ a, Emits C (f a)) : Emits C (p.bind f) := by
  intro tr r h e he
  rcases runs_bind_iff.mp h with ⟨e', rfl, h'⟩ | ⟨a, t₁, t₂, rfl, h₁, h₂⟩
  · exact hp tr _ h' e he
  · rcases List.mem_append.mp he with he | he
    · exact hp t₁ _ h₁ e he
    · exact hf a t₂ r h₂ e he

theorem emits_perform {C : Event Arg Ans → Prop} {k : Kind} {x : Arg k}
    (h : ∀ ans, C ⟨k, x, ans⟩) : Emits C (perform k x : Prog Arg Ans ε (Ans k)) := by
  intro tr r hr e he
  obtain ⟨ans, rfl, -⟩ := runs_perform_iff.mp hr
  obtain rfl := List.mem_singleton.mp he
  exact h ans

theorem emits_ofExcept (C : Event Arg Ans → Prop) (c : Except ε α) :
    Emits C (Prog.ofExcept c : Prog Arg Ans ε α) := by
  cases c
  · exact emits_fail C _
  · exact emits_done C _

theorem Emits.mapError {C : Event Arg Ans → Prop} (g : ε → ε') (hp : Emits C p) :
    Emits C (p.mapError g) := by
  intro tr r h
  obtain ⟨r', h', -⟩ := runs_mapError_iff.mp h
  exact hp tr r' h'

theorem Emits.after {C : Event Arg Ans → Prop} {c : Prog Arg Ans Empty Unit} (hc : Emits C c)
    (hp : Emits C p) : Emits C (c.after p) :=
  (hc.mapError _).bind fun _ => hp

theorem Emits.onFail {C : Event Arg Ans → Prop} {c : Prog Arg Ans Empty Unit} (hp : Emits C p)
    (hc : Emits C c) : Emits C (p.onFail c) := by
  intro tr r h e he
  rcases runs_onFail_iff.mp h with ⟨a, rfl, h₁⟩ | ⟨err, t₁, t₂, rfl, rfl, h₁, h₂⟩
  · exact hp tr _ h₁ e he
  · rcases List.mem_append.mp he with he | he
    · exact hp t₁ _ h₁ e he
    · exact hc t₂ _ h₂ e he

theorem Emits.scope {C : Event Arg Ans → Prop} {c : Prog Arg Ans Empty Unit} (hp : Emits C p)
    (hc : Emits C c) : Emits C (p.scope c) :=
  (hp.onFail hc).bind fun _ => hc.after (emits_done C _)

theorem emits_traverse {C : Event Arg Ans → Prop} {f : α → Prog Arg Ans ε β} {l : List α}
    (hf : ∀ a ∈ l, Emits C (f a)) : Emits C (Prog.traverse f l) := by
  induction l with
  | nil => exact emits_done C _
  | cons a l ih =>
    exact (hf a List.mem_cons_self).bind fun _ =>
      (ih fun x hx => hf x (List.mem_cons_of_mem _ hx)).bind fun _ => emits_done C _

theorem Emits.mono {C D : Event Arg Ans → Prop} (hp : Emits C p) (h : ∀ e, C e → D e) :
    Emits D p :=
  fun tr r hr e he => h e (hp tr r hr e he)

/-! ### Stopping at a bad answer -/

/-- **Stopping**: after a `bad` event nothing but events of the class `late` is
left, and the program ends in an error. -/
def FailStop (bad late : Event Arg Ans → Prop) (p : Prog Arg Ans ε α) : Prop :=
  ∀ a e b r, Runs p (a ++ e :: b) r → bad e → (∀ x ∈ b, late x) ∧ ∃ err, r = .error err

variable {bad late : Event Arg Ans → Prop}

/-- A program that never gets a bad answer stops at every one. -/
theorem failStop_of_emits (h : Emits (fun e => ¬bad e) p) : FailStop bad late p :=
  fun a e b r hr hb => absurd hb (h _ r hr e (by simp))

/-- A program that can only fail. -/
def Fails (p : Prog Arg Ans ε α) : Prop := ∀ tr r, Runs p tr r → ∃ e, r = .error e

theorem fails_fail (e : ε) : Fails (fail e : Prog Arg Ans ε α) := by
  intro tr r h
  exact ⟨e, (runs_fail_iff.mp h).2⟩

/-- A program that has failed makes no call and can only fail. -/
theorem gone_of_eq_fail {e : ε} (h : p = fail e) (C : Event Arg Ans → Prop) : Emits C p ∧ Fails p :=
  ⟨h ▸ emits_fail C e, h ▸ fails_fail e⟩

theorem Fails.bind {f : α → Prog Arg Ans ε β} (hf : ∀ a, Fails (f a)) : Fails (p.bind f) := by
  intro tr r h
  rcases runs_bind_iff.mp h with ⟨e, rfl, -⟩ | ⟨a, t₁, t₂, -, -, h₂⟩
  · exact ⟨e, rfl⟩
  · exact hf a t₂ r h₂

/-- **A call stops at its bad answers**, if it goes on from each of them with late
events only and to a failure. -/
theorem failStop_call {k : Kind} {x : Arg k} {next : Ans k → Prog Arg Ans ε α}
    (hbad : ∀ ans, bad ⟨k, x, ans⟩ → Emits late (next ans) ∧ Fails (next ans))
    (hnext : ∀ ans, FailStop bad late (next ans)) :
    FailStop bad late ((perform k x).bind next) := by
  intro a e b r h hb
  obtain ⟨ans, tr', ht, hr⟩ := runs_call_iff.mp h
  -- the bad event is this call, or one of what comes after it
  rcases a with _ | ⟨c, a⟩
  · obtain ⟨rfl, rfl⟩ := List.cons.inj ht
    exact ⟨(hbad ans hb).1 _ _ hr, (hbad ans hb).2 _ _ hr⟩
  · obtain ⟨rfl, rfl⟩ := List.cons.inj ht
    exact hnext ans a e b r hr hb

/-- **Stopping composes.** -/
theorem FailStop.bind {f : α → Prog Arg Ans ε β} (hp : FailStop bad late p)
    (hf : ∀ a, FailStop bad late (f a)) : FailStop bad late (p.bind f) := by
  intro a e b r h hb
  rcases runs_bind_iff.mp h with ⟨e', rfl, h'⟩ | ⟨v, t₁, t₂, ht, h₁, h₂⟩
  · obtain ⟨h1, err, herr⟩ := hp a e b _ h' hb
    exact ⟨h1, e', rfl⟩
  · rcases List.append_eq_append_iff.mp ht with ⟨c, rfl, hc⟩ | ⟨c, rfl, hc⟩
    · -- the bad event is in the first half, which then did not finish
      cases c with
      | nil =>
        rw [List.nil_append] at hc
        subst hc
        exact hf v [] e b r h₂ hb
      | cons x c =>
        obtain ⟨rfl, rfl⟩ := List.cons.inj hc
        obtain ⟨-, err, herr⟩ := hp a _ c _ h₁ hb
        exact absurd herr (by simp)
    · rw [hc] at h₂
      exact hf v c e b r h₂ hb

theorem failStop_traverse {f : α → Prog Arg Ans ε β} (hf : ∀ a, FailStop bad late (f a))
    (l : List α) : FailStop bad late (Prog.traverse f l) := by
  induction l with
  | nil => exact failStop_of_emits (emits_done _ _)
  | cons a l ih =>
    exact (hf a).bind fun _ => ih.bind fun _ => failStop_of_emits (emits_done _ _)

theorem FailStop.mapError (g : ε → ε') (hp : FailStop bad late p) :
    FailStop bad late (p.mapError g) := by
  intro a e b r h hb
  obtain ⟨r', h', rfl⟩ := runs_mapError_iff.mp h
  obtain ⟨h1, err, rfl⟩ := hp a e b r' h' hb
  exact ⟨h1, g err, rfl⟩

/-- A program followed by a cleanup stops where it did, if the cleanup is among
what may follow and gets no bad answer. -/
theorem failStop_append {c : Prog Arg Ans Empty Unit} (hp : FailStop bad late p)
    (hc : Emits (fun e => ¬bad e ∧ late e) c) {a : List (Event Arg Ans)} {e : Event Arg Ans}
    {b t₁ t₂ : List (Event Arg Ans)} {r : Except ε α} (ht : a ++ e :: b = t₁ ++ t₂)
    (h₁ : Runs p t₁ r) (h₂ : Runs c t₂ (.ok ())) (hb : bad e) :
    (∀ x ∈ b, late x) ∧ ∃ err, r = .error err := by
  have hct : ∀ x ∈ t₂, ¬bad x ∧ late x := hc t₂ _ h₂
  -- the bad event is one of the program: the cleanup has none
  rcases List.append_eq_append_iff.mp ht with ⟨d, rfl, hd⟩ | ⟨d, rfl, hd⟩
  · cases d with
    | nil =>
      rw [List.nil_append] at hd
      exact absurd hb (hct e (by rw [← hd]; simp)).1
    | cons x d =>
      obtain ⟨rfl, rfl⟩ := List.cons.inj hd
      obtain ⟨h3, err, rfl⟩ := hp a _ d r h₁ hb
      refine ⟨fun y hy => ?_, err, rfl⟩
      rcases List.mem_append.mp hy with hy | hy
      · exact h3 y hy
      · exact (hct y hy).2
  · exact absurd hb (hct e (by rw [hd]; simp)).1

theorem FailStop.onFail {c : Prog Arg Ans Empty Unit} (hp : FailStop bad late p)
    (hc : Emits (fun e => ¬bad e ∧ late e) c) : FailStop bad late (p.onFail c) := by
  intro a e b r h hb
  rcases runs_onFail_iff.mp h with ⟨v, rfl, h₁⟩ | ⟨err, t₁, t₂, rfl, ht, h₁, h₂⟩
  · exact hp a e b _ h₁ hb
  · exact failStop_append hp hc ht h₁ h₂ hb

theorem FailStop.scope {c : Prog Arg Ans Empty Unit} (hp : FailStop bad late p)
    (hc : Emits (fun e => ¬bad e ∧ late e) c) : FailStop bad late (p.scope c) := by
  intro a e b r h hb
  obtain ⟨t₁, t₂, ht, h₁, h₂⟩ := runs_scope_iff.mp h
  exact failStop_append hp hc ht h₁ h₂ hb

/-- If every call can be answered as `C` asks, every program has a run that is. -/
theorem exists_runs {C : Event Arg Ans → Prop} (hC : ∀ k x, ∃ ans, C ⟨k, x, ans⟩)
    (p : Prog Arg Ans ε α) : ∃ tr r, Runs p tr r ∧ ∀ e ∈ tr, C e := by
  induction p with
  | done a => exact ⟨[], _, .done a, by simp⟩
  | fail e => exact ⟨[], _, .fail e, by simp⟩
  | call k x next ih =>
    obtain ⟨ans, hans⟩ := hC k x
    obtain ⟨tr, r, h, htr⟩ := ih ans
    exact ⟨_, r, .call ans h, List.forall_mem_cons.mpr ⟨hans, htr⟩⟩

/-! ### Two runs under one environment -/

/-- An environment answers the `i`-th call of a run by its kind alone. -/
abbrev Env (Ans : Kind → Type) := ℕ → (k : Kind) → Ans k

/-- The run of a program under an environment, from the `i`-th call on. -/
def exec (env : Env Ans) : ℕ → Prog Arg Ans ε α → List (Event Arg Ans) × Except ε α
  | _, done a => ([], .ok a)
  | _, fail e => ([], .error e)
  | i, call k x next =>
    let (tr, r) := exec env (i + 1) (next (env i k))
    (⟨k, x, env i k⟩ :: tr, r)

/-- The run under an environment is a run. -/
theorem runs_exec (env : Env Ans) (i : ℕ) (p : Prog Arg Ans ε α) :
    Runs p (exec env i p).1 (exec env i p).2 := by
  induction p generalizing i with
  | done a => exact .done a
  | fail e => exact .fail e
  | call k x next ih => exact .call (env i k) (ih (env i k) (i + 1))

/-- An event of such a run has the answer the environment gives at its place. -/
theorem ans_of_exec {env : Env Ans} {i n : ℕ} {e : Event Arg Ans}
    (h : (exec env i p).1[n]? = some e) : e.ans = env (i + n) e.kind := by
  induction p generalizing i n with
  | done a => cases h
  | fail err => cases h
  | call k x next ih =>
    cases n with
    | zero =>
      obtain rfl := Option.some.inj h
      rfl
    | succ n => rw [ih (env i k) (i := i + 1) h, Nat.add_right_comm, Nat.add_assoc]

/-- The run of a sequence whose first half finishes goes on where that half
stopped. -/
theorem exec_bind_ok {env : Env Ans} {i : ℕ} {f : α → Prog Arg Ans ε β}
    {t₁ : List (Event Arg Ans)} {a : α} (h : exec env i p = (t₁, .ok a)) :
    exec env i (p.bind f) =
      (t₁ ++ (exec env (i + t₁.length) (f a)).1, (exec env (i + t₁.length) (f a)).2) := by
  induction p generalizing i t₁ with
  | done b =>
    simp only [exec, Prod.mk.injEq, Except.ok.injEq] at h
    obtain ⟨rfl, rfl⟩ := h
    simp
  | fail e => simp [exec] at h
  | call k x next ih =>
    rcases hn : exec env (i + 1) (next (env i k)) with ⟨t, r⟩
    simp only [exec, hn, Prod.mk.injEq] at h
    obtain ⟨rfl, rfl⟩ := h
    have := ih (env i k) hn
    have hlen : i + (t.length + 1) = i + 1 + t.length := by omega
    simp only [Prog.bind, exec, this, List.length_cons, hlen, List.cons_append]

/-- **Two programs that do the same up to the arguments**: the same kinds of
calls in the same order with related arguments, going on alike on equal answers,
and ending in the same error or in related results. -/
inductive Sim (R : (k : Kind) → Arg k → Arg k → Prop) (Q : α → β → Prop) :
    Prog Arg Ans ε α → Prog Arg Ans ε β → Prop
  /-- Both are done, with related results. -/
  | done {a : α} {b : β} (h : Q a b) : Sim R Q (done a) (done b)
  /-- Both have failed, alike. -/
  | fail (e : ε) : Sim R Q (fail e) (fail e)
  /-- Both make a call of one kind. -/
  | call {k : Kind} {x y : Arg k} {next : Ans k → Prog Arg Ans ε α}
    {next' : Ans k → Prog Arg Ans ε β} (hx : R k x y) (h : ∀ ans, Sim R Q (next ans) (next' ans)) :
    Sim R Q (call k x next) (call k y next')

variable {R : (k : Kind) → Arg k → Arg k → Prop} {Q : α → β → Prop}

theorem Sim.refl (hR : ∀ k x, R k x x) (p : Prog Arg Ans ε α) : Sim R Eq p p := by
  induction p with
  | done a => exact .done rfl
  | fail e => exact .fail e
  | call k x next ih => exact .call (hR k x) ih

/-- **The two-run rule for sequencing.** -/
theorem Sim.bind {α' β' : Type} {Q' : α' → β' → Prop} {q : Prog Arg Ans ε β}
    {f : α → Prog Arg Ans ε α'} {g : β → Prog Arg Ans ε β'} (h : Sim R Q p q)
    (hf : ∀ a b, Q a b → Sim R Q' (f a) (g b)) : Sim R Q' (p.bind f) (q.bind g) := by
  induction h with
  | done h => exact hf _ _ h
  | fail e => exact .fail e
  | call hx _ ih => exact .call hx ih

theorem sim_traverse {α' β' : Type} {P : α → α' → Prop} {Q' : β → β' → Prop}
    {f : α → Prog Arg Ans ε β} {g : α' → Prog Arg Ans ε β'}
    (hf : ∀ a a', P a a' → Sim R Q' (f a) (g a')) {l : List α} {l' : List α'}
    (h : List.Forall₂ P l l') :
    Sim R (List.Forall₂ Q') (Prog.traverse f l) (Prog.traverse g l') := by
  induction h with
  | nil => exact .done .nil
  | cons ha _ ih =>
    exact (hf _ _ ha).bind fun _ _ hb => ih.bind fun _ _ hbs => .done (.cons hb hbs)

theorem Sim.perform {k : Kind} {x y : Arg k} (h : R k x y) :
    Sim R Eq (perform k x : Prog Arg Ans ε (Ans k)) (perform k y) :=
  .call h fun _ => .done rfl

theorem Sim.mapError (g : ε → ε') {q : Prog Arg Ans ε β} (h : Sim R Q p q) :
    Sim R Q (p.mapError g) (q.mapError g) := by
  induction h with
  | done h => exact .done h
  | fail e => exact .fail (g e)
  | call hx _ ih => exact .call hx ih

theorem Sim.after {c : Prog Arg Ans Empty Unit} {q : Prog Arg Ans ε β} (h : Sim R Q p q)
    (hR : ∀ k x, R k x x) : Sim R Q (c.after p) (c.after q) :=
  ((Sim.refl hR c).mapError _).bind fun _ _ _ => h

theorem Sim.onFail {c : Prog Arg Ans Empty Unit} {q : Prog Arg Ans ε β} (h : Sim R Q p q)
    (hR : ∀ k x, R k x x) : Sim R Q (p.onFail c) (q.onFail c) := by
  induction h with
  | done h => exact .done h
  | fail e => exact (Sim.fail e).after hR
  | call hx _ ih => exact .call hx ih

theorem Sim.scope {c : Prog Arg Ans Empty Unit} {q : Prog Arg Ans ε β} (h : Sim R Q p q)
    (hR : ∀ k x, R k x x) : Sim R Q (p.scope c) (q.scope c) :=
  (h.onFail hR).bind fun _ _ hab => (Sim.done hab).after hR

/-- Two events of one kind with related arguments and the same answer. -/
inductive EventRel (R : (k : Kind) → Arg k → Arg k → Prop) : Event Arg Ans → Event Arg Ans → Prop
  /-- The only way to be related. -/
  | mk {k : Kind} {x y : Arg k} (h : R k x y) (ans : Ans k) : EventRel R ⟨k, x, ans⟩ ⟨k, y, ans⟩

/-- How two runs end alike: in the same error, or in related results. -/
inductive ResultRel (Q : α → β → Prop) : Except ε α → Except ε β → Prop
  /-- Both finished. -/
  | ok {a : α} {b : β} (h : Q a b) : ResultRel Q (.ok a) (.ok b)
  /-- Both failed, alike. -/
  | error (e : ε) : ResultRel Q (.error e) (.error e)

theorem ResultRel.eq {r r' : Except ε α} (h : ResultRel Eq r r') : r = r' := by
  rcases h with h | e
  · rw [h]
  · rfl

/-- **What the two-run logic proves**: under environments that answer alike from
some call on, the two runs make related calls and end alike. -/
theorem Sim.exec {env env' : Env Ans} {q : Prog Arg Ans ε β} (h : Sim R Q p q) {i j : ℕ}
    (henv : ∀ n, env (i + n) = env' (j + n)) :
    List.Forall₂ (EventRel R) (exec env i p).1 (Effects.exec env' j q).1 ∧
      ResultRel Q (Effects.exec env i p).2 (Effects.exec env' j q).2 := by
  induction h generalizing i j with
  | done h => exact ⟨.nil, .ok h⟩
  | fail e => exact ⟨.nil, .error e⟩
  | @call k x y next next' hx _ ih =>
    -- the environments agree on this answer, and from the next call on
    have h0 : env i = env' j := by simpa using henv 0
    have hn : ∀ n, env (i + 1 + n) = env' (j + 1 + n) := fun n => by
      have := henv (1 + n)
      simpa only [Nat.add_assoc] using this
    obtain ⟨h1, h2⟩ := ih (env i k) hn
    simp only [Effects.exec]
    rw [← h0]
    exact ⟨.cons (.mk hx _) h1, h2⟩

end Effects
