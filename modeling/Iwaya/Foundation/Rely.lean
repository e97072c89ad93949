import Iwaya.Foundation.Prog

/-!
# What a program guarantees of an outside it can rely on

A judgement with two postconditions, one for the result and one for the error, about the
runs of a program whose answers are all in a class: `Effects.Guarantees`. It is defined by
recursion on the program – an answer outside the class promises nothing – so that each
rule is one induction, and `Effects.Guarantees.sound` reads it off a run.
-/

namespace Effects

variable {Kind : Type} {Arg Ans : Kind → Type} {ε ε' α β : Type}

open Prog

/-- **A guarantee**: as long as every answer is in the class `C`, a result is in `P` and
an error is in `E`. -/
def Guarantees (C : Event Arg Ans → Prop) (P : α → Prop) (E : ε → Prop) :
    Prog Arg Ans ε α → Prop
  | done a => P a
  | fail e => E e
  | call k x next => ∀ ans, C ⟨k, x, ans⟩ → Guarantees C P E (next ans)

variable {C : Event Arg Ans → Prop} {P P' : α → Prop} {Q : β → Prop} {E : ε → Prop}
  {p : Prog Arg Ans ε α}

/-- **What the judgement says of a run.** -/
theorem Guarantees.sound (hp : Guarantees C P E p) {tr : List (Event Arg Ans)} {r : Except ε α}
    (h : Runs p tr r) (hC : ∀ e ∈ tr, C e) :
    (∀ a, r = .ok a → P a) ∧ ∀ e, r = .error e → E e := by
  induction h with
  | done a => exact ⟨fun b hb => Except.ok.inj hb ▸ hp, fun e he => by cases he⟩
  | fail e => exact ⟨fun b hb => (by cases hb), fun e' he => Except.error.inj he ▸ hp⟩
  | call ans _ ih =>
    obtain ⟨hans, hrest⟩ := List.forall_mem_cons.mp hC
    exact ih (hp ans hans) hrest

theorem Guarantees.mono (hp : Guarantees C P E p) (h : ∀ a, P a → P' a) :
    Guarantees C P' E p := by
  induction p with
  | done a => exact h a hp
  | fail e => exact hp
  | call k x next ih => exact fun ans hans => ih ans (hp ans hans)

/-- **The rule for sequencing.** -/
theorem Guarantees.bind {f : α → Prog Arg Ans ε β} (hp : Guarantees C P E p)
    (hf : ∀ a, P a → Guarantees C Q E (f a)) : Guarantees C Q E (p.bind f) := by
  induction p with
  | done a => exact hf a hp
  | fail e => exact hp
  | call k x next ih => exact fun ans hans => ih ans (hp ans hans)

/-- A call and what comes after it. -/
theorem guarantees_perform_bind {k : Kind} {x : Arg k} {f : Ans k → Prog Arg Ans ε β}
    (hf : ∀ ans, C ⟨k, x, ans⟩ → Guarantees C Q E (f ans)) :
    Guarantees C Q E ((perform k x).bind f) :=
  hf

theorem guarantees_ofExcept {c : Except ε α} (hok : ∀ a, c = .ok a → P a)
    (herror : ∀ e, c = .error e → E e) : Guarantees C P E (Prog.ofExcept c) := by
  cases c with
  | ok a => exact hok a rfl
  | error e => exact herror e rfl

theorem Guarantees.mapError {g : ε → ε'} {E' : ε' → Prop} (hp : Guarantees C P E p)
    (h : ∀ e, E e → E' (g e)) : Guarantees C P E' (p.mapError g) := by
  induction p with
  | done a => exact hp
  | fail e => exact h e hp
  | call k x next ih => exact fun ans hans => ih ans (hp ans hans)

/-- A cleanup changes nothing. -/
theorem Guarantees.after (c : Prog Arg Ans Empty Unit) (hp : Guarantees C P E p) :
    Guarantees C P E (c.after p) := by
  have hc : ∀ c : Prog Arg Ans Empty Unit, Guarantees C (fun _ => True) E (c.mapError Empty.elim) :=
    fun c => by
      induction c with
      | done u => trivial
      | fail e => exact e.elim
      | call k x next ih => exact fun ans _ => ih ans
  exact (hc c).bind fun _ _ => hp

theorem Guarantees.onFail (c : Prog Arg Ans Empty Unit) (hp : Guarantees C P E p) :
    Guarantees C P E (p.onFail c) := by
  induction p with
  | done a => exact hp
  | fail e => exact Guarantees.after c hp
  | call k x next ih => exact fun ans hans => ih ans (hp ans hans)

theorem Guarantees.scope (c : Prog Arg Ans Empty Unit) (hp : Guarantees C P E p) :
    Guarantees C P E (p.scope c) :=
  (hp.onFail c).bind fun _ ha => Guarantees.after c ha

/-- **The rule for loops**: what every pass guarantees holds of every result. -/
theorem guarantees_traverse {f : α → Prog Arg Ans ε β} {l : List α}
    (hf : ∀ a ∈ l, Guarantees C Q E (f a)) :
    Guarantees C (fun bs => ∀ b ∈ bs, Q b) E (Prog.traverse f l) := by
  induction l with
  | nil =>
    intro b hb
    cases hb
  | cons a l ih =>
    refine (hf a List.mem_cons_self).bind fun b hb => ?_
    refine (ih fun x hx => hf x (List.mem_cons_of_mem _ hx)).bind fun bs hbs => ?_
    exact List.forall_mem_cons.mpr ⟨hb, hbs⟩

end Effects
