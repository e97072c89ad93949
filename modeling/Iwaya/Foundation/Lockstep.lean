import Iwaya.Foundation.Fleet

/-!
# Two worlds in lockstep

`Effects.Sim` says that two programs do the same up to the arguments of their calls. Here
that is carried to processes that are not alone. A world is blind to what the arguments
differ in (`Effects.Surroundings.Blind`) if it answers, moves and kills the one process
whenever it would the other; two fleets of pairwise alike programs in two such worlds then
go through the same turns (`Effects.Fleet.Alike.course`), so that what is seen of the one
from outside is seen of the other.

Two ways to run a program inside another are added, with their rules: in a wider alphabet
of calls (`Effects.Prog.embed`), and with its outcome as a value
(`Effects.Prog.outcome`).
-/

namespace Effects

open Relation Prog

variable {Kind : Type} {Arg Ans : Kind → Type} {ε ε' α β σ τ Λ ι : Type}

/-! ### Programs inside programs -/

/-- A program with one kind of call, in a wider alphabet. -/
def Prog.embed (k : Kind) :
    Prog (fun _ : Unit => Arg k) (fun _ : Unit => Ans k) ε α → Prog Arg Ans ε α
  | done a => done a
  | fail e => fail e
  | call _ x next => call k x fun ans => embed k (next ans)

/-- A program that goes on whatever becomes of it. -/
def Prog.outcome : Prog Arg Ans ε α → Prog Arg Ans ε' (Except ε α)
  | done a => done (.ok a)
  | fail e => done (.error e)
  | call k x next => call k x fun ans => outcome (next ans)

/-- One event in the wider alphabet. -/
def Event.embed (k : Kind) (e : Event (fun _ : Unit => Arg k) (fun _ : Unit => Ans k)) :
    Event Arg Ans :=
  ⟨k, e.arg, e.ans⟩

theorem runs_embed_iff {k : Kind} {p : Prog (fun _ : Unit => Arg k) (fun _ : Unit => Ans k) ε α}
    {tr : List (Event Arg Ans)} {r : Except ε α} :
    Runs (p.embed k) tr r ↔ ∃ t, tr = t.map (Event.embed k) ∧ Runs p t r := by
  induction p generalizing tr with
  | done a => simp [Prog.embed]
  | fail e => simp [Prog.embed]
  | call u x next ih =>
    simp only [Prog.embed, runs_call_iff, ih]
    constructor
    · rintro ⟨ans, tr', rfl, t, rfl, h⟩
      exact ⟨⟨u, x, ans⟩ :: t, rfl, ans, t, rfl, h⟩
    · rintro ⟨t, rfl, ans, t', rfl, h⟩
      exact ⟨ans, _, rfl, t', rfl, h⟩

theorem runs_outcome_iff {p : Prog Arg Ans ε α} {tr : List (Event Arg Ans)}
    {r : Except ε' (Except ε α)} :
    Runs p.outcome tr r ↔ ∃ r', Runs p tr r' ∧ r = .ok r' := by
  induction p generalizing tr with
  | done a => simp [Prog.outcome, and_assoc]
  | fail e => simp [Prog.outcome, and_assoc]
  | call k x next ih =>
    simp only [Prog.outcome, runs_call_iff, ih]
    constructor
    · rintro ⟨ans, tr', rfl, r', h, rfl⟩
      exact ⟨r', ⟨ans, tr', rfl, h⟩, rfl⟩
    · rintro ⟨r', ⟨ans, tr', rfl, h⟩, rfl⟩
      exact ⟨ans, tr', rfl, r', h, rfl⟩

section

variable {R : (k : Kind) → Arg k → Arg k → Prop} {Q : α → β → Prop}

theorem ResultRel.refl (r : Except ε α) : ResultRel Eq r r := by
  rcases r with e | a
  · exact .error e
  · exact .ok rfl

/-- Two computed results. -/
theorem sim_ofExcept {c : Except ε α} {c' : Except ε β} (h : ResultRel Q c c') :
    Sim R Q (Prog.ofExcept c : Prog Arg Ans ε α) (Prog.ofExcept c') := by
  rcases h with h | e
  · exact .done h
  · exact .fail e

theorem Sim.embed {k : Kind} {p : Prog (fun _ : Unit => Arg k) (fun _ : Unit => Ans k) ε α}
    {q : Prog (fun _ : Unit => Arg k) (fun _ : Unit => Ans k) ε β}
    (h : Sim (fun _ => R k) Q p q) : Sim R Q (p.embed k) (q.embed k) := by
  induction h with
  | done h => exact .done h
  | fail e => exact .fail e
  | call hx _ ih => exact .call hx ih

theorem Sim.outcome {p : Prog Arg Ans ε α} {q : Prog Arg Ans ε β} (h : Sim R Q p q) :
    Sim R (ResultRel Q) (p.outcome : Prog Arg Ans ε' _) q.outcome := by
  induction h with
  | done h => exact .done (.ok h)
  | fail e => exact .done (.error e)
  | call hx _ ih => exact .call hx ih

end

/-- An element of a list has its counterpart at the same place of a related one. -/
theorem exists_of_forall₂_append_cons {R : α → β → Prop} {l₁ l₂ : List α} {a : α} {l : List β}
    (h : List.Forall₂ R (l₁ ++ a :: l₂) l) :
    ∃ l₁' b l₂', l = l₁' ++ b :: l₂' ∧ R a b ∧ List.Forall₂ R l₁ l₁' := by
  induction l₁ generalizing l with
  | nil =>
    obtain ⟨b, l₂', hab, -, rfl⟩ := List.forall₂_cons_left_iff.mp h
    exact ⟨[], b, l₂', rfl, hab, .nil⟩
  | cons c l₁ ih =>
    obtain ⟨d, rest, hcd, hrest, rfl⟩ := List.forall₂_cons_left_iff.mp h
    obtain ⟨l₁', b, l₂', rfl, hab, hl⟩ := ih hrest
    exact ⟨d :: l₁', b, l₂', rfl, hab, .cons hcd hl⟩

/-- Two related pairs of lists with one list in common. -/
theorem forall₂_comp {γ : Type} {R : α → β → Prop} {S : β → γ → Prop} {T : α → γ → Prop}
    (hT : ∀ a b c, R a b → S b c → T a c) {l₁ : List α} {l₂ : List β} {l₃ : List γ}
    (h : List.Forall₂ R l₁ l₂) (h' : List.Forall₂ S l₂ l₃) : List.Forall₂ T l₁ l₃ := by
  induction h generalizing l₃ with
  | nil =>
    obtain rfl := List.forall₂_nil_left_iff.mp h'
    exact .nil
  | cons hab _ ih =>
    obtain ⟨c, l, hbc, hl, rfl⟩ := List.forall₂_cons_left_iff.mp h'
    exact .cons (hT _ _ _ hab hbc) (ih hl)

/-! ### Processes alike -/

section Alike

variable (R : (k : Kind) → Arg k → Arg k → Prop) (Q : α → β → Prop) (S : σ → τ → Prop)

/-- Two processes that do the same from here on. -/
inductive Process.Alike : Process Arg Ans ε α → Process Arg Ans ε β → Prop
  /-- Both are running. -/
  | live {p : Prog Arg Ans ε α} {q : Prog Arg Ans ε β} (h : Sim R Q p q) : Alike (.live p) (.live q)
  /-- Both are over, alike. -/
  | ended {r : Except ε α} {r' : Except ε β} (h : ResultRel Q r r') : Alike (.ended r) (.ended r')
  /-- Both were killed. -/
  | killed : Alike .killed .killed

/-- Two processes in no call, or in calls of one kind. -/
inductive WaitingRel : Option (Waiting Arg) → Option (Waiting Arg) → Prop
  /-- Neither is in a call. -/
  | none : WaitingRel none none
  /-- Both are. -/
  | some {k : Kind} {x y : Arg k} (h : R k x y) : WaitingRel (some ⟨k, x⟩) (some ⟨k, y⟩)

/-- Two processes that did the same, in related worlds. -/
structure Snapshot.Alike (c : Snapshot Arg Ans ε α σ) (d : Snapshot Arg Ans ε β τ) : Prop where
  process : c.process.Alike R Q d.process
  trace : List.Forall₂ (EventRel R) c.trace d.trace
  outside : S c.outside d.outside

/-- **Worlds that do not tell the arguments apart**: whatever the one does, the other can
do, and they stay related. -/
structure Surroundings.Blind (w : Surroundings Arg Ans σ Λ) (w' : Surroundings Arg Ans τ Λ) :
    Prop where
  answers : ∀ s t e e' s', S s t → EventRel R e e' → w.answers s e s' →
    ∃ t', w'.answers t e' t' ∧ S s' t'
  moves : ∀ s t q q' l s', S s t → WaitingRel R q q' → w.moves q s l s' →
    ∃ t', w'.moves q' t l t' ∧ S s' t'
  kills : ∀ s t s', S s t → w.kills s s' → ∃ t', w'.kills t t' ∧ S s' t'

variable {R Q S}

theorem Process.Alike.waiting {p : Process Arg Ans ε α} {q : Process Arg Ans ε β}
    (h : p.Alike R Q q) : WaitingRel R p.waiting q.waiting := by
  rcases h with h | h | _
  · rcases h with h | e | ⟨hx, h⟩
    · exact .none
    · exact .none
    · exact .some hx
  · exact .none
  · exact .none

/-- **A turn of the one is a turn of the other.** -/
theorem Surroundings.Takes.alike {w : Surroundings Arg Ans σ Λ} {w' : Surroundings Arg Ans τ Λ}
    (hw : Surroundings.Blind R S w w') {c c' : Snapshot Arg Ans ε α σ} {t : Turn Arg Ans Λ}
    (h : w.Takes c t c') {d : Snapshot Arg Ans ε β τ} (hcd : c.Alike R Q S d) :
    ∃ u d', w'.Takes d u d' ∧ c'.Alike R Q S d' := by
  obtain ⟨q, tr', o⟩ := d
  obtain ⟨hp, htr, ho⟩ := hcd
  rcases h with @⟨k, x, next, tr, s, s', ans, ha⟩ | hm | _ | _ | hk
  · rcases hp with hsim | _ | _
    rcases hsim with _ | _ | ⟨hx, hnext⟩
    obtain ⟨o', ha', ho'⟩ := hw.answers _ _ _ _ _ ho (.mk hx ans) ha
    exact ⟨_, _, .answer ha', .live (hnext ans), List.rel_append htr (.cons (.mk hx ans) .nil), ho'⟩
  · obtain ⟨o', hm', ho'⟩ := hw.moves _ _ _ _ _ _ ho hp.waiting hm
    exact ⟨_, _, .move hm', hp, htr, ho'⟩
  · rcases hp with hsim | _ | _
    rcases hsim with hQ | _ | _
    exact ⟨_, _, .done, .ended (.ok hQ), htr, ho⟩
  · rcases hp with hsim | _ | _
    rcases hsim with _ | _ | _
    exact ⟨_, _, .fail, .ended (.error _), htr, ho⟩
  · rcases hp with hsim | _ | _
    obtain ⟨o', hk', ho'⟩ := hw.kills _ _ _ ho hk
    exact ⟨_, _, .kill hk', .killed, htr, ho'⟩

/-! ### Fleets alike -/

variable (R Q S)

/-- Two fleets whose members are pairwise alike, in related worlds. -/
structure Fleet.Alike (f : Fleet ι Arg Ans ε α σ) (g : Fleet ι Arg Ans ε β τ) : Prop where
  process : ∀ i, (f.process i).Alike R Q (g.process i)
  trace : ∀ i, List.Forall₂ (EventRel R) (f.trace i) (g.trace i)
  shared : S f.shared g.shared

variable {R Q S}

theorem Fleet.alike_start {p : ι → Prog Arg Ans ε α} {q : ι → Prog Arg Ans ε β} {s₀ : σ} {t₀ : τ}
    (h : ∀ i, Sim R Q (p i) (q i)) (hS : S s₀ t₀) :
    Fleet.Alike R Q S (Fleet.start p s₀) (Fleet.start q t₀) where
  process i := .live (h i)
  trace _ := .nil
  shared := hS

variable [DecidableEq ι] {w : ι → Surroundings Arg Ans σ Λ} {w' : ι → Surroundings Arg Ans τ Λ}
  {f f' : Fleet ι Arg Ans ε α σ} {g : Fleet ι Arg Ans ε β τ}

/-- A member's turn keeps two fleets alike. -/
theorem Fleet.Alike.step (hw : ∀ i, Surroundings.Blind R S (w i) (w' i)) (h : f.Alike R Q S g)
    (hs : Fleet.Step w f f') : ∃ g', Fleet.Step w' g g' ∧ f'.Alike R Q S g' := by
  obtain ⟨i, t, c, ht, rfl⟩ := hs
  obtain ⟨u, d, hu, hcd⟩ := ht.alike (hw i) (d := g.view i) ⟨h.process i, h.trace i, h.shared⟩
  refine ⟨g.put i d, ⟨i, u, d, hu, rfl⟩, fun j => ?_, fun j => ?_, hcd.outside⟩
  · rcases eq_or_ne j i with rfl | hj
    · simpa [Fleet.put] using hcd.process
    · simpa [Fleet.put, hj] using h.process j
  · rcases eq_or_ne j i with rfl | hj
    · simpa [Fleet.put] using hcd.trace
    · simpa [Fleet.put, hj] using h.trace j

/-- **Two fleets in lockstep**: every course of the one is a course of the other. -/
theorem Fleet.Alike.course (hw : ∀ i, Surroundings.Blind R S (w i) (w' i)) (h : f.Alike R Q S g)
    (hc : Fleet.Course w f f') : ∃ g', Fleet.Course w' g g' ∧ f'.Alike R Q S g' := by
  induction hc with
  | refl => exact ⟨g, .refl, h⟩
  | tail _ hs ih =>
    obtain ⟨g₁, hg₁, h₁⟩ := ih
    obtain ⟨g₂, hg₂, h₂⟩ := h₁.step hw hs
    exact ⟨g₂, hg₁.tail hg₂, h₂⟩

end Alike

end Effects
