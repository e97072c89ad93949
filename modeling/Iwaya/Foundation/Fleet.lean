import Mathlib.Data.Finset.Insert
import Mathlib.Logic.Function.Basic
import Iwaya.Foundation.Surroundings
import Iwaya.Foundation.Typestate

/-!
# Many processes in one world

A fleet is a family of processes that share a world: each has a program and a trace of its
own, and any of them may take the next turn, which changes what all of them see. Nothing
bounds their number, and any of them can be killed at any moment.

A turn is one of `Effects.Surroundings.Takes`, so what is known of a single process holds
of every member (`Effects.Fleet.within`). What they share is reasoned about in two parts:
each member follows a protocol of its own, and one invariant relates the states all the
protocols are in to the world (`Effects.Fleet.protocols_keep`). What a killed member held,
it goes on holding.

A course in which members wait for each other is put together of what each does on its own,
while the others rest (`Effects.Fleet.Course.advance`).
-/

namespace Effects

open Relation

variable {Kind : Type} {Arg Ans : Kind → Type} {ε α σ τ Λ ι : Type}

/-- **A fleet**: its processes, what each did, and the world they share. -/
structure Fleet (ι : Type) (Arg Ans : Kind → Type) (ε α σ : Type) where
  process : ι → Process Arg Ans ε α
  trace : ι → List (Event Arg Ans)
  shared : σ

namespace Fleet

variable [DecidableEq ι]

/-- A member and the world, on their own. -/
def view (f : Fleet ι Arg Ans ε α σ) (i : ι) : Snapshot Arg Ans ε α σ :=
  ⟨f.process i, f.trace i, f.shared⟩

/-- The fleet after a turn of one member. -/
def put (f : Fleet ι Arg Ans ε α σ) (i : ι) (c : Snapshot Arg Ans ε α σ) :
    Fleet ι Arg Ans ε α σ where
  process := Function.update f.process i c.process
  trace := Function.update f.trace i c.trace
  shared := c.outside

/-- Nothing has happened. -/
def start (p : ι → Prog Arg Ans ε α) (s₀ : σ) : Fleet ι Arg Ans ε α σ where
  process i := .live (p i)
  trace _ := []
  shared := s₀

/-- **One turn of some member.** -/
def Step (w : ι → Surroundings Arg Ans σ Λ) (f f' : Fleet ι Arg Ans ε α σ) : Prop :=
  ∃ i t c, (w i).Takes (f.view i) t c ∧ f' = f.put i c

/-- Any turns, in any order. -/
def Course (w : ι → Surroundings Arg Ans σ Λ) :
    Fleet ι Arg Ans ε α σ → Fleet ι Arg Ans ε α σ → Prop :=
  ReflTransGen (Step w)

variable {w : ι → Surroundings Arg Ans σ Λ} {p : ι → Prog Arg Ans ε α} {s₀ : σ}
  {f f' : Fleet ι Arg Ans ε α σ} {i j : ι} {c : Snapshot Arg Ans ε α σ}

@[simp] theorem view_put_self : (f.put i c).view i = c := by
  simp [view, put]

/-- The others only see the world change. -/
theorem view_put_of_ne (h : j ≠ i) :
    (f.put i c).view j = ⟨f.process j, f.trace j, c.outside⟩ := by
  simp [view, put, h]

@[simp] theorem trace_put_self : (f.put i c).trace i = c.trace := by
  simp [put]

theorem trace_put_of_ne (h : j ≠ i) : (f.put i c).trace j = f.trace j := by
  simp [put, h]

theorem put_view : f.put i (f.view i) = f := by
  simp [put, view, Function.update_eq_self]

theorem put_put {c' : Snapshot Arg Ans ε α σ} : (f.put i c).put i c' = f.put i c' := by
  simp [put, Function.update_idem]

/-- **A member can go on alone**: a course of its own is one of the fleet. -/
theorem Course.put {f₀ : Fleet ι Arg Ans ε α σ} (hf : Course w f₀ f)
    (h : (w i).Course anyTurn (f.view i) c) : Course w f₀ (f.put i c) := by
  induction h with
  | refl =>
    rw [put_view]
    exact hf
  | tail _ hs ih =>
    obtain ⟨t, ht, -⟩ := hs
    refine ih.tail ⟨i, t, _, ?_, put_put.symm⟩
    rw [view_put_self]
    exact ht

/-! ### Members that wait for each other's turns -/

section

variable {tr t tr' t' : List (Event Arg Ans)} {e : Event Arg Ans} {r : Except ε α} {s' : σ}

/-- **How far a member is**: it did `tr`, and `t` is what it would still do. -/
def Stage (f : Fleet ι Arg Ans ε α σ) (i : ι) (tr t : List (Event Arg Ans)) (r : Except ε α) :
    Prop :=
  ∃ q, f.process i = .live q ∧ f.trace i = tr ∧ Runs q t r

omit [DecidableEq ι] in
theorem stage_start (h : Runs (p i) t r) : (start p s₀).Stage i [] t r :=
  ⟨_, rfl, rfl, h⟩

omit [DecidableEq ι] in
/-- It can go on from there. -/
theorem Stage.reaches (h : f.Stage i tr t r) : (w i).Reaches (f.view i) tr f.shared t r := by
  obtain ⟨q, hq, rfl, hrun⟩ := h
  refine ⟨q, ?_, hrun⟩
  rw [view, hq]
  exact .refl

omit [DecidableEq ι] in
/-- It is in the next call of its run. -/
theorem Stage.waiting (h : f.Stage i tr (e :: t) r) :
    (f.process i).waiting = some ⟨e.kind, e.arg⟩ := by
  obtain ⟨q, hq, -, hrun⟩ := h
  rcases hrun with _ | _ | ⟨ans, hrun⟩
  rw [hq]
  rfl

/-- **A member that did nothing**, from one fleet to another. -/
def Rests (f f' : Fleet ι Arg Ans ε α σ) (j : ι) : Prop :=
  f'.process j = f.process j ∧ f'.trace j = f.trace j

theorem rests_put (h : j ≠ i) : f.Rests (f.put i c) j :=
  ⟨by simp [Fleet.put, h], by simp [Fleet.put, h]⟩

omit [DecidableEq ι] in
theorem Stage.rests (h : f.Stage j tr t r) (hr : f.Rests f' j) : f'.Stage j tr t r := by
  obtain ⟨q, hq, htr, hrun⟩ := h
  exact ⟨q, hr.1.trans hq, hr.2.trans htr, hrun⟩

/-- **A member takes some turns**, and the others rest. -/
theorem Course.advance {f₀ : Fleet ι Arg Ans ε α σ} (hf : Course w f₀ f)
    (h : (w i).Reaches (f.view i) tr' s' t' r) : ∃ f', Course w f₀ f' ∧ f'.shared = s' ∧
      f'.Stage i tr' t' r ∧ ∀ j, j ≠ i → f.Rests f' j := by
  obtain ⟨q, hq, hrun⟩ := h
  exact ⟨_, hf.put hq, rfl, ⟨q, by simp [Fleet.put], by simp [Fleet.put], hrun⟩,
    fun j hj => rests_put hj⟩

/-- It makes some calls that leave the world as it is. -/
theorem Course.answers {f₀ : Fleet ι Arg Ans ε α σ} (hf : Course w f₀ f)
    (hs : f.Stage i tr (t ++ t') r) (ha : ∀ e ∈ t, (w i).answers f.shared e f.shared) :
    ∃ f', Course w f₀ f' ∧ f'.shared = f.shared ∧ f'.Stage i (tr ++ t) t' r ∧
      ∀ j, j ≠ i → f.Rests f' j :=
  hf.advance (hs.reaches.answers ha)

/-- It comes to its end. -/
theorem Course.over {f₀ : Fleet ι Arg Ans ε α σ} (hf : Course w f₀ f) (hs : f.Stage i tr [] r) :
    ∃ f', Course w f₀ f' ∧ f'.shared = f.shared ∧ f'.process i = .ended r ∧
      ∀ j, j ≠ i → f.Rests f' j :=
  ⟨_, hf.put hs.reaches.over, rfl, by simp [Fleet.put], fun j hj => rests_put hj⟩

end

/-- **Any of the members can run to their ends**, in a world that lets them. -/
theorem course_of_runs {tr : ι → List (Event Arg Ans)} {r : ι → Except ε α}
    (h : ∀ i, Runs (p i) (tr i) (r i)) (ha : ∀ i, ∀ e ∈ tr i, (w i).answers s₀ e s₀)
    (s : Finset ι) : ∃ f, Course w (start p s₀) f ∧ f.shared = s₀ ∧
      (∀ i ∈ s, f.process i = .ended (r i)) ∧ ∀ i, i ∉ s → (start p s₀).Rests f i := by
  induction s using Finset.induction_on with
  | empty => exact ⟨_, .refl, rfl, by simp, fun i _ => ⟨rfl, rfl⟩⟩
  | insert i s hi ih =>
    obtain ⟨f, hf, hshared, hended, hrests⟩ := ih
    have hrun := h i
    rw [← List.append_nil (tr i)] at hrun
    have hs : f.Stage i [] (tr i ++ []) (r i) := (stage_start hrun).rests (hrests i hi)
    obtain ⟨f₁, hf₁, hshared₁, hs₁, hrests₁⟩ := hf.answers hs (by rw [hshared]; exact ha i)
    obtain ⟨f₂, hf₂, hshared₂, hr, hrests₂⟩ := hf₁.over hs₁
    have hrest : ∀ j, j ≠ i → f.Rests f₂ j := fun j hj =>
      ⟨(hrests₂ j hj).1.trans (hrests₁ j hj).1, (hrests₂ j hj).2.trans (hrests₁ j hj).2⟩
    refine ⟨f₂, hf₂, hshared₂.trans (hshared₁.trans hshared), fun j hj => ?_, fun j hj => ?_⟩
    · rcases Finset.mem_insert.mp hj with rfl | hj
      · exact hr
      · have hne : j ≠ i := fun he => hi (he ▸ hj)
        exact (hrest j hne).1.trans (hended j hj)
    · obtain ⟨hne, hj⟩ := not_or.mp (mt Finset.mem_insert.mpr hj)
      exact ⟨(hrest j hne).1.trans (hrests j hj).1, (hrest j hne).2.trans (hrests j hj).2⟩

/-- **What every turn of every member keeps holds of every fleet that is reached**, and
each member is within its program throughout. -/
theorem keeps {I : Fleet ι Arg Ans ε α σ → Prop} (h : Course w (start p s₀) f)
    (hstart : I (start p s₀))
    (hstep : ∀ f i t c, (∀ j, (f.view j).Within (p j)) → I f → (w i).Takes (f.view i) t c →
      I (f.put i c)) : (∀ j, (f.view j).Within (p j)) ∧ I f := by
  induction h with
  | refl => exact ⟨fun j t r hr => hr, hstart⟩
  | tail _ hs ih =>
    obtain ⟨i, t, c, ht, rfl⟩ := hs
    refine ⟨fun j => ?_, hstep _ i t c ih.1 ih.2 ht⟩
    rcases eq_or_ne j i with rfl | hj
    · rw [view_put_self]
      exact ht.within (ih.1 j)
    · rw [view_put_of_ne hj]
      exact ih.1 j

/-- **Each member is within its program**, whatever the others do. -/
theorem within (h : Course w (start p s₀) f) (i : ι) : (f.view i).Within (p i) :=
  (keeps (I := fun _ => True) h trivial fun _ _ _ _ _ _ _ => trivial).1 i

/-- What a member is about to do, it does in some run of its program. -/
theorem exists_runs_of_waiting (env : Env Ans) (h : Course w (start p s₀) f) {k : Kind}
    {x : Arg k} (hi : (f.process i).waiting = some ⟨k, x⟩) (ans : Ans k) :
    ∃ t r, Runs (p i) (f.trace i ++ ⟨k, x, ans⟩ :: t) r := by
  have hw := within h i
  obtain ⟨next, hi⟩ := Process.waiting_eq_some.mp hi
  rw [view, hi] at hw
  exact hw.exists_runs_call env ans

/-! ### A protocol for each member -/

/-- The states the members' protocols are in. -/
def Stands (step : ι → Protocol Arg Ans τ) (g₀ g : ι → τ) (f : Fleet ι Arg Ans ε α σ) : Prop :=
  ∀ i, (f.trace i).foldlM (step i) (g₀ i) = some (g i)

/-- **Protocols and a shared invariant**: if each member follows a protocol, and an
invariant between the states of the protocols and the world is kept by every answered call
that the protocol allows, by whatever moves, and by every kill, then it holds throughout. -/
theorem protocols_keep {step : ι → Protocol Arg Ans τ} {g₀ : ι → τ}
    {P : ι → Except ε α → τ → Prop} {I : (ι → τ) → σ → Prop} (env : Env Ans)
    (hp : ∀ i, Follows (step i) (g₀ i) (P i) (p i)) (hstart : I g₀ s₀)
    (hanswer : ∀ i g s e t s', I g s → step i (g i) e = some t → (w i).answers s e s' →
      I (Function.update g i t) s')
    (hmove : ∀ i g s q l s', I g s → (w i).moves q s l s' → I g s')
    (hkill : ∀ i g s s', I g s → (w i).kills s s' → I g s')
    (h : Course w (start p s₀) f) : ∃ g, Stands step g₀ g f ∧ I g f.shared := by
  refine (keeps (I := fun f => ∃ g, Stands step g₀ g f ∧ I g f.shared) h ⟨g₀, fun _ => rfl, hstart⟩
    ?_).2
  rintro f i t c hw ⟨g, hg, hI⟩ ht
  have hwi : c.Within (p i) := ht.within (hw i)
  generalize hv : f.view i = v at ht
  -- a turn that is no answer leaves the traces, and so the protocols, as they are
  have hsame : c.trace = f.trace i → I g c.outside →
      ∃ g', Stands step g₀ g' (f.put i c) ∧ I g' (f.put i c).shared := fun htr hc => by
    refine ⟨g, fun j => ?_, hc⟩
    rcases eq_or_ne j i with rfl | hj
    · rw [trace_put_self, htr]
      exact hg j
    · rw [trace_put_of_ne hj]
      exact hg j
  have htr : v.trace = f.trace i := by rw [← hv, view]
  have hIv : I g v.outside := by rwa [← hv, view]
  rcases ht with @⟨k, x, _, tr, _, _, ans, ha⟩ | hm | _ | _ | hk
  · -- the trace goes on with the answered call, and the protocol with it
    obtain ⟨t₂, ht₂⟩ := hwi.follows env (hp i)
    obtain ⟨t₁, ht₁, hlast⟩ := exists_foldlM_of_append ht₂
    have hgi : tr.foldlM (step i) (g₀ i) = some (g i) := by
      have : tr = f.trace i := htr
      rw [this]
      exact hg i
    obtain rfl := Option.some.inj (ht₁.symm.trans hgi)
    have hstep : step i (g i) ⟨k, x, ans⟩ = some t₂ := by simpa using hlast
    refine ⟨Function.update g i t₂, fun j => ?_, hanswer i g _ _ t₂ _ hIv hstep ha⟩
    rcases eq_or_ne j i with rfl | hj
    · rw [trace_put_self, Function.update_self]
      exact ht₂
    · rw [trace_put_of_ne hj, Function.update_of_ne hj]
      exact hg j
  · exact hsame htr (hmove i g _ _ _ _ hIv hm)
  · exact hsame htr hIv
  · exact hsame htr hIv
  · exact hsame htr (hkill i g _ _ hIv hk)

/-- **What a member is about to do is allowed** in the state its protocol is in. -/
theorem Stands.allows {step : ι → Protocol Arg Ans τ} {g₀ g : ι → τ} (hg : Stands step g₀ g f)
    (env : Env Ans) {P : Except ε α → τ → Prop} (hp : Follows (step i) (g₀ i) P (p i))
    (h : Course w (start p s₀) f) {k : Kind} {x : Arg k}
    (hi : (f.process i).waiting = some ⟨k, x⟩) (ans : Ans k) :
    ∃ t, step i (g i) ⟨k, x, ans⟩ = some t := by
  obtain ⟨tr, r, hr⟩ := exists_runs_of_waiting env h hi ans
  obtain ⟨t₂, ht₂, -⟩ := hp _ _ hr
  obtain ⟨t₁, ht₁, hrest⟩ := exists_foldlM_of_append ht₂
  obtain rfl := Option.some.inj (ht₁.symm.trans (hg i))
  obtain ⟨t, ht, -⟩ := Option.bind_eq_some_iff.mp hrest
  exact ⟨t, ht⟩

end Fleet

end Effects
