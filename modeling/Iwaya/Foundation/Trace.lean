import Mathlib.Data.List.Basic

/-!
# Events that happen at most once

A list in which a property holds of one element only is cut at that element in exactly
one way (`Trace.Sole.unique`), so a statement about every occurrence is a statement
about the cut; and the cut survives what is put around the list
(`Trace.Sole.append`).
-/

namespace Trace

variable {α : Type} {P : α → Prop} {l p q : List α} {s : α}

/-- The property holds nowhere. -/
def Never (P : α → Prop) (l : List α) : Prop := ∀ x ∈ l, ¬P x

theorem never_append {u v : List α} (hu : Never P u) (hv : Never P v) : Never P (u ++ v) :=
  fun x hx => (List.mem_append.mp hx).elim (hu x) (hv x)

/-- **The property holds of `s` only**, which is between `p` and `q`. -/
structure Sole (P : α → Prop) (l p : List α) (s : α) (q : List α) : Prop where
  eq : l = p ++ s :: q
  holds : P s
  before : Never P p
  after : Never P q

/-- **There is one cut.** -/
theorem Sole.unique (h : Sole P l p s q) {a b : List α} {e : α} (hl : l = a ++ e :: b) (he : P e) :
    a = p ∧ e = s ∧ b = q := by
  have heq : a ++ e :: b = p ++ s :: q := hl.symm.trans h.eq
  -- of two cuts at different places one would have an occurrence on its wrong side
  rcases List.append_eq_append_iff.mp heq with ⟨c, hp, hc⟩ | ⟨c, ha, hc⟩
  · rcases c with _ | ⟨x, c⟩
    · obtain ⟨rfl, rfl⟩ := List.cons.inj hc
      exact ⟨by simp [hp], rfl, rfl⟩
    · obtain ⟨rfl, -⟩ := List.cons.inj hc
      exact absurd he (h.before e (by simp [hp]))
  · rcases c with _ | ⟨x, c⟩
    · obtain ⟨rfl, rfl⟩ := List.cons.inj hc
      exact ⟨by simp [ha], rfl, rfl⟩
    · obtain ⟨rfl, rfl⟩ := List.cons.inj hc
      exact absurd he (h.after e (by simp))

/-- No other element has the property. -/
theorem Sole.never (h : Sole P l p s q) : Never P (p ++ q) := never_append h.before h.after

/-- **The cut inside a longer list.** -/
theorem Sole.append (h : Sole P l p s q) {u v : List α} (hu : Never P u) (hv : Never P v) :
    Sole P (u ++ (l ++ v)) (u ++ p) s (q ++ v) where
  eq := by simp [h.eq]
  holds := h.holds
  before := never_append hu h.before
  after := never_append h.after hv

/-- A list, cut at one of its elements. -/
theorem eq_append_of_getElem? {i : Nat} {x : α} (h : l[i]? = some x) :
    l = l.take i ++ x :: l.drop (i + 1) := by
  obtain ⟨hlt, rfl⟩ := List.getElem?_eq_some_iff.mp h
  rw [List.getElem_cons_drop, List.take_append_drop]

end Trace
