import Mathlib.Data.PEquiv

/-!
# Names and what refers to the named

A name leads to an object, or to none. A reference was obtained through a name, and keeps
the object for good; it also follows its name, which may be changed, and remembers the last
one it had when that is taken away. What a reference says of its name is reliable as long
as it has one (`Names.Reference.Holds`): then the name leads to the object. Once it has
none, the name may lead anywhere.
-/

namespace Names

variable {P ι : Type} [DecidableEq P]

/-- A reference to an object, with the name it has or had. -/
structure Reference (P ι : Type) where
  path : P
  object : ι
  linked : Bool

/-- The name of a reference that has one leads to its object. -/
def Reference.Holds (names : P → Option ι) (r : Reference P ι) : Prop :=
  r.linked = true → names r.path = some r.object

/-- What can be done to names: to give one to an object, to take one away, and to move some
of them at once, over others if need be. -/
inductive Change (P ι : Type) where
  | bind (path : P) (object : ι)
  | unlink (path : P)
  | move (f : P ≃. P)

/-- A name that is given must be free. -/
def Change.Allowed (names : P → Option ι) : Change P ι → Prop
  | .bind path _ => names path = none
  | _ => True

/-- What the names lead to afterwards. -/
def Change.names : Change P ι → (P → Option ι) → P → Option ι
  | .bind path object, names => Function.update names path (some object)
  | .unlink path, names => Function.update names path none
  | .move f, names => fun q =>
    match f.symm q with
    | some p => names p
    | none => if (f q).isSome then none else names q

theorem Change.names_bind_self (path : P) (object : ι) (names : P → Option ι) :
    (Change.bind path object).names names path = some object := by
  rw [Change.names, Function.update_self]

theorem Change.names_unlink_self (path : P) (names : P → Option ι) :
    (Change.unlink path : Change P ι).names names path = none := by
  rw [Change.names, Function.update_self]

/-- What becomes of a reference that has a name. -/
def Change.follow : Change P ι → Reference P ι → Reference P ι
  | .bind _ _, r => r
  | .unlink path, r => if r.path = path then { r with linked := false } else r
  | .move f, r =>
    match f r.path with
    | some q => { r with path := q }
    | none => if (f.symm r.path).isSome then { r with linked := false } else r

/-- What becomes of a reference: one without a name has none to follow. -/
def Change.reference (c : Change P ι) (r : Reference P ι) : Reference P ι :=
  if r.linked then c.follow r else r

theorem Change.reference_of_not_linked (c : Change P ι) {r : Reference P ι}
    (h : r.linked = false) : c.reference r = r := by
  rw [Change.reference, h]
  rfl

/-- **What a reference says of its name stays reliable.** -/
theorem Change.holds {c : Change P ι} {names : P → Option ι} (hc : c.Allowed names)
    {r : Reference P ι} (h : r.Holds names) : (c.reference r).Holds (c.names names) := by
  cases hr : r.linked with
  | false =>
    rw [c.reference_of_not_linked hr]
    intro hlinked
    rw [hr] at hlinked
    cases hlinked
  | true =>
    have hname := h hr
    have hfollow : c.reference r = c.follow r := by
      rw [Change.reference, hr]
      rfl
    rw [hfollow]
    cases c with
    | bind path object =>
      intro _
      have hne : r.path ≠ path := by
        rintro rfl
        rw [show names r.path = none from hc] at hname
        cases hname
      exact (Function.update_of_ne hne _ _).trans hname
    | unlink path =>
      by_cases hp : r.path = path
      · rw [Change.follow, if_pos hp]
        intro hlinked
        cases hlinked
      · rw [Change.follow, if_neg hp]
        exact fun _ => (Function.update_of_ne hp _ _).trans hname
    | move f =>
      rcases hf : f r.path with _ | q
      · by_cases htaken : (f.symm r.path).isSome = true
        · simp only [Change.follow, hf, if_pos htaken]
          intro hlinked
          cases hlinked
        · have hfree : f.symm r.path = none := by simpa using htaken
          simp only [Change.follow, hf, hfree]
          intro _
          simp only [Change.names, hfree, hf, Option.isSome_none, Bool.false_eq_true, if_false]
          exact hname
      · have hback : f.symm q = some r.path := f.mem_iff_mem.mpr hf
        simp only [Change.follow, hf]
        intro _
        simp only [Change.names, hback]
        exact hname

end Names
