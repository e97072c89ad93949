import Mathlib.Data.List.Nodup
import Mathlib.Logic.Function.Basic

/-!
# Settings on top of an inherited environment

A process environment is a partial function from names; a list of settings is made
on top of an inherited one, in order, so that of several settings of one name the
last one stands. When the names are pairwise distinct the order is immaterial, every
setting stands (`Environment.assign_of_mem`), and every other name keeps what it
inherited (`Environment.assign_of_notMem`).
-/

namespace Environment

variable {κ α : Type} [DecidableEq κ]

/-- The environment after a list of settings. -/
def assign : List (κ × α) → (κ → Option α) → κ → Option α
  | [], inherited => inherited
  | (k, v) :: settings, inherited => assign settings (Function.update inherited k (some v))

@[simp] theorem assign_nil (inherited : κ → Option α) : assign [] inherited = inherited := rfl

@[simp] theorem assign_cons (k : κ) (v : α) (settings : List (κ × α)) (inherited : κ → Option α) :
    assign ((k, v) :: settings) inherited =
      assign settings (Function.update inherited k (some v)) := rfl

/-- A name that is not set keeps what it inherited. -/
theorem assign_of_notMem {settings : List (κ × α)} {k : κ} (h : k ∉ settings.map Prod.fst)
    (inherited : κ → Option α) : assign settings inherited k = inherited k := by
  induction settings generalizing inherited with
  | nil => rfl
  | cons p settings ih =>
    obtain ⟨k', v⟩ := p
    rw [List.map_cons, List.mem_cons, not_or] at h
    rw [assign_cons, ih h.2, Function.update_of_ne h.1]

/-- **A name set once has the value it was set to**, whatever it inherited. -/
theorem assign_of_mem {settings : List (κ × α)} (hnd : (settings.map Prod.fst).Nodup) {k : κ}
    {v : α} (h : (k, v) ∈ settings) (inherited : κ → Option α) :
    assign settings inherited k = some v := by
  induction settings generalizing inherited with
  | nil => cases h
  | cons p settings ih =>
    obtain ⟨k', v'⟩ := p
    obtain ⟨hk, hnd'⟩ := List.nodup_cons.mp hnd
    rcases List.mem_cons.mp h with he | hm
    · -- it is made here, and no later setting has its name
      obtain ⟨rfl, rfl⟩ := Prod.mk.inj he
      rw [assign_cons, assign_of_notMem hk, Function.update_self]
    · exact ih hnd' hm _

end Environment
