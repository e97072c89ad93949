import Iwaya.Foundation.Text

/-!
# Phantom credentials

A phantom is what a target process receives instead of a raw secret: a fixed
prefix and 32 bytes of entropy in hexadecimal. Two facts carry the association of
phantoms with secrets. The comparison, which folds over every byte so that its
time tells a caller nothing, decides equality (`Iwaya.Phantom.matchesPresented_iff`);
and the rendering is injective (`Iwaya.Phantom.generate_injective`).
-/

namespace Iwaya

open Text

/-- The number of entropy bytes of a phantom. -/
abbrev entropyBytes : ℕ := 32

/-- The recognizable prefix of every phantom. -/
def phantomPrefix : Str := "iwaya-phantom-".toList

/-- An invocation-scoped bearer credential. -/
structure Phantom where
  value : Str
  deriving DecidableEq

namespace Phantom

/-- A fresh phantom from the entropy drawn for it. -/
def generate (entropy : Vector UInt8 entropyBytes) : Phantom :=
  ⟨phantomPrefix ++ hex entropy.toList⟩

/-- The accumulator of the comparison: every differing bit of the two texts. -/
def difference (ours theirs : List UInt8) : UInt8 :=
  (ours.zip theirs).foldl (fun acc (a, b) => acc ||| (a ^^^ b)) 0

/-- **The comparison**: only the length check stops early. -/
def matchesPresented (phantom : Phantom) (presented : Str) : Bool :=
  let ours := utf8 phantom.value
  let theirs := utf8 presented
  if ours.length ≠ theirs.length then false else difference ours theirs == 0

/-! ### The comparison decides equality -/

theorem fold_eq_zero (l : List (UInt8 × UInt8)) (acc : UInt8) :
    l.foldl (fun acc (a, b) => acc ||| (a ^^^ b)) acc = 0 ↔ acc = 0 ∧ ∀ p ∈ l, p.1 = p.2 := by
  induction l generalizing acc with
  | nil => simp
  | cons p l ih =>
    rw [List.foldl_cons, ih, UInt8.or_eq_zero_iff, UInt8.xor_eq_zero_iff, List.forall_mem_cons,
      and_assoc]

theorem difference_eq_zero {ours theirs : List UInt8} (h : ours.length = theirs.length) :
    difference ours theirs = 0 ↔ ours = theirs := by
  rw [difference, fold_eq_zero]
  induction ours generalizing theirs with
  | nil => simpa [eq_comm] using h
  | cons a ours ih =>
    rcases theirs with _ | ⟨b, theirs⟩
    · cases h
    · rw [List.zip_cons_cons, List.forall_mem_cons, List.cons.injEq, and_left_comm,
        ih (Nat.succ.inj h)]

/-- **The comparison is equality.** -/
theorem matchesPresented_iff {phantom : Phantom} {presented : Str} :
    phantom.matchesPresented presented = true ↔ presented = phantom.value := by
  unfold matchesPresented
  by_cases h : (utf8 phantom.value).length = (utf8 presented).length
  · simp only [h, ne_eq, not_true_eq_false, if_false, beq_iff_eq, difference_eq_zero h]
    exact ⟨fun he => (utf8_injective he).symm, fun he => by rw [he]⟩
  · simp only [ne_eq, h, not_false_eq_true, if_true, Bool.false_eq_true, false_iff]
    rintro rfl
    exact h rfl

/-- **Different draws give different phantoms.** -/
theorem generate_injective {e e' : Vector UInt8 entropyBytes} (h : generate e = generate e') :
    e = e' := by
  have h1 : phantomPrefix ++ hex e.toList = phantomPrefix ++ hex e'.toList :=
    congrArg Phantom.value h
  exact Vector.toList_inj.mp (hex_injective (List.append_cancel_left h1))

/-- Two generated phantoms match exactly if their draws are the same. -/
theorem matchesPresented_generate_iff {e e' : Vector UInt8 entropyBytes} :
    (generate e).matchesPresented (generate e').value = true ↔ e = e' := by
  rw [matchesPresented_iff]
  constructor
  · intro h
    have h1 : (generate e').value = (generate e).value := h
    exact (generate_injective (congrArg Phantom.mk h1)).symm
  · rintro rfl
    rfl

end Phantom

/-- **The comparison that takes the same time for every guess is equality of bytes**, and
between generated phantoms it is equality of the entropy drawn for them. -/
theorem phantom_comparison :
    (∀ (phantom : Phantom) (presented : Str),
      phantom.matchesPresented presented = true ↔ utf8 phantom.value = utf8 presented) ∧
    ∀ e e' : Vector UInt8 entropyBytes,
      (Phantom.generate e).matchesPresented (Phantom.generate e').value = true ↔ e = e' := by
  constructor
  · intro phantom presented
    rw [Phantom.matchesPresented_iff]
    exact ⟨fun h => by rw [h], fun h => (utf8_injective h).symm⟩
  · intro e e'
    exact Phantom.matchesPresented_generate_iff

end Iwaya
