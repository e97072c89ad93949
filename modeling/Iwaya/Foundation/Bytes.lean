import Mathlib.Algebra.Group.Nat.Defs
import Mathlib.Data.List.Basic

/-!
# Numbers and frames in byte strings

A number is written least significant byte first, in as many bytes as its reader expects.
A frame is a byte string after its length, written so. As the width of the length is fixed,
a reader knows where a frame ends whatever is in it, so a sequence of frames is read back
from its bytes with no count in front (`Bytes.frames_injective`).
-/

namespace Bytes

/-! ### Little endian -/

/-- The `w` bytes of a number. -/
def toLe (w n : ℕ) : List UInt8 := (List.range w).map fun i => UInt8.ofNat (n / 256 ^ i)

/-- The number of some bytes. -/
def ofLe (bytes : List UInt8) : ℕ := bytes.foldr (fun b n => b.toNat + 256 * n) 0

@[simp] theorem length_toLe (w n : ℕ) : (toLe w n).length = w := by
  rw [toLe, List.length_map, List.length_range]

/-- The first byte is the remainder, and the others are the quotient. -/
theorem toLe_succ (w n : ℕ) : toLe (w + 1) n = UInt8.ofNat n :: toLe w (n / 256) := by
  have hdiv : ∀ i, n / 256 ^ (i + 1) = n / 256 / 256 ^ i := fun i => by
    rw [Nat.div_div_eq_div_mul, ← Nat.pow_succ']
  rw [toLe, List.range_succ_eq_map, List.map_cons, List.map_map, Nat.pow_zero, Nat.div_one, toLe]
  simp only [Function.comp_def, Nat.succ_eq_add_one, hdiv]

/-- **What is written is read.** -/
theorem ofLe_toLe {w n : ℕ} (h : n < 256 ^ w) : ofLe (toLe w n) = n := by
  induction w generalizing n with
  | zero =>
    rw [Nat.pow_zero] at h
    exact (Nat.lt_one_iff.mp h).symm
  | succ w ih =>
    have hdiv : n / 256 < 256 ^ w := by
      rw [Nat.pow_succ] at h
      omega
    have hcons : ofLe (UInt8.ofNat n :: toLe w (n / 256)) =
        (UInt8.ofNat n).toNat + 256 * ofLe (toLe w (n / 256)) := rfl
    rw [toLe_succ, hcons, ih hdiv, UInt8.toNat_ofNat']
    omega

theorem toLe_injective {w m n : ℕ} (hm : m < 256 ^ w) (hn : n < 256 ^ w)
    (h : toLe w m = toLe w n) : m = n := by
  rw [← ofLe_toLe hm, h, ofLe_toLe hn]

/-! ### Frames -/

/-- A byte string after its length. -/
def frame (w : ℕ) (bytes : List UInt8) : List UInt8 := toLe w bytes.length ++ bytes

/-- The end of a frame is where its length says. -/
theorem frame_append_inj {w : ℕ} {b c r s : List UInt8} (hb : b.length < 256 ^ w)
    (hc : c.length < 256 ^ w) (h : frame w b ++ r = frame w c ++ s) : b = c ∧ r = s := by
  rw [frame, frame, List.append_assoc, List.append_assoc] at h
  obtain ⟨hlength, hrest⟩ := List.append_inj h (by rw [length_toLe, length_toLe])
  exact List.append_inj hrest (toLe_injective hb hc hlength)

/-- **A sequence of frames is read back from its bytes.** -/
theorem frames_injective {w : ℕ} (hw : 0 < w) {bs cs : List (List UInt8)}
    (hbs : ∀ b ∈ bs, b.length < 256 ^ w) (hcs : ∀ c ∈ cs, c.length < 256 ^ w)
    (h : bs.flatMap (frame w) = cs.flatMap (frame w)) : bs = cs := by
  -- a frame is not empty: it has at least the bytes of its length
  have hne : ∀ b r, frame w b ++ r ≠ [] := fun b r hnil => by
    have := congrArg List.length hnil
    simp only [frame, List.length_append, length_toLe, List.length_nil] at this
    omega
  induction bs generalizing cs with
  | nil =>
    cases cs with
    | nil => rfl
    | cons c cs => exact absurd h.symm (by rw [List.flatMap_cons]; exact hne c _)
  | cons b bs ih =>
    cases cs with
    | nil => exact absurd h (by rw [List.flatMap_cons]; exact hne b _)
    | cons c cs =>
      obtain ⟨hb, hbs'⟩ := List.forall_mem_cons.mp hbs
      obtain ⟨hc, hcs'⟩ := List.forall_mem_cons.mp hcs
      rw [List.flatMap_cons, List.flatMap_cons] at h
      obtain ⟨rfl, hrest⟩ := frame_append_inj hb hc h
      exact congrArg (b :: ·) (ih hbs' hcs' hrest)

end Bytes
