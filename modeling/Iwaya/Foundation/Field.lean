import Iwaya.Foundation.Text

/-!
# Fields of HTTP messages

The names of header fields and of methods are tokens (RFC 9110, section 5.6.2); a value
holds no control byte but the tab. A value is judged by the bytes of its encoding, so
that a text beyond ASCII is as good as its bytes are.
-/

namespace Field

open Text

/-- The characters of a token. -/
def isTchar (c : Char) : Bool := c.isAlphanum || "!#$%&'*+-.^_`|~".toList.contains c

/-- A name. -/
def isToken (s : Str) : Bool := !s.isEmpty && s.all isTchar

/-- The bytes of a value. -/
def isValueByte (b : UInt8) : Bool := b == 9 || (32 ≤ b && b != 127)

/-- A value. -/
def isValue (s : Str) : Bool := (utf8 s).all isValueByte

@[simp] theorem isValue_append (s t : Str) : isValue (s ++ t) = (isValue s && isValue t) := by
  simp [isValue, utf8]

/-- Printable ASCII is fit for a value. -/
theorem isValue_of_printable {s : Str} (h : s.all (fun c => isAscii c && !isAsciiControl c)) :
    isValue s = true := by
  rw [isValue, List.all_eq_true]
  intro b hb
  obtain ⟨c, hc, hb⟩ := List.mem_flatMap.mp hb
  have hprintable := List.all_eq_true.mp h c hc
  simp only [isAscii, isAsciiControl, Bool.and_eq_true, decide_eq_true_eq, Bool.not_eq_true',
    Bool.or_eq_false_iff, decide_eq_false_iff_not, beq_eq_false_iff_ne] at hprintable
  rw [utf8EncodeChar_of_lt hprintable.1, List.mem_singleton] at hb
  have hn : b.toNat = c.toNat := by
    rw [hb, UInt8.toNat_ofNat']
    omega
  simp only [isValueByte, Bool.or_eq_true, Bool.and_eq_true, beq_iff_eq, bne_iff_ne, ne_eq,
    decide_eq_true_eq, UInt8.le_iff_toNat_le, ← UInt8.toNat_inj, hn]
  have h32 : (32 : UInt8).toNat = 32 := rfl
  have h127 : (127 : UInt8).toNat = 127 := rfl
  omega

end Field
