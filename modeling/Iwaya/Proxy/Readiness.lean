import Iwaya.Proxy.Mode
import Iwaya.Sidecar

/-!
# The readiness line

The proxy reports its port on one line, and the supervisor takes what comes for a line even
if the stream just ends. So a line that is cut off is a line too: cut before its last brace
it is no JSON (`Iwaya.not_isText_of_prefix_readiness`), and cut after it it is complete. A
number that lost its last digits is never read, and a line that is refused was cut
(`Iwaya.portOf_error`).
-/

namespace Iwaya

open Text

/-- The object on the line. -/
def readinessObject (port : UInt16) : Str :=
  '{' :: (("\"port\":".toList ++ decimal port.toNat) ++ ['}'])

theorem readinessLine_eq (port : UInt16) :
    readinessLine port = readinessObject port ++ ['\n'] := by
  rw [readinessLine, readinessObject]
  simp

theorem utf8_readinessLine (port : UInt16) :
    utf8 (readinessLine port) = utf8 (readinessObject port) ++ [10] := by
  rw [readinessLine_eq, utf8_append]
  rfl

theorem newline_notMem_readinessObject (port : UInt16) : 10 ∉ utf8 (readinessObject port) := by
  refine newline_notMem_utf8 fun hm => ?_
  have hdigits : '\n' ∉ decimal port.toNat := fun hd =>
    absurd (Nat.isDigit_of_mem_toDigits (by omega) (by omega) hd) (by decide)
  simp [readinessObject, hdigits] at hm

/-- The report is ASCII. -/
theorem ascii_readinessObject (port : UInt16) : ∀ b ∈ utf8 (readinessObject port), b < 128 := by
  refine ascii_utf8 fun c hc => ?_
  simp only [readinessObject, List.mem_cons, List.mem_append, List.not_mem_nil, or_false] at hc
  rcases hc with rfl | (hc | hc) | rfl
  · decide
  · have hname : "\"port\":".toList.all (fun c => decide (c.toNat < 128)) = true := rfl
    exact of_decide_eq_true (List.all_eq_true.mp hname c hc)
  · have hdigit := Nat.isDigit_of_mem_toDigits (by omega) (by omega) hc
    simp only [Char.isDigit, Bool.and_eq_true, decide_eq_true_eq] at hdigit
    have hle : c.toNat ≤ 57 := UInt32.le_iff_toNat_le.mp hdigit.2
    omega
  · decide

theorem trimEnd_readinessObject (port : UInt16) :
    trimEnd (readinessObject port) = readinessObject port := by
  have hbrace : isWhitespace '}' = false := by decide
  simp [readinessObject, trimEnd, hbrace]

/-- It is far below the limit. -/
theorem length_readinessLine_le (port : UInt16) :
    (utf8 (readinessLine port)).length ≤ readinessLimit := by
  have hdigits : (decimal port.toNat).length ≤ 5 := by
    have hlt := port.toNat_lt
    exact (Nat.length_toDigits_le_iff (by omega) (by omega)).mpr (by omega)
  have hline : (readinessLine port).length = 10 + (decimal port.toNat).length := by
    simp [readinessLine]
    omega
  have hbytes := length_utf8_le (readinessLine port)
  rw [readinessLimit]
  omega

/-- What has come of a report is all of it if it has a newline, or no less than the limit. -/
theorem eq_readinessLine_of_prefix {bytes : List UInt8} {port : UInt16}
    (hp : bytes <+: utf8 (readinessLine port))
    (hend : 10 ∈ bytes ∨ bytes.length = readinessLimit) : bytes = utf8 (readinessLine port) := by
  rcases hend with hten | hlimit
  · rw [utf8_readinessLine] at hp ⊢
    exact eq_of_prefix_of_mem hp hten (newline_notMem_readinessObject port)
  · refine hp.eq_of_length_le ?_
    rw [hlimit]
    exact length_readinessLine_le port

/-- **What the library is documented to do** with a readiness line: it reads the port of the
object, and it reads nothing that is not JSON. -/
structure ReadsReadiness (readiness : Str → Option UInt16) : Prop where
  reads : ∀ port, readiness (readinessObject port) = some port
  rejects : ∀ s port, readiness s = some port → Json.IsText s

/-- A reader that conforms: of an object with this one member it reads a natural number that
fits. -/
def readinessReference (s : Str) : Option UInt16 :=
  match Json.parse s with
  | some (.obj [(name, .num lexeme)]) =>
    let n := Nat.ofDigitChars 10 lexeme 0
    if name = "port".toList ∧ lexeme.all Char.isDigit ∧ n < UInt16.size then some (UInt16.ofNat n)
    else none
  | _ => none

theorem readsReadiness_reference : ReadsReadiness readinessReference where
  reads port := by
    have hspelt : Json.Spelt (.obj [("port".toList, .num (decimal port.toNat))]) :=
      ⟨Json.isNumeral_decimal _, trivial⟩
    have hrender : Json.render (.obj [("port".toList, .num (decimal port.toNat))]) =
        readinessObject port := by
      rw [readinessObject, List.append_assoc]
      rfl
    have hparse := Json.parse_render_append hspelt (w := []) (by simp [Json.IsWs])
    rw [List.append_nil, hrender] at hparse
    have hn : Nat.ofDigitChars 10 (decimal port.toNat) 0 = port.toNat :=
      Nat.ofDigitChars_ten_toDigits
    have hdigits : (decimal port.toNat).all Char.isDigit = true :=
      List.all_eq_true.mpr fun c hc => Nat.isDigit_of_mem_toDigits (by omega) (by omega) hc
    simp only [readinessReference, hparse, hn, hdigits]
    rw [if_pos ⟨trivial, trivial, port.toNat_lt⟩, UInt16.ofNat_toNat]
  rejects s port h := by
    rcases hp : Json.parse s with _ | v
    · simp [readinessReference, hp] at h
    · exact Json.isText_of_parse hp

/-- The inside of the object is balanced. -/
theorem keeps_port (n : ℕ) : Json.Keeps ("\"port\":".toList ++ decimal n) := by
  have hname : Json.IsChars "port".toList := by
    refine .plain ?_ ?_ ?_ (.plain ?_ ?_ ?_ (.plain ?_ ?_ ?_ (.plain ?_ ?_ ?_ .nil))) <;> decide
  have hdigits : Json.Keeps (':' :: decimal n) :=
    (Json.keeps_singleton (by decide)).append (Json.keeps_numeral (Json.isNumeral_decimal n))
  exact (Json.keeps_string hname).append hdigits

/-- **No proper beginning of the object is JSON.** -/
theorem not_isText_of_prefix_readiness {port : UInt16} {p : Str}
    (hp : p <+: readinessObject port) (hne : p ≠ readinessObject port) : ¬Json.IsText p :=
  Json.not_isText_of_prefix (keeps_port port.toNat) hp hne

section

variable {readiness : Str → Option UInt16} {port p : UInt16}

/-- A line is the whole object, with or without its end, or nothing is read from it. -/
theorem eq_of_readiness (h : ReadsReadiness readiness) {text : Str}
    (ht : text <+: readinessLine port) (hp : readiness (trimEnd text) = some p) : p = port := by
  have htrim : trimEnd text = readinessObject port := by
    have hjson := h.rejects _ _ hp
    by_contra hne
    refine not_isText_of_prefix_readiness ?_ hne hjson
    rw [readinessLine_eq] at ht
    rcases List.prefix_concat_iff.mp ht with rfl | ht
    · rw [trimEnd_concat_of_isWhitespace (by decide)]
      exact prefix_trimEnd _
    · exact (prefix_trimEnd text).trans ht
  rw [htrim, h.reads port] at hp
  exact (Option.some.inj hp).symm

/-- **A readiness line cut off at any byte gives no other port.** -/
theorem port_of_prefix (h : ReadsReadiness readiness) {bytes : List UInt8}
    (hb : bytes <+: utf8 (readinessLine port)) (hp : portOf readiness (.ok bytes) = .ok p) :
    p = port := by
  obtain ⟨_, hread, hport⟩ := Checks.bind_eq_ok.mp hp
  cases hread
  have hline : lineOf 10 (bytes.take readinessLimit) <+: utf8 (readinessLine port) :=
    ((prefix_lineOf _ _).trans (List.take_prefix _ _)).trans hb
  rcases htext : fromUtf8 (lineOf 10 (bytes.take readinessLimit)) with _ | text
  · simp [htext] at hport
  · simp only [htext] at hport
    obtain ⟨-, -, hport⟩ := Checks.bind_eq_ok.mp hport
    rcases hr : readiness (trimEnd text) with _ | q
    · rw [hr] at hport
      cases hport
    · rw [hr] at hport
      obtain rfl := Except.ok.inj hport
      exact eq_of_readiness h (prefix_of_fromUtf8 hline htext) hr

/-- No port is read from nothing. -/
theorem ne_nil_of_portOf {bytes : List UInt8} (hp : portOf readiness (.ok bytes) = .ok p) :
    bytes ≠ [] := by
  rintro rfl
  cases hp

/-- A whole line is read as its port. -/
theorem portOf_readinessLine (hread : ReadsReadiness readiness) (port : UInt16) :
    portOf readiness (.ok (utf8 (readinessLine port))) = .ok port := by
  have htake : (utf8 (readinessLine port)).take readinessLimit = utf8 (readinessLine port) :=
    List.take_of_length_le (length_readinessLine_le port)
  have hline : lineOf 10 (utf8 (readinessLine port)) = utf8 (readinessLine port) := by
    rw [utf8_readinessLine, lineOf_append (newline_notMem_readinessObject port)]
  have htrim : trimEnd (readinessLine port) = readinessObject port := by
    rw [readinessLine_eq, trimEnd_concat_of_isWhitespace (by decide), trimEnd_readinessObject]
  have hne : utf8 (readinessLine port) ≠ [] := by simp [utf8_readinessLine]
  simp only [portOf, Except.mapError, Checks.ok_bind, htake, hline, fromUtf8_utf8, htrim,
    hread.reads port, Checks.refuse, if_neg hne]

/-- **A report that is not read is one that was cut short**, before its first byte or before
its last brace. -/
theorem portOf_error (hread : ReadsReadiness readiness) {bytes : List UInt8} {e : SidecarError}
    (hp : bytes <+: utf8 (readinessLine port)) (he : portOf readiness (.ok bytes) = .error e) :
    (bytes = [] ∧ e = .exitedBeforeReady) ∨
      (bytes ≠ [] ∧ bytes <+: utf8 (readinessObject port) ∧ bytes ≠ utf8 (readinessObject port) ∧
        e = .unusableReadiness) := by
  have hlimit : bytes.length ≤ readinessLimit :=
    hp.length_le.trans (length_readinessLine_le port)
  rw [utf8_readinessLine] at hp
  rcases List.prefix_concat_iff.mp hp with rfl | hp
  · -- all of it is there
    rw [← utf8_readinessLine, portOf_readinessLine hread] at he
    cases he
  have hnl : (10 : UInt8) ∉ bytes := fun hm =>
    newline_notMem_readinessObject port (hp.subset hm)
  have htext : fromUtf8 bytes = some (asciiText bytes) := by
    have hascii : ∀ b ∈ bytes, b < 128 := fun b hb => ascii_readinessObject port b (hp.subset hb)
    rw [← utf8_asciiText hascii, fromUtf8_utf8, utf8_asciiText hascii]
  simp only [portOf, Except.mapError, Checks.ok_bind, List.take_of_length_le hlimit,
    lineOf_of_notMem hnl, htext] at he
  rcases Checks.refuse_bind_eq_error.mp he with ⟨hnil, rfl⟩ | ⟨hne, he⟩
  · exact Or.inl ⟨hnil, rfl⟩
  refine Or.inr ⟨hne, hp, ?_, ?_⟩
  · rintro rfl
    have hobject : asciiText (utf8 (readinessObject port)) = readinessObject port :=
      asciiText_utf8 (ascii_readinessObject port)
    rw [hobject, trimEnd_readinessObject, hread.reads] at he
    cases he
  · split at he
    · cases he
    · exact (Except.error.inj he).symm

end

end Iwaya
