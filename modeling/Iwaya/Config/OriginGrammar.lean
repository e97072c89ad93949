import Mathlib.Algebra.Group.Nat.Defs
import Mathlib.Tactic.Common
import Iwaya.Config.Origin

/-!
# The grammar of origins

The recogniser of `Iwaya.Config.Origin` splits a name-form authority from the right and a
bracketed one from the left, and reads its port into 32 bits. Here is what it recognises,
with no splitting in it: a scheme, a host in one of two forms and an optional port, written
one after the other. Every text is written so in at most one way
(`Iwaya.Spelling.text_injective`), and the recogniser accepts exactly the texts that are
written so (`Iwaya.isHttpOrigin_iff`).
-/

namespace Iwaya

open Text

/-! ### The parts of an origin -/

namespace Spelling

/-- The two schemes. -/
inductive Scheme where
  | https
  | http

/-- A scheme with the slashes after it. -/
def Scheme.text : Scheme → Str
  | .https => "https://".toList
  | .http => "http://".toList

/-- A host: a name, or an address between brackets. -/
inductive Host where
  | name (text : Str) (ne_nil : text ≠ [])
      (chars : ∀ c ∈ text, isWhitespace c = false ∧ isControl c = false ∧
        c ∉ "/?#@\\:[]".toList)
  | literal (text : Str) (ne_nil : text ≠ [])
      (chars : ∀ c ∈ text, isAsciiHexdigit c = true ∨ c = ':' ∨ c = '.')

/-- A host as it is written. -/
def Host.text : Host → Str
  | .name text _ _ => text
  | .literal text _ _ => '[' :: text ++ [']']

/-- A port: digits, as many as one likes, that denote a number from 1 to 65535. -/
@[ext]
structure Port where
  digits : Str
  ne_nil : digits ≠ []
  isDigit : ∀ c ∈ digits, c.isDigit = true
  one_le : 1 ≤ Nat.ofDigitChars 10 digits 0
  le : Nat.ofDigitChars 10 digits 0 ≤ 65535

/-- What stands after the host. -/
def portText : Option Port → Str
  | none => []
  | some port => ':' :: port.digits

end Spelling

/-- **A way to write an origin.** -/
@[ext]
structure Spelling where
  scheme : Spelling.Scheme
  host : Spelling.Host
  port : Option Spelling.Port

namespace Spelling

/-- What stands after the scheme. -/
def authority (host : Host) (port : Option Port) : Str := host.text ++ portText port

/-- The origin as it is written. -/
def text (o : Spelling) : Str := o.scheme.text ++ authority o.host o.port

/-! ### There is one way at most -/

theorem portText_injective {p q : Option Port} (h : portText p = portText q) : p = q := by
  cases p with
  | none =>
    cases q with
    | none => rfl
    | some q => cases h
  | some p =>
    cases q with
    | none => cases h
    | some q => exact congrArg some (Port.ext (List.cons.inj h).2)

theorem colon_notMem_digits (port : Port) : ':' ∉ port.digits :=
  fun h => absurd (port.isDigit _ h) (by decide)

theorem bracket_notMem {text : Str}
    (chars : ∀ c ∈ text, isAsciiHexdigit c = true ∨ c = ':' ∨ c = '.') : ']' ∉ text :=
  fun h => absurd (chars _ h) (by decide)

theorem colon_notMem {text : Str}
    (chars : ∀ c ∈ text, isWhitespace c = false ∧ isControl c = false ∧
      c ∉ "/?#@\\:[]".toList) : ':' ∉ text :=
  fun h => (chars _ h).2.2 (by decide)

/-- A name does not begin with a bracket. -/
theorem head_ne {text : Str} (ne_nil : text ≠ [])
    (chars : ∀ c ∈ text, isWhitespace c = false ∧ isControl c = false ∧
      c ∉ "/?#@\\:[]".toList) (rest after : Str) : text ++ after ≠ '[' :: rest := by
  obtain ⟨c, text, rfl⟩ := List.exists_cons_of_ne_nil ne_nil
  intro h
  obtain rfl : c = '[' := (List.cons.inj h).1
  exact (chars _ List.mem_cons_self).2.2 (by decide)

/-- The last colon of a name-form authority begins its port. -/
theorem rsplitOnce_name {text : Str} (h : ':' ∉ text) (port : Option Port) :
    rsplitOnce ':' (text ++ portText port) = port.map fun port => (text, port.digits) := by
  cases port with
  | none =>
    rw [portText, List.append_nil]
    exact rsplitOnce_eq_none.mpr h
  | some port => exact rsplitOnce_eq_some.mpr ⟨rfl, colon_notMem_digits port⟩

theorem authority_injective {h h' : Host} {p p' : Option Port}
    (heq : authority h p = authority h' p') : h = h' ∧ p = p' := by
  cases h with
  | name text ne_nil chars =>
    cases h' with
    | literal text' _ _ =>
      exact absurd heq (head_ne ne_nil chars _ _)
    | name text' ne_nil' chars' =>
      -- both are split at the same place
      have hsplit := congrArg (rsplitOnce ':') heq
      simp only [authority, Host.text] at heq
      simp only [authority, Host.text, rsplitOnce_name (colon_notMem chars),
        rsplitOnce_name (colon_notMem chars')] at hsplit
      cases p with
      | none =>
        cases p' with
        | some p' => cases hsplit
        | none =>
          obtain rfl : text = text' := by simpa [portText] using heq
          exact ⟨rfl, rfl⟩
      | some p =>
        cases p' with
        | none => cases hsplit
        | some p' =>
          simp only [Option.map_some, Option.some.injEq, Prod.mk.injEq] at hsplit
          obtain ⟨rfl, hdigits⟩ := hsplit
          exact ⟨rfl, congrArg some (Port.ext hdigits)⟩
  | literal text ne_nil chars =>
    cases h' with
    | name text' ne_nil' chars' =>
      exact absurd heq.symm (head_ne ne_nil' chars' _ _)
    | literal text' ne_nil' chars' =>
      have htail : text ++ ']' :: portText p = text' ++ ']' :: portText p' := by
        simpa [authority, Host.text] using heq
      have hsplit : splitOnce ']' (text ++ ']' :: portText p) = some (text, portText p) :=
        splitOnce_eq_some.mpr ⟨rfl, bracket_notMem chars⟩
      rw [htail, splitOnce_eq_some.mpr ⟨rfl, bracket_notMem chars'⟩, Option.some.injEq,
        Prod.mk.injEq] at hsplit
      obtain ⟨rfl, hport⟩ := hsplit
      exact ⟨rfl, (portText_injective hport).symm⟩

theorem https_ne_http (s t : Str) : Scheme.https.text ++ s ≠ Scheme.http.text ++ t :=
  append_ne_append (by decide) (by decide) s t

/-- **A text is an origin in one way at most.** -/
theorem text_injective {o o' : Spelling} (h : o.text = o'.text) : o = o' := by
  obtain ⟨scheme, host, port⟩ := o
  obtain ⟨scheme', host', port'⟩ := o'
  have hscheme : scheme = scheme' := by
    cases scheme <;> cases scheme'
    · rfl
    · exact absurd h (https_ne_http _ _)
    · exact absurd h.symm (https_ne_http _ _)
    · rfl
  subst hscheme
  obtain ⟨rfl, rfl⟩ := authority_injective (List.append_cancel_left h)
  rfl

end Spelling

/-! ### Reading a number -/

theorem le_ofDigitChars (digits : Str) (n : ℕ) : n ≤ Nat.ofDigitChars 10 digits n := by
  induction digits generalizing n with
  | nil => rw [Nat.ofDigitChars_nil]
  | cons c digits ih =>
    rw [Nat.ofDigitChars_cons]
    have := ih (10 * n + (c.toNat - '0'.toNat))
    omega

/-- The reading of digits after what is read so far: a value that leaves the range never
comes back into it, so it is refused wherever it does. -/
theorem foldlM_digits {digits : Str} (h : ∀ c ∈ digits, c.isDigit = true) {n : ℕ}
    (hn : n < UInt32.size) :
    digits.foldlM (fun n c =>
      if c.isDigit then
        let m := 10 * n + (c.toNat - '0'.toNat)
        if m < UInt32.size then some m else none
      else none) n =
      if Nat.ofDigitChars 10 digits n < UInt32.size then some (Nat.ofDigitChars 10 digits n)
      else none := by
  induction digits generalizing n with
  | nil => rw [Nat.ofDigitChars_nil, if_pos hn]; rfl
  | cons c digits ih =>
    obtain ⟨hc, hdigits⟩ := List.forall_mem_cons.mp h
    rw [List.foldlM_cons, if_pos hc, Nat.ofDigitChars_cons]
    by_cases hm : 10 * n + (c.toNat - '0'.toNat) < UInt32.size
    · simp only [if_pos hm]
      exact ih hdigits hm
    · have := le_ofDigitChars digits (10 * n + (c.toNat - '0'.toNat))
      simp only [if_neg hm]
      rw [if_neg (by omega)]
      rfl

/-- **The value of a numeral, or nothing if it does not fit**, however long it is. -/
theorem parseU32_eq {digits : Str} (hne : digits ≠ []) (h : ∀ c ∈ digits, c.isDigit = true) :
    parseU32 digits =
      if Nat.ofDigitChars 10 digits 0 < UInt32.size then some (Nat.ofDigitChars 10 digits 0)
      else none := by
  rw [parseU32, if_neg hne]
  exact foldlM_digits h (by decide)

/-! ### What is recognised -/

theorem isPort_iff (digits : Str) :
    isPort digits = true ↔ ∃ port : Spelling.Port, port.digits = digits := by
  rw [isPort, Bool.and_eq_true, List.all_eq_true]
  constructor
  · rintro ⟨hdigit, hrange⟩
    by_cases hne : digits = []
    · subst hne
      cases hrange
    · rw [parseU32_eq hne hdigit] at hrange
      split_ifs at hrange
      · simp only [Option.any_some, Bool.and_eq_true, decide_eq_true_eq] at hrange
        exact ⟨⟨digits, hne, hdigit, hrange.1, hrange.2⟩, rfl⟩
      · cases hrange
  · rintro ⟨port, rfl⟩
    have hsize : Nat.ofDigitChars 10 port.digits 0 < UInt32.size :=
      Nat.lt_of_le_of_lt port.le (by decide)
    refine ⟨port.isDigit, ?_⟩
    rw [parseU32_eq port.ne_nil port.isDigit, if_pos hsize, Option.any_some, Bool.and_eq_true,
      decide_eq_true_eq, decide_eq_true_eq]
    exact ⟨port.one_le, port.le⟩

theorem isHostName_iff (text : Str) :
    isHostName text = true ↔ text ≠ [] ∧ ∀ c ∈ text, isWhitespace c = false ∧
      isControl c = false ∧ c ∉ "/?#@\\:[]".toList := by
  have hdelim : ∀ c, isHostDelim c = false ↔ c ∉ "/?#@\\:[]".toList := fun c => by
    rw [isHostDelim, ← Bool.not_eq_true, List.contains_iff_mem]
  simp only [isHostName, Bool.and_eq_true, Bool.not_eq_true', List.any_eq_false,
    List.isEmpty_eq_false_iff, Bool.or_eq_true, not_or, Bool.not_eq_true, hdelim, and_assoc, ne_eq]

theorem isHostLiteral_iff (text : Str) :
    isHostLiteral text = true ↔ text ≠ [] ∧ ∀ c ∈ text, isAsciiHexdigit c = true ∨ c = ':' ∨
      c = '.' := by
  simp only [isHostLiteral, Bool.and_eq_true, Bool.not_eq_true', List.all_eq_true,
    List.isEmpty_eq_false_iff, Bool.or_eq_true, beq_iff_eq, or_assoc, ne_eq]

/-- What is recognised after a scheme is a host and an optional port. -/
theorem authority_of_isHostPort {text : Str} (h : isHostPort text = true) :
    ∃ host port, Spelling.authority host port = text := by
  unfold isHostPort at h
  split at h
  · rename_i rest hrest
    obtain rfl := stripPrefix_eq_some.mp hrest
    split at h
    · cases h
    · rename_i literal after hsplit
      obtain ⟨rfl, -⟩ := splitOnce_eq_some.mp hsplit
      split at h
      · -- a literal with a port
        rename_i digits hdigits
        obtain rfl := stripPrefix_eq_some.mp hdigits
        obtain ⟨hliteral, hport⟩ := Bool.and_eq_true_iff.mp h
        obtain ⟨hne, hchars⟩ := (isHostLiteral_iff literal).mp hliteral
        obtain ⟨port, rfl⟩ := (isPort_iff digits).mp hport
        exact ⟨.literal literal hne hchars, some port, by
          simp [Spelling.authority, Spelling.Host.text, Spelling.portText]⟩
      · -- a literal alone
        split at h
        · rename_i hnil
          obtain rfl := List.isEmpty_iff.mp hnil
          obtain ⟨hne, hchars⟩ := (isHostLiteral_iff literal).mp h
          exact ⟨.literal literal hne hchars, none, by
            simp [Spelling.authority, Spelling.Host.text, Spelling.portText]⟩
        · cases h
  · split at h
    · -- a name with a port
      rename_i name digits hsplit
      obtain ⟨rfl, -⟩ := rsplitOnce_eq_some.mp hsplit
      obtain ⟨hname, hport⟩ := Bool.and_eq_true_iff.mp h
      obtain ⟨hne, hchars⟩ := (isHostName_iff name).mp hname
      obtain ⟨port, rfl⟩ := (isPort_iff digits).mp hport
      exact ⟨.name name hne hchars, some port, rfl⟩
    · -- a name alone
      obtain ⟨hne, hchars⟩ := (isHostName_iff text).mp h
      exact ⟨.name text hne hchars, none, List.append_nil _⟩

/-- A host and an optional port are recognised. -/
theorem isHostPort_authority (host : Spelling.Host) (port : Option Spelling.Port) :
    isHostPort (Spelling.authority host port) = true := by
  cases host with
  | literal literal ne_nil chars =>
    have hliteral := (isHostLiteral_iff literal).mpr ⟨ne_nil, chars⟩
    have hstrip : stripPrefix ['['] (Spelling.authority (.literal literal ne_nil chars) port) =
        some (literal ++ ']' :: Spelling.portText port) :=
      stripPrefix_eq_some.mpr (by simp [Spelling.authority, Spelling.Host.text])
    rw [isHostPort, hstrip]
    simp only [splitOnce_eq_some.mpr ⟨rfl, Spelling.bracket_notMem chars⟩]
    cases port with
    | none => exact hliteral
    | some port =>
      have hcolon : stripPrefix [':'] (Spelling.portText (some port)) = some port.digits :=
        stripPrefix_eq_some.mpr rfl
      simp only [hcolon, hliteral, Bool.true_and]
      exact (isPort_iff _).mpr ⟨port, rfl⟩
  | name name ne_nil chars =>
    have hname := (isHostName_iff name).mpr ⟨ne_nil, chars⟩
    have hstrip : stripPrefix ['['] (Spelling.authority (.name name ne_nil chars) port) =
        none := by
      refine Option.eq_none_iff_forall_ne_some.mpr fun rest hrest => ?_
      exact Spelling.head_ne ne_nil chars rest _ (stripPrefix_eq_some.mp hrest)
    rw [isHostPort, hstrip]
    simp only [Spelling.authority, Spelling.Host.text,
      Spelling.rsplitOnce_name (Spelling.colon_notMem chars)]
    cases port with
    | none => simpa [Spelling.portText] using hname
    | some port =>
      simp only [Option.map_some, hname, Bool.true_and]
      exact (isPort_iff _).mpr ⟨port, rfl⟩

/-- **The recogniser accepts exactly the texts that are written as an origin**, no text is
written so in two ways, and no numeral is read as a number it does not denote. -/
theorem isHttpOrigin_iff :
    (∀ s : Str, isHttpOrigin s = true ↔ ∃ o : Spelling, o.text = s) ∧
    (∀ o o' : Spelling, o.text = o'.text → o = o') ∧
    ∀ digits : Str, digits ≠ [] → (∀ c ∈ digits, c.isDigit = true) →
      parseU32 digits =
        if Nat.ofDigitChars 10 digits 0 < 2 ^ 32 then some (Nat.ofDigitChars 10 digits 0)
        else none := by
  refine ⟨fun s => ?_, fun o o' => Spelling.text_injective, fun digits => parseU32_eq⟩
  constructor
  · intro h
    unfold isHttpOrigin at h
    split at h
    · rename_i authority hscheme
      obtain rfl := stripPrefix_eq_some.mp hscheme
      obtain ⟨host, port, rfl⟩ := authority_of_isHostPort h
      exact ⟨⟨.https, host, port⟩, rfl⟩
    · split at h
      · rename_i authority hscheme
        obtain rfl := stripPrefix_eq_some.mp hscheme
        obtain ⟨host, port, rfl⟩ := authority_of_isHostPort h
        exact ⟨⟨.http, host, port⟩, rfl⟩
      · cases h
  · rintro ⟨⟨scheme, host, port⟩, rfl⟩
    have hauthority := isHostPort_authority host port
    cases scheme with
    | https =>
      have hscheme : stripPrefix "https://".toList (Spelling.text ⟨.https, host, port⟩) =
          some (Spelling.authority host port) := stripPrefix_eq_some.mpr rfl
      rw [isHttpOrigin, hscheme]
      exact hauthority
    | http =>
      have hnot : stripPrefix "https://".toList (Spelling.text ⟨.http, host, port⟩) = none := by
        refine Option.eq_none_iff_forall_ne_some.mpr fun rest hrest => ?_
        exact Spelling.https_ne_http rest _ (stripPrefix_eq_some.mp hrest).symm
      have hscheme : stripPrefix "http://".toList (Spelling.text ⟨.http, host, port⟩) =
          some (Spelling.authority host port) := stripPrefix_eq_some.mpr rfl
      rw [isHttpOrigin, hnot, hscheme]
      exact hauthority

end Iwaya
