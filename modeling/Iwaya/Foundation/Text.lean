import Mathlib.Data.List.Basic
import Mathlib.Data.List.Perm.Basic

/-!
# Text as lists of characters

A string is the list of its Unicode scalar values. This file has the handful of
string operations a parser of origins, headers and command lines is written
with – prefix stripping, splitting at the first or the last occurrence of a
character, the ASCII case fold, the count and the replacement of a pattern – and
for each of them the lemma that says what it returns without unfolding it.

The bytes of a text are its UTF-8 encoding. Two facts about it carry everything
else: it is injective (`Text.utf8_injective`), and a byte prefix of an encoding
that decodes at all decodes to a *character* prefix
(`Text.prefix_of_fromUtf8`), so a stream cut inside a character is not text.
-/

/-- A string, as the list of its Unicode scalar values. -/
abbrev Text.Str := List Char

namespace Text

/-! ### Character classes -/

/-- The Unicode `White_Space` property. -/
def isWhitespace (c : Char) : Bool :=
  let n := c.toNat
  (0x09 ≤ n && n ≤ 0x0d) || n == 0x20 || n == 0x85 || n == 0xa0 || n == 0x1680
    || (0x2000 ≤ n && n ≤ 0x200a) || n == 0x2028 || n == 0x2029 || n == 0x202f
    || n == 0x205f || n == 0x3000

/-- The Unicode general category `Cc`. -/
def isControl (c : Char) : Bool :=
  let n := c.toNat
  n < 0x20 || (0x7f ≤ n && n ≤ 0x9f)

/-- The ASCII range. -/
def isAscii (c : Char) : Bool := c.toNat < 0x80

/-- The ASCII control characters. -/
def isAsciiControl (c : Char) : Bool := c.toNat < 0x20 || c.toNat == 0x7f

/-- The hexadecimal digits of either case. -/
def isAsciiHexdigit (c : Char) : Bool :=
  c.isDigit || ('a' ≤ c && c ≤ 'f') || ('A' ≤ c && c ≤ 'F')

/-! ### The ASCII case fold -/

/-- Every ASCII capital replaced by its small letter, everything else kept. -/
def lowercase (s : Str) : Str := s.map Char.toLower

/-- Equality up to ASCII case. -/
def eqIgnoreCase (s t : Str) : Bool := lowercase s == lowercase t

theorem eqIgnoreCase_iff {s t : Str} : eqIgnoreCase s t = true ↔ lowercase s = lowercase t := by
  simp [eqIgnoreCase]

theorem toLower_toLower (c : Char) : c.toLower.toLower = c.toLower := by
  unfold Char.toLower
  split
  · rename_i h
    -- a capital is at most 90, so its small letter is past the capitals
    rw [dif_neg]
    rintro ⟨-, h2⟩
    have h3 : c.val.toNat + 32 ≤ 90 := by
      have h4 := UInt32.le_iff_toNat_le.mp h2
      have h5 := UInt32.le_iff_toNat_le.mp h.2
      simp only [UInt32.toNat_add] at h4
      have h6 : ('a'.val - 'A'.val).toNat = 32 := by decide
      have h7 : ('Z'.val).toNat = 90 := by decide
      rw [h6, h7] at h4
      rw [h7] at h5
      omega
    have h8 := UInt32.le_iff_toNat_le.mp h.1
    have h9 : ('A'.val).toNat = 65 := by decide
    rw [h9] at h8
    omega
  · rfl

/-- The fold is idempotent, so a text folded beforehand compares the same. -/
@[simp] theorem lowercase_lowercase (s : Str) : lowercase (lowercase s) = lowercase s := by
  simp only [lowercase, List.map_map, Function.comp_def, toLower_toLower]

@[simp] theorem eqIgnoreCase_lowercase_left (s t : Str) :
    eqIgnoreCase (lowercase s) t = eqIgnoreCase s t := by
  simp [eqIgnoreCase]

/-! ### Splitting -/

section Split

variable {α : Type} [DecidableEq α]

/-- What follows the prefix `p`, if `s` begins with it. -/
def stripPrefix (p s : List α) : Option (List α) := s.dropPrefix? p

theorem stripPrefix_eq_some {p s t : List α} : stripPrefix p s = some t ↔ s = p ++ t := by
  simp [stripPrefix, List.dropPrefix?_eq_some_iff]

/-- The text before and after the first `a`. -/
def splitOnce (a : α) : List α → Option (List α × List α)
  | [] => none
  | x :: s => if x = a then some ([], s) else (splitOnce a s).map fun (l, r) => (x :: l, r)

/-- **The first occurrence**: what stands before it does not contain it. -/
theorem splitOnce_eq_some {a : α} {s l r : List α} :
    splitOnce a s = some (l, r) ↔ s = l ++ a :: r ∧ a ∉ l := by
  induction s generalizing l with
  | nil => simp [splitOnce]
  | cons x s ih =>
    by_cases hx : x = a
    · subst hx
      constructor
      · rintro h
        simp only [splitOnce, if_pos, Option.some.injEq, Prod.mk.injEq] at h
        obtain ⟨rfl, rfl⟩ := h
        simp
      · rintro ⟨h, hl⟩
        cases l with
        | nil => simpa [splitOnce] using h
        | cons y l =>
          obtain ⟨rfl, -⟩ := List.cons.inj h
          exact absurd List.mem_cons_self hl
    · simp only [splitOnce, if_neg hx, Option.map_eq_some_iff, Prod.mk.injEq, Prod.exists]
      constructor
      · rintro ⟨l', r', h, rfl, rfl⟩
        obtain ⟨rfl, hl⟩ := ih.mp h
        exact ⟨rfl, by simpa [Ne.symm hx] using hl⟩
      · rintro ⟨h, hl⟩
        cases l with
        | nil => exact absurd (List.cons.inj h).1 hx
        | cons y l =>
          obtain ⟨rfl, rfl⟩ := List.cons.inj h
          exact ⟨l, r, ih.mpr ⟨rfl, fun hm => hl (List.mem_cons_of_mem _ hm)⟩, rfl, rfl⟩

theorem splitOnce_eq_none {a : α} {s : List α} : splitOnce a s = none ↔ a ∉ s := by
  induction s with
  | nil => simp [splitOnce]
  | cons x s ih =>
    by_cases hx : x = a
    · simp [splitOnce, hx]
    · simp [splitOnce, hx, ih, Ne.symm hx]

/-- The text before and after the last `a`. -/
def rsplitOnce (a : α) : List α → Option (List α × List α)
  | [] => none
  | x :: s =>
    match rsplitOnce a s with
    | some (l, r) => some (x :: l, r)
    | none => if x = a then some ([], s) else none

theorem rsplitOnce_eq_none {a : α} {s : List α} : rsplitOnce a s = none ↔ a ∉ s := by
  induction s with
  | nil => simp [rsplitOnce]
  | cons x s ih =>
    rcases h : rsplitOnce a s with _ | ⟨l, r⟩
    · by_cases hx : x = a
      · simp [rsplitOnce, h, hx]
      · simp [rsplitOnce, h, hx, Ne.symm hx, ih.mp h]
    · have hm : a ∈ s := by
        by_contra hn
        simp [ih.mpr hn] at h
      simp [rsplitOnce, h, hm]

/-- **The last occurrence**: what stands after it does not contain it. -/
theorem rsplitOnce_eq_some {a : α} {s l r : List α} :
    rsplitOnce a s = some (l, r) ↔ s = l ++ a :: r ∧ a ∉ r := by
  induction s generalizing l r with
  | nil => simp [rsplitOnce]
  | cons x s ih =>
    rcases h : rsplitOnce a s with _ | ⟨l', r'⟩
    · have hs := rsplitOnce_eq_none.mp h
      by_cases hx : x = a
      · subst hx
        simp only [rsplitOnce, h, if_pos, Option.some.injEq, Prod.mk.injEq]
        constructor
        · rintro ⟨rfl, rfl⟩
          exact ⟨rfl, hs⟩
        · rintro ⟨he, -⟩
          cases l with
          | nil => exact ⟨rfl, (List.cons.inj he).2⟩
          | cons y l =>
            obtain ⟨-, rfl⟩ := List.cons.inj he
            simp at hs
      · simp only [rsplitOnce, h, if_neg hx, reduceCtorEq, false_iff]
        rintro ⟨he, -⟩
        cases l with
        | nil => exact hx (List.cons.inj he).1
        | cons y l =>
          obtain ⟨-, rfl⟩ := List.cons.inj he
          simp at hs
    · simp only [rsplitOnce, h, Option.some.injEq, Prod.mk.injEq]
      have hs := ih.mp h
      constructor
      · rintro ⟨rfl, rfl⟩
        exact ⟨by rw [hs.1]; rfl, hs.2⟩
      · rintro ⟨he, hr⟩
        cases l with
        | nil =>
          obtain ⟨-, rfl⟩ := List.cons.inj he
          exact absurd (by rw [hs.1]; simp) hr
        | cons y l =>
          obtain ⟨rfl, he'⟩ := List.cons.inj he
          have hl := ih.mpr ⟨he', hr⟩
          rw [h, Option.some.injEq, Prod.mk.injEq] at hl
          obtain ⟨rfl, rfl⟩ := hl
          exact ⟨rfl, rfl⟩

end Split

/-- Two texts that differ within what both begin with are different texts. -/
theorem append_ne_append {α : Type} {p q : List α} (hp : ¬p <+: q) (hq : ¬q <+: p) (s t : List α) :
    p ++ s ≠ q ++ t := by
  intro h
  rcases List.prefix_or_prefix_of_prefix (List.prefix_append p s)
    (h ▸ List.prefix_append q t) with hpq | hqp
  · exact hp hpq
  · exact hq hqp

/-! ### Patterns -/

section Pattern

variable {α : Type} [DecidableEq α]

/-- The number of non-overlapping occurrences of `pat`, from the left; `skip`
characters of an occurrence already counted are still to be passed over. -/
def matchCountFrom (pat : List α) : ℕ → List α → ℕ
  | _, [] => 0
  | skip + 1, _ :: s => matchCountFrom pat skip s
  | 0, x :: s =>
    if pat <+: x :: s then 1 + matchCountFrom pat (pat.length - 1) s
    else matchCountFrom pat 0 s

/-- The number of non-overlapping occurrences of a nonempty pattern. -/
def matchCount (pat s : List α) : ℕ := matchCountFrom pat 0 s

/-- The first occurrence of a nonempty pattern replaced by `r`. -/
def replaceFirst (pat r : List α) : List α → List α
  | [] => []
  | x :: s => if pat <+: x :: s then r ++ (x :: s).drop pat.length else x :: replaceFirst pat r s

/-- An occurrence is counted, or one before it is. -/
theorem matchCount_pos {pat : List α} (hp : pat ≠ []) (l r : List α) :
    0 < matchCount pat (l ++ pat ++ r) := by
  induction l with
  | nil =>
    obtain ⟨x, p, rfl⟩ := List.exists_cons_of_ne_nil hp
    have hpre : x :: p <+: x :: (p ++ r) := List.prefix_append (x :: p) r
    simp only [List.nil_append, List.cons_append, matchCount, matchCountFrom, if_pos hpre]
    omega
  | cons c l ih =>
    simp only [List.cons_append, matchCount, matchCountFrom]
    split_ifs
    · omega
    · exact ih

/-- What is counted occurs. -/
theorem exists_of_matchCount {pat s : List α} (h : matchCount pat s ≠ 0) :
    ∃ l r, s = l ++ pat ++ r := by
  induction s with
  | nil => exact absurd rfl h
  | cons x s ih =>
    by_cases hpre : pat <+: x :: s
    · obtain ⟨r, hr⟩ := hpre
      exact ⟨[], r, hr.symm⟩
    · simp only [matchCount, matchCountFrom, if_neg hpre] at h
      obtain ⟨l, r, rfl⟩ := ih h
      exact ⟨x :: l, r, rfl⟩

/-- **The one occurrence is the one replaced.** Two different characters cannot
overlap themselves, so a second way to split the text would be counted as well. -/
theorem replaceFirst_of_matchCount {x y : α} (hxy : x ≠ y) {l r : List α}
    (h : matchCount [x, y] (l ++ [x, y] ++ r) = 1) (v : List α) :
    replaceFirst [x, y] v (l ++ [x, y] ++ r) = l ++ v ++ r := by
  induction l with
  | nil =>
    have hpre : [x, y] <+: x :: y :: r := List.prefix_append [x, y] r
    simp [replaceFirst, hpre]
  | cons c l ih =>
    by_cases hpre : [x, y] <+: c :: (l ++ [x, y] ++ r)
    · -- an earlier occurrence would be followed by the one at hand
      exfalso
      cases l with
      | nil =>
        obtain ⟨t, ht⟩ := hpre
        simp only [List.cons_append, List.nil_append, List.cons.injEq] at ht
        exact hxy ht.2.1.symm
      | cons d l =>
        have hpos := matchCount_pos (List.cons_ne_nil x [y]) l r
        simp only [List.cons_append, matchCount, matchCountFrom] at h hpos hpre
        simp only [if_pos hpre, List.length_cons, List.length_nil, Nat.zero_add,
          Nat.add_one_sub_one, matchCountFrom] at h
        omega
    · have hcons : c :: l ++ [x, y] ++ r = c :: (l ++ [x, y] ++ r) := rfl
      rw [hcons, matchCount, matchCountFrom, if_neg hpre] at h
      rw [hcons, replaceFirst, if_neg hpre, ih h]
      rfl

end Pattern

/-! ### Trimming and lines -/

/-- The text without its trailing white space. -/
def trimEnd (s : Str) : Str := (s.reverse.dropWhile isWhitespace).reverse

theorem trimEnd_concat_of_isWhitespace {c : Char} (h : isWhitespace c = true) (s : Str) :
    trimEnd (s ++ [c]) = trimEnd s := by
  rw [trimEnd, trimEnd, List.reverse_concat, List.dropWhile_cons_of_pos h]

/-- Trimming takes off the end. -/
theorem prefix_trimEnd (s : Str) : trimEnd s <+: s := by
  rw [trimEnd, ← List.reverse_suffix, List.reverse_reverse]
  exact List.dropWhile_suffix _

/-- The text without its leading white space. -/
def trimStart (s : Str) : Str := s.dropWhile isWhitespace

/-- White space at the front is taken off, and nothing after it. -/
theorem trimStart_append {space : Str} (hspace : ∀ c ∈ space, isWhitespace c = true) {s : Str}
    (hs : ∀ c ∈ s.head?, isWhitespace c = false) : trimStart (space ++ s) = s := by
  rw [trimStart, List.dropWhile_append_of_pos hspace]
  cases s with
  | nil => rfl
  | cons c s => exact List.dropWhile_cons_of_neg (by simp [hs c rfl])

/-- What is left begins with no white space. -/
theorem head?_trimStart (s : Str) : ∀ c ∈ (trimStart s).head?, isWhitespace c = false := by
  intro c hc
  have := List.head?_dropWhile_not isWhitespace s
  rwa [← trimStart, Option.mem_def.mp hc] at this

/-- The text without its white space on either side. -/
def trim (s : Str) : Str := trimEnd (s.dropWhile isWhitespace)

/-- The text without a given ending, if it has it. -/
def stripSuffix (p s : Str) : Option Str := (stripPrefix p.reverse s.reverse).map List.reverse

/-- The text without that ending. -/
theorem stripSuffix_eq_some {p s t : Str} : stripSuffix p s = some t ↔ s = t ++ p := by
  simp only [stripSuffix, Option.map_eq_some_iff, stripPrefix_eq_some]
  constructor
  · rintro ⟨r, hr, rfl⟩
    rw [← List.reverse_reverse s, hr, List.reverse_append, List.reverse_reverse]
  · rintro rfl
    exact ⟨t.reverse, List.reverse_append, List.reverse_reverse t⟩

theorem stripSuffix_eq_none {p s : Str} : stripSuffix p s = none ↔ ¬p <:+ s := by
  rw [Option.eq_none_iff_forall_ne_some]
  constructor
  · rintro h ⟨t, rfl⟩
    exact h t (stripSuffix_eq_some.mpr rfl)
  · rintro h t ht
    exact h ⟨t, (stripSuffix_eq_some.mp ht).symm⟩

/-- The words of a text: what stands between its white space. -/
def words (s : Str) : List Str := (s.splitOnP isWhitespace).filter (· ≠ [])

theorem words_of_forall {s : Str} (h : ∀ c ∈ s, isWhitespace c = false) :
    words s = if s = [] then [] else [s] := by
  rw [words, List.splitOnP_eq_singleton h]
  by_cases hs : s = []
  · simp [hs]
  · simp [hs]

/-- A word, white space, and the rest. -/
theorem words_append_cons {w : Str} (hne : w ≠ []) (hw : ∀ c ∈ w, isWhitespace c = false) {c : Char}
    (hc : isWhitespace c = true) (s : Str) : words (w ++ c :: s) = w :: words s := by
  rw [words, List.splitOnP_append_cons_of_forall_mem hw c hc, List.filter_cons_of_pos (by simpa),
    words]

theorem words_cons {c : Char} (hc : isWhitespace c = true) (s : Str) :
    words (c :: s) = words s := by
  rw [words, List.splitOnP_cons_eq_if_modifyHead, if_pos hc, List.filter_cons_of_neg (by simp),
    words]

/-- White space at the front is no word. -/
theorem words_trimStart (s : Str) : words (trimStart s) = words s := by
  induction s with
  | nil => rfl
  | cons c s ih =>
    by_cases hc : isWhitespace c = true
    · rw [words_cons hc, trimStart, List.dropWhile_cons_of_pos hc, ← trimStart, ih]
    · rw [trimStart, List.dropWhile_cons_of_neg hc]

/-- The first line, without its line feed or its carriage return and line feed. -/
def firstLine (s : Str) : Str :=
  match splitOnce '\n' s with
  | some (l, _) => (stripSuffix ['\r'] l).getD l
  | none => s

/-! ### Bytes -/

/-- What a reader of one line takes from a stream: everything up to the first
`nl`, included, or all of it. -/
def lineOf {α : Type} [DecidableEq α] (nl : α) (b : List α) : List α :=
  match splitOnce nl b with
  | some (l, _) => l ++ [nl]
  | none => b

/-- A line that ends in its `nl` hides what follows it. -/
theorem lineOf_append {α : Type} [DecidableEq α] {nl : α} {l : List α} (h : nl ∉ l) (r : List α) :
    lineOf nl (l ++ nl :: r) = l ++ [nl] := by
  rw [lineOf, splitOnce_eq_some.mpr ⟨rfl, h⟩]

/-- A stream without an `nl` is one line. -/
theorem lineOf_of_notMem {α : Type} [DecidableEq α] {nl : α} {l : List α} (h : nl ∉ l) :
    lineOf nl l = l := by
  rw [lineOf, splitOnce_eq_none.mpr h]

/-- A line is a beginning of the stream. -/
theorem prefix_lineOf {α : Type} [DecidableEq α] (nl : α) (b : List α) : lineOf nl b <+: b := by
  rw [lineOf]
  rcases h : splitOnce nl b with _ | ⟨l, r⟩
  · exact List.prefix_rfl
  · obtain ⟨rfl, -⟩ := splitOnce_eq_some.mp h
    exact ⟨r, by simp⟩

/-- A beginning of a line with its end is all of it. -/
theorem eq_of_prefix_of_mem {α : Type} {nl : α} {l p : List α} (hp : p <+: l ++ [nl])
    (hm : nl ∈ p) (hn : nl ∉ l) : p = l ++ [nl] := by
  rcases List.prefix_concat_iff.mp hp with h | h
  · exact h
  · exact absurd (h.subset hm) hn

/-- The UTF-8 encoding of a text. -/
def utf8 (s : Str) : List UInt8 := s.flatMap String.utf8EncodeChar

/-- The text a byte string is the UTF-8 encoding of, if it is one. -/
def fromUtf8 (b : List UInt8) : Option Str := b.toByteArray.utf8Decode?.map Array.toList

theorem toByteArray_utf8 (s : Str) : (utf8 s).toByteArray = s.utf8Encode := by
  simp [utf8, List.utf8Encode]

@[simp] theorem utf8_nil : utf8 [] = [] := rfl

@[simp] theorem utf8_append (s t : Str) : utf8 (s ++ t) = utf8 s ++ utf8 t := by
  simp [utf8]

/-- A character takes at most four bytes. -/
theorem length_utf8_le (s : Str) : (utf8 s).length ≤ 4 * s.length := by
  induction s with
  | nil => simp
  | cons c s ih =>
    have hc := c.utf8Size_le_four
    rw [utf8, List.flatMap_cons, List.length_append, String.length_utf8EncodeChar, ← utf8,
      List.length_cons]
    omega

theorem toByteArray_injective {b c : List UInt8} (h : b.toByteArray = c.toByteArray) : b = c := by
  have := congrArg (fun x : ByteArray => x.data.toList) h
  simpa using this

@[simp] theorem fromUtf8_utf8 (s : Str) : fromUtf8 (utf8 s) = some s := by
  rw [fromUtf8, toByteArray_utf8, List.utf8Decode?_utf8Encode]
  simp

/-- **The encoding is injective.** -/
theorem utf8_injective {s t : Str} (h : utf8 s = utf8 t) : s = t := by
  have := congrArg fromUtf8 h
  simpa using this

theorem utf8_of_fromUtf8 {b : List UInt8} {s : Str} (h : fromUtf8 b = some s) : utf8 s = b := by
  obtain ⟨a, ha, rfl⟩ := Option.map_eq_some_iff.mp h
  -- decoding is stated for byte arrays, so the lists are compared there
  apply toByteArray_injective
  rw [toByteArray_utf8]
  have hs : b.toByteArray.utf8Decode?.isSome = true := by rw [ha]; rfl
  have := ByteArray.utf8Encode_get_utf8Decode? (b := b.toByteArray) (h := hs)
  simpa [ha] using this

/-- **A byte prefix that decodes is a character prefix**: cutting an encoding at
a byte either splits a character, and then the bytes are no text, or falls
between two characters. -/
theorem prefix_of_fromUtf8 {b : List UInt8} {s t : Str} (hb : b <+: utf8 s)
    (ht : fromUtf8 b = some t) : t <+: s := by
  obtain ⟨c, hc⟩ := hb
  refine List.isPrefix_of_utf8Encode_append_eq_utf8Encode c.toByteArray ?_
  rw [← toByteArray_utf8, ← toByteArray_utf8, ← hc, utf8_of_fromUtf8 ht]
  simp [List.toByteArray_append]

/-- A byte below 128 encodes the character of its number and nothing else. -/
theorem toNat_of_mem_utf8EncodeChar {c : Char} {b : UInt8} (hb : b < 128)
    (h : b ∈ String.utf8EncodeChar c) : c.toNat = b.toNat := by
  have hb' : b.toNat < 128 := UInt8.lt_iff_toNat_lt.mp hb
  have hbyte : ∀ n : ℕ, b = UInt8.ofNat n → n % 256 = b.toNat := fun n hn => by
    have := congrArg UInt8.toNat hn
    simpa using this.symm
  simp only [String.utf8EncodeChar] at h
  -- only a one-byte encoding has a byte below 128
  split_ifs at h with h1 h2 h3
  · have := hbyte _ (List.mem_singleton.mp h)
    exact show c.val.toNat = b.toNat by omega
  · simp only [List.mem_cons, List.not_mem_nil, or_false] at h
    rcases h with h | h <;> have := hbyte _ h <;> omega
  · simp only [List.mem_cons, List.not_mem_nil, or_false] at h
    rcases h with h | h | h <;> have := hbyte _ h <;> omega
  · simp only [List.mem_cons, List.not_mem_nil, or_false] at h
    rcases h with h | h | h | h <;> have := hbyte _ h <;> omega

/-- An ASCII character is one byte. -/
theorem utf8EncodeChar_of_lt {c : Char} (h : c.toNat < 128) :
    String.utf8EncodeChar c = [UInt8.ofNat c.toNat] := by
  have h' : c.val.toNat ≤ 127 := by
    have : c.val.toNat < 128 := h
    omega
  rw [String.utf8EncodeChar, if_pos h']
  rfl

/-- ASCII characters are encoded in ASCII bytes. -/
theorem ascii_utf8 {s : Str} (h : ∀ c ∈ s, c.toNat < 128) : ∀ b ∈ utf8 s, b < 128 := by
  intro b hb
  obtain ⟨c, hc, hm⟩ := List.mem_flatMap.mp hb
  have hlt := h c hc
  rw [utf8EncodeChar_of_lt hlt, List.mem_singleton] at hm
  rw [hm, UInt8.lt_iff_toNat_lt, UInt8.toNat_ofNat', Nat.mod_eq_of_lt (by omega)]
  exact hlt

/-- The text of bytes below 128, one character each. -/
def asciiText (bytes : List UInt8) : Str := bytes.map fun b => Char.ofNat b.toNat

/-- An encoding with no byte past 127 is of ASCII characters, and reads as they stand. -/
theorem asciiText_utf8 {s : Str} (h : ∀ b ∈ utf8 s, b < 128) : asciiText (utf8 s) = s := by
  induction s with
  | nil => rfl
  | cons c s ih =>
    have hcons : utf8 (c :: s) = String.utf8EncodeChar c ++ utf8 s := rfl
    rw [hcons] at h ⊢
    obtain ⟨hc, hs⟩ := List.forall_mem_append.mp h
    obtain ⟨b, hb⟩ := List.exists_mem_of_ne_nil _ (String.utf8EncodeChar_ne_nil (c := c))
    have hlt : c.toNat < 128 := by
      rw [toNat_of_mem_utf8EncodeChar (hc b hb) hb]
      exact UInt8.lt_iff_toNat_lt.mp (hc b hb)
    rw [utf8EncodeChar_of_lt hlt, asciiText, List.map_append, ← asciiText, ← asciiText, ih hs]
    have hone : (UInt8.ofNat c.toNat).toNat = c.toNat := by
      rw [UInt8.toNat_ofNat']
      omega
    simp [asciiText, hone]

theorem toNat_charOfNat {n : ℕ} (h : n < 128) : (Char.ofNat n).toNat = n := by
  have hv : n.isValidChar := Or.inl (by omega)
  rw [Char.ofNat, dif_pos hv]
  rfl

/-- ASCII bytes are the encoding of the text they read as. -/
theorem utf8_asciiText {bytes : List UInt8} (h : ∀ b ∈ bytes, b < 128) :
    utf8 (asciiText bytes) = bytes := by
  induction bytes with
  | nil => rfl
  | cons b bytes ih =>
    obtain ⟨hb, hbytes⟩ := List.forall_mem_cons.mp h
    have hlt : b.toNat < 128 := UInt8.lt_iff_toNat_lt.mp hb
    have hchar := toNat_charOfNat hlt
    have hone : String.utf8EncodeChar (Char.ofNat b.toNat) = [b] := by
      rw [utf8EncodeChar_of_lt (by omega), hchar, UInt8.ofNat_toNat]
    rw [asciiText, List.map_cons, utf8, List.flatMap_cons, hone, ← utf8, ← asciiText, ih hbytes]
    rfl

theorem newline_notMem_utf8 {s : Str} (h : '\n' ∉ s) : (10 : UInt8) ∉ utf8 s := by
  intro hm
  obtain ⟨c, hc, hb⟩ := List.mem_flatMap.mp hm
  have hc' : c = '\n' := Char.toNat_inj.mp (toNat_of_mem_utf8EncodeChar (by decide) hb)
  exact h (hc' ▸ hc)

/-! ### Numerals -/

/-- The two lowercase hexadecimal digits of a byte. -/
def hexByte (b : UInt8) : Str := [(b.toNat / 16).digitChar, (b.toNat % 16).digitChar]

/-- The lowercase hexadecimal rendering of a byte string. -/
def hex (b : List UInt8) : Str := b.flatMap hexByte

@[simp] theorem hex_nil : hex [] = [] := rfl

@[simp] theorem hex_cons (x : UInt8) (b : List UInt8) : hex (x :: b) = hexByte x ++ hex b := rfl

theorem digitChar_injective_lt : ∀ m < 16, ∀ n < 16, m.digitChar = n.digitChar → m = n := by
  decide

theorem hexByte_injective {x y : UInt8} (h : hexByte x = hexByte y) : x = y := by
  have hx := x.toNat_lt
  have hy := y.toNat_lt
  obtain ⟨h1, h2⟩ : (x.toNat / 16).digitChar = (y.toNat / 16).digitChar ∧
      (x.toNat % 16).digitChar = (y.toNat % 16).digitChar := by simpa [hexByte] using h
  have h3 := digitChar_injective_lt _ (by omega) _ (by omega) h1
  have h4 := digitChar_injective_lt _ (by omega) _ (by omega) h2
  exact UInt8.toNat_inj.mp (by omega)

/-- **The hexadecimal rendering is injective.** -/
theorem hex_injective {b c : List UInt8} (h : hex b = hex c) : b = c := by
  induction b generalizing c with
  | nil =>
    cases c with
    | nil => rfl
    | cons y c => simp [hexByte] at h
  | cons x b ih =>
    cases c with
    | nil => simp [hexByte] at h
    | cons y c =>
      rw [hex_cons, hex_cons] at h
      obtain ⟨h1, h2⟩ := List.append_inj h rfl
      rw [hexByte_injective h1, ih h2]

/-- The decimal rendering of a number. -/
def decimal (n : ℕ) : Str := Nat.toDigits 10 n

end Text
