import Mathlib.Data.Char
import Mathlib.Data.List.Destutter
import Mathlib.Data.List.Infix
import Mathlib.Data.List.Lex
import Iwaya.Image

/-!
# The objects mapped into the process

The kernel lists the mappings of a process one a line: five fields, padding, and for a
mapping of a file its path. The path is not escaped, so it is everything that stands after
the fifth field; a mark after it says that the file has no name any more. Whatever white
space a path has, within it or at its end, it is read back as it was
(`Iwaya.mappedPathname_recovers`).
-/

namespace Iwaya

open Text

/-! ### One line -/

/-- One turn of the loop: what stands after the next field and the white space after it. -/
def skipField (rest : Str) : Option Str :=
  (rest.findIdx? isWhitespace).map fun separator => trimStart (rest.drop separator)

/-- That many turns. -/
def skipFields : ℕ → Str → Option Str
  | 0, rest => some rest
  | n + 1, rest => (skipField rest).bind (skipFields n)

/-- What the kernel writes after the path of a file that has no name any more. -/
def deletedMarker : Str := " (deleted)".toList

/-- **The path of a line**, or nothing for an anonymous mapping. -/
def mappedPathname (line : Str) : Option Str := do
  let rest ← skipFields 5 line
  let pathname := (stripSuffix deletedMarker rest).getD rest
  if pathname.isEmpty then none else some pathname

/-! ### All of them -/

/-- `str::lines`: a line ends in a line feed or in a carriage return and one, the last line
also in neither. -/
def lines (s : Str) : List Str :=
  let pieces := s.splitOn '\n'
  pieces.dropLast.map (fun l => (stripSuffix ['\r'] l).getD l) ++
    pieces.getLast?.toList.filter (· ≠ [])

/-- The components of an absolute path. -/
def components (path : Str) : List Str :=
  (path.splitOn '/').filter fun component => component ≠ [] ∧ component ≠ ['.']

/-- `Path`'s equality, of absolute paths. -/
def samePath (p q : Str) : Bool := components p == components q

/-- **The shared objects**: the files mapped into the process that look like one, without
the binary itself, in order and each once. -/
def loadedSharedObjects (maps : Except IoError Str) (exe : Str) :
    Except ProxyImageError (List Str) := do
  let maps ← maps.mapError ProxyImageError.maps
  let objects := (lines maps).filterMap mappedPathname
  let objects := objects.filter fun path => path.head? = some '/' ∧ ".so".toList <:+: path
  let objects := objects.filter fun path => !samePath path exe
  return (objects.mergeSort fun a b => decide (a ≤ b)).destutter (· ≠ ·)

/-! ### Skipping fields -/

/-- A field of a line: not empty, and without white space. -/
def IsField (field : Str) : Prop := field ≠ [] ∧ ∀ c ∈ field, isWhitespace c = false

instance (field : Str) : Decidable (IsField field) :=
  decidable_of_iff (field ≠ [] ∧ field.all (fun c => !isWhitespace c) = true) (by simp [IsField])

theorem IsField.head? {field : Str} (h : IsField field) (s : Str) :
    ∀ c ∈ (field ++ s).head?, isWhitespace c = false := by
  obtain ⟨d, field, rfl⟩ := List.exists_cons_of_ne_nil h.1
  intro c hc
  obtain rfl := Option.some.inj hc
  exact h.2 _ List.mem_cons_self

/-- One turn goes past a word and the white space after it. -/
theorem skipField_append {w : Str} (hw : ∀ c ∈ w, isWhitespace c = false) {c : Char}
    (hc : isWhitespace c = true) (s : Str) : skipField (w ++ c :: s) = some (trimStart s) := by
  have hfind : (w ++ c :: s).findIdx? isWhitespace = some w.length := by
    rw [List.findIdx?_append, List.findIdx?_eq_none_iff.mpr hw, List.findIdx?_cons, if_pos hc]
    simp
  rw [skipField, hfind, Option.map_some, List.drop_left, trimStart, List.dropWhile_cons_of_pos hc,
    trimStart]

/-- **Five turns go past five fields**, and as many turns past as many fields. -/
theorem skipFields_intercalate {fields : List Str} (hne : fields ≠ [])
    (hfields : ∀ field ∈ fields, IsField field) {padding : Str} (hpadding : padding ≠ [])
    (hspace : ∀ c ∈ padding, isWhitespace c = true) {rest : Str}
    (hrest : ∀ c ∈ rest.head?, isWhitespace c = false) :
    skipFields fields.length (List.intercalate [' '] fields ++ padding ++ rest) = some rest := by
  induction fields with
  | nil => exact absurd rfl hne
  | cons field fields ih =>
    obtain ⟨hfield, hfields⟩ := List.forall_mem_cons.mp hfields
    cases fields with
    | nil =>
      obtain ⟨c, padding, rfl⟩ := List.exists_cons_of_ne_nil hpadding
      obtain ⟨hc, hspace⟩ := List.forall_mem_cons.mp hspace
      have hskip := skipField_append hfield.2 hc (padding ++ rest)
      rw [trimStart_append hspace hrest] at hskip
      rw [List.intercalate_singleton, List.append_assoc, List.length_singleton, skipFields,
        List.cons_append, hskip]
      rfl
    | cons next fields =>
      -- the single space is gone past, and the next field begins with none
      have hskip := skipField_append hfield.2 (c := ' ') (by decide)
        (List.intercalate [' '] (next :: fields) ++ padding ++ rest)
      have hnext : ∀ c ∈ (List.intercalate [' '] (next :: fields) ++ padding ++ rest).head?,
          isWhitespace c = false := by
        have hfirst := (hfields next List.mem_cons_self).head?
        cases fields with
        | nil => simpa [List.append_assoc] using hfirst (padding ++ rest)
        | cons third fields =>
          simpa [List.intercalate_cons_cons, List.append_assoc] using
            hfirst (' ' :: (List.intercalate [' '] (third :: fields) ++ (padding ++ rest)))
      have hnone : ∀ c ∈ ([] : Str), isWhitespace c = true := by simp
      have htrim := trimStart_append hnone hnext
      rw [List.nil_append] at htrim
      rw [htrim] at hskip
      rw [List.intercalate_cons_cons, List.length_cons, skipFields]
      have hassoc : field ++ [' '] ++ List.intercalate [' '] (next :: fields) ++ padding ++ rest =
          field ++ ' ' :: (List.intercalate [' '] (next :: fields) ++ padding ++ rest) := by
        simp [List.append_assoc]
      rw [hassoc, hskip]
      exact ih (List.cons_ne_nil _ _) hfields

/-! ### Running out of fields -/

/-- One turn takes one word, unless there is no white space after it. -/
theorem skipField_words {line : Str} (hline : ∀ c ∈ line.head?, isWhitespace c = false) :
    (skipField line = none ∧ (words line).length ≤ 1) ∨
      ∃ rest, skipField line = some rest ∧ (words line).length = (words rest).length + 1 ∧
        ∀ c ∈ rest.head?, isWhitespace c = false := by
  have hplain : ∀ c ∈ line.takeWhile (!isWhitespace ·), isWhitespace c = false := fun c hc => by
    simpa using List.mem_takeWhile_imp hc
  have hsplit := List.takeWhile_append_dropWhile (p := (!isWhitespace ·)) (l := line)
  rcases htail : line.dropWhile (!isWhitespace ·) with _ | ⟨c, tail⟩
  · left
    rw [htail, List.append_nil] at hsplit
    rw [hsplit] at hplain
    rw [skipField, List.findIdx?_eq_none_iff.mpr hplain, words_of_forall hplain]
    refine ⟨rfl, ?_⟩
    split_ifs <;> simp
  · right
    rw [htail] at hsplit
    have hc : isWhitespace c = true := by
      have := List.head?_dropWhile_not (!isWhitespace ·) line
      simpa [htail] using this
    have hne : line.takeWhile (!isWhitespace ·) ≠ [] := by
      intro hnil
      rw [hnil, List.nil_append] at hsplit
      subst hsplit
      rw [hline c rfl] at hc
      cases hc
    refine ⟨trimStart tail, ?_, ?_, head?_trimStart tail⟩
    · rw [← hsplit, skipField_append hplain hc]
    · rw [← hsplit, words_append_cons hne hplain hc, List.length_cons, words_trimStart]

/-- As many turns as there are words leave nothing. -/
theorem skipFields_eq_nil {n : ℕ} {line rest : Str}
    (hline : ∀ c ∈ line.head?, isWhitespace c = false) (hwords : (words line).length ≤ n)
    (h : skipFields n line = some rest) : rest = [] := by
  induction n generalizing line with
  | zero =>
    obtain rfl := Option.some.inj h
    cases line with
    | nil => rfl
    | cons c line =>
      -- a text that begins with a word has one
      exfalso
      rcases skipField_words hline with ⟨hnone, -⟩ | ⟨rest, -, hlength, -⟩
      · have hplain := List.findIdx?_eq_none_iff.mp (Option.map_eq_none_iff.mp hnone)
        rw [words_of_forall hplain, if_neg (List.cons_ne_nil _ _)] at hwords
        simp at hwords
      · omega
  | succ n ih =>
    rcases skipField_words hline with ⟨hnone, -⟩ | ⟨next, hnext, hlength, hhead⟩
    · rw [skipFields, hnone] at h
      cases h
    · rw [skipFields, hnext, Option.bind_some] at h
      exact ih hhead (by omega) h

/-! ### Reading a line -/

/-- After five fields and padding, what is left is the path, the mark apart. -/
theorem mappedPathname_fields {fields : List Str} (hlength : fields.length = 5)
    (hfields : ∀ field ∈ fields, IsField field) {padding : Str} (hpadding : padding ≠ [])
    (hspace : ∀ c ∈ padding, isWhitespace c = true) {rest : Str}
    (hrest : ∀ c ∈ rest.head?, isWhitespace c = false) :
    mappedPathname (List.intercalate [' '] fields ++ padding ++ rest) =
      if ((stripSuffix deletedMarker rest).getD rest).isEmpty then none
      else some ((stripSuffix deletedMarker rest).getD rest) := by
  have hne : fields ≠ [] := List.ne_nil_of_length_eq_add_one hlength
  have hskip := skipFields_intercalate hne hfields hpadding hspace hrest
  rw [hlength] at hskip
  rw [mappedPathname, hskip]
  rfl

theorem head?_slash {p : Str} (h : p.head? = some '/') (s : Str) :
    ∀ c ∈ (p ++ s).head?, isWhitespace c = false := by
  obtain ⟨p, rfl⟩ := List.head?_eq_some_iff.mp h
  intro c hc
  obtain rfl := Option.some.inj hc
  decide

/-- A path with the mark after it is read without. -/
theorem mappedPathname_deleted {fields : List Str} (hlength : fields.length = 5)
    (hfields : ∀ field ∈ fields, IsField field) {padding : Str} (hpadding : padding ≠ [])
    (hspace : ∀ c ∈ padding, isWhitespace c = true) {p : Str} (h : p.head? = some '/') :
    mappedPathname (List.intercalate [' '] fields ++ padding ++ (p ++ deletedMarker)) =
      some p := by
  rw [mappedPathname_fields hlength hfields hpadding hspace (head?_slash h deletedMarker),
    stripSuffix_eq_some.mpr rfl]
  obtain ⟨p, rfl⟩ := List.head?_eq_some_iff.mp h
  rfl

/-- **A line is read back**: after five fields and padding, an absolute path that does not
itself end in the mark is returned as it is, with the mark after it or without. A line that
has no more than five words has no path. -/
theorem mappedPathname_recovers :
    (∀ fields : List Str, fields.length = 5 → (∀ field ∈ fields, IsField field) →
      ∀ padding : Str, padding ≠ [] → (∀ c ∈ padding, isWhitespace c = true) →
      ∀ p : Str, p.head? = some '/' → ¬deletedMarker <:+ p →
        mappedPathname (List.intercalate [' '] fields ++ padding ++ p) = some p ∧
          mappedPathname (List.intercalate [' '] fields ++ padding ++ (p ++ deletedMarker)) =
            some p) ∧
    ∀ line : Str, (∀ c ∈ line.head?, isWhitespace c = false) → (words line).length ≤ 5 →
      mappedPathname line = none := by
  constructor
  · intro fields hlength hfields padding hpadding hspace p habs hmarker
    refine ⟨?_, mappedPathname_deleted hlength hfields hpadding hspace habs⟩
    have hhead := head?_slash habs []
    rw [List.append_nil] at hhead
    rw [mappedPathname_fields hlength hfields hpadding hspace hhead,
      stripSuffix_eq_none.mpr hmarker]
    obtain ⟨p, rfl⟩ := List.head?_eq_some_iff.mp habs
    rfl
  · intro line hline hwords
    rcases hskip : skipFields 5 line with _ | rest
    · rw [mappedPathname, hskip]
      rfl
    · rw [mappedPathname, hskip, skipFields_eq_nil hline hwords hskip]
      decide

theorem mappedPathname_spaced :
    mappedPathname "7f00-7f01 r-xp 00000000 08:01 123    /opt/my libs/libfoo.so ".toList =
        some "/opt/my libs/libfoo.so ".toList ∧
      mappedPathname "7f00-7f01 rw-p 00000000 00:00 0 ".toList = none :=
  ⟨(mappedPathname_recovers.1
      ["7f00-7f01".toList, "r-xp".toList, "00000000".toList, "08:01".toList, "123".toList] rfl
      (by decide +kernel) "    ".toList (by decide) (List.all_eq_true.mp (by decide))
      "/opt/my libs/libfoo.so ".toList rfl (by decide +kernel)).1,
    mappedPathname_recovers.2 _ (by rintro c ⟨⟩; rfl) (by decide +kernel)⟩

end Iwaya
