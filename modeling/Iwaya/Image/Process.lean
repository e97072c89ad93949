import Mathlib.Logic.Relation
import Iwaya.Foundation.Names
import Iwaya.Image.Maps

/-!
# The process and the files mapped into it

While the process runs, files are created, removed, renamed and rewritten by anybody. A
mapping keeps the inode it was made of through all of it; what the listing says of it is
the name it has, or the one it had last and a mark. So a path without the mark leads to the
inode that is mapped (`Iwaya.System.sound_of_history`), and a path with it leads anywhere.
-/

namespace Iwaya

open Text Names

/-! ### Mappings and their lines -/

/-- A label of a mapping that is none of a file: on one line, and no path. -/
def IsLabel (label : Str) : Prop :=
  '\n' ∉ label ∧ ∀ c ∈ label.head?, c ≠ '/' ∧ isWhitespace c = false

/-- What is mapped: memory with a label, which may be empty, or a file. -/
inductive Mapped where
  | anonymous (label : Str) (isLabel : IsLabel label)
  | file (reference : Reference Str ℕ)

/-- The path of a file as it is listed: a line feed in it is escaped, nothing else. -/
def escapePath (path : Str) : Str := path.flatMap fun c => if c = '\n' then "\\012".toList else [c]

/-- What is listed after the fields. -/
def Mapped.text : Mapped → Str
  | .anonymous label _ => label
  | .file reference =>
    escapePath reference.path ++ if reference.linked then [] else deletedMarker

/-- A mapping: the five fields of its line, how much they are padded, and what is mapped. -/
structure Mapping where
  fields : List Str
  padding : ℕ
  mapped : Mapped
  length_fields : fields.length = 5
  isField : ∀ field ∈ fields, IsField field

namespace Mapping

/-- The line of a mapping. -/
def line (m : Mapping) : Str :=
  List.intercalate [' '] m.fields ++ List.replicate (m.padding + 1) ' ' ++ m.mapped.text

/-- The path that is read out of it. -/
def listed (m : Mapping) : Option Str := mappedPathname ((stripSuffix ['\r'] m.line).getD m.line)

/-- The mapping is of a file that has no name any more: its line carries the mark. -/
def Marked (m : Mapping) : Prop := ∃ r, m.mapped = .file r ∧ r.linked = false

end Mapping

/-- The listing. -/
def mapsText (mappings : List Mapping) : Str := mappings.flatMap fun m => m.line ++ ['\n']

theorem newline_notMem_escapePath (path : Str) : '\n' ∉ escapePath path := by
  intro h
  obtain ⟨c, -, hc⟩ := List.mem_flatMap.mp h
  split_ifs at hc with heq
  · revert hc
    decide
  · exact heq (List.mem_singleton.mp hc).symm

theorem escapePath_of_notMem {path : Str} (h : '\n' ∉ path) : escapePath path = path := by
  induction path with
  | nil => rfl
  | cons c path ih =>
    rw [List.mem_cons, not_or] at h
    rw [escapePath, List.flatMap_cons, if_neg (Ne.symm h.1), ← escapePath, ih h.2]
    rfl

theorem newline_notMem_intercalate {fields : List Str} (h : ∀ field ∈ fields, IsField field) :
    '\n' ∉ List.intercalate [' '] fields := by
  have hfield : ∀ field ∈ fields, '\n' ∉ field := fun field hmem hnl => by
    have := (h field hmem).2 '\n' hnl
    revert this
    decide
  induction fields with
  | nil => simp
  | cons field fields ih =>
    obtain ⟨hf, hfs⟩ := List.forall_mem_cons.mp hfield
    cases fields with
    | nil => rwa [List.intercalate_singleton]
    | cons next fields =>
      have hrest := ih (fun f hf => h f (List.mem_cons_of_mem _ hf)) hfs
      rw [List.intercalate_cons_cons]
      simp only [List.mem_append, List.mem_singleton, not_or]
      exact ⟨⟨hf, by decide⟩, hrest⟩

/-- A line is one line. -/
theorem Mapping.newline_notMem_line (m : Mapping) : '\n' ∉ m.line := by
  have htext : '\n' ∉ m.mapped.text := by
    cases hm : m.mapped with
    | anonymous label isLabel => exact isLabel.1
    | file r =>
      simp only [Mapped.text, List.mem_append, not_or]
      refine ⟨newline_notMem_escapePath r.path, ?_⟩
      split <;> decide
  simp only [Mapping.line, List.mem_append, not_or]
  exact ⟨⟨newline_notMem_intercalate m.isField, by simp [List.mem_replicate]⟩, htext⟩

/-- **The lines of the listing are those of the mappings**, but for a carriage return at the
end of one. -/
theorem lines_mapsText (mappings : List Mapping) :
    lines (mapsText mappings) =
      mappings.map fun m => (stripSuffix ['\r'] m.line).getD m.line := by
  have hsplit : (mapsText mappings).splitOn '\n' = mappings.map Mapping.line ++ [[]] := by
    induction mappings with
    | nil => rfl
    | cons m mappings ih =>
      rw [mapsText, List.flatMap_cons, ← mapsText, List.append_assoc, List.singleton_append,
        List.splitOn_append_cons_self_of_not_mem m.newline_notMem_line, ih]
      rfl
  simp only [lines, hsplit, List.dropLast_concat, List.getLast?_concat, Option.toList_some,
    List.map_map, Function.comp_def]
  exact List.append_nil _

/-- What the mappings list is what is read out of the listing. -/
theorem filterMap_lines (mappings : List Mapping) :
    (lines (mapsText mappings)).filterMap mappedPathname = mappings.filterMap Mapping.listed := by
  rw [lines_mapsText, List.filterMap_map]
  rfl

/-- What ends in the other is no more than the text. -/
theorem getD_stripSuffix_subset (p s : Str) : (stripSuffix p s).getD s ⊆ s := by
  rcases h : stripSuffix p s with _ | t
  · exact List.Subset.refl s
  · rw [stripSuffix_eq_some.mp h]
    exact List.subset_append_left t p

theorem skipFields_subset {n : ℕ} {line rest : Str} (h : skipFields n line = some rest) :
    rest ⊆ line := by
  induction n generalizing line with
  | zero => exact (Option.some.inj h) ▸ List.Subset.refl line
  | succ n ih =>
    obtain ⟨next, hnext, hrest⟩ := Option.bind_eq_some_iff.mp h
    obtain ⟨separator, -, rfl⟩ := Option.map_eq_some_iff.mp hnext
    exact List.Subset.trans (ih hrest)
      (List.Subset.trans (List.dropWhile_subset _) (List.drop_subset _ _))

/-- A path that is read out of a line is part of it, so it has no line feed. -/
theorem Mapping.newline_notMem_listed {m : Mapping} {path : Str} (h : m.listed = some path) :
    '\n' ∉ path := by
  intro hnl
  obtain ⟨rest, hrest, hpath⟩ := Option.bind_eq_some_iff.mp h
  have hstrip : (stripSuffix deletedMarker rest).getD rest = path := by
    by_cases hempty : ((stripSuffix deletedMarker rest).getD rest).isEmpty = true
    · simp [hempty] at hpath
    · simpa [hempty] using hpath
  rw [← hstrip] at hnl
  exact m.newline_notMem_line (getD_stripSuffix_subset _ _ (skipFields_subset hrest
    (getD_stripSuffix_subset _ _ hnl)))

/-- **A file without a name is listed under its last one.** -/
theorem Mapping.listed_of_not_linked {m : Mapping} {r : Reference Str ℕ} (hm : m.mapped = .file r)
    (hr : r.linked = false) (habs : r.path.head? = some '/') (hnl : '\n' ∉ r.path) :
    m.listed = some r.path := by
  have hline : m.line = List.intercalate [' '] m.fields ++ List.replicate (m.padding + 1) ' ' ++
      (r.path ++ deletedMarker) := by
    rw [Mapping.line, hm, Mapped.text, hr, escapePath_of_notMem hnl]
    rfl
  have hcr : stripSuffix ['\r'] m.line = none := by
    rw [stripSuffix_eq_none, hline, ← List.append_assoc]
    rintro ⟨t, ht⟩
    have hlast := congrArg List.getLast? ht
    rw [List.getLast?_concat, List.getLast?_append_of_ne_nil _ (by decide)] at hlast
    revert hlast
    decide
  have hspace : ∀ c ∈ List.replicate (m.padding + 1) ' ', isWhitespace c = true := fun c hc => by
    rw [List.eq_of_mem_replicate hc]
    decide
  rw [Mapping.listed, hcr, Option.getD_none, hline]
  exact mappedPathname_deleted m.length_fields m.isField (by simp) hspace habs

/-! ### Histories -/

/-- What becomes of what is mapped. -/
def Mapped.change (c : Change Str ℕ) : Mapped → Mapped
  | .anonymous label isLabel => .anonymous label isLabel
  | .file reference => .file (c.reference reference)

/-- What becomes of a mapping. -/
def Mapping.change (c : Change Str ℕ) (m : Mapping) : Mapping :=
  { m with mapped := m.mapped.change c }

/-- The files, by name and by inode, and the mappings of the process. -/
structure System where
  names : Str → Option ℕ
  content : ℕ → List UInt8
  mappings : List Mapping

/-- What a change of the names makes of them. -/
def System.after (s : System) (c : Change Str ℕ) : System :=
  ⟨c.names s.names, s.content, s.mappings.map (Mapping.change c)⟩

/-- **What can happen to them**: names are given, taken away and moved, a file is rewritten
in place, and the process maps a file by its name, or memory without one, and unmaps. -/
inductive System.Step : System → System → Prop
  | change (s : System) (c : Change Str ℕ) (allowed : c.Allowed s.names) : Step s (s.after c)
  | write (s : System) (inode : ℕ) (bytes : List UInt8) :
      Step s { s with content := Function.update s.content inode bytes }
  | map (s : System) (m : Mapping) (holds : ∀ r, m.mapped = .file r → r.Holds s.names) :
      Step s { s with mappings := s.mappings ++ [m] }
  | unmap (s : System) (mappings : List Mapping) (sublist : mappings.Sublist s.mappings) :
      Step s { s with mappings := mappings }

/-- A history of a process, from before it maps anything. -/
def System.History (s : System) : Prop :=
  ∃ first : System, first.mappings = [] ∧ Relation.ReflTransGen System.Step first s

/-- A mapping that is listed without the mark is of the file its path leads to. -/
def System.Sound (s : System) : Prop :=
  ∀ m ∈ s.mappings, ∀ r, m.mapped = .file r → r.Holds s.names

theorem System.Step.sound {s s' : System} (h : Step s s') (hs : s.Sound) : s'.Sound := by
  cases h with
  | change c allowed =>
    intro m hm r hr
    obtain ⟨m, hmem, rfl⟩ := List.mem_map.mp hm
    cases hmapped : m.mapped with
    | anonymous label isLabel =>
      rw [Mapping.change, hmapped] at hr
      cases hr
    | file r' =>
      rw [Mapping.change, hmapped] at hr
      cases hr
      exact Change.holds allowed (hs m hmem r' hmapped)
  | write inode bytes => exact hs
  | map m holds =>
    intro m' hm'
    rcases List.mem_append.mp hm' with hm' | hm'
    · exact hs m' hm'
    · rw [List.mem_singleton.mp hm']
      exact holds
  | unmap mappings sublist => exact fun m hm => hs m (sublist.subset hm)

/-- **Whatever happened, a mapping that is listed without the mark is of the file its path
leads to.** -/
theorem System.sound_of_history {s : System} (h : s.History) : s.Sound := by
  obtain ⟨first, hfirst, hsteps⟩ := h
  induction hsteps with
  | refl =>
    intro m hm
    rw [hfirst] at hm
    cases hm
  | tail _ hstep ih => exact hstep.sound ih

end Iwaya
