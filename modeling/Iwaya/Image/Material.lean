import Iwaya.Image.Elf
import Iwaya.Image.Process
import Iwaya.Image.Tag

/-!
# The files the image is built from

The binary is opened through the link to what the process executes, so it is the inode that
runs. The interpreter and the shared objects are opened by their paths: for an object this
is what the listing of the mappings says of it, without the mark of a file that has no name
any more. If the path leads to another file by then, that one is bundled. The image is built
from what the process has loaded exactly if this has happened to none of the objects
(`Iwaya.builtFromLoaded_iff`).
-/

namespace Iwaya

open Text Names

/-! ### Collecting the files -/

/-- What the system answers while the files are collected: the path of the binary and its
handle, whether it refuses to open a file that is there or to give the listing, and what it
answers to the calls made on a file that is opened. -/
structure BuildAnswers where
  currentExe : Except IoError Str
  openExe : Except IoError OpenFile
  refuses : Str → Option IoError
  refusesMaps : Option IoError
  file : ℕ → FileAnswers

/-- Opening a path. -/
def openFile (s : System) (os : BuildAnswers) (path : Str) : Except IoError OpenFile :=
  match s.names path with
  | none => .error "No such file or directory (os error 2)".toList
  | some inode =>
    match os.refuses path with
    | some source => .error source
    | none => .ok { os.file inode with inode := inode, content := s.content inode }

/-- A file of the image whose destination is its path. -/
def openMaterial (s : System) (os : BuildAnswers) (path : Str) :
    Except ProxyImageError Material := do
  let file ← (openFile s os path).mapError (ProxyImageError.material path)
  return { destination := path, path := path, file := file }

/-- The listing, if it can be read. -/
def readMaps (s : System) (os : BuildAnswers) : Except IoError Str :=
  match os.refusesMaps with
  | some source => .error source
  | none => .ok (mapsText s.mappings)

/-- One more file. -/
def pushMaterial (s : System) (os : BuildAnswers) (material : List Material) (path : Str) :
    Except ProxyImageError (List Material) := do
  let entry ← openMaterial s os path
  return material ++ [entry]

/-- **The files the image needs**, in the order of their destinations and one for each. -/
def buildMaterial (s : System) (os : BuildAnswers) : Except Halt (List Material) := do
  let exePath ← (os.currentExe.mapError ProxyImageError.exe).mapError Halt.refused
  let exe ← (os.openExe.mapError ProxyImageError.exe).mapError Halt.refused
  let interpreter ← programInterpreter exe.content
  let material := [{ destination := "/iwaya".toList, path := exePath, file := exe }]
  let material ← (interpreter.toList.foldlM (pushMaterial s os) material).mapError Halt.refused
  let objects ← (loadedSharedObjects (readMaps s os) exePath).mapError Halt.refused
  let material ← (objects.foldlM (pushMaterial s os) material).mapError Halt.refused
  let material := material.mergeSort fun a b => decide (a.destination ≤ b.destination)
  return material.destutter fun a b => a.destination ≠ b.destination

/-! ### One entry for each destination -/

/-- Of neighbours with one key the first is kept, so every key is. -/
theorem exists_mem_destutter {α β : Type} [DecidableEq β] (key : α → β) {l : List α} {x : α}
    (hx : x ∈ l) : ∃ y ∈ l.destutter (fun a b => key a ≠ key b), key y = key x := by
  have hgo : ∀ (l : List α) (a : α), ∀ x ∈ a :: l,
      ∃ y ∈ l.destutter' (fun a b => key a ≠ key b) a, key y = key x := by
    intro l
    induction l with
    | nil =>
      intro a x hx
      exact ⟨a, List.mem_singleton_self a, congrArg key (List.mem_singleton.mp hx).symm⟩
    | cons b l ih =>
      intro a x hx
      by_cases hab : key a ≠ key b
      · rw [List.destutter'_cons, if_pos hab]
        rcases List.mem_cons.mp hx with rfl | hx
        · exact ⟨x, List.mem_cons_self, rfl⟩
        · obtain ⟨y, hy, hkey⟩ := ih b x hx
          exact ⟨y, List.mem_cons_of_mem _ hy, hkey⟩
      · rw [List.destutter'_cons, if_neg hab]
        rcases List.mem_cons.mp hx with rfl | hx
        · exact ih x x List.mem_cons_self
        · rcases List.mem_cons.mp hx with rfl | hx
          · obtain ⟨y, hy, hkey⟩ := ih a a List.mem_cons_self
            exact ⟨y, hy, hkey.trans (not_not.mp hab)⟩
          · exact ih a x (List.mem_cons_of_mem _ hx)
  cases l with
  | nil => cases hx
  | cons a l => exact hgo l a x hx

/-- Keeping the first of equal neighbours loses no element. -/
theorem mem_destutter_ne {α : Type} [DecidableEq α] {l : List α} {x : α} :
    x ∈ l.destutter (· ≠ ·) ↔ x ∈ l := by
  constructor
  · exact fun hx => (List.destutter_sublist _ l).subset hx
  · intro hx
    obtain ⟨y, hy, rfl⟩ := exists_mem_destutter id hx
    exact hy

/-! ### Which files they are -/

/-- A path is taken for one of a shared object. -/
def IsObjectPath (exe path : Str) : Prop :=
  (path.head? = some '/' ∧ ".so".toList <:+: path) ∧ samePath path exe = false

/-- A mapping is listed as one of a shared object, under a path. -/
def ListedAt (s : System) (exe : Str) (m : Mapping) (path : Str) : Prop :=
  m ∈ s.mappings ∧ m.listed = some path ∧ IsObjectPath exe path

theorem mem_loadedSharedObjects {s : System} {exe path : Str} {objects : List Str}
    (h : loadedSharedObjects (.ok (mapsText s.mappings)) exe = .ok objects) :
    path ∈ objects ↔ ∃ m, ListedAt s exe m path := by
  obtain rfl := Except.ok.inj h
  rw [mem_destutter_ne, List.mem_mergeSort, filterMap_lines]
  simp only [List.mem_filter, List.mem_filterMap, decide_eq_true_eq, Bool.not_eq_true', ListedAt,
    IsObjectPath]
  constructor
  · rintro ⟨⟨⟨m, hm, hlisted⟩, hpath⟩, hexe⟩
    exact ⟨m, hm, hlisted, hpath, hexe⟩
  · rintro ⟨m, hm, hlisted, hpath, hexe⟩
    exact ⟨⟨⟨m, hm, hlisted⟩, hpath⟩, hexe⟩

/-- A path can be opened. -/
def Opens (s : System) (os : BuildAnswers) (path : Str) : Prop :=
  (s.names path).isSome ∧ os.refuses path = none

/-- The file that is opened then. -/
def opened (s : System) (os : BuildAnswers) (path : Str) : Material :=
  let inode := (s.names path).getD 0
  { destination := path, path := path,
    file := { os.file inode with inode := inode, content := s.content inode } }

theorem openMaterial_eq_ok {s : System} {os : BuildAnswers} {path : Str} {entry : Material} :
    openMaterial s os path = .ok entry ↔ Opens s os path ∧ entry = opened s os path := by
  unfold openMaterial openFile Opens opened
  cases hname : s.names path with
  | none => exact iff_of_false (fun h => by cases h) (by simp)
  | some inode =>
    cases hrefuse : os.refuses path with
    | some source => exact iff_of_false (fun h => by cases h) (by simp)
    | none =>
      simp only [Checks.bind_eq_ok, Checks.mapError_eq_ok, Except.ok.injEq, pure, Except.pure,
        exists_eq_left', Option.isSome_some, Option.getD_some, true_and]
      exact eq_comm

/-- The loop opens all of the paths, or fails. -/
theorem foldlM_pushMaterial {s : System} {os : BuildAnswers} (paths : List Str)
    (material all : List Material) :
    paths.foldlM (pushMaterial s os) material = .ok all ↔
      (∀ path ∈ paths, Opens s os path) ∧ all = material ++ paths.map (opened s os) := by
  have hstep : ∀ (done : List Str) (path : Str) (next : List Material),
      pushMaterial s os (material ++ done.map (opened s os)) path = .ok next ↔
        Opens s os path ∧ next = material ++ (done ++ [path]).map (opened s os) := by
    intro done path next
    simp only [pushMaterial, Checks.bind_eq_ok, openMaterial_eq_ok, pure, Except.pure,
      Except.ok.injEq]
    constructor
    · rintro ⟨_, ⟨hopens, rfl⟩, rfl⟩
      exact ⟨hopens, by simp [List.append_assoc]⟩
    · rintro ⟨hopens, rfl⟩
      exact ⟨_, ⟨hopens, rfl⟩, by simp [List.append_assoc]⟩
  have := Checks.foldlM_built hstep paths [] all
  simpa using this

/-- What is collected, before it is put in order. -/
def collected (s : System) (os : BuildAnswers) (exePath : Str) (exe : OpenFile)
    (interpreter : Option Str) (objects : List Str) : List Material :=
  { destination := "/iwaya".toList, path := exePath, file := exe } ::
    (interpreter.toList.map (opened s os) ++ objects.map (opened s os))

/-- **A build that collects its files has opened all of them**, and one that can open all of
them collects them. -/
theorem buildMaterial_eq_ok {s : System} {os : BuildAnswers} {material : List Material} :
    buildMaterial s os = .ok material ↔ ∃ exePath exe interpreter objects,
      os.currentExe = .ok exePath ∧ os.openExe = .ok exe ∧
      programInterpreter exe.content = .ok interpreter ∧
      (∀ path ∈ interpreter, Opens s os path) ∧
      loadedSharedObjects (readMaps s os) exePath = .ok objects ∧
      (∀ path ∈ objects, Opens s os path) ∧
      material = ((collected s os exePath exe interpreter objects).mergeSort fun a b =>
        decide (a.destination ≤ b.destination)).destutter fun a b =>
          a.destination ≠ b.destination := by
  simp only [buildMaterial, Checks.bind_eq_ok, Checks.mapError_eq_ok, foldlM_pushMaterial, pure,
    Except.pure, Except.ok.injEq, Option.mem_toList]
  constructor
  · rintro ⟨exePath, hexePath, exe, hexe, interpreter, hinterpreter, _, ⟨hopens, rfl⟩, objects,
      hobjects, _, ⟨hall, rfl⟩, rfl⟩
    refine ⟨exePath, exe, interpreter, objects, hexePath, hexe, hinterpreter, hopens, hobjects,
      hall, ?_⟩
    rw [List.append_assoc, List.singleton_append, collected]
  · rintro ⟨exePath, exe, interpreter, objects, hexePath, hexe, hinterpreter, hopens, hobjects,
      hall, rfl⟩
    refine ⟨exePath, hexePath, exe, hexe, interpreter, hinterpreter, _, ⟨hopens, rfl⟩, objects,
      hobjects, _, ⟨hall, rfl⟩, ?_⟩
    rw [List.append_assoc, List.singleton_append, collected]

/-! ### Whether they are the ones that are loaded -/

/-- The inode that is mapped at a path: some file mapped there has it, and all have. -/
def MappedAt (s : System) (path : Str) (inode : ℕ) : Prop :=
  (∃ m ∈ s.mappings, ∃ r, m.mapped = .file r ∧ r.path = path) ∧
    ∀ m ∈ s.mappings, ∀ r, m.mapped = .file r → r.path = path → r.object = inode

/-- **The image is built from what is loaded**: if the files are collected, every entry for
a shared object is a handle on the inode that is mapped at its path, and no mapping of a
shared object carries the mark. -/
def BuiltFromLoaded (s : System) (os : BuildAnswers) : Prop :=
  ∀ exePath material, os.currentExe = .ok exePath → buildMaterial s os = .ok material →
    (∀ entry ∈ material, (∃ m, ListedAt s exePath m entry.destination) →
      MappedAt s entry.destination entry.file.inode) ∧
    ∀ m path, ListedAt s exePath m path → ¬m.Marked

/-- **Everything the build needs can be read and opened**, the binary being at a path. -/
structure Buildable (s : System) (os : BuildAnswers) (exePath : Str) : Prop where
  currentExe : os.currentExe = .ok exePath
  exe : ∃ exe interpreter, os.openExe = .ok exe ∧
    programInterpreter exe.content = .ok interpreter ∧ ∀ path ∈ interpreter, Opens s os path
  maps : os.refusesMaps = none
  objects : ∀ m path, ListedAt s exePath m path → Opens s os path

/-- **No object has lost its name**: every mapping that is listed as one of a shared object
has one, and the path it is listed under is one that a mapped file has. -/
def KeepsNames (s : System) (exePath : Str) : Prop :=
  ∀ m path, ListedAt s exePath m path → ¬m.Marked ∧
    ∃ m' ∈ s.mappings, ∃ r, m'.mapped = .file r ∧ r.linked = true ∧ r.path = path

section

variable {s : System} {os : BuildAnswers} {exePath : Str}

theorem readMaps_eq_ok {maps : Str} :
    readMaps s os = .ok maps ↔ os.refusesMaps = none ∧ maps = mapsText s.mappings := by
  unfold readMaps
  cases os.refusesMaps with
  | none => simp [eq_comm]
  | some source => simp

/-- The objects are those listed, if the listing can be read. -/
theorem loadedSharedObjects_eq_ok {objects : List Str}
    (h : loadedSharedObjects (readMaps s os) exePath = .ok objects) :
    os.refusesMaps = none ∧ ∀ path, path ∈ objects ↔ ∃ m, ListedAt s exePath m path := by
  have hmaps : ∃ maps, readMaps s os = .ok maps := by
    obtain ⟨maps, hmaps, -⟩ := Checks.bind_eq_ok.mp h
    exact ⟨maps, Checks.mapError_eq_ok.mp hmaps⟩
  obtain ⟨maps, hmaps⟩ := hmaps
  obtain ⟨hrefuses, rfl⟩ := readMaps_eq_ok.mp hmaps
  rw [hmaps] at h
  exact ⟨hrefuses, fun path => mem_loadedSharedObjects h⟩

theorem mem_collected {exe : OpenFile} {interpreter : Option Str} {objects : List Str}
    {entry : Material} (h : entry ∈ collected s os exePath exe interpreter objects) :
    entry.destination = "/iwaya".toList ∨
      ∃ path, (path ∈ interpreter ∨ path ∈ objects) ∧ entry = opened s os path := by
  simp only [collected, List.mem_cons, List.mem_append, List.mem_map, Option.mem_toList] at h
  rcases h with rfl | ⟨path, hpath, rfl⟩ | ⟨path, hpath, rfl⟩
  · exact .inl rfl
  · exact .inr ⟨path, .inl hpath, rfl⟩
  · exact .inr ⟨path, .inr hpath, rfl⟩

/-- The binary is in no place where an object could be. -/
theorem not_isObjectPath_iwaya (exe : Str) : ¬IsObjectPath exe "/iwaya".toList := by
  intro h
  have hdot : '.' ∈ "/iwaya".toList := h.1.2.subset (by decide)
  revert hdot
  decide

theorem buildable_of_buildMaterial {material : List Material}
    (h : buildMaterial s os = .ok material) (hexe : os.currentExe = .ok exePath) :
    Buildable s os exePath := by
  obtain ⟨exePath', exe, interpreter, objects, hexe', hopen, hinterpreter, hpath, hobjects, hall,
    -⟩ := buildMaterial_eq_ok.mp h
  obtain rfl : exePath' = exePath := Except.ok.inj (hexe'.symm.trans hexe)
  obtain ⟨hmaps, hmem⟩ := loadedSharedObjects_eq_ok hobjects
  exact ⟨hexe, ⟨exe, interpreter, hopen, hinterpreter, hpath⟩, hmaps,
    fun m path hlisted => hall path ((hmem path).mpr ⟨m, hlisted⟩)⟩

theorem exists_buildMaterial (h : Buildable s os exePath) :
    ∃ material, buildMaterial s os = .ok material := by
  obtain ⟨exe, interpreter, hopen, hinterpreter, hpath⟩ := h.exe
  obtain ⟨objects, hobjects⟩ : ∃ objects,
      loadedSharedObjects (readMaps s os) exePath = .ok objects := by
    rw [readMaps_eq_ok.mpr ⟨h.maps, rfl⟩]
    exact ⟨_, rfl⟩
  refine ⟨_, buildMaterial_eq_ok.mpr ⟨exePath, exe, interpreter, objects, h.currentExe, hopen,
    hinterpreter, hpath, hobjects, fun path hmem => ?_, rfl⟩⟩
  obtain ⟨m, hlisted⟩ := ((loadedSharedObjects_eq_ok hobjects).2 path).mp hmem
  exact h.objects m path hlisted

/-- **There is an entry for every object that is listed, and it is what its path leads to.** -/
theorem entries_of_buildMaterial {material : List Material}
    (h : buildMaterial s os = .ok material) (hexe : os.currentExe = .ok exePath) {m : Mapping}
    {path : Str} (hlisted : ListedAt s exePath m path) :
    (∃ entry ∈ material, entry.destination = path) ∧
      ∀ entry ∈ material, entry.destination = path → s.names path = some entry.file.inode := by
  obtain ⟨exePath', exe, interpreter, objects, hexe', -, -, hpath, hobjects, hall, rfl⟩ :=
    buildMaterial_eq_ok.mp h
  obtain rfl : exePath' = exePath := Except.ok.inj (hexe'.symm.trans hexe)
  have hmem := (loadedSharedObjects_eq_ok hobjects).2
  constructor
  · have hentry : opened s os path ∈ collected s os exePath' exe interpreter objects := by
      refine List.mem_cons_of_mem _ (List.mem_append_right _ ?_)
      exact List.mem_map_of_mem ((hmem path).mpr ⟨m, hlisted⟩)
    exact exists_mem_destutter Material.destination (List.mem_mergeSort.mpr hentry)
  · rintro entry hentry rfl
    have hcollected := List.mem_mergeSort.mp ((List.destutter_sublist _ _).subset hentry)
    rcases mem_collected hcollected with hiwaya | ⟨path, hfrom, rfl⟩
    · rw [hiwaya] at hlisted
      exact absurd hlisted.2.2 (not_isObjectPath_iwaya exePath')
    · have hopens : Opens s os path := hfrom.elim (hpath path) (hall path)
      obtain ⟨inode, hinode⟩ := Option.isSome_iff_exists.mp hopens.1
      have hdestination : (opened s os path).destination = path := rfl
      rw [hdestination, opened, hinode]
      rfl

/-- A file without a name is listed under the path it had, if this is one of an object. -/
theorem listedAt_of_not_linked {m m' : Mapping} {path : Str} (hlisted : ListedAt s exePath m path)
    (hm' : m' ∈ s.mappings) {r : Reference Str ℕ} (hr : m'.mapped = .file r) (hpath : r.path = path)
    (hlinked : r.linked = false) : ListedAt s exePath m' path := by
  subst hpath
  refine ⟨hm', ?_, hlisted.2.2⟩
  exact Mapping.listed_of_not_linked hr hlinked hlisted.2.2.1.1
    (Mapping.newline_notMem_listed hlisted.2.1)

/-- **The image is built from what is loaded if and only if no object has lost its name**, or
the files cannot be collected at all. -/
theorem builtFromLoaded_iff_of_sound (hs : s.Sound) (os : BuildAnswers) :
    BuiltFromLoaded s os ↔ ∀ exePath, Buildable s os exePath → KeepsNames s exePath := by
  constructor
  · intro hbuilt exePath hbuildable m path hlisted
    obtain ⟨material, hmaterial⟩ := exists_buildMaterial hbuildable
    obtain ⟨hentries, hmarked⟩ := hbuilt exePath material hbuildable.currentExe hmaterial
    refine ⟨hmarked m path hlisted, ?_⟩
    obtain ⟨⟨entry, hentry, rfl⟩, -⟩ :=
      entries_of_buildMaterial hmaterial hbuildable.currentExe hlisted
    obtain ⟨⟨m', hm', r, hr, hpath⟩, -⟩ := hentries entry hentry ⟨m, hlisted⟩
    refine ⟨m', hm', r, hr, ?_, hpath⟩
    by_contra hlinked
    have hlinked : r.linked = false := by simpa using hlinked
    exact hmarked m' _ (listedAt_of_not_linked hlisted hm' hr hpath hlinked) ⟨r, hr, hlinked⟩
  · intro hkeeps exePath material hexe hmaterial
    have hkeeps := hkeeps exePath (buildable_of_buildMaterial hmaterial hexe)
    refine ⟨?_, fun m path hlisted => (hkeeps m path hlisted).1⟩
    rintro entry hentry ⟨m, hlisted⟩
    obtain ⟨-, m', hm', r, hr, hlinked, hpath⟩ := hkeeps m _ hlisted
    have hname := (entries_of_buildMaterial hmaterial hexe hlisted).2 entry hentry rfl
    refine ⟨⟨m', hm', r, hr, hpath⟩, fun m'' hm'' r'' hr'' hpath'' => ?_⟩
    cases hlinked'' : r''.linked with
    | true =>
      have hobject := hs m'' hm'' r'' hr'' hlinked''
      rw [hpath'', hname] at hobject
      exact (Option.some.inj hobject).symm
    | false =>
      have hlost := listedAt_of_not_linked hlisted hm'' hr'' hpath'' hlinked''
      exact absurd ⟨r'', hr'', hlinked''⟩ (hkeeps m'' _ hlost).1

end

/-! ### A library that is upgraded -/

/-- A library. -/
def libPath : Str := "/lib/libx.so".toList

/-- The process has it mapped. -/
def libMapping : Mapping where
  fields := ["7f00-7f01".toList, "r-xp".toList, "00000000".toList, "08:01".toList, "1".toList]
  padding := 20
  mapped := .file ⟨libPath, 1, true⟩
  length_fields := rfl
  isField := by decide +kernel

theorem isObjectPath_libPath : IsObjectPath "/usr/bin/iwaya".toList libPath :=
  ⟨⟨by decide, "/lib/libx".toList, [], by decide⟩, by decide +kernel⟩

/-- It is mapped under its name. -/
def libLoaded : System where
  names := (Change.bind libPath 1).names fun _ => none
  content := fun inode => [.ofNat inode]
  mappings := [libMapping]

/-- It is removed, and another file gets its name. -/
def libUpgraded : System := (libLoaded.after (.unlink libPath)).after (.bind libPath 2)

/-- A binary that asks for no interpreter. -/
def staticExecutable : List UInt8 := [0x7f, 0x45, 0x4c, 0x46, 2, 1] ++ List.replicate 58 0

/-- A system that refuses nothing, and gives files in one piece. -/
def sampleBuildAnswers : BuildAnswers where
  currentExe := .ok "/usr/bin/iwaya".toList
  openExe := .ok
    { metadata := .ok 64, seek := .ok (), reads := fun _ => .ok bufferSize, copy := .ok (),
      inode := 9, content := staticExecutable }
  refuses := fun _ => none
  refusesMaps := none
  file := fun _ =>
    { metadata := .ok 1, seek := .ok (), reads := fun _ => .ok bufferSize, copy := .ok () }

theorem history_libLoaded : libLoaded.History := by
  have hholds : ∀ r, libMapping.mapped = .file r → r.Holds libLoaded.names := by
    intro r hr _
    obtain rfl := Mapped.file.inj hr
    exact Change.names_bind_self libPath 1 fun _ => none
  exact ⟨{ libLoaded with mappings := [] }, rfl, .single (.map _ libMapping hholds)⟩

theorem history_libUpgraded : libUpgraded.History := by
  obtain ⟨first, hfirst, hsteps⟩ := history_libLoaded
  have hfree : (libLoaded.after (.unlink libPath)).names libPath = none :=
    Change.names_unlink_self libPath libLoaded.names
  exact ⟨first, hfirst,
    (hsteps.tail (.change libLoaded (.unlink libPath) trivial)).tail (.change _ _ hfree)⟩

/-- The binary can be read, whatever the state. -/
theorem buildable_sample {s : System} (h : ∀ m path, ListedAt s "/usr/bin/iwaya".toList m path →
    Opens s sampleBuildAnswers path) :
    Buildable s sampleBuildAnswers "/usr/bin/iwaya".toList := by
  refine ⟨rfl, ⟨_, none, rfl, ?_, by simp⟩, rfl, h⟩
  have hsize : staticExecutable.length < 2 ^ 63 := by decide
  have hcount : entryCount staticExecutable = 0 := by decide
  have hrun : programInterpreter staticExecutable = .ok none := by
    rw [programInterpreter_of_isElf hsize ⟨by decide, by decide⟩, hcount]
    rfl
  exact hrun

/-- **Whatever happened to the files, the image is built from what the process has loaded if
and only if no object has lost its name**, or something that the build needs cannot be read
or opened. -/
theorem builtFromLoaded_iff (s : System) (h : s.History) (os : BuildAnswers) :
    BuiltFromLoaded s os ↔ ∀ exePath, Buildable s os exePath → KeepsNames s exePath :=
  builtFromLoaded_iff_of_sound (System.sound_of_history h) os

/-- As long as the library keeps its name, the image has it. -/
theorem builtFromLoaded_libLoaded : BuiltFromLoaded libLoaded sampleBuildAnswers := by
  refine (builtFromLoaded_iff libLoaded history_libLoaded sampleBuildAnswers).mpr ?_
  rintro exePath - m path ⟨hm, hlisted, -⟩
  obtain rfl := List.mem_singleton.mp hm
  have hpath : libMapping.listed = some libPath := by decide +kernel
  obtain rfl : libPath = path := Option.some.inj (hpath.symm.trans hlisted)
  refine ⟨?_, libMapping, hm, ⟨libPath, 1, true⟩, rfl, rfl, rfl⟩
  rintro ⟨r, hr, hlinked⟩
  obtain rfl := Mapped.file.inj hr
  cases hlinked

/-- **After the upgrade the image has a file that is not the one mapped at its path**, though
the mapping carries the mark. -/
theorem libUpgraded_not_builtFromLoaded :
    libUpgraded.History ∧ ¬BuiltFromLoaded libUpgraded sampleBuildAnswers ∧
      ∃ material, buildMaterial libUpgraded sampleBuildAnswers = .ok material ∧
        (∃ entry ∈ material, entry.destination = libPath ∧ entry.file.inode = 2) ∧
        ∃ m ∈ libUpgraded.mappings, m.Marked ∧ m.mapped = .file ⟨libPath, 1, false⟩ := by
  -- the one mapping of the process is listed under the path that now leads elsewhere
  obtain ⟨m, hmappings, hmapped⟩ : ∃ m, libUpgraded.mappings = [m] ∧
      m.mapped = .file ⟨libPath, 1, false⟩ := ⟨_, rfl, rfl⟩
  have hm : m ∈ libUpgraded.mappings := by
    rw [hmappings]
    exact List.mem_singleton_self m
  have hname : libUpgraded.names libPath = some 2 :=
    Change.names_bind_self libPath 2 (libLoaded.after (.unlink libPath)).names
  have hlisted : m.listed = some libPath :=
    Mapping.listed_of_not_linked hmapped rfl (by decide) (by decide)
  have hlib : ListedAt libUpgraded "/usr/bin/iwaya".toList m libPath :=
    ⟨hm, hlisted, isObjectPath_libPath⟩
  have hbuildable : Buildable libUpgraded sampleBuildAnswers "/usr/bin/iwaya".toList := by
    refine buildable_sample ?_
    rintro m' path ⟨hm', hlisted', -⟩
    rw [hmappings] at hm'
    obtain rfl := List.mem_singleton.mp hm'
    obtain rfl : libPath = path := Option.some.inj (hlisted.symm.trans hlisted')
    exact ⟨by rw [hname]; rfl, rfl⟩
  have hmarked : m.Marked := ⟨_, hmapped, rfl⟩
  obtain ⟨material, hmaterial⟩ := exists_buildMaterial hbuildable
  obtain ⟨⟨entry, hentry, hdestination⟩, hinode⟩ := entries_of_buildMaterial hmaterial rfl hlib
  have hentryInode := hinode entry hentry hdestination
  rw [hname] at hentryInode
  refine ⟨history_libUpgraded, fun hbuilt => ?_, material, hmaterial,
    ⟨entry, hentry, hdestination, (Option.some.inj hentryInode).symm⟩, m, hm, hmarked, hmapped⟩
  exact (hbuilt _ material rfl hmaterial).2 m libPath hlib hmarked

end Iwaya
