import Iwaya.Foundation.Bytes
import Iwaya.Image

/-!
# What the tag stands for

The digest in the tag is taken over the recipe and, for every file of the image, its
destination and its bytes, each after its length. The bytes are read through the open file
in reads of whatever size the system answers with. Neither a count of the files nor a
separator between them is fed to the hasher, and none is needed: the lengths alone say where
each of them ends, so what is hashed determines the files, and with them the build context
(`Iwaya.hashMaterial_identifies`).
-/

namespace Iwaya

open Text Bytes

/-- The entire recipe. -/
def dockerfile : Str := "FROM scratch\nCOPY rootfs/ /\nENTRYPOINT [\"/iwaya\", \"proxy\"]\n".toList

/-- What the system answers to the calls that are made on an open file. A read that does
not fail is answered with some number of the bytes that are there. -/
structure FileAnswers where
  metadata : Except IoError ℕ
  seek : Except IoError Unit
  reads : ℕ → Except IoError ℕ
  copy : Except IoError Unit

/-- An open file: the inode it pins, and the bytes there. -/
structure OpenFile extends FileAnswers where
  inode : ℕ
  content : List UInt8

/-- A file of the image. -/
structure Material where
  destination : Str
  path : Str
  file : OpenFile

/-! ### Hashing -/

/-- The size of the buffer. -/
def bufferSize : ℕ := 64 * 1024

/-- What a read gives of the bytes that are left: at least one if there is one, and at most
as many as the buffer holds. -/
def readChunk (n : ℕ) (rest : List UInt8) : List UInt8 := rest.take (min bufferSize (max 1 n))

theorem readChunk_eq_nil {n : ℕ} {rest : List UInt8} : readChunk n rest = [] ↔ rest = [] := by
  have hpos : min bufferSize (max 1 n) ≠ 0 := by
    unfold bufferSize
    omega
  rw [readChunk, List.take_eq_nil_iff]
  exact or_iff_right hpos

/-- A chunk and what is left after it. -/
theorem readChunk_append_drop (n : ℕ) (rest : List UInt8) :
    readChunk n rest ++ rest.drop (readChunk n rest).length = rest :=
  List.prefix_iff_eq_append.mp (List.take_prefix _ _)

/-- The loop that reads to the end of the file, at the `k`-th read; `fed` is what the hasher
has been fed so far. -/
def hashContent (entry : Material) (fed : List UInt8) (k : ℕ) (rest : List UInt8) :
    Except ProxyImageError (List UInt8) :=
  match entry.file.reads k with
  | .error source => .error (.material entry.path source)
  | .ok n =>
    if readChunk n rest = [] then .ok fed
    else
      hashContent entry (fed ++ readChunk n rest) (k + 1) (rest.drop (readChunk n rest).length)
termination_by rest.length
decreasing_by
  rename_i h
  have hpos := List.length_pos_iff.mpr h
  have hle : (readChunk n rest).length ≤ rest.length := List.length_take_le' ..
  rw [List.length_drop]
  omega

/-- What the hasher is fed for one file. -/
def hashEntry (fed : List UInt8) (entry : Material) : Except ProxyImageError (List UInt8) := do
  let fed := fed ++ toLe 8 (utf8 entry.destination).length
  let fed := fed ++ utf8 entry.destination
  let length ← entry.file.metadata.mapError (ProxyImageError.material entry.path)
  let fed := fed ++ toLe 8 length
  entry.file.seek.mapError (ProxyImageError.material entry.path)
  hashContent entry fed 0 entry.file.content

/-- **What the hasher is fed.** -/
def hashMaterial (material : List Material) : Except ProxyImageError (List UInt8) :=
  material.foldlM hashEntry (utf8 dockerfile)

/-- The tag of some files. -/
def Material.imageTag (sha256 : List UInt8 → Vector UInt8 32) (material : List Material) :
    Except ProxyImageError Str := do
  let fed ← hashMaterial material
  return Iwaya.imageTag (sha256 fed)

/-! ### The build context -/

/-- A path read backwards, without the separators and the dots it begins with. -/
def dropSeparators : Str → Str
  | '/' :: path => dropSeparators path
  | '.' :: '/' :: path => dropSeparators path
  | path => path

/-- `Path::parent`. -/
def parentPath (path : Str) : Option Str :=
  match dropSeparators path.reverse with
  | [] => none
  | body =>
    match body.dropWhile (· ≠ '/') with
    | [] => some []
    | rest => if dropSeparators rest = [] then some ['/'] else some (dropSeparators rest).reverse

/-- Where a file of the image goes in the build context. -/
def rootfsPath (directory destination : Str) : Str :=
  joinPath (joinPath directory "rootfs".toList) (destination.dropWhile (· = '/'))

/-- A file system with states in `σ`: what becomes of the state with a call. -/
structure FileSystem (σ : Type) where
  write : Str → List UInt8 → σ → Except IoError σ
  createDirAll : Str → σ → Except IoError σ
  create : Str → σ → Except IoError σ
  append : Str → List UInt8 → σ → Except IoError σ
  setPermissions : Str → ℕ → σ → Except IoError σ

section

variable {σ : Type} (fs : FileSystem σ) (directory : Str)

/-- The directories above a path. -/
def createParent (path : Str) (state : σ) : Except IoError σ :=
  match parentPath path with
  | some parent => fs.createDirAll parent state
  | none => .ok state

/-- One file, copied from its handle. -/
def Material.copyInto (state : σ) (entry : Material) : Except IoError σ := do
  let destination := rootfsPath directory entry.destination
  let state ← createParent fs destination state
  entry.file.seek
  let state ← fs.create destination state
  entry.file.copy
  let state ← fs.append destination entry.file.content state
  fs.setPermissions destination 0o755 state

/-- **The build context**: the recipe and a copy of every file. -/
def Material.writeBuildContext (material : List Material) (state : σ) : Except IoError σ := do
  let state ← fs.write (joinPath directory "Dockerfile".toList) (utf8 dockerfile) state
  material.foldlM (Material.copyInto fs directory) state

/-- What of a file gets into the image: where it lands, and its bytes. -/
def Material.image (entry : Material) : Str × List UInt8 := (entry.destination, entry.file.content)

/-- A file that has been copied is no more than its destination and its bytes. -/
theorem Material.copyInto_eq_ok {state next next' : σ} {entry entry' : Material}
    (himage : entry.image = entry'.image) (h : copyInto fs directory state entry = .ok next)
    (h' : copyInto fs directory state entry' = .ok next') : next = next' := by
  obtain ⟨hdestination, hcontent⟩ := Prod.mk.inj himage
  simp only [copyInto, Checks.bind_eq_ok, hdestination, hcontent] at h h'
  obtain ⟨a, ha, _, -, b, hb, _, -, c, hc, hd⟩ := h
  obtain ⟨a', ha', _, -, b', hb', _, -, c', hc', hd'⟩ := h'
  obtain rfl : a = a' := Except.ok.inj (ha.symm.trans ha')
  obtain rfl : b = b' := Except.ok.inj (hb.symm.trans hb')
  obtain rfl : c = c' := Except.ok.inj (hc.symm.trans hc')
  exact Except.ok.inj (hd.symm.trans hd')

theorem Material.foldlM_copyInto {ms ns : List Material} {state next next' : σ}
    (himage : ms.map image = ns.map image)
    (h : ms.foldlM (copyInto fs directory) state = .ok next)
    (h' : ns.foldlM (copyInto fs directory) state = .ok next') : next = next' := by
  induction ms generalizing ns state with
  | nil =>
    obtain rfl := List.map_eq_nil_iff.mp himage.symm
    exact Except.ok.inj (h.symm.trans h')
  | cons m ms ih =>
    cases ns with
    | nil => cases himage
    | cons n ns =>
      obtain ⟨hm, hms⟩ := List.cons.inj himage
      rw [List.foldlM_cons, Checks.bind_eq_ok] at h h'
      obtain ⟨a, ha, h⟩ := h
      obtain ⟨a', ha', h'⟩ := h'
      obtain rfl := copyInto_eq_ok fs directory hm ha ha'
      exact ih hms h h'

/-- **The build context depends on the destinations and the bytes alone.** -/
theorem Material.writeBuildContext_eq {ms ns : List Material} {state next next' : σ}
    (himage : ms.map image = ns.map image)
    (h : writeBuildContext fs directory ms state = .ok next)
    (h' : writeBuildContext fs directory ns state = .ok next') : next = next' := by
  rw [writeBuildContext, Checks.bind_eq_ok] at h h'
  obtain ⟨a, ha, h⟩ := h
  obtain ⟨a', ha', h'⟩ := h'
  obtain rfl : a = a' := Except.ok.inj (ha.symm.trans ha')
  exact foldlM_copyInto fs directory himage h h'

end

/-! ### What is hashed -/

/-- **The loop feeds the file**, in however many pieces, if it comes to its end. -/
theorem hashContent_eq_ok {entry : Material} {fed rest out : List UInt8} {k : ℕ}
    (h : hashContent entry fed k rest = .ok out) : out = fed ++ rest := by
  induction fed, k, rest using hashContent.induct entry with
  | case1 fed k rest source hread =>
    rw [hashContent, hread] at h
    cases h
  | case2 fed k rest n hread hnil =>
    rw [hashContent, hread] at h
    simp only [if_pos hnil] at h
    obtain rfl := Except.ok.inj h
    rw [readChunk_eq_nil.mp hnil, List.append_nil]
  | case3 fed k rest n hread hne ih =>
    rw [hashContent, hread] at h
    simp only [if_neg hne] at h
    rw [ih h, List.append_assoc, readChunk_append_drop]

/-- It comes to its end if no read fails, whatever number of bytes each of them gives. -/
theorem hashContent_of_reads {entry : Material} {sizes : ℕ → ℕ}
    (hreads : ∀ k, entry.file.reads k = .ok (sizes k)) (fed : List UInt8) (k : ℕ)
    (rest : List UInt8) : hashContent entry fed k rest = .ok (fed ++ rest) := by
  induction fed, k, rest using hashContent.induct entry with
  | case1 fed k rest source hread =>
    rw [hreads] at hread
    cases hread
  | case2 fed k rest n hread hnil =>
    rw [hashContent, hread]
    simp only [if_pos hnil]
    rw [readChunk_eq_nil.mp hnil, List.append_nil]
  | case3 fed k rest n hread hne ih =>
    rw [hashContent, hread]
    simp only [if_neg hne]
    rw [ih, List.append_assoc, readChunk_append_drop]

/-- The two byte strings that are fed for a file, each after its length. -/
def Material.fields (entry : Material) : List (List UInt8) :=
  [utf8 entry.destination, entry.file.content]

/-- The file is not changed while it is hashed: its length is the number of its bytes. -/
def Material.Unchanged (entry : Material) : Prop :=
  ∀ length, entry.file.metadata = .ok length → length = entry.file.content.length

/-- The lengths fit in 64 bits. -/
def Material.Fits (entry : Material) : Prop := ∀ bytes ∈ entry.fields, bytes.length < 2 ^ 64

/-- One file is fed as two frames. -/
theorem hashEntry_eq_ok {entry : Material} (hun : entry.Unchanged) {fed out : List UInt8}
    (h : hashEntry fed entry = .ok out) : out = fed ++ entry.fields.flatMap (frame 8) := by
  simp only [hashEntry, Checks.bind_eq_ok, Checks.mapError_eq_ok] at h
  obtain ⟨length, hlength, -, -, h⟩ := h
  rw [hashContent_eq_ok h, hun length hlength]
  simp only [Material.fields, List.flatMap_cons, List.flatMap_nil, frame, List.append_assoc,
    List.append_nil]

/-- The files are fed as a sequence of frames. -/
theorem foldlM_hashEntry {material : List Material} (hun : ∀ entry ∈ material, entry.Unchanged)
    {fed out : List UInt8} (h : material.foldlM hashEntry fed = .ok out) :
    out = fed ++ (material.flatMap Material.fields).flatMap (frame 8) := by
  induction material generalizing fed with
  | nil =>
    obtain rfl := Except.ok.inj h
    simp
  | cons entry material ih =>
    obtain ⟨hentry, hmaterial⟩ := List.forall_mem_cons.mp hun
    rw [List.foldlM_cons, Checks.bind_eq_ok] at h
    obtain ⟨next, hnext, h⟩ := h
    rw [ih hmaterial h, hashEntry_eq_ok hentry hnext, List.flatMap_cons, List.flatMap_append,
      List.append_assoc]

/-- The two byte strings of every file say what gets into the image. -/
theorem image_of_fields {ms ns : List Material}
    (h : ms.flatMap Material.fields = ns.flatMap Material.fields) :
    ms.map Material.image = ns.map Material.image := by
  induction ms generalizing ns with
  | nil =>
    cases ns with
    | nil => rfl
    | cons n ns => cases h
  | cons m ms ih =>
    cases ns with
    | nil => cases h
    | cons n ns =>
      simp only [List.flatMap_cons, Material.fields, List.cons_append, List.nil_append,
        List.cons.injEq] at h
      obtain ⟨hdestination, hcontent, hrest⟩ := h
      have himage : m.image = n.image := Prod.ext (utf8_injective hdestination) hcontent
      rw [List.map_cons, List.map_cons, himage, ih hrest]

/-- **What is hashed identifies the image**: two lists of files that feed the hasher the
same bytes have the same destinations and contents, one by one, so the build contexts
written from them are the same; and the loop feeds exactly the content of a file, whatever
the sizes of the reads. -/
theorem hashMaterial_identifies :
    (∀ ms ns : List Material, (∀ m ∈ ms, m.Unchanged ∧ m.Fits) → (∀ n ∈ ns, n.Unchanged ∧ n.Fits) →
      ∀ fed, hashMaterial ms = .ok fed → hashMaterial ns = .ok fed →
        ms.map Material.image = ns.map Material.image ∧
        ∀ {σ : Type} (fs : FileSystem σ) (directory : Str) (state context context' : σ),
          Material.writeBuildContext fs directory ms state = .ok context →
          Material.writeBuildContext fs directory ns state = .ok context' →
            context = context') ∧
    ∀ (entry : Material) (sizes : ℕ → ℕ), (∀ k, entry.file.reads k = .ok (sizes k)) → ∀ fed,
      hashContent entry fed 0 entry.file.content = .ok (fed ++ entry.file.content) := by
  constructor
  · intro ms ns hms hns fed hm hn
    have hfed := foldlM_hashEntry (fun m hmem => (hms m hmem).1) hm
    have hfed' := foldlM_hashEntry (fun n hmem => (hns n hmem).1) hn
    have hsize : (2 : ℕ) ^ 64 = 256 ^ 8 := by decide
    have hfits : ∀ l : List Material, (∀ m ∈ l, m.Unchanged ∧ m.Fits) →
        ∀ bytes ∈ l.flatMap Material.fields, bytes.length < 256 ^ 8 := by
      intro l hl bytes hbytes
      obtain ⟨m, hmem, hbytes⟩ := List.mem_flatMap.mp hbytes
      rw [← hsize]
      exact (hl m hmem).2 bytes hbytes
    have hframes := List.append_cancel_left (hfed.symm.trans hfed')
    have himage := image_of_fields
      (frames_injective (by decide) (hfits ms hms) (hfits ns hns) hframes)
    exact ⟨himage, fun fs directory state context context' =>
      Material.writeBuildContext_eq fs directory himage⟩
  · intro entry sizes hreads fed
    exact hashContent_of_reads hreads fed 0 _

/-- A file, read so many bytes at a time. -/
def sampleMaterial (size : ℕ) (destination : Str) (content : List UInt8) : Material where
  destination := destination
  path := destination
  file :=
    { inode := 7, content := content, metadata := .ok content.length, seek := .ok (),
      reads := fun _ => .ok size, copy := .ok () }

/-- Two files. -/
def sampleMaterials (size : ℕ) : List Material :=
  [sampleMaterial size "/iwaya".toList [1, 2, 3],
    sampleMaterial size "/lib/libx.so".toList [4, 5, 6, 7, 8]]

theorem hashEntry_sample (size : ℕ) (destination : Str) (content fed : List UInt8) :
    hashEntry fed (sampleMaterial size destination content) =
      .ok (fed ++ frame 8 (utf8 destination) ++ frame 8 content) := by
  have hreads : ∀ k, (sampleMaterial size destination content).file.reads k = .ok size :=
    fun _ => rfl
  have hrun := hashContent_of_reads hreads
    (fed ++ toLe 8 (utf8 destination).length ++ utf8 destination ++ toLe 8 content.length) 0 content
  rw [frame, frame, ← List.append_assoc, ← List.append_assoc]
  exact hrun

/-- What is fed does not depend on the sizes of the reads. -/
theorem hashMaterial_sample (size : ℕ) : hashMaterial (sampleMaterials size) =
    .ok (utf8 dockerfile ++ frame 8 (utf8 "/iwaya".toList) ++ frame 8 [1, 2, 3] ++
      frame 8 (utf8 "/lib/libx.so".toList) ++ frame 8 [4, 5, 6, 7, 8]) := by
  rw [hashMaterial, sampleMaterials, List.foldlM_cons, hashEntry_sample]
  exact (bind_pure _).trans (hashEntry_sample size _ _ _)

theorem hashMaterial_identifies_sample :
    (sampleMaterials 1).map Material.image = (sampleMaterials 2).map Material.image := by
  have hfits : ∀ size, ∀ m ∈ sampleMaterials size, m.Unchanged ∧ m.Fits := by
    intro size m hm
    rcases List.mem_pair.mp hm with rfl | rfl
    all_goals
      constructor
      · intro length hlength
        exact (Except.ok.inj hlength).symm
      · simp only [Material.Fits, Material.fields, sampleMaterial]
        decide
  exact (hashMaterial_identifies.1 _ _ (hfits 1) (hfits 2) _ (hashMaterial_sample 1)
    (hashMaterial_sample 2)).1

end Iwaya
