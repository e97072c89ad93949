import Mathlib.Data.List.Infix
import Iwaya.Foundation.Checks

/-!
# Trees of files

What is at a path is a directory or a file, and whatever there is lies in a directory: a tree
that breaks this cannot be built (`Files.FileTree`). Paths are lists of names; there are no
links, so that a path is the one way to what is there.

The calls a program makes are `create`, `append`, `setMode` and `createDirAll`. Together they
put a file at a path, with the directories above it (`Files.FileTree.place`), and this
succeeds unless a file is in the way of a directory or a directory in that of the file
(`Files.FileTree.exists_place`). Files that are placed one after the other at different paths
are all there in the end, so none of them can have been in the way of another
(`Files.FileTree.foldlM_place`).
-/

namespace Files

/-- What is at a path. The mode of a directory does not matter here. -/
inductive Node where
  | dir
  | file (bytes : List UInt8) (mode : ℕ)
  deriving DecidableEq

/-- Why a call fails. -/
inductive Fault where
  | notFound
  | alreadyExists
  | notADirectory
  | isADirectory

/-- **A tree of files**: whatever there is lies in a directory. -/
structure FileTree (ν : Type) where
  node : List ν → Option Node
  root : node [] = some .dir
  closed : ∀ path name, (node (path ++ [name])).isSome → node path = some .dir

/-- Not a file. -/
def Node.NotFile : Option Node → Prop
  | some (.file _ _) => False
  | _ => True

namespace FileTree

variable {ν : Type} [DecidableEq ν] {t t' : FileTree ν} {path p q : List ν}

/-- A file can be at a path: it lies in a directory and is none. -/
def Room (t : FileTree ν) (path : List ν) : Prop :=
  path ≠ [] ∧ t.node path.dropLast = some .dir ∧ t.node path ≠ some .dir

instance (t : FileTree ν) (path : List ν) : Decidable (t.Room path) :=
  inferInstanceAs (Decidable (_ ∧ _ ∧ _))

/-- The tree with something else at a path that is no directory. -/
def put (t : FileTree ν) (path : List ν) (x : Node) (h : t.Room path) : FileTree ν where
  node p := if p = path then some x else t.node p
  root := by rw [if_neg (Ne.symm h.1), t.root]
  closed p name hsome := by
    obtain ⟨hne, hparent, hdir⟩ := h
    by_cases heq : p ++ [name] = path
    · subst heq
      rw [List.dropLast_concat] at hparent
      rw [if_neg (by simp), hparent]
    · rw [if_neg heq] at hsome
      have hp := t.closed p name hsome
      have hne : p ≠ path := fun he => hdir (he ▸ hp)
      rw [if_neg hne, hp]

omit [DecidableEq ν] in
/-- Another file can be where one is. -/
theorem room_of_file {bytes : List UInt8} {mode : ℕ} (h : t.node path = some (.file bytes mode)) :
    t.Room path := by
  induction path using List.reverseRecOn with
  | nil => cases t.root.symm.trans h
  | append_singleton parent name =>
    refine ⟨by simp, ?_, by simp [h]⟩
    rw [List.dropLast_concat]
    exact t.closed parent name (by simp [h])

omit [DecidableEq ν] in
/-- Above whatever there is there are directories. -/
theorem dir_above (h : (t.node path).isSome) (hp : p <+: path) (hne : p ≠ path) :
    t.node p = some .dir := by
  induction path using List.reverseRecOn with
  | nil => exact absurd (List.prefix_nil.mp hp) hne
  | append_singleton parent name ih =>
    have hparent := t.closed parent name h
    rcases List.prefix_concat_iff.mp hp with rfl | hp
    · exact absurd rfl hne
    · by_cases heq : p = parent
      · rw [heq, hparent]
      · exact ih (by simp [hparent]) hp heq

omit [DecidableEq ν] in
/-- Below nothing there is nothing. -/
theorem none_below (h : t.node p = none) (hp : p <+: path) : t.node path = none := by
  by_contra hsome
  have hsome := Option.isSome_iff_ne_none.mpr hsome
  by_cases hne : p = path
  · rw [← hne, h] at hsome
    cases hsome
  · cases h.symm.trans (dir_above hsome hp hne)

/-! ### The calls -/

/-- Why a file cannot be made at a path. -/
def fault (t : FileTree ν) (path : List ν) : Fault :=
  if t.node path = some .dir then .isADirectory
  else if path.inits.any fun q => match t.node q with | some (.file _ _) => true | _ => false then
    .notADirectory
  else .notFound

/-- The mode of a file that is made anew, before it is set; one that is there keeps its own. -/
def modeAt (t : FileTree ν) (path : List ν) : ℕ :=
  match t.node path with
  | some (.file _ mode) => mode
  | _ => 0o644

/-- Making a file, or emptying one that is there. -/
def create (path : List ν) (t : FileTree ν) : Except Fault (FileTree ν) :=
  if h : t.Room path then .ok (t.put path (.file [] (t.modeAt path)) h)
  else .error (t.fault path)

/-- Writing at the end of a file. -/
def append (path : List ν) (more : List UInt8) (t : FileTree ν) : Except Fault (FileTree ν) :=
  match h : t.node path with
  | some (.file bytes mode) => .ok (t.put path (.file (bytes ++ more) mode) (room_of_file h))
  | some .dir => .error .isADirectory
  | none => .error .notFound

/-- Setting the mode of what is there. -/
def setMode (path : List ν) (mode : ℕ) (t : FileTree ν) : Except Fault (FileTree ν) :=
  match h : t.node path with
  | some (.file bytes _) => .ok (t.put path (.file bytes mode) (room_of_file h))
  | some .dir => .ok t
  | none => .error .notFound

/-- Making the directories from `done` on down. -/
def descend (done : List ν) : List ν → FileTree ν → Except Fault (FileTree ν)
  | [], t => .ok t
  | name :: rest, t =>
    match t.node (done ++ [name]) with
    | some .dir => descend (done ++ [name]) rest t
    | some (.file _ _) => .error (if rest = [] then .alreadyExists else .notADirectory)
    | none =>
      if h : t.Room (done ++ [name]) then
        descend (done ++ [name]) rest (t.put (done ++ [name]) .dir h)
      else .error .notFound

/-- Making a directory and those above it, as far as they are not there. -/
def createDirAll (path : List ν) (t : FileTree ν) : Except Fault (FileTree ν) := t.descend [] path

/-- **Putting a file at a path**, with the directories above it. -/
def place (t : FileTree ν) (path : List ν) (bytes : List UInt8) (mode : ℕ) :
    Except Fault (FileTree ν) := do
  let t ← t.createDirAll path.dropLast
  let t ← t.create path
  let t ← t.append path bytes
  t.setMode path mode

/-! ### What the calls do -/

theorem node_put {x : Node} (h : t.Room path) (p : List ν) :
    (t.put path x h).node p = if p = path then some x else t.node p := rfl

@[simp] theorem node_put_self {x : Node} (h : t.Room path) :
    (t.put path x h).node path = some x := if_pos rfl

/-- **The directories are made, and nothing else**, unless a file is in the way. -/
theorem descend_eq_ok (rest : List ν) : ∀ {done : List ν} {t t' : FileTree ν},
    t.node done = some .dir → t.descend done rest = .ok t' →
      (∀ q, q <+: rest → Node.NotFile (t.node (done ++ q))) ∧
      (∀ q, q <+: rest → t'.node (done ++ q) = some .dir) ∧
      ∀ p, (∀ q, q <+: rest → p ≠ done ++ q) → t'.node p = t.node p := by
  induction rest with
  | nil =>
    intro done t t' hdone h
    obtain rfl := Except.ok.inj h
    refine ⟨fun q hq => ?_, fun q hq => ?_, fun p _ => rfl⟩
    · rw [List.prefix_nil.mp hq, List.append_nil, hdone]
      trivial
    · rw [List.prefix_nil.mp hq, List.append_nil, hdone]
  | cons name rest ih =>
    intro done t t' hdone h
    -- one directory further down, the same holds of the tree there is then
    have hnext : ∀ t₁ : FileTree ν, t₁.node (done ++ [name]) = some .dir →
        Node.NotFile (t.node (done ++ [name])) →
        (∀ p, p ≠ done ++ [name] → t₁.node p = t.node p) →
        t₁.descend (done ++ [name]) rest = .ok t' →
        (∀ q, q <+: name :: rest → Node.NotFile (t.node (done ++ q))) ∧
        (∀ q, q <+: name :: rest → t'.node (done ++ q) = some .dir) ∧
        ∀ p, (∀ q, q <+: name :: rest → p ≠ done ++ q) → t'.node p = t.node p := by
      intro t₁ hdir hfile hsame h
      obtain ⟨hfree, hmade, hkept⟩ := ih hdir h
      have hsame' : ∀ q, q ≠ [] → t₁.node (done ++ [name] ++ q) = t.node (done ++ [name] ++ q) :=
        fun q hq => hsame _ (by simpa using hq)
      refine ⟨fun q hq => ?_, fun q hq => ?_, fun p hp => ?_⟩
      · rcases List.prefix_cons_iff.mp hq with rfl | ⟨q, rfl, hrest⟩
        · rw [List.append_nil, hdone]
          trivial
        · rw [List.append_cons]
          by_cases hnil : q = []
          · rwa [hnil, List.append_nil]
          · rw [← hsame' q hnil]
            exact hfree q hrest
      · rcases List.prefix_cons_iff.mp hq with rfl | ⟨q, rfl, hrest⟩
        · have hne : done ≠ done ++ [name] := by simp
          rw [List.append_nil, hkept done fun q _ he => ?_, hsame done hne, hdone]
          simpa using congrArg List.length he
        · rw [List.append_cons]
          exact hmade q hrest
      · rw [hkept p fun q hq => ?_, hsame p ?_]
        · exact hp [name] (List.cons_prefix_cons.mpr ⟨rfl, List.nil_prefix⟩)
        · rw [← List.append_cons]
          exact hp (name :: q) (List.cons_prefix_cons.mpr ⟨rfl, hq⟩)
    rw [descend] at h
    split at h
    · rename_i hdir
      exact hnext t hdir (by rw [hdir]; trivial) (fun _ _ => rfl) h
    · cases h
    · rename_i hnone
      split_ifs at h with hroom
      · exact hnext _ (node_put_self hroom) (by rw [hnone]; trivial)
          (fun p hp => if_neg hp) h

/-- It is done if there is no file in the way. -/
theorem exists_descend (rest : List ν) : ∀ {done : List ν} {t : FileTree ν},
    t.node done = some .dir → (∀ q, q <+: rest → Node.NotFile (t.node (done ++ q))) →
      ∃ t', t.descend done rest = .ok t' := by
  induction rest with
  | nil => exact fun _ _ => ⟨_, rfl⟩
  | cons name rest ih =>
    intro done t hdone hfree
    have hname := hfree [name] (List.cons_prefix_cons.mpr ⟨rfl, List.nil_prefix⟩)
    have hfree' : ∀ q, q <+: rest → Node.NotFile (t.node (done ++ [name] ++ q)) := fun q hq => by
      rw [← List.append_cons]
      exact hfree (name :: q) (List.cons_prefix_cons.mpr ⟨rfl, hq⟩)
    rw [descend]
    split
    · rename_i hdir
      exact ih hdir hfree'
    · rename_i bytes mode hfile
      rw [hfile] at hname
      exact hname.elim
    · rename_i hnone
      have hroom : t.Room (done ++ [name]) := ⟨by simp, by simpa using hdone, by simp [hnone]⟩
      rw [dif_pos hroom]
      refine ih (node_put_self hroom) fun q hq => ?_
      rw [node_put]
      split_ifs
      · trivial
      · exact hfree' q hq

/-- **Directories can be made exactly if no file is in the way.** -/
theorem exists_createDirAll : (∃ t', t.createDirAll path = .ok t') ↔
    ∀ q, q <+: path → Node.NotFile (t.node q) :=
  ⟨fun ⟨_, h⟩ => (descend_eq_ok path t.root h).1, exists_descend path t.root⟩

theorem createDirAll_eq_ok (h : t.createDirAll path = .ok t') :
    (∀ p, p <+: path → t'.node p = some .dir) ∧ ∀ p, ¬p <+: path → t'.node p = t.node p := by
  obtain ⟨-, hmade, hkept⟩ := descend_eq_ok path t.root h
  refine ⟨hmade, fun p hp => hkept p fun q hq he => hp ?_⟩
  rwa [he]

theorem create_eq_ok (h : t.create path = .ok t') : t.Room path ∧
    t'.node path = some (.file [] (t.modeAt path)) ∧ ∀ p ≠ path, t'.node p = t.node p := by
  unfold create at h
  split_ifs at h with hroom
  obtain rfl := Except.ok.inj h
  exact ⟨hroom, node_put_self hroom, fun p hp => if_neg hp⟩

theorem append_of_file {bytes : List UInt8} {mode : ℕ}
    (hfile : t.node path = some (.file bytes mode)) (more : List UInt8) :
    ∃ t', t.append path more = .ok t' ∧ t'.node path = some (.file (bytes ++ more) mode) ∧
      ∀ p ≠ path, t'.node p = t.node p := by
  unfold append
  split
  · rename_i bytes' mode' h
    obtain ⟨rfl, rfl⟩ := Node.file.inj (Option.some.inj (h.symm.trans hfile))
    exact ⟨_, rfl, node_put_self _, fun p hp => if_neg hp⟩
  all_goals simp_all

theorem setMode_of_file {bytes : List UInt8} {mode : ℕ}
    (hfile : t.node path = some (.file bytes mode)) (mode' : ℕ) :
    ∃ t', t.setMode path mode' = .ok t' ∧ t'.node path = some (.file bytes mode') ∧
      ∀ p ≠ path, t'.node p = t.node p := by
  unfold setMode
  split
  · rename_i bytes' mode'' h
    obtain ⟨rfl, rfl⟩ := Node.file.inj (Option.some.inj (h.symm.trans hfile))
    exact ⟨_, rfl, node_put_self _, fun p hp => if_neg hp⟩
  all_goals simp_all

/-- A file that there is room for is written. -/
theorem exists_write (hroom : t.Room path) (bytes : List UInt8) (mode : ℕ) :
    ∃ t', (do
      let t ← t.create path
      let t ← t.append path bytes
      t.setMode path mode) = .ok t' ∧
      t'.node path = some (.file bytes mode) ∧ ∀ p ≠ path, t'.node p = t.node p := by
  have hcreate : t.create path = .ok (t.put path (.file [] (t.modeAt path)) hroom) := dif_pos hroom
  obtain ⟨-, hempty, hkept⟩ := create_eq_ok hcreate
  obtain ⟨t₂, happend, hfull, hkept₂⟩ := append_of_file hempty bytes
  obtain ⟨t₃, hset, hfile, hkept₃⟩ := setMode_of_file hfull mode
  refine ⟨t₃, ?_, hfile, fun p hp => ?_⟩
  · rw [hcreate, Checks.ok_bind, happend, Checks.ok_bind, hset]
  · rw [hkept₃ p hp, hkept₂ p hp, hkept p hp]

omit [DecidableEq ν] in
/-- A path is not above itself. -/
theorem not_prefix_dropLast {path : List ν} (h : path ≠ []) : ¬path <+: path.dropLast := by
  intro hp
  have hle := hp.length_le
  rw [List.length_dropLast] at hle
  have hpos := List.length_pos_iff.mpr h
  omega

/-- **A file is placed exactly if there is no file in the way of its directories, and no
directory where it goes.** -/
theorem exists_place {bytes : List UInt8} {mode : ℕ} : (∃ t', t.place path bytes mode = .ok t') ↔
    path ≠ [] ∧ (∀ q, q <+: path.dropLast → Node.NotFile (t.node q)) ∧
      t.node path ≠ some .dir := by
  constructor
  · rintro ⟨t', h⟩
    obtain ⟨t₁, hdirs, h⟩ := Checks.bind_eq_ok.mp h
    obtain ⟨t₂, hcreate, -⟩ := Checks.bind_eq_ok.mp h
    obtain ⟨hne, -, hdir⟩ := (create_eq_ok hcreate).1
    rw [(createDirAll_eq_ok hdirs).2 path (not_prefix_dropLast hne)] at hdir
    exact ⟨hne, exists_createDirAll.mp ⟨t₁, hdirs⟩, hdir⟩
  · rintro ⟨hne, hfree, hdir⟩
    obtain ⟨t₁, hdirs⟩ := exists_createDirAll.mpr hfree
    obtain ⟨hmade, hkept⟩ := createDirAll_eq_ok hdirs
    have hroom : t₁.Room path :=
      ⟨hne, hmade _ (List.prefix_refl _), by rwa [hkept path (not_prefix_dropLast hne)]⟩
    obtain ⟨t', hwrite, -⟩ := exists_write hroom bytes mode
    exact ⟨t', Checks.bind_eq_ok.mpr ⟨t₁, hdirs, hwrite⟩⟩

/-- **Only the file and its directories are new then.** -/
theorem place_eq_ok {bytes : List UInt8} {mode : ℕ} (h : t.place path bytes mode = .ok t') :
    t'.node path = some (.file bytes mode) ∧
      (∀ p, p <+: path.dropLast → t'.node p = some .dir) ∧
      ∀ p, p ≠ path → ¬p <+: path.dropLast → t'.node p = t.node p := by
  obtain ⟨t₁, hdirs, h⟩ := Checks.bind_eq_ok.mp h
  obtain ⟨t₂, hcreate, -⟩ := Checks.bind_eq_ok.mp h
  have hroom := (create_eq_ok hcreate).1
  obtain ⟨t₃, hwrite, hfile, hkept⟩ := exists_write hroom bytes mode
  obtain rfl := Except.ok.inj (hwrite.symm.trans h)
  obtain ⟨hmade, hkept₁⟩ := createDirAll_eq_ok hdirs
  refine ⟨hfile, fun p hp => ?_, fun p hne hp => ?_⟩
  · rw [hkept p fun he => not_prefix_dropLast hroom.1 (he ▸ hp), hmade p hp]
  · rw [hkept p hne, hkept₁ p hp]

/-! ### Many files -/

/-- A file to be placed. -/
structure Placement (ν : Type) where
  path : List ν
  bytes : List UInt8
  mode : ℕ

/-- Placing it. -/
def placed (t : FileTree ν) (x : Placement ν) : Except Fault (FileTree ν) :=
  t.place x.path x.bytes x.mode

/-- A file stays a file when another is placed. -/
theorem placed_file {x : Placement ν} (h : t.placed x = .ok t')
    (hp : ¬Node.NotFile (t.node p)) : ¬Node.NotFile (t'.node p) := by
  obtain ⟨hfile, -, hkept⟩ := place_eq_ok h
  obtain ⟨-, hfree, -⟩ := exists_place.mp ⟨t', h⟩
  by_cases heq : p = x.path
  · rw [heq, hfile]
    exact id
  · rwa [hkept p heq fun hpre => hp (hfree p hpre)]

/-- **Files placed at different paths are all there in the end**, with their directories and
nothing else that is new; and nothing was in the way of any of them. -/
theorem foldlM_place {xs : List (Placement ν)} (h : xs.foldlM placed t = .ok t')
    (hdiff : xs.Pairwise fun x y => x.path ≠ y.path) :
    (∀ x ∈ xs, ∀ q, q <+: x.path.dropLast → Node.NotFile (t.node q)) ∧
      (∀ x ∈ xs, t'.node x.path = some (.file x.bytes x.mode)) ∧
      (∀ p, (∀ x ∈ xs, p ≠ x.path) → (∃ x ∈ xs, p <+: x.path.dropLast) →
        t'.node p = some .dir) ∧
      ∀ p, (∀ x ∈ xs, p ≠ x.path) → (∀ x ∈ xs, ¬p <+: x.path.dropLast) →
        t'.node p = t.node p := by
  induction xs generalizing t with
  | nil =>
    obtain rfl := Except.ok.inj h
    exact ⟨by simp, by simp, by simp, fun _ _ _ => rfl⟩
  | cons x xs ih =>
    obtain ⟨hhead, htail⟩ := List.pairwise_cons.mp hdiff
    rw [List.foldlM_cons, Checks.bind_eq_ok] at h
    obtain ⟨t₁, hplaced, h⟩ := h
    obtain ⟨hfile, hdirs, hkept⟩ := place_eq_ok hplaced
    obtain ⟨hfree, hfiles, hdirs', hkept'⟩ := ih h htail
    have hout : ∀ y ∈ xs, ¬x.path <+: y.path.dropLast := fun y hy hp => by
      have hnot := hfree y hy _ hp
      rw [hfile] at hnot
      exact hnot
    refine ⟨?_, ?_, ?_, ?_⟩
    · refine List.forall_mem_cons.mpr ⟨(exists_place.mp ⟨t₁, hplaced⟩).2.1, fun y hy q hq => ?_⟩
      by_contra hnot
      exact placed_file hplaced hnot (hfree y hy q hq)
    · refine List.forall_mem_cons.mpr ⟨?_, hfiles⟩
      rw [hkept' x.path hhead hout, hfile]
    · rintro p hp ⟨y, hy, hpre⟩
      obtain ⟨hpx, hpxs⟩ := List.forall_mem_cons.mp hp
      by_cases hex : ∃ y ∈ xs, p <+: y.path.dropLast
      · exact hdirs' p hpxs hex
      · push Not at hex
        rw [hkept' p hpxs hex]
        rcases List.mem_cons.mp hy with rfl | hy
        · exact hdirs p hpre
        · exact absurd hpre (hex y hy)
    · intro p hp hout'
      obtain ⟨hpx, hpxs⟩ := List.forall_mem_cons.mp hp
      obtain ⟨hox, hoxs⟩ := List.forall_mem_cons.mp hout'
      rw [hkept' p hpxs hoxs, hkept p hpx hox]

/-- **They can be placed** if none is in the way of another, and nothing is there before. -/
theorem exists_foldlM_place {xs : List (Placement ν)}
    (hne : ∀ x ∈ xs, x.path ≠ [])
    (hfree : ∀ x ∈ xs, ∀ q, q <+: x.path.dropLast → Node.NotFile (t.node q))
    (hdir : ∀ x ∈ xs, t.node x.path ≠ some .dir)
    (hout : ∀ x ∈ xs, ∀ y ∈ xs, ¬x.path <+: y.path.dropLast) :
    ∃ t', xs.foldlM placed t = .ok t' := by
  induction xs generalizing t with
  | nil => exact ⟨t, rfl⟩
  | cons x xs ih =>
    have hx : x ∈ x :: xs := List.mem_cons_self
    obtain ⟨t₁, hplaced⟩ : ∃ t₁, t.placed x = .ok t₁ :=
      exists_place.mpr ⟨hne x hx, hfree x hx, hdir x hx⟩
    obtain ⟨hfile, hdirs, hkept⟩ := place_eq_ok hplaced
    have hsub : ∀ y ∈ xs, y ∈ x :: xs := fun y hy => List.mem_cons_of_mem x hy
    have hfree₁ : ∀ y ∈ xs, ∀ q, q <+: y.path.dropLast → Node.NotFile (t₁.node q) := by
      intro y hy q hq
      by_cases hpre : q <+: x.path.dropLast
      · rw [hdirs q hpre]
        trivial
      · have hqx : q ≠ x.path := fun he => hout x hx y (hsub y hy) (he ▸ hq)
        rw [hkept q hqx hpre]
        exact hfree y (hsub y hy) q hq
    have hdir₁ : ∀ y ∈ xs, t₁.node y.path ≠ some .dir := by
      intro y hy
      by_cases heq : y.path = x.path
      · rw [heq, hfile]
        simp
      · rw [hkept _ heq (hout y (hsub y hy) x hx)]
        exact hdir y (hsub y hy)
    obtain ⟨t', h⟩ := ih (fun y hy => hne y (hsub y hy)) hfree₁ hdir₁
      fun y hy z hz => hout y (hsub y hy) z (hsub z hz)
    exact ⟨t', by rw [List.foldlM_cons, hplaced, Checks.ok_bind, h]⟩

end FileTree

end Files
