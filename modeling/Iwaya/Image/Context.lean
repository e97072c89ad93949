import Iwaya.Foundation.FileTree
import Iwaya.Image.Material

/-!
# The build context and the image

The context is written by its paths: texts that are joined, cut at their last separator and
handed to the system, which finds a file by the names in them. Two destinations that are
different texts could lead to one file, and one destination could be a directory that
another needs. So what the context has in the end is settled here on the tree of the files
that is there: under `rootfs` exactly the files that were collected, each with its bytes and
executable, and the directories above them (`Iwaya.image_is_material`).

The image is that tree, for the recipe starts from nothing and copies it to the root.
-/

namespace Iwaya

open Text Files

/-! ### Names in a path -/

/-- A separator between two parts of a path. -/
theorem components_append (p q : Str) :
    components (p ++ '/' :: q) = components p ++ components q := by
  rw [components, List.splitOn_eq_splitOnP, List.splitOnP_append_cons p q (by simp),
    List.filter_append]
  rfl

@[simp] theorem components_nil : components [] = [] := by decide

theorem components_cons (q : Str) : components ('/' :: q) = components q :=
  components_append [] q

/-- A separator at the end of a path says nothing. -/
theorem components_concat (p : Str) : components (p ++ ['/']) = components p := by
  rw [components_append, components_nil, List.append_nil]

/-- A dot after a separator says nothing either. -/
theorem components_dot (p : Str) : components (p ++ ['/', '.']) = components p := by
  have hdot : components ['.'] = [] := by decide
  rw [components_append, hdot, List.append_nil]

/-- A text without a separator is one name or none. -/
theorem length_components {p : Str} (h : '/' ∉ p) : (components p).length ≤ 1 := by
  rw [components, List.splitOn_eq_singleton h]
  exact List.length_filter_le _ _

theorem components_joinPath (directory name : Str) :
    components (joinPath directory name) = components directory ++ components name := by
  rw [joinPath]
  split_ifs with h
  · rcases h with rfl | h
    · simp
    · obtain ⟨p, rfl⟩ := List.getLast?_eq_some_iff.mp h
      rw [List.append_assoc, List.singleton_append, components_append, components_concat]
  · exact components_append _ _

theorem components_dropWhile (destination : Str) :
    components (destination.dropWhile (· = '/')) = components destination := by
  induction destination with
  | nil => rfl
  | cons c destination ih =>
    by_cases hc : c = '/'
    · rw [List.dropWhile_cons_of_pos (by simpa using hc), ih, hc, components_cons]
    · rw [List.dropWhile_cons_of_neg (by simpa using hc)]

/-- Where a file of the image goes. -/
theorem components_rootfsPath (directory destination : Str) :
    components (rootfsPath directory destination) =
      components directory ++ "rootfs".toList :: components destination := by
  have hrootfs : components "rootfs".toList = ["rootfs".toList] := by decide
  rw [rootfsPath, components_joinPath, components_joinPath, components_dropWhile, hrootfs,
    List.append_assoc, List.singleton_append]

theorem components_dropSeparators (path : Str) :
    components (dropSeparators path).reverse = components path.reverse := by
  induction path using dropSeparators.induct with
  | case1 path ih =>
    rw [dropSeparators, ih, List.reverse_cons, components_concat]
  | case2 path ih =>
    rw [dropSeparators, ih, List.reverse_cons, List.reverse_cons, List.append_assoc]
    exact (components_dot _).symm
  | case3 path h h' =>
    rw [dropSeparators]
    · exact h
    · exact h'

/-- No separator is left at the beginning, nor a dot before one. -/
theorem dropSeparators_ne (path : Str) :
    (∀ q, dropSeparators path ≠ '/' :: q) ∧ ∀ q, dropSeparators path ≠ '.' :: '/' :: q := by
  induction path using dropSeparators.induct with
  | case1 path ih => exact ih
  | case2 path ih => exact ih
  | case3 path h h' =>
    rw [dropSeparators]
    · exact ⟨h, h'⟩
    · exact h
    · exact h'

theorem slash_notMem_takeWhile (body : Str) : '/' ∉ (body.takeWhile (· ≠ '/')).reverse := by
  rw [List.mem_reverse]
  intro h
  have hslash := List.mem_takeWhile_imp h
  simp at hslash

/-- The last name of a path that is cut off. -/
theorem components_reverse_takeWhile {body : Str}
    (hs : ∀ q, body ≠ '/' :: q) (hd : ∀ q, body ≠ '.' :: '/' :: q)
    {rest : Str} (hrest : body.dropWhile (· ≠ '/') = '/' :: rest) :
    components (body.takeWhile (· ≠ '/')).reverse = [(body.takeWhile (· ≠ '/')).reverse] := by
  have hbody : body.takeWhile (· ≠ '/') ++ '/' :: rest = body := by
    rw [← hrest, List.takeWhile_append_dropWhile]
  have hno := slash_notMem_takeWhile body
  generalize body.takeWhile (· ≠ '/') = w at hbody hno ⊢
  rw [components, List.splitOn_eq_singleton hno, List.filter_cons_of_pos, List.filter_nil]
  have hnil : w ≠ [] := by
    rintro rfl
    exact hs rest hbody.symm
  have hdot : w ≠ ['.'] := by
    rintro rfl
    exact hd rest hbody.symm
  simpa using ⟨hnil, hdot⟩

/-- **The parent of a path has its names but the last.** -/
theorem components_parentPath (path : Str) :
    components ((parentPath path).getD []) = (components path).dropLast := by
  obtain ⟨hs, hd⟩ := dropSeparators_ne path.reverse
  have hbody : components (dropSeparators path.reverse).reverse = components path := by
    rw [components_dropSeparators, List.reverse_reverse]
  rw [← hbody, parentPath]
  generalize dropSeparators path.reverse = body at hs hd ⊢
  -- a name that is alone has no parent
  have halone : ∀ w : Str, '/' ∉ w → (components w).dropLast = [] := fun w hw => by
    rw [List.dropLast_eq_take]
    exact List.take_eq_nil_iff.mpr (Or.inl (by have := length_components hw; omega))
  cases body with
  | nil => rfl
  | cons c body =>
    have hsplit : (c :: body).takeWhile (· ≠ '/') ++ (c :: body).dropWhile (· ≠ '/') = c :: body :=
      List.takeWhile_append_dropWhile
    have hno := slash_notMem_takeWhile (c :: body)
    simp only
    rcases hrest : (c :: body).dropWhile (· ≠ '/') with _ | ⟨sep, rest⟩
    · rw [hrest, List.append_nil] at hsplit
      rw [hsplit] at hno
      exact (halone _ hno).symm
    · obtain rfl : sep = '/' := by
        have hhead := List.head?_dropWhile_not (fun x : Char => decide (x ≠ '/')) (c :: body)
        rw [hrest] at hhead
        simpa using hhead
      have hlast := components_reverse_takeWhile hs hd hrest
      have hnames : components (c :: body).reverse =
          components rest.reverse ++ [((c :: body).takeWhile (· ≠ '/')).reverse] := by
        rw [hrest] at hsplit
        rw [← hlast, ← components_append]
        conv_lhs => rw [← hsplit]
        rw [List.reverse_append, List.reverse_cons, List.append_assoc]
        rfl
      have habove : components (dropSeparators ('/' :: rest)).reverse =
          components rest.reverse := by
        rw [dropSeparators, components_dropSeparators]
      rw [hnames, List.dropLast_concat, ← habove]
      simp only
      split_ifs with hnil
      · rw [hnil]
        rfl
      · rfl

/-! ### One file for each destination -/

section

variable {α β : Type} [LinearOrder β] [DecidableEq β] (key : α → β)

/-- In order, of equal keys only the first is left, so that all are different. -/
theorem destutter_distinct {l : List α} (h : l.Pairwise fun a b => key a ≤ key b) :
    (l.destutter fun a b => key a ≠ key b).Pairwise fun a b => key a ≠ key b := by
  have hgo : ∀ (l : List α) (a : α), (a :: l).Pairwise (fun a b => key a ≤ key b) →
      (l.destutter' (fun a b => key a ≠ key b) a).Pairwise fun a b => key a < key b := by
    intro l
    induction l with
    | nil => exact fun a _ => List.pairwise_singleton _ a
    | cons b l ih =>
      intro a ha
      obtain ⟨hle, hl⟩ := List.pairwise_cons.mp ha
      obtain ⟨hab, hle'⟩ := List.forall_mem_cons.mp hle
      by_cases hne : key a ≠ key b
      · rw [List.destutter'_cons, if_pos hne]
        refine List.pairwise_cons.mpr ⟨fun x hx => ?_, ih b hl⟩
        have hx := (List.destutter'_sublist _ _ _).subset hx
        rcases List.mem_cons.mp hx with rfl | hx
        · exact lt_of_le_of_ne hab hne
        · exact (lt_of_le_of_ne hab hne).trans_le ((List.pairwise_cons.mp hl).1 x hx)
      · rw [List.destutter'_cons, if_neg hne]
        exact ih a (List.pairwise_cons.mpr ⟨hle', (List.pairwise_cons.mp hl).2⟩)
  cases l with
  | nil => exact List.Pairwise.nil
  | cons a l => exact (hgo l a h).imp fun hlt => hlt.ne

/-- What is left of a key is the first that had it. -/
theorem find?_of_mem_destutter {l : List α} (h : l.Pairwise fun a b => key a ≤ key b) {x : α}
    (hx : x ∈ l.destutter fun a b => key a ≠ key b) :
    l.find? (fun a => key a = key x) = some x := by
  have hgo : ∀ (l : List α) (a : α), (a :: l).Pairwise (fun a b => key a ≤ key b) →
      x ∈ l.destutter' (fun a b => key a ≠ key b) a →
      (a :: l).find? (fun a => key a = key x) = some x := by
    intro l
    induction l with
    | nil =>
      intro a _ hx
      obtain rfl := List.mem_singleton.mp hx
      simp
    | cons b l ih =>
      intro a ha hx
      obtain ⟨hle, hl⟩ := List.pairwise_cons.mp ha
      obtain ⟨hab, hle'⟩ := List.forall_mem_cons.mp hle
      by_cases hne : key a ≠ key b
      · rw [List.destutter'_cons, if_pos hne] at hx
        rcases List.mem_cons.mp hx with rfl | hx
        · simp
        · have hmem := (List.destutter'_sublist _ _ _).subset hx
          have hlt : key a < key x := by
            rcases List.mem_cons.mp hmem with rfl | hmem
            · exact lt_of_le_of_ne hab hne
            · exact (lt_of_le_of_ne hab hne).trans_le ((List.pairwise_cons.mp hl).1 x hmem)
          rw [List.find?_cons_of_neg (by simpa using hlt.ne)]
          exact ih b hl hx
      · rw [List.destutter'_cons, if_neg hne] at hx
        have hfound := ih a (List.pairwise_cons.mpr ⟨hle', (List.pairwise_cons.mp hl).2⟩) hx
        by_cases hax : key a = key x
        · rw [List.find?_cons_of_pos (by simpa using hax)] at hfound ⊢
          exact hfound
        · have hbx : key b ≠ key x := fun he => hax ((not_not.mp hne).trans he)
          rw [List.find?_cons_of_neg (by simpa using hax)] at hfound ⊢
          rw [List.find?_cons_of_neg (by simpa using hbx)]
          exact hfound
  cases l with
  | nil => cases hx
  | cons a l => exact hgo l a h hx

/-- Putting a list in order does not change what comes first of a key. -/
theorem find?_mergeSort [DecidableLE β] (l : List α) (k : β) :
    (l.mergeSort fun a b => decide (key a ≤ key b)).find? (fun a => key a = k) =
      l.find? (fun a => key a = k) := by
  have htrans : ∀ a b c : α, decide (key a ≤ key b) = true → decide (key b ≤ key c) = true →
      decide (key a ≤ key c) = true := by
    simp only [decide_eq_true_eq]
    exact fun a b c => le_trans
  have htotal : ∀ a b : α, (decide (key a ≤ key b) || decide (key b ≤ key a)) = true := by
    simp only [Bool.or_eq_true, decide_eq_true_eq]
    exact fun a b => le_total _ _
  have hsame : ∀ a ∈ l.filter fun a => key a = k, key a = k := fun a ha => by
    simpa using (List.mem_filter.mp ha).2
  have hsorted : (l.filter fun a => key a = k).Pairwise
      fun a b => decide (key a ≤ key b) = true := by
    refine List.Pairwise.imp_of_mem (R := fun _ _ => True) (fun ha hb _ => ?_)
      (List.pairwise_of_forall fun _ _ => trivial)
    rw [hsame _ ha, hsame _ hb]
    simp
  have hsub := (List.sublist_mergeSort htrans htotal hsorted List.filter_sublist).filter
    fun a => key a = k
  have hlength := ((List.mergeSort_perm l fun a b => decide (key a ≤ key b)).filter
    fun a => key a = k).length_eq
  rw [List.filter_filter] at hsub
  have heq := hsub.eq_of_length (by simpa using hlength.symm)
  rw [← List.head?_filter, ← List.head?_filter, ← heq]
  simp

end

/-! ### The files of the context -/

/-- What the system says of a call that fails. -/
def faultText : Fault → IoError
  | .notFound => "No such file or directory (os error 2)".toList
  | .alreadyExists => "File exists (os error 17)".toList
  | .notADirectory => "Not a directory (os error 20)".toList
  | .isADirectory => "Is a directory (os error 21)".toList

/-- The calls that are made on the files of the context. -/
inductive FileCall where
  | write
  | createDirAll
  | create
  | append
  | setPermissions

/-- A call that may be refused. -/
def refusable (refusal : Option IoError) (result : Except Fault (FileTree Str)) :
    Except IoError (FileTree Str) :=
  match refusal with
  | some source => .error source
  | none => result.mapError faultText

theorem refusable_eq_ok {refusal : Option IoError} {result : Except Fault (FileTree Str)}
    {t : FileTree Str} : refusable refusal result = .ok t ↔ refusal = none ∧ result = .ok t := by
  cases refusal with
  | none => simp [refusable, Checks.mapError_eq_ok]
  | some source => simp [refusable]

/-- **The file system of a tree**, which may refuse any call for reasons of its own. -/
def treeFileSystem (refuses : FileCall → Str → Option IoError) : FileSystem (FileTree Str) where
  write path bytes t := refusable (refuses .write path) do
    let t ← t.create (components path)
    t.append (components path) bytes
  createDirAll path t := refusable (refuses .createDirAll path) (t.createDirAll (components path))
  create path t := refusable (refuses .create path) (t.create (components path))
  append path bytes t := refusable (refuses .append path) (t.append (components path) bytes)
  setPermissions path mode t :=
    refusable (refuses .setPermissions path) (t.setMode (components path) mode)

section

variable {refuses : FileCall → Str → Option IoError} {directory : Str} {entry : Material}
  {material : List Material} {tree tree' : FileTree Str}

/-- Where a file of the image goes, and what it is there. -/
def Material.placement (directory : Str) (entry : Material) : FileTree.Placement Str where
  path := components directory ++ "rootfs".toList :: components entry.destination
  bytes := entry.file.content
  mode := 0o755

/-- Making the parent of a path is making the directories above its last name. -/
theorem createParent_eq_ok {path : Str}
    (h : createParent (treeFileSystem refuses) path tree = .ok tree') :
    tree.createDirAll (components path).dropLast = .ok tree' := by
  have hparent := components_parentPath path
  rw [createParent] at h
  split at h
  · rename_i parent hsome
    rw [hsome] at hparent
    rw [← hparent]
    exact (refusable_eq_ok.mp h).2
  · rename_i hnone
    rw [hnone, Option.getD_none, components_nil] at hparent
    rw [← hparent]
    obtain rfl := Except.ok.inj h
    rfl

theorem createParent_of_createDirAll (hrefuses : ∀ call path, refuses call path = none) {path : Str}
    (h : tree.createDirAll (components path).dropLast = .ok tree') :
    createParent (treeFileSystem refuses) path tree = .ok tree' := by
  have hparent := components_parentPath path
  rw [createParent]
  split
  · rename_i parent hsome
    rw [hsome] at hparent
    rw [← hparent] at h
    exact refusable_eq_ok.mpr ⟨hrefuses _ _, h⟩
  · rename_i hnone
    rw [hnone, Option.getD_none, components_nil] at hparent
    rw [← hparent] at h
    obtain rfl := Except.ok.inj h
    rfl

/-- **A file that is copied is placed.** -/
theorem placed_of_copyInto
    (h : Material.copyInto (treeFileSystem refuses) directory tree entry = .ok tree') :
    tree.placed (entry.placement directory) = .ok tree' := by
  simp only [Material.copyInto, Checks.bind_eq_ok] at h
  obtain ⟨t₁, hparent, -, -, t₂, hcreate, -, -, t₃, happend, hset⟩ := h
  have hdirs := createParent_eq_ok hparent
  rw [components_rootfsPath] at hdirs
  simp only [treeFileSystem, refusable_eq_ok, components_rootfsPath] at hcreate happend hset
  exact Checks.bind_eq_ok.mpr ⟨t₁, hdirs, Checks.bind_eq_ok.mpr ⟨t₂, hcreate.2,
    Checks.bind_eq_ok.mpr ⟨t₃, happend.2, hset.2⟩⟩⟩

/-- A file that is placed can be copied, if nothing is refused. -/
theorem copyInto_of_placed (hrefuses : ∀ call path, refuses call path = none)
    (hseek : entry.file.seek = .ok ()) (hcopy : entry.file.copy = .ok ())
    (h : tree.placed (entry.placement directory) = .ok tree') :
    Material.copyInto (treeFileSystem refuses) directory tree entry = .ok tree' := by
  obtain ⟨t₁, hdirs, h⟩ := Checks.bind_eq_ok.mp h
  obtain ⟨t₂, hcreate, h⟩ := Checks.bind_eq_ok.mp h
  obtain ⟨t₃, happend, hset⟩ := Checks.bind_eq_ok.mp h
  rw [Material.placement, ← components_rootfsPath] at hdirs
  simp only [Material.copyInto, Checks.bind_eq_ok]
  refine ⟨t₁, createParent_of_createDirAll hrefuses hdirs, (), hseek, t₂, ?_, (), hcopy, t₃, ?_, ?_⟩
  · exact refusable_eq_ok.mpr ⟨hrefuses _ _, by rwa [components_rootfsPath]⟩
  · exact refusable_eq_ok.mpr ⟨hrefuses _ _, by rwa [components_rootfsPath]⟩
  · exact refusable_eq_ok.mpr ⟨hrefuses _ _, by rwa [components_rootfsPath]⟩

theorem foldlM_placed_of_copyInto
    (h : material.foldlM (Material.copyInto (treeFileSystem refuses) directory) tree = .ok tree') :
    (material.map (Material.placement directory)).foldlM FileTree.placed tree = .ok tree' := by
  induction material generalizing tree with
  | nil =>
    obtain rfl := Except.ok.inj h
    rfl
  | cons entry material ih =>
    rw [List.foldlM_cons, Checks.bind_eq_ok] at h
    obtain ⟨t, hentry, h⟩ := h
    rw [List.map_cons, List.foldlM_cons, placed_of_copyInto hentry]
    exact ih h

theorem foldlM_copyInto_of_placed (hrefuses : ∀ call path, refuses call path = none)
    (hfile : ∀ entry ∈ material, entry.file.seek = .ok () ∧ entry.file.copy = .ok ())
    (h : (material.map (Material.placement directory)).foldlM FileTree.placed tree = .ok tree') :
    material.foldlM (Material.copyInto (treeFileSystem refuses) directory) tree = .ok tree' := by
  induction material generalizing tree with
  | nil =>
    obtain rfl := Except.ok.inj h
    rfl
  | cons entry material ih =>
    obtain ⟨⟨hseek, hcopy⟩, hrest⟩ := List.forall_mem_cons.mp hfile
    rw [List.map_cons, List.foldlM_cons, Checks.bind_eq_ok] at h
    obtain ⟨t, hplaced, h⟩ := h
    rw [List.foldlM_cons, copyInto_of_placed hrefuses hseek hcopy hplaced]
    exact ih hrest h

/-! ### What is collected -/

section

variable {s : System} {os : BuildAnswers}

/-- The files are in the order of their destinations before one of each is kept. -/
theorem pairwise_mergeSort_destination (l : List Material) :
    (l.mergeSort fun a b => decide (a.destination ≤ b.destination)).Pairwise
      fun a b => a.destination ≤ b.destination := by
  refine (List.pairwise_mergeSort ?_ ?_ l).imp fun h => of_decide_eq_true h
  · simp only [decide_eq_true_eq]
    exact fun a b c => le_trans
  · simp only [Bool.or_eq_true, decide_eq_true_eq]
    exact fun a b => le_total _ _

/-- **No two files have one destination**, and the one that is kept was collected first. -/
theorem kept_of_buildMaterial (h : buildMaterial s os = .ok material) :
    material.Pairwise (fun a b => a.destination ≠ b.destination) ∧
      ∃ exePath exe interpreter objects, os.openExe = .ok exe ∧ ∀ entry ∈ material,
        (collected s os exePath exe interpreter objects).find?
          (fun a => a.destination = entry.destination) = some entry := by
  obtain ⟨exePath, exe, interpreter, objects, -, hexe, -, -, -, -, rfl⟩ :=
    buildMaterial_eq_ok.mp h
  have hsorted := pairwise_mergeSort_destination (collected s os exePath exe interpreter objects)
  refine ⟨destutter_distinct Material.destination hsorted, exePath, exe, interpreter, objects,
    hexe, fun entry hentry => ?_⟩
  rw [← find?_mergeSort Material.destination]
  exact find?_of_mem_destutter Material.destination hsorted hentry

/-- The binary is at its destination. -/
theorem exists_binary (h : buildMaterial s os = .ok material) {exe : OpenFile}
    (hexe : os.openExe = .ok exe) : ∃ entry ∈ material, entry.destination = "/iwaya".toList ∧
      entry.file.content = exe.content := by
  obtain ⟨exePath, exe', interpreter, objects, -, -, -, -, -, -, hmaterial⟩ :=
    buildMaterial_eq_ok.mp h
  obtain ⟨entry, hentry, hdestination⟩ : ∃ entry ∈ material,
      entry.destination = "/iwaya".toList := by
    rw [hmaterial]
    exact exists_mem_destutter Material.destination
      (List.mem_mergeSort.mpr (List.mem_cons_self (a := Material.mk _ _ _)))
  obtain ⟨-, exePath, exe', interpreter, objects, hexe', hkept⟩ := kept_of_buildMaterial h
  obtain rfl : exe' = exe := Except.ok.inj (hexe'.symm.trans hexe)
  have hfirst := hkept entry hentry
  rw [collected, List.find?_cons_of_pos (by simp [hdestination])] at hfirst
  obtain rfl := Option.some.inj hfirst
  exact ⟨_, hentry, rfl, rfl⟩

/-- What an object's path leads to is at its destination. -/
theorem exists_object (h : buildMaterial s os = .ok material) {exePath path : Str} {m : Mapping}
    (hexe : os.currentExe = .ok exePath) (hlisted : ListedAt s exePath m path) :
    ∃ inode, s.names path = some inode ∧ ∃ entry ∈ material, entry.destination = path ∧
      entry.file.content = s.content inode := by
  obtain ⟨⟨entry, hentry, rfl⟩, hnames⟩ := entries_of_buildMaterial h hexe hlisted
  refine ⟨entry.file.inode, hnames entry hentry rfl, entry, hentry, rfl, ?_⟩
  obtain ⟨-, exePath', exe, interpreter, objects, -, hkept⟩ := kept_of_buildMaterial h
  rcases mem_collected (List.mem_of_find?_eq_some (hkept entry hentry)) with hiwaya | ⟨path, -, rfl⟩
  · rw [hiwaya] at hlisted
    exact absurd hlisted.2.2 (not_isObjectPath_iwaya exePath)
  · rfl

end

/-! ### The image -/

/-- A path as the kernel writes it: every name after one separator, and none that leads up. -/
structure PlainPath (path : Str) : Prop where
  text : path = (components path).flatMap fun name => '/' :: name
  names : components path ≠ []
  down : "..".toList ∉ components path

/-- A directory that was just made. -/
structure Fresh (tree : FileTree Str) (directory : Str) : Prop where
  dir : tree.node (components directory) = some .dir
  empty : ∀ name, tree.node (components directory ++ [name]) = none
  down : "..".toList ∉ components directory

/-- **The files of the image**: those under `rootfs`, from the root on. -/
def imageOf (tree : FileTree Str) (directory : Str) (path : List Str) : Option Node :=
  tree.node (components directory ++ "rootfs".toList :: path)

/-- **What a build context holds** that was written of some files. -/
structure Assembled (s : System) (os : BuildAnswers) (material : List Material)
    (directory : Str) (tree tree' : FileTree Str) : Prop where
  /-- The image has the files that were collected, and no others. -/
  files : ∀ path bytes mode, imageOf tree' directory path = some (.file bytes mode) ↔
    mode = 0o755 ∧ ∃ entry ∈ material, components entry.destination = path ∧
      entry.file.content = bytes
  dirs : ∀ path, imageOf tree' directory path = some .dir ↔
    ∃ entry ∈ material, path <+: (components entry.destination).dropLast
  /-- What it starts is what is running. -/
  binary : ∀ exe, os.openExe = .ok exe →
    imageOf tree' directory ["iwaya".toList] = some (.file exe.content 0o755)
  /-- What the linker finds there is what the path of the object leads to. -/
  objects : ∀ exePath m path, os.currentExe = .ok exePath → ListedAt s exePath m path →
    ∃ inode, s.names path = some inode ∧
      imageOf tree' directory (components path) = some (.file (s.content inode) 0o755)
  /-- Beside it there is the recipe, and nothing else is touched. -/
  recipe : tree'.node (components directory ++ ["Dockerfile".toList]) =
    some (.file (utf8 dockerfile) 0o644)
  others : ∀ path, path ≠ components directory ++ ["Dockerfile".toList] →
    ¬(components directory ++ ["rootfs".toList]) <+: path → tree'.node path = tree.node path

theorem placement_path (entry : Material) : (entry.placement directory).path =
    components directory ++ "rootfs".toList :: components entry.destination := rfl

/-- Different plain destinations are different places. -/
theorem placement_path_injective {a b : Material} (ha : PlainPath a.destination)
    (hb : PlainPath b.destination)
    (h : (a.placement directory).path = (b.placement directory).path) :
    a.destination = b.destination := by
  rw [placement_path, placement_path, List.append_cancel_left_eq, List.cons.injEq] at h
  rw [ha.text, hb.text, h.2]

/-- The directories above a file of the image are those above its destination. -/
theorem above_placement {a b : List Str} (hb : b ≠ []) :
    components directory ++ "rootfs".toList :: a <+:
      (components directory ++ "rootfs".toList :: b).dropLast ↔ a <+: b.dropLast := by
  rw [List.dropLast_append_of_ne_nil (by simp), List.dropLast_cons_of_ne_nil hb,
    List.prefix_append_right_inj, List.cons_prefix_cons]
  exact and_iff_right rfl

/-- Above a fresh directory there are directories. -/
theorem Fresh.above (h : Fresh tree directory) {path : List Str}
    (hp : path <+: components directory) : tree.node path = some .dir := by
  by_cases heq : path = components directory
  · rw [heq, h.dir]
  · exact FileTree.dir_above (by simp [h.dir]) hp heq

/-- Below it there is nothing. -/
theorem Fresh.below (h : Fresh tree directory) {name : Str} {path : List Str}
    (hp : components directory ++ [name] <+: path) : tree.node path = none :=
  FileTree.none_below (h.empty name) hp

/-- **The recipe is written**, if that is not refused. -/
theorem exists_recipe (hfresh : Fresh tree directory)
    (hrefuses : refuses .write (joinPath directory "Dockerfile".toList) = none) :
    ∃ t, (treeFileSystem refuses).write (joinPath directory "Dockerfile".toList) (utf8 dockerfile)
        tree = .ok t ∧
      t.node (components directory ++ ["Dockerfile".toList]) =
        some (.file (utf8 dockerfile) 0o644) ∧
      ∀ path ≠ components directory ++ ["Dockerfile".toList], t.node path = tree.node path := by
  have hpath : components (joinPath directory "Dockerfile".toList) =
      components directory ++ ["Dockerfile".toList] := by
    rw [components_joinPath]
    exact congrArg _ (by decide)
  have hempty := hfresh.empty "Dockerfile".toList
  have hroom : tree.Room (components directory ++ ["Dockerfile".toList]) :=
    ⟨by simp, by rw [List.dropLast_concat, hfresh.dir], by rw [hempty]; simp⟩
  have hmode : tree.modeAt (components directory ++ ["Dockerfile".toList]) = 0o644 := by
    rw [FileTree.modeAt, hempty]
  have hcreate : tree.create (components directory ++ ["Dockerfile".toList]) =
    .ok (tree.put _ (.file [] _) hroom) := dif_pos hroom
  obtain ⟨-, hfile, hkept⟩ := FileTree.create_eq_ok hcreate
  obtain ⟨t, happend, hfull, hkept'⟩ := FileTree.append_of_file hfile (utf8 dockerfile)
  refine ⟨t, refusable_eq_ok.mpr ⟨hrefuses, ?_⟩, ?_, fun path hne => ?_⟩
  · rw [hpath, hcreate, Checks.ok_bind, happend]
  · rw [hfull, hmode, List.nil_append]
  · rw [hkept' path hne, hkept path hne]

/-- What is there before the files are copied, above them and where they go. -/
theorem copy_into_fresh (hfresh : Fresh tree directory) {t : FileTree Str}
    (ht : ∀ path ≠ components directory ++ ["Dockerfile".toList], t.node path = tree.node path)
    (path : List Str) :
    (path <+: components directory → t.node path = some .dir) ∧
      (components directory ++ ["rootfs".toList] <+: path → t.node path = none) := by
  constructor
  · intro hp
    rw [ht path, hfresh.above hp]
    rintro rfl
    have hle := hp.length_le
    rw [List.length_append, List.length_singleton] at hle
    omega
  · intro hp
    rw [ht path, hfresh.below hp]
    rintro rfl
    have heq := List.append_cancel_left (hp.eq_of_length_le (by simp))
    revert heq
    decide

/-- What the copying makes of the tree. -/
structure Copied (material : List Material) (directory : Str) (t tree' : FileTree Str) : Prop where
  files : ∀ entry ∈ material, imageOf tree' directory (components entry.destination) =
    some (.file entry.file.content 0o755)
  dirs : ∀ entry ∈ material, ∀ path, path <+: (components entry.destination).dropLast →
    imageOf tree' directory path = some .dir
  others : ∀ path, (∀ entry ∈ material, path ≠ (entry.placement directory).path) →
    (∀ entry ∈ material, ¬path <+: (entry.placement directory).path.dropLast) →
      tree'.node path = t.node path

/-- **The files are copied one after the other, and are all there in the end.** -/
theorem copied_of_ok {t : FileTree Str} (hdiff : material.Pairwise fun a b =>
      a.destination ≠ b.destination) (hplain : ∀ entry ∈ material, PlainPath entry.destination)
    (h : material.foldlM (Material.copyInto (treeFileSystem refuses) directory) t = .ok tree') :
    Copied material directory t tree' := by
  have hplaces : (material.map (Material.placement directory)).Pairwise
      fun x y => x.path ≠ y.path := by
    refine List.pairwise_map.mpr (hdiff.imp_of_mem fun ha hb hne he => ?_)
    exact hne (placement_path_injective (hplain _ ha) (hplain _ hb) he)
  obtain ⟨-, hfiles, -, hkept⟩ := FileTree.foldlM_place (foldlM_placed_of_copyInto h) hplaces
  have hfile : ∀ entry ∈ material, imageOf tree' directory (components entry.destination) =
      some (.file entry.file.content 0o755) := fun entry hentry =>
    hfiles (entry.placement directory) (List.mem_map_of_mem hentry)
  refine ⟨hfile, fun entry hentry path hp => ?_, fun path hne hout => ?_⟩
  · have habove := (@above_placement directory _ _ (hplain entry hentry).names).mpr hp
    have hne : (entry.placement directory).path ≠ [] := by simp [placement_path]
    have hsome : (tree'.node (entry.placement directory).path).isSome := by
      rw [show tree'.node (entry.placement directory).path = _ from hfile entry hentry]
      rfl
    refine FileTree.dir_above hsome (habove.trans (List.dropLast_prefix _)) fun he => ?_
    rw [he] at habove
    exact FileTree.not_prefix_dropLast hne habove
  · exact hkept path (List.forall_mem_map.mpr hne) (List.forall_mem_map.mpr hout)

/-- The files go below `rootfs`. -/
theorem below_rootfs (path : List Str) :
    components directory ++ ["rootfs".toList] <+:
      components directory ++ "rootfs".toList :: path :=
  ⟨path, by simp⟩

section

variable {t : FileTree Str} (hplain : ∀ entry ∈ material, PlainPath entry.destination)
  (hfresh : Fresh tree directory)
  (ht : ∀ path ≠ components directory ++ ["Dockerfile".toList], t.node path = tree.node path)
  (hcopied : Copied material directory t tree')

include hplain hfresh ht hcopied

/-- **A path of the image is one of a file that was copied, or above one, or of nothing.** -/
theorem image_cases (path : List Str) :
    (∃ entry ∈ material, components entry.destination = path ∧
        imageOf tree' directory path = some (.file entry.file.content 0o755)) ∨
      ((∃ entry ∈ material, path <+: (components entry.destination).dropLast) ∧
        imageOf tree' directory path = some .dir) ∨
      imageOf tree' directory path = none := by
  by_cases hex : ∃ entry ∈ material, components entry.destination = path
  · obtain ⟨entry, hentry, rfl⟩ := hex
    exact Or.inl ⟨entry, hentry, rfl, hcopied.files entry hentry⟩
  · by_cases hpre : ∃ entry ∈ material, path <+: (components entry.destination).dropLast
    · obtain ⟨entry, hentry, hp⟩ := hpre
      exact Or.inr (Or.inl ⟨⟨entry, hentry, hp⟩, hcopied.dirs entry hentry path hp⟩)
    · push Not at hex hpre
      refine Or.inr (Or.inr ((hcopied.others _ (fun entry hentry he => ?_)
        fun entry hentry hp => ?_).trans ((copy_into_fresh hfresh ht _).2 (below_rootfs path))))
      · rw [placement_path, List.append_cancel_left_eq, List.cons.injEq] at he
        exact hex entry hentry he.2.symm
      · exact hpre entry hentry ((above_placement (hplain entry hentry).names).mp hp)

omit hplain in
/-- **Outside of `rootfs` the copying changes nothing.** -/
theorem node_of_copied {path : List Str}
    (hout : ¬components directory ++ ["rootfs".toList] <+: path) :
    tree'.node path = t.node path := by
  have hroot : ∀ entry : Material, components directory ++ ["rootfs".toList] <+:
    (entry.placement directory).path := fun entry => below_rootfs _
  by_cases hex : ∃ entry ∈ material, path <+: (entry.placement directory).path.dropLast
  · obtain ⟨entry, hentry, hp⟩ := hex
    have hp := hp.trans (List.dropLast_prefix _)
    -- it is a directory that was there
    have habove : path <+: components directory := by
      rcases List.prefix_or_prefix_of_prefix hp (hroot entry) with hroot | hroot
      · rcases List.prefix_concat_iff.mp hroot with rfl | hroot
        · exact absurd (List.prefix_refl _) hout
        · exact hroot
      · exact absurd hroot hout
    have hsome : (tree'.node (entry.placement directory).path).isSome := by
      rw [show tree'.node (entry.placement directory).path = _ from hcopied.files entry hentry]
      rfl
    rw [FileTree.dir_above hsome hp fun he => hout (he ▸ hroot entry),
      (copy_into_fresh hfresh ht path).1 habove]
  · push Not at hex
    exact hcopied.others path (fun entry _ he => hout (he ▸ hroot entry)) hex

end

/-- **The image has what was collected, and the recipe is beside it.** -/
theorem assembled_of_ok {s : System} {os : BuildAnswers} (hm : buildMaterial s os = .ok material)
    (hplain : ∀ entry ∈ material, PlainPath entry.destination) (hfresh : Fresh tree directory)
    (h : Material.writeBuildContext (treeFileSystem refuses) directory material tree = .ok tree') :
    Assembled s os material directory tree tree' := by
  obtain ⟨t, hwrite, h⟩ := Checks.bind_eq_ok.mp h
  obtain ⟨t', hwrite', hrecipe, ht⟩ := exists_recipe hfresh (refusable_eq_ok.mp hwrite).1
  obtain rfl : t' = t := Except.ok.inj (hwrite'.symm.trans hwrite)
  have hcopied := copied_of_ok (kept_of_buildMaterial hm).1 hplain h
  have hcases := image_cases hplain hfresh ht hcopied
  refine ⟨fun path bytes mode => ⟨fun hp => ?_, ?_⟩, fun path => ⟨fun hp => ?_, ?_⟩,
    fun exe hexe => ?_, fun exePath m path hexe hlisted => ?_, ?_, fun path hne hp => ?_⟩
  · rcases hcases path with ⟨entry, hentry, hnames, hp'⟩ | ⟨-, hp'⟩ | hp'
    · obtain ⟨rfl, rfl⟩ := Node.file.inj (Option.some.inj (hp'.symm.trans hp))
      exact ⟨rfl, entry, hentry, hnames, rfl⟩
    · cases hp'.symm.trans hp
    · cases hp'.symm.trans hp
  · rintro ⟨rfl, entry, hentry, rfl, rfl⟩
    exact hcopied.files entry hentry
  · rcases hcases path with ⟨entry, hentry, hnames, hp'⟩ | ⟨hpre, -⟩ | hp'
    · cases hp'.symm.trans hp
    · exact hpre
    · cases hp'.symm.trans hp
  · rintro ⟨entry, hentry, hp⟩
    exact hcopied.dirs entry hentry path hp
  · obtain ⟨entry, hentry, hdestination, hcontent⟩ := exists_binary hm hexe
    have hnames : components "/iwaya".toList = ["iwaya".toList] := by decide
    rw [← hnames, ← hdestination, hcopied.files entry hentry, hcontent]
  · obtain ⟨inode, hname, entry, hentry, rfl, hcontent⟩ := exists_object hm hexe hlisted
    exact ⟨inode, hname, by rw [hcopied.files entry hentry, hcontent]⟩
  · rw [node_of_copied hfresh ht hcopied fun hp => ?_, hrecipe]
    have heq := List.append_cancel_left (hp.eq_of_length_le (by simp))
    revert heq
    decide
  · rw [node_of_copied hfresh ht hcopied hp, ht path hne]

/-- No file is in the way of what goes below `rootfs`. -/
theorem not_file_above {t : FileTree Str} (hfresh : Fresh tree directory)
    (ht : ∀ path ≠ components directory ++ ["Dockerfile".toList], t.node path = tree.node path)
    {path q : List Str} (hq : q <+: components directory ++ "rootfs".toList :: path) :
    Node.NotFile (t.node q) := by
  obtain ⟨habove, hbelow⟩ := copy_into_fresh hfresh ht q
  rcases List.prefix_or_prefix_of_prefix hq (below_rootfs path) with hq | hq
  · rcases List.prefix_concat_iff.mp hq with rfl | hq
    · rw [hbelow (List.prefix_refl _)]
      trivial
    · rw [habove hq]
      trivial
  · rw [hbelow hq]
    trivial

/-- **The image is exactly what was collected, and it can be assembled exactly if no file is
to lie in another.** In a directory that was just made, a build context that is written has
the recipe and, under `rootfs`, the files that were collected and the directories above them,
so the image has the running binary, and at the path of every object that is listed what that
path leads to; and if the system refuses nothing, it is written unless one destination is above
another. -/
theorem image_is_material (s : System) (os : BuildAnswers) (material : List Material)
    (directory : Str) (tree : FileTree Str) (hm : buildMaterial s os = .ok material)
    (hplain : ∀ entry ∈ material, PlainPath entry.destination) (hfresh : Fresh tree directory) :
    (∀ refuses tree', Material.writeBuildContext (treeFileSystem refuses) directory material tree =
        .ok tree' → Assembled s os material directory tree tree') ∧
      ((∀ entry ∈ material, entry.file.seek = .ok () ∧ entry.file.copy = .ok ()) →
        ∀ refuses, (∀ call path, refuses call path = none) →
          ((∃ tree', Material.writeBuildContext (treeFileSystem refuses) directory material tree =
              .ok tree') ↔
            ∀ a ∈ material, ∀ b ∈ material,
              ¬components a.destination <+: (components b.destination).dropLast)) := by
  refine ⟨fun refuses tree' h => assembled_of_ok hm hplain hfresh h,
    fun hfile refuses hrefuses => ⟨fun ⟨tree', h⟩ a ha b hb hp => ?_, fun hout => ?_⟩⟩
  · have hassembled := assembled_of_ok hm hplain hfresh h
    have hfile := (hassembled.files _ _ _).mpr ⟨rfl, a, ha, rfl, rfl⟩
    cases hfile.symm.trans ((hassembled.dirs _).mpr ⟨b, hb, hp⟩)
  · obtain ⟨t, hwrite, -, ht⟩ := exists_recipe hfresh
      (hrefuses .write (joinPath directory "Dockerfile".toList))
    have hplaced : ∃ tree', (material.map (Material.placement directory)).foldlM FileTree.placed t =
        .ok tree' := by
      refine FileTree.exists_foldlM_place ?_ ?_ ?_ ?_
      · exact List.forall_mem_map.mpr fun entry _ => by simp [placement_path]
      · refine List.forall_mem_map.mpr fun entry _ q hq => ?_
        exact not_file_above hfresh ht (hq.trans (List.dropLast_prefix _))
      · refine List.forall_mem_map.mpr fun entry _ => ?_
        rw [placement_path, (copy_into_fresh hfresh ht _).2 (below_rootfs _)]
        simp
      · refine List.forall_mem_map.mpr fun a ha => List.forall_mem_map.mpr fun b hb hp => ?_
        exact hout a ha b hb ((above_placement (hplain b hb).names).mp hp)
    obtain ⟨tree', hplaced⟩ := hplaced
    exact ⟨tree', Checks.bind_eq_ok.mpr ⟨t, hwrite,
      foldlM_copyInto_of_placed hrefuses hfile hplaced⟩⟩

end

/-! ### One image -/

/-- A fresh directory under a temporary one. -/
def emptyContext : FileTree Str where
  node path := if path <+: ["tmp".toList, "b".toList] then some .dir else none
  root := by decide
  closed path name h := by
    split_ifs at h with hp
    · exact if_pos ((List.prefix_append path [name]).trans hp)
    · cases h

theorem fresh_emptyContext : Fresh emptyContext "/tmp/b".toList := by
  have hnames : components "/tmp/b".toList = ["tmp".toList, "b".toList] := by decide
  refine ⟨by rw [hnames]; decide, fun name => ?_, by decide⟩
  have hlonger : ¬["tmp".toList, "b".toList] ++ [name] <+: ["tmp".toList, "b".toList] := fun hp =>
    absurd hp.length_le (by simp)
  rw [hnames, emptyContext]
  simp only [if_neg hlonger]

/-- Only the library can be opened by its path. -/
theorem eq_libPath_of_opens {path : Str} (h : Opens libLoaded sampleBuildAnswers path) :
    path = libPath := by
  by_contra hne
  have hnone : libLoaded.names path = none := by
    simp only [libLoaded, Names.Change.names, Function.update_of_ne hne]
  rw [Opens, hnone] at h
  cases h.1

/-- What is collected there. -/
theorem sample_material {material : List Material}
    (h : buildMaterial libLoaded sampleBuildAnswers = .ok material) : ∀ entry ∈ material,
      (entry.destination = "/iwaya".toList ∨ entry.destination = libPath) ∧
        entry.file.seek = .ok () ∧ entry.file.copy = .ok () := by
  obtain ⟨exePath, exe, interpreter, objects, -, hexe, -, hopens, -, hall, rfl⟩ :=
    buildMaterial_eq_ok.mp h
  obtain rfl := Except.ok.inj hexe
  intro entry hentry
  have hmem := List.mem_mergeSort.mp ((List.destutter_sublist _ _).subset hentry)
  simp only [collected, List.mem_cons, List.mem_append, List.mem_map, Option.mem_toList] at hmem
  rcases hmem with rfl | ⟨path, hpath, rfl⟩ | ⟨path, hpath, rfl⟩
  · exact ⟨Or.inl rfl, rfl, rfl⟩
  · exact ⟨Or.inr (eq_libPath_of_opens (hopens path hpath)), rfl, rfl⟩
  · exact ⟨Or.inr (eq_libPath_of_opens (hall path hpath)), rfl, rfl⟩

theorem listedAt_libPath : ListedAt libLoaded "/usr/bin/iwaya".toList libMapping libPath :=
  ⟨List.mem_singleton_self _, by decide +kernel, isObjectPath_libPath⟩

/-- **An image of a binary and a library.** -/
theorem image_is_material_sample : ∃ material tree',
    buildMaterial libLoaded sampleBuildAnswers = .ok material ∧
    Material.writeBuildContext (treeFileSystem fun _ _ => none) "/tmp/b".toList material
      emptyContext = .ok tree' ∧
    imageOf tree' "/tmp/b".toList ["iwaya".toList] = some (.file staticExecutable 0o755) ∧
    imageOf tree' "/tmp/b".toList ["lib".toList, "libx.so".toList] = some (.file [1] 0o755) := by
  have hopens : ∀ m path, ListedAt libLoaded "/usr/bin/iwaya".toList m path →
      Opens libLoaded sampleBuildAnswers path := by
    rintro m path ⟨hm, hlisted, -⟩
    obtain rfl := List.mem_singleton.mp hm
    obtain rfl : libPath = path := Option.some.inj (listedAt_libPath.2.1.symm.trans hlisted)
    exact ⟨rfl, rfl⟩
  obtain ⟨material, hmaterial⟩ := exists_buildMaterial (buildable_sample hopens)
  have hentries := sample_material hmaterial
  have hiwaya : components "/iwaya".toList = ["iwaya".toList] := by decide
  have hlib : components libPath = ["lib".toList, "libx.so".toList] := by decide
  have hplain : ∀ entry ∈ material, PlainPath entry.destination := by
    intro entry hentry
    rcases (hentries entry hentry).1 with h | h <;> rw [h]
    · exact ⟨by rw [hiwaya]; decide, by rw [hiwaya]; decide, by rw [hiwaya]; decide⟩
    · exact ⟨by rw [hlib]; decide, by rw [hlib]; decide, by rw [hlib]; decide⟩
  have hout : ∀ a ∈ material, ∀ b ∈ material,
      ¬components a.destination <+: (components b.destination).dropLast := by
    intro a ha b hb
    rcases (hentries a ha).1 with h | h <;> rcases (hentries b hb).1 with h' | h' <;>
      rw [h, h'] <;> simp only [hiwaya, hlib] <;> decide
  obtain ⟨hassembled, hwritten⟩ := image_is_material libLoaded sampleBuildAnswers material
    "/tmp/b".toList emptyContext hmaterial hplain fresh_emptyContext
  obtain ⟨tree', hwrite⟩ := (hwritten (fun entry hentry => (hentries entry hentry).2)
    (fun _ _ => none) fun _ _ => rfl).mpr hout
  refine ⟨material, tree', hmaterial, hwrite, (hassembled _ _ hwrite).binary _ rfl, ?_⟩
  obtain ⟨inode, hname, himage⟩ := (hassembled _ _ hwrite).objects _ _ _ rfl listedAt_libPath
  obtain rfl : 1 = inode := Option.some.inj
    ((Names.Change.names_bind_self libPath 1 fun _ => none).symm.trans hname)
  rwa [hlib] at himage

end Iwaya
