import Iwaya.Foundation.Fleet
import Iwaya.Execute.Naming

/-!
# Invocations beside each other

Any number of invocations run on one machine, each at its own pace, and any of them may be
killed at any moment. What they share is the directory of temporary files, the image
stores and the containers of the runtimes. The kernel creates a directory only where there
is none; a runtime creates a container only under a name that is free, some time after its
client was started, and removes whichever container bears the name it is given; images
disappear when somebody prunes them, and containers when their process ends. Everything
else is the invocations' own doing.

Three things hold however the invocations interleave. The directory an invocation writes
to, builds from or removes is one it created, and what is built is what it wrote
(`Iwaya.directories_are_exclusive`). A sidecar runs an image with the tag of its own
invocation's files, so the files themselves if the tag is theirs alone
(`Iwaya.images_agree`). And an invocation that removes the sidecar of another has drawn
the very same eight bytes (`Iwaya.removes_what_it_drew`).
-/

namespace Iwaya

open Text Effects

/-! ### The machine -/

section

variable (ι Content : Type)

/-- A directory: the invocation that created it, if it was one, and what is in it. -/
structure Directory where
  owner : Option ι
  content : Content

/-- A container: the invocation whose client created it, and the image it runs. -/
structure Container where
  owner : ι
  content : Content

/-- **What is shared.** -/
structure Machine where
  directory : Str → Option (Directory ι Content)
  /-- By runtime and tag. -/
  image : Str → Str → Option Content
  /-- The client an invocation has running. -/
  client : ι → Option Command
  /-- By runtime and name. -/
  container : Str → Str → Option (Container ι Content)

end

variable {ι Content : Type} [DecidableEq ι]

/-- What the files of each invocation are, and the digest of files. -/
structure Files (ι Content : Type) where
  material : ι → Content
  digest : Content → Vector UInt8 32

/-- The tag of files. -/
def Files.tag (files : Files ι Content) (c : Content) : Str := imageTag (files.digest c)

/-- A table with one entry changed. -/
def setEntry {α : Type} (table : Str → Str → α) (runtime key : Str) (a : α) : Str → Str → α :=
  Function.update table runtime (Function.update (table runtime) key a)

@[simp] theorem setEntry_self {α : Type} {table : Str → Str → α} {runtime key : Str} {a : α} :
    setEntry table runtime key a runtime key = a := by
  simp [setEntry]

theorem setEntry_of_ne {α : Type} {table : Str → Str → α} {runtime key n : Str} {a : α}
    (h : n ≠ key) : setEntry table runtime key a runtime n = table runtime n := by
  simp [setEntry, h]

/-- What is found is the change, or was there before. -/
theorem setEntry_cases {α : Type} {table : Str → Str → α} {runtime key r n : Str} {a b : α}
    (h : setEntry table runtime key a r n = b) :
    (r = runtime ∧ n = key ∧ a = b) ∨ table r n = b := by
  unfold setEntry at h
  rcases eq_or_ne r runtime with rfl | hr
  · rcases eq_or_ne n key with rfl | hn
    · exact Or.inl ⟨rfl, rfl, by simpa using h⟩
    · exact Or.inr (by simpa [hn] using h)
  · exact Or.inr (by simpa [hr] using h)

/-- The kinds of calls that touch what is shared. -/
def Call.shared : Call → Bool
  | .materialDigest | .imageInspect | .contextCreate | .contextWrite | .imageBuild
  | .contextRemove | .sidecarRun | .sidecarRemove | .sidecarWait => true
  | _ => false

/-- **How the machine answers an invocation.** -/
inductive Machine.Answers (files : Files ι Content) (i : ι) :
    Machine ι Content → Effect → Machine ι Content → Prop
  /-- Nothing shared is touched. -/
  | apart {m : Machine ι Content} {e : Effect} (h : e.kind.shared = false) :
    Answers files i m e m
  /-- The digest is that of the invocation's files. -/
  | digests {m : Machine ι Content} {ans : Except ProxyImageError (Vector UInt8 32)}
    (h : ∀ d, ans = .ok d → d = files.digest (files.material i)) :
    Answers files i m ⟨.materialDigest, (), ans⟩ m
  /-- A directory is created where there is none. -/
  | creates {m : Machine ι Content} {path : Str} (h : m.directory path = none) (content : Content) :
    Answers files i m ⟨.contextCreate, path, .ok ()⟩
      { m with directory := Function.update m.directory path (some ⟨some i, content⟩) }
  | createsNot {m : Machine ι Content} {path : Str} {e : IoError} :
    Answers files i m ⟨.contextCreate, path, .error e⟩ m
  /-- The files are written to a directory: all of them, or who knows what of them. -/
  | writes {m : Machine ι Content} {path : Str} {d : Directory ι Content}
    {ans : Except IoError Unit}
    (h : m.directory path = some d) (content : Content)
    (hc : ans = .ok () → content = files.material i) :
    Answers files i m ⟨.contextWrite, path, ans⟩
      { m with directory := Function.update m.directory path (some { d with content }) }
  /-- An image is built from what is in a directory. -/
  | builds {m : Machine ι Content} {command : Command} {output : Output} {path tag : Str}
    {d : Directory ι Content} (hp : command.args.getLast? = some path)
    (ht : argAfter "--tag".toList command.args = some tag) (hd : m.directory path = some d) :
    Answers files i m ⟨.imageBuild, command, .ok output⟩
      { m with image := setEntry m.image command.program tag (some d.content) }
  | buildsNot {m : Machine ι Content} {command : Command} {ans : Except IoError Output}
    (h : ∀ output, ans = .ok output → output.status.success = false) :
    Answers files i m ⟨.imageBuild, command, ans⟩ m
  /-- A directory is removed, or some of what is in it. -/
  | removes {m : Machine ι Content} {path : Str} (d : Option (Directory ι Content))
    (h : ∀ d', d = some d' → ∃ old, m.directory path = some old ∧ d'.owner = old.owner) :
    Answers files i m ⟨.contextRemove, path, ()⟩
      { m with directory := Function.update m.directory path d }
  /-- An image that is found is there. -/
  | inspects {m : Machine ι Content} {command : Command} {ans : Except IoError ExitStatus}
    (h : ∀ status, ans = .ok status → status.success = true →
      ∃ tag content, command.args.getLast? = some tag ∧
        m.image command.program tag = some content) :
    Answers files i m ⟨.imageInspect, command, ans⟩ m
  /-- A client is started, and there is no container yet. -/
  | runs {m : Machine ι Content} {command : Command} :
    Answers files i m ⟨.sidecarRun, command, .ok ()⟩
      { m with client := Function.update m.client i (some command) }
  | runsNot {m : Machine ι Content} {command : Command} {e : IoError} :
    Answers files i m ⟨.sidecarRun, command, .error e⟩ m
  /-- The container of a name is removed, whosever it is. -/
  | removesContainer {m : Machine ι Content} {command : Command} {name : Str}
    (h : command.args.getLast? = some name) : Answers files i m ⟨.sidecarRemove, command, ()⟩
      { m with container := setEntry m.container command.program name none }
  | removesNoContainer {m : Machine ι Content} {command : Command} :
    Answers files i m ⟨.sidecarRemove, command, ()⟩ m
  /-- The client is over. -/
  | reaps {m : Machine ι Content} : Answers files i m ⟨.sidecarWait, (), ()⟩
      { m with client := Function.update m.client i none }

/-- **What happens by itself.** -/
inductive Machine.Moves : Machine ι Content → Machine ι Content → Prop
  /-- A runtime creates the container of a client, under a name that is free, from the image
  it has. -/
  | starts {m : Machine ι Content} {i : ι} {command : Command} {name tag : Str} {content : Content}
    (hc : m.client i = some command) (hn : argAfter "--name".toList command.args = some name)
    (ht : command.args.getLast? = some tag) (hi : m.image command.program tag = some content)
    (hfree : m.container command.program name = none) :
    Moves m { m with
      container := setEntry m.container command.program name (some ⟨i, content⟩) }
  /-- The process in a container ends, and the container with it. -/
  | exits {m : Machine ι Content} (runtime name : Str) :
    Moves m { m with container := setEntry m.container runtime name none }
  /-- Somebody prunes an image. -/
  | prunes {m : Machine ι Content} (runtime tag : Str) :
    Moves m { m with image := setEntry m.image runtime tag none }
  /-- Somebody else creates, changes or removes a directory of their own. -/
  | others {m : Machine ι Content} (path : Str) (d : Option (Directory ι Content))
    (h : ∀ old, m.directory path = some old → old.owner = none)
    (hd : ∀ d', d = some d' → d'.owner = none) :
    Moves m { m with directory := Function.update m.directory path d }

/-- **The machine around each invocation.** -/
def machine (files : Files ι Content) (i : ι) :
    Surroundings Call.Arg Call.Ans (Machine ι Content) Unit where
  answers := Machine.Answers files i
  moves _ m _ m' := m.Moves m'
  kills m m' := m' = m

/-- A machine on which no invocation has begun, and whose images, if they have a tag of
iwaya's, were made of files with that tag. -/
structure Machine.Fresh (files : Files ι Content) (m : Machine ι Content) : Prop where
  directory : ∀ path d, m.directory path = some d → d.owner = none
  image : ∀ runtime c c', m.image runtime (files.tag c) = some c' → files.tag c' = files.tag c
  client : ∀ i, m.client i = none
  container : ∀ runtime name, m.container runtime name = none

/-! ### The invariant -/

/-- **What holds between what the invocations hold and the machine.** -/
structure Machine.Sound (files : Files ι Content) (g : ι → Held × Named) (m : Machine ι Content) :
    Prop where
  directory : ∀ i w, (g i).1.directory = some w → ∃ d, m.directory w.path = some d ∧
    d.owner = some i ∧ (w.written = true → d.content = files.material i)
  digest : ∀ i d, (g i).2.digest = some d → d = files.digest (files.material i)
  image : ∀ runtime c c', m.image runtime (files.tag c) = some c' → files.tag c' = files.tag c
  client : ∀ i command, m.client i = some command →
    (g i).2.Drew (argAfter "--name".toList command.args) ∧
      command.args.getLast? = some (files.tag (files.material i))
  container : ∀ runtime name x, m.container runtime name = some x →
    (g x.owner).2.Drew (some name) ∧ files.tag x.content = files.tag (files.material x.owner)

variable {files : Files ι Content} {m m' : Machine ι Content} {i : ι} {e : Effect}
  {g : ι → Held × Named} {h' : Held} {s' : Named}

/-- **What an answer does to a directory.** -/
theorem answers_directory (ha : Machine.Answers files i m e m') (path : Str) :
    m'.directory path = m.directory path ∨
      (m.directory path = none ∧ ∃ content, e = ⟨.contextCreate, path, .ok ()⟩ ∧
        m'.directory path = some ⟨some i, content⟩) ∨
      (∃ ans d content, e = ⟨.contextWrite, path, ans⟩ ∧ m.directory path = some d ∧
        m'.directory path = some { d with content } ∧
        (ans = .ok () → content = files.material i)) ∨
      e = ⟨.contextRemove, path, ()⟩ := by
  have hother : ∀ {p : Str} {d : Option (Directory ι Content)}, path ≠ p →
      Function.update m.directory p d path = m.directory path := fun hne =>
    Function.update_of_ne hne _ _
  cases ha with
  | @creates p hnone content =>
    rcases eq_or_ne path p with rfl | hne
    · exact Or.inr (Or.inl ⟨hnone, content, rfl, by simp⟩)
    · exact Or.inl (hother hne)
  | @writes p d ans hd content hc =>
    rcases eq_or_ne path p with rfl | hne
    · exact Or.inr (Or.inr (Or.inl ⟨ans, d, content, rfl, hd, by simp, hc⟩))
    · exact Or.inl (hother hne)
  | @removes p d hd =>
    rcases eq_or_ne path p with rfl | hne
    · exact Or.inr (Or.inr (Or.inr rfl))
    · exact Or.inl (hother hne)
  | _ => exact Or.inl rfl

omit [DecidableEq ι] in
/-- Nobody else holds the directory. -/
theorem Machine.Sound.holder_unique (hg : m.Sound files g) {j : ι} {w : Workspace} {written : Bool}
    (hw : (g j).1.directory = some w) (hi : (g i).1 = .building w.path written) : j = i := by
  obtain ⟨d, hd, ho, -⟩ := hg.directory j w hw
  obtain ⟨d', hd', ho', -⟩ := hg.directory i ⟨w.path, written⟩ (by rw [hi]; rfl)
  obtain rfl := Option.some.inj (hd.symm.trans hd')
  exact Option.some.inj (ho.symm.trans ho')

/-- **A directory that an invocation holds stays its own**, with what it wrote there. -/
theorem directory_answers (hg : m.Sound files g) (hu : Held.use (g i).1 e = some h')
    (ha : Machine.Answers files i m e m') (j : ι) (w : Workspace)
    (hw : (Function.update g i (h', s') j).1.directory = some w) :
    ∃ d, m'.directory w.path = some d ∧ d.owner = some j ∧
      (w.written = true → d.content = files.material j) := by
  rcases eq_or_ne j i with rfl | hj
  · rw [Function.update_self] at hw
    rcases directory_of_use hu hw with ⟨path, rfl, rfl⟩ | ⟨path, rfl, rfl⟩ | hold
    · cases ha with
      | apart h => cases h
      | creates hnone content => exact ⟨_, Function.update_self .., rfl, by simp⟩
    · obtain ⟨d, hd, ho, -⟩ := hg.directory j ⟨path, false⟩ (by rw [held_of_contextWrite hu]; rfl)
      cases ha with
      | apart h => cases h
      | writes hd' content hc =>
        obtain rfl := Option.some.inj (hd.symm.trans hd')
        exact ⟨_, Function.update_self .., ho, fun _ => hc rfl⟩
    · -- it was held already, and this call is none that takes it away
      obtain ⟨d, hd, ho, hc⟩ := hg.directory j w hold
      rcases answers_directory ha w.path with hsame | ⟨hnone, -⟩ |
        ⟨ans, d', content, rfl, hd', hnew, -⟩ | rfl
      · exact ⟨d, hsame.trans hd, ho, hc⟩
      · rw [hd] at hnone
        cases hnone
      · obtain rfl := Option.some.inj (hd.symm.trans hd')
        rw [held_of_contextWrite hu] at hold
        have hw' : (⟨w.path, false⟩ : Workspace) = w := Option.some.inj hold
        refine ⟨_, hnew, ho, fun ht => ?_⟩
        rw [← hw'] at ht
        cases ht
      · rw [(held_of_contextRemove hu).2] at hw
        cases hw
  · -- the others' directories are out of reach
    rw [Function.update_of_ne hj] at hw
    obtain ⟨d, hd, ho, hc⟩ := hg.directory j w hw
    rcases answers_directory ha w.path with hsame | ⟨hnone, -⟩ | ⟨ans, d', content, rfl, -⟩ | rfl
    · exact ⟨d, hsame.trans hd, ho, hc⟩
    · rw [hd] at hnone
      cases hnone
    · exact absurd (hg.holder_unique hw (held_of_contextWrite hu)) hj
    · obtain ⟨⟨written, hheld⟩, -⟩ := held_of_contextRemove hu
      exact absurd (hg.holder_unique hw hheld) hj

/-! ### Names -/

/-- Names that were drawn stay drawn, whoever's turn it is. -/
theorem drew_update {name : Option Str} {j : ι} (hu : Named.use (g i).2 e = some s')
    (h : (g j).2.Drew name) : (Function.update g i (h', s') j).2.Drew name := by
  rcases eq_or_ne j i with rfl | hj
  · rw [Function.update_self]
    exact h.use hu
  · rwa [Function.update_of_ne hj]

/-- **The digest an invocation knows is that of its files.** -/
theorem digest_answers (hg : m.Sound files g) (hu : Named.use (g i).2 e = some s')
    (ha : Machine.Answers files i m e m') (j : ι) (d : Vector UInt8 32)
    (hd : (Function.update g i (h', s') j).2.digest = some d) :
    d = files.digest (files.material j) := by
  rcases eq_or_ne j i with rfl | hj
  · rw [Function.update_self] at hd
    rcases naming_cases hu with rfl | ⟨bytes, -, rfl⟩ | ⟨d', rfl, rfl⟩
    · exact hg.digest j d hd
    · exact hg.digest j d hd
    · obtain rfl := Option.some.inj hd
      cases ha with
      | apart h => cases h
      | digests h => exact h _ rfl
  · rw [Function.update_of_ne hj] at hd
    exact hg.digest j d hd

omit [DecidableEq ι] in
/-- A tag an invocation uses is that of its files. -/
theorem Machine.Sound.tag_eq (hg : m.Sound files g) {tag : Option Str} (h : (g i).2.Tagged tag) :
    tag = some (files.tag (files.material i)) := by
  obtain ⟨hd, rfl⟩ := h
  obtain ⟨d, hd⟩ := Option.isSome_iff_exists.mp hd
  rw [hd, hg.digest i d hd]
  rfl

/-- **An image is built from the files of its tag.** -/
theorem image_answers (hg : m.Sound files g) (hu : Held.use (g i).1 e = some h')
    (hn : Named.use (g i).2 e = some s') (ha : Machine.Answers files i m e m') (runtime : Str)
    (c c' : Content) (hc : m'.image runtime (files.tag c) = some c') :
    files.tag c' = files.tag c := by
  cases ha with
  | @builds command output path tag d hp ht hd =>
    rcases setEntry_cases hc with ⟨-, hkey, hset⟩ | hold
    · -- the directory holds the invocation's files, and the tag is theirs
      obtain rfl := Option.some.inj hset
      obtain ⟨path', hp', hheld⟩ := held_of_imageBuild hu
      obtain rfl := Option.some.inj (hp.symm.trans hp')
      obtain ⟨d', hd', -, hcontent⟩ := hg.directory i ⟨path, true⟩ (by rw [hheld]; rfl)
      obtain rfl := Option.some.inj (hd.symm.trans hd')
      have htag := hg.tag_eq (tagged_of_imageBuild hn)
      rw [ht] at htag
      rw [hcontent rfl, hkey, Option.some.inj htag]
    · exact hg.image runtime c c' hold
  | _ => exact hg.image runtime c c' hc

/-- **A client runs what its invocation names.** -/
theorem client_answers (hg : m.Sound files g) (hn : Named.use (g i).2 e = some s')
    (ha : Machine.Answers files i m e m') (j : ι) (command : Command)
    (hc : m'.client j = some command) :
    (Function.update g i (h', s') j).2.Drew (argAfter "--name".toList command.args) ∧
      command.args.getLast? = some (files.tag (files.material j)) := by
  have hold : m.client j = some command →
      (Function.update g i (h', s') j).2.Drew (argAfter "--name".toList command.args) ∧
        command.args.getLast? = some (files.tag (files.material j)) := fun hc => by
    obtain ⟨h1, h2⟩ := hg.client j command hc
    exact ⟨drew_update hn h1, h2⟩
  cases ha with
  | @runs command' =>
    rcases eq_or_ne j i with rfl | hj
    · simp only [Function.update_self, Option.some.injEq] at hc
      subst hc
      obtain ⟨h1, h2⟩ := named_of_sidecarRun hn
      exact ⟨drew_update hn h1, hg.tag_eq h2⟩
    · exact hold ((Function.update_of_ne hj ..).symm.trans hc)
  | reaps =>
    rcases eq_or_ne j i with rfl | hj
    · simp at hc
    · exact hold ((Function.update_of_ne hj ..).symm.trans hc)
  | _ => exact hold hc

/-- **An answer creates no container.** -/
theorem container_answers (ha : Machine.Answers files i m e m') {runtime name : Str}
    {x : Container ι Content} (hx : m'.container runtime name = some x) :
    m.container runtime name = some x := by
  cases ha with
  | @removesContainer command key h =>
    rcases setEntry_cases hx with ⟨-, -, hset⟩ | hold
    · cases hset
    · exact hold
  | _ => exact hx

/-! ### Every reachable machine -/

/-- **The invariant is kept by every answer.** -/
theorem Machine.Sound.answers (hg : m.Sound files g) (hu : Held.use (g i).1 e = some h')
    (hn : Named.use (g i).2 e = some s') (ha : Machine.Answers files i m e m') :
    m'.Sound files (Function.update g i (h', s')) where
  directory := directory_answers hg hu ha
  digest := digest_answers hg hn ha
  image := image_answers hg hu hn ha
  client := client_answers hg hn ha
  container runtime name x hx := by
    obtain ⟨h1, h2⟩ := hg.container runtime name x (container_answers ha hx)
    exact ⟨drew_update hn h1, h2⟩

omit [DecidableEq ι] in
/-- **And by whatever happens by itself.** -/
theorem Machine.Sound.moves (hg : m.Sound files g) (hm : m.Moves m') : m'.Sound files g := by
  cases hm with
  | @starts i command name tag content hc hn ht hi hfree =>
    refine { hg with container := fun runtime n x hx => ?_ }
    rcases setEntry_cases hx with ⟨-, rfl, hset⟩ | hold
    · -- the new container is its client's
      obtain rfl := Option.some.inj hset
      obtain ⟨h1, h2⟩ := hg.client i command hc
      obtain rfl := Option.some.inj (ht.symm.trans h2)
      exact ⟨hn ▸ h1, hg.image _ _ _ hi⟩
    · exact hg.container runtime n x hold
  | exits runtime name =>
    refine { hg with container := fun r n x hx => ?_ }
    rcases setEntry_cases hx with ⟨-, -, hset⟩ | hold
    · cases hset
    · exact hg.container r n x hold
  | prunes runtime tag =>
    refine { hg with image := fun r c c' hc => ?_ }
    rcases setEntry_cases hc with ⟨-, -, hset⟩ | hold
    · cases hset
    · exact hg.image r c c' hold
  | others path d h hd =>
    refine { hg with directory := fun i w hw => ?_ }
    obtain ⟨d', hd', ho, hc⟩ := hg.directory i w hw
    have hne : w.path ≠ path := fun heq => by
      rw [h d' (heq ▸ hd')] at ho
      cases ho
    exact ⟨d', (Function.update_of_ne hne ..).trans hd', ho, hc⟩

omit [DecidableEq ι] in
/-- A fresh machine, before any invocation has begun. -/
theorem Machine.Fresh.sound (h : m.Fresh files) : m.Sound files fun _ => (.bare, .empty) where
  directory i w hw := by cases hw
  digest i d hd := by cases hd
  image := h.image
  client i command hc := by cases (h.client i).symm.trans hc
  container runtime name x hx := by cases (h.container runtime name).symm.trans hx

/-- Any number of invocations under way on one machine. -/
abbrev Invocations (ι Content : Type) : Type :=
  Fleet ι Call.Arg Call.Ans Failure Exit (Machine ι Content)

/-- What an invocation holds and can name with. -/
def holding : Protocol Call.Arg Call.Ans (Held × Named) := Held.use.prod Named.use

theorem follows_holding (world : World) (invocation : Invocation) :
    Follows holding (.bare, .empty)
      (fun r q => Ends Held.bare r q.1 ∧ Given (fun _ _ => True) r q.2)
      (execute world invocation) :=
  (follows_execute world invocation).prod (naming_execute world invocation)

section

variable {world : ι → World} {invocation : ι → Invocation} {f : Invocations ι Content}

/-- **Every machine that is reached is sound**, whatever the interleaving. -/
theorem sound_of_course (hm : m.Fresh files) (h : Fleet.Course (machine files)
      (.start (fun i => execute (world i) (invocation i)) m) f) :
    ∃ g, Fleet.Stands (fun _ => holding) (fun _ => (.bare, .empty)) g f ∧
      f.shared.Sound files g :=
  Fleet.protocols_keep sampleAnswers
    (fun i => follows_holding (world i) (invocation i)) hm.sound
    (fun i g m e t m' hg hstep ha => by
      obtain ⟨hu, hn⟩ := Protocol.prod_eq_some.mp hstep
      exact hg.answers hu hn ha)
    (fun i g m q l m' hg hm => hg.moves hm)
    (fun i g m m' hg hk => by
      obtain rfl : m' = m := hk
      exact hg) h

/-- What an invocation holds and can name with, when it is about to make a call. -/
theorem holding_of_waiting (hm : m.Fresh files) (h : Fleet.Course (machine files)
      (.start (fun i => execute (world i) (invocation i)) m) f) {i : ι} {k : Call} {x : k.Arg}
    (hi : (f.process i).waiting = some ⟨k, x⟩) (ans : k.Ans) :
    ∃ g, f.shared.Sound files g ∧ (∀ j, (f.trace j).foldlM Named.use .empty = some (g j).2) ∧
      (∃ h', Held.use (g i).1 ⟨k, x, ans⟩ = some h') ∧
        ∃ s', Named.use (g i).2 ⟨k, x, ans⟩ = some s' := by
  obtain ⟨g, hg, hs⟩ := sound_of_course hm h
  obtain ⟨t, ht⟩ := hg.allows sampleAnswers (follows_holding (world i) (invocation i)) h hi ans
  obtain ⟨h1, h2⟩ := Protocol.prod_eq_some.mp ht
  exact ⟨g, hs, fun j => (foldlM_prod_iff.mp (hg j)).2, ⟨t.1, h1⟩, t.2, h2⟩

/-- The call works in this directory. -/
def WorksIn (path : Str) : Waiting Call.Arg → Prop
  | ⟨.contextWrite, p⟩ => p = path
  | ⟨.contextRemove, p⟩ => p = path
  | ⟨.imageBuild, command⟩ => command.args.getLast? = some path
  | _ => False

/-- **No invocation touches a directory of another**: the directory one is about to write
to, build from or remove is there and was created by it, and what is built from it are its
own files. -/
theorem directories_are_exclusive (hm : m.Fresh files) (h : Fleet.Course (machine files)
      (.start (fun i => execute (world i) (invocation i)) m) f) {i : ι} {q : Waiting Call.Arg}
    (hq : (f.process i).waiting = some q) {path : Str} (hp : WorksIn path q) :
    ∃ d, f.shared.directory path = some d ∧ d.owner = some i ∧
      (q.kind = .imageBuild → d.content = files.material i) := by
  obtain ⟨k, x⟩ := q
  have hheld : ∀ {g : ι → Held × Named} {written : Bool}, f.shared.Sound files g →
      (g i).1 = .building path written → ∃ d, f.shared.directory path = some d ∧
        d.owner = some i ∧ (written = true → d.content = files.material i) :=
    fun hs hb => hs.directory i ⟨path, _⟩ (by rw [hb]; rfl)
  cases k with
  | contextWrite =>
    obtain rfl : x = path := hp
    obtain ⟨g, hs, -, ⟨h', hu⟩, -⟩ := holding_of_waiting hm h hq (.ok ())
    obtain ⟨d, hd, ho, -⟩ := hheld hs (held_of_contextWrite hu)
    exact ⟨d, hd, ho, by simp⟩
  | contextRemove =>
    obtain rfl : x = path := hp
    obtain ⟨g, hs, -, ⟨h', hu⟩, -⟩ := holding_of_waiting hm h hq ()
    obtain ⟨written, hb⟩ := (held_of_contextRemove hu).1
    obtain ⟨d, hd, ho, -⟩ := hheld hs hb
    exact ⟨d, hd, ho, by simp⟩
  | imageBuild =>
    obtain ⟨g, hs, -, ⟨h', hu⟩, -⟩ := holding_of_waiting hm h hq (.error [])
    obtain ⟨p, hlast, hb⟩ := held_of_imageBuild hu
    obtain rfl := Option.some.inj (hlast.symm.trans hp)
    obtain ⟨d, hd, ho, hc⟩ := hheld hs hb
    exact ⟨d, hd, ho, fun _ => hc rfl⟩
  | _ => exact hp.elim

/-- **A sidecar runs an image of its own invocation's tag**, under a name that invocation
drew; it runs the very files if no others have that tag. -/
theorem images_agree (hm : m.Fresh files) (h : Fleet.Course (machine files)
      (.start (fun i => execute (world i) (invocation i)) m) f) {runtime name : Str}
    {x : Container ι Content} (hx : f.shared.container runtime name = some x) :
    (∃ bytes, ⟨.entropy 8, (), .ok bytes⟩ ∈ f.trace x.owner ∧ name = sidecarName bytes.toList) ∧
      files.tag x.content = files.tag (files.material x.owner) ∧
      ((∀ c, files.tag c = files.tag (files.material x.owner) → c = files.material x.owner) →
        x.content = files.material x.owner) := by
  obtain ⟨g, hg, hs⟩ := sound_of_course hm h
  obtain ⟨hdrew, htag⟩ := hs.container runtime name x hx
  obtain ⟨bytes, hmem, hname⟩ := mem_of_drew (foldlM_prod_iff.mp (hg x.owner)).2 hdrew
  exact ⟨⟨bytes, hmem, Option.some.inj hname⟩, htag, fun hunique => hunique _ htag⟩

/-- **A sidecar is removed only under a name that its own invocation drew**, and the one
that removes it did as well: unless two invocations draw the same eight bytes, each removes
its own. -/
theorem removes_what_it_drew (hm : m.Fresh files) (h : Fleet.Course (machine files)
      (.start (fun i => execute (world i) (invocation i)) m) f) {i : ι} {command : Command}
    (hi : (f.process i).waiting = some ⟨.sidecarRemove, command⟩) {name : Str}
    (hname : command.args.getLast? = some name) {x : Container ι Content}
    (hx : f.shared.container command.program name = some x) :
    ∃ bytes, name = sidecarName bytes.toList ∧ ⟨.entropy 8, (), .ok bytes⟩ ∈ f.trace i ∧
      ⟨.entropy 8, (), .ok bytes⟩ ∈ f.trace x.owner := by
  obtain ⟨g, hs, hnames, -, s', hn⟩ := holding_of_waiting hm h hi ()
  obtain ⟨bytes, hmem, heq⟩ := mem_of_drew (hnames i) (drew_of_sidecarRemove hn)
  obtain ⟨bytes', hmem', heq'⟩ :=
    mem_of_drew (hnames x.owner) (hs.container command.program name x hx).1
  -- one name, so one draw
  have hsame : sidecarName bytes.toList = sidecarName bytes'.toList :=
    Option.some.inj (heq.symm.trans (hname.trans heq'))
  obtain rfl := Vector.toList_inj.mp (sidecarName_injective hsame)
  exact ⟨bytes, Option.some.inj (hname.symm.trans heq), hmem, hmem'⟩

end

/-! ### Two invocations on a machine without their images -/

/-- Each has its own files. -/
def buildFiles : Files Bool Bool where
  material i := i
  digest c := .replicate 32 (if c then 1 else 0)

/-- The sample answers, but for the draws, and for the image, which is not there. -/
def buildAnswers (i : Bool) : Env Call.Ans
  | _, .entropy n => .ok (sampleBytes i n)
  | _, .materialDigest => .ok (buildFiles.digest (buildFiles.material i))
  | _, .imageInspect => .ok { exitSuccess with code := some 1 }
  | n, k => sampleAnswers n k

/-- The directory each makes. -/
def buildPath (i : Bool) : Str :=
  joinPath "/tmp".toList ("iwaya-proxy-image-".toList ++ hex (sampleBytes i 8).toList)

def buildTag (i : Bool) : Str := buildFiles.tag (buildFiles.material i)

/-- The sidecar each starts. -/
def buildName (i : Bool) : Str := sidecarName (sampleBytes i 8).toList

/-- What happens up to the build of the image. -/
def untilBuild (i : Bool) : List Effect :=
  [⟨.materialDigest, (), .ok (buildFiles.digest (buildFiles.material i))⟩, ⟨.imageInspect,
      inspectCommand "docker".toList (buildTag i), .ok { exitSuccess with code := some 1 }⟩,
    ⟨.entropy 8, (), .ok (sampleBytes i 8)⟩, ⟨.contextCreate, buildPath i, .ok ()⟩,
    ⟨.contextWrite, buildPath i, .ok ()⟩]

/-- And from there to the sidecar. -/
def untilRun (i : Bool) : List Effect :=
  [⟨.imageBuild, buildCommand "docker".toList (buildTag i) (buildPath i),
      .ok { status := exitSuccess, stdout := [], stderr := [] }⟩,
    ⟨.contextRemove, buildPath i, ()⟩, ⟨.entropy 8, (), .ok (sampleBytes i 8)⟩,
    ⟨.sidecarRun, sidecarCommand "docker".toList (buildTag i) sampleContext.containerName
      (buildName i), .ok ()⟩]

/-- An empty machine. -/
def buildMachine : Machine Bool Bool where
  directory _ := none
  image _ _ := none
  client _ := none
  container _ _ := none

theorem fresh_buildMachine : buildMachine.Fresh buildFiles where
  directory _ _ h := by cases h
  image _ _ _ h := by cases h
  client _ := rfl
  container _ _ := rfl

/-- What each of them is going to do. -/
theorem stage_buildAnswers (i : Bool) : ∃ before after last r,
    Fleet.Stage (.start (fun _ => execute sampleWorld sampleInvocation) buildMachine) i []
        (before ++ (untilBuild i ++ (untilRun i ++ (after ++
          ⟨.sidecarRemove, removeCommand "docker".toList (buildName i), ()⟩ :: last)))) r ∧
      (∀ e ∈ before, e.kind.shared = false) ∧ ∀ e ∈ after, e.kind.shared = false := by
  have hstage : Fleet.Stage (.start (fun _ => execute sampleWorld sampleInvocation) buildMachine)
      i [] (exec (buildAnswers i) 0 (execute sampleWorld sampleInvocation)).1 _ :=
    Fleet.stage_start (runs_exec (buildAnswers i) 0 (execute sampleWorld sampleInvocation))
  have htrace : ∃ before after last,
      (exec (buildAnswers i) 0 (execute sampleWorld sampleInvocation)).1 = before ++
        (untilBuild i ++ (untilRun i ++ (after ++
          ⟨.sidecarRemove, removeCommand "docker".toList (buildName i), ()⟩ :: last))) ∧
      (∀ e ∈ before, e.kind.shared = false) ∧ ∀ e ∈ after, e.kind.shared = false := by
    rw [execute_sample]
    cases i
    all_goals
      refine ⟨[⟨.acquire, _, _⟩, ⟨.projectList, _, _⟩, ⟨.secretList, _, _⟩,
        ⟨.entropy 32, (), _⟩, ⟨.material, (), _⟩], [⟨.transferWrite, _, _⟩,
        ⟨.newlineWrite, (), _⟩, ⟨.stdinClose, (), ()⟩, ⟨.readinessRead, (), _⟩,
        ⟨.signalsRegister, (), _⟩, ⟨.targetSpawn, _, _⟩, ⟨.targetWait, (), _⟩,
        ⟨.relayClose, (), ()⟩], [⟨.sidecarWait, (), ()⟩], rfl, ?_, ?_⟩
      · simp [Call.shared]
      · simp [Call.shared]
  obtain ⟨before, after, last, htrace, hbefore, hafter⟩ := htrace
  rw [htrace] at hstage
  exact ⟨before, after, last, _, hstage, hbefore, hafter⟩

section

variable {m : Machine Bool Bool} {i : Bool} {tr rest : List Effect} {r : Except Failure Exit}
  {c₀ : Snapshot Call.Arg Call.Ans Failure Exit (Machine Bool Bool)}

/-- An invocation comes to build its image as long as nobody has its directory. -/
theorem reaches_build (hfree : m.directory (buildPath i) = none)
    (h : (machine buildFiles i).Reaches c₀ tr m (untilBuild i ++ rest) r) :
    (machine buildFiles i).Reaches c₀ (tr ++ untilBuild i) { m with
      directory := Function.update m.directory (buildPath i) (some ⟨some i, i⟩) } rest r := by
  -- the digest, and the image that is not there
  have h1 := h.answer (.digests fun d hd => (Except.ok.inj hd).symm)
  have h2 := h1.answer (.inspects fun status hs hsuccess => by
    obtain rfl := Except.ok.inj hs
    cases hsuccess)
  -- the directory, with the files in it
  have h3 := h2.answer (.apart rfl)
  have h4 := h3.answer (.creates hfree i)
  have h5 := h4.answer (.writes (d := ⟨some i, i⟩) (by simp) i fun _ => rfl)
  simpa [untilBuild] using h5

/-- And from there to a container of its own, as long as nobody has its name. -/
theorem reaches_container (hd : m.directory (buildPath i) = some ⟨some i, i⟩)
    (hfree : m.container "docker".toList (buildName i) = none)
    (h : (machine buildFiles i).Reaches c₀ tr m (untilRun i ++ rest) r) :
    ∃ m', (machine buildFiles i).Reaches c₀ (tr ++ untilRun i) m' rest r ∧
      m'.directory = Function.update m.directory (buildPath i) none ∧
      m'.container = setEntry m.container "docker".toList (buildName i) (some ⟨i, i⟩) := by
  have h1 := h.answer (.builds rfl rfl hd)
  have h2 := h1.answer (.removes none fun _ hd => by cases hd)
  have h3 := h2.answer (.apart rfl)
  obtain ⟨q, hq, hrun⟩ := h3.answer .runs
  -- the client is there, and so is the image, and the name is free
  let command :=
    sidecarCommand "docker".toList (buildTag i) sampleContext.containerName (buildName i)
  let started : Machine Bool Bool := { m with
    directory := Function.update m.directory (buildPath i) none
    image := setEntry m.image "docker".toList (buildTag i) (some i)
    client := Function.update m.client i (some command) }
  have hclient : started.client i = some command := by simp [started]
  have himage : started.image "docker".toList (buildTag i) = some i := by
    simp [started]
  have hstarts : started.Moves _ :=
    .starts hclient (argAfter_sidecarCommand _ _ _ _) rfl himage hfree
  have hreach := hq.tail ⟨.move (), .move hstarts, trivial⟩
  simp only [List.append_assoc] at hreach
  exact ⟨_, ⟨q, hreach, hrun⟩, rfl, rfl⟩

end

/-- What two invocations come to on the empty machine. -/
def Together : Invocations Bool Bool → Prop :=
  Fleet.Course (machine buildFiles)
    (.start (fun _ => execute sampleWorld sampleInvocation) buildMachine)

/-- **Two invocations take turns**: both come to build their images, and then, one after the
other, to remove their sidecars. -/
theorem course_buildAnswers : ∃ f f' : Invocations Bool Bool,
    Together f ∧
      (∀ i, (f.process i).waiting =
        some ⟨.imageBuild, buildCommand "docker".toList (buildTag i) (buildPath i)⟩ ∧
          f.shared.directory (buildPath i) = some ⟨some i, i⟩) ∧
      Together f' ∧
      ∀ i, (f'.process i).waiting =
        some ⟨.sidecarRemove, removeCommand "docker".toList (buildName i)⟩ ∧
          f'.shared.container "docker".toList (buildName i) = some ⟨i, i⟩ := by
  have hpath : buildPath false ≠ buildPath true := by decide
  have hname : buildName false ≠ buildName true := by decide
  obtain ⟨b₀, a₀, l₀, r₀, hs₀, hb₀, ha₀⟩ := stage_buildAnswers false
  obtain ⟨b₁, a₁, l₁, r₁, hs₁, hb₁, ha₁⟩ := stage_buildAnswers true
  -- one invocation comes to its build, and then the other
  obtain ⟨f₁, hf₁, hm₁, hs₀, hother⟩ := Fleet.Course.advance .refl
    (reaches_build rfl (hs₀.reaches.answers fun e he => .apart (hb₀ e he)))
  replace hs₁ := hs₁.rests (hother true (by decide))
  have hfree : f₁.shared.directory (buildPath true) = none := by
    simp [hm₁, hpath.symm, Fleet.start, buildMachine]
  obtain ⟨f₂, hf₂, hm₂, hs₁, hother⟩ := hf₁.advance
    (reaches_build hfree (hs₁.reaches.answers fun e he => .apart (hb₁ e he)))
  replace hs₀ := hs₀.rests (hother false (by decide))
  have hbuild : ∀ i, (f₂.process i).waiting =
      some ⟨.imageBuild, buildCommand "docker".toList (buildTag i) (buildPath i)⟩ := by
    rintro (_ | _)
    exacts [hs₀.waiting, hs₁.waiting]
  have hdirectory : ∀ i, f₂.shared.directory (buildPath i) = some ⟨some i, i⟩ := by
    rw [hm₂, hm₁]
    rintro (_ | _)
    · simp [hpath]
    · simp
  have hcontainer : f₂.shared.container = buildMachine.container := by
    rw [hm₂, hm₁]
    rfl
  -- the second starts its sidecar while the first still has to build
  obtain ⟨m₃, hreach, hd₃, hc₃⟩ := reaches_container (hdirectory true)
    (by rw [hcontainer]; rfl) hs₁.reaches
  obtain ⟨f₃, hf₃, rfl, hs₁, hother⟩ := hf₂.advance
    (hreach.answers fun e he => .apart (ha₁ e he))
  replace hs₀ := hs₀.rests (hother false (by decide))
  obtain ⟨m₄, hreach, -, hc₄⟩ := reaches_container
    (by rw [hd₃, Function.update_of_ne hpath]; exact hdirectory false)
    (by rw [hc₃, setEntry_of_ne hname, hcontainer]; rfl) hs₀.reaches
  obtain ⟨f₄, hf₄, rfl, hs₀, hother⟩ := hf₃.advance
    (hreach.answers fun e he => .apart (ha₀ e he))
  replace hs₁ := hs₁.rests (hother true (by decide))
  have hboth : ∀ i, f₄.shared.container "docker".toList (buildName i) = some ⟨i, i⟩ := by
    rw [hc₄, hc₃]
    rintro (_ | _)
    · exact setEntry_self
    · rw [setEntry_of_ne hname.symm, setEntry_self]
  refine ⟨f₂, f₄, hf₂, fun i => ⟨hbuild i, hdirectory i⟩, hf₄, fun i => ⟨?_, hboth i⟩⟩
  cases i
  exacts [hs₀.waiting, hs₁.waiting]

/-- Both are about to build, and each builds its own files. -/
theorem directories_are_exclusive_sample : ∃ f, Together f ∧ ∀ i, ∃ d,
    f.shared.directory (buildPath i) = some d ∧ d.owner = some i ∧
      d.content = buildFiles.material i := by
  obtain ⟨f, -, hf, hbuild, -⟩ := course_buildAnswers
  refine ⟨f, hf, fun i => ?_⟩
  obtain ⟨d, hd, ho, hc⟩ := directories_are_exclusive fresh_buildMachine hf (hbuild i).1 rfl
  exact ⟨d, hd, ho, hc rfl⟩

/-- Both have their sidecars, and each runs its own files. -/
theorem images_agree_sample : ∃ f, Together f ∧ ∀ i, ∃ x,
    f.shared.container "docker".toList (buildName i) = some x ∧ x.owner = i ∧
      buildFiles.tag x.content = buildFiles.tag (buildFiles.material i) ∧
      x.content = buildFiles.material i := by
  obtain ⟨-, f, -, -, hf, hremove⟩ := course_buildAnswers
  refine ⟨f, hf, fun i => ?_⟩
  obtain ⟨-, htag, hcontent⟩ := images_agree fresh_buildMachine hf (hremove i).2
  refine ⟨_, (hremove i).2, rfl, htag, hcontent ?_⟩
  cases i <;> decide

/-- Both are about to remove a sidecar, and the name each removes is one that only it drew. -/
theorem removes_what_it_drew_sample : ∃ f, Together f ∧ ∀ i, ∃ bytes x,
    (f.process i).waiting =
        some ⟨.sidecarRemove, removeCommand "docker".toList (sidecarName bytes.toList)⟩ ∧
      ⟨.entropy 8, (), .ok bytes⟩ ∈ f.trace i ∧
      f.shared.container "docker".toList (buildName !i) = some x ∧ x.owner = !i ∧
      sidecarName bytes.toList ≠ buildName !i := by
  obtain ⟨-, f, -, -, hf, hremove⟩ := course_buildAnswers
  refine ⟨f, hf, fun i => ?_⟩
  obtain ⟨bytes, hname, hmem, -⟩ :=
    removes_what_it_drew fresh_buildMachine hf (hremove i).1 rfl (hremove i).2
  refine ⟨bytes, _, hname ▸ (hremove i).1, hmem, (hremove !i).2, rfl, hname ▸ ?_⟩
  cases i <;> decide

end Iwaya
