import Iwaya.Foundation.Json.Reader
import Iwaya.Bws.Listing

/-!
# The order of the listings

Names need not be unique in a backend, and the two listings are consumed in opposite
ways: of the projects of one name the first is taken, of the secrets of one name the
last. So the outcome depends on the order of the listings exactly when it depends on a
choice – between projects of the configured name, or between values under a requested
name. `Iwaya.Backend.Unambiguous` is the condition that it does not, with no order in it.
-/

namespace Iwaya

open Text Checks Effects

/-- The outcome as its user sees it: an error, or what is found under each name. -/
def readBack (r : Except ResolveError Resolved) : Except ResolveError (SecretName → Option Str) :=
  r.map fun values name => values.lookup name

namespace Backend

/-- **The same listings in another order.** -/
structure Reordered (backend backend' : Backend) : Prop where
  acquisition : backend'.acquisition = backend.acquisition
  projects : backend.projects.Perm backend'.projects
  secrets : ∀ projectId, (backend.secrets projectId).Perm (backend'.secrets projectId)

variable (backend : Backend) (provider : BwsProvider) (names : List SecretName) (token : Str)

/-- Why a project gives nothing, if it does not. -/
def obstacle (project : BwsProject) : Option ResolveError :=
  if (secretListCommand token project.id).sawNul then some (.cliStart provider.id nulError)
  else (firstMissing names (backend.secrets project.id)).map
    (.unknownSecret provider.id provider.project)

/-- **Nothing is left to a choice**: all projects of the configured name have the same
obstacle, or none, and then every requested name has one value in all of them. -/
def Unambiguous : Prop :=
  ∀ p ∈ backend.projects, ∀ p' ∈ backend.projects, p.name = provider.project →
    p'.name = provider.project →
    backend.obstacle provider names token p' = backend.obstacle provider names token p ∧
    (backend.obstacle provider names token p = none →
      ∀ s ∈ backend.secrets p.id, ∀ s' ∈ backend.secrets p'.id, s.key ∈ names → s'.key = s.key →
        s'.value = s.value)

end Backend

/-! ### What an order can change -/

variable {backend backend' : Backend} {provider : BwsProvider} {names : List SecretName}
  {token : Str}

theorem lastListed_isNone_perm {secrets secrets' : List BwsSecret} (h : secrets.Perm secrets')
    (name : SecretName) : (lastListed secrets' name).isNone = (lastListed secrets name).isNone := by
  have hsome : (lastListed secrets' name).isSome ↔ (lastListed secrets name).isSome := by
    rw [lastListed_isSome, lastListed_isSome]
    simp only [h.mem_iff]
  rw [← Option.not_isSome, ← Option.not_isSome, Bool.eq_iff_iff.mpr hsome]

theorem firstMissing_perm {secrets secrets' : List BwsSecret} (h : secrets.Perm secrets') :
    firstMissing names secrets' = firstMissing names secrets :=
  List.find?_congr fun name _ => lastListed_isNone_perm h name

theorem obstacle_reordered (h : backend.Reordered backend') (project : BwsProject) :
    backend'.obstacle provider names token project =
      backend.obstacle provider names token project := by
  rw [Backend.obstacle, Backend.obstacle, firstMissing_perm (h.secrets project.id)]

/-- What is read back of a project, by its obstacle. -/
theorem readBack_fate (project : BwsProject) :
    readBack (backend.fate provider names token project) =
      match backend.obstacle provider names token project with
      | some e => .error e
      | none => .ok fun name =>
        if name ∈ names then lastListed (backend.secrets project.id) name else none := by
  rw [Backend.fate, Backend.obstacle, startable, refuse, fromListing_eq]
  split_ifs
  · rfl
  · rcases firstMissing names (backend.secrets project.id) with _ | name
    · refine congrArg Except.ok ?_
      funext name
      exact lookup_keepRequested
    · rfl

/-- A project without an obstacle lists every name asked for. -/
theorem listed_of_obstacle {project : BwsProject}
    (h : backend.obstacle provider names token project = none) {name : SecretName}
    (hn : name ∈ names) :
    ∃ value, lastListed (backend.secrets project.id) name = some value := by
  rw [Backend.obstacle] at h
  split_ifs at h
  have hall := List.find?_eq_none.mp (Option.map_eq_none_iff.mp h) name hn
  exact Option.ne_none_iff_exists'.mp (by simpa using hall)

theorem chooseProject_mem {projects : List BwsProject} {project : BwsProject}
    (h : chooseProject provider projects = .ok project) :
    project ∈ projects ∧ project.name = provider.project := by
  unfold chooseProject at h
  split at h
  · next found hfind =>
    obtain rfl := Except.ok.inj h
    exact ⟨List.mem_of_find?_eq_some hfind, by simpa using List.find?_some hfind⟩
  · cases h

/-- Whether a project is found does not depend on the order. -/
theorem chooseProject_perm (provider : BwsProvider) {projects projects' : List BwsProject}
    (h : projects.Perm projects') :
    (∃ e, chooseProject provider projects = .error e ∧
        chooseProject provider projects' = .error e) ∨
      ∃ p p', chooseProject provider projects = .ok p ∧
        chooseProject provider projects' = .ok p' := by
  have hiff : (projects.find? fun p => p.name == provider.project) = none ↔
      (projects'.find? fun p => p.name == provider.project) = none := by
    simp only [List.find?_eq_none, h.mem_iff]
  rcases hp : projects.find? fun p => p.name == provider.project with _ | p
  · refine Or.inl ⟨.unknownProject provider.id provider.project, ?_, ?_⟩
    · rw [chooseProject, hp]
    · rw [chooseProject, hiff.mp hp]
  · rcases hp' : projects'.find? fun p => p.name == provider.project with _ | p'
    · rw [hiff.mpr hp'] at hp
      cases hp
    · refine Or.inr ⟨p, p', ?_, ?_⟩
      · rw [chooseProject, hp]
      · rw [chooseProject, hp']

/-- **Without ambiguity the order plays no part.** -/
theorem readBack_fate_eq (hu : backend.Unambiguous provider names token)
    (h : backend.Reordered backend') {p p' : BwsProject} (hp : p ∈ backend.projects)
    (hn : p.name = provider.project) (hp' : p' ∈ backend'.projects)
    (hn' : p'.name = provider.project) :
    readBack (backend'.fate provider names token p') =
      readBack (backend.fate provider names token p) := by
  obtain ⟨hobs, hagree⟩ := hu p hp p' (h.projects.mem_iff.mpr hp') hn hn'
  rw [readBack_fate, readBack_fate, obstacle_reordered h, hobs]
  rcases ho : backend.obstacle provider names token p with _ | e
  · refine congrArg Except.ok ?_
    funext name
    by_cases hname : name ∈ names
    · rw [if_pos hname, if_pos hname]
      obtain ⟨value, hv⟩ := listed_of_obstacle ho hname
      obtain ⟨value', hv'⟩ := listed_of_obstacle
        ((obstacle_reordered h p').trans (hobs.trans ho)) hname
      have hm' := (h.secrets p'.id).mem_iff.mpr (mem_of_lastListed hv')
      rw [hv, hv']
      exact congrArg some (hagree ho _ (mem_of_lastListed hv) _ hm' hname rfl)
    · rw [if_neg hname, if_neg hname]
  · rfl

/-- The outcome of a backend whose token is had. -/
theorem outcome_eq (ht : backend.token provider = .ok token)
    (hnul : (bwsCommand token ["project".toList, "list".toList]).sawNul = false) :
    backend.outcome provider names =
      (chooseProject provider backend.projects >>= backend.fate provider names token) := by
  have hstart : startable (bwsCommand token ["project".toList, "list".toList])
      (ResolveError.cliStart provider.id) = .ok () := by
    rw [startable, refuse, if_neg (Bool.eq_false_iff.mp hnul)]
  rw [Backend.outcome, ht]
  change (startable _ _ >>= fun _ => chooseProject provider backend.projects >>= _) = _
  rw [hstart]
  rfl

/-- The project chosen of a listing that begins with one of the configured name. -/
theorem chooseProject_cons {project : BwsProject} (h : project.name = provider.project)
    (projects : List BwsProject) : chooseProject provider (project :: projects) = .ok project := by
  have hfind : (project :: projects).find? (fun p => p.name == provider.project) = some project :=
    List.find?_cons_of_pos (by simp [h])
  rw [chooseProject, hfind]

/-- **Any project of the configured name can come first, and any of its entries
last.** -/
theorem exists_reordered (names : List SecretName) {p : BwsProject} (hp : p ∈ backend.projects)
    (hn : p.name = provider.project) (ht : backend.token provider = .ok token)
    (hnul : (bwsCommand token ["project".toList, "list".toList]).sawNul = false)
    {secrets : List BwsSecret} (hs : (backend.secrets p.id).Perm secrets) :
    ∃ backend', backend.Reordered backend' ∧ backend'.secrets p.id = secrets ∧
      backend'.outcome provider names = backend'.fate provider names token p := by
  obtain ⟨pre, post, hsplit⟩ := List.append_of_mem hp
  let backend' : Backend :=
    { backend with
      projects := p :: (pre ++ post)
      secrets := fun projectId => if projectId = p.id then secrets else backend.secrets projectId }
  refine ⟨backend', ⟨rfl, ?_, fun projectId => ?_⟩, if_pos rfl, ?_⟩
  · rw [hsplit]
    exact List.perm_middle
  · change (backend.secrets projectId).Perm (if projectId = p.id then _ else _)
    split_ifs with hid
    · rw [hid]
      exact hs
    · exact List.Perm.refl _
  · have ht' : backend'.token provider = .ok token := ht
    rw [outcome_eq ht' hnul, chooseProject_cons hn]
    rfl

/-- The value of the entry listed last. -/
theorem lastListed_concat (secrets : List BwsSecret) (s : BwsSecret) :
    lastListed (secrets ++ [s]) s.key = some s.value := by
  rw [lastListed, List.filter_append, List.filter_cons_of_pos (by simp), List.filter_nil,
    List.getLast?_concat]
  rfl

section Insensitive

/-! What an outcome that no order changes says of each project of the configured name. -/

variable (ht : backend.token provider = .ok token)
  (hnul : (bwsCommand token ["project".toList, "list".toList]).sawNul = false)
  (hall : ∀ backend', backend.Reordered backend' →
    readBack (backend'.outcome provider names) = readBack (backend.outcome provider names))
include ht hnul hall

/-- A project first, with its secrets in any order, comes out as the backend does. -/
theorem fate_of_insensitive {p : BwsProject} (hp : p ∈ backend.projects)
    (hn : p.name = provider.project) {secrets : List BwsSecret}
    (hs : (backend.secrets p.id).Perm secrets) :
    ∃ backend', backend.Reordered backend' ∧ backend'.secrets p.id = secrets ∧
      readBack (backend'.fate provider names token p) =
        readBack (backend.outcome provider names) := by
  obtain ⟨backend', hr, hsec, hout⟩ := exists_reordered names hp hn ht hnul hs
  exact ⟨backend', hr, hsec, by rw [← hout, hall backend' hr]⟩

/-- So all of them stop, or none, and with the same error. -/
theorem obstacle_of_insensitive {p p' : BwsProject} (hp : p ∈ backend.projects)
    (hp' : p' ∈ backend.projects) (hn : p.name = provider.project)
    (hn' : p'.name = provider.project) :
    backend.obstacle provider names token p' = backend.obstacle provider names token p := by
  have hfate : ∀ q ∈ backend.projects, q.name = provider.project →
      readBack (backend.fate provider names token q) =
        readBack (backend.outcome provider names) := by
    intro q hq hnq
    obtain ⟨backend', hr, hsec, hout⟩ :=
      fate_of_insensitive ht hnul hall hq hnq (List.Perm.refl _)
    rw [← hout, Backend.fate, Backend.fate, hsec]
  have hsame := (hfate p' hp' hn').trans (hfate p hp hn).symm
  rw [readBack_fate, readBack_fate] at hsame
  rcases h' : backend.obstacle provider names token p' with _ | e' <;>
    rcases h : backend.obstacle provider names token p with _ | e <;>
    simp only [h, h', reduceCtorEq, Except.error.injEq] at hsame ⊢
  exact congrArg some hsame

/-- An entry put last is what its name resolves to. -/
theorem value_of_insensitive {p : BwsProject} (hp : p ∈ backend.projects)
    (hn : p.name = provider.project) (ho : backend.obstacle provider names token p = none)
    {s : BwsSecret} (hs : s ∈ backend.secrets p.id) (hreq : s.key ∈ names) :
    ∃ f, readBack (backend.outcome provider names) = .ok f ∧ f s.key = some s.value := by
  obtain ⟨pre, post, hsplit⟩ := List.append_of_mem hs
  have hperm : (backend.secrets p.id).Perm (pre ++ post ++ [s]) := by
    rw [hsplit, List.append_assoc]
    exact List.Perm.append_left pre (List.perm_append_singleton s post).symm
  obtain ⟨backend', hr, hsec, hout⟩ := fate_of_insensitive ht hnul hall hp hn hperm
  rw [readBack_fate, obstacle_reordered hr, ho, hsec] at hout
  refine ⟨_, hout.symm, ?_⟩
  rw [if_pos hreq, lastListed_concat]

end Insensitive

/-- **The order plays no part exactly when there is no ambiguity.** -/
theorem outcome_reordered_iff (ht : backend.token provider = .ok token)
    (hnul : (bwsCommand token ["project".toList, "list".toList]).sawNul = false) :
    (∀ backend', backend.Reordered backend' →
        readBack (backend'.outcome provider names) = readBack (backend.outcome provider names)) ↔
      backend.Unambiguous provider names token := by
  constructor
  · intro hall p hp p' hp' hn hn'
    have hobs := obstacle_of_insensitive ht hnul hall hp hp' hn hn'
    refine ⟨hobs, fun ho s hs s' hs' hreq hkey => ?_⟩
    obtain ⟨f, hf, hfs⟩ := value_of_insensitive ht hnul hall hp hn ho hs hreq
    obtain ⟨f', hf', hfs'⟩ :=
      value_of_insensitive ht hnul hall hp' hn' (hobs.trans ho) hs' (hkey ▸ hreq)
    obtain rfl := Except.ok.inj (hf.symm.trans hf')
    rw [hkey, hfs] at hfs'
    exact (Option.some.inj hfs').symm
  · intro hu backend' hr
    have ht' : backend'.token provider = .ok token := by
      rw [← ht, Backend.token, Backend.token, hr.acquisition]
    rw [outcome_eq ht hnul, outcome_eq ht' hnul]
    rcases chooseProject_perm provider hr.projects with
      ⟨e, he, he'⟩ | ⟨p, p', hp, hp'⟩
    · rw [he, he']
      rfl
    · rw [hp, hp']
      obtain ⟨hm, hn⟩ := chooseProject_mem hp
      obtain ⟨hm', hn'⟩ := chooseProject_mem hp'
      exact readBack_fate_eq hu hr hm hn hm' hn'

/-! ### The runs -/

theorem Call.ans_nonempty (k : Call) : Nonempty k.Ans := by
  cases k with
  | acquire | projectList | secretList | imageBuild => exact ⟨.error []⟩
  | entropy n => exact ⟨.error []⟩
  | material | materialDigest => exact ⟨.error .unsupportedExecutable⟩
  | imageInspect | targetWait | contextCreate | contextWrite | sidecarRun => exact ⟨.error []⟩
  | transferWrite | newlineWrite | readinessRead | signalsRegister | targetSpawn =>
    exact ⟨.error []⟩
  | targetExec => exact ⟨none⟩
  | contextRemove | stdinClose | sidecarRemove | sidecarWait => exact ⟨()⟩
  | relayClose | targetKill | targetReap => exact ⟨()⟩

theorem secretListCommand_injective {token token' projectId projectId' : Str}
    (h : secretListCommand token projectId = secretListCommand token' projectId') :
    projectId = projectId' := by
  have hargs := congrArg Command.args h
  simpa [secretListCommand, bwsCommand] using hargs

section

variable {json : BwsJson} (hprojects : ∀ list, ∃ stdout, json.projects stdout = .ok list)
  (hsecrets : ∀ list, ∃ stdout, json.secrets stdout = .ok list)

include hprojects hsecrets

/-- Every backend can answer. -/
theorem exists_runs_answered (backend : Backend) (provider : BwsProvider)
    (names : List SecretName) : ∃ tr r, Runs (resolve json provider names) tr r ∧
      ∀ e ∈ tr, backend.Answers json e := by
  let succeeded : ExitStatus := { code := some 0, signal := none, display := [] }
  refine exists_runs (fun k x => ?_) _
  by_cases hacq : k = .acquire
  · subst hacq
    exact ⟨backend.acquisition, rfl⟩
  by_cases hlist : k = .projectList
  · subst hlist
    obtain ⟨stdout, hread⟩ := hprojects backend.projects
    exact ⟨.ok ⟨succeeded, stdout, []⟩, _, rfl, rfl, hread⟩
  by_cases hsecret : k = .secretList
  · subst hsecret
    by_cases hcommand : ∃ token projectId, x = secretListCommand token projectId
    · obtain ⟨token, projectId, rfl⟩ := hcommand
      obtain ⟨stdout, hread⟩ := hsecrets (backend.secrets projectId)
      refine ⟨.ok ⟨succeeded, stdout, []⟩, _, rfl, rfl, fun token' projectId' he => ?_⟩
      rw [← secretListCommand_injective he]
      exact hread
    · exact ⟨.ok ⟨succeeded, [], []⟩, _, rfl, rfl, fun token projectId he =>
        absurd ⟨token, projectId, he⟩ hcommand⟩
  · obtain ⟨ans⟩ := k.ans_nonempty
    refine ⟨ans, ?_⟩
    cases k <;> trivial

/-- **Listing order.** For a JSON library that reads some text as every listing: a
backend with its listings in any other order resolves to the same error or the same
map, in every run, exactly when, once there is a token to ask with, the projects of
the configured name and the entries of the requested names are unambiguous. -/
theorem resolve_reordered_iff (backend : Backend) (provider : BwsProvider)
    (names : List SecretName) :
    (∀ backend', backend.Reordered backend' → ∀ tr r tr' r',
        Runs (resolve json provider names) tr r → (∀ e ∈ tr, backend.Answers json e) →
        Runs (resolve json provider names) tr' r' → (∀ e ∈ tr', backend'.Answers json e) →
        readBack r' = readBack r) ↔
      ∀ token, backend.token provider = .ok token →
        (bwsCommand token ["project".toList, "list".toList]).sawNul = false →
        backend.Unambiguous provider names token := by
  constructor
  · intro hall token ht hnul
    refine (outcome_reordered_iff ht hnul).mp fun backend' hr => ?_
    obtain ⟨tr, r, h, hans⟩ := exists_runs_answered hprojects hsecrets backend provider names
    obtain ⟨tr', r', h', hans'⟩ := exists_runs_answered hprojects hsecrets backend' provider names
    rw [← outcome_of_runs h hans, ← outcome_of_runs h' hans']
    exact hall backend' hr tr r tr' r' h hans h' hans'
  · intro hu backend' hr tr r tr' r' h hans h' hans'
    rw [outcome_of_runs h hans, outcome_of_runs h' hans']
    have htoken : backend'.token provider = backend.token provider := by
      rw [Backend.token, Backend.token, hr.acquisition]
    rcases ht : backend.token provider with e | token
    · -- without a token nothing is listed
      rw [Backend.outcome, Backend.outcome, htoken, ht]
      rfl
    · by_cases hnul : (bwsCommand token ["project".toList, "list".toList]).sawNul = false
      · exact (outcome_reordered_iff ht hnul).mpr (hu token ht hnul) backend' hr
      · have hstart : startable (bwsCommand token ["project".toList, "list".toList])
            (ResolveError.cliStart provider.id) = .error (.cliStart provider.id nulError) := by
          rw [startable, refuse, if_pos (by simpa using hnul)]
        rw [Backend.outcome, Backend.outcome, htoken, ht]
        change readBack (startable _ _ >>= _) = readBack (startable _ _ >>= _)
        rw [hstart]
        rfl

end

/-! ### A reader of listings -/

def BwsProject.toJson (p : BwsProject) : Json.Value :=
  .obj [("id".toList, .str p.id), ("name".toList, .str p.name)]

def BwsSecret.toJson (s : BwsSecret) : Json.Value :=
  .obj [("key".toList, .str s.key), ("value".toList, .str s.value)]

/-- The texts of an object with these two members. -/
def twoTexts (first second : Str) : Json.Value → Option (Str × Str)
  | .obj [(k₁, .str a), (k₂, .str b)] => if k₁ = first ∧ k₂ = second then some (a, b) else none
  | _ => none

/-- An array read element by element. -/
def readListing {α : Type} (element : Json.Value → Option α) (stdout : List UInt8) :
    Except SerdeError (List α) :=
  match (fromUtf8 stdout).bind Json.parse with
  | some (.arr elements) =>
    match elements.mapM element with
    | some list => .ok list
    | none => .error { code := .shape "missing field".toList, line := 1, column := 1 }
  | _ => .error { code := .malformed "expected value".toList, line := 1, column := 1 }

theorem readListing_render {α : Type} {element : Json.Value → Option α} (toJson : α → Json.Value)
    (hread : ∀ a, element (toJson a) = some a) (hspelt : ∀ a, Json.Spelt (toJson a))
    (list : List α) :
    readListing element (utf8 (Json.render (.arr (list.map toJson)))) = .ok list := by
  have hall : Json.Spelt (.arr (list.map toJson)) := by
    have h : ∀ l : List α, Json.SpeltElements (l.map toJson) := by
      intro l
      induction l with
      | nil => simp [Json.SpeltElements]
      | cons a l ih => exact ⟨hspelt a, ih⟩
    exact h list
  have hparse := Json.parse_render_append hall (w := []) (by simp [Json.IsWs])
  rw [List.append_nil] at hparse
  have helements : ∀ l : List α, (l.map toJson).mapM element = some l := by
    intro l
    induction l with
    | nil => rfl
    | cons a l ih =>
      rw [List.map_cons, List.mapM_cons, hread, ih]
      rfl
  rw [readListing, fromUtf8_utf8, Option.bind_some, hparse]
  simp only [helements]

/-- A reader of both listings, their members in the order they are written. -/
def BwsJson.reference : BwsJson where
  projects := readListing fun v => (twoTexts "id".toList "name".toList v).map fun (id, name) =>
    { id, name }
  secrets := readListing fun v => (twoTexts "key".toList "value".toList v).map fun (key, value) =>
    { key, value }

theorem BwsJson.reference_projects (list : List BwsProject) :
    ∃ stdout, BwsJson.reference.projects stdout = .ok list :=
  ⟨_, readListing_render BwsProject.toJson (fun _ => rfl)
    (fun p => by simp [BwsProject.toJson, Json.Spelt, Json.SpeltMembers]) list⟩

theorem BwsJson.reference_secrets (list : List BwsSecret) :
    ∃ stdout, BwsJson.reference.secrets stdout = .ok list :=
  ⟨_, readListing_render BwsSecret.toJson (fun _ => rfl)
    (fun p => by simp [BwsSecret.toJson, Json.Spelt, Json.SpeltMembers]) list⟩

/-! ### Two listings -/

def listingProvider : BwsProvider where
  id := "bws".toList
  project := "iwaya".toList
  accessToken := { program := "pass".toList, args := [] }

/-- A backend with one project of the configured name, and these secrets in it. -/
def listingBackend (secrets : List BwsSecret) : Backend where
  acquisition := .ok
    { status := { code := some 0, signal := none, display := [] }
      stdout := utf8 "token\n".toList
      stderr := [] }
  projects := [{ id := "1".toList, name := "iwaya".toList },
    { id := "2".toList, name := "other".toList }]
  secrets _ := secrets

theorem token_listingBackend (secrets : List BwsSecret) :
    (listingBackend secrets).token listingProvider = .ok "token".toList := rfl

theorem reordered_listingBackend {secrets secrets' : List BwsSecret} (h : secrets.Perm secrets') :
    (listingBackend secrets).Reordered (listingBackend secrets') :=
  ⟨rfl, List.Perm.refl _, fun _ => h⟩

/-- One of its secrets is listed twice, and was not asked for. -/
def spareSecrets : List BwsSecret :=
  [{ key := "B".toList, value := "1".toList }, { key := "A".toList, value := "raw".toList },
    { key := "B".toList, value := "2".toList }]

theorem resolve_reordered_iff_spare : ∃ tr r tr' r',
    Runs (resolve BwsJson.reference listingProvider ["A".toList]) tr r ∧
    Runs (resolve BwsJson.reference listingProvider ["A".toList]) tr' r' ∧
    (∀ e ∈ tr, (listingBackend spareSecrets).Answers BwsJson.reference e) ∧
    (∀ e ∈ tr', (listingBackend spareSecrets.reverse).Answers BwsJson.reference e) ∧
    readBack r' = readBack r := by
  obtain ⟨tr, r, h, hans⟩ := exists_runs_answered BwsJson.reference_projects
    BwsJson.reference_secrets (listingBackend spareSecrets) listingProvider ["A".toList]
  obtain ⟨tr', r', h', hans'⟩ := exists_runs_answered BwsJson.reference_projects
    BwsJson.reference_secrets (listingBackend spareSecrets.reverse) listingProvider ["A".toList]
  refine ⟨tr, r, tr', r', h, h', hans, hans', (resolve_reordered_iff BwsJson.reference_projects
    BwsJson.reference_secrets (listingBackend spareSecrets) listingProvider ["A".toList]).mpr
    (fun token _ _ p hp p' hp' hn hn' => ?_) _
    (reordered_listingBackend (List.reverse_perm spareSecrets).symm) tr r tr' r' h hans h' hans'⟩
  have hone : ∀ q ∈ (listingBackend spareSecrets).projects, q.name = listingProvider.project →
      q = { id := "1".toList, name := "iwaya".toList } := by
    simp [listingBackend, listingProvider]
  rw [hone p hp hn, hone p' hp' hn']
  refine ⟨rfl, fun _ s hs s' hs' hreq hkey => ?_⟩
  have hvalue : ∀ t ∈ spareSecrets, t.key = "A".toList → t.value = "raw".toList := by decide
  have hs0 := List.mem_singleton.mp hreq
  rw [hvalue s hs hs0, hvalue s' hs' (hkey.trans hs0)]

/-- The same key twice, with two values. -/
def twinSecrets : List BwsSecret :=
  [{ key := "A".toList, value := "1".toList }, { key := "A".toList, value := "2".toList }]

/-- **With twins, the order decides.** -/
theorem resolve_twins : ∃ tr r tr' r',
    (listingBackend twinSecrets).Reordered (listingBackend twinSecrets.reverse) ∧
    Runs (resolve BwsJson.reference listingProvider ["A".toList]) tr r ∧
    (∀ e ∈ tr, (listingBackend twinSecrets).Answers BwsJson.reference e) ∧
    Runs (resolve BwsJson.reference listingProvider ["A".toList]) tr' r' ∧
    (∀ e ∈ tr', (listingBackend twinSecrets.reverse).Answers BwsJson.reference e) ∧
    readBack r' ≠ readBack r := by
  obtain ⟨tr, r, h, hans⟩ := exists_runs_answered BwsJson.reference_projects
    BwsJson.reference_secrets (listingBackend twinSecrets) listingProvider ["A".toList]
  obtain ⟨tr', r', h', hans'⟩ := exists_runs_answered BwsJson.reference_projects
    BwsJson.reference_secrets (listingBackend twinSecrets.reverse) listingProvider ["A".toList]
  refine ⟨tr, r, tr', r', reordered_listingBackend (List.reverse_perm twinSecrets).symm, h, hans,
    h', hans', ?_⟩
  have hout : ∀ secrets, firstMissing ["A".toList] secrets = none →
      readBack ((listingBackend secrets).outcome listingProvider ["A".toList]) =
        .ok fun name => if name ∈ ["A".toList] then lastListed secrets name else none := by
    intro secrets hm
    have hobs : (listingBackend secrets).obstacle listingProvider ["A".toList] "token".toList
        { id := "1".toList, name := "iwaya".toList } = none := by
      change Option.map _ (firstMissing ["A".toList] secrets) = none
      rw [hm]
      rfl
    have hchoose : chooseProject listingProvider (listingBackend secrets).projects =
        .ok { id := "1".toList, name := "iwaya".toList } :=
      chooseProject_cons rfl _
    rw [outcome_eq (token_listingBackend secrets) rfl, hchoose]
    have hfate : readBack ((listingBackend secrets).fate listingProvider ["A".toList]
        "token".toList { id := "1".toList, name := "iwaya".toList }) = _ := readBack_fate _
    rw [hobs] at hfate
    exact hfate
  rw [outcome_of_runs h hans, outcome_of_runs h' hans', hout _ (by decide), hout _ (by decide)]
  intro he
  have ha := congrFun (Except.ok.inj he) "A".toList
  exact absurd ha (by decide)

end Iwaya
