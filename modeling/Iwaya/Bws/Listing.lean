import Mathlib.Data.List.Find
import Iwaya.Bws

/-!
# What resolution computes

One provider is asked three questions, and once the answers are fixed nothing is left to
chance: `Iwaya.Backend` is the token command's answer with the two listings, and
`Iwaya.Backend.outcome` what resolution makes of them, with no call in it.
`Iwaya.outcome_of_runs` says that every run answered by a backend ends so.

The map is described by its lookups: a name has a value when it was asked for and listed,
and of several the last one listed.
-/

namespace Iwaya

open Text Checks Effects

/-! ### The map -/

variable {names : List SecretName} {secrets : List BwsSecret} {name : SecretName}

/-- The entry that stands for a name: the last one listed. -/
def lastListed (secrets : List BwsSecret) (name : SecretName) : Option Str :=
  ((secrets.filter fun s => s.key == name).getLast?).map BwsSecret.value

theorem lastListed_isSome : (lastListed secrets name).isSome ↔ ∃ s ∈ secrets, s.key = name := by
  rw [lastListed, Option.isSome_map, ← Option.ne_none_iff_isSome, ne_eq,
    List.getLast?_eq_none_iff, List.filter_eq_nil_iff]
  simp

/-- What is found under a name was listed under it. -/
theorem mem_of_lastListed {value : Str} (h : lastListed secrets name = some value) :
    ⟨name, value⟩ ∈ secrets := by
  obtain ⟨s, hs, rfl⟩ := Option.map_eq_some_iff.mp h
  obtain ⟨hm, hk⟩ := List.mem_filter.mp (List.mem_of_getLast? hs)
  rw [← eq_of_beq hk]
  exact hm

/-- **The lookups of the map.** -/
theorem lookup_keepRequested : (keepRequested names secrets).lookup name =
    if name ∈ names then lastListed secrets name else none := by
  have hfold : ∀ (l : List BwsSecret) (values : Resolved),
      (l.foldl (fun values s => values.insert s.key s.value) values).lookup name =
        ((lastListed l name).or (values.lookup name)) := by
    intro l
    -- the entry at hand is in force unless the name comes again further on
    induction l with
    | nil => simp [lastListed]
    | cons s l ih =>
      intro values
      rw [List.foldl_cons, ih]
      by_cases hk : s.key = name
      · rw [← hk, AList.lookup_insert, lastListed, lastListed, List.filter_cons_of_pos (by simp)]
        rcases l.filter fun t => t.key == s.key with _ | ⟨t, ts⟩ <;> simp [List.getLast?_cons]
      · rw [AList.lookup_insert_ne (Ne.symm hk), lastListed, lastListed,
          List.filter_cons_of_neg (by simpa using hk)]
  rw [keepRequested, hfold]
  by_cases hn : name ∈ names
  · have hfil : (secrets.filter fun s => names.any (· == s.key)).filter (fun s => s.key == name) =
        secrets.filter fun s => s.key == name := by
      rw [List.filter_filter]
      refine List.filter_congr fun s _ => ?_
      by_cases hk : s.key = name
      · simpa [hk] using hn
      · simp [hk]
    rw [if_pos hn, lastListed, hfil]
    simp [lastListed]
  · have hfil : (secrets.filter fun s => names.any (· == s.key)).filter
        (fun s => s.key == name) = [] := by
      rw [List.filter_filter, List.filter_eq_nil_iff]
      intro s _ hs
      simp only [Bool.and_eq_true, beq_iff_eq, List.any_eq_true] at hs
      obtain ⟨rfl, n, hm, rfl⟩ := hs
      exact hn hm
    rw [if_neg hn, lastListed, hfil]
    simp

/-- The keys of the map: what was asked for and is listed. -/
theorem mem_keepRequested :
    name ∈ keepRequested names secrets ↔ name ∈ names ∧ ∃ s ∈ secrets, s.key = name := by
  rw [← AList.lookup_isSome, lookup_keepRequested]
  by_cases hn : name ∈ names
  · rw [if_pos hn, lastListed_isSome]
    simp [hn]
  · simp [hn]

/-- What resolution makes of the listing of one project. -/
def fromListing (provider : BwsProvider) (names : List SecretName) (secrets : List BwsSecret) :
    Except ResolveError Resolved := do
  let values := keepRequested names secrets
  checkComplete provider names values
  return values

/-- The first of the names that is not listed. -/
def firstMissing (names : List SecretName) (secrets : List BwsSecret) : Option SecretName :=
  names.find? fun name => (lastListed secrets name).isNone

/-- **The names are all listed, or the first that is not is reported.** -/
theorem fromListing_eq (provider : BwsProvider) (names : List SecretName)
    (secrets : List BwsSecret) : fromListing provider names secrets =
      match firstMissing names secrets with
      | some name => .error (.unknownSecret provider.id provider.project name)
      | none => .ok (keepRequested names secrets) := by
  have hfind : (names.find? fun name => decide (name ∉ keepRequested names secrets)) =
      firstMissing names secrets := by
    refine List.find?_congr fun name hn => ?_
    rw [Bool.eq_iff_iff, decide_eq_true_iff, mem_keepRequested, ← lastListed_isSome,
      Option.isNone_iff_eq_none, ← Option.not_isSome_iff_eq_none, and_iff_right hn]
  rw [fromListing, checkComplete, forAll_refuse, hfind]
  cases firstMissing names secrets <;> rfl

/-! ### A provider's answers -/

/-- What the token command answers, and what the two listings list. -/
structure Backend where
  acquisition : Except IoError Output
  projects : List BwsProject
  secrets : Str → List BwsSecret

/-- The listing of a project's secrets is asked for by the project's identifier. -/
def secretListCommand (token projectId : Str) : Command :=
  bwsCommand token ["secret".toList, "list".toList, projectId]

/-- **A call answered by a backend**: both listings succeed and are read. -/
def Backend.Answers (json : BwsJson) (backend : Backend) : Effect → Prop
  | ⟨.acquire, _, ans⟩ => ans = backend.acquisition
  | ⟨.projectList, _, ans⟩ => ∃ output, ans = .ok output ∧ output.status.success = true ∧
      json.projects output.stdout = .ok backend.projects
  | ⟨.secretList, command, ans⟩ => ∃ output, ans = .ok output ∧ output.status.success = true ∧
      ∀ token projectId, command = secretListCommand token projectId →
        json.secrets output.stdout = .ok (backend.secrets projectId)
  | _ => True

/-- Starting a command with a NUL byte in it fails. -/
def startable {ε : Type} (command : Command) (error : IoError → ε) : Except ε Unit :=
  refuse (command.sawNul = true) (error nulError)

namespace Backend

variable (backend : Backend) (provider : BwsProvider) (names : List SecretName)

/-- The token. -/
def token : Except ResolveError Str := do
  let error := ResolveError.acquisitionStart provider.id provider.accessToken.program
  startable (acquisitionCommand provider) error
  let output ← backend.acquisition.mapError error
  tokenOf provider output

/-- What comes of the project chosen. -/
def fate (token : Str) (project : BwsProject) : Except ResolveError Resolved := do
  startable (secretListCommand token project.id) (.cliStart provider.id)
  fromListing provider names (backend.secrets project.id)

/-- **What resolution makes of a backend.** -/
def outcome : Except ResolveError Resolved := do
  let token ← backend.token provider
  startable (bwsCommand token ["project".toList, "list".toList]) (.cliStart provider.id)
  let project ← chooseProject provider backend.projects
  backend.fate provider names token project

end Backend

/-! ### The three calls -/

section

variable {json : BwsJson} {provider : BwsProvider} {tr : List Effect}

/-- A command that is started and read: it is not started at all, or it is one call. -/
theorem spawning_cases {ε α β : Type} {command : Command} {start : Step ε (Except IoError α)}
    {error : IoError → ε} {read : α → Except ε β} {event : Except IoError α → Effect}
    (hstart : ∀ t s, Runs start t s → ∃ ans, t = [event ans] ∧ s = .ok ans) {r : Except ε β}
    (h : Runs ((spawning command start).bind fun ans =>
      (attempt error ans).bind fun a => Prog.ofExcept (read a)) tr r) :
    (startable command error = .error (error nulError) ∧ tr = [] ∧
        r = .error (error nulError)) ∨
      (startable command error = .ok () ∧ ∃ ans, tr = [event ans] ∧
        r = (ans.mapError error >>= read)) := by
  rw [startable]
  rcases runs_spawning_bind_iff.mp h with ⟨hnul, h⟩ | ⟨hnul, h⟩
  · refine Or.inl ⟨by rw [refuse, if_pos hnul], ?_⟩
    rcases runs_attempt_bind_iff.mp h with ⟨e, he, rfl, rfl⟩ | ⟨a, ha, -⟩
    · cases he
      exact ⟨rfl, rfl⟩
    · cases ha
  · refine Or.inr ⟨by rw [refuse, if_neg (Bool.eq_false_iff.mp hnul)], ?_⟩
    rcases runs_bind_iff.mp h with ⟨e, -, hs⟩ | ⟨ans, t₁, t₂, rfl, hs, hrest⟩
    · obtain ⟨ans, -, he⟩ := hstart _ _ hs
      cases he
    · obtain ⟨ans', rfl, he⟩ := hstart _ _ hs
      obtain rfl := Except.ok.inj he
      refine ⟨ans, ?_⟩
      rcases runs_attempt_bind_iff.mp hrest with ⟨e, rfl, rfl, rfl⟩ | ⟨a, rfl, hread⟩
      · exact ⟨rfl, rfl⟩
      · obtain ⟨rfl, rfl⟩ := runs_ofExcept_iff.mp hread
        exact ⟨rfl, rfl⟩

theorem acquire_cases {r : Except ResolveError Str} (h : Runs (acquireAccessToken provider) tr r) :
    let error := ResolveError.acquisitionStart provider.id provider.accessToken.program
    (startable (acquisitionCommand provider) error = .error (error nulError) ∧ tr = [] ∧
        r = .error (error nulError)) ∨
      (startable (acquisitionCommand provider) error = .ok () ∧
        ∃ ans, tr = [⟨.acquire, acquisitionCommand provider, ans⟩] ∧
          r = (ans.mapError error >>= tokenOf provider)) :=
  spawning_cases (fun _ _ hs => runs_perform_iff.mp hs) h

theorem listProjects_cases {token : Str} {r : Except ResolveError (List BwsProject)}
    (h : Runs (listProjects json provider token) tr r) :
    let command := bwsCommand token ["project".toList, "list".toList]
    let error := ResolveError.cliStart provider.id
    (startable command error = .error (error nulError) ∧ tr = [] ∧
        r = .error (error nulError)) ∨
      (startable command error = .ok () ∧ ∃ ans, tr = [⟨.projectList, command, ans⟩] ∧
        r = (ans.mapError error >>=
          bwsOutput json.projects provider "list projects".toList)) :=
  spawning_cases (fun _ _ hs => runs_perform_iff.mp hs) h

theorem listSecrets_cases {token projectId : Str} {r : Except ResolveError (List BwsSecret)}
    (h : Runs (listSecrets json provider token projectId) tr r) :
    let command := secretListCommand token projectId
    let error := ResolveError.cliStart provider.id
    (startable command error = .error (error nulError) ∧ tr = [] ∧
        r = .error (error nulError)) ∨
      (startable command error = .ok () ∧ ∃ ans, tr = [⟨.secretList, command, ans⟩] ∧
        r = (ans.mapError error >>=
          bwsOutput json.secrets provider "list secrets".toList)) :=
  spawning_cases (fun _ _ hs => runs_perform_iff.mp hs) h

/-- A listing that succeeds and is read. -/
theorem bwsOutput_of_read {α : Type} {fromSlice : List UInt8 → Except SerdeError (List α)}
    (provider : BwsProvider) (action : Str) {output : Output} {list : List α}
    (hok : output.status.success = true)
    (hread : fromSlice output.stdout = .ok list) :
    bwsOutput fromSlice provider action output = .ok list := by
  rw [bwsOutput, refuse, if_neg (by simp [hok]), hread]
  rfl

/-- What is left once the secrets are listed makes no call. -/
theorem runs_fromListing_iff {names : List SecretName} {secrets : List BwsSecret}
    {r : Except ResolveError Resolved} :
    Runs ((Prog.ofExcept (checkComplete provider names (keepRequested names secrets))).bind
      fun _ => .done (keepRequested names secrets)) tr r ↔
      tr = [] ∧ r = fromListing provider names secrets := by
  rw [fromListing]
  cases checkComplete provider names (keepRequested names secrets) with
  | error e => exact runs_fail_iff
  | ok u => exact runs_done_iff

/-- **Resolution, call by call**: it gives up before the secrets are listed, or it lists
those of the project chosen and makes of them what `fromListing` does. -/
theorem resolve_cases {names : List SecretName} {r : Except ResolveError Resolved}
    (h : Runs (resolve json provider names) tr r) :
    (∃ e, r = .error e ∧ Runs (acquireAccessToken provider) tr (.error e)) ∨
      ∃ token t₁ t, tr = t₁ ++ t ∧ Runs (acquireAccessToken provider) t₁ (.ok token) ∧
        ((∃ e, r = .error e ∧ Runs (listProjects json provider token) t (.error e)) ∨
          ∃ projects t₂ t₃, t = t₂ ++ t₃ ∧
            Runs (listProjects json provider token) t₂ (.ok projects) ∧
            ((∃ e, r = .error e ∧ t₃ = [] ∧ chooseProject provider projects = .error e) ∨
              ∃ project listed, chooseProject provider projects = .ok project ∧
                Runs (listSecrets json provider token project.id) t₃ listed ∧
                r = (listed >>= fromListing provider names))) := by
  rcases runs_bind_iff.mp h with ⟨e, rfl, ht⟩ | ⟨token, t₁, t, rfl, ht, h⟩
  · exact Or.inl ⟨e, rfl, ht⟩
  refine Or.inr ⟨token, t₁, t, rfl, ht, ?_⟩
  rcases runs_bind_iff.mp h with ⟨e, rfl, hl⟩ | ⟨projects, t₂, t₃, rfl, hl, h⟩
  · exact Or.inl ⟨e, rfl, hl⟩
  refine Or.inr ⟨projects, t₂, t₃, rfl, hl, ?_⟩
  rcases runs_ofExcept_bind_iff.mp h with ⟨e, hp, rfl, rfl⟩ | ⟨project, hp, h⟩
  · exact Or.inl ⟨e, rfl, rfl, hp⟩
  rcases runs_bind_iff.mp h with ⟨e, rfl, hs⟩ | ⟨secrets, t₄, t₅, rfl, hs, h⟩
  · exact Or.inr ⟨project, .error e, hp, hs, rfl⟩
  · obtain ⟨rfl, rfl⟩ := runs_fromListing_iff.mp h
    exact Or.inr ⟨project, .ok secrets, hp, by simpa using hs, rfl⟩

/-- **Everything succeeded and the project exists**: the token was read, the projects
were listed, and these are the secrets listed for the one of the configured name. -/
def Lists (json : BwsJson) (provider : BwsProvider) (tr : List Effect) (project : BwsProject)
    (secrets : List BwsSecret) : Prop :=
  ∃ acquired token listed projects output,
    tr = [⟨.acquire, acquisitionCommand provider, .ok acquired⟩,
      ⟨.projectList, bwsCommand token ["project".toList, "list".toList], .ok listed⟩,
      ⟨.secretList, secretListCommand token project.id, .ok output⟩] ∧
    tokenOf provider acquired = .ok token ∧
    listed.status.success = true ∧ json.projects listed.stdout = .ok projects ∧
    chooseProject provider projects = .ok project ∧
    output.status.success = true ∧ json.secrets output.stdout = .ok secrets

/-- A listing that was read succeeded. -/
theorem read_of_bwsOutput {α : Type} {fromSlice : List UInt8 → Except SerdeError (List α)}
    {action : Str} {output : Output} {list : List α}
    (h : bwsOutput fromSlice provider action output = .ok list) :
    output.status.success = true ∧ fromSlice output.stdout = .ok list := by
  obtain ⟨_, hs, hread⟩ := bind_eq_ok.mp h
  exact ⟨by simpa using refuse_eq_ok.mp hs, mapError_eq_ok.mp hread⟩

/-- **A resolution that succeeded listed.** -/
theorem lists_of_runs {names : List SecretName} {values : Resolved}
    (h : Runs (resolve json provider names) tr (.ok values)) :
    ∃ project secrets, Lists json provider tr project secrets := by
  rcases resolve_cases h with ⟨e, he, -⟩ | ⟨token, t₁, t, rfl, hacq, ⟨e, he, -⟩ |
    ⟨projects, t₂, t₃, rfl, hlist, ⟨e, he, -⟩ | ⟨project, listed, hp, hsec, hr⟩⟩⟩
  · cases he
  · cases he
  · cases he
  obtain ⟨secrets, rfl, -⟩ := bind_eq_ok.mp hr.symm
  rcases acquire_cases hacq with ⟨-, -, he⟩ | ⟨-, ans, rfl, ha⟩
  · cases he
  rcases listProjects_cases hlist with ⟨-, -, he⟩ | ⟨-, ans', rfl, hl⟩
  · cases he
  rcases listSecrets_cases hsec with ⟨-, -, he⟩ | ⟨-, ans'', rfl, hs⟩
  · cases he
  obtain ⟨acquired, hacquired, htoken⟩ := bind_eq_ok.mp ha.symm
  obtain ⟨output, houtput, hread⟩ := bind_eq_ok.mp hl.symm
  obtain ⟨output', houtput', hread'⟩ := bind_eq_ok.mp hs.symm
  obtain rfl := mapError_eq_ok.mp hacquired
  obtain rfl := mapError_eq_ok.mp houtput
  obtain rfl := mapError_eq_ok.mp houtput'
  obtain ⟨hok, hread⟩ := read_of_bwsOutput hread
  obtain ⟨hok', hread'⟩ := read_of_bwsOutput hread'
  exact ⟨project, secrets, acquired, token, output, projects, output', rfl, htoken, hok, hread, hp,
    hok', hread'⟩

/-- **A resolution that listed makes of the listing what `fromListing` does.** -/
theorem fromListing_of_lists {names : List SecretName} {r : Except ResolveError Resolved}
    {project : BwsProject} {secrets : List BwsSecret}
    (h : Runs (resolve json provider names) tr r) (hl : Lists json provider tr project secrets) :
    r = fromListing provider names secrets := by
  obtain ⟨acquired, token, listed, projects, output, rfl, htoken, hok, hread, hp, hok', hread'⟩ :=
    hl
  rcases resolve_cases h with ⟨e, rfl, hacq⟩ | ⟨token', t₁, t, ht, hacq, h⟩
  · rcases acquire_cases hacq with ⟨-, he, -⟩ | ⟨-, ans, he, -⟩
    · cases he
    · cases he
  rcases acquire_cases hacq with ⟨-, -, he⟩ | ⟨-, ans, rfl, ha⟩
  · cases he
  obtain ⟨he, rfl⟩ := List.cons.inj ht
  cases he
  obtain rfl : token = token' := Except.ok.inj (htoken.symm.trans ha.symm)
  rcases h with ⟨e, rfl, hlist⟩ | ⟨projects', t₂, t₃, ht, hlist, h⟩
  · rcases listProjects_cases hlist with ⟨-, he, -⟩ | ⟨-, ans', he, -⟩
    · cases he
    · cases he
  rcases listProjects_cases hlist with ⟨-, -, he⟩ | ⟨-, ans', rfl, hl⟩
  · cases he
  obtain ⟨he, rfl⟩ := List.cons.inj ht
  cases he
  have hprojects := bwsOutput_of_read provider "list projects".toList hok hread
  obtain rfl : projects = projects' := Except.ok.inj (hprojects.symm.trans hl.symm)
  rcases h with ⟨e, rfl, he, -⟩ | ⟨project', listed', hp', hsec, rfl⟩
  · cases he
  obtain rfl : project = project' := Except.ok.inj (hp.symm.trans hp')
  rcases listSecrets_cases hsec with ⟨-, he, -⟩ | ⟨-, ans'', he, rfl⟩
  · cases he
  cases he
  have hsecrets := bwsOutput_of_read provider "list secrets".toList hok' hread'
  change (bwsOutput json.secrets provider "list secrets".toList output >>= _) = _
  rw [hsecrets]
  rfl

variable {backend : Backend}

theorem token_of_runs {r : Except ResolveError Str} (h : Runs (acquireAccessToken provider) tr r)
    (hans : ∀ e ∈ tr, backend.Answers json e) : r = backend.token provider := by
  rw [Backend.token]
  rcases acquire_cases h with ⟨hstart, -, rfl⟩ | ⟨hstart, ans, rfl, rfl⟩
  · rw [hstart]
    rfl
  · have hacq : ans = backend.acquisition := hans _ List.mem_cons_self
    rw [hstart, ← hacq]
    rfl

theorem projects_of_runs {token : Str} {r : Except ResolveError (List BwsProject)}
    (h : Runs (listProjects json provider token) tr r) (hans : ∀ e ∈ tr, backend.Answers json e) :
    r = (startable (bwsCommand token ["project".toList, "list".toList])
      (ResolveError.cliStart provider.id) >>= fun _ => .ok backend.projects) := by
  rcases listProjects_cases h with ⟨hstart, -, rfl⟩ | ⟨hstart, ans, rfl, rfl⟩
  · rw [hstart]
    rfl
  · obtain ⟨output, rfl, hok, hread⟩ := hans _ List.mem_cons_self
    rw [hstart]
    exact bwsOutput_of_read _ _ hok hread

theorem secrets_of_runs {token projectId : Str} {r : Except ResolveError (List BwsSecret)}
    (h : Runs (listSecrets json provider token projectId) tr r)
    (hans : ∀ e ∈ tr, backend.Answers json e) :
    r = (startable (secretListCommand token projectId) (ResolveError.cliStart provider.id) >>=
      fun _ => .ok (backend.secrets projectId)) := by
  rcases listSecrets_cases h with ⟨hstart, -, rfl⟩ | ⟨hstart, ans, rfl, rfl⟩
  · rw [hstart]
    rfl
  · obtain ⟨output, rfl, hok, hread⟩ := hans _ List.mem_cons_self
    rw [hstart]
    exact bwsOutput_of_read _ _ hok (hread token projectId rfl)

/-- **Every run a backend answers ends as the backend says.** -/
theorem outcome_of_runs {names : List SecretName} {r : Except ResolveError Resolved}
    (h : Runs (resolve json provider names) tr r) (hans : ∀ e ∈ tr, backend.Answers json e) :
    r = backend.outcome provider names := by
  rw [Backend.outcome]
  rcases resolve_cases h with ⟨e, rfl, hacq⟩ | ⟨token, t₁, t, rfl, hacq, h⟩
  · rw [← token_of_runs hacq hans]
    rfl
  obtain ⟨hans₁, hans⟩ := List.forall_mem_append.mp hans
  rw [← token_of_runs hacq hans₁]
  change r = (startable _ _ >>= fun _ => chooseProject provider backend.projects >>= _)
  rcases h with ⟨e, rfl, hlist⟩ | ⟨projects, t₂, t₃, rfl, hlist, h⟩
  · have hl := projects_of_runs hlist hans
    rcases hs : startable (bwsCommand token ["project".toList, "list".toList])
      (ResolveError.cliStart provider.id) with e' | u
    · rw [hs] at hl
      exact congrArg Except.error (Except.error.inj hl)
    · rw [hs] at hl
      cases hl
  obtain ⟨hans₂, hans⟩ := List.forall_mem_append.mp hans
  obtain ⟨u, hs, hl⟩ := bind_eq_ok.mp (projects_of_runs hlist hans₂).symm
  obtain rfl := Except.ok.inj hl
  rw [hs]
  change r = (chooseProject provider backend.projects >>= backend.fate provider names token)
  rcases h with ⟨e, rfl, -, hp⟩ | ⟨project, listed, hp, hsec, rfl⟩
  · rw [hp]
    rfl
  · rw [hp, secrets_of_runs hsec hans]
    change _ = backend.fate provider names token project
    rw [Backend.fate]
    cases startable (secretListCommand token project.id) (ResolveError.cliStart provider.id) <;> rfl

end

end Iwaya
