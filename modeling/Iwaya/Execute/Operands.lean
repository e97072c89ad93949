import Iwaya.Foundation.Rely
import Iwaya.Config.Operands
import Iwaya.Bws.Listing
import Iwaya.Execute.Resolution

/-!
# NUL bytes on command lines

No argv element can hold a NUL byte, so a command with one fails to start. Each flow from
the configuration into a command is followed here: an invocation whose configured elements
have no NUL byte fails over one only if it came from somewhere else – an argument of the
user, the directory for temporary files, or an answer of the outside
(`Iwaya.guarantees_execute`). The flow nothing checks on the way is that of the
acquisition (`Iwaya.nulReported_iff`).
-/

namespace Iwaya

open Text Effects

/-! ### Failures over a NUL byte -/

/-- A command for the token or a listing could not be started for a NUL byte in it. -/
def ResolveError.ForNul : ResolveError → Prop
  | .acquisitionStart _ _ source | .cliStart _ source => source = nulError
  | _ => False

def ProxyImageError.ForNul : ProxyImageError → Prop
  | .runtimeStart _ source => source = nulError
  | _ => False

def SidecarError.ForNul : SidecarError → Prop
  | .start _ source => source = nulError
  | _ => False

def ExecError.ForNul (e : ExecError) : Prop := e.source = nulError

/-- **Something could not be started for a NUL byte in its command.** -/
def Failure.ForNul : Failure → Prop
  | .resolution e => e.ForNul
  | .proxyImage e => e.ForNul
  | .sidecar e => e.ForNul
  | .execution e => e.ForNul
  | _ => False

/-- An answer brings a NUL byte in: the error itself, or a token, a project or a value with
one in it. -/
def Call.bringsNul (world : World) : (k : Call) → k.Ans → Prop
  | .acquire, ans => ans = .error nulError ∨ ∃ output, ans = .ok output ∧ 0 ∈ output.stdout
  | .projectList, ans => ans = .error nulError ∨ ∃ output projects, ans = .ok output ∧
      world.bwsJson.projects output.stdout = .ok projects ∧ ∃ p ∈ projects, nul ∈ p.id
  | .secretList, ans => ans = .error nulError ∨ ∃ output secrets, ans = .ok output ∧
      world.bwsJson.secrets output.stdout = .ok secrets ∧ ∃ s ∈ secrets, nul ∈ s.value
  | .imageInspect, ans | .targetWait, ans => ans = .error nulError
  | .imageBuild, ans => ans = .error nulError
  | .sidecarRun, ans | .signalsRegister, ans | .targetSpawn, ans => ans = .error nulError
  | .material, ans => ∃ e, ans = .error e ∧ e.ForNul
  | .materialDigest, ans => ∃ e, ans = .error e ∧ e.ForNul
  | .targetExec, ans => ans = some nulError
  | _, _ => False

/-- An answer with no NUL byte in it. -/
def Plain (world : World) (e : Effect) : Prop := ¬e.kind.bringsNul world e.ans

/-! ### Starting a command -/

theorem sawNul_eq_false {command : Command} : command.sawNul = false ↔
    nul ∉ command.program ∧ (∀ s ∈ command.args, nul ∉ s) ∧
      ∀ e ∈ command.env, nul ∉ e.1 ∧ nul ∉ e.2 := by
  simp [Command.sawNul, and_assoc]

/-- A command that sets no variable. -/
theorem sawNul_of_args {program : Str} {args : List Str} (hprogram : nul ∉ program)
    (hargs : ∀ s ∈ args, nul ∉ s) : Command.sawNul { program, args } = false :=
  sawNul_eq_false.mpr ⟨hprogram, hargs, fun e he => (by cases he)⟩

section

variable {ε α β ι : Type} {C : Effect → Prop} {P : α → Prop} {E : ε → Prop}

/-- A command without a NUL byte is started. -/
theorem guarantees_spawning_bind {command : Command} (h : command.sawNul = false)
    {start : Step ε (Except IoError β)} {f : Except IoError β → Step ε α}
    (hf : Guarantees C P E (start.bind f)) :
    Guarantees C P E ((spawning command start).bind f) := by
  rw [spawning, if_neg (by rw [h]; decide)]
  exact hf

/-- An answer that is gone on from. -/
theorem guarantees_attempt_bind {error : ι → ε} {answer : Except ι β} {f : β → Step ε α}
    (herror : ∀ e, answer = .error e → E (error e))
    (hf : ∀ b, answer = .ok b → Guarantees C P E (f b)) :
    Guarantees C P E ((attempt error answer).bind f) := by
  cases answer with
  | ok b => exact hf b rfl
  | error e => exact herror e rfl

theorem guarantees_attempt {error : ι → ε} {answer : Except ι α}
    (herror : ∀ e, answer = .error e → E (error e)) (hok : ∀ a, answer = .ok a → P a) :
    Guarantees C P E (attempt error answer) := by
  cases answer with
  | ok a => exact hok a rfl
  | error e => exact herror e rfl

end

/-! ### Resolution -/

section

variable {world : World} {provider : BwsProvider}

theorem zero_mem_of_fromUtf8 {bytes : List UInt8} {s : Str} (h : fromUtf8 bytes = some s)
    (hnul : nul ∈ s) : 0 ∈ bytes := by
  rw [← utf8_of_fromUtf8 h, utf8]
  exact List.mem_flatMap.mpr ⟨nul, hnul, by decide⟩

theorem mem_of_mem_stripOneTrailingLineEnding {s : Str} {c : Char}
    (h : c ∈ stripOneTrailingLineEnding s) : c ∈ s := by
  rw [stripOneTrailingLineEnding] at h
  rcases hcr : stripSuffix "\r\n".toList s with _ | t
  · rcases hn : stripSuffix "\n".toList s with _ | t
    · rwa [hcr, hn] at h
    · rw [hcr, hn] at h
      rw [stripSuffix_eq_some.mp hn]
      exact List.mem_append_left _ h
  · rw [hcr] at h
    rw [stripSuffix_eq_some.mp hcr]
    exact List.mem_append_left _ h

/-- A token has no NUL byte that was not in the output. -/
theorem nul_notMem_tokenOf {output : Output} {token : Str} (h : tokenOf provider output = .ok token)
    (hnul : nul ∈ token) : 0 ∈ output.stdout := by
  obtain ⟨_, -, h⟩ := Checks.bind_eq_ok.mp h
  rcases hs : fromUtf8 output.stdout with _ | stdout
  · rw [hs] at h
    cases h
  · rw [hs] at h
    obtain ⟨_, -, ht⟩ := Checks.bind_eq_ok.mp h
    obtain rfl := Except.ok.inj ht
    exact zero_mem_of_fromUtf8 hs (mem_of_mem_stripOneTrailingLineEnding hnul)

/-- A token that cannot be used is no failed start. -/
theorem not_forNul_tokenOf {output : Output} {e : ResolveError}
    (h : tokenOf provider output = .error e) : ¬e.ForNul := by
  rcases Checks.refuse_bind_eq_error.mp h with ⟨-, rfl⟩ | ⟨-, h⟩
  · exact not_false
  rcases hs : fromUtf8 output.stdout with _ | stdout
  · rw [hs] at h
    obtain rfl := Except.error.inj h
    exact not_false
  · rw [hs] at h
    rcases Checks.refuse_bind_eq_error.mp h with ⟨-, rfl⟩ | ⟨-, h⟩
    · exact not_false
    · cases h

/-- **The acquisition**, of a provider whose command has no NUL byte. -/
theorem guarantees_acquireAccessToken (h : ∀ s ∈ (Provider.bws provider).operands, nul ∉ s) :
    Guarantees (Plain world) (nul ∉ ·) (¬·.ForNul) (acquireAccessToken provider) := by
  obtain ⟨hprogram, hargs⟩ := List.forall_mem_cons.mp h
  have hcommand : (acquisitionCommand provider).sawNul = false := sawNul_of_args hprogram hargs
  refine guarantees_spawning_bind hcommand (guarantees_perform_bind fun ans hans =>
    guarantees_attempt_bind (fun e he hnul => ?_) fun output ho =>
      guarantees_ofExcept (fun token ht hnul => ?_) fun e he => ?_)
  · exact hans (Or.inl (by rw [he, hnul]))
  · exact hans (Or.inr ⟨output, ho, nul_notMem_tokenOf ht hnul⟩)
  · exact not_forNul_tokenOf he

section Listing

variable {α : Type} {start : Command → Step ResolveError (Except IoError Output)}
  {fromSlice : List UInt8 → Except SerdeError (List α)} {P : List α → Prop}

/-- A listing that cannot be used is no failed start. -/
theorem not_forNul_bwsOutput {action : Str} {output : Output} {e : ResolveError}
    (h : bwsOutput fromSlice provider action output = .error e) : ¬e.ForNul := by
  rcases Checks.refuse_bind_eq_error.mp h with ⟨-, rfl⟩ | ⟨-, h⟩
  · exact not_false
  rcases hs : fromSlice output.stdout with e' | l
  · rw [hs] at h
    obtain rfl := Except.error.inj h
    exact not_false
  · rw [hs] at h
    cases h

/-- A `bws` command with no NUL byte in its token and its arguments. -/
theorem guarantees_bwsJson
    (hstart : ∀ command, Guarantees (Plain world) (fun ans => ans ≠ .error nulError ∧
      ∀ output l, ans = .ok output → fromSlice output.stdout = .ok l → P l) (¬·.ForNul)
        (start command))
    {token : Str} (htoken : nul ∉ token) {args : List Str} (hargs : ∀ s ∈ args, nul ∉ s)
    (action : Str) :
    Guarantees (Plain world) P (¬·.ForNul)
      (bwsJson start fromSlice provider token args action) := by
  have hcommand : (bwsCommand token args).sawNul = false := by
    have hbws : nul ∉ "bws".toList := by decide
    refine sawNul_eq_false.mpr ⟨hbws, fun s hs => ?_, ?_⟩
    · rcases List.mem_append.mp hs with hs | hs
      · exact hargs s hs
      · have hfixed : ∀ s ∈ ["--output".toList, "json".toList], nul ∉ s := by decide
        exact hfixed s hs
    · have hname : nul ∉ "BWS_ACCESS_TOKEN".toList := by decide
      exact List.forall_mem_singleton.mpr ⟨hname, htoken⟩
  refine guarantees_spawning_bind hcommand ((hstart _).bind fun ans ⟨hne, hP⟩ =>
    guarantees_attempt_bind (fun e he hnul => ?_) fun output ho =>
      guarantees_ofExcept (fun l hl => ?_) fun e he => ?_)
  · exact hne (by rw [he, hnul])
  · obtain ⟨_, -, hl⟩ := Checks.bind_eq_ok.mp hl
    exact hP output l ho (Checks.mapError_eq_ok.mp hl)
  · exact not_forNul_bwsOutput he

end Listing

theorem guarantees_listProjects {token : Str} (htoken : nul ∉ token) :
    Guarantees (Plain world) (fun projects => ∀ p ∈ projects, nul ∉ p.id) (¬·.ForNul)
      (listProjects world.bwsJson provider token) := by
  refine guarantees_bwsJson (fun command => guarantees_perform_bind fun ans hans => ?_) htoken
    (by decide) _
  refine ⟨fun he => hans (Or.inl he), fun output projects ho hp p hm hnul => ?_⟩
  exact hans (Or.inr ⟨output, projects, ho, hp, p, hm, hnul⟩)

theorem guarantees_listSecrets {token projectId : Str} (htoken : nul ∉ token)
    (hproject : nul ∉ projectId) :
    Guarantees (Plain world) (fun secrets => ∀ s ∈ secrets, nul ∉ s.value) (¬·.ForNul)
      (listSecrets world.bwsJson provider token projectId) := by
  have hargs : ∀ s ∈ ["secret".toList, "list".toList, projectId], nul ∉ s := by
    have hsecret : nul ∉ "secret".toList := by decide
    have hlist : nul ∉ "list".toList := by decide
    exact List.forall_mem_cons.mpr ⟨hsecret, List.forall_mem_cons.mpr
      ⟨hlist, List.forall_mem_singleton.mpr hproject⟩⟩
  refine guarantees_bwsJson (fun command => guarantees_perform_bind fun ans hans => ?_) htoken
    hargs _
  refine ⟨fun he => hans (Or.inl he), fun output secrets ho hs s hm hnul => ?_⟩
  exact hans (Or.inr ⟨output, secrets, ho, hs, s, hm, hnul⟩)

/-- **Resolution** against a provider whose command has no NUL byte. -/
theorem guarantees_resolve (h : ∀ s ∈ (Provider.bws provider).operands, nul ∉ s)
    (names : List SecretName) :
    Guarantees (Plain world)
      (fun values => ∀ name value, values.lookup name = some value → nul ∉ value) (¬·.ForNul)
      (resolve world.bwsJson provider names) := by
  refine (guarantees_acquireAccessToken h).bind fun token htoken =>
    (guarantees_listProjects htoken).bind fun projects hprojects => ?_
  have hchoose : Guarantees (Plain world) (fun project => nul ∉ project.id) (¬·.ForNul)
      (Prog.ofExcept (chooseProject provider projects)) := by
    rw [chooseProject]
    split
    · next project hfind => exact hprojects project (List.mem_of_find?_eq_some hfind)
    · exact not_false
  refine hchoose.bind fun project hproject =>
    (guarantees_listSecrets htoken hproject).bind fun secrets hsecrets => ?_
  refine (guarantees_ofExcept (P := fun _ => True) (fun _ _ => trivial) fun e he => ?_).bind
    fun _ _ name value hv => ?_
  · rw [checkComplete, Checks.forAll_refuse] at he
    split at he
    · obtain rfl := Except.error.inj he
      exact not_false
    · cases he
  · rw [lookup_keepRequested] at hv
    split_ifs at hv
    exact hsecrets _ (mem_of_lastListed hv)

/-- What a fold of inserts finds is one of the values inserted, or was there before. -/
theorem forall_lookup_foldl_insert {P : Resolved → Prop} {l : List (ProviderId × Resolved)}
    (hl : ∀ a ∈ l, P a.2) {resolved : ResolvedAll}
    (h : ∀ id values, resolved.lookup id = some values → P values) {id : ProviderId}
    {values : Resolved}
    (hv : (l.foldl (fun resolved (id, v) => resolved.insert id v) resolved).lookup id =
      some values) : P values := by
  induction l generalizing resolved with
  | nil => exact h id values hv
  | cons a l ih =>
    obtain ⟨ha, hl⟩ := List.forall_mem_cons.mp hl
    refine ih hl (fun id' values' hv' => ?_) hv
    by_cases hid : id' = a.1
    · rw [hid, AList.lookup_insert] at hv'
      exact Option.some.inj hv' ▸ ha
    · rw [AList.lookup_insert_ne hid] at hv'
      exact h id' values' hv'

/-- **Everything declared**, of a configuration with no NUL byte in it. -/
theorem guarantees_resolveDeclared {configuration : Config}
    (h : ∀ s ∈ configuration.operands, nul ∉ s) (policy : CommandPolicy) :
    Guarantees (Plain world) (fun resolved =>
        ∀ provider name value, resolved.value provider name = some value → nul ∉ value)
      (¬·.ForNul) (resolveDeclared world configuration policy) := by
  have hone : ∀ group, Guarantees (Plain world) (fun answer : ProviderId × Resolved =>
      ∀ name value, answer.2.lookup name = some value → nul ∉ value) (¬·.ForNul)
        (resolveProvider world configuration group) := by
    intro group
    rw [resolveProvider]
    split
    · exact not_false
    · next provider hfind =>
      have hprovider : ∀ s ∈ (Provider.bws provider).operands, nul ∉ s := fun s hs =>
        h s (List.mem_append_right _ (List.mem_flatMap.mpr
          ⟨_, List.mem_of_find?_eq_some hfind, hs⟩))
      exact Guarantees.bind (Guarantees.mapError (guarantees_resolve hprovider group.2)
        fun e he => he) fun values hvalues => hvalues
  refine (guarantees_traverse fun group _ => hone group).bind
    fun answers hanswers provider name value hv => ?_
  obtain ⟨values, hlookup, hv⟩ := Option.bind_eq_some_iff.mp hv
  exact forall_lookup_foldl_insert (P := fun values => ∀ name value,
    values.lookup name = some value → nul ∉ value) hanswers (fun _ _ he => by cases he) hlookup
      name value hv

end

/-! ### Provisioning -/

section

variable {world : World} {resolved : ResolvedAll} {policy : CommandPolicy}
  {provisioned : List ProvisionedProxySecret} {image : Str} {userArgs : List Str}
  {context : DockerContext} {environment : List (EnvName × Str)}

/-- The direct variables are declared ones with resolved values, or one has no value. -/
theorem directEnvironment_cases (resolved : ResolvedAll) (policy : CommandPolicy) :
    (∃ message, directEnvironment resolved policy = .error (.panicked message)) ∨
      ∃ environment, directEnvironment resolved policy = .ok environment ∧ ∀ e ∈ environment,
        e.1 ∈ policy.secrets.map SecretSpec.envName ∧
          ∃ provider name, resolved.value provider name = some e.2 := by
  rw [directEnvironment]
  induction policy.secrets with
  | nil => exact Or.inr ⟨[], rfl, by simp⟩
  | cons spec l ih =>
    rw [List.mapM_cons]
    rcases hv : resolved.value spec.provider spec.secretName with _ | value
    · refine Or.inl ⟨"every declared secret was resolved".toList, ?_⟩
      rw [resolvedValue, hv]
      rfl
    · rw [resolvedValue, hv]
      rcases ih with ⟨message, he⟩ | ⟨environment, he, henv⟩
      · refine Or.inl ⟨message, ?_⟩
        rw [he]
        rfl
      · refine Or.inr ⟨(spec.envName, value) :: environment, ?_, ?_⟩
        · rw [he]
          rfl
        · refine List.forall_mem_cons.mpr ⟨⟨List.mem_cons_self, _, _, hv⟩, fun e hm => ?_⟩
          exact ⟨List.mem_cons_of_mem _ (henv e hm).1, (henv e hm).2⟩

theorem nul_notMem_hex (bytes : List UInt8) : nul ∉ hex bytes := by
  have hdigit : ∀ n < 16, nul ≠ n.digitChar := by decide
  intro hnul
  obtain ⟨b, -, hb⟩ := List.mem_flatMap.mp hnul
  have hlt := b.toNat_lt
  rcases List.mem_cons.mp hb with hb | hb
  · exact hdigit _ (by omega) hb
  · exact hdigit _ (by omega) (List.mem_singleton.mp hb)

theorem nul_notMem_decimal (n : ℕ) : nul ∉ decimal n := by
  have hdigits : ∀ c ∈ decimal n, c.isDigit = true :=
    fun c hc => Nat.isDigit_of_mem_toDigits (by omega) (by omega) hc
  intro hnul
  exact absurd (hdigits nul hnul) (by decide)

theorem nul_notMem_loopbackUrl (port : UInt16) : nul ∉ loopbackUrl port := by
  have hscheme : nul ∉ "http://127.0.0.1:".toList := by decide
  exact List.not_mem_append hscheme (nul_notMem_decimal _)

/-- A provisioned secret adds variables without a NUL byte. -/
structure ProvisionedProxySecret.NulFree (secret : ProvisionedProxySecret) : Prop where
  envName : nul ∉ secret.envName
  baseUrlEnv : nul ∉ secret.baseUrlEnv
  phantom : nul ∉ secret.phantom.value

theorem guarantees_provisionOne {spec : ProxySecretSpec} (henv : nul ∉ spec.envName)
    (hurl : nul ∉ spec.baseUrlEnv) :
    Guarantees (Plain world) ProvisionedProxySecret.NulFree (¬·.ForNul)
      (provisionOne resolved spec) := by
  refine (guarantees_ofExcept (P := fun _ => True) (fun _ _ => trivial) fun e he => ?_).bind
    fun rawValue _ => guarantees_perform_bind fun entropy _ =>
      guarantees_attempt_bind (fun e _ => not_false) fun entropy _ => ⟨henv, hurl, ?_⟩
  · rw [resolvedValue] at he
    split at he
    · cases he
    · obtain rfl := Except.error.inj he
      exact not_false
  · have hprefix : nul ∉ phantomPrefix := by decide
    exact List.not_mem_append hprefix (nul_notMem_hex _)

/-- What the target receives for provisioned secrets. -/
theorem nul_notMem_targetEnvironment (h : ∀ secret ∈ provisioned, secret.NulFree) (port : UInt16) :
    ∀ e ∈ targetEnvironment (provisioned.map ProvisionedProxySecret.plan) port,
      nul ∉ e.1 ∧ nul ∉ e.2 := by
  intro e he
  obtain ⟨plan, hplan, he⟩ := List.mem_flatMap.mp he
  obtain ⟨secret, hsecret, rfl⟩ := List.mem_map.mp hplan
  have hs := h secret hsecret
  rcases List.mem_cons.mp he with rfl | he
  · exact ⟨hs.envName, hs.phantom⟩
  · obtain rfl := List.mem_singleton.mp he
    exact ⟨hs.baseUrlEnv, nul_notMem_loopbackUrl port⟩

/-! ### The image -/

theorem nul_notMem_imageTag (digest : Vector UInt8 32) : nul ∉ imageTag digest := by
  have hfixed : nul ∉ "iwaya-proxy:v".toList ++ packageVersion ++ "-".toList := by decide
  exact List.not_mem_append hfixed (nul_notMem_hex _)

theorem nul_notMem_joinPath {directory name : Str} (hd : nul ∉ directory) (hn : nul ∉ name) :
    nul ∉ joinPath directory name := by
  have hslash : nul ≠ '/' := by decide
  rw [joinPath]
  split_ifs
  · exact List.not_mem_append hd hn
  · exact List.not_mem_append hd (List.not_mem_cons_of_ne_of_not_mem hslash hn)

theorem guarantees_imageExists {runtime tag : Str} (hruntime : nul ∉ runtime) (htag : nul ∉ tag) :
    Guarantees (Plain world) (fun _ => True) (¬·.ForNul) (imageExists runtime tag) := by
  have hcommand : (inspectCommand runtime tag).sawNul = false := by
    have hfixed : nul ∉ "image".toList ∧ nul ∉ "inspect".toList := by decide
    exact sawNul_of_args hruntime (List.forall_mem_cons.mpr ⟨hfixed.1,
      List.forall_mem_cons.mpr ⟨hfixed.2, List.forall_mem_singleton.mpr htag⟩⟩)
  exact guarantees_spawning_bind hcommand (guarantees_perform_bind fun ans hans =>
    guarantees_attempt_bind (fun e he hnul => hans (by rw [he, hnul]; rfl)) fun _ _ => trivial)

theorem guarantees_createTempContext {tempDir : Str} (htemp : nul ∉ tempDir) :
    Guarantees (Plain world) (nul ∉ ·) (¬·.ForNul) (createTempContext tempDir) := by
  refine guarantees_perform_bind fun random _ => guarantees_attempt_bind (fun _ _ => not_false)
    fun random _ => guarantees_perform_bind fun created _ =>
      guarantees_attempt_bind (fun _ _ => not_false) fun _ _ => nul_notMem_joinPath htemp ?_
  have hfixed : nul ∉ "iwaya-proxy-image-".toList := by decide
  exact List.not_mem_append hfixed (nul_notMem_hex _)

theorem guarantees_buildImage {runtime tag directory : Str} (hruntime : nul ∉ runtime)
    (htag : nul ∉ tag) (hdirectory : nul ∉ directory) :
    Guarantees (Plain world) (fun _ => True) (¬·.ForNul) (buildImage runtime tag directory) := by
  have hcommand : (buildCommand runtime tag directory).sawNul = false := by
    have hfixed : nul ∉ "build".toList ∧ nul ∉ "--tag".toList := by decide
    exact sawNul_of_args hruntime (List.forall_mem_cons.mpr ⟨hfixed.1,
      List.forall_mem_cons.mpr ⟨hfixed.2, List.forall_mem_cons.mpr ⟨htag,
        List.forall_mem_singleton.mpr hdirectory⟩⟩⟩)
  refine guarantees_spawning_bind hcommand (guarantees_perform_bind fun ans hans =>
    guarantees_attempt_bind (fun e he hnul => hans (by rw [he, hnul]; rfl)) fun output _ => ?_)
  refine guarantees_ofExcept (fun _ _ => trivial) fun e he => ?_
  obtain ⟨-, rfl⟩ := Checks.refuse_eq_error.mp he
  exact not_false

/-- **The image**: its tag has no NUL byte. -/
theorem guarantees_ensureProxyImage {runtime : Str} (hruntime : nul ∉ runtime)
    (htemp : nul ∉ world.tempDir) :
    Guarantees (Plain world) (nul ∉ ·) (¬·.ForNul) (ensureProxyImage world.tempDir runtime) := by
  refine guarantees_perform_bind fun material hmaterial =>
    (guarantees_ofExcept (P := fun _ => True) (fun _ _ => trivial)
      fun e he hnul => hmaterial ⟨e, he, hnul⟩).bind fun _ _ => ?_
  refine guarantees_perform_bind fun answer hdigest =>
    (guarantees_ofExcept (P := fun _ => True) (fun _ _ => trivial)
      fun e he hnul => hdigest ⟨e, he, hnul⟩).bind fun digest _ => ?_
  have htag := nul_notMem_imageTag digest
  refine (guarantees_imageExists hruntime htag).bind fun found _ => ?_
  split
  · exact htag
  · refine (guarantees_createTempContext htemp).bind fun directory hdirectory =>
      Guarantees.scope _ ?_
    refine Guarantees.bind (P := fun _ => True) ?_ fun _ _ =>
      (guarantees_buildImage hruntime htag hdirectory).bind fun _ _ => htag
    exact guarantees_perform_bind fun written _ =>
      guarantees_attempt (fun _ _ => not_false) fun _ _ => trivial

/-! ### The sidecar -/

theorem nul_notMem_sidecarName (random : List UInt8) :
    nul ∉ "iwaya-proxy-".toList ++ hex random := by
  have hfixed : nul ∉ "iwaya-proxy-".toList := by decide
  exact List.not_mem_append hfixed (nul_notMem_hex _)

theorem guarantees_ephemeralName :
    Guarantees (Plain world) (nul ∉ ·) (¬·.ForNul) ephemeralName := by
  refine guarantees_perform_bind fun random _ =>
    guarantees_attempt_bind (fun _ _ => not_false) fun random _ => nul_notMem_sidecarName _

/-- What goes wrong with a client that exists is no failed start. -/
theorem guarantees_awaitReadiness (readiness : Str → Option UInt16) (transfer : Str) :
    Guarantees (Plain world) (fun _ => True) (¬·.ForNul) (awaitReadiness readiness transfer) := by
  have hdeliver : Guarantees (Plain world) (fun _ => True) (¬·.ForNul) (deliver transfer) := by
    refine guarantees_perform_bind fun written _ => ?_
    rcases written with e | _
    · exact guarantees_perform_bind fun _ _ => trivial
    · exact guarantees_perform_bind fun _ _ => guarantees_perform_bind fun _ _ => trivial
  refine hdeliver.bind fun delivery _ => guarantees_attempt_bind (fun _ _ => not_false)
    fun _ _ => guarantees_perform_bind fun read _ =>
      guarantees_ofExcept (fun _ _ => trivial) fun e he => ?_
  rw [portOf] at he
  rcases read with e' | bytes
  · obtain rfl := Except.error.inj he
    exact not_false
  rcases hs : fromUtf8 (lineOf 10 (bytes.take readinessLimit)) with _ | text
  · simp only [Except.mapError, Checks.ok_bind, hs] at he
    obtain rfl := Except.error.inj he
    exact not_false
  · simp only [Except.mapError, Checks.ok_bind, hs] at he
    rcases Checks.refuse_bind_eq_error.mp he with ⟨-, rfl⟩ | ⟨-, he⟩
    · exact not_false
    · split at he
      · cases he
      · obtain rfl := Except.error.inj he
        exact not_false

/-- **The client of a sidecar** can be started, as far as NUL bytes go. -/
theorem sawNul_sidecarCommand {runtime targetContainer containerName : Str}
    (hruntime : nul ∉ runtime) (himage : nul ∉ image) (htarget : nul ∉ targetContainer)
    (hname : nul ∉ containerName) :
    (sidecarCommand runtime image targetContainer containerName).sawNul = false := by
  have hfixed : ∀ s ∈ ["run".toList, "--rm".toList, "--interactive".toList, "--network".toList,
      "container:".toList, "--name".toList], nul ∉ s := by decide
  simp only [List.forall_mem_cons] at hfixed
  obtain ⟨h1, h2, h3, h4, h5, h6, -⟩ := hfixed
  have hnetwork : nul ∉ "container:".toList ++ targetContainer := List.not_mem_append h5 htarget
  refine sawNul_of_args hruntime ?_
  simp only [List.forall_mem_cons]
  exact ⟨h1, h2, h3, h4, hnetwork, h6, hname, himage, fun s hs => (by cases hs)⟩

/-- **The sidecar**, of a context and an image with no NUL byte. -/
theorem guarantees_startSidecar {runtime targetContainer : Str} (hruntime : nul ∉ runtime)
    (himage : nul ∉ image) (htarget : nul ∉ targetContainer) (readiness : Str → Option UInt16)
    (transfer : Str) :
    Guarantees (Plain world) (fun _ => True) (¬·.ForNul)
      (startSidecar readiness runtime image targetContainer transfer) := by
  have hcommand : ∀ containerName, nul ∉ containerName →
      (sidecarCommand runtime image targetContainer containerName).sawNul = false :=
    fun _ hname => sawNul_sidecarCommand hruntime himage htarget hname
  refine Guarantees.bind (P := fun _ => True) ?_ fun _ _ =>
    guarantees_ephemeralName.bind fun containerName hname =>
      guarantees_spawning_bind (hcommand containerName hname) (guarantees_perform_bind
        fun ans hans => guarantees_attempt_bind (fun e he hnul => hans (by rw [he, hnul]; rfl))
          fun _ _ => ((guarantees_awaitReadiness readiness transfer).onFail _).bind
            fun _ _ => trivial)
  refine guarantees_ofExcept (fun _ _ => trivial) fun e he => ?_
  obtain ⟨-, rfl⟩ := Checks.refuse_eq_error.mp he
  exact not_false

/-! ### The target -/

theorem nul_notMem_buildArgv (hcontext : ∀ s ∈ context.operands, nul ∉ s)
    (hpolicy : ∀ s ∈ policy.operands, nul ∉ s) (hargs : ∀ s ∈ userArgs, nul ∉ s) :
    ∀ s ∈ buildArgv context policy userArgs, nul ∉ s := by
  have hfixed : ∀ s ∈ ["exec".toList, "--interactive".toList, "--tty".toList, "--env".toList,
      "--user".toList, "--workdir".toList], nul ∉ s := by decide
  simp only [List.forall_mem_cons] at hfixed
  obtain ⟨hexec, hinteractive, htty, henv, huser, hworkdir, -⟩ := hfixed
  simp only [DockerContext.operands, List.forall_mem_cons] at hcontext
  obtain ⟨h1, h2, h3, h4, -⟩ := hcontext
  obtain ⟨hid, hnames⟩ := List.forall_mem_cons.mp hpolicy
  have hlisted : ∀ s ∈ policy.envNames.flatMap (fun name => ["--env".toList, name]), nul ∉ s := by
    intro s hs
    obtain ⟨name, hname, hs⟩ := List.mem_flatMap.mp hs
    rcases List.mem_cons.mp hs with rfl | hs
    · exact henv
    · exact List.mem_singleton.mp hs ▸ hnames name hname
  -- the two loops over the policy list its variables, each after an option
  intro s hs
  rw [buildArgv, List.append_assoc _ (policy.secrets.flatMap _), env_elements] at hs
  simp only [List.mem_append, List.mem_cons, List.not_mem_nil, or_false] at hs
  rcases hs with (((rfl | rfl | rfl | rfl) | hs) | rfl | rfl | rfl | rfl | rfl | rfl) | hs
  · exact h1
  · exact hexec
  · exact hinteractive
  · exact htty
  · exact hlisted s hs
  · exact huser
  · exact h2
  · exact hworkdir
  · exact h3
  · exact h4
  · exact hid
  · exact hargs s hs

/-- The invocation of the runtime client, with variables without a NUL byte. -/
theorem sawNul_runtimeCommand (hcontext : ∀ s ∈ context.operands, nul ∉ s)
    (hpolicy : ∀ s ∈ policy.operands, nul ∉ s) (hargs : ∀ s ∈ userArgs, nul ∉ s)
    (henv : ∀ e ∈ environment, nul ∉ e.1 ∧ nul ∉ e.2) :
    (applyInjectedEnvironment (runtimeCommand context policy userArgs) environment).sawNul =
      false := by
  obtain ⟨hprogram, htail⟩ := List.forall_mem_cons.mp
    (nul_notMem_buildArgv hcontext hpolicy hargs)
  exact sawNul_eq_false.mpr ⟨hprogram, htail, henv⟩

theorem guarantees_execRuntime (hcontext : ∀ s ∈ context.operands, nul ∉ s)
    (hpolicy : ∀ s ∈ policy.operands, nul ∉ s) (hargs : ∀ s ∈ userArgs, nul ∉ s)
    (henv : ∀ e ∈ environment, nul ∉ e.1 ∧ nul ∉ e.2) :
    Guarantees (Plain world) (fun _ => True) (¬·.ForNul)
      (execRuntime context policy environment userArgs) := by
  have hcommand := sawNul_runtimeCommand hcontext hpolicy hargs henv
  refine Guarantees.bind (P := fun _ => True) ?_ fun _ _ =>
    guarantees_perform_bind fun ans hans => ?_
  · refine guarantees_ofExcept (fun _ _ => trivial) fun e he => ?_
    obtain ⟨hnul, -⟩ := Checks.refuse_eq_error.mp he
    rw [hcommand] at hnul
    cases hnul
  · rcases ans with _ | source
    · trivial
    · exact fun hnul => hans (congrArg some hnul)

theorem guarantees_superviseRuntime {proxyEnvironment : List (EnvName × Str)}
    (hcontext : ∀ s ∈ context.operands, nul ∉ s) (hpolicy : ∀ s ∈ policy.operands, nul ∉ s)
    (hargs : ∀ s ∈ userArgs, nul ∉ s) (henv : ∀ e ∈ environment, nul ∉ e.1 ∧ nul ∉ e.2)
    (hproxy : ∀ e ∈ proxyEnvironment, nul ∉ e.1 ∧ nul ∉ e.2) :
    Guarantees (Plain world) (fun _ => True) (¬·.ForNul)
      (superviseRuntime context policy environment proxyEnvironment userArgs) := by
  have hcommand := sawNul_runtimeCommand hcontext hpolicy hargs
    (List.forall_mem_append.mpr ⟨henv, hproxy⟩)
  refine guarantees_perform_bind fun registered hregistered =>
    guarantees_attempt_bind (fun e he hnul => hregistered ?_) fun _ _ =>
      guarantees_spawning_bind hcommand (guarantees_perform_bind fun spawned hspawned => ?_)
  · exact he.trans (congrArg Except.error hnul)
  rcases spawned with source | _
  · exact guarantees_perform_bind fun _ _ hnul => hspawned (congrArg Except.error hnul)
  -- the child exists, and what is left to fail is waiting for it
  refine guarantees_perform_bind fun result hresult => guarantees_perform_bind fun _ _ => ?_
  rcases result with source | status
  · exact guarantees_perform_bind fun _ _ => guarantees_perform_bind fun _ _ hnul =>
      hresult (congrArg Except.error hnul)
  · trivial

/-! ### The whole -/

theorem guarantees_runBeside (hcontext : ∀ s ∈ context.operands, nul ∉ s)
    (hpolicy : ∀ s ∈ policy.operands, nul ∉ s) (hargs : ∀ s ∈ userArgs, nul ∉ s)
    (henv : ∀ e ∈ environment, nul ∉ e.1 ∧ nul ∉ e.2)
    (hprovisioned : ∀ secret ∈ provisioned, secret.NulFree) (himage : nul ∉ image) :
    Guarantees (Plain world) (fun _ => True) (¬·.ForNul)
      (runBeside world context policy environment userArgs provisioned image) := by
  have hoperands := hcontext
  simp only [DockerContext.operands, List.forall_mem_cons] at hoperands
  obtain ⟨hruntime, -, -, hcontainer, -⟩ := hoperands
  refine Guarantees.bind (Guarantees.mapError (guarantees_startSidecar hruntime himage hcontainer
    _ _) fun e he => he) fun sidecar _ => ?_
  have hproxy := nul_notMem_targetEnvironment hprovisioned sidecar.port
  exact Guarantees.bind (Guarantees.scope _ (Guarantees.mapError
    (guarantees_superviseRuntime hcontext hpolicy hargs henv hproxy) fun e he => he))
      fun _ _ => trivial

/-- **Delivery**, of values with no NUL byte. -/
theorem guarantees_deliverAll (hcontext : ∀ s ∈ context.operands, nul ∉ s)
    (hpolicy : ∀ s ∈ policy.operands, nul ∉ s) (hargs : ∀ s ∈ userArgs, nul ∉ s)
    (htemp : nul ∉ world.tempDir)
    (hresolved : ∀ provider name value, resolved.value provider name = some value → nul ∉ value) :
    Guarantees (Plain world) (fun _ => True) (¬·.ForNul)
      (deliverAll world context policy userArgs resolved) := by
  obtain ⟨-, hnames⟩ := List.forall_mem_cons.mp hpolicy
  rw [deliverAll]
  rcases directEnvironment_cases resolved policy with ⟨message, he⟩ | ⟨environment, he, henv⟩
  · rw [he]
    exact not_false
  rw [he]
  have hclean : ∀ e ∈ environment, nul ∉ e.1 ∧ nul ∉ e.2 := by
    intro e hm
    obtain ⟨hname, provider, name, hv⟩ := henv e hm
    exact ⟨hnames _ (List.mem_append_left _ hname), hresolved provider name _ hv⟩
  change Guarantees _ _ _ (ite _ _ _)
  split
  · exact Guarantees.mapError (guarantees_execRuntime hcontext hpolicy hargs hclean)
      fun e he => he
  · have hproxy : ∀ spec ∈ policy.proxySecrets, nul ∉ spec.envName ∧ nul ∉ spec.baseUrlEnv := by
      intro spec hspec
      have hlisted : ∀ name ∈ [spec.envName, spec.baseUrlEnv], nul ∉ name := fun name hname =>
        hnames name (List.mem_append_right _ (List.mem_flatMap.mpr ⟨spec, hspec, hname⟩))
      exact ⟨hlisted _ List.mem_cons_self, hlisted _ (List.mem_cons_of_mem _ List.mem_cons_self)⟩
    refine Guarantees.bind (guarantees_traverse fun spec hspec =>
      guarantees_provisionOne (hproxy spec hspec).1 (hproxy spec hspec).2)
        fun provisioned hprovisioned => ?_
    refine Guarantees.bind (Guarantees.mapError (guarantees_ensureProxyImage
      (hcontext _ List.mem_cons_self) htemp) fun e he => he) fun image himage => ?_
    exact guarantees_runBeside hcontext hpolicy hargs hclean hprovisioned himage

/-- **An invocation with no NUL byte around it** starts every command it comes to, as far
as NUL bytes go, if its configuration has none among the elements of command lines. -/
theorem guarantees_execute {invocation : Invocation} {configuration : Config}
    (hselect : select world invocation = .ok (configuration, context, policy))
    (h : ∀ s ∈ configuration.operands, nul ∉ s) (hargs : ∀ s ∈ invocation.args, nul ∉ s)
    (htemp : nul ∉ world.tempDir) :
    Guarantees (Plain world) (fun _ => True) (¬·.ForNul) (execute world invocation) := by
  obtain ⟨-, hcontext, hpolicy⟩ := valid_of_select hselect
  have hc : ∀ s ∈ context.operands, nul ∉ s := fun s hs => h s (List.mem_append_left _
    (List.mem_append_left _ (List.mem_flatMap.mpr ⟨context, hcontext, hs⟩)))
  have hp : ∀ s ∈ policy.operands, nul ∉ s := fun s hs => h s (List.mem_append_left _
    (List.mem_append_right _ (List.mem_flatMap.mpr ⟨policy, hpolicy, hs⟩)))
  rw [execute_eq hselect]
  exact (guarantees_resolveDeclared h policy).bind fun resolved hresolved =>
    guarantees_deliverAll hc hp hargs htemp hresolved

end

/-! ### What a configuration is promised -/

/-- **No NUL byte on a command line**: none of the configured elements has one, and no
invocation that brings in none of its own fails to start something over one. -/
structure NulReported (config : Config) : Prop where
  operands : ∀ s ∈ config.operands, nul ∉ s
  starts : ∀ (world : World) (invocation : Invocation) (context : DockerContext)
    (policy : CommandPolicy), select world invocation = .ok (config, context, policy) →
    (∀ s ∈ invocation.args, nul ∉ s) → nul ∉ world.tempDir →
    ∀ (tr : List Effect) (r : Except Failure Exit), Runs (execute world invocation) tr r →
      (∀ e ∈ tr, Plain world e) → ∀ e, r = .error e → ¬e.ForNul

/-- What a selected context puts on command lines was looked at. -/
theorem nul_notMem_context {world : World} {invocation : Invocation} {configuration : Config}
    {context : DockerContext} {policy : CommandPolicy}
    (h : select world invocation = .ok (configuration, context, policy)) :
    ∀ s ∈ context.operands, nul ∉ s := by
  obtain ⟨⟨text, hparse⟩, hcontext, -⟩ := parse_of_select h
  obtain ⟨nodes, root, -, hschema, rfl⟩ := parse_eq_ok.mp hparse
  exact (nul_notMem_checked hschema).1 context hcontext

/-- **Which accepted documents keep the promise**: those whose providers have no NUL byte in
the command of their acquisition, the one thing that is not looked at. -/
theorem nulReported_iff {kdlParse : Str → Except Str (List Kdl.Node)} {text : Str}
    {nodes : List Kdl.Node} {config : Config} (hnodes : kdlParse text = .ok nodes)
    (hparse : parse kdlParse text = .ok config) :
    NulReported config ↔ ∀ exec ∈ acquisitions nodes, ∀ s ∈ exec.strings, nul ∉ s := by
  obtain ⟨nodes', root, hnodes', hschema, rfl⟩ := parse_eq_ok.mp hparse
  obtain rfl := Except.ok.inj (hnodes.symm.trans hnodes')
  rw [← nul_notMem_operands_iff hschema]
  constructor
  · exact NulReported.operands
  · intro h
    refine ⟨h, fun world invocation context policy hselect hargs htemp tr r hr hplain => ?_⟩
    exact ((guarantees_execute hselect h hargs htemp).sound hr hplain).2

theorem nulReported_sample : NulReported sampleConfig :=
  (nulReported_iff (by rw [sampleKdl, if_pos rfl]) parse_sample).mpr (by decide)

/-! ### The acquisition that is not looked at -/

/-- A policy with a secret of each of two providers. -/
def nulPolicy : CommandPolicy where
  id := "claude".toList
  secrets :=
    [{ envName := "GH_TOKEN".toList, provider := "bws".toList, secretName := "GH".toList },
     { envName := "API_TOKEN".toList, provider := "vault".toList, secretName := "API".toList }]
  proxySecrets := []

/-- The second provider has a NUL byte in its command. -/
def nulConfig : Config where
  providers :=
    [.bws { id := "bws".toList, project := "iwaya".toList,
            accessToken := { program := "pass".toList, args := ["bws".toList] } },
     .bws { id := "vault".toList, project := "iwaya".toList,
            accessToken := { program := "pa\x00ss".toList, args := [] } }]
  contexts := [sampleContext]
  policies := [nulPolicy]

/-- Its document, where the byte is an escape. -/
def nulText : Str :=
  ("iwaya version=1 \x7b providers \x7b bws \"bws\" \x7b project \"iwaya\"; " ++
    "access-token \x7b exec \"pass\" \"bws\" \x7d \x7d; " ++
    "bws \"vault\" \x7b project \"iwaya\"; " ++
    "access-token \x7b exec \"pa\\u\x7b0\x7dss\" \x7d \x7d \x7d; " ++
    "contexts \x7b docker \"dev\" \x7b user \"vscode\"; workdir \"/w\"; " ++
    "container-name \"app\" \x7d \x7d; policies \x7b command \"claude\" \x7b " ++
    "secret \"GH_TOKEN\" provider=\"bws\" secret-name=\"GH\"; " ++
    "secret \"API_TOKEN\" provider=\"vault\" secret-name=\"API\" \x7d \x7d \x7d").toList

/-- The tree of the document. -/
def nulTree : List Kdl.Node :=
  [.mk "iwaya".toList [(some "version".toList, .integer 1)] (some
    [.plain "providers" []
      [.plain "bws" ["bws"]
        [.plain "project" ["iwaya"] [],
         .plain "access-token" [] [.plain "exec" ["pass", "bws"] []]],
       .plain "bws" ["vault"]
        [.plain "project" ["iwaya"] [],
         .plain "access-token" [] [.plain "exec" ["pa\x00ss"] []]]],
     .plain "contexts" [] [.plain "docker" ["dev"]
      [.plain "user" ["vscode"] [], .plain "workdir" ["/w"] [],
       .plain "container-name" ["app"] []]],
     .plain "policies" [] [.plain "command" ["claude"]
      [.mk "secret".toList
        [(none, .string "GH_TOKEN".toList), (some "provider".toList, .string "bws".toList),
         (some "secret-name".toList, .string "GH".toList)] none,
       .mk "secret".toList
        [(none, .string "API_TOKEN".toList), (some "provider".toList, .string "vault".toList),
         (some "secret-name".toList, .string "API".toList)] none]]])]

/-- A KDL reader that knows this one document. -/
def nulKdl (text : Str) : Except Str (List Kdl.Node) :=
  if text = nulText then .ok nulTree else .error "unexpected document".toList

/-- The world with this configuration. -/
def nulWorld : World := { sampleWorld with kdlParse := nulKdl, configFile := .ok nulText }

theorem parse_nul : parse nulKdl nulText = .ok nulConfig := by
  rw [parse, nulKdl, if_pos rfl]
  rfl

theorem select_nul :
    select nulWorld sampleInvocation = .ok (nulConfig, sampleContext, nulPolicy) := by
  have hload : load nulWorld.kdlParse nulWorld.configPath nulWorld.configFile = .ok nulConfig :=
    load_of_parse parse_nul
  rw [select, hload]
  rfl

/-- **A NUL byte in an acquisition is accepted**, and found only when the first provider has
been asked for its secrets. -/
theorem nulConfig_not_reported : parse nulKdl nulText = .ok nulConfig ∧ ¬NulReported nulConfig ∧
    ∃ tr, tr.map Event.kind = [.acquire, .projectList, .secretList] ∧
      Runs (execute nulWorld sampleInvocation) tr (.error (.resolution
        (.acquisitionStart "vault".toList "pa\x00ss".toList nulError))) := by
  have hword : "pa\x00ss".toList ∈ nulConfig.operands := by decide
  have hend : (exec sampleAnswers 0 (execute nulWorld sampleInvocation)).2 = .error (.resolution
      (.acquisitionStart "vault".toList "pa\x00ss".toList nulError)) := by
    rw [execute_eq select_nul]
    rfl
  refine ⟨parse_nul, fun h => h.operands _ hword (by decide),
    (exec sampleAnswers 0 (execute nulWorld sampleInvocation)).1, ?_, ?_⟩
  · rw [execute_eq select_nul]
    rfl
  · rw [← hend]
    exact runs_exec _ _ _

end Iwaya
