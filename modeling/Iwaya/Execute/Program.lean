import Iwaya.Bws
import Iwaya.Image
import Iwaya.Sidecar
import Iwaya.Run.Supervise

/-!
# An invocation

`Iwaya.execute` is the whole of `iwaya exec`: the configuration is read and the context
and the policy selected; every declared secret is resolved, provider by provider; and
the target is run, by replacement when the policy has no proxy-backed secret, and
otherwise after provisioning, image preparation and the sidecar's readiness, in that
order. The sidecar goes out of scope when all of it is over.
-/

namespace Iwaya

open Text Effects

/-- What an invocation finds around it: the libraries it reads documents with, its
configuration file, and the system's directory for temporary files. -/
structure World where
  kdlParse : Str → Except Str (List Kdl.Node)
  bwsJson : BwsJson
  serde : SerdeJson
  readiness : Str → Option UInt16
  configPath : Str
  configFile : Except IoError Str
  tempDir : Str

structure Invocation where
  context : ContextId
  command : CommandId
  args : List Str

/-! ### Failures -/

inductive Failure where
  | config (e : ConfigError)
  | unknownContext (id : ContextId)
  | unknownCommand (id : CommandId)
  | resolution (e : ResolveError)
  | provision (source : IoError)
  | proxyImage (e : ProxyImageError)
  | sidecar (e : SidecarError)
  | execution (e : ExecError)
  /-- `unreachable!` or `expect` -/
  | panicked (message : Str)

def Failure.exitCode : Failure → UInt8
  | .config _ => 3
  | .unknownContext _ | .unknownCommand _ => 4
  | .resolution _ => 5
  | .provision _ | .proxyImage _ | .sidecar _ | .execution _ => 6
  | .panicked _ => 101

def Failure.message : Failure → Str
  | .config e => e.display
  | .unknownContext id =>
    "unknown context '".toList ++ id ++ "': no configured context has this identifier".toList
  | .unknownCommand id =>
    "unknown command '".toList ++ id ++
      "': no configured command policy has this identifier".toList
  | .resolution e => "secret resolution failed, nothing was executed: ".toList ++ e.display
  | .provision source =>
    "proxy-secret provisioning failed, nothing was executed: ".toList ++
      "cannot generate a phantom credential: no usable OS entropy source: ".toList ++ source
  | .proxyImage e => "proxy image preparation failed, nothing was executed: ".toList ++ e.display
  | .sidecar e => "proxy sidecar startup failed, nothing was executed: ".toList ++ e.display
  | .execution e => e.display
  | .panicked message => message

/-! ### Selection -/

/-- The configuration, and the context and the policy the invocation names. -/
def select (world : World) (invocation : Invocation) :
    Except Failure (Config × DockerContext × CommandPolicy) := do
  let configuration ←
    (load world.kdlParse world.configPath world.configFile).mapError Failure.config
  match configuration.context invocation.context with
  | none => .error (.unknownContext invocation.context)
  | some context =>
    match configuration.policy invocation.command with
    | none => .error (.unknownCommand invocation.command)
    | some policy => .ok (configuration, context, policy)

/-- What is selected is part of what was read. -/
theorem parse_of_select {world : World} {invocation : Invocation} {configuration : Config}
    {context : DockerContext} {policy : CommandPolicy}
    (h : select world invocation = .ok (configuration, context, policy)) :
    (∃ text, parse world.kdlParse text = .ok configuration) ∧
      context ∈ configuration.contexts ∧ policy ∈ configuration.policies := by
  obtain ⟨c, hload, h1⟩ := Checks.bind_eq_ok.mp h
  obtain ⟨text, -, hparse⟩ := parse_of_load (Checks.mapError_eq_ok.mp hload)
  rcases hc : c.context invocation.context with _ | x <;> simp only [hc] at h1
  · cases h1
  rcases hp : c.policy invocation.command with _ | p <;> simp only [hp] at h1
  · cases h1
  obtain ⟨rfl, rfl, rfl⟩ : _ ∧ _ ∧ _ := by simpa using Except.ok.inj h1
  exact ⟨⟨text, hparse⟩, Config.mem_of_context hc, Config.mem_of_policy hp⟩

/-- **What is selected is part of a valid configuration.** -/
theorem valid_of_select {world : World} {invocation : Invocation} {configuration : Config}
    {context : DockerContext} {policy : CommandPolicy}
    (h : select world invocation = .ok (configuration, context, policy)) :
    configuration.Valid ∧ context ∈ configuration.contexts ∧ policy ∈ configuration.policies := by
  obtain ⟨⟨text, hparse⟩, hcontext, hpolicy⟩ := parse_of_select h
  exact ⟨valid_of_parse hparse, hcontext, hpolicy⟩

/-! ### Resolution -/

/-- What a policy declares, of either kind. -/
def declared (policy : CommandPolicy) : List (ProviderId × SecretName) :=
  policy.secrets.map (fun s => (s.provider, s.secretName)) ++
    policy.proxySecrets.map fun s => (s.provider, s.secretName)

/-- A name added to those of its provider, or a new provider. -/
def pushName (provider : ProviderId) (name : SecretName) :
    List (ProviderId × List SecretName) → List (ProviderId × List SecretName)
  | [] => [(provider, [name])]
  | (id, names) :: rest =>
    if id = provider then (id, names ++ [name]) :: rest
    else (id, names) :: pushName provider name rest

/-- The declared names, provider by provider in the order of first declaration. -/
def namesByProvider (policy : CommandPolicy) : List (ProviderId × List SecretName) :=
  (declared policy).foldl (fun groups (provider, name) => pushName provider name groups) []

/-- The values of every provider, by provider and name. -/
abbrev ResolvedAll : Type := AList fun _ : ProviderId => Resolved

/-- The value of one declaration. -/
def ResolvedAll.value (resolved : ResolvedAll) (provider : ProviderId) (name : SecretName) :
    Option Str :=
  (resolved.lookup provider).bind fun values => values.lookup name

/-- One provider asked for the names declared for it. -/
def resolveProvider (world : World) (configuration : Config)
    (group : ProviderId × List SecretName) : Step Failure (ProviderId × Resolved) := do
  match configuration.provider group.1 with
  | none =>
    .fail (.panicked ("validated configuration references provider '".toList ++ group.1 ++
      "'".toList))
  | some (.bws provider) =>
    let values ← (resolve world.bwsJson provider group.2).mapError Failure.resolution
    return (group.1, values)

/-- **Every declared secret resolves before anything executes.** -/
def resolveDeclared (world : World) (configuration : Config) (policy : CommandPolicy) :
    Step Failure ResolvedAll := do
  let values ← Prog.traverse (resolveProvider world configuration) (namesByProvider policy)
  return values.foldl (fun resolved (id, v) => resolved.insert id v) ∅

/-- `resolved_value` -/
def resolvedValue (resolved : ResolvedAll) (provider : ProviderId) (name : SecretName) :
    Except Failure Str :=
  match resolved.value provider name with
  | some value => .ok value
  | none => .error (.panicked "every declared secret was resolved".toList)

/-! ### Delivery -/

/-- The variables that carry raw values. -/
def directEnvironment (resolved : ResolvedAll) (policy : CommandPolicy) :
    Except Failure (List (EnvName × Str)) :=
  policy.secrets.mapM fun spec => do
    return (spec.envName, ← resolvedValue resolved spec.provider spec.secretName)

/-- One proxy-backed secret, bound to a fresh phantom. -/
def provisionOne (resolved : ResolvedAll) (spec : ProxySecretSpec) :
    Step Failure ProvisionedProxySecret := do
  let rawValue ← Prog.ofExcept (resolvedValue resolved spec.provider spec.secretName)
  let entropy ← call (.entropy entropyBytes) ()
  let entropy ← attempt Failure.provision entropy
  return .provision spec rawValue entropy

/-- The sidecar, the target beside it, and the removal of the sidecar when the target is
over, or did not start. -/
def runBeside (world : World) (context : DockerContext) (policy : CommandPolicy)
    (environment : List (EnvName × Str)) (userArgs : List Str)
    (provisioned : List ProvisionedProxySecret) (image : Str) : Step Failure Exit := do
  let (transfer, plans) := intoTransfer world.serde provisioned
  let sidecar ←
    (startSidecar world.readiness context.runtime image context.containerName transfer).mapError
      Failure.sidecar
  -- `sidecar` goes out of scope when supervision is over, whatever became of it
  let code ← ((superviseRuntime context policy environment (targetEnvironment plans sidecar.port)
      userArgs).mapError Failure.execution).scope
    (teardown sidecar.runtime sidecar.containerName)
  return .code code

/-- Everything after resolution. -/
def deliverAll (world : World) (context : DockerContext) (policy : CommandPolicy)
    (userArgs : List Str) (resolved : ResolvedAll) : Step Failure Exit := do
  let environment ← Prog.ofExcept (directEnvironment resolved policy)
  if policy.proxySecrets = [] then
    -- a replacement that succeeds does not return
    (execRuntime context policy environment userArgs).mapError Failure.execution
  else
    let provisioned ← Prog.traverse (provisionOne resolved) policy.proxySecrets
    let image ← (ensureProxyImage world.tempDir context.runtime).mapError Failure.proxyImage
    runBeside world context policy environment userArgs provisioned image

/-- **An invocation.** -/
def execute (world : World) (invocation : Invocation) : Step Failure Exit := do
  let (configuration, context, policy) ← Prog.ofExcept (select world invocation)
  let resolved ← resolveDeclared world configuration policy
  deliverAll world context policy invocation.args resolved

/-- What is left of an invocation that selects. -/
theorem execute_eq {world : World} {invocation : Invocation} {configuration : Config}
    {context : DockerContext} {policy : CommandPolicy}
    (h : select world invocation = .ok (configuration, context, policy)) :
    execute world invocation = (resolveDeclared world configuration policy).bind fun resolved =>
      deliverAll world context policy invocation.args resolved := by
  rw [execute, h]
  rfl

/-! ### One invocation -/

/-- What `bws project list` writes in the invocation below. -/
def sampleProjects : List UInt8 := utf8 "[\x7b\"id\":\"1\",\"name\":\"iwaya\"\x7d]".toList

/-- What `bws secret list` writes, with this value for the second secret. -/
def sampleSecrets (api : Str) : List UInt8 :=
  utf8 ("[\x7b\"key\":\"GH\",\"value\":\"raw-gh\"\x7d,".toList ++
    "\x7b\"key\":\"API\",\"value\":\"".toList ++ api ++ "\"\x7d]".toList)

/-- What is read from it. -/
def sampleRead (stdout : List UInt8) (api : Str) : Except SerdeError (List BwsSecret) :=
  if stdout = sampleSecrets api then
    .ok [{ key := "GH".toList, value := "raw-gh".toList }, { key := "API".toList, value := api }]
  else .error { code := .malformed "expected value".toList, line := 1, column := 1 }

/-- What the sidecar reports. -/
def sampleReadiness : Str := "\x7b\"port\":34567\x7d".toList

/-- A world with one configuration, in which everything is read as it is written. -/
def sampleWorld : World where
  kdlParse := sampleKdl
  bwsJson :=
    { projects := fun stdout =>
        if stdout = sampleProjects then .ok [{ id := "1".toList, name := "iwaya".toList }]
        else .error { code := .malformed "expected value".toList, line := 1, column := 1 }
      secrets := fun stdout =>
        (sampleRead stdout "raw-api".toList).tryCatch fun _ => sampleRead stdout "new-api".toList }
  serde := .reference
  readiness := fun line => if line = sampleReadiness then some 34567 else none
  configPath := "/home/dev/.config/iwaya/config.kdl".toList
  configFile := .ok sampleText
  tempDir := "/tmp".toList

def sampleInvocation : Invocation where
  context := "dev".toList
  command := "claude".toList
  args := []

/-- A process that succeeded. -/
def exitSuccess : ExitStatus where
  code := some 0
  signal := none
  display := "exit status: 0".toList

/-- The draws of two invocations. -/
def sampleBytes (i : Bool) (n : ℕ) : Vector UInt8 n := .replicate n (if i then 1 else 0)

/-- Every call succeeds, and the image exists. -/
def sampleAnswers : Env Call.Ans
  | _, .acquire => .ok { status := exitSuccess, stdout := utf8 "token\n".toList, stderr := [] }
  | _, .projectList => .ok { status := exitSuccess, stdout := sampleProjects, stderr := [] }
  | _, .secretList =>
    .ok { status := exitSuccess, stdout := sampleSecrets "raw-api".toList, stderr := [] }
  | _, .entropy n => .ok (.replicate n 0)
  | _, .material => .ok ()
  | _, .materialDigest => .ok (.replicate 32 0)
  | _, .imageInspect => .ok exitSuccess
  | _, .contextCreate => .ok ()
  | _, .contextWrite => .ok ()
  | _, .imageBuild => .ok { status := exitSuccess, stdout := [], stderr := [] }
  | _, .contextRemove => ()
  | _, .sidecarRun => .ok ()
  | _, .transferWrite => .ok ()
  | _, .newlineWrite => .ok ()
  | _, .stdinClose => ()
  | _, .readinessRead => .ok (utf8 sampleReadiness ++ [10])
  | _, .sidecarRemove => ()
  | _, .sidecarWait => ()
  | _, .signalsRegister => .ok ()
  | _, .targetSpawn => .ok ()
  | _, .targetWait => .ok exitSuccess
  | _, .relayClose => ()
  | _, .targetKill => ()
  | _, .targetReap => ()
  | _, .targetExec => none

theorem select_sample :
    select sampleWorld sampleInvocation = .ok (sampleConfig, sampleContext, samplePolicy) := by
  have hload : load sampleWorld.kdlParse sampleWorld.configPath sampleWorld.configFile =
      .ok sampleConfig :=
    load_of_parse parse_sample
  rw [select, hload]
  rfl

theorem execute_sample : execute sampleWorld sampleInvocation =
    (resolveDeclared sampleWorld sampleConfig samplePolicy).bind fun resolved =>
      deliverAll sampleWorld sampleContext samplePolicy [] resolved :=
  execute_eq select_sample

end Iwaya
