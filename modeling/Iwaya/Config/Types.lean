import Iwaya.Foundation.Text

/-!
# The configuration

The three layers of a configuration – secret providers, Docker execution contexts
and command policies – as the program holds them once the document is read. The
identifier types wrap a string each and are kept apart by name only.
-/

namespace Iwaya

open Text

/-- Identifies a provider instance, uniquely across all provider types. -/
abbrev ProviderId := Str

/-- Identifies a Docker execution context. -/
abbrev ContextId := Str

/-- Identifies a command policy; it is also the command name executed inside the
container. -/
abbrev CommandId := Str

/-- Names a secret within the provider that supplies it. -/
abbrev SecretName := Str

/-- Names the environment variable a resolved value is injected as. -/
abbrev EnvName := Str

/-! ### Providers -/

/-- The executable whose output is the access token, run without a shell. -/
structure ExecAcquisition where
  program : Str
  args : List Str

structure BwsProvider where
  id : ProviderId
  project : Str
  accessToken : ExecAcquisition

/-- A provider type is a node name in the `providers` block. -/
inductive Provider where
  | bws (p : BwsProvider)

def Provider.id : Provider → ProviderId
  | .bws p => p.id

/-! ### Contexts -/

structure DockerContext where
  id : ContextId
  runtime : Str
  user : Str
  workdir : Str
  containerName : Str

/-! ### Policies -/

/-- Direct delivery: the raw value under `envName`. -/
structure SecretSpec where
  envName : EnvName
  provider : ProviderId
  secretName : SecretName

/-- The header the proxy rewrites: the phantom arrives under `name`, and the raw
value is sent as `template` with its one `{}` placeholder substituted. -/
structure InjectHeader where
  name : Str
  template : Str

/-- Proxy-mediated delivery: the target receives a phantom under `envName`, and
the raw value is used only by the proxy toward `upstream`. -/
structure ProxySecretSpec where
  envName : EnvName
  provider : ProviderId
  secretName : SecretName
  upstream : Str
  baseUrlEnv : EnvName
  injectHeader : InjectHeader

structure CommandPolicy where
  id : CommandId
  secrets : List SecretSpec
  proxySecrets : List ProxySecretSpec

/-- The variables a policy injects, in the order they are listed everywhere: each
secret's name, then for each proxy-backed secret its credential name and its
base-URL name. -/
def CommandPolicy.envNames (policy : CommandPolicy) : List EnvName :=
  policy.secrets.map SecretSpec.envName ++
    policy.proxySecrets.flatMap fun proxy => [proxy.envName, proxy.baseUrlEnv]

/-! ### The whole -/

structure Config where
  providers : List Provider
  contexts : List DockerContext
  policies : List CommandPolicy

def Config.provider (config : Config) (id : ProviderId) : Option Provider :=
  config.providers.find? fun p => p.id == id

def Config.context (config : Config) (id : ContextId) : Option DockerContext :=
  config.contexts.find? fun c => c.id == id

def Config.policy (config : Config) (id : CommandId) : Option CommandPolicy :=
  config.policies.find? fun p => p.id == id

theorem Config.mem_of_context {config : Config} {id : ContextId} {context : DockerContext}
    (h : config.context id = some context) : context ∈ config.contexts :=
  List.mem_of_find?_eq_some h

theorem Config.mem_of_policy {config : Config} {id : CommandId} {policy : CommandPolicy}
    (h : config.policy id = some policy) : policy ∈ config.policies :=
  List.mem_of_find?_eq_some h

/-! ### Failures -/

/-- A document that is not KDL, and a document that is but violates the model. -/
inductive ParseFailure where
  | notKdl (message : Str)
  | model (message : Str)

/-- A configuration that cannot be read, does not parse, or violates the model. -/
inductive ConfigError where
  | read (path source : Str)
  | parse (path message : Str)
  | invalid (path message : Str)

/-- The diagnostic of a configuration error. -/
def ConfigError.display : ConfigError → Str
  | .read path source =>
    "cannot read configuration file '".toList ++ path ++ "': ".toList ++ source
  | .parse path message =>
    "configuration file '".toList ++ path ++ "' does not parse: ".toList ++ message
  | .invalid path message =>
    "configuration file '".toList ++ path ++ "' is invalid: ".toList ++ message

end Iwaya
