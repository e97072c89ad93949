import Iwaya.Config.Validate

/-!
# Reading the configuration document

The document is KDL. Its text is read by a library (`kdlParse` below); what that
hands over is a tree of nodes, and everything from there on – the root node, the
version, the sections, the settings of each entry – is read here. The tree is
never recursed into: the schema is five levels deep and each level has its own
reader.
-/

namespace Iwaya

open Text Checks

/-! ### The tree -/

/-- The value of an entry. Floats, booleans and null are never read. -/
inductive Kdl.Value where
  | string (s : Str)
  | integer (n : ℤ)
  | other

def Kdl.Value.asString : Kdl.Value → Option Str
  | .string s => some s
  | _ => none

def Kdl.Value.asInteger : Kdl.Value → Option ℤ
  | .integer n => some n
  | _ => none

/-- A node: its name, its entries, and its children if it has a block. An entry
with a name is a property, one without is an argument. -/
inductive Kdl.Node where
  | mk (name : Str) (entries : List (Option Str × Kdl.Value)) (children : Option (List Kdl.Node))

def Kdl.Node.name : Kdl.Node → Str
  | .mk name _ _ => name

def Kdl.Node.entries : Kdl.Node → List (Option Str × Kdl.Value)
  | .mk _ entries _ => entries

/-- The nodes of the block; a node without a block has none. -/
def Kdl.Node.children : Kdl.Node → List Kdl.Node
  | .mk _ _ children => children.getD []

/-- The property of a name: of several, the last one written. -/
def Kdl.Node.get (node : Kdl.Node) (name : Str) : Option Kdl.Value :=
  (node.entries.reverse.find? fun e => e.1 == some name).map Prod.snd

/-! ### The shared readers -/

def invalid {α : Type} (message : Str) : Except ParseFailure α := .error (.model message)

def positionalStrings (node : Kdl.Node) : Except ParseFailure (List Str) :=
  (node.entries.filter fun e => e.1.isNone).mapM fun e =>
    match e.2.asString with
    | some s => .ok s
    | none => invalid ("node '".toList ++ node.name ++ "' has a non-string argument".toList)

def singleStringArgument (node : Kdl.Node) (owner : Str) : Except ParseFailure Str := do
  match ← positionalStrings node with
  | [value] => .ok value
  | _ =>
    invalid ("'".toList ++ node.name ++ "' in ".toList ++ owner ++
      " requires exactly one string argument".toList)

def property (node : Kdl.Node) (name owner : Str) : Except ParseFailure Str :=
  match (node.get name).bind Kdl.Value.asString with
  | some value => .ok value
  | none =>
    invalid ("'".toList ++ node.name ++ "' in ".toList ++ owner ++ " requires a string '".toList ++
      name ++ "' property".toList)

/-- `target.is_some()`: a setting written twice. -/
def refuseTwice {α : Type} (target : Option α) (owner setting : Str) : Except ParseFailure Unit :=
  refuse target.isSome
    (.model (owner ++ " declares '".toList ++ setting ++ "' more than once".toList))

/-- A setting with one string argument, not written before. -/
def setOnce (target : Option Str) (child : Kdl.Node) (owner : Str) :
    Except ParseFailure (Option Str) := do
  refuseTwice target owner child.name
  return some (← singleStringArgument child owner)

def unknownSetting {α : Type} (child : Kdl.Node) (owner : Str) : Except ParseFailure α :=
  invalid ("unknown setting '".toList ++ child.name ++ "' in ".toList ++ owner)

def require (value : Option Str) (field owner : Str) : Except ParseFailure Str :=
  match value with
  | some v => .ok v
  | none => invalid (owner ++ " requires a '".toList ++ field ++ "' setting".toList)

/-! ### Contexts -/

/-- The settings of a context read so far. -/
structure ContextSettings where
  runtime : Option Str := none
  user : Option Str := none
  workdir : Option Str := none
  containerName : Option Str := none

def contextSetting (owner : Str) (s : ContextSettings) (child : Kdl.Node) :
    Except ParseFailure ContextSettings := do
  if child.name = "runtime".toList then
    return { s with runtime := ← setOnce s.runtime child owner }
  else if child.name = "user".toList then
    return { s with user := ← setOnce s.user child owner }
  else if child.name = "workdir".toList then
    return { s with workdir := ← setOnce s.workdir child owner }
  else if child.name = "container-name".toList then
    return { s with containerName := ← setOnce s.containerName child owner }
  else unknownSetting child owner

/-- The characters no runtime may contain: separators, redirection, quotes and
expansions only make sense in a shell command, which a runtime is not. -/
def isShellChar (c : Char) : Bool := isWhitespace c || (nul :: ";|&<>'\"`$\\".toList).contains c

def parseContext (node : Kdl.Node) : Except ParseFailure DockerContext := do
  refuse (node.name ≠ "docker".toList)
    (.model ("unknown context type '".toList ++ node.name ++ "'".toList))
  match ← positionalStrings node with
  | [id] =>
    let owner := "context '".toList ++ id ++ "'".toList
    let s ← node.children.foldlM (contextSetting owner) {}
    -- the runtime is the only setting with a default
    let runtime := s.runtime.getD "docker".toList
    refuse (runtime = [] ∨ runtime.any isShellChar)
      (.model (owner ++ " has a 'runtime' that is not a single executable".toList))
    let user ← require s.user "user".toList owner
    let workdir ← require s.workdir "workdir".toList owner
    let containerName ← require s.containerName "container-name".toList owner
    return { id, runtime, user, workdir, containerName }
  | _ => invalid "a 'docker' context requires exactly one identifier argument".toList

/-! ### Providers -/

def parseAccessToken (node : Kdl.Node) (owner : Str) : Except ParseFailure ExecAcquisition := do
  match node.children with
  | [acquisition] =>
    if acquisition.name = "exec".toList then
      match ← positionalStrings acquisition with
      | program :: args => return { program, args }
      | [] => invalid ("'exec' in ".toList ++ owner ++ " requires an executable argument".toList)
    else
      invalid ("unsupported acquisition type '".toList ++ acquisition.name ++ "' in ".toList ++
        owner ++ "; 'exec' is the only acquisition type".toList)
  | _ =>
    invalid ("'access-token' in ".toList ++ owner ++
      " requires exactly one acquisition node".toList)

/-- The settings of a provider read so far. -/
structure ProviderSettings where
  project : Option Str := none
  accessToken : Option ExecAcquisition := none

def providerSetting (owner : Str) (s : ProviderSettings) (child : Kdl.Node) :
    Except ParseFailure ProviderSettings := do
  if child.name = "project".toList then
    return { s with project := ← setOnce s.project child owner }
  else if child.name = "access-token".toList then
    refuseTwice s.accessToken owner child.name
    return { s with accessToken := some (← parseAccessToken child owner) }
  else unknownSetting child owner

def parseBwsProvider (node : Kdl.Node) : Except ParseFailure BwsProvider := do
  match ← positionalStrings node with
  | [id] =>
    let owner := "provider '".toList ++ id ++ "'".toList
    let s ← node.children.foldlM (providerSetting owner) {}
    let project ← require s.project "project".toList owner
    match s.accessToken with
    | some accessToken => return { id, project, accessToken }
    | none => invalid (owner ++ " requires exactly one 'access-token' block".toList)
  | _ => invalid "a 'bws' provider requires exactly one identifier argument".toList

def parseProvider (node : Kdl.Node) : Except ParseFailure Provider := do
  if node.name = "bws".toList then return .bws (← parseBwsProvider node)
  else invalid ("unknown provider type '".toList ++ node.name ++ "'".toList)

/-! ### Policies -/

/-- The settings of a proxy-backed secret read so far. -/
structure ProxySettings where
  provider : Option Str := none
  secretName : Option Str := none
  upstream : Option Str := none
  baseUrlEnv : Option Str := none
  injectHeader : Option InjectHeader := none

def proxySetting (owner : Str) (s : ProxySettings) (child : Kdl.Node) :
    Except ParseFailure ProxySettings := do
  if child.name = "inject-header".toList then
    refuseTwice s.injectHeader owner child.name
    match ← positionalStrings child with
    | [name, template] => return { s with injectHeader := some { name, template } }
    | _ =>
      invalid ("'inject-header' in ".toList ++ owner ++
        " requires a header name argument and a template argument".toList)
  else if child.name = "provider".toList then
    return { s with provider := ← setOnce s.provider child owner }
  else if child.name = "secret-name".toList then
    return { s with secretName := ← setOnce s.secretName child owner }
  else if child.name = "upstream".toList then
    return { s with upstream := ← setOnce s.upstream child owner }
  else if child.name = "base-url-env".toList then
    return { s with baseUrlEnv := ← setOnce s.baseUrlEnv child owner }
  else unknownSetting child owner

def parseProxySecret (node : Kdl.Node) (policyOwner : Str) :
    Except ParseFailure ProxySecretSpec := do
  match ← positionalStrings node with
  | [envName] =>
    let owner := "proxy-secret '".toList ++ envName ++ "' in ".toList ++ policyOwner
    let s ← node.children.foldlM (proxySetting owner) {}
    -- the header is asked for before the other settings
    match s.injectHeader with
    | none => invalid (owner ++ " requires an 'inject-header' setting".toList)
    | some injectHeader =>
      let provider ← require s.provider "provider".toList owner
      let secretName ← require s.secretName "secret-name".toList owner
      let upstream ← require s.upstream "upstream".toList owner
      let baseUrlEnv ← require s.baseUrlEnv "base-url-env".toList owner
      return { envName, provider, secretName, upstream, baseUrlEnv, injectHeader }
  | _ =>
    invalid ("a 'proxy-secret' in ".toList ++ policyOwner ++
      " requires exactly one environment variable name argument".toList)

def parseSecret (node : Kdl.Node) (owner : Str) : Except ParseFailure SecretSpec := do
  match ← positionalStrings node with
  | [envName] =>
    let provider ← property node "provider".toList owner
    let secretName ← property node "secret-name".toList owner
    return { envName, provider, secretName }
  | _ =>
    invalid ("a 'secret' in ".toList ++ owner ++
      " requires exactly one environment variable name argument".toList)

/-- One entry of a policy, added to those read before. -/
def policyEntry (owner : Str) (policy : CommandPolicy) (child : Kdl.Node) :
    Except ParseFailure CommandPolicy := do
  if child.name = "secret".toList then
    return { policy with secrets := policy.secrets ++ [← parseSecret child owner] }
  else if child.name = "proxy-secret".toList then
    return { policy with proxySecrets := policy.proxySecrets ++ [← parseProxySecret child owner] }
  else invalid ("unknown entry '".toList ++ child.name ++ "' in ".toList ++ owner)

def parsePolicy (node : Kdl.Node) : Except ParseFailure CommandPolicy := do
  refuse (node.name ≠ "command".toList)
    (.model ("unknown policy type '".toList ++ node.name ++ "'".toList))
  match ← positionalStrings node with
  | [id] =>
    let owner := "command '".toList ++ id ++ "'".toList
    node.children.foldlM (policyEntry owner) { id, secrets := [], proxySecrets := [] }
  | _ => invalid "a 'command' policy requires exactly one identifier argument".toList

/-! ### The document -/

/-- One section, its entries added to those of the sections before it. -/
def parseSection (config : Config) (section_ : Kdl.Node) : Except ParseFailure Config := do
  if section_.name = "providers".toList then
    return { config with providers := config.providers ++ (← section_.children.mapM parseProvider) }
  else if section_.name = "contexts".toList then
    return { config with contexts := config.contexts ++ (← section_.children.mapM parseContext) }
  else if section_.name = "policies".toList then
    return { config with policies := config.policies ++ (← section_.children.mapM parsePolicy) }
  else
    invalid ("unknown section '".toList ++ section_.name ++ "' in the 'iwaya' node".toList)

/-- The decimal rendering of an integer. -/
def renderInt (n : ℤ) : Str :=
  if n < 0 then '-' :: decimal n.natAbs else decimal n.natAbs

/-- The configuration a document stands for, before it is validated. -/
def parseDocument (nodes : List Kdl.Node) : Except ParseFailure Config := do
  match nodes with
  | [root] =>
    refuse (root.name ≠ "iwaya".toList) (.model "expected exactly one 'iwaya' root node".toList)
    match (root.get "version".toList).bind Kdl.Value.asInteger with
    | none => invalid "the 'iwaya' root node requires an integer 'version' property".toList
    | some version =>
      refuse (version ≠ 1)
        (.model ("unsupported configuration version ".toList ++ renderInt version))
      root.children.foldlM parseSection { providers := [], contexts := [], policies := [] }
  | _ => invalid "expected exactly one 'iwaya' root node".toList

/-- The text of a configuration; `kdlParse` is the KDL library. -/
def parse (kdlParse : Str → Except Str (List Kdl.Node)) (text : Str) :
    Except ParseFailure Config := do
  let nodes ← (kdlParse text).mapError ParseFailure.notKdl
  let config ← parseDocument nodes
  validate config
  return config

/-- The configuration file: `file` is what reading the file at `path` gave. -/
def load (kdlParse : Str → Except Str (List Kdl.Node)) (path : Str) (file : Except Str Str) :
    Except ConfigError Config := do
  let text ← file.mapError (ConfigError.read path)
  (parse kdlParse text).mapError fun
    | .notKdl message => .parse path message
    | .model message => .invalid path message

theorem load_of_parse {kdlParse : Str → Except Str (List Kdl.Node)} {path text : Str}
    {config : Config} (h : parse kdlParse text = .ok config) :
    load kdlParse path (.ok text) = .ok config := by
  change (parse kdlParse text).mapError _ = _
  rw [h]
  rfl

/-- **A configuration that was read is valid.** -/
theorem valid_of_parse {kdlParse : Str → Except Str (List Kdl.Node)} {text : Str} {config : Config}
    (h : parse kdlParse text = .ok config) : config.Valid := by
  obtain ⟨nodes, -, h⟩ := bind_eq_ok.mp h
  obtain ⟨config', -, h⟩ := bind_eq_ok.mp h
  obtain ⟨u, hv, h⟩ := bind_eq_ok.mp h
  obtain rfl : config' = config := by simpa [pure, Except.pure] using h
  exact validate_eq_ok.mp hv

/-- A configuration that was loaded was parsed. -/
theorem parse_of_load {kdlParse : Str → Except Str (List Kdl.Node)} {path : Str}
    {file : Except Str Str} {config : Config} (h : load kdlParse path file = .ok config) :
    ∃ text, file = .ok text ∧ parse kdlParse text = .ok config := by
  obtain ⟨text, hf, hp⟩ := bind_eq_ok.mp h
  rcases file with e | text'
  · cases hf
  · cases hf
    rcases hc : parse kdlParse text with e | config'
    · rw [hc] at hp
      cases hp
    · rw [hc] at hp
      cases hp
      exact ⟨text, rfl, hc⟩

/-! ### A small configuration -/

def sampleContext : DockerContext where
  id := "dev".toList
  runtime := "docker".toList
  user := "vscode".toList
  workdir := "/w".toList
  containerName := "app".toList

/-- A policy with one secret of either kind. -/
def samplePolicy : CommandPolicy where
  id := "claude".toList
  secrets := [{ envName := "GH_TOKEN".toList, provider := "bws".toList, secretName := "GH".toList }]
  proxySecrets :=
    [{ envName := "API_TOKEN".toList, provider := "bws".toList, secretName := "API".toList,
       upstream := "https://api.example".toList, baseUrlEnv := "API_URL".toList,
       injectHeader := { name := "x-api-key".toList, template := placeholder } }]

def sampleConfig : Config where
  providers :=
    [.bws { id := "bws".toList, project := "iwaya".toList,
            accessToken := { program := "pass".toList, args := ["bws".toList] } }]
  contexts := [sampleContext]
  policies := [samplePolicy]

/-- Its document. -/
def sampleText : Str :=
  ("iwaya version=1 \x7b providers \x7b bws \"bws\" \x7b project \"iwaya\"; " ++
    "access-token \x7b exec \"pass\" \"bws\" \x7d \x7d \x7d; " ++
    "contexts \x7b docker \"dev\" \x7b user \"vscode\"; workdir \"/w\"; " ++
    "container-name \"app\" \x7d \x7d; policies \x7b command \"claude\" \x7b " ++
    "secret \"GH_TOKEN\" provider=\"bws\" secret-name=\"GH\"; " ++
    "proxy-secret \"API_TOKEN\" \x7b provider \"bws\"; secret-name \"API\"; " ++
    "upstream \"https://api.example\"; base-url-env \"API_URL\"; " ++
    "inject-header \"x-api-key\" \"\x7b\x7d\" \x7d \x7d \x7d \x7d").toList

/-- A node with string arguments only. -/
def Kdl.Node.plain (name : String) (args : List String) (children : List Kdl.Node) : Kdl.Node :=
  .mk name.toList (args.map fun a => (none, .string a.toList)) (some children)

/-- The tree of the document. -/
def sampleTree : List Kdl.Node :=
  [.mk "iwaya".toList [(some "version".toList, .integer 1)] (some
    [.plain "providers" [] [.plain "bws" ["bws"]
      [.plain "project" ["iwaya"] [],
       .plain "access-token" [] [.plain "exec" ["pass", "bws"] []]]],
     .plain "contexts" [] [.plain "docker" ["dev"]
      [.plain "user" ["vscode"] [], .plain "workdir" ["/w"] [],
       .plain "container-name" ["app"] []]],
     .plain "policies" [] [.plain "command" ["claude"]
      [.mk "secret".toList
        [(none, .string "GH_TOKEN".toList), (some "provider".toList, .string "bws".toList),
         (some "secret-name".toList, .string "GH".toList)] none,
       .plain "proxy-secret" ["API_TOKEN"]
        [.plain "provider" ["bws"] [], .plain "secret-name" ["API"] [],
         .plain "upstream" ["https://api.example"] [], .plain "base-url-env" ["API_URL"] [],
         .plain "inject-header" ["x-api-key", "\x7b\x7d"] []]]]])]

/-- A KDL reader that knows this one document. -/
def sampleKdl (text : Str) : Except Str (List Kdl.Node) :=
  if text = sampleText then .ok sampleTree else .error "unexpected document".toList

theorem parse_sample : parse sampleKdl sampleText = .ok sampleConfig := by
  rw [parse, sampleKdl, if_pos rfl]
  rfl

end Iwaya
