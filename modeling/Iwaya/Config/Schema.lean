import Iwaya.Config.Parse

/-!
# The schema of a configuration document

What a document may look like, with no reader in it: a table of kinds of nodes, which says
of each kind what arguments and properties it has and which children it takes, how often;
and what a document that looks like this stands for (`Iwaya.configOf`). A document is in the
schema (`Iwaya.Schema`) if its tree conforms to the table and what it stands for is a valid
configuration. Nothing here depends on the order of the nodes of a block.
-/

namespace Iwaya

open Text

namespace Kdl.Node

/-- The arguments of a node: its entries without a name. -/
def arguments (node : Node) : List Value := (node.entries.filter fun e => e.1.isNone).map Prod.snd

/-- The strings among them. -/
def strings (node : Node) : List Str := node.arguments.filterMap Value.asString

/-- The first of them. -/
def argument (node : Node) : Str := node.strings.headI

/-- The text of a property. -/
def text (node : Node) (name : Str) : Str := ((node.get name).bind Value.asString).getD []

end Kdl.Node

/-- The nodes of a name. -/
def named (name : Str) (nodes : List Kdl.Node) : List Kdl.Node :=
  nodes.filter fun node => node.name = name

/-- What the last node of a name amounts to. -/
def lastOf {α : Type} (name : Str) (read : Kdl.Node → α) (nodes : List Kdl.Node) : Option α :=
  ((named name nodes).map read).getLast?

/-! ### The table -/

/-- **The kinds of nodes.** -/
inductive NodeKind where
  | root
  | providers
  | contexts
  | policies
  | provider
  | accessToken
  | exec
  | context
  | runtime
  | command
  | secret
  | proxySecret
  | setting
  | injectHeader
  deriving DecidableEq

namespace NodeKind

/-- The children of a kind, by their names. -/
def children : NodeKind → List (Str × NodeKind)
  | root => [("providers".toList, providers), ("contexts".toList, contexts),
      ("policies".toList, policies)]
  | providers => [("bws".toList, provider)]
  | contexts => [("docker".toList, context)]
  | policies => [("command".toList, command)]
  | provider => [("project".toList, setting), ("access-token".toList, accessToken)]
  | accessToken => [("exec".toList, exec)]
  | context => [("runtime".toList, runtime), ("user".toList, setting),
      ("workdir".toList, setting), ("container-name".toList, setting)]
  | command => [("secret".toList, secret), ("proxy-secret".toList, proxySecret)]
  | proxySecret => [("provider".toList, setting), ("secret-name".toList, setting),
      ("upstream".toList, setting), ("base-url-env".toList, setting),
      ("inject-header".toList, injectHeader)]
  | _ => []

/-- The kind of a child of a name. -/
def child (k : NodeKind) (name : Str) : Option NodeKind := k.children.lookup name

/-- The kinds whose children are settings, each written at most once. -/
def hasSettings : NodeKind → Bool
  | provider | accessToken | context | proxySecret => true
  | _ => false

/-- The settings without a default. -/
def required : NodeKind → List Str
  | provider => ["project".toList, "access-token".toList]
  | accessToken => ["exec".toList]
  | context => ["user".toList, "workdir".toList, "container-name".toList]
  | proxySecret => ["provider".toList, "secret-name".toList, "upstream".toList,
      "base-url-env".toList, "inject-header".toList]
  | _ => []

/-- What the arguments of a kind are. A runtime is a single executable. -/
def Arguments : NodeKind → List Kdl.Value → Prop
  | root, _ | providers, _ | contexts, _ | policies, _ | accessToken, _ => True
  | exec, values => ∃ program args, values = (program :: args).map Kdl.Value.string
  | runtime, values => ∃ s, values = [.string s] ∧ s ≠ [] ∧ s.any isShellChar = false
  | injectHeader, values => ∃ name template, values = [.string name, .string template]
  | _, values => ∃ s, values = [.string s]

/-- What the properties of a kind are. -/
def Properties : NodeKind → Kdl.Node → Prop
  | root, node => node.get "version".toList = some (.integer 1)
  | secret, node => (∃ s, node.get "provider".toList = some (.string s)) ∧
      ∃ s, node.get "secret-name".toList = some (.string s)
  | _, _ => True

/-- The kinds whose blocks are not looked into. -/
def isLeaf (k : NodeKind) : Bool := k.children.isEmpty

end NodeKind

/-- **A node conforms to a kind.** -/
inductive Conforms : NodeKind → Kdl.Node → Prop
  | mk {k : NodeKind} {node : Kdl.Node}
    (arguments : k.Arguments node.arguments)
    (properties : k.Properties node)
    (known : k.isLeaf = false → ∀ child ∈ node.children, (k.child child.name).isSome = true)
    (conforms : ∀ child ∈ node.children, ∀ k', k.child child.name = some k' → Conforms k' child)
    (once : k.hasSettings = true → (node.children.map Kdl.Node.name).Nodup)
    (required : ∀ name ∈ k.required, name ∈ node.children.map Kdl.Node.name) :
    Conforms k node

/-! ### What a document stands for -/

def acquisitionOf (node : Kdl.Node) : ExecAcquisition :=
  (lastOf "exec".toList (fun exec => { program := exec.argument, args := exec.strings.tail })
    node.children).getD { program := [], args := [] }

def ProviderSettings.of (children : List Kdl.Node) : ProviderSettings where
  project := lastOf "project".toList Kdl.Node.argument children
  accessToken := lastOf "access-token".toList acquisitionOf children

def providerOf (node : Kdl.Node) : Provider :=
  let s := ProviderSettings.of node.children
  .bws
    { id := node.argument
      project := s.project.getD []
      accessToken := s.accessToken.getD { program := [], args := [] } }

def ContextSettings.of (children : List Kdl.Node) : ContextSettings where
  runtime := lastOf "runtime".toList Kdl.Node.argument children
  user := lastOf "user".toList Kdl.Node.argument children
  workdir := lastOf "workdir".toList Kdl.Node.argument children
  containerName := lastOf "container-name".toList Kdl.Node.argument children

/-- The runtime is the only setting with a default. -/
def contextOf (node : Kdl.Node) : DockerContext :=
  let s := ContextSettings.of node.children
  { id := node.argument
    runtime := s.runtime.getD "docker".toList
    user := s.user.getD []
    workdir := s.workdir.getD []
    containerName := s.containerName.getD [] }

def secretOf (node : Kdl.Node) : SecretSpec where
  envName := node.argument
  provider := node.text "provider".toList
  secretName := node.text "secret-name".toList

def injectHeaderOf (node : Kdl.Node) : InjectHeader where
  name := node.argument
  template := node.strings.tail.headI

def ProxySettings.of (children : List Kdl.Node) : ProxySettings where
  provider := lastOf "provider".toList Kdl.Node.argument children
  secretName := lastOf "secret-name".toList Kdl.Node.argument children
  upstream := lastOf "upstream".toList Kdl.Node.argument children
  baseUrlEnv := lastOf "base-url-env".toList Kdl.Node.argument children
  injectHeader := lastOf "inject-header".toList injectHeaderOf children

def proxySecretOf (node : Kdl.Node) : ProxySecretSpec :=
  let s := ProxySettings.of node.children
  { envName := node.argument
    provider := s.provider.getD []
    secretName := s.secretName.getD []
    upstream := s.upstream.getD []
    baseUrlEnv := s.baseUrlEnv.getD []
    injectHeader := s.injectHeader.getD { name := [], template := [] } }

def policyOf (node : Kdl.Node) : CommandPolicy where
  id := node.argument
  secrets := (named "secret".toList node.children).map secretOf
  proxySecrets := (named "proxy-secret".toList node.children).map proxySecretOf

/-- The entries of all sections of a name. -/
def entriesOf (name : Str) (sections : List Kdl.Node) : List Kdl.Node :=
  (named name sections).flatMap Kdl.Node.children

/-- The configuration some sections stand for. -/
def Config.of (sections : List Kdl.Node) : Config where
  providers := (entriesOf "providers".toList sections).map providerOf
  contexts := (entriesOf "contexts".toList sections).map contextOf
  policies := (entriesOf "policies".toList sections).map policyOf

/-- The configuration a document stands for. -/
def configOf (root : Kdl.Node) : Config := .of root.children

/-- **The schema of a document**: one `iwaya` root that conforms to the table, and stands
for a valid configuration. -/
structure Schema (nodes : List Kdl.Node) (root : Kdl.Node) : Prop where
  nodes : nodes = [root]
  name : root.name = "iwaya".toList
  conforms : Conforms .root root
  valid : (configOf root).Valid

end Iwaya
