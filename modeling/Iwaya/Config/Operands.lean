import Iwaya.Config.Reorder

/-!
# The configured elements of command lines

The strings of a configuration that become elements of some argv are checked in three
places: the runtime by the reader of contexts, which takes a NUL byte for a shell
character, and the other settings of a context, the command identifiers and the names of
variables by validation. The command a provider acquires its token by is in none of them,
so a document is as free of NUL bytes as its `exec` nodes are.
-/

namespace Iwaya

open Text

/-- What a context puts on the command lines of its runtime. -/
def DockerContext.operands (context : DockerContext) : List Str :=
  [context.runtime, context.user, context.workdir, context.containerName]

/-- The command identifier, and the variables that are listed by name. -/
def CommandPolicy.operands (policy : CommandPolicy) : List Str := policy.id :: policy.envNames

/-- The command of the acquisition, word by word. -/
def Provider.operands : Provider → List Str
  | .bws provider => provider.accessToken.program :: provider.accessToken.args

/-- **Every configured element of a command line.** -/
def Config.operands (config : Config) : List Str :=
  config.contexts.flatMap DockerContext.operands ++
    config.policies.flatMap CommandPolicy.operands ++ config.providers.flatMap Provider.operands

/-- The `exec` nodes of the providers of a document. -/
def acquisitions (nodes : List Kdl.Node) : List Kdl.Node :=
  (entriesOf "providers".toList (entriesOf "iwaya".toList nodes)).flatMap fun provider =>
    named "exec".toList (entriesOf "access-token".toList provider.children)

/-! ### What is checked -/

/-- The runtime is the default, or was looked at. -/
theorem nul_notMem_runtime {node : Kdl.Node} (h : Conforms .context node) :
    nul ∉ (contextOf node).runtime := by
  rcases hr : (ContextSettings.of node.children).runtime with _ | r
  · have hdocker : nul ∉ "docker".toList := by decide
    rwa [contextOf, hr]
  · obtain ⟨child, hc, hname, hlast⟩ := exists_lastOf Kdl.Node.argument (mem_of_lastOf hr)
    obtain rfl := Option.some.inj (hr.symm.trans hlast)
    rw [conforms_block (show NodeKind.context.isLeaf = false from rfl)] at h
    have hshell := ((contextChild_iff.mp (h.2.2.1 child hc)).2 hname).2
    rw [contextOf, hr, Option.getD_some]
    intro hnul
    have := List.any_eq_false.mp hshell nul hnul
    exact this (by decide)

/-- **The checked elements have no NUL byte.** -/
theorem nul_notMem_checked {nodes : List Kdl.Node} {root : Kdl.Node} (h : Schema nodes root) :
    (∀ context ∈ (configOf root).contexts, ∀ s ∈ context.operands, nul ∉ s) ∧
      ∀ policy ∈ (configOf root).policies, ∀ s ∈ policy.operands, nul ∉ s := by
  constructor
  · intro context hcontext
    have hvalid := h.valid.context context hcontext
    obtain ⟨node, hnode, rfl⟩ := List.mem_map.mp hcontext
    simp only [DockerContext.operands, List.forall_mem_cons, List.not_mem_nil, IsEmpty.forall_iff,
      implies_true, and_true]
    exact ⟨nul_notMem_runtime (conforms_contexts h.conforms node hnode), hvalid.user,
      hvalid.workdir, hvalid.container.nul_notMem⟩
  · intro policy hpolicy
    have hvalid := h.valid.policy policy hpolicy
    exact List.forall_mem_cons.mpr
      ⟨hvalid.id.nul_notMem, fun name hname => (hvalid.envName name hname).nul_notMem⟩

/-! ### What is not -/

/-- A provider runs what its one `exec` node says, word by word. -/
theorem operands_providerOf {node : Kdl.Node} (h : Conforms .provider node) :
    (providerOf node).operands =
      (named "exec".toList (entriesOf "access-token".toList node.children)).flatMap
        Kdl.Node.strings := by
  rw [conforms_block rfl] at h
  obtain ⟨-, -, hall, hnd, hreq⟩ := h
  simp only [NodeKind.required, List.forall_mem_cons, List.not_mem_nil, IsEmpty.forall_iff,
    implies_true, and_true] at hreq
  obtain ⟨token, htoken, hname, hlast⟩ := exists_lastOf acquisitionOf hreq.2
  -- the block is written once, and has one node in it
  have hconf := (exists_kind (k := .accessToken) (by rw [hname]; rfl)).mp (hall token htoken)
  obtain ⟨exec, hchildren, hexec, hexecConf⟩ := conforms_accessToken.mp hconf
  obtain ⟨program, args, hargs⟩ := conforms_exec.mp hexecConf
  have hentries : entriesOf "access-token".toList node.children = [exec] := by
    have hnamed := named_of_nodup (hnd rfl) htoken
    rw [hname] at hnamed
    rw [entriesOf, hnamed, List.flatMap_singleton, hchildren]
  have hacquisition : acquisitionOf token = { program, args } := by
    rw [acquisitionOf, hchildren, lastOf, named_singleton hexec]
    simp [argument_of_arguments hargs, strings_of_arguments hargs]
  rw [hentries, named_singleton hexec, List.flatMap_singleton, strings_of_arguments hargs]
  simp only [providerOf, ProviderSettings.of, hlast, hacquisition, Option.getD_some,
    Provider.operands]

/-- The words of all acquisitions are those of the `exec` nodes. -/
theorem operands_providers {nodes : List Kdl.Node} {root : Kdl.Node} (h : Schema nodes root) :
    (configOf root).providers.flatMap Provider.operands =
      (acquisitions nodes).flatMap Kdl.Node.strings := by
  have hroot : entriesOf "iwaya".toList nodes = root.children := by
    rw [h.nodes, entriesOf, named_singleton h.name, List.flatMap_singleton]
  have hentries : ∀ l : List Kdl.Node, (∀ node ∈ l, Conforms .provider node) →
      (l.map providerOf).flatMap Provider.operands = (l.flatMap fun provider =>
        named "exec".toList (entriesOf "access-token".toList provider.children)).flatMap
          Kdl.Node.strings := by
    intro l hl
    induction l with
    | nil => rfl
    | cons node l ih =>
      obtain ⟨hnode, hl⟩ := List.forall_mem_cons.mp hl
      rw [List.map_cons, List.flatMap_cons, List.flatMap_cons, List.flatMap_append, ih hl,
        operands_providerOf hnode]
  rw [acquisitions, hroot]
  exact hentries _ (conforms_providers h.conforms)

/-- **A configuration is as free of NUL bytes as its `exec` nodes.** -/
theorem nul_notMem_operands_iff {nodes : List Kdl.Node} {root : Kdl.Node} (h : Schema nodes root) :
    (∀ s ∈ (configOf root).operands, nul ∉ s) ↔
      ∀ exec ∈ acquisitions nodes, ∀ s ∈ exec.strings, nul ∉ s := by
  obtain ⟨hcontexts, hpolicies⟩ := nul_notMem_checked h
  rw [Config.operands, operands_providers h]
  simp only [List.mem_append, List.mem_flatMap]
  constructor
  · intro hall exec hexec s hs
    exact hall s (Or.inr ⟨exec, hexec, hs⟩)
  · rintro hall s ((⟨context, hc, hs⟩ | ⟨policy, hp, hs⟩) | ⟨exec, hexec, hs⟩)
    · exact hcontexts context hc s hs
    · exact hpolicies policy hp s hs
    · exact hall exec hexec s hs

end Iwaya
