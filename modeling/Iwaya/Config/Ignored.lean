import Iwaya.Config.Accepts

/-!
# What the parser does not look at

Something is added to a node of an accepted document that the schema does not define for
it: a property, an argument, a child (`Iwaya.Adds`). A child is noticed where a block is
looked into, an argument where arguments are counted; a property is never noticed, and
neither is a block under a node that has none of its own, such as a direct `secret`. What
is not noticed changes nothing: the parser gives the configuration it gave before.
-/

namespace Iwaya

open Text

/-! ### Additions -/

/-- The properties of a kind. -/
def NodeKind.properties : NodeKind → List Str
  | root => ["version".toList]
  | secret => ["provider".toList, "secret-name".toList]
  | _ => []

/-- The kinds whose arguments are read. -/
def NodeKind.takesArguments : NodeKind → Bool
  | root | providers | contexts | policies | accessToken => false
  | _ => true

/-- Something added to a node. -/
inductive Addition where
  | property (name : Str) (value : Kdl.Value)
  | argument (s : Str)
  | child (node : Kdl.Node)

namespace Addition

/-- **The schema does not define it** for a node of a kind. An `exec` alone takes any
number of arguments. -/
def Undefined : Addition → NodeKind → Prop
  | property name _, k => name ∉ k.properties
  | argument _, k => k ≠ .exec
  | child node, k => k.child node.name = none

/-- **The parser notices it**: another argument where arguments are read, another child
where a block is looked into. -/
def Noticed : Addition → NodeKind → Prop
  | property _ _, _ => False
  | argument _, k => k.takesArguments = true
  | child _, k => k.isLeaf = false

/-- A node with the addition somewhere among its entries, or in its block. -/
inductive Into : Addition → Kdl.Node → Kdl.Node → Prop
  | property {name own : Str} {value : Kdl.Value} {before after : List (Option Str × Kdl.Value)}
    {block : Option (List Kdl.Node)} :
    Into (.property name value) (.mk own (before ++ after) block)
      (.mk own (before ++ (some name, value) :: after) block)
  | argument {s own : Str} {before after : List (Option Str × Kdl.Value)}
    {block : Option (List Kdl.Node)} :
    Into (.argument s) (.mk own (before ++ after) block)
      (.mk own (before ++ (none, .string s) :: after) block)
  | child {node : Kdl.Node} {own : Str} {entries : List (Option Str × Kdl.Value)}
    {before after : List Kdl.Node} {block : Option (List Kdl.Node)}
    (h : block.getD [] = before ++ after) :
    Into (.child node) (.mk own entries block)
      (.mk own entries (some (before ++ node :: after)))

end Addition

/-- **The addition to one node of a kind**, at any depth below a node of another. -/
inductive Adds (add : Addition) (target : NodeKind) : NodeKind → Kdl.Node → Kdl.Node → Prop
  | here {a b : Kdl.Node} (h : add.Into a b) : Adds add target target a b
  | within {k k' : NodeKind} {own : Str} {entries : List (Option Str × Kdl.Value)}
    {before after : List Kdl.Node} {c d : Kdl.Node} (kind : k.child c.name = some k')
    (h : Adds add target k' c d) :
    Adds add target k (.mk own entries (some (before ++ c :: after)))
      (.mk own entries (some (before ++ d :: after)))

variable {add : Addition} {target k : NodeKind} {a b : Kdl.Node}

theorem Addition.Into.name_eq (h : add.Into a b) : b.name = a.name := by
  cases h <;> rfl

theorem Adds.name_eq (h : Adds add target k a b) : b.name = a.name := by
  cases h with
  | here h => exact h.name_eq
  | within => rfl

/-! ### What is noticed -/

/-- Where arguments are read there is a fixed number of them, unless they are a command. -/
theorem NodeKind.Arguments.length_eq {l : List Kdl.Value} (h : k.Arguments l)
    (hk : k.takesArguments = true) (hexec : k ≠ .exec) :
    l.length = if k = .injectHeader then 2 else 1 := by
  cases k
  case exec => exact absurd rfl hexec
  case runtime =>
    obtain ⟨s, rfl, -⟩ := h
    rfl
  case injectHeader =>
    obtain ⟨name, template, rfl⟩ := h
    rfl
  case provider | context | command | secret | proxySecret | setting =>
    obtain ⟨s, rfl⟩ := h
    rfl
  all_goals cases hk

/-- What is noticed breaks the schema of the node it is added to. -/
theorem Addition.Into.not_conforms (h : add.Into a b) (hundefined : add.Undefined k)
    (hnoticed : add.Noticed k) (ha : Conforms k a) : ¬Conforms k b := by
  rintro ⟨hargs, -, hknown, -, -, -⟩
  cases h with
  | property => exact hnoticed
  | @argument s own before after block =>
    obtain ⟨hargs', -, -, -, -, -⟩ := ha
    have hlen := (hargs.length_eq hnoticed hundefined).trans
      (hargs'.length_eq hnoticed hundefined).symm
    simp [Kdl.Node.arguments, Kdl.Node.entries] at hlen
  | @child node own entries before after block hblock =>
    have hmem : node ∈ (Kdl.Node.mk own entries (some (before ++ node :: after))).children :=
      List.mem_append_right _ List.mem_cons_self
    have hsome := hknown hnoticed node hmem
    rw [show k.child node.name = none from hundefined] at hsome
    cases hsome

/-- And with it that of every node above. -/
theorem Adds.not_conforms (h : Adds add target k a b) (hundefined : add.Undefined target)
    (hnoticed : add.Noticed target) (ha : Conforms k a) : ¬Conforms k b := by
  induction h with
  | here h => exact h.not_conforms hundefined hnoticed ha
  | @within k k' own entries before after c d kind h ih =>
    obtain ⟨-, -, -, hconf, -, -⟩ := ha
    rintro ⟨-, -, -, hconf', -, -⟩
    have hc : Conforms k' c := hconf c (List.mem_append_right _ List.mem_cons_self) k' kind
    exact ih hc (hconf' d (List.mem_append_right _ List.mem_cons_self) k' (h.name_eq ▸ kind))

/-! ### What is not noticed -/

/-- Two nodes agree on what the parser looks at in a node of a kind. -/
structure NodeKind.Agrees (k : NodeKind) (a b : Kdl.Node) : Prop where
  arguments : k.takesArguments = true → b.arguments = a.arguments
  properties : ∀ name ∈ k.properties, b.get name = a.get name
  children : k.isLeaf = false → b.children = a.children

theorem Addition.Into.agrees (h : add.Into a b) (hundefined : add.Undefined k)
    (hnoticed : ¬add.Noticed k) : k.Agrees a b := by
  cases h with
  | @property name own value before after block =>
    refine ⟨fun _ => by simp [Kdl.Node.arguments, Kdl.Node.entries], fun n hn => ?_, fun _ => rfl⟩
    have hne : name ≠ n := fun h => hundefined (h ▸ hn)
    simp [Kdl.Node.get, Kdl.Node.entries, List.find?_append, hne]
  | @argument s own before after block =>
    refine ⟨fun hk => absurd hk hnoticed, fun n _ => ?_, fun _ => rfl⟩
    simp [Kdl.Node.get, Kdl.Node.entries, List.find?_append]
  | child => exact ⟨fun _ => rfl, fun _ _ => rfl, fun hk => absurd hk hnoticed⟩

namespace NodeKind.Agrees

theorem conforms (h : k.Agrees a b) (ha : Conforms k a) : Conforms k b := by
  obtain ⟨hargs, hprops, hknown, hconf, honce, hreq⟩ := ha
  have hargs' : k.Arguments b.arguments := by
    cases hk : k.takesArguments with
    | true => exact (h.arguments hk).symm ▸ hargs
    | false => cases k <;> first | exact trivial | cases hk
  have hprops' : k.Properties b := by
    cases k
    case root =>
      exact (h.properties _ List.mem_cons_self).trans hprops
    case secret =>
      rw [NodeKind.Properties, h.properties _ List.mem_cons_self,
        h.properties _ (List.mem_cons_of_mem _ List.mem_cons_self)]
      exact hprops
    all_goals exact trivial
  cases hleaf : k.isLeaf with
  | false =>
    rw [← h.children hleaf] at hknown hconf honce hreq
    exact ⟨hargs', hprops', hknown, hconf, honce, hreq⟩
  | true =>
    rw [conforms_leaf hleaf]
    exact ⟨hargs', hprops'⟩

theorem strings (h : k.Agrees a b) (hk : k.takesArguments = true) : b.strings = a.strings := by
  rw [Kdl.Node.strings, Kdl.Node.strings, h.arguments hk]

end NodeKind.Agrees

/-- Two nodes of a kind stand for the same. -/
def NodeKind.Alike : NodeKind → Kdl.Node → Kdl.Node → Prop
  | root, a, b => configOf b = configOf a
  | providers, a, b => b.children.map providerOf = a.children.map providerOf
  | contexts, a, b => b.children.map contextOf = a.children.map contextOf
  | policies, a, b => b.children.map policyOf = a.children.map policyOf
  | provider, a, b => providerOf b = providerOf a
  | accessToken, a, b => acquisitionOf b = acquisitionOf a
  | context, a, b => contextOf b = contextOf a
  | command, a, b => policyOf b = policyOf a
  | secret, a, b => secretOf b = secretOf a
  | proxySecret, a, b => proxySecretOf b = proxySecretOf a
  | exec, a, b | runtime, a, b | setting, a, b | injectHeader, a, b => b.strings = a.strings

theorem NodeKind.Agrees.alike (h : k.Agrees a b) : k.Alike a b := by
  have hargument : k.takesArguments = true → b.argument = a.argument := by
    intro hk
    rw [Kdl.Node.argument, Kdl.Node.argument, h.strings hk]
  cases k
  case root => rw [NodeKind.Alike, configOf, configOf, h.children rfl]
  case providers | contexts | policies => rw [NodeKind.Alike, h.children rfl]
  case accessToken => rw [NodeKind.Alike, acquisitionOf, acquisitionOf, h.children rfl]
  case provider =>
    rw [NodeKind.Alike, providerOf, providerOf, h.children rfl, hargument rfl]
  case context => rw [NodeKind.Alike, contextOf, contextOf, h.children rfl, hargument rfl]
  case command => rw [NodeKind.Alike, policyOf, policyOf, h.children rfl, hargument rfl]
  case proxySecret =>
    rw [NodeKind.Alike, proxySecretOf, proxySecretOf, h.children rfl, hargument rfl]
  case secret =>
    rw [NodeKind.Alike, secretOf, secretOf, hargument rfl, Kdl.Node.text, Kdl.Node.text,
      Kdl.Node.text, Kdl.Node.text, h.properties _ List.mem_cons_self,
      h.properties _ (List.mem_cons_of_mem _ List.mem_cons_self)]
  case exec | runtime | setting | injectHeader => exact h.strings rfl

/-! ### One node of a block -/

section Block

variable {before after : List Kdl.Node} {c d : Kdl.Node}

/-- The readings of the nodes of a name, when one node is replaced by another that, if it is
read at all, is read the same. -/
theorem map_named_replace {α : Type} {read : Kdl.Node → α} (name : Str) (hname : d.name = c.name)
    (hread : c.name = name → read d = read c) :
    (named name (before ++ d :: after)).map read =
      (named name (before ++ c :: after)).map read := by
  rw [named_append, named_append, List.map_append, List.map_append, List.append_cancel_left_eq]
  by_cases h : c.name = name
  · rw [named, named, List.filter_cons_of_pos (by simpa [hname] using h),
      List.filter_cons_of_pos (by simpa using h), List.map_cons, List.map_cons, hread h]
  · rw [named, named, List.filter_cons_of_neg (by simpa [hname] using h),
      List.filter_cons_of_neg (by simpa using h)]

theorem lastOf_replace {α : Type} {read : Kdl.Node → α} (name : Str) (hname : d.name = c.name)
    (hread : c.name = name → read d = read c) :
    lastOf name read (before ++ d :: after) = lastOf name read (before ++ c :: after) := by
  rw [lastOf, lastOf, map_named_replace name hname hread]

/-- The readings of all entries of the sections of a name. -/
theorem map_entriesOf_replace {α : Type} {read : Kdl.Node → α} (name : Str)
    (hname : d.name = c.name)
    (hread : c.name = name → d.children.map read = c.children.map read) :
    (entriesOf name (before ++ d :: after)).map read =
      (entriesOf name (before ++ c :: after)).map read := by
  have hmap := @map_named_replace before after c d (List α) (fun node => node.children.map read)
    name hname hread
  have hflat := congrArg List.flatten hmap
  rwa [← List.flatMap_def, ← List.flatMap_def, ← List.map_flatMap, ← List.map_flatMap] at hflat

/-- The readings of the children of a block, when one is replaced by another that is read
the same. -/
theorem map_children_replace {α : Type} {read : Kdl.Node → α} (own : Str)
    (entries : List (Option Str × Kdl.Value)) (hread : read d = read c) :
    (Kdl.Node.mk own entries (some (before ++ d :: after))).children.map read =
      (Kdl.Node.mk own entries (some (before ++ c :: after))).children.map read := by
  rw [Kdl.Node.children, Kdl.Node.children, Option.getD_some, Option.getD_some,
    List.map_append, List.map_append, List.map_cons, List.map_cons, hread]

/-- A section has entries of one kind. -/
theorem kind_of_singleton {n name : Str} {k' e : NodeKind} (hk : k.children = [(name, k')])
    (h : k.child n = some e) : e = k' := by
  rw [NodeKind.child, hk, List.lookup_cons, List.lookup_nil] at h
  split at h
  · exact (Option.some.inj h).symm
  · cases h

/-- **What a block stands for**, when one node of it is replaced by another that stands for
the same. -/
theorem alike_within {own : Str} {entries : List (Option Str × Kdl.Value)} {e : NodeKind}
    (kind : k.child c.name = some e) (hname : d.name = c.name) (h : e.Alike c d) :
    k.Alike (.mk own entries (some (before ++ c :: after)))
      (.mk own entries (some (before ++ d :: after))) := by
  have hread : ∀ name e', k.child name = some e' → c.name = name → e'.Alike c d := by
    rintro name e' hk rfl
    obtain rfl := Option.some.inj (kind.symm.trans hk)
    exact h
  have hargument : ∀ name e', k.child name = some e' →
      (e'.Alike c d → d.strings = c.strings) → c.name = name → d.argument = c.argument := by
    intro name e' hk hstrings hc
    rw [Kdl.Node.argument, Kdl.Node.argument, hstrings (hread name e' hk hc)]
  have hsetting : ∀ name, k.child name = some .setting → c.name = name →
      d.argument = c.argument := fun name hk => hargument name .setting hk id
  cases k
  case root =>
    simp only [NodeKind.Alike, configOf, Config.of, Kdl.Node.children, Option.getD_some]
    rw [map_entriesOf_replace _ hname (hread "providers".toList .providers rfl),
      map_entriesOf_replace _ hname (hread "contexts".toList .contexts rfl),
      map_entriesOf_replace _ hname (hread "policies".toList .policies rfl)]
  case provider =>
    simp only [NodeKind.Alike, providerOf, ProviderSettings.of, Kdl.Node.children,
      Option.getD_some]
    rw [lastOf_replace _ hname (hsetting "project".toList rfl),
      lastOf_replace _ hname (hread "access-token".toList .accessToken rfl)]
    rfl
  case providers =>
    obtain rfl := kind_of_singleton rfl kind
    exact map_children_replace own entries (show providerOf d = providerOf c from h)
  case contexts =>
    obtain rfl := kind_of_singleton rfl kind
    exact map_children_replace own entries (show contextOf d = contextOf c from h)
  case policies =>
    obtain rfl := kind_of_singleton rfl kind
    exact map_children_replace own entries (show policyOf d = policyOf c from h)
  case accessToken =>
    simp only [NodeKind.Alike, acquisitionOf, Kdl.Node.children, Option.getD_some]
    have hexec : c.name = "exec".toList → d.strings = c.strings := hread "exec".toList .exec rfl
    rw [lastOf_replace _ hname fun hc => by
      rw [hargument "exec".toList .exec rfl id hc, hexec hc]]
  case context =>
    simp only [NodeKind.Alike, contextOf, ContextSettings.of, Kdl.Node.children, Option.getD_some]
    rw [lastOf_replace _ hname (hargument "runtime".toList .runtime rfl id),
      lastOf_replace _ hname (hsetting "user".toList rfl),
      lastOf_replace _ hname (hsetting "workdir".toList rfl),
      lastOf_replace _ hname (hsetting "container-name".toList rfl)]
    rfl
  case command =>
    simp only [NodeKind.Alike, policyOf, Kdl.Node.children, Option.getD_some]
    rw [map_named_replace _ hname (hread "secret".toList .secret rfl),
      map_named_replace _ hname (hread "proxy-secret".toList .proxySecret rfl)]
    rfl
  case proxySecret =>
    have hheader : c.name = "inject-header".toList → injectHeaderOf d = injectHeaderOf c := by
      intro hc
      rw [injectHeaderOf, injectHeaderOf, Kdl.Node.argument, Kdl.Node.argument,
        show d.strings = c.strings from hread "inject-header".toList .injectHeader rfl hc]
    simp only [NodeKind.Alike, proxySecretOf, ProxySettings.of, Kdl.Node.children,
      Option.getD_some]
    rw [lastOf_replace _ hname (hsetting "provider".toList rfl),
      lastOf_replace _ hname (hsetting "secret-name".toList rfl),
      lastOf_replace _ hname (hsetting "upstream".toList rfl),
      lastOf_replace _ hname (hsetting "base-url-env".toList rfl),
      lastOf_replace _ hname hheader]
    rfl
  case exec | runtime | setting | injectHeader | secret => cases kind

end Block

/-- What is not noticed anywhere in a node keeps the schema, and what the node stands for. -/
theorem Adds.keeps (h : Adds add target k a b) (hundefined : add.Undefined target)
    (hnoticed : ¬add.Noticed target) (ha : Conforms k a) : Conforms k b ∧ k.Alike a b := by
  induction h with
  | here h =>
    have hagrees := h.agrees hundefined hnoticed
    exact ⟨hagrees.conforms ha, hagrees.alike⟩
  | @within k e own entries before after c d kind h ih =>
    obtain ⟨hargs, hprops, hknown, hconf, honce, hreq⟩ := ha
    have hname := h.name_eq
    have hc : c ∈ (Kdl.Node.mk own entries (some (before ++ c :: after))).children :=
      List.mem_append_right _ List.mem_cons_self
    obtain ⟨hd, halike⟩ := ih (hconf c hc e kind)
    have hnames : (before ++ d :: after).map Kdl.Node.name =
        (before ++ c :: after).map Kdl.Node.name := by
      rw [List.map_append, List.map_append, List.map_cons, List.map_cons, hname]
    -- every other node of the block is where it was
    have hother : ∀ x ∈ before ++ d :: after, x = d ∨ x ∈ before ++ c :: after := by
      intro x hx
      simp only [List.mem_append, List.mem_cons] at hx ⊢
      rcases hx with hx | rfl | hx
      · exact .inr (.inl hx)
      · exact .inl rfl
      · exact .inr (.inr (.inr hx))
    refine ⟨⟨hargs, ?_, fun hleaf x hx => ?_, fun x hx e' he' => ?_, fun hset => ?_, ?_⟩,
      alike_within kind hname halike⟩
    · cases k <;> exact hprops
    · rcases hother x hx with rfl | hx
      · rw [hname, kind]
        rfl
      · exact hknown hleaf x hx
    · rcases hother x hx with rfl | hx
      · rw [hname, kind] at he'
        obtain rfl := Option.some.inj he'
        exact hd
      · exact hconf x hx e' he'
    · exact hnames ▸ honce hset
    · intro name hn
      exact hnames ▸ hreq name hn

/-! ### The parser -/

section Parser

variable {kdlParse : Str → Except Str (List Kdl.Node)} {text text' : Str} {config : Config}
  {root root' : Kdl.Node}

/-- **What is not noticed is ignored**: the configuration is the one without it. -/
theorem parse_of_not_noticed (haccepted : parse kdlParse text = .ok config)
    (hroot : kdlParse text = .ok [root]) (hroot' : kdlParse text' = .ok [root'])
    (hadd : Adds add target .root root root') (hundefined : add.Undefined target)
    (hnoticed : ¬add.Noticed target) : parse kdlParse text' = .ok config := by
  obtain ⟨nodes, node, hnodes, hschema, rfl⟩ := parse_eq_ok.mp haccepted
  rw [hroot] at hnodes
  obtain rfl := Except.ok.inj hnodes
  obtain ⟨hnode, hname, hconf, hvalid⟩ := hschema
  obtain rfl := List.singleton_inj.mp hnode
  obtain ⟨hconf', halike⟩ := hadd.keeps hundefined hnoticed hconf
  have hsame : configOf root' = configOf root := halike
  exact parse_eq_ok.mpr ⟨[root'], root', hroot',
    ⟨rfl, hadd.name_eq.trans hname, hconf', hsame ▸ hvalid⟩, hsame.symm⟩

/-- **What is noticed is refused.** -/
theorem not_parse_of_noticed (haccepted : parse kdlParse text = .ok config)
    (hroot : kdlParse text = .ok [root]) (hroot' : kdlParse text' = .ok [root'])
    (hadd : Adds add target .root root root') (hundefined : add.Undefined target)
    (hnoticed : add.Noticed target) (config' : Config) : parse kdlParse text' ≠ .ok config' := by
  intro h
  obtain ⟨nodes, node, hnodes, hschema, -⟩ := parse_eq_ok.mp haccepted
  obtain ⟨nodes', node', hnodes', hschema', -⟩ := parse_eq_ok.mp h
  rw [hroot] at hnodes
  rw [hroot'] at hnodes'
  obtain rfl := Except.ok.inj hnodes
  obtain rfl := Except.ok.inj hnodes'
  obtain rfl := List.singleton_inj.mp hschema.nodes
  obtain rfl := List.singleton_inj.mp hschema'.nodes
  exact hadd.not_conforms hundefined hnoticed hschema.conforms hschema'.conforms

/-- **An addition the schema does not define is refused exactly if it is noticed.** -/
theorem refused_iff_noticed (haccepted : parse kdlParse text = .ok config)
    (hroot : kdlParse text = .ok [root]) (hroot' : kdlParse text' = .ok [root'])
    (hadd : Adds add target .root root root') (hundefined : add.Undefined target) :
    (∃ failure, parse kdlParse text' = .error failure) ↔ add.Noticed target := by
  constructor
  · rintro ⟨failure, hfailure⟩
    by_contra hnoticed
    have hok := parse_of_not_noticed haccepted hroot hroot' hadd hundefined hnoticed
    cases hfailure.symm.trans hok
  · intro hnoticed
    cases h : parse kdlParse text' with
    | error failure => exact ⟨failure, rfl⟩
    | ok config' =>
      exact absurd h
        (not_parse_of_noticed haccepted hroot hroot' hadd hundefined hnoticed config')

end Parser

/-! ### A mistyped entry -/

/-- The sections of the sample. -/
def sampleSections : List Kdl.Node := sampleTree.flatMap Kdl.Node.children

/-- The sample with a block below its direct secret. -/
def mistypedRoot (block : Option (List Kdl.Node)) : Kdl.Node :=
  .mk "iwaya".toList [(some "version".toList, .integer 1)] (some (sampleSections.take 2 ++
    .mk "policies".toList [] (some ([] ++
      .mk "command".toList [(none, .string "claude".toList)] (some ([] ++
        .mk "secret".toList
          [(none, .string "GH_TOKEN".toList), (some "provider".toList, .string "bws".toList),
           (some "secret-name".toList, .string "GH".toList)] block ::
        ((sampleSections.drop 2).flatMap Kdl.Node.children).flatMap fun c => c.children.tail)) ::
      [])) ::
    []))

theorem sampleTree_eq : sampleTree = [mistypedRoot none] := rfl

/-- A setting of a proxy-backed secret. -/
def strayUpstream : Kdl.Node := .plain "upstream" ["https://api.example"] []

theorem adds_stray : Adds (.child strayUpstream) .secret .root (mistypedRoot none)
    (mistypedRoot (some [strayUpstream])) := by
  have hblock : (none : Option (List Kdl.Node)).getD [] = [] ++ [] := rfl
  exact .within rfl (.within rfl (.within rfl (.here (.child hblock))))

def mistypedKdl : Str → Except Str (List Kdl.Node) :=
  eitherKdl [mistypedRoot none] [mistypedRoot (some [strayUpstream])]

theorem parse_sample_mistyped : parse mistypedKdl [] = .ok sampleConfig := by
  rw [mistypedKdl, ← sampleTree_eq]
  exact parse_either _

theorem not_noticed_stray : ¬(Addition.child strayUpstream).Noticed .secret := by
  intro h
  cases h

theorem refused_iff_noticed_sample :
    (∃ failure, parse mistypedKdl "mistyped".toList = .error failure) ↔
      (Addition.child strayUpstream).Noticed .secret :=
  refused_iff_noticed parse_sample_mistyped rfl rfl adds_stray rfl

/-- **A direct secret with the settings of a proxy-backed one** is taken for a direct one. -/
theorem mistyped_sample : ¬∀ (kdlParse : Str → Except Str (List Kdl.Node)) (text text' : Str)
    (config : Config) (root root' : Kdl.Node) (add : Addition) (target : NodeKind),
    parse kdlParse text = .ok config → kdlParse text = .ok [root] → kdlParse text' = .ok [root'] →
      Adds add target .root root root' → add.Undefined target →
        ∃ failure, parse kdlParse text' = .error failure := by
  intro h
  obtain ⟨failure, hfailure⟩ := h mistypedKdl [] "mistyped".toList sampleConfig _ _ _ _
    parse_sample_mistyped rfl rfl adds_stray rfl
  have hok : parse mistypedKdl "mistyped".toList = .ok sampleConfig :=
    parse_of_not_noticed parse_sample_mistyped rfl rfl adds_stray rfl not_noticed_stray
  cases hfailure.symm.trans hok

end Iwaya
