import Iwaya.Config.Accepts

/-!
# The order of the nodes

A document may have its nodes in any order, at every depth: sections, entries and settings
(`Iwaya.Reordered`). Its schema does not look at the order, and so neither does the parser,
whose walk from front to back does: a provider may be written after the policies that name
it, and a section may be torn apart.
-/

namespace Iwaya

open Text

/-- **Nodes in another order**: the nodes of a list, and at every depth those of a block. -/
inductive Reordered : List Kdl.Node → List Kdl.Node → Prop
  | nil : Reordered [] []
  | cons {a b : Kdl.Node} {l m : List Kdl.Node} (name : a.name = b.name)
    (entries : a.entries = b.entries) (children : Reordered a.children b.children)
    (rest : Reordered l m) : Reordered (a :: l) (b :: m)
  | swap (a b : Kdl.Node) (l : List Kdl.Node) : Reordered (a :: b :: l) (b :: a :: l)
  | trans {l m n : List Kdl.Node} : Reordered l m → Reordered m n → Reordered l n

/-- A node with its block in another order. -/
structure Kdl.Node.Same (a b : Kdl.Node) : Prop where
  name : a.name = b.name
  entries : a.entries = b.entries
  children : Reordered a.children b.children

namespace Reordered

variable {l m : List Kdl.Node}

theorem refl : ∀ l : List Kdl.Node, Reordered l l
  | [] => .nil
  | .mk _ _ none :: l => .cons rfl rfl .nil (refl l)
  | .mk _ _ (some children) :: l => .cons rfl rfl (refl children) (refl l)

theorem symm (h : Reordered l m) : Reordered m l := by
  induction h with
  | nil => exact .nil
  | cons name entries _ _ ihc ihr => exact .cons name.symm entries.symm ihc ihr
  | swap a b l => exact .swap b a l
  | trans _ _ ih ih' => exact ih'.trans ih

/-- A permutation of the nodes of a list is a case of it. -/
theorem of_perm (h : l.Perm m) : Reordered l m := by
  induction h with
  | nil => exact .nil
  | cons a _ ih => exact .cons rfl rfl (refl _) ih
  | swap a b l => exact .swap b a l
  | trans _ _ ih ih' => exact ih.trans ih'

theorem append_right (n : List Kdl.Node) (h : Reordered l m) : Reordered (l ++ n) (m ++ n) := by
  induction h with
  | nil => exact refl n
  | cons name entries children _ _ ih => exact .cons name entries children ih
  | swap a b l => exact .swap a b (l ++ n)
  | trans _ _ ih ih' => exact ih.trans ih'

theorem append_left (n : List Kdl.Node) (h : Reordered l m) : Reordered (n ++ l) (n ++ m) := by
  induction n with
  | nil => exact h
  | cons a n ih => exact .cons rfl rfl (refl _) ih

theorem append {l' m' : List Kdl.Node} (h : Reordered l m) (h' : Reordered l' m') :
    Reordered (l ++ l') (m ++ m') :=
  (h.append_right l').trans (h'.append_left m)

/-! ### Lists in another order -/

/-- The readings of nodes of a kind, if a reading does not look at the order of a block. -/
theorem map {α : Type} {read : Kdl.Node → α} {p : Kdl.Node → Prop}
    (hread : ∀ a b : Kdl.Node, a.Same b → p a → read a = read b)
    (hp : ∀ a b : Kdl.Node, a.Same b → p a → p b) (h : Reordered l m) (hl : ∀ a ∈ l, p a) :
    (l.map read).Perm (m.map read) ∧ ∀ b ∈ m, p b := by
  induction h with
  | nil => exact ⟨.refl _, hl⟩
  | @cons a b l m name entries children _ _ ih =>
    rw [List.forall_mem_cons] at hl
    obtain ⟨hperm, hm⟩ := ih hl.2
    have hsame : a.Same b := ⟨name, entries, children⟩
    rw [List.map_cons, List.map_cons, hread a b hsame hl.1, List.forall_mem_cons]
    exact ⟨hperm.cons _, hp a b hsame hl.1, hm⟩
  | swap a b l => exact ⟨.swap .., fun c hc => hl c ((List.Perm.swap a b l).mem_iff.mp hc)⟩
  | trans _ _ ih ih' =>
    obtain ⟨hperm, hm⟩ := ih hl
    obtain ⟨hperm', hn⟩ := ih' hm
    exact ⟨hperm.trans hperm', hn⟩

/-- A reading of nodes that never looks into a block. -/
theorem map_of_flat {α : Type} {read : Kdl.Node → α}
    (hread : ∀ a b : Kdl.Node, a.Same b → read a = read b) (h : Reordered l m) :
    (l.map read).Perm (m.map read) :=
  (h.map (p := fun _ => True) (fun a b hab _ => hread a b hab) (fun _ _ _ => id)
    fun _ _ => trivial).1

theorem names (h : Reordered l m) : (l.map Kdl.Node.name).Perm (m.map Kdl.Node.name) :=
  h.map_of_flat fun _ _ hab => hab.name

/-- Every node is there, with its block in some order. -/
theorem exists_same (h : Reordered l m) : ∀ b ∈ m, ∃ a ∈ l, a.Same b := by
  induction h with
  | nil => exact fun b hb => by cases hb
  | @cons a b l m name entries children _ _ ih =>
    refine List.forall_mem_cons.mpr ⟨⟨a, List.mem_cons_self, name, entries, children⟩, ?_⟩
    intro c hc
    obtain ⟨d, hd, hsame⟩ := ih c hc
    exact ⟨d, List.mem_cons_of_mem _ hd, hsame⟩
  | swap a b l =>
    exact fun c hc => ⟨c, (List.Perm.swap a b l).mem_iff.mp hc, rfl, rfl, refl _⟩
  | trans _ _ ih ih' =>
    intro c hc
    obtain ⟨b, hb, hbc⟩ := ih' c hc
    obtain ⟨a, ha, hab⟩ := ih b hb
    exact ⟨a, ha, hab.name.trans hbc.name, hab.entries.trans hbc.entries,
      hab.children.trans hbc.children⟩

theorem named (name : Str) (h : Reordered l m) :
    Reordered (Iwaya.named name l) (Iwaya.named name m) := by
  induction h with
  | nil => exact .nil
  | @cons a b l m hname entries children _ _ ih =>
    by_cases ha : a.name = name
    · rw [Iwaya.named, Iwaya.named, List.filter_cons_of_pos (by simpa using ha),
        List.filter_cons_of_pos (by simpa [← hname] using ha)]
      exact .cons hname entries children ih
    · rw [Iwaya.named, Iwaya.named, List.filter_cons_of_neg (by simpa using ha),
        List.filter_cons_of_neg (by simpa [← hname] using ha)]
      exact ih
  | swap a b l =>
    rw [Iwaya.named, Iwaya.named]
    exact of_perm ((List.Perm.swap ..).filter _)
  | trans _ _ ih ih' => exact ih.trans ih'

/-- The blocks of nodes, one after the other. -/
theorem flatMap (h : Reordered l m) :
    Reordered (l.flatMap Kdl.Node.children) (m.flatMap Kdl.Node.children) := by
  induction h with
  | nil => exact .nil
  | cons name entries children _ _ ih =>
    rw [List.flatMap_cons, List.flatMap_cons]
    exact children.append ih
  | swap a b l => exact of_perm ((List.Perm.swap ..).flatMap_right _)
  | trans _ _ ih ih' => exact ih.trans ih'

end Reordered

/-! ### The table -/

namespace Kdl.Node.Same

variable {a b : Kdl.Node}

theorem get (h : a.Same b) : b.get = a.get := by
  funext name
  rw [Kdl.Node.get, Kdl.Node.get, h.entries]

theorem arguments (h : a.Same b) : b.arguments = a.arguments := by
  rw [Kdl.Node.arguments, Kdl.Node.arguments, h.entries]

theorem strings (h : a.Same b) : b.strings = a.strings := by
  rw [Kdl.Node.strings, Kdl.Node.strings, h.arguments]

theorem argument (h : a.Same b) : b.argument = a.argument := by
  rw [Kdl.Node.argument, Kdl.Node.argument, h.strings]

theorem text (h : a.Same b) : b.text = a.text := by
  funext name
  rw [Kdl.Node.text, Kdl.Node.text, h.get]

theorem properties (h : a.Same b) (k : NodeKind) : k.Properties b ↔ k.Properties a := by
  cases k
  case root => rw [NodeKind.Properties, NodeKind.Properties, h.get]
  case secret => rw [NodeKind.Properties, NodeKind.Properties, h.get]
  all_goals exact Iff.rfl

end Kdl.Node.Same

/-- The nodes of a block conform to their kinds in any order, one depth after the other. -/
theorem Reordered.conforms {l m : List Kdl.Node} (h : Reordered l m)
    {kind : Str → Option NodeKind}
    (hl : ∀ child ∈ l, ∀ k, kind child.name = some k → Conforms k child) :
    ∀ child ∈ m, ∀ k, kind child.name = some k → Conforms k child := by
  induction h generalizing kind with
  | nil => exact hl
  | @cons a b l m name entries children _ ihc ihr =>
    rw [List.forall_mem_cons] at hl ⊢
    refine ⟨fun k hk => ?_, ihr hl.2⟩
    have hsame : a.Same b := ⟨name, entries, children⟩
    have hnames := children.names
    obtain ⟨hargs, hprops, hknown, hconf, honce, hreq⟩ := hl.1 k (name ▸ hk)
    refine ⟨hsame.arguments.symm ▸ hargs, (hsame.properties k).mpr hprops, fun hleaf c hc => ?_,
      ihc hconf, fun hset => hnames.nodup_iff.mp (honce hset),
      fun n hn => hnames.mem_iff.mp (hreq n hn)⟩
    obtain ⟨d, hd, hdc⟩ := children.exists_same c hc
    exact hdc.name ▸ hknown hleaf d hd
  | swap a b l => exact fun c hc => hl c ((List.Perm.swap a b l).mem_iff.mp hc)
  | trans _ _ ih ih' => exact ih' (ih hl)

theorem Kdl.Node.Same.conforms {a b : Kdl.Node} {k : NodeKind} (h : a.Same b)
    (ha : Conforms k a) : Conforms k b := by
  have hcons : Reordered [a] [b] := .cons h.name h.entries h.children .nil
  -- as the only node of a list whose names all stand for the kind
  refine @Reordered.conforms [a] [b] hcons (fun _ => some k) ?_ b (List.mem_singleton_self b) k rfl
  intro child hc k' hk'
  cases hk'
  rwa [List.mem_singleton.mp hc]

/-! ### The configuration -/

/-- The one node of a name is the same in any order. -/
theorem Reordered.lastOf {α : Type} {l m : List Kdl.Node} {name : Str} {read : Kdl.Node → α}
    {p : Kdl.Node → Prop} (hread : ∀ a b : Kdl.Node, a.Same b → p a → read a = read b)
    (hp : ∀ a b : Kdl.Node, a.Same b → p a → p b) (h : Reordered l m)
    (hnd : (l.map Kdl.Node.name).Nodup) (hl : ∀ a ∈ l, a.name = name → p a) :
    Iwaya.lastOf name read l = Iwaya.lastOf name read m := by
  have hnamed : ∀ a ∈ Iwaya.named name l, p a := by
    intro a ha
    obtain ⟨ha, hname⟩ := List.mem_filter.mp ha
    exact hl a ha (of_decide_eq_true hname)
  have hperm := ((h.named name).map hread hp hnamed).1
  rw [Iwaya.lastOf, Iwaya.lastOf]
  by_cases hmem : name ∈ l.map Kdl.Node.name
  · obtain ⟨c, hc, rfl⟩ := List.mem_map.mp hmem
    rw [named_of_nodup hnd hc, List.map_singleton] at hperm ⊢
    rw [List.singleton_perm.mp hperm]
  · have hnil : Iwaya.named name l = [] := by
      rw [Iwaya.named, List.filter_eq_nil_iff]
      exact fun a ha h => hmem (List.mem_map.mpr ⟨a, ha, of_decide_eq_true h⟩)
    rw [hnil, List.map_nil] at hperm ⊢
    rw [List.nil_perm.mp hperm]

/-- A setting that is written at most once and has no block of its own. -/
theorem Reordered.setting {α : Type} {l m : List Kdl.Node} {read : Kdl.Node → α}
    (hread : ∀ a b : Kdl.Node, a.Same b → read a = read b) (h : Reordered l m)
    (hnd : (l.map Kdl.Node.name).Nodup) (name : Str) :
    Iwaya.lastOf name read l = Iwaya.lastOf name read m :=
  h.lastOf (p := fun _ => True) (fun a b hab _ => hread a b hab) (fun _ _ _ => id) hnd
    fun _ _ _ => trivial

namespace Kdl.Node.Same

variable {a b : Kdl.Node}

theorem once {k : NodeKind} (ha : Conforms k a) (hset : k.hasSettings = true) :
    (a.children.map Kdl.Node.name).Nodup := by
  obtain ⟨-, -, -, -, honce, -⟩ := ha
  exact honce hset

theorem acquisitionOf (h : a.Same b) (ha : Conforms .accessToken a) :
    Iwaya.acquisitionOf a = Iwaya.acquisitionOf b := by
  rw [Iwaya.acquisitionOf, Iwaya.acquisitionOf,
    h.children.setting (fun c d hcd => by rw [hcd.argument, hcd.strings]) (once ha rfl)]

theorem providerOf (h : a.Same b) (ha : Conforms .provider a) :
    Iwaya.providerOf a = Iwaya.providerOf b := by
  have hnd := once ha rfl
  have hsettings : ProviderSettings.of a.children = .of b.children := by
    rw [ProviderSettings.of, ProviderSettings.of,
      h.children.setting (fun c d hcd => hcd.argument.symm) hnd,
      h.children.lastOf (p := Conforms .accessToken) (fun c d hcd hc => hcd.acquisitionOf hc)
        (fun c d hcd hc => hcd.conforms hc) hnd]
    obtain ⟨-, -, -, hconf, -, -⟩ := ha
    exact fun c hc hname => hconf c hc _ (hname ▸ rfl)
  rw [Iwaya.providerOf, Iwaya.providerOf, hsettings, h.argument]

theorem contextOf (h : a.Same b) (ha : Conforms .context a) :
    Iwaya.contextOf a = Iwaya.contextOf b := by
  have hsetting := h.children.setting (fun c d hcd => hcd.argument.symm) (once ha rfl)
  rw [Iwaya.contextOf, Iwaya.contextOf, ContextSettings.of, ContextSettings.of, h.argument]
  simp only [hsetting]

theorem secretOf (h : a.Same b) : Iwaya.secretOf a = Iwaya.secretOf b := by
  rw [Iwaya.secretOf, Iwaya.secretOf, h.argument, h.text]

theorem proxySecretOf (h : a.Same b) (ha : Conforms .proxySecret a) :
    Iwaya.proxySecretOf a = Iwaya.proxySecretOf b := by
  have hnd := once ha rfl
  have hsetting := h.children.setting (fun c d hcd => hcd.argument.symm) hnd
  have hread : ∀ c d : Kdl.Node, c.Same d → injectHeaderOf c = injectHeaderOf d := by
    intro c d hcd
    rw [injectHeaderOf, injectHeaderOf, hcd.argument, hcd.strings]
  have hheader := h.children.setting hread hnd
  rw [Iwaya.proxySecretOf, Iwaya.proxySecretOf, ProxySettings.of, ProxySettings.of, h.argument]
  simp only [hsetting, hheader]

end Kdl.Node.Same

/-- A configuration with its entries, and those of its policies, in another order. -/
structure Config.Permuted (c d : Config) : Prop where
  providers : c.providers.Perm d.providers
  contexts : c.contexts.Perm d.contexts
  ids : (c.policies.map CommandPolicy.id).Perm (d.policies.map CommandPolicy.id)
  policy : ∀ q ∈ d.policies, ∃ p ∈ c.policies, p.id = q.id ∧ p.secrets.Perm q.secrets ∧
    p.proxySecrets.Perm q.proxySecrets

theorem Config.Permuted.provider_isSome {c d : Config} (h : c.Permuted d) {id : ProviderId}
    (hid : (c.provider id).isSome) : (d.provider id).isSome := by
  rw [Config.provider, List.find?_isSome] at hid ⊢
  obtain ⟨p, hp, hpid⟩ := hid
  exact ⟨p, h.providers.mem_iff.mp hp, hpid⟩

/-- Validity does not depend on the order. -/
theorem Config.Permuted.valid {c d : Config} (h : c.Permuted d) (hc : c.Valid) : d.Valid where
  providers := (h.providers.map _).nodup_iff.mp hc.providers
  contexts := (h.contexts.map _).nodup_iff.mp hc.contexts
  context := fun context hmem => hc.context context (h.contexts.mem_iff.mpr hmem)
  policies := h.ids.nodup_iff.mp hc.policies
  policy := by
    intro q hq
    obtain ⟨p, hp, hid, hsecrets, hproxies⟩ := h.policy q hq
    have hvalid := hc.policy p hp
    have hnames : p.envNames.Perm q.envNames :=
      (hsecrets.map _).append (hproxies.flatMap_right _)
    refine ⟨hid ▸ hvalid.id, hnames.nodup_iff.mp hvalid.nodup,
      fun name hname => hvalid.envName name (hnames.mem_iff.mpr hname),
      fun s hs => h.provider_isSome (hvalid.provider s (hsecrets.mem_iff.mpr hs)), ?_⟩
    intro proxy hproxy
    have hv := hvalid.proxySecret proxy (hproxies.mem_iff.mpr hproxy)
    exact { hv with provider := h.provider_isSome hv.provider }

/-- The entries of the sections of a kind conform to the kind of its entries. -/
theorem conforms_entries {root : Kdl.Node} {name entry : Str} {k k' : NodeKind}
    (hroot : Conforms .root root) (hk : NodeKind.root.child name = some k)
    (hentries : ∀ node, Conforms k node →
      ∀ child ∈ node.children, child.name = entry ∧ Conforms k' child) :
    ∀ node ∈ entriesOf name root.children, Conforms k' node := by
  obtain ⟨-, -, -, hconf, -, -⟩ := hroot
  intro node hnode
  obtain ⟨sec, hsec, hnode⟩ := List.mem_flatMap.mp hnode
  obtain ⟨hsec, hname⟩ := List.mem_filter.mp hsec
  have hkind : NodeKind.root.child sec.name = some k := by rwa [of_decide_eq_true hname]
  exact (hentries sec (hconf sec hsec k hkind) node hnode).2

theorem conforms_providers {root : Kdl.Node} (h : Conforms .root root) :
    ∀ node ∈ entriesOf "providers".toList root.children, Conforms .provider node :=
  conforms_entries h rfl fun _ =>
    (conforms_section (k := .providers) rfl (fun _ => trivial) (fun _ => trivial) rfl rfl).mp

theorem conforms_contexts {root : Kdl.Node} (h : Conforms .root root) :
    ∀ node ∈ entriesOf "contexts".toList root.children, Conforms .context node :=
  conforms_entries h rfl fun _ =>
    (conforms_section (k := .contexts) rfl (fun _ => trivial) (fun _ => trivial) rfl rfl).mp

theorem conforms_policies {root : Kdl.Node} (h : Conforms .root root) :
    ∀ node ∈ entriesOf "policies".toList root.children, Conforms .command node :=
  conforms_entries h rfl fun _ =>
    (conforms_section (k := .policies) rfl (fun _ => trivial) (fun _ => trivial) rfl rfl).mp

/-- The secrets of a command in another order. -/
theorem Kdl.Node.Same.policyOf {a b : Kdl.Node} (h : a.Same b) (ha : Conforms .command a) :
    (Iwaya.policyOf a).id = (Iwaya.policyOf b).id ∧
      (Iwaya.policyOf a).secrets.Perm (Iwaya.policyOf b).secrets ∧
      (Iwaya.policyOf a).proxySecrets.Perm (Iwaya.policyOf b).proxySecrets := by
  have hproxies : ∀ c ∈ Iwaya.named "proxy-secret".toList a.children, Conforms .proxySecret c := by
    obtain ⟨-, -, -, hconf, -, -⟩ := ha
    intro c hc
    obtain ⟨hc, hname⟩ := List.mem_filter.mp hc
    exact hconf c hc .proxySecret (by rw [of_decide_eq_true hname]; rfl)
  refine ⟨h.argument.symm, ?_, ?_⟩
  · exact (h.children.named "secret".toList).map_of_flat fun c d hcd => hcd.secretOf
  · exact ((h.children.named "proxy-secret".toList).map (fun c d hcd hc => hcd.proxySecretOf hc)
      (fun c d hcd hc => hcd.conforms hc) hproxies).1

/-- The configurations of two orders of a document. -/
theorem Kdl.Node.Same.configOf {a b : Kdl.Node} (h : a.Same b) (ha : Conforms .root a) :
    (Iwaya.configOf a).Permuted (Iwaya.configOf b) where
  providers := ((h.children.named _).flatMap.map (fun c d hcd hc => hcd.providerOf hc)
    (fun c d hcd hc => hcd.conforms hc) (conforms_providers ha)).1
  contexts := ((h.children.named _).flatMap.map (fun c d hcd hc => hcd.contextOf hc)
    (fun c d hcd hc => hcd.conforms hc) (conforms_contexts ha)).1
  ids := by
    rw [Iwaya.configOf, Iwaya.configOf, Config.of, Config.of, List.map_map, List.map_map]
    exact (h.children.named _).flatMap.map_of_flat fun c d hcd => hcd.argument.symm
  policy := by
    intro q hq
    obtain ⟨d, hd, rfl⟩ := List.mem_map.mp hq
    obtain ⟨c, hc, hcd⟩ := (h.children.named _).flatMap.exists_same d hd
    exact ⟨Iwaya.policyOf c, List.mem_map_of_mem hc, hcd.policyOf (conforms_policies ha c hc)⟩

/-- **The schema does not look at the order.** -/
theorem Schema.reordered {nodes nodes' : List Kdl.Node} {root : Kdl.Node} (h : Schema nodes root)
    (hnodes : Reordered nodes nodes') : ∃ root', Schema nodes' root' := by
  obtain ⟨rfl, hname, hconf, hvalid⟩ := h
  have hlength := hnodes.names.length_eq
  rw [List.length_map, List.length_map, List.length_singleton] at hlength
  obtain ⟨root', rfl⟩ := List.length_eq_one_iff.mp hlength.symm
  obtain ⟨a, ha, hsame⟩ := hnodes.exists_same root' (List.mem_singleton_self root')
  obtain rfl := List.mem_singleton.mp ha
  exact ⟨root', rfl, hsame.name ▸ hname, hsame.conforms hconf, (hsame.configOf hconf).valid hvalid⟩

/-- **The parser accepts exactly the documents of the schema**, whatever the order in which
their nodes are written. -/
theorem parse_accepts_iff {kdlParse : Str → Except Str (List Kdl.Node)} {text : Str}
    {nodes : List Kdl.Node} (hnodes : kdlParse text = .ok nodes) :
    ((∃ config, parse kdlParse text = .ok config) ↔ ∃ root, Schema nodes root) ∧
      ∀ text' nodes', kdlParse text' = .ok nodes' → Reordered nodes nodes' →
        ((∃ config, parse kdlParse text' = .ok config) ↔
          ∃ config, parse kdlParse text = .ok config) := by
  have haccepts : ∀ t l, kdlParse t = .ok l →
      ((∃ config, parse kdlParse t = .ok config) ↔ ∃ root, Schema l root) := by
    intro t l hl
    constructor
    · rintro ⟨config, h⟩
      obtain ⟨_, root, hl', hschema, -⟩ := parse_eq_ok.mp h
      rw [hl] at hl'
      cases hl'
      exact ⟨root, hschema⟩
    · rintro ⟨root, hschema⟩
      exact ⟨_, parse_eq_ok.mpr ⟨l, root, hl, hschema, rfl⟩⟩
  refine ⟨haccepts text nodes hnodes, fun text' nodes' hnodes' hsame => ?_⟩
  rw [haccepts text nodes hnodes, haccepts text' nodes' hnodes']
  constructor
  · rintro ⟨_, h⟩
    exact h.reordered hsame.symm
  · rintro ⟨_, h⟩
    exact h.reordered hsame

/-- The sample with its sections from back to front: the policies come before the provider
they name. -/
def reversedTree : List Kdl.Node :=
  sampleTree.map fun root => .mk root.name root.entries (some root.children.reverse)

theorem reordered_sample : Reordered sampleTree reversedTree := by
  rw [reversedTree]
  induction sampleTree with
  | nil => exact .nil
  | cons root _ ih => exact .cons rfl rfl (.of_perm (List.reverse_perm root.children).symm) ih

theorem parse_accepts_reversed :
    ∃ config, parse (eitherKdl sampleTree reversedTree) "reversed".toList = .ok config := by
  have hsample : eitherKdl sampleTree reversedTree [] = .ok sampleTree := rfl
  exact ((parse_accepts_iff hsample).2 _ reversedTree rfl reordered_sample).mpr
    ⟨sampleConfig, parse_either reversedTree⟩

end Iwaya
