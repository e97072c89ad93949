import Iwaya.Config.Schema

/-!
# The parser accepts exactly the schema

The readers walk the blocks of a document from front to back, and remember in options which
settings they have met. One lemma for each reader says when it succeeds, and what it gives,
in the terms of the schema: a reader of settings has in its hands, at any moment, what the
children it has walked amount to. Their composition is `Iwaya.parse_eq_ok`.
-/

namespace Iwaya

open Text Checks

/-! ### Arguments and blocks -/

variable {node child : Kdl.Node} {owner : Str}

/-- The reader of arguments succeeds on strings. -/
theorem positionalStrings_eq_ok {ss : List Str} :
    positionalStrings node = .ok ss ↔ node.arguments = ss.map Kdl.Value.string := by
  rw [positionalStrings, Kdl.Node.arguments]
  refine (@mapM_eq_ok _ _ _ _ (fun e => ∃ s, e.2 = .string s)
    (fun e => (e.2.asString).getD []) (fun e b => ?_) _ _).trans ?_
  · rcases e with ⟨name, s | n | _⟩ <;> simp [Kdl.Value.asString, invalid, eq_comm]
  · -- entry by entry, a string is the one its text gives back
    generalize (node.entries.filter fun e => e.1.isNone) = entries
    induction entries generalizing ss with
    | nil => simp
    | cons e entries ih =>
      rcases ss with _ | ⟨t, ss⟩
      · simp
      rw [List.forall_mem_cons, List.map_cons, List.map_cons, List.map_cons, List.cons.injEq,
        List.cons.injEq, ← ih, and_assoc, and_left_comm (b := t = _), ← and_assoc]
      refine and_congr_left fun _ => ?_
      rcases e with ⟨name, s | n | _⟩ <;> simp [Kdl.Value.asString, eq_comm]

theorem strings_of_arguments {ss : List Str} (h : node.arguments = ss.map Kdl.Value.string) :
    node.strings = ss := by
  rw [Kdl.Node.strings, h, List.filterMap_map]
  exact List.filterMap_some

/-- The one argument of a node. -/
theorem argument_of_arguments {s : Str} {ss : List Str}
    (h : node.arguments = (s :: ss).map Kdl.Value.string) : node.argument = s := by
  rw [Kdl.Node.argument, strings_of_arguments h, List.headI_cons]

theorem argument_of_singleton {s : Str} (h : node.arguments = [.string s]) : node.argument = s :=
  argument_of_arguments (show node.arguments = [s].map Kdl.Value.string from h)

theorem singleStringArgument_eq_ok {s : Str} :
    singleStringArgument node owner = .ok s ↔
      (∃ t, node.arguments = [.string t]) ∧ s = node.argument := by
  rw [singleStringArgument, bind_eq_ok]
  constructor
  · rintro ⟨ss, hss, h⟩
    have hargs := positionalStrings_eq_ok.mp hss
    rcases ss with _ | ⟨t, _ | ⟨u, ss⟩⟩
    · cases h
    · cases h
      exact ⟨⟨s, hargs⟩, (argument_of_arguments hargs).symm⟩
    · cases h
  · rintro ⟨⟨t, ht⟩, rfl⟩
    have hargs : node.arguments = [t].map Kdl.Value.string := ht
    rw [argument_of_arguments hargs]
    exact ⟨[t], positionalStrings_eq_ok.mpr hargs, rfl⟩

section Lists

variable {α : Type} {name : Str} {read : Kdl.Node → α} {l : List Kdl.Node}

theorem named_append (name : Str) (l l' : List Kdl.Node) :
    named name (l ++ l') = named name l ++ named name l' :=
  List.filter_append ..

theorem named_singleton (h : child.name = name) : named name [child] = [child] := by
  simp [named, h]

theorem named_singleton_of_ne (h : child.name ≠ name) : named name [child] = [] := by
  simp [named, h]

/-- The last node of a name is the one at the end, if it has the name. -/
theorem lastOf_concat : lastOf name read (l ++ [child]) =
    if child.name = name then some (read child) else lastOf name read l := by
  split_ifs with h
  · rw [lastOf, named_append, named_singleton h, List.map_append, List.map_singleton,
      List.getLast?_concat]
  · rw [lastOf, named_append, named_singleton_of_ne h, List.append_nil, lastOf]

theorem lastOf_eq_none : lastOf name read l = none ↔ name ∉ l.map Kdl.Node.name := by
  simp [lastOf, named]

/-- A node of the name is there if something comes of it. -/
theorem mem_of_lastOf {a : α} (h : lastOf name read l = some a) : name ∈ l.map Kdl.Node.name := by
  by_contra hn
  rw [lastOf_eq_none.mpr hn] at h
  cases h

/-- And what comes of it is the reading of one of them. -/
theorem exists_lastOf (read : Kdl.Node → α) (h : name ∈ l.map Kdl.Node.name) :
    ∃ child ∈ l, child.name = name ∧ lastOf name read l = some (read child) := by
  rcases hlast : lastOf name read l with _ | a
  · exact absurd h (lastOf_eq_none.mp hlast)
  · obtain ⟨child, hc, rfl⟩ := List.mem_map.mp (List.mem_of_getLast? hlast)
    obtain ⟨hc, hname⟩ := List.mem_filter.mp hc
    exact ⟨child, hc, of_decide_eq_true hname, rfl⟩

end Lists

/-- Where names are not repeated, a node is the only one of its name. -/
theorem named_of_nodup {l : List Kdl.Node} (hnd : (l.map Kdl.Node.name).Nodup) (hc : child ∈ l) :
    named child.name l = [child] := by
  induction l with
  | nil => cases hc
  | cons a l ih =>
    rw [List.map_cons, List.nodup_cons] at hnd
    have hrest : ∀ b ∈ l, b.name ≠ a.name := fun b hb h => hnd.1 (h ▸ List.mem_map_of_mem hb)
    rcases List.mem_cons.mp hc with rfl | hc
    · have hnil : named child.name l = [] := by
        simpa [named] using hrest
      rw [named, List.filter_cons_of_pos (by simp), ← named, hnil]
    · rw [named, List.filter_cons_of_neg (by simpa using (hrest child hc).symm), ← named,
        ih hnd.2 hc]

theorem lastOf_of_nodup {α : Type} {read : Kdl.Node → α} {l : List Kdl.Node}
    (hnd : (l.map Kdl.Node.name).Nodup) (hc : child ∈ l) :
    lastOf child.name read l = some (read child) := by
  rw [lastOf, named_of_nodup hnd hc]
  rfl

/-- A setting with a reader of its own, written once. -/
theorem refuseTwice_bind_eq_ok {α σ : Type} {target : Option α} {setting : Str}
    {x : Except ParseFailure α} {ok : Prop} {v : α} (hx : ∀ a, x = .ok a ↔ ok ∧ a = v)
    {put : α → σ} {s' : σ} :
    (refuseTwice target owner setting >>= fun _ => x >>= fun a => pure (put a)) = .ok s' ↔
      ok ∧ target = none ∧ s' = put v := by
  simp only [refuseTwice, bind_eq_ok, refuse_eq_ok, exists_const, hx, pure, Except.pure,
    Except.ok.injEq, Bool.not_eq_true, Option.isSome_eq_false_iff, Option.isNone_iff_eq_none]
  constructor
  · rintro ⟨hnone, _, ⟨hok, rfl⟩, rfl⟩
    exact ⟨hok, hnone, rfl⟩
  · rintro ⟨hok, hnone, rfl⟩
    exact ⟨hnone, _, ⟨hok, rfl⟩, rfl⟩

/-- A setting that is written once. -/
theorem setOnce_bind_eq_ok {σ : Type} {target : Option Str} {put : Option Str → σ} {s' : σ} :
    (setOnce target child owner >>= fun v => pure (put v)) = .ok s' ↔
      (∃ t, child.arguments = [.string t]) ∧ target = none ∧ s' = put (some child.argument) := by
  simp only [setOnce, refuseTwice, bind_eq_ok, refuse_eq_ok, exists_const,
    singleStringArgument_eq_ok, pure, Except.pure, Except.ok.injEq, Bool.not_eq_true,
    Option.isSome_eq_false_iff, Option.isNone_iff_eq_none]
  constructor
  · rintro ⟨v, ⟨hnone, s, ⟨hargs, rfl⟩, rfl⟩, rfl⟩
    exact ⟨hargs, hnone, rfl⟩
  · rintro ⟨hargs, hnone, rfl⟩
    exact ⟨_, ⟨hnone, _, ⟨hargs, rfl⟩, rfl⟩, rfl⟩

/-- A reader of settings that takes each of them once. -/
theorem children_once {σ : Type} {ok : Kdl.Node → Prop}
    {read : σ → Kdl.Node → Except ParseFailure σ} {settings : List Kdl.Node → σ}
    (hread : ∀ done child s', read (settings done) child = .ok s' ↔
      ok child ∧ child.name ∉ done.map Kdl.Node.name ∧ s' = settings (done ++ [child]))
    (children : List Kdl.Node) (s : σ) :
    children.foldlM read (settings []) = .ok s ↔
      (children.map Kdl.Node.name).Nodup ∧ (∀ child ∈ children, ok child) ∧
        s = settings children := by
  refine (foldlM_built_once hread children [] s).trans ?_
  simp

/-- A reader that takes one argument. -/
theorem one_argument {α : Type} {g : List Str → Except ParseFailure α}
    {h : Str → Except ParseFailure α} {r : α} (hone : ∀ s, g [s] = h s)
    (hnone : ∃ e, g [] = .error e) (hmore : ∀ s t ss, ∃ e, g (s :: t :: ss) = .error e) :
    (positionalStrings node >>= g) = .ok r ↔
      ∃ s, node.arguments = [.string s] ∧ h s = .ok r := by
  rw [bind_eq_ok]
  constructor
  · rintro ⟨_ | ⟨s, _ | ⟨t, ss⟩⟩, hss, hg⟩
    · obtain ⟨e, he⟩ := hnone
      cases he.symm.trans hg
    · exact ⟨s, positionalStrings_eq_ok.mp hss, (hone s).symm.trans hg⟩
    · obtain ⟨e, he⟩ := hmore s t ss
      cases he.symm.trans hg
  · rintro ⟨s, hargs, hs⟩
    exact ⟨[s], positionalStrings_eq_ok.mpr hargs, (hone s).trans hs⟩

theorem require_eq_ok {value : Option Str} {field s : Str} :
    require value field owner = .ok s ↔ value = some s := by
  cases value <;> simp [require, invalid]

/-! ### The table, kind by kind -/

theorem conforms_iff {k : NodeKind} : Conforms k node ↔
    k.Arguments node.arguments ∧ k.Properties node ∧
      (k.isLeaf = false → ∀ child ∈ node.children, (k.child child.name).isSome = true) ∧
      (∀ child ∈ node.children, ∀ k', k.child child.name = some k' → Conforms k' child) ∧
      (k.hasSettings = true → (node.children.map Kdl.Node.name).Nodup) ∧
      ∀ name ∈ k.required, name ∈ node.children.map Kdl.Node.name := by
  constructor
  · rintro ⟨h1, h2, h3, h4, h5, h6⟩
    exact ⟨h1, h2, h3, h4, h5, h6⟩
  · rintro ⟨h1, h2, h3, h4, h5, h6⟩
    exact ⟨h1, h2, h3, h4, h5, h6⟩

/-- What is not looked into conforms by its arguments and properties. -/
theorem conforms_leaf {k : NodeKind} (hk : k.isLeaf = true) :
    Conforms k node ↔ k.Arguments node.arguments ∧ k.Properties node := by
  have hempty : k.children = [] := List.isEmpty_iff.mp hk
  have hrequired : k.required = [] ∧ k.hasSettings = false := by
    cases k <;> first | exact ⟨rfl, rfl⟩ | cases hempty
  rw [conforms_iff]
  simp [hk, NodeKind.child, hempty, hrequired]

/-- **A block**: each child has a kind of its own, and conforms to it. -/
theorem conforms_block {k : NodeKind} (hk : k.isLeaf = false) : Conforms k node ↔
    k.Arguments node.arguments ∧ k.Properties node ∧
      (∀ child ∈ node.children, ∃ k', k.child child.name = some k' ∧ Conforms k' child) ∧
      (k.hasSettings = true → (node.children.map Kdl.Node.name).Nodup) ∧
      ∀ name ∈ k.required, name ∈ node.children.map Kdl.Node.name := by
  rw [conforms_iff]
  refine and_congr_right fun _ => and_congr_right fun _ => ?_
  rw [← and_assoc]
  refine and_congr_left fun _ => ⟨fun ⟨hknown, hall⟩ child hc => ?_, fun h => ⟨fun _ child hc => ?_,
    fun child hc k' hk' => ?_⟩⟩
  · obtain ⟨k', hk'⟩ := Option.isSome_iff_exists.mp (hknown hk child hc)
    exact ⟨k', hk', hall child hc k' hk'⟩
  · obtain ⟨k', hk', -⟩ := h child hc
    rw [hk']
    rfl
  · obtain ⟨k'', hk'', hconf⟩ := h child hc
    obtain rfl := Option.some.inj (hk'.symm.trans hk'')
    exact hconf

/-- The kind of a child is the one its name has in the table. -/
theorem exists_kind {p k : NodeKind} (h : p.child child.name = some k) :
    (∃ k', p.child child.name = some k' ∧ Conforms k' child) ↔ Conforms k child := by
  rw [h]
  constructor
  · rintro ⟨k', hk, hconf⟩
    rwa [← Option.some.inj hk] at hconf
  · exact fun hconf => ⟨k, rfl, hconf⟩

theorem conforms_setting : Conforms .setting node ↔ ∃ s, node.arguments = [.string s] := by
  rw [conforms_leaf rfl]
  exact and_iff_left trivial

/-! ### Contexts -/

/-- What the reader of a context asks of a setting. -/
def IsContextSetting (child : Kdl.Node) : Prop :=
  (NodeKind.context.child child.name).isSome = true ∧ ∃ s, child.arguments = [.string s]

/-- One branch of a reader of settings: the setting of a name, found new. -/
theorem setting_iff {σ α : Type} {name : Str} {read : Kdl.Node → α} {done : List Kdl.Node}
    {ok ok' : Prop} {s' a b : σ} (hn : child.name = name) (hok : ok ↔ ok') (hab : a = b) :
    (ok ∧ lastOf name read done = none ∧ s' = a) ↔
      ok' ∧ child.name ∉ done.map Kdl.Node.name ∧ s' = b := by
  rw [lastOf_eq_none, hab, hn, hok]

/-- The last branch: a setting of no known name. -/
theorem unknown_iff {σ : Type} {done : List Kdl.Node} {ok : Prop} {s' b : σ} (hno : ¬ok) :
    unknownSetting child owner = .ok s' ↔
      ok ∧ child.name ∉ done.map Kdl.Node.name ∧ s' = b := by
  constructor
  · intro h
    cases h
  · exact fun h => absurd h.1 hno

theorem contextSetting_eq_ok {done : List Kdl.Node} {s' : ContextSettings} :
    contextSetting owner (.of done) child = .ok s' ↔
      IsContextSetting child ∧ child.name ∉ done.map Kdl.Node.name ∧
        s' = .of (done ++ [child]) := by
  have hok : ∀ name, (NodeKind.context.child name).isSome = true → child.name = name →
      ((∃ s, child.arguments = [.string s]) ↔ IsContextSetting child) := by
    rintro name hk rfl
    exact (and_iff_right hk).symm
  rw [contextSetting]
  split_ifs with h1 h2 h3 h4
  · rw [setOnce_bind_eq_ok]
    exact setting_iff h1 (hok _ rfl h1) (by simp [ContextSettings.of, lastOf_concat, h1])
  · rw [setOnce_bind_eq_ok]
    exact setting_iff h2 (hok _ rfl h2) (by simp [ContextSettings.of, lastOf_concat, h2])
  · rw [setOnce_bind_eq_ok]
    exact setting_iff h3 (hok _ rfl h3) (by simp [ContextSettings.of, lastOf_concat, h3])
  · rw [setOnce_bind_eq_ok]
    exact setting_iff h4 (hok _ rfl h4) (by simp [ContextSettings.of, lastOf_concat, h4])
  · refine unknown_iff fun h => ?_
    have hsome := h.1
    simp only [NodeKind.child, NodeKind.children, List.lookup_cons, List.lookup_nil,
      beq_false_of_ne h1, beq_false_of_ne h2, beq_false_of_ne h3, beq_false_of_ne h4] at hsome
    cases hsome

/-- The runtime is a setting whose value is looked at. -/
theorem contextChild_iff : (∃ k', NodeKind.context.child child.name = some k' ∧ Conforms k' child) ↔
    IsContextSetting child ∧ (child.name = "runtime".toList →
      child.argument ≠ [] ∧ child.argument.any isShellChar = false) := by
  rw [IsContextSetting]
  by_cases h : child.name = "runtime".toList
  · have hkind : NodeKind.context.child child.name = some .runtime := by
      rw [h]
      rfl
    rw [exists_kind hkind, conforms_leaf rfl, hkind]
    constructor
    · rintro ⟨⟨s, hargs, hs⟩, -⟩
      rw [argument_of_singleton hargs]
      exact ⟨⟨rfl, s, hargs⟩, fun _ => hs⟩
    · rintro ⟨⟨-, s, hargs⟩, hs⟩
      rw [argument_of_singleton hargs] at hs
      exact ⟨⟨s, hargs, hs h⟩, trivial⟩
  · have hkind : ∀ k', NodeKind.context.child child.name = some k' → k' = .setting := by
      intro k' hk'
      simp only [NodeKind.child, NodeKind.children, List.lookup_cons, List.lookup_nil,
        beq_false_of_ne h] at hk'
      split at hk'
      · exact (Option.some.inj hk').symm
      · split at hk'
        · exact (Option.some.inj hk').symm
        · split at hk'
          · exact (Option.some.inj hk').symm
          · cases hk'
    constructor
    · rintro ⟨k', hk', hconf⟩
      obtain rfl := hkind k' hk'
      exact ⟨⟨by rw [hk']; rfl, conforms_setting.mp hconf⟩, fun h' => absurd h' h⟩
    · rintro ⟨⟨hsome, hargs⟩, -⟩
      obtain ⟨k', hk'⟩ := Option.isSome_iff_exists.mp hsome
      obtain rfl := hkind k' hk'
      exact ⟨_, hk', conforms_setting.mpr hargs⟩

/-- **The reader of contexts.** -/
theorem parseContext_eq_ok {context : DockerContext} : parseContext node = .ok context ↔
    (node.name = "docker".toList ∧ Conforms .context node) ∧ context = contextOf node := by
  have hfold : ∀ owner s, node.children.foldlM (contextSetting owner) {} = .ok s ↔
      (node.children.map Kdl.Node.name).Nodup ∧ (∀ child ∈ node.children, IsContextSetting child) ∧
        s = .of node.children := by
    intro owner s
    exact children_once (fun done child s' => contextSetting_eq_ok) node.children s
  rw [parseContext, bind_eq_ok]
  simp only [refuse_eq_ok, exists_const, not_not]
  rw [and_assoc]
  refine and_congr_right fun hname => ?_
  refine (one_argument (fun _ => rfl) ⟨_, rfl⟩ fun _ _ _ => ⟨_, rfl⟩).trans ?_
  simp only [bind_eq_ok, hfold, refuse_eq_ok, require_eq_ok, exists_const, pure, Except.pure,
    Except.ok.injEq, conforms_block (show NodeKind.context.isLeaf = false from rfl),
    contextChild_iff]
  constructor
  · rintro ⟨id, hargs, s, ⟨hnd, hall, rfl⟩, hruntime, user, huser, workdir, hworkdir, container,
      hcontainer, rfl⟩
    refine ⟨⟨⟨id, hargs⟩, trivial, fun child hc => ⟨hall child hc, fun hname => ?_⟩, fun _ => hnd,
      ?_⟩, ?_⟩
    · have hlast : (ContextSettings.of node.children).runtime = some child.argument := by
        rw [ContextSettings.of, ← hname]
        exact lastOf_of_nodup hnd hc
      rw [hlast] at hruntime
      simpa using hruntime
    · simp only [NodeKind.required, List.forall_mem_cons, List.not_mem_nil, IsEmpty.forall_iff,
        implies_true, and_true]
      exact ⟨mem_of_lastOf huser, mem_of_lastOf hworkdir, mem_of_lastOf hcontainer⟩
    · simp only [contextOf, huser, hworkdir, hcontainer, Option.getD_some]
      rw [argument_of_singleton hargs]
  · rintro ⟨⟨⟨id, hargs⟩, -, hall, hnd, hreq⟩, rfl⟩
    simp only [NodeKind.required, List.forall_mem_cons, List.not_mem_nil, IsEmpty.forall_iff,
      implies_true, and_true] at hreq
    obtain ⟨user, -, -, huser⟩ := exists_lastOf Kdl.Node.argument hreq.1
    obtain ⟨workdir, -, -, hworkdir⟩ := exists_lastOf Kdl.Node.argument hreq.2.1
    obtain ⟨container, -, -, hcontainer⟩ := exists_lastOf Kdl.Node.argument hreq.2.2
    refine ⟨id, hargs, _, ⟨hnd rfl, fun child hc => (hall child hc).1, rfl⟩, ?_, _, huser, _,
      hworkdir, _, hcontainer, ?_⟩
    · rcases hr : (ContextSettings.of node.children).runtime with _ | r
      · decide
      · obtain ⟨child, hc, hname, hlast⟩ := exists_lastOf Kdl.Node.argument (mem_of_lastOf hr)
        obtain rfl := Option.some.inj (hr.symm.trans hlast)
        simpa using (hall child hc).2 hname
    · simp only [contextOf, ContextSettings.of, huser, hworkdir, hcontainer, Option.getD_some]
      rw [argument_of_singleton hargs]

/-! ### Providers -/

theorem conforms_exec :
    Conforms .exec node ↔
      ∃ program args, node.arguments = (program :: args).map Kdl.Value.string := by
  rw [conforms_leaf rfl]
  exact and_iff_left trivial

/-- A block with one child, the acquisition. -/
theorem conforms_accessToken : Conforms .accessToken node ↔
    ∃ child, node.children = [child] ∧ child.name = "exec".toList ∧ Conforms .exec child := by
  have hkind : ∀ child : Kdl.Node,
      (∃ k', NodeKind.accessToken.child child.name = some k' ∧ Conforms k' child) ↔
        child.name = "exec".toList ∧ Conforms .exec child := by
    intro child
    by_cases h : child.name = "exec".toList
    · rw [exists_kind (k := .exec) (by rw [h]; rfl), and_iff_right h]
    · have hnone : NodeKind.accessToken.child child.name = none := by
        simp only [NodeKind.child, NodeKind.children, List.lookup_cons, List.lookup_nil,
          beq_false_of_ne h]
      rw [hnone]
      constructor
      · rintro ⟨_, hk, -⟩
        cases hk
      · exact fun hc => absurd hc.1 h
  rw [conforms_block rfl]
  simp only [hkind]
  constructor
  · rintro ⟨-, -, hall, hnd, hreq⟩
    -- all children have the same name, and no two have
    obtain ⟨child, hc, -⟩ := List.mem_map.mp (hreq _ (List.mem_singleton_self _))
    have hfilter := named_of_nodup (hnd rfl) hc
    rw [named, List.filter_eq_self.mpr fun a ha => by simp [(hall a ha).1, (hall child hc).1]]
      at hfilter
    exact ⟨child, hfilter, hall child hc⟩
  · rintro ⟨child, hchildren, hname, hconf⟩
    rw [hchildren]
    refine ⟨trivial, trivial, ?_, fun _ => List.nodup_singleton _, ?_⟩
    · simpa using ⟨hname, hconf⟩
    · simpa [NodeKind.required] using hname.symm

/-- **The reader of an access token.** -/
theorem parseAccessToken_eq_ok {acquisition : ExecAcquisition} :
    parseAccessToken node owner = .ok acquisition ↔
      Conforms .accessToken node ∧ acquisition = acquisitionOf node := by
  have hof : ∀ child : Kdl.Node, node.children = [child] → child.name = "exec".toList →
      ∀ program args, child.arguments = (program :: args).map Kdl.Value.string →
        acquisitionOf node = { program, args } := by
    intro child hchildren hname program args hargs
    rw [acquisitionOf, hchildren, lastOf, named_singleton hname]
    simp [argument_of_arguments hargs, strings_of_arguments hargs]
  rw [conforms_accessToken, parseAccessToken]
  constructor
  · intro h
    rcases hc : node.children with _ | ⟨child, _ | ⟨other, rest⟩⟩
    · rw [hc] at h
      cases h
    · rw [hc] at h
      simp only at h
      split_ifs at h with hname
      · obtain ⟨ss, hss, h⟩ := bind_eq_ok.mp h
        have hargs := positionalStrings_eq_ok.mp hss
        rcases ss with _ | ⟨program, args⟩
        · cases h
        · cases h
          exact ⟨⟨child, rfl, hname, conforms_exec.mpr ⟨_, _, hargs⟩⟩,
            (hof child hc hname _ _ hargs).symm⟩
      · cases h
    · rw [hc] at h
      cases h
  · rintro ⟨⟨child, hchildren, hname, hconf⟩, rfl⟩
    obtain ⟨program, args, hargs⟩ := conforms_exec.mp hconf
    rw [hof child hchildren hname _ _ hargs, hchildren]
    simp only [if_pos hname]
    exact bind_eq_ok.mpr ⟨_, positionalStrings_eq_ok.mpr hargs, rfl⟩

theorem providerSetting_eq_ok {done : List Kdl.Node} {s' : ProviderSettings} :
    providerSetting owner (.of done) child = .ok s' ↔
      (∃ k', NodeKind.provider.child child.name = some k' ∧ Conforms k' child) ∧
        child.name ∉ done.map Kdl.Node.name ∧ s' = .of (done ++ [child]) := by
  rw [providerSetting]
  split_ifs with h1 h2
  · rw [setOnce_bind_eq_ok]
    refine setting_iff h1 ?_ (by simp [ProviderSettings.of, lastOf_concat, h1])
    rw [exists_kind (k := .setting) (by rw [h1]; rfl), conforms_setting]
  · refine (refuseTwice_bind_eq_ok fun a => parseAccessToken_eq_ok).trans ?_
    refine setting_iff h2 ?_ (by simp [ProviderSettings.of, lastOf_concat, h2])
    rw [exists_kind (k := .accessToken) (by rw [h2]; rfl)]
  · refine unknown_iff ?_
    rintro ⟨k', hk', -⟩
    simp only [NodeKind.child, NodeKind.children, List.lookup_cons, List.lookup_nil,
      beq_false_of_ne h1, beq_false_of_ne h2] at hk'
    cases hk'

/-- **The reader of providers.** -/
theorem parseProvider_eq_ok {provider : Provider} : parseProvider node = .ok provider ↔
    (node.name = "bws".toList ∧ Conforms .provider node) ∧ provider = providerOf node := by
  have hfold : ∀ owner s, node.children.foldlM (providerSetting owner) {} = .ok s ↔
      (node.children.map Kdl.Node.name).Nodup ∧
        (∀ child ∈ node.children,
          ∃ k', NodeKind.provider.child child.name = some k' ∧ Conforms k' child) ∧
        s = .of node.children := by
    intro owner s
    exact children_once (fun done child s' => providerSetting_eq_ok) node.children s
  have hbws : ∀ p, parseBwsProvider node = .ok p ↔
      Conforms .provider node ∧ Provider.bws p = providerOf node := by
    intro p
    rw [parseBwsProvider]
    refine (one_argument (fun _ => rfl) ⟨_, rfl⟩ fun _ _ _ => ⟨_, rfl⟩).trans ?_
    simp only [bind_eq_ok, hfold, require_eq_ok, conforms_block
      (show NodeKind.provider.isLeaf = false from rfl)]
    constructor
    · rintro ⟨id, hargs, s, ⟨hnd, hall, rfl⟩, project, hproject, hend⟩
      rcases htoken : (ProviderSettings.of node.children).accessToken with _ | token
      · rw [htoken] at hend
        cases hend
      · rw [htoken] at hend
        cases hend
        refine ⟨⟨⟨id, hargs⟩, trivial, hall, fun _ => hnd, ?_⟩, ?_⟩
        · simp only [NodeKind.required, List.forall_mem_cons, List.not_mem_nil,
            IsEmpty.forall_iff, implies_true, and_true]
          exact ⟨mem_of_lastOf hproject, mem_of_lastOf htoken⟩
        · simp only [providerOf, hproject, htoken, Option.getD_some]
          rw [argument_of_singleton hargs]
    · rintro ⟨⟨⟨id, hargs⟩, -, hall, hnd, hreq⟩, hp⟩
      simp only [NodeKind.required, List.forall_mem_cons, List.not_mem_nil, IsEmpty.forall_iff,
        implies_true, and_true] at hreq
      obtain ⟨project, -, -, hproject⟩ := exists_lastOf Kdl.Node.argument hreq.1
      obtain ⟨token, -, -, htoken⟩ := exists_lastOf acquisitionOf hreq.2
      refine ⟨id, hargs, _, ⟨hnd rfl, hall, rfl⟩, _, hproject, ?_⟩
      simp only [providerOf, ProviderSettings.of, hproject, htoken, Option.getD_some] at hp ⊢
      rw [argument_of_singleton hargs] at hp
      rw [Provider.bws.inj hp]
      rfl
  rw [parseProvider]
  split_ifs with hname
  · rw [bind_eq_ok, and_iff_right hname]
    simp only [hbws, pure, Except.pure, Except.ok.injEq]
    constructor
    · rintro ⟨p, ⟨hconf, hp⟩, rfl⟩
      exact ⟨hconf, hp⟩
    · rintro ⟨hconf, rfl⟩
      exact ⟨_, ⟨hconf, rfl⟩, rfl⟩
  · simp only [invalid, hname, false_and, reduceCtorEq]

/-! ### Policies -/

theorem conforms_injectHeader : Conforms .injectHeader node ↔
    ∃ name template, node.arguments = [.string name, .string template] := by
  rw [conforms_leaf rfl]
  exact and_iff_left trivial

theorem injectHeaderOf_eq {name template : Str}
    (h : node.arguments = [name, template].map Kdl.Value.string) :
    injectHeaderOf node = { name, template } := by
  rw [injectHeaderOf, argument_of_arguments h, strings_of_arguments h]
  rfl

theorem proxySetting_eq_ok {done : List Kdl.Node} {s' : ProxySettings} :
    proxySetting owner (.of done) child = .ok s' ↔
      (∃ k', NodeKind.proxySecret.child child.name = some k' ∧ Conforms k' child) ∧
        child.name ∉ done.map Kdl.Node.name ∧ s' = .of (done ++ [child]) := by
  have hok : ∀ name, NodeKind.proxySecret.child name = some .setting → child.name = name →
      ((∃ s, child.arguments = [.string s]) ↔
        ∃ k', NodeKind.proxySecret.child child.name = some k' ∧ Conforms k' child) := by
    rintro name hk rfl
    rw [exists_kind hk, conforms_setting]
  rw [proxySetting]
  split_ifs with h1 h2 h3 h4 h5
  · refine Iff.trans (b := Conforms .injectHeader child ∧
      lastOf "inject-header".toList injectHeaderOf done = none ∧
      s' = { ProxySettings.of done with injectHeader := some (injectHeaderOf child) }) ?_
      (setting_iff h1 (exists_kind (by rw [h1]; rfl)).symm
        (by simp [ProxySettings.of, lastOf_concat, h1]))
    rw [conforms_injectHeader, bind_eq_ok]
    simp only [refuseTwice, refuse_eq_ok, exists_const, Bool.not_eq_true,
      Option.isSome_eq_false_iff, Option.isNone_iff_eq_none]
    rw [and_left_comm]
    refine and_congr_right fun _ => ?_
    constructor
    · intro h
      obtain ⟨ss, hss, h⟩ := bind_eq_ok.mp h
      have hargs := positionalStrings_eq_ok.mp hss
      rcases ss with _ | ⟨name, _ | ⟨template, _ | ⟨other, rest⟩⟩⟩
      · cases h
      · cases h
      · cases h
        exact ⟨⟨name, template, hargs⟩, by rw [injectHeaderOf_eq hargs]⟩
      · cases h
    · rintro ⟨⟨name, template, hargs⟩, rfl⟩
      refine bind_eq_ok.mpr ⟨[name, template], positionalStrings_eq_ok.mpr hargs, ?_⟩
      rw [injectHeaderOf_eq hargs]
      rfl
  · rw [setOnce_bind_eq_ok]
    exact setting_iff h2 (hok _ rfl h2) (by simp [ProxySettings.of, lastOf_concat, h2])
  · rw [setOnce_bind_eq_ok]
    exact setting_iff h3 (hok _ rfl h3) (by simp [ProxySettings.of, lastOf_concat, h3])
  · rw [setOnce_bind_eq_ok]
    exact setting_iff h4 (hok _ rfl h4) (by simp [ProxySettings.of, lastOf_concat, h4])
  · rw [setOnce_bind_eq_ok]
    exact setting_iff h5 (hok _ rfl h5) (by simp [ProxySettings.of, lastOf_concat, h5])
  · refine unknown_iff ?_
    rintro ⟨k', hk', -⟩
    simp only [NodeKind.child, NodeKind.children, List.lookup_cons, List.lookup_nil,
      beq_false_of_ne h1, beq_false_of_ne h2, beq_false_of_ne h3,
      beq_false_of_ne h4, beq_false_of_ne h5] at hk'
    cases hk'

/-- **The reader of a proxy-backed secret.** -/
theorem parseProxySecret_eq_ok {spec : ProxySecretSpec} :
    parseProxySecret node owner = .ok spec ↔
      Conforms .proxySecret node ∧ spec = proxySecretOf node := by
  have hfold : ∀ owner s, node.children.foldlM (proxySetting owner) {} = .ok s ↔
      (node.children.map Kdl.Node.name).Nodup ∧
        (∀ child ∈ node.children,
          ∃ k', NodeKind.proxySecret.child child.name = some k' ∧ Conforms k' child) ∧
        s = .of node.children := by
    intro owner s
    exact children_once (fun done child s' => proxySetting_eq_ok) node.children s
  rw [parseProxySecret]
  refine (one_argument (fun _ => rfl) ⟨_, rfl⟩ fun _ _ _ => ⟨_, rfl⟩).trans ?_
  simp only [bind_eq_ok, hfold, conforms_block
    (show NodeKind.proxySecret.isLeaf = false from rfl)]
  constructor
  · rintro ⟨envName, hargs, s, ⟨hnd, hall, rfl⟩, hend⟩
    rcases hheader : (ProxySettings.of node.children).injectHeader with _ | header
    · rw [hheader] at hend
      cases hend
    · rw [hheader] at hend
      simp only [bind_eq_ok, require_eq_ok, pure, Except.pure, Except.ok.injEq] at hend
      obtain ⟨provider, hprovider, name, hname, upstream, hupstream, url, hurl, rfl⟩ := hend
      refine ⟨⟨⟨envName, hargs⟩, trivial, hall, fun _ => hnd, ?_⟩, ?_⟩
      · simp only [NodeKind.required, List.forall_mem_cons, List.not_mem_nil,
          IsEmpty.forall_iff, implies_true, and_true]
        exact ⟨mem_of_lastOf hprovider, mem_of_lastOf hname, mem_of_lastOf hupstream,
          mem_of_lastOf hurl, mem_of_lastOf hheader⟩
      · simp only [proxySecretOf, hprovider, hname, hupstream, hurl, hheader, Option.getD_some]
        rw [argument_of_singleton hargs]
  · rintro ⟨⟨⟨envName, hargs⟩, -, hall, hnd, hreq⟩, rfl⟩
    simp only [NodeKind.required, List.forall_mem_cons, List.not_mem_nil, IsEmpty.forall_iff,
      implies_true, and_true] at hreq
    obtain ⟨provider, -, -, hprovider⟩ := exists_lastOf Kdl.Node.argument hreq.1
    obtain ⟨name, -, -, hname⟩ := exists_lastOf Kdl.Node.argument hreq.2.1
    obtain ⟨upstream, -, -, hupstream⟩ := exists_lastOf Kdl.Node.argument hreq.2.2.1
    obtain ⟨url, -, -, hurl⟩ := exists_lastOf Kdl.Node.argument hreq.2.2.2.1
    obtain ⟨header, -, -, hheader⟩ := exists_lastOf injectHeaderOf hreq.2.2.2.2
    refine ⟨envName, hargs, _, ⟨hnd rfl, hall, rfl⟩, ?_⟩
    simp only [proxySecretOf, ProxySettings.of, hprovider, hname, hupstream, hurl, hheader,
      Option.getD_some]
    rw [argument_of_singleton hargs]
    rfl

/-- A text property. -/
theorem property_eq_ok {name s : Str} :
    property node name owner = .ok s ↔ node.get name = some (.string s) := by
  rw [property]
  rcases node.get name with _ | _ | _ | _ <;> simp [Kdl.Value.asString, invalid]

/-- **The reader of a secret.** -/
theorem parseSecret_eq_ok {spec : SecretSpec} :
    parseSecret node owner = .ok spec ↔ Conforms .secret node ∧ spec = secretOf node := by
  rw [parseSecret, conforms_leaf rfl]
  refine (one_argument (fun _ => rfl) ⟨_, rfl⟩ fun _ _ _ => ⟨_, rfl⟩).trans ?_
  simp only [bind_eq_ok, property_eq_ok, pure, Except.pure, Except.ok.injEq]
  constructor
  · rintro ⟨envName, hargs, provider, hprovider, name, hname, rfl⟩
    refine ⟨⟨⟨envName, hargs⟩, ⟨provider, hprovider⟩, name, hname⟩, ?_⟩
    rw [secretOf, Kdl.Node.text, Kdl.Node.text, hprovider, hname,
      argument_of_singleton hargs]
    rfl
  · rintro ⟨⟨⟨envName, hargs⟩, ⟨provider, hprovider⟩, name, hname⟩, rfl⟩
    refine ⟨envName, hargs, provider, hprovider, name, hname, ?_⟩
    rw [secretOf, Kdl.Node.text, Kdl.Node.text, hprovider, hname,
      argument_of_singleton hargs]
    rfl

/-- What entries of a policy amount to. -/
def policyOfEntries (id : CommandId) (entries : List Kdl.Node) : CommandPolicy where
  id := id
  secrets := (named "secret".toList entries).map secretOf
  proxySecrets := (named "proxy-secret".toList entries).map proxySecretOf

theorem policyEntry_eq_ok {id : CommandId} {done : List Kdl.Node} {s' : CommandPolicy} :
    policyEntry owner (policyOfEntries id done) child = .ok s' ↔
      (∃ k', NodeKind.command.child child.name = some k' ∧ Conforms k' child) ∧
        s' = policyOfEntries id (done ++ [child]) := by
  rw [policyEntry]
  split_ifs with h1 h2
  · rw [exists_kind (k := .secret) (by rw [h1]; rfl), bind_eq_ok]
    simp only [parseSecret_eq_ok, pure, Except.pure, Except.ok.injEq]
    have hput : policyOfEntries id (done ++ [child]) = { policyOfEntries id done with
        secrets := (policyOfEntries id done).secrets ++ [secretOf child] } := by
      simp [policyOfEntries, named, h1]
    rw [hput]
    constructor
    · rintro ⟨_, ⟨hconf, rfl⟩, rfl⟩
      exact ⟨hconf, rfl⟩
    · rintro ⟨hconf, rfl⟩
      exact ⟨_, ⟨hconf, rfl⟩, rfl⟩
  · rw [exists_kind (k := .proxySecret) (by rw [h2]; rfl), bind_eq_ok]
    simp only [parseProxySecret_eq_ok, pure, Except.pure, Except.ok.injEq]
    have hput : policyOfEntries id (done ++ [child]) = { policyOfEntries id done with
        proxySecrets := (policyOfEntries id done).proxySecrets ++ [proxySecretOf child] } := by
      simp [policyOfEntries, named, h2]
    rw [hput]
    constructor
    · rintro ⟨_, ⟨hconf, rfl⟩, rfl⟩
      exact ⟨hconf, rfl⟩
    · rintro ⟨hconf, rfl⟩
      exact ⟨_, ⟨hconf, rfl⟩, rfl⟩
  · constructor
    · intro h
      cases h
    · rintro ⟨⟨k', hk', -⟩, -⟩
      simp only [NodeKind.child, NodeKind.children, List.lookup_cons, List.lookup_nil,
        beq_false_of_ne h1, beq_false_of_ne h2] at hk'
      cases hk'

/-- **The reader of policies.** -/
theorem parsePolicy_eq_ok {policy : CommandPolicy} : parsePolicy node = .ok policy ↔
    (node.name = "command".toList ∧ Conforms .command node) ∧ policy = policyOf node := by
  rw [parsePolicy, bind_eq_ok]
  simp only [refuse_eq_ok, exists_const, not_not]
  rw [and_assoc]
  refine and_congr_right fun hname => ?_
  refine (one_argument (fun _ => rfl) ⟨_, rfl⟩ fun _ _ _ => ⟨_, rfl⟩).trans ?_
  have hfold : ∀ owner id, node.children.foldlM (policyEntry owner)
      { id, secrets := [], proxySecrets := [] } = .ok policy ↔
      (∀ child ∈ node.children,
        ∃ k', NodeKind.command.child child.name = some k' ∧ Conforms k' child) ∧
        policy = policyOfEntries id node.children := by
    intro owner id
    have hstep : ∀ done child s', policyEntry owner (policyOfEntries id done) child = .ok s' ↔
        (∃ k', NodeKind.command.child child.name = some k' ∧ Conforms k' child) ∧
          s' = policyOfEntries id (done ++ [child]) := fun _ _ _ => policyEntry_eq_ok
    exact foldlM_built hstep node.children [] policy
  simp only [hfold, conforms_block (show NodeKind.command.isLeaf = false from rfl)]
  constructor
  · rintro ⟨id, hargs, hall, rfl⟩
    refine ⟨⟨⟨id, hargs⟩, trivial, hall, fun h => (by cases h), fun name hn => (by cases hn)⟩, ?_⟩
    rw [policyOf, argument_of_singleton hargs]
    rfl
  · rintro ⟨⟨⟨id, hargs⟩, -, hall, -⟩, rfl⟩
    refine ⟨id, hargs, hall, ?_⟩
    rw [policyOf, argument_of_singleton hargs]
    rfl

/-! ### The document -/

/-- A section whose entries are all of one kind. -/
theorem conforms_section {k k' : NodeKind} {name : Str} (hk : k.children = [(name, k')])
    (hargs : ∀ values, k.Arguments values) (hprops : ∀ node, k.Properties node)
    (honce : k.hasSettings = false) (hreq : k.required = []) :
    Conforms k node ↔ ∀ child ∈ node.children, child.name = name ∧ Conforms k' child := by
  have hleaf : k.isLeaf = false := by rw [NodeKind.isLeaf, hk]; rfl
  rw [conforms_block hleaf, and_iff_right (hargs _), and_iff_right (hprops _)]
  simp only [honce, hreq, Bool.false_eq_true, List.not_mem_nil, IsEmpty.forall_iff, implies_true,
    and_true]
  refine forall₂_congr fun child _ => ?_
  by_cases h : child.name = name
  · rw [exists_kind (k := k') (by rw [NodeKind.child, hk, h]; simp), and_iff_right h]
  · have hnone : k.child child.name = none := by
      simp only [NodeKind.child, hk, List.lookup_cons, List.lookup_nil, beq_false_of_ne h]
    rw [hnone]
    constructor
    · rintro ⟨_, hk, -⟩
      cases hk
    · exact fun hc => absurd hc.1 h

theorem entriesOf_concat {name : Str} {done : List Kdl.Node} :
    entriesOf name (done ++ [node]) =
      if node.name = name then entriesOf name done ++ node.children else entriesOf name done := by
  rw [entriesOf, named_append, List.flatMap_append, ← entriesOf]
  split_ifs with h
  · rw [named_singleton h, List.flatMap_singleton]
  · rw [named_singleton_of_ne h, List.flatMap_nil, List.append_nil]

/-- The entries of a section are read one by one. -/
theorem section_eq_ok {α : Type} {reader : Kdl.Node → Except ParseFailure α} {name : Str}
    {k : NodeKind} {read : Kdl.Node → α} (hread : ∀ node a, reader node = .ok a ↔
      (node.name = name ∧ Conforms k node) ∧ a = read node) {put : List α → Config}
    {config : Config} :
    (node.children.mapM reader >>= fun l => pure (put l)) = .ok config ↔
      (∀ child ∈ node.children, child.name = name ∧ Conforms k child) ∧
        config = put (node.children.map read) := by
  rw [bind_eq_ok]
  simp only [mapM_eq_ok hread, pure, Except.pure, Except.ok.injEq]
  constructor
  · rintro ⟨_, ⟨hall, rfl⟩, rfl⟩
    exact ⟨hall, rfl⟩
  · rintro ⟨hall, rfl⟩
    exact ⟨_, ⟨hall, rfl⟩, rfl⟩

/-- **The reader of a section**: its entries are added to those before it. -/
theorem parseSection_eq_ok {done : List Kdl.Node} {config : Config} :
    parseSection (.of done) node = .ok config ↔
      (∃ k', NodeKind.root.child node.name = some k' ∧ Conforms k' node) ∧
        config = .of (done ++ [node]) := by
  rw [parseSection]
  split_ifs with h1 h2 h3
  · rw [section_eq_ok fun _ _ => parseProvider_eq_ok,
      exists_kind (k := .providers) (by rw [h1]; rfl),
      conforms_section (k := .providers) rfl (fun _ => trivial) (fun _ => trivial) rfl rfl]
    simp [Config.of, entriesOf_concat, h1]
  · rw [section_eq_ok fun _ _ => parseContext_eq_ok,
      exists_kind (k := .contexts) (by rw [h2]; rfl),
      conforms_section (k := .contexts) rfl (fun _ => trivial) (fun _ => trivial) rfl rfl]
    simp [Config.of, entriesOf_concat, h2]
  · rw [section_eq_ok fun _ _ => parsePolicy_eq_ok,
      exists_kind (k := .policies) (by rw [h3]; rfl),
      conforms_section (k := .policies) rfl (fun _ => trivial) (fun _ => trivial) rfl rfl]
    simp [Config.of, entriesOf_concat, h3]
  · constructor
    · intro h
      cases h
    · rintro ⟨⟨k', hk', -⟩, -⟩
      simp only [NodeKind.child, NodeKind.children, List.lookup_cons, List.lookup_nil,
        beq_false_of_ne h1, beq_false_of_ne h2, beq_false_of_ne h3] at hk'
      cases hk'

/-- **The reader of a document.** -/
theorem parseDocument_eq_ok {nodes : List Kdl.Node} {config : Config} :
    parseDocument nodes = .ok config ↔
      ∃ root, nodes = [root] ∧ root.name = "iwaya".toList ∧ Conforms .root root ∧
        config = configOf root := by
  have hfold : ∀ root : Kdl.Node, root.children.foldlM parseSection
      { providers := [], contexts := [], policies := [] } = .ok config ↔
        (∀ child ∈ root.children,
          ∃ k', NodeKind.root.child child.name = some k' ∧ Conforms k' child) ∧
          config = configOf root := by
    intro root
    have hstep : ∀ done node config', parseSection (.of done) node = .ok config' ↔
        (∃ k', NodeKind.root.child node.name = some k' ∧ Conforms k' node) ∧
          config' = .of (done ++ [node]) := fun _ _ _ => parseSection_eq_ok
    exact foldlM_built hstep root.children [] config
  have hroot : ∀ root : Kdl.Node, parseDocument [root] = .ok config ↔
      root.name = "iwaya".toList ∧ Conforms .root root ∧ config = configOf root := by
    intro root
    rw [parseDocument, bind_eq_ok, conforms_block rfl]
    simp only [refuse_eq_ok, exists_const, not_not]
    refine and_congr_right fun _ => ?_
    have hversion : NodeKind.root.Properties root ↔
        (root.get "version".toList).bind Kdl.Value.asInteger = some 1 := by
      rw [NodeKind.Properties]
      rcases root.get "version".toList with _ | _ | _ | _ <;> simp [Kdl.Value.asInteger]
    rw [hversion]
    rcases (root.get "version".toList).bind Kdl.Value.asInteger with _ | version
    · simp [invalid]
    · simp only [bind_eq_ok, refuse_eq_ok, exists_const, not_not, hfold, Option.some.injEq]
      constructor
      · rintro ⟨rfl, hall, rfl⟩
        exact ⟨⟨trivial, rfl, hall, fun h => (by cases h), fun name hn => (by cases hn)⟩, rfl⟩
      · rintro ⟨⟨-, rfl, hall, -⟩, rfl⟩
        exact ⟨rfl, hall, rfl⟩
  rcases nodes with _ | ⟨root, _ | ⟨other, rest⟩⟩
  · simp [parseDocument, invalid]
  · rw [hroot]
    simp
  · simp [parseDocument, invalid]

/-- **The parser**: it accepts the documents of the schema, for what they stand for. -/
theorem parse_eq_ok {kdlParse : Str → Except Str (List Kdl.Node)} {text : Str} {config : Config} :
    parse kdlParse text = .ok config ↔
      ∃ nodes root, kdlParse text = .ok nodes ∧ Schema nodes root ∧ config = configOf root := by
  simp only [parse, bind_eq_ok, mapError_eq_ok, parseDocument_eq_ok, validate_eq_ok, exists_const,
    pure, Except.pure, Except.ok.injEq]
  constructor
  · rintro ⟨nodes, hnodes, _, ⟨root, rfl, hname, hconf, rfl⟩, hvalid, rfl⟩
    exact ⟨_, root, hnodes, ⟨rfl, hname, hconf, hvalid⟩, rfl⟩
  · rintro ⟨nodes, root, hnodes, ⟨rfl, hname, hconf, hvalid⟩, rfl⟩
    exact ⟨_, hnodes, _, ⟨root, rfl, hname, hconf, rfl⟩, hvalid, rfl⟩

/-- The sample is in the schema. -/
theorem schema_sample : ∃ root, Schema sampleTree root ∧ sampleConfig = configOf root := by
  obtain ⟨nodes, root, hnodes, hschema, hconfig⟩ := parse_eq_ok.mp parse_sample
  rw [sampleKdl, if_pos rfl] at hnodes
  obtain rfl := Except.ok.inj hnodes
  exact ⟨root, hschema, hconfig⟩

/-- A KDL reader that hands over one document for the empty text, and another for the rest. -/
def eitherKdl (document other : List Kdl.Node) (text : Str) : Except Str (List Kdl.Node) :=
  .ok (if text = [] then document else other)

theorem parse_either (other : List Kdl.Node) :
    parse (eitherKdl sampleTree other) [] = .ok sampleConfig := by
  obtain ⟨root, hschema, hconfig⟩ := schema_sample
  exact parse_eq_ok.mpr ⟨sampleTree, root, rfl, hschema, hconfig⟩

end Iwaya
