import Mathlib.Data.List.Induction
import Iwaya.Bws.Listing
import Iwaya.Execute.Managed

/-!
# Whose value an entry gets

The declarations of a policy are regrouped by provider, each group is one resolution,
and the values are looked up again declaration by declaration. What is followed here is
that nothing is lost or crossed on the way: a resolution is asked for exactly the names
declared for its provider, keeps exactly these, and what an entry receives was listed
under its own name by its own provider.

The two panics of the source rest on this and on validation. No run reaches them.
-/

namespace Iwaya

open Text Checks Effects

/-! ### The groups -/

/-- The names declared for a provider, in order and as often as declared. -/
def declaredFor (policy : CommandPolicy) (provider : ProviderId) : List SecretName :=
  ((declared policy).filter fun d => d.1 == provider).map Prod.snd

/-- What a new name changes: its own group, or it has a new one. -/
theorem mem_pushName {groups : List (ProviderId × List SecretName)} {provider p : ProviderId}
    {name : SecretName} {names : List SecretName} (hnd : (groups.map Prod.fst).Nodup)
    (h : (p, names) ∈ pushName provider name groups) :
    (p ≠ provider ∧ (p, names) ∈ groups) ∨ p = provider ∧
      ((∃ names', (p, names') ∈ groups ∧ names = names' ++ [name]) ∨
        p ∉ groups.map Prod.fst ∧ names = [name]) := by
  induction groups with
  | nil =>
    obtain ⟨rfl, rfl⟩ := Prod.mk.inj (List.mem_singleton.mp h)
    exact Or.inr ⟨rfl, Or.inr ⟨by simp, rfl⟩⟩
  | cons g groups ih =>
    obtain ⟨id, ids⟩ := g
    obtain ⟨hid, hnd⟩ := List.nodup_cons.mp hnd
    unfold pushName at h
    split at h
    · next hp =>
      subst hp
      rcases List.mem_cons.mp h with he | hm
      · obtain ⟨rfl, rfl⟩ := Prod.mk.inj he
        exact Or.inr ⟨rfl, Or.inl ⟨ids, List.mem_cons_self, rfl⟩⟩
      · exact Or.inl ⟨fun he => hid (List.mem_map.mpr ⟨_, hm, he⟩), List.mem_cons_of_mem _ hm⟩
    · next hp =>
      rcases List.mem_cons.mp h with he | hm
      · obtain ⟨rfl, rfl⟩ := Prod.mk.inj he
        exact Or.inl ⟨hp, List.mem_cons_self⟩
      · rcases ih hnd hm with ⟨hne, hm'⟩ | ⟨rfl, ⟨names', hm', rfl⟩ | ⟨hno, rfl⟩⟩
        · exact Or.inl ⟨hne, List.mem_cons_of_mem _ hm'⟩
        · exact Or.inr ⟨rfl, Or.inl ⟨names', List.mem_cons_of_mem _ hm', rfl⟩⟩
        · refine Or.inr ⟨rfl, Or.inr ⟨?_, rfl⟩⟩
          rw [List.map_cons, List.mem_cons, not_or]
          exact ⟨Ne.symm hp, hno⟩

/-- **A group is the declarations of its provider.** -/
theorem eq_of_mem_grouping (l : List (ProviderId × SecretName)) {p : ProviderId}
    {names : List SecretName}
    (h : (p, names) ∈ l.foldl (fun groups (provider, name) => pushName provider name groups) []) :
    p ∈ l.map Prod.fst ∧ names = (l.filter fun d => d.1 == p).map Prod.snd := by
  -- the list read from its end: the last declaration is the one pushed last
  induction l using List.reverseRecOn generalizing p names with
  | nil => cases h
  | append_singleton l d ih =>
    obtain ⟨provider, name⟩ := d
    rw [List.foldl_append] at h
    have hgroups := grouping l [] List.nodup_nil
    rw [List.map_append, List.filter_append, List.map_append]
    rcases mem_pushName hgroups.1 h with ⟨hne, hm⟩ | ⟨rfl, ⟨names', hm, rfl⟩ | ⟨hno, rfl⟩⟩
    · obtain ⟨hp, rfl⟩ := ih hm
      refine ⟨List.mem_append_left _ hp, ?_⟩
      rw [List.filter_cons_of_neg (by simpa using Ne.symm hne)]
      simp
    · obtain ⟨-, rfl⟩ := ih hm
      refine ⟨by simp, ?_⟩
      rw [List.filter_cons_of_pos (by simp)]
      rfl
    · refine ⟨by simp, ?_⟩
      have hnone : (l.filter fun d => d.1 == p) = [] := by
        rw [List.filter_eq_nil_iff]
        intro d hd he
        obtain ⟨names, hm, -⟩ := hgroups.2 d.1 d.2 (Or.inl hd)
        exact hno (List.mem_map.mpr ⟨_, hm, eq_of_beq he⟩)
      rw [hnone, List.filter_cons_of_pos (by simp)]
      rfl

/-! ### One resolution -/

/-- One call of `bws::resolve`, for a provider and the names asked of it. -/
structure Resolution where
  provider : ProviderId
  names : List SecretName
  trace : List Effect
  result : Except ResolveError Resolved

/-- **A resolution that is complete and exact**: it runs against the provider of its
identifier, with the names declared for it; a backend that answers it decides what it
returns; and once everything has succeeded and the project exists, it succeeds exactly when
every name is listed there, and then its keys are exactly the names. -/
structure Resolution.Exact (world : World) (configuration : Config) (policy : CommandPolicy)
    (c : Resolution) : Prop where
  declared : c.provider ∈ (declared policy).map Prod.fst
  names : c.names = declaredFor policy c.provider
  runs : ∃ provider, configuration.provider c.provider = some (.bws provider) ∧
    Runs (resolve world.bwsJson provider c.names) c.trace c.result ∧
    (∀ backend : Backend, (∀ e ∈ c.trace, backend.Answers world.bwsJson e) →
      c.result = backend.outcome provider c.names) ∧
    ∀ project secrets, Lists world.bwsJson provider c.trace project secrets →
      ((∃ values, c.result = .ok values) ↔ ∀ name ∈ c.names, ∃ s ∈ secrets, s.key = name) ∧
      ∀ values, c.result = .ok values → ∀ name, name ∈ values ↔ name ∈ c.names

/-- A name has a value listed by a resolution under that name. -/
def Resolution.Gives (world : World) (configuration : Config) (c : Resolution)
    (name : SecretName) (value : Str) : Prop :=
  ∃ provider project secrets, configuration.provider c.provider = some (.bws provider) ∧
    Lists world.bwsJson provider c.trace project secrets ∧ ⟨name, value⟩ ∈ secrets

/-- **Complete and exact.** -/
theorem fromListing_exact (provider : BwsProvider) (names : List SecretName)
    (secrets : List BwsSecret) :
    ((∃ values, fromListing provider names secrets = .ok values) ↔
        ∀ name ∈ names, ∃ s ∈ secrets, s.key = name) ∧
      ∀ values, fromListing provider names secrets = .ok values →
        (∀ name, name ∈ values ↔ name ∈ names) ∧
        ∀ name value, values.lookup name = some value → ⟨name, value⟩ ∈ secrets := by
  have hiff : (∀ name ∈ names, ∃ s ∈ secrets, s.key = name) ↔
      firstMissing names secrets = none := by
    simp only [firstMissing, List.find?_eq_none, Option.isNone_iff_eq_none,
      Option.ne_none_iff_isSome, ← lastListed_isSome]
  rw [fromListing_eq]
  constructor
  · rw [hiff]
    cases firstMissing names secrets <;> simp
  · intro values hv
    rcases hm : firstMissing names secrets with _ | name
    · rw [hm] at hv
      obtain rfl := Except.ok.inj hv
      constructor
      · intro name
        rw [mem_keepRequested]
        exact ⟨fun h => h.1, fun h => ⟨h, hiff.mpr hm name h⟩⟩
      · intro name value hl
        rw [lookup_keepRequested] at hl
        split_ifs at hl
        exact mem_of_lastListed hl
    · rw [hm] at hv
      cases hv

variable {world : World} {configuration : Config} {policy : CommandPolicy}

/-- The resolution of a group. -/
theorem exact_of_runs {group : ProviderId × List SecretName} {tr : List Effect}
    {result : Except ResolveError Resolved} {provider : BwsProvider}
    (hgroup : group ∈ namesByProvider policy)
    (hprovider : configuration.provider group.1 = some (.bws provider))
    (h : Runs (resolve world.bwsJson provider group.2) tr result) :
    Resolution.Exact world configuration policy ⟨group.1, group.2, tr, result⟩ := by
  obtain ⟨hdeclared, hnames⟩ := eq_of_mem_grouping (declared policy) hgroup
  refine ⟨hdeclared, hnames, provider, hprovider, h, fun backend => outcome_of_runs h,
    fun project secrets hl => ?_⟩
  have hresult : result = fromListing provider group.2 secrets := fromListing_of_lists h hl
  have hexact := fromListing_exact provider group.2 secrets
  rw [← hresult] at hexact
  exact ⟨hexact.1, fun values hv => (hexact.2 values hv).1⟩

/-- What a resolution that succeeded has for a name was listed under it. -/
theorem gives_of_runs {group : ProviderId × List SecretName} {tr : List Effect} {values : Resolved}
    {provider : BwsProvider} (hprovider : configuration.provider group.1 = some (.bws provider))
    (h : Runs (resolve world.bwsJson provider group.2) tr (.ok values)) {name : SecretName}
    (hn : name ∈ group.2) : ∃ value, values.lookup name = some value ∧
      Resolution.Gives world configuration ⟨group.1, group.2, tr, .ok values⟩ name value := by
  obtain ⟨project, secrets, hl⟩ := lists_of_runs h
  obtain ⟨hkeys, hvalues⟩ := (fromListing_exact _ _ _).2 values (fromListing_of_lists h hl).symm
  obtain ⟨value, hv⟩ := Option.isSome_iff_exists.mp (AList.lookup_isSome.mpr ((hkeys name).mpr hn))
  exact ⟨value, hv, provider, project, secrets, hprovider, hl, hvalues name value hv⟩

/-! ### All of them -/

/-- Validation has seen every provider a policy refers to. -/
theorem provider_of_declared (hpolicy : policy.Valid configuration) {provider : ProviderId}
    (h : provider ∈ (declared policy).map Prod.fst) :
    ∃ p, configuration.provider provider = some (.bws p) := by
  have hsome : (configuration.provider provider).isSome := by
    obtain ⟨d, hd, rfl⟩ := List.mem_map.mp h
    rcases List.mem_append.mp hd with hsecret | hproxy
    · obtain ⟨spec, hspec, rfl⟩ := List.mem_map.mp hsecret
      exact hpolicy.provider spec hspec
    · obtain ⟨spec, hspec, rfl⟩ := List.mem_map.mp hproxy
      exact (hpolicy.proxySecret spec hspec).provider
  obtain ⟨⟨p⟩, hp⟩ := Option.isSome_iff_exists.mp hsome
  exact ⟨p, hp⟩

/-- The resolution of one group, and no panic. -/
theorem resolveProvider_cases (hpolicy : policy.Valid configuration)
    {group : ProviderId × List SecretName} (hgroup : group ∈ namesByProvider policy)
    {tr : List Effect} {r : Except Failure (ProviderId × Resolved)}
    (h : Runs (resolveProvider world configuration group) tr r) :
    ∃ provider result, configuration.provider group.1 = some (.bws provider) ∧
      Runs (resolve world.bwsJson provider group.2) tr result ∧
      r = (result.mapError Failure.resolution).map fun values => (group.1, values) := by
  obtain ⟨provider, hp⟩ :=
    provider_of_declared hpolicy (eq_of_mem_grouping (declared policy) hgroup).1
  rw [resolveProvider, hp] at h
  rcases runs_bind_iff.mp h with ⟨e, rfl, hm⟩ | ⟨values, t₁, t₂, rfl, hm, hd⟩
  · obtain ⟨result, hr, he⟩ := runs_mapError_iff.mp hm
    exact ⟨provider, result, hp, hr, by rw [← he]; rfl⟩
  · obtain ⟨rfl, rfl⟩ := runs_done_iff.mp hd
    obtain ⟨result, hr, he⟩ := runs_mapError_iff.mp hm
    rw [List.append_nil]
    exact ⟨provider, result, hp, hr, by rw [← he]; rfl⟩

/-- What the loop over the groups leaves of one group: the group, the effects of its
resolution, and what that answered. -/
abbrev Part := (ProviderId × List SecretName) × List Effect × ProviderId × Resolved

/-- The resolution of a group that succeeded. -/
def Part.resolution (part : Part) : Resolution :=
  ⟨part.1.1, part.1.2, part.2.1, .ok part.2.2.2⟩

/-- The part of a group is of its own provider, and a run of `bws::resolve`. -/
theorem part_runs (hpolicy : policy.Valid configuration) {part : Part}
    (hgroup : part.1 ∈ namesByProvider policy)
    (h : Runs (resolveProvider world configuration part.1) part.2.1 (.ok part.2.2)) :
    part.2.2.1 = part.1.1 ∧ ∃ provider,
      configuration.provider part.1.1 = some (.bws provider) ∧
      Runs (resolve world.bwsJson provider part.1.2) part.2.1 (.ok part.2.2.2) := by
  obtain ⟨provider, result, hp, hrun, he⟩ := resolveProvider_cases hpolicy hgroup h
  rcases result with e | values
  · cases he
  · obtain ⟨hid, hvalues⟩ := Prod.mk.inj (Except.ok.inj he)
    rw [hvalues]
    exact ⟨hid, provider, hp, hrun⟩

/-- A policy's groups are of distinct providers. -/
theorem namesByProvider_nodup (policy : CommandPolicy) :
    ((namesByProvider policy).map Prod.fst).Nodup :=
  (grouping (declared policy) [] List.nodup_nil).1

/-- Once every group has been resolved, every declaration has a value, and a resolution
gave it. -/
theorem value_of_parts (hpolicy : policy.Valid configuration) {parts : List Part}
    (hall : namesByProvider policy = parts.map Prod.fst)
    (hruns : ∀ part ∈ parts,
      Runs (resolveProvider world configuration part.1) part.2.1 (.ok part.2.2))
    {d : ProviderId × SecretName} (hd : d ∈ declared policy) :
    ∃ value, ((parts.map fun part => part.2.2).foldl
        (fun resolved x => resolved.insert x.1 x.2) (∅ : ResolvedAll)).value d.1 d.2 =
          some value ∧
      ∃ part ∈ parts, part.resolution.provider = d.1 ∧
        part.resolution.Gives world configuration d.2 value := by
  have hpart : ∀ part ∈ parts, part.2.2.1 = part.1.1 ∧ ∃ provider,
      configuration.provider part.1.1 = some (.bws provider) ∧
      Runs (resolve world.bwsJson provider part.1.2) part.2.1 (.ok part.2.2.2) := by
    intro part hx
    refine part_runs hpolicy ?_ (hruns part hx)
    rw [hall]
    exact List.mem_map_of_mem hx
  obtain ⟨names, hgroup, hn⟩ : InGroup (namesByProvider policy) d.1 d.2 :=
    inGroup_namesByProvider hd
  rw [hall] at hgroup
  obtain ⟨part, hx, hxg⟩ := List.mem_map.mp hgroup
  obtain ⟨hid, provider, hp, hrun⟩ := hpart part hx
  have hasked : d.2 ∈ part.1.2 := by
    rw [hxg]
    exact hn
  obtain ⟨value, hv, hgives⟩ := gives_of_runs hp hrun hasked
  -- nothing inserted later is under the same provider
  have hnd : ((parts.map fun part => part.2.2).map Prod.fst).Nodup := by
    have heq : (parts.map fun part => part.2.2).map Prod.fst =
        (parts.map Prod.fst).map Prod.fst := by
      rw [List.map_map, List.map_map]
      exact List.map_congr_left fun part hx => (hpart part hx).1
    rw [heq, ← hall]
    exact namesByProvider_nodup policy
  have hmem : (d.1, part.2.2.2) ∈ parts.map fun part => part.2.2 := by
    refine List.mem_map.mpr ⟨part, hx, Prod.ext ?_ rfl⟩
    rw [hid, hxg]
  have hlookup := (lookup_foldl_insert _ ∅ hnd).2 _ hmem
  refine ⟨value, ?_, part, hx, congrArg Prod.fst hxg, hgives⟩
  rw [ResolvedAll.value, hlookup]
  exact hv

/-- The loop over the groups, in a run of `resolve_declared`. -/
theorem traverse_of_resolveDeclared {tr : List Effect} {r : Except Failure ResolvedAll}
    (h : Runs (resolveDeclared world configuration policy) tr r) :
    ∃ r', Runs (Prog.traverse (resolveProvider world configuration) (namesByProvider policy))
        tr r' ∧
      r = r'.map fun values => values.foldl (fun resolved x => resolved.insert x.1 x.2) ∅ := by
  rcases runs_bind_iff.mp h with ⟨e, rfl, ht⟩ | ⟨answers, t₁, t₂, rfl, ht, hd⟩
  · exact ⟨.error e, ht, rfl⟩
  · obtain ⟨rfl, rfl⟩ := runs_done_iff.mp hd
    rw [List.append_nil]
    exact ⟨.ok answers, ht, rfl⟩

/-- **Resolution of a policy, group by group.** -/
theorem resolveDeclared_parts (hpolicy : policy.Valid configuration) {tr : List Effect}
    {r : Except Failure ResolvedAll} (h : Runs (resolveDeclared world configuration policy) tr r) :
    ∃ resolutions : List Resolution, tr = resolutions.flatMap Resolution.trace ∧
      (resolutions.map Resolution.provider).Nodup ∧
      (∀ c ∈ resolutions, c.Exact world configuration policy) ∧
      ((∃ c ∈ resolutions, ∃ e, c.result = .error e ∧ r = .error (.resolution e)) ∨
        ∃ resolved, r = .ok resolved ∧ ∀ d ∈ declared policy, ∃ value,
          resolved.value d.1 d.2 = some value ∧
          ∃ c ∈ resolutions, c.provider = d.1 ∧ c.Gives world configuration d.2 value) := by
  obtain ⟨r', htrav, hr⟩ := traverse_of_resolveDeclared h
  obtain ⟨parts, hparts, hend⟩ := runs_traverse_parts htrav
  have hsub : ∀ part ∈ parts, part.1 ∈ namesByProvider policy := by
    intro part hx
    rcases hend with ⟨-, hl, -⟩ | ⟨a, rest, t, e, hl, -⟩ <;> rw [hl]
    · exact List.mem_map_of_mem hx
    · exact List.mem_append_left _ (List.mem_map_of_mem hx)
  have hexact : ∀ c ∈ parts.map Part.resolution, c.Exact world configuration policy := by
    intro c hc
    obtain ⟨part, hx, rfl⟩ := List.mem_map.mp hc
    obtain ⟨-, provider, hp, hrun⟩ := part_runs hpolicy (hsub part hx) (hparts part hx)
    exact exact_of_runs (hsub part hx) hp hrun
  have hnd := namesByProvider_nodup policy
  have hproviders : (parts.map Part.resolution).map Resolution.provider =
      (parts.map Prod.fst).map Prod.fst := by
    rw [List.map_map, List.map_map]
    rfl
  have htrace : (parts.flatMap fun part => part.2.1) =
      (parts.map Part.resolution).flatMap Resolution.trace := by
    rw [List.flatMap_map]
    rfl
  rcases hend with ⟨rfl, hl, rfl⟩ | ⟨a, rest, t, e, hl, ha, rfl, rfl⟩
  · refine ⟨parts.map Part.resolution, htrace, ?_, hexact, Or.inr ⟨_, hr, fun d hd => ?_⟩⟩
    · rw [hproviders, ← hl]
      exact hnd
    · obtain ⟨value, hv, part, hx, hid, hgives⟩ := value_of_parts hpolicy hl hparts hd
      exact ⟨value, hv, part.resolution, List.mem_map_of_mem hx, hid, hgives⟩
  · -- the group the loop stopped at is the last of the resolutions
    have hagroup : a ∈ namesByProvider policy := by
      rw [hl]
      simp
    obtain ⟨provider, result, hp, hrun, he⟩ := resolveProvider_cases hpolicy hagroup ha
    rcases result with e' | values
    · refine ⟨parts.map Part.resolution ++ [⟨a.1, a.2, t, .error e'⟩], ?_, ?_, ?_, Or.inl
        ⟨_, List.mem_append_right _ (List.mem_singleton_self _), e', rfl, ?_⟩⟩
      · rw [List.flatMap_append, ← htrace]
        simp
      · rw [List.map_append, hproviders]
        rw [hl, List.map_append] at hnd
        exact hnd.sublist (List.Sublist.append_left (by simp) _)
      · intro c hc
        rcases List.mem_append.mp hc with hc | hc
        · exact hexact c hc
        · obtain rfl := List.mem_singleton.mp hc
          exact exact_of_runs hagroup hp hrun
      · rw [hr]
        exact congrArg Except.error (Except.error.inj he)
    · cases he

/-! ### No panic -/

/-- Both panics are made before anything else can go wrong with a declaration, and
neither is made of a value that is there. -/
theorem deliverAll_not_panicked {context : DockerContext} {userArgs : List Str}
    {resolved : ResolvedAll} {tr : List Effect} {r : Except Failure Exit}
    (hall : ∀ d ∈ declared policy, ∃ value, resolved.value d.1 d.2 = some value)
    (h : Runs (deliverAll world context policy userArgs resolved) tr r) (message : Str) :
    r ≠ .error (.panicked message) := by
  rintro rfl
  rcases runs_ofExcept_bind_iff.mp h with ⟨e, he, -⟩ | ⟨environment, -, h1⟩
  · rw [directEnvironment_eq hall] at he
    cases he
  split at h1
  · obtain ⟨r', -, he⟩ := runs_mapError_iff.mp h1
    rcases r' with e | code <;> cases he
  rcases runs_bind_iff.mp h1 with ⟨e, he, h2⟩ | ⟨provisioned, t₁, t₂, rfl, -, h3⟩
  · obtain rfl := Except.error.inj he
    -- a declaration that cannot be provisioned lacks entropy, and no value
    obtain ⟨before, spec, after, bs, t₁, t₂, hsplit, rfl, -, h4⟩ := runs_traverse_error h2
    have hspec : spec ∈ policy.proxySecrets := by
      rw [hsplit]
      simp
    obtain ⟨value, hv⟩ := hall (spec.provider, spec.secretName)
      (List.mem_append_right _ (List.mem_map.mpr ⟨spec, hspec, rfl⟩))
    rcases runs_ofExcept_bind_iff.mp h4 with ⟨e', he', -⟩ | ⟨rawValue, -, h5⟩
    · rw [resolvedValue, hv] at he'
      cases he'
    · obtain ⟨entropy, t₃, rfl, h6⟩ := runs_perform_bind_iff.mp h5
      rcases runs_attempt_bind_iff.mp h6 with ⟨source, -, -, he'⟩ | ⟨bytes, -, h7⟩
      · cases he'
      · cases (runs_done_iff.mp h7).2
  rcases runs_bind_iff.mp h3 with ⟨e, he, h4⟩ | ⟨image, t₃, t₄, rfl, -, h5⟩
  · obtain rfl := Except.error.inj he
    obtain ⟨r', -, he'⟩ := runs_mapError_iff.mp h4
    rcases r' with e' | image <;> cases he'
  rcases runs_bind_iff.mp h5 with ⟨e, he, h6⟩ | ⟨sidecar, t₅, t₆, rfl, -, h7⟩
  · obtain rfl := Except.error.inj he
    obtain ⟨r', -, he'⟩ := runs_mapError_iff.mp h6
    rcases r' with e' | sidecar <;> cases he'
  rcases runs_bind_iff.mp h7 with ⟨e, he, h8⟩ | ⟨code, t₇, t₈, rfl, -, h9⟩
  · obtain rfl := Except.error.inj he
    obtain ⟨t₇, t₈, rfl, h9, -⟩ := runs_scope_iff.mp h8
    obtain ⟨r', -, he'⟩ := runs_mapError_iff.mp h9
    rcases r' with e' | code <;> cases he'
  · cases (runs_done_iff.mp h9).2

/-- Delivery asks nothing of a provider. -/
theorem emits_deliverAll (context : DockerContext) (userArgs : List Str)
    (resolved : ResolvedAll) :
    Emits (InStages [.draw, .image, .sidecar, .transfer, .removal, .target])
      (deliverAll world context policy userArgs resolved) := by
  refine (emits_ofExcept _ _).bind fun environment => ?_
  split
  · exact (emits_stages (emits_execRuntime _ _ _ _) (by simp)).mapError _
  have hteardown : ∀ runtime containerName, Emits
      (InStages [.draw, .image, .sidecar, .transfer, .removal, .target])
      (teardown runtime containerName) := fun _ _ => (emits_call rfl).bind fun _ => emits_call rfl
  have hstart : ∀ runtime image target transfer, Emits
      (InStages [.draw, .image, .sidecar, .transfer, .removal, .target])
      (startSidecar world.readiness runtime image target transfer) := by
    intro runtime image target transfer
    refine (emits_giveUpIf _ _ _).bind fun _ => Emits.bind ?_ fun containerName => ?_
    · exact (emits_call rfl).bind fun _ => (emits_attempt _ _ _).bind fun _ => emits_done _ _
    · exact (emits_spawning _ (emits_call rfl)).bind fun _ => (emits_attempt _ _ _).bind fun _ =>
        ((emits_stages (emits_awaitReadiness world transfer) (by simp)).onFail
          (hteardown _ _)).bind fun _ => emits_done _ _
  refine (emits_traverse fun _ _ => emits_stages (emits_provisionOne _ _) (by simp)).bind fun _ =>
    Emits.bind (Emits.mapError _ (emits_stages (emits_ensureProxyImage _ _) (by simp))) fun _ => ?_
  exact ((hstart _ _ _ _).mapError _).bind fun _ => (Emits.scope ((emits_stages
    (emits_supervise _ _) (by simp)).mapError _) (hteardown _ _)).bind fun _ => emits_done _ _

/-! ### All of it -/

/-- **Resolution is complete, exact and correctly attributed.** Every run of an
invocation whose configuration was read and whose context and policy were found begins
with its resolutions: at most one for a provider, each exact, and after them nothing is
asked of a provider any more. Either one of them fails and the run ends with its error,
or the run goes on with a value for every declaration, of either kind, that was listed
under the declared name by the resolution of the declared provider. It never ends in a
panic. -/
theorem execute_attribution {invocation : Invocation} {context : DockerContext}
    (hs : select world invocation = .ok (configuration, context, policy)) {tr : List Effect}
    {r : Except Failure Exit} (h : Runs (execute world invocation) tr r) :
    ∃ (resolutions : List Resolution) (rest : List Effect),
      tr = resolutions.flatMap Resolution.trace ++ rest ∧
      (resolutions.map Resolution.provider).Nodup ∧
      (∀ c ∈ resolutions, c.Exact world configuration policy) ∧
      (∀ e ∈ rest, e.kind.stage ≠ .request) ∧
      ((∃ c ∈ resolutions, ∃ e, c.result = .error e ∧ r = .error (.resolution e) ∧ rest = []) ∨
        ∃ resolved, Runs (deliverAll world context policy invocation.args resolved) rest r ∧
          ∀ d ∈ declared policy, ∃ value, resolvedValue resolved d.1 d.2 = .ok value ∧
            ∃ c ∈ resolutions, c.provider = d.1 ∧ c.Gives world configuration d.2 value) ∧
      ∀ message, r ≠ .error (.panicked message) := by
  obtain ⟨hvalid, -, hmem⟩ := valid_of_select hs
  have hpolicy := hvalid.policy policy hmem
  rcases execute_cases h with ⟨e, he, -⟩ | ⟨configuration', context', policy', hs', hrun⟩
  · rw [hs] at he
    cases he
  obtain ⟨rfl, rfl, rfl⟩ : _ ∧ _ ∧ _ := by simpa using Except.ok.inj (hs.symm.trans hs')
  rcases hrun with ⟨e, rfl, hres⟩ | ⟨resolved, t₁, t₂, rfl, hres, hdel⟩
  · obtain ⟨resolutions, rfl, hnd, hexact, ⟨c, hc, e', hce, he⟩ | ⟨resolved, he, -⟩⟩ :=
      resolveDeclared_parts hpolicy hres
    · obtain rfl := Except.error.inj he
      refine ⟨resolutions, [], by simp, hnd, hexact, by simp,
        Or.inl ⟨c, hc, e', hce, rfl, rfl⟩, fun message hm => ?_⟩
      cases hm
    · cases he
  · obtain ⟨resolutions, rfl, hnd, hexact, ⟨c, hc, e', hce, he⟩ | ⟨resolved', he, hall⟩⟩ :=
      resolveDeclared_parts hpolicy hres
    · cases he
    · obtain rfl := Except.ok.inj he
      refine ⟨resolutions, t₂, rfl, hnd, hexact, ?_, Or.inr ⟨resolved, hdel, ?_⟩, ?_⟩
      · intro e he hk
        have hstage := emits_deliverAll _ _ _ _ _ hdel e he
        rw [InStages, hk] at hstage
        exact absurd hstage (by decide)
      · intro d hd
        obtain ⟨value, hv, hc⟩ := hall d hd
        exact ⟨value, by rw [resolvedValue, hv], hc⟩
      · refine deliverAll_not_panicked (fun d hd => ?_) hdel
        obtain ⟨value, hv, -⟩ := hall d hd
        exact ⟨value, hv⟩

theorem execute_attribution_sample :
    ∃ (resolutions : List Resolution) (rest : List Effect),
      (exec sampleAnswers 0 (execute sampleWorld sampleInvocation)).1 =
        resolutions.flatMap Resolution.trace ++ rest ∧
      ∀ c ∈ resolutions, c.names = declaredFor samplePolicy c.provider := by
  obtain ⟨resolutions, rest, htr, -, hexact, -⟩ := execute_attribution select_sample
    (runs_exec sampleAnswers 0 (execute sampleWorld sampleInvocation))
  exact ⟨resolutions, rest, htr, fun c hc => (hexact c hc).names⟩

end Iwaya
