import Iwaya.Execute.Segments

/-!
# The variables of the target

Whichever way the target is started, the variables set for it are the ones its argv
lists, in the same order, and each of them has the value of its own declaration: two
walks over the policy, one of them through the plans of the proxy-backed secrets, agree.
What the target inherits under any of these names is overwritten, and everything else it
inherits stays (`Iwaya.execute_managed`).
-/

namespace Iwaya

open Text Effects Environment

/-- The target is started by this command. -/
def StartsBy (x : Command) (e : Effect) : Prop :=
  (∃ ans, e = ⟨.targetSpawn, x, ans⟩) ∨ ∃ ans, e = ⟨.targetExec, x, ans⟩

theorem StartsBy.stage {x : Command} {e : Effect} (h : StartsBy x e) : e.kind.stage = .target := by
  rcases h with ⟨_, rfl⟩ | ⟨_, rfl⟩ <;> rfl

/-- **The environment a policy asks for**, on top of an inherited one. -/
structure Delivered (policy : CommandPolicy) (resolved : ResolvedAll)
    (provisioned : List ProvisionedProxySecret) (port : UInt16)
    (inherited environment : Str → Option Str) : Prop where
  /-- A secret has its raw value. -/
  secret : ∀ spec ∈ policy.secrets, ∃ value,
    resolved.value spec.provider spec.secretName = some value ∧
      environment spec.envName = some value
  /-- A proxy-backed secret has its phantom, and the address of the proxy. -/
  proxySecret : List.Forall₂ (fun spec secret =>
    environment spec.envName = some secret.phantom.value ∧
      environment spec.baseUrlEnv = some (loopbackUrl port)) policy.proxySecrets provisioned
  /-- Nothing else changes. -/
  other : ∀ name ∉ policy.envNames, environment name = inherited name

/-- A secret provisioned for its declaration, with a phantom drawn for it. -/
def ProvisionedFor (resolved : ResolvedAll) (spec : ProxySecretSpec)
    (secret : ProvisionedProxySecret) : Prop :=
  ∃ value entropy, resolved.value spec.provider spec.secretName = some value ∧
    secret = .provision spec value entropy

/-- **What an invocation resolved and provisioned**: these calls begin with those of a
resolution and of a provisioning that came to just that. -/
def ProvisionedIn (world : World) (configuration : Config) (policy : CommandPolicy)
    (tr : List Effect) (resolved : ResolvedAll) (provisioned : List ProvisionedProxySecret) :
    Prop :=
  ∃ t₁ t₂, t₁ ++ t₂ <+: tr ∧ Runs (resolveDeclared world configuration policy) t₁ (.ok resolved) ∧
    Runs (Prog.traverse (provisionOne resolved) policy.proxySecrets) t₂ (.ok provisioned)

section

variable {world : World} {context : DockerContext} {policy : CommandPolicy} {userArgs : List Str}
  {environment : List (EnvName × Str)} {resolved : ResolvedAll}
  {provisioned : List ProvisionedProxySecret} {port : UInt16} {tr : List Effect}

/-! ### Provisioning -/

theorem provisionedFor_of_runs {spec : ProxySecretSpec} {secret : ProvisionedProxySecret}
    (h : Runs (provisionOne resolved spec) tr (.ok secret)) :
    ProvisionedFor resolved spec secret := by
  rcases runs_ofExcept_bind_iff.mp h with ⟨_, -, -, he⟩ | ⟨value, hv, h1⟩
  · cases he
  obtain ⟨entropy, t, rfl, h2⟩ := runs_perform_bind_iff.mp h1
  rcases runs_attempt_bind_iff.mp h2 with ⟨_, -, -, he⟩ | ⟨entropy, rfl, h3⟩
  · cases he
  · obtain ⟨-, hs⟩ := runs_done_iff.mp h3
    refine ⟨value, entropy, ?_, Except.ok.inj hs⟩
    rcases hr : resolved.value spec.provider spec.secretName with _ | v
    · rw [resolvedValue, hr] at hv
      cases hv
    · rw [resolvedValue, hr] at hv
      rw [Except.ok.inj hv]

/-- **Each secret is provisioned for its own declaration.** -/
theorem forall₂_of_provisioning {specs : List ProxySecretSpec}
    (h : Runs (Prog.traverse (provisionOne resolved) specs) tr (.ok provisioned)) :
    List.Forall₂ (ProvisionedFor resolved) specs provisioned :=
  (forall₂_of_runs_traverse h).imp fun _ _ h => provisionedFor_of_runs h.choose_spec

theorem ProvisionedIn.each {configuration : Config}
    (h : ProvisionedIn world configuration policy tr resolved provisioned) :
    List.Forall₂ (ProvisionedFor resolved) policy.proxySecrets provisioned := by
  obtain ⟨_, _, -, -, hprov⟩ := h
  exact forall₂_of_provisioning hprov

/-- What is called afterwards does not change it. -/
theorem ProvisionedIn.mono {configuration : Config} {tr' : List Effect}
    (h : ProvisionedIn world configuration policy tr resolved provisioned) (hp : tr <+: tr') :
    ProvisionedIn world configuration policy tr' resolved provisioned := by
  obtain ⟨t₁, t₂, ht, hres, hprov⟩ := h
  exact ⟨t₁, t₂, ht.trans hp, hres, hprov⟩

/-- **The calls say what it was**: the answers of the providers, and the draws. -/
theorem ProvisionedIn.unique {configuration : Config} {resolved' : ResolvedAll}
    {provisioned' : List ProvisionedProxySecret}
    (h : ProvisionedIn world configuration policy tr resolved provisioned)
    (h' : ProvisionedIn world configuration policy tr resolved' provisioned') :
    resolved' = resolved ∧ provisioned' = provisioned := by
  obtain ⟨t₁, t₂, ⟨u, rfl⟩, hres, hprov⟩ := h
  obtain ⟨t₁', t₂', ⟨u', ht⟩, hres', hprov'⟩ := h'
  rw [List.append_assoc, List.append_assoc] at ht
  obtain ⟨rfl, he⟩ := hres'.unique hres ht
  obtain rfl := Except.ok.inj he
  obtain ⟨-, he⟩ := hprov'.unique hprov (List.append_cancel_left ht)
  exact ⟨rfl, Except.ok.inj he⟩

/-- The plans name the variables the declarations name. -/
theorem names_of_provisioned
    (h : List.Forall₂ (ProvisionedFor resolved) policy.proxySecrets provisioned) (port : UInt16) :
    (targetEnvironment (provisioned.map ProvisionedProxySecret.plan) port).map Prod.fst =
      policy.proxySecrets.flatMap fun proxy => [proxy.envName, proxy.baseUrlEnv] := by
  rw [targetEnvironment_names]
  generalize policy.proxySecrets = specs at h
  induction h with
  | nil => rfl
  | @cons spec secret _ _ hab _ ih =>
    obtain ⟨value, entropy, -, rfl⟩ := hab
    rw [List.map_cons, List.flatMap_cons, List.flatMap_cons, ih]
    rfl

/-! ### The command -/

/-- What is set for the target: the direct variables, and the ones of the plans. -/
def settings (policy : CommandPolicy) (resolved : ResolvedAll)
    (provisioned : List ProvisionedProxySecret) (port : UInt16) : List (EnvName × Str) :=
  policy.secrets.map (fun spec =>
      (spec.envName, (resolved.value spec.provider spec.secretName).getD [])) ++
    targetEnvironment (provisioned.map ProvisionedProxySecret.plan) port

/-- **The names are the declared ones, in their order.** -/
theorem settings_names (h : List.Forall₂ (ProvisionedFor resolved) policy.proxySecrets provisioned)
    (port : UInt16) :
    (settings policy resolved provisioned port).map Prod.fst = policy.envNames := by
  rw [settings, List.map_append, names_of_provisioned h, CommandPolicy.envNames, List.map_map]
  rfl

/-- **Distinct names keep their own values.** -/
theorem delivered_settings (hnd : policy.envNames.Nodup)
    (hdecl : ∀ d ∈ declared policy, ∃ value, resolved.value d.1 d.2 = some value)
    (h : List.Forall₂ (ProvisionedFor resolved) policy.proxySecrets provisioned) (port : UInt16)
    (inherited : Str → Option Str) :
    Delivered policy resolved provisioned port inherited
      (assign (settings policy resolved provisioned port) inherited) where
  secret spec hs := by
    obtain ⟨value, hv⟩ := hdecl (spec.provider, spec.secretName)
      (List.mem_append_left _ (List.mem_map.mpr ⟨spec, hs, rfl⟩))
    refine ⟨value, hv, assign_of_mem ((settings_names h port).symm ▸ hnd) ?_ inherited⟩
    exact List.mem_append_left _ (List.mem_map.mpr ⟨spec, hs, by rw [hv]; rfl⟩)
  proxySecret := by
    refine forall₂_imp_mem h fun spec secret hs ⟨value, entropy, _, hsecret⟩ => ?_
    have hmem : ∀ p ∈
        [(secret.envName, secret.phantom.value), (secret.baseUrlEnv, loopbackUrl port)],
        assign (settings policy resolved provisioned port) inherited p.1 = some p.2 := fun p hp =>
      assign_of_mem ((settings_names h port).symm ▸ hnd) (List.mem_append_right _
        (List.mem_flatMap.mpr ⟨_, List.mem_map_of_mem hs, hp⟩)) inherited
    have h1 := hmem _ List.mem_cons_self
    have h2 := hmem _ (List.mem_cons_of_mem _ List.mem_cons_self)
    subst hsecret
    exact ⟨h1, h2⟩
  other name hn := assign_of_notMem ((settings_names h port).symm ▸ hn) inherited

theorem StartsBy.startsTarget {x : Command} {e : Effect} (h : StartsBy x e) : StartsTarget e := by
  rcases h with ⟨_, rfl⟩ | ⟨_, rfl⟩
  · exact Or.inl rfl
  · exact Or.inr rfl

/-- The command that runs the target beside its sidecar. -/
theorem startsBy_runBeside {image : Str} {r : Except Failure Exit}
    (h : Runs (runBeside world context policy environment userArgs provisioned image) tr r)
    {e : Effect} (he : e ∈ tr) {x : Command} (hx : StartsBy x e) :
    ∃ port, (∃ y ∈ tr, ReportsPort world port y) ∧
      x = { runtimeCommand context policy userArgs with
            env := environment ++
              targetEnvironment (provisioned.map ProvisionedProxySecret.plan) port } := by
  rcases target_runBeside h with hn | ⟨name, a, b, port, ans, q, hsole, -, hready⟩
  · exact absurd hx.startsTarget (hn e he)
  obtain ⟨y, hy, hport⟩ := reportsPort_of_runs hready
  refine ⟨port, ⟨y, by simp [hsole.eq, hy], hport⟩, ?_⟩
  -- the one start is by this command
  obtain ⟨u, v, huv⟩ := List.append_of_mem he
  obtain ⟨-, rfl, -⟩ := hsole.unique huv hx.startsTarget
  simpa [StartsBy, eq_comm] using hx

/-- **The command that starts the target**, on either path. -/
theorem settings_of_runs {invocation : Invocation} {configuration : Config}
    (hs : select world invocation = .ok (configuration, context, policy))
    {r : Except Failure Exit} (h : Runs (execute world invocation) tr r) {e : Effect} (he : e ∈ tr)
    {x : Command} (hx : StartsBy x e) :
    ∃ resolved provisioned port,
      ProvisionedIn world configuration policy tr resolved provisioned ∧
      (∀ d ∈ declared policy, ∃ value, resolved.value d.1 d.2 = some value) ∧
      (policy.proxySecrets ≠ [] → ∃ y ∈ tr, ReportsPort world port y) ∧
      x = { runtimeCommand context policy invocation.args with
            env := settings policy resolved provisioned port } := by
  have hst := hx.stage
  rw [execute_eq hs] at h
  rcases runs_bind_iff.mp h with ⟨_, -, hres⟩ | ⟨resolved, t₁, t₂, rfl, hres, hdel⟩
  · rw [List.mem_singleton.mp (emits_resolveDeclared world _ _ _ _ hres e he)] at hst
    cases hst
  -- resolution starts no target
  have het : e ∈ t₂ := by
    refine (List.mem_append.mp he).resolve_left fun he => ?_
    rw [List.mem_singleton.mp (emits_resolveDeclared world _ _ _ _ hres e he)] at hst
    cases hst
  refine ⟨resolved, ?_⟩
  have hvalues : ∀ d ∈ declared policy, ∃ value, resolved.value d.1 d.2 = some value :=
    fun d hd => value_of_runs_resolveDeclared hres hd
  have hdirect := directEnvironment_eq hvalues
  rcases deliverAll_cases hdel with ⟨-, rfl⟩ | ⟨environment, henv, ⟨hp, r', rfl, hex⟩ |
    ⟨hp, ⟨-, hstage⟩ | ⟨provisioned, image, s₁, s₂, s₃, rfl, hprov, himg, hbes⟩⟩⟩
  · cases het
  · obtain rfl := Except.ok.inj (henv.symm.trans hdirect)
    have hin : ProvisionedIn world configuration policy (t₁ ++ t₂) resolved [] := by
      refine ⟨t₁, [], ?_, hres, ?_⟩
      · rw [List.append_nil]
        exact List.prefix_append _ _
      · rw [hp]
        exact .done _
    refine ⟨[], 0, hin, hvalues, fun hne => absurd hp hne, ?_⟩
    rcases execRuntime_cases hex with ⟨_, -, rfl⟩ | ⟨ans, rfl⟩
    · cases het
    · rw [List.mem_singleton.mp het] at hx
      rcases hx with ⟨_, heq⟩ | ⟨_, heq⟩
      · simp at heq
      · obtain ⟨hcommand, -⟩ : _ ∧ _ := by simpa using heq
        rw [← hcommand, settings]
        simp [applyInjectedEnvironment, runtimeCommand, targetEnvironment]
  · have hd := hstage e het
    rw [hst] at hd
    exact absurd hd (by decide)
  · obtain rfl := Except.ok.inj (henv.symm.trans hdirect)
    have heb : e ∈ s₃ := by
      refine (List.mem_append.mp ((List.mem_append.mp het).resolve_left fun he => ?_)).resolve_left
        fun he => ?_
      · rw [List.mem_singleton.mp
          (emits_traverse (fun _ _ => emits_provisionOne resolved _) _ _ hprov e he)] at hst
        cases hst
      · have hd := emits_ensureProxyImage _ _ _ _ himg e he
        rw [InStages, hst] at hd
        exact absurd hd (by decide)
    obtain ⟨port, ⟨y, hy, hport⟩, rfl⟩ := startsBy_runBeside hbes heb hx
    have hin : ProvisionedIn world configuration policy (t₁ ++ (s₁ ++ (s₂ ++ s₃))) resolved
        provisioned := by
      refine ⟨t₁, s₁, ⟨s₂ ++ s₃, ?_⟩, hres, hprov⟩
      simp
    exact ⟨provisioned, port, hin, hvalues, fun _ => ⟨y, by simp [hy], hport⟩, rfl⟩

/-- **Whatever starts the target does so with the declared variables.** In every run of an
invocation: the command that starts the target is the argv that was built; the names set
on it are, in order, the operands of the argv's `--env`; and on top of any inherited
environment they have the values of their own declarations – the value this run resolved
for a secret, the phantom it drew for a proxy-backed secret and the address of the port its
sidecar reported – while every other variable keeps what it inherited. -/
theorem execute_managed {invocation : Invocation} {configuration : Config}
    (hs : select world invocation = .ok (configuration, context, policy))
    {r : Except Failure Exit} (h : Runs (execute world invocation) tr r) {e : Effect} (he : e ∈ tr)
    {x : Command} (hx : StartsBy x e) :
    x.program :: x.args = buildArgv context policy invocation.args ∧
      x.env.map Prod.fst = envOperands (buildArgv context policy invocation.args) ∧
      ∃ resolved provisioned port,
        ProvisionedIn world configuration policy tr resolved provisioned ∧
        List.Forall₂ (ProvisionedFor resolved) policy.proxySecrets provisioned ∧
        (policy.proxySecrets ≠ [] → ∃ y ∈ tr, ReportsPort world port y) ∧
        ∀ inherited, Delivered policy resolved provisioned port inherited
          (x.environment inherited) := by
  obtain ⟨hvalid, hcontext, hpolicy⟩ := valid_of_select hs
  have hnd := (hvalid.policy policy hpolicy).nodup
  have hoperands := envOperands_buildArgv (hvalid.context context hcontext).container.not_dash
    policy invocation.args
  obtain ⟨resolved, provisioned, port, hin, hvalues, hport, rfl⟩ := settings_of_runs hs h he hx
  have hprov := hin.each
  refine ⟨rfl, ?_, resolved, provisioned, port, hin, hprov, hport, fun inherited => ?_⟩
  · rw [hoperands]
    exact settings_names hprov port
  · exact delivered_settings hnd hvalues hprov port inherited

end

theorem execute_managed_sample :
    ∃ e ∈ (exec sampleAnswers 0 (execute sampleWorld sampleInvocation)).1, ∃ x, StartsBy x e ∧
      x.env.map Prod.fst = envOperands (buildArgv sampleContext samplePolicy []) := by
  have hget : ∃ x, (exec sampleAnswers 0 (execute sampleWorld sampleInvocation)).1[14]? =
      some ⟨.targetSpawn, x, .ok ()⟩ := by
    rw [execute_sample]
    exact ⟨_, rfl⟩
  obtain ⟨x, hx⟩ := hget
  have hm := List.mem_of_getElem? hx
  exact ⟨_, hm, x, Or.inl ⟨_, rfl⟩,
    (execute_managed select_sample (runs_exec sampleAnswers 0 _) hm (Or.inl ⟨_, rfl⟩)).2.1⟩

end Iwaya
