import Iwaya.Foundation.Checks
import Iwaya.Config.Types
import Iwaya.Config.Origin

/-!
# Validation of the whole configuration

`Iwaya.validate` makes the checks of the source in its order and with its messages.
What everything downstream uses is the other side of `Iwaya.validate_eq_ok`: a
configuration is accepted exactly when it satisfies `Iwaya.Config.Valid`, a
condition with no loop, no order and no message in it.
-/

namespace Iwaya

open Text Checks

/-- The byte no argv element and no environment entry can hold. -/
def nul : Char := '\x00'

/-- The one placeholder of a header template. -/
def placeholder : Str := ['{', '}']

/-! ### The checks -/

/-- `provider_ids.insert` -/
def validateProvider (seen : List ProviderId) (provider : Provider) :
    Except ParseFailure (List ProviderId) := do
  refuse (provider.id ∈ seen)
    (.model ("duplicate provider identifier '".toList ++ provider.id ++ "'".toList))
  return provider.id :: seen

/-- The container name fills the first positional argv slot, so a leading `-`
would be consumed by the runtime as an option. -/
def validateContext (seen : List ContextId) (context : DockerContext) :
    Except ParseFailure (List ContextId) := do
  refuse (context.id ∈ seen)
    (.model ("duplicate context identifier '".toList ++ context.id ++ "'".toList))
  refuse (context.containerName = [] ∨ context.containerName.head? = some '-')
    (.model ("context '".toList ++ context.id ++
      "' has a 'container-name' that is not a container name".toList))
  forAll (fun (field, value) => refuse (nul ∈ value)
      (.model ("context '".toList ++ context.id ++ "' has a '".toList ++ field ++
        "' containing a NUL byte".toList)))
    [("user".toList, context.user), ("workdir".toList, context.workdir),
      ("container-name".toList, context.containerName)]
  return context.id :: seen

/-- One uniqueness scope for every variable a policy injects. An `=` would turn
the generated `--env NAME` into the `--env NAME=VALUE` shape. -/
def declareEnvName (policy : CommandPolicy) (seen : List EnvName) (envName : EnvName) :
    Except ParseFailure (List EnvName) := do
  refuse (envName = [] ∨ envName.head? = some '-' ∨ '=' ∈ envName ∨ nul ∈ envName)
    (.model ("command '".toList ++ policy.id ++ "' declares '".toList ++ envName ++
      "', which is not an environment variable name".toList))
  refuse (envName ∈ seen)
    (.model ("command '".toList ++ policy.id ++ "' declares environment variable '".toList ++
      envName ++ "' more than once".toList))
  return envName :: seen

/-- The reference to a provider from one entry of a policy. -/
def validateProviderReference (config : Config) (policy : CommandPolicy) (provider : ProviderId)
    (envName : EnvName) : Except ParseFailure Unit :=
  refuse (config.provider provider).isNone
    (.model ("command '".toList ++ policy.id ++ "' references unknown provider '".toList ++
      provider ++ "' for '".toList ++ envName ++ "'".toList))

def isTokenChar (c : Char) : Bool :=
  c.isAlphanum || "!#$%&'*+-.^_`|~".toList.contains c

/-- The headers whose values the proxy derives itself. -/
def proxyOwned : List Str :=
  ["host".toList, "content-length".toList, "transfer-encoding".toList, "connection".toList]

def validateProxySecret (config : Config) (policy : CommandPolicy) (proxy : ProxySecretSpec) :
    Except ParseFailure Unit := do
  validateProviderReference config policy proxy.provider proxy.envName
  refuse (isHttpOrigin proxy.upstream = false)
    (.model ("command '".toList ++ policy.id ++ "' has an 'upstream' for '".toList ++
      proxy.envName ++ "' that is not an http(s) origin".toList))
  refuse (proxy.injectHeader.name = [] ∨ proxy.injectHeader.name.all isTokenChar = false)
    (.model ("command '".toList ++ policy.id ++ "' has an 'inject-header' for '".toList ++
      proxy.envName ++ "' whose name is not an HTTP header name".toList))
  refuse (lowercase proxy.injectHeader.name ∈ proxyOwned)
    (.model ("command '".toList ++ policy.id ++ "' has an 'inject-header' for '".toList ++
      proxy.envName ++ "' that names '".toList ++ proxy.injectHeader.name ++
      "', a header the proxy itself controls".toList))
  refuse (matchCount placeholder proxy.injectHeader.template ≠ 1)
    (.model ("command '".toList ++ policy.id ++ "' has an 'inject-header' template for '".toList ++
      proxy.envName ++ "' that does not contain exactly one '".toList ++ placeholder ++
      "' placeholder".toList))
  refuse (proxy.injectHeader.template.all (fun c => isAscii c && !isAsciiControl c) = false)
    (.model ("command '".toList ++ policy.id ++ "' has an 'inject-header' template for '".toList ++
      proxy.envName ++
      "' containing a character that cannot appear in an HTTP header value".toList))

def validatePolicy (config : Config) (seen : List CommandId) (policy : CommandPolicy) :
    Except ParseFailure (List CommandId) := do
  refuse (policy.id ∈ seen)
    (.model ("duplicate command identifier '".toList ++ policy.id ++ "'".toList))
  refuse (policy.id = [] ∨ policy.id.head? = some '-' ∨ nul ∈ policy.id)
    (.model ("command '".toList ++ policy.id ++
      "' has an identifier that is not a command name".toList))
  -- secrets and proxy-backed secrets share one set of names
  let names ← policy.secrets.foldlM (fun names s => declareEnvName policy names s.envName) []
  let _ ← policy.proxySecrets.foldlM (fun names p => do
    let names ← declareEnvName policy names p.envName
    declareEnvName policy names p.baseUrlEnv) names
  forAll (fun s => validateProviderReference config policy s.provider s.envName) policy.secrets
  forAll (validateProxySecret config policy) policy.proxySecrets
  return policy.id :: seen

/-- **Validation.** -/
def validate (config : Config) : Except ParseFailure Unit := do
  let _ ← config.providers.foldlM validateProvider []
  let _ ← config.contexts.foldlM validateContext []
  let _ ← config.policies.foldlM (validatePolicy config) []
  return ()

/-! ### What a valid configuration is -/

/-- An argv element that can stand in a positional slot. -/
structure IsOperand (s : Str) : Prop where
  ne_nil : s ≠ []
  not_dash : s.head? ≠ some '-'
  nul_notMem : nul ∉ s

/-- The name of an environment variable. -/
structure IsEnvName (s : Str) : Prop extends IsOperand s where
  eq_notMem : '=' ∉ s

structure DockerContext.Valid (context : DockerContext) : Prop where
  container : IsOperand context.containerName
  user : nul ∉ context.user
  workdir : nul ∉ context.workdir

structure ProxySecretSpec.Valid (config : Config) (proxy : ProxySecretSpec) : Prop where
  provider : (config.provider proxy.provider).isSome
  upstream : isHttpOrigin proxy.upstream = true
  name_ne_nil : proxy.injectHeader.name ≠ []
  name_token : proxy.injectHeader.name.all isTokenChar = true
  name_not_owned : lowercase proxy.injectHeader.name ∉ proxyOwned
  template_one : matchCount placeholder proxy.injectHeader.template = 1
  template_printable : proxy.injectHeader.template.all (fun c => isAscii c && !isAsciiControl c)

structure CommandPolicy.Valid (config : Config) (policy : CommandPolicy) : Prop where
  id : IsOperand policy.id
  nodup : policy.envNames.Nodup
  envName : ∀ name ∈ policy.envNames, IsEnvName name
  provider : ∀ s ∈ policy.secrets, (config.provider s.provider).isSome
  proxySecret : ∀ proxy ∈ policy.proxySecrets, proxy.Valid config

/-- **A valid configuration.** -/
structure Config.Valid (config : Config) : Prop where
  providers : (config.providers.map Provider.id).Nodup
  contexts : (config.contexts.map DockerContext.id).Nodup
  context : ∀ context ∈ config.contexts, context.Valid
  policies : (config.policies.map CommandPolicy.id).Nodup
  policy : ∀ policy ∈ config.policies, policy.Valid config

/-! ### One check at a time -/

theorem isOperand_iff {s : Str} : ¬(s = [] ∨ s.head? = some '-') ∧ nul ∉ s ↔ IsOperand s := by
  rw [not_or]
  exact ⟨fun h => ⟨h.1.1, h.1.2, h.2⟩, fun h => ⟨⟨h.ne_nil, h.not_dash⟩, h.nul_notMem⟩⟩

theorem validateProvider_eq_ok {seen seen' : List ProviderId} {provider : Provider} :
    validateProvider seen provider = .ok seen' ↔
      provider.id ∉ seen ∧ True ∧ seen' = provider.id :: seen := by
  simp only [validateProvider, bind_eq_ok, refuse_eq_ok, exists_const, pure, Except.pure,
    Except.ok.injEq, true_and, eq_comm (a := seen')]

theorem validateContext_eq_ok {seen seen' : List ContextId} {context : DockerContext} :
    validateContext seen context = .ok seen' ↔
      context.id ∉ seen ∧ context.Valid ∧ seen' = context.id :: seen := by
  have hvalid : context.Valid ↔ ¬(context.containerName = [] ∨
      context.containerName.head? = some '-') ∧ nul ∉ context.user ∧ nul ∉ context.workdir ∧
      nul ∉ context.containerName := by
    constructor
    · intro h
      exact ⟨(isOperand_iff.mpr h.container).1, h.user, h.workdir, h.container.nul_notMem⟩
    · rintro ⟨h1, h2, h3, h4⟩
      exact ⟨isOperand_iff.mp ⟨h1, h4⟩, h2, h3⟩
  simp only [validateContext, bind_eq_ok, forAll_eq_ok, List.forall_mem_cons,
    refuse_eq_ok, List.not_mem_nil, IsEmpty.forall_iff, implies_true, and_true, pure, Except.pure,
    Except.ok.injEq, exists_const, hvalid, and_assoc, eq_comm (a := seen')]

theorem declareEnvName_eq_ok {policy : CommandPolicy} {seen seen' : List EnvName}
    {envName : EnvName} :
    declareEnvName policy seen envName = .ok seen' ↔
      envName ∉ seen ∧ IsEnvName envName ∧ seen' = envName :: seen := by
  simp only [declareEnvName, bind_eq_ok, refuse_eq_ok, exists_const, not_or, pure, Except.pure,
    Except.ok.injEq, eq_comm (a := seen')]
  constructor
  · rintro ⟨⟨h1, h2, h3, h4⟩, h5, h6⟩
    exact ⟨h5, ⟨⟨h1, h2, h4⟩, h3⟩, h6⟩
  · rintro ⟨h5, h, h6⟩
    exact ⟨⟨h.ne_nil, h.not_dash, h.eq_notMem, h.nul_notMem⟩, h5, h6⟩

/-- The two loops that declare a policy's variables are one over all of them. -/
theorem declare_all (policy : CommandPolicy) (seen : List EnvName) :
    (do
      let names ← policy.secrets.foldlM (fun names s => declareEnvName policy names s.envName) seen
      policy.proxySecrets.foldlM (fun names p => do
        let names ← declareEnvName policy names p.envName
        declareEnvName policy names p.baseUrlEnv) names) =
      policy.envNames.foldlM (declareEnvName policy) seen := by
  have hproxy : ∀ (proxies : List ProxySecretSpec) (names : List EnvName),
      proxies.foldlM (fun names p => do
        let names ← declareEnvName policy names p.envName
        declareEnvName policy names p.baseUrlEnv) names =
      (proxies.flatMap fun p => [p.envName, p.baseUrlEnv]).foldlM (declareEnvName policy)
        names := by
    intro proxies
    induction proxies with
    | nil => exact fun _ => rfl
    | cons p proxies ih => simp [List.foldlM_cons, ih]
  simp only [CommandPolicy.envNames, List.foldlM_append, List.foldlM_map, hproxy]

theorem validateProxySecret_eq_ok {config : Config} {policy : CommandPolicy}
    {proxy : ProxySecretSpec} {u : Unit} :
    validateProxySecret config policy proxy = .ok u ↔ proxy.Valid config := by
  simp only [validateProxySecret, validateProviderReference, bind_eq_ok, refuse_eq_ok, exists_const,
    not_or, Bool.not_eq_false, Decidable.not_not, Option.isNone_iff_eq_none,
    Option.ne_none_iff_isSome]
  constructor
  · rintro ⟨h1, h2, ⟨h3, h4⟩, h5, h6, h7⟩
    exact ⟨h1, h2, h3, h4, h5, h6, h7⟩
  · intro h
    exact ⟨h.provider, h.upstream, ⟨h.name_ne_nil, h.name_token⟩, h.name_not_owned,
      h.template_one, h.template_printable⟩

theorem validatePolicy_eq_ok {config : Config} {seen seen' : List CommandId}
    {policy : CommandPolicy} :
    validatePolicy config seen policy = .ok seen' ↔
      policy.id ∉ seen ∧ policy.Valid config ∧ seen' = policy.id :: seen := by
  have hdeclare := foldlM_seen (fun name => name) IsEnvName (declareEnvName policy)
    (fun _ _ _ => declareEnvName_eq_ok) policy.envNames []
  -- the declarations are one pass over the policy's names, whose two loops share their set
  have hflat : validatePolicy config seen policy = (do
      refuse (policy.id ∈ seen)
        (.model ("duplicate command identifier '".toList ++ policy.id ++ "'".toList))
      refuse (policy.id = [] ∨ policy.id.head? = some '-' ∨ nul ∈ policy.id)
        (.model ("command '".toList ++ policy.id ++
          "' has an identifier that is not a command name".toList))
      let _ ← policy.envNames.foldlM (declareEnvName policy) []
      forAll (fun s => validateProviderReference config policy s.provider s.envName) policy.secrets
      forAll (validateProxySecret config policy) policy.proxySecrets
      return policy.id :: seen) := by
    rw [validatePolicy, ← declare_all]
    simp only [bind_assoc]
  rw [hflat]
  simp only [bind_eq_ok, refuse_eq_ok, hdeclare, forAll_eq_ok, validateProxySecret_eq_ok,
    validateProviderReference, exists_const, pure, Except.pure, Except.ok.injEq, List.map_id',
    Option.isNone_iff_eq_none, Option.ne_none_iff_isSome]
  constructor
  · rintro ⟨h1, h2, names, ⟨hnd, hall, -⟩, hprov, hproxy, h3⟩
    rw [← or_assoc, not_or] at h2
    exact ⟨h1, ⟨isOperand_iff.mp h2, hnd, fun n hn => (hall n hn).2,
      hprov, hproxy⟩, h3.symm⟩
  · rintro ⟨h1, h, rfl⟩
    refine ⟨h1, ?_, _, ⟨h.nodup, fun n hn => ⟨by simp, h.envName n hn⟩, rfl⟩,
      h.provider, h.proxySecret, rfl⟩
    rw [← or_assoc, not_or]
    exact isOperand_iff.mpr h.id

/-- **Validation accepts exactly the valid configurations.** -/
theorem validate_eq_ok {config : Config} {u : Unit} : validate config = .ok u ↔ config.Valid := by
  have hp := foldlM_seen Provider.id (fun _ => True) validateProvider
    (fun _ _ _ => validateProvider_eq_ok) config.providers []
  have hc := foldlM_seen DockerContext.id DockerContext.Valid validateContext
    (fun _ _ _ => validateContext_eq_ok) config.contexts []
  have hq := foldlM_seen CommandPolicy.id (CommandPolicy.Valid config) (validatePolicy config)
    (fun _ _ _ => validatePolicy_eq_ok) config.policies []
  simp only [validate, bind_eq_ok, hp, hc, hq, pure, Except.pure]
  constructor
  · rintro ⟨_, ⟨hp, -, -⟩, _, ⟨hc, hcv, -⟩, _, ⟨hq, hqv, -⟩, -⟩
    exact ⟨hp, hc, fun c h => (hcv c h).2, hq, fun q h => (hqv q h).2⟩
  · intro h
    exact ⟨_, ⟨h.providers, by simp, rfl⟩, _,
      ⟨h.contexts, fun c hc => ⟨by simp, h.context c hc⟩, rfl⟩, _,
      ⟨h.policies, fun q hq => ⟨by simp, h.policy q hq⟩, rfl⟩, trivial⟩

end Iwaya
