import Iwaya.Execute.Agreement
import Iwaya.Execute.Attribution
import Iwaya.Proxy.Headers
import Iwaya.Proxy.Serve

/-!
# From the configuration to the upstream

What the whole is for, said of a policy and of the variables of the target alone: a request
that shows what the target was given for a proxy-backed secret goes to the upstream of that
secret, with the raw value in the place of what was shown; nothing else goes anywhere
(`Iwaya.Entitled`, `Iwaya.Fulfils`). No route, transfer or pipe is mentioned in it.

The two processes get there through all of these. A target that is started stands beside a
proxy whose routes are the declarations, one by one (`Iwaya.StandsFor`), and the service of
that proxy, in any interleaving, does what the policy says (`Iwaya.policy_served`).
-/

namespace Iwaya

open Text Effects Trace

/-! ### What a policy says of a request -/

/-- The request shows what the target was given for a secret: once, under its header. -/
def Shows (environment : Str → Option Str) (headers : List (Str × Str)) (spec : ProxySecretSpec) :
    Prop :=
  (valuesOf headers spec.injectHeader.name).map some = [environment spec.envName]

instance (environment : Str → Option Str) (headers : List (Str × Str)) (spec : ProxySecretSpec) :
    Decidable (Shows environment headers spec) :=
  inferInstanceAs (Decidable (_ = _))

/-- **The secret a request is entitled to**: its target is origin-form, it repeats no
credential header, and this is the one secret it shows. -/
structure Entitled (policy : CommandPolicy) (environment : Str → Option Str) (request : Request)
    (spec : ProxySecretSpec) : Prop where
  target : isOriginForm request.target = true
  unrepeated : ∀ other ∈ policy.proxySecrets,
    (valuesOf request.headers other.injectHeader.name).length ≤ 1
  shown : (policy.proxySecrets.filter fun other => Shows environment request.headers other) = [spec]

/-- A header of the caller's that goes no further: one the proxy owns, or one named like a
credential of the policy. -/
def PolicyWithholds (policy : CommandPolicy) (name : Str) : Prop :=
  (∃ own ∈ ownedNames, eqIgnoreCase own name) ∨
    ∃ spec ∈ policy.proxySecrets, eqIgnoreCase spec.injectHeader.name name

instance (policy : CommandPolicy) (name : Str) : Decidable (PolicyWithholds policy name) :=
  inferInstanceAs (Decidable (_ ∨ _))

/-- **The request for the upstream of a secret**: the caller's, with the raw value in the
place of the phantom. -/
structure Fulfils (policy : CommandPolicy) (request : Request) (spec : ProxySecretSpec)
    (value : Str) (out : Outbound) : Prop where
  method : out.method = request.method
  uri : out.uri = spec.upstream ++ request.target
  hasBody : out.hasBody = hasBody request
  headers : ∃ before after, spec.injectHeader.template = before ++ placeholder ++ after ∧
    out.headers = headerPairs (request.headers.filter fun h => ¬PolicyWithholds policy h.1) ++
      [(spec.injectHeader.name, before ++ value ++ after)]

/-! ### Routes that stand for declarations -/

/-- A route that stands for a secret, for a target with these variables, with a raw value that
is the secret's. -/
structure StandsFor (environment : Str → Option Str) (holds : ProxySecretSpec → Str → Prop)
    (spec : ProxySecretSpec) (route : ProxyRoute) : Prop where
  headerName : route.headerName = spec.injectHeader.name
  template : route.template = spec.injectHeader.template
  upstream : route.upstream = spec.upstream
  phantom : environment spec.envName = some route.phantom.value
  value : holds spec route.rawValue

section

variable {policy : CommandPolicy} {environment : Str → Option Str}
  {holds : ProxySecretSpec → Str → Prop} {routes : List ProxyRoute}
  {spec : ProxySecretSpec} {route : ProxyRoute} {request : Request}

/-- Showing a secret is presenting its route. -/
theorem StandsFor.shows_iff (h : StandsFor environment holds spec route)
    (headers : List (Str × Str)) : Shows environment headers spec ↔ Presents headers route := by
  rw [presents_iff, Shows, h.headerName, h.phantom]
  constructor
  · intro hv
    obtain ⟨v, hv, he⟩ := List.map_eq_singleton_iff.mp hv
    rw [hv, Option.some.inj he]
  · intro hv
    rw [hv]
    rfl

theorem StandsFor.not_repeats_iff (h : StandsFor environment holds spec route)
    (headers : List (Str × Str)) :
    ¬Repeats headers route ↔ (valuesOf headers spec.injectHeader.name).length ≤ 1 := by
  rw [Repeats, h.headerName, not_le, Nat.lt_succ_iff]

/-- The secrets that are shown are those whose routes are presented. -/
theorem forall₂_shown (h : List.Forall₂ (StandsFor environment holds) policy.proxySecrets routes)
    (headers : List (Str × Str)) :
    List.Forall₂ (StandsFor environment holds)
      (policy.proxySecrets.filter fun spec => Shows environment headers spec)
      (routes.filter fun route => Presents headers route) := by
  refine List.rel_filter (fun spec route hsr => ?_) h
  simpa using hsr.shows_iff headers

/-- **A request that is accepted is entitled** to what its route stands for. -/
theorem entitled_of_accepted {http : Http}
    (h : List.Forall₂ (StandsFor environment holds) policy.proxySecrets routes)
    (ha : Accepted http routes request route) :
    ∃ spec ∈ policy.proxySecrets, StandsFor environment holds spec route ∧
      Entitled policy environment request spec := by
  have hshown := forall₂_shown h request.headers
  rw [ha.presented] at hshown
  obtain ⟨spec, l, hsr, hnil, hl⟩ := List.forall₂_cons_right_iff.mp hshown
  obtain rfl := List.forall₂_nil_right_iff.mp hnil
  refine ⟨spec, List.mem_of_mem_filter (hl ▸ List.mem_singleton_self spec), hsr, ha.target,
    fun other ho => ?_, hl⟩
  obtain ⟨route', hroute', hsr'⟩ := exists_of_forall₂ h ho
  exact (hsr'.not_repeats_iff _).mp (ha.unrepeated route' hroute')

/-- **A request that is entitled is accepted**, unless the library refuses it. -/
theorem accepted_of_entitled (http : Http)
    (h : List.Forall₂ (StandsFor environment holds) policy.proxySecrets routes)
    (he : Entitled policy environment request spec) :
    ∃ route ∈ routes, StandsFor environment holds spec route ∧
      (http.methodParses request.method = true →
        http.builds (outbound routes route request) = true →
        Accepted http routes request route) := by
  have hshown := forall₂_shown h request.headers
  rw [he.shown] at hshown
  obtain ⟨route, l, hsr, hnil, hl⟩ := List.forall₂_cons_left_iff.mp hshown
  obtain rfl := List.forall₂_nil_left_iff.mp hnil
  refine ⟨route, List.mem_of_mem_filter (hl ▸ List.mem_singleton_self route), hsr,
    fun hm hb => ⟨he.target, fun route' hroute' => ?_, hl, hm, hb⟩⟩
  obtain ⟨other, ho, hsr'⟩ := exists_of_forall₂ h.flip hroute'
  exact (hsr'.not_repeats_iff _).mpr (he.unrepeated other ho)

/-- What is withheld is withheld by the policy. -/
theorem withheld_iff_policyWithholds
    (h : List.Forall₂ (StandsFor environment holds) policy.proxySecrets routes) (name : Str) :
    Withheld routes name ↔ PolicyWithholds policy name := by
  refine or_congr_right ⟨?_, ?_⟩
  · rintro ⟨route, hm, heq⟩
    obtain ⟨spec, hs, hsr⟩ := exists_of_forall₂ h.flip hm
    exact ⟨spec, hs, hsr.headerName ▸ heq⟩
  · rintro ⟨spec, hs, heq⟩
    obtain ⟨route, hm, hsr⟩ := exists_of_forall₂ h hs
    exact ⟨route, hm, by rw [hsr.headerName]; exact heq⟩

/-- **What is sent through the route of a secret** is what the policy says. -/
theorem fulfils_outbound (h : List.Forall₂ (StandsFor environment holds) policy.proxySecrets routes)
    (hsr : StandsFor environment holds spec route)
    (hone : matchCount placeholder spec.injectHeader.template = 1) (request : Request) :
    Fulfils policy request spec route.rawValue (outbound routes route request) where
  method := rfl
  uri := by rw [← hsr.upstream]; rfl
  hasBody := rfl
  headers := by
    obtain ⟨before, after, ht⟩ := exists_of_matchCount (hone ▸ Nat.one_ne_zero)
    refine ⟨before, after, ht, ?_⟩
    rw [ht] at hone
    rw [outbound_headers, injected, hsr.template, hsr.headerName, ht, placeholder,
      replaceFirst_of_matchCount (by decide) hone]
    simp only [withheld_iff_policyWithholds h]

end

/-! ### What the two processes agree on -/

/-- What a secret resolved to in a run: a value that `bws` listed under its name, for its
provider, in a resolution that is part of the run. -/
def ListedIn (world : World) (configuration : Config) (tr : List Effect) (spec : ProxySecretSpec)
    (value : Str) : Prop :=
  ∃ c : Resolution, c.trace <:+: tr ∧ c.provider = spec.provider ∧
    c.Gives world configuration spec.secretName value

section

variable {world : World} {configuration : Config} {context : DockerContext}
  {policy : CommandPolicy} {invocation : Invocation} {resolved : ResolvedAll} {tr : List Effect}

/-- A value that was resolved was listed. -/
theorem listedIn_of_resolved (hpolicy : policy.Valid configuration)
    (h : Runs (resolveDeclared world configuration policy) tr (.ok resolved))
    {spec : ProxySecretSpec} (hs : spec ∈ policy.proxySecrets) {value : Str}
    (hv : resolved.value spec.provider spec.secretName = some value) :
    ListedIn world configuration tr spec value := by
  obtain ⟨resolutions, rfl, -, -, ⟨_, -, _, -, he⟩ | ⟨resolved', he, hall⟩⟩ :=
    resolveDeclared_parts hpolicy h
  · cases he
  obtain rfl := Except.ok.inj he
  obtain ⟨value', hv', c, hc, hid, hgives⟩ := hall (spec.provider, spec.secretName)
    (List.mem_append_right _ (List.mem_map.mpr ⟨spec, hs, rfl⟩))
  obtain rfl := Option.some.inj (hv.symm.trans hv')
  refine ⟨c, ?_, hid, hgives⟩
  obtain ⟨before, after, rfl⟩ := List.append_of_mem hc
  exact ⟨before.flatMap Resolution.trace, after.flatMap Resolution.trace, by simp⟩

/-- The routes of what was provisioned stand for the declarations. -/
theorem standsFor_provisioned {provisioned : List ProvisionedProxySecret}
    {environment : Str → Option Str} {holds : ProxySecretSpec → Str → Prop}
    (hprov : List.Forall₂ (ProvisionedFor resolved) policy.proxySecrets provisioned)
    (henv : List.Forall₂ (fun spec secret =>
      environment spec.envName = some secret.phantom.value) policy.proxySecrets provisioned)
    (hholds : ∀ spec ∈ policy.proxySecrets, ∀ value,
      resolved.value spec.provider spec.secretName = some value → holds spec value) :
    List.Forall₂ (StandsFor environment holds) policy.proxySecrets
      (provisioned.map ProvisionedProxySecret.proxyRoute) := by
  rw [List.forall₂_map_right_iff]
  have hmem : List.Forall₂ (fun spec _ => spec ∈ policy.proxySecrets) policy.proxySecrets
      provisioned :=
    (forall₂_imp_mem hprov.flip fun _ _ hs _ => hs).flip
  refine ((List.Forall₂.mp (fun _ _ h h' => And.intro h h') hmem hprov).mp
    (fun spec secret h henv => ?_) henv)
  obtain ⟨hs, value, entropy, hv, rfl⟩ := h
  exact ⟨rfl, rfl, rfl, henv, hholds spec hs value hv⟩

variable {c : Snapshot Call.Arg Call.Ans Failure Exit Host} {command : Command}

/-- **A target that is started stands beside its routes**: the proxy has bound its listener for
routes that stand, one by one, for what the policy declares, and for no others. -/
theorem standsFor_of_spawn (hserde : world.serde.Conforms)
    (hread : ReadsReadiness world.readiness)
    (h : (handshake world.serde).Course anyTurn
      ⟨.live (execute world invocation), [], Host.start⟩ c)
    (hw : c.process.waiting = some ⟨.targetSpawn, command⟩) :
    ∃ configuration context policy routes port,
      select world invocation = .ok (configuration, context, policy) ∧
      (∀ routes' bound, c.outside.Binds routes' bound ↔ routes' = routes ∧ bound = .ok port) ∧
      ∀ inherited, List.Forall₂
        (StandsFor (command.environment inherited) (ListedIn world configuration c.trace))
        policy.proxySecrets routes := by
  obtain ⟨hwithin, hs⟩ := Host.Sound.course h
  obtain ⟨process, tr, s⟩ := c
  rcases process with (_ | _ | ⟨_, _, next⟩) | _ | _ <;> cases hw
  obtain ⟨t, r, hrun⟩ := hwithin.exists_runs_call sampleAnswers (Except.ok ())
  obtain ⟨configuration, context, policy, resolved, t₁, A, rfl, hselect, hres, hdel⟩ :=
    resolved_of_spawn hrun
  have hvalues : ∀ d ∈ declared policy, ∃ value, resolved.value d.1 d.2 = some value :=
    fun d hd => value_of_runs_resolveDeclared hres hd
  obtain ⟨provisioned, read, port, pre, e, hprov, rfl, he, hport, rfl⟩ :=
    spawn_deliverAll hvalues hdel
  obtain ⟨hvalid, -, hpolicy⟩ := valid_of_select hselect
  have hvp := hvalid.policy policy hpolicy
  obtain ⟨bytes, rfl⟩ : ∃ bytes, read = .ok bytes := by
    cases read with
    | error e => cases hport
    | ok bytes => exact ⟨bytes, rfl⟩
  -- all of the transfer went in, and a port came back
  rw [← List.append_assoc] at hrun hs
  have hbefore : ∀ x ∈ t₁ ++ pre, ¬Transfers x := by
    rw [List.append_assoc _ _ (_ :: _), List.cons_append] at hrun
    exact fun x hx => (apart_before hrun he x hx).1
  have hsent := sent_of_startup hbefore he rfl (hs.down _ rfl)
  have hbytes : bytes <+: s.link.up.sent := hs.reads bytes (by simp [startup])
  have hne : s.link.up.sent ≠ [] := fun hnil =>
    ne_nil_of_portOf hport (List.prefix_nil.mp (hnil ▸ hbytes))
  obtain ⟨routes, port', hroutes, hbinds, hline⟩ := hs.proxy.reported hne
  -- so the proxy took the whole transfer, and its port is the one that was read
  obtain rfl := routes_of_prefix hserde (hsent ▸ s.link.down.taken_prefix) hroutes
  obtain rfl := port_of_prefix hread (hbytes.trans hline) hport
  refine ⟨configuration, context, policy, _, port, hselect,
    fun routes' bound => ⟨hs.proxy.binds_unique hbinds, ?_⟩, fun inherited => ?_⟩
  · rintro ⟨rfl, rfl⟩
    exact hbinds
  · refine standsFor_provisioned hprov
      ((delivered_settings hvp.nodup hvalues hprov port inherited).proxySecret.imp
        fun _ _ h => h.1) fun spec hspec value hv => ?_
    obtain ⟨res, hinfix, hid, hgives⟩ := listedIn_of_resolved hvp hres hspec hv
    exact ⟨res, hinfix.trans (List.prefix_append _ _).isInfix, hid, hgives⟩

/-- **From the configuration to the upstream.** Where a target is started, in any course of
the handshake, the proxy beside it serves the policy: with any requests, in any interleaving
and whatever upstreams do, a request that is sent is one that is entitled to a secret of the
policy by what the target was given, and what is sent is that request for the secret's own
upstream, with the value that was listed for it where its phantom was; and a request that is
entitled to a secret is sent so, unless the HTTP library refuses to make it. -/
theorem policy_served (hserde : world.serde.Conforms) (hread : ReadsReadiness world.readiness)
    (h : (handshake world.serde).Course anyTurn
      ⟨.live (execute world invocation), [], Host.start⟩ c)
    (hw : c.process.waiting = some ⟨.targetSpawn, command⟩) :
    ∃ configuration context policy routes port,
      select world invocation = .ok (configuration, context, policy) ∧
      (∀ routes' bound, c.outside.Binds routes' bound ↔ routes' = routes ∧ bound = .ok port) ∧
      ∀ (ι σ Λ : Type) [DecidableEq ι] (lib : ProxyLibraries) (request : ι → Request) (s₀ : σ)
        (w : ι → Surroundings ServeCall.Arg ServeCall.Ans σ Λ)
        (f : Fleet ι ServeCall.Arg ServeCall.Ans Empty Unit σ),
        Fleet.Course w (serve lib routes request s₀) f → ∀ i inherited,
          (∀ out ans, (⟨.contact, out, ans⟩ : ServeEvent) ∈ f.trace i → ∃ spec value,
            Entitled policy (command.environment inherited) (request i) spec ∧
            ListedIn world configuration c.trace spec value ∧
            Fulfils policy (request i) spec value out) ∧
          ∀ spec, Entitled policy (command.environment inherited) (request i) spec →
            ∃ value out, ListedIn world configuration c.trace spec value ∧
              Fulfils policy (request i) spec value out ∧
              (lib.http.methodParses (request i).method = true → lib.http.builds out = true →
                ∀ r, f.process i = .ended r →
                  ∃ ans, (⟨.contact, out, ans⟩ : ServeEvent) ∈ f.trace i) := by
  obtain ⟨configuration, context, policy, routes, port, hselect, hbinds, hstands⟩ :=
    standsFor_of_spawn hserde hread h hw
  obtain ⟨hvalid, -, hpolicy⟩ := valid_of_select hselect
  have hone : ∀ spec ∈ policy.proxySecrets, matchCount placeholder spec.injectHeader.template = 1 :=
    fun spec hs => ((hvalid.policy policy hpolicy).proxySecret spec hs).template_one
  refine ⟨configuration, context, policy, routes, port, hselect, hbinds, ?_⟩
  intro ι σ Λ _ lib request s₀ w f hf i inherited
  refine ⟨fun out ans hm => ?_, fun spec he => ?_⟩
  · obtain ⟨tr, hx, hpre⟩ := exists_exchange hf i
    obtain ⟨route, ha, rfl⟩ := hx.accepted (hpre.subset hm)
    obtain ⟨spec, hs, hsr, hentitled⟩ := entitled_of_accepted (hstands inherited) ha
    exact ⟨spec, route.rawValue, hentitled, hsr.value,
      fulfils_outbound (hstands inherited) hsr (hone spec hs) (request i)⟩
  · have hs : spec ∈ policy.proxySecrets :=
      List.mem_of_mem_filter (he.shown ▸ List.mem_singleton_self spec)
    obtain ⟨route, -, hsr, haccepted⟩ := accepted_of_entitled lib.http (hstands inherited) he
    exact ⟨route.rawValue, _, hsr.value,
      fulfils_outbound (hstands inherited) hsr (hone spec hs) (request i),
      fun hm hb r hr => (exchange_of_ended hf hr).2.sent (haccepted hm hb)⟩

end

/-! ### One request -/

/-- A request that shows this. -/
def requestShowing (shown : Str) : Request where
  target := "/v1".toList
  method := "GET".toList
  headers := [("x-api-key".toList, shown)]
  bodyLength := none

/-- If it is what the target was given, it is entitled to the secret of the sample. -/
theorem entitled_requestShowing {environment : Str → Option Str} {shown : Str}
    (h : environment "API_TOKEN".toList = some shown) :
    ∃ spec, Entitled samplePolicy environment (requestShowing shown) spec := by
  refine ⟨_, rfl, ?_, List.filter_eq_self.mpr fun spec hspec => ?_⟩
  · intro other hother
    obtain rfl := List.mem_singleton.mp hother
    exact le_of_eq rfl
  · obtain rfl := List.mem_singleton.mp hspec
    exact decide_eq_true (congrArg (fun value => [value]) h.symm)

/-- The target of the sample is given something for its secret. -/
theorem exists_shown {c : Snapshot Call.Arg Call.Ans Failure Exit Host} {command : Command}
    (h : (handshake readinessWorld.serde).Course anyTurn
      ⟨.live (execute readinessWorld sampleInvocation), [], Host.start⟩ c)
    (hw : c.process.waiting = some ⟨.targetSpawn, command⟩) (inherited : Str → Option Str) :
    ∃ shown, command.environment inherited "API_TOKEN".toList = some shown := by
  obtain ⟨_, _, policy, routes, port, hs, -, hstands⟩ :=
    standsFor_of_spawn SerdeJson.reference_conforms readsReadiness_reference h hw
  obtain ⟨-, -, rfl⟩ : _ ∧ _ ∧ samplePolicy = policy := by
    simpa using Except.ok.inj (select_readinessWorld.symm.trans hs)
  obtain ⟨route, _, hroute, -, -⟩ := List.forall₂_cons_left_iff.mp (hstands inherited)
  exact ⟨_, hroute.phantom⟩

/-- What the target was given is shown to the proxy beside it, and a value that was listed in
the run is sent. -/
theorem policy_served_sample : ∃ c command routes port shown f,
    (handshake readinessWorld.serde).Course anyTurn
        ⟨.live (execute readinessWorld sampleInvocation), [], Host.start⟩ c ∧
      c.process.waiting = some ⟨.targetSpawn, command⟩ ∧
      (∀ routes' bound, c.outside.Binds routes' bound ↔ routes' = routes ∧ bound = .ok port) ∧
      command.environment (fun _ => none) "API_TOKEN".toList = some shown ∧
      Fleet.Course (fun _ : Unit => lenientSurroundings)
        (serve lenientLibraries routes (fun _ => requestShowing shown) ()) f ∧
      ∃ spec value out ans, ListedIn readinessWorld sampleConfig c.trace spec value ∧
        Fulfils samplePolicy (requestShowing shown) spec value out ∧
        (⟨.contact, out, ans⟩ : ServeEvent) ∈ f.trace () := by
  obtain ⟨c, command, hcourse, hw, -⟩ := course_readinessWorld false
  obtain ⟨shown, hshown⟩ := exists_shown hcourse hw fun _ => none
  obtain ⟨_, _, _, routes, port, hs, hbinds, hserved⟩ :=
    policy_served SerdeJson.reference_conforms readsReadiness_reference hcourse hw
  obtain ⟨rfl, -, rfl⟩ : sampleConfig = _ ∧ _ ∧ samplePolicy = _ := by
    simpa using Except.ok.inj (select_readinessWorld.symm.trans hs)
  obtain ⟨f, hf, hover⟩ :=
    course_lenient lenientLibraries routes fun _ : Unit => requestShowing shown
  obtain ⟨r, hr⟩ := hover ()
  obtain ⟨spec, hentitled⟩ := entitled_requestShowing hshown
  obtain ⟨value, out, hlisted, hfulfils, hsent⟩ :=
    (hserved Unit Unit Empty lenientLibraries _ () _ f hf () fun _ => none).2 spec hentitled
  obtain ⟨ans, hcontact⟩ := hsent rfl rfl r hr
  exact ⟨c, command, routes, port, shown, f, hcourse, hw, hbinds, hshown, hf, spec, value, out, ans,
    hlisted, hfulfils, hcontact⟩

end Iwaya
