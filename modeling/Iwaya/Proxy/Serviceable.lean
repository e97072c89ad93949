import Iwaya.Foundation.Field
import Iwaya.Foundation.Uri.Authority
import Iwaya.Config.Parse
import Iwaya.Proxy.Agreement
import Iwaya.Proxy.Authentication
import Iwaya.Proxy.Authority

/-!
# Which configurations the proxy can serve

A defect of a route is to come out before the target starts, and not with each of its
requests. Three recognisers stand before the HTTP library for that: validation of the
header name and the template, the recogniser of origins in validation and again on the
transfer, and nothing for the raw value. They are not the library's own: an origin may
have a host that is not RFC 3986 syntax, and a raw value may hold a byte that no header
value can (`Iwaya.serviceable_iff`).
-/

namespace Iwaya

open Text Effects Uri

/-! ### What the HTTP library builds -/

/-- **What the library is documented to do** with a request for an `http` or `https`
URI. -/
structure Http.Conforms (http : Http) : Prop where
  /-- A method is a token. -/
  method : ∀ method, http.methodParses method = Field.isToken method
  /-- A request is built unless its authority, a header name or a header value is at fault. -/
  builds : ∀ out, (split rfcSlash out.uri).scheme ∈ [some "https".toList, some "http".toList] →
    (∃ rest, (split rfcSlash out.uri).target = '/' :: rest ∧ isTargetText rest = true) →
    Field.isToken out.method = true →
    (http.builds out = true ↔ (split rfcSlash out.uri).authority.any isAuthority = true ∧
      ∀ header ∈ out.headers, Field.isToken header.1 = true ∧ Field.isValue header.2 = true)

/-- A library that conforms. -/
def Http.reference : Http where
  methodParses := Field.isToken
  builds out := (split rfcSlash out.uri).authority.any isAuthority &&
    out.headers.all fun header => Field.isToken header.1 && Field.isValue header.2

theorem Http.reference_conforms : Http.reference.Conforms where
  method _ := rfl
  builds out _ _ _ := by simp [reference]

/-! ### What is asked of a route -/

/-- A request with nothing wrong in what it brings along: a target of path and query
characters, a method, and headers that are fit to be passed on. -/
structure Request.WellFormed (routes : List ProxyRoute) (request : Request) : Prop where
  target : ∃ rest, request.target = '/' :: rest ∧ isTargetText rest = true
  method : Field.isToken request.method = true
  passed : ∀ header ∈ (headerPairs request.headers).filter
    (fun h => forwardsRequestHeader h.1 routes),
    Field.isToken header.1 = true ∧ Field.isValue header.2 = true

/-- A request that presents exactly one route. -/
def Authenticated (routes : List ProxyRoute) (request : Request) : Prop :=
  (∀ route ∈ routes, ¬Repeats request.headers route) ∧
    ∃ route, (routes.filter fun route => Presents request.headers route) = [route]

/-- **Every such request is constructed and sent**; only a target that begins like an
authority is refused for that. -/
def Serves (ρ : Type) (http : Http) (routes : List ProxyRoute) : Prop :=
  ∀ request : Request, request.WellFormed routes → Authenticated routes request →
    ∀ tr r, Runs (forward http routes request : Contacting ρ ρ) tr r →
      if isOriginForm request.target then
        ∃ route ∈ routes, ∃ ans, tr = [⟨(), outbound routes route request, ans⟩] ∧
          r = ans.mapError Rejection.upstream
      else tr = [] ∧ r = .error (.badRequest "the request target must be origin-form".toList)

/-! ### The last gate -/

section

variable {ρ : Type} {http : Http} {routes : List ProxyRoute} {request : Request}
  {route : ProxyRoute} {tr : List (Event (fun _ : Unit => Outbound) (fun _ : Unit => Except Str ρ))}
  {r : Except Rejection ρ}

/-- A selected request is sent if it can be built, and refused if not. -/
theorem runs_forward_of_selected (h : Runs (forward http routes request) tr r)
    (ho : isOriginForm request.target = true)
    (hs : selectRoute routes (headerPairs request.headers) = .ok route)
    (hm : http.methodParses request.method = true) :
    (http.builds (outbound routes route request) = true ∧
        ∃ ans, tr = [⟨(), outbound routes route request, ans⟩] ∧
          r = ans.mapError Rejection.upstream) ∨
      (http.builds (outbound routes route request) = false ∧ tr = []) := by
  simp only [forward, Prog.bind_eq, runs_bind_iff, runs_ofExcept_iff] at h
  -- the first three gates are open
  rcases h with ⟨e, -, -, he⟩ | ⟨u, t₁, t₂, rfl, ⟨rfl, -⟩, h⟩
  · exact absurd (Checks.refuse_eq_error.mp he.symm).1 (by simp [ho])
  rcases h with ⟨e, -, -, he⟩ | ⟨route', t₁, t₂, rfl, ⟨rfl, hs'⟩, h⟩
  · cases hs.symm.trans he.symm
  obtain rfl : route = route' := Except.ok.inj (hs.symm.trans hs'.symm)
  rcases h with ⟨e, -, -, he⟩ | ⟨u, t₁, t₂, rfl, ⟨rfl, -⟩, h⟩
  · exact absurd (Checks.refuse_eq_error.mp he.symm).1 (by simp [hm])
  rcases h with ⟨e, -, rfl, he⟩ | ⟨u, t₁, t₂, rfl, ⟨rfl, hb⟩, h⟩
  · exact Or.inr ⟨(Checks.refuse_eq_error.mp he.symm).1, rfl⟩
  rcases h with ⟨e, -, hp⟩ | ⟨ans, t₁, t₂, rfl, hp, rfl, rfl⟩
  · obtain ⟨ans, -, he⟩ := runs_perform_iff.mp hp
    cases he
  · obtain ⟨ans', rfl, ha⟩ := runs_perform_iff.mp hp
    obtain rfl := Except.ok.inj ha
    exact Or.inl ⟨by simpa using Checks.refuse_eq_ok.mp hb.symm, ans, by simp, rfl⟩

/-- **What the library sees of a request for an origin**: the scheme and the authority of
the upstream, and the target. -/
theorem split_outbound (hu : isHttpOrigin route.upstream = true)
    (ht : ∃ rest, request.target = '/' :: rest) :
    (split rfcSlash (outbound routes route request).uri).scheme ∈
        [some "https".toList, some "http".toList] ∧
      (split rfcSlash (outbound routes route request).uri).authority =
        (split rfcSlash route.upstream).authority ∧
      (split rfcSlash (outbound routes route request).uri).target = request.target := by
  obtain ⟨scheme, authority, ho⟩ := origin_of_isHttpOrigin hu
  obtain ⟨rest, hrest⟩ := ht
  have hsl : IsReader rfcSlash := Or.inl rfl
  obtain ⟨hne, hsc⟩ := ho.scheme_clean hsl
  obtain ⟨h1, h2, h3, -⟩ := split_origin_append hsl.slash hne hsc (ho.authority_clean hsl) rest
  have hbase := split_origin hsl.slash hne hsc (ho.authority_clean hsl)
  rw [← ho.eq] at h1 h2 h3 hbase
  rw [outbound, hrest, h1, h2, h3, hbase]
  rcases ho.scheme_eq with rfl | rfl <;> simp

/-- **When a request for a route is built**: what it brings along is in order, so all
depends on the upstream and the raw value. -/
theorem builds_outbound_iff (hhttp : http.Conforms) (hw : request.WellFormed routes)
    (hu : isHttpOrigin route.upstream = true) (hname : Field.isToken route.headerName = true)
    (hvalue : Field.isValue (injected route).2 = Field.isValue route.rawValue) :
    http.builds (outbound routes route request) = true ↔
      (split rfcSlash route.upstream).authority.any isAuthority = true ∧
        Field.isValue route.rawValue = true := by
  obtain ⟨rest, ht, htext⟩ := hw.target
  obtain ⟨hscheme, hauthority, htarget⟩ :=
    @split_outbound routes request route hu ⟨rest, ht⟩
  rw [hhttp.builds _ hscheme ⟨rest, htarget.trans ht, htext⟩ hw.method, hauthority]
  refine and_congr_right fun _ => ⟨fun h => ?_, fun h header hh => ?_⟩
  · rw [← hvalue]
    exact (h _ (List.mem_append_right _ (List.mem_singleton_self _))).2
  · rcases List.mem_append.mp hh with hh | hh
    · exact hw.passed header hh
    · rw [List.mem_singleton.mp hh]
      exact ⟨hname, hvalue.trans h⟩

end

/-- **An injected value is as good as its raw value**: a valid template adds printable
characters to it. -/
theorem isValue_injected {config : Config} {proxy : ProxySecretSpec} (h : proxy.Valid config)
    (raw : Str) :
    Field.isValue (replaceFirst placeholder raw proxy.injectHeader.template) =
      Field.isValue raw := by
  have hmatch : matchCount placeholder proxy.injectHeader.template ≠ 0 := by
    rw [h.template_one]
    exact Nat.one_ne_zero
  obtain ⟨l, r, ht⟩ := exists_of_matchCount hmatch
  have hone := h.template_one
  have hprint := h.template_printable
  rw [ht] at hone hprint ⊢
  simp only [List.all_append, Bool.and_eq_true] at hprint
  rw [placeholder, replaceFirst_of_matchCount (by decide) hone, Field.isValue_append,
    Field.isValue_append, Field.isValue_of_printable hprint.1.1,
    Field.isValue_of_printable hprint.2, Bool.true_and, Bool.and_true]

/-! ### The routes of a policy -/

section

variable (policy : CommandPolicy) (raw : Fin policy.proxySecrets.length → Str)
  (draw : Fin policy.proxySecrets.length → Vector UInt8 entropyBytes)

/-- The route of one proxy-backed secret. -/
def policyRoute (i : Fin policy.proxySecrets.length) : ProxyRoute :=
  (ProvisionedProxySecret.provision (policy.proxySecrets.get i) (raw i) (draw i)).proxyRoute

/-- Two secrets that no request can tell apart: one header, in any casing, and one
phantom. -/
def Twins (i j : Fin policy.proxySecrets.length) : Prop :=
  eqIgnoreCase (policy.proxySecrets.get i).injectHeader.name
    (policy.proxySecrets.get j).injectHeader.name = true ∧ draw i = draw j

theorem map_proxyRoute_provisionAll :
    (provisionAll policy raw draw).map ProvisionedProxySecret.proxyRoute =
      List.ofFn (policyRoute policy raw draw) := by
  rw [provisionAll, List.map_ofFn]
  rfl

end

section

variable {config : Config} {policy : CommandPolicy} {raw : Fin policy.proxySecrets.length → Str}
  {draw : Fin policy.proxySecrets.length → Vector UInt8 entropyBytes}

/-- A twin is presented together with its twin. -/
theorem presents_of_twins {headers : List (Str × Str)} {i j : Fin policy.proxySecrets.length}
    (ht : Twins policy draw i j) (h : Presents headers (policyRoute policy raw draw i)) :
    Presents headers (policyRoute policy raw draw j) := by
  rw [presents_iff] at h ⊢
  have hvalues : valuesOf headers (policy.proxySecrets.get j).injectHeader.name =
      valuesOf headers (policy.proxySecrets.get i).injectHeader.name := by
    have hl := eqIgnoreCase_iff.mp ht.1
    simp only [valuesOf, eqIgnoreCase, hl]
  refine (hvalues.trans h).trans ?_
  simp [policyRoute, ProvisionedProxySecret.proxyRoute, ProvisionedProxySecret.provision, ht.2]

/-- A request that carries the phantom of one secret, and nothing else. -/
def presenting (policy : CommandPolicy)
    (draw : Fin policy.proxySecrets.length → Vector UInt8 entropyBytes)
    (i : Fin policy.proxySecrets.length) : Request where
  target := "/".toList
  method := "GET".toList
  headers := [((policy.proxySecrets.get i).injectHeader.name, (Phantom.generate (draw i)).value)]
  bodyLength := none

theorem presenting_wellFormed (i : Fin policy.proxySecrets.length) :
    (presenting policy draw i).WellFormed (List.ofFn (policyRoute policy raw draw)) where
  target := ⟨[], rfl, rfl⟩
  method := rfl
  passed := by
    -- the credential header is withheld
    intro header hh
    obtain ⟨hmem, hpass⟩ := List.mem_filter.mp hh
    have hname : header.1 = lowercase (policy.proxySecrets.get i).injectHeader.name := by
      simp only [headerPairs, presenting, List.map_cons, List.map_nil, List.mem_singleton] at hmem
      rw [hmem]
    have hany : (List.ofFn (policyRoute policy raw draw)).any
        (fun route => eqIgnoreCase route.headerName header.1) = true := by
      rw [List.any_eq_true]
      refine ⟨_, List.mem_ofFn.mpr ⟨i, rfl⟩, ?_⟩
      rw [hname, eqIgnoreCase_iff, lowercase_lowercase]
      rfl
    simp only [forwardsRequestHeader, hany, Bool.not_true, ite_self, Bool.false_eq_true] at hpass

/-- What one header has under a name. -/
theorem valuesOf_singleton (name value other : Str) :
    valuesOf [(name, value)] other = if eqIgnoreCase name other then [value] else [] := by
  cases h : eqIgnoreCase name other <;> simp [valuesOf, h]

/-- It presents the secret, and its twins. -/
theorem presents_presenting {i j : Fin policy.proxySecrets.length} :
    Presents (presenting policy draw i).headers (policyRoute policy raw draw j) ↔
      Twins policy draw i j := by
  have hvalues : valuesOf (presenting policy draw i).headers
      (policyRoute policy raw draw j).headerName =
        if eqIgnoreCase (policy.proxySecrets.get i).injectHeader.name
          (policy.proxySecrets.get j).injectHeader.name then [(Phantom.generate (draw i)).value]
        else [] := valuesOf_singleton _ _ _
  have hphantom : (policyRoute policy raw draw j).phantom.value =
      (Phantom.generate (draw j)).value := rfl
  rw [presents_iff, hvalues, hphantom, Twins]
  split_ifs with he
  · rw [List.cons.injEq, and_iff_left rfl, and_iff_right he]
    exact ⟨fun h => Phantom.generate_injective (congrArg Phantom.mk h), fun h => by rw [h]⟩
  · exact iff_of_false not_false fun h => he h.1

theorem not_repeats_presenting (i : Fin policy.proxySecrets.length) (route : ProxyRoute) :
    ¬Repeats (presenting policy draw i).headers route := by
  have hlen : (valuesOf (presenting policy draw i).headers route.headerName).length ≤ 1 := by
    rw [valuesOf, List.length_map]
    exact List.length_filter_le _ _
  unfold Repeats
  omega

/-- The answer to a request that presents one route. -/
theorem selectRoute_of_authenticated {routes : List ProxyRoute} {request : Request}
    {route : ProxyRoute} (hr : ∀ route ∈ routes, ¬Repeats request.headers route)
    (hf : (routes.filter fun route => Presents request.headers route) = [route]) :
    selectRoute routes (headerPairs request.headers) = .ok route := by
  rw [selectRoute_eq_ok]
  simp only [repeats_headerPairs, presents_headerPairs]
  exact ⟨hr, hf⟩

/-- **When the routes of a valid policy are served.** -/
theorem serves_iff {ρ : Type} {http : Http} (hhttp : http.Conforms)
    (hvalid : policy.Valid config) : Serves ρ http (List.ofFn (policyRoute policy raw draw)) ↔
      ∀ i, (∀ j, Twins policy draw i j → j = i) →
        (split rfcSlash (policy.proxySecrets.get i).upstream).authority.any isAuthority = true ∧
          Field.isValue (raw i) = true := by
  -- what decides whether a request for a route is built
  have hbuilds : ∀ request : Request, request.WellFormed (List.ofFn (policyRoute policy raw draw)) →
      ∀ i, http.builds (outbound (List.ofFn (policyRoute policy raw draw))
          (policyRoute policy raw draw i) request) = true ↔
        (split rfcSlash (policy.proxySecrets.get i).upstream).authority.any isAuthority = true ∧
          Field.isValue (raw i) = true := by
    intro request hw i
    have hv := hvalid.proxySecret _ (List.get_mem _ i)
    refine builds_outbound_iff hhttp hw hv.upstream ?_ (isValue_injected hv (raw i))
    have hname : Field.isToken (policy.proxySecrets.get i).injectHeader.name = true := by
      rw [Field.isToken, Bool.and_eq_true, Bool.not_eq_true', List.isEmpty_eq_false_iff]
      exact ⟨hv.name_ne_nil, hv.name_token⟩
    exact hname
  constructor
  · intro hserves i hi
    -- the request that presents the secret presents no other
    have hw : (presenting policy draw i).WellFormed (List.ofFn (policyRoute policy raw draw)) :=
      presenting_wellFormed i
    have hrep : ∀ route ∈ List.ofFn (policyRoute policy raw draw),
        ¬Repeats (presenting policy draw i).headers route :=
      fun route _ => not_repeats_presenting i route
    have hfilter := filter_ofFn (policyRoute policy raw draw)
      (fun route => decide (Presents (presenting policy draw i).headers route)) i fun j => by
        rw [decide_eq_true_iff, presents_presenting]
        refine ⟨hi j, ?_⟩
        rintro rfl
        exact ⟨eqIgnoreCase_iff.mpr rfl, rfl⟩
    have hrun := runs_exec (fun _ _ => Except.error []) 0
      (forward http (List.ofFn (policyRoute policy raw draw)) (presenting policy draw i) :
        Contacting ρ ρ)
    obtain ⟨route, hroute, ans, htr, -⟩ := hserves _ hw ⟨hrep, _, hfilter⟩ _ _ hrun
    rcases runs_forward_of_selected hrun rfl (selectRoute_of_authenticated hrep hfilter)
      ((hhttp.method _).trans hw.method) with ⟨hb, -⟩ | ⟨-, hnil⟩
    · exact (hbuilds _ hw i).mp hb
    · rw [htr] at hnil
      cases hnil
  · intro hall request hw ⟨hrep, route, hf⟩ tr r hrun
    split_ifs with ho
    · obtain ⟨i, rfl, hpresents⟩ := index_of_filter_ofFn hf
      have hpi := (hpresents i).mpr rfl
      have hi : ∀ j, Twins policy draw i j → j = i := fun j ht =>
        (hpresents j).mp (decide_eq_true (presents_of_twins ht (of_decide_eq_true hpi)))
      rcases runs_forward_of_selected hrun ho (selectRoute_of_authenticated hrep hf)
        ((hhttp.method _).trans hw.method) with ⟨-, ans, htr, hr⟩ | ⟨hb, -⟩
      · exact ⟨_, List.mem_ofFn.mpr ⟨i, rfl⟩, ans, htr, hr⟩
      · rw [(hbuilds request hw i).mpr (hall i hi)] at hb
        cases hb
    · exact runs_forward_of_target hrun (by simpa using ho)

/-- A policy is refused before its target starts, or all of its requests are served. -/
def Serviceable (ρ : Type) (serde : SerdeJson) (http : Http) (policy : CommandPolicy)
    (raw : Fin policy.proxySecrets.length → Str)
    (draw : Fin policy.proxySecrets.length → Vector UInt8 entropyBytes) : Prop :=
  (∃ e, parseTransfer serde (intoTransfer serde (provisionAll policy raw draw)).1 = .error e) ∨
    ∃ routes, parseTransfer serde (intoTransfer serde (provisionAll policy raw draw)).1 =
      .ok routes ∧ Serves ρ http routes

theorem serviceable_iff_serves {ρ : Type} {serde : SerdeJson} (hserde : serde.Conforms)
    {http : Http} (hvalid : policy.Valid config) (hne : policy.proxySecrets ≠ []) :
    Serviceable ρ serde http policy raw draw ↔
      Serves ρ http (List.ofFn (policyRoute policy raw draw)) := by
  rw [Serviceable, parseTransfer_provisionAll hserde hvalid hne raw draw,
    map_proxyRoute_provisionAll]
  simp

/-- **Serviceable configurations.** For an accepted configuration, a policy with
proxy-backed secrets, any resolved values and any draws: the transfer is refused, or every
well-formed request that presents exactly one route is constructed and sent, if and only
if every secret that has no twin has an upstream whose authority is RFC 3986 syntax and a
raw value without a control byte but the tab. -/
theorem serviceable_iff {ρ : Type} {serde : SerdeJson} (hserde : serde.Conforms) {http : Http}
    (hhttp : http.Conforms) {kdlParse : Str → Except Str (List Kdl.Node)} {text : Str}
    (hparse : parse kdlParse text = .ok config) (hpolicy : policy ∈ config.policies)
    (hne : policy.proxySecrets ≠ []) (raw : Fin policy.proxySecrets.length → Str)
    (draw : Fin policy.proxySecrets.length → Vector UInt8 entropyBytes) :
    Serviceable ρ serde http policy raw draw ↔ ∀ i, (∀ j, Twins policy draw i j → j = i) →
      (split rfcSlash (policy.proxySecrets.get i).upstream).authority.any isAuthority = true ∧
        Field.isValue (raw i) = true := by
  have hvalid := (valid_of_parse hparse).policy policy hpolicy
  rw [serviceable_iff_serves hserde hvalid hne, serves_iff hhttp hvalid]

end

/-- A draw of zeros. -/
def sampleDraw (_ : Fin 1) : Vector UInt8 entropyBytes := Vector.replicate 32 0

theorem serviceable_iff_sample :
    Serviceable Unit .reference .reference samplePolicy (fun _ => "key".toList) sampleDraw := by
  have hfit : ∀ i : Fin 1,
      (split rfcSlash (samplePolicy.proxySecrets.get i).upstream).authority.any isAuthority =
        true ∧ Field.isValue "key".toList = true := by decide
  exact (serviceable_iff SerdeJson.reference_conforms Http.reference_conforms parse_sample
    (List.mem_singleton_self samplePolicy) (List.cons_ne_nil _ _) _ sampleDraw).mpr
    fun i _ => hfit i

/-- A raw value with a line break after it is accepted everywhere, and fits into no
request. -/
theorem unserviceable_newline :
    parse sampleKdl sampleText = .ok sampleConfig ∧ samplePolicy ∈ sampleConfig.policies ∧
      ¬Serviceable Unit .reference .reference samplePolicy (fun _ => "key\n".toList)
        sampleDraw := by
  have hvalid := (valid_of_parse parse_sample).policy _ (List.mem_singleton_self samplePolicy)
  refine ⟨parse_sample, List.mem_singleton_self samplePolicy, fun h => ?_⟩
  have hserves := (serviceable_iff_serves SerdeJson.reference_conforms hvalid
    (List.cons_ne_nil _ _)).mp h
  have hvalue := ((serves_iff Http.reference_conforms hvalid).mp hserves (0 : Fin 1)
    fun j _ => Fin.subsingleton_one.elim j 0).2
  exact absurd hvalue (by decide)

end Iwaya
