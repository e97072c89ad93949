import Iwaya.Config.Parse
import Iwaya.Proxy.Agreement
import Iwaya.Proxy.Headers

/-!
# Which headers the proxy owns

Two lists in two modules of the source say it. Validation keeps a credential from
being injected under four names, those of the headers the proxy derives itself; the
filter of the proxy withholds these four and seven more from a caller. The two agree
on every other name, in every casing, so the injected credential, which no filter
looks at, is the only header an outbound request can carry under a name of the
proxy's, and the name is then one of the seven.
-/

namespace Iwaya

open Text Checks Effects

/-- Withheld from a caller's request, and accepted for a credential. -/
def callerOnlyNames : List Str :=
  ["Keep-Alive".toList, "Proxy-Authenticate".toList, "Proxy-Authorization".toList, "TE".toList,
    "Trailer".toList, "Upgrade".toList, "Expect".toList]

/-- The refusal of a name the proxy itself controls. -/
def controlled (policy : CommandPolicy) (proxy : ProxySecretSpec) : ParseFailure :=
  .model ("command '".toList ++ policy.id ++ "' has an 'inject-header' for '".toList ++
    proxy.envName ++ "' that names '".toList ++ proxy.injectHeader.name ++
    "', a header the proxy itself controls".toList)

/-- The two lists side by side. -/
theorem ownedNames_perm :
    (ownedNames.map lowercase).Perm (proxyOwned ++ callerOnlyNames.map lowercase) := by
  decide

/-- No name is on both halves. -/
theorem proxyOwned_disjoint {name : Str} (h : name ∈ proxyOwned) :
    name ∉ callerOnlyNames.map lowercase := by
  have hd : ∀ own ∈ proxyOwned, own ∉ callerOnlyNames.map lowercase := by decide
  exact hd name h

theorem withheld_nil_iff {name : Str} :
    Withheld [] name ↔ lowercase name ∈ proxyOwned ∨ ∃ other ∈ callerOnlyNames,
      eqIgnoreCase other name = true := by
  have hown : (∃ own ∈ ownedNames, eqIgnoreCase own name = true) ↔
      lowercase name ∈ ownedNames.map lowercase := by
    simp only [eqIgnoreCase_iff, List.mem_map]
  have hother : (∃ other ∈ callerOnlyNames, eqIgnoreCase other name = true) ↔
      lowercase name ∈ callerOnlyNames.map lowercase := by
    simp only [eqIgnoreCase_iff, List.mem_map]
  rw [Withheld, hown, hother, ownedNames_perm.mem_iff, List.mem_append]
  simp

/-- **Validation's list is the proxy's, less the seven names.** -/
theorem mem_proxyOwned_iff {name : Str} :
    lowercase name ∈ proxyOwned ↔ forwardsRequestHeader (lowercase name) [] = false ∧
      ¬∃ other ∈ callerOnlyNames, eqIgnoreCase other name = true := by
  rw [← Bool.not_eq_true, forwardsRequestHeader_lowercase, not_not, withheld_nil_iff]
  constructor
  · intro h
    refine ⟨Or.inl h, ?_⟩
    rintro ⟨other, ho, he⟩
    exact proxyOwned_disjoint h (List.mem_map.mpr ⟨other, ho, eqIgnoreCase_iff.mp he⟩)
  · rintro ⟨h | h, hno⟩
    · exact h
    · exact absurd h hno

/-- The checks are made in order, and each has its own message. -/
theorem validateProxySecret_eq_controlled {config : Config} {policy : CommandPolicy}
    {proxy : ProxySecretSpec} :
    validateProxySecret config policy proxy = .error (controlled policy proxy) ↔
      (config.provider proxy.provider).isSome ∧ isHttpOrigin proxy.upstream = true ∧
      proxy.injectHeader.name ≠ [] ∧ proxy.injectHeader.name.all isTokenChar = true ∧
      lowercase proxy.injectHeader.name ∈ proxyOwned := by
  have hmsg : ∀ {s t : Str} {a b : Str}, ¬s <+: t → ¬t <+: s →
      (ParseFailure.model ("command '".toList ++ (policy.id ++ (s ++ a))) =
        .model ("command '".toList ++ (policy.id ++ (t ++ b)))) = False := by
    intro s t a b hs ht
    rw [ParseFailure.model.injEq, List.append_cancel_left_eq, List.append_cancel_left_eq]
    exact eq_false (append_ne_append hs ht a b)
  have hname : ∀ {s t : Str} {b : Str}, ¬s <+: t → ¬t <+: s →
      (ParseFailure.model ("command '".toList ++ (policy.id ++
          ("' has an 'inject-header' for '".toList ++ (proxy.envName ++ s)))) =
        .model ("command '".toList ++ (policy.id ++
          ("' has an 'inject-header' for '".toList ++ (proxy.envName ++ (t ++ b)))))) = False := by
    intro s t b hs ht
    simp only [ParseFailure.model.injEq, List.append_cancel_left_eq]
    rw [← List.append_nil s]
    exact eq_false (append_ne_append hs ht [] b)
  simp only [validateProxySecret, validateProviderReference, controlled, List.append_assoc,
    refuse_bind_eq_error, refuse_eq_error]
  rw [hmsg (by decide) (by decide), hmsg (by decide) (by decide), hname (by decide) (by decide),
    hmsg (by decide) (by decide), hmsg (by decide) (by decide)]
  simp only [and_false, or_false, false_or, and_true, Option.isNone_iff_eq_none,
    ← Option.ne_none_iff_isSome, not_or, Bool.not_eq_false, ne_eq, and_assoc]

/-! ### The agreement -/

/-- **Validation and the proxy.** Whatever the name of a credential's header, validation
refuses it as one the proxy itself controls, once the checks before have passed, exactly
when the proxy's filter refuses it without any route and it is none of the seven names.
And for a configuration that was read, with any values and draws behind its
proxy-backed secrets: a request that is sent carries a header under a name of the proxy's
only where that header is the injected one, and its name one of the seven. -/
theorem controlled_iff_withheld (config : Config) (policy : CommandPolicy) :
    (∀ proxy : ProxySecretSpec,
      validateProxySecret config policy proxy = .error (controlled policy proxy) ↔
        (config.provider proxy.provider).isSome ∧ isHttpOrigin proxy.upstream = true ∧
        proxy.injectHeader.name ≠ [] ∧ proxy.injectHeader.name.all isTokenChar = true ∧
        forwardsRequestHeader (lowercase proxy.injectHeader.name) [] = false ∧
        ¬∃ other ∈ callerOnlyNames, eqIgnoreCase other proxy.injectHeader.name = true) ∧
    ∀ kdlParse text, parse kdlParse text = .ok config → policy ∈ config.policies →
      ∀ (raw : Fin policy.proxySecrets.length → Str)
        (draw : Fin policy.proxySecrets.length → Vector UInt8 entropyBytes) (http : Http)
        (request : Request) (ρ : Type)
        (tr : List (Event (fun _ : Unit => Outbound) (fun _ : Unit => Except Str ρ)))
        (r : Except Rejection ρ),
        Runs (forward http ((provisionAll policy raw draw).map
          ProvisionedProxySecret.proxyRoute) request) tr r →
        ∀ event ∈ tr, ∃ passed header, event.arg.headers = passed ++ [header] ∧
          (∀ h ∈ passed, forwardsRequestHeader (lowercase h.1) [] = true) ∧
          (forwardsRequestHeader (lowercase header.1) [] = false →
            (∃ proxy ∈ policy.proxySecrets, header.1 = proxy.injectHeader.name) ∧
            ∃ other ∈ callerOnlyNames, eqIgnoreCase other header.1 = true) := by
  constructor
  · intro proxy
    rw [validateProxySecret_eq_controlled, mem_proxyOwned_iff]
  · intro kdlParse text hparse hpolicy raw draw http request ρ tr r hruns event hevent
    rcases contact_of_runs hruns with ⟨rfl, -⟩ | ⟨route, ans, -, hs, rfl, -⟩
    · exact absurd hevent List.not_mem_nil
    obtain rfl := List.mem_singleton.mp hevent
    refine ⟨_, _, outbound_headers _ route request, fun h hm => ?_, fun hno => ?_⟩
    · obtain ⟨h', hm', rfl⟩ := List.mem_map.mp hm
      have hpass := of_decide_eq_true (List.mem_filter.mp hm').2
      rw [lowercase_lowercase, forwardsRequestHeader_lowercase]
      exact fun hw => hpass (Or.inl (hw.resolve_right (by simp)))
    · have hmem : route ∈ (provisionAll policy raw draw).map ProvisionedProxySecret.proxyRoute :=
        List.mem_of_mem_filter ((selectRoute_eq_ok.mp hs).2 ▸ List.mem_singleton_self route)
      obtain ⟨secret, hsecret, rfl⟩ := List.mem_map.mp hmem
      obtain ⟨i, rfl⟩ := (mem_provisionAll policy raw draw).mp hsecret
      have hspec := List.get_mem policy.proxySecrets i
      refine ⟨⟨_, hspec, rfl⟩, ?_⟩
      by_contra hother
      exact (((valid_of_parse hparse).policy policy hpolicy).proxySecret _ hspec).name_not_owned
        (mem_proxyOwned_iff.mpr ⟨hno, hother⟩)

/-- A request of the sample's target, with a header of its connection besides. -/
def sampleRequest : Request where
  target := "/v1".toList
  method := "GET".toList
  headers := [("X-Api-Key".toList, (Phantom.generate (sharedDraw 0)).value),
    ("Keep-Alive".toList, "timeout=5".toList), ("Accept".toList, "*/*".toList)]
  bodyLength := none

/-- The routes of the sample, with one resolved value. -/
def sampleRoutes : List ProxyRoute :=
  (provisionAll samplePolicy (fun _ => "raw".toList) (fun _ => sharedDraw 0)).map
    ProvisionedProxySecret.proxyRoute

theorem controlled_iff_withheld_sample :
    ∃ event ∈ (exec (fun _ _ => .ok ()) 0
        (forward ⟨fun _ => true, fun _ => true⟩ sampleRoutes sampleRequest)).1,
      ∃ passed header, event.arg.headers = passed ++ [header] ∧
        ∀ h ∈ passed, forwardsRequestHeader (lowercase h.1) [] = true := by
  obtain ⟨-, h⟩ := controlled_iff_withheld sampleConfig samplePolicy
  have hsel : selectRoute sampleRoutes (headerPairs sampleRequest.headers) =
      .ok (sampleRoutes.get ⟨0, Nat.one_pos⟩) := rfl
  have hne : (exec (fun _ _ => .ok ()) 0
      (forward ⟨fun _ => true, fun _ => true⟩ sampleRoutes sampleRequest)).1 ≠ [] := by
    simp only [forward, hsel]
    exact List.cons_ne_nil _ _
  obtain ⟨event, hevent⟩ := List.exists_mem_of_ne_nil _ hne
  obtain ⟨passed, header, hsplit, hpassed, -⟩ := h sampleKdl sampleText parse_sample
    (List.mem_singleton_self _) _ _ _ _ _ _ _ (runs_exec (fun _ _ => .ok ()) 0 _) event hevent
  exact ⟨event, hevent, passed, header, hsplit, hpassed⟩

/-- The sample's proxy-backed secret, but for the name its credential is injected under. -/
def teSecret : ProxySecretSpec where
  envName := "API_TOKEN".toList
  provider := "bws".toList
  secretName := "API".toList
  upstream := "https://api.example".toList
  baseUrlEnv := "API_URL".toList
  injectHeader := { name := "TE".toList, template := placeholder }

/-- Without the seven names the two would not agree: `TE` is withheld from a caller, and
accepted for a credential. -/
theorem controlled_te : teSecret.injectHeader.name.all isTokenChar = true ∧
    forwardsRequestHeader (lowercase teSecret.injectHeader.name) [] = false ∧
    validateProxySecret sampleConfig samplePolicy teSecret = .ok () ∧
    ¬(validateProxySecret sampleConfig samplePolicy teSecret =
        .error (controlled samplePolicy teSecret) ↔
      forwardsRequestHeader (lowercase teSecret.injectHeader.name) [] = false) := by
  have hok : validateProxySecret sampleConfig samplePolicy teSecret = .ok () := rfl
  have hno : forwardsRequestHeader (lowercase teSecret.injectHeader.name) [] = false := by decide
  refine ⟨by decide, hno, hok, fun h => ?_⟩
  rw [hok] at h
  exact absurd (h.mpr hno) (by simp)

end Iwaya
