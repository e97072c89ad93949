import Mathlib.Data.List.FinRange
import Iwaya.Foundation.Environment
import Iwaya.Config.Validate
import Iwaya.Proxy.Framing

/-!
# Supervisor, target and proxy agree

A phantom stands for one secret along a chain of five functions in two processes:
provisioning, the transfer line, the plans, the target's environment, and the
proxy's selection. The chain is followed here from a validated policy to a request:
the target that presents what its environment holds under the `i`-th credential name
is recognised as the `i`-th secret, also when several secrets share a header name or
an upstream.
-/

namespace Iwaya

open Text Environment

section Provisioned

variable (policy : CommandPolicy) (raw : Fin policy.proxySecrets.length → Str)
  (draw : Fin policy.proxySecrets.length → Vector UInt8 entropyBytes)

/-- The proxy-backed secrets of a policy, each with its resolved value and its draw. -/
def provisionAll : List ProvisionedProxySecret :=
  List.ofFn fun i => .provision (policy.proxySecrets.get i) (raw i) (draw i)

theorem mem_provisionAll {secret : ProvisionedProxySecret} :
    secret ∈ provisionAll policy raw draw ↔
      ∃ i, secret = .provision (policy.proxySecrets.get i) (raw i) (draw i) := by
  simp [provisionAll, List.mem_ofFn, eq_comm]

/-- The variables of the plans are those the policy declares. -/
theorem provisionAll_names :
    (provisionAll policy raw draw).flatMap (fun secret => [secret.envName, secret.baseUrlEnv]) =
      policy.proxySecrets.flatMap fun spec => [spec.envName, spec.baseUrlEnv] := by
  have h : ∀ g : ProxySecretSpec → List EnvName,
      (List.ofFn fun i => g (policy.proxySecrets.get i)) = policy.proxySecrets.map g := by
    intro g
    conv_rhs => rw [← List.ofFn_get policy.proxySecrets, List.map_ofFn]
    rfl
  rw [List.flatMap_def, List.flatMap_def, provisionAll, List.map_ofFn, ← h]
  rfl

/-- The names of the target's environment, likewise. -/
theorem targetEnvironment_provisionAll_names (serde : SerdeJson) (port : UInt16) :
    (targetEnvironment (intoTransfer serde (provisionAll policy raw draw)).2 port).map Prod.fst =
      policy.proxySecrets.flatMap fun spec => [spec.envName, spec.baseUrlEnv] := by
  rw [targetEnvironment_names, ← provisionAll_names policy raw draw]
  simp [intoTransfer, ProvisionedProxySecret.plan, List.flatMap_map]

/-- What the target's environment holds for the `i`-th secret. -/
theorem mem_targetEnvironment_provisionAll (serde : SerdeJson) (port : UInt16)
    (i : Fin policy.proxySecrets.length) :
    ((policy.proxySecrets.get i).envName, (Phantom.generate (draw i)).value) ∈
        targetEnvironment (intoTransfer serde (provisionAll policy raw draw)).2 port ∧
      ((policy.proxySecrets.get i).baseUrlEnv, loopbackUrl port) ∈
        targetEnvironment (intoTransfer serde (provisionAll policy raw draw)).2 port := by
  have hp := (mem_provisionAll policy raw draw).mpr ⟨i, rfl⟩
  constructor <;> refine List.mem_flatMap.mpr ⟨_, List.mem_map_of_mem hp, ?_⟩ <;>
    simp [ProvisionedProxySecret.plan, ProvisionedProxySecret.provision]

end Provisioned

/-- **The transfer of a valid policy is parsed.** -/
theorem parseTransfer_provisionAll {serde : SerdeJson} (hserde : serde.Conforms) {config : Config}
    {policy : CommandPolicy} (hpolicy : policy.Valid config) (hne : policy.proxySecrets ≠ [])
    (raw : Fin policy.proxySecrets.length → Str)
    (draw : Fin policy.proxySecrets.length → Vector UInt8 entropyBytes) :
    parseTransfer serde (intoTransfer serde (provisionAll policy raw draw)).1 =
      .ok ((provisionAll policy raw draw).map ProvisionedProxySecret.proxyRoute) := by
  have hpne : provisionAll policy raw draw ≠ [] := by
    rw [provisionAll, ne_eq, List.ofFn_eq_nil_iff]
    simpa using hne
  have hup : ∀ secret ∈ provisionAll policy raw draw, isHttpOrigin secret.upstream = true := by
    intro secret hs
    obtain ⟨i, rfl⟩ := (mem_provisionAll policy raw draw).mp hs
    exact (hpolicy.proxySecret _ (List.get_mem _ i)).upstream
  have hparse := parseTransfer_line hserde hpne hup (w := []) (by simp [Json.IsWs])
  rwa [List.append_nil] at hparse

/-- A filter that keeps one index of a list of indices keeps one element. -/
theorem filter_ofFn {α : Type} {n : ℕ} (f : Fin n → α) (p : α → Bool) (i : Fin n)
    (h : ∀ j, p (f j) = true ↔ j = i) : (List.ofFn f).filter p = [f i] := by
  have hp : (p ∘ f) = fun j => decide (j = i) := by
    funext j
    rw [Function.comp_apply, Bool.eq_iff_iff, h, decide_eq_true_iff]
  rw [List.ofFn_eq_map, List.filter_map, hp, List.filter_eq,
    List.count_eq_one_of_mem (List.nodup_finRange n) (List.mem_finRange i)]
  rfl

/-- A filter that keeps one element of such a list keeps one index. -/
theorem index_of_filter_ofFn {α : Type} {n : ℕ} {f : Fin n → α} {p : α → Bool} {x : α}
    (h : (List.ofFn f).filter p = [x]) : ∃ i, f i = x ∧ ∀ j, p (f j) = true ↔ j = i := by
  rw [List.ofFn_eq_map, List.filter_map] at h
  obtain ⟨i, hi, hx⟩ := List.map_eq_singleton_iff.mp h
  refine ⟨i, hx, fun j => ?_⟩
  have hmem : j = i ↔ j ∈ (List.finRange n).filter (p ∘ f) := by rw [hi, List.mem_singleton]
  rw [hmem, List.mem_filter]
  exact ⟨fun hp => ⟨List.mem_finRange j, hp⟩, And.right⟩

/-- Header names that differ in case only have the same values. -/
theorem valuesOf_congr {headers : List (Str × Str)} {a b : Str} (h : eqIgnoreCase a b = true) :
    valuesOf headers a = valuesOf headers b := by
  rw [valuesOf, valuesOf]
  simp only [eqIgnoreCase, eqIgnoreCase_iff.mp h]

/-- **The own phantom selects.** A request with the `i`-th header once, holding the
`i`-th phantom, is selected as the `i`-th secret: the secrets of the same header name
have another phantom, and those of another name are ruled out by `hother`. -/
theorem selectRoute_provisionAll (policy : CommandPolicy)
    (raw : Fin policy.proxySecrets.length → Str)
    (draw : Fin policy.proxySecrets.length → Vector UInt8 entropyBytes)
    (hdraw : Function.Injective draw) {headers : List (Str × Str)}
    {i : Fin policy.proxySecrets.length}
    (hv : valuesOf headers (policy.proxySecrets.get i).injectHeader.name =
      [(Phantom.generate (draw i)).value])
    (hother : ∀ j, eqIgnoreCase (policy.proxySecrets.get j).injectHeader.name
        (policy.proxySecrets.get i).injectHeader.name = false →
      (valuesOf headers (policy.proxySecrets.get j).injectHeader.name).length ≤ 1 ∧
        (Phantom.generate (draw j)).value ∉
          valuesOf headers (policy.proxySecrets.get j).injectHeader.name) :
    selectRoute ((provisionAll policy raw draw).map ProvisionedProxySecret.proxyRoute) headers =
      .ok (ProvisionedProxySecret.proxyRoute
        (.provision (policy.proxySecrets.get i) (raw i) (draw i))) := by
  have hshared : ∀ j, eqIgnoreCase (policy.proxySecrets.get j).injectHeader.name
      (policy.proxySecrets.get i).injectHeader.name = true →
      valuesOf headers (policy.proxySecrets.get j).injectHeader.name =
        [(Phantom.generate (draw i)).value] := by
    intro j hj
    rw [← hv]
    exact valuesOf_congr hj
  refine selectRoute_eq_ok.mpr ⟨fun route hr hrep => ?_, ?_⟩
  · -- no credential header is repeated
    obtain ⟨secret, hs, rfl⟩ := List.mem_map.mp hr
    obtain ⟨j, rfl⟩ := (mem_provisionAll policy raw draw).mp hs
    have hlen : 2 ≤ (valuesOf headers (policy.proxySecrets.get j).injectHeader.name).length := hrep
    by_cases hj : eqIgnoreCase (policy.proxySecrets.get j).injectHeader.name
        (policy.proxySecrets.get i).injectHeader.name = true
    · rw [hshared j hj] at hlen
      exact absurd hlen (by simp)
    · have := (hother j (by simpa using hj)).1
      omega
  · -- and only the `i`-th phantom is presented
    rw [provisionAll, List.map_ofFn]
    refine filter_ofFn _ _ i fun j => ?_
    rw [decide_eq_true_iff, presents_iff]
    change valuesOf headers (policy.proxySecrets.get j).injectHeader.name =
      [(Phantom.generate (draw j)).value] ↔ j = i
    by_cases hj : eqIgnoreCase (policy.proxySecrets.get j).injectHeader.name
        (policy.proxySecrets.get i).injectHeader.name = true
    · rw [hshared j hj]
      constructor
      · intro he
        have hval : (Phantom.generate (draw i)).value = (Phantom.generate (draw j)).value := by
          simpa using he
        exact (hdraw (Phantom.generate_injective (congrArg Phantom.mk hval))).symm
      · rintro rfl
        rfl
    · constructor
      · intro he
        exact absurd (by rw [he]; exact List.mem_singleton.mpr rfl) (hother j (by simpa using hj)).2
      · rintro rfl
        exact absurd (eqIgnoreCase_iff.mpr rfl) hj

/-- **Agreement.** For a validated policy with proxy-backed secrets, any resolved
values, any pairwise distinct draws and any port: the proxy parses the transfer, the
target's environment holds under each credential name its own phantom and under each
base-URL name the loopback address, whatever it inherited, with no name set twice;
and a request that carries the `i`-th header once, with the value the environment
holds for the `i`-th credential, is selected as the `i`-th secret as long as no
differently named credential header is repeated or holds its own phantom. -/
theorem credentials_agree {serde : SerdeJson} (hserde : serde.Conforms) {config : Config}
    (hvalid : config.Valid) {policy : CommandPolicy} (hpolicy : policy ∈ config.policies)
    (hne : policy.proxySecrets ≠ []) (raw : Fin policy.proxySecrets.length → Str)
    (draw : Fin policy.proxySecrets.length → Vector UInt8 entropyBytes)
    (hdraw : Function.Injective draw) (port : UInt16) (inherited : EnvName → Option Str) :
    ∃ routes, parseTransfer serde (intoTransfer serde (provisionAll policy raw draw)).1 =
        .ok routes ∧
      ((targetEnvironment (intoTransfer serde (provisionAll policy raw draw)).2 port).map
        Prod.fst).Nodup ∧
      ∀ i, assign (targetEnvironment (intoTransfer serde (provisionAll policy raw draw)).2 port)
            inherited (policy.proxySecrets.get i).envName =
          some (Phantom.generate (draw i)).value ∧
        assign (targetEnvironment (intoTransfer serde (provisionAll policy raw draw)).2 port)
            inherited (policy.proxySecrets.get i).baseUrlEnv = some (loopbackUrl port) ∧
        ∀ headers value,
          valuesOf headers (policy.proxySecrets.get i).injectHeader.name = [value] →
          assign (targetEnvironment (intoTransfer serde (provisionAll policy raw draw)).2 port)
            inherited (policy.proxySecrets.get i).envName = some value →
          (∀ j, eqIgnoreCase (policy.proxySecrets.get j).injectHeader.name
              (policy.proxySecrets.get i).injectHeader.name = false →
            (valuesOf headers (policy.proxySecrets.get j).injectHeader.name).length ≤ 1 ∧
              (Phantom.generate (draw j)).value ∉
                valuesOf headers (policy.proxySecrets.get j).injectHeader.name) →
          ∃ route, selectRoute routes headers = .ok route ∧
            route.upstream = (policy.proxySecrets.get i).upstream ∧
            route.template = (policy.proxySecrets.get i).injectHeader.template ∧
            route.rawValue = raw i := by
  have hpv := hvalid.policy policy hpolicy
  have hparse := parseTransfer_provisionAll hserde hpv hne raw draw
  -- the variables are set once each
  have hnd : ((targetEnvironment (intoTransfer serde (provisionAll policy raw draw)).2 port).map
      Prod.fst).Nodup := by
    rw [targetEnvironment_provisionAll_names]
    exact (List.nodup_append.mp hpv.nodup).2.1
  refine ⟨_, hparse, hnd, fun i => ?_⟩
  obtain ⟨hcredential, hbase⟩ := mem_targetEnvironment_provisionAll policy raw draw serde port i
  have hphantom := assign_of_mem hnd hcredential inherited
  refine ⟨hphantom, assign_of_mem hnd hbase inherited, fun headers value hv hval hother => ?_⟩
  -- the value presented is the phantom of the `i`-th secret
  obtain rfl : (Phantom.generate (draw i)).value = value := by
    rw [hphantom] at hval
    exact Option.some.inj hval
  exact ⟨_, selectRoute_provisionAll policy raw draw hdraw hv hother, rfl, rfl, rfl⟩

/-- A policy whose two proxy-backed secrets share a header and an upstream. -/
def sharedPolicy : CommandPolicy where
  id := "claude".toList
  secrets := []
  proxySecrets :=
    [{ envName := "A".toList, provider := "p".toList, secretName := "a".toList,
       upstream := "https://api".toList, baseUrlEnv := "A_URL".toList,
       injectHeader := { name := "x-key".toList, template := placeholder } },
      { envName := "B".toList, provider := "p".toList, secretName := "b".toList,
        upstream := "https://api".toList, baseUrlEnv := "B_URL".toList,
        injectHeader := { name := "X-Key".toList, template := placeholder } }]

def sharedConfig : Config where
  providers :=
    [.bws { id := "p".toList, project := "q".toList,
            accessToken := { program := "pass".toList, args := [] } }]
  contexts := []
  policies := [sharedPolicy]

/-- Draws that differ in every byte. -/
def sharedDraw (i : Fin 2) : Vector UInt8 entropyBytes := Vector.replicate 32 (UInt8.ofNat i.val)

theorem credentials_agree_shared :
    ∃ routes route, selectRoute routes
        [("X-KEY".toList, (Phantom.generate (sharedDraw 1)).value)] = .ok route ∧
      route.rawValue = "raw1".toList := by
  have hvalid : sharedConfig.Valid := validate_eq_ok.mp (rfl : validate sharedConfig = .ok ())
  have hdraw : ∀ i j, sharedDraw i = sharedDraw j → i = j := by decide
  obtain ⟨routes, -, -, h⟩ := credentials_agree SerdeJson.reference_conforms hvalid
    (show sharedPolicy ∈ sharedConfig.policies from List.mem_singleton.mpr rfl)
    (List.cons_ne_nil _ _) (fun i => if i.val = 0 then "raw0".toList else "raw1".toList)
    sharedDraw (fun i j => hdraw i j) 8080 (fun _ => none)
  obtain ⟨hphantom, -, hselect⟩ := h ⟨1, by decide⟩
  obtain ⟨route, hs, -, -, hraw⟩ := hselect
    [("X-KEY".toList, (Phantom.generate (sharedDraw 1)).value)] _ (by decide) hphantom (by decide)
  exact ⟨routes, route, hs, hraw⟩

end Iwaya
