import Iwaya.Foundation.Json.Reader
import Iwaya.Config.Types
import Iwaya.Phantom

/-!
# The secret transfer

What the supervisor hands the proxy process on its standard input, and what it
keeps. Provisioning binds a resolved value to its declaration under a fresh
phantom; `Iwaya.intoTransfer` then splits each provisioned secret in two, a route
that travels with the raw value and a plan that stays without it.

The document is written and read by a JSON library. `Iwaya.SerdeJson` is that
library as the program uses it, and `Iwaya.SerdeJson.Conforms` the three things
its documentation promises: it writes the compact rendering of a document, it
reads back any text whose value is a document, and it reads nothing that is not
JSON.
-/

namespace Iwaya

open Text

/-! ### The documents -/

/-- One route of the transfer document. -/
structure RouteTransfer where
  headerName : Str
  template : Str
  upstream : Str
  phantom : Str
  secret : Str
  deriving DecidableEq

/-- The transfer document. -/
structure ProxyTransfer where
  routes : List RouteTransfer
  deriving DecidableEq

/-- The members of a route, in the order they are written. -/
def RouteTransfer.fieldNames : List Str :=
  ["header_name".toList, "template".toList, "upstream".toList, "phantom".toList, "secret".toList]

def RouteTransfer.toJson (r : RouteTransfer) : Json.Value :=
  .obj [("header_name".toList, .str r.headerName), ("template".toList, .str r.template),
    ("upstream".toList, .str r.upstream), ("phantom".toList, .str r.phantom),
    ("secret".toList, .str r.secret)]

def RouteTransfer.ofJson : Json.Value → Option RouteTransfer
  | .obj [(k₁, .str headerName), (k₂, .str template), (k₃, .str upstream), (k₄, .str phantom),
      (k₅, .str secret)] =>
    if [k₁, k₂, k₃, k₄, k₅] = fieldNames then
      some { headerName, template, upstream, phantom, secret }
    else none
  | _ => none

def ProxyTransfer.toJson (t : ProxyTransfer) : Json.Value :=
  .obj [("routes".toList, .arr (t.routes.map RouteTransfer.toJson))]

def ProxyTransfer.ofJson : Json.Value → Option ProxyTransfer
  | .obj [(k, .arr routes)] =>
    if k = "routes".toList then (routes.mapM RouteTransfer.ofJson).map ProxyTransfer.mk else none
  | _ => none

theorem RouteTransfer.ofJson_toJson (r : RouteTransfer) : ofJson r.toJson = some r := rfl

theorem ProxyTransfer.ofJson_toJson (t : ProxyTransfer) : ofJson t.toJson = some t := by
  have h : ∀ routes : List RouteTransfer,
      (routes.map RouteTransfer.toJson).mapM RouteTransfer.ofJson = some routes := by
    intro routes
    induction routes with
    | nil => rfl
    | cons r routes ih => simp [RouteTransfer.ofJson_toJson, ih]
  simp [toJson, ofJson, h]

/-- A transfer document has no numbers in it. -/
theorem ProxyTransfer.spelt (t : ProxyTransfer) : Json.Spelt t.toJson := by
  have h : ∀ routes : List RouteTransfer, Json.SpeltElements (routes.map RouteTransfer.toJson) := by
    intro routes
    induction routes with
    | nil => simp [Json.SpeltElements]
    | cons r routes ih =>
      simp only [List.map_cons, Json.SpeltElements, ih, and_true]
      simp [RouteTransfer.toJson, Json.Spelt, Json.SpeltMembers]
  simp [toJson, Json.Spelt, Json.SpeltMembers, h]

/-! ### The JSON library -/

/-- The JSON library on transfer documents; a text it does not read has a line
and a column at which it gave up. -/
structure SerdeJson where
  toString : ProxyTransfer → Str
  fromStr : Str → Except (ℕ × ℕ) ProxyTransfer

/-- **What the library is documented to do.** -/
structure SerdeJson.Conforms (serde : SerdeJson) : Prop where
  writes : ∀ t, serde.toString t = Json.render t.toJson
  reads : ∀ s v t, Json.parse s = some v → ProxyTransfer.ofJson v = some t →
    serde.fromStr s = .ok t
  rejects : ∀ s t, serde.fromStr s = .ok t → Json.IsText s

/-- A library that conforms: the compact writer and the reader of RFC 8259. -/
def SerdeJson.reference : SerdeJson where
  toString t := Json.render t.toJson
  fromStr s :=
    match (Json.parse s).bind ProxyTransfer.ofJson with
    | some t => .ok t
    | none => .error (1, s.length)

theorem SerdeJson.reference_conforms : SerdeJson.reference.Conforms where
  writes _ := rfl
  reads s v t hv ht := by simp [reference, hv, ht]
  rejects s t h := by
    rcases hp : Json.parse s with _ | v
    · simp [reference, hp] at h
    · exact Json.isText_of_parse hp

/-! ### Provisioning -/

/-- One proxy-backed secret of the invocation, resolved and bound to the phantom
its target will present. -/
structure ProvisionedProxySecret where
  envName : EnvName
  baseUrlEnv : EnvName
  headerName : Str
  template : Str
  upstream : Str
  phantom : Phantom
  rawValue : Str

/-- A resolved value bound to its declaration, under the phantom minted from
`entropy`. -/
def ProvisionedProxySecret.provision (spec : ProxySecretSpec) (rawValue : Str)
    (entropy : Vector UInt8 entropyBytes) : ProvisionedProxySecret where
  envName := spec.envName
  baseUrlEnv := spec.baseUrlEnv
  headerName := spec.injectHeader.name
  template := spec.injectHeader.template
  upstream := spec.upstream
  phantom := .generate entropy
  rawValue := rawValue

/-- What remains of a proxy-backed secret once its raw value has left. -/
structure ProxySecretPlan where
  envName : EnvName
  baseUrlEnv : EnvName
  phantom : Phantom

def ProvisionedProxySecret.route (secret : ProvisionedProxySecret) : RouteTransfer where
  headerName := secret.headerName
  template := secret.template
  upstream := secret.upstream
  phantom := secret.phantom.value
  secret := secret.rawValue

def ProvisionedProxySecret.plan (secret : ProvisionedProxySecret) : ProxySecretPlan where
  envName := secret.envName
  baseUrlEnv := secret.baseUrlEnv
  phantom := secret.phantom

/-- **The transfer line, and the plans that stay.** -/
def intoTransfer (serde : SerdeJson) (provisioned : List ProvisionedProxySecret) :
    Str × List ProxySecretPlan :=
  (serde.toString ⟨provisioned.map ProvisionedProxySecret.route⟩,
    provisioned.map ProvisionedProxySecret.plan)

/-- The address the target reaches the proxy at. -/
def loopbackUrl (port : UInt16) : Str := "http://127.0.0.1:".toList ++ decimal port.toNat

/-- The environment the target receives for its proxy-backed secrets. -/
def targetEnvironment (plans : List ProxySecretPlan) (port : UInt16) : List (EnvName × Str) :=
  plans.flatMap fun plan =>
    [(plan.envName, plan.phantom.value), (plan.baseUrlEnv, loopbackUrl port)]

/-- The plans list the variables in the order of the policy. -/
theorem targetEnvironment_names (plans : List ProxySecretPlan) (port : UInt16) :
    (targetEnvironment plans port).map Prod.fst =
      plans.flatMap fun plan => [plan.envName, plan.baseUrlEnv] := by
  induction plans with
  | nil => rfl
  | cons plan plans ih => simpa [targetEnvironment] using ih

/-! ### The line -/

section Line

variable {serde : SerdeJson} (hserde : serde.Conforms) (provisioned : List ProvisionedProxySecret)

include hserde

/-- **The transfer is one line**, whatever its fields contain. -/
theorem newline_notMem_intoTransfer : '\n' ∉ (intoTransfer serde provisioned).1 := by
  rw [intoTransfer, hserde.writes]
  exact Json.newline_notMem_render _ (ProxyTransfer.spelt _)

/-- The library reads the line back, with or without white space after it. -/
theorem fromStr_intoTransfer {w : Str} (hw : Json.IsWs w) :
    serde.fromStr ((intoTransfer serde provisioned).1 ++ w) =
      .ok ⟨provisioned.map ProvisionedProxySecret.route⟩ := by
  rw [intoTransfer, hserde.writes]
  exact hserde.reads _ _ _ (Json.parse_render_append (ProxyTransfer.spelt _) hw)
    (ProxyTransfer.ofJson_toJson _)

/-- **A line cut short is not read.** -/
theorem fromStr_prefix_intoTransfer {p : Str} (hp : p <+: (intoTransfer serde provisioned).1)
    (hne : p ≠ (intoTransfer serde provisioned).1) (t : ProxyTransfer) :
    serde.fromStr p ≠ .ok t := by
  intro h
  rw [intoTransfer, hserde.writes] at hp hne
  exact Json.not_isText_of_prefix_obj (ProxyTransfer.spelt _) hp hne (hserde.rejects p t h)

end Line

end Iwaya
