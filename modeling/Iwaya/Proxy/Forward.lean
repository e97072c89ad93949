import Iwaya.Foundation.Prog
import Iwaya.Config.Validate
import Iwaya.Proxy.Select

/-!
# Forwarding one request

A request is refused, or one outbound request is sent to the upstream of the one
route it presents. Sending is the only call of `Iwaya.forward`, so the list of calls in a
run is the list of upstreams contacted; what the HTTP library does with a method and
with an assembled request is the parameter `http`.
-/

namespace Iwaya

open Text Effects

/-- A request as the proxy's server hands it over. -/
structure Request where
  target : Str
  method : Str
  headers : List (Str × Str)
  bodyLength : Option ℕ

/-- A request for an upstream. -/
structure Outbound where
  method : Str
  uri : Str
  headers : List (Str × Str)
  hasBody : Bool

/-- What the HTTP library accepts: as a method, and as a whole request. -/
structure Http where
  methodParses : Str → Bool
  builds : Outbound → Bool

/-- Origin-form only: `//host` and `/\host` both read as an authority somewhere. -/
def isOriginForm (target : Str) : Bool :=
  "/".toList.isPrefixOf target && !"//".toList.isPrefixOf target &&
    !"/\\".toList.isPrefixOf target

/-- The names of the headers that belong to one connection. -/
def isHopByHop (name : Str) : Bool :=
  ["connection".toList, "keep-alive".toList, "proxy-authenticate".toList,
    "proxy-authorization".toList, "te".toList, "trailer".toList, "transfer-encoding".toList,
    "upgrade".toList].contains name

/-- Whether a caller's header is passed through: a header the proxy owns, and a
header named like any route's credential, is not. -/
def forwardsRequestHeader (name : Str) (routes : List ProxyRoute) : Bool :=
  if isHopByHop name then false
  else if ["host".toList, "content-length".toList, "expect".toList].contains name then false
  else !routes.any fun route => eqIgnoreCase route.headerName name

/-- The headers with their names in lower case. -/
def headerPairs (headers : List (Str × Str)) : List (Str × Str) :=
  headers.map fun (name, value) => (lowercase name, value)

/-- The credential a route injects. -/
def injected (route : ProxyRoute) : Str × Str :=
  (route.headerName, replaceFirst placeholder route.rawValue route.template)

/-- A body exists when a positive length or a transfer encoding was given. -/
def hasBody (request : Request) : Bool :=
  match request.bodyLength with
  | some length => 0 < length
  | none => (headerPairs request.headers).any fun h => h.1 == "transfer-encoding".toList

/-- The request for the upstream of `route`. -/
def outbound (routes : List ProxyRoute) (route : ProxyRoute) (request : Request) : Outbound where
  method := request.method
  uri := route.upstream ++ request.target
  headers := (headerPairs request.headers).filter (fun h => forwardsRequestHeader h.1 routes) ++
    [injected route]
  hasBody := hasBody request

section Forward

variable {ρ : Type}

/-- One call per upstream contacted, answered by a response or a transport error. -/
abbrev Contacting (ρ : Type) : Type → Type :=
  Prog (fun _ : Unit => Outbound) (fun _ : Unit => Except Str ρ) Rejection

/-- **Forwarding.** -/
def forward (http : Http) (routes : List ProxyRoute) (request : Request) : Contacting ρ ρ := do
  -- the target is looked at before any header
  Prog.ofExcept (Checks.refuse (isOriginForm request.target = false)
    (.badRequest "the request target must be origin-form".toList))
  let route ← Prog.ofExcept (selectRoute routes (headerPairs request.headers))
  Prog.ofExcept (Checks.refuse (http.methodParses request.method = false)
    (.badRequest "the request method is not usable".toList))
  let out := outbound routes route request
  Prog.ofExcept (Checks.refuse (http.builds out = false)
    (.badRequest "the request could not be constructed".toList))
  let sent : Except Str ρ ← Prog.perform () out
  Prog.ofExcept (sent.mapError Rejection.upstream)

/-! ### The runs of a request -/

/-- **A run contacts at most one upstream**, and then the target is origin-form and
the upstream is the selected route's. -/
theorem contact_of_runs {http : Http} {routes : List ProxyRoute} {request : Request}
    {tr : List (Event (fun _ : Unit => Outbound) (fun _ : Unit => Except Str ρ))}
    {r : Except Rejection ρ} (h : Runs (forward http routes request) tr r) :
    (tr = [] ∧ ∃ e, r = .error e) ∨ ∃ route ans,
      isOriginForm request.target = true ∧
      selectRoute routes (headerPairs request.headers) = .ok route ∧
      tr = [⟨(), outbound routes route request, ans⟩] ∧ r = ans.mapError Rejection.upstream := by
  simp only [forward, Prog.bind_eq, runs_bind_iff, runs_ofExcept_iff] at h
  -- four gates, each of which refuses before anything is sent
  rcases h with ⟨e, rfl, rfl, -⟩ | ⟨u, t₁, t₂, rfl, ⟨rfl, ho⟩, h⟩
  · exact Or.inl ⟨rfl, e, rfl⟩
  rcases h with ⟨e, rfl, rfl, -⟩ | ⟨route, t₁, t₂, rfl, ⟨rfl, hs⟩, h⟩
  · exact Or.inl ⟨rfl, e, rfl⟩
  rcases h with ⟨e, rfl, rfl, -⟩ | ⟨u, t₁, t₂, rfl, ⟨rfl, -⟩, h⟩
  · exact Or.inl ⟨rfl, e, rfl⟩
  rcases h with ⟨e, rfl, rfl, -⟩ | ⟨u, t₁, t₂, rfl, ⟨rfl, -⟩, h⟩
  · exact Or.inl ⟨rfl, e, rfl⟩
  rcases h with ⟨e, -, hp⟩ | ⟨ans, t₁, t₂, rfl, hp, rfl, rfl⟩
  · obtain ⟨ans, -, he⟩ := runs_perform_iff.mp hp
    cases he
  · obtain ⟨ans', rfl, ha⟩ := runs_perform_iff.mp hp
    obtain rfl := Except.ok.inj ha
    exact Or.inr ⟨route, ans, by simpa using Checks.refuse_eq_ok.mp ho.symm, hs.symm, by simp, rfl⟩

/-- A target that is not origin-form is refused without a call. -/
theorem runs_forward_of_target {http : Http} {routes : List ProxyRoute} {request : Request}
    {tr : List (Event (fun _ : Unit => Outbound) (fun _ : Unit => Except Str ρ))}
    {r : Except Rejection ρ} (h : Runs (forward http routes request) tr r)
    (ho : isOriginForm request.target = false) :
    tr = [] ∧ r = .error (.badRequest "the request target must be origin-form".toList) := by
  have hf : (forward http routes request : Contacting ρ ρ) =
      .fail (.badRequest "the request target must be origin-form".toList) := by
    simp only [forward, ho, Checks.refuse]
    rfl
  rw [hf] at h
  exact runs_fail_iff.mp h

/-- A request that selects no route is refused without a call. -/
theorem runs_forward_of_select {http : Http} {routes : List ProxyRoute} {request : Request}
    {tr : List (Event (fun _ : Unit => Outbound) (fun _ : Unit => Except Str ρ))}
    {r : Except Rejection ρ} (h : Runs (forward http routes request) tr r)
    (ho : isOriginForm request.target = true) {e : Rejection}
    (hs : selectRoute routes (headerPairs request.headers) = .error e) :
    tr = [] ∧ r = .error e := by
  have hf : (forward http routes request : Contacting ρ ρ) = .fail e := by
    simp only [forward, ho, hs, Checks.refuse]
    rfl
  rw [hf] at h
  exact runs_fail_iff.mp h

end Forward

end Iwaya
