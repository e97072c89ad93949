import Iwaya.Proxy.Authentication

/-!
# The headers of the outbound request

The filter of the source meets a header's name after it was put in lower case, and
compares it exactly against two lists and in any casing against the routes.
`Iwaya.Withheld` is the rule with the casing taken out: a name is withheld when it is, in
some casing, one of eleven or a route's. What a request sends is then its own headers
that are not withheld, in their order, and the credential of the route it presents.

So the casing of a request's names plays no part, and nor do the raw values, the
templates and the upstreams of the routes it does not present: with those changed,
`Iwaya.forward` is the same program.
-/

namespace Iwaya

open Text Effects

/-- The names that belong to the connection, or that the proxy derives itself. -/
def ownedNames : List Str :=
  ["Connection".toList, "Keep-Alive".toList, "Proxy-Authenticate".toList,
    "Proxy-Authorization".toList, "TE".toList, "Trailer".toList, "Transfer-Encoding".toList,
    "Upgrade".toList, "Host".toList, "Content-Length".toList, "Expect".toList]

/-- **A name that is not passed on**, in whatever casing it comes. -/
def Withheld (routes : List ProxyRoute) (name : Str) : Prop :=
  (∃ own ∈ ownedNames, eqIgnoreCase own name) ∨ ∃ route ∈ routes, eqIgnoreCase route.headerName name

instance (routes : List ProxyRoute) (name : Str) : Decidable (Withheld routes name) :=
  inferInstanceAs (Decidable (_ ∨ _))

/-- The two lists of the source, as one. -/
theorem isHopByHop_or_owned {name : Str} :
    (isHopByHop name = true ∨
        ["host".toList, "content-length".toList, "expect".toList].contains name = true) ↔
      ∃ own ∈ ownedNames, lowercase own = name := by
  have hlower : ownedNames.map lowercase =
      ["connection".toList, "keep-alive".toList, "proxy-authenticate".toList,
        "proxy-authorization".toList, "te".toList, "trailer".toList, "transfer-encoding".toList,
        "upgrade".toList] ++ ["host".toList, "content-length".toList, "expect".toList] := by
    decide
  rw [← List.mem_map, hlower, List.mem_append, isHopByHop, List.contains_iff_mem,
    List.contains_iff_mem]

/-- **The filter**: a header passes exactly when its name is not withheld. -/
theorem forwardsRequestHeader_lowercase {routes : List ProxyRoute} {name : Str} :
    forwardsRequestHeader (lowercase name) routes = true ↔ ¬Withheld routes name := by
  have hroute : (!routes.any fun route => eqIgnoreCase route.headerName (lowercase name)) = true ↔
      ¬∃ route ∈ routes, eqIgnoreCase route.headerName name := by
    simp [eqIgnoreCase]
  have hown : (∃ own ∈ ownedNames, eqIgnoreCase own name) ↔
      ∃ own ∈ ownedNames, lowercase own = lowercase name := by
    simp only [eqIgnoreCase_iff]
  rw [Withheld, not_or, hown, ← isHopByHop_or_owned, forwardsRequestHeader]
  split_ifs with h1 h2
  · simp only [h1, true_or, not_true_eq_false, false_and]
  · simp only [Bool.false_eq_true, h1, h2, or_true, not_true_eq_false, false_and]
  · simp only [hroute, h1, h2, Bool.false_eq_true, or_self, not_false_eq_true, true_and]

/-- What is passed on of a list of headers. -/
theorem filter_headerPairs (routes : List ProxyRoute) (headers : List (Str × Str)) :
    ((headerPairs headers).filter fun h => forwardsRequestHeader h.1 routes) =
      headerPairs (headers.filter fun h => ¬Withheld routes h.1) := by
  have hf : (fun h : Str × Str => forwardsRequestHeader (lowercase h.1) routes) =
      fun h => decide (¬Withheld routes h.1) := by
    funext h
    rw [Bool.eq_iff_iff, decide_eq_true_iff]
    exact forwardsRequestHeader_lowercase
  rw [headerPairs, List.filter_map]
  exact congrArg headerPairs (congrArg (fun f => headers.filter f) hf)

/-- **The headers of the outbound request.** -/
theorem outbound_headers (routes : List ProxyRoute) (route : ProxyRoute) (request : Request) :
    (outbound routes route request).headers =
      headerPairs (request.headers.filter fun h => ¬Withheld routes h.1) ++ [injected route] := by
  rw [outbound, filter_headerPairs]

/-- Nothing that is passed on stands under a credential's name. -/
theorem valuesOf_passed {routes : List ProxyRoute} {other : ProxyRoute} (ho : other ∈ routes)
    (headers : List (Str × Str)) :
    valuesOf (headerPairs (headers.filter fun h => ¬Withheld routes h.1)) other.headerName =
      [] := by
  rw [valuesOf_headerPairs, valuesOf, List.map_eq_nil_iff, List.filter_eq_nil_iff]
  intro h hm he
  have hpass : ¬Withheld routes h.1 := by simpa using (List.mem_filter.mp hm).2
  refine hpass (Or.inr ⟨other, ho, ?_⟩)
  rw [eqIgnoreCase_iff] at he ⊢
  exact he.symm

/-! ### What plays no part -/

/-- The same request but for the casing of the names of its headers. -/
structure Request.Recased (request request' : Request) : Prop where
  target : request'.target = request.target
  method : request'.method = request.method
  headers : request.headers.Forall₂ (fun h h' => eqIgnoreCase h.1 h'.1 = true ∧ h.2 = h'.2)
    request'.headers
  bodyLength : request'.bodyLength = request.bodyLength

/-- Two routes recognised by the same header and phantom. -/
structure ProxyRoute.Alike (route route' : ProxyRoute) : Prop where
  headerName : route'.headerName = route.headerName
  phantom : route'.phantom = route.phantom

theorem Request.Recased.headerPairs_eq {request request' : Request} (h : request.Recased request') :
    headerPairs request'.headers = headerPairs request.headers := by
  have hall := h.headers
  generalize request.headers = hs at hall
  generalize request'.headers = hs' at hall
  induction hall with
  | nil => rfl
  | @cons a b as bs hab hrest ih =>
    have hname : lowercase b.1 = lowercase a.1 := (eqIgnoreCase_iff.mp hab.1).symm
    have hpair : (lowercase b.1, b.2) = (lowercase a.1, a.2) := by rw [hname, hab.2]
    exact congrArg₂ List.cons hpair ih

variable {ρ : Type} {http : Http} {request : Request}

/-- **Casing plays no part.** -/
theorem Request.Recased.forward_eq {request' : Request} (h : request.Recased request')
    (routes : List ProxyRoute) :
    (forward http routes request' : Contacting ρ ρ) = forward http routes request := by
  have hout : ∀ route, outbound routes route request' = outbound routes route request := by
    intro route
    simp only [outbound, hasBody, h.headerPairs_eq, h.target, h.method, h.bodyLength]
  simp only [forward, hout, h.headerPairs_eq, h.target, h.method]

theorem map_headerName_of_alike {routes routes' : List ProxyRoute}
    (h : routes.Forall₂ ProxyRoute.Alike routes') :
    routes'.map ProxyRoute.headerName = routes.map ProxyRoute.headerName := by
  induction h with
  | nil => rfl
  | cons hab _ ih => exact congrArg₂ List.cons hab.headerName ih

theorem filter_presents_of_alike (headers : List (Str × Str)) {routes routes' : List ProxyRoute}
    (h : routes.Forall₂ ProxyRoute.Alike routes')
    (hnone : (routes.filter fun route => Presents headers route) = []) :
    (routes'.filter fun route => Presents headers route) = [] := by
  induction h with
  | nil => rfl
  | @cons a b as bs hab _ ih =>
    simp only [List.filter_eq_nil_iff, decide_eq_true_iff] at hnone ih ⊢
    obtain ⟨ha, has⟩ := List.forall_mem_cons.mp hnone
    refine List.forall_mem_cons.mpr ⟨?_, ih has⟩
    rw [Presents, hab.headerName, hab.phantom]
    exact ha

theorem repeats_of_alike {routes routes' : List ProxyRoute} {headers : List (Str × Str)}
    (h : routes.Forall₂ ProxyRoute.Alike routes') (hno : ∀ route ∈ routes, ¬Repeats headers route) :
    ∀ route ∈ routes', ¬Repeats headers route := by
  induction h with
  | nil => exact hno
  | @cons a b as bs hab _ ih =>
    obtain ⟨ha, has⟩ := List.forall_mem_cons.mp hno
    refine List.forall_mem_cons.mpr ⟨?_, ih has⟩
    rw [Repeats, hab.headerName]
    exact ha

/-- Which route a request presents is unmoved when the others change out of sight. -/
theorem selectRoute_of_alike {pre pre' post post' : List ProxyRoute} {route : ProxyRoute}
    {headers : List (Str × Str)} (hs : selectRoute (pre ++ route :: post) headers = .ok route)
    (hpre : pre.Forall₂ ProxyRoute.Alike pre') (hpost : post.Forall₂ ProxyRoute.Alike post') :
    selectRoute (pre' ++ route :: post') headers = .ok route := by
  obtain ⟨hrep, hfil⟩ := selectRoute_eq_ok.mp hs
  have hp : Presents headers route := by
    have hmem : route ∈ (pre ++ route :: post).filter fun route => Presents headers route := by
      rw [hfil]
      exact List.mem_singleton_self route
    simpa using (List.mem_filter.mp hmem).2
  rw [List.filter_append, List.filter_cons_of_pos (by simpa using hp)] at hfil
  -- it is the only one, so none is presented on either side of it
  have hlen := congrArg List.length hfil
  simp only [List.length_append, List.length_cons, List.length_nil] at hlen
  have hnone := filter_presents_of_alike headers hpre
    (List.length_eq_zero_iff.mp (by omega))
  have hnone' := filter_presents_of_alike headers hpost
    (List.length_eq_zero_iff.mp (by omega))
  obtain ⟨hrpre, hrest⟩ := List.forall_mem_append.mp hrep
  obtain ⟨hrroute, hrpost⟩ := List.forall_mem_cons.mp hrest
  rw [selectRoute_eq_ok]
  refine ⟨List.forall_mem_append.mpr ⟨repeats_of_alike hpre hrpre,
    List.forall_mem_cons.mpr ⟨hrroute, repeats_of_alike hpost hrpost⟩⟩, ?_⟩
  rw [List.filter_append, List.filter_cons_of_pos (by simpa using hp), hnone, hnone']
  rfl

theorem forwardsRequestHeader_congr {routes routes' : List ProxyRoute}
    (h : routes'.map ProxyRoute.headerName = routes.map ProxyRoute.headerName) (name : Str) :
    forwardsRequestHeader name routes' = forwardsRequestHeader name routes := by
  have hany : ∀ l : List ProxyRoute, (l.any fun route => eqIgnoreCase route.headerName name) =
      (l.map ProxyRoute.headerName).any fun n => eqIgnoreCase n name := by
    intro l
    rw [List.any_map]
    rfl
  rw [forwardsRequestHeader, forwardsRequestHeader, hany, hany, h]

/-- **The secrets of the other routes play no part.** -/
theorem forward_of_alike {pre pre' post post' : List ProxyRoute} {route : ProxyRoute}
    (hs : selectRoute (pre ++ route :: post) (headerPairs request.headers) = .ok route)
    (hpre : pre.Forall₂ ProxyRoute.Alike pre') (hpost : post.Forall₂ ProxyRoute.Alike post') :
    (forward http (pre' ++ route :: post') request : Contacting ρ ρ) =
      forward http (pre ++ route :: post) request := by
  have hnames : (pre' ++ route :: post').map ProxyRoute.headerName =
      (pre ++ route :: post).map ProxyRoute.headerName := by
    rw [List.map_append, List.map_append, List.map_cons, List.map_cons,
      map_headerName_of_alike hpre, map_headerName_of_alike hpost]
  have hout : outbound (pre' ++ route :: post') route request =
      outbound (pre ++ route :: post) route request := by
    simp only [outbound, forwardsRequestHeader_congr hnames]
  simp only [forward, hs, selectRoute_of_alike hs hpre hpost, Prog.ofExcept, Prog.bind_eq,
    Prog.done_bind, hout]

/-! ### What is sent -/

/-- **The outbound headers are exactly rewritten.** In every run that sends a
request, it is sent once, through a route of the list, and it carries: the
client's headers that are not withheld, in their order and number, under their names in
lower case; then the route's credential, whose value is the template with the raw
value, as it is, in the place of the placeholder. No header of the client stands
under the name of any route's credential, and the one credential is the only header
under its own. The same program is run for a request with its names in any other
casing, and for routes that differ, away from the one selected, in what they send. -/
theorem forward_headers {routes : List ProxyRoute}
    {tr : List (Event (fun _ : Unit => Outbound) (fun _ : Unit => Except Str ρ))}
    {r : Except Rejection ρ} (hone : ∀ route ∈ routes, matchCount placeholder route.template = 1)
    (h : Runs (forward http routes request) tr r) (hsent : tr ≠ []) :
    ∃ pre route post, routes = pre ++ route :: post ∧
      selectRoute routes (headerPairs request.headers) = .ok route ∧
      (∃ out ans passed, tr = [⟨(), out, ans⟩] ∧
        passed = headerPairs (request.headers.filter fun h => ¬Withheld routes h.1) ∧
        (∀ other ∈ routes, valuesOf passed other.headerName = []) ∧
        (∃ before after, route.template = before ++ placeholder ++ after) ∧
        ∀ before after, route.template = before ++ placeholder ++ after →
          out.headers = passed ++ [(route.headerName, before ++ route.rawValue ++ after)] ∧
          valuesOf out.headers route.headerName = [before ++ route.rawValue ++ after]) ∧
      (∀ request', request.Recased request' →
        (forward http routes request' : Contacting ρ ρ) = forward http routes request) ∧
      ∀ pre' post', pre.Forall₂ ProxyRoute.Alike pre' → post.Forall₂ ProxyRoute.Alike post' →
        (forward http (pre' ++ route :: post') request : Contacting ρ ρ) =
          forward http routes request := by
  rcases contact_of_runs h with ⟨rfl, -⟩ | ⟨route, ans, -, hs, rfl, -⟩
  · exact absurd rfl hsent
  have hmem : route ∈ routes := by
    have hfil := (selectRoute_eq_ok.mp hs).2
    exact List.mem_of_mem_filter (hfil ▸ List.mem_singleton_self route)
  obtain ⟨pre, post, hsplit⟩ := List.append_of_mem hmem
  refine ⟨pre, route, post, hsplit, hs, ⟨_, ans, _, rfl, rfl, ?_, ?_, ?_⟩, ?_, ?_⟩
  · intro other ho
    exact valuesOf_passed ho request.headers
  · exact exists_of_matchCount (by rw [hone route hmem]; exact Nat.one_ne_zero)
  · intro before after ht
    have hval : injected route = (route.headerName, before ++ route.rawValue ++ after) := by
      have h1 := hone route hmem
      rw [ht] at h1
      rw [injected, ht]
      exact congrArg (Prod.mk route.headerName) (replaceFirst_of_matchCount (by decide) h1 _)
    have hout := outbound_headers routes route request
    rw [hval] at hout
    refine ⟨hout, ?_⟩
    have hpassed := valuesOf_passed hmem request.headers
    rw [hout, valuesOf, List.filter_append, List.map_append]
    rw [valuesOf] at hpassed
    rw [hpassed]
    simp [eqIgnoreCase]
  · intro request' hr
    exact hr.forward_eq routes
  · intro pre' post' hpre hpost
    subst hsplit
    exact forward_of_alike hs hpre hpost

/-- Two routes, and a request that presents the second with its names in capitals and a
header of the first besides; the second raw value holds a placeholder of its own. -/
def bearerRoutes : List ProxyRoute :=
  [{ headerName := "X-Key".toList, template := placeholder, upstream := "https://a".toList,
     phantom := ⟨"p1".toList⟩, rawValue := "raw1".toList },
    { headerName := "authorization".toList, template := "Bearer \x7b\x7d.".toList,
      upstream := "https://b".toList, phantom := ⟨"p2".toList⟩,
      rawValue := "r\x7b\x7d2".toList }]

def bearerRequest : Request where
  target := "/v1".toList
  method := "GET".toList
  headers :=
    [("TE".toList, "trailers".toList), ("Accept".toList, "a".toList), ("x-KEY".toList, "x".toList),
      ("AUTHORIZATION".toList, "p2".toList), ("ACCEPT".toList, "b".toList)]
  bodyLength := none

theorem forward_headers_bearer : ∃ out ans,
    (exec (fun _ _ => .ok ()) 0
      (forward ⟨fun _ => true, fun _ => true⟩ bearerRoutes bearerRequest)).1 = [⟨(), out, ans⟩] ∧
    out.headers = [("accept".toList, "a".toList), ("accept".toList, "b".toList),
      ("authorization".toList, "Bearer r\x7b\x7d2.".toList)] := by
  have hruns := runs_exec (fun _ _ => .ok ()) 0
    (forward ⟨fun _ => true, fun _ => true⟩ bearerRoutes bearerRequest)
  obtain ⟨-, route, -, -, hs, ⟨out, ans, passed, htr, rfl, -, -, hout⟩, -⟩ :=
    forward_headers (by decide) hruns (by decide)
  have hsel : selectRoute bearerRoutes (headerPairs bearerRequest.headers) =
      .ok bearerRoutes[1] := rfl
  obtain rfl : bearerRoutes[1] = route := Except.ok.inj (hsel.symm.trans hs)
  refine ⟨out, ans, htr, ?_⟩
  rw [(hout "Bearer ".toList ".".toList rfl).1]
  rfl

end Iwaya
