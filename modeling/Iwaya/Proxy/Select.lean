import Iwaya.Phantom

/-!
# Which route a request belongs to

The proxy recognises a request by the phantoms it presents. The source walks the
routes once, keeping those whose credential header carries their phantom and
leaving at once when it meets a credential header written twice; which of the two
happens first depends on the order of the routes.

The outcome does not. `Iwaya.verdict` says in one line each what the answer is, with no
walk in it, and `Iwaya.selectRoute_eq_verdict` identifies the two; invariance under
permutations of routes and of headers is then a fact about filters.
-/

namespace Iwaya

open Text

/-- One route the proxy serves. -/
structure ProxyRoute where
  headerName : Str
  template : Str
  upstream : Str
  phantom : Phantom
  rawValue : Str

/-- A request the proxy refuses. Bodies are fixed strings: a rejection never
echoes request data. -/
inductive Rejection where
  | badRequest (reason : Str)
  | noMatch
  | ambiguous
  | upstream (error : Str)

namespace Rejection

def status : Rejection → ℕ
  | badRequest _ | ambiguous => 400
  | noMatch => 401
  | upstream _ => 502

def body : Rejection → Str
  | badRequest reason => "iwaya-proxy: ".toList ++ reason
  | noMatch => "iwaya-proxy: no proxied credential matched".toList
  | ambiguous => "iwaya-proxy: the request matched more than one proxied credential".toList
  | upstream _ => "iwaya-proxy: the upstream request failed".toList

end Rejection

/-- The values a request carries under a header name, in any ASCII casing. -/
def valuesOf (headers : List (Str × Str)) (name : Str) : List Str :=
  (headers.filter fun h => eqIgnoreCase h.1 name).map Prod.snd

def repeatedCredential : Rejection :=
  .badRequest "a proxied credential header appears more than once".toList

/-- One step of the walk over the routes. -/
def matchRoute (headers : List (Str × Str)) (matched : List ProxyRoute) (route : ProxyRoute) :
    Except Rejection (List ProxyRoute) :=
  match valuesOf headers route.headerName with
  -- the comparison is made only when the header occurs once
  | [value] => .ok (if route.phantom.matchesPresented value then matched ++ [route] else matched)
  | [] => .ok matched
  | _ => .error repeatedCredential

/-- **Exactly one route must match.** -/
def selectRoute (routes : List ProxyRoute) (headers : List (Str × Str)) :
    Except Rejection ProxyRoute := do
  match ← routes.foldlM (matchRoute headers) [] with
  | [route] => .ok route
  | [] => .error .noMatch
  | _ => .error .ambiguous

/-! ### The verdict -/

/-- The request carries the credential header of a route more than once. -/
def Repeats (headers : List (Str × Str)) (route : ProxyRoute) : Prop :=
  2 ≤ (valuesOf headers route.headerName).length

instance (headers : List (Str × Str)) (route : ProxyRoute) : Decidable (Repeats headers route) :=
  inferInstanceAs (Decidable (_ ≤ _))

/-- **The request presents a route's phantom**: it carries the credential header of
that route exactly once, and the bytes of the value are those of the phantom. -/
def Presents (headers : List (Str × Str)) (route : ProxyRoute) : Prop :=
  (valuesOf headers route.headerName).map utf8 = [utf8 route.phantom.value]

instance (headers : List (Str × Str)) (route : ProxyRoute) : Decidable (Presents headers route) :=
  inferInstanceAs (Decidable (_ = _))

/-- The only element of a list, or how it fails to have one. -/
def only : List ProxyRoute → Except Rejection ProxyRoute
  | [route] => .ok route
  | [] => .error .noMatch
  | _ => .error .ambiguous

/-- **The answer**, without the walk. -/
def verdict (routes : List ProxyRoute) (headers : List (Str × Str)) : Except Rejection ProxyRoute :=
  if ∃ route ∈ routes, Repeats headers route then .error repeatedCredential
  else only (routes.filter fun route => Presents headers route)

theorem presents_iff {headers : List (Str × Str)} {route : ProxyRoute} :
    Presents headers route ↔ valuesOf headers route.headerName = [route.phantom.value] := by
  constructor
  · intro h
    obtain ⟨v, hv, he⟩ := List.map_eq_singleton_iff.mp h
    rw [hv, utf8_injective he]
  · intro h
    simp [Presents, h]

/-- One step either leaves with the one early rejection, or keeps the route if it is
presented. -/
theorem matchRoute_eq (headers : List (Str × Str)) (matched : List ProxyRoute)
    (route : ProxyRoute) :
    matchRoute headers matched route =
      if Repeats headers route then .error repeatedCredential
      else .ok (matched ++ [route].filter fun route => Presents headers route) := by
  unfold matchRoute
  rcases h : valuesOf headers route.headerName with _ | ⟨v, _ | ⟨w, vs⟩⟩
  · simp [Repeats, presents_iff, h]
  · by_cases hm : v = route.phantom.value
    · simp [Repeats, presents_iff, h, hm, Phantom.matchesPresented_iff]
    · simp [Repeats, presents_iff, h, hm, Phantom.matchesPresented_iff]
  · simp [Repeats, h]

/-- The whole walk. -/
theorem foldlM_matchRoute (headers : List (Str × Str)) (routes matched : List ProxyRoute) :
    routes.foldlM (matchRoute headers) matched =
      if ∃ route ∈ routes, Repeats headers route then .error repeatedCredential
      else .ok (matched ++ routes.filter fun route => Presents headers route) := by
  induction routes generalizing matched with
  | nil => simp [pure, Except.pure]
  | cons route routes ih =>
    rw [List.foldlM_cons, matchRoute_eq]
    -- a repeated header leaves the walk, whatever was matched before
    by_cases hr : Repeats headers route
    · simp [hr, bind, Except.bind]
    · simp only [hr, if_false, List.exists_mem_cons_iff, false_or]
      rw [show (.ok (matched ++ [route].filter fun route => Presents headers route) :
          Except Rejection _) >>= routes.foldlM (matchRoute headers) =
          routes.foldlM (matchRoute headers)
            (matched ++ [route].filter fun route => Presents headers route) from rfl, ih]
      by_cases hp : Presents headers route <;> simp [hp]

/-- **The walk computes the verdict.** -/
theorem selectRoute_eq_verdict (routes : List ProxyRoute) (headers : List (Str × Str)) :
    selectRoute routes headers = verdict routes headers := by
  rw [selectRoute, foldlM_matchRoute, verdict]
  split_ifs
  · rfl
  · rfl

/-! ### Reading the verdict -/

theorem selectRoute_eq_ok {routes : List ProxyRoute} {headers : List (Str × Str)}
    {route : ProxyRoute} :
    selectRoute routes headers = .ok route ↔ (∀ route ∈ routes, ¬Repeats headers route) ∧
      (routes.filter fun route => Presents headers route) = [route] := by
  rw [selectRoute_eq_verdict, verdict]
  by_cases h : ∃ route ∈ routes, Repeats headers route
  · have h' : ¬∀ route ∈ routes, ¬Repeats headers route := by simpa using h
    simp [h, h']
  · have h' : ∀ route ∈ routes, ¬Repeats headers route := by simpa using h
    simp only [h, if_false]
    rcases hf : routes.filter fun route => Presents headers route with _ | ⟨a, _ | ⟨b, l⟩⟩
    · simp [only]
    · simpa [only] using fun _ => h'
    · simp [only]

/-! ### Order does not matter -/

theorem valuesOf_perm {headers headers' : List (Str × Str)} (h : headers.Perm headers')
    (name : Str) : (valuesOf headers name).Perm (valuesOf headers' name) :=
  (h.filter _).map _

theorem repeats_perm {headers headers' : List (Str × Str)} (h : headers.Perm headers')
    (route : ProxyRoute) : Repeats headers route ↔ Repeats headers' route := by
  rw [Repeats, Repeats, (valuesOf_perm h _).length_eq]

theorem presents_perm {headers headers' : List (Str × Str)} (h : headers.Perm headers')
    (route : ProxyRoute) : Presents headers route ↔ Presents headers' route := by
  rw [presents_iff, presents_iff]
  constructor
  · intro hv
    exact List.perm_singleton.mp (hv ▸ (valuesOf_perm h _).symm)
  · intro hv
    exact List.perm_singleton.mp (hv ▸ valuesOf_perm h _)

theorem only_perm {l l' : List ProxyRoute} (h : l.Perm l') : only l = only l' := by
  rcases l with _ | ⟨a, _ | ⟨b, l⟩⟩
  · rw [List.nil_perm.mp h]
  · rw [List.singleton_perm.mp h]
  · have hlen := h.length_eq
    rcases l' with _ | ⟨a', _ | ⟨b', l'⟩⟩
    · simp at hlen
    · simp at hlen
    · rfl

/-- **The verdict depends on neither order.** -/
theorem selectRoute_perm {routes routes' : List ProxyRoute} {headers headers' : List (Str × Str)}
    (hr : routes.Perm routes') (hh : headers.Perm headers') :
    selectRoute routes headers = selectRoute routes' headers' := by
  have hrep : (∃ route ∈ routes, Repeats headers route) ↔
      ∃ route ∈ routes', Repeats headers' route := by
    constructor
    · rintro ⟨route, hm, h⟩
      exact ⟨route, hr.mem_iff.mp hm, (repeats_perm hh route).mp h⟩
    · rintro ⟨route, hm, h⟩
      exact ⟨route, hr.mem_iff.mpr hm, (repeats_perm hh route).mpr h⟩
  have hfil : (routes.filter fun route => Presents headers route).Perm
      (routes'.filter fun route => Presents headers' route) := by
    simp only [presents_perm hh]
    exact hr.filter _
  simp only [selectRoute_eq_verdict, verdict, hrep, only_perm hfil]

end Iwaya
