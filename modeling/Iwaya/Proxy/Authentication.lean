import Iwaya.Proxy.Forward

/-!
# Authentication of the proxy

A raw credential leaves the proxy only for a request that presents exactly one
phantom, toward the upstream of that phantom's route. The header names of a request
are compared in any casing, so what the proxy decides on is the request as it came:
lowering the names beforehand changes nothing (`Iwaya.valuesOf_headerPairs`).
-/

namespace Iwaya

open Text Effects

/-- Lowering the names of the headers does not change what is found under a name. -/
theorem valuesOf_headerPairs (headers : List (Str × Str)) (name : Str) :
    valuesOf (headerPairs headers) name = valuesOf headers name := by
  simp [valuesOf, headerPairs, List.filter_map, Function.comp_def]

theorem repeats_headerPairs {headers : List (Str × Str)} {route : ProxyRoute} :
    Repeats (headerPairs headers) route ↔ Repeats headers route := by
  rw [Repeats, Repeats, valuesOf_headerPairs]

theorem presents_headerPairs {headers : List (Str × Str)} {route : ProxyRoute} :
    Presents (headerPairs headers) route ↔ Presents headers route := by
  rw [Presents, Presents, valuesOf_headerPairs]

/-- The verdict on a request is the verdict on its headers as they came. -/
theorem selectRoute_headerPairs (routes : List ProxyRoute) (headers : List (Str × Str)) :
    selectRoute routes (headerPairs headers) = verdict routes headers := by
  simp only [selectRoute_eq_verdict, verdict, repeats_headerPairs, presents_headerPairs]

/-- Which of the answers an unrepeated request gets is the number of routes it
presents. -/
theorem verdict_of_countP {routes : List ProxyRoute} {headers : List (Str × Str)}
    (h : ∀ route ∈ routes, ¬Repeats headers route) :
    (routes.countP (fun route => Presents headers route) = 0 →
        verdict routes headers = .error .noMatch) ∧
      (2 ≤ routes.countP (fun route => Presents headers route) →
        verdict routes headers = .error .ambiguous) := by
  have hr : ¬∃ route ∈ routes, Repeats headers route := by simpa using h
  simp only [verdict, hr, if_false, List.countP_eq_length_filter]
  rcases routes.filter fun route => Presents headers route with _ | ⟨a, _ | ⟨b, l⟩⟩
  · simp [only]
  · simp
  · simp [only]

section

variable {ρ : Type} {http : Http} {routes : List ProxyRoute} {request : Request}
  {tr : List (Event (fun _ : Unit => Outbound) (fun _ : Unit => Except Str ρ))}
  {r : Except Rejection ρ}

/-- **Authentication.** In every run of forwarding a request: an upstream is
contacted only for an origin-form target, with no credential header repeated and
exactly one route presented, and then it is that route's upstream, with that route's
raw value injected and no other credential header passed on. Otherwise nothing is
contacted, and the refusal is a bad request, a missing match or an ambiguous one
according to which of the three failed. Neither the order of the routes nor that of
the headers has any part in it. -/
theorem forward_authenticated (h : Runs (forward http routes request) tr r) :
    (tr ≠ [] → isOriginForm request.target = true ∧
        (∀ route ∈ routes, ¬Repeats request.headers route) ∧
        ∃ route, (routes.filter fun route => Presents request.headers route) = [route] ∧
          ∃ out ans passed, tr = [⟨(), out, ans⟩] ∧ out.uri = route.upstream ++ request.target ∧
            out.headers = passed ++
              [(route.headerName, replaceFirst placeholder route.rawValue route.template)] ∧
            ∀ header ∈ passed, ∀ other ∈ routes, eqIgnoreCase other.headerName header.1 = false) ∧
      (isOriginForm request.target = false → tr = [] ∧ ∃ reason, r = .error (.badRequest reason)) ∧
      (isOriginForm request.target = true → (∃ route ∈ routes, Repeats request.headers route) →
        tr = [] ∧ ∃ reason, r = .error (.badRequest reason)) ∧
      (isOriginForm request.target = true → (∀ route ∈ routes, ¬Repeats request.headers route) →
        (routes.countP (fun route => Presents request.headers route) = 0 →
            tr = [] ∧ r = .error .noMatch) ∧
          (2 ≤ routes.countP (fun route => Presents request.headers route) →
            tr = [] ∧ r = .error .ambiguous)) ∧
      ∀ routes' headers', routes.Perm routes' → request.headers.Perm headers' →
        selectRoute routes' (headerPairs headers') =
          selectRoute routes (headerPairs request.headers) := by
  refine ⟨fun hne => ?_, fun ho => ?_, fun ho hrep => ?_,
    fun ho hrep => ⟨fun hc => ?_, fun hc => ?_⟩, fun routes' headers' hr hh => ?_⟩
  · -- a contact was made, so the request passed the gate
    rcases contact_of_runs h with ⟨rfl, -⟩ | ⟨route, ans, ho, hs, rfl, -⟩
    · exact absurd rfl hne
    · obtain ⟨hrep, hfil⟩ := selectRoute_eq_ok.mp hs
      simp only [repeats_headerPairs, presents_headerPairs] at hrep hfil
      refine ⟨ho, hrep, route, hfil, _, ans, _, rfl, rfl, rfl, fun header hm other hother => ?_⟩
      have hf := (List.mem_filter.mp hm).2
      simp only [forwardsRequestHeader, Bool.if_false_left, Bool.and_eq_true, Bool.not_eq_true',
        List.any_eq_false] at hf
      simpa using hf.2.2 other hother
  · obtain ⟨rfl, rfl⟩ := runs_forward_of_target h ho
    exact ⟨rfl, _, rfl⟩
  · have hs : selectRoute routes (headerPairs request.headers) = .error repeatedCredential := by
      rw [selectRoute_headerPairs, verdict, if_pos hrep]
    obtain ⟨rfl, rfl⟩ := runs_forward_of_select h ho hs
    exact ⟨rfl, _, rfl⟩
  · refine runs_forward_of_select h ho ?_
    rw [selectRoute_headerPairs]
    exact (verdict_of_countP hrep).1 hc
  · refine runs_forward_of_select h ho ?_
    rw [selectRoute_headerPairs]
    exact (verdict_of_countP hrep).2 hc
  · exact (selectRoute_perm hr (hh.map _)).symm

end

/-- Two routes sharing a header, and a request that presents the second. -/
def sharedHeaderRoutes : List ProxyRoute :=
  [{ headerName := "X-Key".toList, template := placeholder, upstream := "https://a".toList,
     phantom := ⟨"p1".toList⟩, rawValue := "raw1".toList },
    { headerName := "x-key".toList, template := placeholder, upstream := "https://b".toList,
      phantom := ⟨"p2".toList⟩, rawValue := "raw2".toList }]

def sharedHeaderRequest : Request where
  target := "/v1".toList
  method := "GET".toList
  headers := [("X-KEY".toList, "p2".toList)]
  bodyLength := none

theorem forward_authenticated_shared :
    ∃ route ∈ sharedHeaderRoutes, ∃ out ans,
      (exec (fun _ _ => .ok ()) 0
        (forward ⟨fun _ => true, fun _ => true⟩ sharedHeaderRoutes sharedHeaderRequest)).1 =
          [⟨(), out, ans⟩] ∧
      out.uri = route.upstream ++ "/v1".toList := by
  obtain ⟨h, -⟩ := forward_authenticated (runs_exec (fun _ _ => .ok ()) 0
    (forward ⟨fun _ => true, fun _ => true⟩ sharedHeaderRoutes sharedHeaderRequest))
  obtain ⟨-, -, route, hf, out, ans, passed, htr, huri, -⟩ := h (by decide)
  exact ⟨route, List.mem_of_mem_filter (hf ▸ List.mem_singleton.mpr rfl), out, ans, htr, huri⟩

end Iwaya
