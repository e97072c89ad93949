import Iwaya.Proxy.Headers
import Iwaya.Proxy.Respond

/-!
# Headers of one connection

Which headers of a message belong to its connection depends on the message: besides a
few fixed names, every name that one of its `Connection` headers lists. The filters of
the source look at one name at a time, against a list that has all of the fixed names but
`Proxy-Connection`, so in either direction the headers that slip through are those named
so and those that are only listed – unless they are withheld on another ground. The
condition for none to slip through is exact, and is one on the message alone.
-/

namespace Iwaya

open Text Effects

/-! ### The rule -/

/-- The names that belong to a connection in every message. -/
def connectionNames : List Str :=
  ["Connection".toList, "Proxy-Connection".toList, "Keep-Alive".toList, "TE".toList,
    "Transfer-Encoding".toList, "Upgrade".toList]

/-- A text without the blanks and tabs around it. -/
def trimBlanks (s : Str) : Str :=
  let isBlank : Char → Bool := fun c => c == ' ' || c == '\t'
  ((s.dropWhile isBlank).reverse.dropWhile isBlank).reverse

/-- The options of a `Connection` header. -/
def connectionOptions (value : Str) : List Str := (value.splitOn ',').map trimBlanks

/-- Some `Connection` header of the message lists the name. -/
def Listed (message : List (Str × Str)) (name : Str) : Prop :=
  ∃ value ∈ valuesOf message "Connection".toList,
    ∃ option ∈ connectionOptions value, eqIgnoreCase option name = true

instance (message : List (Str × Str)) (name : Str) : Decidable (Listed message name) :=
  inferInstanceAs (Decidable (∃ value ∈ _, _))

/-- **A name that belongs to the connection of a message.** -/
def ConnectionSpecific (message : List (Str × Str)) (name : Str) : Prop :=
  (∃ own ∈ connectionNames, eqIgnoreCase own name = true) ∨ Listed message name

instance (message : List (Str × Str)) (name : Str) : Decidable (ConnectionSpecific message name) :=
  inferInstanceAs (Decidable (_ ∨ _))

/-- What the fixed list of the source does not see. -/
def Unseen (message : List (Str × Str)) (name : Str) : Prop :=
  eqIgnoreCase "Proxy-Connection".toList name = true ∨ Listed message name

theorem listed_lowercase {message : List (Str × Str)} {name : Str} :
    Listed message (lowercase name) ↔ Listed message name := by
  simp [Listed, eqIgnoreCase]

theorem connectionSpecific_lowercase {message : List (Str × Str)} {name : Str} :
    ConnectionSpecific message (lowercase name) ↔ ConnectionSpecific message name := by
  simp [ConnectionSpecific, listed_lowercase, eqIgnoreCase]

/-- The fixed list has every fixed name but one. -/
theorem isHopByHop_of_mem {name : Str} (h : ∃ own ∈ connectionNames, eqIgnoreCase own name = true) :
    eqIgnoreCase "Proxy-Connection".toList name = true ∨ isHopByHop (lowercase name) = true := by
  obtain ⟨own, hm, he⟩ := h
  have hall : ∀ own ∈ connectionNames,
      own = "Proxy-Connection".toList ∨ isHopByHop (lowercase own) = true := by decide
  rcases hall own hm with rfl | hh
  · exact Or.inl he
  · rw [eqIgnoreCase_iff.mp he] at hh
    exact Or.inr hh

/-- **What slips through**: of the headers of a connection, those that no fixed list
sees. -/
theorem connectionSpecific_iff {message : List (Str × Str)} {name : Str}
    (h : isHopByHop (lowercase name) = false) :
    ConnectionSpecific message name ↔ Unseen message name := by
  constructor
  · rintro (hown | hl)
    · exact Or.inl ((isHopByHop_of_mem hown).resolve_right (by simp [h]))
    · exact Or.inr hl
  · rintro (hp | hl)
    · exact Or.inl ⟨"Proxy-Connection".toList, by decide, hp⟩
    · exact Or.inr hl

theorem isHopByHop_of_not_withheld {routes : List ProxyRoute} {name : Str}
    (h : ¬Withheld routes name) : isHopByHop (lowercase name) = false := by
  have hf := forwardsRequestHeader_lowercase.mpr h
  by_contra hh
  rw [Bool.not_eq_false] at hh
  simp [forwardsRequestHeader, hh] at hf

/-! ### The two directions -/

/-- The headers passed on of a request. -/
theorem passed_iff {routes : List ProxyRoute} {headers : List (Str × Str)} :
    (∀ h ∈ headerPairs (headers.filter fun h => ¬Withheld routes h.1),
        ¬ConnectionSpecific headers h.1) ↔
      ∀ h ∈ headers, Unseen headers h.1 → Withheld routes h.1 := by
  constructor
  · intro hall h hm hu
    by_contra hw
    have hpass : (lowercase h.1, h.2) ∈
        headerPairs (headers.filter fun h => ¬Withheld routes h.1) :=
      List.mem_map.mpr ⟨h, List.mem_filter.mpr ⟨hm, decide_eq_true hw⟩, rfl⟩
    refine hall _ hpass (connectionSpecific_lowercase.mpr ?_)
    exact (connectionSpecific_iff (isHopByHop_of_not_withheld hw)).mpr hu
  · intro hall h hm hc
    obtain ⟨h', hm', rfl⟩ := List.mem_map.mp hm
    obtain ⟨hin, hw⟩ := List.mem_filter.mp hm'
    have hw' : ¬Withheld routes h'.1 := of_decide_eq_true hw
    have hc' := connectionSpecific_lowercase.mp hc
    exact hw' (hall h' hin ((connectionSpecific_iff (isHopByHop_of_not_withheld hw')).mp hc'))

/-- The headers of a response as text: a byte is the character of its number. -/
def responseMessage (upstream : UpstreamResponse) : List (Str × Str) :=
  upstream.headers.map fun h => (h.1, asciiText h.2)

/-- The headers passed back of a response. -/
theorem passedBack_iff {tiny : TinyHttp} (htiny : tiny.Conforms) {upstream : UpstreamResponse} :
    (∀ h ∈ (respondWithUpstream tiny upstream).headers,
        ¬ConnectionSpecific (responseMessage upstream) h.1) ↔
      ∀ h ∈ upstream.headers, Unseen (responseMessage upstream) h.1 → ¬PassedBack tiny h := by
  rw [respondWithUpstream_headers]
  constructor
  · intro hall h hm hu hp
    obtain ⟨made, hmade⟩ := Option.isSome_iff_exists.mp hp.2.2
    have hback : made ∈ upstream.headers.flatMap fun header =>
        if PassedBack tiny header then (tiny.fromBytes (utf8 header.1) header.2).toList
        else [] := by
      refine List.mem_flatMap.mpr ⟨h, hm, ?_⟩
      rw [if_pos hp, hmade]
      exact List.mem_singleton_self made
    refine hall made hback ?_
    rw [htiny.name_eq hmade]
    exact (connectionSpecific_iff hp.2.1).mpr hu
  · intro hall made hm hc
    obtain ⟨h, hin, hback⟩ := List.mem_flatMap.mp hm
    by_cases hp : PassedBack tiny h
    · rw [if_pos hp, Option.mem_toList] at hback
      rw [htiny.name_eq hback] at hc
      exact hall h hin ((connectionSpecific_iff hp.2.1).mp hc) hp
    · rw [if_neg hp] at hback
      exact absurd hback List.not_mem_nil

/-- **Hop-by-hop headers, in both directions.** A request that is sent carries no header
of its client's connection exactly when every header of the request that is named
`Proxy-Connection`, or that one of its `Connection` headers lists, is withheld on
another ground, and the credential of the route presented has no such name and none of
the fixed ones. A response carries none of its upstream's connection exactly when every
header so named or listed is dropped on another ground: it is hop-by-hop by name,
`Content-Length`, or nothing the server library makes a header of. -/
theorem connectionSpecific_crosses_iff {tiny : TinyHttp} (htiny : tiny.Conforms) :
    (∀ (http : Http) (routes : List ProxyRoute) (request : Request) (ρ : Type)
        (tr : List (Event (fun _ : Unit => Outbound) (fun _ : Unit => Except Str ρ)))
        (r : Except Rejection ρ), Runs (forward http routes request) tr r → ∀ event ∈ tr,
        ((∀ h ∈ event.arg.headers, ¬ConnectionSpecific request.headers h.1) ↔
          (∀ h ∈ request.headers, Unseen request.headers h.1 → Withheld routes h.1) ∧
          ∀ route ∈ routes, Presents request.headers route →
            ¬ConnectionSpecific request.headers route.headerName)) ∧
    ∀ upstream : UpstreamResponse,
      (∀ h ∈ (respondWithUpstream tiny upstream).headers,
          ¬ConnectionSpecific (responseMessage upstream) h.1) ↔
        ∀ h ∈ upstream.headers, Unseen (responseMessage upstream) h.1 → ¬PassedBack tiny h := by
  refine ⟨fun http routes request ρ tr r hruns event hevent => ?_,
    fun upstream => passedBack_iff htiny⟩
  rcases contact_of_runs hruns with ⟨rfl, -⟩ | ⟨route, ans, -, hs, rfl, -⟩
  · exact absurd hevent List.not_mem_nil
  obtain rfl := List.mem_singleton.mp hevent
  have hfil := (selectRoute_eq_ok.mp hs).2
  simp only [presents_headerPairs] at hfil
  rw [outbound_headers, List.forall_mem_append, List.forall_mem_singleton, passed_iff]
  refine and_congr_right fun _ => ?_
  constructor
  · intro hc other ho hp
    have hmem : other ∈ routes.filter fun route => Presents request.headers route :=
      List.mem_filter.mpr ⟨ho, decide_eq_true hp⟩
    rw [hfil] at hmem
    obtain rfl := List.mem_singleton.mp hmem
    exact hc
  · intro hall
    have hmem : route ∈ routes.filter fun route => Presents request.headers route :=
      hfil ▸ List.mem_singleton_self route
    exact hall route (List.mem_filter.mp hmem).1 (of_decide_eq_true (List.mem_filter.mp hmem).2)

theorem connectionSpecific_crosses_iff_bearer :
    ∃ event ∈ (exec (fun _ _ => .ok ()) 0
        (forward ⟨fun _ => true, fun _ => true⟩ bearerRoutes bearerRequest)).1,
      ∀ h ∈ event.arg.headers, ¬ConnectionSpecific bearerRequest.headers h.1 := by
  have hsel : selectRoute bearerRoutes (headerPairs bearerRequest.headers) =
      .ok bearerRoutes[1] := rfl
  have hne : (exec (fun _ _ => .ok ()) 0
      (forward ⟨fun _ => true, fun _ => true⟩ bearerRoutes bearerRequest)).1 ≠ [] := by
    simp only [forward, hsel]
    exact List.cons_ne_nil _ _
  obtain ⟨event, hevent⟩ := List.exists_mem_of_ne_nil _ hne
  refine ⟨event, hevent, ((connectionSpecific_crosses_iff TinyHttp.reference_conforms).1 _ _ _ _ _
    _ (runs_exec (fun _ _ => .ok ()) 0 _) event hevent).mpr ⟨?_, ?_⟩⟩
  · unfold Unseen
    decide
  · decide

/-- A request that lists one of its headers as an option of its connection. -/
def tracedRequest : Request where
  target := "/v1".toList
  method := "GET".toList
  headers := [("Authorization".toList, "p2".toList), ("Connection".toList, "close, X-Trace".toList),
    ("x-trace".toList, "1".toList)]
  bodyLength := none

/-- The listed header is sent on. -/
theorem traced_crosses : ∃ out ans,
    (exec (fun _ _ => .ok ()) 0
      (forward ⟨fun _ => true, fun _ => true⟩ bearerRoutes tracedRequest)).1 = [⟨(), out, ans⟩] ∧
    ∃ h ∈ out.headers, ConnectionSpecific tracedRequest.headers h.1 := by
  have hsel : selectRoute bearerRoutes (headerPairs tracedRequest.headers) =
      .ok bearerRoutes[1] := rfl
  refine ⟨outbound bearerRoutes bearerRoutes[1] tracedRequest, .ok (), ?_,
    ("x-trace".toList, "1".toList), by decide, by decide⟩
  simp only [forward, hsel]
  rfl

end Iwaya
