import Iwaya.Foundation.Field
import Iwaya.Proxy.Headers
import Iwaya.Proxy.Serve

/-!
# What a client cannot tell

The raw values of the routes take part in one thing only, the credential of an outbound
request. Two services whose routes differ in raw values alone, and whose upstreams do not
answer differently for that, therefore go through the same turns, in any interleaving:
each client is refused alike or given the same response, each line on standard error is the
same, and each outbound request is the same up to the value of its last header
(`Iwaya.serve_opaque`).

A raw value can be told from another by the HTTP library, which refuses to make a header of
some; so values are compared that it takes alike.
-/

namespace Iwaya

open Text Effects

/-- **What the library looks at in a header value**: whether it is one. -/
def Http.ValueBlind (http : Http) : Prop :=
  ∀ out : Outbound, ∀ passed name value value',
    Field.isValue value = Field.isValue value' →
    http.builds { out with headers := passed ++ [(name, value)] } =
      http.builds { out with headers := passed ++ [(name, value')] }

/-- The same route, with a raw value that is taken alike. -/
structure ProxyRoute.Rekeyed (route route' : ProxyRoute) : Prop where
  same : { route with rawValue := route'.rawValue } = route'
  value : Field.isValue (injected route).2 = Field.isValue (injected route').2

/-- The same request, up to the value of its last header. -/
def SameButCredential (out out' : Outbound) : Prop :=
  ∃ passed name value value', out.headers = passed ++ [(name, value)] ∧
    out' = { out with headers := passed ++ [(name, value')] }

/-- **The same turn**, up to the credential of an outbound request. -/
def SameTurn : (k : ServeCall) → k.Arg → k.Arg → Prop
  | .contact, x, y => SameButCredential x y
  | .report, x, y => x = y
  | .respond, x, y => x = y

section

variable {routes routes' : List ProxyRoute} {route route' : ProxyRoute} {request : Request}

theorem ProxyRoute.Rekeyed.headerName_eq (h : route.Rekeyed route') :
    route'.headerName = route.headerName := by
  rw [← h.same]

theorem ProxyRoute.Rekeyed.repeats_iff (h : route.Rekeyed route') (headers : List (Str × Str)) :
    Repeats headers route' ↔ Repeats headers route := by
  rw [← h.same]
  rfl

theorem ProxyRoute.Rekeyed.presents_iff (h : route.Rekeyed route') (headers : List (Str × Str)) :
    Presents headers route' ↔ Presents headers route := by
  rw [← h.same]
  rfl

/-- **Selection looks at no raw value.** -/
theorem selectRoute_rekeyed (h : routes.Forall₂ ProxyRoute.Rekeyed routes')
    (headers : List (Str × Str)) :
    ResultRel ProxyRoute.Rekeyed (selectRoute routes headers) (selectRoute routes' headers) := by
  have hrep : (∃ route ∈ routes', Repeats headers route) ↔
      ∃ route ∈ routes, Repeats headers route := by
    constructor
    · rintro ⟨route', hm, hr⟩
      obtain ⟨route, hm', hrk⟩ := exists_of_forall₂ h.flip hm
      exact ⟨route, hm', (hrk.repeats_iff headers).mp hr⟩
    · rintro ⟨route, hm, hr⟩
      obtain ⟨route', hm', hrk⟩ := exists_of_forall₂ h hm
      exact ⟨route', hm', (hrk.repeats_iff headers).mpr hr⟩
  have hfil : List.Forall₂ ProxyRoute.Rekeyed (routes.filter fun route => Presents headers route)
      (routes'.filter fun route => Presents headers route) := by
    refine List.rel_filter (fun a b hab => ?_) h
    simpa using (hab.presents_iff headers).symm
  rw [selectRoute_eq_verdict, selectRoute_eq_verdict, verdict, verdict]
  simp only [hrep]
  split
  · exact .error _
  · generalize routes.filter (fun route => Presents headers route) = l at hfil
    generalize routes'.filter (fun route => Presents headers route) = l' at hfil
    rcases hfil with _ | ⟨hab, _ | ⟨hcd, hrest⟩⟩
    · exact .error _
    · exact .ok hab
    · exact .error _

/-- What is sent through a route that was rekeyed. -/
theorem outbound_rekeyed (h : routes.Forall₂ ProxyRoute.Rekeyed routes')
    (hroute : route.Rekeyed route') (request : Request) :
    ∃ passed, (outbound routes route request).headers =
        passed ++ [(route.headerName, (injected route).2)] ∧
      outbound routes' route' request = { outbound routes route request with
        headers := passed ++ [(route.headerName, (injected route').2)] } := by
  have hnames : routes'.map ProxyRoute.headerName = routes.map ProxyRoute.headerName := by
    have hmap := List.forall₂_map_left_iff.mpr (List.forall₂_map_right_iff.mpr
      (h.imp fun a b hab => hab.headerName_eq.symm))
    exact (List.forall₂_eq_eq_eq ▸ hmap : routes.map _ = routes'.map _).symm
  refine ⟨_, rfl, ?_⟩
  have hup : route'.upstream = route.upstream := by rw [← hroute.same]
  simp only [outbound, forwardsRequestHeader_congr hnames, hup, injected, hroute.headerName_eq]

/-- **Forwarding looks at no raw value.** -/
theorem sim_forward {ρ : Type} {http : Http} (hhttp : http.ValueBlind)
    (h : routes.Forall₂ ProxyRoute.Rekeyed routes') (request : Request) :
    Sim (fun _ => SameButCredential) Eq (forward http routes request : Contacting ρ ρ)
      (forward http routes' request) := by
  simp only [forward, Prog.bind_eq]
  refine (sim_ofExcept (.refl _)).bind fun _ _ _ => ?_
  refine (sim_ofExcept (selectRoute_rekeyed h _)).bind fun route route' hroute => ?_
  -- the last gate is open for both or for neither
  obtain ⟨passed, hout, hout'⟩ := outbound_rekeyed h hroute request
  have hbuilds : http.builds (outbound routes' route' request) =
      http.builds (outbound routes route request) := by
    have hb := hhttp (outbound routes route request) passed route.headerName _ _ hroute.value
    rw [hout', ← hb, ← hout]
  rw [hbuilds]
  refine (sim_ofExcept (.refl _)).bind fun _ _ _ => ?_
  refine (sim_ofExcept (.refl _)).bind fun _ _ _ => ?_
  refine (Sim.perform ⟨passed, _, _, _, hout, hout'⟩).bind ?_
  rintro sent _ rfl
  exact sim_ofExcept (.refl _)

/-- A call that is the same in both, and what comes after it. -/
theorem sim_same {k : ServeCall} {x : k.Arg} (hx : SameTurn k x x)
    {next next' : k.Ans → Prog ServeCall.Arg ServeCall.Ans Empty Unit}
    (h : ∀ ans, Sim SameTurn Eq (next ans) (next' ans)) :
    Sim SameTurn Eq ((Prog.perform k x).bind next) ((Prog.perform k x).bind next') :=
  .call hx h

/-- **Nor does a thread.** -/
theorem sim_handle {lib : ProxyLibraries} (hlib : lib.http.ValueBlind)
    (h : routes.Forall₂ ProxyRoute.Rekeyed routes') (request : Request) :
    Sim SameTurn Eq (handle lib routes request) (handle lib routes' request) := by
  refine (Sim.outcome (Sim.embed (sim_forward hlib h request))).bind fun sent sent' hsent => ?_
  obtain rfl := hsent.eq
  -- what is left is a matter of the outcome alone
  rcases sent with (reason | _ | _ | error) | upstream
  · exact sim_same (k := .respond) rfl fun _ => .done rfl
  · exact sim_same (k := .respond) rfl fun _ => .done rfl
  · exact sim_same (k := .respond) rfl fun _ => .done rfl
  · exact sim_same (k := .report) rfl fun _ => sim_same (k := .respond) rfl fun _ => .done rfl
  · exact sim_same (k := .respond) rfl fun _ => .done rfl

end

/-! ### Two services -/

section

variable {ι σ τ Λ : Type} [DecidableEq ι] {lib : ProxyLibraries} {routes routes' : List ProxyRoute}
  {request : ι → Request} {S : σ → τ → Prop} {s₀ : σ} {t₀ : τ}
  {w : ι → Surroundings ServeCall.Arg ServeCall.Ans σ Λ}
  {w' : ι → Surroundings ServeCall.Arg ServeCall.Ans τ Λ}
  {f : Fleet ι ServeCall.Arg ServeCall.Ans Empty Unit σ}

/-- Two such services go through the same turns. -/
theorem course_alike (hlib : lib.http.ValueBlind)
    (hroutes : routes.Forall₂ ProxyRoute.Rekeyed routes')
    (hw : ∀ i, Surroundings.Blind SameTurn S (w i) (w' i)) (hS : S s₀ t₀)
    (h : Fleet.Course w (serve lib routes request s₀) f) :
    ∃ g, Fleet.Course w' (serve lib routes' request t₀) g ∧ Fleet.Alike SameTurn Eq S f g :=
  Fleet.Alike.course hw (Fleet.alike_start (fun i => sim_handle hlib hroutes (request i)) hS) h

/-- **No client can tell the raw values.** Let the routes of two services differ in raw
values only, which the library takes alike, and let their surroundings not answer differently
for the credential of a request. Then every course of the first service is one of the second:
each thread has made the same calls in the same order with the same answers – the same
refusals, the same lines on standard error, the same responses for the client – and each
outbound request is the same up to the value of its last header. -/
theorem serve_opaque (hlib : lib.http.ValueBlind)
    (hroutes : routes.Forall₂ ProxyRoute.Rekeyed routes')
    (hw : ∀ i, Surroundings.Blind SameTurn S (w i) (w' i)) (hS : S s₀ t₀)
    (h : Fleet.Course w (serve lib routes request s₀) f) :
    ∃ g, Fleet.Course w' (serve lib routes' request t₀) g ∧ S f.shared g.shared ∧
      ∀ i, List.Forall₂ (EventRel SameTurn) (f.trace i) (g.trace i) ∧
        ∀ r, f.process i = .ended r → g.process i = .ended r := by
  obtain ⟨g, hg, ha⟩ := course_alike hlib hroutes hw hS h
  refine ⟨g, hg, ha.shared, fun i => ⟨ha.trace i, fun r hr => ?_⟩⟩
  have hp := ha.process i
  rw [hr] at hp
  rcases hgi : g.process i with p | r' | _ <;> rw [hgi] at hp
  · cases hp
  · obtain _ | hres | _ := hp
    rw [hres.eq]
  · cases hp

end

/-- The shared routes, with other raw values. -/
def otherHeaderRoutes : List ProxyRoute :=
  [{ headerName := "X-Key".toList, template := placeholder, upstream := "https://a".toList,
     phantom := ⟨"p1".toList⟩, rawValue := "new1".toList },
    { headerName := "x-key".toList, template := placeholder, upstream := "https://b".toList,
      phantom := ⟨"p2".toList⟩, rawValue := "new2".toList }]

theorem serve_opaque_shared : ∃ f g : Fleet Bool ServeCall.Arg ServeCall.Ans Empty Unit Unit,
    Fleet.Course (fun _ => lenientSurroundings)
        (serve lenientLibraries sharedHeaderRoutes sharedRequests ()) f ∧
      Fleet.Course (fun _ => lenientSurroundings)
        (serve lenientLibraries otherHeaderRoutes sharedRequests ()) g ∧
      (∃ r, f.process false = .ended r ∧ g.process false = .ended r) ∧
      (∃ out ans, f.trace true = [⟨.contact, out, ans⟩]) ∧
      ∀ i, List.Forall₂ (EventRel SameTurn) (f.trace i) (g.trace i) := by
  obtain ⟨f, hf, ⟨r, hr⟩, hcontact⟩ := course_sharedRequests
  have hroutes : sharedHeaderRoutes.Forall₂ ProxyRoute.Rekeyed otherHeaderRoutes :=
    .cons ⟨rfl, by decide⟩ (.cons ⟨rfl, by decide⟩ .nil)
  have hblind : Surroundings.Blind SameTurn (fun _ _ => True) lenientSurroundings
      lenientSurroundings :=
    { answers := fun _ _ _ _ _ _ _ _ => ⟨(), trivial, trivial⟩
      moves := fun _ _ _ _ l _ _ _ _ => l.elim
      kills := fun _ _ _ _ h => h.elim }
  obtain ⟨g, hg, -, h⟩ := serve_opaque (fun _ _ _ _ _ _ => rfl) hroutes (fun _ => hblind) trivial hf
  exact ⟨f, g, hf, hg, ⟨r, hr, (h false).2 r hr⟩, hcontact, fun i => (h i).1⟩

end Iwaya
