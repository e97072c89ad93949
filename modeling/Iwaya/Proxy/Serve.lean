import Mathlib.Data.Fintype.Basic
import Iwaya.Foundation.Lockstep
import Iwaya.Proxy.Authentication
import Iwaya.Proxy.Respond

/-!
# The service

The proxy takes requests as they come, and hands each to a thread of its own, so that a
response that streams blocks no one else. A thread forwards its request, and answers it
with the upstream's response or with a fixed text; an upstream that failed is reported on
the proxy's standard error first. The threads are a fleet (`Effects.Fleet`): there are as
many as there are requests, and nothing is said of the order in which they go on.

What becomes of a request is an exchange (`Iwaya.Exchange`), of which there are three
kinds. However the threads interleave, what a thread did is the beginning of an exchange of
its own request, and all of one when it is over (`Iwaya.serve_exchanges`).
-/

namespace Iwaya

open Text Effects

/-- The libraries the proxy is made with; a text that is answered with has headers of its
own. -/
structure ProxyLibraries where
  http : Http
  tiny : TinyHttp
  textHeaders : List (Str × Str)

/-- What a request thread does to the outside. -/
inductive ServeCall where
  /-- Sending a request to an upstream, up to the head of its response. -/
  | contact
  /-- Writing a line to standard error. -/
  | report
  /-- Answering the client. -/
  | respond
  deriving DecidableEq

@[reducible] def ServeCall.Arg : ServeCall → Type
  | contact => Outbound
  | report => Str
  | respond => ClientResponse

/-- The outcome of answering is ignored. -/
@[reducible] def ServeCall.Ans : ServeCall → Type
  | contact => Except Str UpstreamResponse
  | report => Unit
  | respond => Except Str Unit

/-- A text for the client. -/
def Rejection.response (lib : ProxyLibraries) (rejection : Rejection) : ClientResponse where
  status := rejection.status
  headers := lib.textHeaders
  contentLength := some (utf8 rejection.body).length
  body := utf8 rejection.body

/-- The line an upstream that failed is reported with. -/
def upstreamReport (error : Str) : Str :=
  "iwaya-proxy: error: upstream request failed: ".toList ++ error

/-- **One request.** -/
def handle (lib : ProxyLibraries) (routes : List ProxyRoute) (request : Request) :
    Prog ServeCall.Arg ServeCall.Ans Empty Unit := do
  let sent : Except Rejection UpstreamResponse ←
    ((forward lib.http routes request).embed ServeCall.contact).outcome
  match sent with
  | .ok upstream =>
    let _ ← Prog.perform ServeCall.respond (respondWithUpstream lib.tiny upstream)
  | .error (.upstream error) =>
    -- the error names the configured upstream at worst
    Prog.perform ServeCall.report (upstreamReport error)
    let _ ← Prog.perform ServeCall.respond ((Rejection.upstream error).response lib)
  | .error rejection =>
    let _ ← Prog.perform ServeCall.respond (rejection.response lib)

/-- The threads, one for each request that has come or will come. Each is taken to be
created, and standard error to be written to; otherwise the source panics. -/
def serve {ι σ : Type} (lib : ProxyLibraries) (routes : List ProxyRoute) (request : ι → Request)
    (s₀ : σ) : Fleet ι ServeCall.Arg ServeCall.Ans Empty Unit σ :=
  Fleet.start (fun i => handle lib routes (request i)) s₀

/-! ### Exchanges -/

/-- A request that is sent, and the route it is sent through: its target is origin-form, no
credential header is repeated, one route is presented, and the library can make the
request. -/
structure Accepted (http : Http) (routes : List ProxyRoute) (request : Request)
    (route : ProxyRoute) : Prop where
  target : isOriginForm request.target = true
  unrepeated : ∀ route ∈ routes, ¬Repeats request.headers route
  presented : (routes.filter fun route => Presents request.headers route) = [route]
  method : http.methodParses request.method = true
  builds : http.builds (outbound routes route request) = true

/-- What a request that is not sent can be refused with. -/
def refusals : List Rejection :=
  [.badRequest "the request target must be origin-form".toList, repeatedCredential, .noMatch,
    .ambiguous, .badRequest "the request method is not usable".toList,
    .badRequest "the request could not be constructed".toList]

/-- One event of a thread. -/
abbrev ServeEvent : Type := Event ServeCall.Arg ServeCall.Ans

/-- **What becomes of a request.** -/
inductive Exchange (lib : ProxyLibraries) (routes : List ProxyRoute) (request : Request) :
    List ServeEvent → Prop
  /-- It is refused, with a text that has nothing of the request in it. -/
  | refused {rejection : Rejection} (h : ∀ route, ¬Accepted lib.http routes request route)
    (hmem : rejection ∈ refusals) (sent : Except Str Unit) :
    Exchange lib routes request [⟨.respond, rejection.response lib, sent⟩]
  /-- It is sent, and the upstream fails. -/
  | failed {route : ProxyRoute} {error : Str} (h : Accepted lib.http routes request route)
    (sent : Except Str Unit) :
    Exchange lib routes request [⟨.contact, outbound routes route request, .error error⟩,
      ⟨.report, upstreamReport error, ()⟩,
      ⟨.respond, (Rejection.upstream error).response lib, sent⟩]
  /-- It is sent, and answered with the upstream's response. -/
  | answered {route : ProxyRoute} {upstream : UpstreamResponse}
    (h : Accepted lib.http routes request route) (sent : Except Str Unit) :
    Exchange lib routes request [⟨.contact, outbound routes route request, .ok upstream⟩,
      ⟨.respond, respondWithUpstream lib.tiny upstream, sent⟩]

section

variable {lib : ProxyLibraries} {routes : List ProxyRoute} {request : Request}
  {tr : List ServeEvent}

/-- Which requests are selected is a matter of the headers as they came. -/
theorem selectRoute_headerPairs_eq_ok {route : ProxyRoute} :
    selectRoute routes (headerPairs request.headers) = .ok route ↔
      (∀ route ∈ routes, ¬Repeats request.headers route) ∧
        (routes.filter fun route => Presents request.headers route) = [route] := by
  simp only [selectRoute_eq_ok, repeats_headerPairs, presents_headerPairs]

/-- A request that selects no route is refused in one of three ways. -/
theorem selectRoute_error_mem {headers : List (Str × Str)} {rejection : Rejection}
    (h : selectRoute routes headers = .error rejection) :
    rejection ∈ [repeatedCredential, .noMatch, .ambiguous] := by
  rw [selectRoute_eq_verdict, verdict] at h
  split at h
  · obtain rfl := Except.error.inj h
    simp
  · rcases hf : routes.filter fun route => Presents headers route with _ | ⟨a, _ | ⟨b, l⟩⟩ <;>
      rw [hf] at h <;> cases h <;> simp

/-- **A run of forwarding, exactly**: the request is accepted and sent once, or it is not and
refused. -/
theorem cases_of_runs_forward {http : Http} {ρ : Type}
    {t : List (Event (fun _ : Unit => Outbound) (fun _ : Unit => Except Str ρ))}
    {r : Except Rejection ρ} (h : Runs (forward http routes request) t r) :
    (∃ route ans, Accepted http routes request route ∧
        t = [⟨(), outbound routes route request, ans⟩] ∧ r = ans.mapError Rejection.upstream) ∨
      ((∀ route, ¬Accepted http routes request route) ∧ t = [] ∧
        ∃ rejection ∈ refusals, r = .error rejection) := by
  simp only [forward, Prog.bind_eq, runs_ofExcept_bind_iff] at h
  -- the gates one by one; a refusal at one of them contradicts a field of acceptance
  rcases h with ⟨e, he, rfl, rfl⟩ | ⟨u₁, ho, h⟩
  · obtain ⟨hno, rfl⟩ := Checks.refuse_eq_error.mp he
    exact Or.inr ⟨fun route ha => by simp [ha.target] at hno, rfl, _, by simp [refusals], rfl⟩
  rcases h with ⟨e, he, rfl, rfl⟩ | ⟨route, hs, h⟩
  · refine Or.inr ⟨fun route ha => ?_, rfl, e, ?_, rfl⟩
    · have hok := selectRoute_headerPairs_eq_ok.mpr ⟨ha.unrepeated, ha.presented⟩
      rw [he] at hok
      cases hok
    · exact List.mem_cons_of_mem _ (List.mem_append_left [_, _] (selectRoute_error_mem he))
  have hsel := selectRoute_headerPairs_eq_ok.mp hs
  have honly : ∀ other, Accepted http routes request other → other = route := fun other ha =>
    (List.cons.inj (ha.presented.symm.trans hsel.2)).1
  rcases h with ⟨e, he, rfl, rfl⟩ | ⟨u₂, hm, h⟩
  · obtain ⟨hno, rfl⟩ := Checks.refuse_eq_error.mp he
    exact Or.inr ⟨fun other ha => by simp [ha.method] at hno, rfl, _, by simp [refusals], rfl⟩
  rcases h with ⟨e, he, rfl, rfl⟩ | ⟨u₃, hb, h⟩
  · obtain ⟨hno, rfl⟩ := Checks.refuse_eq_error.mp he
    refine Or.inr ⟨fun other ha => ?_, rfl, _, by simp [refusals], rfl⟩
    have hbuilds := ha.builds
    rw [honly other ha, hno] at hbuilds
    cases hbuilds
  obtain ⟨ans, t', rfl, hlast⟩ := runs_perform_bind_iff.mp h
  obtain ⟨rfl, rfl⟩ := runs_ofExcept_iff.mp hlast
  exact Or.inl ⟨route, ans, ⟨by simpa using Checks.refuse_eq_ok.mp ho, hsel.1, hsel.2,
    by simpa using Checks.refuse_eq_ok.mp hm, by simpa using Checks.refuse_eq_ok.mp hb⟩, rfl, rfl⟩

/-- **A thread that is over has had an exchange.** -/
theorem exchange_of_runs {r : Except Empty Unit} (h : Runs (handle lib routes request) tr r) :
    Exchange lib routes request tr := by
  rw [handle, Prog.bind_eq] at h
  rcases runs_bind_iff.mp h with ⟨e, -, -⟩ | ⟨res, t₁, t₂, rfl, h₁, h₂⟩
  · exact e.elim
  obtain ⟨r', h₁, he⟩ := runs_outcome_iff.mp h₁
  obtain rfl := Except.ok.inj he
  obtain ⟨t, rfl, hf⟩ := runs_embed_iff.mp h₁
  rcases cases_of_runs_forward hf with ⟨route, error | upstream, ha, rfl, rfl⟩ |
    ⟨hno, rfl, rejection, hmem, rfl⟩
  · obtain ⟨u, t₃, rfl, h₃⟩ := runs_perform_bind_iff.mp h₂
    obtain ⟨sent, t₄, rfl, h₄⟩ := runs_perform_bind_iff.mp h₃
    obtain ⟨rfl, -⟩ := runs_done_iff.mp h₄
    exact .failed ha sent
  · obtain ⟨sent, t₃, rfl, h₃⟩ := runs_perform_bind_iff.mp h₂
    obtain ⟨rfl, -⟩ := runs_done_iff.mp h₃
    exact .answered ha sent
  · -- none of the refusals is that of an upstream
    have hrest : ∀ q : Prog ServeCall.Arg ServeCall.Ans Empty Unit,
        q = (Prog.perform ServeCall.respond (rejection.response lib)).bind (fun _ => .done ()) →
        Runs q t₂ r → Exchange lib routes request ([].map (Event.embed .contact) ++ t₂) := by
      rintro q rfl hq
      obtain ⟨sent, t₃, rfl, h₃⟩ := runs_perform_bind_iff.mp hq
      obtain ⟨rfl, -⟩ := runs_done_iff.mp h₃
      exact .refused hno hmem sent
    simp only [refusals, List.mem_cons, List.not_mem_nil, or_false] at hmem
    rcases hmem with rfl | rfl | rfl | rfl | rfl | rfl <;> exact hrest _ rfl h₂

/-- A request that was sent was accepted. -/
theorem Exchange.accepted (h : Exchange lib routes request tr) {out : Outbound}
    {ans : Except Str UpstreamResponse} (hm : (⟨.contact, out, ans⟩ : ServeEvent) ∈ tr) :
    ∃ route, Accepted lib.http routes request route ∧ out = outbound routes route request := by
  rcases h with ⟨-, -, sent⟩ | @⟨route, error, ha, sent⟩ | @⟨route, upstream, ha, sent⟩
  · simp at hm
  · simp only [List.mem_cons, Event.mk.injEq, heq_eq_eq, true_and, reduceCtorEq, false_and,
      List.not_mem_nil, or_false] at hm
    exact ⟨route, ha, hm.1⟩
  · simp only [List.mem_cons, Event.mk.injEq, heq_eq_eq, true_and, reduceCtorEq, false_and,
      List.not_mem_nil, or_false] at hm
    exact ⟨route, ha, hm.1⟩

/-- A request that is accepted is sent. -/
theorem Exchange.sent (h : Exchange lib routes request tr) {route : ProxyRoute}
    (ha : Accepted lib.http routes request route) :
    ∃ ans, (⟨.contact, outbound routes route request, ans⟩ : ServeEvent) ∈ tr := by
  have honly : ∀ other, Accepted lib.http routes request other → other = route := fun other ho =>
    (List.cons.inj (ho.presented.symm.trans ha.presented)).1
  rcases h with ⟨hno, -, sent⟩ | @⟨other, error, ho, sent⟩ | @⟨other, upstream, ho, sent⟩
  · exact absurd ha (hno route)
  · obtain rfl := honly other ho
    exact ⟨_, List.mem_cons_self⟩
  · obtain rfl := honly other ho
    exact ⟨_, List.mem_cons_self⟩

end

/-! ### Every interleaving -/

section

variable {ι σ Λ : Type} [DecidableEq ι] {lib : ProxyLibraries} {routes : List ProxyRoute}
  {request : ι → Request} {s₀ : σ}
  {w : ι → Surroundings ServeCall.Arg ServeCall.Ans σ Λ}
  {f : Fleet ι ServeCall.Arg ServeCall.Ans Empty Unit σ}

/-- Any answers do for a thread that has to go on. -/
def defaultAnswers : Env ServeCall.Ans
  | _, .contact => .error []
  | _, .report => ()
  | _, .respond => .ok ()

/-- What a thread did begins an exchange of its request. -/
theorem exists_exchange (h : Fleet.Course w (serve lib routes request s₀) f) (i : ι) :
    ∃ tr, Exchange lib routes (request i) tr ∧ f.trace i <+: tr := by
  obtain ⟨t, r, hr⟩ := (Fleet.within h i).exists_runs defaultAnswers
  exact ⟨_, exchange_of_runs hr, List.prefix_append _ _⟩

/-- A thread that is over did a whole one. -/
theorem exchange_of_ended (h : Fleet.Course w (serve lib routes request s₀) f) {i : ι}
    {r : Except Empty Unit} (hr : f.process i = .ended r) :
    r = .ok () ∧ Exchange lib routes (request i) (f.trace i) := by
  have hw := Fleet.within h i
  rw [Fleet.view, hr] at hw
  refine ⟨?_, exchange_of_runs hw⟩
  rcases r with e | u
  · exact e.elim
  · rfl

/-- **However the threads interleave**, and whatever upstreams and clients do: what each did
is the beginning of an exchange of its own request, and a thread that is over has had a whole
one – one response, at the end, and one contact at most, through the one route the request
presents. -/
theorem serve_exchanges (h : Fleet.Course w (serve lib routes request s₀) f) (i : ι) :
    (∃ tr, Exchange lib routes (request i) tr ∧ f.trace i <+: tr) ∧
      ∀ r, f.process i = .ended r → r = .ok () ∧ Exchange lib routes (request i) (f.trace i) :=
  ⟨exists_exchange h i, fun _ hr => exchange_of_ended h hr⟩

end

/-- Libraries that refuse nothing. -/
def lenientLibraries : ProxyLibraries where
  http := ⟨fun _ => true, fun _ => true⟩
  tiny := .reference
  textHeaders := []

/-- Surroundings that answer anything. -/
def lenientSurroundings : Surroundings ServeCall.Arg ServeCall.Ans Unit Empty where
  answers _ _ _ := True
  moves _ _ _ _ := False
  kills _ _ := False

/-- Any requests can be handled to their ends there. -/
theorem course_lenient {ι : Type} [DecidableEq ι] [Fintype ι] (lib : ProxyLibraries)
    (routes : List ProxyRoute) (request : ι → Request) :
    ∃ f, Fleet.Course (fun _ : ι => lenientSurroundings) (serve lib routes request ()) f ∧
      ∀ i, ∃ r, f.process i = .ended r := by
  have hall : ∃ f, Fleet.Course (fun _ : ι => lenientSurroundings) (serve lib routes request ()) f ∧
      f.shared = () ∧ (∀ i ∈ Finset.univ, f.process i = .ended _) ∧ _ :=
    Fleet.course_of_runs (fun i => runs_exec defaultAnswers 0 (handle lib routes (request i)))
      (fun _ _ _ => trivial) Finset.univ
  obtain ⟨f, hf, -, hended, -⟩ := hall
  exact ⟨f, hf, fun i => ⟨_, hended i (Finset.mem_univ i)⟩⟩

/-- Two requests, one for each of the routes that share a header. -/
def sharedRequests (i : Bool) : Request :=
  { sharedHeaderRequest with
    headers := [("X-KEY".toList, if i then "p2".toList else "p1".toList)] }

/-- They are handled at the same time: when one of them is over, the other has been sent and
is yet to be answered. -/
theorem course_sharedRequests : ∃ f, Fleet.Course (fun _ : Bool => lenientSurroundings)
    (serve lenientLibraries sharedHeaderRoutes sharedRequests ()) f ∧
      (∃ r, f.process false = .ended r) ∧
      ∃ out ans, f.trace true = [⟨.contact, out, ans⟩] := by
  have hstage : ∀ i, ∃ out ans report line text, (serve lenientLibraries sharedHeaderRoutes
      sharedRequests ()).Stage i [] [⟨.contact, out, ans⟩, ⟨.report, report, line⟩,
        ⟨.respond, text, .ok ()⟩] (.ok ()) := by
    intro i
    have hrun := runs_exec defaultAnswers 0
      (handle lenientLibraries sharedHeaderRoutes (sharedRequests i))
    cases i
    · exact ⟨_, _, _, _, _, Fleet.stage_start hrun⟩
    · exact ⟨_, _, _, _, _, Fleet.stage_start hrun⟩
  obtain ⟨out₀, ans₀, report₀, line₀, text₀, hs₀⟩ := hstage false
  obtain ⟨out₁, ans₁, report₁, line₁, text₁, hs₁⟩ := hstage true
  have hstart : Fleet.Course (fun _ : Bool => lenientSurroundings)
      (serve lenientLibraries sharedHeaderRoutes sharedRequests ()) _ := .refl
  -- both are sent before either is answered
  obtain ⟨f₁, hf₁, -, hs₀, hother⟩ := hstart.answers (t := [_]) hs₀ fun _ _ => trivial
  replace hs₁ := hs₁.rests (hother true (by decide))
  obtain ⟨f₂, hf₂, -, hs₁, hother⟩ := hf₁.answers (t := [_]) hs₁ fun _ _ => trivial
  replace hs₀ := hs₀.rests (hother false (by decide))
  obtain ⟨f₃, hf₃, -, hs₀, hother⟩ := hf₂.answers (t := [_, _]) hs₀ fun _ _ => trivial
  replace hs₁ := hs₁.rests (hother true (by decide))
  obtain ⟨f₄, hf₄, -, hr, hother⟩ := hf₃.over hs₀
  obtain ⟨q, -, htrace, -⟩ := hs₁.rests (hother true (by decide))
  exact ⟨f₄, hf₄, ⟨_, hr⟩, out₁, ans₁, htrace⟩

theorem serve_exchanges_shared : ∃ f, Fleet.Course (fun _ : Bool => lenientSurroundings)
    (serve lenientLibraries sharedHeaderRoutes sharedRequests ()) f ∧
      Exchange lenientLibraries sharedHeaderRoutes (sharedRequests false) (f.trace false) ∧
      ∃ tr, Exchange lenientLibraries sharedHeaderRoutes (sharedRequests true) tr ∧
        f.trace true <+: tr ∧ ∃ out ans, f.trace true = [⟨.contact, out, ans⟩] := by
  obtain ⟨f, hf, ⟨r, hr⟩, hcontact⟩ := course_sharedRequests
  obtain ⟨tr, htr, hpre⟩ := (serve_exchanges hf true).1
  exact ⟨f, hf, ((serve_exchanges hf false).2 r hr).2, tr, htr, hpre, hcontact⟩

end Iwaya
