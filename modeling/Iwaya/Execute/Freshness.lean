import Iwaya.Execute.EndToEnd
import Iwaya.Execute.Outcome

/-!
# Credentials of one invocation

A phantom is drawn by the invocation that hands it out, and by no one else. What this comes
to is followed through both processes: the variables of a target hold, in the order of the
declarations, exactly the draws its own invocation made for phantoms
(`Iwaya.drawn_of_spawn`); the proxy beside it sends nothing on that does not present one of
these; so of two invocations, whatever they run, the credentials of the one are good at the
proxy of the other only if both drew the same 32 bytes (`Iwaya.phantoms_do_not_cross`).
-/

namespace Iwaya

open Text Effects Trace

/-! ### Draws -/

/-- The entropy that was drawn for a phantom. The other draws are shorter. -/
def drawOf : Effect → Option (Vector UInt8 entropyBytes)
  | ⟨.entropy 32, _, .ok bytes⟩ => some bytes
  | _ => none

/-- **What an invocation drew for phantoms**, in order. -/
def draws (tr : List Effect) : List (Vector UInt8 entropyBytes) := tr.filterMap drawOf

section

variable {world : World} {context : DockerContext} {policy : CommandPolicy} {userArgs : List Str}
  {environment : List (EnvName × Str)} {resolved : ResolvedAll} {tr : List Effect}

theorem draws_append (a b : List Effect) : draws (a ++ b) = draws a ++ draws b :=
  List.filterMap_append

/-- No phantom is drawn. -/
def Undrawn (e : Effect) : Prop := drawOf e = none

theorem draws_eq_nil (h : ∀ e ∈ tr, Undrawn e) : draws tr = [] :=
  List.filterMap_eq_nil_iff.mpr h

theorem undrawn_of_stage {e : Effect} (h : e.kind.stage ≠ .draw) : Undrawn e := by
  obtain ⟨k, x, ans⟩ := e
  cases k <;> first | rfl | exact absurd rfl h

/-- A stage that draws nothing at all. -/
theorem undrawn_of_emits {ε α : Type} {l : List Stage} {p : Step ε α} (h : Emits (InStages l) p)
    (hl : .draw ∉ l) : Emits Undrawn p :=
  h.mono fun _ he => undrawn_of_stage fun hk => hl (hk ▸ he)

/-- The name of a directory or of a container is drawn of fewer bytes. -/
theorem undrawn_name {ε : Type} : Emits Undrawn (call (.entropy 8) () : Step ε _) :=
  emits_perform fun _ => rfl

theorem undrawn_ensureProxyImage (tempDir runtime : Str) :
    Emits Undrawn (ensureProxyImage tempDir runtime) := by
  have hcall : ∀ {ε : Type} {k : Call} {x : k.Arg}, k.stage ≠ .draw →
      Emits Undrawn (call k x : Step ε k.Ans) :=
    fun hk => emits_perform fun _ => undrawn_of_stage hk
  refine (hcall (by decide)).bind fun _ => (emits_ofExcept _ _).bind fun _ =>
    (hcall (by decide)).bind fun _ => (emits_ofExcept _ _).bind fun digest =>
      (undrawn_of_emits (emits_imageExists _ _) (by decide)).bind fun found => ?_
  split
  · exact emits_done _ _
  · refine (undrawn_name.bind fun _ => (emits_attempt _ _ _).bind fun _ =>
      (hcall (by decide)).bind fun _ => (emits_attempt _ _ _).bind fun _ => emits_done _ _).bind
        fun context => ?_
    exact (undrawn_of_emits (emits_build _ _ _) (by decide)).scope (hcall (by decide))

theorem undrawn_runBeside (provisioned : List ProvisionedProxySecret) (image : Str) :
    Emits Undrawn (runBeside world context policy environment userArgs provisioned image) := by
  have hremove : ∀ runtime name, Emits Undrawn (teardown runtime name) := fun _ _ =>
    undrawn_of_emits (l := [.removal]) ((emits_call rfl).bind fun _ => emits_call rfl) (by decide)
  refine (Emits.mapError _ ?_).bind fun sidecar => Emits.bind ?_ fun _ => emits_done _ _
  · refine (emits_giveUpIf _ _ _).bind fun _ => Emits.bind ?_ fun containerName =>
      Emits.bind ?_ fun _ => (emits_attempt _ _ _).bind fun _ =>
        ((undrawn_of_emits (emits_awaitReadiness world _) (by decide)).onFail
          (hremove _ _)).bind fun _ => emits_done _ _
    · exact undrawn_name.bind fun _ => (emits_attempt _ _ _).bind fun _ => emits_done _ _
    · exact undrawn_of_emits (l := [.sidecar]) (emits_spawning _ (emits_call rfl)) (by decide)
  · exact ((undrawn_of_emits (emits_supervise _ _) (by decide)).mapError _).scope (hremove _ _)

/-- **Provisioning makes one draw for each phantom.** -/
theorem drawn_of_provisioning {specs : List ProxySecretSpec}
    {provisioned : List ProvisionedProxySecret}
    (h : Runs (Prog.traverse (provisionOne resolved) specs) tr (.ok provisioned)) :
    List.Forall₂ (fun (secret : ProvisionedProxySecret) draw => secret.phantom = .generate draw)
      provisioned (draws tr) := by
  induction specs generalizing tr provisioned with
  | nil =>
    obtain ⟨rfl, hp⟩ := runs_done_iff.mp h
    obtain rfl := Except.ok.inj hp
    exact .nil
  | cons spec specs ih =>
    obtain ⟨secret, t₁, t₂, rfl, h1, h2⟩ := runs_bind_ok_iff.mp h
    obtain ⟨rest, t₃, t₄, rfl, h3, h4⟩ := runs_bind_ok_iff.mp h2
    obtain ⟨rfl, hp⟩ := runs_done_iff.mp h4
    obtain rfl := Except.ok.inj hp
    rcases runs_ofExcept_bind_iff.mp h1 with ⟨_, -, -, he⟩ | ⟨value, -, h5⟩
    · cases he
    obtain ⟨entropy, t, rfl, h6⟩ := runs_perform_bind_iff.mp h5
    rcases runs_attempt_bind_iff.mp h6 with ⟨_, -, -, he⟩ | ⟨bytes, rfl, h7⟩
    · cases he
    obtain ⟨rfl, hs⟩ := runs_done_iff.mp h7
    obtain rfl := Except.ok.inj hs
    rw [List.append_nil]
    exact .cons rfl (ih h3)

end

/-! ### What a target is given -/

/-- The variables of the target hold these draws, one for each proxy-backed secret. -/
def HoldsDraws (policy : CommandPolicy) (command : Command)
    (drawn : List (Vector UInt8 entropyBytes)) : Prop :=
  ∀ inherited, List.Forall₂ (fun (spec : ProxySecretSpec) draw =>
    command.environment inherited spec.envName = some (Phantom.generate draw).value)
    policy.proxySecrets drawn

section

variable {world : World} {invocation : Invocation} {A B : List Effect} {x : Command}
  {ans : Except IoError Unit} {r : Except Failure Exit}

/-- **What a target is given is what its invocation drew**, all of it, in the order of the
declarations. -/
theorem drawn_of_spawn (h : Runs (execute world invocation) (A ++ ⟨.targetSpawn, x, ans⟩ :: B) r) :
    ∃ configuration context policy, select world invocation = .ok (configuration, context, policy) ∧
      HoldsDraws policy x (draws A) := by
  obtain ⟨configuration, context, policy, resolved, t, A', rfl, hs, hres, hdel⟩ :=
    resolved_of_spawn h
  refine ⟨configuration, context, policy, hs, fun inherited => ?_⟩
  have hvalues : ∀ d ∈ declared policy, ∃ value, resolved.value d.1 d.2 = some value :=
    fun d hd => value_of_runs_resolveDeclared hres hd
  have hres₀ : draws t = [] := draws_eq_nil
    (undrawn_of_emits (emits_resolveDeclared world _ _) (by decide) _ _ hres)
  have hnot : ∀ {l : List Effect} {stages : List Stage}, (∀ e ∈ l, e.kind.stage ∈ stages) →
      .target ∉ stages → (⟨.targetSpawn, x, ans⟩ : Effect) ∉ l :=
    fun hl hstage hmem => hstage (hl _ hmem)
  have hmem : (⟨.targetSpawn, x, ans⟩ : Effect) ∈ A' ++ ⟨.targetSpawn, x, ans⟩ :: B := by simp
  rcases deliverAll_cases hdel with ⟨-, he⟩ | ⟨environment, henv, ⟨-, r', rfl, hex⟩ |
    ⟨-, ⟨-, hst⟩ | ⟨provisioned, image, s₁, s₂, s₃, hsplit, hprov, himg, hbes⟩⟩⟩
  · simp at he
  · rcases execRuntime_cases hex with ⟨_, -, ht⟩ | ⟨ans', ht⟩ <;> rw [ht] at hmem
    · cases hmem
    · simp at hmem
  · exact absurd hmem (hnot hst (by decide))
  obtain rfl := Except.ok.inj (henv.symm.trans (directEnvironment_eq hvalues))
  have hdrawn := drawn_of_provisioning hprov
  have hprov' : List.Forall₂ (ProvisionedFor resolved) policy.proxySecrets provisioned :=
    (forall₂_of_runs_traverse hprov).imp fun _ _ h => provisionedFor_of_runs h.choose_spec
  -- the target is started beside its sidecar, and nothing is drawn for a phantom there
  obtain ⟨A', rfl, rfl⟩ := exists_suffix_of_notMem (by rw [hsplit, List.append_assoc])
    (show (⟨.targetSpawn, x, ans⟩ : Effect) ∉ s₁ ++ s₂ by
      rw [List.mem_append, not_or]
      exact ⟨hnot (emits_traverse (fun _ _ => emits_provisionOne resolved _) _ _ hprov) (by decide),
        hnot (emits_ensureProxyImage _ _ _ _ himg) (by decide)⟩)
  have hrest : draws A' = [] := draws_eq_nil fun e he =>
    undrawn_runBeside _ _ _ _ hbes e (by simp [he])
  have himage : draws s₂ = [] := draws_eq_nil (undrawn_ensureProxyImage _ _ _ _ himg)
  obtain ⟨read, port, pre, e, -, -, -, rfl⟩ := spawn_runBeside hbes
  obtain ⟨hvalid, -, hpolicy⟩ := valid_of_select hs
  have hgiven := (delivered_settings (hvalid.policy policy hpolicy).nodup hvalues hprov' port
    inherited).proxySecret
  have hdraws : draws (t ++ (s₁ ++ s₂ ++ A')) = draws s₁ := by
    rw [draws_append, draws_append, draws_append, hres₀, himage, hrest, List.nil_append,
      List.append_nil, List.append_nil]
  rw [hdraws]
  exact forall₂_comp (fun _ _ _ h hphantom => hphantom ▸ h.1) hgiven hdrawn

/-! ### The proxy beside it -/

variable {c : Snapshot Call.Arg Call.Ans Failure Exit Host}

/-- The request presents one of these draws: a header of it is the phantom of that draw. -/
def PresentsDraw (request : Request) (draw : Vector UInt8 entropyBytes) : Prop :=
  ∃ header ∈ request.headers, header.2 = (Phantom.generate draw).value

/-- **A request that is accepted presents a draw** of those the routes were made with. -/
theorem presentsDraw_of_accepted {policy : CommandPolicy} {holds : ProxySecretSpec → Str → Prop}
    {routes : List ProxyRoute} {route : ProxyRoute} {request : Request} {http : Http}
    {drawn : List (Vector UInt8 entropyBytes)} {inherited : Str → Option Str}
    (hstands : List.Forall₂ (StandsFor (x.environment inherited) holds) policy.proxySecrets routes)
    (hdrawn : HoldsDraws policy x drawn) (h : Accepted http routes request route) :
    ∃ draw ∈ drawn, PresentsDraw request draw := by
  have hselected : route ∈ routes.filter fun route => Presents request.headers route :=
    h.presented ▸ List.mem_singleton_self route
  obtain ⟨hroute, hpresents⟩ := List.mem_filter.mp hselected
  have hphantoms : List.Forall₂ (fun (route : ProxyRoute) draw =>
      route.phantom.value = (Phantom.generate draw).value) routes drawn :=
    forall₂_comp (fun _ _ _ hsr hd => Option.some.inj (hsr.phantom.symm.trans hd)) hstands.flip
      (hdrawn inherited)
  obtain ⟨draw, hd, hphantom⟩ := exists_of_forall₂ hphantoms hroute
  have hmem : route.phantom.value ∈ valuesOf request.headers route.headerName :=
    presents_iff.mp (of_decide_eq_true hpresents) ▸ List.mem_singleton_self _
  obtain ⟨header, hheader, he⟩ := List.mem_map.mp hmem
  exact ⟨draw, hd, header, List.mem_of_mem_filter hheader, he.trans hphantom⟩

/-- A course that comes to a target, in the middle of its run. -/
theorem holdsDraws_of_course
    (h : (handshake world.serde).Course anyTurn
      ⟨.live (execute world invocation), [], Host.start⟩ c)
    (hw : c.process.waiting = some ⟨.targetSpawn, x⟩) :
    ∃ configuration context policy, select world invocation = .ok (configuration, context, policy) ∧
      HoldsDraws policy x (draws c.trace) := by
  obtain ⟨hwithin, -⟩ := Host.Sound.course h
  obtain ⟨process, tr, s⟩ := c
  rcases process with (_ | _ | ⟨_, _, next⟩) | _ | _ <;> cases hw
  obtain ⟨t, r, hrun⟩ := hwithin.exists_runs_call sampleAnswers (Except.ok ())
  exact drawn_of_spawn hrun

end

/-- **Credentials do not cross.** Let two invocations, of any commands in any worlds, each come
to a target. Each target holds the draws of its own invocation. Whatever is requested of the
second proxy, in any interleaving and in any surroundings, a request that is sent on presents
a draw of the second invocation; so one whose phantoms are all of the first is sent on only
if the two invocations drew the same. -/
theorem phantoms_do_not_cross {world world' : World} {invocation invocation' : Invocation}
    {c c' : Snapshot Call.Arg Call.Ans Failure Exit Host} {command command' : Command}
    (hserde : world'.serde.Conforms) (hread : ReadsReadiness world'.readiness)
    (h : (handshake world.serde).Course anyTurn
      ⟨.live (execute world invocation), [], Host.start⟩ c)
    (hw : c.process.waiting = some ⟨.targetSpawn, command⟩)
    (h' : (handshake world'.serde).Course anyTurn
      ⟨.live (execute world' invocation'), [], Host.start⟩ c')
    (hw' : c'.process.waiting = some ⟨.targetSpawn, command'⟩) :
    ∃ configuration context policy configuration' context' policy' routes port,
      select world invocation = .ok (configuration, context, policy) ∧
      select world' invocation' = .ok (configuration', context', policy') ∧
      HoldsDraws policy command (draws c.trace) ∧ HoldsDraws policy' command' (draws c'.trace) ∧
      (∀ routes' bound, c'.outside.Binds routes' bound ↔ routes' = routes ∧ bound = .ok port) ∧
      ∀ (ι σ Λ : Type) [DecidableEq ι] (lib : ProxyLibraries) (request : ι → Request) (s₀ : σ)
        (w : ι → Surroundings ServeCall.Arg ServeCall.Ans σ Λ)
        (f : Fleet ι ServeCall.Arg ServeCall.Ans Empty Unit σ),
        Fleet.Course w (serve lib routes request s₀) f → ∀ i out ans,
          (⟨.contact, out, ans⟩ : ServeEvent) ∈ f.trace i →
          (∃ draw ∈ draws c'.trace, PresentsDraw (request i) draw) ∧
          ((∀ draw, PresentsDraw (request i) draw → draw ∈ draws c.trace) →
            ∃ draw ∈ draws c.trace, draw ∈ draws c'.trace) := by
  obtain ⟨configuration, context, policy, hs, hdrawn⟩ := holdsDraws_of_course h hw
  obtain ⟨configuration', context', policy', hs', hdrawn'⟩ := holdsDraws_of_course h' hw'
  obtain ⟨_, _, _, routes, port, hselect, hbinds, hstands⟩ := standsFor_of_spawn hserde hread h' hw'
  obtain ⟨rfl, rfl, rfl⟩ : _ ∧ _ ∧ _ := by simpa using Except.ok.inj (hs'.symm.trans hselect)
  refine ⟨configuration, context, policy, configuration', context', policy', routes, port, hs, hs',
    hdrawn, hdrawn', hbinds, ?_⟩
  intro ι σ Λ _ lib request s₀ w f hf i out ans hm
  obtain ⟨tr, hx, hpre⟩ := exists_exchange hf i
  obtain ⟨route, ha, -⟩ := hx.accepted (hpre.subset hm)
  obtain ⟨draw, hd, hpresents⟩ :=
    presentsDraw_of_accepted (hstands fun _ => none) hdrawn' ha
  exact ⟨⟨draw, hd, hpresents⟩, fun hown => ⟨draw, hown draw hpresents, hd⟩⟩

/-! ### Two invocations and two requests -/

/-- Two requests, with the phantoms of two invocations. -/
def crossRequests (i : Bool) : Request :=
  requestShowing (Phantom.generate (sampleBytes i 32)).value

/-- Each presents one draw. -/
theorem presentsDraw_crossRequests {i : Bool} {draw : Vector UInt8 entropyBytes} :
    PresentsDraw (crossRequests i) draw ↔ draw = sampleBytes i 32 := by
  constructor
  · rintro ⟨header, hmem, heq⟩
    obtain rfl := List.mem_singleton.mp hmem
    exact (Phantom.generate_injective (congrArg Phantom.mk heq)).symm
  · rintro rfl
    exact ⟨_, List.mem_singleton_self _, rfl⟩

/-- An invocation of the sample has one draw. -/
theorem draws_readinessWorld {i : Bool} {c : Snapshot Call.Arg Call.Ans Failure Exit Host}
    {command : Command} (hm : ⟨.entropy 32, (), .ok (sampleBytes i 32)⟩ ∈ c.trace)
    (h : HoldsDraws samplePolicy command (draws c.trace)) :
    draws c.trace = [sampleBytes i 32] := by
  have hdraw : sampleBytes i 32 ∈ draws c.trace := List.mem_filterMap.mpr ⟨_, hm, rfl⟩
  obtain ⟨draw, l, -, hnil, hl⟩ := List.forall₂_cons_left_iff.mp (h fun _ => none)
  obtain rfl := List.forall₂_nil_left_iff.mp hnil
  rw [hl] at hdraw ⊢
  rw [List.mem_singleton.mp hdraw]

/-- The request with the phantom of an invocation is sent on by the proxy of that invocation. -/
theorem sent_crossRequests {i : Bool} {c : Snapshot Call.Arg Call.Ans Failure Exit Host}
    {command : Command} {routes : List ProxyRoute} {port : UInt16}
    (h : (handshake readinessWorld.serde).Course anyTurn
      ⟨.live (execute readinessWorld sampleInvocation), [], Host.start⟩ c)
    (hw : c.process.waiting = some ⟨.targetSpawn, command⟩)
    (hd : HoldsDraws samplePolicy command [sampleBytes i 32])
    (hb : c.outside.Binds routes (.ok port))
    {f : Fleet Bool ServeCall.Arg ServeCall.Ans Empty Unit Unit}
    (hf : Fleet.Course (fun _ => lenientSurroundings)
      (serve lenientLibraries routes crossRequests ()) f)
    {r : Except Empty Unit} (hr : f.process i = .ended r) :
    ∃ out ans, (⟨.contact, out, ans⟩ : ServeEvent) ∈ f.trace i := by
  obtain ⟨_, _, policy, routes', port', hs, hbinds, hstands⟩ :=
    standsFor_of_spawn SerdeJson.reference_conforms readsReadiness_reference h hw
  obtain ⟨-, -, rfl⟩ : _ ∧ _ ∧ samplePolicy = policy := by
    simpa using Except.ok.inj (select_readinessWorld.symm.trans hs)
  obtain ⟨rfl, -⟩ := (hbinds routes (.ok port)).mp hb
  obtain ⟨draw, l, hshown, -, hl⟩ := List.forall₂_cons_left_iff.mp (hd fun _ => none)
  obtain ⟨rfl, -⟩ := List.cons.inj hl
  obtain ⟨spec, hentitled⟩ := entitled_requestShowing hshown
  obtain ⟨route, -, -, haccepted⟩ :=
    accepted_of_entitled lenientLibraries.http (hstands _) hentitled
  obtain ⟨ans, hcontact⟩ := (exchange_of_ended hf hr).2.sent (haccepted rfl rfl)
  exact ⟨_, ans, hcontact⟩

/-- Two invocations with different draws: at the proxy of the second, the request that has its
phantom is sent on, and the one that has the phantom of the first is not. -/
theorem phantoms_do_not_cross_sample : ∃ c c' command command' routes port f,
    (handshake readinessWorld.serde).Course anyTurn
        ⟨.live (execute readinessWorld sampleInvocation), [], Host.start⟩ c ∧
      c.process.waiting = some ⟨.targetSpawn, command⟩ ∧
      (handshake readinessWorld.serde).Course anyTurn
        ⟨.live (execute readinessWorld sampleInvocation), [], Host.start⟩ c' ∧
      c'.process.waiting = some ⟨.targetSpawn, command'⟩ ∧
      (∀ routes' bound, c'.outside.Binds routes' bound ↔ routes' = routes ∧ bound = .ok port) ∧
      Fleet.Course (fun _ : Bool => lenientSurroundings)
        (serve lenientLibraries routes crossRequests ()) f ∧
      (∀ i, ∃ r, f.process i = .ended r) ∧
      (∃ out ans, (⟨.contact, out, ans⟩ : ServeEvent) ∈ f.trace true) ∧
      ∀ out ans, (⟨.contact, out, ans⟩ : ServeEvent) ∉ f.trace false := by
  obtain ⟨c, command, h, hw, hm⟩ := course_readinessWorld false
  obtain ⟨c', command', h', hw', hm'⟩ := course_readinessWorld true
  obtain ⟨_, _, policy, _, _, policy', routes, port, hselect, hselect', hdrawn, hdrawn', hbinds,
    hserved⟩ :=
      phantoms_do_not_cross SerdeJson.reference_conforms readsReadiness_reference h hw h' hw'
  obtain ⟨-, -, rfl⟩ : _ ∧ _ ∧ samplePolicy = policy := by
    simpa using Except.ok.inj (select_readinessWorld.symm.trans hselect)
  obtain ⟨-, -, rfl⟩ : _ ∧ _ ∧ samplePolicy = policy' := by
    simpa using Except.ok.inj (select_readinessWorld.symm.trans hselect')
  have hd := draws_readinessWorld hm hdrawn
  have hd' := draws_readinessWorld hm' hdrawn'
  obtain ⟨f, hf, hover⟩ := course_lenient lenientLibraries routes crossRequests
  refine ⟨c, c', command, command', routes, port, f, h, hw, h', hw', hbinds, hf, hover, ?_, ?_⟩
  · obtain ⟨r, hr⟩ := hover true
    exact sent_crossRequests h' hw' (hd' ▸ hdrawn') ((hbinds _ _).mpr ⟨rfl, rfl⟩) hf hr
  · intro out ans hcontact
    obtain ⟨-, hcross⟩ := hserved Bool Unit Empty lenientLibraries crossRequests () _ f hf false out
      ans hcontact
    obtain ⟨draw, hmem, hmem'⟩ := hcross fun draw hp => by
      rw [hd, presentsDraw_crossRequests.mp hp]
      exact List.mem_singleton_self _
    rw [hd] at hmem
    rw [hd'] at hmem'
    obtain rfl := List.mem_singleton.mp hmem
    exact absurd (List.mem_singleton.mp hmem') (by decide)

end Iwaya
