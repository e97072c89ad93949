import Iwaya.Execute.Handshake

/-!
# Who agrees on what

In every course of the handshake, the supervisor that starts a target and the proxy beside
it agree on the routes and on the port, and a proxy that serves nothing reports nothing
(`Iwaya.handshake_agreement`). A transfer cut short is no transfer and a port cut short is no
port, which is all that the invariant has to be read for.

Nor is this an agreement on nothing: whatever the supervisor would deliver, there is a
course in which the proxy takes it and its port comes back (`Iwaya.handshake_completes`).
-/

namespace Iwaya

open Text Effects Trace

/-! ### The agreement -/

/-- **The two agree**, whatever happened to either of them. -/
structure Agreement (world : World) (invocation : Invocation)
    (c : Snapshot Call.Arg Call.Ans Failure Exit Host) : Prop where
  /-- When the supervisor starts the target, it has delivered the routes of what it
  provisioned, the proxy has bound its listener for these routes, and no other, and the
  target is told the port of that listener, in every base URL it is told. -/
  started : ∀ command, c.process.waiting = some ⟨.targetSpawn, command⟩ →
    ∃ configuration context policy resolved provisioned port,
      select world invocation = .ok (configuration, context, policy) ∧
      List.Forall₂ (ProvisionedFor resolved) policy.proxySecrets provisioned ∧
      (⟨.transferWrite, (intoTransfer world.serde provisioned).1, .ok ()⟩ : Effect) ∈ c.trace ∧
      (∀ routes bound, c.outside.Binds routes bound ↔
        routes = provisioned.map ProvisionedProxySecret.proxyRoute ∧ bound = .ok port) ∧
      ∀ spec ∈ policy.proxySecrets, ∀ inherited,
        command.environment inherited spec.baseUrlEnv = some (loopbackUrl port)
  /-- When it is replaced by the target, there is no base URL to tell. -/
  replaced : ∀ command, c.process.waiting = some ⟨.targetExec, command⟩ →
    ∃ configuration context policy,
      select world invocation = .ok (configuration, context, policy) ∧ policy.proxySecrets = []
  /-- A proxy that refuses what it read writes nothing. -/
  refused : ∀ e, readTransfer world.serde c.outside.link.down.taken = .error e →
    c.outside.link.up.sent = []
  /-- Nor does one without a listener. -/
  unbound : ∀ routes e, c.outside.Binds routes (.error e) → c.outside.link.up.sent = []
  /-- What it does write is the port of its listener, or the beginning of the line with it. -/
  reported : c.outside.link.up.sent ≠ [] → ∃ routes port,
    readTransfer world.serde c.outside.link.down.taken = .ok routes ∧
      c.outside.Binds routes (.ok port) ∧ c.outside.link.up.sent <+: utf8 (readinessLine port)
  /-- And no beginning of that line is taken for another port. -/
  cut : ∀ port bytes p, bytes <+: utf8 (readinessLine port) →
    portOf world.readiness (.ok bytes) = .ok p → p = port

section

variable {world : World} {invocation : Invocation} {serde : SerdeJson} {s : Host}
  {c : Snapshot Call.Arg Call.Ans Failure Exit Host}

/-- A proxy asks for its listener once. -/
theorem Proxy.Sound.binds_unique (h : s.proxy.Sound serde s.link)
    {routes routes' : List ProxyRoute} {bound bound' : Except Str UInt16}
    (hb : s.Binds routes bound) (hb' : s.Binds routes' bound') :
    routes' = routes ∧ bound' = bound := by
  obtain ⟨process, calls, hp, hm⟩ := hb
  obtain ⟨process', calls', hp', hm'⟩ := hb'
  obtain ⟨rfl, rfl⟩ := Proxy.mode.inj (hp.symm.trans hp')
  rw [hp] at h
  obtain ⟨t, r, hrun⟩ := h.1.exists_runs anyAnswers
  have hsole : ∀ routes bound,
      (⟨.bindLoopback, routes, bound⟩ : Event ProxyCall.Arg ProxyCall.Ans) ∈ calls ++ t →
      ∃ rest, calls ++ t = ⟨.bindLoopback, routes, bound⟩ :: rest := by
    intro routes bound hm
    rcases runProxyMode_cases hrun with h0 | ⟨_, _, rest, -, hcalls, hrest⟩
    · rw [h0] at hm
      cases hm
    rw [hcalls] at hm ⊢
    rcases List.mem_cons.mp hm with hm | hm
    · exact ⟨rest, by rw [hm]⟩
    · rcases hrest with rfl | ⟨_, _, flush, -, rfl, hflush⟩
      · cases hm
      · rcases List.mem_cons.mp hm with hm | hm
        · cases hm
        · cases hflush _ hm
  obtain ⟨rest, hcalls⟩ := hsole _ _ (List.mem_append_left t hm)
  obtain ⟨rest', hcalls'⟩ := hsole _ _ (List.mem_append_left t hm')
  have hhead := Event.mk.inj (List.cons.inj (hcalls'.symm.trans hcalls)).1
  exact ⟨eq_of_heq hhead.2.1, eq_of_heq hhead.2.2⟩

/-- **What was written by the proxy**, and what it was written from. -/
theorem Proxy.Sound.reported (h : s.proxy.Sound serde s.link) (hne : s.link.up.sent ≠ []) :
    ∃ routes port, readTransfer serde s.link.down.taken = .ok routes ∧
      s.Binds routes (.ok port) ∧ s.link.up.sent <+: utf8 (readinessLine port) := by
  rcases hp : s.proxy with _ | _ | ⟨process, calls⟩ <;> rw [hp] at h
  · exact absurd h.1 hne
  · exact absurd h.1 hne
  · obtain ⟨routes, port, hread, hmem, hprefix⟩ := h.2.2 hne
    exact ⟨routes, port, hread, ⟨process, calls, hp, hmem⟩, hprefix⟩

/-- From its client's start on, what is in the pipe is what was written since. -/
theorem sent_of_spawned {pre d : List Effect} {e : Effect} {w : Option (Waiting Call.Arg)}
    {sent : List UInt8} {n : ℕ} (hpre : ∀ x ∈ pre, ¬Transfers x) (he : SidecarSpawned e)
    (hd : AllWritten deliveryBytes (fun e => e.kind.wrote e.ans) d)
    (h : Feeds deliveryBytes (fun e => e.kind.wrote e.ans) (pre ++ e :: d) w sent n) :
    sent = written deliveryBytes d ++ (waitingBytes deliveryBytes w).take n := by
  obtain ⟨command, rfl⟩ := he
  have hnil : ∀ x ∈ pre, deliveryBytes x.kind x.arg = [] :=
    fun x hx => deliveryBytes_of_not_transfers (hpre x hx)
  have hall : AllWritten deliveryBytes (fun e => e.kind.wrote e.ans)
      (pre ++ ⟨.sidecarRun, command, .ok ()⟩ :: d) := by
    intro x hx hne
    rcases List.mem_append.mp hx with hx | hx
    · exact absurd (hnil x hx) hne
    · rcases List.mem_cons.mp hx with rfl | hx
      · exact absurd rfl hne
      · exact hd x hx hne
  have hpre' : written deliveryBytes pre = [] := List.flatMap_eq_nil_iff.mpr hnil
  rw [h.sent_eq hall, written_append, hpre']
  rfl

/-- A startup that went well has delivered its line. -/
theorem sent_of_startup {pre : List Effect} {e : Effect} {transfer : Str} {bytes : List UInt8}
    {w : Option (Waiting Call.Arg)} {sent : List UInt8} {n : ℕ} (hpre : ∀ x ∈ pre, ¬Transfers x)
    (he : SidecarSpawned e) (hw : waitingBytes deliveryBytes w = [])
    (h : Feeds deliveryBytes (fun e => e.kind.wrote e.ans)
      (pre ++ e :: (startup transfer (.ok bytes) ++ signalsCaught)) w sent n) :
    sent = utf8 transfer ++ [10] := by
  have hall : AllWritten deliveryBytes (fun e => e.kind.wrote e.ans)
      (startup transfer (.ok bytes) ++ signalsCaught) := by
    intro x hx hne
    simp only [startup, signalsCaught, List.cons_append, List.nil_append, List.mem_cons,
      List.not_mem_nil, or_false] at hx
    rcases hx with rfl | rfl | rfl | rfl | rfl | rfl <;> first | rfl | exact absurd rfl hne
  rw [sent_of_spawned hpre he hall h, hw, List.take_nil, List.append_nil]
  simp [written, startup, signalsCaught, deliveryBytes]

end

/-! ### A handshake that succeeds -/

section

variable {world : World} {invocation : Invocation} {serde : SerdeJson} {link link' : Link}
  {c₀ : Snapshot Call.Arg Call.Ans Failure Exit Host} {tr pre rest : List Effect} {e : Effect}
  {r : Except Failure Exit}
  {process process' : Process ProxyCall.Arg ProxyCall.Ans ProxyModeError (List ProxyRoute × UInt16)}
  {calls calls' : List (Event ProxyCall.Arg ProxyCall.Ans)}

/-- While the supervisor waits in a call, the proxy goes on. -/
theorem reaches_serves
    (h : (handshake serde).Reaches c₀ tr ⟨link, .mode process calls⟩ (e :: rest) r)
    (hp : proxySide.Course anyTurn ⟨process, calls, link⟩ ⟨process', calls', link'⟩) :
    (handshake serde).Reaches c₀ tr ⟨link', .mode process' calls'⟩ (e :: rest) r := by
  suffices hall : ∀ p : Snapshot ProxyCall.Arg ProxyCall.Ans ProxyModeError
      (List ProxyRoute × UInt16) Link,
      proxySide.Course anyTurn ⟨process, calls, link⟩ p →
      (handshake serde).Reaches c₀ tr ⟨p.outside, .mode p.process p.trace⟩ (e :: rest) r from
    hall _ hp
  intro p hp
  induction hp with
  | refl => exact h
  | tail _ hstep ih =>
    obtain ⟨t, ht, -⟩ := hstep
    exact ih.move (.goes rfl ht)

/-- A proxy that can read its transfer and bind reports its port. -/
theorem reaches_reports {input : List UInt8} {routes : List ProxyRoute}
    (h : (handshake serde).Reaches c₀ tr ⟨link, .mode (.live (runProxyMode serde input)) []⟩
      (e :: rest) r) (port : UInt16) (hroutes : readTransfer serde input = .ok routes)
    (hup : link.up.closed = false) (hreported : link.reported = 0) :
    ∃ process, (handshake serde).Reaches c₀ tr
      ⟨{ link with up := link.up.put (utf8 (readinessLine port)) hup },
        .mode process [⟨.bindLoopback, routes, Except.ok port⟩,
          ⟨.writeReadiness, readinessLine port, Except.ok ()⟩]⟩ (e :: rest) r := by
  obtain ⟨down, up, delivered, _⟩ := link
  obtain rfl : _ = 0 := hreported
  have hrun : Runs (runProxyMode serde input) [⟨.bindLoopback, routes, Except.ok port⟩,
      ⟨.writeReadiness, readinessLine port, Except.ok ()⟩, ⟨.flushReadiness, (), Except.ok ()⟩]
      (.ok (routes, port)) := by
    rw [runProxyMode, hroutes]
    exact .call _ (.call _ (.call _ (.done _)))
  have h0 : proxySide.Reaches ⟨.live (runProxyMode serde input), [], ⟨down, up, delivered, 0⟩⟩ []
      ⟨down, up, delivered, 0⟩ _ _ := ⟨_, .refl, hrun⟩
  -- the whole line in one piece
  have hpiece : (utf8 (readinessLine port)).drop 0 = utf8 (readinessLine port) ++ [] := by simp
  have h1 := (h0.answer .binds).move (.mk rfl hpiece hup)
  obtain ⟨q, hq, -⟩ := h1.answer (.writes fun _ => Nat.zero_add _)
  exact ⟨_, reaches_serves h hq⟩

/-- A write of the supervisor goes through, in one piece. -/
theorem reaches_delivers {q : Proxy} (h : (handshake serde).Reaches c₀ tr ⟨link, q⟩ (e :: rest) r)
    (hk : e.kind = .transferWrite ∨ e.kind = .newlineWrite) (hdelivered : link.delivered = 0)
    (hdown : link.down.closed = false) :
    (handshake serde).Reaches c₀ (tr ++ [e])
      ⟨{ link with down := link.down.put (deliveryBytes e.kind e.arg) hdown }, q⟩ rest r := by
  obtain ⟨down, up, _, reported⟩ := link
  obtain rfl : _ = 0 := hdelivered
  have hpiece : (waitingBytes deliveryBytes (some ⟨e.kind, e.arg⟩)).drop 0 =
      deliveryBytes e.kind e.arg ++ [] := by
    rw [List.drop_zero, List.append_nil]
    rfl
  exact (h.move (.delivers hpiece hdown)).answer (.writes hk fun _ => Nat.zero_add _)

/-- The startup of a run, with a proxy that accepts the transfer and has this port. -/
theorem reaches_startup {transfer : Str} {routes : List ProxyRoute} {port : UInt16}
    (hrun : Runs (execute world invocation) (pre ++ e ::
      (startup transfer (.ok (utf8 (readinessLine port))) ++ rest)) r)
    (he : SidecarSpawned e) (hroutes : readTransfer serde (utf8 transfer ++ [10]) = .ok routes) :
    ∃ s, (handshake serde).Reaches ⟨.live (execute world invocation), [], Host.start⟩
      (pre ++ e :: startup transfer (.ok (utf8 (readinessLine port)))) s rest r := by
  have hpre := apart_before hrun he
  obtain ⟨command, rfl⟩ := he
  have h0 : (handshake serde).Reaches ⟨.live (execute world invocation), [], Host.start⟩ []
      Host.start _ r := ⟨_, .refl, hrun⟩
  -- the sidecar is started, and both lines are delivered
  have h1 := (h0.answers fun x hx => .other (hpre x hx).1 (hpre x hx).2).answer .starts
  have h2 := reaches_delivers h1 (Or.inl rfl) rfl rfl
  have h3 := (reaches_delivers h2 (Or.inr rfl) rfl rfl).answer .closes
  -- the proxy takes all of it, and serves
  have hall : [] ++ utf8 transfer ++ [10] = (utf8 transfer ++ [10]) ++ ([] : List UInt8) := by simp
  have h4 := h3.move (.takes rfl (List.not_mem_nil) hall)
  have hten : 10 ∈ [] ++ (utf8 transfer ++ [10]) := by simp
  have h5 := h4.move (.begins rfl (Or.inl hten))
  obtain ⟨process, h6⟩ := reaches_reports h5 port hroutes rfl rfl
  -- and the supervisor takes all of the report
  have hline : [] ++ utf8 (readinessLine port) = utf8 (readinessLine port) ++ [] := by simp
  have hten' : 10 ∈ [] ++ utf8 (readinessLine port) := by
    rw [readinessLine_eq, utf8_append]
    exact List.mem_append_right [] (List.mem_append_right _ (by decide))
  have h7 := (h6.move (.hears rfl (List.not_mem_nil) (length_readinessLine_le port) hline)).answer
    (.reads (Or.inl hten'))
  exact ⟨_, by simpa [startup] using h7⟩

/-- **Every start of a target is possible.** Where a run of the supervisor starts a target
after a readiness line, there is a course to that point, in which the proxy wrote this
line. -/
theorem handshake_completes {A B : List Effect} {x : Command} {ans : Except IoError Unit}
    {port : UInt16} (hserde : world.serde.Conforms)
    (hrun : Runs (execute world invocation) (A ++ ⟨.targetSpawn, x, ans⟩ :: B) r)
    (hline : (⟨.readinessRead, (), .ok (utf8 (readinessLine port))⟩ : Effect) ∈ A) :
    ∃ q s, (handshake world.serde).Course anyTurn
      ⟨.live (execute world invocation), [], Host.start⟩ ⟨q, A, s⟩ ∧
      q.waiting = some ⟨.targetSpawn, x⟩ := by
  obtain ⟨configuration, context, policy, resolved, provisioned, read, port', pre, e, hselect, -,
    hprov, rfl, he, -, -⟩ := spawn_execute hrun
  -- there is one report, and it is this line
  obtain rfl : .ok (utf8 (readinessLine port)) = read := by
    rw [List.append_assoc] at hrun
    rcases List.mem_append.mp hline with hm | hm
    · exact absurd rfl (apart_before hrun he _ hm).1
    · obtain ⟨command, rfl⟩ := he
      simpa [startup, signalsCaught] using hm
  -- the transfer is one that is accepted
  have hne : provisioned ≠ [] := by
    rintro rfl
    rcases direct_execute hrun hselect (List.forall₂_nil_right_iff.mp hprov)
      ⟨.targetSpawn, x, ans⟩ (by simp) with hk | hk <;> cases hk
  have hup : ∀ secret ∈ provisioned, isHttpOrigin secret.upstream = true := by
    intro secret hsecret
    obtain ⟨spec, hspec, _, _, -, rfl⟩ := exists_of_forall₂ hprov.flip hsecret
    obtain ⟨hvalid, -, hpolicy⟩ := valid_of_select hselect
    exact ((hvalid.policy policy hpolicy).proxySecret spec hspec).upstream
  have hroutes := readTransfer_line hserde hne hup (Or.inr ⟨[], rfl⟩)
  rw [List.append_assoc, List.cons_append, List.append_assoc] at hrun
  obtain ⟨s, hs⟩ := reaches_startup hrun he hroutes
  have hcaught := hs.answers fun y hy => (by
    obtain rfl := List.mem_singleton.mp hy
    exact .other (by simp [Transfers, Call.stage]) (by simp [SidecarSpawned]))
  obtain ⟨q, hq, hw⟩ := hcaught.waiting
  exact ⟨q, s, by simpa using hq, hw⟩

end

/-! ### One handshake -/

theorem readinessReference_sample : readinessReference =
    fun line => if line = sampleReadiness then some 34567 else readinessReference line := by
  funext line
  split
  next h =>
    have hobject : line = readinessObject 34567 := by rw [h]; decide
    rw [hobject, readsReadiness_reference.reads]
  next => rfl

/-- The sample world, with a reader of readiness lines. -/
def readinessWorld : World := { sampleWorld with readiness := readinessReference }

theorem select_readinessWorld : select readinessWorld sampleInvocation =
    .ok (sampleConfig, sampleContext, samplePolicy) := by
  have hload : load readinessWorld.kdlParse readinessWorld.configPath
      readinessWorld.configFile = .ok sampleConfig :=
    load_of_parse parse_sample
  rw [select, hload]
  rfl

/-- The sample answers, but for the draws. -/
def drawingAnswers (i : Bool) : Env Call.Ans
  | _, .entropy n => .ok (sampleBytes i n)
  | n, k => sampleAnswers n k

/-- Three of the calls of its supervisor. -/
theorem kinds_readinessWorld (i : Bool) :
    ((exec (drawingAnswers i) 0 (execute readinessWorld sampleInvocation)).1.map
        Event.kind)[3]? = some (.entropy 32) ∧
      ((exec (drawingAnswers i) 0 (execute readinessWorld sampleInvocation)).1.map
        Event.kind)[12]? = some .readinessRead ∧
      ((exec (drawingAnswers i) 0 (execute readinessWorld sampleInvocation)).1.map
        Event.kind)[14]? = some .targetSpawn := by
  rw [execute_eq select_readinessWorld, readinessWorld, readinessReference_sample]
  cases i
  · exact ⟨rfl, rfl, rfl⟩
  · exact ⟨rfl, rfl, rfl⟩

/-- The port is reported, and the target started after it. -/
theorem exec_readinessWorld (i : Bool) :
    (exec (drawingAnswers i) 0 (execute readinessWorld sampleInvocation)).1[3]? =
        some ⟨.entropy 32, (), .ok (sampleBytes i 32)⟩ ∧
      (exec (drawingAnswers i) 0 (execute readinessWorld sampleInvocation)).1[12]? =
        some ⟨.readinessRead, (), .ok (utf8 (readinessLine 34567))⟩ ∧
      ∃ x, (exec (drawingAnswers i) 0 (execute readinessWorld sampleInvocation)).1[14]? =
        some ⟨.targetSpawn, x, .ok ()⟩ := by
  obtain ⟨hdraw, hread, hspawn⟩ := kinds_readinessWorld i
  rw [List.getElem?_map, Option.map_eq_some_iff] at hdraw hread hspawn
  -- what is answered at a place is what the environment answers there
  obtain ⟨⟨k, z, ans⟩, hdraw, hk⟩ := hdraw
  obtain rfl : k = .entropy 32 := hk
  obtain rfl : ans = .ok (sampleBytes i 32) := ans_of_exec hdraw
  obtain ⟨⟨k, x, ans⟩, hread, hk⟩ := hread
  obtain rfl : k = .readinessRead := hk
  obtain rfl : ans = .ok (utf8 (readinessLine 34567)) := ans_of_exec hread
  obtain ⟨⟨k, y, ans⟩, hspawn, hk⟩ := hspawn
  obtain rfl : k = .targetSpawn := hk
  obtain rfl : ans = .ok () := ans_of_exec hspawn
  exact ⟨hdraw, hread, y, hspawn⟩

/-! ### Every handshake -/

section

variable {world : World} {invocation : Invocation}
  {c : Snapshot Call.Arg Call.Ans Failure Exit Host}

/-- **The startup handshake.** In any order of events – pieces of any size in both pipes,
writes that fail half-way, streams that end early, and either process gone at any moment –
the supervisor that starts a target and the proxy beside it agree. -/
theorem handshake_agreement (hserde : world.serde.Conforms)
    (hread : ReadsReadiness world.readiness)
    (h : (handshake world.serde).Course anyTurn
      ⟨.live (execute world invocation), [], Host.start⟩ c) :
    Agreement world invocation c := by
  obtain ⟨hwithin, hs⟩ := Host.Sound.course h
  refine ⟨fun command hw => ?_, fun command hw => ?_, fun e he => ?_, fun routes e hb => ?_,
    hs.proxy.reported, fun port bytes p => port_of_prefix hread⟩
  · obtain ⟨process, tr, s⟩ := c
    rcases process with (_ | _ | ⟨_, _, next⟩) | _ | _ <;> cases hw
    obtain ⟨t, r, hrun⟩ := hwithin.exists_runs_call sampleAnswers (Except.ok ())
    obtain ⟨configuration, context, policy, resolved, provisioned, read, port, pre, e, hselect,
      hvalues, hprov, rfl, he, hport, rfl⟩ := spawn_execute hrun
    obtain ⟨bytes, rfl⟩ : ∃ bytes, read = .ok bytes := by
      cases read with
      | error e => cases hport
      | ok bytes => exact ⟨bytes, rfl⟩
    -- all of the transfer went in, and a port came back
    have hbefore : ∀ x ∈ pre, ¬Transfers x := by
      rw [List.append_assoc] at hrun
      exact fun x hx => (apart_before hrun he x hx).1
    have hsent := sent_of_startup hbefore he rfl (hs.down _ rfl)
    have hbytes : bytes <+: s.link.up.sent := hs.reads bytes (by simp [startup])
    have hne : s.link.up.sent ≠ [] := fun hnil =>
      ne_nil_of_portOf hport (List.prefix_nil.mp (hnil ▸ hbytes))
    obtain ⟨routes, port', hroutes, hbinds, hline⟩ := hs.proxy.reported hne
    -- so the proxy took the whole transfer, and its port is the one that was read
    obtain rfl := routes_of_prefix hserde (hsent ▸ s.link.down.taken_prefix) hroutes
    obtain rfl := port_of_prefix hread (hbytes.trans hline) hport
    refine ⟨configuration, context, policy, resolved, provisioned, port, hselect, hprov,
      by simp [startup], fun routes bound => ⟨hs.proxy.binds_unique hbinds, ?_⟩,
      fun spec hspec inherited => ?_⟩
    · rintro ⟨rfl, rfl⟩
      exact hbinds
    · have hnd := ((valid_of_select hselect).1.policy policy (valid_of_select hselect).2.2).nodup
      have hdelivered := delivered_settings hnd hvalues hprov port inherited
      obtain ⟨_, -, -, hurl⟩ := exists_of_forall₂ hdelivered.proxySecret hspec
      exact hurl
  · obtain ⟨process, tr, s⟩ := c
    rcases process with (_ | _ | ⟨_, _, next⟩) | _ | _ <;> cases hw
    obtain ⟨t, r, hrun⟩ := hwithin.exists_runs_call sampleAnswers none
    have hin := execute_inOrder hrun
    have hstart : StartsTarget (⟨.targetExec, command, none⟩ : Effect) := Or.inr rfl
    obtain ⟨configuration, context, policy, _, _, _, hselect, -⟩ := hin.resolved _ _ _ rfl hstart
    refine ⟨configuration, context, policy, hselect, by_contra fun hne => ?_⟩
    cases (hin.supervised _ _ _ hselect hne _ _ _ rfl hstart).1
  · by_contra hne
    obtain ⟨routes, port, hroutes, -⟩ := hs.proxy.reported hne
    cases he.symm.trans hroutes
  · by_contra hne
    obtain ⟨routes', port, -, hbinds, -⟩ := hs.proxy.reported hne
    cases (hs.proxy.binds_unique hbinds hb).2

end

/-- A course of the handshake that comes to a target, with any draws. -/
theorem course_readinessWorld (i : Bool) : ∃ c command,
    (handshake readinessWorld.serde).Course anyTurn
      ⟨.live (execute readinessWorld sampleInvocation), [], Host.start⟩ c ∧
    c.process.waiting = some ⟨.targetSpawn, command⟩ ∧
    ⟨.entropy 32, (), .ok (sampleBytes i 32)⟩ ∈ c.trace := by
  obtain ⟨hdraw, hread, x, hspawn⟩ := exec_readinessWorld i
  have hrun := runs_exec (drawingAnswers i) 0 (execute readinessWorld sampleInvocation)
  generalize (exec (drawingAnswers i) 0 (execute readinessWorld sampleInvocation)).1 = tr
    at hdraw hread hspawn hrun
  have htake : ∀ {n : ℕ} {e : Effect}, tr[n]? = some e → n < 14 → e ∈ tr.take 14 :=
    fun h hn => List.mem_of_getElem? ((List.getElem?_take_of_lt hn).trans h)
  rw [eq_append_of_getElem? hspawn] at hrun
  obtain ⟨q, s, hcourse, hw⟩ := handshake_completes SerdeJson.reference_conforms hrun
    (htake hread (by decide))
  exact ⟨_, x, hcourse, hw, htake hdraw (by decide)⟩

/-- The handshake of the sample comes to a target that is told the port. -/
theorem handshake_agreement_sample : ∃ c command, (handshake readinessWorld.serde).Course anyTurn
      ⟨.live (execute readinessWorld sampleInvocation), [], Host.start⟩ c ∧
    c.process.waiting = some ⟨.targetSpawn, command⟩ ∧
    Agreement readinessWorld sampleInvocation c := by
  obtain ⟨c, command, hcourse, hw, -⟩ := course_readinessWorld false
  exact ⟨c, command, hcourse, hw,
    handshake_agreement SerdeJson.reference_conforms readsReadiness_reference hcourse⟩

end Iwaya
