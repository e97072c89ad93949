import Iwaya.Execute.Agreement
import Iwaya.Execute.Sequel
import Iwaya.Foundation.Progress

/-!
# Waiting for readiness

While the supervisor waits for the readiness line, each of the two processes may be waiting
for the other: the proxy for the rest of its line, the supervisor for what the proxy reports.
They never wait for each other for ever. The supervisor waits only once its line is
delivered with its newline, and the newline is all the proxy waits for, whether the pipe is
closed or not; from then on the proxy only does what it does by itself
(`Iwaya.startup_unstuck`).

What carries this is that nothing of the line is lost as long as the supervisor is there, and
that a proxy which serves has written its report (`Iwaya.Host.Kept`).
-/

namespace Iwaya

open Text Effects Trace Relation

/-! ### Nothing goes wrong -/

/-- The call did what it was made for. -/
def ProxyCall.succeeded : (k : ProxyCall) → k.Ans → Prop
  | bindLoopback, ans => ∃ port, ans = Except.ok port
  | writeReadiness, ans => ans = Except.ok ()
  | flushReadiness, ans => ans = Except.ok ()

/-- **Nothing has gone wrong on the side of the proxy**: what it writes arrives, and no call
of it has failed. -/
structure Host.Undisturbed (s : Host) : Prop where
  report : s.link.up.closed = false
  calls : ∀ process calls, s.proxy = .mode process calls →
    ∀ e ∈ calls, e.kind.succeeded e.ans

/-! ### What is kept -/

/-- **What is so of a proxy**: it is gone only with its pipe; it does not begin before it has
its line; and one that has come to serve has reported its port. -/
def Proxy.Kept (link : Link) : Proxy → Prop
  | absent | reading => True
  | mode process _ =>
    (process = .killed → link.up.closed = true) ∧
      (process ≠ .killed → 10 ∈ link.down.taken ∨ link.down.AtEnd) ∧
      ∀ routes port, process = .ended (.ok (routes, port)) →
        link.up.sent = utf8 (readinessLine port)

/-- **The invariant**: nothing of the line is lost while the supervisor is there, and where
the client of a sidecar was started there is a proxy. -/
structure Host.Kept (c : Snapshot Call.Arg Call.Ans Failure Exit Host) : Prop where
  whole : ∀ p, c.process = .live p → c.outside.link.down.Unbroken
  there : (∃ e ∈ c.trace, SidecarSpawned e) → c.outside.proxy ≠ .absent
  proxy : c.outside.proxy.Kept c.outside.link

section

variable {serde : SerdeJson} {world : World} {invocation : Invocation} {s s' : Host}
  {link link' : Link} {e : Effect} {tr : List Effect} {input : List UInt8}
  {routes : List ProxyRoute} {calls calls' : List (Event ProxyCall.Arg ProxyCall.Ans)}
  {process process' : Process ProxyCall.Arg ProxyCall.Ans ProxyModeError (List ProxyRoute × UInt16)}
  {t : Turn ProxyCall.Arg ProxyCall.Ans Unit}

/-- A proxy whose calls succeed comes to serve. -/
theorem runProxyMode_succeeded {r : Except ProxyModeError (List ProxyRoute × UInt16)}
    (h : Runs (runProxyMode serde input) calls r) (hroutes : readTransfer serde input = .ok routes)
    (hcalls : ∀ e ∈ calls, e.kind.succeeded e.ans) :
    ∃ port, r = .ok (routes, port) ∧ calls = [⟨.bindLoopback, routes, Except.ok port⟩,
      ⟨.writeReadiness, readinessLine port, Except.ok ()⟩,
      ⟨.flushReadiness, (), Except.ok ()⟩] := by
  cases begun_of_runs h with
  | refused he => cases hroutes.symm.trans he
  | unbound _ =>
    obtain ⟨port, hbound⟩ := hcalls _ List.mem_cons_self
    cases hbound
  | @unwritten _ _ source _ =>
    have hwritten : Except.error source = Except.ok () :=
      hcalls _ (List.mem_cons_of_mem _ List.mem_cons_self)
    cases hwritten
  | @unflushed _ _ source _ =>
    have hflushed : Except.error source = Except.ok () :=
      hcalls _ (List.mem_cons_of_mem _ (List.mem_cons_of_mem _ List.mem_cons_self))
    cases hflushed
  | serves hr =>
    obtain rfl := Except.ok.inj (hroutes.symm.trans hr)
    exact ⟨_, rfl, rfl⟩

/-- A run that comes to serve is one whose calls succeeded. -/
theorem runProxyMode_ok {port : UInt16}
    (h : Runs (runProxyMode serde input) calls (.ok (routes, port))) :
    readTransfer serde input = .ok routes ∧ calls = [⟨.bindLoopback, routes, Except.ok port⟩,
      ⟨.writeReadiness, readinessLine port, Except.ok ()⟩,
      ⟨.flushReadiness, (), Except.ok ()⟩] := by
  cases begun_of_runs h with
  | serves hroutes => exact ⟨hroutes, rfl⟩

/-- What is kept of a proxy does not depend on the rest. -/
theorem Proxy.Kept.congr {q : Proxy} (h : q.Kept link) (hd : link'.down = link.down)
    (hs : link'.up.sent = link.up.sent) (hc : link.up.closed = true → link'.up.closed = true) :
    q.Kept link' := by
  rcases q with _ | _ | ⟨process, calls⟩
  · trivial
  · trivial
  · rw [Proxy.Kept, hd, hs]
    exact ⟨fun hk => hc (h.1 hk), h.2⟩

theorem Proxy.eq_absent_of_gone {q : Proxy} (h : q.gone = .absent) : q = .absent := by
  cases q <;> first | rfl | cases h

/-- A proxy that is gone is gone with its pipe. -/
theorem Proxy.Kept.gone {q : Proxy} (hc : link.up.closed = true) : q.gone.Kept link := by
  cases q
  · trivial
  · exact ⟨fun _ => hc, fun hne => absurd rfl hne, by simp⟩
  · exact ⟨fun _ => hc, fun hne => absurd rfl hne, by simp⟩

/-- A pipe at its end stays there when its writer goes. -/
theorem Proxy.Kept.severed {q : Proxy} (h : q.Kept link) {kept : List UInt8}
    (hk : kept <+: link.down.transit) :
    q.Kept { link with down := link.down.sever kept hk } := by
  rcases q with _ | _ | ⟨process, calls⟩
  · trivial
  · trivial
  · refine ⟨h.1, fun hne => (h.2.1 hne).imp id fun hend => ⟨rfl, ?_⟩, h.2.2⟩
    rw [hend.2] at hk
    exact List.prefix_nil.mp hk

/-- A proxy that has made its calls has written its report. -/
theorem Proxy.Sound.sent_of_done {port : UInt16}
    (hs : (Proxy.mode (.live (.done (routes, port))) calls).Sound serde link) :
    link.up.sent = utf8 (readinessLine port) := by
  obtain ⟨hwithin, hfeeds, -⟩ := hs
  have hrun : Runs _ _ _ := hwithin _ _ (.done _)
  rw [List.append_nil] at hrun
  obtain ⟨-, rfl⟩ := runProxyMode_ok hrun
  refine ((hfeeds _ rfl).sent_eq ?_).trans ?_
  · intro x hx hne
    simp only [List.mem_cons, List.not_mem_nil, or_false] at hx
    rcases hx with rfl | rfl | rfl <;> first | rfl | trivial
  · simp [written, reportBytes, waitingBytes, Process.waiting]

/-- **A turn of the proxy keeps it**: when it comes to serve, all of its report is written. -/
theorem Proxy.Kept.takes (hk : (Proxy.mode process calls).Kept link)
    (hs : (Proxy.mode process calls).Sound serde link)
    (h : proxySide.Takes ⟨process, calls, link⟩ t ⟨process', calls', link'⟩) :
    (Proxy.mode process' calls').Kept link' := by
  obtain ⟨hkilled, hline, -⟩ := hk
  have hdown := (down_of_takes h).1
  rw [Proxy.Kept, hdown]
  rcases h with h | ⟨⟨hw, hpiece, ho⟩⟩ | _ | _ | h
  · exact ⟨fun hq => (by cases hq), fun _ => hline (by simp), fun _ _ hq => (by cases hq)⟩
  · refine ⟨fun hq => ?_, hline, fun _ _ hq => ?_⟩ <;> rw [hq] at hw <;> cases hw
  · refine ⟨fun hq => (by cases hq), fun _ => hline (by simp), fun routes port hq => ?_⟩
    cases hq
    exact hs.sent_of_done
  · exact ⟨fun hq => (by cases hq), fun _ => hline (by simp), fun _ _ hq => (by cases hq)⟩
  · cases h

/-- **An answer keeps the invariant.** -/
theorem Host.Kept.answers {p p' : Prog Call.Arg Call.Ans Failure Exit}
    (hk : Host.Kept ⟨.live p, tr, s⟩) (h : Host.Answers s e s') :
    Host.Kept ⟨.live p', tr ++ [e], s'⟩ := by
  obtain ⟨hwhole, hthere, hproxy⟩ := hk
  have hspawned : ¬SidecarSpawned e → (∃ x ∈ tr ++ [e], SidecarSpawned x) →
      s.proxy ≠ .absent := by
    rintro he ⟨x, hx, hxs⟩
    rcases List.mem_append.mp hx with hx | hx
    · exact hthere ⟨x, hx, hxs⟩
    · exact absurd (List.mem_singleton.mp hx ▸ hxs) he
  rcases h with _ | ⟨hw, -⟩ | _ | _ | _ | ⟨-, he⟩
  · exact ⟨fun _ _ => rfl, fun _ hq => (by cases hq), trivial⟩
  · refine ⟨fun _ _ => hwhole p rfl, hspawned ?_, hproxy.congr rfl rfl id⟩
    rintro ⟨_, rfl⟩
    rcases hw with hw | hw <;> cases hw
  · refine ⟨fun _ _ => hwhole p rfl, hspawned (by simp [SidecarSpawned]), ?_⟩
    rcases hq : s.proxy with _ | _ | ⟨process, calls⟩ <;> rw [hq] at hproxy
    · trivial
    · trivial
    · exact ⟨hproxy.1, fun hne => (hproxy.2.1 hne).imp id fun h => ⟨rfl, h.2⟩, hproxy.2.2⟩
  · exact ⟨fun _ _ => hwhole p rfl, hspawned (by simp [SidecarSpawned]), hproxy⟩
  · exact ⟨fun _ _ => hwhole p rfl, hspawned (by simp [SidecarSpawned]), hproxy⟩
  · exact ⟨fun _ _ => hwhole p rfl, hspawned he, hproxy⟩

/-- **So does a move.** -/
theorem Host.Kept.moves {process : Process Call.Arg Call.Ans Failure Exit}
    (hk : Host.Kept ⟨process, tr, s⟩) (hs : Host.Sound serde ⟨process, tr, s⟩)
    (h : Host.Moves serde process.waiting s () s') : Host.Kept ⟨process, tr, s'⟩ := by
  obtain ⟨hwhole, hthere, hproxy⟩ := hk
  rcases h with ⟨hpiece, ho⟩ | _ | ⟨hp, hn, ht⟩ | ⟨hp, hl⟩ | ⟨hp, htake⟩ | _ | _
  · refine ⟨fun _ _ => Pipe.unbroken_of_open _ ho, hthere, ?_⟩
    · rcases hq : s.proxy with _ | _ | ⟨process, calls⟩ <;> rw [hq] at hproxy
      · trivial
      · trivial
      · refine ⟨hproxy.1, fun hne => (hproxy.2.1 hne).imp id fun h => ?_, hproxy.2.2⟩
        rw [h.1] at ho
        cases ho
  · exact ⟨hwhole, hthere, hproxy.congr rfl rfl id⟩
  · refine ⟨fun p hq => (hwhole p hq).get _ ht, hthere, ?_⟩
    rw [hp]
    trivial
  · refine ⟨hwhole, fun _ hq => (by cases hq), fun hq => (by cases hq), fun _ => hl,
      fun _ _ hq => (by cases hq)⟩
  · rw [hp] at hproxy
    have hsound := hs.proxy
    rw [hp] at hsound
    refine ⟨fun p hq => ?_, fun _ hq => (by cases hq), hproxy.takes hsound htake⟩
    rw [(down_of_takes htake).1]
    exact hwhole p hq
  · exact ⟨hwhole, hthere, hproxy.congr rfl rfl fun _ => rfl⟩
  · exact ⟨hwhole, fun hx hq => hthere hx (Proxy.eq_absent_of_gone hq), Proxy.Kept.gone rfl⟩

/-- **The invariant holds in every course.** -/
theorem Host.Kept.course {c : Snapshot Call.Arg Call.Ans Failure Exit Host}
    (h : (handshake serde).Course anyTurn ⟨.live (execute world invocation), [], Host.start⟩ c) :
    Host.Kept c := by
  induction h with
  | refl => exact ⟨fun _ _ => rfl, by simp, trivial⟩
  | tail hc hstep ih =>
    obtain ⟨t, ht, -⟩ := hstep
    rcases ht with hans | hmove | _ | _ | ⟨kept, hk, rfl⟩
    · exact ih.answers hans
    · exact ih.moves (Host.Sound.course hc).2 hmove
    · exact ⟨fun p hp => (by cases hp), ih.there, ih.proxy⟩
    · exact ⟨fun p hp => (by cases hp), ih.there, ih.proxy⟩
    · exact ⟨fun p hp => (by cases hp), ih.there, ih.proxy.severed hk⟩

end

/-! ### The proxy goes on -/

section

variable {serde : SerdeJson} {w : Option (Waiting Call.Arg)} {link link' : Link}
  {calls calls' t : List (Event ProxyCall.Arg ProxyCall.Ans)} {input : List UInt8}
  {routes : List ProxyRoute} {process process' :
    Process ProxyCall.Arg ProxyCall.Ans ProxyModeError (List ProxyRoute × UInt16)}

/-- What happens by itself while the supervisor waits. -/
def Host.Goes (serde : SerdeJson) (w : Option (Waiting Call.Arg)) : Host → Host → Prop :=
  ReflTransGen fun s s' => Host.Moves serde w s () s'

theorem course_of_goes {q : Process Call.Arg Call.Ans Failure Exit} {tr : List Effect}
    {s s' : Host} (h : Host.Goes serde q.waiting s s') :
    (handshake serde).Course anyTurn ⟨q, tr, s⟩ ⟨q, tr, s'⟩ := by
  induction h with
  | refl => exact .refl
  | tail _ hm ih => exact ih.tail ⟨_, .move hm, trivial⟩

/-- The turns of the proxy are moves of what is around the supervisor. -/
theorem goes_of_course
    {p : Snapshot ProxyCall.Arg ProxyCall.Ans ProxyModeError (List ProxyRoute × UInt16) Link}
    (h : proxySide.Course anyTurn ⟨process, calls, link⟩ p) :
    Host.Goes serde w ⟨link, .mode process calls⟩ ⟨p.outside, .mode p.process p.trace⟩ := by
  induction h with
  | refl => exact .refl
  | tail _ hstep ih =>
    obtain ⟨t, ht, -⟩ := hstep
    exact ih.tail (.goes rfl ht)

/-- What is so of the proxy stays so, and its line stays what it took. -/
theorem Proxy.Sound.course
    {p : Snapshot ProxyCall.Arg ProxyCall.Ans ProxyModeError (List ProxyRoute × UInt16) Link}
    (hs : (Proxy.mode process calls).Sound serde link)
    (h : proxySide.Course anyTurn ⟨process, calls, link⟩ p) :
    (Proxy.mode p.process p.trace).Sound serde p.outside ∧ p.outside.down = link.down := by
  induction h with
  | refl => exact ⟨hs, rfl⟩
  | tail _ hstep ih =>
    obtain ⟨t, ht, -⟩ := hstep
    exact ⟨ih.1.takes ht, (down_of_takes ht).1.trans ih.2⟩

/-- A proxy whose calls are to succeed makes them, one after the other. -/
theorem reports_of_runs {p : Prog ProxyCall.Arg ProxyCall.Ans ProxyModeError
      (List ProxyRoute × UInt16)} {a : List ProxyRoute × UInt16} (hrun : Runs p t (.ok a))
    (hs : (Proxy.mode (.live p) calls).Sound serde link) (hup : link.up.closed = false)
    (ht : ∀ e ∈ t, e.kind.succeeded e.ans) :
    ∃ link', proxySide.Course anyTurn ⟨.live p, calls, link⟩ ⟨.live (.done a), calls ++ t, link'⟩ ∧
      link'.up.closed = false ∧ link'.up.taken = link.up.taken := by
  induction p generalizing t calls link with
  | done b =>
    obtain ⟨rfl, he⟩ := runs_done_iff.mp hrun
    obtain rfl := Except.ok.inj he
    exact ⟨link, by rw [List.append_nil]; exact .refl, hup, rfl⟩
  | fail e => cases (runs_fail_iff.mp hrun).2
  | call k x next ih =>
    obtain ⟨ans, rest, rfl, hrest⟩ := runs_call_iff.mp hrun
    have hans : k.succeeded ans := ht ⟨k, x, ans⟩ List.mem_cons_self
    have hlater : ∀ e ∈ rest, e.kind.succeeded e.ans := fun e he => ht e (List.mem_cons_of_mem _ he)
    -- before the call is answered, what it writes is written
    obtain ⟨link₁, hcourse, hup₁, htaken₁⟩ : ∃ link₁, proxySide.Course anyTurn
        ⟨.live (.call k x next), calls, link⟩
        ⟨.live (next ans), calls ++ [⟨k, x, ans⟩], link₁⟩ ∧
        link₁.up.closed = false ∧ link₁.up.taken = link.up.taken := by
      cases k with
      | bindLoopback => exact ⟨link, .single ⟨_, .answer .binds, trivial⟩, hup, rfl⟩
      | flushReadiness => exact ⟨link, .single ⟨_, .answer .flushes, trivial⟩, hup, rfl⟩
      | writeReadiness =>
        have hbound : link.reported ≤ (utf8 x).length := (hs.2.1 _ rfl).bound
        have hpiece : (utf8 x).drop link.reported = (utf8 x).drop link.reported ++ [] := by simp
        refine ⟨_, .tail (.single ⟨_, .move (.mk rfl hpiece hup), trivial⟩)
          ⟨_, .answer (.writes fun _ => ?_), trivial⟩, hup, rfl⟩
        simp only [List.length_drop]
        omega
    obtain ⟨link', hrest', hup', htaken'⟩ := ih ans hrest (hs.course hcourse).1 hup₁ hlater
    refine ⟨link', ?_, hup', htaken'.trans htaken₁⟩
    rw [List.append_cons]
    exact hcourse.trans hrest'

theorem ProxyCall.exists_succeeded : ∀ k : ProxyCall, ∃ ans, k.succeeded ans
  | bindLoopback => ⟨Except.ok 0, 0, rfl⟩
  | writeReadiness => ⟨Except.ok (), rfl⟩
  | flushReadiness => ⟨Except.ok (), rfl⟩

/-- **A proxy with its line comes to serve**, and all of its report is written. -/
theorem exists_report (hs : (Proxy.mode process calls).Sound serde link)
    (hk : (Proxy.mode process calls).Kept link) (hup : link.up.closed = false)
    (hcalls : ∀ e ∈ calls, e.kind.succeeded e.ans)
    (hroutes : readTransfer serde link.down.taken = .ok routes) :
    ∃ port process' calls' link', proxySide.Course anyTurn ⟨process, calls, link⟩
        ⟨process', calls', link'⟩ ∧ link'.up.closed = false ∧
      link'.up.taken = link.up.taken ∧ (∀ e ∈ calls', e.kind.succeeded e.ans) ∧
      (⟨.bindLoopback, routes, Except.ok port⟩ : Event ProxyCall.Arg ProxyCall.Ans) ∈ calls' ∧
      link'.up.sent = utf8 (readinessLine port) := by
  have hwithin := hs.1
  rcases process with p | r | _
  · obtain ⟨t, r, hrun, ht⟩ := @exists_runs _ _ _ _ _ (fun e => e.kind.succeeded e.ans)
      (fun k _ => k.exists_succeeded) p
    have hall : ∀ e ∈ calls ++ t, e.kind.succeeded e.ans := fun e he =>
      (List.mem_append.mp he).elim (hcalls e) (ht e)
    obtain ⟨port, rfl, hshape⟩ := runProxyMode_succeeded (hwithin t r hrun) hroutes hall
    obtain ⟨link', hcourse, hup', htaken⟩ := reports_of_runs hrun hs hup ht
    have hsent := (hs.course hcourse).1.sent_of_done
    exact ⟨port, _, _, link', hcourse, hup', htaken, hall, by rw [hshape]; exact List.mem_cons_self,
      hsent⟩
  · have hrun : Runs _ calls r := hwithin
    obtain ⟨port, rfl, rfl⟩ := runProxyMode_succeeded hrun hroutes hcalls
    exact ⟨port, _, _, link, .refl, hup, rfl, hcalls, List.mem_cons_self, hk.2.2 _ _ rfl⟩
  · rw [hk.1 rfl] at hup
    cases hup

end

/-! ### The two of them go on -/

section

variable {serde : SerdeJson} {world : World} {invocation : Invocation} {s : Host} {link : Link}
  {w : Option (Waiting Call.Arg)} {routes : List ProxyRoute} {port : UInt16}
  {line taken : List UInt8}

/-- The mode of a proxy begins with nothing done. -/
theorem Proxy.Sound.begins (h : Proxy.reading.Sound serde link) :
    (Proxy.mode (.live (runProxyMode serde link.down.taken)) []).Sound serde link := by
  obtain ⟨hsent, hreported⟩ := h
  refine ⟨fun t r hr => hr, fun p _ => ?_, fun hne => absurd hsent hne⟩
  rw [hsent, hreported]
  exact feeds_fresh rfl

/-- **The proxy takes its line and reports its port**, by itself. -/
theorem exists_bound (hs : s.proxy.Sound serde s.link) (hk : s.proxy.Kept s.link)
    (hthere : s.proxy ≠ .absent) (hc : s.Undisturbed) (hwhole : s.link.down.Unbroken)
    (hsent : s.link.down.sent = line ++ [10]) (hnl : 10 ∉ line)
    (hroutes : readTransfer serde (line ++ [10]) = .ok routes) :
    ∃ s' port, Host.Goes serde w s s' ∧ s'.Undisturbed ∧ s'.Binds routes (.ok port) ∧
      s'.link.up.sent = utf8 (readinessLine port) := by
  obtain ⟨link, q⟩ := s
  have hline : ∀ {down : Pipe UInt8}, down.sent = line ++ [10] → 10 ∈ down.taken →
      down.taken = line ++ [10] := fun hd hm =>
    eq_of_prefix_of_mem (hd ▸ Pipe.taken_prefix _) hm hnl
  -- once it has its line, it goes on to its report
  have hmode : ∀ {process calls down}, (Proxy.mode process calls).Sound serde { link with down } →
      (Proxy.mode process calls).Kept { link with down } →
      (∀ e ∈ calls, e.kind.succeeded e.ans) → down.taken = line ++ [10] →
      Host.Goes serde w ⟨link, q⟩ ⟨{ link with down }, .mode process calls⟩ →
      ∃ s' port, Host.Goes serde w ⟨link, q⟩ s' ∧ s'.Undisturbed ∧ s'.Binds routes (.ok port) ∧
        s'.link.up.sent = utf8 (readinessLine port) := by
    intro process calls down hs hk hcalls htaken hgoes
    obtain ⟨port, process', calls', link', hcourse, hup, -, hcalls', hbind, hreport⟩ :=
      exists_report hs hk hc.report hcalls (by rw [htaken]; exact hroutes)
    refine ⟨⟨link', .mode process' calls'⟩, port, hgoes.trans (goes_of_course hcourse),
      ⟨hup, ?_⟩, ⟨process', calls', rfl, hbind⟩, hreport⟩
    rintro _ _ ⟨⟩
    exact hcalls'
  rcases q with _ | _ | ⟨process, calls⟩
  · exact absurd rfl hthere
  · obtain ⟨down, htaken, hgoes⟩ : ∃ down : Pipe UInt8, down.taken = line ++ [10] ∧
        Host.Goes serde w ⟨link, .reading⟩ ⟨{ link with down }, .reading⟩ := by
      by_cases hm : 10 ∈ link.down.taken
      · exact ⟨link.down, hline hsent hm, .refl⟩
      · have hall : link.down.transit = link.down.transit ++ [] := (List.append_nil _).symm
        exact ⟨link.down.get _ _ hall, hwhole.trans hsent, .single (.takes rfl hm hall)⟩
    have hten : 10 ∈ down.taken := by rw [htaken]; simp
    refine @hmode _ _ down (@Proxy.Sound.begins serde { link with down } hs)
      ⟨fun hq => (by cases hq), fun _ => Or.inl hten, fun _ _ hq => (by cases hq)⟩ (by simp) htaken
      (hgoes.tail (.begins rfl (Or.inl hten)))
  · refine @hmode _ _ link.down hs hk (hc.calls _ _ rfl) ?_ .refl
    have hne : process ≠ .killed := fun hq => by
      have hclosed := hk.1 hq
      rw [hc.report] at hclosed
      cases hclosed
    rcases hk.2.1 hne with hm | ⟨-, hend⟩
    · exact hline hsent hm
    · rw [← hsent, ← hwhole, hend, List.append_nil]

/-- **The supervisor takes all of a report.** -/
theorem exists_heard (hc : s.Undisturbed) (hsent : s.link.up.sent = utf8 (readinessLine port)) :
    ∃ s', Host.Goes serde (some ⟨.readinessRead, ()⟩) s s' ∧ s'.Undisturbed ∧
      s'.proxy = s.proxy ∧ s'.link.up.taken = utf8 (readinessLine port) := by
  have hwhole := Pipe.unbroken_of_open _ hc.report
  by_cases hm : 10 ∈ s.link.up.taken
  · refine ⟨s, .refl, hc, rfl, ?_⟩
    rw [utf8_readinessLine]
    refine eq_of_prefix_of_mem ?_ hm (newline_notMem_readinessObject port)
    rw [← utf8_readinessLine, ← hsent]
    exact Pipe.taken_prefix _
  · have hall : s.link.up.transit = s.link.up.transit ++ [] := (List.append_nil _).symm
    have hline : s.link.up.taken ++ s.link.up.transit = utf8 (readinessLine port) :=
      hwhole.trans hsent
    have hlimit : (s.link.up.taken ++ s.link.up.transit).length ≤ readinessLimit := by
      rw [hline]
      exact length_readinessLine_le port
    exact ⟨_, .single (.hears rfl hm hlimit hall), ⟨hc.report, hc.calls⟩, rfl, hline⟩

/-- **A read that nothing disturbs** ends with a line, or at the limit. -/
theorem taken_of_undisturbed {s' : Host} (hc : s.Undisturbed) {bytes : List UInt8}
    (h : Host.Answers s ⟨.readinessRead, (), .ok bytes⟩ s') : bytes = s.link.up.taken ∧
      (10 ∈ s.link.up.taken ∨ s.link.up.taken.length = readinessLimit) := by
  rcases h with _ | ⟨hk, -⟩ | _ | hend | _ | ⟨ht, -⟩
  · rcases hk with hk | hk <;> cases hk
  · rcases hend with hend | hend | ⟨hclosed, -⟩
    · exact ⟨rfl, Or.inl hend⟩
    · exact ⟨rfl, Or.inr hend⟩
    · rw [hc.report] at hclosed
      cases hclosed
  · exact absurd rfl ht

end

/-! ### A startup that nothing disturbs -/

section

variable {world : World} {invocation : Invocation} {pre : List Effect} {e : Effect}
  {c : Snapshot Call.Arg Call.Ans Failure Exit Host}

/-- Once the delivery is over, all of the line is written. -/
theorem sent_of_delivered {transfer : Str} {w : Option (Waiting Call.Arg)} {sent : List UInt8}
    {n : ℕ} (hpre : ∀ x ∈ pre, ¬Transfers x) (he : SidecarSpawned e)
    (hw : waitingBytes deliveryBytes w = [])
    (h : Feeds deliveryBytes (fun e => e.kind.wrote e.ans) (pre ++ e :: delivered transfer)
      w sent n) : sent = utf8 transfer ++ [10] := by
  have hall : AllWritten deliveryBytes (fun e => e.kind.wrote e.ans) (delivered transfer) := by
    intro x hx hne
    simp only [delivered, List.mem_cons, List.not_mem_nil, or_false] at hx
    rcases hx with rfl | rfl | rfl <;> first | rfl | exact absurd rfl hne
  rw [sent_of_spawned hpre he hall h, hw, List.take_nil, List.append_nil]
  simp [written, delivered, deliveryBytes]

/-- **A startup that nothing disturbs goes on.** Wherever the supervisor waits for the
readiness line – in any course, with any part of the transfer still on its way and any part
of the report – and nothing has gone wrong on the side of the proxy, the two come to the
point where the supervisor has read the port of the listener that was bound for the routes it
provisioned and transferred, and goes on to supervise the target. And if the read comes to an
answer right there, that is the line with this port. -/
theorem startup_unstuck (hserde : world.serde.Conforms) (hread : ReadsReadiness world.readiness)
    (h : (handshake world.serde).Course anyTurn
      ⟨.live (execute world invocation), [], Host.start⟩ c)
    (hw : c.process.waiting = some ⟨.readinessRead, ()⟩) (hc : c.outside.Undisturbed) :
    ∃ context policy provisioned,
      Provisions world invocation c.trace context policy provisioned ∧
      ⟨.transferWrite, (intoTransfer world.serde provisioned).1, .ok ()⟩ ∈ c.trace ∧
      (∃ port c', (handshake world.serde).Course anyTurn c c' ∧
        c'.trace = c.trace ++ [⟨.readinessRead, (), .ok (utf8 (readinessLine port))⟩] ∧
        portOf world.readiness (.ok (utf8 (readinessLine port))) = .ok port ∧
        c'.process.waiting = some ⟨.signalsRegister, ()⟩ ∧ c'.outside.Undisturbed ∧
        c'.outside.Binds (provisioned.map ProvisionedProxySecret.proxyRoute) (.ok port)) ∧
      ∀ bytes s, Host.Answers c.outside ⟨.readinessRead, (), .ok bytes⟩ s →
        ∃ port, portOf world.readiness (.ok bytes) = .ok port ∧
          c.outside.Binds (provisioned.map ProvisionedProxySecret.proxyRoute) (.ok port) := by
  obtain ⟨hwithin, hs⟩ := Host.Sound.course h
  have hk := Host.Kept.course h
  obtain ⟨q, tr, s⟩ := c
  obtain ⟨next, rfl⟩ := Process.waiting_eq_some.mp hw
  -- all of the line is in the pipe
  obtain ⟨t, r, hrun⟩ := hwithin.exists_runs_call sampleAnswers (Except.error [])
  obtain ⟨context, policy, provisioned, pre, e, hprov, he, rfl, -⟩ := read_execute hrun
  have hbefore : ∀ x ∈ pre, ¬Transfers x := by
    rw [List.append_assoc] at hrun
    exact fun x hx => (apart_before hrun he x hx).1
  have hsent := sent_of_delivered hbefore he rfl (hs.down _ rfl)
  have hnl := newline_notMem_utf8 (newline_notMem_intoTransfer hserde provisioned)
  have hroutes := readTransfer_line hserde hprov.ne_nil hprov.upstream (Or.inr ⟨[], rfl⟩)
  refine ⟨context, policy, provisioned, hprov.mono (List.prefix_append _ _), by simp [delivered],
    ?_, fun bytes s' hans => ?_⟩
  · obtain ⟨s₁, port, hgoes₁, hc₁, hbinds, hreport⟩ := exists_bound (w := some ⟨.readinessRead, ()⟩)
      hs.proxy hk.proxy (hk.there ⟨e, by simp, he⟩) hc (hk.whole _ rfl) hsent hnl hroutes
    obtain ⟨s₂, hgoes₂, hc₂, hproxy, htaken⟩ := exists_heard hc₁ hreport
    have hport := portOf_readinessLine hread port
    have hrest := runs_exec sampleAnswers 0 (next (.ok (utf8 (readinessLine port))))
    obtain ⟨_, _, _, _, _, -, -, -, hgo⟩ := read_execute (hwithin _ _ (.call _ hrest))
    obtain ⟨registered, rest, ht⟩ := hgo port hport
    rw [ht] at hrest
    have hcourse : (handshake world.serde).Course anyTurn
        ⟨.live (.call .readinessRead () next),
          pre ++ e :: delivered (intoTransfer world.serde provisioned).1, s⟩ ⟨_, _, s₂⟩ :=
      course_of_goes (hgoes₁.trans hgoes₂)
    have hans : Host.Answers s₂ ⟨.readinessRead, (), .ok (utf8 (readinessLine port))⟩ s₂ := by
      rw [← htaken]
      refine .reads (Or.inl ?_)
      rw [htaken, utf8_readinessLine]
      simp
    obtain ⟨q, hq, hnext⟩ := (Surroundings.Reaches.answer ⟨_, hcourse, .call _ hrest⟩ hans).waiting
    refine ⟨port, _, hq, rfl, hport, hnext, hc₂, ?_⟩
    rw [Host.Binds, hproxy]
    exact hbinds
  · obtain ⟨rfl, hend⟩ := taken_of_undisturbed hc hans
    have hne : s.link.up.sent ≠ [] := by
      intro hnil
      have htaken : s.link.up.taken = [] := List.prefix_nil.mp (hnil ▸ Pipe.taken_prefix _)
      simp [htaken, readinessLimit] at hend
    obtain ⟨routes, port, hroutes', hbinds, hline⟩ := hs.proxy.reported hne
    obtain rfl := routes_of_prefix hserde (hsent ▸ s.link.down.taken_prefix) hroutes'
    have hall := eq_readinessLine_of_prefix ((Pipe.taken_prefix s.link.up).trans hline) hend
    exact ⟨port, by rw [hall]; exact portOf_readinessLine hread port, hbinds⟩

/-- A wait for readiness can be come to without anything going wrong. -/
theorem reaches_awaiting {serde : SerdeJson} {A B : List Effect}
    {read : Except IoError (List UInt8)} {r : Except Failure Exit}
    (hrun : Runs (execute world invocation) (A ++ ⟨.readinessRead, (), read⟩ :: B) r) :
    ∃ s, (handshake serde).Reaches ⟨.live (execute world invocation), [], Host.start⟩ A s
      (⟨.readinessRead, (), read⟩ :: B) r ∧ s.Undisturbed ∧ s.link.up = .fresh := by
  obtain ⟨context, policy, provisioned, pre, e, -, he, rfl, -⟩ := read_execute hrun
  rw [List.append_assoc, List.cons_append] at hrun
  have hpre := apart_before hrun he
  obtain ⟨command, rfl⟩ := he
  have h0 : (handshake serde).Reaches ⟨.live (execute world invocation), [], Host.start⟩ []
      Host.start _ r := ⟨_, .refl, hrun⟩
  have h1 := (h0.answers fun x hx => .other (hpre x hx).1 (hpre x hx).2).answer .starts
  have h2 := reaches_delivers h1 (Or.inl rfl) rfl rfl
  have h3 := (reaches_delivers h2 (Or.inr rfl) rfl rfl).answer .closes
  exact ⟨_, by simpa [delivered] using h3, ⟨rfl, fun _ _ hq => (by cases hq)⟩, rfl⟩

end

/-- The sample comes to wait, and goes on from there. -/
theorem startup_unstuck_sample : ∃ port c', (handshake readinessWorld.serde).Course anyTurn
      ⟨.live (execute readinessWorld sampleInvocation), [], Host.start⟩ c' ∧
    c'.process.waiting = some ⟨.signalsRegister, ()⟩ ∧
    ∃ routes, c'.outside.Binds routes (.ok port) := by
  obtain ⟨-, hread, -⟩ := exec_readinessWorld false
  have hrun := runs_exec (drawingAnswers false) 0 (execute readinessWorld sampleInvocation)
  rw [eq_append_of_getElem? hread] at hrun
  obtain ⟨s, hs, hundisturbed, -⟩ := reaches_awaiting hrun
  obtain ⟨q, hcourse, hw⟩ := hs.waiting
  obtain ⟨_, _, _, -, -, ⟨port, c', hgo, -, -, hnext, -, hbinds⟩, -⟩ :=
    startup_unstuck SerdeJson.reference_conforms readsReadiness_reference hcourse hw hundisturbed
  exact ⟨port, c', hcourse.trans hgo, hnext, _, hbinds⟩

end Iwaya
