import Iwaya.Execute.Outcome
import Iwaya.Execute.Awaiting

/-!
# Why a startup failed

A startup that fails is reported by the supervisor, by the proxy, or by both, and each knows
only its own end of the two pipes. Yet no report blames the wrong thing
(`Iwaya.startup_blame`). A proxy that gives up was told why by the system, or was left
with a transfer that had been cut short; and what the supervisor calls unusable is a report
of the proxy that was cut short. The messages that would mean a defect of the other party –
a transfer of several lines, one without routes, one with an upstream that is no origin – are
never given, and no client fails to start over a NUL byte in its command.

Whatever bytes there are for the proxy to read, the system hands them out: its standard input
ends, but does not fail.
-/

namespace Iwaya

open Text Effects Trace

/-- **The end of a proxy that does not come to serve**: `run_proxy`. -/
def proxyEndedWith : Except ProxyModeError (List ProxyRoute × UInt16) → Option Ended
  | .ok _ => none
  | .error e => some (.exited 6 (diagnostic e.display))

/-! ### What there is to blame -/

/-- **Why a proxy gave up**, with these calls of its own and this much of its line, beside a
supervisor that called this. -/
inductive ProxyFault (world : World) (invocation : Invocation) (tr : List Effect)
    (taken : List UInt8) (calls : List (Event ProxyCall.Arg ProxyCall.Ans)) :
    ProxyModeError → Prop
  /-- The transfer of what the supervisor provisioned was cut short, inside a character or
  between two. -/
  | cut {e : ProxyModeError} {context : DockerContext} {policy : CommandPolicy}
    {provisioned : List ProvisionedProxySecret}
    (he : (∃ source, e = .read source) ∨ ∃ line column, e = .parse line column)
    (h : Provisions world invocation tr context policy provisioned)
    (hp : taken <+: utf8 (intoTransfer world.serde provisioned).1)
    (hne : taken ≠ utf8 (intoTransfer world.serde provisioned).1) :
    ProxyFault world invocation tr taken calls e
  /-- The listener could not be bound. -/
  | unbound {routes : List ProxyRoute} {source : Str}
    (h : ⟨.bindLoopback, routes, Except.error source⟩ ∈ calls) :
    ProxyFault world invocation tr taken calls (.bind source)
  /-- The report could not be written. -/
  | unreported {line : Str} {source : Str}
    (h : ⟨.writeReadiness, line, Except.error source⟩ ∈ calls ∨
      ⟨.flushReadiness, (), Except.error source⟩ ∈ calls) :
    ProxyFault world invocation tr taken calls (.readiness source)

/-- **Why a supervisor gave its sidecar up**, with these calls and what is around it. -/
inductive SidecarFault (tr : List Effect) (s : Host) : SidecarError → Prop
  /-- There was no entropy for its name, and it was not started. -/
  | unnamed {source : IoError} (h : (⟨.entropy 8, (), .error source⟩ : Effect) ∈ tr)
    (hn : Never SidecarSpawned tr) : SidecarFault tr s .name
  /-- Its client could not be started. -/
  | unstarted {runtime : Str} {source : IoError}
    (h : ∃ command, (⟨.sidecarRun, command, .error source⟩ : Effect) ∈ tr ∧
      command.program = runtime)
    (hn : Never SidecarSpawned tr) : SidecarFault tr s (.start runtime source)
  /-- The transfer could not be written. -/
  | undelivered {source : IoError}
    (h : (∃ transfer, (⟨.transferWrite, transfer, .error source⟩ : Effect) ∈ tr) ∨
      (⟨.newlineWrite, (), .error source⟩ : Effect) ∈ tr) : SidecarFault tr s (.transfer source)
  /-- The report could not be read. -/
  | unread {source : IoError} (h : (⟨.readinessRead, (), .error source⟩ : Effect) ∈ tr) :
    SidecarFault tr s (.readiness source)
  /-- Its output ended, and nothing had come out of it. -/
  | silent (h : (⟨.readinessRead, (), .ok []⟩ : Effect) ∈ tr) (hc : s.link.up.closed = true) :
    SidecarFault tr s .exitedBeforeReady
  /-- Some of its report had come out, but not all of the object in it. -/
  | cut {bytes : List UInt8} {routes : List ProxyRoute} {port : UInt16}
    (h : (⟨.readinessRead, (), .ok bytes⟩ : Effect) ∈ tr) (hb : s.Binds routes (.ok port))
    (hne : bytes ≠ []) (hp : bytes <+: utf8 (readinessObject port))
    (hcut : bytes ≠ utf8 (readinessObject port)) (hc : s.link.up.closed = true) :
    SidecarFault tr s .unusableReadiness

/-! ### What the two have in their hands -/

/-- **The invariant**: what is written to a proxy is a beginning of the line of this
invocation; and a read that ended before its line did has found the end of the output. -/
structure Host.Told (world : World) (invocation : Invocation)
    (c : Snapshot Call.Arg Call.Ans Failure Exit Host) : Prop where
  carries : c.outside.proxy ≠ .absent → ∃ context policy provisioned,
    Provisions world invocation c.trace context policy provisioned ∧
      c.outside.link.down.sent <+: utf8 (intoTransfer world.serde provisioned).1 ++ [10]
  ended : ∀ bytes, (⟨.readinessRead, (), .ok bytes⟩ : Effect) ∈ c.trace →
    10 ∈ bytes ∨ bytes.length = readinessLimit ∨ c.outside.link.up.closed = true

section

variable {world : World} {invocation : Invocation} {s s' : Host} {e : Effect} {tr : List Effect}
  {c : Snapshot Call.Arg Call.Ans Failure Exit Host}

/-- The client of a sidecar is started for what was provisioned before. -/
theorem provisions_of_spawned {t : List Effect} {r : Except Failure Exit}
    (h : Runs (execute world invocation) (tr ++ e :: t) r) (he : SidecarSpawned e) :
    ∃ context policy provisioned, Provisions world invocation tr context policy provisioned := by
  rcases beside_execute h with ⟨happart, -⟩ |
    ⟨context, policy, _, provisioned, _, t₁, t₂, hprov, -, hsplit, happart, -⟩
  · exact absurd he (happart.spawned e (by simp))
  · obtain ⟨A, rfl, -⟩ := exists_suffix_of_notMem hsplit fun hm => happart.spawned e hm he
    exact ⟨context, policy, provisioned, hprov.mono (List.prefix_append _ _)⟩

/-- Only two calls write. -/
theorem deliveryBytes_eq_nil {k : Call} {x : k.Arg}
    (h : ¬(k = .transferWrite ∨ k = .newlineWrite)) : deliveryBytes k x = [] := by
  cases k <;> first | rfl | simp at h

/-- A proxy does not open its output again. -/
theorem closed_of_takes {t : Turn ProxyCall.Arg ProxyCall.Ans Unit} {link link' : Link}
    {calls calls' : List (Event ProxyCall.Arg ProxyCall.Ans)} {process process' :
      Process ProxyCall.Arg ProxyCall.Ans ProxyModeError (List ProxyRoute × UInt16)}
    (h : proxySide.Takes ⟨process, calls, link⟩ t ⟨process', calls', link'⟩)
    (hc : link.up.closed = true) : link'.up.closed = true := by
  rcases h with (_ | _ | _) | ⟨⟨-, -, -⟩⟩ | _ | _ | h
  · exact hc
  · exact hc
  · exact hc
  · exact hc
  · exact hc
  · exact hc
  · cases h

/-- **What is in the pipe while something is written** is a beginning of the line. -/
theorem carries_of_writes {w : Waiting Call.Arg} (hwithin : c.Within (execute world invocation))
    (hs : Host.Sound world.serde c) (hw : c.process.waiting = some w)
    (hk : w.kind = .transferWrite ∨ w.kind = .newlineWrite) :
    ∃ context policy provisioned,
      Provisions world invocation c.trace context policy provisioned ∧
      c.outside.link.down.sent <+: utf8 (intoTransfer world.serde provisioned).1 ++ [10] := by
  obtain ⟨q, tr, s⟩ := c
  obtain ⟨k, x⟩ := w
  obtain ⟨next, rfl⟩ := Process.waiting_eq_some.mp hw
  have hfeeds := hs.down _ rfl
  rw [hw] at hfeeds
  obtain ⟨t, r, hrun⟩ := hwithin.exists_runs_call sampleAnswers (sampleAnswers 0 k)
  obtain ⟨context, policy, provisioned, pre, e, hprov, he, hcut⟩ := write_execute hrun hk
  rcases hcut with ⟨rfl, ans, heq⟩ | ⟨rfl, ans, heq⟩ <;> cases heq <;>
    refine ⟨context, policy, provisioned, hprov.mono (List.prefix_append _ _), ?_⟩
  · rw [List.append_assoc] at hrun
    have hsent := sent_of_spawned (fun x hx => (apart_before hrun he x hx).1) he
      (by simp [AllWritten]) hfeeds
    rw [hsent]
    exact (List.take_prefix _ _).trans (List.prefix_append _ _)
  · rw [List.append_assoc] at hrun
    have hsent := sent_of_spawned (fun x hx => (apart_before hrun he x hx).1) he
      (by simp [AllWritten, Call.wrote]) hfeeds
    rw [hsent]
    simp only [written, List.flatMap_cons, List.flatMap_nil, List.append_nil]
    exact (List.prefix_append_right_inj _).mpr (List.take_prefix _ _)

/-- **An answer keeps the invariant.** -/
theorem Host.Told.answers {p p' : Prog Call.Arg Call.Ans Failure Exit}
    (ht : Host.Told world invocation ⟨.live p, tr, s⟩)
    (hwithin : Snapshot.Within (execute world invocation)
      (⟨.live p', tr ++ [e], s'⟩ : Snapshot _ _ _ _ Host))
    (h : Host.Answers s e s') : Host.Told world invocation ⟨.live p', tr ++ [e], s'⟩ := by
  obtain ⟨hcarries, hended⟩ := ht
  have hgrown : s.proxy ≠ .absent → ∃ context policy provisioned,
      Provisions world invocation (tr ++ [e]) context policy provisioned ∧
        s.link.down.sent <+: utf8 (intoTransfer world.serde provisioned).1 ++ [10] := by
    intro hne
    obtain ⟨context, policy, provisioned, hprov, hsent⟩ := hcarries hne
    exact ⟨context, policy, provisioned, hprov.mono (List.prefix_append _ _), hsent⟩
  have hother : (∀ bytes, e ≠ ⟨.readinessRead, (), .ok bytes⟩) →
      ∀ bytes, (⟨.readinessRead, (), .ok bytes⟩ : Effect) ∈ tr ++ [e] →
        10 ∈ bytes ∨ bytes.length = readinessLimit ∨ s.link.up.closed = true := by
    intro hne bytes hm
    rcases List.mem_append.mp hm with hm | hm
    · exact hended bytes hm
    · exact absurd (List.mem_singleton.mp hm).symm (hne bytes)
  rcases h with _ | ⟨hk, -⟩ | _ | hend | _ | ⟨hn, -⟩
  · rename_i command
    obtain ⟨t, r, hrun⟩ := hwithin.exists_runs sampleAnswers
    have hrun' : Runs (execute world invocation)
        (tr ++ ⟨.sidecarRun, command, .ok ()⟩ :: t) r := by simpa using hrun
    refine ⟨fun _ => ?_, fun bytes hm => ?_⟩
    · obtain ⟨context, policy, provisioned, hprov⟩ :=
        provisions_of_spawned hrun' ⟨command, rfl⟩
      exact ⟨context, policy, provisioned, hprov.mono (List.prefix_append _ _), List.nil_prefix⟩
    · rcases List.mem_append.mp hm with hm | hm
      · exact absurd rfl (apart_before hrun' ⟨command, rfl⟩ _ hm).1
      · cases List.mem_singleton.mp hm
  · refine ⟨hgrown, hother fun bytes he => ?_⟩
    rw [he] at hk
    rcases hk with hk | hk <;> cases hk
  · exact ⟨hgrown, hother (by simp)⟩
  · refine ⟨hgrown, fun bytes hm => ?_⟩
    rcases List.mem_append.mp hm with hm | hm
    · exact hended bytes hm
    · cases List.mem_singleton.mp hm
      exact hend.imp id (Or.imp id And.left)
  · exact ⟨hgrown, hother (by simp)⟩
  · refine ⟨hgrown, hother fun bytes he => ?_⟩
    rw [he] at hn
    exact hn rfl

/-- **So does a move.** -/
theorem Host.Told.moves {process : Process Call.Arg Call.Ans Failure Exit}
    (ht : Host.Told world invocation ⟨process, tr, s⟩)
    (hwithin : Snapshot.Within (execute world invocation)
      (⟨process, tr, s'⟩ : Snapshot _ _ _ _ Host))
    (hs : Host.Sound world.serde ⟨process, tr, s'⟩)
    (h : Host.Moves world.serde process.waiting s () s') :
    Host.Told world invocation ⟨process, tr, s'⟩ := by
  obtain ⟨hcarries, hended⟩ := ht
  rcases h with ⟨hpiece, ho⟩ | _ | _ | ⟨hp, -⟩ | ⟨hp, htake⟩ | _ | _
  · refine ⟨fun hne => ?_, hended⟩
    by_cases hk : ∃ w, process.waiting = some w ∧
        (w.kind = .transferWrite ∨ w.kind = .newlineWrite)
    · obtain ⟨w, hw, hkind⟩ := hk
      exact carries_of_writes hwithin hs hw hkind
    · -- nothing is being written
      have hnil : waitingBytes deliveryBytes process.waiting = [] := by
        rcases hw : process.waiting with _ | ⟨k, x⟩
        · rfl
        · exact deliveryBytes_eq_nil fun hkind => hk ⟨_, hw, hkind⟩
      rw [hnil, List.drop_nil] at hpiece
      obtain ⟨rfl, -⟩ := List.append_eq_nil_iff.mp hpiece.symm
      obtain ⟨context, policy, provisioned, hprov, hsent⟩ := hcarries hne
      refine ⟨context, policy, provisioned, hprov, ?_⟩
      rw [Pipe.sent_put, List.append_nil]
      exact hsent
  · exact ⟨hcarries, hended⟩
  · exact ⟨hcarries, hended⟩
  · have hpresent : s.proxy ≠ .absent := by simp [hp]
    exact ⟨fun _ => hcarries hpresent, hended⟩
  · have hpresent : s.proxy ≠ .absent := by simp [hp]
    refine ⟨fun _ => ?_, fun bytes hm => ?_⟩
    · rw [(down_of_takes htake).1]
      exact hcarries hpresent
    · exact (hended bytes hm).imp id (Or.imp id (closed_of_takes htake))
  · exact ⟨hcarries, fun bytes hm => (hended bytes hm).imp id (Or.imp id fun _ => rfl)⟩
  · have hgone : s.proxy = .absent → s.proxy.gone = .absent := by
      intro hq
      rw [hq]
      rfl
    exact ⟨fun hne => hcarries fun hq => hne (hgone hq), fun bytes hm =>
      (hended bytes hm).imp id (Or.imp id fun _ => rfl)⟩

/-- **The invariant holds in every course.** -/
theorem Host.Told.course (h : (handshake world.serde).Course anyTurn
      ⟨.live (execute world invocation), [], Host.start⟩ c) : Host.Told world invocation c := by
  induction h with
  | refl => exact ⟨fun hne => absurd rfl hne, by simp⟩
  | tail hc hstep ih =>
    obtain ⟨hwithin, hs⟩ := Host.Sound.course (hc.tail hstep)
    obtain ⟨t, ht, -⟩ := hstep
    rcases ht with hans | hmove | _ | _ | ⟨kept, hk, rfl⟩
    · exact ih.answers hwithin hans
    · exact ih.moves hwithin hs hmove
    · exact ⟨ih.carries, ih.ended⟩
    · exact ⟨ih.carries, ih.ended⟩
    · exact ⟨ih.carries, ih.ended⟩

end

/-! ### The proxy -/

section

variable {world : World} {invocation : Invocation} {input : List UInt8}
  {calls : List (Event ProxyCall.Arg ProxyCall.Ans)} {e : ProxyModeError}
  {c : Snapshot Call.Arg Call.Ans Failure Exit Host}

/-- **A transfer that was cut short is no document**, and that is what it is refused for. -/
theorem readTransfer_cut_error {serde : SerdeJson} (hserde : serde.Conforms)
    {provisioned : List ProvisionedProxySecret}
    (hp : input <+: utf8 (intoTransfer serde provisioned).1)
    (hne : input ≠ utf8 (intoTransfer serde provisioned).1)
    (he : readTransfer serde input = .error e) :
    (∃ source, e = .read source) ∨ ∃ line column, e = .parse line column := by
  have hnl : (10 : UInt8) ∉ input := fun hm =>
    newline_notMem_utf8 (newline_notMem_intoTransfer hserde provisioned) (hp.subset hm)
  rw [readTransfer, readLine, lineOf_of_notMem hnl] at he
  rcases hu : fromUtf8 input with _ | p <;> simp only [hu] at he
  · exact Or.inl ⟨_, (Except.error.inj he).symm⟩
  · have hcut : ∀ t, serde.fromStr p ≠ .ok t :=
      fromStr_prefix_intoTransfer hserde provisioned (prefix_of_fromUtf8 hp hu) fun heq =>
        hne (by rw [← heq, utf8_of_fromUtf8 hu])
    rcases hs : serde.fromStr p with ⟨line, column⟩ | t
    · simp only [Except.mapError, Checks.ok_bind, parseTransfer, hs] at he
      exact Or.inr ⟨line, column, (Except.error.inj he).symm⟩
    · exact absurd hs (hcut t)

/-- What a proxy that gave up is to blame on. -/
theorem proxyFault_of_ended (hserde : world.serde.Conforms)
    (h : (handshake world.serde).Course anyTurn
      ⟨.live (execute world invocation), [], Host.start⟩ c)
    (hp : c.outside.proxy = .mode (.ended (.error e)) calls) :
    ProxyFault world invocation c.trace c.outside.link.down.taken calls e := by
  have hs := (Host.Sound.course h).2.proxy
  rw [hp] at hs
  have hrun : Runs _ calls (.error e) := hs.1
  cases begun_of_runs hrun with
  | refused he =>
    obtain ⟨context, policy, provisioned, hprov, hsent⟩ :=
      (Host.Told.course h).carries (by rw [hp]; simp)
    have htaken := (Pipe.taken_prefix c.outside.link.down).trans hsent
    -- neither the line nor the line with its newline is refused
    have hwhole : ¬(c.outside.link.down.taken = utf8 (intoTransfer world.serde provisioned).1 ∨
        ∃ rest, c.outside.link.down.taken =
          utf8 (intoTransfer world.serde provisioned).1 ++ 10 :: rest) := by
      intro hin
      rw [readTransfer_line hserde hprov.ne_nil hprov.upstream hin] at he
      cases he
    rcases List.prefix_concat_iff.mp htaken with hall | hcut
    · exact absurd (Or.inr ⟨[], hall⟩) hwhole
    · have hne : c.outside.link.down.taken ≠ utf8 (intoTransfer world.serde provisioned).1 :=
        fun hall => hwhole (Or.inl hall)
      exact .cut (readTransfer_cut_error hserde hcut hne he) hprov hcut hne
  | unbound _ => exact .unbound List.mem_cons_self
  | unwritten _ => exact .unreported (Or.inl (List.mem_cons_of_mem _ List.mem_cons_self))
  | unflushed _ => exact @ProxyFault.unreported _ _ _ _ _ [] _ (Or.inr (by simp))

end

/-! ### The supervisor -/

section

variable {world : World} {invocation : Invocation}
  {c : Snapshot Call.Arg Call.Ans Failure Exit Host}

/-- What a line that could not be used is to blame on. -/
theorem sidecarFault_of_read (hread : ReadsReadiness world.readiness)
    (h : (handshake world.serde).Course anyTurn
      ⟨.live (execute world invocation), [], Host.start⟩ c)
    {read : Except IoError (List UInt8)} {e : SidecarError}
    (hm : (⟨.readinessRead, (), read⟩ : Effect) ∈ c.trace)
    (he : portOf world.readiness read = .error e) : SidecarFault c.trace c.outside e := by
  rcases read with source | bytes
  · obtain rfl : SidecarError.readiness source = e := Except.error.inj he
    exact .unread hm
  have hs := (Host.Sound.course h).2
  have hbytes := hs.reads bytes hm
  -- what was read is the beginning of a report
  obtain ⟨port, hline, hbinds⟩ : ∃ port, bytes <+: utf8 (readinessLine port) ∧
      (bytes ≠ [] → ∃ routes, c.outside.Binds routes (.ok port)) := by
    by_cases hne : c.outside.link.up.sent = []
    · have hnil : bytes = [] := List.prefix_nil.mp (hne ▸ hbytes)
      exact ⟨0, hnil ▸ List.nil_prefix, fun h => absurd hnil h⟩
    · obtain ⟨routes, port, -, hbinds, hline⟩ := hs.proxy.reported hne
      exact ⟨port, hbytes.trans hline, fun _ => ⟨routes, hbinds⟩⟩
  have hclosed : bytes <+: utf8 (readinessObject port) → c.outside.link.up.closed = true := by
    intro hp
    have hlength := (length_readinessLine_le port)
    rw [utf8_readinessLine, List.length_append, List.length_singleton] at hlength
    have hshort := hp.length_le
    rcases (Host.Told.course h).ended bytes hm with hten | hlimit | hclosed
    · exact absurd (hp.subset hten) (newline_notMem_readinessObject port)
    · omega
    · exact hclosed
  rcases portOf_error hread hline he with ⟨rfl, rfl⟩ | ⟨hne, hp, hcut, rfl⟩
  · exact .silent hm (hclosed List.nil_prefix)
  · obtain ⟨routes, hb⟩ := hbinds hne
    exact .cut hm hb hne hp hcut (hclosed hp)

/-- What a supervisor that gave its sidecar up is to blame on. -/
theorem sidecarFault_of_ended (hserde : world.serde.Conforms)
    (hread : ReadsReadiness world.readiness)
    (h : (handshake world.serde).Course anyTurn
      ⟨.live (execute world invocation), [], Host.start⟩ c) {e : SidecarError}
    (hp : c.process = .ended (.error (.sidecar e))) : SidecarFault c.trace c.outside e := by
  have hrun : Runs (execute world invocation) c.trace (.error (.sidecar e)) := by
    have hwithin := (Host.Sound.course h).1
    rw [Snapshot.Within, hp] at hwithin
    exact hwithin
  rcases beside_execute hrun with ⟨-, hne⟩ |
    ⟨context, policy, environment, provisioned, image, t₁, t₂, hprov, himage, htr, happart, hbes⟩
  · exact absurd rfl (hne e)
  rcases runBeside_parts hbes with ⟨e', he, h1⟩ | ⟨_, _, _, r', -, -, -, he⟩
  · obtain rfl := Failure.sidecar.inj (Except.error.inj he)
    rcases startSidecar_parts h1 with ⟨e', he', hun⟩ |
      ⟨name, draw, b, -, -, ⟨e', he', hawait, ht⟩ | ⟨_, he', -⟩⟩
    · obtain rfl := Except.error.inj he'
      have hnever : Never SidecarSpawned c.trace :=
        htr ▸ never_append happart.spawned hun.unspawned
      rcases hun with hline | _ | hnul | _
      · exact absurd hline (newline_notMem_intoTransfer hserde provisioned)
      · rename_i source
        refine @SidecarFault.unnamed _ _ source ?_ hnever
        rw [htr]
        exact List.mem_append_right _ (List.mem_singleton_self _)
      · -- no context that is accepted has a NUL byte, and no name or tag of iwaya's
        obtain ⟨digest, rfl⟩ := himage
        rw [hprov.startable] at hnul
        cases hnul
      · refine .unstarted ?_ hnever
        rw [htr]
        exact ⟨_, List.mem_append_right _ (List.mem_cons_of_mem _ List.mem_cons_self), rfl⟩
    · obtain rfl := Except.error.inj he'
      have hb : ∀ x ∈ b, x ∈ c.trace := fun x hx => by
        rw [htr, ht]
        simp [hx]
      rcases awaitReadiness_cases hawait with ⟨source, he', hun⟩ | ⟨read, rfl, he'⟩
      · obtain rfl := Except.error.inj he'
        refine .undelivered ?_
        rcases hun with _ | _
        · exact Or.inl ⟨_, hb _ List.mem_cons_self⟩
        · exact Or.inr (hb _ (List.mem_cons_of_mem _ List.mem_cons_self))
      · exact sidecarFault_of_read hread h (hb _ (by simp [startup])) he'.symm
    · cases he'
  · rcases r' with _ | _ <;> cases he

end

/-! ### Every startup -/

/-- **The reports of a startup that failed.** -/
structure Blame (world : World) (invocation : Invocation)
    (c : Snapshot Call.Arg Call.Ans Failure Exit Host) : Prop where
  /-- A proxy that is over without having served says what its fault is. -/
  proxy : ∀ r calls ended, c.outside.proxy = .mode (.ended r) calls →
    proxyEndedWith r = some ended →
    ∃ e, ended = .exited 6 (diagnostic e.display) ∧
      ProxyFault world invocation c.trace c.outside.link.down.taken calls e
  /-- So does a supervisor that is over because of its sidecar. -/
  supervisor : ∀ e, c.process = .ended (.error (.sidecar e)) →
    endedWith (.error (.sidecar e)) = .exited 6 (diagnostic
      ("proxy sidecar startup failed, nothing was executed: ".toList ++ e.display)) ∧
      SidecarFault c.trace c.outside e

/-- **No report blames the wrong thing.** In every course of the startup handshake: what a
proxy that gave up says is that a call of it failed, which did, or that it was left with no
document, and then its transfer was cut short; and what a supervisor says that gave its
sidecar up is that a call of it failed, or that nothing came, or nothing usable, and then the
output of the proxy had ended before the object in its report had. -/
theorem startup_blame {world : World} {invocation : Invocation}
    {c : Snapshot Call.Arg Call.Ans Failure Exit Host} (hserde : world.serde.Conforms)
    (hread : ReadsReadiness world.readiness)
    (h : (handshake world.serde).Course anyTurn
      ⟨.live (execute world invocation), [], Host.start⟩ c) : Blame world invocation c := by
  refine ⟨fun r calls ended hp hended => ?_, fun e hp => ⟨rfl, ?_⟩⟩
  · rcases r with e | ⟨routes, port⟩
    · exact ⟨e, (Option.some.inj hended).symm, proxyFault_of_ended hserde h hp⟩
    · cases hended
  · exact sidecarFault_of_ended hserde hread h hp

/-- The answers of the sample, with a proxy that says nothing. -/
def silentAnswers : Env Call.Ans
  | _, .readinessRead => .ok []
  | i, k => sampleAnswers i k

/-- Its supervisor asks for readiness, and gives the sidecar up. -/
theorem exec_silentAnswers :
    ((exec silentAnswers 0 (execute readinessWorld sampleInvocation)).1.map Event.kind)[12]? =
        some .readinessRead ∧
      ((exec silentAnswers 0 (execute readinessWorld sampleInvocation)).1.map Event.kind).drop 13 =
        [.sidecarRemove, .sidecarWait] ∧
      (exec silentAnswers 0 (execute readinessWorld sampleInvocation)).2 =
        .error (.sidecar .exitedBeforeReady) := by
  rw [execute_eq select_readinessWorld, readinessWorld, readinessReference_sample]
  exact ⟨rfl, rfl, rfl⟩

/-- The output of its proxy is at its end, as the supervisor says. -/
theorem startup_blame_silent : ∃ c, (handshake readinessWorld.serde).Course anyTurn
      ⟨.live (execute readinessWorld sampleInvocation), [], Host.start⟩ c ∧
    c.process = .ended (.error (.sidecar .exitedBeforeReady)) ∧
    SidecarFault c.trace c.outside .exitedBeforeReady := by
  obtain ⟨hread, hrest, hresult⟩ := exec_silentAnswers
  have hrun := runs_exec silentAnswers 0 (execute readinessWorld sampleInvocation)
  rw [hresult] at hrun
  rw [List.getElem?_map, Option.map_eq_some_iff] at hread
  obtain ⟨⟨k, x, ans⟩, hread, hk⟩ := hread
  obtain rfl : k = .readinessRead := hk
  obtain rfl : ans = .ok [] := ans_of_exec hread
  generalize (exec silentAnswers 0 (execute readinessWorld sampleInvocation)).1 = trace
    at hread hrest hrun
  rw [eq_append_of_getElem? hread] at hrun
  obtain ⟨s, hs, -, hup⟩ := @reaches_awaiting _ _ readinessWorld.serde _ _ _ _ hrun
  -- the output of the proxy ends with nothing in it
  have hend : (handshake readinessWorld.serde).answers
      { s with link := { s.link with up := s.link.up.close } } ⟨.readinessRead, (), .ok []⟩
      { s with link := { s.link with up := s.link.up.close } } := by
    have hans := @Host.Answers.reads { s with link := { s.link with up := s.link.up.close } }
    rw [hup] at hans
    rw [hup]
    exact hans (Or.inr (Or.inr ⟨rfl, rfl⟩))
  have hsilent := (hs.move .closes).answer hend
  -- what is left is to remove the container
  rw [← List.append_nil (trace.drop 13)] at hsilent
  have hcourse := (hsilent.answers fun x hx => ?_).over
  · have hblame := startup_blame SerdeJson.reference_conforms readsReadiness_reference hcourse
    exact ⟨_, hcourse, rfl, (hblame.supervisor _ rfl).2⟩
  have hkind : x.kind ∈ [Call.sidecarRemove, .sidecarWait] := by
    rw [← hrest, ← List.map_drop]
    exact List.mem_map_of_mem hx
  obtain ⟨k, a, ans⟩ := x
  simp only [List.mem_cons, List.not_mem_nil, or_false] at hkind
  rcases hkind with rfl | rfl
  · exact .other (by simp [Transfers, Call.stage]) (by simp [SidecarSpawned])
  · exact .other (by simp [Transfers, Call.stage]) (by simp [SidecarSpawned])

end Iwaya
