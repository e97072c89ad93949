import Iwaya.Foundation.Pipe
import Iwaya.Proxy.Readiness
import Iwaya.Execute.Startup

/-!
# The startup handshake

The supervisor and the proxy are two processes, connected by two pipes. The supervisor
writes the transfer and a newline, perhaps not all of it, closes the pipe, and reads one
line of what comes back; the proxy reads one line, and if it likes it binds its listener and
writes the port. Both pipes hand out what was written in pieces of any size and at any time,
and either process may be gone at any moment (`Iwaya.handshake`).

The invariant (`Iwaya.Host.Sound`) says of each pipe what is in it: what the one end has
written so far of what its program makes it write. All the rest is read off the two
programs: what comes back is a beginning of the line with the port that was bound, and what
was bound is what was written.
-/

namespace Iwaya

open Text Effects Trace

/-! ### The proxy and its pipes -/

/-- What connects the two processes. -/
structure Link where
  /-- From the supervisor to the standard input of the proxy. -/
  down : Pipe UInt8
  /-- From its standard output to the supervisor. -/
  up : Pipe UInt8
  /-- How much of what the supervisor is writing is written. -/
  delivered : ℕ
  /-- How much of what the proxy is writing is written. -/
  reported : ℕ

def Link.fresh : Link where
  down := .fresh
  up := .fresh
  delivered := 0
  reported := 0

/-- What a call of the proxy writes. -/
def reportBytes : (k : ProxyCall) → k.Arg → List UInt8
  | .writeReadiness, line => utf8 line
  | _, _ => []

/-- All of it was written. -/
def ProxyCall.wrote : (k : ProxyCall) → k.Ans → Prop
  | writeReadiness, ans => ans = Except.ok ()
  | _, _ => True

/-- When a call of the proxy returns. -/
inductive Link.Answers : Link → Event ProxyCall.Arg ProxyCall.Ans → Link → Prop
  | binds {s : Link} {routes : List ProxyRoute} {bound : Except Str UInt16} :
    Answers s ⟨.bindLoopback, routes, bound⟩ s
  /-- A write that succeeded has written everything. -/
  | writes {s : Link} {line : Str} {written : Except Str Unit}
    (h : written = .ok () → s.reported = (utf8 line).length) :
    Answers s ⟨.writeReadiness, line, written⟩ { s with reported := 0 }
  | flushes {s : Link} {flushed : Except Str Unit} : Answers s ⟨.flushReadiness, (), flushed⟩ s

/-- A piece of the line is written. -/
inductive Link.Reports : Option (Waiting ProxyCall.Arg) → Link → Unit → Link → Prop
  | mk {w : Option (Waiting ProxyCall.Arg)} {s : Link} {line : Str} {piece rest : List UInt8}
    (hw : w = some ⟨.writeReadiness, line⟩) (h : (utf8 line).drop s.reported = piece ++ rest)
    (ho : s.up.closed = false) :
    Reports w s () { s with up := s.up.put piece ho, reported := s.reported + piece.length }

/-- **What is around the proxy** once it has its line. Its end is for the supervisor's side
to tell. -/
def proxySide : Surroundings ProxyCall.Arg ProxyCall.Ans Link Unit where
  answers := Link.Answers
  moves := Link.Reports
  kills _ _ := False

/-! ### The supervisor and the proxy -/

/-- The proxy: not there, still reading its line, or in the mode in which it serves. -/
inductive Proxy where
  | absent
  | reading
  | mode (process : Process ProxyCall.Arg ProxyCall.Ans ProxyModeError (List ProxyRoute × UInt16))
    (calls : List (Event ProxyCall.Arg ProxyCall.Ans))

/-- The proxy is gone. -/
def Proxy.gone : Proxy → Proxy
  | absent => absent
  | reading => mode .killed []
  | mode _ calls => mode .killed calls

/-- **What is around the supervisor.** -/
structure Host where
  link : Link
  proxy : Proxy

def Host.start : Host where
  link := .fresh
  proxy := .absent

/-- A listener was asked for, for these routes, and this is what came of it: its port, or
why there is none. -/
def Host.Binds (s : Host) (routes : List ProxyRoute) (bound : Except Str UInt16) : Prop :=
  ∃ process calls, s.proxy = .mode process calls ∧
    (⟨.bindLoopback, routes, bound⟩ : Event ProxyCall.Arg ProxyCall.Ans) ∈ calls

/-- What a call of the supervisor writes. -/
def deliveryBytes : (k : Call) → k.Arg → List UInt8
  | .transferWrite, transfer => utf8 transfer
  | .newlineWrite, _ => [10]
  | _, _ => []

/-- All of it was written. -/
def Call.wrote : (k : Call) → k.Ans → Prop
  | transferWrite, ans => ans = .ok ()
  | newlineWrite, ans => ans = .ok ()
  | _, _ => True

/-- When a call of the supervisor returns, and what it does. -/
inductive Host.Answers : Host → Effect → Host → Prop
  /-- A proxy begins with an empty standard input. -/
  | starts {s : Host} {command : Command} :
    Answers s ⟨.sidecarRun, command, .ok ()⟩ { link := .fresh, proxy := .reading }
  /-- A write may fail with some of it written; if it succeeds, all of it is. -/
  | writes {s : Host} {e : Effect} (hk : e.kind = .transferWrite ∨ e.kind = .newlineWrite)
    (h : e.kind.wrote e.ans → s.link.delivered = (deliveryBytes e.kind e.arg).length) :
    Answers s e { s with link := { s.link with delivered := 0 } }
  | closes {s : Host} : Answers s ⟨.stdinClose, (), ()⟩
      { s with link := { s.link with down := s.link.down.close } }
  /-- A read ends with a line, at the limit, or at the end of the stream. -/
  | reads {s : Host} (h : 10 ∈ s.link.up.taken ∨ s.link.up.taken.length = readinessLimit ∨
      s.link.up.AtEnd) : Answers s ⟨.readinessRead, (), .ok s.link.up.taken⟩ s
  | cannotRead {s : Host} {source : IoError} : Answers s ⟨.readinessRead, (), .error source⟩ s
  /-- Nothing else touches the proxy, and what removes its container only ends it. -/
  | other {s : Host} {e : Effect} (ht : ¬Transfers e) (hs : ¬SidecarSpawned e) : Answers s e s

/-- What happens while the supervisor is in a call, or at any other time. -/
inductive Host.Moves (serde : SerdeJson) : Option (Waiting Call.Arg) → Host → Unit → Host → Prop
  /-- The supervisor has written another piece. -/
  | delivers {w : Option (Waiting Call.Arg)} {s : Host} {piece rest : List UInt8}
    (h : (waitingBytes deliveryBytes w).drop s.link.delivered = piece ++ rest)
    (ho : s.link.down.closed = false) :
    Moves serde w s () { s with
      link := { s.link with
        down := s.link.down.put piece ho
        delivered := s.link.delivered + piece.length } }
  /-- It takes another piece, as long as it has no line and is below the limit. -/
  | hears {w : Option (Waiting Call.Arg)} {s : Host} {piece rest : List UInt8}
    (hw : w = some ⟨.readinessRead, ()⟩) (hn : 10 ∉ s.link.up.taken)
    (hl : (s.link.up.taken ++ piece).length ≤ readinessLimit)
    (h : s.link.up.transit = piece ++ rest) :
    Moves serde w s () { s with link := { s.link with up := s.link.up.get piece rest h } }
  /-- The proxy takes another piece, as long as it has no line. -/
  | takes {w : Option (Waiting Call.Arg)} {s : Host} {piece rest : List UInt8}
    (hp : s.proxy = .reading) (hn : 10 ∉ s.link.down.taken)
    (h : s.link.down.transit = piece ++ rest) :
    Moves serde w s () { s with link := { s.link with down := s.link.down.get piece rest h } }
  /-- It has its line. -/
  | begins {w : Option (Waiting Call.Arg)} {s : Host} (hp : s.proxy = .reading)
    (h : 10 ∈ s.link.down.taken ∨ s.link.down.AtEnd) :
    Moves serde w s () { s with
      proxy := .mode (.live (runProxyMode serde s.link.down.taken)) [] }
  /-- It goes on. -/
  | goes {w : Option (Waiting Call.Arg)} {s : Host}
    {process process' :
      Process ProxyCall.Arg ProxyCall.Ans ProxyModeError (List ProxyRoute × UInt16)}
    {calls calls' : List (Event ProxyCall.Arg ProxyCall.Ans)}
    {t : Turn ProxyCall.Arg ProxyCall.Ans Unit} {link : Link} (hp : s.proxy = .mode process calls)
    (h : proxySide.Takes ⟨process, calls, s.link⟩ t ⟨process', calls', link⟩) :
    Moves serde w s () { link, proxy := .mode process' calls' }
  /-- The pipe is closed: by a proxy that gave up, or by what stands in between. -/
  | closes {w : Option (Waiting Call.Arg)} {s : Host} :
    Moves serde w s () { s with link := { s.link with up := s.link.up.close } }
  /-- The proxy is gone, and with it any end of what it wrote. -/
  | dies {w : Option (Waiting Call.Arg)} {s : Host} {kept : List UInt8}
    (h : kept <+: s.link.up.transit) :
    Moves serde w s ()
      { link := { s.link with up := s.link.up.sever kept h }, proxy := s.proxy.gone }

/-- **The handshake**, around the supervisor. A supervisor that is killed leaves the proxy
any part of what it wrote. -/
def handshake (serde : SerdeJson) : Surroundings Call.Arg Call.Ans Host Unit where
  answers := Host.Answers
  moves := Host.Moves serde
  kills s s' := ∃ kept h, s' = { s with link := { s.link with down := s.link.down.sever kept h } }

/-! ### The invariant -/

/-- **What is so of the proxy's side**: nothing is written before its mode begins; from then
on it is within its program, and what it wrote is a beginning of the line with the port it
bound for the routes it read. -/
def Proxy.Sound (serde : SerdeJson) (link : Link) : Proxy → Prop
  | absent | reading => link.up.sent = [] ∧ link.reported = 0
  | mode process calls =>
    Snapshot.Within (runProxyMode serde link.down.taken) ⟨process, calls, link⟩ ∧
      (∀ p, process = .live p → Feeds reportBytes (fun e => e.kind.wrote e.ans) calls
        process.waiting link.up.sent link.reported) ∧
      (link.up.sent ≠ [] → ∃ routes port, readTransfer serde link.down.taken = .ok routes ∧
        (⟨.bindLoopback, routes, Except.ok port⟩ : Event ProxyCall.Arg ProxyCall.Ans) ∈ calls ∧
        link.up.sent <+: utf8 (readinessLine port))

/-- **The invariant**: the supervisor feeds the one pipe, and what it read is a beginning of
what was written to the other. -/
structure Host.Sound (serde : SerdeJson) (c : Snapshot Call.Arg Call.Ans Failure Exit Host) :
    Prop where
  down : ∀ p, c.process = .live p → Feeds deliveryBytes (fun e => e.kind.wrote e.ans) c.trace
    c.process.waiting c.outside.link.down.sent c.outside.link.delivered
  reads : ∀ bytes, (⟨.readinessRead, (), .ok bytes⟩ : Effect) ∈ c.trace →
    bytes <+: c.outside.link.up.sent
  proxy : c.outside.proxy.Sound serde c.outside.link

/-- What is so of the proxy does not depend on the rest. -/
theorem Proxy.Sound.congr {serde : SerdeJson} {link link' : Link} {q : Proxy}
    (h : q.Sound serde link) (ht : link'.down.taken = link.down.taken)
    (hs : link'.up.sent = link.up.sent) (hr : link'.reported = link.reported) :
    q.Sound serde link' := by
  cases q with
  | absent => exact ⟨hs.trans h.1, hr.trans h.2⟩
  | reading => exact ⟨hs.trans h.1, hr.trans h.2⟩
  | mode process calls =>
    rw [Proxy.Sound, ht, hs, hr]
    exact h

/-- A proxy that is gone wrote what it wrote. -/
theorem Proxy.Sound.gone {serde : SerdeJson} {link : Link} {q : Proxy} (h : q.Sound serde link) :
    q.gone.Sound serde link := by
  cases q with
  | absent => exact h
  | reading =>
    exact ⟨⟨_, fun t r hr => hr⟩, fun p hp => (by cases hp), fun hne => absurd h.1 hne⟩
  | mode process calls =>
    obtain ⟨hwithin, -, hline⟩ := h
    refine ⟨?_, fun p hp => (by cases hp), hline⟩
    -- what it did begins a run, whether it was at its end or not
    rcases process with q | r | _
    · exact ⟨q, hwithin⟩
    · have hrun : Runs _ calls r := hwithin
      refine ⟨Prog.ofExcept r, fun t r' hr => ?_⟩
      obtain ⟨rfl, rfl⟩ := runs_ofExcept_iff.mp hr
      exact (List.append_nil calls).symm ▸ hrun
    · exact hwithin

/-- Any answers. -/
def anyAnswers : Env ProxyCall.Ans
  | _, .bindLoopback => Except.error []
  | _, .writeReadiness => Except.error []
  | _, .flushReadiness => Except.error []

section

variable {serde : SerdeJson} {s s' : Host} {link link' : Link}
  {process process' : Process ProxyCall.Arg ProxyCall.Ans ProxyModeError (List ProxyRoute × UInt16)}
  {calls calls' : List (Event ProxyCall.Arg ProxyCall.Ans)}
  {t : Turn ProxyCall.Arg ProxyCall.Ans Unit}

/-- A turn of the proxy leaves the supervisor's pipe alone. -/
theorem down_of_takes
    (h : proxySide.Takes ⟨process, calls, link⟩ t ⟨process', calls', link'⟩) :
    link'.down = link.down ∧ link'.delivered = link.delivered ∧ link.up.sent <+: link'.up.sent := by
  rcases h with h | h | _ | _ | h
  · rcases h with _ | _ | _
    · exact ⟨rfl, rfl, List.prefix_rfl⟩
    · exact ⟨rfl, rfl, List.prefix_rfl⟩
    · exact ⟨rfl, rfl, List.prefix_rfl⟩
  · rcases h with ⟨-, -, -⟩
    exact ⟨rfl, rfl, List.prefix_append _ _⟩
  · exact ⟨rfl, rfl, List.prefix_rfl⟩
  · exact ⟨rfl, rfl, List.prefix_rfl⟩
  · cases h

/-- A call of the proxy is answered: nothing is written, and if it was a write that
succeeded, all of it was. -/
theorem Link.Answers.feeds {e : Event ProxyCall.Arg ProxyCall.Ans}
    (h : Link.Answers link e link')
    (hfeeds : Feeds reportBytes (fun e => e.kind.wrote e.ans) calls (some ⟨e.kind, e.arg⟩)
      link.up.sent link.reported) (w : Option (Waiting ProxyCall.Arg)) :
    link'.up.sent = link.up.sent ∧ Feeds reportBytes (fun e => e.kind.wrote e.ans)
      (calls ++ [e]) w link'.up.sent link'.reported := by
  rcases h with _ | hall | _
  · exact ⟨rfl, hfeeds.answer_of_nil rfl⟩
  · exact ⟨rfl, hfeeds.answer hall⟩
  · exact ⟨rfl, hfeeds.answer_of_nil rfl⟩

/-- What the proxy is writing is the line with its port. -/
theorem reports_within {line : Str}
    {next : Except Str Unit → Prog ProxyCall.Arg ProxyCall.Ans ProxyModeError
      (List ProxyRoute × UInt16)} {input : List UInt8}
    (h : Snapshot.Within (runProxyMode serde input)
      (⟨.live (.call .writeReadiness line next), calls, link⟩ : Snapshot _ _ _ _ Link)) :
    ∃ routes port, readTransfer serde input = .ok routes ∧
      calls = [⟨.bindLoopback, routes, Except.ok port⟩] ∧ line = readinessLine port := by
  obtain ⟨t, r, hrun⟩ := h.exists_runs_call anyAnswers (Except.error [])
  exact runProxyMode_write hrun

/-- **A turn of the proxy keeps what is so of it.** -/
theorem Proxy.Sound.takes (hs : (Proxy.mode process calls).Sound serde link)
    (h : proxySide.Takes ⟨process, calls, link⟩ t ⟨process', calls', link'⟩) :
    (Proxy.mode process' calls').Sound serde link' := by
  obtain ⟨hwithin, hfeeds, hline⟩ := hs
  have hdown := (down_of_takes h).1
  have hwithin' := Surroundings.Takes.within h hwithin
  rw [← hdown] at hwithin' hline
  refine ⟨hwithin', ?_⟩
  rcases h with h | ⟨⟨hw, hpiece, ho⟩⟩ | _ | _ | h
  · -- a call is answered: what was written stays what it was
    refine ⟨fun p hp => ?_, fun hne => ?_⟩
    · cases hp
      exact (Link.Answers.feeds h (hfeeds _ rfl) _).2
    · have hsent := (Link.Answers.feeds h (hfeeds _ rfl) none).1
      obtain ⟨routes, port, hread, hbound, hprefix⟩ := hline (hsent ▸ hne)
      exact ⟨routes, port, hread, List.mem_append_left _ hbound, hsent ▸ hprefix⟩
  · -- a piece is written, of the line with the port
    rename_i line piece rest
    have hput : ∀ p, process = .live p → Feeds reportBytes (fun e => e.kind.wrote e.ans) calls
        process.waiting (link.up.sent ++ piece) (link.reported + piece.length) :=
      fun p hp => (hfeeds p hp).put (by rw [hw]; exact hpiece)
    refine ⟨hput, fun _ => ?_⟩
    rcases process with (_ | _ | ⟨_, _, next⟩) | _ | _ <;> cases hw
    obtain ⟨routes, port, hread, rfl, rfl⟩ := reports_within hwithin
    have hsent := (hput _ rfl).sent_eq fun e he hne => (by
      obtain rfl := List.mem_singleton.mp he
      exact absurd rfl hne)
    refine ⟨routes, port, hread, List.mem_singleton_self _, ?_⟩
    rw [Pipe.sent_put, hsent]
    exact List.take_prefix _ _
  · exact ⟨fun p hp => (by cases hp), hline⟩
  · exact ⟨fun p hp => (by cases hp), hline⟩
  · cases h

end

/-! ### What a turn keeps -/

section

variable {world : World} {invocation : Invocation} {serde : SerdeJson} {s s' : Host} {e : Effect}
  {tr : List Effect} {r : Except Failure Exit}

/-- Nothing is written to a proxy, or read from one, before it is there, and there is no
other. -/
theorem apart_before {a b : List Effect} (h : Runs (execute world invocation) (a ++ e :: b) r)
    (he : SidecarSpawned e) : ∀ x ∈ a, ¬Transfers x ∧ ¬SidecarSpawned x := by
  rcases sidecarLife_execute h with hn | ⟨_, _, _, _, p, q, hcut, -, htr, -⟩
  · exact absurd he (hn.spawned e (by simp))
  · obtain ⟨rfl, -, -⟩ := hcut.unique rfl he
    exact fun x hx => ⟨htr x hx, hcut.never x (List.mem_append_left _ hx)⟩

/-- What does not transfer does not write. -/
theorem deliveryBytes_of_not_transfers (h : ¬Transfers e) : deliveryBytes e.kind e.arg = [] := by
  obtain ⟨k, x, ans⟩ := e
  cases k <;> first | rfl | exact absurd rfl h

/-- Other effects report nothing. -/
theorem reads_append {bytes : List UInt8}
    (hreads : ∀ bytes, (⟨.readinessRead, (), .ok bytes⟩ : Effect) ∈ tr → bytes <+: s.link.up.sent)
    (he : ∀ bytes, e ≠ ⟨.readinessRead, (), .ok bytes⟩)
    (hm : (⟨.readinessRead, (), .ok bytes⟩ : Effect) ∈ tr ++ [e]) : bytes <+: s.link.up.sent := by
  rcases List.mem_append.mp hm with hm | hm
  · exact hreads bytes hm
  · exact absurd (List.mem_singleton.mp hm).symm (he bytes)

/-- **An answer keeps the invariant.** -/
theorem Host.Sound.answers {p p' : Prog Call.Arg Call.Ans Failure Exit}
    (hs : Host.Sound serde ⟨.live p, tr, s⟩)
    (hp : Process.waiting (.live p) = some ⟨e.kind, e.arg⟩)
    (hbefore : SidecarSpawned e → Never Transfers tr) (h : Host.Answers s e s') :
    Host.Sound serde ⟨.live p', tr ++ [e], s'⟩ := by
  have hdown := hs.down p rfl
  rw [hp] at hdown
  rcases h with _ | ⟨hk, hall⟩ | _ | hread | _ | ⟨ht, hspawned⟩
  · -- a new proxy, and nothing was written or read before it
    rename_i command
    have hnever := hbefore ⟨command, rfl⟩
    refine ⟨fun _ _ => feeds_fresh ?_, fun bytes hm => ?_, ⟨rfl, rfl⟩⟩
    · refine List.flatMap_eq_nil_iff.mpr fun x hx => ?_
      rcases List.mem_append.mp hx with hx | hx
      · exact deliveryBytes_of_not_transfers (hnever x hx)
      · rw [List.mem_singleton.mp hx]
        rfl
    · rcases List.mem_append.mp hm with hm | hm
      · exact absurd rfl (hnever _ hm)
      · cases List.mem_singleton.mp hm
  · refine ⟨fun _ _ => hdown.answer hall, fun bytes => reads_append hs.reads fun bytes he => ?_,
      hs.proxy.congr rfl rfl rfl⟩
    rw [he] at hk
    rcases hk with hk | hk <;> cases hk
  · exact ⟨fun _ _ => hdown.answer_of_nil rfl, fun bytes => reads_append hs.reads (by simp),
      hs.proxy.congr rfl rfl rfl⟩
  · refine ⟨fun _ _ => hdown.answer_of_nil rfl, fun bytes hm => ?_, hs.proxy⟩
    rcases List.mem_append.mp hm with hm | hm
    · exact hs.reads bytes hm
    · cases List.mem_singleton.mp hm
      exact s.link.up.taken_prefix
  · exact ⟨fun _ _ => hdown.answer_of_nil rfl, fun bytes => reads_append hs.reads (by simp),
      hs.proxy⟩
  · refine ⟨fun _ _ => hdown.answer_of_nil (deliveryBytes_of_not_transfers ht),
      fun bytes => reads_append hs.reads fun bytes he => ?_, hs.proxy⟩
    rw [he] at ht
    exact ht rfl

/-- **So does a move.** -/
theorem Host.Sound.moves {process : Process Call.Arg Call.Ans Failure Exit}
    (hs : Host.Sound serde ⟨process, tr, s⟩) (h : Host.Moves serde process.waiting s () s') :
    Host.Sound serde ⟨process, tr, s'⟩ := by
  obtain ⟨hdown, hreads, hproxy⟩ := hs
  rcases h with ⟨hpiece, ho⟩ | _ | ⟨hp, -, -⟩ | ⟨hp, -⟩ | ⟨hp, htake⟩ | _ | _
  · exact ⟨fun p hp => (hdown p hp).put hpiece, hreads, hproxy.congr rfl rfl rfl⟩
  · exact ⟨hdown, hreads, hproxy.congr rfl rfl rfl⟩
  · -- while it reads, nothing depends on what it has read
    refine ⟨hdown, hreads, ?_⟩
    rw [hp] at hproxy ⊢
    exact hproxy
  · refine ⟨hdown, hreads, ?_⟩
    rw [hp] at hproxy
    obtain ⟨hsent, hreported⟩ := hproxy
    refine ⟨fun t r hr => hr, fun p _ => ?_, fun hne => absurd hsent hne⟩
    rw [hsent, hreported]
    exact feeds_fresh rfl
  · rw [hp] at hproxy
    obtain ⟨hd, hdelivered, hup⟩ := down_of_takes htake
    refine ⟨fun p hp => ?_, fun bytes hm => (hreads bytes hm).trans hup, hproxy.takes htake⟩
    rw [hd, hdelivered]
    exact hdown p hp
  · exact ⟨hdown, hreads, hproxy.congr rfl rfl rfl⟩
  · exact ⟨hdown, hreads, hproxy.gone.congr rfl rfl rfl⟩

/-- **The invariant holds in every course.** -/
theorem Host.Sound.course {c : Snapshot Call.Arg Call.Ans Failure Exit Host}
    (h : (handshake serde).Course anyTurn ⟨.live (execute world invocation), [], Host.start⟩ c) :
    c.Within (execute world invocation) ∧ Host.Sound serde c := by
  refine h.keeps ⟨fun _ _ => feeds_fresh rfl, by simp, ⟨rfl, rfl⟩⟩ ?_
  rintro c t c' hc hs (hans | hmove | _ | _ | ⟨kept, hk, rfl⟩) -
  · refine hs.answers rfl (fun he => ?_) hans
    obtain ⟨t, r, hrun⟩ := hc.exists_runs_call sampleAnswers _
    exact fun x hx => (apart_before hrun he x hx).1
  · exact hs.moves hmove
  · exact ⟨fun p hp => (by cases hp), hs.reads, hs.proxy⟩
  · exact ⟨fun p hp => (by cases hp), hs.reads, hs.proxy⟩
  · exact ⟨fun p hp => (by cases hp), hs.reads, hs.proxy.congr rfl rfl rfl⟩

end

end Iwaya
