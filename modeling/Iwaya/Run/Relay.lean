import Iwaya.Foundation.Surroundings
import Iwaya.Execute.Segments

/-!
# The signal relay

While the target runs, two threads of iwaya share its process id. One is in `supervise`:
it waits, and the wait that returns a status reaps the target. The other takes the
signals that were caught, one at a time, and sends each to the process id it was given.
Closing the handle of the signals ends the second, but the first comes to that only after
the wait has returned, and from the reaping on the process id may be another process's.

So whether a signal hits a stranger is decided by what is still unsent when the target is
reaped, and by what arrives before the relay has seen the handle closed
(`Iwaya.spares_strangers`).
-/

namespace Iwaya

open Text Effects Relation

/-! ### The system -/

/-- The signals that are caught and forwarded. -/
inductive ForwardedSignal where
  | sigint
  | sigterm
  | sighup
  | sigquit
  deriving DecidableEq

/-- What has become of the target. It keeps its process id until it is reaped. -/
inductive Life where
  | running
  | exited
  | reaped
  deriving DecidableEq

/-- The supervised child. -/
structure Child where
  pid : ℕ
  life : Life

/-- Where the relay thread is: between two signals, past the test of the handle, with a
signal in hand, or at its end. -/
inductive Relaying where
  | idle
  | polling
  | holding (signal : ForwardedSignal)
  | finished

/-- The relay thread, with the process id it was given. -/
structure Relay where
  pid : ℕ
  state : Relaying

/-- A signal that was sent, with what the child was at that moment. -/
structure Kill where
  pid : ℕ
  signal : ForwardedSignal
  child : Option Child

/-- **What is around the supervising thread.** -/
structure Scene where
  /-- The handlers are registered. -/
  registered : Bool
  /-- The handle of the signals is closed. -/
  closed : Bool
  /-- The signals that were caught and not taken. -/
  pending : List ForwardedSignal
  child : Option Child
  relay : Option Relay
  /-- What the relay sent. -/
  sent : List Kill

/-- Sending a signal to a process id, whatever has it now. -/
def forwardSignal (pid : ℕ) (signal : ForwardedSignal) (s : Scene) : Scene :=
  { s with sent := s.sent ++ [⟨pid, signal, s.child⟩] }

/-- What happens beside the supervising thread. -/
inductive Moment where
  /-- The child ends. -/
  | exits
  /-- A forwarded signal arrives. -/
  | arrives (signal : ForwardedSignal)
  /-- The handle is closed, the relay not yet joined. -/
  | closes
  /-- The relay finds the handle open. -/
  | polls
  /-- It finds no signal, and goes back. -/
  | retries
  /-- It takes a signal. -/
  | takes
  /-- It sends it. -/
  | sends
  /-- It finds the handle closed. -/
  | ends

/-- What a call of the supervising thread does, and when it can return. -/
inductive Scene.Answers : Scene → Effect → Scene → Prop
  | registers {s : Scene} : Answers s ⟨.signalsRegister, (), .ok ()⟩ { s with registered := true }
  | cannotRegister {s : Scene} {source : IoError} :
    Answers s ⟨.signalsRegister, (), .error source⟩ s
  /-- The relay is started with the process id of the child. -/
  | spawns {s : Scene} {command : Command} (pid : ℕ) :
    Answers s ⟨.targetSpawn, command, .ok ()⟩
      { s with child := some ⟨pid, .running⟩, relay := some ⟨pid, .idle⟩ }
  | cannotSpawn {s : Scene} {command : Command} {source : IoError} :
    Answers s ⟨.targetSpawn, command, .error source⟩ s
  /-- A wait that returns a status has reaped the child. -/
  | waits {s : Scene} {pid : ℕ} {status : ExitStatus} (h : s.child = some ⟨pid, .exited⟩) :
    Answers s ⟨.targetWait, (), .ok status⟩ { s with child := some ⟨pid, .reaped⟩ }
  | cannotWait {s : Scene} {source : IoError} : Answers s ⟨.targetWait, (), .error source⟩ s
  /-- The relay is joined once it has ended. -/
  | joins {s : Scene} (hc : s.closed = true)
    (h : ∀ relay, s.relay = some relay → relay.state = .finished) :
    Answers s ⟨.relayClose, (), ()⟩ s
  | kills {s : Scene} : Answers s ⟨.targetKill, (), ()⟩ s
  | reaps {s : Scene} {pid : ℕ} (h : s.child = some ⟨pid, .exited⟩) :
    Answers s ⟨.targetReap, (), ()⟩ { s with child := some ⟨pid, .reaped⟩ }
  | cannotReap {s : Scene} : Answers s ⟨.targetReap, (), ()⟩ s

/-- What happens beside it. Signals of one kind that were not taken yet are one. -/
inductive Scene.Moves : Option (Waiting Call.Arg) → Scene → Moment → Scene → Prop
  | exits {q : Option (Waiting Call.Arg)} {s : Scene} {pid : ℕ}
    (h : s.child = some ⟨pid, .running⟩) :
    Moves q s .exits { s with child := some ⟨pid, .exited⟩ }
  | arrives {q : Option (Waiting Call.Arg)} {s : Scene} (signal : ForwardedSignal)
    (h : s.registered = true) :
    Moves q s (.arrives signal) { s with pending := s.pending.insert signal }
  | closes {q : Option (Waiting Call.Arg)} {s : Scene} (h : q = some ⟨.relayClose, ()⟩) :
    Moves q s .closes { s with closed := true }
  | polls {q : Option (Waiting Call.Arg)} {s : Scene} {pid : ℕ} (h : s.relay = some ⟨pid, .idle⟩)
    (ho : s.closed = false) : Moves q s .polls { s with relay := some ⟨pid, .polling⟩ }
  | retries {q : Option (Waiting Call.Arg)} {s : Scene} {pid : ℕ}
    (h : s.relay = some ⟨pid, .polling⟩) :
    Moves q s .retries { s with relay := some ⟨pid, .idle⟩ }
  | takes {q : Option (Waiting Call.Arg)} {s : Scene} {pid : ℕ} {signal : ForwardedSignal}
    (h : s.relay = some ⟨pid, .polling⟩) (hp : signal ∈ s.pending) :
    Moves q s .takes
      { s with relay := some ⟨pid, .holding signal⟩, pending := s.pending.erase signal }
  | sends {q : Option (Waiting Call.Arg)} {s : Scene} {pid : ℕ} {signal : ForwardedSignal}
    (h : s.relay = some ⟨pid, .holding signal⟩) :
    Moves q s .sends (forwardSignal pid signal { s with relay := some ⟨pid, .idle⟩ })
  | ends {q : Option (Waiting Call.Arg)} {s : Scene} {pid : ℕ} (h : s.relay = some ⟨pid, .idle⟩)
    (hc : s.closed = true) : Moves q s .ends { s with relay := some ⟨pid, .finished⟩ }

/-- **The surroundings of the supervising thread.** A process that is killed takes its
relay with it. -/
def relaySurroundings : Surroundings Call.Arg Call.Ans Scene Moment where
  answers := Scene.Answers
  moves := Scene.Moves
  kills s s' := s' = { s with relay := s.relay.map fun relay => { relay with state := .finished } }

/-- Supervision under way. -/
abbrev Supervision : Type := Snapshot Call.Arg Call.Ans ExecError UInt8 Scene

/-- Supervision that has not done anything. -/
def Supervision.start (command : Command) (runtime : Str) : Supervision :=
  ⟨.live (supervise command runtime), [], ⟨false, false, [], none, none, []⟩⟩

/-- **No stranger was hit**: every signal went to the child, before it was reaped. -/
def Supervision.Spares (c : Supervision) : Prop :=
  ∀ kill ∈ c.outside.sent, ∃ life, life ≠ .reaped ∧ kill.child = some ⟨kill.pid, life⟩

namespace Scene

/-- The child is reaped. -/
def Reaped (s : Scene) : Prop := ∃ pid, s.child = some ⟨pid, .reaped⟩

/-- A caught signal is not sent yet. -/
def Unsent (s : Scene) : Prop :=
  s.pending ≠ [] ∨ ∃ pid signal, s.relay = some ⟨pid, .holding signal⟩

/-- The relay can still take a signal. -/
def Listening (s : Scene) : Prop :=
  ∃ pid, s.relay = some ⟨pid, .polling⟩ ∨ (s.relay = some ⟨pid, .idle⟩ ∧ s.closed = false)

end Scene

/-- **The condition on a turn**: the wait does not reap the child over an unsent signal,
and no signal arrives after that while the relay can take it. -/
structure Careful (c : Supervision) (t : Turn Call.Arg Call.Ans Moment) : Prop where
  waits : ∀ status, t = .answer ⟨.targetWait, (), .ok status⟩ → ¬c.outside.Unsent
  arrives : ∀ signal, t = .move (.arrives signal) → c.outside.Reaped → ¬c.outside.Listening

/-! ### The order of the calls -/

section

variable {command : Command} {runtime : Str} {r : Except ExecError UInt8}

/-- What supervision can call, in its order. -/
def superviseKinds : List (List Call) :=
  [[.signalsRegister], [.signalsRegister, .relayClose],
    [.signalsRegister, .targetSpawn, .relayClose],
    [.signalsRegister, .targetSpawn, .targetWait, .relayClose],
    [.signalsRegister, .targetSpawn, .targetWait, .relayClose, .targetKill, .targetReap]]

theorem kinds_supervise {tr : List Effect} (h : Runs (supervise command runtime) tr r) :
    tr.map Event.kind ∈ superviseKinds := by
  rcases supervise_cases h with ⟨_, -, rfl⟩ | ⟨_, rfl, ⟨_, -, rfl | rfl⟩ | ⟨_, rfl, hw⟩⟩
  · simp [superviseKinds]
  · simp [superviseKinds]
  · simp [superviseKinds]
  · rcases waitForTarget_cases hw with ⟨_, -, rfl⟩ | ⟨_, -, rfl⟩ <;> simp [superviseKinds]

/-- What is called before a call, as far as the order decides it. -/
theorem kinds_before {P : Call → List Call → Prop}
    (hP : ∀ l ∈ superviseKinds, ∀ i < l.length, ∀ k ∈ l[i]?, P k (l.take i)) {tr t : List Effect}
    {e : Effect} (h : Runs (supervise command runtime) (tr ++ e :: t) r) :
    P e.kind (tr.map Event.kind) := by
  have hmem := kinds_supervise h
  rw [List.map_append, List.map_cons] at hmem
  have hk := hP _ hmem (tr.map Event.kind).length (by simp) e.kind (by simp)
  rwa [List.take_left] at hk

/-- The handle is closed after the wait, and before the killed child is reaped. -/
theorem closes_between {tr t : List Effect} {e : Effect}
    (h : Runs (supervise command runtime) (tr ++ e :: t) r) :
    (e.kind = .targetSpawn ∨ e.kind = .targetWait → Call.relayClose ∉ tr.map Event.kind) ∧
      (e.kind = .targetReap → Call.relayClose ∈ tr.map Event.kind) :=
  @kinds_before _ _ _ (fun k before =>
    (k = .targetSpawn ∨ k = .targetWait → Call.relayClose ∉ before) ∧
      (k = .targetReap → Call.relayClose ∈ before)) (by decide) _ _ _ h

end

/-! ### What every turn keeps -/

/-- The relay works for the child that was started, and is joined by the close. -/
structure Linked (c : Supervision) : Prop where
  pids : c.outside.relay.map Relay.pid = c.outside.child.map Child.pid
  closing : c.outside.closed = true → Call.relayClose ∈ c.trace.map Event.kind ∨
    c.process.waiting = some ⟨.relayClose, ()⟩ ∨ c.process = .killed
  finished : ∀ pid, c.outside.relay = some ⟨pid, .finished⟩ →
    c.outside.closed = true ∨ c.process = .killed
  joined : Call.relayClose ∈ c.trace.map Event.kind →
    ∀ relay, c.outside.relay = some relay → relay.state = .finished

variable {command : Command} {runtime : Str} {c c' : Supervision}
  {t : Turn Call.Arg Call.Ans Moment}

theorem linked_start : Linked (Supervision.start command runtime) where
  pids := rfl
  closing h := by cases h
  finished pid h := by cases h
  joined h := by cases h

/-- What an answer does to the relay: nothing, but that the spawn starts it. -/
theorem Scene.Answers.relay {s s' : Scene} {e : Effect} (h : s.Answers e s') :
    s'.closed = s.closed ∧
      ((s'.relay = s.relay ∧ s'.child.map Child.pid = s.child.map Child.pid) ∨
        (e.kind = .targetSpawn ∧ ∃ pid, s'.relay = some ⟨pid, .idle⟩ ∧
          s'.child = some ⟨pid, .running⟩)) := by
  cases h with
  | spawns pid => exact ⟨rfl, Or.inr ⟨rfl, pid, rfl, rfl⟩⟩
  | waits h => exact ⟨rfl, Or.inl ⟨rfl, by rw [h]; rfl⟩⟩
  | reaps h => exact ⟨rfl, Or.inl ⟨rfl, by rw [h]; rfl⟩⟩
  | _ => exact ⟨rfl, Or.inl ⟨rfl, rfl⟩⟩

/-- A close that returned has joined the relay. -/
theorem Scene.Answers.joined {s s' : Scene} {e : Effect} (h : s.Answers e s')
    (he : e.kind = .relayClose) : ∀ relay, s.relay = some relay → relay.state = .finished := by
  cases h with
  | joins hc h => exact h
  | _ => cases he

/-- The relay has the process id of the child. -/
theorem Linked.child (hl : Linked c) {pid : ℕ} {state : Relaying}
    (hr : c.outside.relay = some ⟨pid, state⟩) : ∃ life, c.outside.child = some ⟨pid, life⟩ := by
  obtain ⟨⟨pid', life⟩, hch, rfl⟩ := Option.map_eq_some_iff.mp
    (hl.pids.symm.trans (congrArg (Option.map Relay.pid) hr))
  exact ⟨life, hch⟩

/-- A child has a relay. -/
theorem Linked.relay (hl : Linked c) {pid : ℕ} {life : Life}
    (hch : c.outside.child = some ⟨pid, life⟩) :
    ∃ state, c.outside.relay = some ⟨pid, state⟩ := by
  obtain ⟨⟨pid', state⟩, hr, rfl⟩ := Option.map_eq_some_iff.mp
    (hl.pids.trans (congrArg (Option.map Child.pid) hch))
  exact ⟨state, hr⟩

/-- A relay that moves was not joined, and ends only once the handle is closed. -/
theorem Linked.moved {q : Process Call.Arg Call.Ans ExecError UInt8} {tr : List Effect}
    {s s' : Scene} (hl : Linked ⟨q, tr, s⟩) {pid : ℕ} {state state' : Relaying}
    (hr : s.relay = some ⟨pid, state⟩) (hn : state ≠ .finished) (hc : s'.closed = s.closed)
    (hch : s'.child = s.child) (hr' : s'.relay = some ⟨pid, state'⟩)
    (hf : state' = .finished → s.closed = true) : Linked ⟨q, tr, s'⟩ where
  pids := by
    have hp := hl.pids
    simp only [hr] at hp
    simp only [hr', hch]
    exact hp
  closing h := hl.closing (hc ▸ h)
  finished _ h := by
    rw [hr'] at h
    cases h
    exact Or.inl (hc.trans (hf rfl))
  joined h := absurd (hl.joined h _ hr) hn

/-- A call that is answered keeps the relay linked: it starts it, or finds it joined, or
leaves it alone. -/
theorem Linked.answered {k : Call} {x : k.Arg} {ans : k.Ans} {tr : List Effect}
    {next : k.Ans → Prog Call.Arg Call.Ans ExecError UInt8} {s s' : Scene}
    (hl : Linked ⟨.live (.call k x next), tr, s⟩) (ha : s.Answers ⟨k, x, ans⟩ s')
    (hspawn : k = .targetSpawn → Call.relayClose ∉ tr.map Event.kind) :
    Linked ⟨.live (next ans), tr ++ [⟨k, x, ans⟩], s'⟩ := by
  obtain ⟨hpids, hclosing, hfinished, hjoined⟩ := hl
  obtain ⟨hclosed, hrelay⟩ := Scene.Answers.relay ha
  simp only at hpids hclosing hfinished hjoined
  refine ⟨?_, fun hc => Or.inl ?_, fun pid hf => Or.inl ?_, fun hj => ?_⟩
  · rcases hrelay with ⟨hr, hp⟩ | ⟨-, pid, hr, hch⟩
    · rw [hr, hp, hpids]
    · rw [hr, hch]
      rfl
  · -- a call answered after the close is the close itself
    rw [List.map_append, List.mem_append]
    rcases hclosing (hclosed ▸ hc) with hin | hwait | hdead
    · exact Or.inl hin
    · obtain ⟨rfl, -⟩ := Waiting.mk.inj (Option.some.inj hwait)
      exact Or.inr (List.mem_singleton_self _)
    · cases hdead
  · rcases hrelay with ⟨hr, -⟩ | ⟨-, pid', hr, -⟩
    · rcases hfinished pid (hr ▸ hf) with hc | hdead
      · exact hclosed.trans hc
      · cases hdead
    · rw [hr] at hf
      cases hf
  · rw [List.map_append, List.mem_append] at hj
    rcases hrelay with ⟨hr, -⟩ | ⟨hkind, -⟩
    · rw [hr]
      rcases hj with hj | hj
      · exact hjoined hj
      · exact Scene.Answers.joined ha (List.mem_singleton.mp hj).symm
    · -- nothing was closed when the target is started
      rcases hj with hj | hj
      · exact absurd hj (hspawn hkind)
      · rw [List.map_singleton, List.mem_singleton] at hj
        rw [hkind] at hj
        cases hj

/-- A move of the surroundings keeps it linked. -/
theorem Linked.moves {q : Process Call.Arg Call.Ans ExecError UInt8} {tr : List Effect}
    {s s' : Scene} {l : Moment} (hl : Linked ⟨q, tr, s⟩) (hm : s.Moves q.waiting l s') :
    Linked ⟨q, tr, s'⟩ := by
  cases hm with
  | exits h => exact ⟨hl.pids.trans (by rw [h]; rfl), hl.closing, hl.finished, hl.joined⟩
  | arrives signal h => exact ⟨hl.pids, hl.closing, hl.finished, hl.joined⟩
  | closes h => exact ⟨hl.pids, fun _ => Or.inr (Or.inl h), fun _ _ => Or.inl rfl, hl.joined⟩
  | polls h ho => exact hl.moved h (by simp) rfl rfl rfl (by simp)
  | retries h => exact hl.moved h (by simp) rfl rfl rfl (by simp)
  | takes h hp => exact hl.moved h (by simp) rfl rfl rfl (by simp)
  | sends h => exact hl.moved h (by simp) rfl rfl rfl (by simp)
  | ends h hc => exact hl.moved h (by simp) rfl rfl rfl (fun _ => hc)

/-- **One turn keeps the relay linked.** -/
theorem linked_step (hw : c.Within (supervise command runtime)) (hl : Linked c)
    (ht : relaySurroundings.Takes c t c') : Linked c' := by
  rcases ht with @⟨k, x, next, tr, s, s', ans, ha⟩ | @⟨q, tr, s, s', l, hm⟩ | _ | _ | hk
  · obtain ⟨t, r, hrun⟩ := hw.exists_runs_call sampleAnswers ans
    exact hl.answered ha fun hspawn => (closes_between hrun).1 (Or.inl hspawn)
  · exact hl.moves hm
  · obtain ⟨hpids, hclosing, hfinished, hjoined⟩ := hl
    exact ⟨hpids, fun hc => by simpa [Process.waiting] using hclosing hc,
      fun pid hf => by simpa using hfinished pid hf, hjoined⟩
  · obtain ⟨hpids, hclosing, hfinished, hjoined⟩ := hl
    exact ⟨hpids, fun hc => by simpa [Process.waiting] using hclosing hc,
      fun pid hf => by simpa using hfinished pid hf, hjoined⟩
  · obtain rfl := hk
    refine ⟨?_, fun _ => Or.inr (Or.inr rfl), fun _ _ => Or.inr rfl, fun hj relay hr => ?_⟩
    · simpa [Option.map_map, Function.comp_def] using hl.pids
    · obtain ⟨relay', -, rfl⟩ := Option.map_eq_some_iff.mp hr
      rfl

/-! ### Careful courses -/

/-- Nothing that was caught can be sent any more. -/
def Scene.Silent (s : Scene) : Prop :=
  (∀ pid signal, s.relay ≠ some ⟨pid, .holding signal⟩) ∧ (s.pending ≠ [] → ¬s.Listening)

/-- A relay that has ended sends nothing. -/
theorem silent_of_finished {s : Scene}
    (h : ∀ relay, s.relay = some relay → relay.state = .finished) : s.Silent := by
  refine ⟨fun pid signal hr => ?_, fun _ => ?_⟩
  · cases h _ hr
  · rintro ⟨pid, hr | ⟨hr, -⟩⟩ <;> cases h _ hr

/-- **What a careful turn keeps**: from the reaping on the relay is silent. -/
structure Settled (c : Supervision) : Prop extends Linked c where
  silent : c.outside.Reaped → c.outside.Silent
  spares : c.Spares

/-- A relay that is silent, and is not given a signal, stays so. -/
theorem Scene.Moves.silent {q : Option (Waiting Call.Arg)} {s s' : Scene} {l : Moment}
    (h : s.Moves q l s') (hs : s.Silent) (hl : ∀ signal, l = .arrives signal → ¬s.Listening) :
    s'.Silent := by
  obtain ⟨hheld, hleft⟩ := hs
  cases h with
  | exits h => exact ⟨hheld, hleft⟩
  | arrives signal h => exact ⟨hheld, fun _ => hl signal rfl⟩
  | closes h =>
    refine ⟨hheld, fun hp ⟨pid, hr⟩ => hleft hp ⟨pid, ?_⟩⟩
    rcases hr with hr | ⟨-, hc⟩
    · exact Or.inl hr
    · cases hc
  | polls h ho =>
    exact ⟨fun _ _ hr => by simp at hr, fun hp _ => hleft hp ⟨_, Or.inr ⟨h, ho⟩⟩⟩
  | retries h => exact ⟨fun _ _ hr => by simp at hr, fun hp _ => hleft hp ⟨_, Or.inl h⟩⟩
  | takes h hp =>
    -- there is nothing to take
    exact absurd ⟨_, Or.inl h⟩ (hleft (List.ne_nil_of_mem hp))
  | sends h => exact absurd h (hheld _ _)
  | ends h hc => exact silent_of_finished fun relay hr => by rw [← Option.some.inj hr]

/-- **One careful turn keeps the relay settled.** -/
theorem settled_step (hw : c.Within (supervise command runtime)) (hs : Settled c)
    (ht : relaySurroundings.Takes c t c') (hok : Careful c t) : Settled c' := by
  have hl := linked_step hw hs.toLinked ht
  refine ⟨hl, ?_, ?_⟩
  · rcases ht with @⟨k, x, next, tr, s, s', ans, ha⟩ | @⟨q, tr, s, s', l, hm⟩ | _ | _ | hk
    · cases ha with
      | spawns pid =>
        rintro ⟨_, h⟩
        cases h
      | waits h =>
        -- the wait reaps the child with nothing unsent
        intro _
        have hsent := hok.waits _ rfl
        exact ⟨fun pid signal hr => hsent (Or.inr ⟨pid, signal, hr⟩),
          fun hp => absurd (Or.inl hp) hsent⟩
      | reaps h =>
        -- by now the relay was joined
        intro _
        obtain ⟨t, r, hrun⟩ := hw.exists_runs_call sampleAnswers ()
        exact silent_of_finished (hs.joined ((closes_between hrun).2 rfl))
      | _ => exact hs.silent
    · intro hreaped
      have hbefore : s.Reaped := by
        cases hm with
        | exits h => exact absurd hreaped (by rintro ⟨_, h⟩; cases h)
        | _ => exact hreaped
      exact Scene.Moves.silent hm (hs.silent hbefore) fun signal hsig =>
        hok.arrives signal (hsig ▸ rfl) hbefore
    · exact hs.silent
    · exact hs.silent
    · obtain rfl := hk
      intro _
      refine silent_of_finished fun relay hr => ?_
      obtain ⟨relay', -, rfl⟩ := Option.map_eq_some_iff.mp hr
      rfl
  · have hspares := hs.spares
    rcases ht with @⟨k, x, next, tr, s, s', ans, ha⟩ | @⟨q, tr, s, s', l, hm⟩ | _ | _ | hk
    · cases ha <;> exact hspares
    · cases hm with
      | @sends pid signal h =>
        intro kill hkill
        rcases List.mem_append.mp hkill with hkill | hkill
        · exact hspares kill hkill
        · obtain rfl := List.mem_singleton.mp hkill
          obtain ⟨life, hch⟩ := hs.toLinked.child h
          refine ⟨life, ?_, hch⟩
          rintro rfl
          exact (hs.silent ⟨pid, hch⟩).1 _ _ h
      | _ => exact hspares
    · exact hspares
    · exact hspares
    · obtain rfl := hk
      exact hspares

theorem settled_start : Settled (Supervision.start command runtime) where
  toLinked := linked_start
  silent := fun ⟨_, h⟩ => by cases h
  spares := fun kill h => by cases h

/-! ### Turns that are not careful -/

section

variable {process : Process Call.Arg Call.Ans ExecError UInt8} {tr : List Effect} {s : Scene}

/-- A relay with a signal in hand sends it, whatever has become of the child. -/
theorem stray_of_held (hr : s.Reaped) {pid : ℕ} {signal : ForwardedSignal}
    (h : s.relay = some ⟨pid, .holding signal⟩) :
    ∃ c' : Supervision, relaySurroundings.Course anyTurn ⟨process, tr, s⟩ c' ∧ ¬c'.Spares := by
  obtain ⟨pid', hr⟩ := hr
  refine ⟨_, .single ⟨_, .move (.sends h), trivial⟩, fun hspares => ?_⟩
  obtain ⟨life, hlife, hch⟩ := hspares _ (List.mem_append_right _ (List.mem_singleton_self _))
  obtain rfl : Life.reaped = life := by
    have heq := hr.symm.trans hch
    simp only [Option.some.injEq, Child.mk.injEq] at heq
    exact heq.2
  exact hlife rfl

/-- A relay past the test of the handle takes a signal there is, and sends it. -/
theorem stray_of_polling (hr : s.Reaped) {signal : ForwardedSignal} (hp : signal ∈ s.pending)
    {pid : ℕ} (h : s.relay = some ⟨pid, .polling⟩) :
    ∃ c' : Supervision, relaySurroundings.Course anyTurn ⟨process, tr, s⟩ c' ∧ ¬c'.Spares := by
  obtain ⟨c', hcourse, hstray⟩ := @stray_of_held process tr { s with
    relay := some ⟨pid, .holding signal⟩, pending := s.pending.erase signal } hr _ _ rfl
  exact ⟨c', .head ⟨_, .move (.takes h hp), trivial⟩ hcourse, hstray⟩

/-- So does one that can still come there. -/
theorem stray_of_listening (hr : s.Reaped) (hp : s.pending ≠ []) (h : s.Listening) :
    ∃ c' : Supervision, relaySurroundings.Course anyTurn ⟨process, tr, s⟩ c' ∧ ¬c'.Spares := by
  obtain ⟨signal, hsignal⟩ := List.exists_mem_of_ne_nil _ hp
  obtain ⟨pid, h | ⟨h, ho⟩⟩ := h
  · exact stray_of_polling hr hsignal h
  · obtain ⟨c', hcourse, hstray⟩ := @stray_of_polling process tr
      { s with relay := some ⟨pid, .polling⟩ } hr _ hsignal _ rfl
    exact ⟨c', .head ⟨_, .move (.polls h ho), trivial⟩ hcourse, hstray⟩

end

/-- While the target is waited for, the handle is open. -/
theorem open_of_waiting {next : Call.Ans .targetWait → Step ExecError UInt8} {tr : List Effect}
    {s : Scene} (hw : Snapshot.Within (supervise command runtime)
      ⟨.live (.call .targetWait () next), tr, s⟩)
    (hl : Linked ⟨.live (.call .targetWait () next), tr, s⟩) : s.closed = false := by
  obtain ⟨t, r, hrun⟩ := hw.exists_runs_call sampleAnswers (.error nulError)
  rcases hclosed : s.closed
  · rfl
  · rcases hl.closing hclosed with hin | hwait | hdead
    · exact absurd hin ((closes_between hrun).1 (Or.inr rfl))
    · cases hwait
    · cases hdead

/-- **A turn that is not careful can hit a stranger.** -/
theorem stray_of_careless (hw : c.Within (supervise command runtime)) (hl : Linked c)
    (ht : relaySurroundings.Takes c t c') (hok : ¬Careful c t) :
    ∃ c'' : Supervision, relaySurroundings.Course anyTurn c' c'' ∧ ¬c''.Spares := by
  obtain ⟨status, rfl, hunsent⟩ | ⟨signal, rfl, hreaped, hlistening⟩ :
      (∃ status, t = .answer ⟨.targetWait, (), .ok status⟩ ∧ c.outside.Unsent) ∨
        ∃ signal, t = .move (.arrives signal) ∧ c.outside.Reaped ∧ c.outside.Listening := by
    by_contra hno
    push Not at hno
    exact hok ⟨hno.1, hno.2⟩
  · rcases ht with @⟨_, _, next, tr, s, s', _, ha⟩
    cases ha with
    | @waits pid status h =>
      have hopen := open_of_waiting hw hl
      obtain ⟨state, hr⟩ := hl.relay h
      cases state with
      | idle =>
        rcases hunsent with hp | ⟨_, _, hheld⟩
        · exact stray_of_listening ⟨pid, rfl⟩ hp ⟨pid, Or.inr ⟨hr, hopen⟩⟩
        · cases hr.symm.trans hheld
      | polling =>
        rcases hunsent with hp | ⟨_, _, hheld⟩
        · exact stray_of_listening ⟨pid, rfl⟩ hp ⟨pid, Or.inl hr⟩
        · cases hr.symm.trans hheld
      | holding signal => exact stray_of_held ⟨pid, rfl⟩ hr
      | finished =>
        rcases hl.finished pid hr with hc | hdead
        · cases hopen.symm.trans hc
        · cases hdead
  · rcases ht with _ | ⟨hm⟩
    cases hm with
    | arrives signal h =>
      exact stray_of_listening hreaped (List.ne_nil_of_mem (List.mem_insert_self)) hlistening

/-- **No stranger is hit as long as every turn is careful, and one that is not can be
followed by a signal to one.** In every course of the supervising thread, the relay and
the arriving signals whose turns are all careful, every signal sent goes to the child
before it is reaped; and after any course a turn that is not careful can be gone on from
to a signal to a process id whose child is reaped. -/
theorem spares_strangers (command : Command) (runtime : Str) :
    (∀ c : Supervision,
        relaySurroundings.Course Careful (Supervision.start command runtime) c → c.Spares) ∧
      ∀ c t c', relaySurroundings.Course anyTurn (Supervision.start command runtime) c →
        relaySurroundings.Takes c t c' → ¬Careful c t →
        ∃ c'' : Supervision, relaySurroundings.Course anyTurn c' c'' ∧ ¬c''.Spares := by
  constructor
  · intro c h
    exact (h.keeps settled_start fun c t c' => settled_step).2.spares
  · intro c t c' h ht hok
    obtain ⟨hw, hl⟩ := h.keeps linked_start fun c t c' hw hl ht _ => linked_step hw hl ht
    exact stray_of_careless hw hl ht hok

/-! ### One course -/

/-- A target that is registered, started, and waited for, with these signals caught. -/
def waited (pid : ℕ) (life : Life) (pending : List ForwardedSignal) : Scene :=
  ⟨true, false, pending, some ⟨pid, life⟩, some ⟨pid, .idle⟩, []⟩

/-- A command that can be started comes to be waited for. -/
theorem course_to_wait {command : Command} {runtime : Str} (h : command.sawNul = false) (pid : ℕ) :
    relaySurroundings.Course anyTurn (Supervision.start command runtime)
      ⟨.live (waitForTarget runtime),
        [⟨.signalsRegister, (), .ok ()⟩, ⟨.targetSpawn, command, .ok ()⟩],
        waited pid .running []⟩ := by
  have hstart : supervise command runtime = .call .signalsRegister () fun registered =>
      (attempt (fun source => { runtime, source }) registered).bind fun _ =>
        .call .targetSpawn command fun spawned => match spawned with
          | .error source => (call .relayClose ()).bind fun _ => .fail { runtime, source }
          | .ok () => waitForTarget runtime := by
    simp only [supervise, spawning, h]
    rfl
  rw [Supervision.start, hstart]
  refine .head ⟨_, .answer .registers, trivial⟩
    (.single ⟨.answer ⟨.targetSpawn, command, .ok ()⟩, ?_, trivial⟩)
  exact .answer (Scene.Answers.spawns pid)

/-- **Every target that is started can have its process id hit after it is reaped**: a
signal caught while it ends is still there when the wait reaps it. -/
theorem exists_stray {command : Command} {runtime : Str} (h : command.sawNul = false) :
    ∃ c : Supervision,
      relaySurroundings.Course anyTurn (Supervision.start command runtime) c ∧ ¬c.Spares := by
  have hcaught : relaySurroundings.Course anyTurn (Supervision.start command runtime)
      ⟨.live (waitForTarget runtime),
        [⟨.signalsRegister, (), .ok ()⟩, ⟨.targetSpawn, command, .ok ()⟩],
        waited 4711 .exited [.sigterm]⟩ := by
    refine (course_to_wait h 4711).trans ?_
    refine .head ⟨_, .move (.arrives .sigterm rfl), trivial⟩ ?_
    exact .single ⟨.move .exits, .move (.exits rfl), trivial⟩
  obtain ⟨hw, hl⟩ := hcaught.keeps linked_start fun c t c' hw hl ht _ => linked_step hw hl ht
  have hwait : relaySurroundings.Takes (⟨.live (waitForTarget runtime),
      [⟨.signalsRegister, (), .ok ()⟩, ⟨.targetSpawn, command, .ok ()⟩],
      waited 4711 .exited [.sigterm]⟩ : Supervision)
      (.answer ⟨.targetWait, (), .ok ⟨some 0, none, []⟩⟩) ⟨_, _, waited 4711 .reaped [.sigterm]⟩ :=
    .answer (Scene.Answers.waits rfl)
  obtain ⟨c, hcourse, hstray⟩ := stray_of_careless hw hl hwait fun hcareful =>
    hcareful.waits _ rfl (Or.inl (by simp [waited]))
  exact ⟨c, (hcaught.tail ⟨_, hwait, trivial⟩).trans hcourse, hstray⟩

/-- A client without arguments. -/
def sampleCommand : Command := { program := "docker".toList, args := [] }

theorem stray_sample : ¬∀ c : Supervision,
    relaySurroundings.Course anyTurn (Supervision.start sampleCommand "docker".toList) c →
      c.Spares := by
  intro hall
  obtain ⟨c, hcourse, hstray⟩ := exists_stray (show sampleCommand.sawNul = false by decide)
  exact hstray (hall c hcourse)

end Iwaya
