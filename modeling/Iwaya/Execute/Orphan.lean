import Iwaya.Foundation.Interrupt
import Iwaya.Execute.Order

/-!
# Signals, and the sidecar that is left behind

An invocation runs in a process that a signal to its pid can end at any moment, until the
handlers of the forwarded signals are registered; from then on a signal is queued. The
sidecar is removed by a destructor, which a process ended on the spot does not run. So
there is a window: from the moment the sidecar holds the secrets until the handlers are
registered, or the sidecar is removed on a path that never comes to registering them. A
sidecar is left behind exactly by the signals that arrive in it
(`Iwaya.no_orphan_iff`).
-/

namespace Iwaya

open Text Effects Trace Relation

/-! ### The system -/

/-- The handlers were registered. -/
def RegistersHandlers (e : Effect) : Prop := e = ⟨.signalsRegister, (), .ok ()⟩

/-- A signal is caught once the handlers are registered. Closing the iterator at the end
of supervision does not bring the default action back. -/
def Caught (tr : List Effect) : Prop := ∃ e ∈ tr, RegistersHandlers e

/-- The transfer was written, raw secrets and phantoms. -/
def DeliversTransfer (e : Effect) : Prop := ∃ transfer, e = ⟨.transferWrite, transfer, .ok ()⟩

/-- Whether the process in the sidecar has ended by itself. -/
inductive ProxyProcess where
  | up
  | exited

/-- It can, at any moment. -/
inductive ProxyProcess.Exits : ProxyProcess → ProxyProcess → Prop
  | exits : Exits up exited

/-- An invocation under way. -/
abbrev Supervisor : Type := Snapshot Call.Arg Call.Ans Failure Exit ProxyProcess

/-- An invocation that has not done anything. -/
def Supervisor.start (world : World) (invocation : Invocation) : Supervisor :=
  ⟨.live (execute world invocation), [], .up⟩

/-- **A sidecar left behind**: iwaya is no more, and the sidecar it started is still
running with the secrets. -/
structure Orphaned (c : Supervisor) : Prop where
  terminated : c.process.Terminated
  started : ∃ e ∈ c.trace, SidecarSpawned e
  delivered : ∃ e ∈ c.trace, DeliversTransfer e
  kept : Never RemovesSidecar c.trace
  up : c.outside = .up

/-- **The window**: the transfer is written, the proxy is up, and neither are the handlers
registered nor is the sidecar removed. -/
structure InWindow (c : Supervisor) : Prop where
  delivered : ∃ e ∈ c.trace, DeliversTransfer e
  kept : Never RemovesSidecar c.trace
  up : c.outside = .up
  unregistered : ¬Caught c.trace

section

variable {world : World} {invocation : Invocation} {tr t : List Effect} {r : Except Failure Exit}

/-! ### What an invocation did -/

/-- The transfer is written to a sidecar that was started. -/
theorem spawned_of_delivered (h : Runs (execute world invocation) (tr ++ t) r)
    (hd : ∃ e ∈ tr, DeliversTransfer e) : ∃ e ∈ tr, SidecarSpawned e := by
  obtain ⟨_, he, transfer, rfl⟩ := hd
  have hx : Transfers ⟨.transferWrite, transfer, .ok ()⟩ := rfl
  rcases sidecarLife_execute h with hn | ⟨runtime, image, container, name, p, q, hsole, -, htr, -⟩
  · exact absurd hx (hn.transfers _ (List.mem_append_left t he))
  · rcases List.append_eq_append_iff.mp hsole.eq with ⟨c, rfl, -⟩ | ⟨c, rfl, hc⟩
    · exact absurd hx (htr _ (List.mem_append_left c he))
    · rcases c with _ | ⟨s, c⟩
      · exact absurd hx (htr _ (by simpa using he))
      · obtain ⟨rfl, -⟩ := List.cons.inj hc
        exact ⟨_, by simp, hsole.holds⟩

/-- An invocation that is over has removed its sidecar. -/
theorem removed_of_runs (h : Runs (execute world invocation) tr r)
    (hs : ∃ e ∈ tr, SidecarSpawned e) : ¬Never RemovesSidecar tr := by
  obtain ⟨e, he, hs⟩ := hs
  rcases sidecarLife_execute h with hn | ⟨runtime, image, container, name, p, q, hsole, -⟩
  · exact absurd hs (hn.spawned e he)
  · intro hk
    refine hk ⟨.sidecarRemove, removeCommand runtime name, ()⟩ ?_ rfl
    simp [hsole.eq, sidecarRemoved]

/-- A proxy that is up was up before. -/
theorem up_of_exits {s s' : ProxyProcess} (h : ReflTransGen ProxyProcess.Exits s s')
    (hup : s' = .up) : s = .up := by
  induction h with
  | refl => exact hup
  | tail _ hstep _ =>
    subst hup
    cases hstep

/-! ### The window -/

variable {signals visited : List Supervisor} {c : Supervisor}

/-- A signal in the window leaves the sidecar behind. -/
theorem orphaned_of_signal {s v : Supervisor} (hs : s.Within (execute world invocation))
    (hsig : Signal Caught s v) (hw : InWindow s) : Orphaned v := by
  obtain ⟨t, r, hrun⟩ := hs.exists_runs sampleAnswers
  rcases hsig with hc | hc
  · exact absurd hc hw.unregistered
  · exact ⟨trivial, spawned_of_delivered hrun hw.delivered, hw.delivered, hw.kept, hw.up⟩

/-- A sidecar left behind was left behind by a signal in the window. -/
theorem inWindow_of_orphaned
    (h : History Caught ProxyProcess.Exits (Supervisor.start world invocation) signals visited c)
    (ho : Orphaned c) : ∃ s ∈ signals, InWindow s := by
  have hw := h.within
  rcases hp : c.process with q | r | _
  · have := ho.terminated
    rw [hp] at this
    exact this.elim
  · -- a process that ended by itself ran the destructor
    rw [Snapshot.Within, hp] at hw
    exact absurd ho.kept (removed_of_runs hw ho.started)
  · -- a killed one did nothing after the signal, so the signal came in the window
    obtain ⟨s, hs, hn, ht, hd⟩ := h.killed hp
    exact ⟨s, hs, ht ▸ ho.delivered, ht ▸ ho.kept, up_of_exits hd ho.up, hn⟩

/-- **Every invocation that delivers its transfer can leave its sidecar behind.** -/
theorem exists_orphan (h : Runs (execute world invocation) (tr ++ t) r)
    (hd : ∃ e ∈ tr, DeliversTransfer e) (hr : Never RemovesSidecar tr) (hc : ¬Caught tr) :
    ∃ signals visited, History Caught ProxyProcess.Exits (Supervisor.start world invocation) signals
        visited ⟨.killed, tr, .up⟩ ∧
      ⟨.killed, tr, .up⟩ ∈ visited ∧ Orphaned ⟨.killed, tr, .up⟩ := by
  obtain ⟨q, visited, hq, -⟩ := history_of_runs h ProxyProcess.up
  exact ⟨_, _, hq.signal (.kill hc), List.mem_cons_self, trivial, spawned_of_delivered h hd, hd,
    hr, rfl⟩

/-- What the sample invocation did when the signal arrives: the sidecar has just reported
its port. -/
def sampleTrace : List Effect :=
  (exec sampleAnswers 0 (execute sampleWorld sampleInvocation)).1.take 13

theorem kinds_sampleTrace : sampleTrace.map Event.kind =
    [.acquire, .projectList, .secretList, .entropy 32, .material, .materialDigest, .imageInspect,
      .entropy 8, .sidecarRun, .transferWrite, .newlineWrite, .stdinClose, .readinessRead] := by
  rw [sampleTrace, execute_sample]
  rfl

/-- It leaves its sidecar behind. -/
theorem exists_orphan_sample : ∃ signals visited,
    History Caught ProxyProcess.Exits (Supervisor.start sampleWorld sampleInvocation) signals
        visited ⟨.killed, sampleTrace, .up⟩ ∧
      ⟨.killed, sampleTrace, .up⟩ ∈ visited ∧ Orphaned ⟨.killed, sampleTrace, .up⟩ := by
  have hkind : ∀ e ∈ sampleTrace, e.kind ∈ sampleTrace.map Event.kind :=
    fun e he => List.mem_map_of_mem he
  rw [kinds_sampleTrace] at hkind
  have hrun := runs_exec sampleAnswers 0 (execute sampleWorld sampleInvocation)
  rw [← List.take_append_drop 13 (exec _ _ _).1] at hrun
  have hdelivered : ∃ e ∈ sampleTrace, DeliversTransfer e := by
    have hget : ∃ transfer, sampleTrace[9]? = some ⟨.transferWrite, transfer, .ok ()⟩ := by
      rw [sampleTrace, execute_sample]
      exact ⟨_, rfl⟩
    obtain ⟨transfer, hget⟩ := hget
    exact ⟨_, List.mem_of_getElem? hget, transfer, rfl⟩
  have hkept : Never RemovesSidecar sampleTrace := by
    intro e he hk
    have := hkind e he
    rw [hk] at this
    exact absurd this (by decide)
  have huncaught : ¬Caught sampleTrace := by
    rintro ⟨e, he, rfl⟩
    exact absurd (hkind _ he) (by decide)
  exact exists_orphan hrun hdelivered hkept huncaught

/-- **No sidecar is left behind exactly when no signal arrives in the window.** In every
history of an invocation, with signals at any moment and a proxy that may exit at any
moment, no visited configuration has a sidecar left behind if and only if each of the
signals arrived outside the window. -/
theorem no_orphan_iff
    (h : History Caught ProxyProcess.Exits (Supervisor.start world invocation) signals visited c) :
    (∀ v ∈ visited, ¬Orphaned v) ↔ ∀ s ∈ signals, ¬InWindow s := by
  constructor
  · intro hv s hs hw
    obtain ⟨hsv, v, hvv, hsig⟩ := h.of_signal hs
    obtain ⟨_, _, hshort, -⟩ := h.shorten hsv
    exact hv v hvv (orphaned_of_signal hshort.within hsig hw)
  · intro hs v hv ho
    obtain ⟨signals', visited', hshort, hsub⟩ := h.shorten hv
    obtain ⟨s, hs', hw⟩ := inWindow_of_orphaned hshort ho
    exact hs s (hsub hs') hw

/-- In the history that leaves a sidecar behind, a signal came in the window. -/
theorem no_orphan_iff_sample : ∃ signals visited c,
    History Caught ProxyProcess.Exits (Supervisor.start sampleWorld sampleInvocation) signals
        visited c ∧
      (∃ e ∈ c.trace, DeliversTransfer e) ∧ ¬∀ s ∈ signals, ¬InWindow s := by
  obtain ⟨signals, visited, h, hc, ho⟩ := exists_orphan_sample
  exact ⟨signals, visited, _, h, ho.delivered, fun hs => (no_orphan_iff h).mpr hs _ hc ho⟩

theorem orphan_sample : ¬∀ signals visited c,
    History Caught ProxyProcess.Exits (Supervisor.start sampleWorld sampleInvocation) signals
      visited c → ∀ v ∈ visited, ¬Orphaned v := by
  intro hall
  obtain ⟨signals, visited, h, hc, ho⟩ := exists_orphan_sample
  exact hall _ _ _ h _ hc ho

end

end Iwaya
