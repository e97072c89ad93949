import Iwaya.Execute.Managed
import Iwaya.Execute.Order
import Iwaya.Proxy.Framing

/-!
# The supervisor and the proxy, each on its own

What each of the two does when a target is started beside its sidecar, read off its own
program. The supervisor has delivered one line, all of it, and was answered with the port it
sets for the target (`Iwaya.spawn_execute`). The proxy writes only once its listener
is bound, and the only thing it writes is the port (`Iwaya.runProxyMode_write`).
-/

namespace Iwaya

open Text Effects Trace

/-! ### The supervisor -/

/-- A delivery, and what was read after it. -/
def startup (transfer : Str) (read : Except IoError (List UInt8)) : List Effect :=
  [⟨.transferWrite, transfer, .ok ()⟩, ⟨.newlineWrite, (), .ok ()⟩, ⟨.stdinClose, (), ()⟩,
    ⟨.readinessRead, (), read⟩]

/-- **A port is taken** only after all of the transfer was written. -/
theorem awaitReadiness_ok {readiness : Str → Option UInt16} {transfer : Str} {port : UInt16}
    {tr : List Effect} (h : Runs (awaitReadiness readiness transfer) tr (.ok port)) :
    ∃ read, tr = startup transfer read ∧ portOf readiness read = .ok port := by
  obtain ⟨delivery, t₁, t₂, rfl, h1, h2⟩ := runs_bind_ok_iff.mp h
  rcases runs_attempt_bind_iff.mp h2 with ⟨_, -, -, he⟩ | ⟨_, rfl, h3⟩
  · cases he
  obtain ⟨read, t₃, rfl, h4⟩ := runs_perform_bind_iff.mp h3
  obtain ⟨rfl, hport⟩ := runs_ofExcept_iff.mp h4
  obtain ⟨written, t₄, rfl, h5⟩ := runs_perform_bind_iff.mp h1
  rcases written with e | _
  · -- a transfer that was not written is an error
    obtain ⟨_, t₅, rfl, h6⟩ := runs_perform_bind_iff.mp h5
    cases (runs_done_iff.mp h6).2
  · obtain ⟨ended, t₅, rfl, h6⟩ := runs_perform_bind_iff.mp h5
    obtain ⟨_, t₆, rfl, h7⟩ := runs_perform_bind_iff.mp h6
    obtain ⟨rfl, he⟩ := runs_done_iff.mp h7
    obtain rfl := Except.ok.inj he
    exact ⟨read, rfl, hport.symm⟩

section

variable {world : World} {invocation : Invocation} {context : DockerContext}
  {policy : CommandPolicy} {userArgs : List Str} {environment : List (EnvName × Str)}
  {provisioned : List ProvisionedProxySecret} {A B : List Effect} {x : Command}
  {ans : Except IoError Unit} {r : Except Failure Exit}

/-- Before a target is started beside its sidecar, there was one startup. -/
theorem spawn_runBeside {image : Str}
    (h : Runs (runBeside world context policy environment userArgs provisioned image)
      (A ++ ⟨.targetSpawn, x, ans⟩ :: B) r) :
    ∃ read port pre e, A = pre ++ e :: (startup (intoTransfer world.serde provisioned).1 read ++
        signalsCaught) ∧
      SidecarSpawned e ∧ portOf world.readiness read = .ok port ∧
      x = { runtimeCommand context policy userArgs with
            env := environment ++
              targetEnvironment (provisioned.map ProvisionedProxySecret.plan) port } := by
  have hspawn : StartsTarget (⟨.targetSpawn, x, ans⟩ : Effect) := Or.inl rfl
  rcases target_runBeside h with hn | ⟨name, a, b, port, ans', q, hsole, ha, hready⟩
  · exact absurd hspawn (hn _ (by simp))
  obtain ⟨rfl, heq, -⟩ := hsole.unique rfl hspawn
  obtain ⟨read, rfl, hport⟩ := awaitReadiness_ok hready
  simp only [Event.mk.injEq, heq_eq_eq, true_and] at heq
  exact ⟨read, port, a, sidecarStarted context.runtime image context.containerName name, by simp,
    ⟨_, rfl⟩, hport, heq.1⟩

/-- What is not in the first part of a list is in the rest of it. -/
theorem exists_suffix_of_notMem {α : Type} {A B t₁ t₂ : List α} {e : α}
    (h : A ++ e :: B = t₁ ++ t₂) (he : e ∉ t₁) : ∃ A', A = t₁ ++ A' ∧ t₂ = A' ++ e :: B := by
  rcases List.append_eq_append_iff.mp h with ⟨c, hc, ht⟩ | ⟨c, hc, ht⟩
  · rcases c with _ | ⟨y, c⟩
    · exact ⟨[], by simpa using hc.symm, by simpa using ht.symm⟩
    · obtain ⟨rfl, -⟩ := List.cons.inj ht
      exact absurd (by simp [hc]) he
  · exact ⟨c, hc, ht⟩

/-- **A target is started after resolution**, in what is done with the values. -/
theorem resolved_of_spawn
    (h : Runs (execute world invocation) (A ++ ⟨.targetSpawn, x, ans⟩ :: B) r) :
    ∃ configuration context policy resolved t A', A = t ++ A' ∧
      select world invocation = .ok (configuration, context, policy) ∧
      Runs (resolveDeclared world configuration policy) t (.ok resolved) ∧
      Runs (deliverAll world context policy invocation.args resolved)
        (A' ++ ⟨.targetSpawn, x, ans⟩ :: B) r := by
  have hnot : ∀ {t : List Effect} {configuration : Config} {policy : CommandPolicy}
      {r : Except Failure ResolvedAll}, Runs (resolveDeclared world configuration policy) t r →
      (⟨.targetSpawn, x, ans⟩ : Effect) ∉ t := fun hres hmem => by
    cases List.mem_singleton.mp (emits_resolveDeclared world _ _ _ _ hres _ hmem)
  rcases execute_cases h with ⟨_, -, he, -⟩ | ⟨configuration, context, policy, hs,
    ⟨e, rfl, hres⟩ | ⟨resolved, t₁, t₂, ht, hres, hdel⟩⟩
  · simp at he
  · exact absurd (by simp) (hnot hres)
  obtain ⟨A', rfl, rfl⟩ := exists_suffix_of_notMem ht (hnot hres)
  exact ⟨configuration, context, policy, resolved, t₁, A', rfl, hs, hres, hdel⟩

/-- The same of everything after resolution. -/
theorem spawn_deliverAll {resolved : ResolvedAll}
    (hvalues : ∀ d ∈ declared policy, ∃ value, resolved.value d.1 d.2 = some value)
    (h : Runs (deliverAll world context policy userArgs resolved)
      (A ++ ⟨.targetSpawn, x, ans⟩ :: B) r) :
    ∃ provisioned read port pre e,
      List.Forall₂ (ProvisionedFor resolved) policy.proxySecrets provisioned ∧
      A = pre ++ e :: (startup (intoTransfer world.serde provisioned).1 read ++ signalsCaught) ∧
      SidecarSpawned e ∧ portOf world.readiness read = .ok port ∧
      x = { runtimeCommand context policy userArgs with
            env := settings policy resolved provisioned port } := by
  have hnot : ∀ {l : List Effect} {stages : List Stage}, (∀ e ∈ l, e.kind.stage ∈ stages) →
      .target ∉ stages → (⟨.targetSpawn, x, ans⟩ : Effect) ∉ l :=
    fun hl hstage hmem => hstage (hl _ hmem)
  have hmem : (⟨.targetSpawn, x, ans⟩ : Effect) ∈ A ++ ⟨.targetSpawn, x, ans⟩ :: B := by simp
  rcases deliverAll_cases h with ⟨-, he⟩ | ⟨environment, henv, ⟨-, r', rfl, hex⟩ |
    ⟨-, ⟨-, hst⟩ | ⟨provisioned, image, s₁, s₂, s₃, hsplit, hprov, himg, hbes⟩⟩⟩
  · simp at he
  · -- a replacement is no child
    rcases execRuntime_cases hex with ⟨_, -, ht⟩ | ⟨ans', ht⟩ <;> rw [ht] at hmem
    · cases hmem
    · simp at hmem
  · exact absurd hmem (hnot hst (by decide))
  obtain rfl := Except.ok.inj (henv.symm.trans (directEnvironment_eq hvalues))
  have hstage₁ := emits_traverse (fun _ _ => emits_provisionOne resolved _) _ _ hprov
  have hstage₂ := emits_ensureProxyImage _ _ _ _ himg
  -- everything before the sidecar is of other stages, so the start is beside it
  obtain ⟨A', rfl, rfl⟩ := exists_suffix_of_notMem (by rw [hsplit, List.append_assoc])
    (show (⟨.targetSpawn, x, ans⟩ : Effect) ∉ s₁ ++ s₂ by
      rw [List.mem_append, not_or]
      exact ⟨hnot hstage₁ (by decide), hnot hstage₂ (by decide)⟩)
  obtain ⟨read, port, pre, e, rfl, he, hport, rfl⟩ := spawn_runBeside hbes
  exact ⟨provisioned, read, port, s₁ ++ s₂ ++ pre, e,
    (forall₂_of_runs_traverse hprov).imp fun _ _ h => provisionedFor_of_runs h.choose_spec,
    by simp, he, hport, rfl⟩

/-- **How a target is started beside its sidecar**: the transfer of what was provisioned was
delivered, once and completely, and the port that was read is in the address of every
proxy-backed secret. -/
theorem spawn_execute
    (h : Runs (execute world invocation) (A ++ ⟨.targetSpawn, x, ans⟩ :: B) r) :
    ∃ configuration context policy resolved provisioned read port pre e,
      select world invocation = .ok (configuration, context, policy) ∧
      (∀ d ∈ declared policy, ∃ value, resolved.value d.1 d.2 = some value) ∧
      List.Forall₂ (ProvisionedFor resolved) policy.proxySecrets provisioned ∧
      A = pre ++ e :: (startup (intoTransfer world.serde provisioned).1 read ++ signalsCaught) ∧
      SidecarSpawned e ∧ portOf world.readiness read = .ok port ∧
      x = { runtimeCommand context policy invocation.args with
            env := settings policy resolved provisioned port } := by
  obtain ⟨configuration, context, policy, resolved, t, A', rfl, hs, hres, hdel⟩ :=
    resolved_of_spawn h
  have hvalues : ∀ d ∈ declared policy, ∃ value, resolved.value d.1 d.2 = some value :=
    fun d hd => value_of_runs_resolveDeclared hres hd
  obtain ⟨provisioned, read, port, pre, e, hprov, rfl, he, hport, rfl⟩ :=
    spawn_deliverAll hvalues hdel
  exact ⟨configuration, context, policy, resolved, provisioned, read, port, t ++ pre, e, hs,
    hvalues, hprov, by simp, he, hport, rfl⟩

end

/-! ### The proxy -/

section

variable {serde : SerdeJson} {input : List UInt8}
  {a b calls : List (Event ProxyCall.Arg ProxyCall.Ans)} {line : Str} {ans : Except Str Unit}
  {r : Except ProxyModeError (List ProxyRoute × UInt16)}

/-- **What the proxy does before it serves**, and what comes of it. -/
inductive Begun (serde : SerdeJson) (input : List UInt8) :
    List (Event ProxyCall.Arg ProxyCall.Ans) →
      Except ProxyModeError (List ProxyRoute × UInt16) → Prop
  /-- A transfer that is refused is refused before anything is called. -/
  | refused {e : ProxyModeError} (he : readTransfer serde input = .error e) :
    Begun serde input [] (.error e)
  | unbound {routes : List ProxyRoute} {source : Str}
    (hroutes : readTransfer serde input = .ok routes) :
    Begun serde input [⟨.bindLoopback, routes, Except.error source⟩] (.error (.bind source))
  | unwritten {routes : List ProxyRoute} {port : UInt16} {source : Str}
    (hroutes : readTransfer serde input = .ok routes) :
    Begun serde input [⟨.bindLoopback, routes, Except.ok port⟩,
      ⟨.writeReadiness, readinessLine port, Except.error source⟩] (.error (.readiness source))
  | unflushed {routes : List ProxyRoute} {port : UInt16} {source : Str}
    (hroutes : readTransfer serde input = .ok routes) :
    Begun serde input [⟨.bindLoopback, routes, Except.ok port⟩,
      ⟨.writeReadiness, readinessLine port, Except.ok ()⟩,
      ⟨.flushReadiness, (), Except.error source⟩] (.error (.readiness source))
  | serves {routes : List ProxyRoute} {port : UInt16}
    (hroutes : readTransfer serde input = .ok routes) :
    Begun serde input [⟨.bindLoopback, routes, Except.ok port⟩,
      ⟨.writeReadiness, readinessLine port, Except.ok ()⟩,
      ⟨.flushReadiness, (), Except.ok ()⟩] (.ok (routes, port))

/-- There is nothing else that it can do. -/
theorem begun_of_runs (h : Runs (runProxyMode serde input) calls r) :
    Begun serde input calls r := by
  rcases runs_ofExcept_bind_iff.mp h with ⟨e, he, rfl, rfl⟩ | ⟨routes, hroutes, h1⟩
  · exact .refused he
  obtain ⟨bound, t₁, rfl, h2⟩ := runs_perform_bind_iff.mp h1
  rcases bound with source | port
  · obtain ⟨rfl, rfl⟩ := runs_fail_iff.mp h2
    exact .unbound hroutes
  obtain ⟨written, t₂, rfl, h3⟩ := runs_perform_bind_iff.mp h2
  rcases written with source | _
  · obtain ⟨rfl, rfl⟩ := runs_fail_iff.mp h3
    exact .unwritten hroutes
  obtain ⟨flushed, t₃, rfl, h4⟩ := runs_perform_bind_iff.mp h3
  rcases flushed with source | _
  · obtain ⟨rfl, rfl⟩ := runs_fail_iff.mp h4
    exact .unflushed hroutes
  · obtain ⟨rfl, rfl⟩ := runs_done_iff.mp h4
    exact .serves hroutes

/-- Its calls, whatever comes of them. -/
theorem runProxyMode_cases (h : Runs (runProxyMode serde input) calls r) :
    calls = [] ∨ ∃ routes bound rest, readTransfer serde input = .ok routes ∧
      calls = ⟨.bindLoopback, routes, bound⟩ :: rest ∧
      (rest = [] ∨ ∃ port written flush, bound = Except.ok port ∧
        rest = ⟨.writeReadiness, readinessLine port, written⟩ :: flush ∧
        ∀ e ∈ flush, e.kind = .flushReadiness) := by
  cases begun_of_runs h with
  | refused _ => exact Or.inl rfl
  | unbound hroutes => exact Or.inr ⟨_, _, _, hroutes, rfl, Or.inl rfl⟩
  | unwritten hroutes =>
    exact Or.inr ⟨_, _, _, hroutes, rfl, Or.inr ⟨_, _, [], rfl, rfl, by simp⟩⟩
  | unflushed hroutes =>
    exact Or.inr ⟨_, _, _, hroutes, rfl, Or.inr ⟨_, _, _, rfl, rfl, by simp⟩⟩
  | serves hroutes =>
    exact Or.inr ⟨_, _, _, hroutes, rfl, Or.inr ⟨_, _, _, rfl, rfl, by simp⟩⟩

/-- **The proxy writes** once its listener is bound, and it writes the port. -/
theorem runProxyMode_write
    (h : Runs (runProxyMode serde input) (a ++ ⟨.writeReadiness, line, ans⟩ :: b) r) :
    ∃ routes port, readTransfer serde input = .ok routes ∧
      a = [⟨.bindLoopback, routes, Except.ok port⟩] ∧ line = readinessLine port := by
  rcases runProxyMode_cases h with h0 | ⟨routes, bound, rest, hroutes, hcalls, hrest⟩
  · simp at h0
  rcases a with _ | ⟨e, a⟩
  · cases (List.cons.inj hcalls).1
  rw [List.cons_append, List.cons.injEq] at hcalls
  obtain ⟨rfl, hcalls⟩ := hcalls
  rcases hrest with rfl | ⟨port, written, flush, rfl, rfl, hflush⟩
  · simp at hcalls
  refine ⟨routes, port, hroutes, ?_⟩
  rcases a with _ | ⟨e, a⟩
  · have hhead := Event.mk.inj (List.cons.inj hcalls).1
    exact ⟨rfl, eq_of_heq hhead.2.1⟩
  · -- after the first write there is no other
    rw [List.cons_append, List.cons.injEq] at hcalls
    have hmem : (⟨.writeReadiness, line, ans⟩ : Event ProxyCall.Arg ProxyCall.Ans) ∈ flush :=
      hcalls.2 ▸ List.mem_append_right a List.mem_cons_self
    cases hflush _ hmem

end

end Iwaya
