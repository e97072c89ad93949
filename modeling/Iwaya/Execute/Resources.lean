import Iwaya.Execute.Orphan
import Iwaya.Foundation.Typestate

/-!
# What an invocation holds

Four things an invocation takes have to be given back: the directory of the build
context, the sidecar's container with the client attached to it, the signal iterator, and
the target as a child. Each has a protocol of its own. A stream is written until it is
closed; what the sidecar reports is waited for only once the stream is closed, since the
proxy answers to what it was given; a client is reaped only once its container is removed,
since it would not end before; a target that cannot be waited for is killed before it is
reaped, and no sooner than the relay that could still signal it is closed. And they nest:
the target runs inside the iterator, the iterator inside the sidecar, and the directory is
gone before there is a sidecar.

`Iwaya.Held.use` is all of this as an automaton, which has no transition for a use of what
is not held. No run of an invocation gets stuck in it, and every run ends holding nothing
(`Iwaya.execute_holds_nothing`); a signal can only leave behind what was held at the
moment, which is never a running target (`Iwaya.held_after_signal`).

To hold nothing is to have made the calls that give things back. Several of them ignore that
they failed, and what is then left is not seen here.
-/

namespace Iwaya

open Text Effects Trace

deriving instance DecidableEq for Command

/-! ### The automaton -/

/-- How far the client of a sidecar is. -/
inductive ClientState where
  /-- Its standard input is open. -/
  | writing
  /-- Its standard input is closed. -/
  | closed
  /-- Its container is removed. -/
  | removed
  deriving DecidableEq

/-- The client of a sidecar, and the container it is attached to. -/
structure Client where
  runtime : Str
  containerName : Str
  state : ClientState
  deriving DecidableEq

/-- How far the target is. -/
inductive TargetState where
  | running
  /-- It could not be waited for. -/
  | lost
  | killed
  deriving DecidableEq

/-- The directory of a build context. -/
structure Workspace where
  path : Str
  /-- All of the context is in it. -/
  written : Bool
  deriving DecidableEq

/-- **What is held.** -/
structure Held where
  directory : Option Workspace
  client : Option Client
  iterator : Bool
  target : Option TargetState
  deriving DecidableEq

/-- Nothing is. -/
def Held.bare : Held where
  directory := none
  client := none
  iterator := false
  target := none

/-- A client in this state, with nothing inside. -/
def Held.beside (runtime containerName : Str) (state : ClientState) : Held :=
  { Held.bare with client := some { runtime, containerName, state } }

/-- A directory in this state. -/
def Held.building (path : Str) (written : Bool) : Held :=
  { Held.bare with directory := some { path, written } }

/-- A use under a condition. -/
def Held.grant (c : Prop) [Decidable c] (h : Held) : Option Held := if c then some h else none

/-- The argument after the one named. -/
def argAfter (name : Str) : List Str → Option Str
  | a :: b :: rest => if a = name then some b else argAfter name (b :: rest)
  | _ => none

/-- **The use of what is held** by one call with its answer. -/
def Call.use : (k : Call) → k.Arg → k.Ans → Held → Option Held
  | .contextCreate, path, .ok _, h => Held.grant (h = .bare) (.building path false)
  | .contextWrite, path, .ok _, h => Held.grant (h = .building path false) (.building path true)
  | .contextWrite, path, .error _, h => Held.grant (h = .building path false) h
  | .imageBuild, command, _, h =>
    command.args.getLast?.bind fun path => Held.grant (h = .building path true) h
  | .contextRemove, path, _, h =>
    Held.grant (h = .building path false ∨ h = .building path true) .bare
  | .sidecarRun, command, .ok _, h =>
    (argAfter "--name".toList command.args).bind fun containerName =>
      Held.grant (h = .bare) (.beside command.program containerName .writing)
  | .transferWrite, _, _, h | .newlineWrite, _, _, h =>
    Held.grant (∃ c ∈ h.client, c.state = .writing) h
  | .stdinClose, _, _, h => h.client.bind fun c =>
    Held.grant (c.state = .writing) { h with client := some { c with state := .closed } }
  | .readinessRead, _, _, h => Held.grant (∃ c ∈ h.client, c.state = .closed) h
  | .sidecarRemove, command, _, h => h.client.bind fun c =>
    Held.grant (command = removeCommand c.runtime c.containerName ∧ c.state ≠ .removed ∧
      h.iterator = false ∧ h.target = none) { h with client := some { c with state := .removed } }
  | .sidecarWait, _, _, h =>
    Held.grant (∃ c ∈ h.client, c.state = .removed) { h with client := none }
  | .signalsRegister, _, .ok _, h =>
    Held.grant ((∃ c ∈ h.client, c.state = .closed) ∧ h.iterator = false ∧ h.target = none)
      { h with iterator := true }
  | .targetSpawn, _, .ok _, h =>
    Held.grant (h.iterator = true ∧ h.target = none) { h with target := some .running }
  | .targetSpawn, _, .error _, h => Held.grant (h.iterator = true ∧ h.target = none) h
  | .targetWait, _, .ok _, h => Held.grant (h.target = some .running) { h with target := none }
  | .targetWait, _, .error _, h =>
    Held.grant (h.target = some .running) { h with target := some .lost }
  | .relayClose, _, _, h => Held.grant (h.iterator = true ∧ h.target ≠ some .running)
      { h with iterator := false }
  | .targetKill, _, _, h =>
    Held.grant (h.target = some .lost ∧ h.iterator = false) { h with target := some .killed }
  | .targetReap, _, _, h => Held.grant (h.target = some .killed) { h with target := none }
  -- what could not be had, and what has to be done with nothing at hand
  | .signalsRegister, _, .error _, h =>
    Held.grant ((∃ c ∈ h.client, c.state = .closed) ∧ h.iterator = false ∧ h.target = none) h
  | .contextCreate, _, .error _, h | .sidecarRun, _, .error _, h | .targetExec, _, _, h
  | .acquire, _, _, h | .projectList, _, _, h | .secretList, _, _, h | .entropy _, _, _, h
  | .material, _, _, h | .materialDigest, _, _, h | .imageInspect, _, _, h =>
    Held.grant (h = .bare) h

/-- The protocol of what is held. -/
def Held.use : Protocol Call.Arg Call.Ans Held := fun h e => e.kind.use e.arg e.ans h

/-! ### Following it -/

variable {ε α : Type} {h : Held}

theorem Held.grant_of {c : Prop} [Decidable c] (hc : c) (h : Held) : Held.grant c h = some h :=
  if_pos hc

theorem Held.grant_eq_some {c : Prop} [Decidable c] {h h' : Held} :
    Held.grant c h = some h' ↔ c ∧ h = h' := by
  unfold Held.grant
  split <;> simp_all

/-- What happens before there is anything to hold. -/
theorem use_bare {e : Effect} (he : e.kind.stage = .request ∨ e.kind.stage = .draw) :
    Held.use .bare e = some .bare := by
  obtain ⟨k, x, ans⟩ := e
  cases k <;> first | rfl | simp [Call.stage] at he

section

variable {σ : Type} {step : Protocol Call.Arg Call.Ans σ} {s : σ}

theorem follows_attempt {ι : Type} {P : Except ε α → σ → Prop} {error : ι → ε}
    {answer : Except ι α} (hP : P (answer.mapError error) s) :
    Follows step s P (attempt error answer) :=
  follows_ofExcept hP

theorem follows_giveUpIf {c : Prop} [Decidable c] {e : ε} :
    Follows step s (Ends s) (giveUpIf c e) :=
  follows_ofExcept rfl

/-- An answer that is gone on from. -/
theorem follows_attempt_bind {ι β : Type} {P : Except ε β → σ → Prop} {error : ι → ε}
    {answer : Except ι α} {f : α → Step ε β} (herror : ∀ e, P (.error (error e)) s)
    (hf : ∀ a, answer = .ok a → Follows step s P (f a)) :
    Follows step s P ((attempt error answer).bind f) := by
  cases answer with
  | ok a => exact hf a rfl
  | error e => exact follows_fail (herror e)

theorem follows_spawning_bind {β : Type} {P : Except ε β → σ → Prop} {command : Command}
    {start : Step ε (Except IoError α)} {f : Except IoError α → Step ε β}
    (hnul : Follows step s P (f (.error nulError)))
    (hstart : Follows step s P (start.bind f)) :
    Follows step s P ((spawning command start).bind f) := by
  unfold spawning
  split
  · exact hnul
  · exact hstart

end

/-! ### The image -/

theorem follows_imageExists (runtime tag : Str) :
    Follows Held.use .bare (Ends .bare) (imageExists runtime tag) := by
  have hrest : ∀ answer, Follows Held.use .bare (Ends .bare)
      ((attempt (ProxyImageError.runtimeStart runtime) answer).bind fun status : ExitStatus =>
        (.done status.success : Step ProxyImageError Bool)) := fun answer =>
    follows_attempt_bind (fun _ => rfl) fun _ _ => follows_done rfl
  refine follows_spawning_bind (hrest _) (follows_perform_bind fun status => ?_)
  exact ⟨.bare, rfl, hrest status⟩

/-- **A directory that is created is held.** -/
theorem follows_createTempContext (tempDir : Str) :
    Follows Held.use .bare (Gains (Held.building · false) .bare) (createTempContext tempDir) := by
  refine follows_perform_bind fun random => ⟨.bare, rfl, ?_⟩
  refine follows_attempt_bind (fun _ => rfl) fun bytes _ => ?_
  refine follows_perform_bind fun created => ?_
  rcases created with e | _
  · exact ⟨.bare, rfl, follows_fail rfl⟩
  · exact ⟨.building _ false, rfl, follows_done rfl⟩

/-- An image is built from the directory that is held. -/
theorem use_imageBuild (runtime tag path : Str) (ans : Except IoError Output) :
    Held.use (.building path true) ⟨.imageBuild, buildCommand runtime tag path, ans⟩ =
      some (.building path true) := by
  simp [Held.use, Call.use, buildCommand, Held.grant]

theorem use_contextWrite (path : Str) (ans : Except IoError Unit) :
    Held.use (.building path false) ⟨.contextWrite, path, ans⟩ =
      some (.building path ans.isOk) := by
  cases ans <;> exact Held.grant_of rfl _

theorem use_contextRemove (path : Str) (written : Bool) :
    Held.use (.building path written) ⟨.contextRemove, path, ()⟩ = some .bare := by
  cases written <;> simp [Held.use, Call.use, Held.grant]

theorem follows_buildImage (runtime tag path : Str) :
    Follows Held.use (.building path true) (Ends (.building path true))
      (buildImage runtime tag path) := by
  have hrest : ∀ answer, Follows Held.use (.building path true) (Ends (.building path true))
      ((attempt (ProxyImageError.runtimeStart runtime) answer).bind fun output : Output =>
        giveUpIf (output.status.success = false)
          (.buildFailed output.status.display (trimEnd output.stderr))) := fun answer =>
    follows_attempt_bind (fun _ => rfl) fun _ _ => follows_giveUpIf
  refine follows_spawning_bind (hrest _) (follows_perform_bind fun output => ?_)
  exact ⟨_, use_imageBuild runtime tag path output, hrest output⟩

/-- **The build takes place in the directory** once all of the context is in it, and leaves
the directory there. -/
theorem follows_build (runtime tag path : Str) :
    Follows Held.use (.building path false) (fun _ h => ∃ written, h = .building path written)
      (do
        writeBuildContext path
        buildImage runtime tag path
        return tag) := by
  refine follows_perform_bind fun written => ⟨_, use_contextWrite path written, ?_⟩
  rcases written with e | _
  · exact follows_fail ⟨false, rfl⟩
  · exact (follows_buildImage runtime tag path).then (fun _ => ⟨true, rfl⟩) fun _ =>
      follows_done ⟨true, rfl⟩

/-- **Preparing the image leaves no directory behind**, whatever became of it. -/
theorem follows_ensureProxyImage (tempDir runtime : Str) :
    Follows Held.use .bare (Ends .bare) (ensureProxyImage tempDir runtime) := by
  refine follows_perform_bind fun material => ⟨.bare, rfl, ?_⟩
  refine Follows.then (follows_ofExcept rfl) (fun _ => rfl) fun _ => ?_
  refine follows_perform_bind fun digest => ⟨.bare, rfl, ?_⟩
  refine Follows.then (follows_ofExcept rfl) (fun _ => rfl) fun digest => ?_
  refine (follows_imageExists _ _).then (fun _ => rfl) fun found => ?_
  cases found with
  | true => exact follows_done rfl
  | false =>
    refine (follows_createTempContext tempDir).gain (fun _ => rfl) fun path => ?_
    refine (follows_build runtime _ path).scope fun r h hh => ?_
    obtain ⟨written, rfl⟩ := hh
    exact follows_perform fun _ => ⟨Held.bare, use_contextRemove path written, rfl⟩

/-! ### The sidecar -/

section

variable {runtime containerName : Str}

/-- **Removal gives the client back.** -/
theorem follows_teardown : Follows Held.use (.beside runtime containerName .closed) (Ends .bare)
    (teardown runtime containerName) := by
  refine follows_perform_bind fun _ => ⟨.beside runtime containerName .removed, ?_, ?_⟩
  · simp [Held.use, Call.use, Held.beside, Held.bare, Held.grant]
  · exact follows_perform (k := Call.sidecarWait) fun _ => ⟨Held.bare, rfl, rfl⟩

/-- Closing the standard input of a client. -/
theorem use_stdinClose : Held.use (.beside runtime containerName .writing) ⟨.stdinClose, (), ()⟩ =
    some (.beside runtime containerName .closed) :=
  rfl

/-- **Delivery closes the stream**, whether or not the transfer could be written. -/
theorem follows_deliver (transfer : Str) : Follows Held.use
    (.beside runtime containerName .writing) (Ends (.beside runtime containerName .closed))
    (deliver transfer) := by
  have hwrite : ∀ e : Effect, e.kind = .transferWrite ∨ e.kind = .newlineWrite →
      Held.use (.beside runtime containerName .writing) e =
        some (.beside runtime containerName .writing) := by
    rintro ⟨k, x, ans⟩ (rfl | rfl)
    · rfl
    · rfl
  refine follows_perform_bind fun written => ⟨_, hwrite _ (Or.inl rfl), ?_⟩
  rcases written with e | _
  · exact follows_perform_bind fun _ => ⟨_, use_stdinClose, follows_done rfl⟩
  · refine follows_perform_bind fun ended => ⟨_, hwrite _ (Or.inr rfl), ?_⟩
    exact follows_perform_bind fun _ => ⟨_, use_stdinClose, follows_done rfl⟩

theorem follows_awaitReadiness (readiness : Str → Option UInt16) (transfer : Str) :
    Follows Held.use (.beside runtime containerName .writing)
      (Ends (.beside runtime containerName .closed)) (awaitReadiness readiness transfer) := by
  refine (follows_deliver transfer).then (fun _ => rfl) fun delivery => ?_
  refine follows_attempt_bind (fun _ => rfl) fun _ _ => ?_
  refine follows_perform_bind fun read => ⟨_, ?_, follows_ofExcept rfl⟩
  rfl

end

theorem follows_ephemeralName : Follows Held.use .bare (Ends .bare) ephemeralName := by
  refine follows_perform_bind fun random => ⟨Held.bare, rfl, ?_⟩
  exact follows_attempt_bind (fun _ => rfl) fun _ _ => follows_done rfl

/-- The name a sidecar was given, read off the command. -/
theorem argAfter_sidecarCommand (runtime image targetContainer containerName : Str) :
    argAfter "--name".toList
      (sidecarCommand runtime image targetContainer containerName).args = some containerName := by
  simp [sidecarCommand, argAfter]

theorem use_sidecarRun (runtime image targetContainer containerName : Str) :
    Held.use .bare ⟨.sidecarRun, sidecarCommand runtime image targetContainer containerName,
      .ok ()⟩ = some (.beside runtime containerName .writing) := by
  simp only [Held.use, Call.use]
  rw [argAfter_sidecarCommand]
  rfl

/-- **A sidecar that is started is held**, its stream closed; one that could not be brought
up is removed. -/
theorem follows_startSidecar (readiness : Str → Option UInt16)
    (runtime image targetContainer transfer : Str) : Follows Held.use .bare
      (Gains (fun sidecar => .beside sidecar.runtime sidecar.containerName .closed) .bare)
      (startSidecar readiness runtime image targetContainer transfer) := by
  refine follows_giveUpIf.then (fun _ => rfl) fun _ => ?_
  refine follows_ephemeralName.then (fun _ => rfl) fun containerName => ?_
  refine follows_spawning_bind (follows_fail rfl) (follows_perform_bind fun started => ?_)
  rcases started with e | _
  · exact ⟨.bare, rfl, follows_fail rfl⟩
  · refine ⟨.beside runtime containerName .writing, use_sidecarRun _ _ _ _, ?_⟩
    exact ((follows_awaitReadiness readiness transfer).handOver follows_teardown).gain
      (fun _ => rfl) fun port => follows_done rfl

/-! ### The target -/

section

variable {runtime containerName : Str}

/-- The target, inside the iterator, inside the sidecar. -/
def Held.within (runtime containerName : Str) (target : Option TargetState) : Held :=
  { Held.beside runtime containerName .closed with iterator := true, target }

/-- Closing the iterator when there is no target. -/
theorem use_relayClose : Held.use (.within runtime containerName none) ⟨.relayClose, (), ()⟩ =
    some (.beside runtime containerName .closed) :=
  rfl

/-- **A target that was started is waited for**, or killed and reaped once the relay is
closed. -/
theorem follows_waitForTarget (client : Str) :
    Follows Held.use (.within runtime containerName (some .running))
      (Ends (.beside runtime containerName .closed)) (waitForTarget client) := by
  refine follows_perform_bind fun result => ?_
  rcases result with e | status
  · refine ⟨.within runtime containerName (some .lost), rfl, ?_⟩
    refine follows_perform_bind fun _ => ⟨_, rfl, ?_⟩
    refine follows_perform_bind fun _ => ⟨_, rfl, ?_⟩
    exact follows_perform_bind fun _ => ⟨_, rfl, follows_fail rfl⟩
  · refine ⟨.within runtime containerName none, rfl, ?_⟩
    exact follows_perform_bind fun _ => ⟨_, use_relayClose, follows_done rfl⟩

/-- **Supervision gives back the iterator and the target.** -/
theorem follows_supervise (command : Command) (client : Str) :
    Follows Held.use (.beside runtime containerName .closed)
      (Ends (.beside runtime containerName .closed)) (supervise command client) := by
  refine follows_perform_bind fun registered => ?_
  rcases registered with e | _
  · exact ⟨_, rfl, follows_fail rfl⟩
  · refine ⟨.within runtime containerName none, rfl, ?_⟩
    refine follows_spawning_bind ?_ (follows_perform_bind fun spawned => ?_)
    · exact follows_perform_bind fun _ => ⟨_, use_relayClose, follows_fail rfl⟩
    · rcases spawned with e | _
      · refine ⟨.within runtime containerName none, rfl, ?_⟩
        exact follows_perform_bind fun _ => ⟨_, use_relayClose, follows_fail rfl⟩
      · exact ⟨.within runtime containerName (some .running), rfl,
          follows_waitForTarget client⟩

end

theorem follows_execRuntime (context : DockerContext) (policy : CommandPolicy)
    (environment : List (EnvName × Str)) (userArgs : List Str) : Follows Held.use .bare
      (Ends .bare) (execRuntime context policy environment userArgs) := by
  refine follows_giveUpIf.then (fun _ => rfl) fun _ => ?_
  refine follows_perform_bind fun ans => ⟨.bare, rfl, ?_⟩
  cases ans with
  | none => exact follows_done rfl
  | some e => exact follows_fail rfl

/-! ### An invocation -/

theorem follows_runBeside (world : World) (context : DockerContext) (policy : CommandPolicy)
    (environment : List (EnvName × Str)) (userArgs : List Str)
    (provisioned : List ProvisionedProxySecret) (image : Str) :
    Follows Held.use .bare (Ends .bare)
      (runBeside world context policy environment userArgs provisioned image) := by
  refine ((follows_startSidecar world.readiness context.runtime image context.containerName
    _).mapError_gains Failure.sidecar).gain (fun _ => rfl) fun sidecar => ?_
  -- whatever became of the target, the sidecar goes out of scope
  exact (((follows_supervise _ _).mapError_ends Failure.execution).scope_ends
    follows_teardown).then (fun _ => rfl) fun code => follows_done rfl

theorem follows_deliverAll (world : World) (context : DockerContext) (policy : CommandPolicy)
    (userArgs : List Str) (resolved : ResolvedAll) : Follows Held.use .bare (Ends .bare)
      (deliverAll world context policy userArgs resolved) := by
  refine Follows.then (follows_ofExcept rfl) (fun _ => rfl) fun environment => ?_
  split
  · exact (follows_execRuntime _ _ _ _).mapError_ends _
  · have hprovision : Follows Held.use .bare (Ends .bare)
        (Prog.traverse (provisionOne resolved) policy.proxySecrets) :=
      follows_of_emits (emits_traverse fun spec _ => emits_provisionOne resolved spec)
        fun e he => use_bare (Or.inr (List.mem_singleton.mp he))
    refine hprovision.then (fun _ => rfl) fun provisioned => ?_
    refine ((follows_ensureProxyImage _ _).mapError_ends _).then (fun _ => rfl) fun image => ?_
    exact follows_runBeside world context policy environment userArgs provisioned image

theorem follows_execute (world : World) (invocation : Invocation) :
    Follows Held.use .bare (Ends .bare) (execute world invocation) := by
  refine Follows.then (follows_ofExcept rfl) (fun _ => rfl) fun selected => ?_
  have hresolve : Follows Held.use .bare (Ends .bare)
      (resolveDeclared world selected.1 selected.2.2) :=
    follows_of_emits (emits_resolveDeclared world _ _)
      fun e he => use_bare (Or.inl (List.mem_singleton.mp he))
  exact hresolve.then (fun _ => rfl) fun resolved => follows_deliverAll world _ _ _ resolved

/-- **What a use can change**: one thing at a time, and a new one only where there is
room for it. -/
theorem use_cases {e : Effect} {h' : Held} (hu : Held.use h e = some h') :
    h' = h ∨ h' = .bare ∨
      (∃ path, e = ⟨.contextCreate, path, .ok ()⟩ ∧ h' = .building path false) ∨
      (∃ path, e = ⟨.contextWrite, path, .ok ()⟩ ∧ h' = .building path true) ∨
      (∃ runtime name, h' = .beside runtime name .writing) ∨
      (h.client.isSome ∧ ∃ client, h' = { h with client }) ∨
      (RegistersHandlers e ∧ h' = { h with iterator := true }) ∨
      h' = { h with iterator := false } ∨
      (h.iterator = true ∧ h' = { h with target := some .running }) ∨
      (h.target.isSome ∧ ∃ target, h' = { h with target }) := by
  obtain ⟨k, x, ans⟩ := e
  cases k <;> simp only [Held.use] at hu <;> (try cases ans) <;>
    simp only [Call.use, Held.grant_eq_some, Option.bind_eq_some_iff] at hu
  case contextCreate.ok =>
    obtain ⟨-, rfl⟩ := hu
    exact Or.inr (Or.inr (Or.inl ⟨_, rfl, rfl⟩))
  case contextWrite.ok =>
    obtain ⟨-, rfl⟩ := hu
    exact Or.inr (Or.inr (Or.inr (Or.inl ⟨_, rfl, rfl⟩)))
  case contextRemove =>
    obtain ⟨-, rfl⟩ := hu
    exact Or.inr (Or.inl rfl)
  case imageBuild.ok | imageBuild.error =>
    obtain ⟨path, -, -, rfl⟩ := hu
    exact Or.inl rfl
  case sidecarRun.ok =>
    obtain ⟨name, -, -, rfl⟩ := hu
    exact Or.inr (Or.inr (Or.inr (Or.inr (Or.inl ⟨_, _, rfl⟩))))
  case stdinClose | sidecarRemove =>
    obtain ⟨c, hc, -, rfl⟩ := hu
    simp [hc]
  case sidecarWait =>
    obtain ⟨⟨c, hc, -⟩, rfl⟩ := hu
    simp [Option.mem_def.mp hc]
  case signalsRegister.ok =>
    obtain ⟨-, rfl⟩ := hu
    simp [RegistersHandlers]
  case relayClose =>
    obtain ⟨-, rfl⟩ := hu
    simp
  case targetSpawn.ok =>
    obtain ⟨⟨hi, -⟩, rfl⟩ := hu
    simp [hi]
  case targetWait.ok | targetWait.error | targetReap =>
    obtain ⟨ht, rfl⟩ := hu
    simp [ht]
  case targetKill =>
    obtain ⟨⟨ht, -⟩, rfl⟩ := hu
    simp [ht]
  all_goals exact Or.inl hu.2.symm

/-- **Where a directory that is held comes from**: it was just created, or just written to,
or was held already. -/
theorem directory_of_use {e : Effect} {h' : Held} {w : Workspace} (hu : Held.use h e = some h')
    (hw : h'.directory = some w) :
    (∃ path, e = ⟨.contextCreate, path, .ok ()⟩ ∧ w = ⟨path, false⟩) ∨
      (∃ path, e = ⟨.contextWrite, path, .ok ()⟩ ∧ w = ⟨path, true⟩) ∨
      h.directory = some w := by
  rcases use_cases hu with rfl | rfl | ⟨path, rfl, rfl⟩ | ⟨path, rfl, rfl⟩ | ⟨runtime, name, rfl⟩ |
    ⟨-, client, rfl⟩ | ⟨-, rfl⟩ | rfl | ⟨-, rfl⟩ | ⟨-, target, rfl⟩
  · exact Or.inr (Or.inr hw)
  · cases hw
  · exact Or.inl ⟨path, rfl, (Option.some.inj hw).symm⟩
  · exact Or.inr (Or.inl ⟨path, rfl, (Option.some.inj hw).symm⟩)
  · cases hw
  all_goals exact Or.inr (Or.inr hw)

/-- A context is written to the directory that is held. -/
theorem held_of_contextWrite {h' : Held} {path : Str} {ans : Except IoError Unit}
    (hu : Held.use h ⟨.contextWrite, path, ans⟩ = some h') : h = .building path false := by
  cases ans <;> exact (Held.grant_eq_some.mp hu).1

/-- The directory that is removed was held, and is not any more. -/
theorem held_of_contextRemove {h' : Held} {path : Str}
    (hu : Held.use h ⟨.contextRemove, path, ()⟩ = some h') :
    (∃ written, h = .building path written) ∧ h' = .bare := by
  obtain ⟨hh, rfl⟩ := Held.grant_eq_some.mp hu
  exact ⟨hh.elim (fun hh => ⟨_, hh⟩) fun hh => ⟨_, hh⟩, rfl⟩

/-- An image is built from the directory that is held, with all of the context in it. -/
theorem held_of_imageBuild {h' : Held} {command : Command} {ans : Except IoError Output}
    (hu : Held.use h ⟨.imageBuild, command, ans⟩ = some h') :
    ∃ path, command.args.getLast? = some path ∧ h = .building path true := by
  obtain ⟨path, hpath, hg⟩ := Option.bind_eq_some_iff.mp hu
  exact ⟨path, hpath, (Held.grant_eq_some.mp hg).1⟩

/-! ### Signals -/

/-- What has no iterator and no target: nothing, a directory or a client. -/
structure Held.Outer (h : Held) : Prop where
  iterator : h.iterator = false
  target : h.target = none
  apart : h.directory = none ∨ h.client = none

theorem outer_bare : Held.bare.Outer where
  iterator := rfl
  target := rfl
  apart := Or.inl rfl

/-- Only registering the handlers leads further in. -/
theorem Held.Outer.use {e : Effect} {h' : Held} (ho : h.Outer) (hu : Held.use h e = some h')
    (he : ¬RegistersHandlers e) : h'.Outer := by
  obtain ⟨hi, ht, ha⟩ := ho
  rcases use_cases hu with rfl | rfl | ⟨path, -, rfl⟩ | ⟨path, -, rfl⟩ | ⟨runtime, name, rfl⟩ |
    ⟨hc, client, rfl⟩ | ⟨hr, rfl⟩ | rfl | ⟨hi', rfl⟩ | ⟨ht', target, rfl⟩
  · exact ⟨hi, ht, ha⟩
  · exact outer_bare
  · exact ⟨rfl, rfl, Or.inr rfl⟩
  · exact ⟨rfl, rfl, Or.inr rfl⟩
  · exact ⟨rfl, rfl, Or.inl rfl⟩
  · -- beside a client there is no directory
    rcases ha with ha | ha
    · exact ⟨hi, ht, Or.inl ha⟩
    · simp [ha] at hc
  · exact absurd hr he
  · exact ⟨rfl, ht, ha⟩
  · simp [hi] at hi'
  · simp [ht] at ht'

/-- The three things it can be. -/
theorem Held.Outer.cases (ho : h.Outer) : h = .bare ∨ (∃ path written, h = .building path written) ∨
    ∃ runtime name state, h = .beside runtime name state := by
  obtain ⟨directory, client, iterator, target⟩ := h
  obtain ⟨hi, ht, ha⟩ := ho
  obtain rfl : iterator = false := hi
  obtain rfl : target = none := ht
  cases directory with
  | none =>
    cases client with
    | none => exact Or.inl rfl
    | some c => exact Or.inr (Or.inr ⟨c.runtime, c.containerName, c.state, rfl⟩)
  | some w =>
    obtain rfl : client = none := ha.resolve_left (by simp)
    exact Or.inr (Or.inl ⟨w.path, w.written, rfl⟩)

end Iwaya
