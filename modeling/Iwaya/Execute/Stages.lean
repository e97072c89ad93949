import Iwaya.Execute.Program

/-!
# What each piece calls, and where it stops

Two facts about every piece of an invocation, put together from those of its parts.
Its calls belong to the stages it is there for (`Iwaya.InStages`); and after a failed
step, one whose answer the program does not go on from, there is nothing left but
cleanup (`Iwaya.StopsAtFailure`): no secret is asked for and no target started.
-/

namespace Iwaya

open Text Effects

/-! ### Stages -/

/-- What a call is there for. -/
inductive Stage where
  | request
  | draw
  | image
  | sidecar
  | transfer
  | removal
  | target
  deriving DecidableEq

def Call.stage : Call → Stage
  | acquire | projectList | secretList => .request
  | entropy _ => .draw
  | material | materialDigest | imageInspect | contextCreate | contextWrite | imageBuild
  | contextRemove => .image
  | sidecarRun => .sidecar
  | transferWrite | newlineWrite | stdinClose | readinessRead => .transfer
  | sidecarRemove | sidecarWait => .removal
  | signalsRegister | targetSpawn | targetWait | relayClose | targetKill | targetReap
  | targetExec => .target

/-- The effect is of one of these stages. -/
def InStages (l : List Stage) (e : Effect) : Prop := e.kind.stage ∈ l

/-- The effect starts the target, as a child or in place of the process. -/
def StartsTarget (e : Effect) : Prop := e.kind = .targetSpawn ∨ e.kind = .targetExec

/-! ### Failed steps -/

/-- **A failed step**: its answer is not one the program goes on from. -/
def Call.failed (world : World) : (k : Call) → k.Ans → Prop
  | acquire, ans => ∀ output, ans = .ok output →
      ∀ provider token, tokenOf provider output ≠ .ok token
  | projectList, ans => ∀ output, ans = .ok output → output.status.success = true →
      ∀ l, world.bwsJson.projects output.stdout ≠ .ok l
  | secretList, ans => ∀ output, ans = .ok output → output.status.success = true →
      ∀ l, world.bwsJson.secrets output.stdout ≠ .ok l
  | entropy _, ans => ∃ e, ans = .error e
  | material, ans => ∃ e, ans = .error e
  | materialDigest, ans => ∃ e, ans = .error e
  | imageInspect, ans => ∃ e, ans = .error e
  | contextCreate, ans => ∃ e, ans = .error e
  | contextWrite, ans => ∃ e, ans = .error e
  | imageBuild, ans => ∀ output, ans = .ok output → output.status.success = false
  | sidecarRun, ans => ∃ e, ans = .error e
  | transferWrite, ans => ∃ e, ans = .error e
  | newlineWrite, ans => ∃ e, ans = .error e
  | readinessRead, ans => ∀ port, portOf world.readiness ans ≠ .ok port
  | signalsRegister, ans => ∃ e, ans = .error e
  | targetSpawn, ans => ∃ e, ans = .error e
  | targetWait, ans => ∃ e, ans = .error e
  | targetExec, ans => ans ≠ none
  | _, _ => False

def Failed (world : World) (e : Effect) : Prop := e.kind.failed world e.ans

/-- An effect that asks for no secret and starts no target. -/
def Quiet (e : Effect) : Prop := e.kind.stage ≠ .request ∧ ¬StartsTarget e

/-- **Stopping at a failure.** -/
abbrev StopsAtFailure {ε α : Type} (world : World) (p : Step ε α) : Prop :=
  FailStop (Failed world) Quiet p

/-- The effects of a cleanup: quiet ones, none of which can fail. -/
def Harmless (world : World) (e : Effect) : Prop := ¬Failed world e ∧ Quiet e

section

variable {ε α β : Type} {world : World} {l : List Stage}

/-- A call is of its stage. For a given call and given stages the premise is `rfl`. -/
theorem emits_call {k : Call} {x : k.Arg} (h : l.contains k.stage = true) :
    Emits (InStages l) (call k x : Step ε k.Ans) :=
  emits_perform fun _ => List.contains_iff_mem.mp h

/-- A program all of whose stages are among some more. -/
theorem emits_stages {p : Step ε α} {l' : List Stage} (h : Emits (InStages l) p)
    (hl : l ⊆ l') : Emits (InStages l') p :=
  h.mono fun _ he => hl he

/-- A call that asks for no secret and starts no target. -/
theorem emits_quiet {k : Call} {x : k.Arg}
    (hq : k.stage ≠ .request ∧ ¬(k = .targetSpawn ∨ k = .targetExec)) :
    Emits Quiet (call k x : Step ε k.Ans) :=
  emits_perform fun _ => hq

/-- Such a call, if it cannot fail either, is a cleanup. -/
theorem harmless_call {k : Call} {x : k.Arg} (h : ∀ ans, ¬k.failed world ans)
    (hq : k.stage ≠ .request ∧ ¬(k = .targetSpawn ∨ k = .targetExec)) :
    Emits (Harmless world) (call k x : Step ε k.Ans) :=
  emits_perform fun ans => ⟨h ans, hq⟩

/-- One more quiet call and then an error. -/
theorem gone_after_quiet {k : Call} {x : k.Arg} {next : k.Ans → Step ε α} {e : ε}
    (hq : k.stage ≠ .request ∧ ¬(k = .targetSpawn ∨ k = .targetExec))
    (hnext : ∀ ans, next ans = .fail e) :
    Emits Quiet ((call k x).bind next) ∧ Fails ((call k x).bind next) :=
  ⟨(emits_quiet hq).bind fun ans => hnext ans ▸ emits_fail _ e,
    Fails.bind fun ans => hnext ans ▸ fails_fail e⟩

/-- A refused command fails the step in its place. -/
theorem stopsAtFailure_spawning {command : Command} {start : Step ε (Except IoError α)}
    {f : Except IoError α → Step ε β} (h : StopsAtFailure world (start.bind f))
    (hnul : StopsAtFailure world (f (.error nulError))) :
    StopsAtFailure world ((spawning command start).bind f) := by
  unfold spawning
  split
  · exact hnul
  · exact h

theorem stopsAtFailure_done (a : α) : StopsAtFailure world (.done a : Step ε α) :=
  failStop_of_emits (emits_done _ a)

theorem stopsAtFailure_fail (e : ε) : StopsAtFailure world (.fail e : Step ε α) :=
  failStop_of_emits (emits_fail _ e)

theorem stopsAtFailure_ofExcept (c : Except ε α) : StopsAtFailure world (Prog.ofExcept c) :=
  failStop_of_emits (emits_ofExcept _ c)

theorem stopsAtFailure_attempt {ι : Type} (error : ι → ε) (answer : Except ι α) :
    StopsAtFailure world (attempt error answer) :=
  failStop_of_emits (emits_attempt _ _ _)

/-- A call that cannot fail. -/
theorem stopsAtFailure_call {k : Call} {x : k.Arg} (h : ∀ ans, ¬k.failed world ans) :
    StopsAtFailure world (call k x : Step ε k.Ans) :=
  failStop_of_emits (emits_perform fun ans => h ans)

end

/-! ### Resolution -/

section

variable (world : World)

theorem emits_acquireAccessToken (provider : BwsProvider) :
    Emits (InStages [.request]) (acquireAccessToken provider) :=
  (emits_spawning _ (emits_call rfl)).bind fun _ =>
    (emits_attempt _ _ _).bind fun _ => emits_ofExcept _ _

theorem stopsAtFailure_acquireAccessToken (provider : BwsProvider) :
    StopsAtFailure world (acquireAccessToken provider) := by
  refine stopsAtFailure_spawning (failStop_call (fun ans hbad => ?_) fun ans => ?_)
    (stopsAtFailure_fail _)
  · rcases ans with e | output
    · exact gone_of_eq_fail rfl _
    · rcases ht : tokenOf provider output with e | token
      · refine gone_of_eq_fail (e := e) ?_ _
        change Prog.ofExcept (tokenOf provider output) = _
        rw [ht]
        rfl
      · exact absurd ht (hbad output rfl provider token)
  · exact (stopsAtFailure_attempt _ _).bind fun _ => stopsAtFailure_ofExcept _

section Listing

variable {α : Type} {start : Command → Step ResolveError (Except IoError Output)}
  {fromSlice : List UInt8 → Except SerdeError (List α)}

theorem emits_bwsJson (hstart : ∀ command, Emits (InStages [.request]) (start command))
    (provider : BwsProvider) (token : Str) (args : List Str) (action : Str) :
    Emits (InStages [.request]) (bwsJson start fromSlice provider token args action) :=
  (emits_spawning _ (hstart _)).bind fun _ => (emits_attempt _ _ _).bind fun _ => emits_ofExcept _ _

/-- A listing that failed is not read. -/
theorem bwsOutput_eq_error {output : Output}
    (h : output.status.success = true → ∀ l, fromSlice output.stdout ≠ .ok l)
    (provider : BwsProvider) (action : Str) :
    ∃ e, bwsOutput fromSlice provider action output = .error e := by
  rcases hb : bwsOutput fromSlice provider action output with e | l
  · exact ⟨e, rfl⟩
  · obtain ⟨_, hs, hl⟩ := Checks.bind_eq_ok.mp hb
    have hsucc : output.status.success = true := by simpa using Checks.refuse_eq_ok.mp hs
    exact absurd (Checks.mapError_eq_ok.mp hl) (h hsucc l)

/-- The listings stop at a failure if the call that starts them does, with whatever comes
after it. -/
theorem stopsAtFailure_bwsJson
    (hstart : ∀ (command : Command) (f : Except IoError Output → Step ResolveError (List α)),
      (∀ ans, (∀ output, ans = .ok output → output.status.success = true →
        ∀ l, fromSlice output.stdout ≠ .ok l) → ∃ e, f ans = .fail e) →
      (∀ ans, StopsAtFailure world (f ans)) → StopsAtFailure world ((start command).bind f))
    (provider : BwsProvider) (token : Str) (args : List Str) (action : Str) :
    StopsAtFailure world (bwsJson start fromSlice provider token args action) := by
  refine stopsAtFailure_spawning (hstart _ _ (fun ans hbad => ?_) fun ans => ?_)
    (stopsAtFailure_fail _)
  · rcases ans with e | output
    · exact ⟨_, rfl⟩
    · obtain ⟨e, he⟩ := bwsOutput_eq_error (hbad output rfl) provider action
      refine ⟨e, ?_⟩
      change Prog.ofExcept (bwsOutput fromSlice provider action output) = _
      rw [he]
      rfl
  · exact (stopsAtFailure_attempt _ _).bind fun _ => stopsAtFailure_ofExcept _

end Listing

theorem emits_resolve (provider : BwsProvider) (names : List SecretName) :
    Emits (InStages [.request]) (resolve world.bwsJson provider names) :=
  (emits_acquireAccessToken provider).bind fun _ =>
    (emits_bwsJson (fun _ => emits_call rfl) _ _ _ _).bind fun _ =>
      (emits_ofExcept _ _).bind fun _ =>
        (emits_bwsJson (fun _ => emits_call rfl) _ _ _ _).bind fun _ =>
          (emits_ofExcept _ _).bind fun _ => emits_done _ _

theorem stopsAtFailure_resolve (provider : BwsProvider) (names : List SecretName) :
    StopsAtFailure world (resolve world.bwsJson provider names) := by
  refine (stopsAtFailure_acquireAccessToken world provider).bind fun token => ?_
  refine FailStop.bind ?_ fun projects => (stopsAtFailure_ofExcept _).bind fun project => ?_
  · exact stopsAtFailure_bwsJson world (fun command f hf hs =>
      failStop_call (fun ans hbad => gone_of_eq_fail (hf ans hbad).choose_spec _) hs) _ _ _ _
  · refine FailStop.bind ?_ fun secrets =>
      (stopsAtFailure_ofExcept _).bind fun _ => stopsAtFailure_done _
    exact stopsAtFailure_bwsJson world (fun command f hf hs =>
      failStop_call (fun ans hbad => gone_of_eq_fail (hf ans hbad).choose_spec _) hs) _ _ _ _

theorem emits_resolveDeclared (configuration : Config) (policy : CommandPolicy) :
    Emits (InStages [.request]) (resolveDeclared world configuration policy) := by
  refine (emits_traverse fun group _ => ?_).bind fun _ => emits_done _ _
  unfold resolveProvider
  split
  · exact emits_fail _ _
  · exact ((emits_resolve world _ _).mapError _).bind fun _ => emits_done _ _

theorem stopsAtFailure_resolveDeclared (configuration : Config) (policy : CommandPolicy) :
    StopsAtFailure world (resolveDeclared world configuration policy) := by
  refine (failStop_traverse (fun group => ?_) _).bind fun _ => stopsAtFailure_done _
  unfold resolveProvider
  split
  · exact stopsAtFailure_fail _
  · exact ((stopsAtFailure_resolve world _ _).mapError _).bind fun _ => stopsAtFailure_done _

/-! ### Provisioning -/

theorem emits_provisionOne (resolved : ResolvedAll) (spec : ProxySecretSpec) :
    Emits (InStages [.draw]) (provisionOne resolved spec) :=
  (emits_ofExcept _ _).bind fun _ => (emits_call rfl).bind fun _ =>
    (emits_attempt _ _ _).bind fun _ => emits_done _ _

theorem stopsAtFailure_provisionOne (resolved : ResolvedAll) (spec : ProxySecretSpec) :
    StopsAtFailure world (provisionOne resolved spec) := by
  refine (stopsAtFailure_ofExcept _).bind fun rawValue => failStop_call (fun ans hbad => ?_)
    fun ans => (stopsAtFailure_attempt _ _).bind fun _ => stopsAtFailure_done _
  obtain ⟨e, rfl⟩ := hbad
  exact gone_of_eq_fail rfl _

/-! ### The image -/

theorem emits_imageExists (runtime tag : Str) :
    Emits (InStages [.image]) (imageExists runtime tag) :=
  (emits_spawning _ (emits_call rfl)).bind fun _ => (emits_attempt _ _ _).bind fun _ =>
    emits_done _ _

theorem stopsAtFailure_imageExists (runtime tag : Str) :
    StopsAtFailure world (imageExists runtime tag) := by
  refine stopsAtFailure_spawning (failStop_call (fun ans hbad => ?_) fun ans =>
    (stopsAtFailure_attempt _ _).bind fun _ => stopsAtFailure_done _) (stopsAtFailure_fail _)
  obtain ⟨e, rfl⟩ := hbad
  exact gone_of_eq_fail rfl _

theorem emits_createTempContext (tempDir : Str) :
    Emits (InStages [.draw, .image]) (createTempContext tempDir) :=
  (emits_call rfl).bind fun _ => (emits_attempt _ _ _).bind fun _ =>
    (emits_call rfl).bind fun _ => (emits_attempt _ _ _).bind fun _ => emits_done _ _

theorem stopsAtFailure_createTempContext (tempDir : Str) :
    StopsAtFailure world (createTempContext tempDir) := by
  refine failStop_call (fun ans hbad => ?_) fun ans =>
    (stopsAtFailure_attempt _ _).bind fun random => failStop_call (fun ans hbad => ?_) fun ans =>
      (stopsAtFailure_attempt _ _).bind fun _ => stopsAtFailure_done _
  · obtain ⟨e, rfl⟩ := hbad
    exact gone_of_eq_fail rfl _
  · obtain ⟨e, rfl⟩ := hbad
    exact gone_of_eq_fail rfl _

theorem emits_build (runtime tag context : Str) :
    Emits (InStages [.image]) (do
      writeBuildContext context
      buildImage runtime tag context
      return tag) :=
  ((emits_call rfl).bind fun _ => emits_attempt _ _ _).bind fun _ =>
    ((emits_spawning _ (emits_call rfl)).bind fun _ => (emits_attempt _ _ _).bind fun _ =>
      emits_giveUpIf _ _ _).bind fun _ => emits_done _ _

theorem stopsAtFailure_build (runtime tag context : Str) :
    StopsAtFailure world (do
      writeBuildContext context
      buildImage runtime tag context
      return tag) := by
  refine FailStop.bind (failStop_call (fun ans hbad => ?_) fun ans => stopsAtFailure_attempt _ _)
    fun _ => FailStop.bind (stopsAtFailure_spawning (failStop_call (fun ans hbad => ?_) fun ans =>
      (stopsAtFailure_attempt _ _).bind fun _ => stopsAtFailure_ofExcept _)
      (stopsAtFailure_fail _)) fun _ => stopsAtFailure_done _
  · obtain ⟨e, rfl⟩ := hbad
    exact gone_of_eq_fail rfl _
  · rcases ans with e | output
    · exact gone_of_eq_fail rfl _
    · refine gone_of_eq_fail (e := .buildFailed output.status.display (trimEnd output.stderr)) ?_ _
      change giveUpIf (output.status.success = false) _ = _
      rw [giveUpIf, Checks.refuse, if_pos (hbad output rfl)]
      rfl

theorem emits_ensureProxyImage (tempDir runtime : Str) :
    Emits (InStages [.draw, .image]) (ensureProxyImage tempDir runtime) := by
  refine (emits_call rfl).bind fun _ => (emits_ofExcept _ _).bind fun _ =>
    (emits_call rfl).bind fun _ => (emits_ofExcept _ _).bind fun digest =>
      (emits_stages (emits_imageExists _ _) (List.subset_cons_self _ _)).bind fun found => ?_
  split
  · exact emits_done _ _
  · exact (emits_createTempContext tempDir).bind fun context =>
      (emits_stages (emits_build _ _ _) (List.subset_cons_self _ _)).scope (emits_call rfl)

theorem stopsAtFailure_ensureProxyImage (tempDir runtime : Str) :
    StopsAtFailure world (ensureProxyImage tempDir runtime) := by
  refine failStop_call (fun ans hbad => ?_) fun ans => (stopsAtFailure_ofExcept _).bind fun _ =>
    failStop_call (fun ans hbad => ?_) fun ans => (stopsAtFailure_ofExcept _).bind fun digest =>
      (stopsAtFailure_imageExists world _ _).bind fun found => ?_
  · obtain ⟨e, rfl⟩ := hbad
    exact gone_of_eq_fail rfl _
  · obtain ⟨e, rfl⟩ := hbad
    exact gone_of_eq_fail rfl _
  · split
    · exact stopsAtFailure_done _
    · refine (stopsAtFailure_createTempContext world tempDir).bind fun context =>
        (stopsAtFailure_build world _ _ _).scope ?_
      exact harmless_call (fun _ => id) (by decide)

/-! ### The sidecar -/

/-- Removal is a cleanup. -/
theorem harmless_teardown (runtime containerName : Str) :
    Emits (Harmless world) (teardown runtime containerName) :=
  (harmless_call (fun _ => id) (by decide)).bind fun _ =>
    harmless_call (fun _ => id) (by decide)

theorem emits_awaitReadiness (transfer : Str) :
    Emits (InStages [.transfer]) (awaitReadiness world.readiness transfer) := by
  refine Emits.bind ?_ fun _ => (emits_attempt _ _ _).bind fun _ =>
    (emits_call rfl).bind fun _ => emits_ofExcept _ _
  refine (emits_call rfl).bind fun written => ?_
  split
  · exact (emits_call rfl).bind fun _ => emits_done _ _
  · exact (emits_call rfl).bind fun _ => (emits_call rfl).bind fun _ =>
      emits_done _ _

theorem stopsAtFailure_awaitReadiness (transfer : Str) :
    StopsAtFailure world (awaitReadiness world.readiness transfer) := by
  have hread : StopsAtFailure world ((call .readinessRead ()).bind fun read =>
      (Prog.ofExcept (portOf world.readiness read) : Step SidecarError UInt16)) := by
    refine failStop_call (fun read hbad => ?_) fun _ => stopsAtFailure_ofExcept _
    rcases hp : portOf world.readiness read with e | port
    · exact gone_of_eq_fail (e := e) rfl _
    · exact absurd hp (hbad port)
  refine failStop_call (k := Call.transferWrite) (fun written hbad => ?_) fun written => ?_
  · obtain ⟨e, rfl⟩ := hbad
    exact gone_after_quiet (k := Call.stdinClose) (by decide) fun _ => rfl
  · rcases written with e | _
    · exact (stopsAtFailure_call fun _ => id).bind fun _ => stopsAtFailure_fail _
    · refine failStop_call (k := Call.newlineWrite) (fun ended hbad => ?_) fun ended => ?_
      · obtain ⟨e, rfl⟩ := hbad
        exact gone_after_quiet (k := Call.stdinClose) (by decide) fun _ => rfl
      · exact (stopsAtFailure_call fun _ => id).bind fun _ =>
          (stopsAtFailure_attempt _ _).bind fun _ => hread

theorem stopsAtFailure_startSidecar (runtime image targetContainer transfer : Str) :
    StopsAtFailure world
      (startSidecar world.readiness runtime image targetContainer transfer) := by
  refine (stopsAtFailure_ofExcept _).bind fun _ => FailStop.bind ?_ fun containerName =>
    stopsAtFailure_spawning ?_ (stopsAtFailure_fail _)
  · refine failStop_call (fun ans hbad => ?_) fun ans =>
      (stopsAtFailure_attempt _ _).bind fun _ => stopsAtFailure_done _
    obtain ⟨e, rfl⟩ := hbad
    exact gone_of_eq_fail rfl _
  · refine failStop_call (fun ans hbad => ?_) fun ans => (stopsAtFailure_attempt _ _).bind fun _ =>
      ((stopsAtFailure_awaitReadiness world transfer).onFail
        (harmless_teardown world runtime containerName)).bind fun _ => stopsAtFailure_done _
    obtain ⟨e, rfl⟩ := hbad
    exact gone_of_eq_fail rfl _

/-! ### The target -/

theorem emits_execRuntime (context : DockerContext) (policy : CommandPolicy)
    (environment : List (EnvName × Str)) (userArgs : List Str) :
    Emits (InStages [.target]) (execRuntime context policy environment userArgs) := by
  refine (emits_giveUpIf _ _ _).bind fun _ => (emits_call rfl).bind fun ans => ?_
  rcases ans with _ | e
  · exact emits_done _ _
  · exact emits_fail _ _

theorem stopsAtFailure_execRuntime (context : DockerContext) (policy : CommandPolicy)
    (environment : List (EnvName × Str)) (userArgs : List Str) :
    StopsAtFailure world (execRuntime context policy environment userArgs) := by
  refine (stopsAtFailure_ofExcept _).bind fun _ => failStop_call (fun ans hbad => ?_) fun ans => ?_
  · rcases ans with _ | e
    · exact absurd rfl hbad
    · exact gone_of_eq_fail rfl _
  · rcases ans with _ | e
    · exact stopsAtFailure_done _
    · exact stopsAtFailure_fail _

theorem emits_waitForTarget (runtime : Str) :
    Emits (InStages [.target]) (waitForTarget runtime) := by
  refine (emits_call rfl).bind fun result => (emits_call rfl).bind fun _ => ?_
  rcases result with e | status
  · exact (emits_call rfl).bind fun _ => (emits_call rfl).bind fun _ => emits_fail _ _
  · exact emits_done _ _

theorem stopsAtFailure_waitForTarget (runtime : Str) :
    StopsAtFailure world (waitForTarget runtime) := by
  refine failStop_call (fun result hbad => ?_) fun result => ?_
  · obtain ⟨e, rfl⟩ := hbad
    refine ⟨(emits_quiet (k := Call.relayClose) (by decide)).bind fun _ =>
      (emits_quiet (k := Call.targetKill) (by decide)).bind fun _ =>
        (emits_quiet (k := Call.targetReap) (by decide)).bind fun _ =>
          emits_fail _ _, ?_⟩
    exact Fails.bind fun _ => Fails.bind fun _ => Fails.bind fun _ => fails_fail _
  · refine (stopsAtFailure_call fun _ => id).bind fun _ => ?_
    rcases result with e | status
    · exact (stopsAtFailure_call fun _ => id).bind fun _ =>
        (stopsAtFailure_call fun _ => id).bind fun _ => stopsAtFailure_fail _
    · exact stopsAtFailure_done _

theorem emits_supervise (command : Command) (runtime : Str) :
    Emits (InStages [.target]) (supervise command runtime) := by
  refine (emits_call rfl).bind fun _ => (emits_attempt _ _ _).bind fun _ =>
    (emits_spawning _ (emits_call rfl)).bind fun spawned => ?_
  rcases spawned with e | _
  · exact (emits_call rfl).bind fun _ => emits_fail _ _
  · exact emits_waitForTarget runtime

theorem stopsAtFailure_supervise (command : Command) (runtime : Str) :
    StopsAtFailure world (supervise command runtime) := by
  refine failStop_call (fun ans hbad => ?_) fun ans => (stopsAtFailure_attempt _ _).bind fun _ =>
    stopsAtFailure_spawning (failStop_call (fun ans hbad => ?_) fun ans => ?_) ?_
  · obtain ⟨e, rfl⟩ := hbad
    exact gone_of_eq_fail rfl _
  · obtain ⟨e, rfl⟩ := hbad
    exact gone_after_quiet (k := Call.relayClose) (by decide) fun _ => rfl
  · rcases ans with e | _
    · exact (stopsAtFailure_call fun _ => id).bind fun _ => stopsAtFailure_fail _
    · exact stopsAtFailure_waitForTarget world runtime
  · exact (stopsAtFailure_call fun _ => id).bind fun _ => stopsAtFailure_fail _

/-! ### An invocation -/

theorem stopsAtFailure_runBeside (context : DockerContext) (policy : CommandPolicy)
    (environment : List (EnvName × Str)) (userArgs : List Str)
    (provisioned : List ProvisionedProxySecret) (image : Str) :
    StopsAtFailure world
      (runBeside world context policy environment userArgs provisioned image) :=
  ((stopsAtFailure_startSidecar world _ _ _ _).mapError _).bind fun _ =>
    (((stopsAtFailure_supervise world _ _).mapError _).scope (harmless_teardown world _ _)).bind
      fun _ => stopsAtFailure_done _

theorem stopsAtFailure_deliverAll (context : DockerContext) (policy : CommandPolicy)
    (userArgs : List Str) (resolved : ResolvedAll) :
    StopsAtFailure world (deliverAll world context policy userArgs resolved) := by
  refine (stopsAtFailure_ofExcept _).bind fun environment => ?_
  split
  · exact (stopsAtFailure_execRuntime world _ _ _ _).mapError _
  · exact (failStop_traverse (stopsAtFailure_provisionOne world resolved) _).bind fun _ =>
      ((stopsAtFailure_ensureProxyImage world _ _).mapError _).bind fun _ =>
        stopsAtFailure_runBeside world _ _ _ _ _ _

/-- **An invocation stops at its first failed step.** -/
theorem stopsAtFailure_execute (invocation : Invocation) :
    StopsAtFailure world (execute world invocation) :=
  (stopsAtFailure_ofExcept _).bind fun _ => (stopsAtFailure_resolveDeclared world _ _).bind fun _ =>
    stopsAtFailure_deliverAll world _ _ _ _

end

end Iwaya
