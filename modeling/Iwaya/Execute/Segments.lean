import Iwaya.Foundation.Trace
import Iwaya.Execute.Resolution
import Iwaya.Execute.Stages

/-!
# The segments of an invocation

A run of an invocation is cut into its segments: resolution, provisioning, the image,
the sidecar's start, the target beside it, and the sidecar's removal
(`Iwaya.execute_cases`, `Iwaya.deliverAll_cases`, `Iwaya.runBeside_cases`). One
inversion lemma per piece says everything that piece can do, failures included, for
every assignment of answers to its calls; what an invocation promises about order is
read off the cuts.
-/

namespace Iwaya

open Text Effects Trace

/-! ### Events -/

/-- The runtime has the image: it was found, or it was built. -/
def ImagePrepared (e : Effect) : Prop :=
  (∃ x status, e = ⟨.imageInspect, x, .ok status⟩ ∧ status.success = true) ∨
    ∃ x output, e = ⟨.imageBuild, x, .ok output⟩ ∧ output.status.success = true

/-- The sidecar reported this port. -/
def ReportsPort (world : World) (port : UInt16) (e : Effect) : Prop :=
  ∃ read, e = ⟨.readinessRead, (), read⟩ ∧ portOf world.readiness read = .ok port

/-- The sidecar reported its port. -/
def ReportsReady (world : World) (e : Effect) : Prop := ∃ port, ReportsPort world port e

/-- The client of a sidecar of this name was started. -/
def sidecarStarted (runtime image targetContainer containerName : Str) : Effect :=
  ⟨.sidecarRun, sidecarCommand runtime image targetContainer containerName, .ok ()⟩

/-- The sidecar of this name was removed, and its client reaped. -/
def sidecarRemoved (runtime containerName : Str) : List Effect :=
  [⟨.sidecarRemove, removeCommand runtime containerName, ()⟩, ⟨.sidecarWait, (), ()⟩]

/-- The target was started as a child. -/
def TargetStarted (e : Effect) : Prop := ∃ command, e = ⟨.targetSpawn, command, .ok ()⟩

/-- The target is over: it was waited for, or killed and reaped. -/
def EndsTarget (e : Effect) : Prop :=
  (∃ status, e = ⟨.targetWait, (), .ok status⟩) ∨ e.kind = .targetReap

/-! ### Supervision -/

section

variable {world : World} {context : DockerContext} {policy : CommandPolicy}
  {environment : List (EnvName × Str)} {userArgs : List Str} {tr : List Effect}

theorem runs_teardown_iff {runtime containerName : Str} :
    Runs (teardown runtime containerName) tr (.ok ()) ↔
      tr = sidecarRemoved runtime containerName := by
  constructor
  · intro h
    obtain ⟨_, t, rfl, h1⟩ := runs_perform_bind_iff.mp h
    obtain ⟨_, rfl, -⟩ := runs_perform_iff.mp h1
    rfl
  · rintro rfl
    exact runs_perform_bind_iff.mpr ⟨(), _, rfl, runs_perform_iff.mpr ⟨(), rfl, rfl⟩⟩

theorem waitForTarget_cases {runtime : Str} {r : Except ExecError UInt8}
    (h : Runs (waitForTarget runtime) tr r) :
    (∃ status, r = .ok (exitCodeOf status) ∧
        tr = [⟨.targetWait, (), .ok status⟩, ⟨.relayClose, (), ()⟩]) ∨
      ∃ source, r = .error { runtime, source } ∧ tr = [⟨.targetWait, (), .error source⟩,
        ⟨.relayClose, (), ()⟩, ⟨.targetKill, (), ()⟩, ⟨.targetReap, (), ()⟩] := by
  obtain ⟨result, t₁, rfl, h1⟩ := runs_perform_bind_iff.mp h
  obtain ⟨_, t₂, rfl, h2⟩ := runs_perform_bind_iff.mp h1
  rcases result with source | status
  · obtain ⟨_, t₃, rfl, h3⟩ := runs_perform_bind_iff.mp h2
    obtain ⟨_, t₄, rfl, h4⟩ := runs_perform_bind_iff.mp h3
    obtain ⟨rfl, rfl⟩ := runs_fail_iff.mp h4
    exact Or.inr ⟨source, rfl, rfl⟩
  · obtain ⟨rfl, rfl⟩ := runs_done_iff.mp h2
    exact Or.inl ⟨status, rfl, rfl⟩

/-- **What supervision can do**: the handlers cannot be registered, the target cannot be
started, or it is started and waited for. -/
theorem supervise_cases {command : Command} {runtime : Str} {r : Except ExecError UInt8}
    (h : Runs (supervise command runtime) tr r) :
    (∃ source, r = .error { runtime, source } ∧ tr = [⟨.signalsRegister, (), .error source⟩]) ∨
      ∃ rest, tr = ⟨.signalsRegister, (), .ok ()⟩ :: rest ∧
        ((∃ source, r = .error { runtime, source } ∧ (rest = [⟨.relayClose, (), ()⟩] ∨
            rest = [⟨.targetSpawn, command, .error source⟩, ⟨.relayClose, (), ()⟩])) ∨
          ∃ rest', rest = ⟨.targetSpawn, command, .ok ()⟩ :: rest' ∧
            Runs (waitForTarget runtime) rest' r) := by
  obtain ⟨registered, rest, rfl, h1⟩ := runs_perform_bind_iff.mp h
  rcases runs_attempt_bind_iff.mp h1 with ⟨source, rfl, rfl, rfl⟩ | ⟨_, rfl, h2⟩
  · exact Or.inl ⟨source, rfl, rfl⟩
  · refine Or.inr ⟨rest, rfl, ?_⟩
    rcases runs_spawning_bind_iff.mp h2 with ⟨-, h3⟩ | ⟨-, h3⟩
    · obtain ⟨_, t, rfl, h4⟩ := runs_perform_bind_iff.mp h3
      obtain ⟨rfl, rfl⟩ := runs_fail_iff.mp h4
      exact Or.inl ⟨_, rfl, Or.inl rfl⟩
    · obtain ⟨spawned, rest', rfl, h4⟩ := runs_perform_bind_iff.mp h3
      rcases spawned with source | _
      · obtain ⟨_, t, rfl, h5⟩ := runs_perform_bind_iff.mp h4
        obtain ⟨rfl, rfl⟩ := runs_fail_iff.mp h5
        exact Or.inl ⟨source, rfl, Or.inr rfl⟩
      · exact Or.inr ⟨rest', rfl, h4⟩

/-- Waiting for a target starts none, and ends the one there is. -/
theorem targets_waitForTarget {runtime : Str} {r : Except ExecError UInt8}
    (h : Runs (waitForTarget runtime) tr r) :
    Never StartsTarget tr ∧ ∃ x ∈ tr, EndsTarget x := by
  rcases waitForTarget_cases h with ⟨status, -, rfl⟩ | ⟨source, -, rfl⟩
  · refine ⟨?_, _, List.mem_cons_self, Or.inl ⟨status, rfl⟩⟩
    simp [Never, StartsTarget]
  · refine ⟨?_, ⟨.targetReap, (), ()⟩, by simp, Or.inr rfl⟩
    simp [Never, StartsTarget]

/-- Only the stage of the target starts it. -/
theorem never_startsTarget (h : ∀ e ∈ tr, e.kind.stage ≠ .target) : Never StartsTarget tr := by
  rintro e he (hk | hk)
  · exact h e he (by rw [hk]; rfl)
  · exact h e he (by rw [hk]; rfl)

/-- What comes before the target is started as a child: the signals that are relayed to it
are caught. -/
def signalsCaught : List Effect := [⟨.signalsRegister, (), .ok ()⟩]

/-- **Supervision starts the target at most once**, as a child, and ends the one it
started. -/
theorem targets_supervise {command : Command} {runtime : Str} {r : Except ExecError UInt8}
    (h : Runs (supervise command runtime) tr r) :
    Never StartsTarget tr ∨ ∃ ans q,
      Sole StartsTarget tr signalsCaught ⟨.targetSpawn, command, ans⟩ q ∧
        (ans = .ok () → ∃ x ∈ q, EndsTarget x) := by
  have hreg : Never StartsTarget signalsCaught := by simp [Never, StartsTarget, signalsCaught]
  rcases supervise_cases h with ⟨source, -, rfl⟩ |
    ⟨rest, rfl, ⟨source, -, rfl | rfl⟩ | ⟨q, rfl, hq⟩⟩
  · exact Or.inl (by simp [Never, StartsTarget])
  · exact Or.inl (by simp [Never, StartsTarget])
  · -- an attempt that failed is a start too, but there is no target to end
    refine Or.inr ⟨.error source, _, ⟨rfl, Or.inl rfl, hreg, ?_⟩, ?_⟩
    · simp [Never, StartsTarget]
    · intro he
      cases he
  · obtain ⟨h1, h2⟩ := targets_waitForTarget hq
    exact Or.inr ⟨.ok (), q, ⟨rfl, Or.inl rfl, hreg, h1⟩, fun _ => h2⟩

/-- A replacement is the only thing a direct execution does. -/
theorem execRuntime_cases {r : Except ExecError Exit}
    (h : Runs (execRuntime context policy environment userArgs) tr r) :
    (∃ e, r = .error e ∧ tr = []) ∨ ∃ ans, tr = [⟨.targetExec,
      applyInjectedEnvironment (runtimeCommand context policy userArgs) environment, ans⟩] := by
  rcases runs_ofExcept_bind_iff.mp h with ⟨e, -, rfl, rfl⟩ | ⟨_, -, h1⟩
  · exact Or.inl ⟨e, rfl, rfl⟩
  · obtain ⟨ans, t, rfl, h2⟩ := runs_perform_bind_iff.mp h1
    refine Or.inr ⟨ans, ?_⟩
    rcases ans with _ | source
    · rw [(runs_done_iff.mp h2).1]
    · rw [(runs_fail_iff.mp h2).1]

/-! ### The image -/

/-- An image that exists was found. -/
theorem imagePrepared_of_imageExists {runtime tag : Str}
    (h : Runs (imageExists runtime tag) tr (.ok true)) : ∃ e ∈ tr, ImagePrepared e := by
  rcases runs_spawning_bind_iff.mp h with ⟨-, h1⟩ | ⟨-, h1⟩
  · cases (runs_fail_iff.mp h1).2
  · obtain ⟨status, t, rfl, h2⟩ := runs_perform_bind_iff.mp h1
    rcases runs_attempt_bind_iff.mp h2 with ⟨_, -, -, he⟩ | ⟨status, rfl, h3⟩
    · cases he
    · obtain ⟨rfl, hs⟩ := runs_done_iff.mp h3
      exact ⟨_, List.mem_cons_self, Or.inl ⟨_, status, rfl, (Except.ok.inj hs).symm⟩⟩

/-- A build that succeeded built it. -/
theorem imagePrepared_of_buildImage {runtime tag context : Str}
    (h : Runs (buildImage runtime tag context) tr (.ok ())) : ∃ e ∈ tr, ImagePrepared e := by
  rcases runs_spawning_bind_iff.mp h with ⟨-, h1⟩ | ⟨-, h1⟩
  · cases (runs_fail_iff.mp h1).2
  · obtain ⟨output, t, rfl, h2⟩ := runs_perform_bind_iff.mp h1
    rcases runs_attempt_bind_iff.mp h2 with ⟨_, -, -, he⟩ | ⟨output, rfl, h3⟩
    · cases he
    · have hs := Checks.refuse_eq_ok.mp (runs_giveUpIf_iff.mp h3).2.symm
      exact ⟨_, List.mem_cons_self, Or.inr ⟨_, output, rfl, Bool.not_eq_false _ ▸ hs⟩⟩

/-- An image is named by the digest of its files. -/
theorem imageTag_of_runs {tempDir runtime image : Str}
    (h : Runs (ensureProxyImage tempDir runtime) tr (.ok image)) :
    ∃ digest, image = imageTag digest := by
  obtain ⟨material, t₁, rfl, h1⟩ := runs_perform_bind_iff.mp h
  obtain ⟨_, t₂, t₃, rfl, -, h2⟩ := runs_bind_ok_iff.mp h1
  obtain ⟨answer, t₄, rfl, h3⟩ := runs_perform_bind_iff.mp h2
  obtain ⟨digest, t₅, t₆, rfl, -, h4⟩ := runs_bind_ok_iff.mp h3
  obtain ⟨found, t₇, t₈, rfl, -, h5⟩ := runs_bind_ok_iff.mp h4
  refine ⟨digest, ?_⟩
  rcases found with _ | _
  · obtain ⟨context, t₉, t₁₀, rfl, -, h6⟩ := runs_bind_ok_iff.mp h5
    obtain ⟨t₁₁, t₁₂, rfl, h7, -⟩ := runs_scope_iff.mp h6
    obtain ⟨_, t₁₃, t₁₄, rfl, -, h8⟩ := runs_bind_ok_iff.mp h7
    obtain ⟨_, t₁₅, t₁₆, rfl, -, h9⟩ := runs_bind_ok_iff.mp h8
    exact Except.ok.inj (runs_done_iff.mp h9).2
  · exact Except.ok.inj (runs_done_iff.mp h5).2

/-- **An image that was prepared was found or built.** -/
theorem imagePrepared_of_runs {tempDir runtime image : Str}
    (h : Runs (ensureProxyImage tempDir runtime) tr (.ok image)) : ∃ e ∈ tr, ImagePrepared e := by
  obtain ⟨material, t₁, rfl, h1⟩ := runs_perform_bind_iff.mp h
  obtain ⟨_, t₂, t₃, rfl, -, h2⟩ := runs_bind_ok_iff.mp h1
  obtain ⟨digest, t₄, rfl, h3⟩ := runs_perform_bind_iff.mp h2
  obtain ⟨digest', t₅, t₆, rfl, -, h4⟩ := runs_bind_ok_iff.mp h3
  obtain ⟨found, t₇, t₈, rfl, h5, h6⟩ := runs_bind_ok_iff.mp h4
  suffices h : (∃ e ∈ t₇, ImagePrepared e) ∨ ∃ e ∈ t₈, ImagePrepared e by
    rcases h with ⟨e, he, hp⟩ | ⟨e, he, hp⟩ <;> exact ⟨e, by simp [he], hp⟩
  -- without the image there is a build, and what it ran is inside its scope
  rcases found with _ | _
  · obtain ⟨context, t₉, t₁₀, rfl, -, h7⟩ := runs_bind_ok_iff.mp h6
    obtain ⟨t₁₁, t₁₂, rfl, h8, -⟩ := runs_scope_iff.mp h7
    obtain ⟨_, t₁₃, t₁₄, rfl, -, h9⟩ := runs_bind_ok_iff.mp h8
    obtain ⟨_, t₁₅, t₁₆, rfl, h10, -⟩ := runs_bind_ok_iff.mp h9
    obtain ⟨e, he, hp⟩ := imagePrepared_of_buildImage h10
    exact Or.inr ⟨e, by simp [he], hp⟩
  · exact Or.inl (imagePrepared_of_imageExists h5)

/-! ### The sidecar -/

/-- **A port that was reported was read.** -/
theorem reportsPort_of_runs {transfer : Str} {port : UInt16}
    (h : Runs (awaitReadiness world.readiness transfer) tr (.ok port)) :
    ∃ e ∈ tr, ReportsPort world port e := by
  obtain ⟨delivery, t₁, t₂, rfl, -, h1⟩ := runs_bind_ok_iff.mp h
  obtain ⟨_, t₃, t₄, rfl, -, h2⟩ := runs_bind_ok_iff.mp h1
  obtain ⟨read, t₅, rfl, h3⟩ := runs_perform_bind_iff.mp h2
  obtain ⟨rfl, hport⟩ := runs_ofExcept_iff.mp h3
  exact ⟨⟨.readinessRead, (), read⟩, by simp, read, rfl, hport.symm⟩

/-- A name is drawn. -/
theorem ephemeralName_cases {r : Except SidecarError Str} (h : Runs ephemeralName tr r) :
    (∃ source, r = .error .name ∧ tr = [⟨.entropy 8, (), .error source⟩]) ∨
      ∃ random : Vector UInt8 8, r = .ok ("iwaya-proxy-".toList ++ hex random.toList) ∧
        tr = [⟨.entropy 8, (), .ok random⟩] := by
  obtain ⟨random, t, rfl, h1⟩ := runs_perform_bind_iff.mp h
  rcases runs_attempt_bind_iff.mp h1 with ⟨source, rfl, rfl, rfl⟩ | ⟨bytes, rfl, h2⟩
  · exact Or.inl ⟨source, rfl, rfl⟩
  · obtain ⟨rfl, rfl⟩ := runs_done_iff.mp h2
    exact Or.inr ⟨bytes, rfl, rfl⟩

/-- A sidecar whose client was not started, and why. -/
inductive Unstarted (runtime image targetContainer transfer : Str) :
    List Effect → SidecarError → Prop
  | multiline (h : '\n' ∈ transfer) :
    Unstarted runtime image targetContainer transfer [] .transferNotSingleLine
  | unnamed {source : IoError} :
    Unstarted runtime image targetContainer transfer [⟨.entropy 8, (), .error source⟩] .name
  /-- The command is none that can be run. -/
  | sawNul {random : Vector UInt8 8} (h : (sidecarCommand runtime image targetContainer
      ("iwaya-proxy-".toList ++ hex random.toList)).sawNul = true) :
    Unstarted runtime image targetContainer transfer [⟨.entropy 8, (), .ok random⟩]
      (.start runtime nulError)
  | refused {random : Vector UInt8 8} {source : IoError} :
    Unstarted runtime image targetContainer transfer [⟨.entropy 8, (), .ok random⟩,
      ⟨.sidecarRun, sidecarCommand runtime image targetContainer
        ("iwaya-proxy-".toList ++ hex random.toList), .error source⟩] (.start runtime source)

/-- Not more was tried than to draw a name and to start the client. -/
theorem Unstarted.stages {runtime image targetContainer transfer : Str} {e : SidecarError}
    (h : Unstarted runtime image targetContainer transfer tr e) : ∀ x ∈ tr,
      x.kind.stage = .draw ∨ ∃ command source, x = ⟨.sidecarRun, command, .error source⟩ := by
  cases h <;> simp [Call.stage]

/-- **What starting a sidecar can do**: no client was started, for one of four reasons, or
one was, and then it reported its port, or it was removed again. -/
theorem startSidecar_parts {runtime image targetContainer transfer : Str}
    {r : Except SidecarError Sidecar}
    (h : Runs (startSidecar world.readiness runtime image targetContainer transfer) tr r) :
    (∃ e, r = .error e ∧ Unstarted runtime image targetContainer transfer tr e) ∨
      ∃ containerName draw b, '\n' ∉ transfer ∧ draw.kind = .entropy 8 ∧
        ((∃ e, r = .error e ∧ Runs (awaitReadiness world.readiness transfer) b (.error e) ∧
          tr = draw :: sidecarStarted runtime image targetContainer containerName ::
            (b ++ sidecarRemoved runtime containerName)) ∨
        ∃ port, r = .ok { runtime, containerName, port } ∧
          Runs (awaitReadiness world.readiness transfer) b (.ok port) ∧
          tr = draw :: sidecarStarted runtime image targetContainer containerName :: b) := by
  rcases runs_ofExcept_bind_iff.mp h with ⟨e, he, rfl, rfl⟩ | ⟨_, hline, h1⟩
  · obtain ⟨hm, rfl⟩ := Checks.refuse_eq_error.mp he
    exact Or.inl ⟨_, rfl, .multiline hm⟩
  have hnl := Checks.refuse_eq_ok.mp hline
  rcases runs_bind_iff.mp h1 with ⟨e, rfl, h2⟩ | ⟨containerName, t₁, t₂, rfl, h2, h3⟩
  · rcases ephemeralName_cases h2 with ⟨source, he, rfl⟩ | ⟨_, he, -⟩
    · obtain rfl := Except.error.inj he
      exact Or.inl ⟨_, rfl, .unnamed⟩
    · cases he
  rcases ephemeralName_cases h2 with ⟨_, he, -⟩ | ⟨random, he, rfl⟩
  · cases he
  obtain rfl := Except.ok.inj he
  rcases runs_spawning_bind_iff.mp h3 with ⟨hnul, h4⟩ | ⟨-, h4⟩
  · obtain ⟨rfl, rfl⟩ := runs_fail_iff.mp h4
    exact Or.inl ⟨_, rfl, .sawNul hnul⟩
  obtain ⟨started, t₃, rfl, h5⟩ := runs_perform_bind_iff.mp h4
  rcases runs_attempt_bind_iff.mp h5 with ⟨source, rfl, rfl, rfl⟩ | ⟨_, rfl, h6⟩
  · exact Or.inl ⟨_, rfl, .refused⟩
  refine Or.inr ⟨"iwaya-proxy-".toList ++ hex random.toList, ⟨.entropy 8, (), .ok random⟩, ?_⟩
  rcases runs_bind_iff.mp h6 with ⟨e, rfl, h7⟩ | ⟨port, b, t₄, rfl, h7, h8⟩
  · rcases runs_onFail_iff.mp h7 with ⟨_, he, -⟩ | ⟨e', b, t₅, he, rfl, h8, h9⟩
    · cases he
    · obtain rfl := Except.error.inj he
      obtain rfl := runs_teardown_iff.mp h9
      exact ⟨b, hnl, rfl, Or.inl ⟨e, rfl, h8, rfl⟩⟩
  · obtain ⟨rfl, rfl⟩ := runs_done_iff.mp h8
    rcases runs_onFail_iff.mp h7 with ⟨_, he, h9⟩ | ⟨_, _, _, he, -⟩
    · obtain rfl := Except.ok.inj he
      exact ⟨b, hnl, rfl, Or.inr ⟨port, rfl, h9, by simp [sidecarStarted]⟩⟩
    · cases he

/-- Where nothing depends on why no client was started. -/
theorem startSidecar_cases {runtime image targetContainer transfer : Str}
    {r : Except SidecarError Sidecar}
    (h : Runs (startSidecar world.readiness runtime image targetContainer transfer) tr r) :
    ((∃ e, r = .error e) ∧ ∀ e ∈ tr, e.kind.stage = .draw ∨
        ∃ command source, e = ⟨.sidecarRun, command, .error source⟩) ∨
      ∃ containerName a b, (∀ e ∈ a, e.kind.stage = .draw) ∧
        ((∃ e, r = .error e ∧ Runs (awaitReadiness world.readiness transfer) b (.error e) ∧
          tr = a ++ sidecarStarted runtime image targetContainer containerName ::
            (b ++ sidecarRemoved runtime containerName)) ∨
        ∃ port, r = .ok { runtime, containerName, port } ∧
          Runs (awaitReadiness world.readiness transfer) b (.ok port) ∧
          tr = a ++ sidecarStarted runtime image targetContainer containerName :: b) := by
  rcases startSidecar_parts h with ⟨e, rfl, hun⟩ | ⟨containerName, draw, b, -, hdraw, hrest⟩
  · exact Or.inl ⟨⟨e, rfl⟩, hun.stages⟩
  · have ha : ∀ e ∈ [draw], e.kind.stage = .draw := by
      intro e he
      rw [List.mem_singleton.mp he, hdraw]
      rfl
    exact Or.inr ⟨containerName, [draw], b, ha, hrest⟩

/-! ### The segments of an invocation -/

/-- **The target beside its sidecar**: a sidecar that does not start is the failure, and one
that does is removed when supervision is over, whatever became of it. -/
theorem runBeside_parts {image : Str} {r : Except Failure Exit}
    (h : Runs (runBeside world context policy environment userArgs provisioned image) tr r) :
    (∃ e, r = .error (.sidecar e) ∧ Runs (startSidecar world.readiness context.runtime image
        context.containerName (intoTransfer world.serde provisioned).1) tr (.error e)) ∨
      ∃ sidecar a c r', tr = a ++ (c ++ sidecarRemoved sidecar.runtime sidecar.containerName) ∧
        Runs (startSidecar world.readiness context.runtime image context.containerName
          (intoTransfer world.serde provisioned).1) a (.ok sidecar) ∧
        Runs (superviseRuntime context policy environment
          (targetEnvironment (intoTransfer world.serde provisioned).2 sidecar.port) userArgs)
          c r' ∧
        r = (r'.mapError Failure.execution).map Exit.code := by
  rcases runs_bind_iff.mp h with ⟨e, rfl, h1⟩ | ⟨sidecar, a, t, rfl, h1, h2⟩
  · obtain ⟨r', h2, he⟩ := runs_mapError_iff.mp h1
    rcases r' with e' | sidecar
    · obtain rfl := Except.error.inj he
      exact Or.inl ⟨e', rfl, h2⟩
    · cases he
  obtain ⟨r', h3, he⟩ := runs_mapError_iff.mp h1
  obtain rfl := Checks.mapError_eq_ok.mp he.symm
  have hscope : ∀ {t r''}, Runs (((superviseRuntime context policy environment (targetEnvironment
        (intoTransfer world.serde provisioned).2 sidecar.port) userArgs).mapError
          Failure.execution).scope (teardown sidecar.runtime sidecar.containerName)) t r'' →
      ∃ c r', t = c ++ sidecarRemoved sidecar.runtime sidecar.containerName ∧
        Runs (superviseRuntime context policy environment (targetEnvironment
          (intoTransfer world.serde provisioned).2 sidecar.port) userArgs) c r' ∧
        r'' = r'.mapError Failure.execution := by
    intro t r'' h4
    obtain ⟨c, t', rfl, h5, h6⟩ := runs_scope_iff.mp h4
    obtain ⟨r', h7, rfl⟩ := runs_mapError_iff.mp h5
    exact ⟨c, r', by rw [runs_teardown_iff.mp h6], h7, rfl⟩
  rcases runs_bind_iff.mp h2 with ⟨e, rfl, h4⟩ | ⟨code, t₁, t₂, rfl, h4, h5⟩
  · obtain ⟨c, r', rfl, h6, he⟩ := hscope h4
    exact Or.inr ⟨sidecar, a, c, r', rfl, h3, h6, by rw [← he]; rfl⟩
  · obtain ⟨rfl, rfl⟩ := runs_done_iff.mp h5
    obtain ⟨c, r', rfl, h6, he⟩ := hscope h4
    exact Or.inr ⟨sidecar, a, c, r', by rw [List.append_nil], h3, h6, by rw [← he]; rfl⟩

/-- **The target beside its sidecar**: if a client was started, the last thing that
happens is that its sidecar is removed; what happens before that is the transfer and, if
the port was reported, the supervision of the target. -/
theorem runBeside_cases {provisioned : List ProvisionedProxySecret} {image : Str}
    {r : Except Failure Exit}
    (h : Runs (runBeside world context policy environment userArgs provisioned image) tr r) :
    ((∃ e, r = .error e) ∧ ∀ e ∈ tr, e.kind.stage = .draw ∨
        ∃ command source, e = ⟨.sidecarRun, command, .error source⟩) ∨
      ∃ containerName a b c, (∀ e ∈ a, e.kind.stage = .draw) ∧ (∀ e ∈ b, e.kind.stage = .transfer) ∧
        tr = a ++ sidecarStarted context.runtime image context.containerName containerName ::
          (b ++ c ++ sidecarRemoved context.runtime containerName) ∧
        (((∃ e, r = .error e) ∧ c = []) ∨ ∃ port,
          Runs (awaitReadiness world.readiness (intoTransfer world.serde provisioned).1) b
            (.ok port) ∧
          ∃ r', r = (r'.mapError Failure.execution).map Exit.code ∧
            Runs (superviseRuntime context policy environment
              (targetEnvironment (intoTransfer world.serde provisioned).2 port) userArgs)
              c r') := by
  have hb : ∀ {b r'}, Runs (awaitReadiness world.readiness (intoTransfer world.serde provisioned).1)
      b r' → ∀ e ∈ b, e.kind.stage = .transfer := fun hb e he =>
    List.mem_singleton.mp (emits_awaitReadiness world _ _ _ hb e he)
  rcases runBeside_parts h with ⟨e, rfl, h1⟩ | ⟨sidecar, t, c, r', rfl, h1, h2, rfl⟩
  · rcases startSidecar_cases h1 with ⟨-, hs⟩ | ⟨name, a, b, ha, ⟨_, -, h3, rfl⟩ | ⟨_, he, -⟩⟩
    · exact Or.inl ⟨⟨_, rfl⟩, hs⟩
    · exact Or.inr ⟨name, a, b, [], ha, hb h3, by simp, Or.inl ⟨⟨_, rfl⟩, rfl⟩⟩
    · cases he
  · rcases startSidecar_cases h1 with ⟨⟨_, he⟩, -⟩ |
      ⟨name, a, b, ha, ⟨_, he, -⟩ | ⟨port, he, h4, rfl⟩⟩
    · cases he
    · cases he
    · obtain rfl := Except.ok.inj he
      exact Or.inr ⟨name, a, b, c, ha, hb h4, by simp, Or.inr ⟨port, h4, r', rfl, h2⟩⟩

/-- **The target is started beside its sidecar** at most once, by the command with the
address of the port that was reported, and after all that concerns the transfer. -/
theorem target_runBeside {provisioned : List ProvisionedProxySecret} {image : Str}
    {r : Except Failure Exit}
    (h : Runs (runBeside world context policy environment userArgs provisioned image) tr r) :
    Never StartsTarget tr ∨ ∃ name a b port ans q,
      Sole StartsTarget tr
        (a ++ sidecarStarted context.runtime image context.containerName name :: b ++
          signalsCaught)
        ⟨.targetSpawn, { runtimeCommand context policy userArgs with
          env := environment ++
            targetEnvironment (provisioned.map ProvisionedProxySecret.plan) port }, ans⟩ q ∧
      (∀ e ∈ a, e.kind.stage = .draw) ∧
      Runs (awaitReadiness world.readiness (intoTransfer world.serde provisioned).1) b
        (.ok port) := by
  rcases runBeside_cases h with ⟨-, hs⟩ | ⟨name, a, b, c, ha, hb, rfl, hc⟩
  · refine Or.inl (never_startsTarget fun e he => ?_)
    rcases hs e he with hd | ⟨command, source, rfl⟩
    · rw [hd]; decide
    · simp [Call.stage]
  have hpre : Never StartsTarget
      (a ++ sidecarStarted context.runtime image context.containerName name :: b) := by
    refine never_append (never_startsTarget fun e he => by rw [ha e he]; decide) ?_
    intro e he
    rcases List.mem_cons.mp he with rfl | he
    · simp [StartsTarget, sidecarStarted]
    · exact never_startsTarget (fun e he => by rw [hb e he]; decide) e he
  have hpost : Never StartsTarget (sidecarRemoved context.runtime name) := by
    simp [Never, StartsTarget, sidecarRemoved]
  have hcut : a ++ sidecarStarted context.runtime image context.containerName name ::
      (b ++ c ++ sidecarRemoved context.runtime name) =
      (a ++ sidecarStarted context.runtime image context.containerName name :: b) ++
        (c ++ sidecarRemoved context.runtime name) := by simp
  rw [hcut]
  -- without a report there is no supervision, and then no target
  rcases hc with ⟨-, rfl⟩ | ⟨port, hready, r', -, hrun⟩
  · exact Or.inl (never_append hpre hpost)
  · rcases targets_supervise hrun with hn | ⟨ans, q, hsole, -⟩
    · exact Or.inl (never_append hpre (never_append hn hpost))
    · exact Or.inr ⟨name, a, b, port, ans, _, hsole.append hpre hpost, ha, hready⟩

/-- **After resolution**: a replacement, or provisioning and the image and then the
target beside its sidecar. -/
theorem deliverAll_cases {resolved : ResolvedAll} {r : Except Failure Exit}
    (h : Runs (deliverAll world context policy userArgs resolved) tr r) :
    ((∃ e, r = .error e) ∧ tr = []) ∨
      ∃ environment, directEnvironment resolved policy = .ok environment ∧
        ((policy.proxySecrets = [] ∧ ∃ r', r = r'.mapError Failure.execution ∧
            Runs (execRuntime context policy environment userArgs) tr r') ∨
          policy.proxySecrets ≠ [] ∧
            (((∃ e, r = .error e) ∧ ∀ e ∈ tr, e.kind.stage ∈ [.draw, .image]) ∨
              ∃ provisioned image t₁ t₂ t₃, tr = t₁ ++ (t₂ ++ t₃) ∧
                Runs (Prog.traverse (provisionOne resolved) policy.proxySecrets) t₁
                  (.ok provisioned) ∧
                Runs (ensureProxyImage world.tempDir context.runtime) t₂ (.ok image) ∧
                Runs (runBeside world context policy environment userArgs provisioned image)
                  t₃ r)) := by
  rcases runs_ofExcept_bind_iff.mp h with ⟨e, -, rfl, rfl⟩ | ⟨environment, henv, h1⟩
  · exact Or.inl ⟨⟨e, rfl⟩, rfl⟩
  refine Or.inr ⟨environment, henv, ?_⟩
  split at h1
  · next hp =>
    obtain ⟨r', h2, rfl⟩ := runs_mapError_iff.mp h1
    exact Or.inl ⟨hp, r', rfl, h2⟩
  · next hp =>
    refine Or.inr ⟨hp, ?_⟩
    have hdraw : Emits (InStages [.draw, .image])
        (Prog.traverse (provisionOne resolved) policy.proxySecrets) :=
      emits_traverse fun _ _ => emits_stages (emits_provisionOne _ _) (by simp)
    rcases runs_bind_iff.mp h1 with ⟨e, rfl, h2⟩ | ⟨provisioned, t₁, t₂, rfl, h2, h3⟩
    · exact Or.inl ⟨⟨e, rfl⟩, hdraw _ _ h2⟩
    rcases runs_bind_iff.mp h3 with ⟨e, rfl, h4⟩ | ⟨image, t₃, t₄, rfl, h4, h5⟩
    · refine Or.inl ⟨⟨e, rfl⟩, fun x hx => ?_⟩
      rcases List.mem_append.mp hx with hx | hx
      · exact hdraw _ _ h2 x hx
      · exact (emits_ensureProxyImage _ _).mapError _ _ _ h4 x hx
    · obtain ⟨r', h6, he⟩ := runs_mapError_iff.mp h4
      obtain rfl := Checks.mapError_eq_ok.mp he.symm
      exact Or.inr ⟨provisioned, image, t₁, t₃, t₄, rfl, h2, h6, h5⟩

/-- **An invocation** selects, resolves, and delivers. -/
theorem execute_cases {invocation : Invocation} {r : Except Failure Exit}
    (h : Runs (execute world invocation) tr r) :
    (∃ e, select world invocation = .error e ∧ tr = [] ∧ r = .error e) ∨
      ∃ configuration context policy,
        select world invocation = .ok (configuration, context, policy) ∧
        ((∃ e, r = .error e ∧ Runs (resolveDeclared world configuration policy) tr (.error e)) ∨
          ∃ resolved t₁ t₂, tr = t₁ ++ t₂ ∧
            Runs (resolveDeclared world configuration policy) t₁ (.ok resolved) ∧
            Runs (deliverAll world context policy invocation.args resolved) t₂ r) := by
  rcases runs_ofExcept_bind_iff.mp h with h1 | ⟨⟨configuration, context, policy⟩, hs, h1⟩
  · exact Or.inl h1
  · refine Or.inr ⟨configuration, context, policy, hs, ?_⟩
    rcases runs_bind_iff.mp h1 with h2 | ⟨resolved, t₁, t₂, rfl, h2, h3⟩
    · exact Or.inl h2
    · exact Or.inr ⟨resolved, t₁, t₂, rfl, h2, h3⟩

end

end Iwaya
