import Iwaya.Execute.Resources

/-!
# What an invocation names

The container of a sidecar is named after eight bytes of entropy, the image after the
digest of its files, and neither name is used before it is there: an invocation only runs,
inspects or builds the image of the digest it was given, and only runs or removes a
container under a name it drew itself (`Iwaya.naming_execute`).
-/

namespace Iwaya

open Text Effects

/-- The name of a sidecar's container. -/
def sidecarName (bytes : List UInt8) : Str := "iwaya-proxy-".toList ++ hex bytes

theorem sidecarName_injective {b c : List UInt8} (h : sidecarName b = sidecarName c) : b = c :=
  hex_injective (List.append_cancel_left h)

/-- **What there is to name with**: the draws of eight bytes, and the digest. -/
structure Named where
  draws : List (List UInt8)
  digest : Option (Vector UInt8 32)

/-- Nothing yet. -/
def Named.empty : Named where
  draws := []
  digest := none

/-- The name is one that was drawn. -/
def Named.Drew (s : Named) (name : Option Str) : Prop :=
  ∃ bytes ∈ s.draws, name = some (sidecarName bytes)

instance (s : Named) (name : Option Str) : Decidable (s.Drew name) :=
  inferInstanceAs (Decidable (∃ bytes ∈ s.draws, name = some (sidecarName bytes)))

/-- The tag is that of the digest. -/
def Named.Tagged (s : Named) (tag : Option Str) : Prop :=
  s.digest.isSome ∧ tag = s.digest.map imageTag

instance (s : Named) (tag : Option Str) : Decidable (s.Tagged tag) :=
  inferInstanceAs (Decidable (_ ∧ _))

/-- **The use of names** by one call with its answer. -/
def Call.naming : (k : Call) → k.Arg → k.Ans → Named → Option Named
  | .entropy 8, _, .ok bytes, s => some { s with draws := bytes.toList :: s.draws }
  | .materialDigest, _, .ok digest, s => some { s with digest := some digest }
  | .imageInspect, command, _, s => if s.Tagged command.args.getLast? then some s else none
  | .imageBuild, command, _, s =>
    if s.Tagged (argAfter "--tag".toList command.args) then some s else none
  | .sidecarRun, command, _, s =>
    if s.Drew (argAfter "--name".toList command.args) ∧ s.Tagged command.args.getLast? then some s
    else none
  | .sidecarRemove, command, _, s => if s.Drew command.args.getLast? then some s else none
  | _, _, _, s => some s

/-- The protocol of names. -/
def Named.use : Protocol Call.Arg Call.Ans Named := fun s e => e.kind.naming e.arg e.ans s

variable {s : Named}

/-- What names nothing. -/
theorem naming_neutral {e : Effect} (he : e.kind.stage ∈ [.request, .transfer, .target]) :
    Named.use s e = some s := by
  obtain ⟨k, x, ans⟩ := e
  cases k <;> first | rfl | simp [Call.stage] at he

/-- **What a use changes**: a draw is remembered, or the digest. -/
theorem naming_cases {e : Effect} {s' : Named} (hu : Named.use s e = some s') : s' = s ∨
    (∃ bytes, e = ⟨.entropy 8, (), .ok bytes⟩ ∧
      s' = { s with draws := bytes.toList :: s.draws }) ∨
    ∃ d, e = ⟨.materialDigest, (), .ok d⟩ ∧ s' = { s with digest := some d } := by
  obtain ⟨k, x, ans⟩ := e
  simp only [Named.use, Call.naming] at hu
  split at hu
  · exact Or.inr (Or.inl ⟨_, rfl, (Option.some.inj hu).symm⟩)
  · exact Or.inr (Or.inr ⟨_, rfl, (Option.some.inj hu).symm⟩)
  -- the other calls only ask for names, if they do
  iterate 4 exact Or.inl (Option.some.inj (Option.ite_none_right_eq_some.mp hu).2).symm
  exact Or.inl (Option.some.inj hu).symm

/-- A name that was drawn stays one that was drawn. -/
theorem Named.Drew.use {e : Effect} {s' : Named} {name : Option Str} (h : s.Drew name)
    (hu : Named.use s e = some s') : s'.Drew name := by
  obtain ⟨bytes, hb, hname⟩ := h
  refine ⟨bytes, ?_, hname⟩
  rcases naming_cases hu with rfl | ⟨b, -, rfl⟩ | ⟨d, -, rfl⟩
  · exact hb
  · exact List.mem_cons_of_mem _ hb
  · exact hb

/-- **Draws are remembered, and not made up.** -/
theorem mem_of_drew {tr : List Effect} {name : Option Str}
    (h : tr.foldlM Named.use .empty = some s) (hs : s.Drew name) :
    ∃ bytes, ⟨.entropy 8, (), .ok bytes⟩ ∈ tr ∧ name = some (sidecarName bytes.toList) := by
  suffices hdraws : ∀ b ∈ s.draws, ∃ bytes : Vector UInt8 8, ⟨.entropy 8, (), .ok bytes⟩ ∈ tr ∧
      b = bytes.toList by
    obtain ⟨b, hb, hname⟩ := hs
    obtain ⟨bytes, hmem, rfl⟩ := hdraws b hb
    exact ⟨bytes, hmem, hname⟩
  refine foldlM_keeps (I := fun s : Named => ∀ b ∈ s.draws, ∃ bytes : Vector UInt8 8,
    ⟨.entropy 8, (), .ok bytes⟩ ∈ tr ∧ b = bytes.toList) (fun s e s' he hu ho => ?_) h
    (by simp [Named.empty])
  rcases naming_cases hu with rfl | ⟨bytes, rfl, rfl⟩ | ⟨d, -, rfl⟩
  · exact ho
  · exact List.forall_mem_cons.mpr ⟨⟨bytes, he, rfl⟩, ho⟩
  · exact ho

/-- An image is built under the tag of the digest. -/
theorem tagged_of_imageBuild {s' : Named} {command : Command} {ans : Except IoError Output}
    (hu : Named.use s ⟨.imageBuild, command, ans⟩ = some s') :
    s.Tagged (argAfter "--tag".toList command.args) :=
  (Option.ite_none_right_eq_some.mp hu).1

/-- A sidecar is run under a name that was drawn, from the image of the digest. -/
theorem named_of_sidecarRun {s' : Named} {command : Command} {ans : Except IoError Unit}
    (hu : Named.use s ⟨.sidecarRun, command, ans⟩ = some s') :
    s.Drew (argAfter "--name".toList command.args) ∧ s.Tagged command.args.getLast? :=
  (Option.ite_none_right_eq_some.mp hu).1

/-- What is removed bears a name that was drawn. -/
theorem drew_of_sidecarRemove {s' : Named} {command : Command}
    (hu : Named.use s ⟨.sidecarRemove, command, ()⟩ = some s') : s.Drew command.args.getLast? :=
  (Option.ite_none_right_eq_some.mp hu).1

/-! ### The image -/

theorem naming_imageExists {runtime tag : Str} (h : s.Tagged (some tag)) :
    Follows Named.use s (Ends s) (imageExists runtime tag) := by
  have hrest : ∀ answer, Follows Named.use s (Ends s)
      ((attempt (ProxyImageError.runtimeStart runtime) answer).bind fun status : ExitStatus =>
        (.done status.success : Step ProxyImageError Bool)) := fun answer =>
    follows_attempt_bind (fun _ => rfl) fun _ _ => follows_done rfl
  refine follows_spawning_bind (hrest _) (follows_perform_bind fun status => ?_)
  exact ⟨s, if_pos h, hrest status⟩

theorem naming_createTempContext (tempDir : Str) :
    Follows Named.use s (Given fun _ s' => s'.digest = s.digest) (createTempContext tempDir) := by
  refine follows_perform_bind fun random => ?_
  rcases random with e | bytes
  · exact ⟨s, rfl, follows_fail trivial⟩
  · refine ⟨{ s with draws := bytes.toList :: s.draws }, rfl, ?_⟩
    refine follows_perform_bind fun created => ⟨_, rfl, ?_⟩
    exact follows_attempt_bind (fun _ => trivial) fun _ _ => follows_done rfl

theorem naming_build {runtime tag path : Str} (h : s.Tagged (some tag)) :
    Follows Named.use s (Given fun image s' => image = tag ∧ s' = s) (do
      writeBuildContext path
      buildImage runtime tag path
      return tag) := by
  have hrest : ∀ answer, Follows Named.use s (Ends s)
      ((attempt (ProxyImageError.runtimeStart runtime) answer).bind fun output : Output =>
        giveUpIf (output.status.success = false)
          (.buildFailed output.status.display (trimEnd output.stderr))) := fun answer =>
    follows_attempt_bind (fun _ => rfl) fun _ _ => follows_giveUpIf
  have hbuild : Follows Named.use s (Ends s) (buildImage runtime tag path) := by
    refine follows_spawning_bind (hrest _) (follows_perform_bind fun output => ?_)
    exact ⟨s, if_pos (by simpa [buildCommand, argAfter] using h), hrest output⟩
  have hwrite : Follows Named.use s (Ends s) (writeBuildContext path) :=
    follows_perform_bind fun written => ⟨s, rfl, follows_attempt rfl⟩
  exact hwrite.then (fun _ => trivial) fun _ => hbuild.then (fun _ => trivial) fun _ =>
    follows_done ⟨rfl, rfl⟩

/-- **The image that is prepared is the one of the digest.** -/
theorem naming_ensureProxyImage (tempDir runtime : Str) :
    Follows Named.use s (Given fun image s' => s'.Tagged (some image))
      (ensureProxyImage tempDir runtime) := by
  refine follows_perform_bind fun material => ⟨s, rfl, ?_⟩
  refine Follows.then (follows_ofExcept rfl) (fun _ => trivial) fun _ => ?_
  refine follows_perform_bind fun answer => ?_
  rcases answer with e | digest
  · exact ⟨s, rfl, follows_fail trivial⟩
  refine ⟨{ s with digest := some digest }, rfl, ?_⟩
  have htag : ({ s with digest := some digest } : Named).Tagged (some (imageTag digest)) :=
    ⟨rfl, rfl⟩
  refine (naming_imageExists htag).then (fun _ => trivial) fun found => ?_
  cases found with
  | true => exact follows_done htag
  | false =>
    refine (naming_createTempContext tempDir).given fun path s' hs' => ?_
    have htag' : s'.Tagged (some (imageTag digest)) := by rwa [Named.Tagged, hs']
    refine (naming_build htag').scope fun r s'' hr => ?_
    refine follows_perform (k := Call.contextRemove) fun _ => ⟨s'', rfl, ?_⟩
    rcases r with e | image
    · trivial
    · obtain ⟨rfl, rfl⟩ := hr
      exact htag'

/-! ### The sidecar -/

/-- **A container is named after a draw of its own.** -/
theorem naming_ephemeralName : Follows Named.use s
    (Given fun name s' => s'.digest = s.digest ∧ s'.Drew (some name)) ephemeralName := by
  refine follows_perform_bind fun random => ?_
  rcases random with e | bytes
  · exact ⟨s, rfl, follows_fail trivial⟩
  · refine ⟨{ s with draws := bytes.toList :: s.draws }, rfl, follows_done ⟨rfl, ?_⟩⟩
    exact ⟨bytes.toList, List.mem_cons_self, rfl⟩

theorem naming_teardown {runtime containerName : Str} (h : s.Drew (some containerName)) :
    Follows Named.use s (Ends s) (teardown runtime containerName) := by
  refine follows_perform_bind fun _ => ⟨s, if_pos (by simpa [removeCommand] using h), ?_⟩
  exact follows_perform (k := Call.sidecarWait) fun _ => ⟨s, rfl, rfl⟩

theorem naming_sidecarRun {runtime image targetContainer containerName : Str}
    {ans : Except IoError Unit} (hn : s.Drew (some containerName)) (ht : s.Tagged (some image)) :
    Named.use s ⟨.sidecarRun, sidecarCommand runtime image targetContainer containerName, ans⟩ =
      some s := by
  have hlast : (sidecarCommand runtime image targetContainer containerName).args.getLast? =
      some image := by
    simp [sidecarCommand]
  simp only [Named.use, Call.naming]
  rw [argAfter_sidecarCommand, hlast]
  exact if_pos ⟨hn, ht⟩

/-- **A sidecar runs the image it is given**, under a name that was drawn for it, and is
removed under that name. -/
theorem naming_startSidecar {readiness : Str → Option UInt16}
    {runtime image targetContainer transfer : Str} (h : s.Tagged (some image)) :
    Follows Named.use s (Given fun sidecar s' => s'.Drew (some sidecar.containerName))
      (startSidecar readiness runtime image targetContainer transfer) := by
  refine follows_giveUpIf.then (fun _ => trivial) fun _ => ?_
  refine naming_ephemeralName.given fun containerName s' ⟨hd, hname⟩ => ?_
  have htag : s'.Tagged (some image) := by rwa [Named.Tagged, hd]
  refine follows_spawning_bind (follows_fail trivial) (follows_perform_bind fun started => ?_)
  refine ⟨s', naming_sidecarRun hname htag, follows_attempt_bind (fun _ => trivial) fun _ _ => ?_⟩
  have hready : Follows Named.use s' (Ends s') (awaitReadiness readiness transfer) :=
    follows_of_emits (emits_awaitReadiness { sampleWorld with readiness } transfer)
      fun e he => naming_neutral (by simp [List.mem_singleton.mp he])
  exact (hready.handOver (naming_teardown hname)).gain (fun _ => trivial) fun port =>
    follows_done hname

/-! ### An invocation -/

theorem naming_runBeside {world : World} {context : DockerContext} {policy : CommandPolicy}
    {environment : List (EnvName × Str)} {userArgs : List Str}
    {provisioned : List ProvisionedProxySecret} {image : Str} (h : s.Tagged (some image)) :
    Follows Named.use s (Given fun _ _ => True)
      (runBeside world context policy environment userArgs provisioned image) := by
  refine ((naming_startSidecar h).mapError_given Failure.sidecar).given fun sidecar s' hs => ?_
  have hsupervise : ∀ command, Follows Named.use s' (Ends s') (supervise command context.runtime) :=
    fun command => follows_of_emits (emits_supervise command context.runtime)
      fun e he => naming_neutral (by simp [List.mem_singleton.mp he])
  exact (((hsupervise _).mapError_ends Failure.execution).scope_ends (naming_teardown hs)).then
    (fun _ => trivial) fun _ => follows_done trivial

theorem naming_deliverAll (world : World) (context : DockerContext) (policy : CommandPolicy)
    (userArgs : List Str) (resolved : ResolvedAll) : Follows Named.use s (Given fun _ _ => True)
      (deliverAll world context policy userArgs resolved) := by
  refine Follows.then (follows_ofExcept rfl) (fun _ => trivial) fun environment => ?_
  split
  · refine (follows_of_emits ((emits_execRuntime _ _ _ _).mapError _) fun e he =>
      naming_neutral (by simp [List.mem_singleton.mp he])).mono fun r _ _ => ?_
    cases r <;> trivial
  · have hprovision : Follows Named.use s (Ends s)
        (Prog.traverse (provisionOne resolved) policy.proxySecrets) := by
      refine follows_traverse fun spec _ => ?_
      refine Follows.then (follows_ofExcept rfl) (fun _ => rfl) fun value => ?_
      refine follows_perform_bind fun entropy => ⟨s, rfl, ?_⟩
      exact follows_attempt_bind (fun _ => rfl) fun _ _ => follows_done rfl
    refine hprovision.then (fun _ => trivial) fun provisioned => ?_
    refine ((naming_ensureProxyImage _ _).mapError_given _).given fun image s' hs => ?_
    exact naming_runBeside hs

/-- **An invocation uses no name before it has it.** -/
theorem naming_execute (world : World) (invocation : Invocation) :
    Follows Named.use .empty (Given fun _ _ => True) (execute world invocation) := by
  refine Follows.then (follows_ofExcept rfl) (fun _ => trivial) fun selected => ?_
  have hresolve : Follows Named.use .empty (Ends .empty)
      (resolveDeclared world selected.1 selected.2.2) :=
    follows_of_emits (emits_resolveDeclared world _ _)
      fun e he => naming_neutral (by simp [List.mem_singleton.mp he])
  exact hresolve.then (fun _ => trivial) fun resolved => naming_deliverAll world _ _ _ resolved

end Iwaya
