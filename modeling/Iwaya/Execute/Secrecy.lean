import Iwaya.Execute.Resolution

/-!
# Where raw values go

Two runs of one invocation that resolve different values, and are answered alike from
then on, do the same: the same calls, in the same order, with the same arguments, except
for the line written to the sidecar and for the variables that a differing value is
declared to be delivered in (`Iwaya.Alike`). The relation is carried through the program
piece by piece, in the two-run logic of `Effects.Sim`; what each piece does with a value
is the only thing left to say.
-/

namespace Iwaya

open Text Effects

/-! ### Alike -/

/-- The same command, up to the values of some variables. -/
structure AlikeCommand (differ : EnvName → Prop) (x y : Command) : Prop where
  program : x.program = y.program
  args : x.args = y.args
  env : List.Forall₂ (fun a b => a.1 = b.1 ∧ (¬differ a.1 → a.2 = b.2)) x.env y.env

/-- **The same arguments**, up to one line for the sidecar and the values of some
variables of the target. -/
def Alike (differ : EnvName → Prop) : (k : Call) → k.Arg → k.Arg → Prop
  | .transferWrite, x, y => x = y ∨ '\n' ∉ x ∧ '\n' ∉ y
  | .targetSpawn, x, y => AlikeCommand differ x y
  | .targetExec, x, y => AlikeCommand differ x y
  | _, x, y => x = y

section

variable {differ : EnvName → Prop}

theorem AlikeCommand.refl (x : Command) : AlikeCommand differ x x :=
  ⟨rfl, rfl, List.forall₂_same.mpr fun _ _ => ⟨rfl, fun _ => rfl⟩⟩

theorem Alike.refl (k : Call) (x : k.Arg) : Alike differ k x x := by
  cases k <;> first | exact rfl | exact Or.inl rfl | exact AlikeCommand.refl _

/-- A command all of whose variables have the same values is the same. -/
theorem AlikeCommand.eq {x y : Command} (h : AlikeCommand differ x y)
    (hd : ∀ name, ¬differ name) : x = y := by
  have henv : x.env = y.env := by
    rw [← List.forall₂_eq_eq_eq]
    exact h.env.imp fun a b hab => Prod.ext hab.1 (hab.2 (hd _))
  obtain ⟨program, args, env⟩ := x
  obtain ⟨program', args', env'⟩ := y
  rw [Command.mk.injEq]
  exact ⟨h.program, h.args, henv⟩

/-- If no variable differs, only the line for the sidecar does. -/
theorem Alike.eq {k : Call} {x y : k.Arg} (h : Alike differ k x y) (hd : ∀ name, ¬differ name)
    (hk : k ≠ .transferWrite) : x = y := by
  cases k with
  | transferWrite => exact absurd rfl hk
  | targetSpawn => exact AlikeCommand.eq h hd
  | targetExec => exact AlikeCommand.eq h hd
  | _ => exact h

/-- Variables of one name, with the same value or with two without a NUL byte. -/
def AlikeSetting (differ : EnvName → Prop) (a b : EnvName × Str) : Prop :=
  a.1 = b.1 ∧ (¬differ a.1 → a.2 = b.2) ∧ (a.2 = b.2 ∨ nul ∉ a.2 ∧ nul ∉ b.2)

/-- Two such environments are refused alike. -/
theorem any_nul_eq {l l' : List (EnvName × Str)} (h : List.Forall₂ (AlikeSetting differ) l l') :
    (l.any fun e => e.1.contains nul || e.2.contains nul) =
      l'.any fun e => e.1.contains nul || e.2.contains nul := by
  induction h with
  | nil => rfl
  | @cons a b l l' hab _ ih =>
    have hval : a.2.contains nul = b.2.contains nul := by
      rcases hab.2.2 with he | ⟨ha, hb⟩
      · rw [he]
      · rw [Bool.eq_iff_iff, List.contains_iff_mem, List.contains_iff_mem]
        exact ⟨fun h => absurd h ha, fun h => absurd h hb⟩
    rw [List.any_cons, List.any_cons, ih, hab.1, hval]

end

/-! ### Resolved values -/

/-- A declaration whose value differs. -/
def Differs (policy : CommandPolicy) (resolved resolved' : ResolvedAll) (name : EnvName) : Prop :=
  ∃ spec ∈ policy.secrets, spec.envName = name ∧
    resolved.value spec.provider spec.secretName ≠ resolved'.value spec.provider spec.secretName

section

variable {world : World} {context : DockerContext} {policy : CommandPolicy} {userArgs : List Str}
  {resolved resolved' : ResolvedAll}

/-- What the two resolutions have in common: both are complete, and where a direct value
differs it has no NUL byte. -/
structure Comparable (policy : CommandPolicy) (resolved resolved' : ResolvedAll) : Prop where
  left : ∀ d ∈ declared policy, ∃ value, resolved.value d.1 d.2 = some value
  right : ∀ d ∈ declared policy, ∃ value, resolved'.value d.1 d.2 = some value
  nulFree : ∀ spec ∈ policy.secrets,
    resolved.value spec.provider spec.secretName = resolved'.value spec.provider spec.secretName ∨
      (∀ value, resolved.value spec.provider spec.secretName = some value → nul ∉ value) ∧
      ∀ value, resolved'.value spec.provider spec.secretName = some value → nul ∉ value

/-- The direct variables of both. -/
theorem directEnvironment_alike (h : Comparable policy resolved resolved') :
    ∃ environment environment', directEnvironment resolved policy = .ok environment ∧
      directEnvironment resolved' policy = .ok environment' ∧
      List.Forall₂ (AlikeSetting (Differs policy resolved resolved')) environment environment' := by
  refine ⟨_, _, directEnvironment_eq h.left, directEnvironment_eq h.right, ?_⟩
  rw [List.forall₂_map_left_iff, List.forall₂_map_right_iff, List.forall₂_same]
  intro spec hs
  have hd : (spec.provider, spec.secretName) ∈ declared policy :=
    List.mem_append_left _ (List.mem_map.mpr ⟨spec, hs, rfl⟩)
  obtain ⟨value, hv⟩ := h.left _ hd
  obtain ⟨value', hv'⟩ := h.right _ hd
  have hnul := h.nulFree spec hs
  rw [hv, hv'] at hnul
  simp only [hv, hv', Option.getD_some]
  refine ⟨rfl, fun hn => ?_, ?_⟩
  · by_contra hne
    exact hn ⟨spec, hs, rfl, by rw [hv, hv']; simpa using hne⟩
  · exact hnul.imp (fun he => Option.some.inj he) fun ⟨h1, h2⟩ => ⟨h1 _ rfl, h2 _ rfl⟩

/-! ### The pieces -/

section

variable {differ : EnvName → Prop} {environment environment' : List (EnvName × Str)}

/-- The command that runs the target, with its variables. -/
theorem alikeCommand_runtime (h : List.Forall₂ (AlikeSetting differ) environment environment')
    (proxyEnvironment : List (EnvName × Str)) :
    AlikeCommand differ
      (applyProxyEnvironment (applyInjectedEnvironment (runtimeCommand context policy userArgs)
        environment) proxyEnvironment)
      (applyProxyEnvironment (applyInjectedEnvironment (runtimeCommand context policy userArgs)
        environment') proxyEnvironment) where
  program := rfl
  args := rfl
  env := by
    have hall := h.imp fun a b hab => And.intro hab.1 hab.2.1
    refine List.rel_append (List.rel_append ?_ hall) ?_
    · exact List.forall₂_same.mpr fun _ _ => ⟨rfl, fun _ => rfl⟩
    · exact List.forall₂_same.mpr fun _ _ => ⟨rfl, fun _ => rfl⟩

/-- It is refused alike. -/
theorem sawNul_runtime (h : List.Forall₂ (AlikeSetting differ) environment environment')
    (proxyEnvironment : List (EnvName × Str)) :
    (applyProxyEnvironment (applyInjectedEnvironment (runtimeCommand context policy userArgs)
        environment) proxyEnvironment).sawNul =
      (applyProxyEnvironment (applyInjectedEnvironment (runtimeCommand context policy userArgs)
        environment') proxyEnvironment).sawNul := by
  simp only [Command.sawNul, applyProxyEnvironment, applyInjectedEnvironment, List.any_append,
    any_nul_eq h]

theorem sim_execRuntime (h : List.Forall₂ (AlikeSetting differ) environment environment') :
    Sim (Alike differ) Eq (execRuntime context policy environment userArgs)
      (execRuntime context policy environment' userArgs) := by
  have hc : AlikeCommand differ
      (applyInjectedEnvironment (runtimeCommand context policy userArgs) environment)
      (applyInjectedEnvironment (runtimeCommand context policy userArgs) environment') := by
    simpa only [applyProxyEnvironment, List.append_nil] using alikeCommand_runtime h []
  have hn : (applyInjectedEnvironment (runtimeCommand context policy userArgs) environment).sawNul =
      (applyInjectedEnvironment (runtimeCommand context policy userArgs) environment').sawNul := by
    simpa only [applyProxyEnvironment, List.append_nil] using sawNul_runtime h []
  rw [execRuntime, execRuntime]
  simp only [hn]
  refine (Sim.refl Alike.refl _).bind fun _ _ _ => (Sim.perform hc).bind ?_
  rintro ans _ rfl
  exact Sim.refl Alike.refl _

theorem sim_supervise {x y : Command} (h : AlikeCommand differ x y) (hnul : x.sawNul = y.sawNul)
    (runtime : Str) : Sim (Alike differ) Eq (supervise x runtime) (supervise y runtime) := by
  refine (Sim.refl Alike.refl _).bind ?_
  rintro registered _ rfl
  refine (Sim.refl Alike.refl _).bind fun _ _ _ => Sim.bind (Q := Eq) ?_ ?_
  · unfold spawning
    rw [hnul]
    split
    · exact Sim.refl Alike.refl _
    · exact Sim.perform (R := Alike differ) (k := Call.targetSpawn) h
  · rintro spawned _ rfl
    exact Sim.refl Alike.refl _

/-- The sidecar is started alike whatever the line is. -/
theorem sim_startSidecar {transfer transfer' : Str} (h : '\n' ∉ transfer) (h' : '\n' ∉ transfer')
    (runtime image targetContainer : Str) :
    Sim (Alike differ) Eq (startSidecar world.readiness runtime image targetContainer transfer)
      (startSidecar world.readiness runtime image targetContainer transfer') := by
  have hone : ∀ {line : Str}, '\n' ∉ line →
      (giveUpIf ('\n' ∈ line) SidecarError.transferNotSingleLine : Step SidecarError Unit) =
        .done () := fun hl => by rw [giveUpIf, Checks.refuse, if_neg hl]; rfl
  have hawait : Sim (Alike differ) Eq (awaitReadiness world.readiness transfer)
      (awaitReadiness world.readiness transfer') := by
    refine Sim.bind (Q := Eq) ?_ ?_
    · refine (Sim.perform (Or.inr ⟨h, h'⟩)).bind ?_
      rintro written _ rfl
      exact Sim.refl Alike.refl _
    · rintro delivery _ rfl
      exact Sim.refl Alike.refl _
  rw [startSidecar, startSidecar, hone h, hone h']
  refine (Sim.refl Alike.refl _).bind fun _ _ _ => (Sim.refl Alike.refl _).bind ?_
  rintro containerName _ rfl
  refine (Sim.refl Alike.refl _).bind ?_
  rintro started _ rfl
  refine (Sim.refl Alike.refl _).bind fun _ _ _ => (hawait.onFail Alike.refl).bind ?_
  rintro port _ rfl
  exact Sim.refl Alike.refl _

end

/-- The same secret, bound to another value. -/
def AlikeProvisioned (a b : ProvisionedProxySecret) : Prop := { a with rawValue := b.rawValue } = b

/-- Every proxy-backed secret is provisioned alike. -/
theorem sim_provision {differ : EnvName → Prop} (h : Comparable policy resolved resolved') :
    Sim (Alike differ) (List.Forall₂ AlikeProvisioned)
      (Prog.traverse (provisionOne resolved) policy.proxySecrets)
      (Prog.traverse (provisionOne resolved') policy.proxySecrets) := by
  refine sim_traverse (P := fun a b => a ∈ policy.proxySecrets ∧ a = b) ?_
    (List.forall₂_same.mpr fun spec hs => ⟨hs, rfl⟩)
  rintro spec _ ⟨hs, rfl⟩
  have hd : (spec.provider, spec.secretName) ∈ declared policy :=
    List.mem_append_right _ (List.mem_map.mpr ⟨spec, hs, rfl⟩)
  obtain ⟨value, hv⟩ := h.left _ hd
  obtain ⟨value', hv'⟩ := h.right _ hd
  -- the value is bound without a call; what is drawn does not depend on it
  rw [provisionOne, provisionOne]
  simp only [resolvedValue, hv, hv']
  refine (Sim.perform rfl).bind ?_
  rintro entropy _ rfl
  rcases entropy with e | entropy
  · exact .fail _
  · exact .done rfl

/-- The plans that stay are the same. -/
theorem plans_alike {provisioned provisioned' : List ProvisionedProxySecret}
    (h : List.Forall₂ AlikeProvisioned provisioned provisioned') :
    provisioned.map ProvisionedProxySecret.plan = provisioned'.map ProvisionedProxySecret.plan := by
  induction h with
  | nil => rfl
  | @cons a b _ _ hab _ ih =>
    have hp : a.plan = b.plan := by rw [← hab]; rfl
    rw [List.map_cons, List.map_cons, hp, ih]

/-- **The target beside its sidecar.** -/
theorem sim_runBeside (hserde : world.serde.Conforms) {differ : EnvName → Prop}
    {environment environment' : List (EnvName × Str)}
    (h : List.Forall₂ (AlikeSetting differ) environment environment')
    {provisioned provisioned' : List ProvisionedProxySecret}
    (hp : List.Forall₂ AlikeProvisioned provisioned provisioned') (image : Str) :
    Sim (Alike differ) Eq
      (runBeside world context policy environment userArgs provisioned image)
      (runBeside world context policy environment' userArgs provisioned' image) := by
  unfold runBeside
  refine ((sim_startSidecar (newline_notMem_intoTransfer hserde provisioned)
    (newline_notMem_intoTransfer hserde provisioned') _ _ _).mapError _).bind ?_
  rintro sidecar _ rfl
  -- past the line only the plans are left, which have no raw value in them
  rw [plans_alike hp]
  refine (((sim_supervise (alikeCommand_runtime h _) (sawNul_runtime h _) _).mapError _).scope
    Alike.refl).bind ?_
  rintro code _ rfl
  exact .done rfl

/-- **Everything after resolution.** -/
theorem sim_deliverAll (hserde : world.serde.Conforms)
    (h : Comparable policy resolved resolved') :
    Sim (Alike (Differs policy resolved resolved')) Eq
      (deliverAll world context policy userArgs resolved)
      (deliverAll world context policy userArgs resolved') := by
  obtain ⟨environment, environment', he, he', halike⟩ := directEnvironment_alike h
  rw [deliverAll, deliverAll, he, he']
  -- both runs take the same branch: it depends on the policy alone
  change Sim _ _ (if _ then _ else _) (if _ then _ else _)
  split
  · exact (sim_execRuntime halike).mapError _
  · refine (sim_provision h).bind fun provisioned provisioned' hp =>
      ((Sim.refl Alike.refl _).mapError _).bind ?_
    rintro image _ rfl
    exact sim_runBeside hserde halike hp image

/-! ### Two runs -/

/-- The same event, or a line for the sidecar and another one. -/
def SameButLine (a b : Effect) : Prop :=
  a = b ∨ ∃ x y ans, a = ⟨.transferWrite, x, ans⟩ ∧ b = ⟨.transferWrite, y, ans⟩ ∧
    '\n' ∉ x ∧ '\n' ∉ y

theorem sameButLine_of_alike {differ : EnvName → Prop} (hd : ∀ name, ¬differ name) {a b : Effect}
    (h : EventRel (Alike differ) a b) : SameButLine a b := by
  rcases h with @⟨k, x, y, h, ans⟩
  by_cases hk : k = .transferWrite
  · subst hk
    rcases h with rfl | ⟨hx, hy⟩
    · exact Or.inl rfl
    · exact Or.inr ⟨x, y, ans, rfl, rfl, hx, hy⟩
  · exact Or.inl (by rw [h.eq hd hk])

/-- **Raw values go where they are declared to go.** Of two runs of an invocation in which
everything resolves and which are answered alike from then on, with direct values that
are equal or have no NUL byte: from resolution on they make the same calls and end in the
same way, up to the line for the sidecar and the values of the direct variables whose
declaration resolved differently; and if no direct declaration did, up to the line
only. -/
theorem execute_secrecy (hserde : world.serde.Conforms) {invocation : Invocation}
    {configuration : Config} (hs : select world invocation = .ok (configuration, context, policy))
    {env env' : Env Call.Ans} {t t' : List Effect}
    (h : exec env 0 (resolveDeclared world configuration policy) = (t, .ok resolved))
    (h' : exec env' 0 (resolveDeclared world configuration policy) = (t', .ok resolved'))
    (henv : ∀ n, env (t.length + n) = env' (t'.length + n))
    (hnul : ∀ spec ∈ policy.secrets, resolved.value spec.provider spec.secretName =
        resolved'.value spec.provider spec.secretName ∨
      (∀ value, resolved.value spec.provider spec.secretName = some value → nul ∉ value) ∧
      ∀ value, resolved'.value spec.provider spec.secretName = some value → nul ∉ value) :
    ∃ d d' r, exec env 0 (execute world invocation) = (t ++ d, r) ∧
      exec env' 0 (execute world invocation) = (t' ++ d', r) ∧
      List.Forall₂ (EventRel (Alike (Differs policy resolved resolved'))) d d' ∧
      ((∀ spec ∈ policy.secrets, resolved.value spec.provider spec.secretName =
          resolved'.value spec.provider spec.secretName) → List.Forall₂ SameButLine d d') := by
  have hrun := runs_exec env 0 (resolveDeclared world configuration policy)
  have hrun' := runs_exec env' 0 (resolveDeclared world configuration policy)
  rw [h] at hrun
  rw [h'] at hrun'
  have hsim : Sim (Alike (Differs policy resolved resolved')) Eq
      (deliverAll world context policy invocation.args resolved)
      (deliverAll world context policy invocation.args resolved') :=
    sim_deliverAll hserde
      { left := fun d hd => value_of_runs_resolveDeclared hrun hd
        right := fun d hd => value_of_runs_resolveDeclared hrun' hd
        nulFree := hnul }
  obtain ⟨hevents, hresult⟩ := hsim.exec henv
  refine ⟨_, _, (exec env t.length (deliverAll world context policy invocation.args resolved)).2,
    ?_, ?_, hevents, fun hsame => hevents.imp fun a b hab => ?_⟩
  · rw [execute_eq hs, exec_bind_ok h, Nat.zero_add]
  · rw [execute_eq hs, exec_bind_ok h', Nat.zero_add, hresult.eq]
  · refine sameButLine_of_alike ?_ hab
    rintro name ⟨spec, hspec, -, hne⟩
    exact hne (hsame spec hspec)

end

/-- The sample answers, but for another value of the proxy-backed secret. -/
def rotatedAnswers : Env Call.Ans
  | 2, .secretList =>
    .ok { status := exitSuccess, stdout := sampleSecrets "new-api".toList, stderr := [] }
  | i, k => sampleAnswers i k

theorem rotatedAnswers_eq (n : ℕ) : sampleAnswers (3 + n) = rotatedAnswers (3 + n) := by
  funext k
  rw [Nat.add_comm]
  cases k <;> rfl

/-- What the sample resolves to. -/
def sampleResolved (api : Str) : ResolvedAll :=
  (∅ : ResolvedAll).insert "bws".toList
    (((∅ : Resolved).insert "GH".toList "raw-gh".toList).insert "API".toList api)

/-- The direct secret resolves to the same value whatever the other one does. -/
theorem sampleResolved_value (api : Str) :
    (sampleResolved api).value "bws".toList "GH".toList = some "raw-gh".toList := rfl

theorem exec_sampleAnswers :
    exec sampleAnswers 0 (resolveDeclared sampleWorld sampleConfig samplePolicy) =
      ((exec sampleAnswers 0 (resolveDeclared sampleWorld sampleConfig samplePolicy)).1,
        .ok (sampleResolved "raw-api".toList)) :=
  Prod.ext rfl rfl

theorem exec_rotatedAnswers :
    exec rotatedAnswers 0 (resolveDeclared sampleWorld sampleConfig samplePolicy) =
      ((exec rotatedAnswers 0 (resolveDeclared sampleWorld sampleConfig samplePolicy)).1,
        .ok (sampleResolved "new-api".toList)) :=
  Prod.ext rfl rfl

theorem execute_secrecy_rotated : ∃ t t' d d' r,
    exec sampleAnswers 0 (execute sampleWorld sampleInvocation) = (t ++ d, r) ∧
      exec rotatedAnswers 0 (execute sampleWorld sampleInvocation) = (t' ++ d', r) ∧
      List.Forall₂ SameButLine d d' := by
  have hsame : ∀ spec ∈ samplePolicy.secrets,
      (sampleResolved "raw-api".toList).value spec.provider spec.secretName =
        (sampleResolved "new-api".toList).value spec.provider spec.secretName := by
    intro spec hs
    rw [List.mem_singleton.mp hs]
    exact (sampleResolved_value _).trans (sampleResolved_value _).symm
  obtain ⟨d, d', r, h, h', -, hd⟩ := execute_secrecy SerdeJson.reference_conforms select_sample
    exec_sampleAnswers exec_rotatedAnswers rotatedAnswers_eq fun spec hs => Or.inl (hsame spec hs)
  exact ⟨_, _, d, d', r, h, h', hd hsame⟩

end Iwaya
