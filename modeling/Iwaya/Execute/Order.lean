import Iwaya.Execute.Segments

/-!
# The order of an invocation

For every assignment of answers to its calls: what is refused has no effect; the target
is started at most once, after everything declared has resolved, and beside a sidecar
that is ready if the policy has a proxy-backed secret; a failed step is followed by
cleanup only; and a sidecar that was started is removed once, after the target. All of
it is `Iwaya.InOrder`, and every run has it (`Iwaya.execute_inOrder`).
-/

namespace Iwaya

open Text Effects Trace

/-- The client of a sidecar was started. -/
def SidecarSpawned (e : Effect) : Prop := ∃ command, e = ⟨.sidecarRun, command, .ok ()⟩

/-- A sidecar is removed. -/
def RemovesSidecar (e : Effect) : Prop := e.kind = .sidecarRemove

/-- Something is written to a sidecar, or read from it. -/
def Transfers (e : Effect) : Prop := e.kind.stage = .transfer

/-- **Order, and all or nothing.** -/
structure InOrder (world : World) (invocation : Invocation) (tr : List Effect)
    (r : Except Failure Exit) : Prop where
  /-- A refused configuration, context or command has no effect. -/
  refused : ∀ e, select world invocation = .error e → tr = [] ∧ r = .error e
  /-- Everything declared resolves before the target is started. -/
  resolved : ∀ a e b, tr = a ++ e :: b → StartsTarget e →
    ∃ configuration context policy resolved t p,
      select world invocation = .ok (configuration, context, policy) ∧ a = t ++ p ∧
      Runs (resolveDeclared world configuration policy) t (.ok resolved) ∧
      ∀ d ∈ declared policy, ∃ value, resolved.value d.1 d.2 = some value
  /-- With a proxy-backed secret the target is started as a child, after the image is
  prepared and the sidecar is ready. -/
  supervised : ∀ configuration context policy,
    select world invocation = .ok (configuration, context, policy) → policy.proxySecrets ≠ [] →
    ∀ a e b, tr = a ++ e :: b → StartsTarget e →
      e.kind = .targetSpawn ∧ (∃ x ∈ a, ImagePrepared x) ∧ ∃ x ∈ a, ReportsReady world x
  /-- Without one there is nothing but resolution and the replacement. -/
  direct : ∀ configuration context policy,
    select world invocation = .ok (configuration, context, policy) → policy.proxySecrets = [] →
    ∀ e ∈ tr, e.kind.stage = .request ∨ e.kind = .targetExec
  /-- A failed step is followed by no request and no start. -/
  stopped : ∀ a e b, tr = a ++ e :: b → Failed world e →
    (∀ x ∈ b, x.kind.stage ≠ .request ∧ ¬StartsTarget x) ∧ ∃ err, r = .error err
  /-- A resolution that fails, for whatever reason, ends at the provider it fails at, and
  the invocation with it. -/
  resolution : ∀ configuration context policy,
    select world invocation = .ok (configuration, context, policy) →
    (∃ resolved t p, tr = t ++ p ∧
      Runs (resolveDeclared world configuration policy) t (.ok resolved)) ∨
    ∃ e before group after answers t₁ t₂, r = .error e ∧
      namesByProvider policy = before ++ group :: after ∧ tr = t₁ ++ t₂ ∧
      Runs (Prog.traverse (resolveProvider world configuration) before) t₁ (.ok answers) ∧
      Runs (resolveProvider world configuration group) t₂ (.error e)
  /-- The target is started at most once. -/
  once : ∀ a e b, tr = a ++ e :: b → StartsTarget e → Never StartsTarget (a ++ b)
  /-- A sidecar whose client was started is the only one, and no target was started before
  it. It is removed, by its own name, once, at the very end, and when a target that was
  started is over. -/
  removed : ∀ a e b, tr = a ++ e :: b → SidecarSpawned e →
    ∃ runtime image targetContainer containerName c,
      e = sidecarStarted runtime image targetContainer containerName ∧
      b = c ++ sidecarRemoved runtime containerName ∧
      Never StartsTarget a ∧ Never SidecarSpawned (a ++ b) ∧ Never RemovesSidecar (a ++ c) ∧
      ∀ c₁ x c₂, c = c₁ ++ x :: c₂ → TargetStarted x → ∃ y ∈ c₂, EndsTarget y
  /-- And there is no other removal. -/
  unspawned : Never SidecarSpawned tr → Never RemovesSidecar tr

section

variable {world : World} {invocation : Invocation} {context : DockerContext}
  {policy : CommandPolicy} {environment : List (EnvName × Str)} {userArgs : List Str}
  {tr : List Effect} {r : Except Failure Exit}

/-! ### The target -/

/-- **Where the target is started**, if it is. -/
theorem target_execute (h : Runs (execute world invocation) tr r) :
    Never StartsTarget tr ∨ ∃ configuration context policy resolved t p s q,
      select world invocation = .ok (configuration, context, policy) ∧
      Runs (resolveDeclared world configuration policy) t (.ok resolved) ∧
      Sole StartsTarget tr (t ++ p) s q ∧
      (policy.proxySecrets ≠ [] → s.kind = .targetSpawn ∧ (∃ x ∈ p, ImagePrepared x) ∧
        ∃ x ∈ p, ReportsReady world x) := by
  rcases execute_cases h with ⟨e, -, rfl, rfl⟩ | ⟨configuration, context, policy, hs,
    ⟨e, rfl, hres⟩ | ⟨resolved, t₁, t₂, rfl, hres, hdel⟩⟩
  · exact Or.inl (by simp [Never])
  · exact Or.inl (never_startsTarget fun e he => by
      rw [List.mem_singleton.mp (emits_resolveDeclared world _ _ _ _ hres e he)]; decide)
  have hpre : Never StartsTarget t₁ := never_startsTarget fun e he => by
    rw [List.mem_singleton.mp (emits_resolveDeclared world _ _ _ _ hres e he)]; decide
  suffices hd : Never StartsTarget t₂ ∨ ∃ p s q, Sole StartsTarget t₂ p s q ∧
      (policy.proxySecrets ≠ [] → s.kind = .targetSpawn ∧ (∃ x ∈ p, ImagePrepared x) ∧
        ∃ x ∈ p, ReportsReady world x) by
    rcases hd with hn | ⟨p, s, q, hsole, hp⟩
    · exact Or.inl (never_append hpre hn)
    · refine Or.inr ⟨configuration, context, policy, resolved, t₁, p, s, q, hs, hres, ?_, hp⟩
      simpa using hsole.append hpre (v := []) (by simp [Never])
  rcases deliverAll_cases hdel with ⟨-, rfl⟩ | ⟨environment, henv, ⟨hp, r', rfl, hex⟩ |
    ⟨hp, ⟨-, hst⟩ | ⟨provisioned, image, s₁, s₂, s₃, rfl, hprov, himg, hbes⟩⟩⟩
  · exact Or.inl (by simp [Never])
  · rcases execRuntime_cases hex with ⟨e, -, rfl⟩ | ⟨ans, rfl⟩
    · exact Or.inl (by simp [Never])
    · exact Or.inr ⟨[], _, [], ⟨rfl, Or.inr rfl, by simp [Never], by simp [Never]⟩,
        fun hne => absurd hp hne⟩
  · refine Or.inl (never_startsTarget fun e he heq => ?_)
    have := hst e he
    rw [heq] at this
    exact absurd this (by decide)
  · have hprov' : Never StartsTarget s₁ := never_startsTarget fun e he => by
      have hd := emits_traverse (fun _ _ => emits_provisionOne resolved _) _ _ hprov e he
      rw [List.mem_singleton.mp hd]; decide
    have himg' : Never StartsTarget s₂ := never_startsTarget fun e he heq => by
      have hd := emits_ensureProxyImage _ _ _ _ himg e he
      rw [InStages, heq] at hd
      exact absurd hd (by decide)
    rcases target_runBeside hbes with hn | ⟨name, a, b, port, ans, q, hsole, -, hawait⟩
    · exact Or.inl (never_append hprov' (never_append himg' hn))
    · obtain ⟨y, hy, hprep⟩ := imagePrepared_of_runs himg
      have hcut := hsole.append (never_append hprov' himg') (v := []) (by simp [Never])
      obtain ⟨x, hx, hready⟩ := reportsPort_of_runs hawait
      refine Or.inr ⟨_, _, q, by simpa using hcut, fun _ => ⟨rfl, ?_, ?_⟩⟩
      · exact ⟨y, by simp [hy], hprep⟩
      · exact ⟨x, by simp [hx], port, hready⟩

/-! ### The sidecar -/

theorem SidecarSpawned.kind {e : Effect} (h : SidecarSpawned e) : e.kind = .sidecarRun := by
  obtain ⟨_, rfl⟩ := h
  rfl

/-- No sidecar is there. -/
structure Apart (tr : List Effect) : Prop where
  spawned : Never SidecarSpawned tr
  removes : Never RemovesSidecar tr
  transfers : Never Transfers tr

theorem Apart.append {u v : List Effect} (hu : Apart u) (hv : Apart v) : Apart (u ++ v) where
  spawned := never_append hu.spawned hv.spawned
  removes := never_append hu.removes hv.removes
  transfers := never_append hu.transfers hv.transfers

theorem apart_nil : Apart [] := ⟨by simp [Never], by simp [Never], by simp [Never]⟩

/-- Stages that do without a sidecar. -/
theorem apart_of_stage (h : ∀ e ∈ tr, e.kind.stage ∈ [.request, .draw, .image, .target]) :
    Apart tr where
  spawned e he hk := by
    have := h e he
    rw [hk.kind] at this
    exact absurd this (by decide)
  removes e he hk := by
    have := h e he
    rw [hk] at this
    exact absurd this (by decide)
  transfers e he hk := by
    have := h e he
    rw [hk] at this
    exact absurd this (by decide)

theorem apart_of_emits {ε α : Type} {l : List Stage} {p : Step ε α} {r : Except ε α}
    (hp : Emits (InStages l) p) (hl : ∀ s ∈ l, s ∈ [.request, .draw, .image, .target])
    (h : Runs p tr r) : Apart tr :=
  apart_of_stage fun e he => hl _ (hp _ _ h e he)

/-- **The life of a sidecar**, if there is one in this list: its client is started, then
there is what concerns it and the target, and then it is removed. -/
def SidecarLife (tr : List Effect) : Prop :=
  Apart tr ∨ ∃ runtime image targetContainer containerName p q,
    Sole SidecarSpawned tr p (sidecarStarted runtime image targetContainer containerName)
      (q ++ sidecarRemoved runtime containerName) ∧
    Never RemovesSidecar (p ++ q) ∧ Never Transfers p ∧
    ∀ a x b, q = a ++ x :: b → TargetStarted x → ∃ y ∈ b, EndsTarget y

/-- Nothing is lost by what comes before it. -/
theorem SidecarLife.append {u : List Effect} (h : SidecarLife tr) (hu : Apart u) :
    SidecarLife (u ++ tr) := by
  rcases h with h | ⟨runtime, image, container, name, p, q, hsole, hrm, htr, hend⟩
  · exact Or.inl (hu.append h)
  · refine Or.inr ⟨runtime, image, container, name, u ++ p, q, ?_, ?_, ?_, hend⟩
    · simpa using hsole.append hu.spawned (v := []) (by simp [Never])
    · rw [List.append_assoc]
      exact never_append hu.removes hrm
    · exact never_append hu.transfers htr

theorem sidecarLife_runBeside {provisioned : List ProvisionedProxySecret} {image : Str}
    (h : Runs (runBeside world context policy environment userArgs provisioned image) tr r) :
    SidecarLife tr := by
  rcases runBeside_cases h with ⟨-, hs⟩ | ⟨name, a, b, c, ha, hb, rfl, hc⟩
  · refine Or.inl ⟨?_, fun e he hk => ?_, fun e he hk => ?_⟩
    · rintro e he ⟨command, rfl⟩
      rcases hs _ he with hd | ⟨_, _, heq⟩
      · cases hd
      · simp at heq
    · rcases hs e he with hd | ⟨_, _, rfl⟩
      · rw [hk] at hd
        cases hd
      · cases hk
    · rcases hs e he with hd | ⟨_, _, rfl⟩
      · rw [Transfers, hd] at hk
        cases hk
      · cases hk
  have ha' : Apart a := apart_of_stage fun e he => by rw [ha e he]; decide
  have hb1 : Never SidecarSpawned b := fun e he hk => by
    have := hb e he
    rw [hk.kind] at this
    cases this
  have hb2 : Never RemovesSidecar b := fun e he hk => by
    have := hb e he
    rw [hk] at this
    cases this
  have hbt : Never StartsTarget b := never_startsTarget fun e he => by rw [hb e he]; decide
  have hlast : Never SidecarSpawned (sidecarRemoved context.runtime name) := by
    simp [Never, SidecarSpawned, sidecarRemoved]
  suffices hc : Apart c ∧ ∀ u x v, b ++ c = u ++ x :: v → TargetStarted x → ∃ y ∈ v, EndsTarget y by
    refine Or.inr ⟨context.runtime, image, context.containerName, name, a, b ++ c,
      ⟨rfl, ⟨_, rfl⟩, ha'.spawned, ?_⟩, ?_, ha'.transfers, hc.2⟩
    · exact never_append (never_append hb1 hc.1.spawned) hlast
    · exact never_append ha'.removes (never_append hb2 hc.1.removes)
  have hstarts : ∀ x, TargetStarted x → StartsTarget x := by
    rintro _ ⟨_, rfl⟩
    exact Or.inl rfl
  rcases hc with ⟨-, rfl⟩ | ⟨port, -, r', -, hrun⟩
  · refine ⟨apart_nil, fun u x v he hx => ?_⟩
    rw [List.append_nil] at he
    exact absurd (hstarts x hx) (hbt x (by simp [he]))
  · refine ⟨apart_of_emits (emits_supervise _ _) (by decide) hrun, fun u x v he hx => ?_⟩
    rcases targets_supervise hrun with hn | ⟨ans, q, hsole, hend⟩
    · exact absurd (hstarts x hx) (never_append hbt hn x (by simp [he]))
    · -- the transfer starts no target, so the one start is supervision's
      have hcut := hsole.append hbt (v := []) (by simp [Never])
      rw [List.append_nil, List.append_nil] at hcut
      obtain ⟨-, rfl, rfl⟩ := hcut.unique he (hstarts x hx)
      obtain ⟨_, hx⟩ := hx
      obtain ⟨-, hans⟩ : _ ∧ _ := by simpa using hx
      exact hend hans

/-- **Every invocation removes the sidecar it started.** -/
theorem sidecarLife_execute (h : Runs (execute world invocation) tr r) : SidecarLife tr := by
  rcases execute_cases h with ⟨e, -, rfl, rfl⟩ | ⟨configuration, context, policy, hs,
    ⟨e, rfl, hres⟩ | ⟨resolved, t₁, t₂, rfl, hres, hdel⟩⟩
  · exact Or.inl apart_nil
  · exact Or.inl (apart_of_emits (emits_resolveDeclared world _ _) (by decide) hres)
  refine SidecarLife.append ?_ (apart_of_emits (emits_resolveDeclared world _ _) (by decide) hres)
  rcases deliverAll_cases hdel with ⟨-, rfl⟩ | ⟨environment, henv, ⟨hp, r', rfl, hex⟩ |
    ⟨hp, ⟨-, hst⟩ | ⟨provisioned, image, s₁, s₂, s₃, rfl, hprov, himg, hbes⟩⟩⟩
  · exact Or.inl apart_nil
  · exact Or.inl (apart_of_emits (emits_execRuntime _ _ _ _) (by decide) hex)
  · have hsub : ∀ s ∈ [Stage.draw, .image], s ∈ [Stage.request, .draw, .image, .target] := by decide
    exact Or.inl (apart_of_stage fun e he => hsub _ (hst e he))
  · refine ((sidecarLife_runBeside hbes).append ?_).append ?_
    · exact apart_of_emits (emits_ensureProxyImage _ _) (by decide) himg
    · exact apart_of_emits (emits_traverse fun _ _ => emits_provisionOne resolved _) (by decide)
        hprov

/-! ### Without a proxy-backed secret -/

theorem direct_execute (h : Runs (execute world invocation) tr r) {configuration : Config}
    (hs : select world invocation = .ok (configuration, context, policy))
    (hp : policy.proxySecrets = []) : ∀ e ∈ tr, e.kind.stage = .request ∨ e.kind = .targetExec := by
  rcases execute_cases h with ⟨e, he, -, -⟩ | ⟨configuration, context, policy, hs',
    ⟨e, rfl, hres⟩ | ⟨resolved, t₁, t₂, rfl, hres, hdel⟩⟩
  · rw [hs] at he
    cases he
  · exact fun e he => Or.inl (List.mem_singleton.mp (emits_resolveDeclared world _ _ _ _ hres e he))
  intro e he
  rcases List.mem_append.mp he with he | he
  · exact Or.inl (List.mem_singleton.mp (emits_resolveDeclared world _ _ _ _ hres e he))
  obtain ⟨rfl, rfl, rfl⟩ : _ ∧ _ ∧ _ := by simpa using Except.ok.inj (hs.symm.trans hs')
  rcases deliverAll_cases hdel with ⟨-, rfl⟩ | ⟨environment, henv, ⟨-, r', rfl, hex⟩ | ⟨hne, -⟩⟩
  · cases he
  · rcases execRuntime_cases hex with ⟨e, -, rfl⟩ | ⟨ans, rfl⟩
    · cases he
    · exact Or.inr (by rw [List.mem_singleton.mp he])
  · exact absurd hp hne

/-- **No target before the sidecar**: where a sidecar is started the policy has a
proxy-backed secret, so a target is started after a readiness report, and no sidecar
reports before its client is there. -/
theorem never_startsTarget_before (h : Runs (execute world invocation) tr r) {a b : List Effect}
    {e : Effect} (hab : tr = a ++ e :: b) (he : SidecarSpawned e) : Never StartsTarget a := by
  intro x hx hstart
  rcases target_execute h with hn | ⟨configuration, context, policy, resolved, t, p, s, q, hs, -,
    hsole, hsup⟩
  · exact hn x (by simp [hab, hx]) hstart
  have hp : policy.proxySecrets ≠ [] := by
    intro hp
    rcases direct_execute h hs hp e (by simp [hab]) with hk | hk <;> rw [he.kind] at hk <;> cases hk
  obtain ⟨a₁, a₂, rfl⟩ := List.append_of_mem hx
  rw [List.append_assoc, List.cons_append] at hab
  obtain ⟨rfl, -, -⟩ := hsole.unique hab hstart
  obtain ⟨-, -, y, hy, port, read, rfl, -⟩ := hsup hp
  -- the report stands before the target, hence before the sidecar's client
  rcases sidecarLife_execute h with hn | ⟨_, _, _, _, p', q', hcut, -, htr, -⟩
  · exact hn.spawned e (by simp [hab]) he
  · obtain ⟨rfl, -, -⟩ := hcut.unique (a := t ++ p ++ x :: a₂) (by simpa using hab) he
    exact htr ⟨.readinessRead, (), read⟩ (by simp [hy]) rfl

/-! ### All of it -/

theorem resolution_execute (h : Runs (execute world invocation) tr r) {configuration : Config}
    (hs : select world invocation = .ok (configuration, context, policy)) :
    (∃ resolved t p, tr = t ++ p ∧
      Runs (resolveDeclared world configuration policy) t (.ok resolved)) ∨
    ∃ e before group after answers t₁ t₂, r = .error e ∧
      namesByProvider policy = before ++ group :: after ∧ tr = t₁ ++ t₂ ∧
      Runs (Prog.traverse (resolveProvider world configuration) before) t₁ (.ok answers) ∧
      Runs (resolveProvider world configuration group) t₂ (.error e) := by
  rcases execute_cases h with ⟨e, he, -, -⟩ | ⟨configuration, context, policy, hs', hc⟩
  · rw [hs] at he
    cases he
  obtain ⟨rfl, rfl, rfl⟩ : _ ∧ _ ∧ _ := by simpa using Except.ok.inj (hs.symm.trans hs')
  rcases hc with ⟨e, rfl, hres⟩ | ⟨resolved, t₁, t₂, rfl, hres, hdel⟩
  · refine Or.inr ⟨e, ?_⟩
    rcases runs_bind_iff.mp hres with ⟨e', he, h1⟩ | ⟨_, _, _, -, -, h2⟩
    · obtain rfl := Except.error.inj he
      obtain ⟨before, group, after, answers, t₁, t₂, hn, ht, h2, h3⟩ := runs_traverse_error h1
      exact ⟨before, group, after, answers, t₁, t₂, rfl, hn, ht, h2, h3⟩
    · cases (runs_done_iff.mp h2).2
  · exact Or.inl ⟨resolved, t₁, t₂, rfl, hres⟩

/-- **Every run of an invocation is in order.** -/
theorem execute_inOrder (h : Runs (execute world invocation) tr r) :
    InOrder world invocation tr r where
  refused e he := by
    rcases runs_ofExcept_bind_iff.mp h with ⟨e', he', ht, hr⟩ | ⟨_, he', -⟩
    · obtain rfl := Except.error.inj (he.symm.trans he')
      exact ⟨ht, hr⟩
    · rw [he] at he'
      cases he'
  resolved a e b hab he := by
    rcases target_execute h with hn | ⟨c, x, policy, resolved, t, p, s, q, hs, hres, hsole, -⟩
    · exact absurd he (hn e (by simp [hab]))
    · exact ⟨c, x, policy, resolved, t, p, hs, (hsole.unique hab he).1, hres,
        fun d hd => value_of_runs_resolveDeclared hres hd⟩
  supervised configuration context policy hs hp a e b hab he := by
    rcases target_execute h with hn | ⟨c, x, policy, resolved, t, p, s, q, hs', hres, hsole, hsup⟩
    · exact absurd he (hn e (by simp [hab]))
    · obtain ⟨rfl, rfl, rfl⟩ : _ ∧ _ ∧ _ := by simpa using Except.ok.inj (hs.symm.trans hs')
      obtain ⟨rfl, rfl, rfl⟩ := hsole.unique hab he
      obtain ⟨hkind, ⟨y, hy, hprep⟩, z, hz, hready⟩ := hsup hp
      exact ⟨hkind, ⟨y, by simp [hy], hprep⟩, z, by simp [hz], hready⟩
  direct configuration context policy hs hp := direct_execute h hs hp
  stopped a e b hab he := stopsAtFailure_execute world invocation a e b r (hab ▸ h) he
  resolution configuration context policy hs := resolution_execute h hs
  once a e b hab he := by
    rcases target_execute h with hn | ⟨_, _, _, _, t, p, s, q, -, -, hsole, -⟩
    · exact absurd he (hn e (by simp [hab]))
    · obtain ⟨rfl, rfl, rfl⟩ := hsole.unique hab he
      exact hsole.never
  removed a e b hab he := by
    rcases sidecarLife_execute h with hn | ⟨runtime, image, container, name, p, q, hsole, hrm, -,
      hend⟩
    · exact absurd he (hn.spawned e (by simp [hab]))
    · obtain ⟨rfl, rfl, rfl⟩ := hsole.unique hab he
      exact ⟨runtime, image, container, name, q, rfl, rfl,
        never_startsTarget_before h hsole.eq hsole.holds, hsole.never, hrm, hend⟩
  unspawned hn := by
    rcases sidecarLife_execute h with h2 | ⟨runtime, image, container, name, p, q, hsole, -⟩
    · exact h2.removes
    · exact absurd hsole.holds (hn _ (by simp [hsole.eq]))

end

theorem execute_inOrder_sample : ∃ tr r,
    tr.map Event.kind = [.acquire, .projectList, .secretList, .entropy 32, .material,
      .materialDigest, .imageInspect, .entropy 8, .sidecarRun, .transferWrite, .newlineWrite,
      .stdinClose, .readinessRead, .signalsRegister, .targetSpawn, .targetWait, .relayClose,
      .sidecarRemove, .sidecarWait] ∧
    InOrder sampleWorld sampleInvocation tr r :=
  ⟨_, _, by rw [execute_sample]; rfl, execute_inOrder (runs_exec sampleAnswers 0 _)⟩

end Iwaya
