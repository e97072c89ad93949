import Iwaya.Execute.Attribution
import Iwaya.Execute.Operands
import Iwaya.Execute.Startup

/-!
# An invocation beside its sidecar

Of everything an invocation can do, only the last part has to do with a sidecar: without it
there is none, and no failure is blamed on one (`Iwaya.beside_execute`). That part
starts the sidecar, and every way in which this can go wrong has its own error
(`Iwaya.startSidecar_parts`, `Iwaya.awaitReadiness_cases`); if it goes well the target is
supervised, and the sidecar removed after that (`Iwaya.runBeside_parts`). What is written and
read, and what is not, is all in there (`Iwaya.transfers_execute`).

So whatever was called before a readiness line is read is known, call by call
(`Iwaya.read_execute`).
-/

namespace Iwaya

open Text Effects Trace

section

variable {world : World} {invocation : Invocation} {context : DockerContext}
  {policy : CommandPolicy} {userArgs : List Str} {environment : List (EnvName × Str)}
  {provisioned : List ProvisionedProxySecret} {tr : List Effect}

/-! ### The delivery -/

/-- A delivery that went through. -/
def delivered (transfer : Str) : List Effect :=
  [⟨.transferWrite, transfer, .ok ()⟩, ⟨.newlineWrite, (), .ok ()⟩, ⟨.stdinClose, (), ()⟩]

/-- A delivery that did not, and why. -/
inductive Undelivered (transfer : Str) (source : IoError) : List Effect → Prop
  | transfer : Undelivered transfer source
      [⟨.transferWrite, transfer, .error source⟩, ⟨.stdinClose, (), ()⟩]
  | newline : Undelivered transfer source
      [⟨.transferWrite, transfer, .ok ()⟩, ⟨.newlineWrite, (), .error source⟩,
        ⟨.stdinClose, (), ()⟩]

/-- The end of the stream is given in any case. -/
theorem deliver_cases {transfer : Str} {r : Except SidecarError (Except IoError Unit)}
    (h : Runs (deliver transfer) tr r) :
    (∃ source, r = .ok (.error source) ∧ Undelivered transfer source tr) ∨
      r = .ok (.ok ()) ∧ tr = delivered transfer := by
  obtain ⟨written, t₁, rfl, h1⟩ := runs_perform_bind_iff.mp h
  rcases written with source | _
  · obtain ⟨_, t₂, rfl, h2⟩ := runs_perform_bind_iff.mp h1
    obtain ⟨rfl, rfl⟩ := runs_done_iff.mp h2
    exact Or.inl ⟨source, rfl, .transfer⟩
  · obtain ⟨ended, t₂, rfl, h2⟩ := runs_perform_bind_iff.mp h1
    obtain ⟨_, t₃, rfl, h3⟩ := runs_perform_bind_iff.mp h2
    obtain ⟨rfl, rfl⟩ := runs_done_iff.mp h3
    rcases ended with source | _
    · exact Or.inl ⟨source, rfl, .newline⟩
    · exact Or.inr ⟨rfl, rfl⟩

/-- **What is done with a client**: a delivery that fails, or one that does not and then one
line that is read. -/
theorem awaitReadiness_cases {readiness : Str → Option UInt16} {transfer : Str}
    {r : Except SidecarError UInt16} (h : Runs (awaitReadiness readiness transfer) tr r) :
    (∃ source, r = .error (.transfer source) ∧ Undelivered transfer source tr) ∨
      ∃ read, tr = startup transfer read ∧ r = portOf readiness read := by
  rcases runs_bind_iff.mp h with ⟨e, rfl, h1⟩ | ⟨delivery, t₁, t₂, rfl, h1, h2⟩
  · rcases deliver_cases h1 with ⟨_, he, -⟩ | ⟨he, -⟩ <;> cases he
  rcases deliver_cases h1 with ⟨source, he, hu⟩ | ⟨he, rfl⟩ <;> obtain rfl := Except.ok.inj he
  · rcases runs_attempt_bind_iff.mp h2 with ⟨_, he, rfl, rfl⟩ | ⟨_, he, -⟩
    · obtain rfl := Except.error.inj he
      exact Or.inl ⟨source, rfl, by rwa [List.append_nil]⟩
    · cases he
  · rcases runs_attempt_bind_iff.mp h2 with ⟨_, he, -, -⟩ | ⟨_, -, h3⟩
    · cases he
    obtain ⟨read, t₃, rfl, h4⟩ := runs_perform_bind_iff.mp h3
    obtain ⟨rfl, rfl⟩ := runs_ofExcept_iff.mp h4
    exact Or.inr ⟨read, rfl, rfl⟩

/-! ### The sidecar -/

/-- Nothing is transferred to a sidecar without a client. -/
theorem Unstarted.never {runtime image targetContainer transfer : Str} {e : SidecarError}
    (h : Unstarted runtime image targetContainer transfer tr e) : Never Transfers tr := by
  cases h <;> simp [Never, Transfers, Call.stage]

/-- It has no client. -/
theorem Unstarted.unspawned {runtime image targetContainer transfer : Str} {e : SidecarError}
    (h : Unstarted runtime image targetContainer transfer tr e) : Never SidecarSpawned tr := by
  cases h <;> simp [Never, SidecarSpawned]

/-! ### The invocation -/

/-- A selection that fails has nothing to do with a sidecar. -/
theorem select_ne_sidecar (e : SidecarError) : select world invocation ≠ .error (.sidecar e) := by
  intro h
  rcases hl : load world.kdlParse world.configPath world.configFile with e' | configuration
  · simp [select, hl, Except.mapError, bind, Except.bind] at h
  rcases hc : configuration.context invocation.context with _ | context
  · simp [select, hl, Except.mapError, Checks.ok_bind, hc] at h
  rcases hp : configuration.policy invocation.command with _ | policy
  · simp [select, hl, Except.mapError, Checks.ok_bind, hc, hp] at h
  · simp [select, hl, Except.mapError, Checks.ok_bind, hc, hp] at h

/-- **What an invocation provisioned** in these calls, and for what: each of the
proxy-backed secrets of its policy, of which there are some. -/
structure Provisions (world : World) (invocation : Invocation) (tr : List Effect)
    (context : DockerContext) (policy : CommandPolicy) (provisioned : List ProvisionedProxySecret) :
    Prop where
  proxied : policy.proxySecrets ≠ []
  configured : ∃ configuration resolved,
    select world invocation = .ok (configuration, context, policy) ∧
      ProvisionedIn world configuration policy tr resolved provisioned

theorem Provisions.mono {tr' : List Effect}
    (h : Provisions world invocation tr context policy provisioned) (hp : tr <+: tr') :
    Provisions world invocation tr' context policy provisioned := by
  obtain ⟨hproxied, configuration, resolved, hs, hin⟩ := h
  exact ⟨hproxied, configuration, resolved, hs, hin.mono hp⟩

/-- **There is one thing that was provisioned.** -/
theorem Provisions.unique {context' : DockerContext} {policy' : CommandPolicy}
    {provisioned' : List ProvisionedProxySecret}
    (h : Provisions world invocation tr context policy provisioned)
    (h' : Provisions world invocation tr context' policy' provisioned') :
    context' = context ∧ policy' = policy ∧ provisioned' = provisioned := by
  obtain ⟨-, configuration, resolved, hs, hin⟩ := h
  obtain ⟨-, configuration', resolved', hs', hin'⟩ := h'
  obtain ⟨rfl, rfl, rfl⟩ : _ ∧ _ ∧ _ := by simpa using Except.ok.inj (hs.symm.trans hs')
  exact ⟨rfl, rfl, (hin.unique hin').2⟩

theorem Provisions.ne_nil (h : Provisions world invocation tr context policy provisioned) :
    provisioned ≠ [] := by
  obtain ⟨hproxied, _, _, -, hin⟩ := h
  rintro rfl
  exact hproxied (List.forall₂_nil_right_iff.mp hin.each)

theorem Provisions.upstream (h : Provisions world invocation tr context policy provisioned) :
    ∀ secret ∈ provisioned, isHttpOrigin secret.upstream = true := by
  intro secret hsecret
  obtain ⟨-, configuration, resolved, hselect, hin⟩ := h
  obtain ⟨spec, hspec, _, _, -, rfl⟩ := exists_of_forall₂ hin.each.flip hsecret
  obtain ⟨hvalid, -, hpolicy⟩ := valid_of_select hselect
  exact ((hvalid.policy policy hpolicy).proxySecret spec hspec).upstream

/-- The client of its sidecar can be started, as far as NUL bytes go. -/
theorem Provisions.startable (h : Provisions world invocation tr context policy provisioned)
    (digest : Vector UInt8 32) (random : List UInt8) :
    (sidecarCommand context.runtime (imageTag digest) context.containerName
      ("iwaya-proxy-".toList ++ hex random)).sawNul = false := by
  obtain ⟨-, configuration, resolved, hselect, -⟩ := h
  have hcontext := nul_notMem_context hselect
  simp only [DockerContext.operands, List.forall_mem_cons] at hcontext
  obtain ⟨hruntime, -, -, hcontainer, -⟩ := hcontext
  exact sawNul_sidecarCommand hruntime (nul_notMem_imageTag digest) hcontainer
    (nul_notMem_sidecarName random)

/-- A declaration is not provisioned for want of its value, or of entropy. -/
theorem provision_ne_sidecar {resolved : ResolvedAll} {specs : List ProxySecretSpec}
    {e : SidecarError}
    (h : Runs (Prog.traverse (provisionOne resolved) specs) tr (.error (.sidecar e))) : False := by
  obtain ⟨_, spec, _, _, t₁, t₂, -, -, -, h1⟩ := runs_traverse_error h
  rcases runs_ofExcept_bind_iff.mp h1 with ⟨e', he', -, he⟩ | ⟨rawValue, -, h2⟩
  · obtain rfl := Except.error.inj he
    unfold resolvedValue at he'
    split at he' <;> cases he'
  · obtain ⟨entropy, t₃, rfl, h3⟩ := runs_perform_bind_iff.mp h2
    rcases runs_attempt_bind_iff.mp h3 with ⟨source, -, -, he⟩ | ⟨bytes, -, h4⟩
    · cases he
    · cases (runs_done_iff.mp h4).2

/-- **An invocation up to its sidecar**: there is none, and nothing is blamed on one; or its
last part is the target beside it. -/
theorem beside_execute {r : Except Failure Exit} (h : Runs (execute world invocation) tr r) :
    (Apart tr ∧ ∀ e, r ≠ .error (.sidecar e)) ∨
      ∃ context policy environment provisioned image t₁ t₂,
        Provisions world invocation t₁ context policy provisioned ∧
        (∃ digest, image = imageTag digest) ∧ tr = t₁ ++ t₂ ∧ Apart t₁ ∧
        Runs (runBeside world context policy environment invocation.args provisioned image)
          t₂ r := by
  rcases execute_cases h with ⟨e, he, rfl, rfl⟩ | ⟨configuration, context, policy, hs, hrun⟩
  · refine Or.inl ⟨apart_nil, fun e' he' => ?_⟩
    obtain rfl := Except.error.inj he'
    exact select_ne_sidecar e' he
  have happart : ∀ {t r'}, Runs (resolveDeclared world configuration policy) t r' → Apart t :=
    fun hres => apart_of_emits (emits_resolveDeclared world _ _) (by decide) hres
  rcases hrun with ⟨e, rfl, hres⟩ | ⟨resolved, t₁, t₂, rfl, hres, hdel⟩
  · refine Or.inl ⟨happart hres, ?_⟩
    rintro e' ⟨⟩
    obtain ⟨hvalid, -, hpolicy⟩ := valid_of_select hs
    obtain ⟨_, -, -, -, ⟨_, -, _, -, he⟩ | ⟨_, he, -⟩⟩ :=
      resolveDeclared_parts (hvalid.policy policy hpolicy) hres <;> cases he
  have hres' := happart hres
  rcases runs_ofExcept_bind_iff.mp hdel with ⟨e, he, rfl, rfl⟩ | ⟨environment, -, h1⟩
  · refine Or.inl ⟨hres'.append apart_nil, ?_⟩
    rw [directEnvironment_eq fun d hd => value_of_runs_resolveDeclared hres hd] at he
    cases he
  split at h1
  · -- a target without proxy-backed secrets is started directly
    obtain ⟨r', h2, rfl⟩ := runs_mapError_iff.mp h1
    refine Or.inl ⟨hres'.append (apart_of_emits (emits_execRuntime _ _ _ _) (by decide) h2), ?_⟩
    rcases r' with e | exit <;> rintro e' ⟨⟩
  next hproxied =>
    have hprovision : ∀ {t r'}, Runs (Prog.traverse (provisionOne resolved) policy.proxySecrets)
        t r' → Apart t := fun hprov =>
      apart_of_emits (emits_traverse fun _ _ => emits_provisionOne resolved _) (by decide) hprov
    have himage : ∀ {t r'}, Runs ((ensureProxyImage world.tempDir context.runtime).mapError
        Failure.proxyImage) t r' → Apart t := fun himg =>
      apart_of_emits ((emits_ensureProxyImage _ _).mapError _) (by decide) himg
    rcases runs_bind_iff.mp h1 with ⟨e, rfl, h2⟩ | ⟨provisioned, s₁, s, rfl, h2, h3⟩
    · refine Or.inl ⟨hres'.append (hprovision h2), ?_⟩
      rintro e' ⟨⟩
      exact provision_ne_sidecar h2
    rcases runs_bind_iff.mp h3 with ⟨e, rfl, h4⟩ | ⟨image, s₂, s₃, rfl, h4, h5⟩
    · refine Or.inl ⟨hres'.append ((hprovision h2).append (himage h4)), ?_⟩
      rintro e' ⟨⟩
      obtain ⟨r', -, he⟩ := runs_mapError_iff.mp h4
      rcases r' with e'' | image <;> cases he
    · have hin : ProvisionedIn world configuration policy (t₁ ++ (s₁ ++ s₂)) resolved
          provisioned := ⟨t₁, s₁, ⟨s₂, by simp⟩, hres, h2⟩
      obtain ⟨r', himg, he⟩ := runs_mapError_iff.mp h4
      obtain rfl := Checks.mapError_eq_ok.mp he.symm
      exact Or.inr ⟨context, policy, environment, provisioned, image, t₁ ++ (s₁ ++ s₂), s₃,
        ⟨hproxied, configuration, resolved, hs, hin⟩, imageTag_of_runs himg, by simp,
        hres'.append ((hprovision h2).append (himage h4)), h5⟩

/-! ### What is written and read -/

/-- What is not in the second part of a list is in the first. -/
theorem exists_within_of_notMem {α : Type} {A B t₁ t₂ : List α} {e : α}
    (h : A ++ e :: B = t₁ ++ t₂) (he : e ∉ t₂) : ∃ B', t₁ = A ++ e :: B' ∧ B = B' ++ t₂ := by
  rcases List.append_eq_append_iff.mp h with ⟨c, ht, hB⟩ | ⟨c, hA, ht⟩
  · rcases c with _ | ⟨x, c⟩
    · rw [List.nil_append] at hB
      exact absurd (hB ▸ List.mem_cons_self) he
    · obtain ⟨rfl, rfl⟩ := List.cons.inj hB
      exact ⟨c, ht, rfl⟩
  · exact absurd (by simp [ht]) he

/-- Nothing is written to a sidecar, or read from it, by removing it. -/
theorem notMem_sidecarRemoved {x : Effect} (hx : Transfers x) (runtime containerName : Str) :
    x ∉ sidecarRemoved runtime containerName := by
  intro hm
  rcases List.mem_cons.mp hm with rfl | hm
  · cases hx
  · rw [List.mem_singleton.mp hm] at hx
    cases hx

/-- What is written to a sidecar, or read from it, is so after its client's start. -/
theorem cut_of_started {A B t b rest : List Effect} {x draw : Effect}
    {runtime image targetContainer containerName : Str} (happart : Apart t)
    (hdraw : draw.kind = .entropy 8) (h : A ++ x :: B = t ++ (draw ::
      sidecarStarted runtime image targetContainer containerName :: (b ++ rest)))
    (hx : Transfers x) (hrest : x ∉ rest) : ∃ pre e a b',
      SidecarSpawned e ∧ t <+: pre ∧ A = pre ++ e :: a ∧ B = b' ++ rest ∧ b = a ++ x :: b' := by
  have hnot : x ∉ t ++ [draw, sidecarStarted runtime image targetContainer containerName] := by
    rw [List.mem_append]
    rintro (hm | hm)
    · exact happart.transfers x hm hx
    · rcases List.mem_cons.mp hm with rfl | hm
      · rw [Transfers, hdraw] at hx
        cases hx
      · rw [List.mem_singleton.mp hm] at hx
        cases hx
  obtain ⟨a, rfl, hb⟩ := exists_suffix_of_notMem
    (by rw [h, List.append_assoc]; rfl : A ++ x :: B = (t ++ [draw,
      sidecarStarted runtime image targetContainer containerName]) ++ (b ++ rest)) hnot
  obtain ⟨b', rfl, rfl⟩ := exists_within_of_notMem hb.symm hrest
  exact ⟨t ++ [draw], sidecarStarted runtime image targetContainer containerName, a, b',
    ⟨_, rfl⟩, List.prefix_append _ _, by simp, rfl, rfl⟩

/-- **Where something is written to a sidecar, or read from it**: after its client was
started, in what is done with it; and after that there is the supervision of the target, if
a port was reported. -/
theorem transfers_execute {A B : List Effect} {x : Effect} {r : Except Failure Exit}
    (h : Runs (execute world invocation) (A ++ x :: B) r) (hx : Transfers x) :
    ∃ context policy provisioned pre e a b rest r',
      Provisions world invocation pre context policy provisioned ∧ SidecarSpawned e ∧
      A = pre ++ e :: a ∧ B = b ++ rest ∧
      Runs (awaitReadiness world.readiness (intoTransfer world.serde provisioned).1)
        (a ++ x :: b) r' ∧
      ∀ port, r' = .ok port → ∃ registered rest', rest = ⟨.signalsRegister, (), registered⟩ ::
        rest' := by
  rcases beside_execute h with ⟨happart, -⟩ |
    ⟨context, policy, environment, provisioned, image, t₁, t₂, hprov, -, hsplit, happart, hbes⟩
  · exact absurd hx (happart.transfers x (by simp))
  rcases runBeside_parts hbes with ⟨e, -, h1⟩ | ⟨sidecar, s, c, r', ht, h1, h2, -⟩
  · rcases startSidecar_parts h1 with ⟨e', -, hun⟩ |
      ⟨name, draw, b, -, hdraw, ⟨e', -, hawait, rfl⟩ | ⟨_, he, -⟩⟩
    · have hm : x ∈ t₁ ++ t₂ := hsplit ▸ by simp
      rcases List.mem_append.mp hm with hm | hm
      · exact absurd hx (happart.transfers x hm)
      · exact absurd hx (hun.never x hm)
    · obtain ⟨pre, e, a, b', he, hpre, rfl, rfl, rfl⟩ :=
        cut_of_started happart hdraw hsplit hx (notMem_sidecarRemoved hx _ _)
      exact ⟨context, policy, provisioned, pre, e, a, b', _, _, hprov.mono hpre, he, rfl, rfl,
        hawait, fun port hp => by cases hp⟩
    · cases he
  · rcases startSidecar_parts h1 with ⟨_, he, -⟩ |
      ⟨name, draw, b, -, hdraw, ⟨_, he, -⟩ | ⟨port, he, hawait, rfl⟩⟩
    · cases he
    · cases he
    obtain rfl := Except.ok.inj he
    have hrest : x ∉ c ++ sidecarRemoved context.runtime name := by
      rw [List.mem_append]
      rintro (hm | hm)
      · have hstage := List.mem_singleton.mp (emits_supervise _ _ _ _ h2 x hm)
        rw [Transfers, hstage] at hx
        cases hx
      · exact notMem_sidecarRemoved hx _ _ hm
    rw [ht] at hsplit
    obtain ⟨pre, e, a, b', he, hpre, rfl, rfl, rfl⟩ := cut_of_started happart hdraw hsplit hx hrest
    refine ⟨context, policy, provisioned, pre, e, a, b', _, _, hprov.mono hpre, he, rfl, rfl,
      hawait, fun _ _ => ?_⟩
    rcases supervise_cases h2 with ⟨source, -, rfl⟩ | ⟨rest, rfl, -⟩ <;> exact ⟨_, _, rfl⟩

/-- **Before a readiness line is read** the client was started and all of the transfer was
written; after one that reports a port the target is supervised. -/
theorem read_execute {A B : List Effect} {read : Except IoError (List UInt8)}
    {r : Except Failure Exit}
    (h : Runs (execute world invocation) (A ++ ⟨.readinessRead, (), read⟩ :: B) r) :
    ∃ context policy provisioned pre e,
      Provisions world invocation pre context policy provisioned ∧ SidecarSpawned e ∧
      A = pre ++ e :: delivered (intoTransfer world.serde provisioned).1 ∧
      ∀ port, portOf world.readiness read = .ok port →
        ∃ registered rest, B = ⟨.signalsRegister, (), registered⟩ :: rest := by
  obtain ⟨context, policy, provisioned, pre, e, a, b, rest, r', hprov, he, rfl, rfl, hawait, hgo⟩ :=
    transfers_execute h rfl
  refine ⟨context, policy, provisioned, pre, e, hprov, he, ?_⟩
  rcases awaitReadiness_cases hawait with ⟨source, -, hun⟩ | ⟨read', hb, rfl⟩
  · -- nothing is read after a delivery that failed
    exfalso
    have hm : (⟨.readinessRead, (), read⟩ : Effect) ∈ a ++ ⟨.readinessRead, (), read⟩ :: b := by
      simp
    generalize a ++ ⟨.readinessRead, (), read⟩ :: b = l at hun hm
    cases hun <;> simp at hm
  have hsole : Sole (fun x : Effect => x.kind = .readinessRead)
      (startup (intoTransfer world.serde provisioned).1 read')
      (delivered (intoTransfer world.serde provisioned).1) ⟨.readinessRead, (), read'⟩ [] :=
    ⟨rfl, rfl, by simp [Never, delivered], by simp [Never]⟩
  obtain ⟨rfl, heq, rfl⟩ := hsole.unique hb.symm rfl
  cases heq
  exact ⟨rfl, hgo⟩

/-- A call that writes to the sidecar. -/
def Writes (x : Effect) : Prop := x.kind = .transferWrite ∨ x.kind = .newlineWrite

theorem Writes.transfers {x : Effect} (h : Writes x) : Transfers x := by
  rcases h with hk | hk <;> rw [Transfers, hk] <;> rfl

/-- **Before something is written** the client was started, and what is written is the
transfer, and a newline if that went through. -/
theorem write_execute {A B : List Effect} {x : Effect} {r : Except Failure Exit}
    (h : Runs (execute world invocation) (A ++ x :: B) r) (hx : Writes x) :
    ∃ context policy provisioned pre e,
      Provisions world invocation pre context policy provisioned ∧ SidecarSpawned e ∧
      ((A = pre ++ [e] ∧
          ∃ ans, x = ⟨.transferWrite, (intoTransfer world.serde provisioned).1, ans⟩) ∨
        A = pre ++ [e, ⟨.transferWrite, (intoTransfer world.serde provisioned).1, .ok ()⟩] ∧
          ∃ ans, x = ⟨.newlineWrite, (), ans⟩) := by
  obtain ⟨context, policy, provisioned, pre, e, a, b, rest, r', hprov, he, rfl, rfl, hawait, -⟩ :=
    transfers_execute h hx.transfers
  refine ⟨context, policy, provisioned, pre, e, hprov, he, ?_⟩
  -- whether it goes through or not, a delivery is at most two writes
  obtain ⟨written, l, hl, hcases⟩ : ∃ written l, a ++ x :: b =
      ⟨.transferWrite, (intoTransfer world.serde provisioned).1, written⟩ :: l ∧
      (Never Writes l ∨ written = .ok () ∧ ∃ ended l', l = ⟨.newlineWrite, (), ended⟩ :: l' ∧
        Never Writes l') := by
    rcases awaitReadiness_cases hawait with ⟨source, -, hun⟩ | ⟨read, hb, -⟩
    · generalize a ++ x :: b = t at hun
      cases hun
      · exact ⟨_, _, rfl, Or.inl (by simp [Never, Writes])⟩
      · exact ⟨_, _, rfl, Or.inr ⟨rfl, _, _, rfl, by simp [Never, Writes]⟩⟩
    · exact ⟨_, _, hb, Or.inr ⟨rfl, _, _, rfl, by simp [Never, Writes]⟩⟩
  rcases a with _ | ⟨y, a⟩
  · obtain ⟨rfl, -⟩ := List.cons.inj hl
    exact Or.inl ⟨rfl, _, rfl⟩
  obtain ⟨rfl, rfl⟩ := List.cons.inj hl
  rcases hcases with hn | ⟨rfl, ended, l', hl', hn⟩
  · exact absurd hx (hn x (by simp))
  rcases a with _ | ⟨z, a⟩
  · obtain ⟨rfl, -⟩ := List.cons.inj hl'
    exact Or.inr ⟨rfl, _, rfl⟩
  · obtain ⟨-, rfl⟩ := List.cons.inj hl'
    exact absurd hx (hn x (by simp))

end

end Iwaya
