import Iwaya.Execute.EndToEnd
import Iwaya.Execute.Secrecy
import Iwaya.Proxy.Opaque
import Iwaya.Proxy.Serviceable

/-!
# What the target learns

A target beside a proxy sees its own command line and environment, and what its requests
are answered with. Let a raw value that is delivered through the proxy only be another one:
the target is started by the same command, and the proxy beside it is handed the same
routes but for raw values (`Iwaya.rekeyed_of_settings`), so that it answers in the same way
(`Iwaya.target_learns_nothing`). The two-run logic of `Effects.Sim` is used on either side
of the pipe, and what joins the two is that the phantoms, which both sides have, are in the
environment of the target.
-/

namespace Iwaya

open Text Effects Trace

section

variable {policy : CommandPolicy} {configuration : Config} {resolved resolved' : ResolvedAll}

/-- **The routes of two invocations whose targets are told the same** are the same, but for
raw values; the library takes the one credential for a header value if it takes the
other. -/
theorem rekeyed_of_settings {specs : List ProxySecretSpec}
    (hvalid : ∀ spec ∈ specs, spec.Valid configuration)
    (hvalue : ∀ spec ∈ specs, ∀ value value',
      resolved.value spec.provider spec.secretName = some value →
      resolved'.value spec.provider spec.secretName = some value' →
      Field.isValue value = Field.isValue value')
    {provisioned provisioned' : List ProvisionedProxySecret}
    (h : List.Forall₂ (ProvisionedFor resolved) specs provisioned)
    (h' : List.Forall₂ (ProvisionedFor resolved') specs provisioned') {port port' : UInt16}
    (heq : targetEnvironment (provisioned.map ProvisionedProxySecret.plan) port =
      targetEnvironment (provisioned'.map ProvisionedProxySecret.plan) port') :
    List.Forall₂ ProxyRoute.Rekeyed (provisioned.map ProvisionedProxySecret.proxyRoute)
      (provisioned'.map ProvisionedProxySecret.proxyRoute) := by
  induction h generalizing provisioned' with
  | nil =>
    obtain rfl := List.forall₂_nil_left_iff.mp h'
    exact .nil
  | @cons spec secret specs rest hsecret _ ih =>
    obtain ⟨secret', rest', hsecret', hrest', rfl⟩ := List.forall₂_cons_left_iff.mp h'
    obtain ⟨hv, hvs⟩ := List.forall_mem_cons.mp hvalid
    obtain ⟨hn, hns⟩ := List.forall_mem_cons.mp hvalue
    obtain ⟨value, entropy, hresolved, rfl⟩ := hsecret
    obtain ⟨value', entropy', hresolved', rfl⟩ := hsecret'
    -- the first two variables are those of the first secret
    simp only [List.map_cons, targetEnvironment, List.flatMap_cons, List.cons_append,
      List.nil_append, List.cons.injEq, Prod.mk.injEq] at heq
    obtain ⟨⟨-, hphantom⟩, -, hrest⟩ := heq
    refine .cons ⟨?_, ?_⟩ (ih hvs hns hrest' hrest)
    · have hp : Phantom.generate entropy = Phantom.generate entropy' := congrArg Phantom.mk hphantom
      simp only [ProvisionedProxySecret.proxyRoute, ProvisionedProxySecret.provision, hp]
    · have hinj := isValue_injected hv
      calc Field.isValue (replaceFirst placeholder value spec.injectHeader.template)
          = Field.isValue value := hinj value
        _ = Field.isValue value' := hn value value' hresolved hresolved'
        _ = Field.isValue (replaceFirst placeholder value' spec.injectHeader.template) :=
          (hinj value').symm

/-! ### Two invocations -/

variable {world : World} {context : DockerContext} {invocation : Invocation}

/-- What the proxy is handed at a startup that comes to a target, and how the target is
started. -/
theorem handed_of_spawn (hserde : world.serde.Conforms)
    (hs : select world invocation = .ok (configuration, context, policy)) {t : List Effect}
    (hres : Runs (resolveDeclared world configuration policy) t (.ok resolved)) {A B : List Effect}
    {x : Command} {ans : Except IoError Unit} {r : Except Failure Exit}
    (h : Runs (deliverAll world context policy invocation.args resolved)
      (A ++ ⟨.targetSpawn, x, ans⟩ :: B) r) :
    ∃ provisioned port, List.Forall₂ (ProvisionedFor resolved) policy.proxySecrets provisioned ∧
      (⟨.transferWrite, (intoTransfer world.serde provisioned).1, .ok ()⟩ : Effect) ∈ A ∧
      readTransfer world.serde (utf8 (intoTransfer world.serde provisioned).1 ++ [10]) =
        .ok (provisioned.map ProvisionedProxySecret.proxyRoute) ∧
      x = { runtimeCommand context policy invocation.args with
            env := settings policy resolved provisioned port } := by
  obtain ⟨hvalid, -, hmem⟩ := valid_of_select hs
  have hpolicy := hvalid.policy policy hmem
  obtain ⟨provisioned, read, port, pre, e, hprov, rfl, -, -, hx⟩ :=
    spawn_deliverAll (fun d hd => value_of_runs_resolveDeclared hres hd) h
  refine ⟨provisioned, port, hprov, by simp [startup], readTransfer_line hserde ?_ ?_
    (Or.inr ⟨[], rfl⟩), hx⟩
  · -- without a proxy-backed secret no target is started beside anything
    rintro rfl
    have hrun := runs_bind_iff.mpr (Or.inr ⟨resolved, t, _, rfl, hres, h⟩)
    rw [← execute_eq hs] at hrun
    rcases direct_execute hrun hs (List.forall₂_nil_right_iff.mp hprov)
      ⟨.targetSpawn, x, ans⟩ (by simp) with hk | hk <;> cases hk
  · intro secret hsecret
    obtain ⟨spec, hspec, _, _, -, rfl⟩ := exists_of_forall₂ hprov.flip hsecret
    exact (hpolicy.proxySecret spec hspec).upstream

/-- **The target learns nothing of a raw value that is not delivered to it.** Take two runs of
an invocation that resolve everything, with the same direct values, and are answered alike
from then on; let the values of a proxy-backed secret differ, both or neither being a header
value. If the one comes to a target, so does the other, by the same command with the same
environment; each has handed its proxy a line that is read as routes; and whatever requests
are made to the one proxy, in any interleaving, in surroundings that do not answer differently
for a credential, the other proxy can do the same, answering each request in the same way. -/
theorem target_learns_nothing (hserde : world.serde.Conforms)
    (hs : select world invocation = .ok (configuration, context, policy)) {env env' : Env Call.Ans}
    {t t' : List Effect}
    (h : exec env 0 (resolveDeclared world configuration policy) = (t, .ok resolved))
    (h' : exec env' 0 (resolveDeclared world configuration policy) = (t', .ok resolved'))
    (henv : ∀ n, env (t.length + n) = env' (t'.length + n))
    (hdirect : ∀ spec ∈ policy.secrets, resolved.value spec.provider spec.secretName =
      resolved'.value spec.provider spec.secretName)
    (hvalue : ∀ spec ∈ policy.proxySecrets, ∀ value value',
      resolved.value spec.provider spec.secretName = some value →
      resolved'.value spec.provider spec.secretName = some value' →
      Field.isValue value = Field.isValue value')
    {A B : List Effect} {x : Command} {ans : Except IoError Unit}
    (hrun : (exec env 0 (execute world invocation)).1 = A ++ ⟨.targetSpawn, x, ans⟩ :: B) :
    ∃ A' B' line line' routes routes',
      (exec env' 0 (execute world invocation)).1 = A' ++ ⟨.targetSpawn, x, ans⟩ :: B' ∧
      (⟨.transferWrite, line, .ok ()⟩ : Effect) ∈ A ∧
      (⟨.transferWrite, line', .ok ()⟩ : Effect) ∈ A' ∧
      readTransfer world.serde (utf8 line ++ [10]) = .ok routes ∧
      readTransfer world.serde (utf8 line' ++ [10]) = .ok routes' ∧
      ∀ (ι σ τ Λ : Type) [DecidableEq ι] (lib : ProxyLibraries) (request : ι → Request)
        (S : σ → τ → Prop) (w : ι → Surroundings ServeCall.Arg ServeCall.Ans σ Λ)
        (w' : ι → Surroundings ServeCall.Arg ServeCall.Ans τ Λ) (s₀ : σ) (t₀ : τ)
        (f : Fleet ι ServeCall.Arg ServeCall.Ans Empty Unit σ),
        lib.http.ValueBlind → (∀ i, Surroundings.Blind SameTurn S (w i) (w' i)) → S s₀ t₀ →
        Fleet.Course w (serve lib routes request s₀) f →
        ∃ g, Fleet.Course w' (serve lib routes' request t₀) g ∧
          ∀ i, List.Forall₂ (EventRel SameTurn) (f.trace i) (g.trace i) := by
  have hres := runs_exec env 0 (resolveDeclared world configuration policy)
  have hres' := runs_exec env' 0 (resolveDeclared world configuration policy)
  rw [h] at hres
  rw [h'] at hres'
  have hnone : ∀ name, ¬Differs policy resolved resolved' name := by
    rintro name ⟨spec, hspec, -, hne⟩
    exact hne (hdirect spec hspec)
  have hsim : Sim (Alike (Differs policy resolved resolved')) Eq
      (deliverAll world context policy invocation.args resolved)
      (deliverAll world context policy invocation.args resolved') :=
    sim_deliverAll hserde
      { left := fun d hd => value_of_runs_resolveDeclared hres hd
        right := fun d hd => value_of_runs_resolveDeclared hres' hd
        nulFree := fun spec hspec => Or.inl (hdirect spec hspec) }
  obtain ⟨hevents, -⟩ := hsim.exec henv
  have hdel := runs_exec env t.length (deliverAll world context policy invocation.args resolved)
  have hdel' := runs_exec env' t'.length (deliverAll world context policy invocation.args resolved')
  -- the start of the target comes after resolution, and so at the same place in both
  rw [execute_eq hs, exec_bind_ok h, Nat.zero_add] at hrun
  obtain ⟨A₁, rfl, hsplit⟩ := exists_suffix_of_notMem hrun.symm fun hm => by
    cases List.mem_singleton.mp (emits_resolveDeclared world _ _ _ _ hres _ hm)
  rw [hsplit] at hevents hdel
  obtain ⟨A₂, e, B', hsplit', hspawn, -⟩ := exists_of_forall₂_append_cons hevents
  obtain ⟨halike, _⟩ := hspawn
  obtain rfl := Alike.eq halike hnone (by decide)
  rw [hsplit'] at hdel'
  -- each proxy is handed the routes of its own values, and both targets are told the same
  obtain ⟨provisioned, port, hprov, hline, hread, hx⟩ := handed_of_spawn hserde hs hres hdel
  obtain ⟨provisioned', port', hprov', hline', hread', hx'⟩ := handed_of_spawn hserde hs hres' hdel'
  have hsettings : settings policy resolved provisioned port =
      settings policy resolved' provisioned' port' :=
    congrArg Command.env (hx.symm.trans hx')
  have htold : targetEnvironment (provisioned.map ProvisionedProxySecret.plan) port =
      targetEnvironment (provisioned'.map ProvisionedProxySecret.plan) port' :=
    (List.append_inj hsettings (by simp)).2
  obtain ⟨hvalid, -, hmem⟩ := valid_of_select hs
  have hrekeyed := rekeyed_of_settings (hvalid.policy policy hmem).proxySecret hvalue hprov hprov'
    htold
  refine ⟨t' ++ A₂, B', _, _, _, _, ?_, List.mem_append_right _ hline,
    List.mem_append_right _ hline', hread, hread', ?_⟩
  · rw [execute_eq hs, exec_bind_ok h', Nat.zero_add, hsplit', List.append_assoc]
  · intro ι σ τ Λ _ lib request S w w' s₀ t₀ f hlib hblind hS hf
    obtain ⟨g, hg, ha⟩ := course_alike hlib hrekeyed hblind hS hf
    exact ⟨g, hg, ha.trace⟩

end

theorem sampleResolved_api (api : Str) :
    (sampleResolved api).value "bws".toList "API".toList = some api := rfl

theorem target_learns_nothing_rotated : ∃ A B A' B' x ans,
    (exec sampleAnswers 0 (execute sampleWorld sampleInvocation)).1 =
        A ++ ⟨.targetSpawn, x, ans⟩ :: B ∧
      (exec rotatedAnswers 0 (execute sampleWorld sampleInvocation)).1 =
        A' ++ ⟨.targetSpawn, x, ans⟩ :: B' := by
  have hget : ∃ x, (exec sampleAnswers 0 (execute sampleWorld sampleInvocation)).1[14]? =
      some ⟨.targetSpawn, x, .ok ()⟩ := by
    rw [execute_sample]
    exact ⟨_, rfl⟩
  obtain ⟨x, hx⟩ := hget
  obtain ⟨A, B, hrun⟩ := List.append_of_mem (List.mem_of_getElem? hx)
  have hdirect : ∀ spec ∈ samplePolicy.secrets,
      (sampleResolved "raw-api".toList).value spec.provider spec.secretName =
        (sampleResolved "new-api".toList).value spec.provider spec.secretName := by
    intro spec hs
    rw [List.mem_singleton.mp hs]
    exact (sampleResolved_value _).trans (sampleResolved_value _).symm
  have hvalue : ∀ spec ∈ samplePolicy.proxySecrets, ∀ value value',
      (sampleResolved "raw-api".toList).value spec.provider spec.secretName = some value →
      (sampleResolved "new-api".toList).value spec.provider spec.secretName = some value' →
      Field.isValue value = Field.isValue value' := by
    intro spec hs value value' hv hv'
    rw [List.mem_singleton.mp hs] at hv hv'
    obtain rfl := Option.some.inj ((sampleResolved_api _).symm.trans hv)
    obtain rfl := Option.some.inj ((sampleResolved_api _).symm.trans hv')
    decide
  obtain ⟨A', B', -, -, -, -, hrun', -⟩ := target_learns_nothing SerdeJson.reference_conforms
    select_sample exec_sampleAnswers exec_rotatedAnswers rotatedAnswers_eq hdirect hvalue hrun
  exact ⟨A, B, A', B', x, _, hrun, hrun'⟩

end Iwaya
