import Iwaya.Execute.Program

/-!
# What resolution establishes

The declared names are asked for provider by provider. Grouping loses none of them
(`Iwaya.inGroup_namesByProvider`), a provider that answers has a value for every name it
was asked for (`Iwaya.mem_of_runs_resolve`), and so a finished resolution has the value
of every declaration (`Iwaya.value_of_runs_resolveDeclared`): reading one back never
panics.
-/

namespace Iwaya

open Text Effects

/-! ### Grouping by provider -/

/-- A name is asked of a provider. -/
def InGroup (groups : List (ProviderId × List SecretName)) (provider : ProviderId)
    (name : SecretName) : Prop :=
  ∃ names, (provider, names) ∈ groups ∧ name ∈ names

/-- A new name joins the group of its provider, and the others stay. -/
theorem inGroup_pushName {groups : List (ProviderId × List SecretName)} {provider p : ProviderId}
    {name n : SecretName} (h : provider = p ∧ name = n ∨ InGroup groups p n) :
    InGroup (pushName provider name groups) p n := by
  induction groups with
  | nil =>
    rcases h with ⟨rfl, rfl⟩ | ⟨_, hm, -⟩
    · exact ⟨[name], by simp [pushName], by simp⟩
    · cases hm
  | cons g groups ih =>
    obtain ⟨id, names⟩ := g
    unfold pushName
    split
    · next hid =>
      rcases h with ⟨rfl, rfl⟩ | ⟨names', hm, hn⟩
      · exact ⟨names ++ [name], by simp [hid], by simp⟩
      · rcases List.mem_cons.mp hm with he | hm
        · obtain ⟨rfl, rfl⟩ := Prod.mk.inj he
          exact ⟨names' ++ [name], by simp, by simp [hn]⟩
        · exact ⟨names', List.mem_cons_of_mem _ hm, hn⟩
    · rcases h with h | ⟨names', hm, hn⟩
      · obtain ⟨names', hm, hn⟩ := ih (Or.inl h)
        exact ⟨names', List.mem_cons_of_mem _ hm, hn⟩
      · rcases List.mem_cons.mp hm with he | hm
        · exact ⟨names', by rw [he]; exact List.mem_cons_self, hn⟩
        · obtain ⟨names'', hm, hn⟩ := ih (Or.inr ⟨names', hm, hn⟩)
          exact ⟨names'', List.mem_cons_of_mem _ hm, hn⟩

/-- Adding a name adds at most its own provider. -/
theorem mem_providers_pushName {groups : List (ProviderId × List SecretName)}
    {provider p : ProviderId} {name : SecretName}
    (h : p ∈ (pushName provider name groups).map Prod.fst) :
    p = provider ∨ p ∈ groups.map Prod.fst := by
  induction groups with
  | nil => simpa [pushName] using h
  | cons g groups ih =>
    obtain ⟨id, names⟩ := g
    unfold pushName at h
    split at h
    · exact Or.inr h
    · rcases List.mem_cons.mp h with rfl | h
      · exact Or.inr List.mem_cons_self
      · exact (ih h).imp_right (List.mem_cons_of_mem _)

/-- One group per provider. -/
theorem nodup_pushName {groups : List (ProviderId × List SecretName)}
    (h : (groups.map Prod.fst).Nodup) (provider : ProviderId) (name : SecretName) :
    ((pushName provider name groups).map Prod.fst).Nodup := by
  induction groups with
  | nil => simp [pushName]
  | cons g groups ih =>
    obtain ⟨id, names⟩ := g
    obtain ⟨hid, hnd⟩ := List.nodup_cons.mp h
    unfold pushName
    split
    · exact h
    · next hne =>
      refine List.nodup_cons.mpr ⟨fun hm => ?_, ih hnd⟩
      exact (mem_providers_pushName hm).elim hne hid

/-- The grouping of a list of declarations, from some groups on. -/
theorem grouping (l : List (ProviderId × SecretName)) (groups : List (ProviderId × List SecretName))
    (hnd : (groups.map Prod.fst).Nodup) :
    ((l.foldl (fun groups (provider, name) => pushName provider name groups) groups).map
        Prod.fst).Nodup ∧
      ∀ p n, ((p, n) ∈ l ∨ InGroup groups p n) →
        InGroup (l.foldl (fun groups (provider, name) => pushName provider name groups) groups)
          p n := by
  induction l generalizing groups with
  | nil => exact ⟨hnd, fun p n h => h.resolve_left (by simp)⟩
  | cons d l ih =>
    obtain ⟨provider, name⟩ := d
    obtain ⟨h1, h2⟩ := ih (pushName provider name groups) (nodup_pushName hnd provider name)
    refine ⟨h1, fun p n h => h2 p n ?_⟩
    rcases h with h | h
    · rcases List.mem_cons.mp h with he | h
      · obtain ⟨rfl, rfl⟩ := Prod.mk.inj he
        exact Or.inr (inGroup_pushName (Or.inl ⟨rfl, rfl⟩))
      · exact Or.inl h
    · exact Or.inr (inGroup_pushName (Or.inr h))

/-- **Every declared name is asked for.** -/
theorem inGroup_namesByProvider {policy : CommandPolicy} {provider : ProviderId} {name : SecretName}
    (h : (provider, name) ∈ declared policy) : InGroup (namesByProvider policy) provider name :=
  (grouping (declared policy) [] List.nodup_nil).2 provider name (Or.inl h)

/-! ### One provider -/

/-- **A provider that answers has every name it was asked for.** -/
theorem mem_of_runs_resolve {json : BwsJson} {provider : BwsProvider} {names : List SecretName}
    {tr : List Effect} {values : Resolved}
    (h : Runs (resolve json provider names) tr (.ok values)) : ∀ name ∈ names, name ∈ values := by
  obtain ⟨token, _, _, -, -, h⟩ := runs_bind_ok_iff.mp h
  obtain ⟨projects, _, _, -, -, h⟩ := runs_bind_ok_iff.mp h
  obtain ⟨project, _, _, -, -, h⟩ := runs_bind_ok_iff.mp h
  obtain ⟨secrets, _, _, -, -, h⟩ := runs_bind_ok_iff.mp h
  obtain ⟨_, _, _, -, hc, h⟩ := runs_bind_ok_iff.mp h
  obtain ⟨-, hv⟩ := runs_done_iff.mp h
  obtain rfl := Except.ok.inj hv
  intro name hm
  have := Checks.forAll_eq_ok.mp (runs_ofExcept_iff.mp hc).2.symm name hm
  exact not_not.mp (Checks.refuse_eq_ok.mp this)

theorem resolveProvider_ok {world : World} {configuration : Config}
    {group : ProviderId × List SecretName} {tr : List Effect} {answer : ProviderId × Resolved}
    (h : Runs (resolveProvider world configuration group) tr (.ok answer)) :
    answer.1 = group.1 ∧ ∀ name ∈ group.2, name ∈ answer.2 := by
  unfold resolveProvider at h
  split at h
  · cases (runs_fail_iff.mp h).2
  · obtain ⟨values, _, _, -, hr, h⟩ := runs_bind_ok_iff.mp h
    obtain ⟨-, ha⟩ := runs_done_iff.mp h
    obtain rfl := Except.ok.inj ha
    obtain ⟨r, hr, he⟩ := runs_mapError_iff.mp hr
    obtain rfl := Checks.mapError_eq_ok.mp he.symm
    exact ⟨rfl, mem_of_runs_resolve hr⟩

/-! ### All of them -/

/-- Of distinct providers each keeps the values it gave. -/
theorem lookup_foldl_insert (l : List (ProviderId × Resolved)) (resolved : ResolvedAll)
    (hnd : (l.map Prod.fst).Nodup) {id : ProviderId} :
    (id ∉ l.map Prod.fst →
      (l.foldl (fun resolved (id, v) => resolved.insert id v) resolved).lookup id =
        resolved.lookup id) ∧
    ∀ values, (id, values) ∈ l →
      (l.foldl (fun resolved (id, v) => resolved.insert id v) resolved).lookup id =
        some values := by
  induction l generalizing resolved with
  | nil => simp
  | cons a l ih =>
    obtain ⟨id', values'⟩ := a
    obtain ⟨hm, hnd⟩ := List.nodup_cons.mp hnd
    obtain ⟨h1, h2⟩ := ih (resolved.insert id' values') hnd
    refine ⟨fun h => ?_, fun values h => ?_⟩
    · rw [List.map_cons, List.mem_cons, not_or] at h
      rw [List.foldl_cons, h1 h.2, AList.lookup_insert_ne h.1]
    · rcases List.mem_cons.mp h with he | h
      · obtain ⟨rfl, rfl⟩ := Prod.mk.inj he
        rw [List.foldl_cons, h1 hm, AList.lookup_insert]
      · exact h2 values h

/-- **A finished resolution has the value of every declaration.** -/
theorem value_of_runs_resolveDeclared {world : World} {configuration : Config}
    {policy : CommandPolicy} {tr : List Effect} {resolved : ResolvedAll}
    (h : Runs (resolveDeclared world configuration policy) tr (.ok resolved))
    {provider : ProviderId} {name : SecretName} (hd : (provider, name) ∈ declared policy) :
    ∃ value, resolved.value provider name = some value := by
  obtain ⟨answers, _, _, -, ht, h⟩ := runs_bind_ok_iff.mp h
  obtain ⟨-, hv⟩ := runs_done_iff.mp h
  obtain rfl := Except.ok.inj hv
  have hall := (forall₂_of_runs_traverse ht).imp fun _ _ h => resolveProvider_ok h.choose_spec
  -- one answer per group, under the provider of the group
  have hkeys : List.Forall₂ Eq ((namesByProvider policy).map Prod.fst) (answers.map Prod.fst) :=
    List.forall₂_map_left_iff.mpr (List.forall₂_map_right_iff.mpr (hall.imp fun _ _ h => h.1.symm))
  rw [List.forall₂_eq_eq_eq] at hkeys
  obtain ⟨names, hg, hn⟩ := inGroup_namesByProvider hd
  obtain ⟨⟨_, values⟩, hm, rfl, hvals⟩ := exists_of_forall₂ hall hg
  have hnd : (answers.map Prod.fst).Nodup :=
    hkeys ▸ (grouping (declared policy) [] List.nodup_nil).1
  have hl := (lookup_foldl_insert answers ∅ hnd).2 values hm
  have hname : (values.lookup name).isSome := AList.lookup_isSome.mpr (hvals name hn)
  obtain ⟨value, hvalue⟩ := Option.isSome_iff_exists.mp hname
  exact ⟨value, by rw [ResolvedAll.value, hl, Option.bind_some, hvalue]⟩

/-- The direct variables, when everything declared has resolved. -/
theorem directEnvironment_eq {resolved : ResolvedAll} {policy : CommandPolicy}
    (h : ∀ d ∈ declared policy, ∃ value, resolved.value d.1 d.2 = some value) :
    directEnvironment resolved policy = .ok (policy.secrets.map fun spec =>
      (spec.envName, (resolved.value spec.provider spec.secretName).getD [])) := by
  have hmap : ∀ l : List SecretSpec,
      (∀ spec ∈ l, ∃ value, resolved.value spec.provider spec.secretName = some value) →
      (l.mapM fun spec => do
        return (spec.envName, ← resolvedValue resolved spec.provider spec.secretName) :
          Except Failure (List (EnvName × Str))) = .ok (l.map fun spec =>
        (spec.envName, (resolved.value spec.provider spec.secretName).getD [])) := by
    intro l hl
    induction l with
    | nil => rfl
    | cons spec l ih =>
      obtain ⟨value, hv⟩ := hl spec List.mem_cons_self
      rw [List.mapM_cons, ih fun s hs => hl s (List.mem_cons_of_mem _ hs)]
      simp [resolvedValue, hv, bind, Except.bind, pure, Except.pure]
  refine hmap _ fun spec hs => h (spec.provider, spec.secretName) ?_
  exact List.mem_append_left _ (List.mem_map.mpr ⟨spec, hs, rfl⟩)

end Iwaya
