import Iwaya.Proxy.Mode

/-!
# The framing of the transfer

The supervisor writes one line and the proxy reads one, ended by a newline or by the
end of the stream. Accepting the end of the stream is what makes truncation a
question: a transfer cut off anywhere is a line too. It is answered twice over. Cut
inside a character, the bytes are no text; cut between two, the text is a proper
prefix of a rendered object, and no such prefix is JSON.
-/

namespace Iwaya

open Text Effects

/-- The route the proxy is to serve for a provisioned secret. -/
def ProvisionedProxySecret.proxyRoute (secret : ProvisionedProxySecret) : ProxyRoute where
  headerName := secret.headerName
  template := secret.template
  upstream := secret.upstream
  phantom := secret.phantom
  rawValue := secret.rawValue

theorem proxyRoute_route (secret : ProvisionedProxySecret) :
    secret.route.proxyRoute = secret.proxyRoute := rfl

section

variable {serde : SerdeJson} (hserde : serde.Conforms) {provisioned : List ProvisionedProxySecret}

include hserde

/-- The line, with any white space after it, gives back what was provisioned. -/
theorem parseTransfer_line (hne : provisioned ≠ [])
    (hup : ∀ secret ∈ provisioned, isHttpOrigin secret.upstream = true) {w : Str}
    (hw : Json.IsWs w) : parseTransfer serde ((intoTransfer serde provisioned).1 ++ w) =
      .ok (provisioned.map ProvisionedProxySecret.proxyRoute) := by
  refine parseTransfer_eq_ok.mpr ⟨_, fromStr_intoTransfer hserde provisioned hw, ?_, ?_, ?_⟩
  · simpa using hne
  · simpa [ProvisionedProxySecret.route] using hup
  · simp [proxyRoute_route]

/-- A proper prefix of the line is refused. -/
theorem parseTransfer_cut {p : Str} (hp : p <+: (intoTransfer serde provisioned).1)
    (hne : p ≠ (intoTransfer serde provisioned).1) (routes : List ProxyRoute) :
    parseTransfer serde p ≠ .ok routes := by
  intro h
  obtain ⟨t, ht, -⟩ := parseTransfer_eq_ok.mp h
  exact fromStr_prefix_intoTransfer hserde provisioned hp hne t ht

/-- The line as it is read, ended by a newline with anything after it, or by the end of the
stream. -/
theorem readLine_line {input : List UInt8}
    (hin : input = utf8 (intoTransfer serde provisioned).1 ∨
      ∃ rest, input = utf8 (intoTransfer serde provisioned).1 ++ 10 :: rest) :
    ∃ w, Json.IsWs w ∧ readLine input = .ok ((intoTransfer serde provisioned).1 ++ w) := by
  have hnl := newline_notMem_utf8 (newline_notMem_intoTransfer hserde provisioned)
  rcases hin with rfl | ⟨rest, rfl⟩
  · exact ⟨[], by simp [Json.IsWs], by simp [readLine, lineOf_of_notMem hnl]⟩
  · have hu : utf8 (intoTransfer serde provisioned).1 ++ [10] =
        utf8 ((intoTransfer serde provisioned).1 ++ ['\n']) := by simp; rfl
    refine ⟨['\n'], by simp [Json.IsWs, Json.isWs], ?_⟩
    rw [readLine, lineOf_append hnl, hu, fromUtf8_utf8]

/-- The proxy reads the line from its standard input, ended by a newline with
anything after it, or by the end of the stream. -/
theorem readTransfer_line (hne : provisioned ≠ [])
    (hup : ∀ secret ∈ provisioned, isHttpOrigin secret.upstream = true) {input : List UInt8}
    (hin : input = utf8 (intoTransfer serde provisioned).1 ∨
      ∃ rest, input = utf8 (intoTransfer serde provisioned).1 ++ 10 :: rest) :
    readTransfer serde input = .ok (provisioned.map ProvisionedProxySecret.proxyRoute) := by
  obtain ⟨w, hw, hline⟩ := readLine_line hserde hin
  rw [readTransfer, hline]
  exact parseTransfer_line hserde hne hup hw

/-- A transfer cut off at any byte is refused. -/
theorem readTransfer_cut {input : List UInt8}
    (hp : input <+: utf8 (intoTransfer serde provisioned).1)
    (hne : input ≠ utf8 (intoTransfer serde provisioned).1) (routes : List ProxyRoute) :
    readTransfer serde input ≠ .ok routes := by
  have hnl : (10 : UInt8) ∉ input := fun hm =>
    newline_notMem_utf8 (newline_notMem_intoTransfer hserde provisioned) (hp.subset hm)
  rw [readTransfer, readLine, lineOf_of_notMem hnl]
  rcases hu : fromUtf8 input with _ | p
  · -- cut inside a character
    exact fun h => by cases h
  · -- cut between two characters
    refine parseTransfer_cut hserde (prefix_of_fromUtf8 hp hu) (fun he => hne ?_) routes
    rw [← he, utf8_of_fromUtf8 hu]

/-- **Whatever is taken from a beginning of the stream** – the line and its newline – is what
was provisioned. -/
theorem routes_of_prefix {input : List UInt8} {routes : List ProxyRoute}
    (hp : input <+: utf8 (intoTransfer serde provisioned).1 ++ [10])
    (h : readTransfer serde input = .ok routes) :
    routes = provisioned.map ProvisionedProxySecret.proxyRoute := by
  have hin : input = utf8 (intoTransfer serde provisioned).1 ∨
      ∃ rest, input = utf8 (intoTransfer serde provisioned).1 ++ 10 :: rest := by
    rcases List.prefix_concat_iff.mp hp with rfl | hp
    · exact Or.inr ⟨[], rfl⟩
    · refine Or.inl (by_contra fun hne => ?_)
      exact readTransfer_cut hserde hp hne routes h
  obtain ⟨w, hw, hline⟩ := readLine_line hserde hin
  rw [readTransfer, hline] at h
  obtain ⟨t, ht, -, -, rfl⟩ := parseTransfer_eq_ok.mp h
  rw [fromStr_intoTransfer hserde provisioned hw] at ht
  obtain rfl := Except.ok.inj ht
  rw [List.map_map]
  rfl

/-- **Framing.** For any provisioned secrets with acceptable upstreams, whatever
their fields contain: the transfer is one line; the proxy takes from it, with or
without the newline and whatever follows, the routes of the secrets field by field
and in order, the `i`-th holding the phantom of the `i`-th plan; and from no proper
prefix of it, cut at any character or at any byte, does it take any routes or bind a
listener. -/
theorem transfer_framing (hne : provisioned ≠ [])
    (hup : ∀ secret ∈ provisioned, isHttpOrigin secret.upstream = true) :
    '\n' ∉ (intoTransfer serde provisioned).1 ∧
      (∃ routes, routes = provisioned.map (fun secret =>
          { headerName := secret.headerName, template := secret.template,
            upstream := secret.upstream, phantom := secret.phantom,
            rawValue := secret.rawValue }) ∧
        routes.map ProxyRoute.phantom =
          (intoTransfer serde provisioned).2.map ProxySecretPlan.phantom ∧
        parseTransfer serde (intoTransfer serde provisioned).1 = .ok routes ∧
        parseTransfer serde ((intoTransfer serde provisioned).1 ++ ['\n']) = .ok routes ∧
        readTransfer serde (utf8 (intoTransfer serde provisioned).1) = .ok routes ∧
        ∀ rest, readTransfer serde (utf8 (intoTransfer serde provisioned).1 ++ 10 :: rest) =
          .ok routes) ∧
      (∀ p, p <+: (intoTransfer serde provisioned).1 → p ≠ (intoTransfer serde provisioned).1 →
        ∃ e, parseTransfer serde p = .error e) ∧
      ∀ input, input <+: utf8 (intoTransfer serde provisioned).1 →
        input ≠ utf8 (intoTransfer serde provisioned).1 →
        (∃ e, readTransfer serde input = .error e) ∧
        ∀ tr r, Runs (runProxyMode serde input) tr r → tr = [] ∧ ∃ e, r = .error e := by
  refine ⟨newline_notMem_intoTransfer hserde provisioned, ⟨_, rfl, ?_, ?_, ?_, ?_, fun rest => ?_⟩,
    fun p hp hpne => ?_, fun input hp hpne => ?_⟩
  · simp [intoTransfer, ProvisionedProxySecret.plan]
  · have := parseTransfer_line hserde hne hup (w := []) (by simp [Json.IsWs])
    rwa [List.append_nil] at this
  · exact parseTransfer_line hserde hne hup (by simp [Json.IsWs, Json.isWs])
  · exact readTransfer_line hserde hne hup (Or.inl rfl)
  · exact readTransfer_line hserde hne hup (Or.inr ⟨rest, rfl⟩)
  · rcases h : parseTransfer serde p with e | routes
    · exact ⟨e, rfl⟩
    · exact absurd h (parseTransfer_cut hserde hp hpne routes)
  · rcases h : readTransfer serde input with e | routes
    · refine ⟨⟨e, rfl⟩, fun tr r hr => ?_⟩
      have hfail : runProxyMode serde input = .fail e := by
        rw [runProxyMode, h]
        rfl
      rw [hfail] at hr
      obtain ⟨rfl, rfl⟩ := runs_fail_iff.mp hr
      exact ⟨rfl, e, rfl⟩
    · exact absurd h (readTransfer_cut hserde hp hpne routes)

end

/-- A provisioned secret whose fields need escaping. -/
def awkwardSecret : ProvisionedProxySecret where
  envName := "TOKEN".toList
  baseUrlEnv := "TOKEN_BASE_URL".toList
  headerName := "x-api-key".toList
  template := ['{', '}']
  upstream := "https://api.example".toList
  phantom := ⟨"iwaya-phantom-0".toList⟩
  rawValue := "raw\n\"\\".toList

theorem transfer_framing_awkward :
    '\n' ∉ (intoTransfer .reference [awkwardSecret]).1 ∧
      ∃ routes, parseTransfer .reference (intoTransfer .reference [awkwardSecret]).1 = .ok routes ∧
        routes.map ProxyRoute.rawValue = ["raw\n\"\\".toList] := by
  obtain ⟨hnl, ⟨routes, rfl, -, hline, -⟩, -⟩ := transfer_framing SerdeJson.reference_conforms
    (List.cons_ne_nil awkwardSecret []) (by decide)
  exact ⟨hnl, _, hline, rfl⟩

end Iwaya
