import Iwaya.Foundation.Coupling
import Iwaya.Execute.Attribution

/-!
# What is read and goes nowhere

An invocation comes by more than it delivers: the access token of every provider, and the
values of all the secrets of a project, of which a policy declares a few. Two runs are
compared that are answered alike except for these (`Iwaya.AnsweredAlike`): other tokens,
and listings that agree on the declared names only. They make the same calls with the same
arguments, the environment of a `bws` command apart, and end in the same way
(`Iwaya.surplus_confined`): no argument, no diagnostic, no variable of the target and no
line for the proxy tells the ones from the others.

A listing that cannot be read is reported with the value that was no text, whether or not its
name is declared; so two listings are alike if both are read, or fail with the same error.
-/

namespace Iwaya

open Text Effects

/-! ### Answers alike -/

/-- The text taken for the access token. -/
def tokenIn (stdout : List UInt8) : Option Str :=
  (fromUtf8 stdout).map stripOneTrailingLineEnding

/-- Two access tokens, or two texts of which neither is one; with a NUL byte or without. -/
def TokenAlike (token token' : Str) : Prop :=
  (token = [] ↔ token' = []) ∧ (nul ∈ token ↔ nul ∈ token')

/-- Some secret of this name is declared. -/
def Declares (policy : CommandPolicy) (name : SecretName) : Prop :=
  ∃ d ∈ declared policy, d.2 = name

instance (policy : CommandPolicy) : DecidablePred (Declares policy) :=
  fun _ => inferInstanceAs (Decidable (∃ d ∈ declared policy, _))

/-- Two listings with the same declared secrets. -/
def ListedAlike (policy : CommandPolicy) (secrets secrets' : List BwsSecret) : Prop :=
  secrets.filter (Declares policy ·.key) = secrets'.filter (Declares policy ·.key)

/-- Two outcomes of a process that differ in what it wrote on its standard output: in any way
if it failed, and as `read` says if it did not. -/
inductive OutcomeAlike (read : List UInt8 → List UInt8 → Prop) :
    Except IoError Output → Except IoError Output → Prop
  /-- It did not start. -/
  | error (e : IoError) : OutcomeAlike read (.error e) (.error e)
  /-- It ran. -/
  | ok {stdout stdout' : List UInt8} (status : ExitStatus) (stderr : Str)
    (h : status.success = true → read stdout stdout') :
    OutcomeAlike read (.ok ⟨status, stdout, stderr⟩) (.ok ⟨status, stdout', stderr⟩)

theorem outcomeAlike_self (outcome : Except IoError Output) : OutcomeAlike Eq outcome outcome := by
  rcases outcome with e | ⟨status, stdout, stderr⟩
  · exact .error e
  · exact .ok status stderr fun _ => rfl

/-- **Answered alike**: equally, but for the tokens and for the secrets that are not declared
in listings that are both read; listings that are not fail with the same error. -/
def AnsweredAlike (world : World) (policy : CommandPolicy) : (k : Call) → k.Ans → k.Ans → Prop
  | .acquire, ans, ans' =>
    OutcomeAlike (fun stdout stdout' => Option.Rel TokenAlike (tokenIn stdout) (tokenIn stdout'))
      ans ans'
  | .secretList, ans, ans' =>
    OutcomeAlike (fun stdout stdout' => ResultRel (ListedAlike policy)
      (world.bwsJson.secrets stdout) (world.bwsJson.secrets stdout')) ans ans'
  | _, ans, ans' => ans = ans'

/-- **The same arguments**, but for the token that a `bws` command is given. -/
def SameButToken : (k : Call) → k.Arg → k.Arg → Prop
  | .projectList, x, y =>
    ∃ token token' args, x = bwsCommand token args ∧ y = bwsCommand token' args
  | .secretList, x, y =>
    ∃ token token' args, x = bwsCommand token args ∧ y = bwsCommand token' args
  | _, x, y => x = y

section

variable {world : World} {policy : CommandPolicy}

/-- What is no request is not touched. -/
theorem quiet_self {ε α : Type} {l : List Stage} {p : Step ε α} (hp : Emits (InStages l) p)
    (hl : .request ∉ l) : Coupled SameButToken (AnsweredAlike world policy) Eq p p := by
  refine coupled_self sampleAnswers (fun e he => ?_) hp
  have hstage : e.kind.stage ≠ .request := fun h => hl (h ▸ he)
  obtain ⟨k, x, ans⟩ := e
  cases k <;> first | exact absurd rfl hstage | exact ⟨rfl, fun _ h => h⟩

/-! ### Resolution -/

/-- The two tokens are read alike. -/
theorem tokenOf_alike (provider : BwsProvider) {status : ExitStatus} {stderr : Str}
    {stdout stdout' : List UInt8}
    (h : status.success = true → Option.Rel TokenAlike (tokenIn stdout) (tokenIn stdout')) :
    ResultRel TokenAlike (tokenOf provider ⟨status, stdout, stderr⟩)
      (tokenOf provider ⟨status, stdout', stderr⟩) := by
  rcases hs : status.success with _ | _
  · have hfail : ∀ stdout, tokenOf provider ⟨status, stdout, stderr⟩ = .error
        (.acquisitionFailed provider.id provider.accessToken.program status.display) := fun _ => by
      rw [tokenOf, Checks.refuse, if_pos hs]
      rfl
    rw [hfail, hfail]
    exact .error _
  have hread : ∀ stdout, tokenOf provider ⟨status, stdout, stderr⟩ = (tokenIn stdout).elim
      (.error (.acquisitionFailed provider.id provider.accessToken.program
        "stdout is not valid UTF-8".toList))
      (fun token => (Checks.refuse (token = [])
        (.acquisitionEmpty provider.id provider.accessToken.program)).bind fun _ =>
          .ok token) := fun stdout => by
    rw [tokenOf, Checks.refuse, if_neg (by simp [hs]), tokenIn]
    rcases fromUtf8 stdout with _ | text <;> rfl
  have halike := h hs
  rw [hread, hread]
  generalize tokenIn stdout = s, tokenIn stdout' = s' at halike
  rcases halike with ⟨hempty, hnul⟩ | _
  · simp only [Option.elim, Checks.refuse, hempty]
    split
    · exact .error _
    · exact .ok ⟨hempty, hnul⟩
  · exact .error _

/-- A `bws` command is refused alike whatever its token is. -/
theorem sawNul_bwsCommand {token token' : Str} (h : TokenAlike token token') (args : List Str) :
    (bwsCommand token args).sawNul = (bwsCommand token' args).sawNul := by
  have hnul : token.contains nul = token'.contains nul := by
    rw [Bool.eq_iff_iff, List.contains_iff_mem, List.contains_iff_mem]
    exact h.2
  simp only [bwsCommand, Command.sawNul, List.any_cons, List.any_nil, hnul]

/-- The two outputs of a `bws` command are read alike. -/
theorem bwsOutput_alike {α : Type} {Q : List α → List α → Prop}
    {fromSlice : List UInt8 → Except SerdeError (List α)} (provider : BwsProvider) (action : Str)
    {status : ExitStatus} {stderr : Str} {stdout stdout' : List UInt8}
    (h : status.success = true → ResultRel Q (fromSlice stdout) (fromSlice stdout')) :
    ResultRel Q (bwsOutput fromSlice provider action ⟨status, stdout, stderr⟩)
      (bwsOutput fromSlice provider action ⟨status, stdout', stderr⟩) := by
  rcases hs : status.success with _ | _
  · simp only [bwsOutput, Checks.refuse, hs]
    exact .error _
  · have hread := h hs
    simp only [bwsOutput, Checks.refuse, hs, Bool.true_eq_false, if_false]
    generalize fromSlice stdout = s, fromSlice stdout' = s' at hread
    rcases hread with hQ | e
    · exact .ok hQ
    · exact .error _

/-- One `bws` command, with another token and another answer. -/
theorem coupled_bwsJson {α : Type} {Q : List α → List α → Prop}
    {start : Command → Step ResolveError (Except IoError Output)}
    {S : List UInt8 → List UInt8 → Prop}
    (hstart : ∀ token token' args, Coupled SameButToken (AnsweredAlike world policy)
      (OutcomeAlike S) (start (bwsCommand token args)) (start (bwsCommand token' args)))
    {fromSlice : List UInt8 → Except SerdeError (List α)}
    (hread : ∀ stdout stdout', S stdout stdout' →
      ResultRel Q (fromSlice stdout) (fromSlice stdout'))
    (provider : BwsProvider) {token token' : Str} (h : TokenAlike token token') (args : List Str)
    (action : Str) : Coupled SameButToken (AnsweredAlike world policy) Q
      (bwsJson start fromSlice provider token args action)
      (bwsJson start fromSlice provider token' args action) := by
  refine Coupled.bind (Q := OutcomeAlike S) ?_ fun output output' hout => ?_
  · unfold spawning
    rw [sawNul_bwsCommand h]
    split
    · exact .done (.error _)
    · exact hstart token token' args
  · rcases hout with e | ⟨status, stderr, h⟩
    · exact .fail _
    · exact coupled_ofExcept (bwsOutput_alike provider action fun hs => hread _ _ (h hs))

/-- What was not asked for leaves no trace. -/
theorem keepRequested_alike {names : List SecretName}
    (hnames : ∀ name ∈ names, Declares policy name)
    {secrets secrets' : List BwsSecret} (h : ListedAlike policy secrets secrets') :
    keepRequested names secrets = keepRequested names secrets' := by
  have hfilter : ∀ l : List BwsSecret, (l.filter fun s => names.any (· == s.key)) =
      (l.filter (Declares policy ·.key)).filter fun s => names.any (· == s.key) := fun l => by
    rw [List.filter_filter]
    refine List.filter_congr fun s _ => ?_
    rw [Bool.eq_iff_iff, Bool.and_eq_true, iff_self_and]
    intro hs
    obtain ⟨name, hname, heq⟩ := List.any_eq_true.mp hs
    exact decide_eq_true (eq_of_beq heq ▸ hnames name hname)
  rw [keepRequested, keepRequested, hfilter secrets, hfilter secrets', h]

theorem coupled_acquireAccessToken (provider : BwsProvider) :
    Coupled SameButToken (AnsweredAlike world policy) TokenAlike (acquireAccessToken provider)
      (acquireAccessToken provider) := by
  refine Coupled.bind (Q := AnsweredAlike world policy .acquire) ?_ fun output output' hout => ?_
  · unfold spawning
    split
    · exact .done (.error _)
    · exact Coupled.perform rfl
  · rcases hout with e | ⟨status, stderr, h⟩
    · exact .fail _
    · exact coupled_ofExcept (tokenOf_alike provider h)

theorem coupled_resolve (provider : BwsProvider) {names : List SecretName}
    (hnames : ∀ name ∈ names, Declares policy name) :
    Coupled SameButToken (AnsweredAlike world policy) Eq (resolve world.bwsJson provider names)
      (resolve world.bwsJson provider names) := by
  refine (coupled_acquireAccessToken provider).bind fun token token' htoken => ?_
  refine Coupled.bind (Q := Eq) ?_ ?_
  · refine (coupled_bwsJson (S := Eq) (Q := Eq) (fun token token' args => ?_) ?_ provider
      htoken _ _)
    · refine (Coupled.perform (k := Call.projectList) ⟨token, token', args, rfl, rfl⟩).mono ?_
      rintro ans _ rfl
      exact outcomeAlike_self ans
    · rintro stdout _ rfl
      exact ResultRel.refl _
  rintro projects _ rfl
  refine (coupled_ofExcept (ResultRel.refl _)).bind ?_
  rintro project _ rfl
  refine Coupled.bind (Q := ListedAlike policy) ?_ fun secrets secrets' hlisted => ?_
  · exact coupled_bwsJson (fun token token' args =>
      Coupled.perform (k := Call.secretList) ⟨token, token', args, rfl, rfl⟩) (fun _ _ h => h)
      provider htoken _ _
  · rw [keepRequested_alike hnames hlisted]
    exact (coupled_ofExcept (ResultRel.refl _)).bind fun _ _ _ => .done rfl

theorem coupled_resolveDeclared (configuration : Config) :
    Coupled SameButToken (AnsweredAlike world policy) Eq
      (resolveDeclared world configuration policy)
      (resolveDeclared world configuration policy) := by
  refine (coupled_traverse fun group hgroup => ?_).bind ?_
  · have hnames : ∀ name ∈ group.2, Declares policy name := fun name hname => by
      rw [(eq_of_mem_grouping (declared policy) hgroup).2] at hname
      obtain ⟨d, hd, rfl⟩ := List.mem_map.mp hname
      exact ⟨d, (List.mem_filter.mp hd).1, rfl⟩
    unfold resolveProvider
    split
    · exact .fail _
    · refine ((coupled_resolve _ hnames).mapError _).bind ?_
      rintro values _ rfl
      exact .done rfl
  · rintro values _ rfl
    exact .done rfl

end

/-! ### An invocation -/

/-- **The access tokens and the secrets that are not declared go nowhere.** Let two runs of an
invocation be answered alike but for the tokens their providers' commands write, and for what
the listings hold under names the policy does not declare, where of two listings both are read
or both fail with the same error. They make the same calls in the same order with the same
arguments, only that each `bws` command is given the token of its own run; they are answered
alike; and they end in the same way, with the same diagnostic if it is one. -/
theorem surplus_confined {world : World} {invocation : Invocation} {configuration : Config}
    {context : DockerContext} {policy : CommandPolicy}
    (hs : select world invocation = .ok (configuration, context, policy)) {env env' : Env Call.Ans}
    (henv : ∀ n k, AnsweredAlike world policy k (env n k) (env' n k)) :
    List.Forall₂ (EventCoupled SameButToken (AnsweredAlike world policy))
        (exec env 0 (execute world invocation)).1 (exec env' 0 (execute world invocation)).1 ∧
      (exec env 0 (execute world invocation)).2 = (exec env' 0 (execute world invocation)).2 := by
  have hcoupled : Coupled SameButToken (AnsweredAlike world policy) Eq (execute world invocation)
      (execute world invocation) := by
    rw [execute_eq hs]
    refine (coupled_resolveDeclared configuration).bind ?_
    rintro resolved _ rfl
    exact quiet_self (emits_deliverAll context _ resolved) (by decide)
  obtain ⟨h1, h2⟩ := hcoupled.exec (i := 0) (j := 0) (by simpa using henv)
  exact ⟨h1, h2.eq⟩

/-- A listing with one secret more. -/
def surplusSecrets : List UInt8 :=
  utf8 "[\x7b\"key\":\"DEPLOY\",\"value\":\"raw-deploy\"\x7d]".toList

/-- The sample world, in which that listing is read too. -/
def surplusWorld : World :=
  { sampleWorld with
    bwsJson :=
      { sampleWorld.bwsJson with
        secrets := fun stdout =>
          if stdout = surplusSecrets then
            .ok [{ key := "GH".toList, value := "raw-gh".toList },
              { key := "DEPLOY".toList, value := "raw-deploy".toList },
              { key := "API".toList, value := "raw-api".toList }]
          else sampleWorld.bwsJson.secrets stdout } }

/-- The sample answers, but for another token and the longer listing. -/
def surplusAnswers : Env Call.Ans
  | _, .acquire => .ok { status := exitSuccess, stdout := utf8 "other".toList, stderr := [] }
  | _, .secretList => .ok { status := exitSuccess, stdout := surplusSecrets, stderr := [] }
  | n, k => sampleAnswers n k

theorem select_surplus :
    select surplusWorld sampleInvocation = .ok (sampleConfig, sampleContext, samplePolicy) :=
  select_sample

theorem surplus_confined_sample :
    List.Forall₂ (EventCoupled SameButToken (AnsweredAlike surplusWorld samplePolicy))
        (exec sampleAnswers 0 (execute surplusWorld sampleInvocation)).1
        (exec surplusAnswers 0 (execute surplusWorld sampleInvocation)).1 ∧
      (exec sampleAnswers 0 (execute surplusWorld sampleInvocation)).2 =
        (exec surplusAnswers 0 (execute surplusWorld sampleInvocation)).2 := by
  have hread : ∀ s : Str, tokenIn (utf8 s) = some (stripOneTrailingLineEnding s) := fun s => by
    rw [tokenIn, fromUtf8_utf8, Option.map_some]
  have halike : ∀ n k,
      AnsweredAlike surplusWorld samplePolicy k (sampleAnswers n k) (surplusAnswers n k) := by
    intro n k
    cases k with
    | acquire =>
      refine .ok exitSuccess [] fun _ => ?_
      rw [hread, hread]
      refine .some ⟨?_, ?_⟩ <;> decide
    | secretList =>
      refine .ok exitSuccess [] fun _ => ?_
      have hshort : surplusWorld.bwsJson.secrets (sampleSecrets "raw-api".toList) =
          .ok [{ key := "GH".toList, value := "raw-gh".toList },
            { key := "API".toList, value := "raw-api".toList }] := rfl
      have hlong : surplusWorld.bwsJson.secrets surplusSecrets =
          .ok [{ key := "GH".toList, value := "raw-gh".toList },
            { key := "DEPLOY".toList, value := "raw-deploy".toList },
            { key := "API".toList, value := "raw-api".toList }] := rfl
      rw [hshort, hlong]
      exact .ok rfl
    | _ => rfl
  exact surplus_confined select_surplus halike

end Iwaya
