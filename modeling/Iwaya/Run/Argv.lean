import Iwaya.Foundation.Environment
import Iwaya.Config.Parse

/-!
# The runtime invocation

What iwaya builds is one fixed argv shape with configured strings in it, next to the
names of options. `Iwaya.decodeExec` is the reader on the other side, the exec grammar
of the container runtime: options first, each of three of them taking the next element
whatever it is, then the container, the command and its arguments. A configured string
can only be misread where the grammar still looks for options, which is exactly where
validation asks that it not begin with a dash.
-/

namespace Iwaya

open Text Environment

/-! ### Commands -/

/-- A process about to be started: its argv, and the variables set for it on top of
the environment it inherits. -/
structure Command where
  program : Str
  args : List Str
  env : List (Str × Str) := []

/-- A command with a NUL byte in it is refused before any process exists. -/
def Command.sawNul (command : Command) : Bool :=
  command.program.contains nul || command.args.any (·.contains nul) ||
    command.env.any fun e => e.1.contains nul || e.2.contains nul

/-- The environment of the started process. -/
def Command.environment (command : Command) (inherited : Str → Option Str) : Str → Option Str :=
  assign command.env inherited

/-! ### The argv -/

/-- The complete shape of what iwaya builds. A variable is only ever listed as a bare
`--env NAME`. -/
def buildArgv (context : DockerContext) (policy : CommandPolicy) (userArgs : List Str) : List Str :=
  [context.runtime, "exec".toList, "--interactive".toList, "--tty".toList] ++
    policy.secrets.flatMap (fun secret => ["--env".toList, secret.envName]) ++
    policy.proxySecrets.flatMap (fun proxySecret =>
      ["--env".toList, proxySecret.envName, "--env".toList, proxySecret.baseUrlEnv]) ++
    ["--user".toList, context.user, "--workdir".toList, context.workdir, context.containerName,
      policy.id] ++ userArgs

/-! ### The exec grammar -/

/-- The options of the exec grammar. -/
inductive ExecOption where
  | interactive
  | tty
  | env (operand : Str)
  | user (operand : Str)
  | workdir (operand : Str)
  deriving DecidableEq

/-- An exec invocation as the runtime understands it. -/
structure Exec where
  runtime : Str
  options : List ExecOption
  container : Str
  command : Str
  args : List Str
  deriving DecidableEq

/-- An option that takes the next element, whatever it is. -/
def takesOperand (s : Str) : Option (Str → ExecOption) :=
  if s = "--env".toList then some .env
  else if s = "--user".toList then some .user
  else if s = "--workdir".toList then some .workdir
  else none

/-- An option that stands alone. -/
def standsAlone (s : Str) : Option ExecOption :=
  if s = "--interactive".toList then some .interactive
  else if s = "--tty".toList then some .tty
  else none

/-- An option put before what was decoded. -/
def consOption (o : ExecOption) (decoded : List ExecOption × List Str) :
    List ExecOption × List Str :=
  (o :: decoded.1, decoded.2)

/-- The options at the front of a list of elements, and what follows them. An element
that begins with a dash and is none of the five options is an error. -/
def decodeOptions : List Str → Option (List ExecOption × List Str)
  | [] => some ([], [])
  | s :: rest =>
    match standsAlone s with
    | some o => (decodeOptions rest).map (consOption o)
    | none =>
      match takesOperand s with
      | some o =>
        -- the operand is taken verbatim, also when it looks like an option
        match rest with
        | operand :: rest => (decodeOptions rest).map (consOption (o operand))
        | [] => none
      | none => if s.head? = some '-' then none else some ([], s :: rest)

/-- **The runtime's reading of an argv.** -/
def decodeExec : List Str → Option Exec
  | runtime :: exec :: rest =>
    if exec = "exec".toList then
      match decodeOptions rest with
      | some (options, container :: command :: args) =>
        some { runtime, options, container, command, args }
      | _ => none
    else none
  | _ => none

/-- The operands of the `--env` options of an argv. -/
def envOperands (argv : List Str) : List Str :=
  ((decodeExec argv).elim [] Exec.options).filterMap fun
    | .env operand => some operand
    | _ => none

/-! ### Decoding what was built -/

theorem decodeOptions_standsAlone {s : Str} {o : ExecOption} (h : standsAlone s = some o)
    (rest : List Str) : decodeOptions (s :: rest) = (decodeOptions rest).map (consOption o) := by
  rw [decodeOptions.eq_def]
  simp only [h]

theorem decodeOptions_takesOperand {s : Str} {o : Str → ExecOption} (h1 : standsAlone s = none)
    (h2 : takesOperand s = some o) (operand : Str) (rest : List Str) :
    decodeOptions (s :: operand :: rest) = (decodeOptions rest).map (consOption (o operand)) := by
  rw [decodeOptions.eq_def]
  simp only [h1, h2]

/-- Decoding stops at an element that is no option. -/
theorem decodeOptions_operand {s : Str} (h : s.head? ≠ some '-') (rest : List Str) :
    decodeOptions (s :: rest) = some ([], s :: rest) := by
  have hne : ∀ option : Str, option.head? = some '-' → s ≠ option := by
    rintro _ ho rfl
    exact h ho
  have h1 : standsAlone s = none := by
    rw [standsAlone, if_neg (hne _ rfl), if_neg (hne _ rfl)]
  have h2 : takesOperand s = none := by
    rw [takesOperand, if_neg (hne _ rfl), if_neg (hne _ rfl), if_neg (hne _ rfl)]
  rw [decodeOptions.eq_def]
  simp only [h1, h2, h, if_false]

/-- `--env` options are decoded one operand each. -/
theorem decodeOptions_env (names rest : List Str) :
    decodeOptions (names.flatMap (fun name => ["--env".toList, name]) ++ rest) =
      (decodeOptions rest).map fun d => (names.map ExecOption.env ++ d.1, d.2) := by
  induction names with
  | nil => simp
  | cons name names ih =>
    simp only [List.flatMap_cons, List.cons_append, List.nil_append]
    rw [decodeOptions_takesOperand (o := ExecOption.env) (by decide) rfl, ih, Option.map_map]
    rfl

/-- The two loops over a policy list all its variables. -/
theorem env_elements (policy : CommandPolicy) :
    policy.secrets.flatMap (fun secret => ["--env".toList, secret.envName]) ++
        policy.proxySecrets.flatMap (fun proxySecret =>
          ["--env".toList, proxySecret.envName, "--env".toList, proxySecret.baseUrlEnv]) =
      policy.envNames.flatMap fun name => ["--env".toList, name] := by
  simp [CommandPolicy.envNames, List.flatMap_append, List.flatMap_map, List.flatMap_assoc]

/-- **What is built is what is decoded**, as soon as the container name is no option. -/
theorem decodeExec_buildArgv {context : DockerContext} (hc : context.containerName.head? ≠ some '-')
    (policy : CommandPolicy) (userArgs : List Str) :
    decodeExec (buildArgv context policy userArgs) = some
      { runtime := context.runtime
        options := [.interactive, .tty] ++ policy.envNames.map .env ++
          [.user context.user, .workdir context.workdir]
        container := context.containerName
        command := policy.id
        args := userArgs } := by
  have htail : decodeOptions (["--user".toList, context.user, "--workdir".toList, context.workdir,
      context.containerName, policy.id] ++ userArgs) =
      some ([.user context.user, .workdir context.workdir],
        context.containerName :: policy.id :: userArgs) := by
    simp only [List.cons_append, List.nil_append]
    rw [decodeOptions_takesOperand (o := ExecOption.user) (by decide) rfl,
      decodeOptions_takesOperand (o := ExecOption.workdir) (by decide) rfl,
      decodeOptions_operand hc]
    rfl
  have hopts : ∀ rest, decodeOptions ("--interactive".toList :: "--tty".toList :: rest) =
      (decodeOptions rest).map fun d => (.interactive :: .tty :: d.1, d.2) := by
    intro rest
    rw [decodeOptions_standsAlone (o := .interactive) rfl,
      decodeOptions_standsAlone (o := .tty) rfl, Option.map_map]
    rfl
  have hargv : buildArgv context policy userArgs = context.runtime :: "exec".toList ::
      "--interactive".toList :: "--tty".toList ::
        (policy.envNames.flatMap (fun name => ["--env".toList, name]) ++
          (["--user".toList, context.user, "--workdir".toList, context.workdir,
            context.containerName, policy.id] ++ userArgs)) := by
    simp only [buildArgv, ← env_elements, List.append_assoc, List.cons_append, List.nil_append]
  -- two options alone, one `--env` per name, and then the two with configured operands
  rw [hargv, decodeExec, if_pos rfl, hopts, decodeOptions_env, htail]
  simp

/-- The variables listed are the ones the policy declares, in their order. -/
theorem envOperands_buildArgv {context : DockerContext}
    (hc : context.containerName.head? ≠ some '-') (policy : CommandPolicy) (userArgs : List Str) :
    envOperands (buildArgv context policy userArgs) = policy.envNames := by
  have hmap : ∀ names : List Str, (names.map ExecOption.env).filterMap (fun
      | .env operand => some operand
      | _ => none) = names := by
    intro names
    induction names with
    | nil => rfl
    | cons name names ih => simp [ih]
  rw [envOperands, decodeExec_buildArgv hc]
  simp [hmap]

/-- **The argv means what the configuration says.** For every accepted configuration,
every context and policy in it and any user arguments, the runtime reads back the
runtime, the user, the working directory, the container, the command and the arguments
as they were given, the variables the policy declares and no other option; and no
variable is listed with a value. -/
theorem buildArgv_decodes {kdlParse : Str → Except Str (List Kdl.Node)} {text : Str}
    {config : Config} (hparse : parse kdlParse text = .ok config) {context : DockerContext}
    (hcontext : context ∈ config.contexts) {policy : CommandPolicy}
    (hpolicy : policy ∈ config.policies) (userArgs : List Str) :
    decodeExec (buildArgv context policy userArgs) = some
        { runtime := context.runtime
          options := [.interactive, .tty] ++
            (policy.secrets.map SecretSpec.envName ++
              policy.proxySecrets.flatMap fun p => [p.envName, p.baseUrlEnv]).map .env ++
            [.user context.user, .workdir context.workdir]
          container := context.containerName
          command := policy.id
          args := userArgs } ∧
      ∀ operand ∈ envOperands (buildArgv context policy userArgs), '=' ∉ operand := by
  have hvalid := valid_of_parse hparse
  have hc := (hvalid.context context hcontext).container.not_dash
  refine ⟨decodeExec_buildArgv hc policy userArgs, fun operand hm => ?_⟩
  rw [envOperands_buildArgv hc] at hm
  exact ((hvalid.policy policy hpolicy).envName operand hm).eq_notMem

theorem buildArgv_decodes_sample :
    (decodeExec (buildArgv sampleContext samplePolicy
        ["--".toList, "--env".toList, [], "-x".toList])).map
          (fun e => (e.container, e.command, e.args)) =
      some ("app".toList, "claude".toList, ["--".toList, "--env".toList, [], "-x".toList]) := by
  rw [(buildArgv_decodes parse_sample (List.mem_singleton.mpr rfl)
    (List.mem_singleton.mpr rfl) _).1]
  rfl

end Iwaya
