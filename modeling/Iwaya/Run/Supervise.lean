import Iwaya.Run.Calls

/-!
# Running the target

Two ways to run the runtime client that runs the target. A policy without proxy-backed
secrets replaces the process by it; a policy with one keeps iwaya alive beside it,
relays the forwarded signals to it, waits for it, and passes its exit code on. Both
build the same argv and set the resolved values the same way.
-/

namespace Iwaya

open Text Effects

structure ExecError where
  runtime : Str
  source : IoError

def ExecError.display (e : ExecError) : Str :=
  "cannot start runtime '".toList ++ e.runtime ++ "': ".toList ++ e.source

/-- How an invocation that did not fail is over: with the exit code of the target, or
because the target took the place of the process. -/
inductive Exit where
  | code (c : UInt8)
  | replaced
  deriving DecidableEq

/-- The invocation before any variable is set. -/
def runtimeCommand (context : DockerContext) (policy : CommandPolicy) (userArgs : List Str) :
    Command where
  program := (buildArgv context policy userArgs).headI
  args := (buildArgv context policy userArgs).tail

/-- Every resolved value set on the command. -/
def applyInjectedEnvironment (command : Command) (environment : List (EnvName × Str)) : Command :=
  { command with env := command.env ++ environment }

/-- Every phantom and every loopback address set on the command. -/
def applyProxyEnvironment (command : Command) (environment : List (EnvName × Str)) : Command :=
  { command with env := command.env ++ environment }

/-- **Replacing the process** by the runtime client. -/
def execRuntime (context : DockerContext) (policy : CommandPolicy)
    (environment : List (EnvName × Str)) (userArgs : List Str) : Step ExecError Exit := do
  let command := applyInjectedEnvironment (runtimeCommand context policy userArgs) environment
  giveUpIf command.sawNul { runtime := context.runtime, source := nulError }
  match ← call .targetExec command with
  | some source => .fail { runtime := context.runtime, source }
  | none => return .replaced

/-- A normal exit yields its own code, a killed child 128 and the signal. -/
def exitCodeOf (status : ExitStatus) : UInt8 :=
  match status.code with
  | some code => UInt8.ofNat (code % 256).toNat
  | none => 128 + UInt8.ofNat (status.signal.getD 0 % 256).toNat

/-- Waiting for the target, and giving its exit code. A target that cannot be waited for
is killed and reaped. -/
def waitForTarget (runtime : Str) : Step ExecError UInt8 := do
  let result ← call .targetWait ()
  call .relayClose ()
  match result with
  | .ok status => return exitCodeOf status
  | .error source =>
    -- the child may still be running, and dropping it would not stop it
    call .targetKill ()
    call .targetReap ()
    .fail { runtime, source }

/-- **Supervision**: the handlers are registered before the child exists. The thread of the
relay is taken to be created: where the system makes none, `thread::spawn` panics with the
target running, which is then neither killed nor waited for. -/
def supervise (command : Command) (runtime : Str) : Step ExecError UInt8 := do
  -- a signal during the spawn is queued, where the default action would orphan the child
  let registered ← call .signalsRegister ()
  attempt (fun source => { runtime, source }) registered
  let spawned ← spawning command (call .targetSpawn command)
  match spawned with
  | .error source =>
    call .relayClose ()
    .fail { runtime, source }
  | .ok () => waitForTarget runtime

/-- Running the runtime client as a child. -/
def superviseRuntime (context : DockerContext) (policy : CommandPolicy)
    (environment proxyEnvironment : List (EnvName × Str)) (userArgs : List Str) :
    Step ExecError UInt8 :=
  supervise (applyProxyEnvironment
    (applyInjectedEnvironment (runtimeCommand context policy userArgs) environment)
    proxyEnvironment) context.runtime

end Iwaya
