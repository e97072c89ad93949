import Iwaya.Foundation.Prog
import Iwaya.Run.Argv

/-!
# What iwaya does to the outside

One kind of call for every step of an invocation that leaves the process: the
processes it starts and waits for, the entropy it draws, what it writes to and reads
from the sidecar, the files of the image build, the signal handlers. A kind fixes what
is handed over and what can come back, so a run of the supervisor is any list of such
calls with any answers.
-/

namespace Iwaya

open Text Effects

/-- The rendering of an error of the operating system. -/
abbrev IoError := Str

/-- How a process ended: with an exit code, or by a signal. -/
structure ExitStatus where
  code : Option ℤ
  signal : Option ℤ
  display : Str

def ExitStatus.success (status : ExitStatus) : Bool := status.code == some 0

/-- What a process whose output is captured left behind. -/
structure Output where
  status : ExitStatus
  stdout : List UInt8
  stderr : Str

/-- Why no image could be prepared. -/
inductive ProxyImageError where
  | exe (source : IoError)
  | maps (source : IoError)
  | unsupportedExecutable
  | material (path : Str) (source : IoError)
  | tempDir (source : Option IoError)
  | context (source : IoError)
  | runtimeStart (runtime : Str) (source : IoError)
  | buildFailed (status stderr : Str)

/-- **The kinds of calls.** -/
inductive Call where
  /-- The access-token command, to its end. -/
  | acquire
  /-- `bws project list`, to its end. -/
  | projectList
  /-- `bws secret list`, to its end. -/
  | secretList
  /-- `n` bytes of entropy. -/
  | entropy (n : ℕ)
  /-- Collecting and opening the files of the image. -/
  | material
  /-- Hashing them. -/
  | materialDigest
  /-- `image inspect`, to its end. -/
  | imageInspect
  /-- Creating the directory of the build context. -/
  | contextCreate
  /-- Writing the build context. -/
  | contextWrite
  /-- `build`, to its end. -/
  | imageBuild
  /-- Removing the directory of the build context. -/
  | contextRemove
  /-- Starting the client of the sidecar container. -/
  | sidecarRun
  /-- Writing the transfer to its standard input. -/
  | transferWrite
  /-- Writing the newline after it. -/
  | newlineWrite
  /-- Closing its standard input. -/
  | stdinClose
  /-- Reading what it reports on its standard output. -/
  | readinessRead
  /-- `rm --force`, to its end. -/
  | sidecarRemove
  /-- Reaping the client. -/
  | sidecarWait
  /-- Registering the handlers of the forwarded signals. -/
  | signalsRegister
  /-- Starting the target as a child. -/
  | targetSpawn
  /-- Waiting for the target. -/
  | targetWait
  /-- Closing the signal iterator, and joining the relay if there is one. -/
  | relayClose
  /-- Killing the target. -/
  | targetKill
  /-- Reaping the killed target. -/
  | targetReap
  /-- Replacing the process by the target. -/
  | targetExec
  deriving DecidableEq

/-- What is handed over. -/
@[reducible] def Call.Arg : Call → Type
  | acquire | projectList | secretList | imageInspect | imageBuild => Command
  | sidecarRun | sidecarRemove | targetSpawn | targetExec => Command
  | contextCreate | contextWrite | contextRemove => Str
  | transferWrite => Str
  | _ => Unit

/-- What can come back. A replacement that succeeded has no error. -/
@[reducible] def Call.Ans : Call → Type
  | acquire | projectList | secretList | imageBuild => Except IoError Output
  | entropy n => Except IoError (Vector UInt8 n)
  | material => Except ProxyImageError Unit
  | materialDigest => Except ProxyImageError (Vector UInt8 32)
  | imageInspect | targetWait => Except IoError ExitStatus
  | contextCreate | contextWrite | sidecarRun | transferWrite | newlineWrite => Except IoError Unit
  | readinessRead => Except IoError (List UInt8)
  | signalsRegister | targetSpawn => Except IoError Unit
  | targetExec => Option IoError
  | _ => Unit

/-- A piece of the supervisor. -/
abbrev Step (ε α : Type) : Type := Prog Call.Arg Call.Ans ε α

/-- One call with its answer. -/
abbrev Effect : Type := Event Call.Arg Call.Ans

/-- The error of starting a command with a NUL byte in it. -/
def nulError : IoError := "nul byte found in provided data".toList

section

variable {ε α : Type}

/-- One call. -/
abbrev call (k : Call) (x : k.Arg) : Step ε k.Ans := Prog.perform k x

/-- Starting a process: a command with a NUL byte in it fails before any call. -/
def spawning (command : Command) (start : Step ε (Except IoError α)) : Step ε (Except IoError α) :=
  if command.sawNul then .done (.error nulError) else start

/-- The answer of a call, its error rendered by `error`. -/
def attempt {ι : Type} (error : ι → ε) (answer : Except ι α) : Step ε α :=
  Prog.ofExcept (answer.mapError error)

/-- Give up if a condition holds. -/
def giveUpIf (c : Prop) [Decidable c] (e : ε) : Step ε Unit := Prog.ofExcept (Checks.refuse c e)

/-! ### Their runs -/

variable {tr : List Effect}

@[simp] theorem runs_attempt_iff {ι : Type} {error : ι → ε} {answer : Except ι α} {r : Except ε α} :
    Runs (attempt error answer) tr r ↔ tr = [] ∧ r = answer.mapError error :=
  runs_ofExcept_iff

@[simp] theorem runs_giveUpIf_iff {c : Prop} [Decidable c] {e : ε} {r : Except ε Unit} :
    Runs (giveUpIf c e) tr r ↔ tr = [] ∧ r = Checks.refuse c e :=
  runs_ofExcept_iff

/-- A started command and what comes after it. -/
theorem runs_spawning_bind_iff {β : Type} {command : Command}
    {start : Step ε (Except IoError α)} {f : Except IoError α → Step ε β} {r : Except ε β} :
    Runs ((spawning command start).bind f) tr r ↔
      (command.sawNul = true ∧ Runs (f (.error nulError)) tr r) ∨
        (command.sawNul = false ∧ Runs (start.bind f) tr r) := by
  cases h : command.sawNul <;> simp [spawning, h]

/-- An answer that is gone on from, and what comes after it. -/
theorem runs_attempt_bind_iff {ι β : Type} {error : ι → ε} {answer : Except ι α} {f : α → Step ε β}
    {r : Except ε β} :
    Runs ((attempt error answer).bind f) tr r ↔
      (∃ e, answer = .error e ∧ tr = [] ∧ r = .error (error e)) ∨
        ∃ a, answer = .ok a ∧ Runs (f a) tr r := by
  cases answer <;> simp [attempt, Prog.ofExcept, Except.mapError]

theorem emits_attempt (C : Effect → Prop) {ι : Type} (error : ι → ε) (answer : Except ι α) :
    Emits C (attempt error answer) :=
  emits_ofExcept C _

theorem emits_giveUpIf (C : Effect → Prop) (c : Prop) [Decidable c] (e : ε) :
    Emits C (giveUpIf c e) :=
  emits_ofExcept C _

theorem emits_spawning {C : Effect → Prop} (command : Command)
    {start : Step ε (Except IoError α)} (h : Emits C start) :
    Emits C (spawning command start) := by
  unfold spawning
  split
  · exact emits_done C _
  · exact h

end

end Iwaya
