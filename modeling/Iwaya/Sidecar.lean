import Iwaya.Transfer
import Iwaya.Run.Calls

/-!
# The proxy sidecar

The client of the sidecar container is started, the transfer is written to it, its
standard input is closed, and one bounded line is read back. From the moment the client
exists the container is removed on every way out: `Iwaya.startSidecar` removes it on the
failing ones, and hands it over on the one that succeeds.
-/

namespace Iwaya

open Text Effects

/-- A failure to bring the sidecar up. None carries a byte of the transfer or of the
readiness line. -/
inductive SidecarError where
  | name
  | transferNotSingleLine
  | start (runtime : Str) (source : IoError)
  | transfer (source : IoError)
  | exitedBeforeReady
  | readiness (source : IoError)
  | unusableReadiness

def SidecarError.display : SidecarError → Str
  | .name => "cannot name the proxy sidecar: no usable OS entropy source".toList
  | .transferNotSingleLine => "the proxy transfer document is not a single line".toList
  | .start runtime source => "cannot start runtime '".toList ++ runtime ++ "': ".toList ++ source
  | .transfer source => "cannot deliver the proxy transfer: ".toList ++ source
  | .exitedBeforeReady => "the proxy sidecar exited before reporting readiness".toList
  | .readiness source => "cannot read the proxy sidecar readiness: ".toList ++ source
  | .unusableReadiness => "the proxy sidecar reported unusable readiness".toList

/-- A running sidecar. -/
structure Sidecar where
  runtime : Str
  containerName : Str
  port : UInt16

/-- How many bytes of readiness are read at most. -/
def readinessLimit : ℕ := 256

/-- A name no concurrent invocation shares. -/
def ephemeralName : Step SidecarError Str := do
  let random ← call (.entropy 8) ()
  let random ← attempt (fun _ => SidecarError.name) random
  return "iwaya-proxy-".toList ++ hex random.toList

/-- The sidecar joins the network namespace of the target container, so nothing is
published on the host. -/
def sidecarCommand (runtime image targetContainer containerName : Str) : Command where
  program := runtime
  args := ["run".toList, "--rm".toList, "--interactive".toList, "--network".toList,
    "container:".toList ++ targetContainer, "--name".toList, containerName, image]

def removeCommand (runtime containerName : Str) : Command where
  program := runtime
  args := ["rm".toList, "--force".toList, containerName]

/-- **Removal** of the container, and then of its client. Its outcome is ignored. -/
def teardown (runtime containerName : Str) : Step Empty Unit := do
  call .sidecarRemove (removeCommand runtime containerName)
  call .sidecarWait ()

/-- The transfer and a newline, and then the end of the stream. -/
def deliver (transfer : Str) : Step SidecarError (Except IoError Unit) := do
  let written ← call .transferWrite transfer
  match written with
  | .error e =>
    call .stdinClose ()
    return .error e
  | .ok () =>
    let ended ← call .newlineWrite ()
    call .stdinClose ()
    return ended

/-- The port in what the sidecar reported: the first line of at most `readinessLimit`
bytes, read by `readiness`. -/
def portOf (readiness : Str → Option UInt16) (read : Except IoError (List UInt8)) :
    Except SidecarError UInt16 := do
  let bytes ← read.mapError SidecarError.readiness
  -- a flood without a newline ends at the limit, and is then no readiness line
  let line := lineOf 10 (bytes.take readinessLimit)
  match fromUtf8 line with
  | none => .error (.readiness "stream did not contain valid UTF-8".toList)
  | some text =>
    Checks.refuse (line = []) .exitedBeforeReady
    match readiness (trimEnd text) with
    | some port => .ok port
    | none => .error .unusableReadiness

/-- What is done with the client once it exists: deliver, and wait for readiness. -/
def awaitReadiness (readiness : Str → Option UInt16) (transfer : Str) :
    Step SidecarError UInt16 := do
  -- a failed delivery is reported only once the stream is closed
  let delivery ← deliver transfer
  attempt SidecarError.transfer delivery
  let read ← call .readinessRead ()
  Prog.ofExcept (portOf readiness read)

/-- **Starting the sidecar.** -/
def startSidecar (readiness : Str → Option UInt16) (runtime image targetContainer transfer : Str) :
    Step SidecarError Sidecar := do
  giveUpIf ('\n' ∈ transfer) .transferNotSingleLine
  let containerName ← ephemeralName
  let command := sidecarCommand runtime image targetContainer containerName
  let started ← spawning command (call .sidecarRun command)
  attempt (SidecarError.start runtime) started
  -- the client exists from here on, so every failure removes its container
  let port ← (awaitReadiness readiness transfer).onFail (teardown runtime containerName)
  return { runtime, containerName, port }

end Iwaya
