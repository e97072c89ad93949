import Iwaya.Foundation.Checks
import Iwaya.Foundation.Prog
import Iwaya.Config.Origin
import Iwaya.Proxy.Select
import Iwaya.Transfer

/-!
# The proxy process before it serves

The proxy reads one line from its standard input – up to a newline or the end of
the stream – takes the routes from it, binds its listener, and reports the port.
Everything that can go wrong goes wrong before the listener exists, and no
diagnostic carries a transferred value.
-/

namespace Iwaya

open Text Checks Effects

/-- A failure before the proxy could begin serving. -/
inductive ProxyModeError where
  | read (source : Str)
  | parse (line column : ℕ)
  | emptyTransfer
  | invalidUpstream (index : ℕ)
  | bind (message : Str)
  | readiness (source : Str)

def ProxyModeError.display : ProxyModeError → Str
  | .read source => "cannot read the proxy transfer from stdin: ".toList ++ source
  | .parse line column =>
    "invalid proxy transfer document at line ".toList ++ decimal line ++ " column ".toList ++
      decimal column
  | .emptyTransfer => "the proxy transfer document contains no routes".toList
  | .invalidUpstream index =>
    "route ".toList ++ decimal index ++
      " of the proxy transfer document has an upstream that is not an http(s) origin".toList
  | .bind message => "cannot bind the loopback proxy listener: ".toList ++ message
  | .readiness source => "cannot report proxy readiness: ".toList ++ source

/-- The route the proxy serves for one route of the transfer. -/
def RouteTransfer.proxyRoute (r : RouteTransfer) : ProxyRoute where
  headerName := r.headerName
  template := r.template
  upstream := r.upstream
  phantom := ⟨r.phantom⟩
  rawValue := r.secret

/-- The position of the first route whose upstream is no origin. -/
def invalidUpstream (routes : List RouteTransfer) : Option ℕ :=
  routes.findIdx? fun route => !isHttpOrigin route.upstream

/-- **The routes of a transfer line.** -/
def parseTransfer (serde : SerdeJson) (input : Str) : Except ProxyModeError (List ProxyRoute) := do
  let transfer ← (serde.fromStr input).mapError fun (line, column) => .parse line column
  refuse (transfer.routes = []) .emptyTransfer
  match invalidUpstream transfer.routes with
  | some index => .error (.invalidUpstream index)
  | none => .ok (transfer.routes.map RouteTransfer.proxyRoute)

/-- The error of reading a line that is not UTF-8. -/
def invalidUtf8 : Str := "stream did not contain valid UTF-8".toList

/-- `read_line`: the bytes up to the first newline, as text. -/
def readLine (input : List UInt8) : Except Str Str :=
  match fromUtf8 (lineOf 10 input) with
  | some s => .ok s
  | none => .error invalidUtf8

/-- The routes of the first line of the proxy's input. -/
def readTransfer (serde : SerdeJson) (input : List UInt8) :
    Except ProxyModeError (List ProxyRoute) := do
  let raw ← (readLine input).mapError ProxyModeError.read
  parseTransfer serde raw

/-! ### Running -/

/-- What the proxy process does to the outside before it serves. -/
inductive ProxyCall where
  | bindLoopback
  | writeReadiness
  | flushReadiness

/-- The listener is bound for a list of routes; the readiness line is bytes. -/
def ProxyCall.Arg : ProxyCall → Type
  | bindLoopback => List ProxyRoute
  | writeReadiness => Str
  | flushReadiness => Unit

/-- A bound listener has a port. -/
def ProxyCall.Ans : ProxyCall → Type
  | bindLoopback => Except Str UInt16
  | writeReadiness => Except Str Unit
  | flushReadiness => Except Str Unit

/-- The line that reports the port. -/
def readinessLine (port : UInt16) : Str :=
  ('{' :: "\"port\":".toList) ++ decimal port.toNat ++ ['}', '\n']

/-- **Proxy mode up to the point where it serves**; `input` is what standard input
yields. -/
def runProxyMode (serde : SerdeJson) (input : List UInt8) :
    Prog ProxyCall.Arg ProxyCall.Ans ProxyModeError (List ProxyRoute × UInt16) := do
  -- a transfer that is refused is refused before the listener exists
  let routes ← Prog.ofExcept (readTransfer serde input)
  let bound : Except Str UInt16 ← Prog.perform ProxyCall.bindLoopback routes
  let port ← Prog.ofExcept (bound.mapError ProxyModeError.bind)
  let written : Except Str Unit ← Prog.perform ProxyCall.writeReadiness (readinessLine port)
  Prog.ofExcept (written.mapError ProxyModeError.readiness)
  let flushed : Except Str Unit ← Prog.perform ProxyCall.flushReadiness ()
  Prog.ofExcept (flushed.mapError ProxyModeError.readiness)
  return (routes, port)

/-! ### What is parsed -/

theorem invalidUpstream_eq_none {routes : List RouteTransfer} :
    invalidUpstream routes = none ↔ ∀ r ∈ routes, isHttpOrigin r.upstream = true := by
  simp [invalidUpstream, List.findIdx?_eq_none_iff]

/-- Parsing succeeds exactly on a nonempty document all of whose upstreams are
origins, and keeps every field of every route in its place. -/
theorem parseTransfer_eq_ok {serde : SerdeJson} {input : Str} {routes : List ProxyRoute} :
    parseTransfer serde input = .ok routes ↔ ∃ t : ProxyTransfer, serde.fromStr input = .ok t ∧
      t.routes ≠ [] ∧ (∀ r ∈ t.routes, isHttpOrigin r.upstream = true) ∧
      routes = t.routes.map RouteTransfer.proxyRoute := by
  have hmap : ∀ t, (serde.fromStr input).mapError (fun (line, column) =>
      ProxyModeError.parse line column) = .ok t ↔ serde.fromStr input = .ok t := by
    intro t
    rcases serde.fromStr input with e | t' <;> simp [Except.mapError]
  simp only [parseTransfer, bind_eq_ok, hmap, refuse_eq_ok, exists_const,
    ← invalidUpstream_eq_none]
  refine exists_congr fun t => and_congr_right fun _ => and_congr_right fun _ => ?_
  rcases invalidUpstream t.routes with _ | index
  · simp [eq_comm]
  · simp

end Iwaya
