import Iwaya.Foundation.Text
import Iwaya.Foundation.Bytes
import Iwaya.Foundation.Uri
import Iwaya.Foundation.Prog
import Iwaya.Foundation.Rely
import Iwaya.Foundation.Json.Syntax
import Iwaya.Foundation.Json.Framing
import Iwaya.Foundation.Json.Reader
import Iwaya.Foundation.Checks
import Iwaya.Config.Types
import Iwaya.Config.Origin
import Iwaya.Config.OriginGrammar
import Iwaya.Config.Validate
import Iwaya.Config.Parse
import Iwaya.Phantom
import Iwaya.Transfer
import Iwaya.Proxy.Select
import Iwaya.Proxy.Mode
import Iwaya.Proxy.Forward
import Iwaya.Foundation.Environment
import Iwaya.Proxy.Authentication
import Iwaya.Proxy.Authority
import Iwaya.Proxy.Framing
import Iwaya.Proxy.Agreement
import Iwaya.Run.Argv
import Iwaya.Run.Calls
import Iwaya.Bws
import Iwaya.Image
import Iwaya.Image.Maps
import Iwaya.Image.Elf
import Iwaya.Image.Tag
import Iwaya.Foundation.Names
import Iwaya.Image.Process
import Iwaya.Image.Material
import Iwaya.Foundation.FileTree
import Iwaya.Image.Context
import Iwaya.Sidecar
import Iwaya.Run.Supervise
import Iwaya.Execute.Program
import Iwaya.Execute.Resolution
import Iwaya.Execute.Stages
import Iwaya.Foundation.Trace
import Iwaya.Foundation.Interrupt
import Iwaya.Foundation.Typestate
import Iwaya.Foundation.Surroundings
import Iwaya.Foundation.Progress
import Iwaya.Foundation.Fleet
import Iwaya.Foundation.Lockstep
import Iwaya.Foundation.Coupling
import Iwaya.Foundation.Pipe
import Iwaya.Execute.Segments
import Iwaya.Execute.Order
import Iwaya.Execute.Orphan
import Iwaya.Execute.Resources
import Iwaya.Execute.Naming
import Iwaya.Execute.Machine
import Iwaya.Execute.Secrecy
import Iwaya.Execute.Managed
import Iwaya.Bws.Diagnostics
import Iwaya.Proxy.Headers
import Iwaya.Proxy.Ownership
import Iwaya.Proxy.Respond
import Iwaya.Proxy.HopByHop
import Iwaya.Proxy.Serve
import Iwaya.Proxy.Opaque
import Iwaya.Bws.Listing
import Iwaya.Bws.Ambiguity
import Iwaya.Execute.Attribution
import Iwaya.Execute.Confinement
import Iwaya.Execute.Outcome
import Iwaya.Proxy.Readiness
import Iwaya.Execute.Startup
import Iwaya.Execute.Sequel
import Iwaya.Execute.Handshake
import Iwaya.Execute.Agreement
import Iwaya.Execute.Awaiting
import Iwaya.Execute.Blame
import Iwaya.Execute.EndToEnd
import Iwaya.Execute.Freshness
import Iwaya.Execute.Learning
import Iwaya.Run.Relay
import Iwaya.Run.Forwarding
import Iwaya.Config.Schema
import Iwaya.Config.Accepts
import Iwaya.Config.Reorder
import Iwaya.Config.Ignored
import Iwaya.Config.Operands
import Iwaya.Execute.Operands
import Iwaya.Foundation.Field
import Iwaya.Foundation.Uri.Authority
import Iwaya.Proxy.Serviceable
