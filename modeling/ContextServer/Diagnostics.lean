import ContextServer.HostLoop

/-!
The process's own log: what it says, and how grave a thing must be to be said.
-/

namespace ContextServer

/-- Severities of the process's own log, gravest first. -/
inductive Verbosity where
  | error
  | warn
  | info
  | debug
  | trace
  deriving DecidableEq

namespace Verbosity

/-- The place of a severity, gravest first. -/
def rank : Verbosity → Nat
  | error => 0
  | warn => 1
  | info => 2
  | debug => 3
  | trace => 4

def shows (v message : Verbosity) : Bool := message.rank ≤ v.rank

/-- The severity of a name in either case; what names none counts as `warn`. The names are ASCII, and
no other letter has one of theirs as its small form. -/
def ofName (text : String) : Verbosity :=
  match String.ofList (text.toList.map Char.toLower) with
  | "trace" => trace
  | "debug" => debug
  | "info" => info
  | "error" => error
  | _ => warn

end Verbosity

structure LogLine where
  severity : Verbosity
  text : String
  deriving DecidableEq

namespace LogLine

def shown (v : Verbosity) (lines : List LogLine) : List LogLine :=
  lines.filter fun line => v.shows line.severity

end LogLine

namespace HostLoop

variable {Device : Type}

/-- What is said at the start: that the host runs, and which tools it has. -/
def startLines (h : HostLoop Device) : List LogLine :=
  ⟨.info, "Starting mcpd-stdio version=" ++ engineVersion⟩
    :: h.server.catalog.tools.keys.map fun name => ⟨.debug, "Registering tool name=" ++ name⟩

/-- What is said of the requests that the rate limit has refused since an earlier moment. -/
def refusalLines (earlier h : HostLoop Device) : List LogLine :=
  List.replicate (h.server.limiter.denied - earlier.server.limiter.denied)
    ⟨.warn, "Rate limit exceeded"⟩

end HostLoop

end ContextServer
