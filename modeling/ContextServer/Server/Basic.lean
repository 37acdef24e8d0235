import ContextServer.Catalog
import ContextServer.Completion
import ContextServer.InFlight
import ContextServer.Logging
import ContextServer.Notifier
import ContextServer.Outbound
import ContextServer.ResultCache
import ContextServer.Sampling
import ContextServer.Elicitation
import ContextServer.Sessions
import ContextServer.TokenBucket
import ContextServer.ToolGroups

/-!
The state of a server. It is a plain value: what the outside brings in, namely clock readings and
fresh session names, comes with every message, and what the handlers act on is the host's device.
-/

namespace ContextServer

/-- Where a server stands with its client. -/
inductive Phase where
  | awaitingHandshake
  | handshaking
  | running
  deriving DecidableEq

def engineVersion : String := "0.1.0"

structure Identity where
  name : String
  version : String := engineVersion
  description : Option String := none
  deriving DecidableEq

def Identity.toJson (i : Identity) : Json :=
  .object ([("name", .string i.name), ("version", .string i.version)]
    ++ optionalMember "description" (i.description.map .string))

/-- The name of a server that is given none. -/
def defaultServerName : String := "mcpd"

/-- A server over a host's device. -/
structure Server (Device : Type) where
  identity : Identity
  phase : Phase := .awaitingHandshake
  clientName : String := ""
  sessionId : Option String := none
  catalog : Catalog Device := {}
  completions : Completions Device := {}
  notifier : Notifier := {}
  inFlight : InFlight := {}
  sampling : Outbound := { nextId := Sampling.firstId }
  elicitation : Outbound := { nextId := Elicitation.firstId }
  nextRequestId : Int := 8000
  groups : ToolGroups := {}
  cache : ResultCache := {}
  limiter : TokenBucket Float := .off
  sessions : Sessions := {}
  threshold : LogLevel := .warning
  pageSize : Nat := 0

structure ServerOptions where
  name : Option String := none
  description : Option String := none
  pageSize : Nat := 0
  rateLimit : Option (Float × Nat) := none
  maxSessions : Option Nat := none
  idleTimeout : Option Span := none
  roots : List Root := []

/-- What happens outside of the server because of a message: a client has opened a session, or a
request of the server's own is answered, under the label that the host gave it. -/
inductive Event where
  | opened (clientName : String)
  | sampled (id : Int) (label : String) (response : Sampling.Response)
  | elicited (id : Int) (label : String) (response : Elicitation.Response)

/-- What the outside brings in while one message is handled: the clock at the four points where time
matters, and a fresh name for a session. -/
structure Readings where
  admission : Instant
  lookup : Instant
  store : Instant
  opening : Timestamp
  sessionId : String

/-- A value, with the server and the device as they are left, and what happened on the way. -/
structure Step (Device α : Type) where
  value : α
  server : Server Device
  device : Device
  events : List Event := []

def Step.map {Device α β : Type} (f : α → β) (s : Step Device α) : Step Device β :=
  { s with value := f s.value }

namespace Server

variable {Device : Type}

def ofOptions (options : ServerOptions) (now : Instant) : Server Device where
  identity :=
    { name := options.name.getD defaultServerName, description := options.description }
  pageSize := options.pageSize
  limiter := match options.rateLimit with
    | some (rate, capacity) => TokenBucket.off.configure rate capacity now
    | none => .off
  sessions :=
    { maxSessions := options.maxSessions.getD ({} : Sessions).maxSessions
      idleTimeout := options.idleTimeout.getD ({} : Sessions).idleTimeout }
  catalog := options.roots.foldl Catalog.addRoot {}

end Server

end ContextServer
