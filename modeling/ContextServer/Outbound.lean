import ContextServer.Clock
import ContextServer.Envelope.Reply
import ContextServer.Roster

/-!
Requests that the server sends to the client. A request is queued for sending and pends under its
identifier until the client answers or it is given up. The host's label of a request is handed back
with the answer, once.
-/

namespace ContextServer

/-- A request as the client gets it. -/
structure ClientRequest where
  method : String
  params : Json

/-- A request that waits for its answer. -/
structure PendingRequest where
  label : String
  sentAt : Instant
  deriving DecidableEq

/-- What waits for answers and what is still to be sent, for one kind of request. -/
structure Outbound where
  pending : Roster Int PendingRequest := {}
  outgoing : List String := []
  nextId : Int

namespace Outbound

def requestText (id : Int) (request : ClientRequest) : String :=
  (Json.object [("id", .int id), ("jsonrpc", .string protocolTag),
    ("method", .string request.method), ("params", request.params)]).text

/-- Queues a request under a given identifier. Identifiers that are given out later are larger, up to
the largest there is. -/
def queueWithId (o : Outbound) (id : Int) (request : ClientRequest) (label : String)
    (now : Instant) : Outbound :=
  { pending := o.pending.insert id ⟨label, now⟩
    outgoing := o.outgoing ++ [requestText id request]
    nextId := max o.nextId (min (id + 1) Range64.maxSigned) }

/-- Queues a request under the next identifier, which is the answer. -/
def queue (o : Outbound) (request : ClientRequest) (label : String) (now : Instant) :
    Int × Outbound :=
  (o.nextId, o.queueWithId o.nextId request label now)

def drain (o : Outbound) : List String × Outbound := (o.outgoing, { o with outgoing := [] })

/-- Ends the wait for an answer; gives the label of the request, if one pends. -/
def resolve (o : Outbound) (id : Int) : Option String × Outbound :=
  match o.pending.find? id with
  | none => (none, o)
  | some request => (some request.label, { o with pending := o.pending.erase id })

/-- Gives up the requests that have waited for longer than a time. -/
def prune (o : Outbound) (now : Instant) (timeout : Span) : Nat × Outbound :=
  let kept := o.pending.filter fun _ request => now.since request.sentAt ≤ timeout
  (o.pending.size - kept.size, { o with pending := kept })

end Outbound

end ContextServer
