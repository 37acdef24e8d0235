import ContextServer.Envelope.RequestId
import ContextServer.Roster

/-!
Requests that are being served. A client may ask for one to be cancelled, which is only noted down: a
request that is not in flight leaves no trace. A request that ends takes its note along.
-/

namespace ContextServer

/-- The requests in flight with their progress tokens, and those of them that are to be cancelled. -/
structure InFlight where
  requests : Roster RequestId (Option String) := {}
  cancelled : List RequestId := []

namespace InFlight

/-- Takes a request up; an older note under its identifier is forgotten. -/
def track (s : InFlight) (id : RequestId) (token : Option String) : InFlight :=
  { requests := s.requests.insert id token
    cancelled := s.cancelled.filter fun other => !(other == id) }

def isCancelled (s : InFlight) (id : RequestId) : Bool := s.cancelled.any (· == id)

/-- Notes that a request in flight is to be cancelled. -/
def cancel (s : InFlight) (id : RequestId) : Bool × InFlight :=
  if s.requests.contains id then
    (true, { s with cancelled := if s.isCancelled id then s.cancelled else s.cancelled ++ [id] })
  else (false, s)

/-- Lets a request go; the answer tells whether it was to be cancelled. -/
def complete (s : InFlight) (id : RequestId) : Bool × InFlight :=
  (s.isCancelled id, {
    requests := s.requests.erase id
    cancelled := s.cancelled.filter fun other => !(other == id) })

def token? (s : InFlight) (id : RequestId) : Option String := (s.requests.find? id).join

def count (s : InFlight) : Nat := s.requests.size

end InFlight

end ContextServer
