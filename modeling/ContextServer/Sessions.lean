import ContextServer.Clock
import ContextServer.Json.Basic
import ContextServer.Roster

/-!
Client sessions. A session lasts while it is used; one that is idle for longer than the timeout is
swept before the next is opened. A full table refuses a new session and never gives up an old one.
-/

namespace ContextServer

structure Session where
  clientName : String
  createdAt : Timestamp
  lastActivity : Timestamp
  deriving DecidableEq

def Session.idle (s : Session) (now : Timestamp) : Span := now.since s.lastActivity

/-- The table is full. -/
structure CapacityReached where
  max : Nat
  deriving DecidableEq

def CapacityReached.message (e : CapacityReached) : String :=
  "session limit reached (" ++ toString e.max ++ " active sessions)"

/-- The active sessions by identifier, oldest first. A bound of zero is no bound, and a timeout of zero
never ends a session. -/
structure Sessions where
  table : Roster String Session := {}
  maxSessions : Nat := 4
  idleTimeout : Span := Span.ofSeconds 1800

namespace Sessions

def count (s : Sessions) : Nat := s.table.size

/-- Drops the sessions that are idle for longer than the timeout. -/
def sweep (s : Sessions) (now : Timestamp) : Sessions :=
  if s.idleTimeout = 0 then s
  else { s with table := s.table.filter fun _ session => session.idle now ≤ s.idleTimeout }

/-- Whether one more session would pass the bound. -/
def isFull (s : Sessions) : Bool := 0 < s.maxSessions && s.maxSessions ≤ s.count

/-- Opens a session under a fresh identifier, after a sweep. -/
def create (s : Sessions) (id clientName : String) (now : Timestamp) :
    Except CapacityReached Unit × Sessions :=
  let swept := s.sweep now
  if swept.isFull then (.error ⟨swept.maxSessions⟩, swept)
  else (.ok (), { swept with table := swept.table.insert id ⟨clientName, now, now⟩ })

/-- Notes activity on a session; the answer tells whether it is there. -/
def validate (s : Sessions) (id : String) (now : Timestamp) : Bool × Sessions :=
  match s.table.find? id with
  | none => (false, s)
  | some session =>
    (true, { s with table := s.table.insert id { session with lastActivity := now } })

/-- Ends a session; the answer tells whether it was there. -/
def remove (s : Sessions) (id : String) : Bool × Sessions :=
  (s.table.contains id, { s with table := s.table.erase id })

/-- Sweeps, and tells how many sessions went. -/
def prune (s : Sessions) (now : Timestamp) : Nat × Sessions :=
  let swept := s.sweep now
  (s.count - swept.count, swept)

def sessionJson (now : Timestamp) (id : String) (s : Session) : Json :=
  .object [("clientName", .string s.clientName), ("createdAt", .string s.createdAt.text),
    ("id", .string id), ("idleSecs", .nat (s.idle now).seconds)]

/-- All sessions and the limits as they are shown. -/
def summary (s : Sessions) (now : Timestamp) : Json :=
  .object [("activeSessions", .nat s.count), ("idleTimeoutSecs", .nat s.idleTimeout.seconds),
    ("maxSessions", .nat s.maxSessions),
    ("sessions", .array (s.table.entries.map fun entry => sessionJson now entry.1 entry.2))]

end Sessions

end ContextServer
