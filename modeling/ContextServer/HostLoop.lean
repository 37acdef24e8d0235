import ContextServer.Blank
import ContextServer.Server.Processing
import ContextServer.Utf8

/-!
The host loop. Messages come one to a line; after each line that is not blank the reply is written, if
there is one, then the queued notifications, then the queued requests, each on a line of its own. The
loop ends with the input, at bytes that are not UTF-8, or when the output takes no more.
-/

namespace ContextServer

/-- What has been written, latest first, and how many bytes the output still takes; without a number
there is no end to them. -/
structure Sink where
  chunks : List (List UInt8) := []
  room : Option Nat := none

namespace Sink

def bytes (k : Sink) : List UInt8 := k.chunks.reverse.flatten

/-- Writes as much as there is room for; the answer tells whether that was all. -/
def write (k : Sink) (bytes : List UInt8) : Bool × Sink :=
  match k.room with
  | none => (true, { k with chunks := bytes :: k.chunks })
  | some n =>
    if bytes.length ≤ n then (true, ⟨bytes :: k.chunks, some (n - bytes.length)⟩)
    else (false, ⟨bytes.take n :: k.chunks, some 0⟩)

end Sink

/-- Why the loop ended before the input did. -/
inductive LoopError where
  | notText (fault : Utf8.Fault)
  | outputFull
  deriving DecidableEq

def LoopError.message : LoopError → String
  | notText fault => fault.message
  | outputFull => "write zero"

/-- A server that is being hosted. -/
structure HostLoop (Device : Type) where
  server : Server Device
  device : Device
  sink : Sink := {}
  events : List Event := []
  stopped : Option LoopError := none

namespace HostLoop

variable {Device : Type}

/-- The lines of some bytes, each with its end if it has one. -/
def splitLines (bytes : List UInt8) : List (List UInt8) :=
  bytes.foldr (fun b lines =>
    if b = 10 then [b] :: lines
    else match lines with
      | [] => [[b]]
      | line :: more => (b :: line) :: more) []

/-- The lines in a row are the bytes again: nothing is lost or moved. -/
theorem flatten_splitLines (bytes : List UInt8) : (splitLines bytes).flatten = bytes := by
  induction bytes with
  | nil => rfl
  | cons b rest ih =>
    simp only [splitLines, List.foldr_cons] at ih ⊢
    split
    · simp [ih]
    · split <;> simp_all

/-- A line without its end: a line feed, and a carriage return before it. -/
def withoutEnd (text : String) : String :=
  match text.toList.reverse with
  | '\n' :: '\r' :: rest => String.ofList rest.reverse
  | '\n' :: rest => String.ofList rest.reverse
  | _ => text

/-- Writes a message on a line of its own, unless the loop has ended. -/
def writeLine (h : HostLoop Device) (text : String) : HostLoop Device :=
  if h.stopped.isSome then h
  else
    let (all, sink) := h.sink.write (Utf8.encode text ++ [10])
    { h with sink, stopped := if all then none else some .outputFull }

def writeLines (h : HostLoop Device) (texts : List String) : HostLoop Device :=
  texts.foldl writeLine h

/-- Writes what is queued: notifications, then requests. What cannot be written any more stays
queued, except for the queue that was being written. -/
def flush (h : HostLoop Device) : HostLoop Device :=
  if h.stopped.isSome then h
  else
    -- a queue is emptied before its first line is written
    let (notifications, server) := h.server.drainNotifications
    let h := { h with server }.writeLines notifications
    if h.stopped.isSome then h
    else
      let (requests, server) := h.server.drainRequests
      { h with server }.writeLines requests

def handleText (h : HostLoop Device) (readings : Nat → Readings) (text : String) :
    HostLoop Device :=
  if isBlankText text then h
  else
    let step := h.server.process h.device readings text
    let reply := step.value.text
    let h := { h with
      server := step.server, device := step.device, events := h.events ++ step.events }
    (if reply.isEmpty then h else h.writeLine reply).flush

/-- Handles one line of bytes, unless the loop has ended. -/
def handleLine (h : HostLoop Device) (readings : Nat → Readings) (line : List UInt8) :
    HostLoop Device :=
  if h.stopped.isSome then h
  else
    match Utf8.decode line with
    | .error fault => { h with stopped := some (.notText fault) }
    | .ok text => h.handleText readings (withoutEnd text)

/-- Handles lines in order; the `k`-th line comes with the `k`-th readings. -/
def handleLines (h : HostLoop Device) (readings : Nat → Nat → Readings) :
    Nat → List (List UInt8) → HostLoop Device
  | _, [] => h
  | k, line :: rest => (h.handleLine (readings k) line).handleLines readings (k + 1) rest

def serve (h : HostLoop Device) (readings : Nat → Nat → Readings) (input : List UInt8) :
    HostLoop Device :=
  h.handleLines readings 0 (splitLines input)

end HostLoop

end ContextServer
