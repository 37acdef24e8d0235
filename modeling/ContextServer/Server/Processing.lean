import ContextServer.Envelope.Message
import ContextServer.Server.Hosting
import ContextServer.Server.Methods

/-!
Processing of inbound text. Requests pass the rate limit and are answered; notifications are carried
out in silence; answers to the server's own requests are matched with what pends. A batch is handled
message by message, and its replies are sent together.
-/

namespace ContextServer.Server

variable {Device : Type}

/-- Answers a request, if the rate limit admits it. -/
def receiveRequest (s : Server Device) (device : Device) (readings : Readings) (id : RequestId)
    (method : String) (params : Option Json) : Step Device Reply :=
  let (admitted, limiter) := s.limiter.acquire readings.admission
  let s := { s with limiter }
  if admitted then (s.serveNamed device readings id method params).map (⟨id, ·⟩)
  else ⟨.refusal id .rateLimited, s, device, []⟩

/-- The client is ready, once a handshake has been made. -/
def confirmHandshake (s : Server Device) : Server Device :=
  if s.phase = .handshaking then { s with phase := .running } else s

/-- Notes that the client no longer wants an answer. -/
def cancelRequest (s : Server Device) (params : Option Json) : Server Device :=
  match ((params.getD .null).field "requestId").value?.bind RequestId.ofJson? with
  | some id => { s with inFlight := (s.inFlight.cancel id).2 }
  | none => s

/-- Carries out a notification. One that names a method of requests is served like a request without
an identifier, and its answer is dropped; any other unknown one does nothing. -/
def receiveNotification (s : Server Device) (device : Device) (readings : Readings)
    (method : String) (params : Option Json) : Step Device Unit :=
  if method = "notifications/initialized" then ⟨(), s.confirmHandshake, device, []⟩
  else if method = "notifications/cancelled" then ⟨(), s.cancelRequest params, device, []⟩
  else
    match Method.ofName? method with
    | some m => (s.serve device readings .null params m).map fun _ => ()
    | none => ⟨(), s, device, []⟩

/-- Matches an answer with the request of the server that it belongs to, if one pends. -/
def receiveAnswer (s : Server Device) (device : Device) (reply : ClientReply) : Step Device Unit :=
  match reply.id.signed? with
  | none => ⟨(), s, device, []⟩
  | some id =>
    -- an identifier under which both kinds of request pend goes to sampling
    match s.sampling.resolve id with
    | (some label, sampling) =>
      ⟨(), { s with sampling }, device, [.sampled id label (.ofOutcome reply.outcome)]⟩
    | (none, _) =>
      match s.elicitation.resolve id with
      | (some label, elicitation) =>
        ⟨(), { s with elicitation }, device, [.elicited id label (.ofOutcome reply.outcome)]⟩
      | (none, _) => ⟨(), s, device, []⟩

def receive (s : Server Device) (device : Device) (readings : Readings) (v : Json) :
    Step Device (Option Reply) :=
  match Message.ofJson v with
  | .error rejection => ⟨some rejection, s, device, []⟩
  | .ok (.request id method params) =>
    (s.receiveRequest device readings id method params).map some
  | .ok (.notification method params) =>
    (s.receiveNotification device readings method params).map fun _ => none
  | .ok (.answer reply) => (s.receiveAnswer device reply).map fun _ => none

/-- Handles messages in order; the `k`-th of a payload comes with the `k`-th readings. -/
def receiveAll (s : Server Device) (device : Device) (readings : Nat → Readings) :
    Nat → List Json → Step Device (List Reply)
  | _, [] => ⟨[], s, device, []⟩
  | k, v :: rest =>
    let first := s.receive device (readings k) v
    let more := first.server.receiveAll first.device readings (k + 1) rest
    ⟨first.value.toList ++ more.value, more.server, more.device, first.events ++ more.events⟩

def receivePayload (s : Server Device) (device : Device) (readings : Nat → Readings) :
    Payload → Step Device Output
  | .single v => (s.receive device (readings 0) v).map Output.ofMessage
  | .batch values => (s.receiveAll device readings 0 values).map Output.ofBatch

/-- Handles a text. What is no payload is answered by a parse error. -/
def process (s : Server Device) (device : Device) (readings : Nat → Readings) (text : String) :
    Step Device Output :=
  match Payload.ofText? text with
  | none => ⟨.single .parseError, s, device, []⟩
  | some payload => s.receivePayload device readings payload

end ContextServer.Server
