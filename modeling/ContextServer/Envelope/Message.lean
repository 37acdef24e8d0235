import ContextServer.Arguments
import ContextServer.Envelope.Reply
import ContextServer.Json.Reader

/-!
Inbound payloads and messages. A payload is one object or an array of messages. A message with a
method is a request if it has an identifier and a notification if it has none; one without a method
answers a request of the server's own. What is none of these is rejected, under its identifier where
one could be read.
-/

namespace ContextServer

/-- A client's answer to a request of the server: a result or an error object. -/
structure ClientReply where
  id : RequestId
  outcome : Except Json Json

/-- A message by what is done with it. Parameters may be absent, which is not the same as `null`. -/
inductive Message where
  | request (id : RequestId) (method : String) (params : Option Json)
  | notification (method : String) (params : Option Json)
  | answer (reply : ClientReply)

inductive Rejection where
  | notAnObject
  | unusableId
  | wrongTag
  | missingMethod
  | nestedBatch
  deriving DecidableEq

def Rejection.reason : Rejection → String
  | notAnObject => "message must be an object"
  | unusableId => "id must be a string, number or null"
  | wrongTag => "jsonrpc field must be \"2.0\""
  | missingMethod => "missing method"
  | nestedBatch => "batch not allowed here"

def Rejection.fault (r : Rejection) : Fault :=
  ⟨.invalidRequest, "Invalid Request: " ++ r.reason, none⟩

/-- The text of a method member: a string stands for itself, and any other value for its own text,
which names no method. -/
def methodText : Json → String
  | .string s => s
  | other => other.text

namespace Message

/-- The identifier member: absent, usable, or unusable. -/
def readId (v : Json) : Except Rejection (Option RequestId) :=
  match v.member? "id" with
  | none => .ok none
  | some raw =>
    match RequestId.ofJson? raw with
    | some id => .ok (some id)
    | none => .error .unusableId

/-- A message without a method: an answer, if it has an identifier and a result or an error. -/
def answer? (id : Option RequestId) (v : Json) : Option ClientReply :=
  match id, v.member? "result", v.member? "error" with
  | some id, some result, _ => some ⟨id, .ok result⟩
  | some id, none, some error => some ⟨id, .error error⟩
  | _, _, _ => none

/-- What a value is as a message. A rejection comes with the reply that reports it. -/
def ofJson (v : Json) : Except Reply Message :=
  if v.members?.isNone then .error (.refusal .null Rejection.notAnObject.fault)
  else
    match readId v with
    | .error r => .error (.refusal .null r.fault)
    | .ok id =>
      let errorId := id.getD .null
      if (v.member? "jsonrpc").bind Json.string? ≠ some protocolTag then
        .error (.refusal errorId Rejection.wrongTag.fault)
      else
        match v.member? "method" with
        | none =>
          match answer? id v with
          | some reply => .ok (.answer reply)
          | none => .error (.refusal errorId Rejection.missingMethod.fault)
        | some method =>
          match id with
          | some id => .ok (.request id (methodText method) (v.member? "params"))
          | none => .ok (.notification (methodText method) (v.member? "params"))

end Message

inductive Payload where
  | single (value : Json)
  | batch (values : List Json)

/-- The payload of a text; a text that is not JSON, or whose value is no container, has none. -/
def Payload.ofText? (text : String) : Option Payload :=
  match Json.ofText? text with
  | some (.array items) => some (.batch items)
  | some (.object members) => some (.single (.object members))
  | _ => none

/-- The message of a text where a batch is not allowed. -/
def Message.ofText (text : String) : Except Reply Message :=
  match Payload.ofText? text with
  | none => .error .parseError
  | some (.batch _) => .error (.refusal .null Rejection.nestedBatch.fault)
  | some (.single v) => Message.ofJson v

end ContextServer
