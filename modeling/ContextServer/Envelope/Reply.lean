import ContextServer.Envelope.Fault
import ContextServer.Envelope.RequestId

/-!
Replies. A reply repeats the identifier of its request and has either a result or an error. Replies to
a batch are sent together as one array.
-/

namespace ContextServer

def protocolTag : String := "2.0"

structure Reply where
  id : RequestId
  outcome : Except Fault Json

namespace Reply

def refusal (id : RequestId) (fault : Fault) : Reply := ⟨id, .error fault⟩

/-- The answer to a text that is no message. -/
def parseError : Reply := refusal .null (Fault.ofKind .parseError)

/-- The member that says how the request went. -/
def outcomeMember (r : Reply) : String × Json :=
  match r.outcome with
  | .ok result => ("result", result)
  | .error fault => ("error", fault.toJson)

def toJson (r : Reply) : Json :=
  .object [("jsonrpc", .string protocolTag), ("id", r.id.toJson), r.outcomeMember]

def text (r : Reply) : String := r.toJson.text

end Reply

/-- What a payload is answered with. -/
inductive Output where
  | silence
  | single (reply : Reply)
  | batch (first : Reply) (rest : List Reply)

namespace Output

/-- The answer that joins the replies to a batch. -/
def ofBatch : List Reply → Output
  | [] => silence
  | first :: rest => batch first rest

def ofMessage : Option Reply → Output
  | none => silence
  | some reply => single reply

def replies : Output → List Reply
  | silence => []
  | single reply => [reply]
  | batch first rest => first :: rest

/-- The text to send; nothing is sent for the empty text. -/
def text : Output → String
  | silence => ""
  | single reply => reply.text
  | batch first rest => (Json.array ((first :: rest).map Reply.toJson)).text

theorem replies_ofBatch (replies : List Reply) : (ofBatch replies).replies = replies := by
  cases replies <;> rfl

end Output

end ContextServer
