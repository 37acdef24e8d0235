import ContextServer.Envelope.Reply

/-!
Notifications that the server sends: a method and optional parameters, and no identifier.
-/

namespace ContextServer

structure Notification where
  method : String
  params : Option Json := none

namespace Notification

def toJson (n : Notification) : Json :=
  .object ([("jsonrpc", .string protocolTag), ("method", .string n.method)]
    ++ (n.params.map fun p => ("params", p)).toList)

def text (n : Notification) : String := n.toJson.text

/-- Progress of a call under the client's token. An amount of work that is not positive is unknown and
left out, and so is an empty message. -/
def progress (token : String) (done total : Float) (message : String) : Notification :=
  ⟨"notifications/progress", some (Json.canonical (.object (
    [("progressToken", .string token), ("progress", .float done)]
      ++ (if 0 < total then [("total", .float total)] else [])
      ++ (if message.isEmpty then [] else [("message", .string message)]))))⟩

def resourceUpdated (uri : String) : Notification :=
  ⟨"notifications/resources/updated", some (.object [("uri", .string uri)])⟩

end Notification

end ContextServer
