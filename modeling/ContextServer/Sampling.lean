import ContextServer.Arguments
import ContextServer.Content
import ContextServer.Outbound

/-!
Asking the client's model for text.
-/

namespace ContextServer

namespace Sampling

/-- How much the client is to weigh when it picks a model, and names it may go by. -/
structure Preferences where
  hints : List String := []
  cost : Option Float := none
  speed : Option Float := none
  intelligence : Option Float := none

def Preferences.isEmpty (p : Preferences) : Bool :=
  p.hints.isEmpty && p.cost.isNone && p.speed.isNone && p.intelligence.isNone

def Preferences.toJson (p : Preferences) : Json :=
  .object ((if p.hints.isEmpty then []
      else [("hints", .array (p.hints.map fun name => .object [("name", .string name)]))])
    ++ optionalMember "costPriority" (p.cost.map .float)
    ++ optionalMember "speedPriority" (p.speed.map .float)
    ++ optionalMember "intelligencePriority" (p.intelligence.map .float))

/-- Whose context the client is to add. -/
inductive ContextScope where
  | none
  | thisServer
  | allServers
  deriving DecidableEq

def ContextScope.name : ContextScope → String
  | none => "none"
  | thisServer => "thisServer"
  | allServers => "allServers"

structure Request where
  messages : List (Role × String) := []
  preferences : Preferences := {}
  systemPrompt : Option String := none
  context : Option ContextScope := none
  maxTokens : Nat := 256
  temperature : Option Float := none
  stopSequences : List String := []

/-- One turn of the conversation. -/
def turnJson (turn : Role × String) : Json :=
  .object [("role", .string turn.1.name), ("content", (Content.text turn.2).toJson)]

def Request.toClient (r : Request) : ClientRequest where
  method := "sampling/createMessage"
  params := Json.canonical (.object ([("messages", .array (r.messages.map turnJson))]
    ++ (if r.preferences.isEmpty then [] else [("modelPreferences", r.preferences.toJson)])
    ++ optionalMember "systemPrompt" (r.systemPrompt.map .string)
    ++ optionalMember "includeContext" (r.context.map fun c => .string c.name)
    ++ [("maxTokens", .nat r.maxTokens)]
    ++ optionalMember "temperature" (r.temperature.map .float)
    ++ (if r.stopSequences.isEmpty then [] else [("stopSequences", .strings r.stopSequences)])))

/-- The first identifier where sampling counts alone. -/
def firstId : Int := 9000

/-- What the client's model said. It is valid if there is any text. -/
structure Response where
  role : String := ""
  text : String := ""
  model : String := ""
  stopReason : String := ""
  deriving DecidableEq

def Response.isValid (r : Response) : Bool := !r.text.isEmpty

/-- Reads what is there of a result. Content of another type than text counts as none. -/
def Response.ofJson (result : Json) : Response where
  role := result.stringAt "role"
  text := match result.objectAt? "content" with
    | some content => if content.stringAt? "type" = some "text" then content.stringAt "text" else ""
    | none => ""
  model := result.stringAt "model"
  stopReason := result.stringAt "stopReason"

/-- The response to a reply; an error brings nothing. -/
def Response.ofOutcome : Except Json Json → Response
  | .ok result => ofJson result
  | .error _ => {}

end Sampling

end ContextServer
