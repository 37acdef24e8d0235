import ContextServer.Envelope.Notification
import ContextServer.Handler
import ContextServer.Json.Reader

/-!
Tools: a handler under a name, with a schema of its arguments. Calling a tool always gives a result: a
failure or a crash becomes an error result, and a plain text that is JSON becomes structured content
as well if the tool declares a schema of its output.
-/

namespace ContextServer

/-- What clients are told about a tool's behaviour. A tool counts as destructive and open to the world
until it says otherwise. -/
structure ToolHints where
  title : Option String := none
  readOnly : Bool := false
  destructive : Bool := true
  idempotent : Bool := false
  openWorld : Bool := true

namespace ToolHints

/-- The tool changes nothing; it is then not destructive either. -/
def asReadOnly (h : ToolHints) : ToolHints := { h with readOnly := true, destructive := false }

def toJson (h : ToolHints) : Json :=
  .object (optionalMember "title" (h.title.map .string)
    ++ [("readOnlyHint", .bool h.readOnly), ("destructiveHint", .bool h.destructive),
      ("idempotentHint", .bool h.idempotent), ("openWorldHint", .bool h.openWorld)])

end ToolHints

structure Tool (Device : Type) where
  name : String
  title : Option String := none
  description : String
  inputSchema : Json
  outputSchema : Option Json := none
  hints : Option ToolHints := none
  icons : List Icon := []
  handler : ToolHandler Device

/-- What a call comes to: the result, and the progress that was recorded under the client's token. -/
structure ToolCall where
  result : ToolResult
  progress : List Notification

namespace Tool

variable {Device : Type}

/-- Whether the handler builds full results. -/
def isRich (t : Tool Device) : Bool :=
  match t.handler with
  | .text _ => false
  | _ => true

def toJson (t : Tool Device) : Json :=
  .object ([("name", .string t.name)]
    ++ optionalMember "title" (t.title.map .string)
    ++ [("description", .string t.description), ("inputSchema", t.inputSchema)]
    ++ optionalMember "outputSchema" t.outputSchema
    ++ optionalMember "annotations" (t.hints.map ToolHints.toJson)
    ++ iconsMember t.icons)

/-- The structured content of a text: its JSON value, if the tool declares a schema of its output and
the value is an object or an array. -/
def structured? (t : Tool Device) (text : String) : Option Json :=
  if t.outputSchema.isSome then (Json.ofText? text).filter Json.isContainer else none

def wrapText (t : Tool Device) (text : String) : ToolResult :=
  { ToolResult.ofText text with structured := t.structured? text }

def resultOf : Outcome ToolResult → ToolResult
  | .returned result => result
  | .failed e => .ofError ("Internal tool error: " ++ e.message)
  | .crashed => .ofError "Internal tool error"

/-- The outcome of a text handler as that of a full one. -/
def wrapOutcome (t : Tool Device) : Outcome String → Outcome ToolResult
  | .returned text => .returned (t.wrapText text)
  | .failed e => .failed e
  | .crashed => .crashed

/-- Reports as notifications under the client's token; without a token there are none. -/
def progressNotifications (token : Option String) (reports : List ProgressReport) :
    List Notification :=
  match token with
  | none => []
  | some token => reports.map fun r => .progress token r.done r.total r.message

def call (t : Tool Device) (arguments : Json) (context : CallContext) : OnDevice Device ToolCall :=
  fun device =>
    match t.handler with
    | .text run =>
      let (outcome, device) := run arguments device
      (⟨resultOf (t.wrapOutcome outcome), []⟩, device)
    | .rich run =>
      let (outcome, device) := run arguments device
      (⟨resultOf outcome, []⟩, device)
    | .reporting run =>
      let (reported, device) := run arguments context device
      (⟨resultOf reported.outcome, progressNotifications context.progressToken reported.reports⟩,
        device)

end Tool

end ContextServer
