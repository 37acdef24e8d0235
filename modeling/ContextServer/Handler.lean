import ContextServer.Content
import ContextServer.Envelope.RequestId

/-!
Handlers: what the host registers behind tools, resources, prompts and completions. A handler acts on
the host's device and may change it. It returns a value, fails with an error, or crashes; whatever it
does, the server stays in charge.
-/

namespace ContextServer

inductive HandlerError where
  | invalidArgument (name reason : String)
  | hardware (message : String)
  | failed (message : String)
  deriving DecidableEq

def HandlerError.message : HandlerError → String
  | invalidArgument name reason => "invalid argument '" ++ name ++ "': " ++ reason
  | hardware message => "hardware error: " ++ message
  | failed message => message

inductive Outcome (α : Type) where
  | returned (value : α)
  | failed (error : HandlerError)
  | crashed

/-- A run on the device: an answer and the device as the run leaves it. -/
abbrev OnDevice (Device α : Type) := Device → α × Device

/-- A report of progress that a running tool makes. -/
structure ProgressReport where
  done : Float
  total : Float
  message : String

/-- What a tool may know of the call it serves: the request's identifier and the client's progress
token. -/
structure CallContext where
  requestId : RequestId
  progressToken : Option String

/-- The answer of a tool that reports progress: the reports in order, and how the run ended. -/
structure ReportedOutcome where
  reports : List ProgressReport
  outcome : Outcome ToolResult

/-- The shapes of a tool's handler: plain text, a full result, or a full result with progress. -/
inductive ToolHandler (Device : Type) where
  | text (run : Json → OnDevice Device (Outcome String))
  | rich (run : Json → OnDevice Device (Outcome ToolResult))
  | reporting (run : Json → CallContext → OnDevice Device ReportedOutcome)

end ContextServer
