import ContextServer.Arguments
import ContextServer.Server.Hosting

/-!
What the hosted server offers of its own: two tools to try a connection with, and a resource that
names the engine.
-/

namespace ContextServer.BuiltIn

def pureHints : ToolHints :=
  { ToolHints.asReadOnly {} with idempotent := true, openWorld := false }

/-- The schema of an object with required members of given types. -/
def objectSchema (members : List (String × String)) : Json :=
  Json.canonical (.object [("type", .string "object"),
    ("properties", .object (members.map fun (name, type) =>
      (name, .object [("type", .string type)]))),
    ("required", .strings (members.map Prod.fst))])

def echoTool {Device : Type} : Tool Device where
  name := "echo"
  description := "Returns the given message unchanged"
  inputSchema := objectSchema [("message", "string")]
  hints := some pureHints
  handler := .text fun arguments device =>
    (match arguments.stringAt? "message" with
      | some message => .returned message
      | none => .failed (.invalidArgument "message" "expected a string"), device)

/-- Adds two numbers; one that is missing counts as zero. -/
def addTool {Device : Type} : Tool Device where
  name := "add"
  description := "Adds two numbers"
  inputSchema := objectSchema [("a", "number"), ("b", "number")]
  hints := some pureHints
  handler := .text fun arguments device =>
    let sum := (arguments.floatAt? "a").getD 0 + (arguments.floatAt? "b").getD 0
    (.returned (Json.float sum).text, device)

def infoResource {Device : Type} : Resource Device where
  uri := "device://info"
  card :=
    { name := "Device information"
      description := "Engine name and version"
      mimeType := "application/json" }
  run := fun device =>
    (.returned (Json.object [("engine", .string defaultServerName),
      ("version", .string engineVersion)]).text, device)

def register {Device : Type} (s : Server Device) : Server Device :=
  ((s.addTool echoTool).addTool addTool).addResource infoResource

end ContextServer.BuiltIn
