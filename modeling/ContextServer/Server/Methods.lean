import ContextServer.Handshake
import ContextServer.Method
import ContextServer.Page
import ContextServer.Server.Capabilities

/-!
What each method does. A method looks at the parameters of a request, which may be absent, and comes
to a result or an error; results are in canonical order.
-/

namespace ContextServer

/-- The result of a request, or why there is none. -/
abbrev Answer := Except Fault Json

def protocolVersion : String := "2025-03-26"

namespace Server

variable {Device : Type}

/-- An answer that leaves everything as it was. -/
def unchanged (s : Server Device) (device : Device) (answer : Answer) : Step Device Answer :=
  ⟨answer, s, device, []⟩

/-! ### Sessions -/

/-- Opens a session for the client in place of the last one. The last session is ended first, also
when no new one can be opened. -/
def handshake (s : Server Device) (device : Device) (readings : Readings) (params : Option Json) :
    Step Device Answer :=
  let clientName := Handshake.clientName params
  let freed := match s.sessionId with
    | some previous => (s.sessions.remove previous).2
    | none => s.sessions
  match freed.create readings.sessionId clientName readings.opening with
  | (.error full, sessions) =>
    -- the phase and the client's name stay those of the last handshake
    ⟨.error ⟨.sessionLimit, full.message, none⟩, { s with sessions, sessionId := none }, device, []⟩
  | (.ok _, sessions) =>
    let s := { s with
      sessions, sessionId := some readings.sessionId, clientName, phase := .handshaking }
    ⟨.ok (Json.canonical (.object [("protocolVersion", .string protocolVersion),
        ("capabilities", s.capabilities), ("serverInfo", s.identity.toJson)])),
      s, device, [.opened clientName]⟩

/-! ### Lists -/

def listPage (s : Server Device) (params : Json) (key : String) (entries : List Json) : Answer :=
  match Page.ofList entries s.pageSize (params.stringAt? "cursor") with
  | .error e => .error (.invalidParams e.message)
  | .ok page => .ok (Json.canonical (.object ((key, .array page.items)
      :: optionalMember "nextCursor" (page.next.map .string))))

def visibleTools (s : Server Device) : List (Tool Device) :=
  s.catalog.tools.values.filter fun t => !s.groups.isToolDisabled t.name

def listTools (s : Server Device) (params : Json) : Answer :=
  s.listPage params "tools" (s.visibleTools.map Tool.toJson)

/-- Lists the resources of one URI. -/
def listResources (s : Server Device) (params : Json) : Answer :=
  s.listPage params "resources" (s.catalog.resources.values.map Resource.toJson)

def listTemplates (s : Server Device) (params : Json) : Answer :=
  s.listPage params "resourceTemplates" (s.catalog.templates.values.map TemplatedResource.toJson)

def listPrompts (s : Server Device) (params : Json) : Answer :=
  s.listPage params "prompts" (s.catalog.prompts.values.map Prompt.toJson)

def listRoots (s : Server Device) (params : Json) : Answer :=
  s.listPage params "roots" (s.catalog.roots.values.map Root.toJson)

/-! ### Tools -/

/-- The client's progress token: a text, or a number in its own text. -/
def progressToken? (params : Json) : Option String :=
  match (params.objectAt? "_meta").bind fun more => (more.field "progressToken").value? with
  | some (.string token) => some token
  | some (.number n) => some n.text
  | _ => none

/-- The tool of a name, unless it is disabled. -/
def findTool (s : Server Device) (name : String) : Except Fault (Tool Device) :=
  match s.catalog.tools.find? name with
  | none => .error (.invalidParams ("Tool not found: " ++ name))
  | some tool =>
    if s.groups.isToolDisabled name then .error (.invalidParams ("Tool disabled: " ++ name))
    else .ok tool

/-- Runs the tool of a name and queues the progress it made. A call with a progress token is in flight
while it runs. -/
def runTool (s : Server Device) (device : Device) (readings : Readings) (id : RequestId)
    (name : String) (tool : Tool Device) (arguments : Json) (token : Option String) :
    Step Device ToolResult :=
  let inFlight := if token.isSome then s.inFlight.track id token else s.inFlight
  let (call, device) := tool.call arguments ⟨id, token⟩ device
  -- a failed result comes here too: the cache takes in none of those
  let s := { s with
    notifier := s.notifier.pushAll call.progress
    cache := s.cache.store name arguments call.result readings.store
    inFlight := if token.isSome then (inFlight.complete id).2 else inFlight }
  ⟨call.result, s, device, []⟩

/-- Calls a tool, or answers from the cache. -/
def callTool (s : Server Device) (device : Device) (readings : Readings) (id : RequestId)
    (params : Json) : Step Device Answer :=
  match params.stringAt? "name" with
  | none => s.unchanged device (.error (.invalidParams "Missing tool name"))
  | some name =>
    match s.findTool name with
    | .error fault => s.unchanged device (.error fault)
    | .ok tool =>
      let arguments := Json.arguments (params.field "arguments").value?
      let (cached, cache) := s.cache.lookup name arguments readings.lookup
      -- a look-up counts, and may have taken an entry out, also where it finds nothing
      let s := { s with cache }
      match cached with
      | some result => s.unchanged device (.ok result.toJson.canonical)
      | none =>
        (s.runTool device readings id name tool arguments (progressToken? params)).map
          fun result => .ok result.toJson.canonical

/-! ### Resources -/

def readResource (s : Server Device) (device : Device) (params : Json) : Step Device Answer :=
  match params.stringAt? "uri" with
  | none => s.unchanged device (.error (.invalidParams "Missing resource URI"))
  | some uri =>
    match s.catalog.resolve? uri with
    | none => s.unchanged device (.error (.invalidParams ("Resource not found: " ++ uri)))
    | some found =>
      let (contents, device) := found.read uri device
      s.unchanged device (match contents with
        | .ok contents => .ok (Json.canonical (.object [("contents", .array [contents.toJson])]))
        | .error e => .error (.internalError ("Resource read failed: " ++ e.message)))

/-- Follows a resource, or ceases to. -/
def setSubscription (s : Server Device) (device : Device) (subscribe : Bool) (params : Json) :
    Step Device Answer :=
  match params.stringAt? "uri" with
  | none => s.unchanged device (.error (.invalidParams "Missing resource URI"))
  | some uri =>
    let notifier :=
      if subscribe then (s.notifier.subscribe uri).2 else (s.notifier.unsubscribe uri).2
    { s with notifier }.unchanged device (.ok (.object []))

/-! ### Prompts -/

def getPrompt (s : Server Device) (device : Device) (params : Json) : Step Device Answer :=
  match params.stringAt? "name" with
  | none => s.unchanged device (.error (.invalidParams "Missing prompt name"))
  | some name =>
    match s.catalog.prompts.find? name with
    | none => s.unchanged device (.error (.invalidParams ("Prompt not found: " ++ name)))
    | some prompt =>
      let supplied :=
        Prompt.suppliedArguments (((params.objectAt? "arguments").bind Json.members?).getD [])
      match prompt.missing? supplied with
      | some missing =>
        s.unchanged device (.error (.invalidParams ("Missing required argument: " ++ missing)))
      | none =>
        let (messages, device) := prompt.run supplied device
        s.unchanged device (match messages with
          | some messages => .ok (Json.canonical (.object
              [("description", .string prompt.description),
                ("messages", .array (messages.map PromptMessage.toJson))]))
          | none => .error (.internalError "Prompt handler failed"))

/-! ### Completion and logging -/

/-- The argument that a completion asks for, and what was typed. -/
def completionTarget (params : Json) : Except Fault (CompletionKey × String) :=
  match params.objectAt? "ref" with
  | none => .error (.invalidParams "Missing ref")
  | some reference =>
    match params.objectAt? "argument" with
    | none => .error (.invalidParams "Missing argument")
    | some argument =>
      let type := reference.stringAt "type"
      match RefKind.ofName? type with
      | none => .error (.invalidParams ("Unknown ref type: " ++ type))
      | some kind =>
        let target := match kind with
          | .prompt => reference.stringAt "name"
          | .resource => reference.stringAt "uri"
        .ok (⟨kind, target, argument.stringAt "name"⟩, argument.stringAt "value")

/-- Completes an argument. A provider that crashes completes nothing. -/
def completeArgument (s : Server Device) (device : Device) (params : Json) : Step Device Answer :=
  match completionTarget params with
  | .error fault => s.unchanged device (.error fault)
  | .ok (key, typed) =>
    let (completion, device) := s.completions.complete key typed device
    s.unchanged device (.ok (.object [("completion", (completion.getD {}).toJson)]))

def setLevel (s : Server Device) (device : Device) (params : Json) : Step Device Answer :=
  match params.field "level" with
  | .present value =>
    { s with threshold := LogLevel.ofName (value.string?.getD "") }.unchanged device
      (.ok (.object []))
  | _ => s.unchanged device (.error (.invalidParams "Missing level"))

/-! ### Every method -/

def serve (s : Server Device) (device : Device) (readings : Readings) (id : RequestId)
    (params : Option Json) : Method → Step Device Answer :=
  let given := params.getD .null
  fun
  | .handshake => s.handshake device readings params
  | .ping => s.unchanged device (.ok (.object []))
  | .listTools => s.unchanged device (s.listTools given)
  | .callTool => s.callTool device readings id given
  | .listResources => s.unchanged device (s.listResources given)
  | .listTemplates => s.unchanged device (s.listTemplates given)
  | .readResource => s.readResource device given
  | .subscribe => s.setSubscription device true given
  | .unsubscribe => s.setSubscription device false given
  | .listPrompts => s.unchanged device (s.listPrompts given)
  | .getPrompt => s.getPrompt device given
  | .listRoots => s.unchanged device (s.listRoots given)
  | .complete => s.completeArgument device given
  | .setLevel => s.setLevel device given

/-- Serves a method by its name; an unknown one is an error. -/
def serveNamed (s : Server Device) (device : Device) (readings : Readings) (id : RequestId)
    (method : String) (params : Option Json) : Step Device Answer :=
  match Method.ofName? method with
  | some m => s.serve device readings id params m
  | none => s.unchanged device (.error (.methodNotFound method))

end Server

end ContextServer
