/-!
The methods that requests may name.
-/

namespace ContextServer

inductive Method where
  | handshake
  | ping
  | listTools
  | callTool
  | listResources
  | listTemplates
  | readResource
  | subscribe
  | unsubscribe
  | listPrompts
  | getPrompt
  | listRoots
  | complete
  | setLevel
  deriving DecidableEq

namespace Method

def name : Method → String
  | handshake => "initialize"
  | ping => "ping"
  | listTools => "tools/list"
  | callTool => "tools/call"
  | listResources => "resources/list"
  | listTemplates => "resources/templates/list"
  | readResource => "resources/read"
  | subscribe => "resources/subscribe"
  | unsubscribe => "resources/unsubscribe"
  | listPrompts => "prompts/list"
  | getPrompt => "prompts/get"
  | listRoots => "roots/list"
  | complete => "completion/complete"
  | setLevel => "logging/setLevel"

def all : List Method :=
  [handshake, ping, listTools, callTool, listResources, listTemplates, readResource, subscribe,
    unsubscribe, listPrompts, getPrompt, listRoots, complete, setLevel]

def ofName? (text : String) : Option Method := all.find? (·.name == text)

theorem mem_all (m : Method) : m ∈ all := by cases m <;> simp [all]

theorem ofName?_name (m : Method) : ofName? m.name = some m := by cases m <;> decide

theorem name_of_ofName? {text : String} {m : Method} (h : ofName? text = some m) : m.name = text := by
  simpa using List.find?_some h

end Method

end ContextServer
