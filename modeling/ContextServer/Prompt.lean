import ContextServer.Handler
import ContextServer.Json.Printer

/-!
Prompts: named sequences of messages that a handler builds from text arguments.
-/

namespace ContextServer

structure PromptParameter where
  name : String
  description : String
  required : Bool

def PromptParameter.toJson (p : PromptParameter) : Json :=
  .object [("name", .string p.name), ("description", .string p.description),
    ("required", .bool p.required)]

structure PromptMessage where
  role : Role
  content : Content

def PromptMessage.toJson (m : PromptMessage) : Json :=
  .object [("role", .string m.role.name), ("content", m.content.toJson)]

/-- The texts that a prompt is given, by name. -/
abbrev PromptArguments := List (String × String)

/-- A registered prompt. A crash of its handler gives no messages. -/
structure Prompt (Device : Type) where
  name : String
  title : Option String := none
  description : String
  parameters : List PromptParameter
  icons : List Icon := []
  run : PromptArguments → OnDevice Device (Option (List PromptMessage))

namespace Prompt

variable {Device : Type}

def toJson (p : Prompt Device) : Json :=
  .object ([("name", .string p.name)]
    ++ optionalMember "title" (p.title.map .string)
    ++ [("description", .string p.description)]
    ++ (if p.parameters.isEmpty then []
        else [("arguments", .array (p.parameters.map PromptParameter.toJson))])
    ++ iconsMember p.icons)

/-- The first required argument that is not supplied. -/
def missing? (p : Prompt Device) (supplied : PromptArguments) : Option String :=
  (p.parameters.find? fun parameter =>
    parameter.required && !supplied.any (·.1 == parameter.name)).map PromptParameter.name

/-- The text of a supplied value: strings stand for themselves, `null` supplies nothing, and any other
value is given by its JSON text. -/
def argumentText? : Json → Option String
  | .null => none
  | .string s => some s
  | other => some other.text

def suppliedArguments (members : List (String × Json)) : PromptArguments :=
  members.filterMap fun member => (argumentText? member.2).map fun text => (member.1, text)

end Prompt

end ContextServer
