import ContextServer.Arguments
import ContextServer.Content
import ContextServer.Outbound

/-!
Asking the person at the client for input: a message and a flat form.
-/

namespace ContextServer

namespace Elicitation

inductive FieldType where
  | text
  | number
  | integer
  | truth
  deriving DecidableEq

def FieldType.name : FieldType → String
  | text => "string"
  | number => "number"
  | integer => "integer"
  | truth => "boolean"

structure FormField where
  name : String
  type : FieldType
  title : Option String := none
  description : Option String := none
  required : Bool := false
  choices : List String := []
  minimum : Option Float := none
  maximum : Option Float := none

def FormField.schema (f : FormField) : Json :=
  .object ([("type", .string f.type.name)]
    ++ optionalMember "title" (f.title.map .string)
    ++ optionalMember "description" (f.description.map .string)
    ++ (if f.choices.isEmpty then [] else [("enum", .strings f.choices)])
    ++ optionalMember "minimum" (f.minimum.map .float)
    ++ optionalMember "maximum" (f.maximum.map .float))

structure Request where
  message : String := ""
  fields : List FormField := []

/-- The schema of the whole form; of fields of one name the last counts. -/
def Request.schema (r : Request) : Json :=
  .object [("type", .string "object"),
    ("properties", .object (r.fields.map fun f => (f.name, f.schema))),
    ("required", .strings ((r.fields.filter FormField.required).map FormField.name))]

def Request.toClient (r : Request) : ClientRequest where
  method := "elicitation/create"
  params := Json.canonical (.object [("message", .string r.message), ("requestedSchema", r.schema)])

/-- The first identifier where elicitation counts alone. -/
def firstId : Int := 8000

inductive Action where
  | accept
  | decline
  | cancel
  deriving DecidableEq

/-- The person's reply: the values are an object, empty unless the form was accepted. -/
structure Response where
  action : Action
  content : Json

/-- Reads a result; what is no known action counts as cancelled. -/
def Response.ofJson (result : Json) : Response :=
  match result.stringAt? "action" with
  | some "accept" => ⟨.accept, (result.objectAt? "content").getD (.object [])⟩
  | some "decline" => ⟨.decline, .object []⟩
  | _ => ⟨.cancel, .object []⟩

/-- The response to a reply; an error counts as cancelled. -/
def Response.ofOutcome : Except Json Json → Response
  | .ok result => ofJson result
  | .error _ => ⟨.cancel, .object []⟩

end Elicitation

end ContextServer
