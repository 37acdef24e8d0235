import ContextServer.Json.Printer

/-!
Message identifiers. A request names itself by a number, a text or `null`, and its reply repeats that
value. Two numeric identifiers are the same when the numbers agree, so `1` and `1.0` are different.
-/

namespace ContextServer

inductive RequestId where
  | number (value : Number)
  | text (value : String)
  | null

namespace RequestId

/-- The identifier that a value stands for. Truth values, arrays and objects identify nothing. -/
def ofJson? : Json → Option RequestId
  | .number n => some (.number n)
  | .string s => some (.text s)
  | .null => some .null
  | _ => none

def toJson : RequestId → Json
  | .number n => .number n
  | .text s => .string s
  | .null => .null

def agrees : RequestId → RequestId → Bool
  | .number a, .number b => a.agrees b
  | .text a, .text b => a == b
  | .null, .null => true
  | _, _ => false

instance : BEq RequestId := ⟨agrees⟩

/-- The identifier for people to read; a text stands without quotes. -/
def display : RequestId → String
  | .number n => n.text
  | .text s => s
  | .null => "null"

/-- The whole number that identifies a request of the server's own. -/
def signed? : RequestId → Option Int
  | .number n => n.signed?
  | _ => none

theorem ofJson?_toJson (id : RequestId) : ofJson? id.toJson = some id := by cases id <;> rfl

end RequestId

end ContextServer
