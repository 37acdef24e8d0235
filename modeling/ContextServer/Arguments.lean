import ContextServer.Binary64
import ContextServer.Json.Basic

/-!
Lenient reading of loosely typed input. A member may be missing, explicitly `null`, or present; the
typed views give `none` for whatever is absent or of another type. A value that is not an object has
no members.
-/

namespace ContextServer

inductive Field where
  | missing
  | null
  | present (value : Json)

/-- The value, if there is one that is not `null`. -/
def Field.value? : Field → Option Json
  | .present v => some v
  | _ => none

/-- A number as a signed 64-bit integer: fractions are cut off and values out of range are held at the
ends. -/
def Number.toSigned (n : Number) : Int :=
  n.signed?.getD (Binary64.truncate n.toFloat)

namespace Json

/-- Looks a member up, keeping `missing` and `null` apart. -/
def field (v : Json) (key : String) : Field :=
  match v.member? key with
  | none => .missing
  | some .null => .null
  | some value => .present value

/-- Whether the member is there, be it `null`. -/
def hasField (v : Json) (key : String) : Bool := (v.member? key).isSome

def stringAt? (v : Json) (key : String) : Option String := (v.field key).value?.bind string?

/-- A string member, or the empty text. -/
def stringAt (v : Json) (key : String) : String := (v.stringAt? key).getD ""

def integerAt? (v : Json) (key : String) : Option Int :=
  ((v.field key).value?.bind number?).map Number.toSigned

def floatAt? (v : Json) (key : String) : Option Float :=
  ((v.field key).value?.bind number?).map Number.toFloat

def boolAt? (v : Json) (key : String) : Option Bool := (v.field key).value?.bind bool?

def objectAt? (v : Json) (key : String) : Option Json :=
  match (v.field key).value? with
  | some (.object members) => some (.object members)
  | _ => none

/-- The arguments of a call: whatever is not an object counts as no arguments. -/
def arguments : Option Json → Json
  | some (.object members) => .object members
  | _ => .object []

end Json

end ContextServer
