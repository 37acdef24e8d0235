import ContextServer.Json.Basic

/-!
Records in JSON. A record with named fields is written as an object, or as an array of its fields in
their order. Fields may be left out, in an array only from the end; an array may not have more items
than there are fields, and no field may be written twice. A closed record has no other members.
-/

namespace ContextServer.Json

def record? (closed : Bool) (names : List String) : Json → Option (List (Option Json))
  | .object members =>
    let known := !closed || members.all fun member => names.contains member.1
    let once := names.all fun name => (members.filter fun member => member.1 == name).length ≤ 1
    if known && once then some (names.map fun name => members.lookup name) else none
  | .array items =>
    if items.length ≤ names.length then some ((List.range names.length).map fun i => items[i]?)
    else none
  | _ => none

/-! ### Fields -/

/-- A text, or the default if it is left out. -/
def textField? (default : String) : Option Json → Option String
  | none => some default
  | some v => v.string?

/-- A text, or nothing if it is left out or `null`. -/
def optionalTextField? : Option Json → Option (Option String)
  | none | some .null => some none
  | some v => v.string?.map some

/-- A whole number that fits 64 bits without a sign, or the default if it is left out. -/
def countField? (default : Nat) : Option Json → Option Nat
  | none => some default
  | some (.number (.whole i)) => if Range64.Unsigned i then some i.toNat else none
  | some _ => none

/-- A number as a float, or the default if it is left out. -/
def floatField? (default : Float) : Option Json → Option Float
  | none => some default
  | some v => v.number?.map Number.toFloat

/-- A part that is read on its own, or the default if it is left out. -/
def partField? {α : Type} (read : Json → Option α) (default : α) : Option Json → Option α
  | none => some default
  | some v => read v

/-- A list whose items are read on their own, empty if it is left out. -/
def listField? {α : Type} (read : Json → Option α) : Option Json → Option (List α)
  | none => some []
  | some v => v.items?.bind fun items => items.mapM read

end ContextServer.Json
