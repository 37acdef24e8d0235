import ContextServer.Range64

/-!
JSON values. An object keeps its members as they were written; `Json.canonical` puts the members of
every object into ascending order of their keys and lets the last of equal keys win, which is the form
in which values are stored and sent. Whole numbers and reals are different values, also when they are
equal as numbers.
-/

namespace ContextServer

/-- A number: whole, or a finite binary64 float. -/
inductive Number where
  | whole (value : Int)
  | real (value : Float)

inductive Json where
  | null
  | bool (value : Bool)
  | number (value : Number)
  | string (value : String)
  | array (items : List Json)
  | object (members : List (String × Json))

instance : Inhabited Json := ⟨.null⟩

/-- Numbers agree when they are of one kind and equal, reals by the rules of floats. -/
def Number.agrees : Number → Number → Bool
  | .whole a, .whole b => a == b
  | .real a, .real b => a == b
  | _, _ => false

/-- The whole number, where it fits the signed 64-bit range. -/
def Number.signed? : Number → Option Int
  | .whole i => if Range64.Signed i then some i else none
  | .real _ => none

/-- The nearest float. -/
def Number.toFloat : Number → Float
  | .whole i => Float.ofInt i
  | .real x => x

namespace Json

def int (i : Int) : Json := .number (.whole i)

def nat (n : Nat) : Json := .number (.whole n)

/-- A float; what is not finite has no number and is `null`. -/
def float (x : Float) : Json := if x.isFinite then .number (.real x) else .null

def strings (texts : List String) : Json := .array (texts.map .string)

/-! ### Canonical order -/

/-- Adds a member to sorted ones. A member of the same key is replaced. -/
def insertMember (key : String) (value : Json) : List (String × Json) → List (String × Json)
  | [] => [(key, value)]
  | member :: rest =>
    if key < member.1 then (key, value) :: member :: rest
    else if key = member.1 then (key, value) :: rest
    else member :: insertMember key value rest

/-- Sorted members, the last of equal keys kept. -/
def sortMembers (members : List (String × Json)) : List (String × Json) :=
  members.foldl (fun sorted member => insertMember member.1 member.2 sorted) []

mutual

/-- The value with the members of every object sorted. -/
def canonical : Json → Json
  | .array items => .array (canonicalItems items)
  | .object members => .object (sortMembers (canonicalMembers members))
  | .null => .null
  | .bool b => .bool b
  | .number n => .number n
  | .string s => .string s

def canonicalItems : List Json → List Json
  | [] => []
  | item :: rest => canonical item :: canonicalItems rest

def canonicalMembers : List (String × Json) → List (String × Json)
  | [] => []
  | (key, value) :: rest => (key, canonical value) :: canonicalMembers rest

end

/-! ### Views -/

def string? : Json → Option String
  | .string s => some s
  | _ => none

def number? : Json → Option Number
  | .number n => some n
  | _ => none

def bool? : Json → Option Bool
  | .bool b => some b
  | _ => none

def items? : Json → Option (List Json)
  | .array items => some items
  | _ => none

def members? : Json → Option (List (String × Json))
  | .object members => some members
  | _ => none

/-- Whether the value is an object or an array. -/
def isContainer : Json → Bool
  | .array _ | .object _ => true
  | _ => false

/-- The member under a key; only objects have members. -/
def member? (v : Json) (key : String) : Option Json :=
  v.members?.bind fun members => members.lookup key

end Json

end ContextServer
