/-!
UTF-8 octets. Bytes are decoded as far as they are well formed; where they are not, the fault tells the
position of the ill-formed sequence and its length, or that the bytes end inside a character.
-/

namespace ContextServer.Utf8

/-- Why bytes are not UTF-8, and where. -/
inductive Fault where
  | illFormed (index length : Nat)
  | cutShort (index : Nat)
  deriving DecidableEq

def Fault.message : Fault → String
  | illFormed index length =>
    "invalid utf-8 sequence of " ++ toString length ++ " bytes from index " ++ toString index
  | cutShort index => "incomplete utf-8 byte sequence from index " ++ toString index

/-- The range of a character's second octet and how many octets follow the first. -/
def following? (first : UInt8) : Option (UInt8 × UInt8 × Nat) :=
  if 0xC2 ≤ first ∧ first ≤ 0xDF then some (0x80, 0xBF, 1)
  else if first = 0xE0 then some (0xA0, 0xBF, 2)
  else if first = 0xED then some (0x80, 0x9F, 2)
  else if 0xE1 ≤ first ∧ first ≤ 0xEF then some (0x80, 0xBF, 2)
  else if first = 0xF0 then some (0x90, 0xBF, 3)
  else if 0xF1 ≤ first ∧ first ≤ 0xF3 then some (0x80, 0xBF, 3)
  else if first = 0xF4 then some (0x80, 0x8F, 3)
  else none

/-- How a character's octets after the first go on: how many are there in all, or how many stand before
the one that does not fit or before the end. -/
inductive Extent where
  | whole (length : Nat)
  | broken (length : Nat)
  | unfinished (length : Nat)
  deriving DecidableEq

/-- Follows `owed` octets, the first of them within a range, after `seen` octets of the character. -/
def extent (low high : UInt8) (seen : Nat) : Nat → List UInt8 → Extent
  | 0, _ => .whole seen
  | _ + 1, [] => .unfinished seen
  | owed + 1, b :: rest =>
    if low ≤ b ∧ b ≤ high then extent 0x80 0xBF (seen + 1) owed rest else .broken seen

/-- The extent of the first character of some bytes. -/
def firstExtent : List UInt8 → Extent
  | [] => .whole 0
  | b :: rest =>
    if b < 0x80 then .whole 1
    else
      match following? b with
      | none => .broken 1
      | some (low, high, owed) => extent low high 1 owed rest

/-- The first fault of some bytes, if they have one; `skip` octets belong to the character before. -/
def faultFrom (index skip : Nat) : List UInt8 → Option Fault
  | [] => none
  | b :: rest =>
    match skip with
    | skip + 1 => faultFrom (index + 1) skip rest
    | 0 =>
      match firstExtent (b :: rest) with
      | .whole length => faultFrom (index + 1) (length - 1) rest
      | .broken length => some (.illFormed index length)
      | .unfinished _ => some (.cutShort index)

def decode (bytes : List UInt8) : Except Fault String :=
  match String.fromUTF8? ⟨bytes.toArray⟩ with
  | some text => .ok text
  | none => .error ((faultFrom 0 0 bytes).getD (.cutShort 0))

def encode (text : String) : List UInt8 := text.toUTF8.data.toList

end ContextServer.Utf8
