import ContextServer.Range64

/-!
Lists in pages. A cursor is the decimal text of an offset; a page size of zero gives the whole list.
-/

namespace ContextServer

/-- One page and the cursor of the next, if entries remain. -/
structure Page (α : Type) where
  items : List α
  next : Option String

/-- A cursor that is no offset. -/
structure InvalidCursor where
  cursor : String

def InvalidCursor.message (e : InvalidCursor) : String := "Invalid cursor: " ++ e.cursor

namespace Page

/-- The number of decimal digits: at least one digit, digits only, and not past the largest offset. -/
def offsetOfDigits? (digits : List Char) : Option Nat :=
  if digits.isEmpty || !digits.all Char.isDigit then none
  else
    let n := digits.foldl (fun n c => 10 * n + (c.toNat - '0'.toNat)) 0
    if n ≤ Range64.maxUnsigned then some n else none

/-- The offset of a cursor: the start for none and for the empty one, and a plus sign may lead. -/
def offset : Option String → Except InvalidCursor Nat
  | none => .ok 0
  | some cursor =>
    let digits := match cursor.toList with
      | '+' :: rest => rest
      | cs => cs
    if cursor.isEmpty then .ok 0
    else
      match offsetOfDigits? digits with
      | some n => .ok n
      | none => .error ⟨cursor⟩

def slice {α : Type} (items : List α) (size offset : Nat) : Page α :=
  let stop := min (offset + size) Range64.maxUnsigned
  ⟨(items.drop offset).take size, if stop < items.length then some (toString stop) else none⟩

/-- The page at a cursor; without a page size the cursor is not looked at. -/
def ofList {α : Type} (items : List α) (size : Nat) (cursor : Option String) :
    Except InvalidCursor (Page α) :=
  if size = 0 then .ok ⟨items, none⟩ else (offset cursor).map (slice items size)

end Page

end ContextServer
