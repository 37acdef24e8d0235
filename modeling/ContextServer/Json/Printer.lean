import ContextServer.Decimal.Layout
import ContextServer.Json.Basic

/-!
The text of a JSON value: no blanks, members as they stand, strings with the shortest escapes, reals
by their shortest decimal. `write v rest` is the text of `v` followed by `rest`.
-/

namespace ContextServer

/-- Reals have a fraction or an exponent, so that they read back as reals: positional between `10^-5`
and `10^16`, with `.0` on whole ones, and otherwise with a signed exponent. A tie goes to the even
digit. -/
def Number.layout : Decimal.Layout := ⟨.toEven, fun e => -5 ≤ e && e < 16, ['.', '0']⟩

def Number.writeInt : Int → List Char
  | .ofNat n => Nat.toDigits 10 n
  | .negSucc n => '-' :: Nat.toDigits 10 (n + 1)

def Number.write : Number → List Char
  | .whole i => writeInt i
  | .real x => layout.writeFloat x

def Number.text (n : Number) : String := String.ofList n.write

namespace Json

def hexDigit (n : Nat) : Char := Nat.digitChar n

/-- A character inside quotes: quotes, backslashes and control characters are escaped. -/
def escapeChar (c : Char) : List Char :=
  if c = '"' then ['\\', '"']
  else if c = '\\' then ['\\', '\\']
  else if 32 ≤ c.toNat then [c]
  else match c.toNat with
    | 8 => ['\\', 'b']
    | 9 => ['\\', 't']
    | 10 => ['\\', 'n']
    | 12 => ['\\', 'f']
    | 13 => ['\\', 'r']
    | n => ['\\', 'u', '0', '0', hexDigit (n / 16), hexDigit (n % 16)]

/-- A quoted string, then `rest`. -/
def writeString (s : String) (rest : List Char) : List Char :=
  '"' :: s.toList.foldr (fun c tail => escapeChar c ++ tail) ('"' :: rest)

mutual

/-- The text of a value, then `rest`. -/
def write : Json → List Char → List Char
  | .null, rest => 'n' :: 'u' :: 'l' :: 'l' :: rest
  | .bool true, rest => 't' :: 'r' :: 'u' :: 'e' :: rest
  | .bool false, rest => 'f' :: 'a' :: 'l' :: 's' :: 'e' :: rest
  | .number n, rest => n.write ++ rest
  | .string s, rest => writeString s rest
  | .array [], rest => '[' :: ']' :: rest
  | .array (item :: more), rest => '[' :: write item (writeItems more rest)
  | .object [], rest => '{' :: '}' :: rest
  | .object ((key, value) :: more), rest =>
    '{' :: writeString key (':' :: write value (writeMembers more rest))

/-- Further items, each after a comma, and the closing bracket. -/
def writeItems : List Json → List Char → List Char
  | [], rest => ']' :: rest
  | item :: more, rest => ',' :: write item (writeItems more rest)

/-- Further members, each after a comma, and the closing brace. -/
def writeMembers : List (String × Json) → List Char → List Char
  | [], rest => '}' :: rest
  | (key, value) :: more, rest =>
    ',' :: writeString key (':' :: write value (writeMembers more rest))

end

def text (v : Json) : String := String.ofList (v.write [])

end Json

end ContextServer
