import ContextServer.Decimal.Reading
import ContextServer.Json.Basic

/-!
Reading JSON text. A reader takes characters and gives a value and the characters left. Blanks are
space, tab, line feed and carriage return; control characters inside strings must be escaped, and an
escaped surrogate must be one half of a pair. Containers may nest 127 deep.
-/

namespace ContextServer

namespace Json

/-- A value and what is left of the text. -/
abbrev Reading (α : Type) := Option (α × List Char)

def isBlank (c : Char) : Bool := c == ' ' || c == '\t' || c == '\n' || c == '\r'

def skipBlanks (cs : List Char) : List Char := cs.dropWhile isBlank

/-! ### Strings -/

/-- The value of a hexadecimal digit of either case. -/
def hexValue? (c : Char) : Option Nat :=
  if '0' ≤ c ∧ c ≤ '9' then some (c.toNat - '0'.toNat)
  else if 'a' ≤ c ∧ c ≤ 'f' then some (c.toNat - 'a'.toNat + 10)
  else if 'A' ≤ c ∧ c ≤ 'F' then some (c.toNat - 'A'.toNat + 10)
  else none

/-- The 16-bit unit that four hexadecimal digits stand for. -/
def unit? (a b c d : Char) : Option Nat := do
  return (← hexValue? a) * 4096 + (← hexValue? b) * 256 + (← hexValue? c) * 16 + (← hexValue? d)

/-- The character of a one-letter escape. -/
def shortEscape? : Char → Option Char
  | '"' => some '"'
  | '\\' => some '\\'
  | '/' => some '/'
  | 'b' => some (Char.ofNat 8)
  | 'f' => some (Char.ofNat 12)
  | 'n' => some '\n'
  | 'r' => some '\r'
  | 't' => some '\t'
  | _ => none

/-- The character of a unit that is not a surrogate. -/
def plainUnit? (unit : Nat) : Option Char :=
  if 0xD800 ≤ unit ∧ unit < 0xE000 then none else some (Char.ofNat unit)

/-- The character of a high and a low surrogate. -/
def pair? (high low : Nat) : Option Char :=
  if 0xD800 ≤ high ∧ high < 0xDC00 ∧ 0xDC00 ≤ low ∧ low < 0xE000 then
    some (Char.ofNat (0x10000 + (high - 0xD800) * 1024 + (low - 0xDC00)))
  else none

/-- The rest of a string after its opening quote; `acc` holds the characters read, latest first. -/
def readChars (acc : List Char) : List Char → Reading String
  | [] => none
  | '"' :: rest => some (String.ofList acc.reverse, rest)
  | '\\' :: 'u' :: a :: b :: c :: d :: rest =>
    match unit? a b c d with
    | none => none
    | some unit =>
      match plainUnit? unit with
      | some char => readChars (char :: acc) rest
      | none =>
        -- one half of a pair: the other half has to follow at once
        match rest with
        | '\\' :: 'u' :: e :: f :: g :: h :: rest =>
          match (unit? e f g h).bind (pair? unit) with
          | some char => readChars (char :: acc) rest
          | none => none
        | _ => none
  | '\\' :: letter :: rest =>
    match shortEscape? letter with
    | some char => readChars (char :: acc) rest
    | none => none
  | c :: rest => if c = '\\' ∨ c.toNat < 32 then none else readChars (c :: acc) rest

/-! ### Numbers -/

/-- The leading decimal digits, at least one, and the rest. -/
def readDigits (cs : List Char) : Reading (List Char) :=
  match cs.takeWhile Char.isDigit with
  | [] => none
  | digits => some (digits, cs.dropWhile Char.isDigit)

/-- The digits before the point: a lone zero, or digits that do not start with one. -/
def readWhole : List Char → Reading (List Char)
  | '0' :: rest => some (['0'], rest)
  | cs => readDigits cs

/-- The digits after a point, if there is one. -/
def readFraction : List Char → Reading (Option (List Char))
  | '.' :: rest => (readDigits rest).map fun (digits, rest) => (some digits, rest)
  | cs => some (none, cs)

/-- An exponent, if there is one. -/
def readExponent : List Char → Reading (Option Int)
  | c :: rest =>
    if c = 'e' ∨ c = 'E' then
      match rest with
      | '-' :: rest => (readDigits rest).map fun (digits, rest) =>
          (some (-(Decimal.ofDigits digits : Int)), rest)
      | '+' :: rest => (readDigits rest).map fun (digits, rest) =>
          (some (Decimal.ofDigits digits), rest)
      | rest => (readDigits rest).map fun (digits, rest) => (some (Decimal.ofDigits digits), rest)
    else some (none, c :: rest)
  | [] => some (none, [])

/-- The number that a literal is taken for. A literal without fraction and exponent is whole if it fits
64 bits, unsigned or with a sign; `-0` and every other literal is a float, and one past the largest float
is no number. -/
def literal? (negative : Bool) (whole : List Char) (fraction : Option (List Char))
    (exponent : Option Int) : Option Number :=
  let n := Decimal.ofDigits whole
  let fits := if negative then n ≠ 0 ∧ Range64.Signed (-n) else Range64.Unsigned n
  if fraction = none ∧ exponent = none ∧ fits then
    some (.whole (if negative then -(n : Int) else n))
  else
    (Decimal.ofLiteral whole (fraction.getD []) (exponent.getD 0)).toFloat?.map fun x =>
      .real (if negative then -x else x)

def readNumber (cs : List Char) : Reading Number :=
  let negative := cs.head? == some '-'
  (readWhole (if negative then cs.drop 1 else cs)).bind fun (whole, cs) =>
  (readFraction cs).bind fun (fraction, cs) =>
  (readExponent cs).bind fun (exponent, cs) =>
  (literal? negative whole fraction exponent).map fun number => (number, cs)

/-! ### Values -/

def readScalar : List Char → Reading Json
  | 'n' :: 'u' :: 'l' :: 'l' :: rest => some (.null, rest)
  | 't' :: 'r' :: 'u' :: 'e' :: rest => some (.bool true, rest)
  | 'f' :: 'a' :: 'l' :: 's' :: 'e' :: rest => some (.bool false, rest)
  | '"' :: rest => (readChars [] rest).map fun (s, rest) => (.string s, rest)
  | cs => (readNumber cs).map fun (n, rest) => (.number n, rest)

/-- Entries separated by commas up to a closing mark, at least one. Every entry takes a character, so
the length of the text is fuel enough; `acc` holds the entries read, latest first. -/
def readSeries {α : Type} (entry : List Char → Reading α) (close : Char) :
    Nat → List α → List Char → Reading (List α)
  | 0, _, _ => none
  | fuel + 1, acc, cs =>
    match entry cs with
    | none => none
    | some (x, rest) =>
      match skipBlanks rest with
      | c :: rest =>
        if c = close then some ((x :: acc).reverse, rest)
        else if c = ',' then readSeries entry close fuel (x :: acc) rest
        else none
      | [] => none

/-- A container's entries after its opening mark; there may be none. -/
def readContents {α : Type} (entry : List Char → Reading α) (close : Char) (cs : List Char) :
    Reading (List α) :=
  match skipBlanks cs with
  | [] => none
  | c :: rest =>
    if c = close then some ([], rest) else readSeries entry close (rest.length + 1) [] (c :: rest)

/-- A member: a quoted key, a colon, a value. -/
def readMember (value : List Char → Reading Json) (cs : List Char) : Reading (String × Json) :=
  match skipBlanks cs with
  | '"' :: rest =>
    match readChars [] rest with
    | none => none
    | some (key, rest) =>
      match skipBlanks rest with
      | ':' :: rest => (value rest).map fun (v, rest) => ((key, v), rest)
      | _ => none
  | _ => none

/-- A value whose containers nest at most `depth` deep. -/
def readValue : Nat → List Char → Reading Json
  | 0, cs => readScalar (skipBlanks cs)
  | depth + 1, cs =>
    match skipBlanks cs with
    | '[' :: rest => (readContents (readValue depth) ']' rest).map fun (items, rest) =>
        (.array items, rest)
    | '{' :: rest => (readContents (readMember (readValue depth)) '}' rest).map fun (members, rest) =>
        (.object members, rest)
    | cs => readScalar cs

def maxDepth : Nat := 127

/-- The value that a whole text stands for, its objects as they were written. -/
def ofWritten? (text : String) : Option Json :=
  match readValue maxDepth text.toList with
  | some (v, rest) => if (skipBlanks rest).isEmpty then some v else none
  | none => none

/-- The value that a whole text stands for, in canonical order. -/
def ofText? (text : String) : Option Json := (ofWritten? text).map canonical

end Json

end ContextServer
