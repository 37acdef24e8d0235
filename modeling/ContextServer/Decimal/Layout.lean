import ContextServer.Decimal.Shortest

/-!
How a float is laid out as text: where a tie between two shortest decimals goes, which exponents are
written positionally, what a whole number ends in, and how an exponent is written otherwise.
-/

namespace ContextServer.Decimal

/-- The choices of one written form. `tie` picks between two shortest decimals that are equally near;
`positional` tells of a leading exponent whether the number is written without one; `wholeEnd` closes
a positional whole number. -/
structure Layout where
  tie : Tie
  positional : Int → Bool
  wholeEnd : List Char

namespace Layout

/-- Digits with the point after the digit of weight one. -/
def writePositional (l : Layout) (digits : List Char) (leading : Int) : List Char :=
  if leading < 0 then
    '0' :: '.' :: (List.replicate (-leading - 1).toNat '0' ++ digits)
  else
    let whole := leading.toNat + 1
    if digits.length ≤ whole then
      digits ++ List.replicate (whole - digits.length) '0' ++ l.wholeEnd
    else digits.take whole ++ '.' :: digits.drop whole

/-- One digit, the point, the rest, and the exponent with its sign. -/
def writeScientific (digits : List Char) (leading : Int) : List Char :=
  let fraction := if digits.length ≤ 1 then [] else '.' :: digits.drop 1
  let sign := if leading < 0 then '-' else '+'
  digits.take 1 ++ fraction ++ 'e' :: sign :: Nat.toDigits 10 leading.natAbs

/-- A decimal that is not negative. -/
def write (l : Layout) (d : Decimal) : List Char :=
  let digits := Nat.toDigits 10 d.significand
  let leading : Int := d.exponent + digits.length - 1
  if l.positional leading then l.writePositional digits leading else writeScientific digits leading

/-- A finite float by its shortest decimal; zero keeps its sign. -/
def writeFloat (l : Layout) (x : Float) : List Char :=
  let text := l.write (shortest l.tie x)
  if (Binary64.Dyadic.ofFloat x).negative then '-' :: text else text

/-- Numbers inside messages for people are always positional, whole ones have no point, and a tie goes
away from zero. -/
def plain : Layout := ⟨.away, fun _ => true, []⟩

end Layout

end ContextServer.Decimal
