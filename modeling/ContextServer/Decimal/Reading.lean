import ContextServer.Decimal.Shortest
import ContextServer.Range64

/-!
From the digits of a literal to a float. Of the digits as many are kept as 64 bits hold; they become a
float, and that is multiplied with a power of ten or divided by it. Each of the steps rounds, so that the
result may lie beside the float that is nearest to the literal.
-/

namespace ContextServer.Decimal

/-- The number that digits stand for in base ten. -/
def ofDigits (digits : List Char) : Nat :=
  digits.foldl (fun n c => 10 * n + (c.toNat - '0'.toNat)) 0

/-- Puts digits behind a number for as long as 64 bits hold it, and gives the digits that are left. -/
def extend (n : Nat) : List Char → Nat × List Char
  | [] => (n, [])
  | c :: cs =>
    let next := 10 * n + (c.toNat - '0'.toNat)
    if next ≤ Range64.maxUnsigned then extend next cs else (n, c :: cs)

/-- What is kept of a literal. Digits that are left before the point still count as places; behind the
point they do not. -/
def ofLiteral (whole places : List Char) (exponent : Int) : Decimal :=
  let (n, left) := extend 0 whole
  let (m, dropped) := extend n places
  ⟨m, exponent + left.length - (places.length - dropped.length : Nat)⟩

/-- The power of ten as a float. -/
def powerOfTen (k : Nat) : Float := Float.ofScientific 1 false k

/-- The float over `10^k`. The powers of ten end at `10^308`, so that a greater one takes several steps;
a quotient that has become zero stays. -/
def scaledDown (x : Float) (k : Nat) : Float :=
  if k ≤ 308 then x / powerOfTen k
  else if x == 0 then x
  else scaledDown (x / powerOfTen 308) (k - 308)
termination_by k

/-- The float that a decimal is taken for, `none` past the largest. -/
def toFloat? (d : Decimal) : Option Float :=
  if d.significand = 0 then some 0
  else if 308 < d.exponent then none
  else
    let x := Float.ofNat d.significand
    let scaled :=
      if d.exponent < 0 then scaledDown x d.exponent.natAbs else x * powerOfTen d.exponent.toNat
    if scaled.isFinite then some scaled else none

end ContextServer.Decimal
