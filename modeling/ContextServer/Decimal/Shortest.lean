import ContextServer.Binary64

/-!
The shortest decimal of a float: the fewest digits that read back as the same float, and of the
decimals with so few digits the one nearest to the float's exact value. Where an exact tie goes is
the caller's choice.
-/

namespace ContextServer

open Binary64

/-- The number `significand · 10^exponent`. -/
structure Decimal where
  significand : Nat
  exponent : Int
  deriving DecidableEq

/-- Where a number goes that lies halfway between two neighbours: to the one with the even last digit,
or away from zero. -/
inductive Tie where
  | toEven
  | away
  deriving DecidableEq

/-- Whether the upper neighbour of `down` takes the tie. -/
def Tie.takesUp : Tie → (down : Nat) → Bool
  | toEven, down => down % 2 == 1
  | away, _ => true

namespace Decimal

/-- How many decimal digits a number has (none for zero). -/
def digitCount (n : Nat) : Nat := if n = 0 then 0 else (Nat.toDigits 10 n).length

/-- The reals that round to one float, as fractions over a common denominator: the exact value, and
the ends of the interval, which belong to it when the significand is even. -/
structure Interval where
  low : Nat
  value : Nat
  high : Nat
  denominator : Nat
  closed : Bool

/-- The interval of a float `m · 2^q`. Below a power of two the floats stand twice as close. -/
def Interval.ofDyadic (m : Nat) (q : Int) : Interval :=
  -- in quarters of the last place, where both ends are whole
  let below := if m = leadingBit ∧ -1074 < q then 1 else 2
  let scale := 1 <<< (q - 2).toNat
  ⟨(4 * m - below) * scale, 4 * m * scale, (4 * m + 2) * scale, 1 <<< (2 - q).toNat, m % 2 = 0⟩

namespace Interval

/-- Whether a fraction over the interval's denominator lies in it. -/
def holds (i : Interval) (x : Nat) : Bool :=
  if i.closed then i.low ≤ x && x ≤ i.high else i.low < x && x < i.high

/-- The interval in units of `10^k`. -/
def inUnits (i : Interval) (k : Int) : Interval :=
  let up := Nat.pow 10 (-k).toNat
  ⟨i.low * up, i.value * up, i.high * up, i.denominator * Nat.pow 10 k.toNat, i.closed⟩

/-- The exponent of the value's leading decimal digit. -/
def leading (i : Interval) : Int :=
  -- the numbers of digits settle the exponent up to one
  let guess : Int := digitCount i.value - digitCount i.denominator
  let scaled := i.inUnits guess
  if scaled.denominator ≤ scaled.value then guess else guess - 1

/-- The multiple of `10^k` nearest to the value, if one lies in the interval. -/
def nearest? (i : Interval) (tie : Tie) (k : Int) : Option Decimal :=
  let u := i.inUnits k
  let down := u.value / u.denominator
  let rest := u.value % u.denominator
  let fitsDown := u.holds (down * u.denominator)
  let fitsUp := u.holds ((down + 1) * u.denominator)
  let preferUp := u.denominator < 2 * rest || (u.denominator == 2 * rest && tie.takesUp down)
  if fitsUp && (preferUp || !fitsDown) then some ⟨down + 1, k⟩
  else if fitsDown then some ⟨down, k⟩
  else none

end Interval

/-- A decimal without trailing zeros in its significand; the fuel bounds how many are dropped. -/
def trimmed : Nat → Decimal → Decimal
  | 0, d => d
  | fuel + 1, d =>
    if d.significand ≠ 0 ∧ d.significand % 10 = 0 then trimmed fuel ⟨d.significand / 10, d.exponent + 1⟩
    else d

/-- The shortest decimal of a finite float, sign apart. Seventeen digits always suffice. -/
def shortest (tie : Tie) (x : Float) : Decimal :=
  let d := Dyadic.ofFloat x
  if d.significand = 0 then ⟨0, 0⟩
  else
    let interval := Interval.ofDyadic d.significand d.exponent
    let lead := interval.leading
    let found := (List.range 17).findSome? fun (n : Nat) => interval.nearest? tie (lead - n)
    trimmed 20 (found.getD ⟨0, 0⟩)

end Decimal

end ContextServer
