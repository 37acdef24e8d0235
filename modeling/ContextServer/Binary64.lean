import ContextServer.Range64

/-!
Binary64 floats as exact dyadic numbers `±m · 2^e`. `Dyadic.ofFloat` reads the exact value of a finite
float, `Dyadic.toFloat` rounds an exact value to the nearest float (ties to even), and `fusedMulAdd`
combines the two: a product and a sum with one rounding.
-/

namespace ContextServer.Binary64

/-- The number `significand · 2^exponent`, with a sign that zero keeps too. -/
structure Dyadic where
  negative : Bool
  significand : Nat
  exponent : Int

/-- The leading bit of a full significand: `2^52`. -/
def leadingBit : Nat := 1 <<< 52

/-- Rounds `m / 2^places` to the nearest whole number, a half to the even neighbour. -/
def roundShift (m places : Nat) : Nat :=
  let unit := 1 <<< places
  let down := m / unit
  let rest := m % unit
  if 2 * rest < unit then down
  else if 2 * rest = unit then (if down % 2 = 0 then down else down + 1)
  else down + 1

namespace Dyadic

def ofFloat (x : Float) : Dyadic :=
  let bits := x.toBits.toNat
  let fraction := bits % leadingBit
  let field := (bits >>> 52) % 2048
  let negative := bits >>> 63 == 1
  if field = 0 then ⟨negative, fraction, -1074⟩
  else ⟨negative, leadingBit + fraction, (field : Int) - 1075⟩

/-- The bits, sign apart, of the float nearest to `m · 2^e`: its last place is 53 places below the
leading one, and never below `2^-1074`. A value past the largest float becomes infinite. -/
def magnitudeBits (m : Nat) (e : Int) : Nat :=
  if m = 0 then 0
  else
    -- a significand that rounds up to `2^53` carries into the exponent by itself
    let last := max (e + (m.log2 + 1 : Nat) - 53) (-1074)
    let kept := if last ≤ e then m <<< (e - last).toNat else roundShift m (last - e).toNat
    min ((last + 1074).toNat * leadingBit + kept) (2047 * leadingBit)

def toFloat (d : Dyadic) : Float :=
  let magnitude := magnitudeBits d.significand d.exponent
  Float.ofBits (UInt64.ofNat (if d.negative then 2048 * leadingBit + magnitude else magnitude))

def mul (a b : Dyadic) : Dyadic :=
  ⟨a.negative != b.negative, a.significand * b.significand, a.exponent + b.exponent⟩

/-- The significand with its sign, on the grid of a smaller exponent. -/
def onGrid (d : Dyadic) (exponent : Int) : Int :=
  let m : Int := d.significand <<< (d.exponent - exponent).toNat
  if d.negative then -m else m

/-- The exact sum; a zero sum is negative only if both addends are. -/
def add (a b : Dyadic) : Dyadic :=
  let exponent := min a.exponent b.exponent
  let sum := a.onGrid exponent + b.onGrid exponent
  ⟨if sum = 0 then a.negative && b.negative else sum < 0, sum.natAbs, exponent⟩

end Dyadic

/-- The float nearest to `a · b + c`, rounded once. -/
def fusedMulAdd (a b c : Float) : Float :=
  if a.isFinite && b.isFinite then
    if c.isFinite then (((Dyadic.ofFloat a).mul (Dyadic.ofFloat b)).add (Dyadic.ofFloat c)).toFloat
    else c
  else a * b + c

/-- The whole part of a float, cut toward zero and held within the 64-bit signed range; NaN has none
and counts as zero. -/
def truncate (x : Float) : Int :=
  if x.isNaN then 0
  else if x.isFinite then
    let d := Dyadic.ofFloat x
    let whole : Nat := if 0 ≤ d.exponent then d.significand <<< d.exponent.toNat
      else d.significand >>> (-d.exponent).toNat
    Range64.holdSigned (if d.negative then -(whole : Int) else whole)
  else if x < 0 then Range64.minSigned else Range64.maxSigned

end ContextServer.Binary64
