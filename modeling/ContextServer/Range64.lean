/-!
The whole numbers that 64 bits hold, with and without a sign.
-/

namespace ContextServer.Range64

def maxUnsigned : Nat := 18446744073709551615

def maxSigned : Int := 9223372036854775807

def minSigned : Int := -9223372036854775808

abbrev Signed (i : Int) : Prop := minSigned ≤ i ∧ i ≤ maxSigned

abbrev Unsigned (i : Int) : Prop := 0 ≤ i ∧ i ≤ (maxUnsigned : Int)

/-- The number of the signed range that is nearest. -/
def holdSigned (i : Int) : Int := max minSigned (min i maxSigned)

end ContextServer.Range64
