import Mathlib
import ContextServer.TokenBucket

/-!
The token bucket over the rational numbers, where time, rate and level are exact and nothing is
rounded.
-/

namespace ContextServer

instance : LevelArithmetic Rat where
  ofCount n := n
  nonnegative rate := max rate 0
  refill elapsed rate level cap := min ((elapsed : Rat) / 1000000000 * rate + level) cap
  spend? level := if 1 ≤ level then some (level - 1) else none

end ContextServer
