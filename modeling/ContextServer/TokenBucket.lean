import ContextServer.Binary64
import ContextServer.Clock

/-!
Admission by a token bucket. The bucket fills at a rate up to its capacity, and every admission takes
one token. The arithmetic of the level is a parameter: the server counts in floats, where a refill is
rounded once.
-/

namespace ContextServer

/-- The arithmetic in which a bucket's level is kept. -/
class LevelArithmetic (α : Type) where
  /-- The level of that many tokens. -/
  ofCount : Nat → α
  /-- A rate, held at zero from below. -/
  nonnegative : α → α
  /-- The level after a time at a rate, held at a cap. -/
  refill : (elapsed : Span) → (rate level cap : α) → α
  /-- The level with one token less, if there is one. -/
  spend? : α → Option α

/-- Seconds as a float: the whole ones and the rest, each rounded. -/
def Span.toFloatSeconds (d : Span) : Float :=
  Float.ofNat (d / 1000000000) + Float.ofNat (d % 1000000000) / 1000000000

instance : LevelArithmetic Float where
  ofCount := Float.ofNat
  nonnegative rate := if 0 < rate then rate else 0
  refill elapsed rate level cap :=
    let filled := Binary64.fusedMulAdd (Span.toFloatSeconds elapsed) rate level
    if filled < cap then filled else cap
  spend? level := if 1 ≤ level then some (level - 1) else none

/-- A token bucket. Until it is configured it admits everything. -/
structure TokenBucket (α : Type) where
  enabled : Bool := false
  rate : α
  capacity : Nat := 0
  level : α
  refilledAt : Instant := 0
  allowed : Nat := 0
  denied : Nat := 0

namespace TokenBucket

variable {α : Type} [LevelArithmetic α]

def off : TokenBucket α :=
  { rate := LevelArithmetic.ofCount 0, level := LevelArithmetic.ofCount 0 }

/-- Switches the bucket on with a rate per second and a capacity, and fills it. The counts go on. -/
def configure (b : TokenBucket α) (rate : α) (capacity : Nat) (now : Instant) : TokenBucket α :=
  { b with
    enabled := true
    rate := LevelArithmetic.nonnegative rate
    capacity
    level := LevelArithmetic.ofCount capacity
    refilledAt := now }

def disable (b : TokenBucket α) : TokenBucket α := { b with enabled := false }

def resetCounts (b : TokenBucket α) : TokenBucket α := { b with allowed := 0, denied := 0 }

/-- The bucket with the tokens that have come since the last refill. -/
def refill (b : TokenBucket α) (now : Instant) : TokenBucket α :=
  { b with
    level := LevelArithmetic.refill (now.since b.refilledAt) b.rate b.level
      (LevelArithmetic.ofCount b.capacity)
    refilledAt := now }

/-- Takes one token, if there is one. A bucket that is off admits without counting. -/
def acquire (b : TokenBucket α) (now : Instant) : Bool × TokenBucket α :=
  if !b.enabled then (true, b)
  else
    let filled := b.refill now
    match LevelArithmetic.spend? filled.level with
    | some level => (true, { filled with level, allowed := filled.allowed + 1 })
    | none => (false, { filled with denied := filled.denied + 1 })

end TokenBucket

end ContextServer
