/-!
Time. Instants count nanoseconds after a fixed start and never before it; points of civil time count
nanoseconds from the start of 1970 in either direction. Time that would have passed backwards counts
as none.
-/

namespace ContextServer

/-- Nanoseconds after a fixed start. -/
abbrev Instant := Nat

/-- A length of time in nanoseconds. -/
abbrev Span := Nat

/-- Nanoseconds from the start of 1970, coordinated universal time. -/
abbrev Timestamp := Int

namespace Span

def ofMillis (ms : Nat) : Span := ms * 1000000

def ofSeconds (s : Nat) : Span := s * 1000000000

/-- Whole milliseconds. -/
def millis (d : Span) : Nat := d / 1000000

/-- Whole seconds. -/
def seconds (d : Span) : Nat := d / 1000000000

end Span

/-- The time from an earlier instant to `now`. -/
def Instant.since (now earlier : Instant) : Span := now - earlier

/-- The time from an earlier point to `now`. -/
def Timestamp.since (now earlier : Timestamp) : Span := (now - earlier).toNat

namespace Timestamp

/-- Year, month and day of a number of days from the start of 1970, by the Gregorian calendar. Years
are counted from March, so that a leap day ends one. -/
def civilDate (days : Int) : Int × Nat × Nat :=
  let shifted := days + 719468
  let era := shifted.fdiv 146097
  let dayOfEra := (shifted - era * 146097).toNat
  let yearOfEra := (dayOfEra - dayOfEra / 1460 + dayOfEra / 36524 - dayOfEra / 146096) / 365
  let dayOfYear := dayOfEra - (365 * yearOfEra + yearOfEra / 4 - yearOfEra / 100)
  let marchMonth := (5 * dayOfYear + 2) / 153
  let day := dayOfYear - (153 * marchMonth + 2) / 5 + 1
  let month := if marchMonth < 10 then marchMonth + 3 else marchMonth - 9
  let year := yearOfEra + era * 400 + (if month ≤ 2 then 1 else 0)
  (year, month, day)

/-- A number in at least `width` digits. -/
def padded (width n : Nat) : String :=
  let digits := Nat.toDigits 10 n
  String.ofList (List.replicate (width - digits.length) '0' ++ digits)

/-- A year in four digits; one outside them bears a sign. -/
def yearText (year : Int) : String :=
  if 0 ≤ year ∧ year ≤ 9999 then padded 4 year.toNat
  else (if year < 0 then "-" else "+") ++ padded 4 year.natAbs

/-- The part of a second: nothing, or as many groups of three digits as it takes. -/
def fractionText (nanos : Nat) : String :=
  if nanos = 0 then ""
  else if nanos % 1000000 = 0 then "." ++ padded 3 (nanos / 1000000)
  else if nanos % 1000 = 0 then "." ++ padded 6 (nanos / 1000)
  else "." ++ padded 9 nanos

/-- Date and time as in `1970-01-01T00:00:26.006+00:00`. -/
def text (t : Timestamp) : String :=
  let seconds := t.fdiv 1000000000
  let nanos := (t - seconds * 1000000000).toNat
  let days := seconds.fdiv 86400
  let ofDay := (seconds - days * 86400).toNat
  let (year, month, day) := civilDate days
  yearText year ++ "-" ++ padded 2 month ++ "-" ++ padded 2 day ++ "T"
    ++ padded 2 (ofDay / 3600) ++ ":" ++ padded 2 (ofDay / 60 % 60) ++ ":" ++ padded 2 (ofDay % 60)
    ++ fractionText nanos ++ "+00:00"

end Timestamp

end ContextServer
