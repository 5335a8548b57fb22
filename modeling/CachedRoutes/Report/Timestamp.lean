/-!
# Points in time

A point in time is a number of seconds since the start of 1970, UTC, and nanoseconds. A second with
a billion nanoseconds or more is a leap second. The written form is that of RFC 3339 with the offset
`+00:00` and as many digits of the second as are needed, in groups of three.
-/

namespace CachedRoutes

/-- A point in time. -/
structure Timestamp where
  /-- Seconds since the start of 1970, UTC. -/
  seconds : Int
  /-- Nanoseconds of the second; a billion and more in a leap second. -/
  nanoseconds : Nat
  deriving DecidableEq, Repr

namespace Timestamp

/-- A day of the calendar. -/
structure Day where
  year : Int
  month : Nat
  day : Nat
  deriving DecidableEq, Repr

/-- The day so many days after the first of January 1970. Years are counted from March, so that the
leap day is the last of its year; 146097 days are 400 years. -/
def dayOf (days : Int) : Day :=
  let shifted := days + 719468
  let era := shifted / 146097
  let dayOfEra := (shifted % 146097).toNat
  let yearOfEra := (dayOfEra - dayOfEra / 1460 + dayOfEra / 36524 - dayOfEra / 146096) / 365
  let dayOfYear := dayOfEra - (365 * yearOfEra + yearOfEra / 4 - yearOfEra / 100)
  let shiftedMonth := (5 * dayOfYear + 2) / 153
  let day := dayOfYear - (153 * shiftedMonth + 2) / 5 + 1
  let month := if shiftedMonth < 10 then shiftedMonth + 3 else shiftedMonth - 9
  { year := yearOfEra + era * 400 + (if month ≤ 2 then 1 else 0), month, day }

/-- A number with at least so many digits. -/
def padded (width n : Nat) : String :=
  let digits := toString n
  "".pushn '0' (width - digits.length) ++ digits

/-- A year with four digits; one before 0 or after 9999 has its sign. -/
def writeYear (year : Int) : String :=
  if 0 ≤ year ∧ year ≤ 9999 then padded 4 year.toNat
  else (if year < 0 then "-" else "+") ++ padded 4 year.natAbs

/-- The digits of the second after the point: none, three, six or nine. -/
def writeFraction (nanoseconds : Nat) : String :=
  if nanoseconds = 0 then ""
  else if nanoseconds % 1000000 = 0 then "." ++ padded 3 (nanoseconds / 1000000)
  else if nanoseconds % 1000 = 0 then "." ++ padded 6 (nanoseconds / 1000)
  else "." ++ padded 9 nanoseconds

/-- The written form of a point in time. -/
def write (time : Timestamp) : String :=
  let day := dayOf (time.seconds / 86400)
  let second := (time.seconds % 86400).toNat
  let leap := time.nanoseconds / 1000000000
  writeYear day.year ++ "-" ++ padded 2 day.month ++ "-" ++ padded 2 day.day ++ "T"
    ++ padded 2 (second / 3600) ++ ":" ++ padded 2 (second / 60 % 60) ++ ":"
    ++ padded 2 (second % 60 + leap) ++ writeFraction (time.nanoseconds % 1000000000) ++ "+00:00"

end Timestamp

end CachedRoutes
