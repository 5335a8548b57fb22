import CachedRoutes.Toml.Quoted

/-!
# Dates and times of TOML

A moment is a date, a time of day, or a date with a time and possibly an offset from UTC. Its normal
form has a capital `T` between date and time, no zeros at the end of the fraction of a second, and
`Z` for UTC itself.

How large the hours of a day and the parts of an offset may get depends on where the moment stands.
-/

namespace CachedRoutes.Toml

/-- The offset of a local time from UTC. -/
inductive Offset where
  | utc
  | minutes (count : Int)
  deriving DecidableEq, Repr

/-- A day of the calendar. -/
structure Date where
  year : Nat
  month : Nat
  day : Nat
  deriving DecidableEq, Repr

/-- A time of day; the second may be a leap second. -/
structure Time where
  hour : Nat
  minute : Nat
  second : Nat
  nanosecond : Nat
  deriving DecidableEq, Repr

/-- A date, a time, or both, with an offset if it is known. -/
structure Moment where
  date : Option Date
  time : Option Time
  offset : Option Offset
  deriving DecidableEq, Repr

/-! ## Reading -/

/-- The greatest numbers that are taken. -/
structure Bounds where
  /-- For the hour of a time. -/
  hour : Nat
  /-- For the hours of an offset. -/
  offsetHours : Nat
  /-- For the minutes of an offset. -/
  offsetMinutes : Nat
  deriving DecidableEq, Repr

/-- The bounds of a moment that is written as a value. -/
def Bounds.strict : Bounds :=
  { hour := 23, offsetHours := 23, offsetMinutes := 59 }

/-- The bounds of a moment in a text: a day may end at hour 24, and an offset only has to be at most
a day. -/
def Bounds.loose : Bounds :=
  { hour := 24, offsetHours := 99, offsetMinutes := 99 }

/-- A number of exactly so many decimal digits, between the given bounds. -/
def digits? (count low high : Nat) (text : List Char) : Option (Nat × List Char) :=
  if text.length < count then none
  else
    match number? 10 (text.take count) with
    | some n => if low ≤ n && n ≤ high then some (n, text.drop count) else none
    | none => none

/-- What follows the given character. -/
def mark? (c : Char) : List Char → Option (List Char)
  | [] => none
  | d :: rest => if d = c then some rest else none

/-- The number of days of a month. -/
def daysIn (year month : Nat) : Nat :=
  if month = 2 then if year % 4 = 0 && (year % 100 != 0 || year % 400 = 0) then 29 else 28
  else if [4, 6, 9, 11].contains month then 30
  else 31

/-- A date at the start of the text. -/
def date? (text : List Char) : Option (Date × List Char) := do
  let (year, text) ← digits? 4 0 9999 text
  let text ← mark? '-' text
  let (month, text) ← digits? 2 1 12 text
  let text ← mark? '-' text
  let (day, text) ← digits? 2 1 (daysIn year month) text
  return ({ year, month, day }, text)

/-- The nanoseconds of a fraction of a second. Digits after the ninth are dropped. -/
def nanoseconds (fraction : List Char) : Nat :=
  let kept := fraction.take 9
  (number? 10 kept).getD 0 * Nat.pow 10 (9 - kept.length)

/-- A time at the start of the text. -/
def time? (bounds : Bounds) (text : List Char) : Option (Time × List Char) := do
  let (hour, text) ← digits? 2 0 bounds.hour text
  let text ← mark? ':' text
  let (minute, text) ← digits? 2 0 59 text
  let text ← mark? ':' text
  let (second, text) ← digits? 2 0 60 text
  match text with
  | '.' :: c :: rest =>
    let fraction := (c :: rest).takeWhile Char.isDigit
    if fraction.isEmpty then none
    else
      some ({ hour, minute, second, nanosecond := nanoseconds fraction },
        (c :: rest).dropWhile Char.isDigit)
  | _ => some ({ hour, minute, second, nanosecond := 0 }, text)

/-- An offset that is the whole text. It is at most a day. -/
def offset? (bounds : Bounds) (text : List Char) : Option Offset :=
  match text with
  | [c] => if c = 'Z' || c = 'z' then some .utc else none
  | sign :: rest =>
    if sign = '+' || sign = '-' then do
      let (hour, rest) ← digits? 2 0 bounds.offsetHours rest
      let rest ← mark? ':' rest
      let (minute, rest) ← digits? 2 0 bounds.offsetMinutes rest
      guard (rest.isEmpty && hour * 60 + minute ≤ 24 * 60)
      let count : Int := (hour * 60 + minute : Nat)
      return .minutes (if sign = '-' then -count else count)
    else none
  | [] => none

/-- A moment that is the whole text. -/
def moment? (bounds : Bounds) (text : List Char) : Option Moment :=
  match date? text with
  | some (date, []) => some { date := some date, time := none, offset := none }
  | some (date, c :: rest) =>
    if c = 'T' || c = 't' || c = ' ' then
      match time? bounds rest with
      | some (time, []) => some { date := some date, time := some time, offset := none }
      | some (time, rest) =>
        (offset? bounds rest).map fun offset =>
          { date := some date, time := some time, offset := some offset }
      | none => none
    else none
  | none =>
    match time? bounds text with
    | some (time, []) => some { date := none, time := some time, offset := none }
    | _ => none

/-! ## Writing -/

/-- A number with at least so many digits. -/
def padLeft (width n : Nat) : String :=
  let digits := toString n
  "".pushn '0' (width - digits.length) ++ digits

/-- A fraction of a second without zeros at its end. -/
def writeFraction (nanosecond : Nat) : String :=
  if nanosecond = 0 then ""
  else "." ++ String.ofList ((padLeft 9 nanosecond).toList.reverse.dropWhile (· == '0')).reverse

/-- The normal form of a date. -/
def Date.write (date : Date) : String :=
  padLeft 4 date.year ++ "-" ++ padLeft 2 date.month ++ "-" ++ padLeft 2 date.day

/-- The normal form of a time. -/
def Time.write (time : Time) : String :=
  padLeft 2 time.hour ++ ":" ++ padLeft 2 time.minute ++ ":" ++ padLeft 2 time.second
    ++ writeFraction time.nanosecond

/-- The normal form of an offset. -/
def Offset.write : Offset → String
  | utc => "Z"
  | minutes count =>
    (if count < 0 then "-" else "+") ++ padLeft 2 (count.natAbs / 60) ++ ":"
      ++ padLeft 2 (count.natAbs % 60)

/-- The normal form of a moment. -/
def Moment.write (moment : Moment) : String :=
  let date := (moment.date.map Date.write).getD ""
  let time := (moment.time.map Time.write).getD ""
  let offset := (moment.offset.map Offset.write).getD ""
  date ++ (if moment.date.isSome && moment.time.isSome then "T" else "") ++ time ++ offset

end CachedRoutes.Toml
