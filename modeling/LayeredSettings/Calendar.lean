/-!
# Calendar

Points in time count milliseconds from the beginning of 1970 in the proleptic Gregorian calendar.
Fields outside their usual range roll over into the next greater one.
-/

namespace LayeredSettings.Calendar

/-- The day, counted from 1 January 1970, that a date of the Gregorian calendar names. The year is
taken to begin in March, so that a leap day is its last day. -/
def dayOfDate (year month day : Int) : Int :=
  let y := if month ≤ 2 then year - 1 else year
  let era := y.fdiv 400
  let yearOfEra := y - era * 400
  let monthFromMarch := (month + 9) % 12
  let dayOfYear := (153 * monthFromMarch + 2) / 5 + day - 1
  era * 146097 + (yearOfEra * 365 + yearOfEra / 4 - yearOfEra / 100 + dayOfYear) - 719468

/-- A date of the calendar. -/
structure Date where
  year : Int
  month : Int
  day : Int
deriving DecidableEq, Repr

/-- The date of a day. -/
def dateOfDay (n : Int) : Date :=
  let z := n + 719468
  let era := z.fdiv 146097
  let dayOfEra := z - era * 146097
  let yearOfEra := (dayOfEra - dayOfEra / 1460 + dayOfEra / 36524 - dayOfEra / 146096) / 365
  let dayOfYear := dayOfEra - (365 * yearOfEra + yearOfEra / 4 - yearOfEra / 100)
  let monthFromMarch := (5 * dayOfYear + 2) / 153
  let month := if monthFromMarch < 10 then monthFromMarch + 3 else monthFromMarch - 9
  { year := yearOfEra + era * 400 + (if month ≤ 2 then 1 else 0)
    month
    day := dayOfYear - (153 * monthFromMarch + 2) / 5 + 1 }

/-- A date and a time of day, any of which may be out of range. -/
structure Moment where
  year : Int
  month : Int
  day : Int
  hour : Int
  minute : Int
  second : Int
  millisecond : Int

/-- The point in time of a moment. -/
def Moment.instant (m : Moment) : Int :=
  let year := m.year + (m.month - 1).fdiv 12
  let month := (m.month - 1) % 12 + 1
  let days := dayOfDate year month 1 + (m.day - 1)
  (((days * 24 + m.hour) * 60 + m.minute) * 60 + m.second) * 1000 + m.millisecond

/-- The moment of a point in time, every field in range. -/
def Moment.ofInstant (t : Int) : Moment :=
  let date := dateOfDay (t.fdiv 86400000)
  let rest := t.fmod 86400000
  { year := date.year, month := date.month, day := date.day
    hour := rest / 3600000, minute := rest / 60000 % 60
    second := rest / 1000 % 60, millisecond := rest % 1000 }

/-- A number with leading zeros. -/
def padded (width : Nat) (n : Nat) : String :=
  let digits := Nat.toDigits 10 n
  String.ofList (List.replicate (width - digits.length) '0' ++ digits)

/-- A year of four digits; outside 0 to 9999 a sign and six digits. -/
def yearText (year : Int) : String :=
  if 0 ≤ year ∧ year ≤ 9999 then padded 4 year.toNat
  else (if year < 0 then "-" else "+") ++ padded 6 year.natAbs

/-- The text `2001-12-14T21:59:43.000Z` of a point in time. -/
def isoText (t : Int) : String :=
  let m := Moment.ofInstant t
  yearText m.year ++ "-" ++ padded 2 m.month.toNat ++ "-" ++ padded 2 m.day.toNat ++ "T" ++
    padded 2 m.hour.toNat ++ ":" ++ padded 2 m.minute.toNat ++ ":" ++ padded 2 m.second.toNat ++
    "." ++ padded 3 m.millisecond.toNat ++ "Z"

/-- The short names of the days of the week, from the weekday of 1 January 1970 on. -/
def weekdays : List String := ["Thu", "Fri", "Sat", "Sun", "Mon", "Tue", "Wed"]

/-- The short names of the months. -/
def months : List String :=
  ["Jan", "Feb", "Mar", "Apr", "May", "Jun", "Jul", "Aug", "Sep", "Oct", "Nov", "Dec"]

/-- The text `Fri Dec 14 2001 21:59:43 GMT+0000 (Coordinated Universal Time)` of a point in
time. -/
def longText (t : Int) : String :=
  let m := Moment.ofInstant t
  let weekday := (weekdays[((t.fdiv 86400000) % 7).toNat]?).getD ""
  let month := (months[(m.month - 1).toNat]?).getD ""
  let year := (if m.year < 0 then "-" else "") ++ padded 4 m.year.natAbs
  weekday ++ " " ++ month ++ " " ++ padded 2 m.day.toNat ++ " " ++ year ++ " " ++
    padded 2 m.hour.toNat ++ ":" ++ padded 2 m.minute.toNat ++ ":" ++ padded 2 m.second.toNat ++
    " GMT+0000 (Coordinated Universal Time)"

end LayeredSettings.Calendar
