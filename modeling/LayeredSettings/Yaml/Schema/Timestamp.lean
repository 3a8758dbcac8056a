import LayeredSettings.Calendar
import LayeredSettings.Number.Reading
import LayeredSettings.Text.Blank

/-!
# Timestamps

The texts that read as points in time: a date, or a date with a time of day and perhaps a zone.
Fields out of range roll over, and a year below 100 lies in the twentieth century.
-/

namespace LayeredSettings.Yaml.Timestamp

/-- Reads a field of at least `least` and at most `most` digits, as many as there are. -/
def field? (least most : Nat) (cs : List Char) : Option (Int × List Char) :=
  let digits := (cs.take most).takeWhile Text.isDigit
  if digits.length < least then none
  else some ((Number.ofDigits 10 digits : Nat), cs.drop digits.length)

/-- Reads one character. -/
def mark? (c : Char) : List Char → Option (List Char)
  | [] => none
  | d :: rest => if d = c then some rest else none

/-- The year that four digits mean. -/
def fullYear (year : Int) : Int := if year < 100 then 1900 + year else year

/-- The point in time of a date alone. -/
def date? (text : List Char) : Option Int := do
  let (year, cs) ← field? 4 4 text
  let (month, cs) ← field? 2 2 (← mark? '-' cs)
  let (day, cs) ← field? 2 2 (← mark? '-' cs)
  if cs.isEmpty then
    some (Calendar.Moment.instant
      { year := fullYear year, month, day, hour := 0, minute := 0, second := 0, millisecond := 0 })
  else none

/-- Reads what stands between a date and a time: one letter, or spaces and tabs. -/
def divider? : List Char → Option (List Char)
  | [] => none
  | c :: rest =>
    if c = 'T' ∨ c = 't' then some rest
    else if c = ' ' ∨ c = '\t' then some (rest.dropWhile fun c => c == ' ' || c == '\t')
    else none

/-- Reads the fraction of a second in milliseconds, if there is one. Further digits are dropped. -/
def fraction (cs : List Char) : Int × List Char :=
  match cs with
  | '.' :: rest =>
    let digits := (rest.takeWhile Text.isDigit).take 3
    let padded := digits ++ List.replicate (3 - digits.length) '0'
    ((Number.ofDigits 10 padded : Nat), rest.dropWhile Text.isDigit)
  | _ => (0, cs)

/-- The minutes that a zone at the end of a text is ahead of universal time. -/
def zone? (cs : List Char) : Option Int :=
  match cs.dropWhile fun c => c == ' ' || c == '\t' with
  | [] => if cs.isEmpty then some 0 else none
  | ['Z'] => some 0
  | sign :: rest =>
    if sign ≠ '+' ∧ sign ≠ '-' then none
    else do
      let (hours, cs) ← field? 1 2 rest
      let minutes ← match cs with
        | [] => some 0
        | _ => do
          let (minutes, cs) ← field? 2 2 (← mark? ':' cs)
          if cs.isEmpty then some minutes else none
      let ahead := hours * 60 + minutes
      some (if sign = '-' then -ahead else ahead)

/-- The point in time of a date with a time of day. -/
def dateTime? (text : List Char) : Option Int := do
  let (year, cs) ← field? 4 4 text
  let (month, cs) ← field? 1 2 (← mark? '-' cs)
  let (day, cs) ← field? 1 2 (← mark? '-' cs)
  let (hour, cs) ← field? 1 2 (← divider? cs)
  let (minute, cs) ← field? 2 2 (← mark? ':' cs)
  let (second, cs) ← field? 2 2 (← mark? ':' cs)
  let (millisecond, cs) := fraction cs
  let ahead ← zone? cs
  some (Calendar.Moment.instant
    { year := fullYear year, month, day, hour, minute, second, millisecond } - ahead * 60000)

/-- The point in time of a text that is a timestamp. -/
def instant? (text : List Char) : Option Int := (date? text).or (dateTime? text)

end LayeredSettings.Yaml.Timestamp
