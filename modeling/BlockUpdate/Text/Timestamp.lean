import BlockUpdate.Text.Blank

/-!
# Points in time

- `Timestamp.text`: date and time of day in UTC, with as many digits of a fraction as it needs, in
  groups of three.
- `Timestamp.parse`: reads dates and times with any offset from UTC; blanks between the parts are
  passed over.

A leap second lies in the second before it, whose fraction is then one or more.
-/

namespace BlockUpdate

/-- A point in time. -/
structure Timestamp where
  /-- Seconds since the beginning of 1970 in UTC. -/
  seconds : Int
  nanoseconds : Nat
  deriving Repr, DecidableEq

namespace Timestamp

/-! ## Dates -/

/-- A date of the Gregorian calendar. -/
structure Date where
  year : Int
  month : Nat
  day : Nat
  deriving Repr, DecidableEq

namespace Date

def isLeapYear (year : Int) : Bool := year % 4 == 0 && (year % 100 != 0 || year % 400 == 0)

/-- The number of days of a month. -/
def monthLength (year : Int) (month : Nat) : Nat :=
  if month = 2 then (if isLeapYear year then 29 else 28)
  else if month = 4 ∨ month = 6 ∨ month = 9 ∨ month = 11 then 30
  else 31

/-- The years that can be told apart. -/
def yearInRange (year : Int) : Bool := -262143 ≤ year && year ≤ 262142

def isValid (d : Date) : Bool :=
  yearInRange d.year && 1 ≤ d.month && d.month ≤ 12 && 1 ≤ d.day &&
    d.day ≤ monthLength d.year d.month

/-- Days since the beginning of 1970. Years are counted from March here, so that the leap day is
the last day of a year. -/
def toDays (d : Date) : Int :=
  let year := if d.month ≤ 2 then d.year - 1 else d.year
  let month : Int := (d.month + 9) % 12
  let era := year / 400
  let yearOfEra := year % 400
  let dayOfYear := (153 * month + 2) / 5 + d.day - 1
  era * 146097 + yearOfEra * 365 + yearOfEra / 4 - yearOfEra / 100 + dayOfYear - 719468

/-- The date of a day. -/
def ofDays (days : Int) : Date :=
  let shifted := days + 719468
  let era := shifted / 146097
  let dayOfEra := shifted % 146097
  let yearOfEra := (dayOfEra - dayOfEra / 1460 + dayOfEra / 36524 - dayOfEra / 146096) / 365
  let dayOfYear := dayOfEra - (365 * yearOfEra + yearOfEra / 4 - yearOfEra / 100)
  let month := (5 * dayOfYear + 2) / 153
  let day := dayOfYear - (153 * month + 2) / 5 + 1
  let year := yearOfEra + 400 * era
  if month < 10 then ⟨year, (month + 3).toNat, day.toNat⟩
  else ⟨year + 1, (month - 9).toNat, day.toNat⟩

end Date

/-! ## Writing -/

/-- A number with leading zeros. -/
def padded (width n : Nat) : String :=
  let digits := toString n
  String.ofList (List.replicate (width - digits.length) '0') ++ digits

/-- A year: four digits, or a sign and at least four if it is not one of those. -/
def yearText (year : Int) : String :=
  if year < 0 then "-" ++ padded 4 year.natAbs
  else if 9999 < year then "+" ++ padded 4 year.natAbs
  else padded 4 year.natAbs

/-- The fraction of a second, if there is one. -/
def fractionText (nanoseconds : Nat) : String :=
  if nanoseconds = 0 then ""
  else if nanoseconds % 1000000 = 0 then "." ++ padded 3 (nanoseconds / 1000000)
  else if nanoseconds % 1000 = 0 then "." ++ padded 6 (nanoseconds / 1000)
  else "." ++ padded 9 nanoseconds

/-- Date and time of day in UTC. -/
def text (t : Timestamp) : String :=
  let date := Date.ofDays (t.seconds / 86400)
  let second := (t.seconds % 86400).toNat
  let leap := 1000000000 ≤ t.nanoseconds
  yearText date.year ++ "-" ++ padded 2 date.month ++ "-" ++ padded 2 date.day ++ "T" ++
    padded 2 (second / 3600) ++ ":" ++ padded 2 (second / 60 % 60) ++ ":" ++
    padded 2 (second % 60 + if leap then 1 else 0) ++
    fractionText (t.nanoseconds % 1000000000) ++ "Z"

/-! ## Reading -/

/-- The value of digits. -/
def valueOf (digits : List Char) : Nat :=
  digits.foldl (fun n c => 10 * n + (c.toNat - 48)) 0

/-- A number of at most `width` digits behind blanks. -/
def number? (width : Nat) (input : List Char) : Option (Nat × List Char) :=
  let input := Blank.trimStartList input
  match (input.take width).takeWhile Char.isDigit with
  | [] => none
  | digits => some (valueOf digits, input.drop digits.length)

/-- A year behind blanks. With a sign it may have any number of digits. -/
def year? (input : List Char) : Option (Int × List Char) :=
  match Blank.trimStartList input with
  | '-' :: rest => signed rest (-1)
  | '+' :: rest => signed rest 1
  | rest => (number? 4 rest).map fun (n, rest) => ((n : Int), rest)
where
  /-- The digits behind a sign. -/
  signed (rest : List Char) (sign : Int) : Option (Int × List Char) :=
    match rest.takeWhile Char.isDigit with
    | [] => none
    | digits => some (sign * valueOf digits, rest.drop digits.length)

/-- Passes over blanks and one wanted character. -/
def literal? (c : Char) (input : List Char) : Option (List Char) :=
  match Blank.trimStartList input with
  | first :: rest => if first = c then some rest else none
  | [] => none

/-- The nanoseconds of a fraction, if there is one; digits behind the ninth do not count. -/
def fraction? (input : List Char) : Option (Nat × List Char) :=
  match input with
  | '.' :: rest =>
    match (rest.take 9).takeWhile Char.isDigit with
    | [] => none
    | digits =>
      some (valueOf digits * 10 ^ (9 - digits.length), rest.dropWhile Char.isDigit)
  | rest => some (0, rest)

/-- Two digits. -/
def twoDigits? (input : List Char) : Option (Nat × List Char) :=
  match input with
  | a :: b :: rest =>
    if a.isDigit ∧ b.isDigit then some (valueOf [a, b], rest) else none
  | _ => none

/-- An offset from UTC in seconds. -/
def offset? (input : List Char) : Option (Int × List Char) :=
  let input := Blank.trimStartList input
  if (input.take 3).map Char.toUpper = ['U', 'T', 'C'] then some (0, input.drop 3)
  else
    match input with
    | 'Z' :: rest | 'z' :: rest => some (0, rest)
    | '+' :: rest => distance rest 1
    | '-' :: rest | '−' :: rest => distance rest (-1)
    | _ => none
where
  /-- Hours and minutes; colons and blanks may stand between them. -/
  distance (rest : List Char) (sign : Int) : Option (Int × List Char) := do
    let (hours, rest) ← twoDigits? rest
    let (minutes, rest) ← twoDigits? (rest.dropWhile fun c => c == ':' || Blank.isBlank c)
    if 59 < minutes ∨ 23 < hours then
      none
    return (sign * (3600 * hours + 60 * minutes), rest)

/-- Reads a date, a time of day and an offset. -/
def parse (text : String) : Option Timestamp := do
  let (year, rest) ← year? text.toList
  let (month, rest) ← number? 2 (← literal? '-' rest)
  let (day, rest) ← number? 2 (← literal? '-' rest)
  let rest ← match rest with
    | 'T' :: rest | 't' :: rest | ' ' :: rest => some rest
    | _ => none
  let (hour, rest) ← number? 2 rest
  let (minute, rest) ← number? 2 (← literal? ':' rest)
  let (second, rest) ← number? 2 (← literal? ':' rest)
  let (nanoseconds, rest) ← fraction? rest
  let (offset, rest) ← offset? rest
  let date : Date := ⟨year, month, day⟩
  if !date.isValid ∨ 23 < hour ∨ 59 < minute ∨ 60 < second ∨
      (Blank.trimStartList rest).isEmpty = false then
    none
  let leap := second = 60
  let seconds : Int := date.toDays * 86400 + 3600 * hour + 60 * minute +
    (if leap then 59 else second) - offset
  if Date.yearInRange (Date.ofDays (seconds / 86400)).year then
    some ⟨seconds, nanoseconds + if leap then 1000000000 else 0⟩
  else none

end Timestamp

end BlockUpdate
