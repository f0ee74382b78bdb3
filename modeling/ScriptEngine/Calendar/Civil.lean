/-!
# The civil calendar

Days counted from 1 January 1970 and their years, months and days in the proleptic Gregorian calendar. The
count of days in a year starts in March, so that a leap day is the last day of its year.

## Main definitions

* `Civil.daysFrom`: the day number of a date.
* `Civil.ofDays`: the date of a day number.
* `Fields`: a date with a time of day.
-/

namespace ScriptEngine

/-- A date of the civil calendar. -/
structure Civil where
  /-- The year. -/
  year : Int
  /-- The month, from 1 to 12. -/
  month : Int
  /-- The day of the month, from 1. -/
  day : Int
  deriving DecidableEq, Repr, Inhabited

namespace Civil

/-- The number of days from 1 January 1970 to a date; the day of the month may lie outside its month. -/
def daysFrom (c : Civil) : Int :=
  let y := if c.month ≤ 2 then c.year - 1 else c.year
  let era := y.fdiv 400
  let yearOfEra := y - era * 400
  let month := if 2 < c.month then c.month - 3 else c.month + 9
  let dayOfYear := (153 * month + 2) / 5 + c.day - 1
  let dayOfEra := yearOfEra * 365 + yearOfEra / 4 - yearOfEra / 100 + dayOfYear
  era * 146097 + dayOfEra - 719468

/-- The date of a day number. -/
def ofDays (days : Int) : Civil :=
  let z := days + 719468
  let era := z.fdiv 146097
  let dayOfEra := z - era * 146097
  let yearOfEra := (dayOfEra - dayOfEra / 1460 + dayOfEra / 36524 - dayOfEra / 146096) / 365
  let dayOfYear := dayOfEra - (365 * yearOfEra + yearOfEra / 4 - yearOfEra / 100)
  let m := (5 * dayOfYear + 2) / 153
  let day := dayOfYear - (153 * m + 2) / 5 + 1
  let month := if m < 10 then m + 3 else m - 9
  let year := yearOfEra + era * 400
  ⟨if month ≤ 2 then year + 1 else year, month, day⟩

/-- Whether a year has a leap day. -/
def isLeap (year : Int) : Bool := year % 4 == 0 && (year % 100 != 0 || year % 400 == 0)

/-- The number of days of a month. -/
def daysInMonth (year month : Int) : Int :=
  if month = 2 then if isLeap year then 29 else 28
  else if month = 4 ∨ month = 6 ∨ month = 9 ∨ month = 11 then 30
  else 31

/-- The day of the week of a day number, Sunday being 0. -/
def weekday (days : Int) : Int := (days + 4) % 7

end Civil

/-- A date with a time of day; months count from 0. -/
structure Fields where
  year : Int
  month : Int
  day : Int
  hours : Int
  minutes : Int
  seconds : Int
  milliseconds : Int
  deriving DecidableEq, Repr, Inhabited

namespace Fields

/-- The milliseconds of a day. -/
def msPerDay : Int := 86400000

/-- The fields of a count of milliseconds from the start of 1970. -/
def ofMilliseconds (t : Int) : Fields :=
  let days := t.fdiv msPerDay
  let rest := t - days * msPerDay
  let c := Civil.ofDays days
  ⟨c.year, c.month - 1, c.day, rest / 3600000, rest / 60000 % 60, rest / 1000 % 60, rest % 1000⟩

/-- The count of milliseconds of fields that may lie outside their ranges. Months carry into the year;
everything below is summed up. -/
def toMilliseconds (f : Fields) : Int :=
  let year := f.year + f.month.fdiv 12
  let month := f.month.fmod 12
  let days := Civil.daysFrom ⟨year, month + 1, 1⟩ + (f.day - 1)
  days * msPerDay + f.hours * 3600000 + f.minutes * 60000 + f.seconds * 1000 + f.milliseconds

end Fields

end ScriptEngine
