import ScriptEngine.Calendar.Civil
import ScriptEngine.Number.Layout
import ScriptEngine.Builtin.Name

/-!
# Points in time

A time is a number of milliseconds from the start of 1970 in Greenwich, NaN when it is invalid. Its fields
are those of a local clock a fixed number of minutes east of Greenwich. Valid times stay one day clear of
the first and the last day of the years 1 to 9999, so that every local clock can show them.

## Main definitions

* `Time.clip`: a valid time as a whole number of milliseconds.
* `Time.fields`: the local fields of a time.
* `Time.ofSeconds`: the time of a count of seconds in a double.
* `Time.ofFields`: the time of local fields that may lie outside their ranges.
* `Time.text`: the written forms of a time.
-/

namespace ScriptEngine

namespace Time

/-- The earliest valid time. -/
def earliest : Int := -62135596800000 + 86400000

/-- The latest valid time. -/
def latest : Int := 253402300799999 - 86400000

/-- A time without its fraction, or NaN when it lies outside the valid times. -/
def clip (t : Float) : Float :=
  if Number.ofInt earliest ≤ t && t ≤ Number.ofInt latest then Number.ofInt (Number.truncate t)
  else Number.nan

/-- A whole number of milliseconds, or NaN when it lies outside the valid times. -/
def clipInt (t : Int) : Float := if earliest ≤ t ∧ t ≤ latest then Number.ofInt t else Number.nan

/-- Whether a time is valid. -/
def isValid (t : Float) : Bool := !t.isNaN

/-- The local fields of a valid time. -/
def fields (zone : Int) (t : Float) : Fields :=
  Fields.ofMilliseconds (Number.truncate t + zone * 60000)

/-- The local day number of a valid time. -/
def localDay (zone : Int) (t : Float) : Int := (Number.truncate t + zone * 60000).fdiv Fields.msPerDay

/-- The value of one field. -/
def fieldValue (f : Fields) : DateField → Int
  | .year => f.year
  | .month => f.month
  | .day => f.day
  | .hours => f.hours
  | .minutes => f.minutes
  | .seconds => f.seconds
  | .milliseconds => f.milliseconds

/-- One local field of a time, NaN when the time is invalid. -/
def field (zone : Int) (t : Float) (which : DateField) : Float :=
  if isValid t then Number.ofInt (fieldValue (fields zone t) which) else Number.nan

/-- The day of the week of a time, Sunday being 0. -/
def dayOfWeek (zone : Int) (t : Float) : Float :=
  if isValid t then Number.ofInt (Civil.weekday (localDay zone t)) else Number.nan

/-- The minutes that the local clock is behind Greenwich. In Greenwich itself they are a negative zero. -/
def zoneOffset (zone : Int) (t : Float) : Float :=
  if isValid t then -(Number.ofInt zone) else Number.nan

/-- The fields of a time as numbers, all NaN when it is invalid. -/
def fieldNumbers (zone : Int) (t : Float) : List Float :=
  [DateField.year, .month, .day, .hours, .minutes, .seconds, .milliseconds].map (field zone t)

/-! ## From fields to times -/

/-- The first millisecond of the year 1. -/
def firstLocal : Int := -62135596800000

/-- The last millisecond of the year 9999. -/
def lastLocal : Int := 253402300799999

/-- Whether a host's clock with the given zone can tell which time a local time is. It looks one day back,
and it reads the local time as if it were one in Greenwich. -/
def isResolvable (zone localTime : Int) : Bool :=
  let t := localTime.fdiv 1000 * 1000
  firstLocal ≤ t + zone * 60000 && t + zone * 60000 ≤ lastLocal && firstLocal ≤ t - Fields.msPerDay

/-- Whole seconds from the start of 1970 in Greenwich and microseconds, as seconds in a double. -/
def seconds (whole microseconds : Int) : Float := Number.ofInt whole + Number.ofInt microseconds / 1000000.0

/-- The time of seconds in a double, which are scaled to milliseconds and rounded. -/
def ofSeconds (s : Float) : Float := clipInt (Number.roundToEven (s * 1000.0))

/-- The time of seven local fields, NaN when a field is not finite or the time is not valid. The year with
the months carried into it and the sum of all fields have to lie in the years 1 to 9999. -/
def ofFields (zone : Int) (fs : List Float) : Float :=
  match fs.map Number.truncate? with
  | [some y, some mon, some d, some h, some mi, some s, some ms] =>
    let year := y + mon.fdiv 12
    let t := Fields.toMilliseconds ⟨y, mon, d, h, mi, s, ms⟩
    if 1 ≤ year ∧ year ≤ 9999 ∧ firstLocal ≤ t ∧ t ≤ lastLocal ∧ isResolvable zone t then
      ofSeconds (seconds (t.fdiv 1000 - zone * 60) (t.fmod 1000 * 1000))
    else Number.nan
  | _ => Number.nan

/-- A year from 0 to 99 is one of the twentieth century. An infinite year is none at all. -/
def fullYear? (y : Float) : Option Float :=
  match Number.truncate? y with
  | some n => some (if 0 ≤ n ∧ n ≤ 99 then Number.ofInt (1900 + n) else y)
  | none => if y.isNaN then some y else none

/-- The time of a year, a month and optional further fields; missing ones are the first of their range. An
infinite year has no answer. -/
def ofArguments? (zone : Int) (args : List Float) : Option Float :=
  let given := args.take 7
  let all := given ++ [Number.nan, 0.0, 1.0, 0.0, 0.0, 0.0, 0.0].drop given.length
  match all with
  | y :: rest => (fullYear? y).map fun y => ofFields zone (y :: rest)
  | [] => some Number.nan

/-! ## Written forms -/

/-- The short names of the days of the week. -/
def dayNames : List String := ["Sun", "Mon", "Tue", "Wed", "Thu", "Fri", "Sat"]

/-- The short names of the months. -/
def monthNames : List String :=
  ["Jan", "Feb", "Mar", "Apr", "May", "Jun", "Jul", "Aug", "Sep", "Oct", "Nov", "Dec"]

/-- A number with at least two digits. -/
def two (n : Int) : Text := Text.padZero 2 (Text.ofInt n)

/-- A number with at least four digits. -/
def four (n : Int) : Text := Text.padZero 4 (Text.ofInt n)

/-- The name at a position. -/
def nameAt (names : List String) (i : Int) : Text := names.getD i.toNat ""

/-- The zone, such as `GMT+0530`. -/
def zoneText (zone : Int) : Text :=
  "GMT" ++ (if 0 ≤ zone then "+" else "-" : Text) ++ two (zone.natAbs / 60 : Nat) ++ two (zone.natAbs % 60 : Nat)

/-- Hours, minutes and seconds on a 24-hour clock. -/
def clockText (f : Fields) : Text := two f.hours ++ ":" ++ two f.minutes ++ ":" ++ two f.seconds

/-- The date, such as `Thu Jan 01 1970`. -/
def dateText (weekday : Int) (f : Fields) : Text :=
  nameAt dayNames weekday ++ " " ++ nameAt monthNames f.month ++ " " ++ two f.day ++ " " ++ four f.year

/-- The date in figures, such as `1/31/1970`. -/
def shortDateText (f : Fields) : Text :=
  Text.ofInt (f.month + 1) ++ "/" ++ Text.ofInt f.day ++ "/" ++ Text.ofInt f.year

/-- The time of day on a 12-hour clock. -/
def shortClockText (f : Fields) : Text :=
  let hour := if f.hours % 12 = 0 then 12 else f.hours % 12
  Text.ofInt hour ++ ":" ++ two f.minutes ++ ":" ++ two f.seconds ++
    (if f.hours < 12 then " AM" else " PM" : Text)

/-- A written form of a time. The form labelled `GMT` shows the local fields too. -/
def text (zone : Int) (t : Float) (style : DateStyle) : Text :=
  if !isValid t then "Invalid Date"
  else
    let f := fields zone t
    let weekday := Civil.weekday (localDay zone t)
    let time := clockText f ++ " " ++ zoneText zone
    match style with
    | .full => dateText weekday f ++ " " ++ time
    | .dateOnly => dateText weekday f
    | .timeOnly => time
    | .locale => shortDateText f ++ ", " ++ shortClockText f
    | .localeDate => shortDateText f
    | .localeTime => shortClockText f
    | .utc =>
      nameAt dayNames weekday ++ ", " ++ two f.day ++ " " ++ nameAt monthNames f.month ++ " " ++
        four f.year ++ " " ++ clockText f ++ " GMT"

end Time

end ScriptEngine
