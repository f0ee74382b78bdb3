import ScriptEngine.Calendar.Time
import ScriptEngine.Machine.Fault
import ScriptEngine.Number.Integer
import ScriptEngine.Text.Case

/-!
# Reading dates

A date is read in one of three forms, tried in this order: the form with figures only, such as
`2020-02-29T12:30:00+01:00`; the form in which times are printed, such as
`Sat Feb 29 2020 12:30:00 GMT+0100`; and the loose form of mail headers, such as
`Sat, 29 Feb 2020 12:30:00 +0100`. What fits none of them is no date.

## Main definitions

* `Moment`: a date and time of day as they are written, with or without an offset.
* `Moment.ofFigures?`, `Moment.ofPrinted?`, `Moment.ofHeader?`: the three forms.
* `Time.parse`: the time of a text.
-/

namespace ScriptEngine

/-- A date and time of day as they are written. -/
structure Moment where
  year : Int
  /-- The month, from 1 to 12. -/
  month : Int
  day : Int
  hours : Int := 0
  minutes : Int := 0
  seconds : Int := 0
  microseconds : Int := 0
  /-- The microseconds by which the clock is ahead of Greenwich; without them it is the local clock. -/
  offset : Option Int := none
  deriving Inhabited, DecidableEq, Repr

namespace Moment

/-- Whether the date exists in the years 1 to 9999 and the time of day is one. -/
def isGenuine (m : Moment) : Bool :=
  1 ≤ m.year && m.year ≤ 9999 && 1 ≤ m.month && m.month ≤ 12 && 1 ≤ m.day &&
  m.day ≤ Civil.daysInMonth m.year m.month && 0 ≤ m.hours && m.hours < 24 && 0 ≤ m.minutes &&
  m.minutes < 60 && 0 ≤ m.seconds && m.seconds < 60 && 0 ≤ m.microseconds && m.microseconds < 1000000

/-- Whether the offset is less than a day. -/
def offsetFits (offset : Int) : Bool := -86400000000 < offset && offset < 86400000000

/-- The seconds from the start of 1970 on the clock that the moment was read from. -/
def clockSeconds (m : Moment) : Int :=
  Civil.daysFrom ⟨m.year, m.month, m.day⟩ * 86400 + m.hours * 3600 + m.minutes * 60 + m.seconds

/-- A quotient of integers as the nearest double. -/
def quotient (num : Int) (den : Nat) : Float := Number.nearest (num < 0) num.natAbs den

/-- The time of a moment. A local clock that cannot tell which time it was shows a fault. -/
def time (zone : Int) (m : Moment) : Except Fault Float :=
  match m.offset with
  | some offset =>
    let total := m.clockSeconds * 1000000 + m.microseconds - offset
    .ok (Time.ofSeconds (quotient total 1000000))
  | none =>
    if Time.isResolvable zone (m.clockSeconds * 1000) then
      .ok (Time.ofSeconds (Time.seconds (m.clockSeconds - zone * 60) m.microseconds))
    else .error .timeTooEarly

/-! ## Figures -/

/-- The number of exactly `n` ASCII digits, and what follows them. -/
def figures? (n : Nat) (t : Text) : Option (Int × Text) :=
  let ds := t.take n
  if ds.length = n && ds.all Text.isAsciiDigit then some (Text.toNatBase 10 ds, t.drop n) else none

/-- The day number of the Monday of the first week of a year; that week has most of its days in it. -/
def firstMonday (year : Int) : Int :=
  let first := Civil.daysFrom ⟨year, 1, 1⟩
  let fromMonday := (Civil.weekday first + 6) % 7
  let monday := first - fromMonday
  if 3 < fromMonday then monday + 7 else monday

/-- Whether a year has 53 weeks. -/
def hasLongYear (year : Int) : Bool :=
  let fromMonday := (Civil.weekday (Civil.daysFrom ⟨year, 1, 1⟩) + 6) % 7
  fromMonday == 3 || (fromMonday == 2 && Civil.isLeap year)

/-- The date of a day of a week. -/
def ofWeek? (year week day : Int) : Option Civil :=
  if 1 ≤ year ∧ year ≤ 9999 ∧ 1 ≤ week ∧ (week ≤ 52 ∨ (week = 53 ∧ hasLongYear year)) ∧ 1 ≤ day ∧ day ≤ 7 then
    some (Civil.ofDays (firstMonday year + (week - 1) * 7 + day - 1))
  else none

/-- How many characters the date at the start of a text has. Any character may come between the date and
the time, so where a week could be followed by a day or by a time, the digits decide. -/
def dateLength (t : Text) : Nat :=
  if t.length = 7 then 7
  else if t[4]? = some 45 then
    if t[5]? = some 87 then
      if t[8]? = some 45 then (if t[10]?.any Text.isAsciiDigit then 8 else 10) else 8
    else 10
  else if t[4]? = some 87 then
    let stop := 7 + ((t.drop 7).takeWhile Text.isAsciiDigit).length
    if stop < 9 then stop else if stop % 2 = 0 then 7 else 8
  else 8

/-- A character, if the text starts with it. -/
def expect? (c : CodePoint) : Text → Option Text
  | d :: rest => if d = c then some rest else none
  | [] => none

/-- The day of a week after the number of the week: the Monday if there is none. -/
def weekDay? (dashed : Bool) (t : Text) : Option Int :=
  if t.isEmpty then some 1
  else do
    let t ← if dashed then expect? 45 t else some t
    let (day, _) ← figures? 1 t
    return day

/-- A date in figures: a year, then a month and a day or a week and a day, with dashes or without. -/
def date? (t : Text) : Option Civil := do
  let (year, t) ← figures? 4 t
  let dashed := t.head? = some 45
  let t := if dashed then t.tail else t
  if t.head? = some 87 then
    let (week, t) ← figures? 2 t.tail
    ofWeek? year week (← weekDay? dashed t)
  else
    let (month, t) ← figures? 2 t
    let t ← if dashed then expect? 45 t else some t
    let (day, _) ← figures? 2 t
    return ⟨year, month, day⟩

/-- A time of day in figures, and whether all characters have been read. -/
structure Clock where
  hours : Int := 0
  minutes : Int := 0
  seconds : Int := 0
  microseconds : Int := 0
  complete : Bool := true

/-- The number of the given place of a clock. -/
def Clock.set (c : Clock) (place : Nat) (n : Int) : Clock :=
  match place with
  | 0 => { c with hours := n }
  | 1 => { c with minutes := n }
  | _ => { c with seconds := n }

/-- The fraction of a second; digits after the sixth do not count. -/
def fraction? (c : Clock) (t : Text) : Option Clock := do
  let n := min 6 t.length
  let (value, rest) ← figures? n t
  return { c with
    microseconds := value * Nat.pow 10 (6 - n)
    complete := (rest.dropWhile Text.isAsciiDigit).isEmpty }

/-- The rest of a clock from a place on. Colons separate all places or none; a decimal mark starts the
fraction after any place. -/
def clockFrom? (c : Clock) (place : Nat) (colons : Bool) (t : Text) : Nat → Option Clock
  | 0 => fraction? c t
  | places + 1 => do
    let (n, rest) ← figures? 2 t
    let c := c.set place n
    match rest with
    | [] => return c
    | mark :: after =>
      let colons := if place = 0 then mark = 58 else colons
      if after.isEmpty && mark < 128 then return { c with complete := false }
      else if colons && mark = 58 then clockFrom? c (place + 1) colons after places
      else if mark = 46 || mark = 44 then fraction? c after
      else if colons then none
      else clockFrom? c (place + 1) colons rest places

/-- A time of day in figures. -/
def clock? (t : Text) : Option Clock := clockFrom? {} 0 true t 3

/-- A time of day with an optional offset. What cannot be read before an offset is passed over. -/
def clockWithOffset? (t : Text) : Option (Clock × Option Int) := do
  let isSign (c : CodePoint) : Bool := c == 43 || c == 45
  let time ← clock? (t.takeWhile (!isSign ·))
  match t.dropWhile (!isSign ·) with
  | [] => if time.complete then return (time, none) else none
  | sign :: rest =>
    let c ← clock? rest
    let seconds := c.hours * 3600 + c.minutes * 60 + c.seconds
    let ahead := if seconds = 0 then 0 else seconds * 1000000 + c.microseconds
    if c.complete then return (time, some (if sign = 45 then -ahead else ahead)) else none

/-- Whether a code point is one half of a pair. -/
def isSurrogate (c : CodePoint) : Bool := 0xD800 ≤ c && c ≤ 0xDFFF

/-- The text with a lone half of a pair in one of the places where a time can start replaced by a letter. -/
def mendSeparator (t : Text) : Text :=
  match [7, 8, 10].find? fun i => t[i]?.any isSurrogate with
  | some i => t.set i 84
  | none => t

/-- The form with figures only. -/
def ofFigures? (t : Text) : Option Moment := do
  let t := mendSeparator t
  if t.length < 7 || t.any isSurrogate then none
  let n := dateLength t
  let date ← date? (t.take n)
  let m : Moment ←
    if t.length ≤ n then some ⟨date.year, date.month, date.day, 0, 0, 0, 0, none⟩
    else do
      let (c, offset) ← clockWithOffset? (t.drop (n + 1))
      some ⟨date.year, date.month, date.day, c.hours, c.minutes, c.seconds, c.microseconds, offset⟩
  if m.isGenuine && m.offset.all offsetFits then return m else none

/-! ## Printed times -/

/-- A capital letter as a small one. -/
def smallLetter (c : CodePoint) : CodePoint := if 65 ≤ c && c ≤ 90 then c + 32 else c

/-- One of several names at the start of a text, in letters of either case: its position and the rest. -/
def name? (names : List String) (t : Text) : Option (Nat × Text) := do
  let head := (t.take 3).map smallLetter
  let i ← (names.map fun n => (Text.ofString n).map smallLetter).findIdx? (· = head)
  return (i, t.drop 3)

/-- Blanks at the start of a text are passed over; there has to be one. -/
def blanks? (t : Text) : Option Text :=
  if t.head?.any Text.isBlank then some (t.dropWhile Text.isBlank) else none

/-- The number of decimal digits of any script. -/
def number (t : Text) : Int := Decimal.digitsValue t

/-- A number of one or two digits; the first of two is at most `most`, except that `exact` pairs are
allowed beyond it. The first digit of a pair and the digits of an exact pair are ASCII ones. -/
def short? (most : Nat) (exact : List String) (t : Text) : Option (Int × Text) :=
  match t with
  | a :: b :: rest =>
    if exact.any fun p => Text.ofString p = [a, b] then some (number [a, b], rest)
    else if 48 ≤ a && a ≤ 48 + most && Text.isDecimal b then some (number [a, b], rest)
    else if Text.isDecimal a then some (number [a], b :: rest)
    else none
  | [a] => if Text.isDecimal a then some (number [a], []) else none
  | [] => none

/-- A day of the month, from 1 to 31. -/
def dayOfMonth? (t : Text) : Option (Int × Text) :=
  match t with
  | a :: b :: rest =>
    if a = 51 && (b = 48 || b = 49) then some (number [a, b], rest)
    else if (a = 49 || a = 50) && Text.isDecimal b then some (number [a, b], rest)
    else if a = 48 && 49 ≤ b && b ≤ 57 then some (number [a, b], rest)
    else if 49 ≤ a && a ≤ 57 then some (number [a], b :: rest)
    else none
  | _ => none

/-- Exactly `n` decimal digits of any script. -/
def decimals? (n : Nat) (t : Text) : Option (Text × Text) :=
  let ds := t.take n
  if ds.length = n && ds.all Text.isDecimal then some (ds, t.drop n) else none

/-- Two digits from 00 to 59; only the second may be of any script. -/
def sixty? (t : Text) : Option (Int × Text) :=
  match t with
  | a :: b :: rest =>
    if 48 ≤ a && a ≤ 53 && Text.isDecimal b then some (number [a, b], rest) else none
  | _ => none

/-- The fraction of an offset's seconds at the end of a text, in microseconds. -/
def offsetFraction? (t : Text) : Option Int :=
  match t with
  | [] => some 0
  | 46 :: ds =>
    if 1 ≤ ds.length && ds.length ≤ 6 && ds.all Text.isDecimal then some (number ds * Nat.pow 10 (6 - ds.length))
    else none
  | _ => none

/-- An offset from Greenwich that fills the rest of a text: hours and minutes, then optional seconds with
an optional fraction. Colons separate all parts or none. -/
def printedOffset? (t : Text) : Option Int :=
  match t with
  | [90] => some 0
  | sign :: rest => do
    if sign ≠ 43 ∧ sign ≠ 45 then none
    let (hours, rest) ← decimals? 2 rest
    let colons := rest.head? = some 58
    let (minutes, rest) ← sixty? (if colons then rest.tail else rest)
    let (seconds, rest) ←
      if rest.isEmpty then some (0, [])
      else do
        let rest ← if colons then expect? 58 rest else some rest
        sixty? rest
    let micros ← offsetFraction? rest
    let total := (number hours * 3600 + minutes * 60 + seconds) * 1000000 + micros
    return if sign = 45 then -total else total
  | [] => none

/-- The form in which times are printed; what follows the first 33 characters does not count. -/
def ofPrinted? (t : Text) : Option Moment := do
  let (_, t) ← name? Time.dayNames (t.take 33)
  let (month, t) ← name? Time.monthNames (← blanks? t)
  let (day, t) ← dayOfMonth? (← blanks? t)
  let (year, t) ← decimals? 4 (← blanks? t)
  let (hours, t) ← short? 1 ["20", "21", "22", "23"] (← blanks? t)
  let (minutes, t) ← short? 5 [] (← expect? 58 t)
  let (seconds, t) ← short? 5 ["60", "61"] (← expect? 58 t)
  let t ← blanks? t
  if (t.take 3).map smallLetter ≠ Text.ofString "gmt" then none
  let offset ← printedOffset? (t.drop 3)
  let m : Moment := ⟨number year, month + 1, day, hours, minutes, seconds, 0, some offset⟩
  if m.isGenuine && offsetFits offset then return m else none

/-! ## Mail headers -/

/-- The days of the week in small letters. -/
def headerDays : List Text := ["mon", "tue", "wed", "thu", "fri", "sat", "sun"]

/-- The months in small letters, short and long. -/
def headerMonths : List Text :=
  ["jan", "feb", "mar", "apr", "may", "jun", "jul", "aug", "sep", "oct", "nov", "dec", "january", "february",
    "march", "april", "may", "june", "july", "august", "september", "october", "november", "december"]

/-- Names of zones, with their offsets in hours and minutes. -/
def zoneNames : List (Text × Int) :=
  [("UT", 0), ("UTC", 0), ("GMT", 0), ("Z", 0), ("AST", -400), ("ADT", -300), ("EST", -500), ("EDT", -400),
    ("CST", -600), ("CDT", -500), ("MST", -700), ("MDT", -600), ("PST", -800), ("PDT", -700)]

/-- The words of a header without the day of the week, which may be joined to the next word by a comma. -/
def dropDay (words : List Text) : List Text :=
  match words with
  | [] => []
  | w :: rest =>
    if w.getLast? = some 44 || headerDays.contains (Text.lower w) then rest
    else (w.reverse.takeWhile (· ≠ 44)).reverse :: rest

/-- A date with dashes in it counts as three words. -/
def splitDashes (words : List Text) : List Text :=
  match words with
  | [date, time, zone] =>
    match Text.splitOn date "-" with
    | [day, month, year] => [day, month, year, time, zone]
    | _ => words
  | _ => words

/-- An offset may follow the time without a blank; without one it is empty. -/
def splitOffset (words : List Text) : List Text :=
  match words with
  | [day, month, year, time] =>
    match (Text.indexOf? "+" time).or (Text.indexOf? "-" time) with
    | some (n + 1) => [day, month, year, time.take (n + 1), time.drop (n + 1)]
    | _ => [day, month, year, time, []]
  | _ => words

/-- A word without a comma at its end. -/
def dropComma (w : Text) : Text := if w.getLast? = some 44 then w.dropLast else w

/-- The parts of a time of day, with colons between them or else with points. -/
def timeParts? (t : Text) : Option (Text × Text × Text) :=
  match Text.splitOn t ":" with
  | [h, m] => some (h, m, "0")
  | [h, m, s] => some (h, m, s)
  | [_] =>
    match Text.splitOn t "." with
    | [h, m] => some (h, m, "0")
    | [h, m, s] => some (h, m, s)
    | _ => none
  | _ => none

/-- A year of two figures is one of the years 1969 to 2068. -/
def fullYear (year : Int) : Int := if year < 100 then (if 68 < year then year + 1900 else year + 2000) else year

/-- The seconds of an offset such as `-0500`, or of the name of a zone. An offset of `-0000`, and one that
cannot be read, leave the zone open. -/
def zoneSeconds (t : Text) : Option Int :=
  let t := Text.upper t
  let hundreds : Option Int :=
    match zoneNames.lookup t with
    | some n => some n
    | none =>
      match Numeral.toInt? t with
      | some n => if n = 0 ∧ t.head? = some 45 then none else some n
      | none => none
  hundreds.map fun n =>
    let seconds : Int := (n.natAbs / 100 * 3600 + n.natAbs % 100 * 60 : Nat)
    if n < 0 then -seconds else seconds

/-- Whether a number fits into 32 bits. -/
def fitsWord (n : Int) : Bool := -2147483648 ≤ n && n ≤ 2147483647

/-- The loose form of mail headers: `ok none` when it does not apply, and a fault when a number in it is
too large. -/
def ofHeader? (t : Text) : Except Fault (Option Moment) :=
  match splitOffset (splitDashes (dropDay (Text.words t))) with
  | dd :: mm :: yy :: tm :: tz :: _ =>
    if dd.isEmpty || mm.isEmpty || yy.isEmpty || tm.isEmpty then .ok none
    else
      let (dd, mm) :=
        if headerMonths.contains (Text.lower mm) then (dd, Text.lower mm) else (Text.lower mm, Text.lower dd)
      let (yy, tm) := if (Text.indexOf? ":" yy).any (0 < ·) then (tm, yy) else (yy, tm)
      let yy := dropComma yy
      let (yy, tz) := if yy.isEmpty || yy.head?.any Text.isDigitSign then (yy, tz) else (tz, yy)
      match headerMonths.idxOf? mm, timeParts? (dropComma tm) with
      | some i, some (th, tmin, ts) =>
        match Numeral.toInt? yy, Numeral.toInt? (dropComma dd), Numeral.toInt? th, Numeral.toInt? tmin,
            Numeral.toInt? ts with
        | some year, some day, some h, some mi, some s =>
          let year := fullYear year
          let zone := zoneSeconds tz
          if zone.any fun z => 999999999 < (z.fdiv 86400).natAbs then .error .integerTooLarge
          else if zone.any fun z => !offsetFits (z * 1000000) then .ok none
          else if !List.all [year, day, h, mi, s] fitsWord then .error .integerTooLarge
          else
            let m : Moment := ⟨year, (i % 12 : Nat) + 1, day, h, mi, s, 0, zone.map (· * 1000000)⟩
            .ok (if m.isGenuine then some m else none)
        | _, _, _, _, _ => .ok none
      | _, _ => .ok none
  | _ => .ok none

end Moment

namespace Time

/-- The time of a text, NaN when it is no date. A date without a time of day is one in Greenwich. -/
def parse (zone : Int) (t : Text) : Except Fault Float :=
  let t := Text.strip t
  match Moment.ofFigures? (Text.replaceAll t "Z" "+00:00") with
  | some m =>
    if m.offset.isNone && t.length ≤ 10 then { m with offset := some 0 : Moment }.time zone else m.time zone
  | none =>
    match Moment.ofPrinted? t with
    | some m => m.time zone
    | none =>
      match Moment.ofHeader? t with
      | .ok (some m) => m.time zone
      | .ok none => .ok Number.nan
      | .error f => .error f

end Time

end ScriptEngine
