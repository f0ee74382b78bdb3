import ScriptEngine.Builtin.Invocation
import ScriptEngine.Calendar.Reader

/-!
# Functions around dates

All fields of a date are those of the local clock; the functions that are named for Greenwich read and
write the same fields.
-/

namespace ScriptEngine

namespace Dates

open Proc

/-- The local time zone. -/
def zone : Proc Int := read (·.host.zone)

/-- The current time. -/
def now : Proc Float := read (·.host.clock)

/-- The time of a text. -/
def parse (t : Text) : Proc Float := do
  match Time.parse (← zone) t with
  | .ok x => return x
  | .error f => fault f

/-- The time of a year, a month and optional further fields. -/
def ofFields (args : List Value) : Proc Float := do
  let numbers ← Proc.map toNumber (args.take 7)
  match Time.ofArguments? (← zone) numbers with
  | some x => return x
  | none => fault .infinitePosition

/-- The time of the arguments of the constructor. -/
def ofArgs (args : List Value) : Proc Float := do
  match args with
  | [] => now
  | [v] =>
    let converted : Proc Float := do
      match ← toPrimitive v .none with
      | .str t => parse t
      | p => return Time.clip (← toNumber p)
    match v with
    | .obj o =>
      match ← body o with
      | .date ms => return ms
      | _ => converted
    | _ => converted
  | args => ofFields args

/-- A date object with its time. -/
structure Ref where
  object : ObjectId
  ms : Float

/-- The receiver, which has to be a date. -/
def receiver (this : Value) : Proc Ref := do
  let wrong : Proc Ref := typeError "this is not a Date object."
  match this with
  | .obj o =>
    match ← body o with
    | .date ms => return ⟨o, ms⟩
    | _ => wrong
  | _ => wrong

/-- Sets the time of a date and returns it. -/
def setTime (d : Ref) (ms : Float) : Proc Value := do
  perform (.setTime d.object ms)
  return .num ms

/-- A date that is to get a year is taken out of its invalid state first. -/
def revive (d : Ref) : Proc Ref := do
  if Time.isValid d.ms then return d
  else
    perform (.setTime d.object 0.0)
    return { d with ms := 0.0 }

/-- Writes consecutive fields from `first` on. -/
def setFields (d : Ref) (first : DateField) (values : List Value) : Proc Value := do
  if values.isEmpty then setTime d Number.nan
  else
    let z ← zone
    let old := Time.fieldNumbers z d.ms
    let new ← Proc.map toNumber (values.take (7 - first.position))
    let fields := old.take first.position ++ new ++ old.drop (first.position + new.length)
    setTime d (Time.ofFields z fields)

/-- The greatest number of fields that a setter writes. -/
def setterCount : DateField → Nat
  | .year => 3
  | .month => 2
  | .day => 1
  | .hours => 4
  | .minutes => 3
  | .seconds => 2
  | .milliseconds => 1

/-- Sets the year; one from 0 to 99 is one of the twentieth century. The date is looked at only after the
argument has been converted. -/
def setYear (this : Value) (v : Value) : Proc Value := do
  let _ ← receiver this
  match Time.fullYear? (← toNumber v) with
  | none => fault .infinitePosition
  | some y => setFields (← revive (← receiver this)) .year [.num y]

end Dates

open Proc Dates in
/-- What a function around dates does. -/
def DateFn.invoke (f : DateFn) (i : Invocation) : Proc Value := do
  match f with
  | .construct => return .str (Time.text (← zone) (Time.clip (← Dates.now)) .full)
  | .now => return .num (← Dates.now)
  | .parse => return .num (← Dates.parse (← toText (i.arg 0)))
  | .utc =>
    match i.args with
    | [] => return .num Number.nan
    | [y] => return .num (← ofFields [y, .num 0.0])
    | args => return .num (← ofFields args)
  | .get field => return .num (Time.field (← zone) (← receiver i.this).ms field)
  | .set field =>
    let d ← receiver i.this
    let d ← if field = .year then revive d else pure d
    setFields d field (i.args.take (setterCount field))
  | .format style => return .str (Time.text (← zone) (← receiver i.this).ms style)
  | .getDay => return .num (Time.dayOfWeek (← zone) (← receiver i.this).ms)
  | .getTime => return .num (← receiver i.this).ms
  | .getTimezoneOffset => return .num (Time.zoneOffset (← zone) (← receiver i.this).ms)
  | .getYear => return .num (Time.field (← zone) (← receiver i.this).ms .year - 1900.0)
  | .setYear => Dates.setYear i.this (i.arg 0)
  | .setTime =>
    let d ← receiver i.this
    Dates.setTime d (Time.clip (← toNumber (i.arg 0)))

end ScriptEngine
