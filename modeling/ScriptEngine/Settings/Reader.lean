import ScriptEngine.Number.Integer
import ScriptEngine.Settings
import ScriptEngine.Settings.Document
import ScriptEngine.Text.Quoted

/-!
# Reading settings

The settings of an engine are options of one section of a document. An option that the document does not
bind keeps its default.

## Main definitions

* `Settings.Flaw`: why a document holds no settings.
* `Settings.read`: the settings in a document.
-/

namespace ScriptEngine

namespace Settings

/-- Why a document holds no settings. -/
inductive Flaw where
  /-- It is no document, or one of its values cannot be filled in. -/
  | document (f : Document.Flaw)
  /-- A value is no integer. -/
  | notInteger (t : Text) (f : Numeral.Flaw)
  /-- A value is no truth value. -/
  | notBoolean (t : Text)
  deriving Inhabited

/-- The message of a flaw in a value. -/
def Flaw.message? : Flaw → Option Text
  | document _ => none
  | notInteger t .malformed =>
    some ("invalid literal for int() with base 10: " ++ (Text.quoted t).take 200)
  | notInteger _ (.tooLong n) =>
    some ("Exceeds the limit (4300 digits) for integer string conversion: value has " ++ Text.ofNat n ++
      " digits; use sys.set_int_max_str_digits() to increase the limit")
  | notBoolean t => some ("Not a boolean: " ++ t)

/-- The section of the settings. -/
def sectionName : Text := "Engine"

/-- The document that every other one is read on top of. -/
def defaults : Document :=
  { sections := [(sectionName,
      [("steplimit", "0"), ("maxcalldepth", "500"), ("recursionlimit", "0"), ("readonlycore", "False"),
        ("traceinterval", "0")])] }

/-- The text of an option, `absent` if it is not bound. -/
def option (d : Document) (name absent : Text) : Except Flaw Text :=
  match d.value? sectionName name with
  | .ok t => .ok (t.getD absent)
  | .error f => .error (.document f)

/-- The integer of an option. -/
def integer (d : Document) (name absent : Text) : Except Flaw Int := do
  let t ← option d name absent
  match Numeral.read t with
  | .ok i => return i
  | .error f => throw (.notInteger t f)

/-- The truth value of a word, in whatever case it is written. -/
def truth? (t : Text) : Option Bool :=
  let word := Text.lower t
  if ["1", "yes", "true", "on"].any (Text.ofString · == word) then some true
  else if ["0", "no", "false", "off"].any (Text.ofString · == word) then some false
  else none

/-- The truth value of an option. -/
def boolean (d : Document) (name absent : Text) : Except Flaw Bool := do
  let t ← option d name absent
  match truth? t with
  | some b => return b
  | none => throw (.notBoolean t)

/-- The settings in a document. -/
def ofDocument (d : Document) : Except Flaw Settings := do
  let stepLimit ← integer d "steplimit" "0"
  let maxCallDepth ← integer d "maxcalldepth" "500"
  let recursionLimit ← integer d "recursionlimit" "0"
  let readOnlyCore ← boolean d "readonlycore" "False"
  let traceInterval ← integer d "traceinterval" "0"
  return { stepLimit, maxCallDepth, recursionLimit, readOnlyCore, traceInterval }

/-- The settings in the text of a document. -/
def read (t : Text) : Except Flaw Settings :=
  match Document.read defaults t with
  | .ok d => ofDocument d
  | .error f => .error (.document f)

end Settings

end ScriptEngine
