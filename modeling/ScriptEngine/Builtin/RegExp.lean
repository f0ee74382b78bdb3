import ScriptEngine.Builtin.Invocation
import ScriptEngine.Eval.Exec
import ScriptEngine.Pattern.Search
import ScriptEngine.Pattern.Source

/-!
# Functions around patterns

A pattern is read each time it is used, so a malformed one is an error of its use and not of its making.
The property `lastIndex` of a global pattern says where the next search starts.
-/

namespace ScriptEngine

open Proc

/-- A pattern object. -/
structure PatternRef where
  object : ObjectId
  source : Text
  flags : Text

namespace PatternRef

/-- The pattern that a value is. -/
def of? (v : Value) : Proc (Option PatternRef) := read fun s =>
  match v with
  | .obj o =>
    match s.body o with
    | .regexp source flags => some ⟨o, source, flags⟩
    | _ => none
  | _ => none

/-- Whether a pattern has a flag. -/
def has (r : PatternRef) (flag : CodePoint) : Bool := List.contains r.flags flag

/-- Whether a pattern is used for all matches. -/
def isGlobal (r : PatternRef) : Bool := r.has 103

/-- The expression of a pattern. -/
def compile (r : PatternRef) : Proc Compiled :=
  let written := Pattern.translate r.source
  match Compiled.ofText { ignoreCase := r.has 105, multiline := r.has 109 } written with
  | .ok c => return c
  | .error .repetitionTooLarge => fault .repetitionTooLarge
  | .error .tooManyDigits => fault .unreadableDigits
  | .error .mixedAlphabets => fault .mixedAlphabets
  | .error e =>
    raise .syntaxError ("Invalid regular expression: /" ++ r.source ++ "/: " ++ e.message written)

/-- Says where the next search starts. -/
def setLastIndex (r : PatternRef) (n : Nat) : Proc Unit := do
  perform (.put (← read (·.propsOf r.object)) Key.lastIndex (.ofNat n))

/-- Where the next search of a global pattern starts. An infinite position is none at all. -/
def lastIndex (r : PatternRef) : Proc Int := do
  let n ← toInteger (← read (·.getProperty r.object Key.lastIndex))
  match Number.truncate? n with
  | some i => return i
  | none => fault .infinitePosition

/-- The values of the groups of a match. -/
def groupValues (h : Hit) : List Value := h.groups.map Value.ofText?

/-- The array for a match. -/
def hitArray (t : Text) (h : Hit) : Proc Value := do
  let a ← perform (.newArray (some Realm.arrayPrototype) (.str h.text :: groupValues h))
  let f ← read (·.propsOf a)
  perform (.put f Key.matchIndex (.ofNat h.start))
  perform (.put f Key.input (.str t))
  return .obj a

/-- The first match of a pattern; a global one starts where the last one ended. -/
def next (r : PatternRef) (t : Text) : Proc (Option Hit) := do
  let start ← if r.isGlobal then r.lastIndex else pure 0
  let found ←
    if 0 ≤ start ∧ start ≤ t.length then do pure ((← r.compile).find t start.toNat false)
    else pure none
  if r.isGlobal then r.setLastIndex ((found.map (·.stop)).getD 0)
  return found

/-- The array for the next match, `null` if there is none. -/
def exec (r : PatternRef) (t : Text) : Proc Value := do
  match ← r.next t with
  | some h => hitArray t h
  | none => return .null

/-- The text of a pattern. -/
def text (r : PatternRef) : Text := "/" ++ r.source ++ "/" ++ r.flags

end PatternRef

namespace RegExpFn

/-- A new pattern from the arguments of its constructor. -/
def make (pattern flags : Value) : Proc Value := do
  match ← PatternRef.of? pattern with
  | some r =>
    let flags ← if flags.isUndefined then pure r.flags else Proc.toText flags
    newRegExp r.source flags
  | none =>
    let source ← if pattern.isUndefined then pure (Text.ofString "(?:)") else Proc.toText pattern
    let flags ← if flags.isUndefined then pure [] else Proc.toText flags
    newRegExp source flags

/-- The receiver, which has to be a pattern; `what` names the method. -/
def receiver (what : String) (this : Value) : Proc PatternRef := do
  match ← PatternRef.of? this with
  | some r => return r
  | none => typeError ("RegExp.prototype." ++ Text.ofString what ++ " called on incompatible receiver")

/-- What a function around patterns does. -/
def invoke (f : RegExpFn) (i : Invocation) : Proc Value := do
  match f with
  | construct =>
    match ← PatternRef.of? (i.arg 0) with
    | some _ => if (i.arg 1).isUndefined then return i.arg 0 else make (i.arg 0) (i.arg 1)
    | none => make (i.arg 0) (i.arg 1)
  | exec =>
    let r ← receiver "exec" i.this
    r.exec (← Proc.toText (i.arg 0))
  | test =>
    let r ← receiver "test" i.this
    return .bool (← r.next (← Proc.toText (i.arg 0))).isSome
  | toText => return .str (← receiver "toString" i.this).text

end RegExpFn

end ScriptEngine
