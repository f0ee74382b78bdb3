import ScriptEngine.Machine.Proc
import ScriptEngine.Number.Layout
import ScriptEngine.Number.Word
import ScriptEngine.Calendar.Time

/-!
# Conversions

Turning values into primitive values, truth values, numbers, texts, keys and objects. Converting an object
may call its `valueOf` and `toString` methods, so these conversions are computations.

## Main definitions

* `Proc.toPrimitive`, `Proc.toNumber`, `Proc.toText`, `Proc.toKey`, `Proc.toObject`: the conversions.
* `Value.toBoolean`: the truth of a value, which needs no computation.
* `Proc.typeOf`: the name of the type of a value.
-/

namespace ScriptEngine

/-- The kind of primitive value that is preferred. -/
inductive Hint where
  | none
  | string
  | number
  deriving DecidableEq, Inhabited

/-- Whether a value counts as true. -/
def Value.toBoolean : Value → Bool
  | undefined => false
  | null => false
  | bool b => b
  | num x => !(x == 0 || x.isNaN)
  | str t => !t.isEmpty
  | obj _ => true
  | frame _ => true

/-- The name of the type of a value. -/
def Store.typeOf (s : Store) : Value → Text
  | .undefined => "undefined"
  | .null => "object"
  | .bool _ => "boolean"
  | .num _ => "number"
  | .str _ => "string"
  | .obj o => if (s.body o).isCallable then "function" else "object"
  | .frame _ => "object"

/-- The text of an object that has no other. -/
def Body.defaultText (b : Body) : Text := "[object " ++ Text.ofString b.className ++ "]"

namespace Proc

/-- The name of the type of a value. -/
def typeOf (v : Value) : Proc Text := read (·.typeOf v)

/-- Whether a value is an object. -/
def isObject : Value → Bool
  | .obj _ => true
  | _ => false

/-- Calls the first of the methods that can be called and returns no object. -/
def primitiveBy (o : ObjectId) : List Key → Proc Value
  | [] => return .obj o
  | k :: rest => do
    match ← callable? (← read (·.getProperty o k)) with
    | some f =>
      let v ← call f none (.obj o) []
      if isObject v then primitiveBy o rest else return v
    | Option.none => primitiveBy o rest

/-- The primitive value of an object, or the object itself if it has none. Boxed values have their own; a
date has its time if a number is preferred and its text otherwise. -/
def primitive (o : ObjectId) (hint : Hint) : Proc Value := do
  match ← body o with
  | .string t => return .str t
  | .number x => return .num x
  | .boolean b => return .bool b
  | .date ms =>
    if hint = .number then return .num ms
    else return .str (← read fun s => Time.text s.host.zone ms .full)
  | _ => primitiveBy o (if hint = .string then [Key.toStringKey, Key.valueOf] else [Key.valueOf, Key.toStringKey])

/-- The primitive value of a value; an object without one stays itself. -/
def toPrimitive (v : Value) (hint : Hint) : Proc Value :=
  match v with
  | .obj o => primitive o hint
  | _ => return v

/-- The number of a text. -/
def textToNumber (t : Text) : Proc Float :=
  match Number.ofText? t with
  | some x => return x
  | Option.none => fault .integerTooLarge

/-- The number of a value that is no object. -/
def primitiveToNumber : Value → Proc Float
  | .undefined => return Number.nan
  | .null => return 0.0
  | .bool b => return if b then 1.0 else 0.0
  | .num x => return x
  | .str t => textToNumber t
  | .obj _ => return Number.nan
  | .frame _ => return Number.nan

/-- The number of a value. -/
def toNumber (v : Value) : Proc Float := do primitiveToNumber (← toPrimitive v .number)

/-- A number without its fraction; NaN is zero, and infinities stay. -/
def integerPart (x : Float) : Float :=
  match Number.truncate? x with
  | some i => Number.ofInt i
  | Option.none => if x.isNaN then 0.0 else x

/-- The number of a value without its fraction. -/
def toInteger (v : Value) : Proc Float := do return integerPart (← toNumber v)

/-- The 32-bit word of a value, read as an unsigned number. -/
def toUint32 (v : Value) : Proc Nat := do return Number.toUint32 (← toNumber v)

/-- The 32-bit word of a value, read as a signed number. -/
def toInt32 (v : Value) : Proc Int := do return Number.toInt32 (← toNumber v)

/-- The text of a value that is no object; an object has its default text. -/
def primitiveToText : Value → Proc Text
  | .undefined => return "undefined"
  | .null => return "null"
  | .bool b => return if b then "true" else "false"
  | .num x => return Number.toText x
  | .str t => return t
  | .obj o => do return (← body o).defaultText
  | .frame _ => return "[object Environment]"

/-- The text of a value. -/
def toText (v : Value) : Proc Text := do primitiveToText (← toPrimitive v .string)

/-- The key of a number that is an array index. -/
def indexKey? (x : Float) : Option Key :=
  match Number.decode x with
  | some d =>
    if d.isInteger && 0 ≤ d.truncate && d.truncate < 4294967295 then some (.index d.truncate.toNat)
    else Option.none
  | Option.none => Option.none

/-- The property key of a value. -/
def toKey (v : Value) : Proc Key := do
  match v with
  | .num x =>
    match indexKey? x with
    | some k => return k
    | Option.none => return .ofText (Number.toText x)
  | _ => return .ofText (← toText v)

/-- The object of a value: a primitive value is boxed, and `undefined` and `null` have none. A frame stays
a frame. -/
def toObjectValue (v : Value) : Proc Value :=
  match v with
  | .undefined => typeError "Cannot convert undefined to object"
  | .null => typeError "Cannot convert null to object"
  | .bool b => do return .obj (← perform (.newBoxed (.boolean b)))
  | .num x => do return .obj (← perform (.newBoxed (.number x)))
  | .str t => do return .obj (← perform (.newBoxed (.string t)))
  | .obj _ => return v
  | .frame _ => return v

/-- The object of a value. -/
def toObject (v : Value) : Proc ObjectId := do
  match ← toObjectValue v with
  | .obj o => return o
  | _ => newObject

end Proc

end ScriptEngine
