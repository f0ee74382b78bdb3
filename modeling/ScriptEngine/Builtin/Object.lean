import ScriptEngine.Builtin.Invocation

/-!
# Functions around objects

The constructor of plain objects, the functions `keys` and `create`, and the methods that every object
inherits.
-/

namespace ScriptEngine

namespace ObjectFn

open Proc

/-- The object of a value; a new one if there is no value. -/
def make (v : Value) : Proc Value := do
  if v.isNullish then return .obj (← newObject) else toObjectValue v

/-- The names of an object's own enumerable properties. -/
def keyNames (v : Value) : Proc Value := do
  match v with
  | .obj o =>
    let ks ← read (·.ownKeys o true)
    newArray (ks.map fun k => .str k.text)
  | _ => typeError "Object.keys called on non-object"

/-- A new object that inherits from another one, or from none. -/
def derive (v : Value) : Proc Value := do
  match v with
  | .obj o => return .obj (← perform (.newObject (some o)))
  | .null => return .obj (← perform (.newObject none))
  | _ => typeError "Object prototype may only be an Object or null"

/-- Whether a property is shown by enumeration. -/
def isEnumerable (s : Store) (o : ObjectId) (k : Key) : Bool :=
  match s.body o, k with
  | .string t, .index i => i < t.length
  | _, _ => (s.frame (s.propsOf o)).isEnumerable k

/-- The text that names the class of a value. -/
def describe (v : Value) : Proc Value := do
  match v with
  | .undefined => return "[object Undefined]"
  | .null => return "[object Null]"
  | _ => return .str (← body (← toObject v)).defaultText

/-- What a function around objects does. -/
def invoke (f : ObjectFn) (i : Invocation) : Proc Value := do
  match f with
  | construct => make (i.arg 0)
  | keys => keyNames (i.arg 0)
  | create => derive (i.arg 0)
  | hasOwnProperty =>
    let o ← toObject i.this
    let k ← toKey (i.arg 0)
    return .bool (← read (·.hasOwn o k))
  | isPrototypeOf =>
    match i.arg 0 with
    | .obj v =>
      let o ← toObject i.this
      return .bool (← read fun s => s.inherits (s.propsOf v) (s.propsOf o))
    | _ => return .bool false
  | propertyIsEnumerable =>
    let o ← toObject i.this
    let k ← toKey (i.arg 0)
    return .bool (← read (isEnumerable · o k))
  | toText => describe i.this
  | toLocaleText =>
    let o ← toObject i.this
    match ← callable? (← read (·.getProperty o Key.toStringKey)) with
    | some f => Proc.call f i.invoker i.this []
    | none => typeError "toString is not a function"
  | valueOf => toObjectValue i.this

end ObjectFn

end ScriptEngine
