import ScriptEngine.Key
import ScriptEngine.Number.Binary

/-!
# Values

What variables and properties hold: the primitive values, and references to objects and frames of the
store. Objects are compared by identity, which is their number in the store.

## Main definitions

* `Value`: the values of the language.
* `Value.Kind`: the six kinds that equality distinguishes.
-/

namespace ScriptEngine

/-- The number of a frame in the store. -/
abbrev FrameId := Nat

/-- The number of an object in the store. -/
abbrev ObjectId := Nat

/-- The number of a statement counter. -/
abbrev RunnerId := Nat

/-- The values of the language. A frame is a value only for a host that builds frames by hand. -/
inductive Value where
  | undefined
  | null
  | bool (b : Bool)
  | num (x : Float)
  | str (t : Text)
  | obj (o : ObjectId)
  | frame (f : FrameId)
  deriving Inhabited

namespace Value

/-- The kinds of values that equality distinguishes. -/
inductive Kind where
  | undefined
  | null
  | boolean
  | number
  | string
  | object
  deriving DecidableEq, Repr, Inhabited

/-- The kind of a value. -/
def kind : Value → Kind
  | undefined => .undefined
  | null => .null
  | bool _ => .boolean
  | num _ => .number
  | str _ => .string
  | obj _ => .object
  | frame _ => .object

/-- Whether a value is `undefined`. -/
def isUndefined : Value → Bool
  | undefined => true
  | _ => false

/-- Whether a value is `undefined` or `null`. -/
def isNullish : Value → Bool
  | undefined => true
  | null => true
  | _ => false

/-- Whether two values have the same kind and are equal: objects by identity, numbers as numbers, so that
NaN differs from itself and the two zeros are equal. -/
def identical : Value → Value → Bool
  | undefined, undefined => true
  | null, null => true
  | bool a, bool b => a == b
  | num a, num b => a == b
  | str a, str b => a == b
  | obj a, obj b => a == b
  | frame a, frame b => a == b
  | _, _ => false

/-- The value of a natural number. -/
def ofNat (n : Nat) : Value := num (Number.ofNat n)

/-- The value of an integer. -/
def ofInt (i : Int) : Value := num (Number.ofInt i)

instance : Coe String Value := ⟨fun s => str s⟩

/-- The value of an optional text. -/
def ofText? : Option Text → Value
  | some t => str t
  | none => undefined

end Value

end ScriptEngine
