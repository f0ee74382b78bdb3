import ScriptEngine.Heap.Frame
import ScriptEngine.Builtin.Name
import ScriptEngine.Grammar.Program

/-!
# Objects

An object is a frame of properties, the object it inherits from, and what makes it special: the value of a
boxed primitive, the time of a date, the source of a pattern, or the code of a function.

## Main definitions

* `Callable`: what a function does when it is called.
* `Body`: what an object is beside its properties.
* `Object`: an object of the store.
-/

namespace ScriptEngine

/-- What a function does when it is called. -/
inductive Callable where
  /-- Runs statements in a fresh scope inside `scope`, counting them on `runner`. When `selfBound` is set
  the function's own name is bound in that scope. -/
  | script (params : List Text) (body : List Stmt) (scope : FrameId) (runner : RunnerId) (selfBound : Bool)
  /-- Does what a built-in function does. -/
  | native (n : Native)
  /-- Asks the host. -/
  | service (s : Service)
  /-- Calls another function with a fixed receiver and first arguments. -/
  | bound (target : ObjectId) (this : Value) (args : List Value)
  deriving Inhabited

/-- What an object is beside its properties. -/
inductive Body where
  | plain
  | array
  | string (t : Text)
  | number (x : Float)
  | boolean (b : Bool)
  /-- A date, by its time in milliseconds; NaN when it is invalid. -/
  | date (ms : Float)
  /-- A pattern; its flags are a part of `gim` in this order. -/
  | regexp (source flags : Text)
  | error
  | math
  /-- A function. The name is fixed, whatever happens to the property of that name. -/
  | function (name : Text) (callable : Callable)
  deriving Inhabited

/-- An object of the store. -/
structure Object where
  /-- The object from which properties are inherited. -/
  proto : Option ObjectId := none
  /-- The frame of the properties. By default it is that of the object from which all others inherit, so that
  no object has the scope of the built-in names for its properties. -/
  props : FrameId := 1
  /-- What the object is beside its properties. -/
  body : Body := .plain
  deriving Inhabited

namespace Body

/-- The name of the class of an object. -/
def className : Body → String
  | plain => "Object"
  | array => "Array"
  | string _ => "String"
  | number _ => "Number"
  | boolean _ => "Boolean"
  | date _ => "Date"
  | regexp _ _ => "RegExp"
  | error => "Error"
  | math => "Math"
  | function _ _ => "Function"

/-- Whether the object can be called. -/
def isCallable : Body → Bool
  | function _ _ => true
  | _ => false

/-- Whether the object is an array. -/
def isArray : Body → Bool
  | array => true
  | _ => false

/-- The text of a function: its name and parameters, without its code. -/
def functionText : Body → Text
  | function name (.script params _ _ _ _) =>
    "function " ++ name ++ "(" ++ Text.joinWith ", " params ++ ") \x7b [code] \x7d"
  | function name _ => "function " ++ name ++ "() \x7b [native code] \x7d"
  | _ => []

/-- The value of a property that comes with the body and cannot be changed: the characters and the length
of a string, the source and the flags of a pattern. -/
def fixed? (b : Body) (k : Key) : Option Value :=
  match b with
  | string t =>
    if k = Key.length then some (.ofNat t.length)
    else k.index?.bind fun i => t[i]?.map fun c => .str [c]
  | regexp source flags =>
    if k = Key.source then some (.str source)
    else if k = Key.global then some (.bool (List.contains flags 103))
    else if k = Key.ignoreCase then some (.bool (List.contains flags 105))
    else if k = Key.multiline then some (.bool (List.contains flags 109))
    else none
  | _ => none

/-- Whether a fixed property also counts as present: those of strings do, those of patterns do not. -/
def fixedPresent (b : Body) (k : Key) : Bool :=
  match b with
  | string _ => (b.fixed? k).isSome
  | _ => false

/-- The index keys of the characters of a string. -/
def characterKeys : Body → List Key
  | string t => (List.range t.length).map .index
  | _ => []

end Body

end ScriptEngine
