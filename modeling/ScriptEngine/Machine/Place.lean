import ScriptEngine.Machine.Operator

/-!
# Places

A place is a key in a container, and stands for whatever is there when it is looked at: nothing is
remembered between two reads. Variables are places in scopes, properties are places in objects.

Assigning to a place in a scope goes to the nearest container that holds the key, or to the scope of the
program if none does. Assigning to a place in an object always changes that object.

## Main definitions

* `Place`: a container and a key.
* `Proc.putProperty`, `Proc.putVariable`: writing to an object and to a scope.
* `Place.assign`, `Place.combine`, `Place.increment`, `Place.delete`, `Place.call`: what can be done with a
  place.
* `Place.postponedIncrement`: an addition that waits until its result is needed.
-/

namespace ScriptEngine

/-- A key in a container. -/
structure Place where
  /-- The scope or object. -/
  container : Container
  /-- The name of the variable or property. -/
  key : Key
  deriving DecidableEq, Inhabited

namespace Proc

/-- The length that an array gets when a number is written to its `length`. -/
def lengthOf (n : Float) : Nat := if 0 < n && n < 4294967296.0 then (Number.truncate n).toNat else 0

/-- Writes a property of an object. What is fixed stays as it is, and writing the `length` of an array
drops the elements that no longer fit. -/
def putProperty (o : ObjectId) (k : Key) (v : Value) : Proc Unit := do
  let b ← body o
  if (b.fixed? k).isSome then return ()
  else if b.isArray && k = Key.length then
    let n ← toInteger v
    perform (.resize (← read (·.propsOf o)) (lengthOf n))
  else perform (.put (← read (·.propsOf o)) k v)

/-- Writes to a container itself. -/
def putIn (c : Container) (k : Key) (v : Value) : Proc Unit :=
  match c with
  | .scope f => perform (.put f k v)
  | .object o => putProperty o k v

/-- Writes a variable: in the nearest container that holds it, or in the scope of the program. -/
def putVariable (f : FrameId) (k : Key) (v : Value) : Proc Unit := do
  putIn (← read fun s => (s.owner? f k).getD (.scope (s.globalScope f))) k v

/-- Writes a key in the container that holds it; the result is whether there is one. -/
def update (c : Container) (k : Key) (v : Value) : Proc Bool := do
  let owner ← read fun s =>
    match c with
    | .scope f => s.owner? f k
    | .object o => if s.hasProperty o k then some c else none
  match owner with
  | some c =>
    putIn c k v
    return true
  | none => return false

/-- Throws because a value cannot be called; it is named by `name`, or by its type if the name is empty.
Where no built-in names are in reach, the message itself is thrown. -/
def notCallable (invoker : Option FrameId) (v : Value) (name : Text) : Proc α := do
  let what ← if name.isEmpty then typeOf v else pure name
  let message := what ++ " is not a function"
  let attached ← read fun s => invoker.any s.isAttached
  if attached then typeError message else throw (.str ("TypeError: " ++ message))

end Proc

namespace Place

open Proc

/-- The value at a place. -/
def get (p : Place) : Proc Value := read (·.read p.container p.key)

/-- Writes a value to a place. -/
def assign (p : Place) (v : Value) : Proc Value := do
  match p.container with
  | .scope f => putVariable f p.key v
  | .object o => putProperty o p.key v
  return v

/-- Combines the value at a place with an operand, and writes the result. -/
def combine (p : Place) (op : BinaryOp) (operand : Operator.Operand) : Proc Value := do
  let old ← p.get
  p.assign (← Operator.apply op (return old) operand)

/-- Adds to the number at a place; the result is the new value. -/
def increment (p : Place) (delta : Float) : Proc Value := do
  let x ← toNumber (← p.get)
  p.assign (.num (x + delta))

/-- Adds to the number at a place; the result is the number before. -/
def incrementAfter (p : Place) (delta : Float) : Proc Value := do
  let x ← toNumber (← p.get)
  let _ ← p.assign (.num (x + delta))
  return .num x

/-- The number before a postponed addition to a place. The addition is made when the number is asked for the
first time; later requests get the same number, or `undefined` if the first one failed to find it. -/
def postponedIncrement (p : Place) (delta : Float) (update : Nat) : Proc Value := do
  match ← perform (.start update) with
  | some v => return v
  | none =>
    let x ← toNumber (← p.get)
    perform (.settle update (.num x))
    let _ ← p.assign (.num (x + delta))
    return .num x

/-- Drops the binding at a place; the result is whether there was one. -/
def delete (p : Place) : Proc Bool := do
  match p.container with
  | .scope f => perform (.remove f p.key)
  | .object o => perform (.remove (← read (·.propsOf o)) p.key)

/-- Calls the function at a place. The receiver is the object that holds it. -/
def call (p : Place) (invoker : Option FrameId) (args : List Value) : Proc Value := do
  let v ← p.get
  match ← callable? v with
  | some f =>
    let this : Value :=
      match p.container with
      | .scope _ => .undefined
      | .object o => .obj o
    Proc.call f invoker this args
  | none => notCallable invoker v p.key.text

end Place

end ScriptEngine
