import ScriptEngine.Heap.Store

/-!
# Portraits

What a value looks like from outside: a finite picture of an object with its own properties, those of the
objects in them, and so on. An object inside itself is pictured by how far up it is found, and pictures end
at a fixed depth. Taking a picture runs no function of the script.

## Main definitions

* `Portrait`: pictures of values.
* `Portrait.ofValue`: the picture of a value.
-/

namespace ScriptEngine

/-- A picture of a value. -/
inductive Portrait where
  | undefined
  | null
  | bool (b : Bool)
  | num (x : Float)
  | str (t : Text)
  /-- A scope. -/
  | scope
  /-- An object that contains itself: the one that is `up` levels further out. -/
  | cycle (up : Nat)
  /-- An object too far inside others. -/
  | deep
  /-- A function with its fixed name and its text. -/
  | function (name source : Text) (props : List (Text × Portrait))
  /-- Another object, with the features that its class has beside the properties. -/
  | object (className : String) (features : List (String × Portrait)) (props : List (Text × Portrait))
  deriving Inhabited

namespace Portrait

/-- How many objects a pictured object can be inside of. -/
def mostLevels : Nat := 12

/-- The properties of an object that a picture shows: its own enumerable ones, in order. -/
def shown (s : Store) (o : ObjectId) : List (Text × Value) :=
  let f := s.frame (s.propsOf o)
  (f.localKeys true).map fun k => (k.text, (f.lookup? k).getD .undefined)

/-- The features of an object beside its properties. -/
def featuresOf (s : Store) (o : ObjectId) : List (String × Value) :=
  match s.body o with
  | .array => [("length", .ofNat (s.arrayLength o))]
  | .string t => [("value", .str t)]
  | .number x => [("value", .num x)]
  | .boolean b => [("value", .bool b)]
  | .date ms => [("ms", .num ms)]
  | .regexp source flags =>
    [("source", .str source), ("flags", .str flags), ("lastIndex", s.getProperty o Key.lastIndex)]
  | .error => [("name", s.getProperty o Key.nameKey), ("message", s.getProperty o Key.message)]
  | _ => []

/-- The picture of a value inside the objects of `path`, the innermost first; `levels` is how many more
levels are pictured. -/
def within (s : Store) : Nat → List ObjectId → Value → Portrait
  | _, _, .undefined => undefined
  | _, _, .null => null
  | _, _, .bool b => bool b
  | _, _, .num x => num x
  | _, _, .str t => str t
  | _, _, .frame _ => scope
  | levels, path, .obj o =>
    match path.findIdx? (· == o) with
    | some i => cycle (i + 1)
    | none =>
      match levels with
      | 0 => deep
      | n + 1 =>
        let picture (v : Value) := within s n (o :: path) v
        let props := (shown s o).map fun (name, v) => (name, picture v)
        match s.body o with
        | .function name _ => function name (s.body o).functionText props
        | b => object b.className ((featuresOf s o).map fun (name, v) => (name, picture v)) props

/-- The picture of a value. -/
def ofValue (s : Store) (v : Value) : Portrait := within s mostLevels [] v

end Portrait

end ScriptEngine
