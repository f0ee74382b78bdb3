import ScriptEngine.Key

/-!
# Interned names

A table that numbers names. Canonical array indexes are their own numbers and need no entry; every other
name gets the next negative number the first time it is seen, and keeps it.

## Main definitions

* `Interner`: the names seen so far, in order.
* `Interner.intern`, `Interner.resolve?`: from a name to its handle and back.
-/

namespace ScriptEngine

/-- The names with a negative number, the first seen first. -/
structure Interner where
  /-- The name numbered `-1`, the name numbered `-2`, and so on. -/
  names : List Text

namespace Interner

/-- A name with its number. Two handles are the same when their numbers are. -/
structure Handle where
  /-- The number: an array index, or a negative number from the table. -/
  id : Int
  /-- The name. -/
  name : Text

/-- The array index of a handle, if it is one. -/
def Handle.index? (h : Handle) : Option Nat := if 0 ≤ h.id then some h.id.toNat else none

/-- Whether two handles stand for the same name. -/
def Handle.same (a b : Handle) : Bool := a.id == b.id

/-- The table with the names that the engine itself uses. -/
def initial : Interner :=
  ⟨["length", "prototype", "constructor", "this", "arguments", "caller", "callee", "valueOf", "toString",
    "message", "name", "source", "global", "ignoreCase", "multiline", "lastIndex", "index", "input",
    "undefined"].map Text.ofString⟩

/-- The handle of an array index; it is in no table. -/
def indexHandle (i : Nat) : Handle := ⟨i, Text.ofNat i⟩

/-- The number of the name at position `p` of the table. -/
def numberAt (p : Nat) : Int := -(p : Int) - 1

/-- The handle of a name, and the table with the name in it. -/
def intern (table : Interner) (name : Text) : Handle × Interner :=
  match Key.ofText name with
  | .index i => (indexHandle i, table)
  | .name _ =>
    match table.names.idxOf? name with
    | some p => (⟨numberAt p, name⟩, table)
    | none => (⟨numberAt table.names.length, name⟩, ⟨table.names ++ [name]⟩)

/-- The name with the given number, if one has it. -/
def resolve? (table : Interner) (id : Int) : Option Text :=
  if 0 ≤ id then some (Text.ofNat id.toNat) else table.names[(-id - 1).toNat]?

/-- What a key can be made from. -/
inductive Label where
  /-- A key that was made before. -/
  | handle (h : Handle)
  /-- A spelled name. -/
  | text (t : Text)
  /-- A number, which is an array index when it is in range. -/
  | number (i : Int)
  /-- A truth value. -/
  | flag (b : Bool)
  /-- No value. -/
  | absent

/-- The spelling of a label. -/
def Label.spelling : Label → Text
  | handle h => h.name
  | text t => t
  | number i => Text.ofInt i
  | flag b => if b then "True" else "False"
  | absent => "None"

/-- The handle of a label. -/
def keyOf (table : Interner) (label : Label) : Handle × Interner :=
  match label with
  | .handle h => (h, table)
  | .number i =>
    if 0 ≤ i ∧ i ≤ Key.maxIndex then (indexHandle i.toNat, table) else table.intern label.spelling
  | _ => table.intern label.spelling

end Interner

end ScriptEngine
