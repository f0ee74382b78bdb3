import ScriptEngine.Builtin.Invocation
import ScriptEngine.Builtin.Sorting

/-!
# Functions around arrays

The methods of arrays are list functions between two steps: the elements are read as a list, and the result
is written back in one action. What an argument or an element does when it is converted happens before that
action, so a conversion that throws leaves the array as it is.

## Main definitions

* `Arrays.sliceList`, `Arrays.spliceList`: list functions behind the methods.
* `Arrays.sortValues`: sorts values, `undefined` last.
* `ArrayFn.invoke`: what a function around arrays does.
-/

namespace ScriptEngine

namespace Arrays

open Proc

/-! ## List functions -/

/-- The elements from `start` up to `stop`. -/
def sliceList (items : List Value) (start stop : Nat) : List Value := (items.take stop).drop start

/-- The elements with `count` of them from `start` on replaced by others. -/
def spliceList (items : List Value) (start count : Nat) (inserted : List Value) : List Value :=
  items.take start ++ inserted ++ items.drop (start + count)

/-- The position of the first element from `start` on that is identical to a value. -/
def indexIn? (items : List Value) (v : Value) (start : Nat) : Option Nat :=
  ((items.drop start).findIdx? (·.identical v)).map (· + start)

/-- The position of the last element among the first `count` that is identical to a value. -/
def lastIndexIn? (items : List Value) (v : Value) : Nat → Option Nat
  | 0 => none
  | i + 1 => if (items.getD i .undefined).identical v then some i else lastIndexIn? items v i

/-- The value of a position, -1 if there is none. -/
def position : Option Nat → Value
  | some i => .ofNat i
  | none => .num (-1.0)

/-! ## Receivers and callbacks -/

/-- The receiver, which has to be an array; `what` names the method. -/
def array (what : String) (this : Value) : Proc ObjectId := do
  let wrong : Proc ObjectId := typeError ("Array.prototype." ++ Text.ofString what ++ " called on a non-array")
  match this with
  | .obj o => if (← body o).isArray then return o else wrong
  | _ => wrong

/-- The receiver if it is an array, or an array with the elements of something like one. -/
def arrayLike (this : Value) : Proc ObjectId := do
  let copy (v : Value) : Proc ObjectId := do
    perform (.newArray (some Realm.arrayPrototype) (← listFrom v))
  match this with
  | .obj o => if (← body o).isArray then return o else copy this
  | _ => copy (← toObjectValue this)

/-- The elements of an array. -/
def items (o : ObjectId) : Proc (List Value) := read (·.arrayItems o)

/-- The length of an array. -/
def length (o : ObjectId) : Proc Nat := read (·.arrayLength o)

/-- A new array that inherits from what another one inherits from. -/
def newLike (o : ObjectId) (values : List Value) : Proc Value := do
  return .obj (← perform (.newArray (← read fun s => (s.object o).proto) values))

/-- Replaces the elements of an array. -/
def refill (o : ObjectId) (values : List Value) : Proc Unit := do
  perform (.refill (← read (·.propsOf o)) values)

/-- A function that is given the elements of an array one by one. -/
structure Callback where
  function : ObjectId
  this : Value

/-- The callback among the arguments. -/
def callback (what : String) (i : Invocation) : Proc Callback := do
  match ← callable? (i.arg 0) with
  | some f => return ⟨f, i.arg 1⟩
  | none =>
    typeError ("Array.prototype." ++ Text.ofString what ++ ": " ++ (← toText (i.arg 0)) ++ " is not a function")

/-- Goes through the indexes that an array has. The number of indexes is fixed at the start; whether an
index is there, and its element, is looked up when its turn comes. -/
def overPresent (o : ObjectId) (round : Nat → Value → σ → Proc (Round σ β)) (finish : σ → β) (init : σ) :
    Proc β := do
  walk
    (fun i s => do
      if ← read (·.hasOwn o (.index i)) then round i (← read (·.getProperty o (.index i))) s
      else return .again s)
    finish (List.range (← length o)) init

/-- Goes through the indexes that an array has, with the results of a callback. -/
def overResults (what : String) (i : Invocation) (o : ObjectId)
    (round : Nat → Value → Value → σ → Proc (Round σ β)) (finish : σ → β) (init : σ) : Proc β := do
  let cb ← callback what i
  overPresent o
    (fun n v s => do
      let r ← call cb.function i.invoker cb.this [v, .ofNat n, .obj o]
      round n v r s)
    finish init

/-! ## Sorting -/

/-- Whether the first value goes before the second, by a comparison function. -/
def comparedBefore (f : ObjectId) (invoker : Option FrameId) (a b : Value) : Proc Bool := do
  let r ← toNumber (← call f invoker .undefined [a, b])
  return r < 0

/-- Sorts values by a comparison function, or by their texts; values that are `undefined` come last. -/
def sortValues (invoker : Option FrameId) (comparison : Option ObjectId) (values : List Value) :
    Proc (List Value) := do
  let defined := values.filter (!·.isUndefined)
  let missing := List.replicate (values.length - defined.length) Value.undefined
  match comparison with
  | some f => return (← Sorting.sort (comparedBefore f invoker) defined) ++ missing
  | none =>
    let keyed ← Proc.map (fun v => do return (← toText v, v)) defined
    let sorted := keyed.mergeSort fun a b => Text.compare a.1 b.1 != .gt
    return sorted.map (·.2) ++ missing

/-! ## The functions -/

/-- A new array from the arguments of its constructor: a single number is a length. -/
def make (args : List Value) : Proc Value := do
  match args with
  | [.num n] =>
    if Number.isInteger n && 0 ≤ n && n < 4294967296.0 then
      let a ← perform (.newArray (some Realm.arrayPrototype) [])
      perform (.resize (← read (·.propsOf a)) (Number.truncate n).toNat)
      return .obj a
    else rangeError "Invalid array length"
  | _ => newArray args

/-- The elements of a value that is joined to an array: those of an array, or the value itself. -/
def spread (s : Store) : Value → List Value
  | .obj o => if (s.body o).isArray then s.arrayItems o else [.obj o]
  | v => [v]

/-- The texts of elements, with a separator between them; `undefined` and `null` have empty texts. -/
def joinItems (o : ObjectId) (separator : Value) : Proc Value := do
  let sep ← if separator.isUndefined then pure (Text.ofString ",") else toText separator
  let texts ← Proc.map (fun v => if v.isNullish then return [] else toText v) (← items o)
  return .str (Text.joinWith sep texts)

/-- Removes the last element. -/
def popFrom (o : ObjectId) : Proc Value := do
  match ← length o with
  | 0 => return .undefined
  | n + 1 =>
    let v ← read (·.arrayItem o n)
    perform (.resize (← read (·.propsOf o)) n)
    return v

/-- Removes the first element. -/
def shiftFrom (o : ObjectId) : Proc Value := do
  match ← items o with
  | [] => return .undefined
  | v :: rest =>
    refill o rest
    return v

/-- Replaces elements and returns those that are gone. -/
def spliceIn (o : ObjectId) (i : Invocation) : Proc Value := do
  let values ← items o
  let start ← relativeIndex (i.arg 0) values.length 0
  let count ← if (i.arg 1).isUndefined then pure (values.length - start)
    else boundedIndex (i.arg 1) (values.length - start)
  refill o (spliceList values start count (i.args.drop 2))
  newLike o (sliceList values start (start + count))

/-- The number of elements that a search from the end looks at. -/
def lastCount (v : Value) (n : Nat) : Proc Nat := do
  if v.isUndefined then return n
  let k ← toInteger v
  match Number.truncate? k with
  | some k => return if 0 ≤ k then min (k.toNat + 1) n else (n + k + 1).toNat
  | none => if k > 0 then return n else fault .infinitePosition

/-- Folds the elements with a callback. -/
def reduceWith (o : ObjectId) (i : Invocation) : Proc Value := do
  let cb ← callback "reduce" i
  let entries ← overPresent o (fun n v s => return .again ((n, v) :: s)) List.reverse []
  let step (acc : Value) (rest : List (Nat × Value)) : Proc Value :=
    walk
      (fun e acc => do
        return .again (← call cb.function i.invoker .undefined [acc, e.2, .ofNat e.1, .obj o]))
      id rest acc
  match i.args, entries with
  | _ :: init :: _, _ => step init entries
  | _, first :: rest => step first.2 rest
  | _, [] => typeError "Reduce of empty array with no initial value"

/-- A new array with the results of a callback at the indexes that an array has. -/
def mapWith (o : ObjectId) (i : Invocation) : Proc Value := do
  let cb ← callback "map" i
  let out ← perform (.newArray (some Realm.arrayPrototype) [])
  let f ← read (·.propsOf out)
  perform (.resize f (← length o))
  overPresent o
    (fun n v s => do
      let r ← call cb.function i.invoker cb.this [v, .ofNat n, .obj o]
      perform (.put f (.index n) r)
      return .again s)
    id (Value.obj out)

end Arrays

open Proc Arrays in
/-- What a function around arrays does. -/
def ArrayFn.invoke (f : ArrayFn) (i : Invocation) : Proc Value := do
  match f with
  | .construct => make i.args
  | .isArray =>
    match i.arg 0 with
    | .obj o => return .bool (← body o).isArray
    | _ => return .bool false
  | .concat =>
    let o ← arrayLike i.this
    newLike o (← read fun s => s.arrayItems o ++ i.args.flatMap (spread s))
  | .join => joinItems (← arrayLike i.this) (i.arg 0)
  | .pop => popFrom (← array "pop" i.this)
  | .push =>
    let o ← array "push" i.this
    perform (.append (← read (·.propsOf o)) i.args)
    return .ofNat (← length o)
  | .reverse =>
    let o ← array "reverse" i.this
    refill o (← items o).reverse
    return .obj o
  | .shift => shiftFrom (← array "shift" i.this)
  | .slice =>
    let o ← arrayLike i.this
    let n ← length o
    let start ← relativeIndex (i.arg 0) n 0
    let stop ← relativeIndex (i.arg 1) n n
    newLike o (← read fun s => sliceList (s.arrayItems o) start stop)
  | .sort =>
    let comparison ← callable? (i.arg 0)
    if !(i.arg 0).isUndefined && comparison.isNone then
      typeError "The comparison function must be either a function or undefined"
    let o ← array "sort" i.this
    refill o (← sortValues i.invoker comparison (← items o))
    return .obj o
  | .splice =>
    let o ← array "splice" i.this
    if i.args.isEmpty then newArray [] else spliceIn o i
  | .unshift =>
    let o ← array "unshift" i.this
    refill o (i.args ++ (← items o))
    return .ofNat (← length o)
  | .indexOf =>
    let values ← items (← arrayLike i.this)
    return position (indexIn? values (i.arg 0) (← relativeIndex (i.arg 1) values.length 0))
  | .lastIndexOf =>
    let values ← items (← arrayLike i.this)
    return position (lastIndexIn? values (i.arg 0) (← lastCount (i.arg 1) values.length))
  | .toText => joinItems (← arrayLike i.this) .undefined
  | .forEach =>
    let o ← arrayLike i.this
    overResults "forEach" i o (fun _ _ _ s => return .again s) id Value.undefined
  | .map =>
    let o ← arrayLike i.this
    mapWith o i
  | .filter =>
    let o ← arrayLike i.this
    let kept ← overResults "filter" i o
      (fun _ v r s => return .again (if r.toBoolean then v :: s else s)) List.reverse []
    newArray kept
  | .every =>
    let o ← arrayLike i.this
    overResults "every" i o
      (fun _ _ r s => return if r.toBoolean then .again s else .done (.bool false)) id (Value.bool true)
  | .some =>
    let o ← arrayLike i.this
    overResults "some" i o
      (fun _ _ r s => return if r.toBoolean then .done (.bool true) else .again s) id (Value.bool false)
  | .reduce =>
    let o ← arrayLike i.this
    reduceWith o i


end ScriptEngine
