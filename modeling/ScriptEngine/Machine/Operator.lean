import ScriptEngine.Machine.Convert

/-!
# Operators

What the operators of expressions compute. An operand is a computation, so that a value that has yet to be
fetched is fetched exactly when its operator needs it: the left operand is fetched and converted before the
right one.

Ordering compares differences of numbers, so texts are compared as numbers too.

## Main definitions

* `Operator.add`, `Operator.arithmetic`, `Operator.ordering`: operators on converted operands.
* `Operator.looseEqual`: equality across kinds.
* `Operator.apply`: the operator of a binary expression, `in` and `instanceof` apart.
-/

namespace ScriptEngine

namespace Operator

open Proc

/-- An operand: a computation that fetches its value. -/
abbrev Operand := Proc Value

/-- The number of an operand. -/
def number (a : Operand) : Proc Float := do toNumber (← a)

/-- Sum of numbers, or concatenation when one of the primitive values is a text. -/
def add (a b : Operand) : Proc Value := do
  let x ← toPrimitive (← a) .none
  let y ← toPrimitive (← b) .none
  match x, y with
  | .str _, _ => return .str ((← toText x) ++ (← toText y))
  | _, .str _ => return .str ((← toText x) ++ (← toText y))
  | _, _ =>
    let m ← toNumber x
    let n ← toNumber y
    return .num (m + n)

/-- An operator on two numbers. -/
def arithmetic (f : Float → Float → Float) (a b : Operand) : Proc Value := do
  let x ← number a
  let y ← number b
  return .num (f x y)

/-- The remainder of a division, with the sign of the dividend. -/
def modulo (x y : Float) : Float :=
  if y == 0 || x.isNaN || y.isNaN || !Number.isFinite x then Number.nan
  else if !Number.isFinite y then x
  else Number.remainder x y

/-- A comparison of the difference of two numbers with zero. -/
def ordering (p : Float → Bool) (a b : Operand) : Proc Value := do
  let x ← number a
  let y ← number b
  return .bool (p (x - y))

/-- Equality of two values of which neither is an object. -/
def primitiveEqual (a b : Value) : Proc Bool := do
  if a.kind = b.kind then return a.identical b
  else if a.isNullish || b.isNullish then return a.isNullish && b.isNullish
  else
    let x ← primitiveToNumber a
    let y ← primitiveToNumber b
    return x == y

/-- Equality across kinds: `undefined` and `null` equal only each other, an object is compared by its
primitive value, and all else is compared as numbers. -/
def looseEqual (a b : Value) : Proc Bool := do
  if a.kind = b.kind then return a.identical b
  else if a.isNullish || b.isNullish then return a.isNullish && b.isNullish
  else if a.kind = .object then
    let p ← toPrimitive a .none
    if isObject p then return false else primitiveEqual p b
  else if b.kind = .object then
    let p ← toPrimitive b .none
    if isObject p then return false else primitiveEqual a p
  else primitiveEqual a b

/-- A comparison of two values. -/
def comparison (f : Value → Value → Proc Bool) (a b : Operand) : Proc Value := do
  let x ← a
  let y ← b
  return .bool (← f x y)

/-- The operator of a binary expression; `in` and `instanceof` are not operators on values alone. -/
def apply (op : BinaryOp) (a b : Operand) : Proc Value :=
  match op with
  | .add => add a b
  | .sub => arithmetic (· - ·) a b
  | .mul => arithmetic (· * ·) a b
  | .div => arithmetic (· / ·) a b
  | .mod => arithmetic modulo a b
  | .bitAnd => arithmetic Number.bitAnd a b
  | .bitOr => arithmetic Number.bitOr a b
  | .bitXor => arithmetic Number.bitXor a b
  | .shiftLeft => arithmetic Number.shiftLeft a b
  | .shiftRight => arithmetic Number.shiftRight a b
  | .shiftRightUnsigned => arithmetic Number.shiftRightUnsigned a b
  | .less => ordering (· < 0) a b
  | .greater => ordering (· > 0) a b
  | .lessEq => ordering (· ≤ 0) a b
  | .greaterEq => ordering (· ≥ 0) a b
  | .equal => comparison looseEqual a b
  | .notEqual => comparison (fun x y => do return !(← looseEqual x y)) a b
  | .identical => comparison (fun x y => return x.identical y) a b
  | .notIdentical => comparison (fun x y => return !x.identical y) a b
  | .elementOf => return .undefined
  | .instanceOf => return .undefined

/-- The operators before a single operand that work on its value. -/
def applyUnary (op : UnaryOp) (a : Operand) : Proc Value :=
  match op with
  | .minus => do return .num (-(← number a))
  | .plus => do return .num (← number a)
  | .not => do return .bool (!(← a).toBoolean)
  | .bitNot => do return .num (Number.bitNot (← number a))
  | .typeOf => do return .str (← typeOf (← a))
  | .void => do
    let _ ← a
    return .undefined
  | .delete => do
    let _ ← a
    return .bool true

/-- Whether both operands are true; the second is fetched only if the first is. -/
def both (a b : Operand) : Proc Value := do
  if (← a).toBoolean then return .bool (← b).toBoolean else return .bool false

/-- Whether one of the operands is true; the second is fetched only if the first is not. -/
def either (a b : Operand) : Proc Value := do
  if (← a).toBoolean then return .bool true else return .bool (← b).toBoolean

/-- The second operand, after the first has been fetched. -/
def second (a b : Operand) : Proc Value := do
  let _ ← a
  b

end Operator

end ScriptEngine
