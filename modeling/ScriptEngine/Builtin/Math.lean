import ScriptEngine.Builtin.Invocation

/-!
# Functions of numbers

Rounding goes through the exact value, so that a result of zero is the positive one, except where a half is
rounded up from below zero.
-/

namespace ScriptEngine

namespace Number

/-- The greatest integer that is not above a finite number. -/
def floor? (x : Float) : Option Int :=
  (decode x).map fun d => if d.negative && !d.isInteger then d.truncate - 1 else d.truncate

/-- The least integer that is not below a finite number. -/
def ceil? (x : Float) : Option Int :=
  (decode x).map fun d => if !d.negative && !d.isInteger then d.truncate + 1 else d.truncate

/-- An integer function of finite numbers; others are their own result. -/
def integral (f : Float → Option Int) (x : Float) : Float :=
  match f x with
  | some i => ofInt i
  | none => x

/-- The nearest integer, halves going up. A result of zero keeps the sign of the number. -/
def round (x : Float) : Float :=
  match floor? x with
  | none => x
  | some f =>
    let f := if x - ofInt f ≥ 0.5 then f + 1 else f
    if f = 0 then (if isNegative x then -0.0 else 0.0) else ofInt f

/-- Whether a number is an odd integer. -/
def isOddInteger (y : Float) : Bool := isInteger y && truncate y % 2 == 1

/-- A power. One to an infinite power is not a number, and zero to a negative power is infinite. -/
def power (x y : Float) : Float :=
  if y.isNaN then nan
  else if y == 0 then 1.0
  else if x.isNaN then nan
  else if x.abs == 1 && y.isInf then nan
  else if x == 0 && y < 0 then
    if isOddInteger y && isNegative x then -infinity else infinity
  else Float.pow x y

/-- The natural logarithm. -/
def logarithm (x : Float) : Float :=
  if x.isNaN || x < 0 then nan else if x == 0 then -infinity else Float.log x

/-- The square root. -/
def squareRoot (x : Float) : Float := if x < 0 then nan else Float.sqrt x

/-- The element that comes first among those that no other one beats; `none` of an empty list. -/
def extreme? (beats : Float → Float → Bool) : List Float → Option Float
  | [] => none
  | x :: rest => some (rest.foldl (fun best y => if beats y best then y else best) x)

end Number

namespace UnaryMath

/-- The function of one number. -/
def apply : UnaryMath → Float → Float
  | abs => Float.abs
  | acos => Float.acos
  | asin => Float.asin
  | atan => Float.atan
  | ceil => Number.integral Number.ceil?
  | cos => Float.cos
  | exp => Float.exp
  | floor => Number.integral Number.floor?
  | log => Number.logarithm
  | round => Number.round
  | sin => Float.sin
  | sqrt => Number.squareRoot
  | tan => Float.tan

end UnaryMath

namespace MathFn

open Proc

/-- The extreme of the arguments; NaN if one of them is. -/
def extremeOf (beats : Float → Float → Bool) (empty : Float) (i : Invocation) : Proc Value := do
  let xs ← Proc.map toNumber i.args
  if xs.any Float.isNaN then return .num Number.nan
  else return .num ((Number.extreme? beats xs).getD empty)

/-- A function of two numbers. -/
def binary (f : Float → Float → Float) (i : Invocation) : Proc Value := do
  let x ← toNumber (i.arg 0)
  let y ← toNumber (i.arg 1)
  return .num (f x y)

/-- What a function of `Math` does. -/
def invoke (f : MathFn) (i : Invocation) : Proc Value := do
  match f with
  | unary f => return .num (f.apply (← toNumber (i.arg 0)))
  | atan2 => binary Float.atan2 i
  | pow => binary Number.power i
  | max => extremeOf (· > ·) (-Number.infinity) i
  | min => extremeOf (· < ·) Number.infinity i
  | random => return .num (← perform .draw)

end MathFn

end ScriptEngine
