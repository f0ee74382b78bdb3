/-!
# Doubles as exact numbers

A finite double is an integer times a power of two. `Number.decode` takes a double apart into such a
`Dyadic`, and `Number.nearest` goes the other way for every quotient of natural numbers: it returns the
nearest double, a tie going to the even mantissa. Everything between the two is exact arithmetic on
natural numbers.

## Main definitions

* `Dyadic`: a sign, a mantissa and a binary exponent.
* `Number.decode`, `Number.truncate?`, `Number.whole`: a double as an exact number and as an integer.
* `Number.roundToEven`: a double rounded to an integer.
* `Number.nearest`, `Number.ofInt`, `Number.ofInt?`: the double nearest to an exact number.
-/

namespace ScriptEngine

/-- A number `mantissa * 2 ^ exponent` with a sign. -/
structure Dyadic where
  /-- Whether the number is written with a minus sign; zero has both forms. -/
  negative : Bool
  /-- The integer factor of the magnitude. -/
  mantissa : Nat
  /-- The power of two of the magnitude. -/
  exponent : Int
  deriving Repr, DecidableEq

namespace Dyadic

/-- The magnitude as a quotient of natural numbers. -/
def ratio (d : Dyadic) : Nat × Nat :=
  if 0 ≤ d.exponent then (d.mantissa * Nat.pow 2 d.exponent.toNat, 1) else (d.mantissa, Nat.pow 2 (-d.exponent).toNat)

/-- The integer part of the magnitude. -/
def floorMagnitude (d : Dyadic) : Nat := d.ratio.1 / d.ratio.2

/-- The number without its fraction. -/
def truncate (d : Dyadic) : Int :=
  if d.negative then -(d.floorMagnitude : Int) else d.floorMagnitude

/-- Whether the number is an integer. -/
def isInteger (d : Dyadic) : Bool := d.ratio.1 % d.ratio.2 == 0

end Dyadic

namespace Number

/-- The number that is not a number. -/
def nan : Float := 0.0 / 0.0

/-- The positive infinity. -/
def infinity : Float := 1.0 / 0.0

/-- A finite double as a dyadic number. The mantissa of a normal double has 53 bits; the exponent of a
subnormal one is the least, -1074. -/
def decode (x : Float) : Option Dyadic :=
  let bits : Nat := x.toBits.toNat
  let negative := bits / Nat.pow 2 63 == 1
  let biased : Nat := bits / Nat.pow 2 52 % Nat.pow 2 11
  let fraction : Nat := bits % Nat.pow 2 52
  if biased = 2047 then none
  else if biased = 0 then some ⟨negative, fraction, -1074⟩
  else some ⟨negative, Nat.pow 2 52 + fraction, (biased : Int) - 1075⟩

/-- Whether `x` is neither infinite nor NaN. -/
def isFinite (x : Float) : Bool := (decode x).isSome

/-- Whether `x` is a finite integer. -/
def isInteger (x : Float) : Bool := (decode x).any Dyadic.isInteger

/-- Whether the sign bit of `x` is set. -/
def isNegative (x : Float) : Bool := x.toBits.toNat / Nat.pow 2 63 == 1

/-- The integer part of a finite double. -/
def truncate? (x : Float) : Option Int := (decode x).map Dyadic.truncate

/-- The integer part of `x`, zero when `x` is not finite. -/
def truncate (x : Float) : Int := (truncate? x).getD 0

/-- A number without a fraction. -/
inductive Whole where
  | finite (i : Int)
  | infinite (negative : Bool)
  deriving Repr, DecidableEq

/-- The number without its fraction; NaN counts as zero. -/
def whole (x : Float) : Whole :=
  match truncate? x with
  | some i => .finite i
  | none => if x.isNaN then .finite 0 else .infinite (isNegative x)

/-! ## Rounding to a double -/

/-- The quotient rounded to the nearest natural number, a tie going to the even one. -/
def roundHalfEven (num den : Nat) : Nat :=
  let q := num / den
  let r := num % den
  if 2 * r < den then q
  else if den < 2 * r then q + 1
  else if q % 2 == 0 then q else q + 1

/-- A double rounded to the nearest integer, a tie going to the even one; zero when it is not finite. -/
def roundToEven (x : Float) : Int :=
  match decode x with
  | some d =>
    let n : Int := roundHalfEven d.ratio.1 d.ratio.2
    if d.negative then -n else n
  | none => 0

/-- The quotient rounded to the nearest natural number, a tie going up. -/
def roundHalfUp (num den : Nat) : Nat := (2 * num + den) / (2 * den)

/-- The quotient divided by `2 ^ e` and rounded to the nearest natural number, a tie going to even. -/
def roundScaled (num den : Nat) (e : Int) : Nat :=
  if 0 ≤ e then roundHalfEven num (den * Nat.pow 2 e.toNat) else roundHalfEven (num * Nat.pow 2 (-e).toNat) den

/-- The exponent at which the quotient has a mantissa of 53 bits, the least being -1074. -/
def mantissaExponent (num den : Nat) : Int :=
  let e : Int := (num.log2 : Int) - (den.log2 : Int) - 52
  let atLeast (e : Int) : Bool :=
    if 0 ≤ e then den * Nat.pow 2 e.toNat * Nat.pow 2 52 ≤ num else den * Nat.pow 2 52 ≤ num * Nat.pow 2 (-e).toNat
  max (if atLeast e then e else e - 1) (-1074)

/-- The bits of the magnitude `mantissa * 2 ^ exponent`, for a mantissa of at most `2 ^ 53` that is below
`2 ^ 52` only at the least exponent; magnitudes too large become infinite. -/
def magnitudeBits (mantissa : Nat) (exponent : Int) : Nat :=
  if mantissa < Nat.pow 2 52 then mantissa
  else
    let biased := (exponent + 1075).toNat
    let bits := biased * Nat.pow 2 52 + (mantissa - Nat.pow 2 52)
    if 2047 * Nat.pow 2 52 ≤ bits then 2047 * Nat.pow 2 52 else bits

/-- The double nearest to the quotient `num / den`, with the given sign; a tie goes to the even mantissa,
and what lies beyond the largest double becomes infinite. -/
def nearest (negative : Bool) (num den : Nat) : Float :=
  let magnitude :=
    if num = 0 then 0
    else
      let e := mantissaExponent num den
      magnitudeBits (roundScaled num den e) e
  Float.ofBits (UInt64.ofNat (magnitude + if negative then Nat.pow 2 63 else 0))

/-- The double nearest to an integer. -/
def ofInt (i : Int) : Float := nearest (i < 0) i.natAbs 1

/-- The double nearest to a natural number. -/
def ofNat (n : Nat) : Float := nearest false n 1

/-- The double nearest to an integer, unless the integer is too large for one. -/
def ofInt? (i : Int) : Option Float :=
  let x := ofInt i
  if isFinite x then some x else none

/-- The remainder of a finite `x` by a finite non-zero `y`, with the sign of `x`, computed exactly. -/
def remainder (x y : Float) : Float :=
  match decode x, decode y with
  | some a, some b =>
    let e := min a.exponent b.exponent
    let m := a.mantissa * Nat.pow 2 (a.exponent - e).toNat
    let n := b.mantissa * Nat.pow 2 (b.exponent - e).toNat
    let r := m % n
    if 0 ≤ e then nearest a.negative (r * Nat.pow 2 e.toNat) 1 else nearest a.negative r (Nat.pow 2 (-e).toNat)
  | _, _ => nan

end Number

end ScriptEngine
