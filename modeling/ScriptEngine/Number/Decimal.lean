import ScriptEngine.Number.Binary
import ScriptEngine.Text.Class

/-!
# Decimal numbers

The decimals that identify a double, and the double that a decimal denotes. The shortest decimal of a
double has the fewest digits among those that read back as that double, and of several it is the nearest.

## Main definitions

* `Decimal`: an integer times a power of ten.
* `Decimal.shortest`: the shortest decimal that reads back.
* `Decimal.toNumber`: the nearest double.
* `Decimal.scan?`: the decimal numeral at the front of a text.
-/

namespace ScriptEngine

/-- A number `digits * 10 ^ exponent`. -/
structure Decimal where
  /-- The digits, read as one natural number. -/
  digits : Nat
  /-- The power of ten. -/
  exponent : Int
  deriving Repr, DecidableEq

namespace Decimal

/-! ## Digits of an exact number -/

/-- The number of decimal digits of `n`. -/
def digitCount (n : Nat) : Nat := (Text.ofNat n).length

/-- The least number of factors of ten that raise the non-zero quotient to one; `fuel` bounds it. -/
def leadingZeros : Nat → Nat → Nat → Nat
  | 0, _, _ => 0
  | fuel + 1, num, den => if den ≤ num then 0 else leadingZeros fuel (10 * num) den + 1

/-- The exponent `p` with `10 ^ p ≤ num / den < 10 ^ (p + 1)`, for a non-zero quotient. -/
def magnitude (num den : Nat) : Int :=
  if den ≤ num then (digitCount (num / den) : Int) - 1 else -(leadingZeros den.log2.succ num den : Int)

/-- The quotient times `10 ^ shift`, as a quotient. -/
def scale (num den : Nat) (shift : Int) : Nat × Nat :=
  if 0 ≤ shift then (num * Nat.pow 10 shift.toNat, den) else (num, den * Nat.pow 10 (-shift).toNat)

/-! ## The shortest decimal of a double -/

/-- The decimals that read back as a double fill an interval around it. All three numbers are multiples of
one quarter of the double's last place, and `unit` is the divisor that makes them so. -/
structure Interval where
  /-- The lower end. -/
  low : Nat
  /-- The double itself. -/
  mid : Nat
  /-- The upper end. -/
  high : Nat
  /-- The common divisor of the three. -/
  unit : Nat
  /-- Whether the ends themselves read back as the double. -/
  closed : Bool

/-- The interval of a positive double. It reaches half way to both neighbours; the lower neighbour of a
power of two is only half as far away. -/
def Interval.of (d : Dyadic) : Interval :=
  let below := if d.mantissa = Nat.pow 2 52 ∧ -1074 < d.exponent then 1 else 2
  let (factor, unit) :=
    if 2 ≤ d.exponent then (Nat.pow 2 (d.exponent - 2).toNat, 1) else (1, Nat.pow 2 (2 - d.exponent).toNat)
  ⟨(4 * d.mantissa - below) * factor, 4 * d.mantissa * factor, (4 * d.mantissa + 2) * factor, unit,
    d.mantissa % 2 == 0⟩

/-- Whether the decimal lies in the interval. -/
def Interval.holds (i : Interval) (d : Decimal) : Bool :=
  let (num, den) := scale d.digits 1 d.exponent
  let value := num * i.unit
  if i.closed then i.low * den ≤ value && value ≤ i.high * den
  else i.low * den < value && value < i.high * den

/-- The decimal with `count` digits in the interval, if there is one; of two the nearer to the middle, and
of two equally near the one with the even last digit. -/
def Interval.withDigits? (i : Interval) (count : Nat) : Option Decimal :=
  let exponent := magnitude i.mid i.unit - count + 1
  let (num, den) := scale i.mid i.unit (-exponent)
  let down : Decimal := ⟨num / den, exponent⟩
  let up : Decimal := ⟨num / den + 1, exponent⟩
  match i.holds down, i.holds up with
  | true, true => some ⟨Number.roundHalfEven num den, exponent⟩
  | true, false => some down
  | false, true => some up
  | false, false => none

/-- The first decimal found when trying `count`, `count + 1`, ... digits, at most `fuel` times. -/
def Interval.firstFrom (i : Interval) : Nat → Nat → Option Decimal
  | 0, _ => none
  | fuel + 1, count =>
    match i.withDigits? count with
    | some d => some d
    | none => i.firstFrom fuel (count + 1)

/-- The decimal without zeros at the end of its digits; `fuel` bounds their number. -/
def dropZeros : Nat → Decimal → Decimal
  | 0, d => d
  | fuel + 1, d =>
    if d.digits % 10 = 0 ∧ d.digits ≠ 0 then dropZeros fuel ⟨d.digits / 10, d.exponent + 1⟩ else d

/-- The shortest decimal that reads back as the given positive double. Seventeen digits always suffice. -/
def shortest (d : Dyadic) : Decimal :=
  match (Interval.of d).firstFrom 17 1 with
  | some decimal => dropZeros 20 decimal
  | none => ⟨0, 0⟩

/-! ## The double of a decimal -/

/-- The double nearest to the decimal. Far outside the range of doubles the answer is infinite or zero
whatever the digits are, so no large power is computed there. -/
def toNumber (d : Decimal) (negative : Bool) : Float :=
  let size := (digitCount d.digits : Int) + d.exponent
  if d.digits = 0 ∨ size < -400 then Number.nearest negative 0 1
  else if 400 < size then Number.nearest negative (Nat.pow 2 1024) 1
  else
    let (num, den) := scale d.digits 1 d.exponent
    Number.nearest negative num den

/-! ## Reading numerals -/

/-- The number written by decimal digits of any script. -/
def digitsValue (t : Text) : Nat := t.foldl (fun n c => 10 * n + (Text.decimalValue? c).getD 0) 0

/-- The exponent part at the front of a text, such as `e-7`, and what follows it. A mark without digits is
no exponent. -/
def scanExponent (t : Text) : Int × Text :=
  match t with
  | mark :: rest =>
    if mark == 101 || mark == 69 then
      let (negative, digits) :=
        match rest with
        | 45 :: digits => (true, digits)
        | 43 :: digits => (false, digits)
        | _ => (false, rest)
      let run := digits.takeWhile Text.isDecimal
      if run.isEmpty then (0, t)
      else
        let n : Int := digitsValue run
        (if negative then -n else n, digits.dropWhile Text.isDecimal)
    else (0, t)
  | [] => (0, t)

/-- The longest decimal numeral at the front of a text, and what follows it: digits with an optional point
and fraction, or a point and a fraction, then an optional exponent. -/
def scan? (t : Text) : Option (Decimal × Text) :=
  let whole := t.takeWhile Text.isDecimal
  let afterWhole := t.dropWhile Text.isDecimal
  let (fraction, afterFraction) :=
    match afterWhole with
    | 46 :: rest => (rest.takeWhile Text.isDecimal, rest.dropWhile Text.isDecimal)
    | _ => ([], afterWhole)
  if whole.isEmpty && fraction.isEmpty then none
  else
    let (exponent, rest) := scanExponent afterFraction
    some (⟨digitsValue (whole ++ fraction), exponent - fraction.length⟩, rest)

end Decimal

end ScriptEngine
