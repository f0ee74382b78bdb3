import ScriptEngine.Number.Decimal

/-!
# Number text

How numbers are written: the plain form, a fixed number of places, an exponent form, a number of
significant digits, and other bases. Each layout starts from exact digits.

## Main definitions

* `Number.toText`: integers below `10 ^ 21` in full, everything else by its shortest decimal.
* `Number.toFixed?`: a given number of places, a tie going away from zero.
* `Number.toExponential`, `Number.toPrecision`: a given number of digits, a tie going to the even digit.
* `Number.toRadix`: digits in another base, at most 52 of them after the point.
-/

namespace ScriptEngine

namespace Number

/-- The exponent mark: `e`, a sign and the digits of the exponent. -/
def exponentText (e : Int) : Text := "e" ++ (if 0 ≤ e then "+" else "-" : Text) ++ Text.ofNat e.natAbs

/-- The layout of the digits `s` (there is at least one) when the point stands after position `n`:
positional from `10 ^ -6` up to below `10 ^ 21`, with an exponent otherwise. -/
def layout (s : Text) (n : Int) : Text :=
  let k : Int := s.length
  if k ≤ n ∧ n ≤ 21 then s ++ Text.zeros (n - k).toNat
  else if 0 < n ∧ n ≤ 21 then s.take n.toNat ++ "." ++ s.drop n.toNat
  else if -6 < n ∧ n ≤ 0 then "0." ++ Text.zeros (-n).toNat ++ s
  else
    match s with
    | [_] => s ++ exponentText (n - 1)
    | first :: rest => first :: ("." ++ rest ++ exponentText (n - 1))
    | [] => []

/-- The plain text of a positive finite number. -/
def magnitudeText (d : Dyadic) : Text :=
  if d.isInteger && d.floorMagnitude < Nat.pow 10 21 then Text.ofNat d.floorMagnitude
  else
    let decimal := Decimal.shortest d
    let s := Text.ofNat decimal.digits
    layout s (s.length + decimal.exponent)

/-- The text of a number that is not finite. -/
def specialText (x : Float) : Text :=
  if x.isNaN then "NaN" else if isNegative x then "-Infinity" else "Infinity"

/-- The plain text of a number. Both zeros are written `0`. -/
def toText (x : Float) : Text :=
  match decode x with
  | none => specialText x
  | some d =>
    if d.mantissa = 0 then "0"
    else if d.negative then "-" ++ magnitudeText d
    else magnitudeText d

/-! ## Fixed places -/

/-- The natural number `q` divided by `10 ^ places`, written with that many places. -/
def placesText (q places : Nat) : Text :=
  if places = 0 then Text.ofNat q
  else
    let s := Text.padZero (places + 1) (Text.ofNat q)
    s.take (s.length - places) ++ "." ++ s.drop (s.length - places)

/-- The greatest number of digits that a number with a fixed number of places can have. -/
def mostFixedDigits : Nat := 160

/-- The number with the given number of places, a tie going away from zero; numbers from `10 ^ 21` on are
written plainly. A number that would have too many digits has no such text. -/
def toFixed? (x : Float) (places : Nat) : Option Text :=
  match decode x with
  | none => some (specialText x)
  | some d =>
    let (num, den) := d.ratio
    if Nat.pow 10 21 * den ≤ num then some (toText x)
    else
      let q := roundHalfUp (num * Nat.pow 10 places) den
      if mostFixedDigits < Decimal.digitCount q then none
      else
        let text := placesText q places
        some (if d.negative && d.mantissa != 0 then "-" ++ text else text)

/-! ## A number of digits -/

/-- The magnitude rounded to `count` significant digits, a tie going to even: the digits as a natural
number and the decimal exponent of the first digit. Zero has the exponent zero. -/
def significant (d : Dyadic) (count : Nat) : Nat × Int :=
  if d.mantissa = 0 then (0, 0)
  else
    let (num, den) := d.ratio
    let e := Decimal.magnitude num den
    let (n, m) := Decimal.scale num den ((count : Int) - 1 - e)
    let q := roundHalfEven n m
    if q = Nat.pow 10 count then (Nat.pow 10 (count - 1), e + 1) else (q, e)

/-- The sign of a finite number, shown for a negative zero too. -/
def signText (d : Dyadic) : Text := if d.negative then "-" else []

/-- Exponent form with the given number of digits after the point. -/
def exponentForm (d : Dyadic) (places : Nat) : Text :=
  let (q, e) := significant d (places + 1)
  let s := Text.padZero (places + 1) (Text.ofNat q)
  let mantissa := if places = 0 then s else s.take 1 ++ "." ++ s.drop 1
  signText d ++ mantissa ++ exponentText e

/-- The number in exponent form. Without a number of places it has as many digits as the shortest decimal
of the number. -/
def toExponential (x : Float) (places : Option Nat) : Text :=
  match decode x with
  | none => specialText x
  | some d =>
    match places with
    | some places => exponentForm d places
    | none =>
      if d.mantissa = 0 then exponentForm d 0
      else exponentForm d (Decimal.digitCount (Decimal.shortest d).digits - 1)

/-- The number with `precision` significant digits (at least one), in exponent form when the exponent is
below -6 or not below the precision. Zero is written without a sign. -/
def toPrecision (x : Float) (precision : Nat) : Text :=
  match decode x with
  | none => specialText x
  | some d =>
    if d.mantissa = 0 then
      if precision = 1 then "0" else "0." ++ Text.zeros (precision - 1)
    else
      let e := (significant d precision).2
      if e < -6 ∨ (precision : Int) ≤ e then exponentForm d (precision - 1)
      else
        let places := ((precision : Int) - 1 - e).toNat
        let (num, den) := d.ratio
        signText d ++ placesText (roundHalfEven (num * Nat.pow 10 places) den) places

/-! ## Other bases -/

/-- The digits of a fraction below one in the given base, at most `fuel` of them, each step computed in
double precision. -/
def fractionDigits (base : Nat) : Nat → Float → Text
  | 0, _ => []
  | fuel + 1, fraction =>
    if fraction == 0 then []
    else
      let scaled := fraction * ofNat base
      let d := truncate scaled
      Text.digitPoint d.toNat :: fractionDigits base fuel (scaled - ofInt d)

/-- The number in a base from 2 to 36. -/
def toRadix (x : Float) (base : Nat) : Text :=
  if base = 10 then toText x
  else
    match decode x with
    | none => specialText x
    | some d =>
      let whole := d.floorMagnitude
      let fraction := x.abs - ofNat whole
      let sign : Text := if d.negative && d.mantissa != 0 then "-" else []
      let digits := Text.ofNatBase base whole
      if fraction == 0 then sign ++ digits else sign ++ digits ++ "." ++ fractionDigits base 52 fraction

/-! ## Reading numbers -/

/-- The number written by a text: blanks around it are ignored, nothing at all is zero, a hexadecimal
numeral starts with `0x`, and a text of any other form is NaN. A hexadecimal numeral too large for a
double has no value. -/
def ofText? (t : Text) : Option Float :=
  let s := Text.strip t
  let hexDigits := s.drop 2
  if s.isEmpty then some 0.0
  else if s.take 1 == [48] && (s.drop 1).head?.any (fun c => c == 120 || c == 88) &&
      !hexDigits.isEmpty && hexDigits.all Text.isHexDigit then
    ofInt? (Text.toNatBase 16 hexDigits)
  else
    let (negative, body) :=
      match s with
      | 43 :: rest => (false, rest)
      | 45 :: rest => (true, rest)
      | _ => (false, s)
    if body == Text.ofString "Infinity" then some (if negative then -infinity else infinity)
    else
      match Decimal.scan? body with
      | some (decimal, []) => some (decimal.toNumber negative)
      | _ => some nan

end Number

end ScriptEngine
