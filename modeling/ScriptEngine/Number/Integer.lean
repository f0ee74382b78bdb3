import ScriptEngine.Text.Class

/-!
# Integer numerals

The integers that settings and dates are written with: an optional sign and decimal digits of any script,
with single underscores allowed between digits. Blanks around a numeral do not count, and the number of its
digits is bounded.

## Main definitions

* `Numeral.Flaw`: why a text is no numeral.
* `Numeral.read`: the integer of a numeral.
-/

namespace ScriptEngine

namespace Numeral

/-- Why a text is no numeral. -/
inductive Flaw where
  /-- It does not have the form of one. -/
  | malformed
  /-- It has too many digits. -/
  | tooLong (digits : Nat)
  deriving DecidableEq, Inhabited

/-- The greatest number of digits of a numeral. -/
def mostDigits : Nat := 4300

/-- The blanks that may surround a numeral: all but the separators of ASCII. -/
def isMargin (c : CodePoint) : Bool := Text.isBlank c && !(28 ≤ c && c ≤ 31)

/-- The values of the digits at the start of a text, and the rest; `needed` says that a digit has to come
next. There are none if an underscore is not between two digits. -/
def digits? (needed : Bool) : Text → Option (List Nat × Text)
  | [] => if needed then none else some ([], [])
  | c :: rest =>
    if c = 95 then (if needed then none else digits? true rest)
    else
      match Text.decimalValue? c with
      | some d => (digits? false rest).map fun (ds, rest) => (d :: ds, rest)
      | none => if needed then none else some ([], c :: rest)

/-- The number of digits in order. -/
def ofDigits (ds : List Nat) : Nat := ds.foldl (fun n d => 10 * n + d) 0

/-- The natural number of a numeral without a sign. -/
def readNat (t : Text) : Except Flaw Nat :=
  match digits? true t with
  | none => .error .malformed
  | some (ds, rest) =>
    if mostDigits < ds.length then .error (.tooLong ds.length)
    else if rest.isEmpty then .ok (ofDigits ds)
    else .error .malformed

/-- The integer of a numeral. -/
def read (t : Text) : Except Flaw Int :=
  match Text.trim isMargin t with
  | 43 :: rest => (readNat rest).map Int.ofNat
  | 45 :: rest => (readNat rest).map fun n => -(n : Int)
  | t => (readNat t).map Int.ofNat

/-- The integer of a numeral, if it is one. -/
def toInt? (t : Text) : Option Int := (read t).toOption

end Numeral

end ScriptEngine
