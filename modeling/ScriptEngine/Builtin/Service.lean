import ScriptEngine.Builtin.Invocation
import ScriptEngine.Machine.Operator
import ScriptEngine.Text.Case

/-!
# Functions of the host

These functions see the caller's scope and the arguments, but no receiver. A wrong number of arguments is a
fault, and a result of `null` becomes `undefined`.

## Main definitions

* `Text.escape`, `Text.unescape`: writing characters as hexadecimal numbers, and reading them.
* `Service.parseInteger`, `Service.parseDecimal`: reading numbers at the start of a text.
* `Service.invoke`: what a function of the host does.
-/

namespace ScriptEngine

namespace Text

/-! ## Escapes -/

/-- The characters that stand for themselves in an escaped text. -/
def isPlain (c : CodePoint) : Bool :=
  (48 ≤ c && c ≤ 57) || (65 ≤ c && c ≤ 90) || (97 ≤ c && c ≤ 122) ||
    List.contains (ofString "@*_+-./") c

/-- A number in base sixteen with capital letters. -/
def ofNatHexUpper (width n : Nat) : Text :=
  (ofNatHex width n).map fun c => if 97 ≤ c then c - 32 else c

/-- One escaped character. -/
def escapePoint (c : CodePoint) : Text :=
  if isPlain c then [c]
  else if c < 256 then "%" ++ ofNatHexUpper 2 c
  else "%u" ++ ofNatHexUpper 4 c

/-- A text with all but plain characters written as hexadecimal numbers. -/
def escape (t : Text) : Text := t.flatMap escapePoint

/-- A text with hexadecimal numbers read as characters: four digits after `%u`, two after `%`. -/
def unescape : Text → Text
  | 37 :: 117 :: a :: b :: c :: d :: rest =>
    if [a, b, c, d].all isHexDigit then toNatBase 16 [a, b, c, d] :: unescape rest
    else 37 :: unescape (117 :: a :: b :: c :: d :: rest)
  | 37 :: a :: b :: rest =>
    if [a, b].all isHexDigit then toNatBase 16 [a, b] :: unescape rest
    else 37 :: unescape (a :: b :: rest)
  | c :: rest => c :: unescape rest
  | [] => []
termination_by t => t.length

end Text

namespace Service

open Proc

/-- A sign at the start of a text, and the rest. -/
def takeSign : Text → Bool × Text
  | 43 :: rest => (false, rest)
  | 45 :: rest => (true, rest)
  | t => (false, t)

/-- The value of a character as a digit, after it has been written small. -/
def smallDigit? (base : Nat) (c : CodePoint) : Option Nat :=
  match Text.lower [c] with
  | [c] => (Text.digitValue? c).filter (· < base)
  | _ => none

/-- The greatest number of digits that are read in a base that is no power of two. -/
def mostDigits : Nat := 4300

/-- The integer at the start of a text. Without a base, or in base sixteen, `0x` may come first. Digits that
only look like ones of the base cannot be read. -/
def parseInteger (t : Text) (base : Int) : Proc Value := do
  let (negative, t) := takeSign (Text.stripStart t)
  if base ≠ 0 ∧ (base < 2 ∨ 36 < base) then return .num Number.nan
  else
    let hexadecimal := (base == 0 || base == 16) && (t.startsWith "0x" || t.startsWith "0X")
    let t := if hexadecimal then t.drop 2 else t
    let r : Nat := if hexadecimal then 16 else if base = 0 then 10 else base.toNat
    let digits := t.takeWhile fun c => (smallDigit? r c).isSome
    if digits.isEmpty then return .num Number.nan
    else if digits.any (127 < ·) || (!List.contains [2, 4, 8, 16, 32] r && mostDigits < digits.length) then
      fault .unreadableDigits
    else
      let n := digits.foldl (fun n c => r * n + (smallDigit? r c).getD 0) 0
      match Number.ofInt? (if negative then -(n : Int) else n) with
      | some x => return .num x
      | none => fault .integerTooLarge

/-- The decimal number at the start of a text, NaN if there is none. -/
def parseDecimal (t : Text) : Float :=
  let (negative, t) := takeSign (Text.stripStart t)
  if t.startsWith "Infinity" then (if negative then -Number.infinity else Number.infinity)
  else
    match Decimal.scan? t with
    | some (d, _) => d.toNumber negative
    | none => Number.nan

/-- The greatest number of arguments of a function of the host. -/
def mostArguments : Service → Option Nat
  | isNaN => some 1
  | isFinite => some 1
  | parseInt => some 2
  | parseFloat => some 1
  | escape => some 1
  | unescape => some 1
  | difference => some 2
  | _ => none

/-- The least number of arguments of a function of the host. -/
def leastArguments : Service → Nat
  | difference => 2
  | _ => 0

/-- Whether a function of the host takes a number of arguments. -/
def accepts (f : Service) (n : Nat) : Bool := f.leastArguments ≤ n && f.mostArguments.all (n ≤ ·)

/-- Prints values on one line. -/
def printLine (args : List Value) : Proc Value := do
  let texts ← Proc.map toText args
  perform (.print (Text.joinWith " " texts))
  return .undefined

/-- The result of a function of the host. -/
def result (f : Service) (i : Invocation) : Proc Value := do
  match f with
  | print => printLine i.args
  | isNaN => return .bool (← toNumber (i.arg 0)).isNaN
  | isFinite => return .bool (Number.isFinite (← toNumber (i.arg 0)))
  | parseInt =>
    let t ← toText (i.arg 0)
    parseInteger t (← toInt32 (i.arg 1))
  | parseFloat => return .num (parseDecimal (← toText (i.arg 0)))
  | escape => return .str (Text.escape (← toText (i.arg 0)))
  | unescape => return .str (Text.unescape (← toText (i.arg 0)))
  | argumentCount => return .ofNat i.args.length
  | nothing => return .undefined
  | firstArgument => return i.arg 0
  | difference => Operator.apply .sub (return i.arg 0) (return i.arg 1)
  | callerName =>
    read fun s =>
      match i.invoker.bind s.enclosingFunction? with
      | some f => .str (s.functionName f)
      | none => .undefined

/-- What a function of the host does. -/
def invoke (f : Service) (i : Invocation) : Proc Value := do
  if f.accepts i.args.length then
    match ← f.result i with
    | .null => return .undefined
    | v => return v
  else fault .wrongArgumentCount

end Service

end ScriptEngine
