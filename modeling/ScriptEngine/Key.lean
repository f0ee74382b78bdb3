import ScriptEngine.Text.Basic

/-!
# Property keys

A variable or property name. Canonical array indexes are kept apart from all other names, so that an
element can be found by its number.

## Main definitions

* `Key`: an index or any other name.
* `Key.ofText`: the key of a text; `Key.text` is its inverse on canonical keys.
* `Key.maxIndex`: array indexes stop below `2 ^ 32 - 1`.
-/

namespace ScriptEngine

/-- The name of a variable or a property. -/
inductive Key where
  /-- An array index. -/
  | index (i : Nat)
  /-- Any other name. -/
  | name (t : Text)
  deriving DecidableEq, Inhabited

namespace Key

/-- The largest array index. -/
def maxIndex : Nat := 4294967294

/-- The spelling of the key. -/
def text : Key → Text
  | index i => Text.ofNat i
  | name t => t

/-- The number of an index key. -/
def index? : Key → Option Nat
  | index i => some i
  | name _ => none

/-- Whether `t` is a decimal numeral without superfluous zeros. -/
def isNumeral (t : Text) : Bool :=
  match t with
  | [] => false
  | [48] => true
  | c :: rest => 49 ≤ c && c ≤ 57 && rest.all Text.isAsciiDigit

/-- The key spelled `t`: an index when `t` is the numeral of one. -/
def ofText (t : Text) : Key :=
  if isNumeral t && t.length < 11 && Text.toNatBase 10 t ≤ maxIndex then index (Text.toNatBase 10 t)
  else name t

/-- The key of a natural number: an index when it is small enough. -/
def ofNat (n : Nat) : Key := if n ≤ maxIndex then index n else name (Text.ofNat n)

/-- The key of an integer. -/
def ofInt (i : Int) : Key := if 0 ≤ i then ofNat i.toNat else name (Text.ofInt i)

instance : Coe String Key := ⟨fun s => ofText s⟩

/-! ## Names with a meaning -/

/-- The length of arrays, strings and functions. -/
def length : Key := name "length"

/-- The prototype of the objects a function constructs. -/
def prototype : Key := name "prototype"

/-- The function that constructs objects with this prototype. -/
def constructor : Key := name "constructor"

/-- The receiver of a call. -/
def this : Key := name "this"

/-- The list of all arguments of a call. -/
def arguments : Key := name "arguments"

/-- The function from which a call was made. -/
def caller : Key := name "caller"

/-- The function being called. -/
def callee : Key := name "callee"

/-- The method that gives the primitive value of an object. -/
def valueOf : Key := name "valueOf"

/-- The method that gives the text of an object. -/
def toStringKey : Key := name "toString"

/-- The message of an error. -/
def message : Key := name "message"

/-- The name of a function or an error. -/
def nameKey : Key := name "name"

/-- The source of a pattern. -/
def source : Key := name "source"

/-- Whether a pattern steps from match to match. -/
def global : Key := name "global"

/-- Whether a pattern ignores case. -/
def ignoreCase : Key := name "ignoreCase"

/-- Whether a pattern anchors at line ends. -/
def multiline : Key := name "multiline"

/-- Where the next search of a global pattern starts. -/
def lastIndex : Key := name "lastIndex"

/-- Where a match starts. -/
def matchIndex : Key := name "index"

/-- The text a match was found in. -/
def input : Key := name "input"

end Key

end ScriptEngine
