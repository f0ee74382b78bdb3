import ScriptEngine.Number.Binary

/-!
# 32-bit words

The bitwise operators work on 32-bit words. A number becomes a word by dropping its fraction and keeping
the low 32 bits; what is not finite becomes zero. Words are read as unsigned or as signed numbers.
-/

namespace ScriptEngine

namespace Number

/-- The word of a number, read as an unsigned number. -/
def toUint32 (x : Float) : Nat := (truncate x % 4294967296).toNat

/-- A word read as a signed number. -/
def signed32 (n : Nat) : Int :=
  let w : Nat := n % 4294967296
  if 2147483648 ≤ w then (w : Int) - 4294967296 else w

/-- The word of a number, read as a signed number. -/
def toInt32 (x : Float) : Int := signed32 (toUint32 x)

/-- The number of a word read as a signed number. -/
def ofWord (n : Nat) : Float := ofInt (signed32 n)

/-- The word with the bits that both words have. -/
def bitAnd (x y : Float) : Float := ofWord (toUint32 x &&& toUint32 y)

/-- The word with the bits that one of the words has. -/
def bitOr (x y : Float) : Float := ofWord (toUint32 x ||| toUint32 y)

/-- The word with the bits that exactly one of the words has. -/
def bitXor (x y : Float) : Float := ofWord (toUint32 x ^^^ toUint32 y)

/-- The word with the bits that the word does not have. -/
def bitNot (x : Float) : Float := ofWord (4294967295 - toUint32 x)

/-- The number of places to shift by: the low five bits of a word. -/
def shiftCount (y : Float) : Nat := toUint32 y % 32

/-- The word shifted left. -/
def shiftLeft (x y : Float) : Float := ofWord (toUint32 x * Nat.pow 2 (shiftCount y))

/-- The word shifted right, with copies of its first bit moving in. -/
def shiftRight (x y : Float) : Float := ofInt ((toInt32 x).fdiv (Nat.pow 2 (shiftCount y)))

/-- The word shifted right, with zeros moving in. -/
def shiftRightUnsigned (x y : Float) : Float := ofNat (toUint32 x / Nat.pow 2 (shiftCount y))

end Number

end ScriptEngine
