import ScriptEngine.Text.Basic

/-!
# Escapes in string literals

Decoding the body of a string literal. A backslash starts an escape: a named control character, a code
point in hexadecimal or octal, a line end that is dropped, or any other code point standing for itself. A
backslash at the very end stands for itself.

## Main definitions

* `unescape`: the text that a literal's body denotes.
-/

namespace ScriptEngine

/-- Why a literal denotes no value. -/
inductive LiteralError where
  /-- A number too large for a double. -/
  | numberTooLarge
  /-- A code point number beyond the last code point. -/
  | noSuchCodePoint
  /-- A code point number too large to be looked at. -/
  | codePointTooLarge
  deriving DecidableEq, Repr, Inhabited

/-- The text of a code point given by its number. -/
def codePointText (n : Nat) : Except LiteralError Text :=
  if 2147483648 ≤ n then .error .codePointTooLarge
  else if 0x10FFFF < n then .error .noSuchCodePoint
  else .ok [n]

/-- The control character that a letter stands for after a backslash. -/
def namedEscape? (c : CodePoint) : Option Text :=
  if c == 110 then some [10]
  else if c == 116 then some [9]
  else if c == 114 then some [13]
  else if c == 98 then some [8]
  else if c == 102 then some [12]
  else if c == 118 then some [11]
  else if c == 10 || c == 13 || c == 0x2028 || c == 0x2029 then some []
  else none

/-- The number of code points of an escape, the backslash not counted, and the text it denotes. The first
code point after the backslash is `c`. -/
def escapeAt (c : CodePoint) (rest : Text) : Nat × Except LiteralError Text :=
  let braced := (rest.drop 1).takeWhile Text.isHexDigit
  let hex (n : Nat) : Bool := (rest.take n).length == n && (rest.take n).all Text.isHexDigit
  if c == 117 && rest.head? == some 123 && !braced.isEmpty && (rest.drop (braced.length + 1)).head? == some 125 then
    (braced.length + 3, codePointText (Text.toNatBase 16 braced))
  else if c == 117 && hex 4 then (5, .ok [Text.toNatBase 16 (rest.take 4)])
  else if c == 120 && hex 2 then (3, .ok [Text.toNatBase 16 (rest.take 2)])
  else if 48 ≤ c && c ≤ 55 then
    let octal := c :: (rest.take 2).takeWhile fun d => 48 ≤ d && d ≤ 55
    (octal.length, .ok [Text.toNatBase 8 octal])
  else if c == 13 && rest.head? == some 10 then (2, .ok [])
  else
    match namedEscape? c with
    | some t => (1, .ok t)
    | none => (1, .ok [c])

/-- Decodes the rest of a body whose first `skip` code points belong to an escape already decoded. -/
def unescapeFrom (skip : Nat) : Text → Except LiteralError Text
  | [] => .ok []
  | c :: rest =>
    match skip with
    | n + 1 => unescapeFrom n rest
    | 0 =>
      if c == 92 then
        match rest with
        | [] => .ok [92]
        | e :: after =>
          match escapeAt e after with
          | (n, .ok t) => (unescapeFrom n rest).map (t ++ ·)
          | (_, .error err) => .error err
      else (unescapeFrom 0 rest).map (c :: ·)

/-- The text that the body of a string literal denotes. -/
def unescape (body : Text) : Except LiteralError Text := unescapeFrom 0 body

end ScriptEngine
