import ScriptEngine.Text.Class

/-!
# Quoted text

The quoted form of a text in messages. Single quotes enclose it, unless it holds a single quote and no
double quote; the enclosing quote, the backslash, the line and tab controls and all code points that are
not printable are written as escapes.
-/

namespace ScriptEngine

namespace Text

/-- The quote that encloses `t`: a double quote only when `t` holds a single quote and no double quote. -/
def enclosingQuote (t : Text) : CodePoint :=
  if List.contains t 39 && !List.contains t 34 then 34 else 39

/-- One code point inside quotes. -/
def quotedPoint (quote c : CodePoint) : Text :=
  if c == quote || c == 92 then [92, c]
  else if c == 10 then "\\n"
  else if c == 13 then "\\r"
  else if c == 9 then "\\t"
  else if isPrintable c then [c]
  else if c ≤ 0xFF then "\\x" ++ ofNatHex 2 c
  else if c ≤ 0xFFFF then "\\u" ++ ofNatHex 4 c
  else "\\U" ++ ofNatHex 8 c

/-- The text in quotes. -/
def quoted (t : Text) : Text :=
  let quote := enclosingQuote t
  quote :: t.flatMap (quotedPoint quote) ++ [quote]

end Text

end ScriptEngine
