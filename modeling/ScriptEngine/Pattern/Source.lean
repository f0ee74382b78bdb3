import ScriptEngine.Text.Basic

/-!
# The source of a pattern

The dialect in which scripts write patterns differs in a few places from the written form of expressions:
an escaped slash is a slash, named groups and references to them are spelled differently, and a set may be
empty.

## Main definitions

* `Pattern.translate`: a source in the written form of expressions.
-/

namespace ScriptEngine

namespace Pattern

/-- The written form of what is left of a source; `inSet` says that a set has been opened. Escapes are read
alike inside and outside of sets. -/
def translateFrom (inSet : Bool) : Text → Text
  | 92 :: 47 :: rest => 47 :: translateFrom inSet rest
  | 92 :: 107 :: 60 :: rest =>
    match Text.indexOf? ">" rest with
    | some n => "(?P=" ++ rest.take n ++ ")" ++ translateFrom inSet (rest.drop (n + 1))
    | none => 92 :: 107 :: translateFrom inSet (60 :: rest)
  | 92 :: c :: rest => 92 :: c :: translateFrom inSet rest
  | 91 :: 94 :: 93 :: rest =>
    if inSet then 91 :: translateFrom true (94 :: 93 :: rest) else "[\\s\\S]" ++ translateFrom false rest
  | 91 :: 93 :: rest =>
    if inSet then 91 :: translateFrom true (93 :: rest) else "(?!)" ++ translateFrom false rest
  | 40 :: 63 :: 60 :: rest =>
    if inSet || rest.head? = some 61 || rest.head? = some 33 then 40 :: translateFrom inSet (63 :: 60 :: rest)
    else "(?P<" ++ translateFrom false rest
  | c :: rest => c :: translateFrom (if inSet then c ≠ 93 else c = 91) rest
  | [] => []
termination_by t => t.length
decreasing_by all_goals simp +arith [List.length_drop]

/-- A source in the written form of expressions. -/
def translate (source : Text) : Text := translateFrom false source

end Pattern

end ScriptEngine
