import ScriptEngine.Number.Decimal

/-!
# Replacement templates

A template is a text in which a dollar sign stands for parts of a match: `$$` is a dollar sign, `$&` the
match, a dollar sign with a backquote or a quote the text before or after the match, and `$1` to `$99` the
groups. A dollar sign that stands for none of these is left as it is.

## Main definitions

* `Template.expand`: a template with the parts of a match filled in.
-/

namespace ScriptEngine

/-- A part of a text that has been found. -/
structure Hit where
  /-- Where the part starts. -/
  start : Nat
  /-- Where the part ends. -/
  stop : Nat
  /-- The part itself. -/
  text : Text
  /-- What the groups have taken. -/
  groups : List (Option Text)
  deriving Inhabited

namespace Template

/-- The text of a group by its number. -/
def group? (groups : List (Option Text)) (n : Nat) : Option Text :=
  if n = 0 then none else groups[n - 1]?.map (·.getD [])

/-- What a dollar sign and the digits after it stand for: a group with two digits, a group with the first of
them, or themselves. -/
def reference (groups : List (Option Text)) (digits : Text) : Text :=
  match group? groups (Decimal.digitsValue digits) with
  | some t => t
  | none =>
    match digits with
    | [a, b] =>
      match group? groups (Decimal.digitsValue [a]) with
      | some t => t ++ [b]
      | none => [36, a, b]
    | _ => 36 :: digits

/-- A template with the parts of a match in a text filled in. -/
def expand (subject : Text) (h : Hit) : Text → Text
  | [] => []
  | c :: rest =>
    if c ≠ 36 then c :: expand subject h rest
    else
      match rest with
      | [] => [36]
      | sign :: after =>
        if sign = 36 then 36 :: expand subject h after
        else if sign = 38 then h.text ++ expand subject h after
        else if sign = 96 then subject.take h.start ++ expand subject h after
        else if sign = 39 then subject.drop (h.start + h.text.length) ++ expand subject h after
        else if Text.isDecimal sign then
          match after with
          | [] => reference h.groups [sign]
          | next :: after' =>
            if Text.isDecimal next then reference h.groups [sign, next] ++ expand subject h after'
            else reference h.groups [sign] ++ expand subject h (next :: after')
        else 36 :: expand subject h (sign :: after)

end Template

end ScriptEngine
