import ScriptEngine.Pattern.Matcher
import ScriptEngine.Pattern.Parser
import ScriptEngine.Pattern.Template

/-!
# Searching

How matches are found, collected and used. Everything beyond the search itself takes the search as a
function, from a position to the match that is found there or later, and needs to know no more about it.

## Main definitions

* `Compiled.matchAt`, `Compiled.find`: the match at a position, and the first match from a position on.
* `Hits.collect`: all matches of a search, each from the end of the one before.
* `Hits.split`: the pieces of a text between the matches.
* `Hits.assemble`: a text with its matches replaced.
-/

namespace ScriptEngine

namespace Compiled

/-- The match of marks in a text. -/
def hit (c : Compiled) (t : Text) (start stop : Nat) (m : Marks) : Hit :=
  { start, stop
    text := t.slice start stop
    groups := (List.range c.groups).map fun i =>
      (m.span? (i + 1)).map fun (p, e) => t.slice p e }

/-- The match at a position; with `advance` it must not be empty. -/
def matchAt (c : Compiled) (t : Text) (advance : Bool) (p : Nat) : Option Hit :=
  let next : Regex.Next := fun e m => if advance && e == p then none else some (e, m)
  (c.regex.run t.toArray next p (Marks.none c.groups)).map fun (e, m) => c.hit t p e m

/-- The first match at one of `n` positions from `p` on. -/
def findFrom (c : Compiled) (t : Text) (advance : Bool) : Nat → Nat → Option Hit
  | 0, _ => none
  | n + 1, p =>
    match c.matchAt t advance p with
    | some h => some h
    | none => findFrom c t false n (p + 1)

/-- The first match from a position on; with `advance` it must not be empty at that position itself. -/
def find (c : Compiled) (t : Text) (p : Nat) (advance : Bool) : Option Hit :=
  c.findFrom t advance (t.length + 1 - p) p

end Compiled

namespace Hits

/-- All matches of a search, at most `n`, from a position on. Each search starts at the end of the match
before it, and after an empty match it has to advance. -/
def collectFrom (find : Nat → Bool → Option Hit) : Nat → Nat → Bool → List Hit
  | 0, _, _ => []
  | n + 1, p, advance =>
    match find p advance with
    | none => []
    | some h => h :: collectFrom find n h.stop (h.stop == h.start)

/-- All matches of a search in a text of the given length. -/
def collect (find : Nat → Bool → Option Hit) (length : Nat) : List Hit :=
  collectFrom find (2 * length + 2) 0 false

/-- The pieces of a text, each with the match that follows it, and the last piece. A match is used at the
first position from `q` on where there is one that does not end at the start `p` of the piece. -/
def splitFrom (matchAt : Nat → Option Hit) (t : Text) : Nat → Nat → Nat → List (Text × Hit) × Text
  | 0, p, _ => ([], t.drop p)
  | n + 1, p, q =>
    if q < t.length then
      match matchAt q with
      | none => splitFrom matchAt t n p (q + 1)
      | some h =>
        if h.stop = p then splitFrom matchAt t n p (q + 1)
        else
          let (pieces, last) := splitFrom matchAt t n h.stop h.stop
          ((t.slice p q, h) :: pieces, last)
    else ([], t.drop p)

/-- The pieces of a text that is not empty, each with the match that follows it, and the last piece. Every
step moves one of the two positions towards the end, so there are at most twice as many as characters. -/
def split (matchAt : Nat → Option Hit) (t : Text) : List (Text × Hit) × Text :=
  splitFrom matchAt t (2 * t.length + 1) 0 0

/-- A text from position `p` on, with each match replaced by the text beside it. -/
def assemble (t : Text) (p : Nat) : List (Hit × Text) → Text
  | [] => t.drop p
  | (h, r) :: rest => t.slice p h.start ++ r ++ assemble t h.stop rest

end Hits

end ScriptEngine
