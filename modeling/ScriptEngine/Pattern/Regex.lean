import ScriptEngine.Text.Case

/-!
# Regular expressions

The expressions that patterns denote. Modes such as the one that ignores case are settled where a part is
written, so every part carries what it needs and an expression has a meaning of its own.

## Main definitions

* `CharTest`: which characters a place of the expression accepts.
* `Anchor`: conditions on a position.
* `Regex`: the expressions.
* `Regex.width`: how many characters an expression takes, at least and at most.
-/

namespace ScriptEngine

/-- How the letters of two characters are compared. -/
inductive Fold where
  /-- As they are. -/
  | exact
  /-- Without the case of ASCII letters. -/
  | ascii
  /-- Without case. -/
  | unicode
  deriving DecidableEq, Inhabited

namespace Fold

/-- The form of a character that is compared. -/
def apply : Fold → CodePoint → CodePoint
  | exact, c => c
  | ascii, c => if 65 ≤ c && c ≤ 90 then c + 32 else c
  | unicode, c => Text.lowerPoint c

/-- Small characters that count as equal to a small character. -/
def partners : Fold → CodePoint → Text
  | unicode, c => Text.variantsOf c
  | _, _ => []

/-- The characters other than `c` itself whose compared form is `c`. -/
def preimages : Fold → CodePoint → Text
  | exact, _ => []
  | ascii, c => if 97 ≤ c && c ≤ 122 then [c - 32] else []
  | unicode, c =>
    (if 97 ≤ c && c ≤ 122 then [c - 32] else []) ++
      Text.lowerRuns.filterMap fun r =>
        let last := r.target + (r.last - r.first)
        if r.target ≤ c && c ≤ last && (c - r.target) % r.stride == 0 then some (r.first + (c - r.target))
        else none

end Fold

/-- The classes of characters that an escape stands for. -/
inductive CharClass where
  | digit
  | space
  | word
  deriving DecidableEq, Inhabited

/-- Whether a class holds a character; the ASCII classes hold ASCII characters only. -/
def CharClass.holds (k : CharClass) (ascii : Bool) (c : CodePoint) : Bool :=
  let narrow := !ascii || c < 128
  match k with
  | .digit => narrow && Text.isDecimal c
  | .space => narrow && Text.isBlank c && (!ascii || c < 28 || c == 32)
  | .word => narrow && Text.isWord c

/-- One item of a set of characters. -/
inductive SetItem where
  | point (c : CodePoint)
  | range (first last : CodePoint)
  | family (k : CharClass) (negated : Bool)
  deriving DecidableEq, Inhabited

/-- The first code point beyond the basic plane. -/
def firstAstral : Nat := 0x10000

/-- Whether an item of a set accepts a character. Beyond the basic plane, a single character of a set that
ignores case stands only for its small form, and a range is tried with the small and the capital form. -/
def SetItem.accepts (fold : Fold) (ascii : Bool) (c : CodePoint) : SetItem → Bool
  | point d =>
    match fold with
    | .exact => c == d
    | fold =>
      let low := fold.apply c
      let small := fold.apply d
      if small < firstAstral then low == small || List.contains (fold.partners small) low else low == d
  | range first last =>
    match fold with
    | .exact => first ≤ c && c ≤ last
    | fold =>
      let low := fold.apply c
      let basic := (low :: fold.partners low).any fun small =>
        (small :: fold.preimages small).any fun x =>
          x < firstAstral && fold.apply x == small && first ≤ x && x ≤ last
      let astral := firstAstral ≤ last &&
        ((first ≤ low && low ≤ last) ||
          (Text.upperOf low).head?.any fun up => first ≤ up && up ≤ last)
      basic || astral
  | family k negated => k.holds ascii c != negated

/-- Which characters a place accepts. -/
inductive CharTest where
  /-- A single character, or all but one. -/
  | literal (c : CodePoint) (negated : Bool) (fold : Fold)
  /-- A set of characters, or all outside it. -/
  | set (items : List SetItem) (negated : Bool) (fold : Fold) (ascii : Bool)
  /-- Any character; line feeds only if `lines` is set. -/
  | any (lines : Bool)
  deriving Inhabited

/-- Whether a test accepts a character. -/
def CharTest.accepts : CharTest → CodePoint → Bool
  | literal d negated fold, c =>
    (match fold with
      | .exact => c == d
      | fold =>
        let low := fold.apply c
        let small := fold.apply d
        low == small || List.contains (fold.partners small) low) != negated
  | set items negated fold ascii, c => items.any (·.accepts fold ascii c) != negated
  | any lines, c => lines || c != 10

/-- Conditions on a position. -/
inductive Anchor where
  /-- The start of the text, or of a line. -/
  | start (lines : Bool)
  /-- The end of the text, also before a line feed that ends it, or the end of a line. -/
  | stop (lines : Bool)
  /-- The very end of the text. -/
  | veryEnd
  /-- Between a word and what is no word. -/
  | boundary (negated ascii : Bool)
  deriving DecidableEq, Inhabited

/-- Whether an anchor holds at a position of a text. -/
def Anchor.holds (a : Anchor) (text : Array CodePoint) (p : Nat) : Bool :=
  match a with
  | start lines => p == 0 || (lines && text[p - 1]? == some 10)
  | stop lines =>
    p == text.size || (text[p]? == some 10 && (lines || p + 1 == text.size))
  | veryEnd => p == text.size
  | boundary negated ascii =>
    let isWord (c : Option CodePoint) : Bool := c.any (CharClass.word.holds ascii)
    let before := 0 < p && isWord text[p - 1]?
    let after := isWord text[p]?
    text.size != 0 && ((before != after) != negated)

/-- How a repetition goes about its rounds. -/
inductive Eagerness where
  /-- As many as possible. -/
  | greedy
  /-- As few as possible. -/
  | lazy
  /-- As many as possible, and no fewer later. -/
  | possessive
  deriving DecidableEq, Inhabited

/-- The least and the greatest number of characters that something takes. -/
structure Width where
  least : Nat := 0
  most : Nat := 0
  deriving DecidableEq, Inhabited

namespace Width

/-- Widths are not told apart from here on. -/
def limit : Nat := Nat.pow 2 64

/-- The width of one thing after another. -/
def add (a b : Width) : Width := ⟨min (a.least + b.least) limit, min (a.most + b.most) limit⟩

/-- The width of one of two things. -/
def either (a b : Width) : Width := ⟨min a.least b.least, max a.most b.most⟩

/-- The width of a repetition. -/
def times (w : Width) (least : Nat) (most : Option Nat) : Width :=
  ⟨min (w.least * least) limit,
    match most with
    | some n => min (w.most * n) limit
    | none => if w.most = 0 then 0 else limit⟩

end Width

/-- The expressions. -/
inductive Regex where
  /-- One character. -/
  | one (t : CharTest)
  /-- No character, at a certain position. -/
  | anchor (a : Anchor)
  /-- What a group has taken before. -/
  | back (group : Nat) (fold : Fold)
  /-- One after another. -/
  | seq (items : List Regex)
  /-- The first alternative that leads on. -/
  | alt (branches : List Regex)
  /-- A part in parentheses; a group with a number is remembered. -/
  | group (index : Option Nat) (body : Regex)
  /-- A repetition. -/
  | rep (how : Eagerness) (least : Nat) (most : Option Nat) (body : Regex)
  /-- A part that is settled once it has been found. -/
  | atomic (body : Regex)
  /-- A condition on what comes next, or on what came before if a width is given. -/
  | look (behind : Option Width) (negated : Bool) (body : Regex)
  /-- One of two parts, depending on whether a group has been remembered. -/
  | cond (group : Nat) (yes : Regex) (no : Option Regex)
  deriving Inhabited

namespace Regex

mutual

/-- How many characters an expression takes, given the widths of the groups it refers to. -/
def width (groups : Nat → Width) : Regex → Width
  | one _ => ⟨1, 1⟩
  | anchor _ => {}
  | back g _ => groups g
  | seq items => widthOfSeq groups items
  | alt branches => widthOfAlt groups branches
  | group _ body => width groups body
  | rep _ least most body => (width groups body).times least most
  | atomic body => width groups body
  | look _ _ _ => {}
  | cond _ yes no =>
    match no with
    | some no => (width groups yes).either (width groups no)
    | none => (width groups yes).either {}

/-- The width of expressions one after another. -/
def widthOfSeq (groups : Nat → Width) : List Regex → Width
  | [] => {}
  | r :: rest => (width groups r).add (widthOfSeq groups rest)

/-- The width of one of several expressions. -/
def widthOfAlt (groups : Nat → Width) : List Regex → Width
  | [] => {}
  | [r] => width groups r
  | r :: rest => (width groups r).either (widthOfAlt groups rest)

end

end Regex

end ScriptEngine
