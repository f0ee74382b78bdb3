import ScriptEngine.Pattern.Regex

/-!
# Matching

An expression is matched by trying its alternatives in order. What comes after a part is a continuation:
when it fails, the part tries its next alternative, and everything that was remembered since then is
forgotten, because what is remembered is handed along and never changed in place.

A repetition stops when a round has taken no characters, so the number of its rounds is bounded by the
number of rounds it has to do and the length of the text.

## Main definitions

* `Marks`: what the groups have taken so far.
* `Regex.run`: matches an expression, then what comes after it.
-/

namespace ScriptEngine

/-- Where groups start and end: the marks of group `g` are at `2 * g - 2` and `2 * g - 1`. -/
abbrev Marks := List (Option Nat)

namespace Marks

/-- No marks for a number of groups. -/
def none (groups : Nat) : Marks := List.replicate (2 * groups) Option.none

/-- The part of the text that a group has taken, if it has been closed after it was opened. -/
def span? (m : Marks) (g : Nat) : Option (Nat × Nat) :=
  match m[2 * g - 2]?.join, m[2 * g - 1]?.join with
  | some p, some e => if p ≤ e then some (p, e) else Option.none
  | _, _ => Option.none

/-- Marks the start of a group. -/
def enter (m : Marks) (g p : Nat) : Marks := m.set (2 * g - 2) (some p)

/-- Marks the end of a group. -/
def leave (m : Marks) (g p : Nat) : Marks := m.set (2 * g - 1) (some p)

end Marks

namespace Regex

/-- What comes after a part: from a position and marks to those at the end of the match. -/
abbrev Next := Nat → Marks → Option (Nat × Marks)

/-- Nothing more to come. -/
def finish : Next := fun p m => some (p, m)

/-- The number of characters from a position on that a test accepts, at most `n`. -/
def countFrom (text : Array CodePoint) (t : CharTest) : Nat → Nat → Nat
  | 0, _ => 0
  | n + 1, p =>
    match text[p]? with
    | some c => if t.accepts c then countFrom text t n (p + 1) + 1 else 0
    | none => 0

/-- Tries what comes next after `n` extra characters, then after fewer. -/
def tryDown (next : Next) (p : Nat) (m : Marks) : Nat → Option (Nat × Marks)
  | 0 => next p m
  | n + 1 =>
    match next (p + n + 1) m with
    | some r => some r
    | none => tryDown next p m n

/-- Tries what comes next here, then after one more accepted character, at most `n` of them. -/
def tryUp (text : Array CodePoint) (t : CharTest) (next : Next) (m : Marks) : Nat → Nat → Option (Nat × Marks)
  | n, p =>
    match next p m with
    | some r => some r
    | none =>
      match n with
      | 0 => none
      | n + 1 =>
        match text[p]? with
        | some c => if t.accepts c then tryUp text t next m n (p + 1) else none
        | none => none

/-- A repetition of a single character. -/
def repeatOne (text : Array CodePoint) (t : CharTest) (how : Eagerness) (least : Nat) (most : Option Nat)
    (next : Next) : Next := fun p m =>
  let room := text.size - p
  let most := min (most.getD room) room
  match how with
  | .greedy =>
    let n := countFrom text t most p
    if n < least then none else tryDown next (p + least) m (n - least)
  | .possessive =>
    let n := countFrom text t most p
    if n < least then none else next (p + n) m
  | .lazy =>
    if countFrom text t least p < least then none
    else tryUp text t next m (most - least) (p + least)

/-- Whether a repetition may go on after `count` rounds: not past its greatest number, and not after a round
that took nothing. -/
def mayGoOn (most : Option Nat) (count : Nat) (last : Option Nat) (p : Nat) : Bool :=
  most.all (count < ·) && last != some p

/-- As many rounds as possible. -/
def greedy (body : Next → Next) (least : Nat) (most : Option Nat) (next : Next) :
    Nat → Nat → Option Nat → Next
  | 0, _, _ => fun _ _ => none
  | fuel + 1, count, last => fun p m =>
    if count < least then body (greedy body least most next fuel (count + 1) last) p m
    else
      let more :=
        if mayGoOn most count last p then
          body (greedy body least most next fuel (count + 1) (some p)) p m
        else none
      match more with
      | some r => some r
      | none => next p m

/-- As few rounds as possible. -/
def lazy (body : Next → Next) (least : Nat) (most : Option Nat) (next : Next) :
    Nat → Nat → Option Nat → Next
  | 0, _, _ => fun _ _ => none
  | fuel + 1, count, last => fun p m =>
    if count < least then body (lazy body least most next fuel (count + 1) last) p m
    else
      match next p m with
      | some r => some r
      | none =>
        if mayGoOn most count last p then body (lazy body least most next fuel (count + 1) (some p)) p m
        else none

/-- As many rounds as possible, each settled once it has been found. -/
def possessive (body : Next → Next) (least : Nat) (most : Option Nat) (next : Next) :
    Nat → Nat → Option Nat → Next
  | 0, _, _ => fun _ _ => none
  | fuel + 1, count, last => fun p m =>
    if count < least then
      match body finish p m with
      | some (p, m) => possessive body least most next fuel (count + 1) last p m
      | none => none
    else if mayGoOn most count last p then
      match body finish p m with
      | some (e, m) => possessive body least most next fuel (count + 1) (some p) e m
      | none => next p m
    else next p m

/-- A repetition. -/
def repeatBody (text : Array CodePoint) (body : Next → Next) (how : Eagerness) (least : Nat)
    (most : Option Nat) (next : Next) : Next :=
  let fuel := least + text.size + 3
  match how with
  | .greedy => greedy body least most next fuel 0 none
  | .lazy => lazy body least most next fuel 0 none
  | .possessive => possessive body least most next fuel 0 none

/-- Whether the same characters stand at two positions. -/
def sameText (text : Array CodePoint) (fold : Fold) : Nat → Nat → Nat → Bool
  | 0, _, _ => true
  | n + 1, p, q =>
    match text[p]?, text[q]? with
    | some c, some d => fold.apply c == fold.apply d && sameText text fold n (p + 1) (q + 1)
    | _, _ => false

mutual

/-- Matches an expression, then what comes next. -/
def run (text : Array CodePoint) : Regex → Next → Next
  | one t, next => fun p m =>
    match text[p]? with
    | some c => if t.accepts c then next (p + 1) m else none
    | none => none
  | anchor a, next => fun p m => if a.holds text p then next p m else none
  | back g fold, next => fun p m =>
    match m.span? g with
    | some (q, e) => if sameText text fold (e - q) p q then next (p + (e - q)) m else none
    | none => none
  | seq items, next => runSeq text items next
  | alt branches, next => runAlt text branches next
  | group none body, next => run text body next
  | group (some g) body, next => fun p m =>
    run text body (fun e m => next e (m.leave g e)) p (m.enter g p)
  | rep how least most (one t), next => repeatOne text t how least most next
  | rep how least most body, next => repeatBody text (run text body) how least most next
  | atomic body, next => fun p m =>
    match run text body finish p m with
    | some (e, m) => next e m
    | none => none
  | look behind negated body, next => fun p m =>
    let back := (behind.map Width.least).getD 0
    let found := if back ≤ p then run text body finish (p - back) m else none
    match found with
    | some (_, m') => if negated then none else next p m'
    | none => if negated then next p m else none
  | cond g yes no, next => fun p m =>
    match m.span? g with
    | some _ => run text yes next p m
    | none =>
      match no with
      | some no => run text no next p m
      | none => next p m

/-- Matches expressions one after another. -/
def runSeq (text : Array CodePoint) : List Regex → Next → Next
  | [], next => next
  | r :: rest, next => run text r (runSeq text rest next)

/-- Matches the first of several expressions that leads on. -/
def runAlt (text : Array CodePoint) : List Regex → Next → Next
  | [], _ => fun _ _ => none
  | r :: rest, next => fun p m =>
    match run text r next p m with
    | some found => some found
    | none => runAlt text rest next p m

end

end Regex

end ScriptEngine
