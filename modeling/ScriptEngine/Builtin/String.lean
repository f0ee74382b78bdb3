import ScriptEngine.Builtin.RegExp
import ScriptEngine.Text.Case

/-!
# Functions around strings

Parts of strings, searching in them, and the functions that take a pattern or a plain text to look for.

## Main definitions

* `Strings.split`, `Strings.matchAll`, `Strings.search`, `Strings.replace`: the functions with patterns.
* `StringFn.invoke`: what a function around strings does.
-/

namespace ScriptEngine

namespace Strings

open Proc

/-- The value of a position, -1 if there is none. -/
def position : Option Nat → Value
  | some i => .ofNat i
  | none => .num (-1.0)

/-! ## Parts -/

/-- The character at a position. -/
def pointAt? (t : Text) (v : Value) : Proc (Option CodePoint) := do
  let i ← toInteger v
  return if 0 ≤ i && i < Number.ofNat t.length then t[(Number.truncate i).toNat]? else none

/-- The character at a position, or the empty string. -/
def charAt (t : Text) (v : Value) : Proc Value := do return .str (← pointAt? t v).toList

/-- The number of the character at a position, or NaN. -/
def charCodeAt (t : Text) (v : Value) : Proc Value := do
  match ← pointAt? t v with
  | some c => return .ofNat c
  | none => return .num Number.nan

/-- The string with the texts of values at its end. -/
def concat (t : Text) (values : List Value) : Proc Value := do
  return .str (t ++ (← Proc.map toText values).flatten)

/-- The first position of a text, from a position on. -/
def indexOf (t : Text) (what start : Value) : Proc Value := do
  let n ← boundedIndex start t.length
  let needle ← toText what
  return position (Text.indexOfFrom? needle t n)

/-- The last position of a text, up to a position. -/
def lastIndexOf (t : Text) (what start : Value) : Proc Value := do
  let needle ← toText what
  let n ← toNumber start
  let last ← if n.isNaN then pure t.length else boundedIndex (.num n) t.length
  return position (Text.lastIndexOf? needle t last)

/-- How two strings compare by their code points. -/
def localeCompare (t : Text) (other : Value) : Proc Value := do
  match Text.compare t (← toText other) with
  | .lt => return .num (-1.0)
  | .eq => return .num 0.0
  | .gt => return .num 1.0

/-- The part between two positions that may count from the end. -/
def slice (t : Text) (start stop : Value) : Proc Value := do
  let a ← relativeIndex start t.length 0
  let b ← relativeIndex stop t.length t.length
  return .str (t.slice a b)

/-- The part of a given length from a position that may count from the end. -/
def substr (t : Text) (start length : Value) : Proc Value := do
  let a ← relativeIndex start t.length 0
  let n ← if length.isUndefined then pure (t.length - a) else boundedIndex length (t.length - a)
  return .str (t.slice a (a + n))

/-- The part between two positions, in whichever order they are given. -/
def substring (t : Text) (start stop : Value) : Proc Value := do
  let a ← boundedIndex start t.length
  let b ← if stop.isUndefined then pure t.length else boundedIndex stop t.length
  return .str (t.slice (min a b) (max a b))

/-- The string of the given numbers of characters, each reduced to sixteen bits. -/
def fromCharCodes (codes : List Value) : Proc Value := do
  return .str ((← Proc.map toUint32 codes).map (· % 65536))

/-! ## Patterns -/

/-- The pattern to look for; a value that is none becomes the source of one. -/
def patternOf (v : Value) : Proc PatternRef := do
  match ← PatternRef.of? v with
  | some r => return r
  | none =>
    let source ← if v.isUndefined then pure [] else toText v
    return ⟨← perform (.newRegExp source []), source, []⟩

/-- The texts of matches, `null` if there are none. -/
def hitTexts : List Hit → Proc Value
  | [] => return .null
  | hits => newArray (hits.map fun h => .str h.text)

/-- The matches of a global pattern, or the first match of another one. -/
def matchAll (t : Text) (pattern : Value) : Proc Value := do
  let r ← patternOf pattern
  if r.isGlobal then
    r.setLastIndex 0
    let c ← r.compile
    hitTexts (Hits.collect (c.find t) t.length)
  else r.exec t

/-- The position of the first match. -/
def search (t : Text) (pattern : Value) : Proc Value := do
  let c ← (← patternOf pattern).compile
  return position ((c.find t 0 false).map (·.start))

/-- The matches that are to be replaced: all those of a global pattern, the first one of another pattern or
of a plain text. -/
def hitsOf (t : Text) (pattern : Value) : Proc (List Hit) := do
  match ← PatternRef.of? pattern with
  | some r =>
    let c ← r.compile
    if r.isGlobal then
      r.setLastIndex 0
      return Hits.collect (c.find t) t.length
    else return (c.find t 0 false).toList
  | none =>
    let needle ← toText pattern
    return ((Text.indexOf? needle t).map fun i => ⟨i, i + needle.length, needle, []⟩).toList

/-- What a match is replaced by, by a function: it is given the match, its groups, its position and the
whole string. -/
def replacementBy (f : ObjectId) (invoker : Option FrameId) (t : Text) (h : Hit) : Proc (Hit × Text) := do
  let args := .str h.text :: PatternRef.groupValues h ++ [.ofNat h.start, .str t]
  return (h, ← toText (← call f invoker .undefined args))

/-- The string with matches replaced, by a function or by a template. -/
def replace (invoker : Option FrameId) (t : Text) (pattern replacement : Value) : Proc Value := do
  match ← hitsOf t pattern with
  | [] => return .str t
  | hits =>
    match ← callable? replacement with
    | some f => return .str (Hits.assemble t 0 (← Proc.map (replacementBy f invoker t) hits))
    | none =>
      let template ← toText replacement
      return .str (Hits.assemble t 0 (hits.map fun h => (h, Template.expand t h template)))

/-- The pieces of a string between the matches of an expression, with the groups of each match after the
piece before it; `matchAt` is the match at a position. -/
def splitByMatches (matchAt : Nat → Option Hit) (t : Text) : List Value :=
  if t.isEmpty then (if (matchAt 0).isSome then [] else [.str t])
  else
    let (pieces, last) := Hits.split matchAt t
    (pieces.flatMap fun (piece, h) => .str piece :: PatternRef.groupValues h) ++ [.str last]

/-- The pieces of a string between the occurrences of a text; nothing separates all characters. -/
def splitByText (sep t : Text) : List Text := if sep.isEmpty then t.map ([·]) else Text.splitOn t sep

/-- How many pieces a limit allows; with none there may be as many as an array has room for. -/
def mostPieces (limit : Value) : Proc Nat := if limit.isUndefined then pure 4294967295 else toUint32 limit

/-- The pieces of a string, at most as many as the limit says. -/
def split (t : Text) (separator limit : Value) : Proc Value := do
  let most ← mostPieces limit
  if most = 0 then newArray []
  else if separator.isUndefined then newArray [.str t]
  else
    let pieces ← match ← PatternRef.of? separator with
      | some r => do pure (splitByMatches ((← r.compile).matchAt t false) t)
      | none => do pure ((splitByText (← toText separator) t).map .str)
    newArray (pieces.take most)

/-! ## Receivers -/

/-- The text of the receiver. -/
def receiver (this : Value) : Proc Text := do
  if this.isNullish then typeError "String.prototype method called on null or undefined"
  else toText this

/-- The text of the receiver, which has to be a string. -/
def primitiveOf (this : Value) : Proc Text := do
  let wrong : Proc Text := typeError "String.prototype.valueOf requires that 'this' be a String"
  match this with
  | .str t => return t
  | .obj o =>
    match ← body o with
    | .string t => return t
    | _ => wrong
  | _ => wrong

/-- The text of the first argument, the empty text if there is none. -/
def ofArgs (args : List Value) : Proc Text :=
  match args with
  | [] => return []
  | v :: _ => toText v

end Strings

open Proc Strings in
/-- What a function around strings does. -/
def StringFn.invoke (f : StringFn) (i : Invocation) : Proc Value := do
  match f with
  | .construct => return .str (← ofArgs i.args)
  | .fromCharCode => fromCharCodes i.args
  | .valueOf => return .str (← primitiveOf i.this)
  | f =>
    let t ← receiver i.this
    match f with
    | .charAt => Strings.charAt t (i.arg 0)
    | .charCodeAt => Strings.charCodeAt t (i.arg 0)
    | .concat => Strings.concat t i.args
    | .indexOf => Strings.indexOf t (i.arg 0) (i.arg 1)
    | .lastIndexOf => Strings.lastIndexOf t (i.arg 0) (i.arg 1)
    | .localeCompare => Strings.localeCompare t (i.arg 0)
    | .match => matchAll t (i.arg 0)
    | .replace => Strings.replace i.invoker t (i.arg 0) (i.arg 1)
    | .search => Strings.search t (i.arg 0)
    | .slice => Strings.slice t (i.arg 0) (i.arg 1)
    | .split => Strings.split t (i.arg 0) (i.arg 1)
    | .substr => Strings.substr t (i.arg 0) (i.arg 1)
    | .substring => Strings.substring t (i.arg 0) (i.arg 1)
    | .toLowerCase => return .str (Text.lower t)
    | .toUpperCase => return .str (Text.upper t)
    | _ => return .undefined

end ScriptEngine
