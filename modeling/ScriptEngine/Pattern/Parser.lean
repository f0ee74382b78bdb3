import ScriptEngine.Pattern.Regex
import ScriptEngine.Number.Integer
import ScriptEngine.Text.Name
import ScriptEngine.Text.Quoted

/-!
# Reading expressions

The written form of expressions: characters and escapes, sets in brackets, groups in parentheses with
their many extensions, and repetitions. A malformed expression is reported with the position at which the
reader noticed.

Modes that are set at the very start hold for the whole expression; modes of a group hold inside it. So the
modes are known wherever a part is built.

## Main definitions

* `PatternError`: why a text is no expression, with its wording in `PatternError.message`.
* `Modes`: the modes of a part.
* `Compiled`: an expression with the number of its groups.
* `Compiled.ofText`: reads an expression.
-/

namespace ScriptEngine

/-- Why a text is no expression. -/
inductive PatternError where
  /-- It is not well-formed, most often at a certain position. -/
  | malformed (message : Text) (position : Option Nat)
  /-- A number of repetitions is too large. -/
  | repetitionTooLarge
  /-- A number of repetitions has too many digits. -/
  | tooManyDigits
  /-- Letters are to be those of ASCII and those of all scripts at the same time. -/
  | mixedAlphabets
  deriving Inhabited

namespace PatternError

/-- Where a position is: its line and column count from one, and are given only if there are lines. -/
def place (pattern : Text) (p : Nat) : Text :=
  let before := pattern.take p
  let line := before.count 10 + 1
  let column := (before.reverse.takeWhile (· ≠ 10)).length + 1
  " at position " ++ Text.ofNat p ++
    if List.contains pattern 10 then
      " (line " ++ Text.ofNat line ++ ", column " ++ Text.ofNat column ++ ")"
    else []

/-- The wording of a malformed expression. -/
def message (pattern : Text) : PatternError → Text
  | malformed m (some p) => m ++ place pattern p
  | malformed m none => m
  | _ => []

end PatternError

/-- The modes of a part of an expression. -/
structure Modes where
  ignoreCase : Bool := false
  multiline : Bool := false
  dotAll : Bool := false
  verbose : Bool := false
  ascii : Bool := false
  /-- A mode in which repetitions are refused. -/
  template : Bool := false
  deriving Inhabited, DecidableEq

/-- How letters are compared in a mode. -/
def Modes.fold (m : Modes) : Fold :=
  if m.ignoreCase then (if m.ascii then .ascii else .unicode) else .exact

/-- The modes with those of the given letters turned on. -/
def Modes.turnOn (m : Modes) (letters : Text) : Modes :=
  let has (c : CodePoint) : Bool := List.contains letters c
  { ignoreCase := m.ignoreCase || has 105
    multiline := m.multiline || has 109
    dotAll := m.dotAll || has 115
    verbose := m.verbose || has 120
    ascii := (m.ascii && !has 117) || has 97
    template := m.template || has 116 }

/-- The modes with those of the given letters turned off. -/
def Modes.turnOff (m : Modes) (letters : Text) : Modes :=
  let has (c : CodePoint) : Bool := List.contains letters c
  { m with
    ignoreCase := m.ignoreCase && !has 105
    multiline := m.multiline && !has 109
    dotAll := m.dotAll && !has 115
    verbose := m.verbose && !has 120
    template := m.template && !has 116 }

/-- An expression with the number of its groups. -/
structure Compiled where
  regex : Regex
  groups : Nat
  deriving Inhabited

namespace RegexParser

/-! ## Pieces and the state of the reader -/

/-- A character, or a backslash with the character after it. -/
structure Piece where
  position : Nat
  text : Text
  deriving Inhabited

/-- Cuts a text into pieces. A backslash at the very end stands alone. -/
def pieces (p : Nat) : Text → List Piece
  | 92 :: c :: rest => ⟨p, [92, c]⟩ :: pieces (p + 2) rest
  | c :: rest => ⟨p, [c]⟩ :: pieces (p + 1) rest
  | [] => []

/-- The state of the reader. -/
structure Reader where
  /-- What is left. -/
  rest : List Piece
  /-- The length of the whole text. -/
  size : Nat
  /-- The number of the next group. -/
  nextGroup : Nat := 1
  /-- The names of groups. -/
  names : List (Text × Nat) := []
  /-- The widths of the groups that have been closed. -/
  widths : List (Nat × Width) := []
  /-- Inside a condition on what came before: the first group that is defined in it. -/
  behindFrom : Option Nat := none
  /-- The groups that conditional parts ask for, the latest first, with the positions of the first request. -/
  asked : List (Nat × Nat) := []
  /-- The modes of the whole expression. -/
  modes : Modes := {}
  /-- Whether letters of all scripts have been asked for. -/
  allScripts : Bool := false

/-- A step of the reader. -/
abbrev Step := StateT Reader (Except PatternError)

/-- Fails at a position. -/
def failAt {α : Type} (message : Text) (p : Nat) : Step α := throw (.malformed message (some p))

/-- The next piece, which is not taken. -/
def peek : Step (Option Text) := do return (← get).rest.head?.map (·.text)

/-- Whether the next piece is a certain character. -/
def nextIs (c : CodePoint) : Step Bool := do return (← peek) = some [c]

/-- The position of the next piece. -/
def here : Step Nat := do
  let s ← get
  return (s.rest.head?.map (·.position)).getD s.size

/-- Fails a number of characters before the next piece. -/
def failBefore {α : Type} (message : Text) (n : Nat) : Step α := do failAt message ((← here) - n)

/-- Refuses a backslash that stands alone at the end, as soon as it comes next. -/
def checkEnd : Step Unit := do
  if (← peek) = some [92] then failAt "bad escape (end of pattern)" ((← get).size - 1)

/-- Takes the next piece. -/
def take : Step (Option Text) := do
  let t ← peek
  modify fun s => { s with rest := s.rest.tail }
  checkEnd
  return t

/-- Takes the next piece if it is a certain character. -/
def accept (c : CodePoint) : Step Bool := do
  if ← nextIs c then
    let _ ← take
    return true
  else return false

/-- Takes at most `n` pieces that are single characters of a kind. -/
def takeWhile (kind : CodePoint → Bool) : Nat → Step Text
  | 0 => return []
  | n + 1 => do
    match ← peek with
    | some [c] =>
      if kind c then
        let _ ← take
        return c :: (← takeWhile kind n)
      else return []
    | _ => return []

/-- Takes pieces up to a terminator, for a name; `found` is what has been taken, and `n` bounds the pieces. -/
def takeUntil (terminator : CodePoint) (what : Text) (found : Text) : Nat → Step Text
  | 0 => return found
  | n + 1 => do
    match ← take with
    | none =>
      if found.isEmpty then failBefore ("missing " ++ what) 0
      else failBefore ("missing " ++ [terminator] ++ ", unterminated name") found.length
    | some t =>
      if t = [terminator] then
        if found.isEmpty then failBefore ("missing " ++ what) 1 else return found
      else takeUntil terminator what (found ++ t) n

/-- Takes a name up to a terminator. -/
def takeName (terminator : CodePoint) (what : Text) : Step Text := do
  takeUntil terminator what [] ((← get).rest.length + 1)

/-! ## Escapes -/

/-- Letters of ASCII. -/
def isAsciiLetter (c : CodePoint) : Bool := (97 ≤ c && c ≤ 122) || (65 ≤ c && c ≤ 90)

/-- Octal digits. -/
def isOctal (c : CodePoint) : Bool := 48 ≤ c && c ≤ 55

/-- The control characters that a letter after a backslash stands for. -/
def control? (c : CodePoint) : Option CodePoint :=
  [(97, 7), (98, 8), (102, 12), (110, 10), (114, 13), (116, 9), (118, 11), (92, 92)].lookup c

/-- The class of characters that a letter after a backslash stands for. -/
def class? (c : CodePoint) : Option SetItem :=
  match c with
  | 100 => some (.family .digit false)
  | 68 => some (.family .digit true)
  | 115 => some (.family .space false)
  | 83 => some (.family .space true)
  | 119 => some (.family .word false)
  | 87 => some (.family .word true)
  | _ => none

/-- The character of an escape with exactly `n` hexadecimal digits. -/
def hexEscape (letter : CodePoint) (n : Nat) : Step CodePoint := do
  let ds ← takeWhile Text.isHexDigit n
  let written : Text := 92 :: letter :: ds
  if ds.length ≠ n then failBefore ("incomplete escape " ++ written) written.length
  else
    let c := Text.toNatBase 16 ds
    if 0x10FFFF < c then failBefore ("bad escape " ++ written) written.length else return c

/-- The character of an escape with a name. No names are known. -/
def namedEscape : Step CodePoint := do
  if ← accept 123 then
    let name ← takeName 125 "character name"
    failBefore ("undefined character name " ++ Text.quoted name) (name.length + 4)
  else failBefore "missing \x7b" 0

/-- An octal number after a backslash; it has to be less than 256. -/
def octalEscape (ds : Text) : Step CodePoint := do
  let n := Text.toNatBase 8 ds
  if 255 < n then
    failBefore ("octal escape value " ++ (92 :: ds) ++ " outside of range 0-0o377") (ds.length + 1)
  else return n

/-- A character that a backslash leaves as it is; letters and digits are refused. -/
def plainEscape (c : CodePoint) : Step CodePoint := do
  if isAsciiLetter c || Text.isAsciiDigit c then failBefore ("bad escape " ++ [92, c]) 2 else return c

/-- The escapes that mean the same inside and outside of a set. -/
def commonEscape (c : CodePoint) : Step CodePoint :=
  match c with
  | 120 => hexEscape 120 2
  | 117 => hexEscape 117 4
  | 85 => hexEscape 85 8
  | 78 => namedEscape
  | c => plainEscape c

/-- An escape inside a set. -/
def setEscape (c : CodePoint) : Step SetItem := do
  match control? c with
  | some d => return .point d
  | none =>
    match class? c with
    | some item => return item
    | none =>
      if isOctal c then return .point (← octalEscape (c :: (← takeWhile isOctal 2)))
      else return .point (← commonEscape c)

/-- Refuses a reference, inside a condition on what came before, to a group that is open or defined in it. -/
def checkBehind (g : Nat) : Step Unit := do
  let s ← get
  match s.behindFrom with
  | none => return ()
  | some first =>
    if (s.widths.lookup g).isNone then failBefore "cannot refer to an open group" 0
    else if first ≤ g then
      failBefore "cannot refer to group defined in the same lookbehind subpattern" 0

/-- A reference to the group whose number has been written with the given digits. -/
def groupReference (m : Modes) (ds : Text) : Step Regex := do
  let s ← get
  let g := Text.toNatBase 10 ds
  if g < s.nextGroup then
    if (s.widths.lookup g).isNone then failBefore "cannot refer to an open group" (ds.length + 1)
    checkBehind g
    return .back g m.fold
  else failBefore ("invalid group reference " ++ Text.ofNat g) ds.length

/-- An escape that starts with a digit other than zero: three octal digits, or the number of a group. -/
def digitEscape (m : Modes) (c : CodePoint) : Step Regex := do
  match ← peek with
  | some [d] =>
    if Text.isAsciiDigit d then
      let _ ← take
      let third ← peek
      if isOctal c && isOctal d && third.any (fun t => t.length == 1 && t.all isOctal) then
        let e ← take
        return .one (.literal (← octalEscape ([c, d] ++ e.getD [])) false m.fold)
      else groupReference m [c, d]
    else groupReference m [c]
  | _ => groupReference m [c]

/-- An escape outside of a set. -/
def escape (m : Modes) (c : CodePoint) : Step Regex := do
  let literal (d : CodePoint) : Regex := .one (.literal d false m.fold)
  match c with
  | 65 => return .anchor (.start false)
  | 98 => return .anchor (.boundary false m.ascii)
  | 66 => return .anchor (.boundary true m.ascii)
  | 90 => return .anchor .veryEnd
  | 48 => return literal (Text.toNatBase 8 (48 :: (← takeWhile isOctal 2)))
  | c =>
    match class? c, control? c with
    | some item, _ => return .one (.set [item] false m.fold m.ascii)
    | none, some d => return literal d
    | none, none =>
      if Text.isAsciiDigit c then digitEscape m c else return literal (← commonEscape c)

/-! ## Sets -/

/-- One character or class of a set, from a piece. -/
def setItem (t : Text) : Step SetItem :=
  match t with
  | [92, c] => setEscape c
  | [c] => return .point c
  | _ => return .point 0

/-- The items of a set up to the closing bracket, the latest first in `items`. The bracket at `start` opened
the set. -/
def setItems (start : Nat) (items : List SetItem) : Nat → Step (List SetItem)
  | 0 => return items
  | fuel + 1 => do
    match ← take with
    | none => failAt "unterminated character set" start
    | some t =>
      if t = [93] && !items.isEmpty then return items
      else
        let first ← setItem t
        if ← accept 45 then
          match ← take with
          | none => failAt "unterminated character set" start
          | some u =>
            if u = [93] then return .point 45 :: first :: items
            else
              let last ← setItem u
              let bad : Step (List SetItem) :=
                failBefore ("bad character range " ++ t ++ "-" ++ u) (t.length + 1 + u.length)
              match first, last with
              | .point a, .point b => if b < a then bad else setItems start (.range a b :: items) fuel
              | _, _ => bad
        else setItems start (first :: items) fuel

/-- A set; its opening bracket has been taken. -/
def charSet (m : Modes) : Step Regex := do
  let start := (← here) - 1
  let negated ← accept 94
  let items ← setItems start [] ((← get).rest.length + 1)
  match items.reverse.eraseDups with
  | [.point c] => return .one (.literal c negated m.fold)
  | items => return .one (.set items negated m.fold m.ascii)

/-! ## Modes in groups -/

/-- The letters of modes. -/
def modeLetters : List CodePoint := [105, 76, 109, 115, 120, 97, 116, 117]

/-- Whether a piece is the letter of a mode. -/
def isModeLetter (t : Text) : Bool :=
  match t with
  | [c] => modeLetters.contains c
  | _ => false

/-- Whether a piece is a letter. -/
def isLetterPiece (t : Text) : Bool :=
  match t with
  | [c] => Text.isLetter c
  | _ => false

/-- Takes the letters of modes that are turned on, starting with `c`, up to one of `)`, `-` and `:`. -/
def modesOn (letters : Text) (c : CodePoint) : Nat → Step (Text × CodePoint)
  | 0 => return (letters, 41)
  | fuel + 1 => do
    if c = 76 then failBefore "bad inline flags: cannot use 'L' flag with a str pattern" 0
    let letters := if List.contains letters c then letters else c :: letters
    if (c = 97 || c = 117) && List.contains letters 97 && List.contains letters 117 then
      failBefore "bad inline flags: flags 'a', 'u' and 'L' are incompatible" 0
    match ← take with
    | none => failBefore "missing -, : or )" 0
    | some t =>
      match t with
      | [41] => return (letters, 41)
      | [45] => return (letters, 45)
      | [58] => return (letters, 58)
      | [d] =>
        if isModeLetter t then modesOn letters d fuel
        else failBefore (if isLetterPiece t then "unknown flag" else "missing -, : or )") 1
      | _ => failBefore "missing -, : or )" t.length

/-- Takes the letters of modes that are turned off, starting with `c`, up to a colon. -/
def modesOff (letters : Text) (c : CodePoint) : Nat → Step Text
  | 0 => return letters
  | fuel + 1 => do
    if c = 97 || c = 117 || c = 76 then
      failBefore "bad inline flags: cannot turn off flags 'a', 'u' and 'L'" 0
    let letters := c :: letters
    match ← take with
    | none => failBefore "missing :" 0
    | some t =>
      match t with
      | [58] => return letters
      | [d] =>
        if isModeLetter t then modesOff letters d fuel
        else failBefore (if isLetterPiece t then "unknown flag" else "missing :") 1
      | _ => failBefore "missing :" t.length

/-- The first letter of the modes that are turned off. -/
def firstOff : Step CodePoint := do
  match ← take with
  | none => failBefore "missing flag" 0
  | some t =>
    match t with
    | [c] =>
      if isModeLetter t then return c
      else failBefore (if isLetterPiece t then "unknown flag" else "missing flag") 1
    | _ => failBefore "missing flag" t.length

/-- The modes of a group, starting with the character `c`: the letters turned on and off, or only those
turned on for the whole expression. -/
def groupModes (c : CodePoint) : Step (Text × Option Text) := do
  let fuel := (← get).rest.length + 2
  let (on, stop) ← if c = 45 then pure ([], 45) else modesOn [] c fuel
  if stop = 41 then return (on, none)
  if List.contains on 116 then failBefore "bad inline flags: cannot turn on global flag" 1
  let off ← if stop = 45 then do modesOff [] (← firstOff) fuel else pure []
  if List.contains off 116 then failBefore "bad inline flags: cannot turn off global flag" 1
  if on.any (List.contains off ·) then failBefore "bad inline flags: flag turned on and off" 1
  return (on, some off)

/-! ## Repetitions -/

/-- The bound that a number of repetitions stays below. -/
def repetitionLimit : Nat := 4294967295

/-- A number of repetitions. -/
def repetitions (ds : Text) : Step Nat := do
  if Numeral.mostDigits < ds.length then throw .tooManyDigits
  let n := Text.toNatBase 10 ds
  if repetitionLimit ≤ n then throw .repetitionTooLarge
  return n

/-- The bounds of a repetition in braces; its opening brace has been taken. Without a closing brace, or with
nothing in it, the brace is an ordinary character. -/
def braces : Step (Option (Nat × Option Nat)) := do
  if ← nextIs 125 then return none
  let back ← get
  let start ← here
  let fuel := back.rest.length
  let least ← takeWhile Text.isAsciiDigit fuel
  let most ← if ← accept 44 then takeWhile Text.isAsciiDigit fuel else pure least
  if ← accept 125 then
    let lo ← if least.isEmpty then pure 0 else repetitions least
    let hi ← if most.isEmpty then pure none else some <$> repetitions most
    if hi.any (· < lo) then failAt "min repeat greater than max repeat" start
    return some (lo, hi)
  else
    set back
    return none

/-- Puts a repetition around the latest item. -/
def repeatLatest (start : Nat) (least : Nat) (most : Option Nat) (items : List Regex) :
    Step (List Regex) := do
  match items with
  | [] => failAt "nothing to repeat" start
  | .anchor _ :: _ => failAt "nothing to repeat" start
  | .rep _ _ _ _ :: _ => failAt "multiple repeat" start
  | r :: rest =>
    if ← accept 63 then return .rep .lazy least most r :: rest
    else if ← accept 43 then return .rep .possessive least most r :: rest
    else return .rep .greedy least most r :: rest

/-! ## Groups and sequences -/

/-- The width of a closed group. -/
def widthOf (s : Reader) (g : Nat) : Width := (s.widths.lookup g).getD {}

/-- Passes over the pieces up to and including a certain character; the result is whether it was there. -/
def skipPast (c : CodePoint) : Step Bool := do
  let s ← get
  let after := s.rest.dropWhile (·.text ≠ [c])
  if (s.rest.takeWhile (·.text ≠ [c])).any (·.text = [92]) then
    failAt "bad escape (end of pattern)" (s.size - 1)
  set { s with rest := after.tail }
  checkEnd
  return !after.isEmpty

/-- Takes the parenthesis that closes the group opened at `start`. -/
def close (start : Nat) : Step Unit := do
  if !(← accept 41) then failAt "missing ), unterminated subpattern" start

/-- Opens a group that is remembered. -/
def openGroup (name : Option Text) : Step Nat := do
  let s ← get
  let g := s.nextGroup
  match name with
  | none => set { s with nextGroup := g + 1 }
  | some n =>
    match s.names.lookup n with
    | some old =>
      failBefore ("redefinition of group name " ++ Text.quoted n ++ " as group " ++ Text.ofNat g ++
        "; was group " ++ Text.ofNat old) (n.length + 1)
    | none => set { s with nextGroup := g + 1, names := (n, g) :: s.names }
  return g

/-- A name of a group up to a terminator; it has to be well-formed. -/
def groupName (terminator : CodePoint) : Step Text := do
  let name ← takeName terminator "group name"
  if !Text.isName name then
    failBefore ("bad character in group name " ++ Text.quoted name) (name.length + 1)
  return name

/-- A reference to a group by name. -/
def namedReference (m : Modes) : Step Regex := do
  let name ← groupName 41
  let s ← get
  match s.names.lookup name with
  | none => failBefore ("unknown group name " ++ Text.quoted name) (name.length + 1)
  | some g =>
    if (s.widths.lookup g).isNone then failBefore "cannot refer to an open group" (name.length + 1)
    checkBehind g
    return .back g m.fold

/-- The group that a conditional part asks for, by name or by number. -/
def askedGroup : Step Nat := do
  let name ← takeName 41 "group name"
  let back := name.length + 1
  let s ← get
  if Text.isName name then
    match s.names.lookup name with
    | some g => return g
    | none => failBefore ("unknown group name " ++ Text.quoted name) back
  else
    match Numeral.toInt? name with
    | some (.ofNat n) =>
      if n = 0 then failBefore "bad group number" back
      else if 2147483647 ≤ n then failBefore ("invalid group reference " ++ Text.ofNat n) back
      else
        let p := (← here) - back
        modify fun s => if (s.asked.lookup n).isSome then s else { s with asked := (n, p) :: s.asked }
        return n
    | _ => failBefore ("bad character in group name " ++ Text.quoted name) back

/-- What an opening parenthesis starts. -/
inductive Opening where
  /-- A group, remembered or not, with modes of its own. -/
  | group (capture : Bool) (name : Option Text) (modes : Modes)
  /-- A part that is settled once it has been found. -/
  | atomic
  /-- A condition on what comes next or came before. -/
  | look (behind negated : Bool)
  /-- A choice that depends on a group. -/
  | choice
  /-- A reference to a group by name. -/
  | reference
  /-- A comment. -/
  | comment
  /-- Modes for the whole expression. -/
  | globalModes (letters : Text)

/-- What an opening parenthesis, which has been taken, starts. -/
def opening (m : Modes) : Step Opening := do
  if !(← accept 63) then return .group true none m
  match ← take with
  | none => failBefore "unexpected end of pattern" 0
  | some t =>
    match t with
    | [80] =>
      if ← accept 60 then return .group true (some (← groupName 62)) m
      else if ← accept 61 then return .reference
      else
        match ← take with
        | none => failBefore "unexpected end of pattern" 0
        | some u => failBefore ("unknown extension ?P" ++ u) (u.length + 2)
    | [58] => return .group false none m
    | [35] => return .comment
    | [61] => return .look false false
    | [33] => return .look false true
    | [60] =>
      match ← take with
      | none => failBefore "unexpected end of pattern" 0
      | some [61] => return .look true false
      | some [33] => return .look true true
      | some u => failBefore ("unknown extension ?<" ++ u) (u.length + 2)
    | [40] => return .choice
    | [62] => return .atomic
    | [c] =>
      if isModeLetter t || c = 45 then
        let (on, off) ← groupModes c
        match off with
        | none => return .globalModes on
        | some off => return .group false none ((m.turnOn on).turnOff off)
      else failBefore ("unknown extension ?" ++ t) 2
    | _ => failBefore ("unknown extension ?" ++ t) (t.length + 1)

mutual

/-- Alternatives. Without modes of its own the part is the whole expression. -/
def alternatives (fuel : Nat) (own : Option Modes) : Step Regex :=
  match fuel with
  | 0 => return .seq []
  | fuel + 1 => do
    let first ← sequence fuel own own.isNone []
    let rest ← moreAlternatives fuel own []
    match rest with
    | [] => return .seq first
    | rest => return .alt (.seq first :: rest)

/-- The alternatives after the first, the latest first in `found`. -/
def moreAlternatives (fuel : Nat) (own : Option Modes) (found : List Regex) : Step (List Regex) :=
  match fuel with
  | 0 => return found.reverse
  | fuel + 1 => do
    if ← accept 124 then
      let items ← sequence fuel own false []
      moreAlternatives fuel own (.seq items :: found)
    else return found.reverse

/-- A sequence up to a bar or a closing parenthesis; the items so far are the latest first. Modes for the
whole expression may be set only at the start of the first sequence. -/
def sequence (fuel : Nat) (own : Option Modes) (first : Bool) (items : List Regex) : Step (List Regex) :=
  match fuel with
  | 0 => return items.reverse
  | fuel + 1 => do
    let m := own.getD (← get).modes
    let start ← here
    match ← peek with
    | none => return items.reverse
    | some [124] => return items.reverse
    | some [41] => return items.reverse
    | some t =>
      let _ ← take
      let go (items : List Regex) : Step (List Regex) := sequence fuel own first items
      match t with
      | [92, c] => go ((← escape m c) :: items)
      | [c] =>
        if m.verbose && ((9 ≤ c && c ≤ 13) || c = 32) then go items
        else if m.verbose && c = 35 then
          let _ ← skipPast 10
          go items
        else
          match c with
          | 91 => go ((← charSet m) :: items)
          | 63 => go (← repeatLatest start 0 (some 1) items)
          | 42 => go (← repeatLatest start 0 none items)
          | 43 => go (← repeatLatest start 1 none items)
          | 123 =>
            match ← braces with
            | none => go (.one (.literal 123 false m.fold) :: items)
            | some (least, most) => go (← repeatLatest start least most items)
          | 46 => go (.one (.any m.dotAll) :: items)
          | 94 => go (.anchor (.start m.multiline) :: items)
          | 36 => go (.anchor (.stop m.multiline) :: items)
          | 40 =>
            match ← opening m with
            | .comment =>
              if ← skipPast 41 then go items else failAt "missing ), unterminated comment" start
            | .reference => go ((← namedReference m) :: items)
            | .globalModes letters =>
              modify fun s => { s with
                modes := { s.modes.turnOn letters with
                  ascii := s.modes.ascii || List.contains letters 97 }
                allScripts := s.allScripts || List.contains letters 117 }
              if !first || !items.isEmpty then
                failAt "global flags not at the start of the expression" start
              go items
            | .look behind negated =>
              let outer := (← get).behindFrom
              if behind then modify fun s => { s with behindFrom := outer.or (some s.nextGroup) }
              let body ← alternatives fuel (some m)
              if behind then modify fun s => { s with behindFrom := outer }
              close start
              let s ← get
              go (.look (if behind then some (body.width (widthOf s)) else none) negated body :: items)
            | .choice =>
              let g ← askedGroup
              checkBehind g
              let yes ← sequence fuel (some m) false []
              let no ← if ← accept 124 then some <$> sequence fuel (some m) false [] else pure none
              if ← nextIs 124 then failBefore "conditional backref with more than two branches" 0
              close start
              go (.cond g (.seq yes) (no.map .seq) :: items)
            | .atomic =>
              let body ← alternatives fuel (some m)
              close start
              go (.atomic body :: items)
            | .group capture name modes =>
              let g ← if capture then some <$> openGroup name else pure none
              let body ← alternatives fuel (some modes)
              close start
              match g with
              | some g =>
                modify fun s => { s with widths := (g, body.width (widthOf s)) :: s.widths }
              | none => pure ()
              go (.group g body :: items)
          | c => go (.one (.literal c false m.fold) :: items)
      | _ => go items

end

/-! ## The whole expression -/

/-- The name of a repetition in a message. -/
def repetitionName : Eagerness → Text
  | .greedy => "MAX_REPEAT"
  | .lazy => "MIN_REPEAT"
  | .possessive => "POSSESSIVE_REPEAT"

mutual

/-- Refuses conditions on what came before without a fixed width, and repetitions in the mode without. -/
def check (template : Bool) : Regex → Except PatternError Unit
  | .seq items => checkAll template items
  | .alt branches => checkAll template branches
  | .group _ body => check template body
  | .rep how _ _ body =>
    if template then
      .error (.malformed ("internal: unsupported template operator " ++ repetitionName how) none)
    else check template body
  | .atomic body => check template body
  | .look behind _ body =>
    match behind with
    | none => check template body
    | some w =>
      if repetitionLimit < w.least then .error (.malformed "looks too much behind" none)
      else if w.least ≠ w.most then
        .error (.malformed "look-behind requires fixed-width pattern" none)
      else check template body
  | .cond _ yes no =>
    match check template yes with
    | .error e => .error e
    | .ok _ =>
      match no with
      | some no => check template no
      | none => .ok ()
  | _ => .ok ()

/-- The same for several expressions in order. -/
def checkAll (template : Bool) : List Regex → Except PatternError Unit
  | [] => .ok ()
  | r :: rest =>
    match check template r with
    | .error e => .error e
    | .ok _ => checkAll template rest

end

/-- Reads a whole expression. -/
def whole (fuel : Nat) : Step Regex := do
  checkEnd
  let r ← alternatives fuel none
  let s ← get
  if s.modes.ascii && s.allScripts then throw .mixedAlphabets
  if !s.rest.isEmpty then failBefore "unbalanced parenthesis" 0
  match s.asked.reverse.find? fun (g, _) => s.nextGroup ≤ g with
  | some (g, p) => failAt ("invalid group reference " ++ Text.ofNat g) p
  | none => return r

end RegexParser

/-- Reads an expression; the modes are those outside of it. -/
def Compiled.ofText (modes : Modes) (t : Text) : Except PatternError Compiled :=
  let rest := RegexParser.pieces 0 t
  let s : RegexParser.Reader := { rest, size := t.length, modes }
  match (RegexParser.whole (4 * rest.length + 8)).run s with
  | .error e => .error e
  | .ok (r, s) =>
    match RegexParser.check s.modes.template r with
    | .error e => .error e
    | .ok _ => .ok ⟨r, s.nextGroup - 1⟩

end ScriptEngine
