import ScriptEngine.Text.Quoted
import ScriptEngine.Number.Decimal

/-!
# Tokens

Cutting source text into tokens. At each position the token classes are tried in a fixed order: number,
string, identifier, comment, operator, punctuation, blank. A slash where no operand has just ended starts a
pattern literal if a complete one stands there. Comments and blanks are dropped, so a token's text is
exactly the source between its two positions.

## Main definitions

* `Token`: a class, a text and two positions.
* `Token.scan`: the tokens of a source text, ending with an end mark.
* `sourceContext`: the lines under a message that show where in the source it arose.
-/

namespace ScriptEngine

/-- The classes of tokens. -/
inductive TokenClass where
  | number
  | string
  | ident
  | op
  | punc
  | regex
  | eof
  /-- The class of a tree node that comes from no token. -/
  | none
  deriving DecidableEq, Repr, Inhabited

/-- The written name of a token class. -/
def TokenClass.label : TokenClass → String
  | number => "NUMBER"
  | string => "STRING"
  | ident => "IDENT"
  | op => "OP"
  | punc => "PUNC"
  | regex => "REGEX"
  | eof => "EOF"
  | none => "NONE"

/-- A token and its place in the source. -/
structure Token where
  /-- The class of the token. -/
  kind : TokenClass
  /-- The text of the token; the end mark has none. -/
  text : Text
  /-- The position of its first code point. -/
  start : Nat
  /-- The position after its last code point. -/
  stop : Nat
  deriving DecidableEq, Inhabited

namespace Token

/-! ## Token classes

Each function gives the length of the longest token of its class at the front of a text, zero if there is
none. -/

/-- A hexadecimal numeral `0x...` or a decimal numeral. -/
def numberLength (t : Text) : Nat :=
  let hex :=
    match t with
    | 48 :: mark :: rest =>
      if mark == 120 || mark == 88 then (rest.takeWhile Text.isHexDigit).length else 0
    | _ => 0
  if hex ≠ 0 then hex + 2
  else
    match Decimal.scan? t with
    | some (_, rest) => t.length - rest.length
    | none => 0

/-- The number of code points up to and including the closing quote; a line end cannot be inside unless a
backslash precedes it. -/
def closingQuote? (quote : CodePoint) : Text → Option Nat
  | [] => none
  | 92 :: _ :: rest => (closingQuote? quote rest).map (· + 2)
  | c :: rest =>
    if c == quote then some 1
    else if c == 10 || c == 92 then none
    else (closingQuote? quote rest).map (· + 1)

/-- A string in single or double quotes. -/
def stringLength (t : Text) : Nat :=
  match t with
  | quote :: rest =>
    if quote == 34 || quote == 39 then ((closingQuote? quote rest).map (· + 1)).getD 0 else 0
  | [] => 0

/-- Whether an identifier can start with `c`. -/
def startsIdent (c : CodePoint) : Bool :=
  (97 ≤ c && c ≤ 122) || (65 ≤ c && c ≤ 90) || c == 95 || c == 36

/-- Whether an identifier can go on with `c`. -/
def continuesIdent (c : CodePoint) : Bool := startsIdent c || Text.isAsciiDigit c

/-- An identifier or keyword. -/
def identLength (t : Text) : Nat :=
  match t with
  | c :: rest => if startsIdent c then (rest.takeWhile continuesIdent).length + 1 else 0
  | [] => 0

/-- A comment to the end of the line, or one between `/*` and the next `*/`. -/
def commentLength (t : Text) : Nat :=
  match t with
  | 47 :: 47 :: rest => (rest.takeWhile (· != 10)).length + 2
  | 47 :: 42 :: rest => ((Text.indexOf? "*/" rest).map (· + 4)).getD 0
  | _ => 0

/-- The operators, longer ones before their beginnings. -/
def operators : List Text :=
  [">>>=", "===", "!==", ">>>", "<<=", ">>=", "+=", "-=", "*=", "/=", "%=", "&=", "|=", "^=", "<<", ">>",
    "==", "!=", "<=", ">=", "&&", "||", "++", "--", "!", "&", "^", "|", "~", "+", "-", "*", "/", "%", "<",
    ">", "="].map Text.ofString

/-- An operator. -/
def opLength (t : Text) : Nat := ((operators.find? (·.isPrefixOf t)).map List.length).getD 0

/-- The punctuation marks. -/
def marks : Text := "()\x7b\x7d,;[].:?"

/-- A punctuation mark. -/
def puncLength (t : Text) : Nat :=
  match t with
  | c :: _ => if List.contains marks c then 1 else 0
  | [] => 0

/-- A run of blanks. -/
def blankLength (t : Text) : Nat := (t.takeWhile Text.isBlank).length

/-- The number of code points up to and including the bracket that closes a class in a pattern. -/
def closingBracket? : Text → Option Nat
  | [] => none
  | 92 :: c :: rest => if c == 10 then none else (closingBracket? rest).map (· + 2)
  | c :: rest =>
    if c == 93 then some 1
    else if c == 10 || c == 92 then none
    else (closingBracket? rest).map (· + 1)

/-- The number of code points up to and including the slash that closes a pattern; `skip` code points
belong to a class already measured. -/
def closingSlash? (skip : Nat) : Text → Option Nat
  | [] => none
  | c :: rest =>
    match skip with
    | n + 1 => (closingSlash? n rest).map (· + 1)
    | 0 =>
      if c == 47 then some 1
      else if c == 10 then none
      else if c == 92 then
        match rest with
        | e :: _ => if e == 10 then none else (closingSlash? 1 rest).map (· + 1)
        | [] => none
      else if c == 91 then
        match closingBracket? rest with
        | some n => (closingSlash? n rest).map (· + 1)
        | none => none
      else (closingSlash? 0 rest).map (· + 1)

/-- Whether `c` is an ASCII letter. -/
def isLetter (c : CodePoint) : Bool := (97 ≤ c && c ≤ 122) || (65 ≤ c && c ≤ 90)

/-- A pattern between slashes, with at least one code point inside, and the letters after it. -/
def regexLength (t : Text) : Nat :=
  match t with
  | 47 :: rest =>
    match closingSlash? 0 rest with
    | some n => if n = 1 then 0 else 1 + n + ((rest.drop n).takeWhile isLetter).length
    | none => 0
  | _ => 0

/-! ## Scanning -/

/-- The keywords after which an operand is expected. -/
def operandKeywords : List Text :=
  ["return", "case", "throw", "else", "new", "typeof", "instanceof", "delete", "void", "in", "do"].map
    Text.ofString

/-- Whether a pattern literal can follow the given token: none can where an operand has just ended. -/
def allowsRegex : Option Token → Bool
  | Option.none => true
  | some t =>
    match t.kind with
    | .punc => !(t.text == Text.ofString ")" || t.text == Text.ofString "]" || t.text == Text.ofString "\x7d")
    | .op => !(t.text == Text.ofString "++" || t.text == Text.ofString "--")
    | .ident => operandKeywords.contains t.text
    | _ => false

/-- What stands at the front of a source text: a token class, or nothing of interest, and its length. -/
def lexeme? (previous : Option Token) (t : Text) : Option (Option TokenClass × Nat) :=
  if numberLength t ≠ 0 then some (some .number, numberLength t)
  else if stringLength t ≠ 0 then some (some .string, stringLength t)
  else if identLength t ≠ 0 then some (some .ident, identLength t)
  else if commentLength t ≠ 0 then some (Option.none, commentLength t)
  else if opLength t ≠ 0 then
    if t.head? == some 47 && allowsRegex previous && regexLength t ≠ 0 then some (some .regex, regexLength t)
    else some (some .op, opLength t)
  else if puncLength t ≠ 0 then some (some .punc, puncLength t)
  else if blankLength t ≠ 0 then some (Option.none, blankLength t)
  else Option.none

/-- The tokens of the rest of a source text. The first `skip` code points belong to a lexeme already taken,
`pos` is the position of the rest, and `previous` is the last token. A code point that starts no lexeme
ends the scan with its value and position. -/
def scanFrom (skip pos : Nat) (previous : Option Token) : Text → Except (CodePoint × Nat) (List Token)
  | [] => .ok [⟨.eof, [], pos, pos⟩]
  | c :: rest =>
    match skip with
    | n + 1 => scanFrom n (pos + 1) previous rest
    | 0 =>
      match lexeme? previous (c :: rest) with
      | Option.none => .error (c, pos)
      | some (Option.none, n) => scanFrom (n - 1) (pos + 1) previous rest
      | some (some kind, n) =>
        let token : Token := ⟨kind, (c :: rest).take n, pos, pos + n⟩
        match scanFrom (n - 1) (pos + 1) (some token) rest with
        | .ok tokens => .ok (token :: tokens)
        | .error e => .error e

end Token

/-! ## Messages -/

/-- The lines that show a place in the source: line and column, the surrounding text with its line ends
written as escapes, and carets under the place. -/
def sourceContext (source : Text) (pos length : Nat) : Text :=
  let before := source.take pos
  let line := before.count 10 + 1
  let column := (before.reverse.takeWhile (· != 10)).length + 1
  let start := pos - 40
  let shown := Text.slice source start (pos + length + 40)
  let snippet := shown.flatMap fun c => if c == 10 then Text.ofString "\\n" else [c]
  let shift := (Text.slice source start pos).count 10
  "Line " ++ Text.ofNat line ++ ", Col " ++ Text.ofNat column ++ "\n" ++ snippet ++ "\n" ++
    List.replicate (pos - start + shift) (32 : CodePoint) ++
    List.replicate (max 1 length) (94 : CodePoint)

/-- The message for a code point that starts no token. -/
def illegalCharacter (source : Text) (c : CodePoint) (pos : Nat) : Text :=
  "Illegal character " ++ Text.quoted [c] ++ " (ord=" ++ Text.ofNat c ++ ") at position " ++
    Text.ofNat pos ++ "\n" ++ sourceContext source pos 1

/-- The tokens of a source text, or the message for the first code point that starts none. -/
def Token.scan (source : Text) : Except Text (List Token) :=
  match Token.scanFrom 0 0 none source with
  | .ok tokens => .ok tokens
  | .error (c, pos) => .error (illegalCharacter source c pos)

end ScriptEngine
