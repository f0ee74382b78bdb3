import ScriptEngine.Grammar.Tree
import ScriptEngine.Grammar.Escape
import ScriptEngine.Number.Layout

/-!
# Parsing

From tokens to syntax trees, by recursive descent with precedence climbing for binary operators. A missing
semicolon is tolerated everywhere; `return`, `break`, `continue`, `throw` and the postfix operators look at
the line breaks before the next token. Keywords are identifiers recognised by their text.

Every parsing function takes a number that bounds the depth of the descent. A program of `n` tokens never
needs more than a fixed multiple of `n`, which `parse` supplies.

## Main definitions

* `ParseError`: what can be wrong with a program, with `ParseError.message`.
* `ReadError`: why a source text has no tree.
* `parse`: the tree of a source text.
-/

namespace ScriptEngine

/-! ## Errors -/

/-- What can be wrong with a program. -/
inductive ParseError where
  /-- A token of another class was needed; `wanted` is its text or class. -/
  | expectedClass (wanted found : Text)
  /-- A token with another text was needed. -/
  | expectedText (wanted found : Text)
  | expectedIdentifier (found : Text)
  | expectedClause (found : Text)
  | unexpectedToken (found : Text)
  | unexpectedKeyword (found : Text)
  | unexpectedInObject (found : Text)
  | unexpectedEnd
  | unclosedBlock
  | unclosedSwitch
  | secondDefault
  | bareTry
  | newlineAfterThrow
  | assignmentTarget
  | prefixTarget
  | postfixTarget
  | forInBindings
  | forInTarget
  /-- The bound on the depth of the descent was too small. -/
  | depthExceeded
  deriving Inhabited

/-- The first line of the message for an error. -/
def ParseError.message : ParseError → Text
  | expectedClass wanted found => "Expected " ++ wanted ++ " but found " ++ Text.quoted found
  | expectedText wanted found => "Expected " ++ Text.quoted wanted ++ " but found " ++ Text.quoted found
  | expectedIdentifier found => "Expected identifier but found " ++ Text.quoted found
  | expectedClause found => "Expected case or default but found " ++ Text.quoted found
  | unexpectedToken found => "Unexpected token " ++ Text.quoted found
  | unexpectedKeyword found => "Unexpected keyword " ++ Text.quoted found
  | unexpectedInObject found => "Unexpected token " ++ Text.quoted found ++ " in object literal"
  | unexpectedEnd => "Unexpected end of input"
  | unclosedBlock => "Unexpected end of input, expected '\x7d'"
  | unclosedSwitch => "Unexpected end of input in switch"
  | secondDefault => "More than one default clause in switch statement"
  | bareTry => "Missing catch or finally after try"
  | newlineAfterThrow => "Illegal newline after throw"
  | assignmentTarget => "Invalid left-hand side in assignment"
  | prefixTarget => "Invalid left-hand side expression in prefix operation"
  | postfixTarget => "Invalid left-hand side expression in postfix operation"
  | forInBindings => "Invalid left-hand side in for-in loop: must have a single binding"
  | forInTarget => "Invalid left-hand side in for-in"
  | depthExceeded => "Program too deep"

/-- Why a source text has no tree. -/
inductive ReadError where
  /-- It is no program; the message shows where. -/
  | malformed (message : Text)
  /-- A literal in it denotes no value. -/
  | literal (e : LiteralError)
  deriving Inhabited

/-! ## Reading tokens -/

/-- A token, and whether a line break separates it from the token before it. -/
structure Lexeme where
  /-- The token. -/
  token : Token
  /-- Whether it starts on a later line than the token before it ends. -/
  afterNewline : Bool
  deriving Inhabited

/-- Why parsing stopped. -/
inductive ParseFailure where
  /-- The program is wrong at the given token. -/
  | error (e : ParseError) (place : Token)
  /-- A literal denotes no value. -/
  | literal (e : LiteralError)

/-- A parsing function, as the tree of what it does with the tokens ahead. -/
inductive Parser : Type → Type 1 where
  /-- Ends with a result. -/
  | pure {α : Type} (a : α) : Parser α
  /-- One parsing function after another. -/
  | bind {α β : Type} (p : Parser α) (f : α → Parser β) : Parser β
  /-- Looks at the tokens ahead, which stay. -/
  | look {α : Type} (k : List Lexeme → α) : Parser α
  /-- Takes the next token. -/
  | advance : Parser Unit
  /-- Stops with an error at the next token. -/
  | fail {α : Type} (e : ParseError) : Parser α
  /-- Stops because of a literal. -/
  | failLiteral {α : Type} (e : LiteralError) : Parser α

namespace Parser

instance : Monad Parser where
  pure := pure
  bind := bind

/-- The mark after the last token. -/
def endLexeme : Lexeme := ⟨⟨.eof, [], 0, 0⟩, false⟩

/-- What a parsing function makes of a list of tokens: its result and the tokens that are left. -/
def run : Parser α → List Lexeme → Except ParseFailure (α × List Lexeme)
  | pure a, ts => .ok (a, ts)
  | bind p f, ts =>
    match p.run ts with
    | .ok (a, rest) => (f a).run rest
    | .error e => .error e
  | look k, ts => .ok (k ts, ts)
  | advance, ts => .ok ((), ts.drop 1)
  | fail e, ts => .error (.error e (ts.headD endLexeme).token)
  | failLiteral e, _ => .error (.literal e)

/-- The next lexeme, which stays. -/
def peekLexeme : Parser Lexeme := look fun ts => ts.headD endLexeme

/-- The next token, which stays. -/
def peek : Parser Token := look fun ts => (ts.headD endLexeme).token

/-- The token after the next one, which stays; the last token is followed by itself. -/
def peekSecond : Parser Token := look fun
  | _ :: b :: _ => b.token
  | ts => (ts.headD endLexeme).token

/-- The value of a literal. -/
def literal (r : Except LiteralError α) : Parser α :=
  match r with
  | .ok a => pure a
  | .error e => failLiteral e

/-- How a token is named in messages: by its text, or by its class if it has none. -/
def shown (t : Token) : Text := if t.text.isEmpty then t.kind.label else t.text

/-- Whether a token has the given class and text. -/
def isToken (t : Token) (kind : TokenClass) (text : String) : Bool :=
  t.kind == kind && t.text == Text.ofString text

/-- Whether the next token has the given class and text. -/
def next (kind : TokenClass) (text : String) : Parser Bool := do
  return isToken (← peek) kind text

/-- Whether the next token is the given punctuation mark. -/
def nextPunc (text : String) : Parser Bool := next .punc text

/-- Whether the next token is the given word. -/
def nextWord (text : String) : Parser Bool := next .ident text

/-- Whether no token is left. -/
def atEnd : Parser Bool := do return (← peek).kind == .eof

/-- Takes a token of the given class and text. -/
def expect (kind : TokenClass) (text : String) : Parser Token := do
  let t ← peek
  if t.kind != kind then fail (.expectedClass text (shown t))
  else if t.text != Text.ofString text then fail (.expectedText text (shown t))
  else do advance; return t

/-- Takes the given punctuation mark. -/
def punc (text : String) : Parser Token := expect .punc text

/-- Takes the given word. -/
def word (text : String) : Parser Token := expect .ident text

/-- Takes a token of the given class, whatever its text. -/
def expectClass (kind : TokenClass) : Parser Token := do
  let t ← peek
  if t.kind != kind then fail (.expectedClass kind.label (shown t))
  else do advance; return t

/-- Takes a semicolon if there is one. -/
def semicolon : Parser Unit := do
  if ← nextPunc ";" then advance

/-- The words that are no identifiers. -/
def keywords : List Text :=
  ["break", "case", "catch", "continue", "default", "delete", "do", "else", "finally", "for", "function",
    "if", "in", "instanceof", "new", "return", "switch", "this", "throw", "try", "typeof", "var", "void",
    "while", "with", "null", "true", "false"].map Text.ofString

/-- Whether a text is a keyword. -/
def isKeyword (t : Text) : Bool := keywords.contains t

/-- Takes an identifier that is no keyword. -/
def identifier : Parser Token := do
  let t ← peek
  if t.kind != .ident || isKeyword t.text then fail (.expectedIdentifier (shown t))
  else do advance; return t

/-- Whether a statement without an operand ends here. -/
def atStatementEnd : Parser Bool := do
  let l ← peekLexeme
  return isToken l.token .punc ";" || isToken l.token .punc "\x7d" || l.token.kind == .eof || l.afterNewline

/-! ## Operators -/

/-- The precedence of a binary operator; a higher one binds more tightly. -/
def precedence? (op : Text) : Option Nat :=
  let table : List (Nat × List String) :=
    [(1, ["||"]), (2, ["&&"]), (3, ["|"]), (4, ["^"]), (5, ["&"]), (6, ["==", "!=", "===", "!=="]),
      (7, ["<", ">", "<=", ">=", "in", "instanceof"]), (8, ["<<", ">>", ">>>"]), (9, ["+", "-"]),
      (10, ["*", "/", "%"])]
  (table.find? fun row => (row.2.map Text.ofString).contains op).map (·.1)

/-- The precedence of a token as a binary operator; `in` is none when `noIn` is set. -/
def binaryPrecedence? (t : Token) (noIn : Bool) : Option Nat :=
  let isWord := t.text == Text.ofString "in" || t.text == Text.ofString "instanceof"
  if noIn && t.text == Text.ofString "in" then none
  else if t.kind == .op || (t.kind == .ident && isWord) then precedence? t.text
  else none

/-- The assignment operators. -/
def assignmentOps : List Text :=
  ["=", "+=", "-=", "*=", "/=", "%=", "<<=", ">>=", ">>>=", "&=", "|=", "^="].map Text.ofString

/-- Whether a token is an operator or word written before a single operand. -/
def isUnary (t : Token) : Bool :=
  (t.kind == .op && (["-", "+", "!", "~"].map Text.ofString).contains t.text) ||
    (t.kind == .ident && (["typeof", "void", "delete"].map Text.ofString).contains t.text)

/-- Whether a token is `++` or `--`. -/
def isUpdate (t : Token) : Bool :=
  t.kind == .op && (t.text == Text.ofString "++" || t.text == Text.ofString "--")

/-- Whether a tree can be assigned to. -/
def isTarget (n : Node) : Bool := n.kind == .ident || n.kind == .member

/-- The value of a number token. -/
def numberValue (t : Text) : Except LiteralError Float :=
  match t with
  | 48 :: mark :: digits =>
    if mark == 120 || mark == 88 then
      match Number.ofInt? (Text.toNatBase 16 digits) with
      | some x => .ok x
      | none => .error .numberTooLarge
    else .ok (decimalValue t)
  | _ => .ok (decimalValue t)
where
  /-- The value of a decimal numeral. -/
  decimalValue (t : Text) : Float :=
    match Decimal.scan? t with
    | some (d, _) => d.toNumber false
    | none => 0.0

/-- The text between the quotes of a string token. -/
def stringBody (t : Text) : Text := (t.drop 1).dropLast

/-- The source and the flags of a pattern token. -/
def patternParts (t : Text) : Text × Text :=
  let body := t.drop 1
  let flags := (body.reverse.takeWhile (· != 47)).reverse
  (body.take (body.length - flags.length - 1), flags)

/-! ## The descent -/

mutual

/-- Statements up to the end of the source. -/
def programBody : Nat → Parser (List Node)
  | 0 => fail .depthExceeded
  | n + 1 => do
    if ← atEnd then return []
    else
      let s ← statement n
      return s :: (← programBody n)

/-- One statement. -/
def statement : Nat → Parser Node
  | 0 => fail .depthExceeded
  | n + 1 => do
    let t ← peek
    if isToken t .punc ";" then do advance; return Node.plain .empty t []
    else if isToken t .punc "\x7b" then block n
    else if t.kind == .ident && !isKeyword t.text && isToken (← peekSecond) .punc ":" then do
      advance
      advance
      return Node.named .labelStmt t.text t [← statement n]
    else if isToken t .ident "var" then do
      let v ← varList n false
      semicolon
      return v
    else if isToken t .ident "function" then do
      advance
      let name ← identifier
      let (params, body) ← functionRest n
      return Node.named .functionStmt name.text t [params, body]
    else if isToken t .ident "return" then do
      advance
      if ← atStatementEnd then do
        semicolon
        return Node.plain .returnStmt t []
      else
        let e ← expression n false
        semicolon
        return Node.plain .returnStmt t [e]
    else if isToken t .ident "if" then do
      advance
      let test ← parenthesized n
      let consequent ← statement n
      if ← nextWord "else" then do
        advance
        return Node.plain .ifStmt t [test, consequent, ← statement n]
      else return Node.plain .ifStmt t [test, consequent, Node.absent]
    else if isToken t .ident "while" then do
      advance
      let test ← parenthesized n
      return Node.plain .whileStmt t [test, ← statement n]
    else if isToken t .ident "do" then do
      advance
      let body ← statement n
      let _ ← word "while"
      let test ← parenthesized n
      semicolon
      return Node.plain .doStmt t [body, test]
    else if isToken t .ident "for" then do
      advance
      let _ ← punc "("
      forRest n t
    else if isToken t .ident "switch" then do
      advance
      let subject ← parenthesized n
      let _ ← punc "\x7b"
      return Node.plain .switchStmt t (subject :: (← clauses n false))
    else if isToken t .ident "try" then do
      advance
      tryRest n t
    else if isToken t .ident "throw" then do
      advance
      if (← peekLexeme).afterNewline then fail .newlineAfterThrow
      else
        let e ← expression n false
        semicolon
        return Node.plain .throwStmt t [e]
    else if isToken t .ident "break" then do
      advance
      jump .breakStmt t
    else if isToken t .ident "continue" then do
      advance
      jump .continueStmt t
    else if isToken t .ident "with" then do
      advance
      let subject ← parenthesized n
      return Node.plain .withStmt t [subject, ← statement n]
    else do
      let e ← expression n false
      semicolon
      return Node.plain .expr t [e]

/-- The label and the end of a jump statement. -/
def jump (kind : NodeKind) (t : Token) : Parser Node := do
  let l ← peekLexeme
  if l.token.kind == .ident && !l.afterNewline && !isKeyword l.token.text then do
    advance
    semicolon
    return Node.named kind l.token.text t []
  else do
    semicolon
    return Node.plain kind t []

/-- Statements between braces. -/
def block : Nat → Parser Node
  | 0 => fail .depthExceeded
  | n + 1 => do
    let t ← punc "\x7b"
    return Node.plain .block t (← blockBody n)

/-- Statements up to a closing brace, which is taken. -/
def blockBody : Nat → Parser (List Node)
  | 0 => fail .depthExceeded
  | n + 1 => do
    if ← nextPunc "\x7d" then do
      advance
      return []
    else if ← atEnd then fail .unclosedBlock
    else
      let s ← statement n
      return s :: (← blockBody n)

/-- The word `var` and its declarations. -/
def varList : Nat → Bool → Parser Node
  | 0, _ => fail .depthExceeded
  | n + 1, noIn => do
    let t ← word "var"
    return Node.plain .varStmt t (← declarations n noIn)

/-- Declarations separated by commas. -/
def declarations : Nat → Bool → Parser (List Node)
  | 0, _ => fail .depthExceeded
  | n + 1, noIn => do
    let name ← identifier
    let init ← if ← next .op "=" then do
        advance
        assignment n noIn
      else pure Node.absent
    let d := Node.named .decl name.text name [init]
    if ← nextPunc "," then do
      advance
      return d :: (← declarations n noIn)
    else return [d]

/-- The parameters and the body of a function. -/
def functionRest : Nat → Parser (Node × Node)
  | 0 => fail .depthExceeded
  | n + 1 => do
    let t ← punc "("
    let ps ← if ← nextPunc ")" then do
        advance
        pure []
      else parameters n
    return (Node.plain .params t ps, ← block n)

/-- Parameters separated by commas, up to a closing parenthesis, which is taken. -/
def parameters : Nat → Parser (List Node)
  | 0 => fail .depthExceeded
  | n + 1 => do
    let p ← identifier
    let node := Node.named .ident p.text p []
    if ← nextPunc ")" then do
      advance
      return [node]
    else
      let _ ← punc ","
      return node :: (← parameters n)

/-- An expression in parentheses. -/
def parenthesized : Nat → Parser Node
  | 0 => fail .depthExceeded
  | n + 1 => do
    let _ ← punc "("
    let e ← expression n false
    let _ ← punc ")"
    return e

/-- A `for` statement after its opening parenthesis. -/
def forRest : Nat → Token → Parser Node
  | 0, _ => fail .depthExceeded
  | n + 1, t => do
    let init ← if ← nextWord "var" then varList n true
      else if ← nextPunc ";" then pure Node.absent
      else expression n true
    if ← nextWord "in" then
      if init.kind == .varStmt && init.children.length != 1 then fail .forInBindings
      else if init.kind != .varStmt && !isTarget init then fail .forInTarget
      else
        advance
        let object ← expression n false
        let _ ← punc ")"
        return Node.plain .forInStmt t [init, object, ← statement n]
    else
      let _ ← punc ";"
      let test ← if ← nextPunc ";" then pure Node.absent else expression n false
      let _ ← punc ";"
      let update ← if ← nextPunc ")" then pure Node.absent else expression n false
      let _ ← punc ")"
      return Node.plain .forStmt t [init, test, update, ← statement n]

/-- The clauses of a `switch` up to a closing brace, which is taken. -/
def clauses : Nat → Bool → Parser (List Node)
  | 0, _ => fail .depthExceeded
  | n + 1, seenDefault => do
    let t ← peek
    if isToken t .punc "\x7d" then do
      advance
      return []
    else if isToken t .ident "case" then do
      advance
      let test ← expression n false
      let _ ← punc ":"
      let body ← clauseBody n
      return Node.plain .caseClause t (test :: body) :: (← clauses n seenDefault)
    else if isToken t .ident "default" then
      if seenDefault then fail .secondDefault
      else
        advance
        let _ ← punc ":"
        let body ← clauseBody n
        return Node.plain .defaultClause t body :: (← clauses n true)
    else fail (.expectedClause (shown t))

/-- The statements of a clause. -/
def clauseBody : Nat → Parser (List Node)
  | 0 => fail .depthExceeded
  | n + 1 => do
    let t ← peek
    if isToken t .ident "case" || isToken t .ident "default" || isToken t .punc "\x7d" then return []
    else if t.kind == .eof then fail .unclosedSwitch
    else
      let s ← statement n
      return s :: (← clauseBody n)

/-- A `try` statement after its first word. -/
def tryRest : Nat → Token → Parser Node
  | 0, _ => fail .depthExceeded
  | n + 1, t => do
    let body ← block n
    let handler ← if ← nextWord "catch" then do
        let c ← peek
        advance
        let _ ← punc "("
        let p ← identifier
        let _ ← punc ")"
        pure (Node.named .catchClause p.text c [← block n])
      else pure Node.absent
    let finalizer ← if ← nextWord "finally" then do
        let f ← peek
        advance
        pure (Node.plain .finallyClause f [← block n])
      else pure Node.absent
    if handler.isEmpty && finalizer.isEmpty then fail .bareTry
    else return Node.plain .tryStmt t [body, handler, finalizer]

/-- An expression, with commas. -/
def expression : Nat → Bool → Parser Node
  | 0, _ => fail .depthExceeded
  | n + 1, noIn => do
    let t ← peek
    let e ← assignment n noIn
    if ← nextPunc "," then return Node.plain .comma t (e :: (← commaRest n noIn))
    else return e

/-- Further expressions, each after a comma. -/
def commaRest : Nat → Bool → Parser (List Node)
  | 0, _ => fail .depthExceeded
  | n + 1, noIn => do
    if ← nextPunc "," then do
      advance
      let e ← assignment n noIn
      return e :: (← commaRest n noIn)
    else return []

/-- An expression without commas. -/
def assignment : Nat → Bool → Parser Node
  | 0, _ => fail .depthExceeded
  | n + 1, noIn => do
    let left ← conditional n noIn
    let t ← peek
    if t.kind == .op && assignmentOps.contains t.text then
      if !isTarget left then fail .assignmentTarget
      else
        advance
        return Node.named .assign t.text t [left, ← assignment n noIn]
    else return left

/-- A choice with `?` and `:`, or a binary expression. -/
def conditional : Nat → Bool → Parser Node
  | 0, _ => fail .depthExceeded
  | n + 1, noIn => do
    let test ← binary n 1 noIn
    let t ← peek
    if isToken t .punc "?" then do
      advance
      let consequent ← assignment n false
      let _ ← punc ":"
      return Node.plain .conditional t [test, consequent, ← assignment n noIn]
    else return test

/-- Operands joined by binary operators of at least the given precedence. -/
def binary : Nat → Nat → Bool → Parser Node
  | 0, _, _ => fail .depthExceeded
  | n + 1, least, noIn => do
    let left ← unary n
    binaryRest n least noIn left

/-- Further operators of at least the given precedence and their right operands, after a left operand. -/
def binaryRest : Nat → Nat → Bool → Node → Parser Node
  | 0, _, _, _ => fail .depthExceeded
  | n + 1, least, noIn, left => do
    let t ← peek
    match binaryPrecedence? t noIn with
    | none => return left
    | some p =>
      if p < least then return left
      else
        advance
        let right ← binary n (p + 1) noIn
        let kind := if p ≤ 2 then NodeKind.logical else NodeKind.binary
        binaryRest n least noIn (Node.named kind t.text t [left, right])

/-- An operand with the operators before it. -/
def unary : Nat → Parser Node
  | 0 => fail .depthExceeded
  | n + 1 => do
    let t ← peek
    if isUnary t then do
      advance
      return Node.named .unary t.text t [← unary n]
    else if isUpdate t then do
      advance
      let target ← unary n
      if !isTarget target then fail .prefixTarget
      else return Node.named .prefixOp t.text t [target]
    else postfixed n

/-- An operand with the operator after it, which stands on the same line. -/
def postfixed : Nat → Parser Node
  | 0 => fail .depthExceeded
  | n + 1 => do
    let e ← callOrMember n
    let l ← peekLexeme
    if isUpdate l.token && !l.afterNewline then
      if !isTarget e then fail .postfixTarget
      else
        advance
        return Node.named .postfixOp l.token.text l.token [e]
    else return e

/-- Arguments in parentheses. -/
def arguments : Nat → Parser (List Node)
  | 0 => fail .depthExceeded
  | n + 1 => do
    let _ ← punc "("
    if ← nextPunc ")" then do
      advance
      return []
    else argumentList n

/-- Arguments separated by commas, up to a closing parenthesis, which is taken. -/
def argumentList : Nat → Parser (List Node)
  | 0 => fail .depthExceeded
  | n + 1 => do
    let e ← assignment n false
    if ← nextPunc ")" then do
      advance
      return [e]
    else
      let _ ← punc ","
      return e :: (← argumentList n)

/-- A construction with `new`; its arguments may be missing. -/
def construction : Nat → Parser Node
  | 0 => fail .depthExceeded
  | n + 1 => do
    let t ← word "new"
    let callee ← if ← nextWord "new" then construction n
      else do
        let e ← primary n
        memberTail n e false
    let args ← if ← nextPunc "(" then arguments n else pure []
    return Node.plain .new t (callee :: args)

/-- A primary expression or construction, with its member accesses and calls. -/
def callOrMember : Nat → Parser Node
  | 0 => fail .depthExceeded
  | n + 1 => do
    let e ← if ← nextWord "new" then construction n else primary n
    memberTail n e true

/-- The member accesses, and calls if allowed, after an expression. -/
def memberTail : Nat → Node → Bool → Parser Node
  | 0, _, _ => fail .depthExceeded
  | n + 1, e, calls => do
    let t ← peek
    if calls && isToken t .punc "(" then do
      let args ← arguments n
      memberTail n (Node.plain .call t (e :: args)) calls
    else if isToken t .punc "." then do
      advance
      let p ← expectClass .ident
      memberTail n (Node.plain .member t [e, Node.named .string p.text p []]) calls
    else if isToken t .punc "[" then do
      advance
      let key ← expression n false
      let _ ← punc "]"
      memberTail n (Node.plain .member t [e, key]) calls
    else return e

/-- A literal, a name, a function, or something in brackets. -/
def primary : Nat → Parser Node
  | 0 => fail .depthExceeded
  | n + 1 => do
    let t ← peek
    match t.kind with
    | .number => do
      advance
      return Node.leaf .number (.number (← literal (numberValue t.text))) t
    | .string => do
      advance
      return Node.leaf .string (.text (← literal (unescape (stringBody t.text)))) t
    | .regex => do
      advance
      let (source, flags) := patternParts t.text
      return Node.leaf .regexp (.pattern source flags) t
    | .ident =>
      if isToken t .ident "function" then do
        advance
        let name ← if (← peek).kind == .ident then do
            let name ← identifier
            pure name.text
          else pure []
        let (params, body) ← functionRest n
        return Node.named .functionExpr name t [params, body]
      else if isToken t .ident "true" then do
        advance
        return Node.leaf .boolean (.flag true) t
      else if isToken t .ident "false" then do
        advance
        return Node.leaf .boolean (.flag false) t
      else if isToken t .ident "null" then do
        advance
        return Node.leaf .null .none t
      else if isToken t .ident "this" then do
        advance
        return Node.leaf .this .none t
      else if isKeyword t.text then fail (.unexpectedKeyword t.text)
      else do
        advance
        return Node.leaf .ident (.text t.text) t
    | .punc =>
      if isToken t .punc "(" then do
        advance
        let e ← expression n false
        let _ ← punc ")"
        return e
      else if isToken t .punc "[" then do
        advance
        return Node.plain .array t (← elements n)
      else if isToken t .punc "\x7b" then do
        advance
        return Node.plain .object t (← properties n)
      else fail (.unexpectedToken t.text)
    | .eof => fail .unexpectedEnd
    | _ => fail (.unexpectedToken t.text)

/-- The elements of an array literal up to a closing bracket, which is taken. -/
def elements : Nat → Parser (List Node)
  | 0 => fail .depthExceeded
  | n + 1 => do
    let t ← peek
    if isToken t .punc "]" then do
      advance
      return []
    else if isToken t .punc "," then do
      advance
      return Node.plain .hole t [] :: (← elements n)
    else
      let e ← assignment n false
      if ← nextPunc "]" then pure () else let _ ← punc ","
      return e :: (← elements n)

/-- The properties of an object literal up to a closing brace, which is taken. -/
def properties : Nat → Parser (List Node)
  | 0 => fail .depthExceeded
  | n + 1 => do
    let t ← peek
    if isToken t .punc "\x7d" then do
      advance
      return []
    else
      let key ← match t.kind with
        | .ident => pure t.text
        | .string => literal (unescape (stringBody t.text))
        | .number => do
          let x ← literal (numberValue t.text)
          pure (Number.toText x)
        | _ => fail (.unexpectedInObject (shown t))
      advance
      let _ ← punc ":"
      let e ← assignment n false
      let p := Node.named .property key t [e]
      if ← nextPunc "\x7d" then pure () else let _ ← punc ","
      return p :: (← properties n)

end

end Parser

/-! ## Whole programs -/

/-- The tokens with the line breaks between them. -/
def lexemes (source : Text) : Option Token → List Token → List Lexeme
  | _, [] => []
  | previous, t :: rest =>
    let newline :=
      match previous with
      | none => false
      | some p => List.contains (Text.slice source p.stop t.start) 10
    ⟨t, newline⟩ :: lexemes source (some t) rest

/-- The tree of a source text. -/
def parse (source : Text) : Except ReadError Node :=
  match Token.scan source with
  | .error message => .error (.malformed message)
  | .ok tokens =>
    let input := lexemes source none tokens
    match (Parser.programBody (32 * tokens.length + 32)).run input with
    | .ok (body, _) => .ok (Node.plain .program (input.headD Parser.endLexeme).token body)
    | .error (.literal e) => .error (.literal e)
    | .error (.error e place) =>
      .error (.malformed
        (e.message ++ "\n" ++ sourceContext source place.start (max 1 (place.stop - place.start))))

end ScriptEngine
