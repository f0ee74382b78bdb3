import ScriptEngine.Grammar.Token

/-!
# Syntax trees

The exchange form of a parsed program: nodes with a kind, a payload, the token they come from and a list of
children. Optional parts are present as `empty` nodes, so the position of a child tells its part.

## Main definitions

* `NodeKind`: the kinds of nodes, with their written names.
* `Node`: a syntax tree.
-/

namespace ScriptEngine

/-- The kinds of syntax tree nodes. -/
inductive NodeKind where
  | program
  | block
  | empty
  | expr
  | varStmt
  | decl
  | functionStmt
  | params
  | ifStmt
  | whileStmt
  | doStmt
  | forStmt
  | forInStmt
  | switchStmt
  | caseClause
  | defaultClause
  | tryStmt
  | catchClause
  | finallyClause
  | throwStmt
  | returnStmt
  | breakStmt
  | continueStmt
  | labelStmt
  | withStmt
  | number
  | string
  | boolean
  | null
  | regexp
  | ident
  | this
  | array
  | hole
  | object
  | property
  | functionExpr
  | member
  | call
  | new
  | unary
  | prefixOp
  | postfixOp
  | binary
  | logical
  | assign
  | conditional
  | comma
  deriving DecidableEq, Repr, Inhabited

namespace NodeKind

/-- All kinds with their written names. -/
def table : List (NodeKind × String) :=
  [(program, "program"), (block, "block"), (empty, "empty"), (expr, "expr"), (varStmt, "var"),
    (decl, "decl"), (functionStmt, "function"), (params, "params"), (ifStmt, "if"),
    (whileStmt, "while"), (doStmt, "do"), (forStmt, "for"), (forInStmt, "for_in"),
    (switchStmt, "switch"), (caseClause, "case"), (defaultClause, "default"), (tryStmt, "try"),
    (catchClause, "catch"), (finallyClause, "finally"), (throwStmt, "throw"), (returnStmt, "return"),
    (breakStmt, "break"), (continueStmt, "continue"), (labelStmt, "label"), (withStmt, "with"),
    (number, "number"), (string, "string"), (boolean, "boolean"), (null, "null"), (regexp, "regexp"),
    (ident, "ident"), (this, "this"), (array, "array"), (hole, "hole"), (object, "object"),
    (property, "property"), (functionExpr, "function_expr"), (member, "member"), (call, "call"),
    (new, "new"), (unary, "unary"), (prefixOp, "prefix"), (postfixOp, "postfix"), (binary, "binary"),
    (logical, "logical"), (assign, "assign"), (conditional, "conditional"), (comma, "comma")]

/-- The written name of a kind. -/
def label (k : NodeKind) : String := ((table.find? (·.1 == k)).map (·.2)).getD ""

/-- The kind with a written name. -/
def ofLabel? (s : String) : Option NodeKind := (table.find? (·.2 == s)).map (·.1)

end NodeKind

/-- What a node says beside its kind and its children. -/
inductive Payload where
  /-- Nothing. -/
  | none
  /-- A name, an operator, a label or the value of a string literal. -/
  | text (t : Text)
  /-- The value of a number literal. -/
  | number (x : Float)
  /-- The value of a truth literal. -/
  | flag (b : Bool)
  /-- The source and the flags of a pattern literal. -/
  | pattern (source flags : Text)
  deriving Inhabited

/-- Where a node comes from: the class and the positions of its token. -/
structure Mark where
  /-- The class of the token. -/
  kind : TokenClass := .none
  /-- The position of its first code point. -/
  start : Nat := 0
  /-- The position after its last code point. -/
  stop : Nat := 0
  deriving Inhabited

/-- The mark of a token. -/
def Token.mark (t : Token) : Mark := ⟨t.kind, t.start, t.stop⟩

/-- A syntax tree. -/
inductive Node where
  /-- A node with its kind, payload, origin and children. -/
  | mk (kind : NodeKind) (payload : Payload) (mark : Mark) (children : List Node)
  deriving Inhabited

namespace Node

/-- The kind of the top node. -/
def kind : Node → NodeKind
  | mk k _ _ _ => k

/-- The payload of the top node. -/
def payload : Node → Payload
  | mk _ p _ _ => p

/-- The children of the top node. -/
def children : Node → List Node
  | mk _ _ _ c => c

/-- The place holder for a part that is not there. -/
def absent : Node := mk .empty .none {} []

/-- Whether the tree is a place holder. -/
def isEmpty (n : Node) : Bool := n.kind == .empty

/-- A leaf from a token. -/
def leaf (k : NodeKind) (p : Payload) (t : Token) : Node := mk k p t.mark []

/-- A node without payload from a token. -/
def plain (k : NodeKind) (t : Token) (children : List Node) : Node := mk k .none t.mark children

/-- A node with a name, operator or label from a token. -/
def named (k : NodeKind) (name : Text) (t : Token) (children : List Node) : Node :=
  mk k (.text name) t.mark children

end Node

end ScriptEngine
