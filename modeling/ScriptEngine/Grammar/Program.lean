import ScriptEngine.Grammar.Tree

/-!
# Programs

The typed form of a program that is run: expressions and statements whose parts are told apart by their
types. `Program.ofNode?` reads a syntax tree as a program and answers nothing for a tree of another shape.

## Main definitions

* `Expr`, `Stmt`: expressions and statements.
* `Stmt.varNames`: the names that a statement declares for the function or program around it.
* `Program.ofNode?`: the program that a syntax tree stands for.
-/

namespace ScriptEngine

/-- The operators before a single operand. -/
inductive UnaryOp where
  | minus
  | plus
  | not
  | bitNot
  | typeOf
  | void
  | delete
  deriving DecidableEq, Repr, Inhabited

/-- The operators between two operands that are both evaluated. -/
inductive BinaryOp where
  | add
  | sub
  | mul
  | div
  | mod
  | bitAnd
  | bitOr
  | bitXor
  | shiftLeft
  | shiftRight
  | shiftRightUnsigned
  | less
  | greater
  | lessEq
  | greaterEq
  | equal
  | notEqual
  | identical
  | notIdentical
  | elementOf
  | instanceOf
  deriving DecidableEq, Repr, Inhabited

/-- The values that can be written down. -/
inductive Literal where
  | null
  | bool (b : Bool)
  | num (x : Float)
  | str (t : Text)
  deriving Inhabited

mutual

/-- Expressions. -/
inductive Expr where
  | literal (v : Literal)
  | regexp (source flags : Text)
  | ident (name : Text)
  | this
  /-- An array literal; a missing element leaves a hole. -/
  | array (elements : List (Option Expr))
  | object (properties : List (Text × Expr))
  /-- A function; its name, which may be empty, is bound inside its body. -/
  | function (name : Text) (params : List Text) (body : List Stmt)
  | member (object key : Expr)
  | call (callee : Expr) (args : List Expr)
  | new (callee : Expr) (args : List Expr)
  | unary (op : UnaryOp) (operand : Expr)
  /-- `++` or, when `down` is set, `--` before its target. -/
  | updateBefore (down : Bool) (target : Expr)
  /-- `++` or, when `down` is set, `--` after its target. -/
  | updateAfter (down : Bool) (target : Expr)
  | binary (op : BinaryOp) (left right : Expr)
  | and (left right : Expr)
  | or (left right : Expr)
  /-- An assignment; with an operator the target's value is its left operand. -/
  | assign (op : Option BinaryOp) (target value : Expr)
  | conditional (test consequent alternate : Expr)
  | comma (items : List Expr)

/-- Statements. -/
inductive Stmt where
  /-- Statements in the scope around them. -/
  | sequence (body : List Stmt)
  /-- Statements in a scope of their own. -/
  | block (body : List Stmt)
  | empty
  | expr (e : Expr)
  | var (decls : List (Text × Option Expr))
  | function (name : Text) (params : List Text) (body : List Stmt)
  | ifElse (test : Expr) (consequent : Stmt) (alternate : Option Stmt)
  | whileLoop (test : Expr) (body : Stmt)
  | doLoop (body : Stmt) (test : Expr)
  | forVar (decls : List (Text × Option Expr)) (test update : Option Expr) (body : Stmt)
  | forExpr (init test update : Option Expr) (body : Stmt)
  /-- A loop over the keys of an object that assigns them to a declared variable, the first of `decls`. -/
  | forInVar (decls : List (Text × Option Expr)) (object : Expr) (body : Stmt)
  /-- A loop over the keys of an object that assigns them to `target`. -/
  | forIn (target object : Expr) (body : Stmt)
  | switch (subject : Expr) (clauses : List Clause)
  | tryCatch (body : Stmt) (handler : Option (Text × Stmt)) (finalizer : Option Stmt)
  | throws (e : Expr)
  | returns (e : Option Expr)
  | breaks (label : Option Text)
  | continues (label : Option Text)
  | labelled (label : Text) (body : Stmt)
  | within (object : Expr) (body : Stmt)

/-- The clauses of a `switch`: with a test, or the default. -/
inductive Clause where
  | case (test : Expr) (body : List Stmt)
  | default (body : List Stmt)

end

instance : Inhabited Expr := ⟨.this⟩
instance : Inhabited Stmt := ⟨.empty⟩
instance : Inhabited Clause := ⟨.default []⟩

/-- A program is a list of statements. -/
abbrev Program := List Stmt

/-- The statements of a clause. -/
def Clause.body : Clause → List Stmt
  | case _ b => b
  | default b => b

/-- The node kind of a statement, which is how a trace names it. -/
def Stmt.kind : Stmt → NodeKind
  | sequence _ => .program
  | block _ => .block
  | empty => .empty
  | expr _ => .expr
  | var _ => .varStmt
  | function _ _ _ => .functionStmt
  | ifElse _ _ _ => .ifStmt
  | whileLoop _ _ => .whileStmt
  | doLoop _ _ => .doStmt
  | forVar _ _ _ _ => .forStmt
  | forExpr _ _ _ _ => .forStmt
  | forInVar _ _ _ => .forInStmt
  | forIn _ _ _ => .forInStmt
  | switch _ _ => .switchStmt
  | tryCatch _ _ _ => .tryStmt
  | throws _ => .throwStmt
  | returns _ => .returnStmt
  | breaks _ => .breakStmt
  | continues _ => .continueStmt
  | labelled _ _ => .labelStmt
  | within _ _ => .withStmt

/-! ## Declared names -/

mutual

/-- The names that a statement declares with `var`, in order, nested functions apart. -/
def Stmt.varNames : Stmt → List Text
  | .sequence body => varNamesOf body
  | .block body => varNamesOf body
  | .var decls => decls.map (·.1)
  | .ifElse _ c a =>
    c.varNames ++ match a with
      | none => []
      | some s => s.varNames
  | .whileLoop _ b => b.varNames
  | .doLoop b _ => b.varNames
  | .forVar decls _ _ b => decls.map (·.1) ++ b.varNames
  | .forExpr _ _ _ b => b.varNames
  | .forInVar decls _ b => decls.map (·.1) ++ b.varNames
  | .forIn _ _ b => b.varNames
  | .switch _ clauses => clauseVarNames clauses
  | .tryCatch b h f =>
    b.varNames ++
      (match h with
        | none => []
        | some (_, s) => s.varNames) ++
      match f with
        | none => []
        | some s => s.varNames
  | .labelled _ b => b.varNames
  | .within _ b => b.varNames
  | _ => []

/-- The names that a list of statements declares with `var`. -/
def varNamesOf : List Stmt → List Text
  | [] => []
  | s :: rest => s.varNames ++ varNamesOf rest

/-- The names that the clauses of a `switch` declare with `var`. -/
def clauseVarNames : List Clause → List Text
  | [] => []
  | .case _ body :: rest => varNamesOf body ++ clauseVarNames rest
  | .default body :: rest => varNamesOf body ++ clauseVarNames rest

end

/-! ## From syntax trees -/

namespace Program

/-- The written forms of the binary operators. -/
def binaryOps : List (String × BinaryOp) :=
  [("+", .add), ("-", .sub), ("*", .mul), ("/", .div), ("%", .mod), ("&", .bitAnd), ("|", .bitOr),
    ("^", .bitXor), ("<<", .shiftLeft), (">>", .shiftRight), (">>>", .shiftRightUnsigned), ("<", .less),
    (">", .greater), ("<=", .lessEq), (">=", .greaterEq), ("==", .equal), ("!=", .notEqual),
    ("===", .identical), ("!==", .notIdentical), ("in", .elementOf), ("instanceof", .instanceOf)]

/-- The binary operator with a written form. -/
def binaryOp? (t : Text) : Option BinaryOp :=
  (binaryOps.find? fun row => Text.ofString row.1 == t).map (·.2)

/-- The unary operator with a written form. -/
def unaryOp? (t : Text) : Option UnaryOp :=
  let table : List (String × UnaryOp) :=
    [("-", .minus), ("+", .plus), ("!", .not), ("~", .bitNot), ("typeof", .typeOf), ("void", .void),
      ("delete", .delete)]
  (table.find? fun row => Text.ofString row.1 == t).map (·.2)

/-- The operator of an assignment: none for `=`, a binary operator for its form with `=` after it. -/
def assignOp? (t : Text) : Option (Option BinaryOp) :=
  if t == Text.ofString "=" then some none else (binaryOp? t.dropLast).map some

/-- The name in a payload; a missing one is empty. -/
def nameOf : Payload → Text
  | .text t => t
  | _ => []

/-- The label in a payload. -/
def labelOf? : Payload → Option Text
  | .text t => some t
  | _ => none

/-- The literal in a payload. -/
def literalOf : Payload → Literal
  | .text t => .str t
  | .number x => .num x
  | .flag b => .bool b
  | _ => .null

/-- What an optional part stands for, given what its tree would stand for. -/
def optional (n : Node) (r : Option α) : Option (Option α) := if n.isEmpty then some none else r.map some

mutual

/-- The expression that a tree stands for. -/
def expr? : Node → Option Expr
  | .mk kind payload _ children =>
    match kind with
    | .number => some (.literal (literalOf payload))
    | .string => some (.literal (literalOf payload))
    | .boolean => some (.literal (literalOf payload))
    | .null => some (.literal .null)
    | .regexp =>
      match payload with
      | .pattern source flags => some (.regexp source flags)
      | _ => none
    | .ident => some (.ident (nameOf payload))
    | .this => some .this
    | .array => (elements? children).map .array
    | .object => (properties? children).map .object
    | .functionExpr =>
      match children with
      | [params, .mk _ _ _ body] =>
        (stmts? body).map (.function (nameOf payload) (params.children.map fun n => nameOf n.payload))
      | _ => none
    | .member =>
      match children with
      | [o, k] => do return .member (← expr? o) (← expr? k)
      | _ => none
    | .call =>
      match children with
      | callee :: args => do return .call (← expr? callee) (← exprs? args)
      | _ => none
    | .new =>
      match children with
      | callee :: args => do return .new (← expr? callee) (← exprs? args)
      | _ => none
    | .unary =>
      match children with
      | [e] => do return .unary (← unaryOp? (nameOf payload)) (← expr? e)
      | _ => none
    | .prefixOp =>
      match children with
      | [e] => (expr? e).map (.updateBefore (nameOf payload != Text.ofString "++"))
      | _ => none
    | .postfixOp =>
      match children with
      | [e] => (expr? e).map (.updateAfter (nameOf payload != Text.ofString "++"))
      | _ => none
    | .binary =>
      match children with
      | [l, r] => do return .binary (← binaryOp? (nameOf payload)) (← expr? l) (← expr? r)
      | _ => none
    | .logical =>
      match children with
      | [l, r] => do
        if nameOf payload == Text.ofString "&&" then return .and (← expr? l) (← expr? r)
        else return .or (← expr? l) (← expr? r)
      | _ => none
    | .assign =>
      match children with
      | [l, r] => do return .assign (← assignOp? (nameOf payload)) (← expr? l) (← expr? r)
      | _ => none
    | .conditional =>
      match children with
      | [t, c, a] => do return .conditional (← expr? t) (← expr? c) (← expr? a)
      | _ => none
    | .comma => (exprs? children).map .comma
    | _ => none

/-- The expressions that a list of trees stands for. -/
def exprs? : List Node → Option (List Expr)
  | [] => some []
  | n :: rest => do return (← expr? n) :: (← exprs? rest)

/-- The elements of an array literal. -/
def elements? : List Node → Option (List (Option Expr))
  | [] => some []
  | n :: rest => do
    if n.kind == .hole then return none :: (← elements? rest)
    else return some (← expr? n) :: (← elements? rest)

/-- The properties of an object literal. -/
def properties? : List Node → Option (List (Text × Expr))
  | [] => some []
  | .mk _ payload _ children :: rest =>
    match children with
    | [e] => do return (nameOf payload, ← expr? e) :: (← properties? rest)
    | _ => none

/-- The declarations below a `var` node. -/
def varDeclarations? : Node → Option (List (Text × Option Expr))
  | .mk _ _ _ children => declarations? children

/-- The declarations of a `var` statement. -/
def declarations? : List Node → Option (List (Text × Option Expr))
  | [] => some []
  | .mk _ payload _ children :: rest =>
    match children with
    | [init] => do return (nameOf payload, ← optional init (expr? init)) :: (← declarations? rest)
    | _ => none

/-- The statement that a tree stands for. -/
def stmt? : Node → Option Stmt
  | .mk kind payload _ children =>
    match kind with
    | .program => (stmts? children).map .sequence
    | .block => (stmts? children).map .block
    | .empty => some .empty
    | .expr =>
      match children with
      | [e] => (expr? e).map .expr
      | _ => none
    | .varStmt => (declarations? children).map .var
    | .functionStmt =>
      match children with
      | [params, .mk _ _ _ body] =>
        (stmts? body).map (.function (nameOf payload) (params.children.map fun n => nameOf n.payload))
      | _ => none
    | .ifStmt =>
      match children with
      | [t, c, a] => do return .ifElse (← expr? t) (← stmt? c) (← optional a (stmt? a))
      | _ => none
    | .whileStmt =>
      match children with
      | [t, b] => do return .whileLoop (← expr? t) (← stmt? b)
      | _ => none
    | .doStmt =>
      match children with
      | [b, t] => do return .doLoop (← stmt? b) (← expr? t)
      | _ => none
    | .forStmt =>
      match children with
      | [i, t, u, b] => do
        let test ← optional t (expr? t)
        let update ← optional u (expr? u)
        let body ← stmt? b
        if i.kind == .varStmt then return .forVar (← varDeclarations? i) test update body
        else return .forExpr (← optional i (expr? i)) test update body
      | _ => none
    | .forInStmt =>
      match children with
      | [target, o, b] => do
        let object ← expr? o
        let body ← stmt? b
        if target.kind == .varStmt then return .forInVar (← varDeclarations? target) object body
        else return .forIn (← expr? target) object body
      | _ => none
    | .switchStmt =>
      match children with
      | subject :: rest => do return .switch (← expr? subject) (← clauses? rest)
      | _ => none
    | .tryStmt =>
      match children with
      | [b, h, f] => do return .tryCatch (← stmt? b) (← handler? h) (← finalizer? f)
      | _ => none
    | .throwStmt =>
      match children with
      | [e] => (expr? e).map .throws
      | _ => none
    | .returnStmt =>
      match children with
      | [] => some (.returns none)
      | e :: _ => (expr? e).map fun e => .returns (some e)
    | .breakStmt => some (.breaks (labelOf? payload))
    | .continueStmt => some (.continues (labelOf? payload))
    | .labelStmt =>
      match children with
      | [b] => (stmt? b).map (.labelled (nameOf payload))
      | _ => none
    | .withStmt =>
      match children with
      | [o, b] => do return .within (← expr? o) (← stmt? b)
      | _ => none
    | _ => none

/-- The handler of a `try` statement. -/
def handler? : Node → Option (Option (Text × Stmt))
  | .mk kind payload _ children =>
    if kind == .empty then some none
    else
      match children with
      | [b] => (stmt? b).map fun b => some (nameOf payload, b)
      | _ => none

/-- The last part of a `try` statement. -/
def finalizer? : Node → Option (Option Stmt)
  | .mk kind _ _ children =>
    if kind == .empty then some none
    else
      match children with
      | [b] => (stmt? b).map some
      | _ => none

/-- The clauses of a `switch` statement. -/
def clauses? : List Node → Option (List Clause)
  | [] => some []
  | .mk kind _ _ children :: rest =>
    if kind == .caseClause then
      match children with
      | test :: body => do return .case (← expr? test) (← stmts? body) :: (← clauses? rest)
      | [] => none
    else do return .default (← stmts? children) :: (← clauses? rest)

/-- The statements that a list of trees stands for. -/
def stmts? : List Node → Option (List Stmt)
  | [] => some []
  | n :: rest => do return (← stmt? n) :: (← stmts? rest)

end

/-- The program that a tree stands for; the kind of the top node does not matter. -/
def ofNode? (n : Node) : Option Program :=
  match n with
  | .mk _ _ _ body => stmts? body

end Program

end ScriptEngine
