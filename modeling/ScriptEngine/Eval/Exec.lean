import ScriptEngine.Eval.Completion
import ScriptEngine.Machine.Place

/-!
# Running programs

What expressions and statements do. An expression designates a place or a value; a place is read where a
value is needed. Statements end with a completion. Both are functions from syntax to computations, by
recursion on the syntax. A statement is counted before it is executed, and so is the body of a loop in each
round.

## Main definitions

* `Context`: the scope a piece of a program runs in.
* `eval`: what an expression designates.
* `exec`: how a statement ends that has been counted, and `statement` how one ends that has not.
* `runProgram`, `runBody`: whole programs and bodies of functions.
-/

namespace ScriptEngine

open Proc

/-- Where a piece of a program runs. -/
structure Context where
  /-- The counter of its statements. -/
  runner : RunnerId
  /-- Its scope. -/
  scope : FrameId

/-- What an expression stands for. -/
inductive Designator where
  | place (p : Place)
  | value (v : Value)
  deriving Inhabited

/-- The value of an expression: a place is read. -/
def value (d : Proc Designator) : Proc Value := do
  match ← d with
  | .place p => p.get
  | .value v => return v

/-- The place of an expression; it is an error if it has none. -/
def place (d : Proc Designator) : Proc Place := do
  match ← d with
  | .place p => return p
  | .value _ => raise .referenceError "Invalid left-hand side in assignment"

/-- The value of a literal. -/
def Literal.toValue : Literal → Value
  | null => .null
  | bool b => .bool b
  | num x => .num x
  | str t => .str t

/-- The place of a variable: where it is bound, or in the scope itself if it is bound nowhere. -/
def resolveName (scope : FrameId) (name : Text) : Proc Place := do
  let k := Key.ofText name
  return ⟨← read fun s => (s.owner? scope k).getD (.scope scope), k⟩

/-- A new pattern. The flags have to be different letters of `gim`, and are kept in this order. -/
def newRegExp (source flags : Text) : Proc Value := do
  let known : Text := "gim"
  if flags.all (List.contains known ·) && flags.eraseDups.length == flags.length then
    return .obj (← perform (.newRegExp source (known.filter (List.contains flags ·))))
  else raise .syntaxError ("Invalid regular expression flags '" ++ flags ++ "'")

/-- A new function of the program. -/
def newFunction (c : Context) (name : Text) (params : List Text) (body : List Stmt) (selfBound : Bool) :
    Proc Value := do
  return .obj (← perform (.newClosure name params body c.scope c.runner selfBound))

/-- The function that a chain of bound functions leads to, and what it gets when the first of them is given
arguments; a target is older than what is bound to it. -/
def Store.unbound (s : Store) : Nat → ObjectId → List Value → ObjectId × List Value
  | 0, o, args => (o, args)
  | n + 1, o, args =>
    match s.body o with
    | .function _ (.bound target _ args') =>
      if target < o then s.unbound n target (args' ++ args) else (o, args)
    | _ => (o, args)

/-- Whether an object inherits from the prototype of a function. -/
def instanceOf (v ctor : Value) : Proc Value := do
  match ← callable? ctor with
  | none => fault (.instanceOfTarget (← typeOf ctor))
  | some f =>
    let target ← read fun s => (s.unbound (f + 1) f []).1
    match v with
    | .obj o =>
      match ← read (·.getProperty target Key.prototype) with
      | .obj proto => return .bool (← read fun s => s.inherits (s.propsOf o) (s.propsOf proto))
      | _ => typeError "Function has non-object prototype in instanceof check"
    | _ => return .bool false

/-- Whether an object has a property. -/
def elementOf (v object : Value) : Proc Value := do
  match object with
  | .obj o =>
    let k ← toKey v
    return .bool (← read (·.hasProperty o k))
  | _ =>
    let l ← toText v
    let r ← toText object
    typeError ("Cannot use 'in' operator to search for '" ++ l ++ "' in " ++ r)

/-- The value of a binary expression. -/
def binaryValue (op : BinaryOp) (left right : Value) : Proc Value :=
  match op with
  | .elementOf => elementOf left right
  | .instanceOf => instanceOf left right
  | op => Operator.apply op (return left) (return right)

/-- The place of a property. The key is converted before the object is looked at. -/
def property (base key : Value) : Proc Place := do
  let k ← toKey key
  if base.isNullish then
    typeError ("Cannot read property '" ++ k.text ++ "' of " ++ (← toText base))
  else return ⟨.object (← toObject base), k⟩

/-- Calls what an expression designates. -/
def callDesignated (scope : FrameId) (d : Designator) (args : List Value) : Proc Value := do
  match d with
  | .place p => p.call (some scope) args
  | .value v =>
    match ← callable? v with
    | some f => call f (some scope) .undefined args
    | none => notCallable (some scope) v []

/-- Constructs an object. -/
def construct (scope : FrameId) (ctor : Value) (args : List Value) : Proc Value := do
  match ← callable? ctor with
  | some f => request (.construct f (some scope) args)
  | none => typeError ((← typeOf ctor) ++ " is not a constructor")

/-- Declares the functions among statements in a scope. -/
def declareFunctions (c : Context) : List Stmt → Proc Unit
  | [] => return ()
  | .function name params body :: rest => do
    perform (.put c.scope (.ofText name) (← newFunction c name params body false))
    declareFunctions c rest
  | _ :: rest => declareFunctions c rest

/-- Declares variables in a scope, those apart that it has already. -/
def declareVariables (scope : FrameId) : List Text → Proc Unit
  | [] => return ()
  | name :: rest => do
    let k := Key.ofText name
    if !(← read fun s => (s.frame scope).contains k) then perform (.put scope k .undefined)
    declareVariables scope rest

/-- Gives a declared variable its first value: where it is bound, or in the scope of the function. -/
def initVariable (scope : FrameId) (name : Text) (v : Value) : Proc Unit := do
  let k := Key.ofText name
  putIn (← read fun s => (s.owner? scope k).getD (.scope (s.varScope scope))) k v

/-- The position of the first clause without a test. -/
def defaultPosition? (clauses : List Clause) : Option Nat :=
  clauses.findIdx? fun
    | .default _ => true
    | .case _ _ => false

/-- The end of a list of statements. -/
def endOfList : Round (Option Value) Completion → Completion
  | .again v => .normal v
  | .done c => c

/-- Whether a statement passes labels on: a loop or another label. -/
def takesLabels (s : Stmt) : Bool :=
  match s.kind with
  | .whileStmt => true
  | .doStmt => true
  | .forStmt => true
  | .forInStmt => true
  | .labelStmt => true
  | _ => false

/-- Counts a statement before something is done. -/
def counted (c : Context) (s : Stmt) (p : Proc α) : Proc α := do
  perform (.tick c.runner s.kind)
  p

/-- A round of a loop goes on if its test is true. -/
def goOn (latest : Option Value) (test : Proc Value) : Proc (Round (Option Value) Completion) := do
  if (← test).toBoolean then return .again latest else return .done (.normal latest)

/-- The end of a round, with something to do before the next one. -/
def beforeNext (r : Round (Option Value) Completion)
    (next : Option Value → Proc (Round (Option Value) Completion)) : Proc (Round (Option Value) Completion) :=
  match r with
  | .done e => return .done e
  | .again latest => next latest

mutual

/-- What an expression designates. -/
def eval (c : Context) : Expr → Proc Designator
  | .literal v => return .value v.toValue
  | .regexp source flags => return .value (← newRegExp source flags)
  | .ident name => return .place (← resolveName c.scope name)
  | .this => return .value (← read (·.get c.scope Key.this))
  | .array elements => do
    let a ← perform (.newArray (some Realm.arrayPrototype) [])
    let f ← read (·.propsOf a)
    evalElements c f 0 elements
    return .value (.obj a)
  | .object properties => do
    let o ← newObject
    evalProperties c o properties
    return .value (.obj o)
  | .function name params body => return .value (← newFunction c name params body true)
  | .member object key => do
    let base ← value (eval c object)
    let k ← value (eval c key)
    return .place (← property base k)
  | .call callee args => do
    let target ← eval c callee
    return .value (← callDesignated c.scope target (← evalAll c [] args))
  | .new callee args => do
    let ctor ← value (eval c callee)
    return .value (← construct c.scope ctor (← evalAll c [] args))
  | .unary op operand => do
    match op with
    | .typeOf =>
      let unbound ← match operand with
        | .ident name => read fun s => !s.has c.scope (.ofText name)
        | _ => pure false
      if unbound then return .value "undefined"
      else return .value (.str (← typeOf (← value (eval c operand))))
    | .delete =>
      match ← eval c operand with
      | .place p => return .value (.bool (← p.delete))
      | .value _ => return .value (.bool true)
    | op => return .value (← Operator.applyUnary op (value (eval c operand)))
  | .updateBefore down target => do
    let p ← place (eval c target)
    return .value (← p.increment (if down then -1.0 else 1.0))
  | .updateAfter down target => do
    let p ← place (eval c target)
    return .value (← p.incrementAfter (if down then -1.0 else 1.0))
  | .binary op left right => do
    let l ← value (eval c left)
    let r ← value (eval c right)
    return .value (← binaryValue op l r)
  | .and left right => do
    let l ← value (eval c left)
    if l.toBoolean then return .value (← value (eval c right)) else return .value l
  | .or left right => do
    let l ← value (eval c left)
    if l.toBoolean then return .value l else return .value (← value (eval c right))
  | .assign op target e => do
    let p ← place (eval c target)
    let v ← value (eval c e)
    match op with
    | none => return .value (← p.assign v)
    | some op => return .value (← p.combine op (return v))
  | .conditional test consequent alternate => do
    if (← value (eval c test)).toBoolean then return .value (← value (eval c consequent))
    else return .value (← value (eval c alternate))
  | .comma items => return .value (← evalLast c .undefined items)

/-- The values of expressions in order, after those already collected backwards. -/
def evalAll (c : Context) (acc : List Value) : List Expr → Proc (List Value)
  | [] => return acc.reverse
  | e :: rest => do
    let v ← value (eval c e)
    evalAll c (v :: acc) rest

/-- The value of the last expression, after the others have been evaluated. -/
def evalLast (c : Context) (last : Value) : List Expr → Proc Value
  | [] => return last
  | e :: rest => do
    let v ← value (eval c e)
    evalLast c v rest

/-- Writes the elements of an array literal from index `i` on, and its length at the end. -/
def evalElements (c : Context) (f : FrameId) (i : Nat) : List (Option Expr) → Proc Unit
  | [] => perform (.resize f i)
  | none :: rest => evalElements c f (i + 1) rest
  | some e :: rest => do
    let v ← value (eval c e)
    perform (.put f (.index i) v)
    evalElements c f (i + 1) rest

/-- Writes the properties of an object literal. -/
def evalProperties (c : Context) (o : ObjectId) : List (Text × Expr) → Proc Unit
  | [] => return ()
  | (name, e) :: rest => do
    let v ← value (eval c e)
    putProperty o (.ofText name) v
    evalProperties c o rest

/-- How a statement ends that has been counted. The labels are those directly in front of it. -/
def exec (c : Context) (labels : List Text) : Stmt → Proc Completion
  | .sequence body => do
    declareFunctions c body
    return endOfList (← execList c none body)
  | .block body => do
    let c := { c with scope := ← perform (.openScope c.scope .plain) }
    declareFunctions c body
    return endOfList (← execList c none body)
  | .empty => return .normal none
  | .expr e => return .normal (some (← value (eval c e)))
  | .var decls => do
    execDecls c decls
    return .normal none
  | .function name params body => do
    perform (.put c.scope (.ofText name) (← newFunction c name params body false))
    return .normal none
  | .ifElse test consequent alternate => do
    if (← value (eval c test)).toBoolean then counted c consequent (exec c [] consequent)
    else
      match alternate with
      | none => return .normal none
      | some s => counted c s (exec c [] s)
  | .whileLoop test body =>
    repeated c.runner body.kind (fun latest => goOn latest (value (eval c test)))
      (fun latest => do return Completion.afterRound labels latest (← exec c [] body)) none
  | .doLoop body test =>
    repeated c.runner body.kind (fun latest => return .again latest)
      (fun latest => do
        beforeNext (Completion.afterRound labels latest (← exec c [] body))
          fun latest => goOn latest (value (eval c test)))
      none
  | .forVar decls test update body => do
    execDecls c decls
    repeated c.runner body.kind
      (fun latest =>
        match test with
        | none => return .again latest
        | some e => goOn latest (value (eval c e)))
      (fun latest => do
        beforeNext (Completion.afterRound labels latest (← exec c [] body)) fun latest =>
          match update with
          | none => return .again latest
          | some e => do
            let _ ← value (eval c e)
            return .again latest)
      none
  | .forExpr init test update body => do
    match init with
    | none => pure ()
    | some e =>
      let _ ← value (eval c e)
    repeated c.runner body.kind
      (fun latest =>
        match test with
        | none => return .again latest
        | some e => goOn latest (value (eval c e)))
      (fun latest => do
        beforeNext (Completion.afterRound labels latest (← exec c [] body)) fun latest =>
          match update with
          | none => return .again latest
          | some e => do
            let _ ← value (eval c e)
            return .again latest)
      none
  | .forInVar decls object body => do
    execDecls c decls
    let v ← value (eval c object)
    if v.isNullish then return .normal none
    else
      let o ← toObject v
      let name := ((decls.head?).map (·.1)).getD []
      walk
        (fun k latest => do
          if !(← read (·.hasProperty o k)) then return .again latest
          else
            let p ← resolveName c.scope name
            let _ ← p.assign (.str k.text)
            return Completion.afterRound labels latest (← counted c body (exec c [] body)))
        Completion.normal (← read (·.loopKeys o)) none
  | .forIn target object body => do
    let v ← value (eval c object)
    if v.isNullish then return .normal none
    else
      let o ← toObject v
      walk
        (fun k latest => do
          if !(← read (·.hasProperty o k)) then return .again latest
          else
            let p ← place (eval c target)
            let _ ← p.assign (.str k.text)
            return Completion.afterRound labels latest (← counted c body (exec c [] body)))
        Completion.normal (← read (·.loopKeys o)) none
  | .switch subject clauses => do
    let c := { c with scope := ← perform (.openScope c.scope .plain) }
    let v ← value (eval c subject)
    let start ← match ← matchClause c v 0 clauses with
      | some i => pure (some i)
      | none => pure (defaultPosition? clauses)
    match start with
    | none => return .normal none
    | some i =>
      declareFunctions c ((clauses.drop i).flatMap Clause.body)
      return Completion.afterSwitch (endOfList (← execClauses c none i clauses))
  | .tryCatch body handler finalizer => do
    let first := Completion.ofAttempt (← (counted c body (exec c [] body)).attempt)
    let ending ← match handler with
      | none => pure first
      | some (name, s) =>
        match first with
        | .throws v => do
          let c := { c with scope := ← perform (.openScope c.scope .plain) }
          perform (.put c.scope (.ofText name) v)
          pure (Completion.ofAttempt (← (counted c s (exec c [] s)).attempt))
        | first => pure first
    match finalizer with
    | none => return ending
    | some s =>
      match ← counted c s (exec c [] s) with
      | .normal _ => return ending
      | last => return last
  | .throws e => return .throws (← value (eval c e))
  | .returns e =>
    match e with
    | none => return .returns .undefined
    | some e => return .returns (← value (eval c e))
  | .breaks label => return .breaks none label
  | .continues label => return .continues none label
  | .labelled label body => do
    let inner := if takesLabels body then labels ++ [label] else []
    return Completion.afterLabel label (← counted c body (exec c inner body))
  | .within object body => do
    let o ← toObject (← value (eval c object))
    let c := { c with scope := ← perform (.openScope c.scope (.subject o)) }
    counted c body (exec c [] body)

/-- Runs statements in order; functions have been declared before. The result is the latest value, or the
end of the statement that ended the list. -/
def execList (c : Context) (latest : Option Value) : List Stmt → Proc (Round (Option Value) Completion)
  | [] => return .again latest
  | .function _ _ _ :: rest => execList c latest rest
  | s :: rest => do
    match Completion.afterStatement latest (← counted c s (exec c [] s)) with
    | .done e => return .done e
    | .again latest => execList c latest rest

/-- Gives declared variables their first values. -/
def execDecls (c : Context) : List (Text × Option Expr) → Proc Unit
  | [] => return ()
  | (_, none) :: rest => execDecls c rest
  | (name, some e) :: rest => do
    let v ← value (eval c e)
    initVariable c.scope name v
    execDecls c rest

/-- The position of the first clause whose test has the given value, counted from `i`. -/
def matchClause (c : Context) (v : Value) (i : Nat) : List Clause → Proc (Option Nat)
  | [] => return none
  | .default _ :: rest => matchClause c v (i + 1) rest
  | .case test _ :: rest => do
    if v.identical (← value (eval c test)) then return some i else matchClause c v (i + 1) rest

/-- Runs the statements of the clauses after the first `skip`. -/
def execClauses (c : Context) (latest : Option Value) (skip : Nat) :
    List Clause → Proc (Round (Option Value) Completion)
  | [] => return .again latest
  | .case _ body :: rest =>
    match skip with
    | n + 1 => execClauses c latest n rest
    | 0 => do
      match ← execList c latest body with
      | .done e => return .done e
      | .again latest => execClauses c latest 0 rest
  | .default body :: rest =>
    match skip with
    | n + 1 => execClauses c latest n rest
    | 0 => do
      match ← execList c latest body with
      | .done e => return .done e
      | .again latest => execClauses c latest 0 rest

end

/-- How a statement ends. -/
def statement (c : Context) (labels : List Text) (s : Stmt) : Proc Completion := counted c s (exec c labels s)

/-- Runs statements as a program or body in a scope. -/
def runList (c : Context) (declareIn : FrameId) (body : List Stmt) : Proc Completion := do
  declareVariables declareIn (varNamesOf body)
  declareFunctions c body
  return endOfList (← execList c none body)

/-- The value of a program: that of the last expression statement it executed. -/
def runProgram (scope : FrameId) (runner : RunnerId) (p : Program) : Proc Value := do
  let target ← read (·.varScope scope)
  match ← runList ⟨runner, scope⟩ target p with
  | .normal v => return v.getD .undefined
  | .throws v => throw v
  | .breaks _ _ => fault (.strayJump .breaks)
  | .continues _ _ => fault (.strayJump .continues)
  | .returns _ => fault (.strayJump .returns)

/-- The result of the body of a function. -/
def runBody (scope : FrameId) (runner : RunnerId) (name : Text) (body : List Stmt) : Proc Value := do
  match ← runList ⟨runner, scope⟩ scope body with
  | .normal _ => return .undefined
  | .returns v => return v
  | .throws v => throw v
  | .breaks _ _ => fault (.strayJumpInFunction .breaks name)
  | .continues _ _ => fault (.strayJumpInFunction .continues name)

end ScriptEngine
