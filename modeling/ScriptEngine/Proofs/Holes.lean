import ScriptEngine.Eval.Exec
import ScriptEngine.Proofs.Run

/-!
# Statements with a hole

A layer is a statement that lacks one of the statements directly inside it, and layers around each other are a
statement with a hole at any depth, as far as functions are not entered. What stands in a hole need not be
written down: it is anything that can be executed like a statement, which lets two ways to end be compared that
no two statements take in exactly the same state.

## Main definitions

* `Hole`: what can stand in a hole.
* `Layer`: statements that lack one of their parts, with `Layer.fill` for putting a statement there.
* `Layer.wrap`: a layer as what can stand in a hole itself.
* `Hole.within`: layers around each other.
* `Hole.program`, `Hole.body`: programs and bodies of functions with a hole.
* `Proc.Congruence`: relations between computations that are kept by what is built around them.

## Main results

* `Hole.within_of`: with a statement in its hole, layers are executed like the statement that they make up.
* `Hole.program_of`, `Hole.body_of`: the same for programs and bodies of functions.
* `Proc.Congruence.layer`: layers around what is related are related.
-/

namespace ScriptEngine

open Proc (Round perform repeated walk read)

/-- What can stand in a hole: it is counted as a statement of some kind, declares names, and can be executed. -/
structure Hole where
  /-- The kind under which it is counted. -/
  kind : NodeKind
  /-- The names that it declares for the function or program around it. -/
  names : List Text
  /-- How it ends once it has been counted, given the labels directly in front of it. -/
  run : Context → List Text → Proc Completion

namespace Hole

/-- A statement. -/
def of (s : Stmt) : Hole := ⟨s.kind, s.varNames, fun c labels => exec c labels s⟩

/-- Counts what stands in the hole before it is executed. -/
def counted (h : Hole) (c : Context) (labels : List Text) : Proc Completion := do
  perform (.tick c.runner h.kind)
  h.run c labels

/-- Whether labels are passed on to what stands in the hole. -/
def takesLabels (h : Hole) : Bool :=
  match h.kind with
  | .whileStmt => true
  | .doStmt => true
  | .forStmt => true
  | .forInStmt => true
  | .labelStmt => true
  | _ => false

/-- A statement that declares the same names. -/
def standIn (h : Hole) : Stmt := .var (h.names.map fun name => (name, none))

/-- Runs a list of statements with a hole. -/
def inList (h : Hole) (before after : List Stmt) (c : Context) (latest : Option Value) :
    Proc (Round (Option Value) Completion) := do
  match ← execList c latest before with
  | .done e => return .done e
  | .again latest =>
    match Completion.afterStatement latest (← h.counted c []) with
    | .done e => return .done e
    | .again latest => execList c latest after

/-- Runs the statements of clauses with a hole in one of them, after the first `skip` clauses. -/
def inClauses (h : Hole) (earlier : List Clause) (before after : List Stmt) (later : List Clause) (c : Context)
    (skip : Nat) : Proc (Round (Option Value) Completion) := do
  if earlier.length < skip then execClauses c none (skip - earlier.length - 1) later
  else
    match ← execClauses c none skip earlier with
    | .done e => return .done e
    | .again latest =>
      match ← h.inList before after c latest with
      | .done e => return .done e
      | .again latest => execClauses c latest 0 later

end Hole

/-- A clause of a `switch`: the one without a test is the default. -/
def Clause.ofTest (test : Option Expr) (body : List Stmt) : Clause :=
  match test with
  | none => .default body
  | some e => .case e body

/-- A statement that lacks one of the statements directly inside it. -/
inductive Layer where
  | sequence (before after : List Stmt)
  | block (before after : List Stmt)
  | thenBranch (test : Expr) (alternate : Option Stmt)
  | elseBranch (test : Expr) (consequent : Stmt)
  | whileLoop (test : Expr)
  | doLoop (test : Expr)
  | forVar (decls : List (Text × Option Expr)) (test update : Option Expr)
  | forExpr (init test update : Option Expr)
  | forInVar (decls : List (Text × Option Expr)) (object : Expr)
  | forIn (target object : Expr)
  | clause (subject : Expr) (earlier : List Clause) (test : Option Expr) (before after : List Stmt)
      (later : List Clause)
  | tryBody (handler : Option (Text × Stmt)) (finalizer : Option Stmt)
  | catchBody (body : Stmt) (name : Text) (finalizer : Option Stmt)
  | finallyBody (body : Stmt) (handler : Option (Text × Stmt))
  | labelled (label : Text)
  | within (object : Expr)

namespace Layer

/-- The statement that a layer becomes with a statement in its hole. -/
def fill : Layer → Stmt → Stmt
  | sequence before after, s => .sequence (before ++ s :: after)
  | block before after, s => .block (before ++ s :: after)
  | thenBranch test alternate, s => .ifElse test s alternate
  | elseBranch test consequent, s => .ifElse test consequent (some s)
  | whileLoop test, s => .whileLoop test s
  | doLoop test, s => .doLoop s test
  | forVar decls test update, s => .forVar decls test update s
  | forExpr init test update, s => .forExpr init test update s
  | forInVar decls object, s => .forInVar decls object s
  | forIn target object, s => .forIn target object s
  | clause subject earlier test before after later, s =>
    .switch subject (earlier ++ Clause.ofTest test (before ++ s :: after) :: later)
  | tryBody handler finalizer, s => .tryCatch s handler finalizer
  | catchBody body name finalizer, s => .tryCatch body (some (name, s)) finalizer
  | finallyBody body handler, s => .tryCatch body handler (some s)
  | labelled label, s => .labelled label s
  | within object, s => .within object s

/-- The rounds of a `for` loop. -/
def forRounds (h : Hole) (c : Context) (labels : List Text) (test update : Option Expr) : Proc Completion :=
  repeated c.runner h.kind
    (fun latest =>
      match test with
      | none => return .again latest
      | some e => goOn latest (value (eval c e)))
    (fun latest => do
      beforeNext (Completion.afterRound labels latest (← h.run c [])) fun latest =>
        match update with
        | none => return .again latest
        | some e => do
          let _ ← value (eval c e)
          return .again latest)
    none

/-- The rounds of a loop over the keys of an object; `target` is the place that they are assigned to. -/
def keyRounds (h : Hole) (c : Context) (labels : List Text) (target : Proc Place) (object : Value) :
    Proc Completion := do
  if object.isNullish then return .normal none
  else
    let o ← Proc.toObject object
    walk
      (fun k latest => do
        if !(← read (·.hasProperty o k)) then return .again latest
        else
          let p ← target
          let _ ← p.assign (.str k.text)
          return Completion.afterRound labels latest (← h.counted c []))
      Completion.normal (← read (·.loopKeys o)) none

/-- What comes after the body of a `try` statement, which has ended with `first`. -/
def caught (c : Context) (handler : Option (Text × Hole)) (first : Completion) : Proc Completion :=
  match handler with
  | none => return first
  | some (name, h) =>
    match first with
    | .throws v => do
      let c := { c with scope := ← perform (.openScope c.scope .plain) }
      perform (.put c.scope (.ofText name) v)
      return Completion.ofAttempt (← (h.counted c []).attempt)
    | first => return first

/-- The last part of a `try` statement, which has ended with `ending` before. -/
def finished (c : Context) (finalizer : Option Hole) (ending : Completion) : Proc Completion :=
  match finalizer with
  | none => return ending
  | some h => do
    match ← h.counted c [] with
    | .normal _ => return ending
    | last => return last

/-- A `try` statement. -/
def tryAll (c : Context) (body : Hole) (handler : Option (Text × Hole)) (finalizer : Option Hole) :
    Proc Completion := do
  let ending ← caught c handler (Completion.ofAttempt (← (body.counted c []).attempt))
  finished c finalizer ending

/-- A handler in the form of a statement. -/
def handlerOf (handler : Option (Text × Stmt)) : Option (Text × Hole) := handler.map fun (name, s) => (name, .of s)

/-- How a layer ends with something in its hole. -/
def run (h : Hole) (c : Context) (labels : List Text) : Layer → Proc Completion
  | sequence before after => do
    declareFunctions c before
    declareFunctions c after
    return endOfList (← h.inList before after c none)
  | block before after => do
    let c := { c with scope := ← perform (.openScope c.scope .plain) }
    declareFunctions c before
    declareFunctions c after
    return endOfList (← h.inList before after c none)
  | thenBranch test alternate => do
    if (← value (eval c test)).toBoolean then h.counted c []
    else
      match alternate with
      | none => return .normal none
      | some s => counted c s (exec c [] s)
  | elseBranch test consequent => do
    if (← value (eval c test)).toBoolean then counted c consequent (exec c [] consequent)
    else h.counted c []
  | whileLoop test =>
    repeated c.runner h.kind (fun latest => goOn latest (value (eval c test)))
      (fun latest => do return Completion.afterRound labels latest (← h.run c [])) none
  | doLoop test =>
    repeated c.runner h.kind (fun latest => return .again latest)
      (fun latest => do
        beforeNext (Completion.afterRound labels latest (← h.run c []))
          fun latest => goOn latest (value (eval c test)))
      none
  | forVar decls test update => do
    execDecls c decls
    forRounds h c labels test update
  | forExpr init test update => do
    match init with
    | none => pure ()
    | some e =>
      let _ ← value (eval c e)
    forRounds h c labels test update
  | forInVar decls object => do
    execDecls c decls
    keyRounds h c labels (resolveName c.scope (((decls.head?).map (·.1)).getD [])) (← value (eval c object))
  | forIn target object => do keyRounds h c labels (place (eval c target)) (← value (eval c object))
  | clause subject earlier test before after later => do
    -- Which clause is the first to be run does not depend on what the clauses do.
    let clauses := earlier ++ Clause.ofTest test (before ++ after) :: later
    let c := { c with scope := ← perform (.openScope c.scope .plain) }
    let v ← value (eval c subject)
    let start ← match ← matchClause c v 0 clauses with
      | some i => pure (some i)
      | none => pure (defaultPosition? clauses)
    match start with
    | none => return .normal none
    | some i =>
      declareFunctions c ((clauses.drop i).flatMap Clause.body)
      return Completion.afterSwitch (endOfList (← h.inClauses earlier before after later c i))
  | tryBody handler finalizer => tryAll c h (handlerOf handler) (finalizer.map .of)
  | catchBody body name finalizer => tryAll c (.of body) (some (name, h)) (finalizer.map .of)
  | finallyBody body handler => tryAll c (.of body) (handlerOf handler) (some h)
  | labelled label => do
    let inner := if h.takesLabels then labels ++ [label] else []
    return Completion.afterLabel label (← h.counted c inner)
  | within object => do
    let o ← Proc.toObject (← value (eval c object))
    let c := { c with scope := ← perform (.openScope c.scope (.subject o)) }
    h.counted c []

/-- A layer with something in its hole, as what can stand in a hole itself. -/
def wrap (l : Layer) (h : Hole) : Hole :=
  ⟨(l.fill h.standIn).kind, (l.fill h.standIn).varNames, fun c labels => l.run h c labels⟩

end Layer

namespace Hole

/-- Layers around each other, the first one outermost, with something in the innermost hole. -/
def within (layers : List Layer) (h : Hole) : Hole := layers.foldr Layer.wrap h

/-- Runs statements as a program or body, with a hole among them. -/
def wholeList (h : Hole) (before after : List Stmt) (c : Context) (declareIn : FrameId) : Proc Completion := do
  declareVariables declareIn (varNamesOf before ++ h.names ++ varNamesOf after)
  declareFunctions c before
  declareFunctions c after
  return endOfList (← h.inList before after c none)

/-- The value of a program with a hole. -/
def program (h : Hole) (before after : List Stmt) (scope : FrameId) (runner : RunnerId) : Proc Value := do
  let target ← read (·.varScope scope)
  match ← h.wholeList before after ⟨runner, scope⟩ target with
  | .normal v => return v.getD .undefined
  | .throws v => .throw v
  | .breaks _ _ => .fault (.strayJump .breaks)
  | .continues _ _ => .fault (.strayJump .continues)
  | .returns _ => .fault (.strayJump .returns)

/-- The result of the body of a function with a hole. -/
def body (h : Hole) (before after : List Stmt) (scope : FrameId) (runner : RunnerId) (name : Text) :
    Proc Value := do
  match ← h.wholeList before after ⟨runner, scope⟩ scope with
  | .normal _ => return .undefined
  | .returns v => return v
  | .throws v => .throw v
  | .breaks _ _ => .fault (.strayJumpInFunction .breaks name)
  | .continues _ _ => .fault (.strayJumpInFunction .continues name)

end Hole

/-! ## Statements in a hole -/

section Lists

variable {s : Stmt} {c : Context} {latest : Option Value}

/-- A statement that is no declaration of a function is executed where it stands. -/
theorem execList_cons (hs : s.kind ≠ .functionStmt) (rest : List Stmt) : execList c latest (s :: rest) = (do
    match Completion.afterStatement latest (← counted c s (exec c [] s)) with
    | .done e => return .done e
    | .again latest => execList c latest rest) := by
  cases s with
  | function name params body => exact absurd rfl hs
  | _ => rfl

/-- Statements after others are run if these have not ended the list. -/
theorem execList_append (before rest : List Stmt) : execList c latest (before ++ rest) = (do
    match ← execList c latest before with
    | .done e => return .done e
    | .again latest => execList c latest rest) := by
  induction before generalizing latest with
  | nil => rfl
  | cons st before ih =>
      by_cases hst : st.kind = .functionStmt
      · cases st <;> cases hst
        simpa only [List.cons_append, execList] using ih
      · rw [List.cons_append, execList_cons hst, execList_cons hst, bind_assoc]
        refine bind_congr fun e => ?_
        cases Completion.afterStatement latest e with
        | done e => rfl
        | again latest => exact ih

theorem inList_of (hs : s.kind ≠ .functionStmt) (before after : List Stmt) :
    (Hole.of s).inList before after c latest = execList c latest (before ++ s :: after) := by
  rw [execList_append]
  refine bind_congr fun r => ?_
  cases r with
  | done e => rfl
  | again latest => exact (execList_cons hs after).symm

/-- The clauses after one of them are run if the clauses up to it have not ended the list. -/
theorem execClauses_append (earlier : List Clause) (cl : Clause) (later : List Clause) (skip : Nat) :
    execClauses c latest skip (earlier ++ cl :: later) =
      if earlier.length < skip then execClauses c latest (skip - earlier.length - 1) later
      else (do
        match ← execClauses c latest skip earlier with
        | .done e => return .done e
        | .again latest =>
          match ← execList c latest cl.body with
          | .done e => return .done e
          | .again latest => execClauses c latest 0 later) := by
  induction earlier generalizing latest skip with
  | nil =>
      cases skip with
      | zero => cases cl <;> rfl
      | succ n => cases cl <;> rfl
  | cons first earlier ih =>
      cases skip with
      | zero =>
          have hrest (latest : Option Value) : execClauses c latest 0 (earlier ++ cl :: later) = _ := ih 0
          simp only [Nat.not_lt_zero, if_false] at hrest ⊢
          cases first <;> simp only [List.cons_append, execClauses, bind_assoc] <;>
          · refine bind_congr fun r => ?_
            cases r with
            | done e => rfl
            | again latest => exact hrest latest
      | succ n =>
          have hrest : execClauses c latest n (earlier ++ cl :: later) = _ := ih n
          cases first <;>
            simpa only [List.cons_append, execClauses, List.length_cons, Nat.add_lt_add_iff_right,
              Nat.add_sub_add_right] using hrest

/-- Whether a statement declares a function. -/
def Stmt.isFunction (s : Stmt) : Bool := s.kind == .functionStmt

/-- Only declarations of functions matter. -/
theorem declareFunctions_filter (body : List Stmt) :
    declareFunctions c (body.filter Stmt.isFunction) = declareFunctions c body := by
  induction body with
  | nil => rfl
  | cons st rest ih =>
      cases st <;> simp [Stmt.isFunction, Stmt.kind, declareFunctions, ih]

theorem declareFunctions_append (before after : List Stmt) :
    declareFunctions c (before ++ after) = (do
      declareFunctions c before
      declareFunctions c after) := by
  induction before with
  | nil => rfl
  | cons st before ih =>
      cases st with
      | function name params body =>
          simp only [List.cons_append, declareFunctions, bind_assoc, ih]
          rfl
      | _ => exact ih

theorem declareFunctions_around (hs : s.kind ≠ .functionStmt) (before after : List Stmt) :
    declareFunctions c (before ++ s :: after) = (do
      declareFunctions c before
      declareFunctions c after) := by
  have hfilter : (before ++ s :: after).filter Stmt.isFunction = (before ++ after).filter Stmt.isFunction := by
    simp [Stmt.isFunction, hs]
  rw [← declareFunctions_filter, hfilter, declareFunctions_filter, declareFunctions_append]

theorem matchClause_ofTest (v : Value) (i : Nat) (earlier : List Clause) (test : Option Expr)
    (body body' : List Stmt) (later : List Clause) :
    matchClause c v i (earlier ++ Clause.ofTest test body :: later) =
      matchClause c v i (earlier ++ Clause.ofTest test body' :: later) := by
  induction earlier generalizing i with
  | nil => cases test <;> rfl
  | cons first earlier ih => cases first <;> simp only [List.cons_append, matchClause, ih]

theorem defaultPosition?_ofTest (earlier : List Clause) (test : Option Expr) (body body' : List Stmt)
    (later : List Clause) :
    defaultPosition? (earlier ++ Clause.ofTest test body :: later) =
      defaultPosition? (earlier ++ Clause.ofTest test body' :: later) := by
  simp only [defaultPosition?, List.findIdx?_append, List.findIdx?_cons]
  cases test <;> rfl

theorem body_ofTest (test : Option Expr) (body : List Stmt) : (Clause.ofTest test body).body = body := by
  cases test <;> rfl

/-- The functions that the clauses of a `switch` declare are not changed by a statement that declares none. -/
theorem declareFunctions_clauses (hs : s.kind ≠ .functionStmt) (earlier : List Clause) (test : Option Expr)
    (before after : List Stmt) (later : List Clause) (i : Nat) :
    declareFunctions c (((earlier ++ Clause.ofTest test (before ++ s :: after) :: later).drop i).flatMap
        Clause.body) =
      declareFunctions c (((earlier ++ Clause.ofTest test (before ++ after) :: later).drop i).flatMap
        Clause.body) := by
  have hfilter (body : List Stmt) : declareFunctions c
      (((earlier ++ Clause.ofTest test body :: later).drop i).flatMap Clause.body) =
      declareFunctions c (((earlier.map fun cl => cl.body.filter Stmt.isFunction) ++
        body.filter Stmt.isFunction :: later.map fun cl => cl.body.filter Stmt.isFunction).drop i).flatten := by
    rw [← declareFunctions_filter, List.filter_flatMap, List.flatMap_def, List.map_drop]
    simp [body_ofTest]
  rw [hfilter, hfilter]
  simp [Stmt.isFunction, hs]

theorem inClauses_of (hs : s.kind ≠ .functionStmt) (earlier : List Clause) (test : Option Expr)
    (before after : List Stmt) (later : List Clause) (skip : Nat) :
    (Hole.of s).inClauses earlier before after later c skip =
      execClauses c none skip (earlier ++ Clause.ofTest test (before ++ s :: after) :: later) := by
  rw [execClauses_append, body_ofTest]
  simp only [← inList_of hs]
  rfl

end Lists

/-- The handler of a `try` statement with what comes after it. -/
theorem Layer.caught_throws (c : Context) (name : Text) (h : Hole) (v : Value) (rest : Completion → Proc Completion) :
    Layer.caught c (some (name, h)) (.throws v) >>= rest = (do
      let f ← perform (.openScope c.scope .plain)
      perform (.put f (.ofText name) v)
      let e ← (h.counted ⟨c.runner, f⟩ []).attempt
      rest (Completion.ofAttempt e)) :=
  congrArg (Proc.act _) (funext fun (f : FrameId) => congrArg (Proc.act _) (funext fun _ =>
    bind_assoc ((h.counted ⟨c.runner, f⟩ []).attempt) (fun e => return Completion.ofAttempt e) rest))

/-- A `try` statement. -/
theorem tryAll_of (c : Context) (labels : List Text) (body : Stmt) (handler : Option (Text × Stmt))
    (finalizer : Option Stmt) :
    Layer.tryAll c (.of body) (Layer.handlerOf handler) (finalizer.map .of) =
      exec c labels (.tryCatch body handler finalizer) := by
  rw [exec]
  refine bind_congr fun e => ?_
  generalize Completion.ofAttempt e = first
  have hfinished (ending : Completion) : Layer.finished c (finalizer.map .of) ending = (match finalizer with
      | none => return ending
      | some s => do
        match ← counted c s (exec c [] s) with
        | .normal _ => return ending
        | last => return last) := by
    cases finalizer <;> rfl
  cases handler with
  | none => exact hfinished first
  | some handler =>
      obtain ⟨name, s⟩ := handler
      cases first with
      | throws v =>
          refine (Layer.caught_throws c name (.of s) v _).trans ?_
          simp only [hfinished]
          rfl
      | _ => exact hfinished _

namespace Layer

variable {s : Stmt}

/-- With a statement in its hole, a layer is executed like the statement that it becomes. -/
theorem run_of (hs : s.kind ≠ .functionStmt) (l : Layer) (c : Context) (labels : List Text) :
    l.run (.of s) c labels = exec c labels (l.fill s) := by
  cases l with
  | sequence before after =>
      rw [run, fill, exec, declareFunctions_around hs, bind_assoc, inList_of hs]
  | block before after =>
      rw [run, fill, exec]
      refine bind_congr fun (f : FrameId) => ?_
      dsimp only
      rw [declareFunctions_around hs, bind_assoc, inList_of hs]
  | thenBranch test alternate =>
      cases alternate <;> rw [run, fill, exec] <;> rfl
  | elseBranch test consequent =>
      rw [run, fill, exec]
      rfl
  | whileLoop test =>
      rw [run, fill, exec]
      rfl
  | doLoop test =>
      rw [run, fill, exec]
      rfl
  | forVar decls test update =>
      rw [run, fill, exec]
      rfl
  | forExpr init test update =>
      cases init <;> rw [run, fill, exec] <;> rfl
  | forInVar decls object =>
      rw [run, fill, exec]
      rfl
  | forIn target object =>
      rw [run, fill, exec]
      rfl
  | clause subject earlier test before after later =>
      rw [run, fill]
      simp only [inClauses_of hs earlier test before after later,
        matchClause_ofTest _ _ earlier test (before ++ after) (before ++ s :: after) later,
        defaultPosition?_ofTest earlier test (before ++ after) (before ++ s :: after) later,
        ← declareFunctions_clauses hs earlier test before after later]
      rfl
  | tryBody handler finalizer => exact tryAll_of c labels s handler finalizer
  | catchBody body name finalizer => exact tryAll_of c labels body (some (name, s)) finalizer
  | finallyBody body handler => exact tryAll_of c labels body handler (some s)
  | labelled label =>
      rw [run, fill, exec]
      rfl
  | within object =>
      rw [run, fill, exec]
      rfl

/-- What kind of statement a layer becomes does not depend on what is in its hole. -/
theorem kind_fill (l : Layer) (s t : Stmt) : (l.fill s).kind = (l.fill t).kind := by cases l <;> rfl

theorem kind_fill_ne (l : Layer) (s : Stmt) : (l.fill s).kind ≠ .functionStmt := by cases l <;> simp [fill, Stmt.kind]

end Layer

theorem varNamesOf_append (before after : List Stmt) :
    varNamesOf (before ++ after) = varNamesOf before ++ varNamesOf after := by
  induction before with
  | nil => rfl
  | cons s before ih => simp [varNamesOf, ih]

theorem clauseVarNames_append (earlier later : List Clause) :
    clauseVarNames (earlier ++ later) = clauseVarNames earlier ++ clauseVarNames later := by
  induction earlier with
  | nil => rfl
  | cons cl earlier ih => cases cl <;> simp [clauseVarNames, ih]

theorem clauseVarNames_ofTest (test : Option Expr) (body : List Stmt) (later : List Clause) :
    clauseVarNames (Clause.ofTest test body :: later) = varNamesOf body ++ clauseVarNames later := by
  cases test <;> rfl

namespace Layer

/-- The names that a layer declares depend only on those that are declared in its hole. -/
theorem varNames_fill (l : Layer) {s t : Stmt} (h : s.varNames = t.varNames) :
    (l.fill s).varNames = (l.fill t).varNames := by
  cases l with
  | thenBranch test alternate => cases alternate <;> simp [fill, Stmt.varNames, h]
  | tryBody handler finalizer =>
      cases handler <;> cases finalizer <;> simp [fill, Stmt.varNames, h]
  | catchBody body name finalizer => cases finalizer <;> simp [fill, Stmt.varNames, h]
  | finallyBody body handler => cases handler <;> simp [fill, Stmt.varNames, h]
  | _ =>
      simp only [fill, Stmt.varNames, varNamesOf_append, varNamesOf, clauseVarNames_append,
        clauseVarNames_ofTest, h]

theorem wrap_of (l : Layer) {s : Stmt} (hs : s.kind ≠ .functionStmt) : l.wrap (.of s) = .of (l.fill s) := by
  have hnames : (Hole.of s).standIn.varNames = s.varNames := by
    simp [Hole.standIn, Hole.of, Stmt.varNames, Function.comp_def]
  simp only [wrap, Hole.of, Hole.mk.injEq]
  exact ⟨l.kind_fill _ s, l.varNames_fill hnames, funext fun c => funext fun labels => run_of hs l c labels⟩

end Layer

namespace Hole

/-- With a statement in their hole, layers are executed like the statement that they make up. -/
theorem within_of (layers : List Layer) {s : Stmt} (hs : s.kind ≠ .functionStmt) :
    (Hole.of s).within layers = .of (layers.foldr Layer.fill s) ∧
      (layers.foldr Layer.fill s).kind ≠ .functionStmt := by
  induction layers with
  | nil => exact ⟨rfl, hs⟩
  | cons l layers ih =>
      refine ⟨?_, l.kind_fill_ne _⟩
      rw [within, List.foldr_cons, List.foldr_cons, ← l.wrap_of ih.2, ← ih.1]
      rfl

theorem wholeList_of {s : Stmt} (hs : s.kind ≠ .functionStmt) (before after : List Stmt) (c : Context)
    (declareIn : FrameId) : (Hole.of s).wholeList before after c declareIn =
      runList c declareIn (before ++ s :: after) := by
  rw [runList, wholeList, declareFunctions_around hs, inList_of hs]
  simp [varNamesOf_append, varNamesOf, of]

/-- A program with a statement in its hole. -/
theorem program_of {s : Stmt} (hs : s.kind ≠ .functionStmt) (before after : List Stmt) (scope : FrameId)
    (runner : RunnerId) :
    (Hole.of s).program before after scope runner = runProgram scope runner (before ++ s :: after) := by
  refine bind_congr fun target => ?_
  exact wholeList_of hs before after ⟨runner, scope⟩ target ▸ rfl

/-- The body of a function with a statement in its hole. -/
theorem body_of {s : Stmt} (hs : s.kind ≠ .functionStmt) (before after : List Stmt) (scope : FrameId)
    (runner : RunnerId) (name : Text) :
    (Hole.of s).body before after scope runner name = runBody scope runner name (before ++ s :: after) := by
  rw [body, wholeList_of hs]
  rfl

end Hole

/-! ## Relations that layers keep -/

/-- A relation between computations in a scope that is kept by all that layers do. A value that a layer hands on can
be the result of a computation: `thrown v` stands for the thrown value `v`. -/
structure Proc.Congruence (R : FrameId → {α : Type} → (thrown : Value → α) → Proc α → Proc α → Prop) : Prop where
  refl {α : Type} (g : FrameId) (i : Value → α) (p : Proc α) : R g i p p
  after {α β : Type} {g : FrameId} {j : Value → β} (p : Proc α) {k k' : α → Proc β} (hk : ∀ a, R g j (k a) (k' a)) :
    R g j (p >>= k) (p >>= k')
  /-- After related computations, what hands on thrown values. -/
  bind {α β : Type} {g : FrameId} {i : Value → α} {j : Value → β} {p q : Proc α} {k k' : α → Proc β}
    (h : R g i p q) (hthrown : ∀ v, k (i v) = pure (j v)) (hk : ∀ a, R g j (k a) (k' a)) :
    R g j (p >>= k) (q >>= k')
  /-- After related computations, what does not tell the two forms of a thrown value from each other. -/
  attempt {β : Type} {g : FrameId} {j : Value → β} {p q : Proc Completion} (h : R g .throws p q)
    (k : Completion → Proc β) :
    R g j (p.attempt >>= fun e => k (.ofAttempt e)) (q.attempt >>= fun e => k (.ofAttempt e))
  /-- In a new scope inside the one at hand. -/
  opened {β : Type} {g : FrameId} {j : Value → β} {role : Frame.Role} {k k' : FrameId → Proc β}
    (hk : ∀ f, R f j (k f) (k' f)) : R g j (perform (.openScope g role) >>= k) (perform (.openScope g role) >>= k')
  repeated {σ β : Type} {g : FrameId} {j : Value → β} {runner : RunnerId} {kind : NodeKind}
    {test body body' : σ → Proc (Round σ β)} (h : ∀ x, R g (fun v => .done (j v)) (body x) (body' x)) (x : σ) :
    R g j (Proc.repeated runner kind test body x) (Proc.repeated runner kind test body' x)

namespace Proc.Congruence

variable {R : FrameId → {α : Type} → (Value → α) → Proc α → Proc α → Prop} (hR : Congruence R)
include hR

section

variable {α β σ ι : Type} {g : FrameId} {i : Value → α} {j : Value → β} {p q : Proc α}

theorem next {k : α → Proc β} (h : R g i p q) (hthrown : ∀ v, k (i v) = pure (j v)) : R g j (p >>= k) (q >>= k) :=
  hR.bind h hthrown fun _ => hR.refl _ _ _

omit hR in
theorem ite {b : Prop} [Decidable b] {p' q' : Proc α} (h : R g i p q) (h' : R g i p' q') :
    R g i (if b then p else p') (if b then q else q') := by
  split
  · exact h
  · exact h'

/-- Walks through a list with related rounds. -/
theorem walk {round round' : ι → σ → Proc (Round σ β)} {finish : σ → β}
    (h : ∀ a x, R g (fun v => .done (j v)) (round a x) (round' a x)) (as : List ι) (x : σ) :
    R g j (Proc.walk round finish as x) (Proc.walk round' finish as x) := by
  induction as generalizing x with
  | nil => exact hR.refl _ _ _
  | cons a as ih =>
      refine hR.bind (h a x) (fun _ => rfl) fun r => ?_
      cases r with
      | again x => exact ih x
      | done b => exact hR.refl _ _ _

end

variable {h h' : Hole} (hkind : h'.kind = h.kind)
  (hrun : ∀ c labels, R c.scope .throws (h.run c labels) (h'.run c labels))
include hkind hrun

theorem counted (c : Context) (labels : List Text) :
    R c.scope .throws (h.counted c labels) (h'.counted c labels) := by
  rw [Hole.counted, Hole.counted, hkind]
  exact hR.after _ fun _ => hrun c labels

theorem inList (before after : List Stmt) (c : Context) (latest : Option Value) :
    R c.scope (fun v => .done (.throws v)) (h.inList before after c latest) (h'.inList before after c latest) := by
  refine hR.after _ fun r => ?_
  cases r with
  | done e => exact hR.refl _ _ _
  | again latest => exact hR.next (hR.counted hkind hrun c []) fun _ => rfl

theorem inClauses (earlier : List Clause) (before after : List Stmt) (later : List Clause) (c : Context)
    (skip : Nat) : R c.scope (fun v => .done (.throws v)) (h.inClauses earlier before after later c skip)
      (h'.inClauses earlier before after later c skip) := by
  refine ite (hR.refl _ _ _) (hR.after _ fun r => ?_)
  cases r with
  | done e => exact hR.refl _ _ _
  | again latest => exact hR.next (hR.inList hkind hrun before after c latest) fun _ => rfl

theorem forRounds (c : Context) (labels : List Text) (test update : Option Expr) :
    R c.scope .throws (Layer.forRounds h c labels test update) (Layer.forRounds h' c labels test update) := by
  rw [Layer.forRounds, Layer.forRounds, hkind]
  exact hR.repeated (fun latest => hR.next (hrun c []) fun _ => rfl) none

theorem keyRounds (c : Context) (labels : List Text) (target : Proc Place) (object : Value) :
    R c.scope .throws (Layer.keyRounds h c labels target object) (Layer.keyRounds h' c labels target object) := by
  refine ite (hR.refl _ _ _) (hR.after _ fun o => hR.after _ fun keys => hR.walk (fun k latest => ?_) _ _)
  refine hR.after _ fun here => ite (hR.refl _ _ _) (hR.after _ fun p => hR.after _ fun _ => ?_)
  exact hR.next (hR.counted hkind hrun c []) fun _ => rfl

/-- A `try` statement with a hole for its body. -/
theorem tryBody (c : Context) (handler : Option (Text × Hole)) (finalizer : Option Hole) :
    R c.scope .throws (Layer.tryAll c h handler finalizer) (Layer.tryAll c h' handler finalizer) :=
  hR.attempt (hR.counted hkind hrun c []) fun first => Layer.caught c handler first >>= Layer.finished c finalizer

/-- A `try` statement with a hole for its handler. -/
theorem catchBody (c : Context) (body : Hole) (name : Text) (finalizer : Option Hole) :
    R c.scope .throws (Layer.tryAll c body (some (name, h)) finalizer)
      (Layer.tryAll c body (some (name, h')) finalizer) := by
  refine hR.after _ fun e => ?_
  generalize Completion.ofAttempt e = first
  cases first with
  | throws v =>
      rw [Layer.caught_throws, Layer.caught_throws]
      exact hR.opened fun f => hR.after _ fun _ =>
        hR.attempt (hR.counted hkind hrun ⟨c.runner, f⟩ []) (Layer.finished c finalizer)
  | _ => exact hR.refl _ _ _

/-- A `try` statement with a hole for its last part. -/
theorem finallyBody (c : Context) (body : Hole) (handler : Option (Text × Hole)) :
    R c.scope .throws (Layer.tryAll c body handler (some h)) (Layer.tryAll c body handler (some h')) :=
  hR.after _ fun _ => hR.after _ fun _ => hR.next (hR.counted hkind hrun c []) fun _ => rfl

/-- Layers keep the relation between what is in their holes. -/
theorem layer (l : Layer) (c : Context) (labels : List Text) :
    R c.scope .throws (l.run h c labels) (l.run h' c labels) := by
  have hcounted := hR.counted hkind hrun
  have hinList := hR.inList hkind hrun
  have hforRounds := hR.forRounds hkind hrun c labels
  have hkeyRounds := hR.keyRounds hkind hrun c labels
  cases l with
  | sequence before after =>
      exact hR.after _ fun _ => hR.after _ fun _ => hR.next (hinList before after c none) fun _ => rfl
  | block before after =>
      exact hR.opened fun f => hR.after _ fun _ => hR.after _ fun _ =>
        hR.next (hinList before after ⟨c.runner, f⟩ none) fun _ => rfl
  | thenBranch test alternate => exact hR.after _ fun _ => ite (hcounted c []) (hR.refl _ _ _)
  | elseBranch test consequent => exact hR.after _ fun _ => ite (hR.refl _ _ _) (hcounted c [])
  | whileLoop test =>
      rw [Layer.run, Layer.run, hkind]
      exact hR.repeated (fun latest => hR.next (hrun c []) fun _ => rfl) none
  | doLoop test =>
      rw [Layer.run, Layer.run, hkind]
      exact hR.repeated (fun latest => hR.next (hrun c []) fun _ => rfl) none
  | forVar decls test update => exact hR.after _ fun _ => hforRounds test update
  | forExpr init test update =>
      cases init with
      | none => exact hforRounds test update
      | some e => exact hR.after _ fun _ => hforRounds test update
  | forInVar decls object => exact hR.after _ fun _ => hR.after _ fun v => hkeyRounds _ v
  | forIn target object => exact hR.after _ fun v => hkeyRounds _ v
  | clause subject earlier test before after later =>
      refine hR.opened fun f => hR.after _ fun v => hR.after _ fun found => ?_
      cases found <;>
      · refine hR.after _ fun start => ?_
        cases start with
        | none => exact hR.refl _ _ _
        | some n =>
            have hclauses := hR.inClauses hkind hrun earlier before after later ⟨c.runner, f⟩ n
            exact hR.after _ fun _ => hR.next hclauses fun _ => rfl
  | tryBody handler finalizer => exact hR.tryBody hkind hrun c _ _
  | catchBody body name finalizer => exact hR.catchBody hkind hrun c _ name _
  | finallyBody body handler => exact hR.finallyBody hkind hrun c _ _
  | labelled label =>
      have htakes : h'.takesLabels = h.takesLabels := by rw [Hole.takesLabels, hkind, Hole.takesLabels]
      rw [Layer.run, Layer.run, htakes]
      exact hR.next (hcounted c _) fun _ => rfl
  | within object => exact hR.after _ fun v => hR.after _ fun o => hR.opened fun f => hcounted ⟨c.runner, f⟩ []

end Proc.Congruence

end ScriptEngine
