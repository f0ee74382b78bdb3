import ScriptEngine.Builtin.Invocation
import ScriptEngine.Eval.Exec
import ScriptEngine.Grammar.Parser

/-!
# Functions around functions, and source text at run time

Functions can be called with an explicit receiver, bound to one, and made from source text. Source text can
also be run in the scope of the caller. Text that is no program is an ordinary error of the script; a
literal that denotes no value is a fault.

## Main definitions

* `counterFor`: a statement counter for a scope.
* `runSource`: runs source text.
* `functionSource`: the program whose value is a function with given parameters and body.
* `FunctionFn.invoke`: what a function around functions does.
-/

namespace ScriptEngine

open Proc

/-- A counter for programs in a scope, which has to see the built-in names. -/
def counterFor (scope : FrameId) : Proc RunnerId := do
  if ← read (·.isAttached scope) then perform .newRunner else fault .detachedScope

/-- Runs source text in a scope, on a counter of its own. The scope is made only for text that is a
program. -/
def runSource (source : Text) (scope : Proc FrameId) : Proc Value := do
  match parse source with
  | .error (.malformed message) => raise .syntaxError message
  | .error (.literal e) => fault (.literal e)
  | .ok node =>
    let scope ← scope
    let runner ← counterFor scope
    match Program.ofNode? node with
    | some p => runProgram scope runner p
    | none => fault .malformedTree

/-- Runs source text in the scope of the caller, or in the scope of a new program. A value that is no text
is its own result. -/
def evalSource (i : Invocation) : Proc Value :=
  match i.arg 0 with
  | .str source =>
    runSource source <| match i.invoker with
      | some f => return f
      | none => perform .openProgram
  | v => return v

/-- The program whose value is a function with the given parameters and body. -/
def functionSource (params : List Text) (body : Text) : Text :=
  "(function anonymous(" ++ Text.joinWith ", " params ++ ") \x7b\n" ++ body ++ "\n\x7d)"

/-- Makes a function from texts, the last of which is its body; it sees the scope of the program only. -/
def functionFromTexts (i : Invocation) : Proc Value := do
  let params ← Proc.map toText i.args.dropLast
  let body ← match i.args.getLast? with
    | some v => toText v
    | none => pure []
  runSource (functionSource params body) <| match i.invoker with
    | some f => read (·.globalScope f)
    | none => perform .openProgram

namespace FunctionFn

/-- The receiver, which has to be a function; `what` names the method. -/
def target (what : String) (this : Value) : Proc ObjectId := do
  match ← callable? this with
  | some f => return f
  | none => typeError ("Function.prototype." ++ Text.ofString what ++ " called on a non-function")

/-- What a function around functions does. -/
def invoke (f : FunctionFn) (i : Invocation) : Proc Value := do
  match f with
  | blank => return .undefined
  | construct => functionFromTexts i
  | call =>
    let f ← target "call" i.this
    Proc.call f i.invoker (i.arg 0) i.args.tail
  | apply =>
    let f ← target "apply" i.this
    Proc.call f i.invoker (i.arg 0) (← listFrom (i.arg 1))
  | bind =>
    let f ← target "bind" i.this
    return .obj (← perform (.newBound f (i.arg 0) i.args.tail))
  | toText =>
    let f ← target "toString" i.this
    return .str (← body f).functionText

end FunctionFn

end ScriptEngine
