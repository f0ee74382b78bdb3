import ScriptEngine.Builtin.Native
import ScriptEngine.Machine.Run

/-!
# Calls

What calling and constructing do. A call of a function of a script opens a scope inside the scope in which
the function was made, with the receiver, the arguments and the caller in it. Calls are counted while they
are going on, and refused when there are too many of them at the same time. Constructing is not counted as a
call: most of it ends in one, but a function that is made from source text runs that text as it is, and only
the stack of the host bounds how deep such constructions are nested.

## Main definitions

* `callBody`, `constructBody`: what a call and a construction do.
* `answer`: the handler of requests, which keeps count of nested calls and constructions.
* `Proc.runIn`: runs a computation with that handler.
-/

namespace ScriptEngine

open Proc

/-- Opens the scope of a call. -/
def openActivation (function : ObjectId) (name : Text) (params : List Text) (scope : FrameId)
    (selfBound : Bool) (invoker : Option FrameId) (this : Value) (args : List Value) : Proc FrameId := do
  let this ← if this.isNullish then read fun s => s.get (s.globalScope scope) Key.this else pure this
  let arguments ← perform (.newArguments args function)
  let caller ← read fun s => invoker.bind s.enclosingFunction?
  let f ← perform (.openScope scope (.activation function))
  perform (.put f Key.this this)
  perform (.put f Key.arguments (.obj arguments))
  perform (.put f Key.caller ((caller.map Value.obj).getD .null))
  if selfBound && !params.contains name then perform (.put f (.ofText name) (.obj function))
  each (fun (i, p) => perform (.put f (.ofText p) (args.getD i .undefined))) (params.zipIdx.map fun (p, i) => (i, p))
  return f

/-- What a call of a function does. -/
def callBody (function : ObjectId) (invoker : Option FrameId) (this : Value)
    (args : List Value) : Proc Value := do
  match ← body function with
  | .function name (.script params code scope runner selfBound) =>
    let f ← openActivation function name params scope selfBound invoker this args
    runBody f runner name code
  | .function _ (.native n) => n.invoke ⟨invoker, this, args⟩
  | .function _ (.service s) => s.invoke ⟨invoker, this, args⟩
  | .function _ (.bound target this' args') => call target invoker this' (args' ++ args)
  | _ => notCallable invoker (.obj function) []

/-- The object that a function constructs by being called with a new object as its receiver. -/
def constructPlain (function : ObjectId) (invoker : Option FrameId) (args : List Value) : Proc Value := do
  let proto ← read fun s =>
    match s.getProperty function Key.prototype with
    | .obj o => o
    | _ => Realm.objectPrototype
  let o ← perform (.newObject (some proto))
  let _ ← call function invoker (.obj o) args
  return .obj o

/-- What a construction does; a bound function constructs what its target does. -/
def constructBody (function : ObjectId) (invoker : Option FrameId) (args : List Value) : Proc Value := do
  let (function, args) ← read fun s => s.unbound (function + 1) function args
  match ← body function with
  | .function _ (.native n) =>
    match n.construct? ⟨invoker, .undefined, args⟩ with
    | some c => c
    | none => constructPlain function invoker args
  | _ => constructPlain function invoker args

/-- Answers requests. The first bound is that on the rounds of a loop, the second one that on how deep
requests can be nested, and `room` is the number of constructions that still fit on the stack of the host. -/
def answer (limits : Limits) (bound : Nat) : Nat → (room : Nat) → Handler
  | 0, _, _, s => (.unfinished, s)
  | n + 1, room, .call function invoker this args, s =>
    if limits.depth ≤ s.depth then (.fault (.tooDeep limits.depth), s)
    else
      let (outcome, s) :=
        (callBody function invoker this args).run limits bound (answer limits bound n room)
          { s with depth := s.depth + 1 }
      (outcome, { s with depth := s.depth - 1 })
  | n + 1, room, .construct function invoker args, s =>
    match room with
    | 0 => (.fault .stackFull, s)
    | room + 1 => (constructBody function invoker args).run limits bound (answer limits bound n room) s

/-- Runs a computation whose requests are answered; `fuel` bounds the rounds of its loops and how deep its
requests are nested. -/
def Proc.runIn {α : Type} (c : Proc α) (limits : Limits) (fuel : Nat) (s : State) : Outcome α × State :=
  c.run limits fuel (answer limits fuel fuel limits.stack) s

end ScriptEngine
