import ScriptEngine.Machine.Action

/-!
# Computations

A computation is a tree of what it wants to do next: look at the store, perform an action, ask for a
function to be called, or repeat something. Its leaves are a result, a thrown value, or a fault. A thrown
value is an ordinary leaf, so catching it is a function on trees; a fault is a leaf that no function on
trees replaces. A loop has no way to go round without counting a statement.

Running a computation needs someone who performs actions and answers requests; the tree itself knows
neither the limits of the run nor how deep its calls are nested.

## Main definitions

* `Request`: a call or a construction.
* `Proc`: computations, a monad.
* `Proc.attempt`: a computation with its thrown value caught.
* `Proc.repeated`: repetition.
-/

namespace ScriptEngine

/-- What a computation asks others to do. -/
inductive Request where
  /-- Calls a function. -/
  | call (function : ObjectId) (invoker : Option FrameId) (this : Value) (args : List Value)
  /-- Constructs an object with a function. -/
  | construct (function : ObjectId) (invoker : Option FrameId) (args : List Value)

/-- One round of a loop ends it, or leads to the next. -/
inductive Proc.Round (σ β : Type) where
  | again (s : σ)
  | done (b : β)

/-- A computation with a result of a given type. -/
inductive Proc : Type → Type 1 where
  /-- Ends with a result. -/
  | ret {α : Type} (a : α) : Proc α
  /-- Ends with a thrown value. -/
  | throw {α : Type} (v : Value) : Proc α
  /-- Ends with a fault. -/
  | fault {α : Type} (f : Fault) : Proc α
  /-- Looks at the store. -/
  | look {α : Type} (k : Store → Proc α) : Proc α
  /-- Performs an action. -/
  | act {α : Type} (a : Action) (k : a.Reply → Proc α) : Proc α
  /-- Asks for a call; the answer is the returned or the thrown value. -/
  | ask {α : Type} (r : Request) (k : Except Value Value → Proc α) : Proc α
  /-- Repeats rounds from the state `s` on. A round is a test and a body, each of which can end the loop;
  between them a statement of the given kind is counted. -/
  | loop {α σ β : Type} (runner : RunnerId) (kind : NodeKind) (test body : σ → Proc (Proc.Round σ β)) (s : σ)
      (k : β → Proc α) : Proc α

namespace Proc

/-- One computation after another. -/
def bind : Proc α → (α → Proc β) → Proc β
  | ret a, f => f a
  | throw v, _ => throw v
  | fault e, _ => fault e
  | look k, f => look fun s => bind (k s) f
  | act a k, f => act a fun r => bind (k r) f
  | ask r k, f => ask r fun v => bind (k v) f
  | loop r kind test body s k, f => loop r kind test body s fun b => bind (k b) f

instance : Monad Proc where
  pure := ret
  bind := bind

/-- The round of a loop that a thrown value ends. -/
def Round.caught : Except Value (Round σ β) → Round σ (Except Value β)
  | .ok (.again s) => .again s
  | .ok (.done b) => .done (.ok b)
  | .error v => .done (.error v)

/-- The computation with its thrown value caught. -/
def attempt : Proc α → Proc (Except Value α)
  | ret a => ret (.ok a)
  | throw v => ret (.error v)
  | fault e => fault e
  | look k => look fun s => attempt (k s)
  | act a k => act a fun r => attempt (k r)
  | ask r k => ask r fun v => attempt (k v)
  | loop r kind test body s k =>
    loop r kind (fun s => (attempt (test s)).bind fun e => ret (Round.caught e))
      (fun s => (attempt (body s)).bind fun e => ret (Round.caught e)) s fun
      | .ok b => attempt (k b)
      | .error v => ret (.error v)

/-- What a function of the store says. -/
def read (f : Store → α) : Proc α := look fun s => ret (f s)

/-- Performs an action. -/
def perform (a : Action) : Proc a.Reply := act a ret

/-- Asks for a call or a construction; a thrown value goes on being thrown. -/
def request (r : Request) : Proc Value :=
  ask r fun
    | .ok v => ret v
    | .error v => throw v

/-- Calls a function. -/
def call (function : ObjectId) (invoker : Option FrameId) (this : Value) (args : List Value) : Proc Value :=
  request (.call function invoker this args)

/-- Repeats rounds; between the test and the body of each a statement is counted. -/
def repeated (runner : RunnerId) (kind : NodeKind) (test body : σ → Proc (Round σ β)) (s : σ) : Proc β :=
  loop runner kind test body s ret

/-- Goes through a list with a state; a round can end the walk early. -/
def walk (round : α → σ → Proc (Round σ β)) (finish : σ → β) : List α → σ → Proc β
  | [], s => return finish s
  | a :: rest, s => do
    match ← round a s with
    | .again s => walk round finish rest s
    | .done b => return b

/-- Does something for each element of a list, in order, and collects the results backwards in `acc`. -/
def mapLoop (f : α → Proc β) (acc : List β) : List α → Proc (List β)
  | [] => return acc.reverse
  | a :: rest => do
    let b ← f a
    mapLoop f (b :: acc) rest

/-- Does something for each element of a list, in order. -/
def map (f : α → Proc β) (as : List α) : Proc (List β) := mapLoop f [] as

/-- Does something for each element of a list, in order, for its effects only. -/
def each (f : α → Proc Unit) : List α → Proc Unit
  | [] => return ()
  | a :: rest => do
    f a
    each f rest

/-- Throws an error of the given family. -/
def raise (kind : ErrorKind) (message : Text) : Proc α := do
  let e ← perform (.newError kind (some message))
  throw (.obj e)

/-- Throws a type error. -/
def typeError (message : Text) : Proc α := raise .typeError message

/-- Throws a range error. -/
def rangeError (message : Text) : Proc α := raise .rangeError message

/-! ## Common reads and actions -/

/-- The body of an object. -/
def body (o : ObjectId) : Proc Body := read (·.body o)

/-- The function that a value is, if it can be called. -/
def callable? (v : Value) : Proc (Option ObjectId) := read fun s =>
  match v with
  | .obj o => if (s.body o).isCallable then some o else none
  | _ => none

/-- A new array that inherits from the array prototype. -/
def newArray (items : List Value) : Proc Value := do
  return .obj (← perform (.newArray (some Realm.arrayPrototype) items))

/-- A new object without properties. -/
def newObject : Proc ObjectId := perform (.newObject (some Realm.objectPrototype))

end Proc

end ScriptEngine
