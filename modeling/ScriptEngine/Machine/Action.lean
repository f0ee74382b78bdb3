import ScriptEngine.Machine.Fault
import ScriptEngine.Machine.Realm

/-!
# Actions

The changes that a computation can make to the state of an engine. There is a closed list of them, so that
what every computation leaves unchanged can be read off one definition, `Action.perform`: a sealed frame is
never touched, an array's length follows its indexes, and only the count of statements depends on a limit.

## Main definitions

* `State`: the store with the counters and the output of a run.
* `Action`: the changes, each with the type of its answer in `Action.Reply`.
* `Action.enact`: what each action does where there is room for it.
* `Action.perform`: what an action does; one that asks for more room than any host has is refused.
-/

namespace ScriptEngine

/-- The limits of a run; zero stands for no limit on statements and for no trace. -/
structure Limits where
  /-- The greatest number of statements on one counter. -/
  steps : Int := 0
  /-- The greatest number of nested calls. -/
  depth : Int := 500
  /-- The greatest number of nested constructions, for which the host has to have room on its stack. -/
  stack : Nat := 1750
  /-- The number of statements from one trace line to the next. -/
  trace : Int := 0
  deriving Inhabited, DecidableEq

/-- One line of the trace. -/
structure TraceLine where
  /-- The number of statements so far. -/
  executed : Nat
  /-- The number of nested calls. -/
  depth : Nat
  /-- The kind of the statement that comes next. -/
  kind : NodeKind
  deriving Inhabited

/-- A postponed update: whether it has been started, and the value it stands for. -/
structure Postponed where
  /-- Whether the update has been started. -/
  started : Bool := false
  /-- The value before the update, once it is known. -/
  result : Value := .undefined
  deriving Inhabited

/-- The state of an engine. -/
structure State where
  /-- The frames and objects. -/
  store : Store := {}
  /-- The number of nested calls. -/
  depth : Nat := 0
  /-- The statements executed, by counter. -/
  counters : Array Nat := #[]
  /-- The printed lines, the last one first. -/
  printed : List Text := []
  /-- The trace, the last line first. -/
  trace : List TraceLine := []
  /-- How many random numbers have been drawn. -/
  draws : Nat := 0
  /-- The postponed updates. -/
  postponed : Array Postponed := #[]
  deriving Inhabited

namespace State

/-- The statements executed on a counter. -/
def counter (s : State) (runner : RunnerId) : Nat := s.counters.getD runner 0

end State

/-- Counters with one of them set; a counter that is not there yet is added. -/
def setCounter (counters : Array Nat) (runner : RunnerId) (n : Nat) : Array Nat :=
  if runner < counters.size then counters.modify runner fun _ => n
  else (counters ++ Array.replicate (runner - counters.size) 0).push n

/-- The primitive values that objects are made of. -/
inductive Boxed where
  | string (t : Text)
  | number (x : Float)
  | boolean (b : Bool)
  | date (ms : Float)

namespace Boxed

/-- The body of the object for a boxed value. -/
def body : Boxed → Body
  | string t => .string t
  | number x => .number x
  | boolean b => .boolean b
  | date ms => .date ms

/-- The object from which the object for a boxed value inherits. -/
def proto : Boxed → ObjectId
  | string _ => Realm.stringPrototype
  | number _ => Realm.numberPrototype
  | boolean _ => Realm.booleanPrototype
  | date _ => Realm.datePrototype

end Boxed

/-- The changes that a computation can make. -/
inductive Action where
  /-- Binds a key in a frame. -/
  | put (f : FrameId) (k : Key) (v : Value)
  /-- Drops a binding; the answer is whether there was one to drop. -/
  | remove (f : FrameId) (k : Key)
  /-- Sets the length of an array. -/
  | resize (f : FrameId) (n : Nat)
  /-- Replaces the elements of an array. -/
  | refill (f : FrameId) (items : List Value)
  /-- Adds elements at the end of an array. -/
  | append (f : FrameId) (items : List Value)
  /-- Sets the time of a date. -/
  | setTime (o : ObjectId) (ms : Float)
  /-- Opens a scope inside another one. -/
  | openScope (parent : FrameId) (role : Frame.Role)
  /-- Opens the scope of a program. -/
  | openProgram
  /-- Makes an object without properties. -/
  | newObject (proto : Option ObjectId)
  /-- Makes an object for a primitive value. -/
  | newBoxed (b : Boxed)
  /-- Makes an array. -/
  | newArray (proto : Option ObjectId) (items : List Value)
  /-- Makes the list of arguments of a call. -/
  | newArguments (items : List Value) (callee : ObjectId)
  /-- Makes an error. -/
  | newError (kind : ErrorKind) (message : Option Text)
  /-- Makes a pattern. -/
  | newRegExp (source flags : Text)
  /-- Makes a function of a script. -/
  | newClosure (name : Text) (params : List Text) (body : List Stmt) (scope : FrameId) (runner : RunnerId)
      (selfBound : Bool)
  /-- Makes a function with a fixed receiver and first arguments. -/
  | newBound (target : ObjectId) (this : Value) (args : List Value)
  /-- Makes a statement counter. -/
  | newRunner
  /-- Counts a statement of the given kind. -/
  | tick (runner : RunnerId) (kind : NodeKind)
  /-- Prints a line. -/
  | print (line : Text)
  /-- Draws a random number. -/
  | draw
  /-- Starts a postponed update; the answer is its value if it had been started before. -/
  | start (update : Nat)
  /-- Keeps the value of a postponed update. -/
  | settle (update : Nat) (v : Value)

namespace Action

/-- The type of the answer to an action. -/
def Reply : Action → Type
  | put _ _ _ => Unit
  | remove _ _ => Bool
  | resize _ _ => Unit
  | refill _ _ => Unit
  | append _ _ => Unit
  | setTime _ _ => Unit
  | openScope _ _ => FrameId
  | openProgram => FrameId
  | newObject _ => ObjectId
  | newBoxed _ => ObjectId
  | newArray _ _ => ObjectId
  | newArguments _ _ => ObjectId
  | newError _ _ => ObjectId
  | newRegExp _ _ => ObjectId
  | newClosure _ _ _ _ _ _ => ObjectId
  | newBound _ _ _ => ObjectId
  | newRunner => RunnerId
  | tick _ _ => Unit
  | print _ => Unit
  | draw => Float
  | start _ => Option Value
  | settle _ _ => Unit

/-- Changes a frame, unless it is sealed; then the given key is to blame. -/
def changeFrame (s : State) (f : FrameId) (blame : Frame → Key) (g : Frame → Frame) :
    Except Fault Unit × State :=
  let fr := s.store.frame f
  if fr.sealed then (.error (.sealed (blame fr)), s)
  else (.ok (), { s with store := s.store.modifyFrame f g })

/-- Adds to the store. -/
def grow (s : State) (g : Store → Nat × Store) : Except Fault Nat × State :=
  let (id, store) := g s.store
  (.ok id, { s with store })

/-- Counts a statement, traces it, and refuses it past the limit. -/
def count (limits : Limits) (s : State) (runner : RunnerId) (kind : NodeKind) : Except Fault Unit × State :=
  let n := s.counter runner + 1
  let s := { s with counters := setCounter s.counters runner n }
  let s :=
    if limits.trace ≠ 0 ∧ (n : Int) % limits.trace = 0 then
      { s with trace := ⟨n, s.depth, kind⟩ :: s.trace }
    else s
  if limits.steps ≠ 0 ∧ limits.steps < n then (.error (.tooLong n), s) else (.ok (), s)

/-- The room that a change of a frame asks for. What is sealed is not changed, so none is asked for then. -/
def room (s : State) (f : FrameId) (n : Nat) : Nat := if (s.store.frame f).sealed then 0 else n

/-- The number of elements that an action asks room for. -/
def demand (s : State) : Action → Nat
  | put f k _ => room s f ((k.index?.map (· + 1)).getD 0)
  | refill f items => room s f items.length
  | append f items => room s f ((s.store.frame f).length + items.length)
  | newArray _ items => items.length
  | newArguments items _ => items.length
  | _ => 0

/-- What an action that there is room for does to the state, and its answer. -/
def enact (limits : Limits) (s : State) : (a : Action) → Except Fault a.Reply × State
  | put f k v => changeFrame s f (fun _ => k) (·.write k v)
  | remove f k =>
    let fr := s.store.frame f
    if !fr.holds k || (fr.role == .slots && k == Key.length) then (.ok false, s)
    else if fr.sealed then (.error (.sealed k), s)
    else (.ok true, { s with store := s.store.modifyFrame f (·.erase k) })
  | resize f n => changeFrame s f (·.resizeBlame n) (·.resize n)
  | refill f items => changeFrame s f (·.resizeBlame 0) (·.refill items)
  | append f items =>
    if items.isEmpty then (.ok (), s)
    else changeFrame s f (fun fr => .index fr.length) (·.append items)
  | setTime o ms =>
    let change (x : Object) : Object :=
      match x.body with
      | .date _ => { x with body := .date ms }
      | _ => x
    (.ok (), { s with store := s.store.modifyObject o change })
  | openScope parent role => grow s (·.addScope parent role)
  | openProgram => grow s Store.addProgramScope
  | newObject proto => grow s (·.addPlain proto .plain)
  | newBoxed b => grow s (·.addPlain (some b.proto) b.body)
  | newArray proto items => grow s (·.addArray proto items)
  | newArguments items callee => grow s (·.addArguments items callee)
  | newError kind message => grow s (·.addError kind message)
  | newRegExp source flags => grow s (·.addRegExp source flags)
  | newClosure name params body scope runner selfBound =>
    grow s (·.addClosure name params body scope runner selfBound)
  | newBound target this args => grow s (·.addBound target this args)
  | newRunner => (.ok s.counters.size, { s with counters := s.counters.push 0 })
  | tick runner kind => count limits s runner kind
  | print line => (.ok (), { s with printed := line :: s.printed })
  | draw => (.ok (s.store.host.random s.draws), { s with draws := s.draws + 1 })
  | start update =>
    let p := s.postponed.getD update {}
    if p.started then (.ok (some p.result), s)
    else (.ok none, { s with postponed := s.postponed.modify update fun p => { p with started := true } })
  | settle update v =>
    (.ok (), { s with postponed := s.postponed.modify update fun p => { p with result := v } })

/-- What an action does to the state, and its answer. No host has room for more than `mostElements` elements,
so an action that asks for more is refused. -/
def perform (limits : Limits) (s : State) (a : Action) : Except Fault a.Reply × State :=
  if Frame.mostElements < a.demand s then (.error .integerTooLarge, s) else a.enact limits s

end Action

end ScriptEngine
