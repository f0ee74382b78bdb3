import ScriptEngine.Builtin.Setup
import ScriptEngine.Eval.Call
import ScriptEngine.Heap.Portrait
import ScriptEngine.Settings

/-!
# Engines

An engine is a state with limits: the built-in names, everything that programs have left in the store, and
the counters. Work for the host is a computation that the engine runs; the host is told how it ended, in
terms that stay valid when the engine goes on.

## Main definitions

* `Engine`: a state with limits.
* `Engine.new`: an engine with the built-in names and services of the host.
* `Report`: how a piece of work ended.
* `Engine.perform`, `Engine.runSource`: running computations and programs.
-/

namespace ScriptEngine

/-- A state with limits. -/
structure Engine where
  /-- The limits of its runs. -/
  limits : Limits := {}
  /-- What earlier runs have left. -/
  state : State := {}
  /-- The bound on nested requests and on the rounds of a loop, out of reach in practice. -/
  fuel : Nat := 1000000000000000000
  deriving Inhabited

/-- How a piece of work for the host ended. -/
inductive Report (α : Type) where
  /-- With a result. -/
  | value (a : α)
  /-- The source text is no program. -/
  | malformed (message : Text)
  /-- With a thrown value, pictured before its text was taken; there is none if taking it failed. -/
  | thrown (v : Portrait) (text : Option Text)
  /-- With a fault. -/
  | fault (f : Fault)
  /-- Not at all within the bounds of the engine. -/
  | unfinished
  deriving Inhabited

/-- A report with its result changed. -/
def Report.map (f : α → β) : Report α → Report β
  | value a => value (f a)
  | malformed m => malformed m
  | thrown v t => thrown v t
  | fault e => fault e
  | unfinished => unfinished

namespace Engine

open Proc

/-- The frames and objects of an engine. -/
def store (e : Engine) : Store := e.state.store

/-- An engine with the built-in names, and services of the host under names of their own. -/
def new (settings : Settings) (host : Host) (services : List (Text × Service)) : Engine :=
  let s := services.foldl (fun s (name, f) => (Setup.service name f s).2) (Store.initial host)
  let s := if settings.readOnlyCore then s.setSealed Realm.core true else s
  { limits := settings.limits, state := { store := s } }

/-- Runs a computation. -/
def run (e : Engine) (c : Proc α) : Outcome α × Engine :=
  let (outcome, state) := c.runIn e.limits e.fuel e.state
  (outcome, { e with state })

/-- The message for a thrown value that nobody caught. -/
def uncaught (v : Value) : Proc Text := do return "Uncaught " ++ (← toText v)

/-- Runs a computation and reports on it; `view` says what the host sees of the result. -/
def perform (e : Engine) (c : Proc α) (view : Store → α → β) : Report β × Engine :=
  match e.run c with
  | (.ok a, e) => (.value (view e.store a), e)
  | (.fault f, e) => (.fault f, e)
  | (.unfinished, e) => (.unfinished, e)
  | (.thrown v, e) =>
    let picture := Portrait.ofValue e.store v
    match e.run (uncaught v) with
    | (.ok t, e) => (.thrown picture (some t), e)
    | (_, e) => (.thrown picture none, e)

/-- Runs a computation and reports on it with a picture of its result. -/
def performValue (e : Engine) (c : Proc Value) : Report Portrait × Engine := e.perform c Portrait.ofValue

/-- A scope, and a counter for what runs in it. -/
structure Desk where
  scope : FrameId
  runner : RunnerId
  deriving Inhabited

/-- A new scope of a program with a new counter. -/
def newDesk : Proc Desk := do
  let scope ← Proc.perform .openProgram
  return ⟨scope, ← Proc.perform .newRunner⟩

/-- A new scope inside another one, with a new counter. -/
def innerDesk (d : Desk) : Proc Desk := do
  let scope ← Proc.perform (.openScope d.scope .plain)
  return ⟨scope, ← Proc.perform .newRunner⟩

/-- Runs a tree at a desk. A tree that is no program is a fault. -/
def runTree (desk : Proc Desk) (n : Node) : Proc Value := do
  let d ← desk
  match Program.ofNode? n with
  | some p => runProgram d.scope d.runner p
  | none => fault .malformedTree

/-- Runs source text at a desk. -/
def runSource (e : Engine) (desk : Proc Desk) (source : Text) : Report Portrait × Engine :=
  match parse source with
  | .error (.malformed message) => (.malformed message, e)
  | .error (.literal f) => (.fault (.literal f), e)
  | .ok n => e.performValue (runTree desk n)

/-- What an engine has printed and traced since this was asked last, in order. -/
def collect (e : Engine) : (List Text × List TraceLine) × Engine :=
  ((e.state.printed.reverse, e.state.trace.reverse), { e with state := { e.state with printed := [], trace := [] } })

end Engine

/-- A line of the trace as it is shown. -/
def TraceLine.text (l : TraceLine) : Text :=
  "[trace] executed=" ++ Text.ofNat l.executed ++ " depth=" ++ Text.ofNat l.depth ++ " node=" ++
    Text.ofString l.kind.label

end ScriptEngine
