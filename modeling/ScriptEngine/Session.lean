import ScriptEngine.Engine

/-!
# Sessions

A session is one engine with one scope in which programs run one after another. What they leave behind stays
in the scope, and their statements are counted together. Beside that, a step can run a program elsewhere in
the same engine, register a function of the host, or seal the built-in names.

## Main definitions

* `Session`: an engine with the scope and the counter that its steps share.
* `Session.Step`: what can be done.
* `Session.step`: does it.
-/

namespace ScriptEngine

/-- An engine with a scope and a counter. -/
structure Session where
  engine : Engine
  desk : Engine.Desk
  deriving Inhabited

namespace Session

/-- What can be done in a session. -/
inductive Step where
  /-- Runs a program in the scope of the session. -/
  | run (source : Text)
  /-- Runs a program in a scope of its own. -/
  | fresh (source : Text)
  /-- Runs a program in a new scope inside that of the session. -/
  | nested (source : Text)
  /-- Registers a function of the host. -/
  | register (name : Text) (f : Service)
  /-- Seals or unseals the built-in names. -/
  | restrict (flag : Bool)
  /-- Lists the enumerable names of the scope. -/
  | names

/-- What a step finds. -/
inductive Finding where
  | picture (p : Portrait)
  | names (ns : List Text)
  deriving Inhabited

/-- What happened during a step. -/
structure Minutes where
  /-- How the step ended. -/
  report : Report Finding
  /-- The lines that were printed. -/
  printed : List Text
  /-- The trace. -/
  trace : List TraceLine
  /-- The number of calls that are still going on. -/
  depth : Nat

/-- A session in a new scope of a program. -/
def start (e : Engine) : Session :=
  match e.run Engine.newDesk with
  | (.ok desk, engine) => { engine, desk }
  | (_, engine) => { engine, desk := default }

/-- Registers a function of the host, unless the built-in names are sealed. -/
def register (e : Engine) (name : Text) (f : Service) : Report Portrait × Engine :=
  if (e.store.frame Realm.core).sealed then (.fault (.sealed (.ofText name)), e)
  else
    let (o, s) := Setup.service name f e.store
    (.value (.ofValue s (.obj o)), { e with state := { e.state with store := s } })

/-- Seals or unseals the built-in names and what they lead to. -/
def restrict (e : Engine) (flag : Bool) : Report Portrait × Engine :=
  (.value (.bool flag), { e with state := { e.state with store := e.store.setSealed Realm.core flag } })

/-- The enumerable names of the scope of a session. -/
def scopeNames (s : Session) : List Text :=
  ((s.engine.store.frame s.desk.scope).localKeys true).map Key.text

/-- How a step ends, and the engine afterwards. -/
def perform (s : Session) : Step → Report Finding × Engine
  | .run source => pictured (s.engine.runSource (return s.desk) source)
  | .fresh source => pictured (s.engine.runSource Engine.newDesk source)
  | .nested source => pictured (s.engine.runSource (Engine.innerDesk s.desk) source)
  | .register name f => pictured (register s.engine name f)
  | .restrict flag => pictured (restrict s.engine flag)
  | .names => (.value (.names s.scopeNames), s.engine)
where
  /-- A report with its picture as what was found. -/
  pictured (r : Report Portrait × Engine) : Report Finding × Engine := (r.1.map .picture, r.2)

/-- Does a step. -/
def step (s : Session) (what : Step) : Minutes × Session :=
  let (report, engine) := s.perform what
  let ((printed, trace), engine) := engine.collect
  (⟨report, printed, trace, engine.state.depth⟩, { s with engine })

end Session

end ScriptEngine
