import ScriptEngine.Engine

/-!
# The bench

On a bench a host builds scopes, objects and places by hand, keeps them under names, and tries on them what
programs do only in passing. A place or a postponed addition among them is fetched when its value is needed;
where it is stored as it is, a frame of its own stands in for it.

## Main definitions

* `Piece`: what is kept on a bench.
* `Bench`: an engine with pieces.
* `Bench.perform`: does some work and reports on it.
* `Bench.define`, `Bench.hide`, `Bench.restrict`: changes that no program makes.
-/

namespace ScriptEngine

/-- What is kept on a bench. -/
inductive Piece where
  /-- A value; scopes and objects are values too. -/
  | value (v : Value)
  /-- A place, and its stand-in. -/
  | place (p : Place) (standIn : FrameId)
  /-- A postponed addition to a place, and its stand-in. -/
  | postponed (p : Place) (delta : Float) (update : Nat) (standIn : FrameId)
  deriving Inhabited

namespace Piece

/-- The value of a piece as it is stored. -/
def raw : Piece → Value
  | value v => v
  | place _ f => .frame f
  | postponed _ _ _ f => .frame f

/-- The value of a piece as it is used. -/
def operand : Piece → Operator.Operand
  | value v => return v
  | place p _ => p.get
  | postponed p delta update _ => p.postponedIncrement delta update

/-- The scope or object that a piece is. -/
def container? : Piece → Option Container
  | value (.frame f) => some (.scope f)
  | value (.obj o) => some (.object o)
  | _ => none

end Piece

/-- What the host sees of a result. -/
inductive Exhibit where
  | picture (p : Portrait)
  /-- The stand-in of a place. -/
  | place
  /-- The stand-in of a postponed addition. -/
  | postponed
  | list (es : List Exhibit)
  deriving Inhabited

/-- An engine with pieces. -/
structure Bench where
  engine : Engine
  /-- The pieces by name, the first one kept first. -/
  pieces : List (Text × Piece) := []
  deriving Inhabited

namespace Bench

open Proc

/-- The frames and objects of a bench. -/
def store (b : Bench) : Store := b.engine.store

/-! ## Pieces -/

/-- Pieces with one kept under a name, in place of an older one of that name. -/
def keepIn (name : Text) (p : Piece) : List (Text × Piece) → List (Text × Piece)
  | [] => [(name, p)]
  | (n, q) :: rest => if n = name then (n, p) :: rest else (n, q) :: keepIn name p rest

/-- Keeps a piece. -/
def keep (b : Bench) (name : Text) (p : Piece) : Bench := { b with pieces := keepIn name p b.pieces }

/-- The piece of a name. -/
def piece? (b : Bench) (name : Text) : Option Piece := b.pieces.lookup name

/-- The frame that a container has bindings in. -/
def frameOf (b : Bench) : Container → FrameId
  | .scope f => f
  | .object o => b.store.propsOf o

/-- The name under which a scope or object has been kept first. -/
def nameOf? (b : Bench) (c : Container) : Option Text :=
  (b.pieces.find? fun (_, p) => p.container? = some c).map (·.1)

/-- What the host sees of a value: a stand-in shows what it stands for. -/
def exhibit (b : Bench) (s : Store) (v : Value) : Exhibit :=
  let standsFor := b.pieces.findSome? fun (_, p) =>
    match p, v with
    | .place _ f, .frame g => if f = g then some Exhibit.place else none
    | .postponed _ _ _ f, .frame g => if f = g then some Exhibit.postponed else none
    | _, _ => none
  standsFor.getD (.picture (.ofValue s v))

/-! ## Work -/

/-- Does some work and reports on it. -/
def perform (b : Bench) (c : Proc α) (view : Store → α → β) : Report β × Bench :=
  let (report, engine) := b.engine.perform c view
  (report, { b with engine })

/-- Changes the store. -/
def withStore (b : Bench) (g : Store → α × Store) : α × Bench :=
  let (a, store) := g b.store
  (a, { b with engine := { b.engine with state := { b.engine.state with store } } })

/-- Keeps a new scope. -/
def keepScope (b : Bench) (name : Text) (parent : Option FrameId) (role : Frame.Role) : Bench :=
  let (f, b) := b.withStore (·.addFrame { parent, role })
  b.keep name (.value (.frame f))

/-- Keeps the scope of a new program. -/
def keepProgram (b : Bench) (name : Text) : Bench :=
  let (f, b) := b.withStore Store.addProgramScope
  b.keep name (.value (.frame f))

/-- Keeps a new object. -/
def keepObject (b : Bench) (name : Text) (proto : Option ObjectId) : Bench :=
  let (o, b) := b.withStore (·.addPlain proto .plain)
  b.keep name (.value (.obj o))

/-- Keeps a place. -/
def keepPlace (b : Bench) (name : Text) (p : Place) : Bench :=
  let (f, b) := b.withStore (·.addFrame {})
  b.keep name (.place p f)

/-- Keeps a postponed addition to a place. -/
def keepPostponed (b : Bench) (name : Text) (p : Place) (delta : Float) : Bench :=
  let (f, b) := b.withStore (·.addFrame {})
  let state := b.engine.state
  let b := { b with engine := { b.engine with state := { state with postponed := state.postponed.push {} } } }
  b.keep name (.postponed p delta state.postponed.size f)

/-- Keeps the result of some work, unless it fails. -/
def keepResult (b : Bench) (name : Text) (c : Proc Value) : Report Unit × Bench :=
  match b.perform c fun _ v => v with
  | (.value v, b) => (.value (), b.keep name (.value v))
  | (report, b) => (report.map fun _ => (), b)

/-! ## Changes by hand -/

/-- Changes a frame by hand, unless it is sealed. -/
def change (b : Bench) (f : FrameId) (k : Key) (g : Frame → Frame) : Report Unit × Bench :=
  if (b.store.frame f).sealed then (.fault (.sealed k), b)
  else (.value (), (b.withStore fun s => ((), s.modifyFrame f g)).2)

/-- Binds a key and keeps it out of enumeration. -/
def define (b : Bench) (c : Container) (k : Key) (v : Value) : Report Unit × Bench :=
  b.change (b.frameOf c) k (·.define k v)

/-- Masks a key that is bound somewhere along the chain. -/
def hide (b : Bench) (c : Container) (k : Key) : Report Unit × Bench :=
  let f := b.frameOf c
  b.change f k fun fr => if b.store.has f k then fr.mask k else fr

/-- Seals or unseals a container and what it leads to. -/
def restrict (b : Bench) (c : Container) (flag : Bool) : Bench :=
  (b.withStore fun s => ((), s.setSealed (b.frameOf c) flag)).2

/-! ## Reading -/

/-- Whether a key is bound in a container or further along its chain. -/
def has (b : Bench) (k : Key) : Container → Bool
  | .scope f => b.store.has f k
  | .object o => b.store.hasProperty o k

/-- All keys of a container. -/
def keys (b : Bench) : Container → List Key
  | .scope f => b.store.keys f
  | .object o => b.store.propertyKeys o

/-- The keys of a container that a loop would visit. -/
def enumerableKeys (b : Bench) : Container → List Key
  | .scope f => b.store.enumerableKeys f
  | .object o => b.store.loopKeys o

/-- The name of the container that holds a key. -/
def ownerName? (b : Bench) (k : Key) : Container → Option Text
  | .scope f => (b.store.owner? f k).bind b.nameOf?
  | .object o => if b.store.hasProperty o k then b.nameOf? (.object o) else none

end Bench

end ScriptEngine
