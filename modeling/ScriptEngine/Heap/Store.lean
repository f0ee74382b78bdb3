import ScriptEngine.Heap.Object

/-!
# The store

All frames and objects, each known by its number. Frames form chains: a frame's parent is older than the
frame, so following parents from frame number `f` ends after at most `f + 1` frames. Variables are looked
up along the chain of scopes, properties along the chain of property frames; where a scope has a subject,
the properties of that object come before its own bindings.

## Main definitions

* `Store`: the frames, the objects and the inputs from the host.
* `Store.chain`: a frame and its ancestors.
* `Store.get`, `Store.owner?`, `Store.keys`, `Store.enumerableKeys`: reading along the chain of a scope.
* `Store.getProperty`, `Store.hasProperty`, `Store.ownKeys`: reading the properties of an object.
-/

namespace ScriptEngine

/-- What the host contributes to a run. -/
structure Host where
  /-- The local time zone, in minutes east of Greenwich. -/
  zone : Int := 0
  /-- The current time in milliseconds. -/
  clock : Float := 0.0
  /-- The random numbers, from zero to below one, in the order in which they are drawn. -/
  random : Nat → Float := fun _ => 0.0
  deriving Inhabited

/-- All frames and objects. -/
structure Store where
  /-- The frames by number. -/
  frames : Array Frame := #[]
  /-- The objects by number. -/
  objects : Array Object := #[]
  /-- The inputs from the host. -/
  host : Host := {}
  deriving Inhabited

/-- A place that holds bindings for a reference: a scope or an object. -/
inductive Container where
  | scope (f : FrameId)
  | object (o : ObjectId)
  deriving DecidableEq, Inhabited

namespace Store

/-- The frame with a number. -/
def frame (s : Store) (f : FrameId) : Frame := s.frames.getD f {}

/-- The object with a number. -/
def object (s : Store) (o : ObjectId) : Object := s.objects.getD o {}

/-- The body of an object. -/
def body (s : Store) (o : ObjectId) : Body := (s.object o).body

/-- The frame of the properties of an object. -/
def propsOf (s : Store) (o : ObjectId) : FrameId := (s.object o).props

/-! ## Chains -/

/-- The frame `f` and its ancestors, at most `n` of them. -/
def ancestors (s : Store) : Nat → FrameId → List FrameId
  | 0, _ => []
  | n + 1, f =>
    f :: match (s.frame f).parent with
      | none => []
      | some p => s.ancestors n p

/-- The frame `f` and its ancestors, the nearest first. -/
def chain (s : Store) (f : FrameId) : List FrameId := s.ancestors (f + 1) f

/-- Whether `g` is a proper ancestor of `f`. -/
def inherits (s : Store) (f g : FrameId) : Bool := (s.chain f).tail.contains g

/-- The last frame of a chain. -/
def root (s : Store) (f : FrameId) : FrameId := (s.chain f).getLastD f

/-- The first frame of a chain that satisfies `p`, or the last frame. -/
def nearest (s : Store) (f : FrameId) (p : Frame.Role → Bool) : FrameId :=
  ((s.chain f).find? fun g => p (s.frame g).role).getD (s.root f)

/-- The scope that receives assignments to undeclared names: the nearest scope of a program, or the root. -/
def globalScope (s : Store) (f : FrameId) : FrameId := s.nearest f (· == .program)

/-- The scope that receives declared names: the nearest scope of a call or program, or the root. -/
def varScope (s : Store) (f : FrameId) : FrameId :=
  s.nearest f fun
    | .program => true
    | .activation _ => true
    | _ => false

/-- The function whose call the scope belongs to. -/
def enclosingFunction? (s : Store) (f : FrameId) : Option ObjectId :=
  (s.chain f).findSome? fun g =>
    match (s.frame g).role with
    | .activation fn => some fn
    | _ => none

/-- Whether the chain ends in the scope of the built-in names. -/
def isAttached (s : Store) (f : FrameId) : Bool := (s.frame (s.root f)).role == .core

/-- The keys of frames one after another, each key only once. -/
def mergeKeys : List (List Key) → List Key
  | lists => lists.flatten.eraseDups

/-! ## Properties -/

/-- The value bound to a key in the nearest frame of a chain of property frames. -/
def find? (s : Store) (f : FrameId) (k : Key) : Option Value :=
  (s.chain f).findSome? fun g => (s.frame g).lookup? k

/-- The value of a property; `undefined` when there is none. -/
def getProperty (s : Store) (o : ObjectId) (k : Key) : Value :=
  match (s.body o).fixed? k with
  | some v => v
  | none => (s.find? (s.propsOf o) k).getD .undefined

/-- Whether an object has a property, its own or an inherited one. -/
def hasProperty (s : Store) (o : ObjectId) (k : Key) : Bool :=
  (s.body o).fixedPresent k || (s.find? (s.propsOf o) k).isSome

/-- Whether an object has a property of its own. -/
def hasOwn (s : Store) (o : ObjectId) (k : Key) : Bool :=
  (s.body o).fixedPresent k || (s.frame (s.propsOf o)).contains k

/-- The keys of an object's own properties, the characters of a string first. -/
def ownKeys (s : Store) (o : ObjectId) (listedOnly : Bool) : List Key :=
  (s.body o).characterKeys ++ (s.frame (s.propsOf o)).localKeys listedOnly

/-- All keys along the property frames of an object. -/
def propertyKeys (s : Store) (o : ObjectId) : List Key :=
  mergeKeys ((s.chain (s.propsOf o)).map fun g => (s.frame g).keys)

/-- The length of an array. -/
def arrayLength (s : Store) (o : ObjectId) : Nat := (s.frame (s.propsOf o)).length

/-- An element of an array, read along its property frames. -/
def arrayItem (s : Store) (o : ObjectId) (i : Nat) : Value :=
  (s.find? (s.propsOf o) (.index i)).getD .undefined

/-- All elements of an array. -/
def arrayItems (s : Store) (o : ObjectId) : List Value :=
  (List.range (s.arrayLength o)).map (s.arrayItem o)

/-! ## Scopes -/

/-- The value that one scope of a chain gives to a key. -/
def levelLookup? (s : Store) (f : FrameId) (k : Key) : Option Value :=
  match (s.frame f).role with
  | .subject o => if s.hasProperty o k then some (s.getProperty o k) else (s.frame f).lookup? k
  | _ => (s.frame f).lookup? k

/-- The value of a key along a chain of scopes; `undefined` when there is none. -/
def get (s : Store) (f : FrameId) (k : Key) : Value :=
  ((s.chain f).findSome? fun g => s.levelLookup? g k).getD .undefined

/-- The container in which one scope of a chain holds a key. -/
def levelOwner? (s : Store) (f : FrameId) (k : Key) : Option Container :=
  match (s.frame f).role with
  | .subject o =>
    if s.hasProperty o k then some (.object o)
    else if (s.frame f).holds k then some (.scope f) else none
  | _ => if (s.frame f).holds k then some (.scope f) else none

/-- The nearest container that holds a key. -/
def owner? (s : Store) (f : FrameId) (k : Key) : Option Container :=
  (s.chain f).findSome? fun g => s.levelOwner? g k

/-- Whether a key is bound along a chain of scopes. -/
def has (s : Store) (f : FrameId) (k : Key) : Bool := (s.owner? f k).isSome

/-- The keys of one scope of a chain. -/
def levelKeys (s : Store) (f : FrameId) : List Key :=
  match (s.frame f).role with
  | .subject o => s.propertyKeys o ++ (s.frame f).keys
  | _ => (s.frame f).keys

/-- All keys along a chain of scopes, each once, the nearest first. -/
def keys (s : Store) (f : FrameId) : List Key := mergeKeys ((s.chain f).map s.levelKeys)

/-- The keys of the remaining frames of a chain that enumeration shows; a key in `seen` is shadowed by a
nearer frame. -/
def listedKeys (s : Store) (seen : List Key) : List FrameId → List Key
  | [] => []
  | f :: rest =>
    let fresh := (s.levelKeys f).eraseDups.filter fun k => !seen.contains k
    fresh.filter (s.frame f).isListed ++ s.listedKeys (fresh ++ seen) rest

/-- The keys that enumeration shows along a chain: each once, shadowed and masked keys left out. -/
def enumerableKeys (s : Store) (f : FrameId) : List Key := s.listedKeys [] (s.chain f)

/-- The keys over which a loop runs: the characters of a string, then the enumerable properties. -/
def loopKeys (s : Store) (o : ObjectId) : List Key :=
  (s.body o).characterKeys ++ s.enumerableKeys (s.propsOf o)

/-- The value in a container; scopes and objects search their own chains. -/
def read (s : Store) (c : Container) (k : Key) : Value :=
  match c with
  | .scope f => s.get f k
  | .object o => s.getProperty o k

/-! ## Changes

Each change is a function on stores; whether it is allowed is decided elsewhere. -/

/-- Changes one frame. -/
def modifyFrame (s : Store) (f : FrameId) (g : Frame → Frame) : Store :=
  { s with frames := s.frames.modify f g }

/-- Changes one object. -/
def modifyObject (s : Store) (o : ObjectId) (g : Object → Object) : Store :=
  { s with objects := s.objects.modify o g }

/-- Adds a frame. -/
def addFrame (s : Store) (f : Frame) : FrameId × Store :=
  (s.frames.size, { s with frames := s.frames.push f })

/-- What a new scope is for: without an object that is there, it has no subject. -/
def scopeRole (s : Store) : Frame.Role → Frame.Role
  | .subject o => if o < s.objects.size then .subject o else .plain
  | role => role

/-- Adds a scope inside a frame that is there. -/
def addScope (s : Store) (parent : FrameId) (role : Frame.Role) : FrameId × Store :=
  s.addFrame { parent := if parent < s.frames.size then some parent else none, role := s.scopeRole role }

/-- Adds an object whose property frame is there already. -/
def addObject (s : Store) (o : Object) : ObjectId × Store :=
  (s.objects.size, { s with objects := s.objects.push o })

/-- The property frame of the object to inherit from. -/
def parentFrame (s : Store) (proto : Option ObjectId) : Option FrameId := proto.map s.propsOf

/-- Adds an object with a property frame made by `props` from its parent. -/
def addWith (s : Store) (proto : Option ObjectId) (body : Body) (props : Option FrameId → Frame) :
    ObjectId × Store :=
  let (f, s) := s.addFrame (props (s.parentFrame proto))
  s.addObject { proto, props := f, body }

/-- Adds an object without properties. -/
def addPlain (s : Store) (proto : Option ObjectId) (body : Body) : ObjectId × Store :=
  s.addWith proto body fun parent => { parent }

/-- Adds an array with the given elements. -/
def addArray (s : Store) (proto : Option ObjectId) (items : List Value) : ObjectId × Store :=
  s.addWith proto .array fun parent => Frame.ofItems parent items

/-- Adds a function object with its `length` and `name`. -/
def addFunction (s : Store) (proto : ObjectId) (name : Text) (arity : Nat) (callable : Callable) :
    ObjectId × Store :=
  s.addWith (some proto) (.function name callable) fun parent =>
    (({ parent } : Frame).define Key.length (.ofNat arity)).define Key.nameKey (.str name)

/-- Binds a property and keeps it out of enumeration. -/
def defineProperty (s : Store) (o : ObjectId) (k : Key) (v : Value) : Store :=
  s.modifyFrame (s.propsOf o) (·.define k v)

/-- Gives a function the object from which the objects it constructs inherit. -/
def linkPrototype (s : Store) (function proto : ObjectId) : Store :=
  (s.defineProperty proto Key.constructor (.obj function)).defineProperty function Key.prototype (.obj proto)

/-! ## Sealing -/

/-- The frame that a value leads to. -/
def frameOf? (s : Store) : Value → Option FrameId
  | .frame f => some f
  | .obj o => some (s.propsOf o)
  | _ => none

/-- The frames that the values of a frame lead to. -/
def successors (s : Store) (f : FrameId) : List FrameId :=
  (s.frame f).entries.filterMap fun e => s.frameOf? e.2

/-- Sets the seal of `f` and of what it leads to, as far as frames with the other seal go; `n` bounds the
depth, and a frame that has the seal already ends the search. -/
def sealFrom (flag : Bool) : Nat → Store → FrameId → Store
  | 0, s, _ => s
  | n + 1, s, f =>
    if (s.frame f).sealed = flag then s
    else
      (s.successors f).foldl (fun s g => sealFrom flag n s g)
        (s.modifyFrame f fun fr => { fr with sealed := flag })

/-- Seals or unseals a frame and everything reachable from it through frames with the other seal. -/
def setSealed (s : Store) (f : FrameId) (flag : Bool) : Store := sealFrom flag (s.frames.size + 1) s f

end Store

end ScriptEngine
