import ScriptEngine.Heap.Value

/-!
# Frames

A frame holds bindings in the order in which they were first made. The same structure serves as a scope of
variables and as the property store of an object. Marks beside the bindings keep keys out of enumeration
(`unlisted`) or mask them altogether (`hidden`); a mark outlives the binding it was made for. A sealed
frame refuses every change.

The frame of an array has the role `slots`. Its `length` is an ordinary binding that follows the index
keys: writing at or past the length extends it, and shrinking it drops the indexes that no longer fit.

## Main definitions

* `Frame`: bindings, marks, a parent and a role.
* `Frame.put`, `Frame.define`, `Frame.mask`, `Frame.erase`: changes of one binding.
* `Frame.write`, `Frame.resize`, `Frame.refill`, `Frame.append`: changes that keep an array's length in
  step.
-/

namespace ScriptEngine

/-- What a frame is for. -/
inductive Frame.Role where
  /-- A scope inside a function or program, or the properties of an object. -/
  | plain
  /-- The scope of a program, which receives assignments to undeclared names. -/
  | program
  /-- The scope of the built-in names. -/
  | core
  /-- The scope of one call of a function. -/
  | activation (function : ObjectId)
  /-- A scope in which the properties of an object come first. -/
  | subject (object : ObjectId)
  /-- The properties of an array. -/
  | slots
  deriving DecidableEq, Inhabited

/-- Bindings in order, with marks, a parent and a role. -/
structure Frame where
  /-- The frame that is searched next. -/
  parent : Option FrameId := none
  /-- What the frame is for. -/
  role : Frame.Role := .plain
  /-- The bindings, the oldest first. -/
  entries : List (Key × Value) := []
  /-- Keys that enumeration leaves out. -/
  unlisted : List Key := []
  /-- Keys whose bindings are masked. -/
  hidden : List Key := []
  /-- Whether changes are refused. -/
  sealed : Bool := false
  deriving Inhabited

namespace Frame

/-! ## Reading -/

/-- The value bound to a key. -/
def lookup? (f : Frame) (k : Key) : Option Value := f.entries.lookup k

/-- Whether a key is bound. -/
def holds (f : Frame) (k : Key) : Bool := (f.lookup? k).isSome

/-- The bound keys in order. -/
def keys (f : Frame) : List Key := f.entries.map (·.1)

/-- Whether a key is bound to something other than `undefined`. -/
def owns (f : Frame) (k : Key) : Bool := (f.lookup? k).any (!·.isUndefined)

/-- Whether a key is bound and not masked. -/
def contains (f : Frame) (k : Key) : Bool := f.holds k && !f.hidden.contains k

/-- Whether enumeration shows a key of this frame. -/
def isListed (f : Frame) (k : Key) : Bool := !f.unlisted.contains k && !f.hidden.contains k

/-- Whether a key is bound and shown by enumeration. -/
def isEnumerable (f : Frame) (k : Key) : Bool := f.holds k && f.isListed k

/-- The bound keys that are not masked; with `listedOnly` also without those kept out of enumeration. -/
def localKeys (f : Frame) (listedOnly : Bool) : List Key :=
  f.keys.filter fun k => !f.hidden.contains k && !(listedOnly && f.unlisted.contains k)

/-! ## Changing one binding -/

/-- Bindings with `k` bound to `v`: in place if `k` is bound already, at the end otherwise. -/
def bindEntry (k : Key) (v : Value) : List (Key × Value) → List (Key × Value)
  | [] => [(k, v)]
  | (k', v') :: rest => if k' = k then (k, v) :: rest else (k', v') :: bindEntry k v rest

/-- Binds a key; a masked key comes to light again. -/
def put (f : Frame) (k : Key) (v : Value) : Frame :=
  { f with entries := bindEntry k v f.entries, hidden := f.hidden.filter (· ≠ k) }

/-- Binds a key and keeps it out of enumeration. -/
def define (f : Frame) (k : Key) (v : Value) : Frame :=
  let g := f.put k v
  { g with unlisted := if g.unlisted.contains k then g.unlisted else k :: g.unlisted }

/-- Binds a key to `undefined` and masks it. -/
def mask (f : Frame) (k : Key) : Frame :=
  let g := f.put k .undefined
  { g with hidden := k :: g.hidden }

/-- Drops the binding of a key; its marks stay. -/
def erase (f : Frame) (k : Key) : Frame := { f with entries := f.entries.filter (·.1 ≠ k) }

/-! ## Arrays -/

/-- The greatest number of elements of an array. No host has room for more, and up to here the double of a
number of elements is that number. -/
def mostElements : Nat := 9007199254740992

/-- The length of an array, from its own binding. -/
def length (f : Frame) : Nat :=
  match f.lookup? Key.length with
  | some (.num x) => (Number.truncate x).toNat
  | _ => 0

/-- Binds the length of an array. -/
def putLength (f : Frame) (n : Nat) : Frame := f.put Key.length (.ofNat n)

/-- Binds a key. On the frame of an array an index at or past the length extends the length, and the length
itself is left alone. -/
def write (f : Frame) (k : Key) (v : Value) : Frame :=
  match f.role with
  | .slots =>
    match k with
    | .index i =>
      let g := f.put k v
      if g.length ≤ i then g.putLength (i + 1) else g
    | .name _ => if k = Key.length then f else f.put k v
  | _ => f.put k v

/-- The indexes that a shorter length would drop. Masked ones stay. -/
def beyond (f : Frame) (n : Nat) : List Key :=
  (f.localKeys false).filter fun k => k.index?.any (n ≤ ·)

/-- The length that an array gets when it is set to `n`: what is no 32-bit number counts as zero. -/
def settledLength (n : Nat) : Nat := if n < 4294967296 then n else 0

/-- The array with a new length; when it is shorter, the indexes that no longer fit are dropped. -/
def resize (f : Frame) (n : Nat) : Frame :=
  let m := settledLength n
  let g := if m < f.length then (f.beyond m).foldl erase f else f
  g.putLength m

/-- Binds values to consecutive indexes from `i` on. -/
def putFrom (f : Frame) (i : Nat) : List Value → Frame
  | [] => f
  | v :: rest => (f.put (.index i) v).putFrom (i + 1) rest

/-- The array with the given elements in place of its own. -/
def refill (f : Frame) (values : List Value) : Frame :=
  ((f.resize 0).putFrom 0 values).putLength values.length

/-- The array with one more element. -/
def push (f : Frame) (v : Value) : Frame := (f.put (.index f.length) v).putLength (f.length + 1)

/-- The array with further elements at its end. -/
def append (f : Frame) (values : List Value) : Frame := values.foldl push f

/-- A fresh array with the given elements. -/
def ofItems (parent : Option FrameId) (values : List Value) : Frame :=
  let f : Frame := { parent, role := .slots }
  (((f.define Key.length (.ofNat 0)).putFrom 0 values)).putLength values.length

/-! ## Refused changes -/

/-- The key that a refused change of the length to `n` is blamed on. -/
def resizeBlame (f : Frame) (n : Nat) : Key :=
  let m := settledLength n
  if m < f.length then (f.beyond m).headD Key.length else Key.length

end Frame

end ScriptEngine
