import ScriptEngine.Machine.Proc

/-!
# Sorting with a comparison that may do anything

A comparison written in a script can print, throw, change the list that is being sorted, or contradict
itself, so the order in which elements are compared is part of the result. The list is cut into runs that
are ascending already or strictly descending; short runs are extended by binary insertion; neighbouring
runs are merged in an order that depends only on their lengths and positions. A merge compares the heads of
two runs, and after one run has won several times in a row it gallops: it looks for the number of elements
to take at once by doubling steps.

Whatever the comparison answers, elements are only moved, never lost or doubled.

## Main definitions

* `Sorting.insertionSort`: binary insertion into a sorted part.
* `Sorting.prefixCount`: the length of a prefix with a property, by galloping.
* `Sorting.merge`: merges two runs.
* `Sorting.sort`: sorts a list.
-/

namespace ScriptEngine

namespace Sorting

variable {α : Type}

/-- Whether the first element goes strictly before the second. -/
abbrev Before (α : Type) := α → α → Proc Bool

/-! ## Insertion -/

/-- The position between `lo` and `hi` at which an element is inserted: after everything it does not go
before. -/
def insertionPoint (lt : Before α) (items : Array α) (x : α) (lo hi : Nat) : Proc Nat :=
  if lo < hi then do
    let mid := lo + (hi - lo) / 2
    match items[mid]? with
    | none => return hi
    | some y =>
      if ← lt x y then insertionPoint lt items x lo mid else insertionPoint lt items x (mid + 1) hi
  else return lo
termination_by hi - lo

/-- Inserts the elements of a list one by one into a sorted list. -/
def insertionSort (lt : Before α) (sorted : List α) : List α → Proc (List α)
  | [] => return sorted
  | x :: rest => do
    let n ← insertionPoint lt sorted.toArray x 0 sorted.length
    insertionSort lt (sorted.take n ++ x :: sorted.drop n) rest

/-! ## Runs -/

/-- The length of the part of a list, after the element `x`, in which each neighbouring pair is strictly
descending, or in which none is; `n` elements have been counted before. -/
def runRest (lt : Before α) (descending : Bool) (n : Nat) (x : α) : List α → Proc Nat
  | [] => return n
  | y :: rest => do
    if (← lt y x) = descending then runRest lt descending (n + 1) y rest else return n

/-- Takes the first run off a list; a strictly descending run is reversed. -/
def takeRun (lt : Before α) : List α → Proc (List α × List α)
  | [] => return ([], [])
  | [x] => return ([x], [])
  | x :: y :: rest => do
    let descending ← lt y x
    let n ← runRest lt descending 0 y rest
    let run := x :: y :: rest.take n
    return (if descending then run.reverse else run, rest.drop n)

/-- The first six bits of a length, rounded up if `odd` is one or a later bit is. -/
def firstBits (n odd : Nat) : Nat :=
  if n < 64 then n + odd else firstBits (n / 2) (max odd (n % 2))
termination_by n

/-- The length that runs are extended to: that of the whole list if it is less than 64. -/
def leastRun (n : Nat) : Nat := firstBits n 0

/-! ## Galloping -/

/-- Doubling steps from `last`, which has the property, until an element without it is found; the result is
the last position with the property and the first known to be without it. -/
def gallop (p : α → Proc Bool) (items : Array α) : Nat → Nat → Nat → Proc (Nat × Nat)
  | 0, last, next => return (last, min next items.size)
  | fuel + 1, last, next =>
    match items[next]? with
    | none => return (last, items.size)
    | some x => do
      if ← p x then gallop p items fuel next (2 * next + 1) else return (last, next)

/-- The first position between `lo` and `hi` without the property, by halving. An even gap is halved towards
the end, or towards the start if `early` is one. -/
def narrow (p : α → Proc Bool) (early : Nat) (items : Array α) (lo hi : Nat) : Proc Nat :=
  if lo < hi then do
    let mid := lo + (hi - lo - early) / 2
    match items[mid]? with
    | none => return lo
    | some x => if ← p x then narrow p early items (mid + 1) hi else narrow p early items lo mid
  else return lo
termination_by hi - lo

/-- The number of elements at the start of a list that have a property, found by galloping. -/
def prefixCount (p : α → Proc Bool) (early : Nat) (items : List α) : Proc Nat := do
  match items with
  | [] => return 0
  | x :: _ =>
    if ← p x then
      let a := items.toArray
      let (last, next) ← gallop p a a.size 0 1
      narrow p early a (last + 1) next
    else return 0

/-! ## Merging

A merge works from one end of two neighbouring runs. The run `xs` is the one that has been set aside, and
`ys` the other one; at the front `xs` is the left run, at the back both runs are reversed and `xs` is the
right one. -/

/-- How a merge works. -/
structure Side (α : Type) where
  /-- Whether the head of `ys` is taken before the head of `xs`. -/
  takesY : Before α
  /-- How even gaps are halved. -/
  early : Nat
  /-- Whether galloping looks at `xs` first. -/
  leftFirst : Bool

/-- The number of wins in a row after which a merge starts to gallop. -/
def patience : Nat := 7

/-- The state of a merge: what is left of both runs, what has been taken, the last first, and the wins in a
row that it takes to gallop. -/
structure Merge (α : Type) where
  xs : List α
  ys : List α
  taken : List α
  threshold : Nat

namespace Merge

/-- Takes elements from the start of `xs`. -/
def takeX (m : Merge α) (n : Nat) : Merge α :=
  { m with xs := m.xs.drop n, taken := (m.xs.take n).reverse ++ m.taken }

/-- Takes elements from the start of `ys`. -/
def takeY (m : Merge α) (n : Nat) : Merge α :=
  { m with ys := m.ys.drop n, taken := (m.ys.take n).reverse ++ m.taken }

/-- A merge is over when `ys` is used up or at most one element of `xs` is left. -/
def isOver (m : Merge α) : Bool := m.ys.isEmpty || m.xs.length ≤ 1

/-- The result of a merge that is over: the rest of `ys`, then the rest of `xs`. -/
def result (m : Merge α) : List α := m.taken.reverse ++ m.ys ++ m.xs

end Merge

/-- Compares heads until the merge is over or one run has won often enough in a row. -/
def headToHead (side : Side α) : Nat → Nat → Nat → Merge α → Proc (Merge α)
  | 0, _, _, m => return m
  | fuel + 1, winsX, winsY, m =>
    if m.isOver then return m
    else if m.threshold ≤ winsX || m.threshold ≤ winsY then return m
    else
      match m.xs, m.ys with
      | x :: _, y :: _ => do
        if ← side.takesY y x then headToHead side fuel 0 (winsY + 1) (m.takeY 1)
        else headToHead side fuel (winsX + 1) 0 (m.takeX 1)
      | _, _ => return m

/-- The number of elements of `xs` that stay before the head of `ys`. -/
def leadX (side : Side α) (m : Merge α) : Proc Nat :=
  match m.ys with
  | [] => return 0
  | y :: _ => prefixCount (fun x => do return !(← side.takesY y x)) side.early m.xs

/-- The number of elements of `ys` that go before the head of `xs`. -/
def leadY (side : Side α) (m : Merge α) : Proc Nat :=
  match m.xs with
  | [] => return 0
  | x :: _ => prefixCount (fun y => side.takesY y x) side.early m.ys

/-- Gallops, as long as the leads are long. -/
def galloping (side : Side α) : Nat → Merge α → Proc (Merge α)
  | 0, m => return m
  | fuel + 1, m => do
    let m := { m with threshold := m.threshold - (if 1 < m.threshold then 1 else 0) }
    if side.leftFirst then
      let a ← leadX side m
      let m := m.takeX a
      if m.isOver then return m
      let m := m.takeY 1
      if m.isOver then return m
      let b ← leadY side m
      let m := m.takeY b
      if m.isOver then return m
      let m := m.takeX 1
      if m.isOver then return m
      if patience ≤ a || patience ≤ b then galloping side fuel m
      else return { m with threshold := m.threshold + 1 }
    else
      let a ← leadY side m
      let m := m.takeY a
      if m.isOver then return m
      let m := m.takeX 1
      if m.isOver then return m
      let b ← leadX side m
      let m := m.takeX b
      if m.isOver then return m
      let m := m.takeY 1
      if m.isOver then return m
      if patience ≤ a || patience ≤ b then galloping side fuel m
      else return { m with threshold := m.threshold + 1 }

/-- Alternates between comparing heads and galloping until the merge is over. -/
def mergeLoop (side : Side α) : Nat → Merge α → Proc (Merge α)
  | 0, m => return m
  | fuel + 1, m => do
    if m.isOver then return m
    let n := m.xs.length + m.ys.length
    let m ← headToHead side n 0 0 m
    if m.isOver then return m
    let m ← galloping side n { m with threshold := m.threshold + 1 }
    mergeLoop side fuel m

/-- Merges the runs `xs` and `ys` from one end; the first element is always the head of `ys`. -/
def mergeFrom (side : Side α) (threshold : Nat) (xs ys : List α) : Proc (List α × Nat) := do
  let m : Merge α := ⟨xs, ys, [], threshold⟩
  let m ← mergeLoop side (xs.length + ys.length) (m.takeY 1)
  return (m.result, m.threshold)

/-- Merges two neighbouring runs. What stands in its place already at the start of the first and at the end
of the second is left out; then the shorter of the remaining runs is set aside. -/
def merge (lt : Before α) (threshold : Nat) (a b : List α) : Proc (List α × Nat) := do
  match b with
  | [] => return (a, threshold)
  | first :: _ =>
    let k ← prefixCount (fun x => do return !(← lt first x)) 0 a
    match (a.drop k).getLast? with
    | none => return (a ++ b, threshold)
    | some last =>
      let r ← prefixCount (fun y => do return !(← lt y last)) 1 b.reverse
      let n := b.length - r
      let xs := a.drop k
      let ys := b.take n
      if ys.isEmpty then return (a ++ b, threshold)
      else if xs.length ≤ ys.length then
        let (merged, threshold) ← mergeFrom ⟨lt, 0, true⟩ threshold xs ys
        return (a.take k ++ merged ++ b.drop n, threshold)
      else
        let (merged, threshold) ← mergeFrom ⟨fun y x => lt x y, 1, false⟩ threshold ys.reverse xs.reverse
        return (a.take k ++ merged.reverse ++ b.drop n, threshold)

/-! ## The order of merges

Each boundary between two runs has a power: the depth at which a bisection of the whole list first cuts
between the middles of the two runs. Boundaries of greater power are merged first. -/

/-- A run that waits to be merged. -/
structure Run (α : Type) where
  items : List α
  /-- Where the run starts in the list. -/
  start : Nat
  /-- The power of the boundary after the run. -/
  power : Nat

/-- The power of the boundary between two runs, from twice their middles `a` and `b` in a list of length
`n`. -/
def boundaryPower (n : Nat) : Nat → Nat → Nat → Nat → Nat
  | 0, power, _, _ => power
  | fuel + 1, power, a, b =>
    if n ≤ a then boundaryPower n fuel (power + 1) (2 * (a - n)) (2 * (b - n))
    else if n ≤ b then power + 1
    else boundaryPower n fuel (power + 1) (2 * a) (2 * b)

/-- Merges the runs on top of the stack as long as the boundary below has a greater power. -/
def collapse (lt : Before α) (power : Nat) : Nat → List (Run α) → Nat → Proc (List (Run α) × Nat)
  | 0, stack, threshold => return (stack, threshold)
  | fuel + 1, top :: below :: rest, threshold => do
    if power < below.power then
      let (items, threshold) ← merge lt threshold below.items top.items
      collapse lt power fuel (⟨items, below.start, power⟩ :: rest) threshold
    else return ({ top with power } :: below :: rest, threshold)
  | _, [top], threshold => return ([{ top with power }], threshold)
  | _, [], threshold => return ([], threshold)

/-- Puts a run on the stack of waiting runs, after the merges that have to come first. -/
def addRun (lt : Before α) (total : Nat) (stack : List (Run α)) (threshold : Nat) (items : List α) :
    Proc (List (Run α) × Nat) := do
  match stack with
  | [] => return ([⟨items, 0, 0⟩], threshold)
  | top :: _ =>
    let a := 2 * top.start + top.items.length
    let b := a + top.items.length + items.length
    let power := boundaryPower total (total + 1) 0 a b
    let (stack, threshold) ← collapse lt power stack.length stack threshold
    return (⟨items, top.start + top.items.length, 0⟩ :: stack, threshold)

/-- Merges all waiting runs, the shorter of the outer two of the top three first. -/
def mergeAll (lt : Before α) : Nat → List (Run α) → Nat → Proc (List α)
  | fuel + 1, c :: b :: a :: rest, threshold => do
    if a.items.length < c.items.length then
      let (items, threshold) ← merge lt threshold a.items b.items
      mergeAll lt fuel (c :: { a with items } :: rest) threshold
    else
      let (items, threshold) ← merge lt threshold b.items c.items
      mergeAll lt fuel ({ b with items } :: a :: rest) threshold
  | _, [c, b], threshold => do
    let (items, _) ← merge lt threshold b.items c.items
    return items
  | _, stack, _ => return (stack.reverse.map Run.items).flatten

/-- Cuts a list into runs, merging on the way. -/
def sortRuns (lt : Before α) (total least : Nat) : Nat → List (Run α) → Nat → List α → Proc (List α)
  | fuel + 1, stack, threshold, x :: rest => do
    let (run, rest) ← takeRun lt (x :: rest)
    let missing := least - run.length
    let run ← insertionSort lt run (rest.take missing)
    let (stack, threshold) ← addRun lt total stack threshold run
    sortRuns lt total least fuel stack threshold (rest.drop missing)
  | _, stack, threshold, items => do
    return (← mergeAll lt stack.length stack threshold) ++ items

/-- Sorts a list; elements of which neither goes before the other keep their order. -/
def sort (lt : Before α) (items : List α) : Proc (List α) :=
  sortRuns lt items.length (leastRun items.length) items.length [] patience items

end Sorting

end ScriptEngine
