import ScriptEngine.Machine.Proc

/-!
# Running computations

Running a computation walks down its tree: what it looks at is the store of the moment, its actions are
performed under the limits, and its requests go to a handler. A fault ends the run at once; a thrown value
that comes back from a request is handed to the computation that made it. Only the machine knows a bound on
the rounds of a loop; a run that would need more of them does not finish.

## Main definitions

* `Outcome`: how a run ends.
* `Course`: what happens from a state on.
* `Course.rounds`: goes round a loop.
* `Proc.run`: runs a computation with a handler for its requests.
-/

namespace ScriptEngine

/-- How a run ends. -/
inductive Outcome (α : Type) where
  /-- With a result. -/
  | ok (a : α)
  /-- With a thrown value. -/
  | thrown (v : Value)
  /-- With a fault. -/
  | fault (f : Fault)
  /-- Not at all: the bounds of the machine were too small. -/
  | unfinished
  deriving Inhabited

/-- What happens from a state on: how it ends, and the state at the end. -/
abbrev Course (α : Type) := State → Outcome α × State

/-- Someone who answers the requests of a computation. -/
abbrev Handler := Request → Course Value

namespace Course

open Proc (Round)

/-- What happens after a result; nothing happens after anything else. -/
@[inline] def andThen (r : Outcome α × State) (f : α → Course β) : Outcome β × State :=
  match r with
  | (.ok a, s) => f a s
  | (.thrown v, s) => (.thrown v, s)
  | (.fault f, s) => (.fault f, s)
  | (.unfinished, s) => (.unfinished, s)

/-- Performs an action. -/
@[inline] def perform (limits : Limits) (a : Action) : Course a.Reply := fun s =>
  match a.perform limits s with
  | (.ok r, s) => (.ok r, s)
  | (.error f, s) => (.fault f, s)

/-- Goes round a loop, at most `n` times. -/
def rounds (count : Course Unit) (test body : σ → Course (Round σ β)) : Nat → σ → Course β
  | 0, _, s => (.unfinished, s)
  | n + 1, x, s =>
    andThen (test x s) fun r s =>
      match r with
      | .done b => (.ok b, s)
      | .again x =>
        andThen (count s) fun _ s =>
          andThen (body x s) fun r s =>
            match r with
            | .done b => (.ok b, s)
            | .again x => rounds count test body n x s

end Course

namespace Proc

/-- Runs a computation from a state; `bound` is the bound on the rounds of a loop. -/
def run (limits : Limits) (bound : Nat) (handler : Handler) : Proc α → Course α
  | ret a, s => (.ok a, s)
  | throw v, s => (.thrown v, s)
  | fault f, s => (.fault f, s)
  | look k, s => run limits bound handler (k s.store) s
  | act a k, s => Course.andThen (Course.perform limits a s) fun r s => run limits bound handler (k r) s
  | ask r k, s =>
    match handler r s with
    | (.ok v, s) => run limits bound handler (k (.ok v)) s
    | (.thrown v, s) => run limits bound handler (k (.error v)) s
    | (.fault f, s) => (.fault f, s)
    | (.unfinished, s) => (.unfinished, s)
  | loop runner kind test body x k, s =>
    Course.andThen
      (Course.rounds (Course.perform limits (.tick runner kind)) (fun x => run limits bound handler (test x))
        (fun x => run limits bound handler (body x)) bound x s)
      fun b s => run limits bound handler (k b) s

end Proc

end ScriptEngine
