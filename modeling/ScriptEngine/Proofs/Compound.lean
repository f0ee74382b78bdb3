import ScriptEngine.Grammar.Parser
import ScriptEngine.Proofs.Holes
import ScriptEngine.Proofs.Record

/-!
# Compound assignment

`x op= e` and `x = x op e` both look up where `x` is bound, before anything else, and both write there at the end.
They differ in when they read `x`. A place remembers nothing, and `x op= e` reads it when the operand is there, so
after `e`. In `x = x op e` the left operand of `op` is a value, which is read before `e`.

So for each `e` both run `e` first and then combine a value of `x` with that of `e`, and they come to the same
thing, to the last action, if `e` leaves alone what `x` reads. If it assigns to `x`, they need not.

## Main definitions

* `Parser.compoundOps`: the operators that have a form with `=` after them.
* `Store.placeOf`, `Place.valueIn`: where a variable is bound, and what is there.
* `Place.write`: what both forms end with.

## Main results

* `observe_compound`, `observe_expanded`: each form as a run of `e` and what comes after it.
* `compound_expanded`: both forms, and when they come to the same thing.
* `compound_reads_late`: an operand that assigns to the variable tells them apart.
-/

namespace ScriptEngine

open Proc

/-- The operators that have a form with `=` after them. -/
def Parser.compoundOps : List BinaryOp := assignmentOps.filterMap fun t => (Program.assignOp? t).join

theorem Parser.compoundOps_eq : compoundOps =
    [.add, .sub, .mul, .div, .mod, .shiftLeft, .shiftRight, .shiftRightUnsigned, .bitAnd, .bitOr, .bitXor] := by
  decide

/-- The place of a variable: where it is bound, or in the scope itself if it is bound nowhere. -/
def Store.placeOf (s : Store) (scope : FrameId) (x : Text) : Place :=
  ⟨(s.owner? scope (.ofText x)).getD (.scope scope), .ofText x⟩

/-- The value at a place. -/
def Place.valueIn (p : Place) (s : Store) : Value := s.read p.container p.key

/-- Combines a value that has been read at a place with an operand, and writes the result there. -/
def Place.write (p : Place) (op : BinaryOp) (old operand : Value) : Proc Value := do
  p.assign (← Operator.apply op (return old) (return operand))

/-- These operators need nothing but the values of their operands. -/
theorem binaryValue_of_compound {op : BinaryOp} (hop : op ∈ Parser.compoundOps) (left right : Value) :
    binaryValue op left right = Operator.apply op (return left) (return right) := by
  rw [Parser.compoundOps_eq] at hop
  cases op with
  | elementOf => simp at hop
  | instanceOf => simp at hop
  | _ => rfl

section Forms

variable {α : Type} {limits : Limits} {bound : Nat} {within : List Request} {answers : Request → Passage Value}
  (c : Context) (x : Text) (op : BinaryOp) (e : Expr) (s : State)

theorem place_ident : place (eval c (.ident x)) = read fun s => s.placeOf c.scope x := by
  simp only [eval]
  rfl

theorem value_ident : value (eval c (.ident x)) = read (fun s => s.placeOf c.scope x) >>= fun p => read p.valueIn := by
  simp only [eval]
  rfl

/-- What is read first is the same as if it were known. -/
theorem observe_read_bind {β : Type} (f : Store → α) (k : α → Proc β) :
    (read f >>= k).observe limits bound within answers s = (k (f s.store)).observe limits bound within answers s := rfl

/-- A compound assignment finds the place, runs the operand, and reads the place then. -/
theorem observe_compound :
    (value (eval c (.assign (some op) (.ident x) e))).observe limits bound within answers s =
      Passage.andThen ((value (eval c e)).observe limits bound within answers s) fun v t =>
        let p := s.store.placeOf c.scope x
        (p.write op (p.valueIn t.store) v).observe limits bound within answers t := by
  have heval : value (eval c (.assign (some op) (.ident x) e)) =
      read (fun s => s.placeOf c.scope x) >>= fun p => value (eval c e) >>= fun v =>
        read p.valueIn >>= fun old => p.write op old v := by
    rw [eval, place_ident]
    simp [value]
    rfl
  rw [heval, observe_read_bind, Proc.observe_bind]
  rfl

/-- The expanded form finds the place and reads it, and then runs the operand. -/
theorem observe_expanded (hop : op ∈ Parser.compoundOps) :
    (value (eval c (.assign none (.ident x) (.binary op (.ident x) e)))).observe limits bound within answers s =
      Passage.andThen ((value (eval c e)).observe limits bound within answers s) fun v t =>
        let p := s.store.placeOf c.scope x
        (p.write op (p.valueIn s.store) v).observe limits bound within answers t := by
  have heval : value (eval c (.assign none (.ident x) (.binary op (.ident x) e))) =
      read (fun s => s.placeOf c.scope x) >>= fun p => read (fun s => s.placeOf c.scope x) >>= fun q =>
        read q.valueIn >>= fun old => value (eval c e) >>= fun v => p.write op old v := by
    rw [eval, place_ident, eval, value_ident]
    simp [value, binaryValue_of_compound hop, Place.write]
  rw [heval, observe_read_bind, observe_read_bind, observe_read_bind, Proc.observe_bind]

/-- For each operand `e`, `x op= e` and `x = x op e` run `e` and then combine a value of `x` with that of `e`, at
the place where `x` was bound to begin with. For `x op= e` it is the value that `x` has then, and for `x = x op e`
the value that it had before `e`. If it is the same one whenever `e` has a value, the two forms do the same to the
end: the same actions, the same value or thrown value, and the same final state. -/
theorem compound_expanded (hop : op ∈ Parser.compoundOps) :
    let p := s.store.placeOf c.scope x
    let operand := (value (eval c e)).observe limits bound within answers s
    let compound := (value (eval c (.assign (some op) (.ident x) e))).observe limits bound within answers s
    let expanded :=
      (value (eval c (.assign none (.ident x) (.binary op (.ident x) e)))).observe limits bound within answers s
    (compound = Passage.andThen operand fun v t =>
      (p.write op (p.valueIn t.store) v).observe limits bound within answers t) ∧
    (expanded = Passage.andThen operand fun v t =>
      (p.write op (p.valueIn s.store) v).observe limits bound within answers t) ∧
    ((∀ h v t, operand = (h, .ok v, t) → p.valueIn t.store = p.valueIn s.store) → compound = expanded) := by
  intro p operand compound expanded
  have hcompound : compound = Passage.andThen operand fun v t =>
      (p.write op (p.valueIn t.store) v).observe limits bound within answers t := observe_compound c x op e s
  have hexpanded : expanded = Passage.andThen operand fun v t =>
      (p.write op (p.valueIn s.store) v).observe limits bound within answers t := observe_expanded c x op e s hop
  refine ⟨hcompound, hexpanded, fun hkept => ?_⟩
  rw [hcompound, hexpanded]
  rcases hoperand : operand with ⟨h, v | v | f | _, t⟩
  · rw [Passage.andThen_ok, Passage.andThen_ok, hkept h v t hoperand]
  all_goals rfl

end Forms

/-- A state with one scope, in which `x` is the text `a`. -/
def letterA : State := { store := { frames := #[{ entries := [(.ofText "x", .str "a")] }], objects := #[] } }

/-- `x += true`, where the operand leaves `x` alone. -/
theorem compound_expanded_kept :
    let run := fun e => (value (eval ⟨0, 0⟩ e)).observeIn {} 1 letterA
    BinaryOp.add ∈ Parser.compoundOps ∧
      run (.assign (some .add) (.ident "x") (.literal (.bool true))) =
        run (.assign none (.ident "x") (.binary .add (.ident "x") (.literal (.bool true)))) := by
  intro run
  have hop : BinaryOp.add ∈ Parser.compoundOps := by decide
  refine ⟨hop, (compound_expanded ⟨0, 0⟩ "x" .add (.literal (.bool true)) letterA hop).2.2 ?_⟩
  intro h v t hoperand
  cases hoperand
  rfl

/-- An operand that assigns to the variable, as in `x += (x = "b")`: with `x` the text `a` before, the result is
`bb`, while that of `x = x + (x = "b")` is `ab`. -/
theorem compound_reads_late :
    let run := fun e => ((value (eval ⟨0, 0⟩ e)).observeIn {} 1 letterA).2.1
    let e := Expr.assign none (.ident "x") (.literal (.str "b"))
    let compound := run (.assign (some .add) (.ident "x") e)
    let expanded := run (.assign none (.ident "x") (.binary .add (.ident "x") e))
    BinaryOp.add ∈ Parser.compoundOps ∧ compound = .ok (.str "bb") ∧ expanded = .ok (.str "ab") ∧
      compound ≠ expanded := by
  intro run e compound expanded
  have hcompound : compound = .ok (.str "bb") := rfl
  have hexpanded : expanded = .ok (.str "ab") := rfl
  refine ⟨by decide, hcompound, hexpanded, ?_⟩
  rw [hcompound, hexpanded]
  simp [Text.ofString]

end ScriptEngine
