import ScriptEngine.Proofs.Holes

/-!
# Jumps and their targets

A statement ends with a jump only if its text holds such a jump that nothing inside the statement takes. The
text says which: a loop takes the jumps without a label and those to the labels directly in front of it, a
`switch` takes a `break` without a label, a label takes a `break` to itself, and nothing inside a statement
takes a `return`. Functions inside a statement have jumps of their own.

## Main definitions

* `Stmt.jumps`: the jumps that can leave a statement.
* `Completion.jump?`: the jump that a statement ended with.
* `Proc.Yields`: what is true of every result of a computation.

## Main results

* `exec_jumps`: a statement ends with a jump only if it has such a jump.
* `jumps_taken`: the same for counted statements, and what follows for programs and bodies of functions.
-/

namespace ScriptEngine

open Proc (Round)

/-- A jump that looks for a target. -/
inductive Jump where
  | breaks (label : Option Text)
  | continues (label : Option Text)
  | returns
  deriving DecidableEq

namespace Jump

/-- Whether a loop with the given labels in front of it takes a jump. -/
def isForLoop (labels : List Text) : Jump → Bool
  | breaks l => Completion.isFor labels l
  | continues l => Completion.isFor labels l
  | returns => false

/-- The jumps that leave a loop with the given labels in front of it. -/
def outsideLoop (labels : List Text) (js : List Jump) : List Jump := js.filter (!isForLoop labels ·)

/-- The jumps that leave a `switch`. -/
def outsideSwitch (js : List Jump) : List Jump := js.filter (· ≠ breaks none)

/-- The jumps that leave a statement with a label. -/
def outsideLabel (label : Text) (js : List Jump) : List Jump := js.filter (· ≠ breaks (some label))

end Jump

mutual

/-- The jumps that can leave a statement with the given labels directly in front of it. -/
def Stmt.jumps (labels : List Text) : Stmt → List Jump
  | .sequence body => listJumps body
  | .block body => listJumps body
  | .empty => []
  | .expr _ => []
  | .var _ => []
  | .function _ _ _ => []
  | .ifElse _ consequent alternate => consequent.jumps [] ++ optionJumps alternate
  | .whileLoop _ body => Jump.outsideLoop labels (body.jumps [])
  | .doLoop body _ => Jump.outsideLoop labels (body.jumps [])
  | .forVar _ _ _ body => Jump.outsideLoop labels (body.jumps [])
  | .forExpr _ _ _ body => Jump.outsideLoop labels (body.jumps [])
  | .forInVar _ _ body => Jump.outsideLoop labels (body.jumps [])
  | .forIn _ _ body => Jump.outsideLoop labels (body.jumps [])
  | .switch _ clauses => Jump.outsideSwitch (clauseJumps clauses)
  | .tryCatch body handler finalizer =>
    body.jumps [] ++ handlerJumps handler ++ optionJumps finalizer
  | .throws _ => []
  | .returns _ => [.returns]
  | .breaks label => [.breaks label]
  | .continues label => [.continues label]
  | .labelled label body =>
    Jump.outsideLabel label (body.jumps (if takesLabels body then labels ++ [label] else []))
  | .within _ body => body.jumps []

/-- The jumps that can leave a statement that may be missing. -/
def optionJumps : Option Stmt → List Jump
  | none => []
  | some s => s.jumps []

/-- The jumps that can leave the handler of a `try` statement. -/
def handlerJumps : Option (Text × Stmt) → List Jump
  | none => []
  | some (_, s) => s.jumps []

/-- The jumps that can leave a list of statements. -/
def listJumps : List Stmt → List Jump
  | [] => []
  | s :: rest => s.jumps [] ++ listJumps rest

/-- The jumps that can leave the clauses of a `switch`. -/
def clauseJumps : List Clause → List Jump
  | [] => []
  | .case _ body :: rest => listJumps body ++ clauseJumps rest
  | .default body :: rest => listJumps body ++ clauseJumps rest

end

namespace Completion

/-- The jump that a statement ended with. -/
def jump? : Completion → Option Jump
  | normal _ => none
  | breaks _ l => some (.breaks l)
  | continues _ l => some (.continues l)
  | returns _ => some .returns
  | throws _ => none

/-- Whether the end of a statement is normal, a thrown value, or one of the given jumps. -/
def Allowed (js : List Jump) (c : Completion) : Prop := ∀ j, c.jump? = some j → j ∈ js

variable {js js' : List Jump} {c : Completion}

theorem Allowed.mono (h : Allowed js c) (hsub : js ⊆ js') : Allowed js' c := fun j hj => hsub (h j hj)

@[simp] theorem allowed_normal (js : List Jump) (v : Option Value) : Allowed js (normal v) := by
  simp [Allowed, jump?]

@[simp] theorem allowed_throws (js : List Jump) (v : Value) : Allowed js (throws v) := by
  simp [Allowed, jump?]

/-- A construct that takes some of the jumps leaves the others. -/
theorem Allowed.filter {keep : Jump → Bool} (h : Allowed js c) {e : Completion}
    (he : ∀ j, e.jump? = some j → c.jump? = some j ∧ keep j) : Allowed (js.filter keep) e := by
  intro j hj
  obtain ⟨hc, hkeep⟩ := he j hj
  exact List.mem_filter.mpr ⟨h j hc, hkeep⟩

theorem Allowed.afterRound (h : Allowed js c) (labels : List Text) (latest : Option Value) {e : Completion}
    (he : afterRound labels latest c = .done e) : Allowed (Jump.outsideLoop labels js) e := by
  refine h.filter fun j hj => ?_
  cases c with
  | normal v => cases he
  | breaks v l =>
      by_cases hl : isFor labels l <;> simp only [Completion.afterRound, hl] at he <;> cases he <;> cases hj
      exact ⟨rfl, by simp [Jump.isForLoop, hl]⟩
  | continues v l =>
      by_cases hl : isFor labels l <;> simp only [Completion.afterRound, hl] at he <;> cases he
      cases hj
      exact ⟨rfl, by simp [Jump.isForLoop, hl]⟩
  | returns v =>
      cases he
      cases hj
      exact ⟨rfl, rfl⟩
  | throws v =>
      cases he
      cases hj

theorem Allowed.afterStatement (h : Allowed js c) (latest : Option Value) {e : Completion}
    (he : afterStatement latest c = .done e) : Allowed js e := by
  cases c with
  | normal v => cases he
  | breaks v l => cases he; exact h
  | continues v l => cases he; exact h
  | returns v => cases he; exact h
  | throws v => cases he; exact h

theorem Allowed.afterLabel (h : Allowed js c) (label : Text) :
    Allowed (Jump.outsideLabel label js) (afterLabel label c) := by
  refine h.filter fun j hj => ?_
  cases c with
  | breaks v l =>
      cases l with
      | none =>
          cases hj
          exact ⟨rfl, rfl⟩
      | some l =>
          by_cases hl : l = label <;>
            simp only [Completion.afterLabel, hl, if_true, if_false] at hj <;> cases hj
          exact ⟨rfl, by simpa using hl⟩
  | normal v => cases hj
  | throws v => cases hj
  | continues v l =>
      cases hj
      exact ⟨rfl, rfl⟩
  | returns v =>
      cases hj
      exact ⟨rfl, rfl⟩

theorem Allowed.afterSwitch (h : Allowed js c) : Allowed (Jump.outsideSwitch js) (afterSwitch c) := by
  refine h.filter fun j hj => ?_
  cases c with
  | breaks v l =>
      cases l with
      | none => cases hj
      | some l =>
          cases hj
          exact ⟨rfl, by simp⟩
  | normal v => cases hj
  | throws v => cases hj
  | continues v l =>
      cases hj
      exact ⟨rfl, by simp⟩
  | returns v =>
      cases hj
      exact ⟨rfl, rfl⟩

end Completion

/-! ## Ends of statements -/

section Statements

open Proc (Yields)
open Completion

variable {js : List Jump}

theorem Proc.Yields.allow {js' : List Jump} {p : Proc Completion} (hp : Yields (Allowed js) p) (h : js ⊆ js') :
    Yields (Allowed js') p := hp.mono fun _ he => he.mono h

theorem Proc.Yields.allowRound {js' : List Jump} {p : Proc (Round (Option Value) Completion)}
    (hp : Yields (Round.Ends (Allowed js)) p) (h : js ⊆ js') : Yields (Round.Ends (Allowed js')) p :=
  hp.mono fun _ hr => hr.mono fun _ he => he.mono h

theorem Proc.Yields.goOn (latest : Option Value) (test : Proc Value) :
    Yields (Round.Ends (Allowed js)) (goOn latest test) := by
  refine .after test fun v => ?_
  split
  · exact .pure trivial
  · exact .pure (allowed_normal _ _)

/-- A round of a loop whose body can end in certain ways, with something to do before the next round. -/
theorem Proc.Yields.beforeNext {labels : List Text} {latest : Option Value} {p : Proc Completion}
    (hp : Yields (Allowed js) p) {next : Option Value → Proc (Round (Option Value) Completion)}
    (hnext : ∀ latest, Yields (Round.Ends (Allowed (Jump.outsideLoop labels js))) (next latest)) :
    Yields (Round.Ends (Allowed (Jump.outsideLoop labels js)))
      (do beforeNext (afterRound labels latest (← p)) next) := by
  refine hp.bind fun e he => ?_
  cases hr : afterRound labels latest e with
  | done e' => exact .pure (he.afterRound labels latest hr)
  | again latest' => exact hnext latest'

/-- A round of a loop whose body can end in certain ways. -/
theorem Proc.Yields.round {labels : List Text} {latest : Option Value} {p : Proc Completion}
    (hp : Yields (Allowed js) p) :
    Yields (Round.Ends (Allowed (Jump.outsideLoop labels js))) (do return afterRound labels latest (← p)) := by
  refine hp.bind fun e he => .pure ?_
  cases hr : afterRound labels latest e with
  | done e' => exact he.afterRound labels latest hr
  | again latest' => trivial

/-- The rounds of a `for` loop. -/
theorem Proc.Yields.forRounds {c : Context} {labels : List Text} {body : Stmt} (test update : Option Expr)
    (hbody : Yields (Allowed js) (exec c [] body)) :
    Yields (Allowed (Jump.outsideLoop labels js)) (Layer.forRounds (.of body) c labels test update) := by
  refine .repeated (fun latest => ?_) (fun _ => hbody.beforeNext fun latest => ?_) _
  · cases test with
    | none => exact .pure trivial
    | some e => exact .goOn latest _
  · cases update with
    | none => exact .pure trivial
    | some e => exact .after _ fun _ => .pure trivial

theorem Proc.Yields.counted {Q : Completion → Prop} {c : Context} {s : Stmt} {p : Proc Completion}
    (hp : Yields Q p) : Yields Q (counted c s p) := .after _ fun _ => hp

/-- The rounds of a loop over the keys of an object. -/
theorem Proc.Yields.keyRounds {c : Context} {labels : List Text} {body : Stmt} (target : Proc Place) (object : Value)
    (hbody : Yields (Allowed js) (exec c [] body)) :
    Yields (Allowed (Jump.outsideLoop labels js)) (Layer.keyRounds (.of body) c labels target object) := by
  unfold Layer.keyRounds
  split
  · exact .pure (allowed_normal _ _)
  · refine .after _ fun o => .after _ fun keys => .walk (fun k latest => ?_) (fun _ => allowed_normal _ _) _ _
    refine .after _ fun here => ?_
    split
    · exact .pure trivial
    · exact .after _ fun _ => .after _ fun _ => hbody.counted.round

theorem allowed_ofAttempt {e : Except Value Completion} (h : ∀ a, e = .ok a → Allowed js a) :
    Allowed js (ofAttempt e) := by
  cases e with
  | ok e' => exact h e' rfl
  | error v => exact allowed_throws _ v

/-- The last part of a `try` statement: a normal end leaves the end before it as it is. -/
theorem Proc.Yields.finalized {js' : List Jump} {c : Context} {ending : Completion} {finalizer : Option Stmt}
    (hend : Allowed js ending) :
    (∀ s, finalizer = some s → Yields (Allowed js') (exec c [] s)) → Yields (Allowed (js ++ js'))
      (match finalizer with
      | none => return ending
      | some s => do
        match ← ScriptEngine.counted c s (exec c [] s) with
        | .normal _ => return ending
        | last => return last) := by
  intro hlast
  have hbefore := hend.mono (List.subset_append_left js js')
  cases finalizer with
  | none => exact .pure hbefore
  | some s =>
      refine (hlast s rfl).counted.bind fun e he => ?_
      split
      · exact .pure hbefore
      · exact .pure (he.mono (List.subset_append_right js js'))

/-- Further statements after some that have not ended with a jump. -/
theorem Proc.Yields.thenRest {js' : List Jump} {p : Proc (Round (Option Value) Completion)}
    {rest : Option Value → Proc (Round (Option Value) Completion)} (hp : Yields (Round.Ends (Allowed js)) p)
    (hrest : ∀ latest, Yields (Round.Ends (Allowed js')) (rest latest)) :
    Yields (Round.Ends (Allowed (js ++ js')))
      (do
        match ← p with
        | .done e => return .done e
        | .again latest => rest latest) := by
  refine hp.bind fun r hr => ?_
  cases r with
  | done e => exact .pure (Allowed.mono hr (List.subset_append_left js js'))
  | again latest => exact (hrest latest).allowRound (List.subset_append_right js js')

theorem allowed_endOfList {r : Round (Option Value) Completion} (h : r.Ends (Allowed js)) :
    Allowed js (endOfList r) := by
  cases r with
  | again v => exact allowed_normal _ v
  | done e => exact h

mutual

/-- A statement ends normally, with a thrown value, or with a jump that can leave it. -/
theorem exec_jumps (c : Context) (labels : List Text) :
    (s : Stmt) → Yields (Allowed (s.jumps labels)) (exec c labels s)
  | .sequence body => by
      rw [exec, Stmt.jumps]
      exact .after _ fun _ => (execList_jumps _ _ body).bind fun _ hr => .pure (allowed_endOfList hr)
  | .block body => by
      rw [exec, Stmt.jumps]
      exact .after _ fun _ => .after _ fun _ =>
        (execList_jumps _ _ body).bind fun _ hr => .pure (allowed_endOfList hr)
  | .empty => by
      rw [exec]
      exact .pure (allowed_normal _ _)
  | .expr e => by
      rw [exec]
      exact .after _ fun _ => .pure (allowed_normal _ _)
  | .var decls => by
      rw [exec]
      exact .after _ fun _ => .pure (allowed_normal _ _)
  | .function name params body => by
      rw [exec]
      exact .after _ fun _ => .after _ fun _ => .pure (allowed_normal _ _)
  | .ifElse test consequent none => by
      rw [exec, Stmt.jumps]
      refine .after _ fun _ => ?_
      split
      · exact ((exec_jumps _ _ consequent).allow (List.subset_append_left _ _)).counted
      · exact .pure (allowed_normal _ _)
  | .ifElse test consequent (some alternate) => by
      rw [exec, Stmt.jumps, optionJumps]
      refine .after _ fun _ => ?_
      split
      · exact ((exec_jumps _ _ consequent).allow (List.subset_append_left _ _)).counted
      · exact ((exec_jumps _ _ alternate).allow (List.subset_append_right _ _)).counted
  | .whileLoop test body => by
      rw [exec, Stmt.jumps]
      exact .repeated (fun latest => .goOn latest _) (fun latest => (exec_jumps _ _ body).round) _
  | .doLoop body test => by
      rw [exec, Stmt.jumps]
      refine .repeated (fun latest => ?_) (fun _ => (exec_jumps _ _ body).beforeNext fun latest => ?_) _
      · exact .pure trivial
      · exact .goOn latest _
  | .forVar decls test update body => by
      rw [exec, Stmt.jumps]
      exact .after _ fun _ => (exec_jumps _ _ body).forRounds test update
  | .forExpr none test update body => by
      rw [exec, Stmt.jumps]
      exact (exec_jumps _ _ body).forRounds test update
  | .forExpr (some e) test update body => by
      rw [exec, Stmt.jumps]
      exact .after _ fun _ => (exec_jumps _ _ body).forRounds test update
  | .forInVar decls object body => by
      rw [exec, Stmt.jumps]
      exact .after _ fun _ => .after _ fun v => (exec_jumps _ _ body).keyRounds _ v
  | .forIn target object body => by
      rw [exec, Stmt.jumps]
      exact .after _ fun v => (exec_jumps _ _ body).keyRounds _ v
  | .switch subject clauses => by
      rw [exec, Stmt.jumps]
      refine .after _ fun _ => .after _ fun _ => .after _ fun found => ?_
      cases found
      all_goals
        refine .after _ fun start => ?_
        cases start with
        | none => exact .pure (allowed_normal _ _)
        | some i =>
            exact .after _ fun _ =>
              (execClauses_jumps _ _ _ clauses).bind fun _ hr => .pure (allowed_endOfList hr).afterSwitch
  | .tryCatch body handler finalizer => by
      -- The parts are taken up before any case split, while they are still parts of the statement.
      have hbody := exec_jumps c [] body
      have hhandler := fun c => handler_jumps c handler
      have hlast := option_jumps c finalizer
      rw [exec, Stmt.jumps]
      refine hbody.counted.attempt.bind fun e he => ?_
      have hfirst : Allowed (body.jumps [] ++ handlerJumps handler) (ofAttempt e) :=
        (allowed_ofAttempt he).mono (List.subset_append_left _ _)
      generalize ofAttempt e = first at hfirst
      cases handler with
      | none => exact (Yields.pure hfirst).bind fun _ hend => .finalized hend hlast
      | some h =>
          obtain ⟨name, s⟩ := h
          cases first
          case throws v =>
            refine .after _ fun scope => .after _ fun _ => ?_
            refine (hhandler ⟨c.runner, scope⟩ name s rfl).counted.attempt.bind fun e he => ?_
            have hsecond := (allowed_ofAttempt he).mono (List.subset_append_right (body.jumps []) _)
            exact (Yields.pure hsecond).bind fun _ hend => .finalized hend hlast
          all_goals exact (Yields.pure hfirst).bind fun _ hend => .finalized hend hlast
  | .throws e => by
      rw [exec]
      exact .after _ fun _ => .pure (allowed_throws _ _)
  | .returns none => by
      rw [exec, Stmt.jumps]
      exact .pure fun j hj => by simpa [jump?, eq_comm] using hj
  | .returns (some e) => by
      rw [exec, Stmt.jumps]
      exact .after _ fun _ => .pure fun j hj => by simpa [jump?, eq_comm] using hj
  | .breaks label => by
      rw [exec, Stmt.jumps]
      exact .pure fun j hj => by simpa [jump?, eq_comm] using hj
  | .continues label => by
      rw [exec, Stmt.jumps]
      exact .pure fun j hj => by simpa [jump?, eq_comm] using hj
  | .labelled label body => by
      rw [exec, Stmt.jumps]
      exact (exec_jumps _ _ body).counted.bind fun _ h => .pure (h.afterLabel label)
  | .within object body => by
      rw [exec, Stmt.jumps]
      exact .after _ fun _ => .after _ fun _ => .after _ fun _ => (exec_jumps _ _ body).counted

theorem option_jumps (c : Context) :
    (o : Option Stmt) → ∀ s, o = some s → Yields (Allowed (optionJumps o)) (exec c [] s)
  | none, _, h => by cases h
  | some s, _, h => by
      cases h
      rw [optionJumps]
      exact exec_jumps c [] s

theorem handler_jumps (c : Context) :
    (o : Option (Text × Stmt)) → ∀ name s, o = some (name, s) → Yields (Allowed (handlerJumps o)) (exec c [] s)
  | none, _, _, h => by cases h
  | some (_, s), _, _, h => by
      cases h
      rw [handlerJumps]
      exact exec_jumps c [] s

theorem execList_jumps (c : Context) (latest : Option Value) :
    (body : List Stmt) → Yields (Round.Ends (Allowed (listJumps body))) (execList c latest body)
  | [] => by
      rw [execList]
      exact .pure trivial
  | s :: rest => by
      have hs := exec_jumps c [] s
      have hrest := fun latest =>
        (execList_jumps c latest rest).allowRound (List.subset_append_right (s.jumps []) (listJumps rest))
      rw [listJumps]
      unfold execList
      -- The declaration of a function is skipped; it has no jumps of its own.
      split
      · rename_i h
        cases h
      · rename_i h
        cases h
        exact hrest _
      · rename_i h
        cases h
        refine hs.counted.bind fun e he => ?_
        split
        · rename_i hr
          exact .pure ((he.afterStatement latest hr).mono (List.subset_append_left _ _))
        · exact hrest _

theorem execClauses_jumps (c : Context) (latest : Option Value) (skip : Nat) :
    (clauses : List Clause) →
      Yields (Round.Ends (Allowed (clauseJumps clauses))) (execClauses c latest skip clauses)
  | [] => by
      rw [execClauses]
      exact .pure trivial
  | .case test body :: rest => by
      have hbody := execList_jumps c latest body
      have hrest := fun latest skip => execClauses_jumps c latest skip rest
      rw [clauseJumps]
      cases skip with
      | zero =>
          rw [execClauses]
          exact hbody.thenRest fun latest => hrest latest 0
      | succ n =>
          rw [execClauses]
          exact (hrest latest n).allowRound (List.subset_append_right _ _)
  | .default body :: rest => by
      have hbody := execList_jumps c latest body
      have hrest := fun latest skip => execClauses_jumps c latest skip rest
      rw [clauseJumps]
      cases skip with
      | zero =>
          rw [execClauses]
          exact hbody.thenRest fun latest => hrest latest 0
      | succ n =>
          rw [execClauses]
          exact (hrest latest n).allowRound (List.subset_append_right _ _)

end

theorem runList_jumps (c : Context) (declareIn : FrameId) (body : List Stmt) :
    Yields (Allowed (listJumps body)) (runList c declareIn body) :=
  .after _ fun _ => .after _ fun _ => (execList_jumps c none body).bind fun _ hr => .pure (allowed_endOfList hr)

/-- A fault of a computation whose last step ends with a result or a thrown value comes from before that
step. -/
theorem Proc.Yields.fault_of_bind {α β : Type} {Q : α → Prop} {p : Proc α} {k : α → Proc β} (hp : Yields Q p)
    (hk : ∀ a, Q a → (∃ b, k a = Proc.ret b) ∨ ∃ v, k a = Proc.throw v) {limits : Limits} {bound : Nat}
    {handler : Handler} {s t : State} {f : Fault} (h : (p >>= k).run limits bound handler s = (.fault f, t)) :
    p.run limits bound handler s = (.fault f, t) := by
  rw [Proc.run_bind] at h
  rcases hr : p.run limits bound handler s with ⟨a | v | f' | _, u⟩ <;> rw [hr] at h
  · obtain ⟨b, hb⟩ | ⟨v, hv⟩ := hk a (hp _ _ _ _ _ _ hr)
    · rw [Course.andThen_ok, hb] at h
      cases h
    · rw [Course.andThen_ok, hv] at h
      cases h
  · cases h
  · rw [Course.andThen_fault] at h
    cases h
    rfl
  · cases h

/-- A program in which every jump has a target does not end with one. -/
theorem fault_of_runProgram {p : Program} (hp : listJumps p = []) {scope : FrameId} {runner : RunnerId}
    {limits : Limits} {bound : Nat} {handler : Handler} {s t : State} {f : Fault}
    (h : (runProgram scope runner p).run limits bound handler s = (.fault f, t)) :
    (runList ⟨runner, scope⟩ (s.store.varScope scope) p).run limits bound handler s = (.fault f, t) := by
  have hend := runList_jumps ⟨runner, scope⟩ (s.store.varScope scope) p
  rw [hp] at hend
  refine hend.fault_of_bind (fun e he => ?_) h
  cases e with
  | normal v => exact .inl ⟨_, rfl⟩
  | throws v => exact .inr ⟨v, rfl⟩
  | breaks v l => cases he _ rfl
  | continues v l => cases he _ rfl
  | returns v => cases he _ rfl

/-- A body of a function in which every jump but `return` has a target ends with no other jump. -/
theorem fault_of_runBody {body : List Stmt} (hbody : ∀ j ∈ listJumps body, j = .returns) {scope : FrameId}
    {runner : RunnerId} {name : Text} {limits : Limits} {bound : Nat} {handler : Handler} {s t : State}
    {f : Fault} (h : (runBody scope runner name body).run limits bound handler s = (.fault f, t)) :
    (runList ⟨runner, scope⟩ scope body).run limits bound handler s = (.fault f, t) := by
  refine (runList_jumps ⟨runner, scope⟩ scope body).fault_of_bind (fun e he => ?_) h
  cases e with
  | normal v => exact .inl ⟨_, rfl⟩
  | returns v => exact .inl ⟨v, rfl⟩
  | throws v => exact .inr ⟨v, rfl⟩
  | breaks v l => cases hbody _ (he _ rfl)
  | continues v l => cases hbody _ (he _ rfl)

end Statements

/-- A statement ends with a jump only if its text holds such a jump and nothing inside it takes the jump.
Hence a program or a body of a function whose jumps have targets never fails for want of a target: its
faults are those of its statements. -/
theorem jumps_taken :
    (∀ (c : Context) (labels : List Text) (s : Stmt) (limits : Limits) (bound : Nat) (handler : Handler)
      (before after : State) (e : Completion) (j : Jump),
      (statement c labels s).run limits bound handler before = (.ok e, after) → e.jump? = some j →
        j ∈ s.jumps labels) ∧
    (∀ (scope : FrameId) (runner : RunnerId) (p : Program), listJumps p = [] →
      ∀ (limits : Limits) (bound : Nat) (handler : Handler) (before after : State) (f : Fault),
        (runProgram scope runner p).run limits bound handler before = (.fault f, after) →
          (runList ⟨runner, scope⟩ (before.store.varScope scope) p).run limits bound handler before =
            (.fault f, after)) ∧
    ∀ (scope : FrameId) (runner : RunnerId) (name : Text) (body : List Stmt),
      (∀ j ∈ listJumps body, j = .returns) →
        ∀ (limits : Limits) (bound : Nat) (handler : Handler) (before after : State) (f : Fault),
          (runBody scope runner name body).run limits bound handler before = (.fault f, after) →
            (runList ⟨runner, scope⟩ scope body).run limits bound handler before = (.fault f, after) := by
  refine ⟨?_, ?_, ?_⟩
  · intro c labels s limits bound handler before after e j hrun hj
    exact (exec_jumps c labels s).counted limits bound handler before e after hrun j hj
  · intro scope runner p hp limits bound handler before after f hrun
    exact fault_of_runProgram hp hrun
  · intro scope runner name body hbody limits bound handler before after f hrun
    exact fault_of_runBody hbody hrun

/-- Two nested loops; the inner one goes on with the outer one, which leaves a `switch` on the way. -/
def nestedLoops : Program :=
  let go : Stmt := .whileLoop (.literal (.bool true)) (.continues (some "outer"))
  let leave : Stmt := .switch (.literal .null) [.default [.breaks none]]
  [.labelled "outer" (.whileLoop (.literal (.bool true)) (.tryCatch go none (some leave)))]

/-- A `break` on its own ends with a jump that can leave it. The nested loops as a whole end with no jump, and
a body that returns ends with no other one. -/
theorem jumps_taken_nestedLoops :
    .breaks none ∈ (Stmt.breaks none).jumps [] ∧ listJumps nestedLoops = [] ∧
      (∀ (limits : Limits) (bound : Nat) (handler : Handler) (before after : State) (f : Fault),
        (runProgram 0 0 nestedLoops).run limits bound handler before = (.fault f, after) →
          (runList ⟨0, 0⟩ (before.store.varScope 0) nestedLoops).run limits bound handler before =
            (.fault f, after)) ∧
      ∀ (limits : Limits) (bound : Nat) (handler : Handler) (before after : State) (f : Fault),
        (runBody 0 0 [] (nestedLoops ++ [.returns none])).run limits bound handler before = (.fault f, after) →
          (runList ⟨0, 0⟩ 0 (nestedLoops ++ [.returns none])).run limits bound handler before =
            (.fault f, after) := by
  obtain ⟨hstatement, hprogram, hbody⟩ := jumps_taken
  refine ⟨?_, by decide, hprogram 0 0 nestedLoops (by decide), hbody 0 0 [] _ (by decide)⟩
  have handler : Handler := fun _ s => (.unfinished, s)
  exact hstatement ⟨0, 0⟩ [] (.breaks none) {} 0 handler {} _ (.breaks none none) _ rfl rfl

end ScriptEngine
