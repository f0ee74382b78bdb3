import ScriptEngine.Proofs.Jumps
import ScriptEngine.Proofs.Mirrors
import ScriptEngine.Proofs.ThrowForms

/-!
# What a program shows

The value of a program is meant to be that of the last expression statement it executed. The ends of statements
carry values around for this. To say which value arrives, statements are executed here in a second way: they end
without a value, and all that expression statements show goes on a trail.

The two ways differ in one case. A loop hands on a jump that is for something around it as it is, while a list of
statements gives it the latest value. So a round that shows nothing and ends with such a jump makes the loop forget
what its earlier rounds have shown; on the trail this is marked as lost. Everything else is passed on, and the value
of a program is the latest one on the trail that is not lost.

## Main definitions

* `Shown`, `Trail`: the values of executed expression statements.
* `Ending`: how a statement ends, apart from values of expression statements.
* `shows`, `showsProgram`: statements and programs with their trails.
* `Stmt.every`: what holds of all statements inside a statement.

## Main results

* `exec_mirrors`: how a statement ends, read off its trail.
* `shows_keeps`: nothing is lost if no jump leads out of a loop.
* `runProgram_shown`: the value of a program without `try` statements.
* `runProgram_loses`: a value that is lost.
-/

namespace ScriptEngine

open Proc (Round perform read repeated toObject walk)

/-! ## Trails -/

/-- The value of an expression statement that has been executed. -/
structure Shown where
  /-- The value. -/
  value : Value
  /-- Whether a loop was left that did not hand it on. -/
  lost : Bool := false

/-- The values of expression statements, the latest first. -/
abbrev Trail := List Shown

namespace Trail

/-- The latest value that is not lost. -/
def latest? (t : Trail) : Option Value := (t.find? fun m => !m.lost).map (·.value)

/-- The same values, all lost. -/
def lose (t : Trail) : Trail := t.map fun m => { m with lost := true }

@[simp] theorem latest?_nil : latest? [] = none := rfl

theorem latest?_append (t before : Trail) : latest? (t ++ before) = t.latest?.or before.latest? := by
  rw [latest?, List.find?_append]
  cases h : t.find? fun m => !m.lost <;> simp [latest?, h]

@[simp] theorem latest?_lose (t : Trail) : latest? t.lose = none := by
  simp [latest?, lose, List.find?_map]

/-- What is shown at the end of a round that leaves a loop for something outside, after what was shown before. -/
def leaving (t before : Trail) : Trail := t ++ if t.latest?.isNone then before.lose else before

/-- Such a round hands on its own value or none. -/
theorem latest?_leaving (t before : Trail) : latest? (t.leaving before) = t.latest? := by
  rw [leaving, latest?_append]
  cases h : t.latest? <;> simp

end Trail

/-- How a statement ends, apart from values of expression statements. -/
inductive Ending where
  | normal
  | breaks (label : Option Text)
  | continues (label : Option Text)
  | returns (v : Value)
  | throws (v : Value)

namespace Ending

/-- The end of a statement that carries a value, where it can carry one. -/
def carrying (v : Option Value) : Ending → Completion
  | normal => .normal v
  | breaks l => .breaks v l
  | continues l => .continues v l
  | returns w => .returns w
  | throws w => .throws w

/-- The end of a statement with the given label: a `break` to that label ends here. -/
def afterLabel (label : Text) : Ending → Ending
  | breaks (some l) => if l = label then normal else breaks (some l)
  | e => e

/-- The end of a `switch`: a `break` without a label ends here. -/
def afterSwitch : Ending → Ending
  | breaks none => normal
  | e => e

variable (v : Option Value) (e : Ending)

theorem carrying_afterLabel (label : Text) :
    (e.afterLabel label).carrying v = Completion.afterLabel label (e.carrying v) := by
  cases e with
  | breaks l =>
    cases l with
    | none => rfl
    | some l => by_cases hl : l = label <;> simp [afterLabel, carrying, Completion.afterLabel, hl]
  | _ => rfl

theorem carrying_afterSwitch : e.afterSwitch.carrying v = Completion.afterSwitch (e.carrying v) := by
  cases e with
  | breaks l => cases l <;> rfl
  | _ => rfl

end Ending

/-- The end of a statement, apart from what it carries. -/
def Completion.ending : Completion → Ending
  | normal _ => .normal
  | breaks _ l => .breaks l
  | continues _ l => .continues l
  | returns v => .returns v
  | throws v => .throws v

/-- What has been shown, and how it ended. -/
abbrev Showing := Trail × Ending

namespace Showing

/-- What the end of a round means for a loop that has shown something before. -/
def afterRound (labels : List Text) (before : Trail) : Showing → Round Trail Showing
  | (t, .normal) => .again (t ++ before)
  | (t, .breaks l) =>
    if Completion.isFor labels l then .done (t ++ before, .normal) else .done (t.leaving before, .breaks l)
  | (t, .continues l) =>
    if Completion.isFor labels l then .again (t ++ before) else .done (t.leaving before, .continues l)
  | (t, .returns v) => .done (t ++ before, .returns v)
  | (t, .throws v) => .done (t ++ before, .throws v)

/-- The end of a statement that has shown something: it carries the latest value. -/
def completion (r : Showing) : Completion := r.2.carrying r.1.latest?

/-- The end of a round, with the latest value. -/
def ofRound : Round Trail Showing → Round (Option Value) Completion := Round.map Trail.latest? completion

/-- The end of a list of statements that has shown something. -/
def round (r : Showing) : Round (Option Value) Completion :=
  match r.2 with
  | .normal => .again r.1.latest?
  | e => .done (e.carrying r.1.latest?)

theorem endOfList_round (r : Showing) : endOfList r.round = r.completion := by
  obtain ⟨t, e⟩ := r
  cases e <;> rfl

theorem ofRound_afterRound (labels : List Text) (before : Trail) (r : Showing) :
    ofRound (r.afterRound labels before) = Completion.afterRound labels before.latest? r.completion := by
  obtain ⟨t, e⟩ := r
  cases e with
  | normal =>
    simp [afterRound, ofRound, Round.map, completion, Ending.carrying, Completion.afterRound, Trail.latest?_append]
  | breaks l =>
    by_cases hl : Completion.isFor labels l <;>
      simp [afterRound, ofRound, Round.map, completion, Ending.carrying, Completion.afterRound, hl,
        Trail.latest?_append, Trail.latest?_leaving]
  | continues l =>
    by_cases hl : Completion.isFor labels l <;>
      simp [afterRound, ofRound, Round.map, completion, Ending.carrying, Completion.afterRound, hl,
        Trail.latest?_append, Trail.latest?_leaving]
  | returns v => rfl
  | throws v => rfl

theorem afterStatement_completion (before t : Trail) (e : Ending) :
    Completion.afterStatement before.latest? (completion (t, e)) = round (t ++ before, e) := by
  cases e <;> simp [completion, round, Ending.carrying, Completion.afterStatement, Trail.latest?_append]

end Showing

/-! ## Statements with their trails -/

section Rounds

variable (c : Context) (labels : List Text)

/-- A round goes on if its test is true, or if there is none. -/
def Trail.test (t : Trail) : Option Expr → Proc (Round Trail Showing)
  | none => return .again t
  | some e => do if (← value (eval c e)).toBoolean then return .again t else return .done (t, .normal)

/-- What is done before the next round. -/
def Trail.update (t : Trail) : Option Expr → Proc (Round Trail Showing)
  | none => return .again t
  | some e => do
    let _ ← value (eval c e)
    return .again t

/-- The rounds of a loop. -/
def showsRounds (kind : NodeKind) (test : Trail → Proc (Round Trail Showing)) (body : Proc Showing)
    (next : Trail → Proc (Round Trail Showing)) : Proc Showing :=
  repeated c.runner kind test
    (fun before => do
      match Showing.afterRound labels before (← body) with
      | .done r => return .done r
      | .again t => next t)
    []

/-- The rounds of a loop over the keys of a value. -/
def showsKeys (v : Value) (target : Proc Place) (body : Proc Showing) : Proc Showing := do
  if v.isNullish then return ([], .normal)
  else
    let o ← toObject v
    walk
      (fun k before => do
        if !(← read (·.hasProperty o k)) then return .again before
        else
          let p ← target
          let _ ← p.assign (.str k.text)
          return Showing.afterRound labels before (← body))
      (fun t => (t, .normal)) (← read (·.loopKeys o)) []

end Rounds

mutual

/-- What a statement shows that has been counted, and how it ends. The parts of a `try` statement are left out. -/
def shows (c : Context) (labels : List Text) : Stmt → Proc Showing
  | .sequence body => do
    declareFunctions c body
    showsList c [] body
  | .block body => do
    let c := { c with scope := ← perform (.openScope c.scope .plain) }
    declareFunctions c body
    showsList c [] body
  | .empty => return ([], .normal)
  | .expr e => do return ([⟨← value (eval c e), false⟩], .normal)
  | .var decls => do
    execDecls c decls
    return ([], .normal)
  | .function name params body => do
    perform (.put c.scope (.ofText name) (← newFunction c name params body false))
    return ([], .normal)
  | .ifElse test consequent alternate => do
    if (← value (eval c test)).toBoolean then counted c consequent (shows c [] consequent)
    else
      match alternate with
      | none => return ([], .normal)
      | some s => counted c s (shows c [] s)
  | .whileLoop test body =>
    showsRounds c labels body.kind (·.test c (some test)) (shows c [] body) (·.update c none)
  | .doLoop body test => showsRounds c labels body.kind (·.test c none) (shows c [] body) (·.test c (some test))
  | .forVar decls test update body => do
    execDecls c decls
    showsRounds c labels body.kind (·.test c test) (shows c [] body) (·.update c update)
  | .forExpr init test update body => do
    match init with
    | none => pure ()
    | some e =>
      let _ ← value (eval c e)
    showsRounds c labels body.kind (·.test c test) (shows c [] body) (·.update c update)
  | .forInVar decls object body => do
    execDecls c decls
    let v ← value (eval c object)
    let name := ((decls.head?).map (·.1)).getD []
    showsKeys labels v (resolveName c.scope name) (counted c body (shows c [] body))
  | .forIn target object body => do
    let v ← value (eval c object)
    showsKeys labels v (place (eval c target)) (counted c body (shows c [] body))
  | .switch subject clauses => do
    let c := { c with scope := ← perform (.openScope c.scope .plain) }
    let v ← value (eval c subject)
    let start ← match ← matchClause c v 0 clauses with
      | some i => pure (some i)
      | none => pure (defaultPosition? clauses)
    match start with
    | none => return ([], .normal)
    | some i =>
      declareFunctions c ((clauses.drop i).flatMap Clause.body)
      let r ← showsClauses c [] i clauses
      return (r.1, r.2.afterSwitch)
  | .tryCatch body handler finalizer => do
    return ([], (← exec c labels (.tryCatch body handler finalizer)).ending)
  | .throws e => do return ([], .throws (← value (eval c e)))
  | .returns e =>
    match e with
    | none => return ([], .returns .undefined)
    | some e => do return ([], .returns (← value (eval c e)))
  | .breaks label => return ([], .breaks label)
  | .continues label => return ([], .continues label)
  | .labelled label body => do
    let inner := if takesLabels body then labels ++ [label] else []
    let r ← counted c body (shows c inner body)
    return (r.1, r.2.afterLabel label)
  | .within object body => do
    let o ← toObject (← value (eval c object))
    let c := { c with scope := ← perform (.openScope c.scope (.subject o)) }
    counted c body (shows c [] body)

/-- What statements show after what was shown before; functions have been declared before. -/
def showsList (c : Context) (before : Trail) : List Stmt → Proc Showing
  | [] => return (before, .normal)
  | .function _ _ _ :: rest => showsList c before rest
  | s :: rest => do
    match ← counted c s (shows c [] s) with
    | (t, .normal) => showsList c (t ++ before) rest
    | (t, e) => return (t ++ before, e)

/-- What the statements of the clauses after the first `skip` show. -/
def showsClauses (c : Context) (before : Trail) (skip : Nat) : List Clause → Proc Showing
  | [] => return (before, .normal)
  | .case _ body :: rest =>
    match skip with
    | n + 1 => showsClauses c before n rest
    | 0 => do
      match ← showsList c before body with
      | (t, .normal) => showsClauses c t 0 rest
      | (t, e) => return (t, e)
  | .default body :: rest =>
    match skip with
    | n + 1 => showsClauses c before n rest
    | 0 => do
      match ← showsList c before body with
      | (t, .normal) => showsClauses c t 0 rest
      | (t, e) => return (t, e)

end

/-- What a program shows. -/
def showsProgram (scope : FrameId) (runner : RunnerId) (p : Program) : Proc Trail := do
  let target ← read (·.varScope scope)
  declareVariables target (varNamesOf p)
  declareFunctions ⟨runner, scope⟩ p
  match ← showsList ⟨runner, scope⟩ [] p with
  | (t, .normal) => return t
  | (_, .throws v) => .throw v
  | (_, .breaks _) => .fault (.strayJump .breaks)
  | (_, .continues _) => .fault (.strayJump .continues)
  | (_, .returns _) => .fault (.strayJump .returns)

/-! ## Statements without `try` -/

mutual

/-- Whether something holds of a statement with the given labels directly in front of it, and of all statements
inside it. Functions have statements of their own. -/
def Stmt.every (p : List Text → Stmt → Bool) (labels : List Text) (s : Stmt) : Bool :=
  p labels s && match s with
    | .sequence body => listEvery p body
    | .block body => listEvery p body
    | .ifElse _ consequent alternate => consequent.every p [] && optionEvery p alternate
    | .whileLoop _ body => body.every p []
    | .doLoop body _ => body.every p []
    | .forVar _ _ _ body => body.every p []
    | .forExpr _ _ _ body => body.every p []
    | .forInVar _ _ body => body.every p []
    | .forIn _ _ body => body.every p []
    | .switch _ clauses => clauseEvery p clauses
    | .tryCatch body handler finalizer => body.every p [] && handlerEvery p handler && optionEvery p finalizer
    | .labelled label body => body.every p (if takesLabels body then labels ++ [label] else [])
    | .within _ body => body.every p []
    | _ => true

/-- Whether something holds of all statements in one that may be missing. -/
def optionEvery (p : List Text → Stmt → Bool) : Option Stmt → Bool
  | none => true
  | some s => s.every p []

/-- Whether something holds of all statements in the handler of a `try` statement. -/
def handlerEvery (p : List Text → Stmt → Bool) : Option (Text × Stmt) → Bool
  | none => true
  | some (_, s) => s.every p []

/-- Whether something holds of all statements in a list. -/
def listEvery (p : List Text → Stmt → Bool) : List Stmt → Bool
  | [] => true
  | s :: rest => s.every p [] && listEvery p rest

/-- Whether something holds of all statements in the clauses of a `switch`. -/
def clauseEvery (p : List Text → Stmt → Bool) : List Clause → Bool
  | [] => true
  | .case _ body :: rest => listEvery p body && clauseEvery p rest
  | .default body :: rest => listEvery p body && clauseEvery p rest

end

/-- Whether a statement is no `try` statement. -/
def Stmt.isNoTry (_ : List Text) (s : Stmt) : Bool := s.kind != .tryStmt

section Mirrored

open Proc (Mirrors)

variable {c : Context} {labels : List Text} {p : Proc Completion} {q : Proc Showing}

theorem mirrors_goOn (t : Trail) (test : Expr) :
    Mirrors Showing.ofRound (goOn t.latest? (value (eval c test))) (t.test c (some test)) :=
  .after _ fun _ => .ite (.pure _) (.pure _)

/-- A round of a loop passes the latest value on to the next one. -/
theorem mirrors_round (h : Mirrors Showing.completion p q) (before : Trail)
    {next : Option Value → Proc (Round (Option Value) Completion)} {next' : Trail → Proc (Round Trail Showing)}
    (hnext : ∀ t : Trail, Mirrors Showing.ofRound (next t.latest?) (next' t)) :
    Mirrors Showing.ofRound (do beforeNext (Completion.afterRound labels before.latest? (← p)) next) (do
      match Showing.afterRound labels before (← q) with
      | .done r => return .done r
      | .again t => next' t) := by
  refine h.bind fun r => ?_
  rw [← Showing.ofRound_afterRound]
  cases Showing.afterRound labels before r with
  | done r => exact .pure _
  | again t => exact hnext t

theorem mirrors_rounds (h : Mirrors Showing.completion p q) (kind : NodeKind)
    {test next : Option Value → Proc (Round (Option Value) Completion)}
    {test' next' : Trail → Proc (Round Trail Showing)}
    (htest : ∀ t : Trail, Mirrors Showing.ofRound (test t.latest?) (test' t))
    (hnext : ∀ t : Trail, Mirrors Showing.ofRound (next t.latest?) (next' t)) :
    Mirrors Showing.completion
      (repeated c.runner kind test
        (fun latest => do beforeNext (Completion.afterRound labels latest (← p)) next) none)
      (showsRounds c labels kind test' q next') := by
  refine .repeated Trail.latest? htest (fun before => ?_) rfl
  exact mirrors_round h before hnext

/-- The rounds of a `for` loop. -/
theorem mirrors_forRounds {body : Stmt} (h : Mirrors Showing.completion (exec c [] body) q)
    (test update : Option Expr) :
    Mirrors Showing.completion (Layer.forRounds (.of body) c labels test update)
      (showsRounds c labels body.kind (·.test c test) q (·.update c update)) := by
  refine mirrors_rounds h body.kind (fun t => ?_) (fun t => ?_)
  · cases test with
    | none => exact .pure _
    | some e => exact mirrors_goOn t e
  · cases update with
    | none => exact .pure _
    | some e => exact .after _ fun _ => .pure _

/-- The rounds of a loop over the keys of an object. -/
theorem mirrors_keyRounds {body : Stmt} (h : Mirrors Showing.completion (exec c [] body) q) (target : Proc Place)
    (object : Value) :
    Mirrors Showing.completion (Layer.keyRounds (.of body) c labels target object)
      (showsKeys labels object target (counted c body q)) := by
  refine .ite (.pure _) (.after _ fun o => .after _ fun keys => ?_)
  refine .walk Trail.latest? (fun k before => ?_) (fun t => ?_) keys rfl
  · refine .after _ fun here => .ite (.pure _) (.after _ fun p' => .after _ fun _ => h.counted.bind fun r => ?_)
    rw [← Showing.ofRound_afterRound]
    exact .pure _
  · rfl

/-- The rest of a list of statements, after one that may have ended the list. -/
theorem mirrors_rest (h : Mirrors Showing.completion p q) (before : Trail)
    (rest : Option Value → Proc (Round (Option Value) Completion)) (rest' : Trail → Proc Showing)
    (hrest : ∀ t : Trail, Mirrors Showing.round (rest t.latest?) (rest' t)) :
    Mirrors Showing.round (do
      match Completion.afterStatement before.latest? (← p) with
      | .done e => return .done e
      | .again latest => rest latest) (do
      match ← q with
      | (t, .normal) => rest' (t ++ before)
      | (t, e) => return (t ++ before, e)) := by
  refine h.bind fun r => ?_
  obtain ⟨t, e⟩ := r
  rw [Showing.afterStatement_completion]
  cases e with
  | normal => exact hrest (t ++ before)
  | _ => exact .pure _

/-- The rest of the clauses, after the statements of one. -/
theorem mirrors_restOfClauses {p : Proc (Round (Option Value) Completion)} (h : Mirrors Showing.round p q)
    {rest : Option Value → Proc (Round (Option Value) Completion)} {rest' : Trail → Proc Showing}
    (hrest : ∀ t : Trail, Mirrors Showing.round (rest t.latest?) (rest' t)) :
    Mirrors Showing.round (do
      match ← p with
      | .done e => return .done e
      | .again latest => rest latest) (do
      match ← q with
      | (t, .normal) => rest' t
      | (t, e) => return (t, e)) := by
  refine h.bind fun r => ?_
  obtain ⟨t, e⟩ := r
  cases e with
  | normal => exact hrest t
  | _ => exact .pure _

/-- An end that is what another becomes. -/
theorem mirrors_ending (h : Mirrors Showing.completion p q) {after : Completion → Completion}
    {after' : Ending → Ending} (hafter : ∀ v e, (after' e).carrying v = after (e.carrying v)) :
    Mirrors Showing.completion (do return after (← p)) (do
      let r ← q
      return (r.1, after' r.2)) := by
  refine h.bind fun r => ?_
  rw [Showing.completion, ← hafter]
  exact .pure _

theorem mirrors_endOfList {p : Proc (Round (Option Value) Completion)} (h : Mirrors Showing.round p q) :
    Mirrors Showing.completion (do return endOfList (← p)) q := by
  have hend := h.bind (ψ := Showing.completion) (f := fun r => pure (endOfList r)) (g := pure) fun r => by
    rw [Showing.endOfList_round]
    exact .pure r
  rwa [bind_pure] at hend

end Mirrored

section Statements

open Proc (Mirrors)

theorem showsList_cons {c : Context} {before : Trail} {s : Stmt} (hs : s.kind ≠ .functionStmt) (rest : List Stmt) :
    showsList c before (s :: rest) = (do
      match ← counted c s (shows c [] s) with
      | (t, .normal) => showsList c (t ++ before) rest
      | (t, e) => return (t ++ before, e)) := by
  cases s with
  | function name params body => exact absurd rfl hs
  | _ => rfl

-- By induction on the statement. What carries it through lists and loops is that the latest value so far is the latest
-- one on the trail so far.
mutual

/-- A statement without `try` ends as its trail says: where the end carries a value, it is the latest on the trail. -/
theorem exec_mirrors (c : Context) (labels : List Text) :
    (s : Stmt) → s.every Stmt.isNoTry labels → Mirrors Showing.completion (exec c labels s) (shows c labels s)
  | .sequence body, hs => by
    simp only [Stmt.every, Bool.and_eq_true] at hs
    rw [exec, shows]
    exact .after _ fun _ => mirrors_endOfList (execList_mirrors c [] body hs.2)
  | .block body, hs => by
    simp only [Stmt.every, Bool.and_eq_true] at hs
    rw [exec, shows]
    exact .after _ fun f => .after _ fun _ => mirrors_endOfList (execList_mirrors _ [] body hs.2)
  | .empty, _ => by
    rw [exec, shows]
    exact .pure _
  | .expr e, _ => by
    rw [exec, shows]
    exact .after _ fun v => .pure _
  | .var decls, _ => by
    rw [exec, shows]
    exact .after _ fun _ => .pure _
  | .function name params body, _ => by
    rw [exec, shows]
    exact .after _ fun f => .after _ fun _ => .pure _
  | .ifElse test consequent none, hs => by
    simp only [Stmt.every, Bool.and_eq_true] at hs
    rw [exec, shows]
    exact .after _ fun v => .ite (exec_mirrors c [] consequent hs.2.1).counted (.pure _)
  | .ifElse test consequent (some alternate), hs => by
    simp only [Stmt.every, optionEvery, Bool.and_eq_true] at hs
    rw [exec, shows]
    exact .after _ fun v =>
      .ite (exec_mirrors c [] consequent hs.2.1).counted (exec_mirrors c [] alternate hs.2.2).counted
  | .whileLoop test body, hs => by
    simp only [Stmt.every, Bool.and_eq_true] at hs
    have hbody := exec_mirrors c [] body hs.2
    -- There is nothing to do at the end of a round.
    have hround (latest : Option Value) : (do return Completion.afterRound labels latest (← exec c [] body)) =
        (do beforeNext (Completion.afterRound labels latest (← exec c [] body)) fun latest => return .again latest) := by
      refine bind_congr fun e => ?_
      cases Completion.afterRound labels latest e <;> rfl
    rw [exec, shows]
    simp only [hround]
    exact mirrors_rounds hbody body.kind (mirrors_goOn · test) fun t => .pure _
  | .doLoop body test, hs => by
    simp only [Stmt.every, Bool.and_eq_true] at hs
    have hbody := exec_mirrors c [] body hs.2
    rw [exec, shows]
    exact mirrors_rounds hbody body.kind (fun t => .pure _) (mirrors_goOn · test)
  | .forVar decls test update body, hs => by
    simp only [Stmt.every, Bool.and_eq_true] at hs
    have hbody := exec_mirrors c [] body hs.2
    rw [exec, shows]
    exact .after _ fun _ => mirrors_forRounds hbody test update
  | .forExpr none test update body, hs => by
    simp only [Stmt.every, Bool.and_eq_true] at hs
    have hbody := exec_mirrors c [] body hs.2
    rw [exec, shows]
    exact mirrors_forRounds hbody test update
  | .forExpr (some e) test update body, hs => by
    simp only [Stmt.every, Bool.and_eq_true] at hs
    have hbody := exec_mirrors c [] body hs.2
    rw [exec, shows]
    exact .after _ fun _ => mirrors_forRounds hbody test update
  | .forInVar decls object body, hs => by
    simp only [Stmt.every, Bool.and_eq_true] at hs
    rw [exec, shows]
    exact .after _ fun _ => .after _ fun v => mirrors_keyRounds (exec_mirrors c [] body hs.2) _ v
  | .forIn target object body, hs => by
    simp only [Stmt.every, Bool.and_eq_true] at hs
    rw [exec, shows]
    exact .after _ fun v => mirrors_keyRounds (exec_mirrors c [] body hs.2) _ v
  | .switch subject clauses, hs => by
    simp only [Stmt.every, Bool.and_eq_true] at hs
    rw [exec, shows]
    refine .after _ fun f => .after _ fun v => .after _ fun found => ?_
    cases found <;>
    · refine .after _ fun start => ?_
      cases start with
      | none => exact .pure _
      | some i =>
        refine .after _ fun _ => ?_
        have hend := mirrors_endOfList (execClauses_mirrors ⟨c.runner, f⟩ [] i clauses hs.2)
        have hswitch := mirrors_ending hend Ending.carrying_afterSwitch
        simpa using hswitch
  | .tryCatch body handler finalizer, hs => by
    simp [Stmt.every, Stmt.isNoTry, Stmt.kind] at hs
  | .throws e, _ => by
    rw [exec, shows]
    exact .after _ fun v => .pure _
  | .returns none, _ => by
    rw [exec, shows]
    exact .pure _
  | .returns (some e), _ => by
    rw [exec, shows]
    exact .after _ fun v => .pure _
  | .breaks label, _ => by
    rw [exec, shows]
    exact .pure _
  | .continues label, _ => by
    rw [exec, shows]
    exact .pure _
  | .labelled label body, hs => by
    simp only [Stmt.every, Bool.and_eq_true] at hs
    rw [exec, shows]
    exact mirrors_ending (exec_mirrors c _ body hs.2).counted (Ending.carrying_afterLabel · · label)
  | .within object body, hs => by
    simp only [Stmt.every, Bool.and_eq_true] at hs
    rw [exec, shows]
    exact .after _ fun v => .after _ fun o => .after _ fun f => (exec_mirrors _ [] body hs.2).counted

/-- A list of statements without `try`, with what was shown before. -/
theorem execList_mirrors (c : Context) (before : Trail) :
    (body : List Stmt) → listEvery Stmt.isNoTry body →
      Mirrors Showing.round (execList c before.latest? body) (showsList c before body)
  | [], _ => by
    rw [execList, showsList]
    exact .pure _
  | s :: rest, hs => by
    simp only [listEvery, Bool.and_eq_true] at hs
    have hfirst := exec_mirrors c [] s hs.1
    have hrest := fun before => execList_mirrors c before rest hs.2
    by_cases hkind : s.kind = .functionStmt
    · cases s <;> cases hkind
      rw [execList, showsList]
      exact hrest before
    · rw [execList_cons hkind, showsList_cons hkind]
      exact mirrors_rest hfirst.counted before (execList c · rest) (showsList c · rest) hrest

/-- The clauses of a `switch` without `try`. -/
theorem execClauses_mirrors (c : Context) (before : Trail) (skip : Nat) :
    (clauses : List Clause) → clauseEvery Stmt.isNoTry clauses →
      Mirrors Showing.round (execClauses c before.latest? skip clauses) (showsClauses c before skip clauses)
  | [], _ => by
    rw [execClauses, showsClauses]
    exact .pure _
  | .case test body :: rest, hs => by
    simp only [clauseEvery, Bool.and_eq_true] at hs
    cases skip with
    | succ n =>
      rw [execClauses, showsClauses]
      exact execClauses_mirrors c before n rest hs.2
    | zero =>
      rw [execClauses, showsClauses]
      refine mirrors_restOfClauses (execList_mirrors c before body hs.1) fun t => ?_
      exact execClauses_mirrors c t 0 rest hs.2
  | .default body :: rest, hs => by
    simp only [clauseEvery, Bool.and_eq_true] at hs
    cases skip with
    | succ n =>
      rw [execClauses, showsClauses]
      exact execClauses_mirrors c before n rest hs.2
    | zero =>
      rw [execClauses, showsClauses]
      refine mirrors_restOfClauses (execList_mirrors c before body hs.1) fun t => ?_
      exact execClauses_mirrors c t 0 rest hs.2

end

/-- The value of a program without `try`, read off its trail. -/
theorem runProgram_mirrors (scope : FrameId) (runner : RunnerId) {p : Program} (hp : listEvery Stmt.isNoTry p) :
    Mirrors (fun t : Trail => t.latest?.getD .undefined) (runProgram scope runner p)
      (showsProgram scope runner p) := by
  have hlist := execList_mirrors ⟨runner, scope⟩ [] p hp
  rw [runProgram, showsProgram]
  refine .after _ fun target => ?_
  rw [runList]
  simp only [bind_assoc, pure_bind]
  refine .after _ fun _ => .after _ fun _ => hlist.bind fun r => ?_
  obtain ⟨t, e⟩ := r
  cases e with
  | normal => exact .pure t
  | _ => exact .of_eq rfl

end Statements

/-! ## Programs that lose nothing -/

/-- Whether no jump leads out of a loop, other than the end of a function. -/
def Stmt.isContained (labels : List Text) (s : Stmt) : Bool :=
  match s with
  | .whileLoop .. | .doLoop .. | .forVar .. | .forExpr .. | .forInVar .. | .forIn .. =>
    (s.jumps labels).all (· == .returns)
  | _ => true

/-- A trail without a loss. -/
def Trail.Kept (t : Trail) : Prop := ∀ m ∈ t, m.lost = false

theorem Trail.Kept.append {t before : Trail} (ht : t.Kept) (hbefore : before.Kept) : Trail.Kept (t ++ before) := by
  intro m hm
  rcases List.mem_append.1 hm with hm | hm
  · exact ht m hm
  · exact hbefore m hm

theorem Trail.kept_nil : Trail.Kept [] := by simp [Trail.Kept]

/-- A statement loses nothing. -/
abbrev Showing.Kept (r : Showing) : Prop := r.1.Kept

section Keeping

open Proc (Yields)

variable {c : Context} {labels : List Text} {js : List Jump} {q : Proc Showing}

/-- A loop that no jump leaves loses nothing. -/
theorem Showing.Kept.afterRound {r : Showing} (hr : r.Kept) (hjumps : r.completion.Allowed js)
    (hout : ∀ j ∈ Jump.outsideLoop labels js, j = .returns) {before : Trail} (hbefore : before.Kept) :
    (r.afterRound labels before).Holds Trail.Kept Showing.Kept := by
  obtain ⟨t, e⟩ := r
  have hkept : Trail.Kept (t ++ before) := hr.append hbefore
  cases e with
  | normal => exact hkept
  | breaks l =>
    by_cases hl : Completion.isFor labels l
    · simpa [Showing.afterRound, hl, Round.Holds] using hkept
    · have hj := hjumps (.breaks l) rfl
      cases hout _ (List.mem_filter.2 ⟨hj, by simp [Jump.isForLoop, hl]⟩)
  | continues l =>
    by_cases hl : Completion.isFor labels l
    · simpa [Showing.afterRound, hl, Round.Holds] using hkept
    · have hj := hjumps (.continues l) rfl
      cases hout _ (List.mem_filter.2 ⟨hj, by simp [Jump.isForLoop, hl]⟩)
  | returns v => exact hkept
  | throws v => exact hkept

theorem kept_test (test : Option Expr) {t : Trail} (ht : t.Kept) :
    Yields (Round.Holds Trail.Kept Showing.Kept) (t.test c test) := by
  cases test with
  | none => exact .pure ht
  | some e =>
    refine .after _ fun v => ?_
    split
    · exact .pure ht
    · exact .pure ht

theorem kept_update (update : Option Expr) {t : Trail} (ht : t.Kept) :
    Yields (Round.Holds Trail.Kept Showing.Kept) (t.update c update) := by
  cases update with
  | none => exact .pure ht
  | some e => exact .after _ fun _ => .pure ht

/-- The rounds of a loop whose body loses nothing and has only certain jumps. -/
theorem kept_rounds (hbody : Yields Showing.Kept q) (hjumps : Yields (fun r => r.completion.Allowed js) q)
    (hout : ∀ j ∈ Jump.outsideLoop labels js, j = .returns) (kind : NodeKind)
    {test next : Trail → Proc (Round Trail Showing)}
    (htest : ∀ t : Trail, t.Kept → Yields (Round.Holds Trail.Kept Showing.Kept) (test t))
    (hnext : ∀ t : Trail, t.Kept → Yields (Round.Holds Trail.Kept Showing.Kept) (next t)) :
    Yields Showing.Kept (showsRounds c labels kind test q next) := by
  refine .repeatedKeeping htest (fun before hbefore => ?_) Trail.kept_nil
  refine (hbody.and hjumps).bind fun r hr => ?_
  have hround := hr.1.afterRound hr.2 hout hbefore
  cases h : Showing.afterRound labels before r with
  | done r =>
    rw [h] at hround
    exact .pure hround
  | again t =>
    rw [h] at hround
    exact hnext t hround

/-- A loop over keys whose body loses nothing and has only certain jumps. -/
theorem kept_keys (hbody : Yields Showing.Kept q) (hjumps : Yields (fun r => r.completion.Allowed js) q)
    (hout : ∀ j ∈ Jump.outsideLoop labels js, j = .returns) (v : Value) (target : Proc Place) :
    Yields Showing.Kept (showsKeys labels v target q) := by
  rw [showsKeys]
  split
  · exact .pure Trail.kept_nil
  · refine .after _ fun o => .after _ fun keys => ?_
    refine .walkKeeping (fun k before hbefore => .after _ fun here => ?_) (fun t ht => ?_) keys Trail.kept_nil
    · split
      · exact .pure hbefore
      · exact .after _ fun p => .after _ fun _ => (hbody.and hjumps).bind fun r hr =>
          .pure (hr.1.afterRound hr.2 hout hbefore)
    · exact ht

/-- The rest of a list of statements, after one that loses nothing. -/
theorem kept_rest (h : Yields Showing.Kept q) {before : Trail} (hbefore : before.Kept) {rest : Trail → Proc Showing}
    (hrest : ∀ t : Trail, t.Kept → Yields Showing.Kept (rest t)) :
    Yields Showing.Kept (do
      match ← q with
      | (t, .normal) => rest (t ++ before)
      | (t, e) => return (t ++ before, e)) := by
  refine h.bind fun r hr => ?_
  obtain ⟨t, e⟩ := r
  have hkept : Trail.Kept (t ++ before) := Trail.Kept.append hr hbefore
  cases e with
  | normal => exact hrest _ hkept
  | _ => exact .pure hkept

/-- The rest of the clauses, after the statements of one. -/
theorem kept_restOfClauses (h : Yields Showing.Kept q) {rest : Trail → Proc Showing}
    (hrest : ∀ t : Trail, t.Kept → Yields Showing.Kept (rest t)) :
    Yields Showing.Kept (do
      match ← q with
      | (t, .normal) => rest t
      | (t, e) => return (t, e)) := by
  refine h.bind fun r hr => ?_
  obtain ⟨t, e⟩ := r
  cases e with
  | normal => exact hrest t hr
  | _ => exact .pure hr

/-- The jumps of a statement, seen on its trail. -/
theorem shows_jumps {s : Stmt} (hs : s.every Stmt.isNoTry labels) :
    Yields (fun r => r.completion.Allowed (s.jumps labels)) (shows c labels s) :=
  (exec_mirrors c labels s hs).yields (exec_jumps c labels s)

mutual

/-- A statement without `try` loses nothing if no jump leads out of its loops. -/
theorem shows_keeps (c : Context) (labels : List Text) : (s : Stmt) → s.every Stmt.isNoTry labels →
    s.every Stmt.isContained labels → Yields Showing.Kept (shows c labels s)
  | .sequence body, hs, hin => by
    simp only [Stmt.every, Bool.and_eq_true] at hs hin
    rw [shows]
    exact .after _ fun _ => showsList_keeps c body hs.2 hin.2 Trail.kept_nil
  | .block body, hs, hin => by
    simp only [Stmt.every, Bool.and_eq_true] at hs hin
    rw [shows]
    exact .after _ fun _ => .after _ fun _ => showsList_keeps _ body hs.2 hin.2 Trail.kept_nil
  | .empty, _, _ => by
    rw [shows]
    exact .pure Trail.kept_nil
  | .expr e, _, _ => by
    rw [shows]
    exact .after _ fun v => .pure (by simp [Showing.Kept, Trail.Kept])
  | .var decls, _, _ => by
    rw [shows]
    exact .after _ fun _ => .pure Trail.kept_nil
  | .function name params body, _, _ => by
    rw [shows]
    exact .after _ fun _ => .after _ fun _ => .pure Trail.kept_nil
  | .ifElse test consequent none, hs, hin => by
    simp only [Stmt.every, Bool.and_eq_true] at hs hin
    rw [shows]
    refine .after _ fun v => ?_
    split
    · exact .after _ fun _ => shows_keeps c [] consequent hs.2.1 hin.2.1
    · exact .pure Trail.kept_nil
  | .ifElse test consequent (some alternate), hs, hin => by
    simp only [Stmt.every, optionEvery, Bool.and_eq_true] at hs hin
    rw [shows]
    refine .after _ fun v => ?_
    split
    · exact .after _ fun _ => shows_keeps c [] consequent hs.2.1 hin.2.1
    · exact .after _ fun _ => shows_keeps c [] alternate hs.2.2 hin.2.2
  | .whileLoop test body, hs, hin => by
    simp only [Stmt.every, Stmt.isContained, Stmt.jumps, Bool.and_eq_true] at hs hin
    rw [shows]
    exact kept_rounds (shows_keeps c [] body hs.2 hin.2) (shows_jumps hs.2) (by simpa using hin.1) body.kind
      (fun _ => kept_test (some test)) fun _ => kept_update none
  | .doLoop body test, hs, hin => by
    simp only [Stmt.every, Stmt.isContained, Stmt.jumps, Bool.and_eq_true] at hs hin
    rw [shows]
    exact kept_rounds (shows_keeps c [] body hs.2 hin.2) (shows_jumps hs.2) (by simpa using hin.1) body.kind
      (fun _ => kept_test none) fun _ => kept_test (some test)
  | .forVar decls test update body, hs, hin => by
    simp only [Stmt.every, Stmt.isContained, Stmt.jumps, Bool.and_eq_true] at hs hin
    rw [shows]
    exact .after _ fun _ => kept_rounds (shows_keeps c [] body hs.2 hin.2) (shows_jumps hs.2) (by simpa using hin.1)
      body.kind (fun _ => kept_test test) fun _ => kept_update update
  | .forExpr none test update body, hs, hin => by
    simp only [Stmt.every, Stmt.isContained, Stmt.jumps, Bool.and_eq_true] at hs hin
    rw [shows]
    exact kept_rounds (shows_keeps c [] body hs.2 hin.2) (shows_jumps hs.2) (by simpa using hin.1) body.kind
      (fun _ => kept_test test) fun _ => kept_update update
  | .forExpr (some e) test update body, hs, hin => by
    simp only [Stmt.every, Stmt.isContained, Stmt.jumps, Bool.and_eq_true] at hs hin
    rw [shows]
    exact .after _ fun _ => kept_rounds (shows_keeps c [] body hs.2 hin.2) (shows_jumps hs.2) (by simpa using hin.1)
      body.kind (fun _ => kept_test test) fun _ => kept_update update
  | .forInVar decls object body, hs, hin => by
    simp only [Stmt.every, Stmt.isContained, Stmt.jumps, Bool.and_eq_true] at hs hin
    rw [shows]
    exact .after _ fun _ => .after _ fun v => kept_keys (.after _ fun _ => shows_keeps c [] body hs.2 hin.2)
      (.after _ fun _ => shows_jumps hs.2) (by simpa using hin.1) v _
  | .forIn target object body, hs, hin => by
    simp only [Stmt.every, Stmt.isContained, Stmt.jumps, Bool.and_eq_true] at hs hin
    rw [shows]
    exact .after _ fun v => kept_keys (.after _ fun _ => shows_keeps c [] body hs.2 hin.2)
      (.after _ fun _ => shows_jumps hs.2) (by simpa using hin.1) v _
  | .switch subject clauses, hs, hin => by
    simp only [Stmt.every, Bool.and_eq_true] at hs hin
    rw [shows]
    refine .after _ fun f => .after _ fun v => .after _ fun found => ?_
    cases found <;>
    · refine .after _ fun start => ?_
      cases start with
      | none => exact .pure Trail.kept_nil
      | some i =>
        exact .after _ fun _ => (showsClauses_keeps _ i clauses hs.2 hin.2 Trail.kept_nil).bind fun r hr => .pure hr
  | .tryCatch body handler finalizer, _, _ => by
    rw [shows]
    exact .after _ fun _ => .pure Trail.kept_nil
  | .throws e, _, _ => by
    rw [shows]
    exact .after _ fun _ => .pure Trail.kept_nil
  | .returns none, _, _ => by
    rw [shows]
    exact .pure Trail.kept_nil
  | .returns (some e), _, _ => by
    rw [shows]
    exact .after _ fun _ => .pure Trail.kept_nil
  | .breaks label, _, _ => by
    rw [shows]
    exact .pure Trail.kept_nil
  | .continues label, _, _ => by
    rw [shows]
    exact .pure Trail.kept_nil
  | .labelled label body, hs, hin => by
    simp only [Stmt.every, Bool.and_eq_true] at hs hin
    rw [shows]
    exact .bind (.after _ fun _ => shows_keeps c _ body hs.2 hin.2) fun r hr => .pure hr
  | .within object body, hs, hin => by
    simp only [Stmt.every, Bool.and_eq_true] at hs hin
    rw [shows]
    exact .after _ fun _ => .after _ fun _ => .after _ fun _ => .after _ fun _ => shows_keeps _ [] body hs.2 hin.2

/-- A list of statements that lose nothing. -/
theorem showsList_keeps (c : Context) {before : Trail} : (body : List Stmt) → listEvery Stmt.isNoTry body →
    listEvery Stmt.isContained body → before.Kept → Yields Showing.Kept (showsList c before body)
  | [], _, _, hbefore => by
    rw [showsList]
    exact .pure hbefore
  | s :: rest, hs, hin, hbefore => by
    simp only [listEvery, Bool.and_eq_true] at hs hin
    have hfirst := shows_keeps c [] s hs.1 hin.1
    have hrest := fun (t : Trail) (ht : t.Kept) => showsList_keeps c rest hs.2 hin.2 ht
    by_cases hkind : s.kind = .functionStmt
    · cases s <;> cases hkind
      rw [showsList]
      exact hrest before hbefore
    · rw [showsList_cons hkind]
      exact kept_rest (.after _ fun _ => hfirst) hbefore hrest

/-- The clauses of a `switch` that lose nothing. -/
theorem showsClauses_keeps (c : Context) {before : Trail} (skip : Nat) : (clauses : List Clause) →
    clauseEvery Stmt.isNoTry clauses → clauseEvery Stmt.isContained clauses → before.Kept →
      Yields Showing.Kept (showsClauses c before skip clauses)
  | [], _, _, hbefore => by
    rw [showsClauses]
    exact .pure hbefore
  | .case test body :: rest, hs, hin, hbefore => by
    simp only [clauseEvery, Bool.and_eq_true] at hs hin
    cases skip with
    | succ n =>
      rw [showsClauses]
      exact showsClauses_keeps c n rest hs.2 hin.2 hbefore
    | zero =>
      rw [showsClauses]
      exact kept_restOfClauses (showsList_keeps c body hs.1 hin.1 hbefore) fun t ht =>
        showsClauses_keeps c 0 rest hs.2 hin.2 ht
  | .default body :: rest, hs, hin, hbefore => by
    simp only [clauseEvery, Bool.and_eq_true] at hs hin
    cases skip with
    | succ n =>
      rw [showsClauses]
      exact showsClauses_keeps c n rest hs.2 hin.2 hbefore
    | zero =>
      rw [showsClauses]
      exact kept_restOfClauses (showsList_keeps c body hs.1 hin.1 hbefore) fun t ht =>
        showsClauses_keeps c 0 rest hs.2 hin.2 ht

end

theorem showsProgram_keeps (scope : FrameId) (runner : RunnerId) {p : Program} (hp : listEvery Stmt.isNoTry p)
    (hin : listEvery Stmt.isContained p) : Yields Trail.Kept (showsProgram scope runner p) := by
  rw [showsProgram]
  refine .after _ fun target => .after _ fun _ => .after _ fun _ => ?_
  refine (showsList_keeps ⟨runner, scope⟩ p hp hin Trail.kept_nil).bind fun r hr => ?_
  obtain ⟨t, e⟩ := r
  cases e with
  | normal => exact .pure hr
  | _ =>
    intro limits bound handler s a u hrun
    cases hrun

end Keeping

/-! ## The value of a program -/

/-- A program without `try` statements that completes normally does what it does with a trail of the values of its
own expression statements, the latest first: the same happens, in the same states. Its value is the latest one on
the trail that is not lost, or `undefined` if there is none. So it is the value of the last expression statement
that was executed, or `undefined` if none was, unless that value is lost; and nothing is lost if no `break` or
`continue` leads out of a loop. -/
theorem runProgram_shown {p : Program} (hp : listEvery Stmt.isNoTry p) (scope : FrameId) (runner : RunnerId)
    (limits : Limits) (bound : Nat) (within : List Request) (answers : Request → Passage Value) {s t : State}
    {h : List Occurrence} {v : Value}
    (hrun : (runProgram scope runner p).observe limits bound within answers s = (h, .ok v, t)) :
    ∃ trail : Trail, (showsProgram scope runner p).observe limits bound within answers s = (h, .ok trail, t) ∧
      v = trail.latest?.getD .undefined ∧
      ((∀ m ∈ trail.head?, m.lost = false) → v = (trail.head?.map (·.value)).getD .undefined) ∧
      (listEvery Stmt.isContained p → ∀ m ∈ trail, m.lost = false) := by
  obtain ⟨trail, hshows, rfl⟩ := (runProgram_mirrors scope runner hp).exists_of_ok hrun
  refine ⟨trail, hshows, rfl, fun hhead => ?_, fun hin => ?_⟩
  · cases trail with
    | nil => rfl
    | cons m rest =>
      have hm : m.lost = false := hhead m rfl
      simp [Trail.latest?, hm]
  · have hrun := congrArg Prod.snd hshows
    rw [Proc.observe_snd] at hrun
    exact showsProgram_keeps scope runner hp hin _ _ _ _ _ _ hrun

/-- The program `outer: { while (true) { true; break outer; } }`, whose jump takes the value along. -/
theorem runProgram_shown_carried :
    let p : Program := [.labelled "outer" (.block [.whileLoop (.literal (.bool true)) (.block
      [.expr (.literal (.bool true)), .breaks (some (Text.ofString "outer"))])])]
    listEvery Stmt.isNoTry p ∧ ∃ h t trail,
      (runProgram 0 0 p).observeIn {} 5 bareEngine.state = (h, .ok (.bool true), t) ∧
      (showsProgram 0 0 p).observeIn {} 5 bareEngine.state = (h, .ok trail, t) ∧
      .bool true = (trail.head?.map (·.value)).getD .undefined := by
  intro p
  have hp : listEvery Stmt.isNoTry p := by decide
  have hrun : ((runProgram 0 0 p).observeIn {} 5 bareEngine.state).2.1 = .ok (.bool true) := rfl
  obtain ⟨trail, hshows, -, hhead, -⟩ := runProgram_shown hp 0 0 {} 5 [] _ (Passage.ends hrun)
  have hends : ((showsProgram 0 0 p).observeIn {} 5 bareEngine.state).2.1 = .ok [⟨.bool true, false⟩] := rfl
  obtain rfl : trail = [⟨.bool true, false⟩] := by
    have hsame := (congrArg (·.2.1) hshows).symm.trans hends
    exact Outcome.ok.inj hsame
  exact ⟨hp, _, _, _, Passage.ends hrun, hshows, hhead (by simp)⟩

/-- A program whose loop is left by a jump to the label in front of the block, from a round that shows nothing:
`var x; outer: { while (true) { if (x) break outer; x = true; } }`. -/
def losingProgram : Program :=
  [.var [("x", none)], .labelled "outer" (.block [.whileLoop (.literal (.bool true)) (.block
    [.ifElse (.ident "x") (.breaks (some (Text.ofString "outer"))) none,
      .expr (.assign none (.ident "x") (.literal (.bool true)))])])]

/-- The last expression statement is `x = true`, and the value of the program is `undefined`. -/
theorem runProgram_loses :
    listEvery Stmt.isNoTry losingProgram ∧
      ((bareEngine.run (showsProgram 0 0 losingProgram)).1 matches .ok [⟨.bool true, true⟩]) ∧
      ((bareEngine.run (runProgram 0 0 losingProgram)).1 matches .ok .undefined) := by
  decide +kernel

end ScriptEngine
