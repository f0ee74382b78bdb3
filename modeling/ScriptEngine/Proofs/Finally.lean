import ScriptEngine.Proofs.Assignment
import ScriptEngine.Proofs.Declarations
import ScriptEngine.Proofs.ThrowForms

/-!
# The last part of a `try` statement

A `try` statement holds back how its block has ended, and how its handler has if the block has thrown something. The
last part runs once, after them, and unless it ends in a way of its own what was held back is taken up again. A fault
is not held back: it leaves the `try` statement at once, and so it leaves whatever the statement stands in, up to the
host. Nothing happens on the way but the ends of the answers to requests, which restore the depth of calls.

## Main definitions

* `Scene.guarded`: what happens in a `try` statement before its last part.
* `Outcome.ending?`, `Outcome.resuming`: what is held back, and what the last part makes of it.
* `Subrun`: a run that is a part of another one.

## Main results

* `Subrun.fault`: a fault ends whatever it happens in.
* `Subrun.tryBlock`, `Subrun.tryHandler`, `Subrun.listed`, `Subrun.program`, `Subrun.called`, `Subrun.sourced`: where
  statements are run.
* `exec_tryFinally`: the ends of `try` statements with a last part.
-/

namespace ScriptEngine

open Proc (Round perform)

/-! ## The last part -/

namespace Outcome

/-- How something has ended at script level, if it has; a value can have been thrown past it. -/
def ending? : Outcome Completion → Option Completion
  | .ok c => some c
  | .thrown v => some (.throws v)
  | .fault _ => none
  | .unfinished => none

/-- How a `try` statement ends whose last part has ended: as it would have without it, if the last part has ended
normally, and otherwise like its last part. -/
def resuming (pending : Completion) : Outcome Completion → Outcome Completion
  | .ok (.normal _) => .ok pending
  | o => o

end Outcome

namespace State

/-- The state with a new scope. -/
def opened (s : State) (parent : FrameId) : State := { s with store := (s.store.addScope parent .plain).2 }

theorem accepts_opened (s : State) (parent : FrameId) : (s.opened parent).store.Accepts s.store.frames.size := by
  have hnew : (s.opened parent).store.frame s.store.frames.size = _ := Store.frame_addFrame s.store _
  refine ⟨by simp [opened, Store.addScope, Store.addFrame], ?_, ?_⟩
  · rw [hnew]
  · simp [hnew, Store.scopeRole]

end State

namespace Scene

variable (scene : Scene)

/-- What happens before the last part of a `try` statement: the block, and if the block throws a value the handler,
in a new scope in which the value is bound. -/
def guarded (c : Context) (body : Stmt) (handler : Option (Text × Stmt)) : Passage Completion := fun s =>
  let r := scene.observe (statement c [] body) s
  match handler, r.2.1.ending? with
  | some (name, h), some (.throws v) =>
    let f := r.2.2.store.frames.size
    let opened := r.2.2.opened c.scope
    let r' := scene.observe (statement { c with scope := f } [] h) (opened.written f (.ofText name) v)
    (r.1 ++ ⟨scene.within, .act (.openScope c.scope .plain), r.2.2⟩ ::
      ⟨scene.within, .act (.put f (.ofText name) v), opened⟩ :: r'.1, r'.2)
  | _, _ => r

/-- The last part after something that was held back. -/
theorem observe_finished (c : Context) (last : Stmt) (pending : Completion) (s : State) :
    scene.observe (Layer.finished c (some (.of last)) pending) s =
      ((scene.observe (statement c [] last) s).1, (scene.observe (statement c [] last) s).2.1.resuming pending,
        (scene.observe (statement c [] last) s).2.2) := by
  refine (scene.observe_bind (statement c [] last) _ s).trans ?_
  rcases scene.observe (statement c [] last) s with ⟨h, e | v | f | _, t⟩
  · cases e <;> simp [Outcome.resuming, observe]
  · rfl
  · rfl
  · rfl

theorem observe_attempt {α : Type} (p : Proc α) (s : State) :
    scene.observe p.attempt s = Passage.caught (scene.observe p s) := Proc.observe_attempt p s

/-- A thrown value that is caught becomes an end of the statement. -/
theorem andThen_caught (r : List Occurrence × Outcome Completion × State) :
    (Passage.andThen (Passage.caught r) fun e => scene.observe (return Completion.ofAttempt e)) =
      Passage.settle .throws r := by
  obtain ⟨h, _ | _ | _ | _, t⟩ := r <;>
    simp [Passage.caught, Course.caught, Passage.settle, Completion.ofAttempt, observe]

/-- An action that is not refused. -/
theorem observe_performed {a : Action} {r : a.Reply} {s t : State} (h : a.perform scene.limits s = (.ok r, t)) :
    scene.observe (perform a) s = ([⟨scene.within, .act a, s⟩], .ok r, t) := by
  rw [observe_perform, Passage.perform, Course.perform, h]

/-- An action that is not refused, and what comes after it. -/
theorem observe_perform_then {α : Type} {a : Action} {r : a.Reply} {s t : State}
    (h : a.perform scene.limits s = (.ok r, t)) (k : a.Reply → Proc α) :
    scene.observe (perform a >>= k) s =
      (⟨scene.within, .act a, s⟩ :: (scene.observe (k r) t).1, (scene.observe (k r) t).2) := by
  rw [observe_bind, scene.observe_performed h]
  rfl

/-- The handler in its new scope. -/
theorem observe_handler (c : Context) (name : Text) (h : Stmt) (v : Value) (s : State) :
    let f := s.store.frames.size
    let opened := s.opened c.scope
    let r := scene.observe (statement { c with scope := f } [] h) (opened.written f (.ofText name) v)
    scene.observe (Layer.caught c (some (name, .of h)) (.throws v)) s =
      Passage.settle .throws (⟨scene.within, .act (.openScope c.scope .plain), s⟩ ::
        ⟨scene.within, .act (.put f (.ofText name) v), opened⟩ :: r.1, r.2) := by
  intro f opened r
  refine (scene.observe_perform_then (a := .openScope c.scope .plain) (r := f) (t := opened) rfl _).trans ?_
  have hrest : scene.observe ((statement { c with scope := f } [] h).attempt >>= fun e =>
      return Completion.ofAttempt e) (opened.written f (.ofText name) v) = Passage.settle .throws r := by
    rw [observe_bind, observe_attempt, andThen_caught]
  have hput := scene.observe_perform_then (State.perform_put (v := v) (s.accepts_opened c.scope) (Key.fits_ofText name))
    fun _ => (statement { c with scope := f } [] h).attempt >>= fun e => return Completion.ofAttempt e
  rw [hrest] at hput
  let opening : Occurrence := ⟨scene.within, .act (.openScope c.scope .plain), s⟩
  let binding : Occurrence := ⟨scene.within, .act (.put f (.ofText name) v), opened⟩
  exact (congrArg (fun q : List Occurrence × Outcome Completion × State => (opening :: q.1, q.2)) hput).trans
    (Passage.settle_append Completion.throws [opening, binding] r).symm

/-- What is held back before the last part. -/
theorem observe_guarded (c : Context) (body : Stmt) (handler : Option (Text × Stmt)) (s : State) :
    scene.observe (((Hole.of body).counted c []).attempt >>= fun e =>
        Layer.caught c (Layer.handlerOf handler) (Completion.ofAttempt e)) s =
      Passage.settle .throws (scene.guarded c body handler s) := by
  have hblock : (Hole.of body).counted c [] = statement c [] body := rfl
  rw [hblock, observe_bind, observe_attempt]
  unfold guarded
  cases handler with
  | none => exact scene.andThen_caught _
  | some handler =>
    obtain ⟨name, h⟩ := handler
    -- A value can be thrown in two forms; the handler follows both.
    have hthrown (before : List Occurrence) (v : Value) (t : State) :=
      congrArg (fun r => (before ++ r.1, r.2)) (scene.observe_handler c name h v t)
    rcases scene.observe (statement c [] body) s with ⟨before, e | v | f | _, t⟩
    · cases e with
      | throws v => exact (hthrown before v t).trans (Passage.settle_append Completion.throws before _).symm
      | _ => simp [Passage.caught, Course.caught, Completion.ofAttempt, Layer.handlerOf, Layer.caught, observe,
          Passage.settle, Outcome.ending?]
    · exact (hthrown before v t).trans (Passage.settle_append Completion.throws before _).symm
    · rfl
    · rfl

/-- A `try` statement with a last part. -/
theorem observe_tryCatch (c : Context) (labels : List Text) (body : Stmt) (handler : Option (Text × Stmt))
    (last : Stmt) (s : State) :
    scene.observe (exec c labels (.tryCatch body handler (some last))) s =
      Passage.andThen (Passage.settle .throws (scene.guarded c body handler s)) fun pending =>
        scene.observe (Layer.finished c (some (.of last)) pending) := by
  rw [← observe_guarded, ← observe_bind, ← tryAll_of]
  exact congrArg (fun p => scene.observe p s) (bind_assoc _ _ _).symm

end Scene

/-! ## Faults -/

namespace Passage

variable {α β : Type}

/-- A passage that ends because of a fault, which came with the record `h` and the state `u`: after it nothing happens
but the ends of answers, and nothing changes but the depth of calls. -/
def Unwinds (h : List Occurrence) (e : Fault) (u : State) (depth : Nat) (r : List Occurrence × Outcome α × State) :
    Prop :=
  ∃ before after, r = (before ++ h ++ after, .fault e, { u with depth }) ∧ ∀ m ∈ after, m.event = .leave

namespace Unwinds

variable {h h' : List Occurrence} {e : Fault} {u v : State} {depth : Nat} {r : List Occurrence × Outcome α × State}

/-- Nothing happens after a fault. -/
theorem andThen (hr : Unwinds h e u depth r) (f : α → Passage β) : Unwinds h e u depth (Passage.andThen r f) := by
  obtain ⟨before, after, rfl, hafter⟩ := hr
  exact ⟨before, after, rfl, hafter⟩

/-- Something has happened before. -/
theorem after {a : α} {f : α → Passage β} (hr : Unwinds h e u depth (f a v)) :
    Unwinds h e u depth (Passage.andThen (h', .ok a, v) f) := by
  obtain ⟨before, after, heq, hafter⟩ := hr
  refine ⟨h' ++ before, after, ?_, hafter⟩
  rw [andThen_ok, heq, List.append_assoc, List.append_assoc, List.append_assoc]

/-- An answer with the fault in it: its beginning before and its end after what happens in it. -/
theorem enclosed {deeper : Nat} (hr : Unwinds h e u deeper r) (depth : Nat) (first second last : Occurrence)
    (hlast : last.event = .leave) :
    Unwinds h e u depth (first :: second :: r.1 ++ [last], r.2.1, { r.2.2 with depth }) := by
  obtain ⟨before, after, rfl, hafter⟩ := hr
  refine ⟨first :: second :: before, after ++ [last], by simp, fun m hm => ?_⟩
  rcases List.mem_append.1 hm with hm | hm
  · exact hafter m hm
  · rw [List.mem_singleton.1 hm, hlast]

/-- A fault is not caught. -/
theorem caught (hr : Unwinds h e u depth r) : Unwinds h e u depth (Passage.caught r) := by
  obtain ⟨before, after, rfl, hafter⟩ := hr
  exact ⟨before, after, rfl, hafter⟩

end Unwinds

end Passage

section Loops

variable {σ β : Type}

/-- One round of a loop: the test, a statement that is counted, and the body. -/
def Proc.round (runner : RunnerId) (kind : NodeKind) (test body : σ → Proc (Round σ β)) (x : σ) :
    Proc (Round σ β) := do
  match ← test x with
  | .done b => return .done b
  | .again x =>
    perform (.tick runner kind)
    body x

/-- Whole rounds of a loop, which lead from one state to another. -/
inductive Scene.Rounds (scene : Scene) (round : σ → Proc (Round σ β)) : Nat → σ → State → σ → State → Prop
  | none {x : σ} {s : State} : Rounds scene round 0 x s x s
  | more {n : Nat} {x y z : σ} {s t u : State} {h : List Occurrence}
      (hround : scene.observe (round x) s = (h, .ok (.again y), t)) (hrest : Rounds scene round n y t z u) :
      Rounds scene round (n + 1) x s z u

/-- The rounds of a loop one by one. -/
theorem Scene.rounds_succ (scene : Scene) (runner : RunnerId) (kind : NodeKind) (test body : σ → Proc (Round σ β))
    (n : Nat) (x : σ) (s : State) :
    Passage.rounds (Passage.perform scene.limits scene.within (.tick runner kind)) (fun x => scene.observe (test x))
        (fun x => scene.observe (body x)) (n + 1) x s =
      Passage.andThen (scene.observe (Proc.round runner kind test body x) s) fun r s =>
        match r with
        | .done b => ([], .ok b, s)
        | .again x =>
          Passage.rounds (Passage.perform scene.limits scene.within (.tick runner kind))
            (fun x => scene.observe (test x)) (fun x => scene.observe (body x)) n x s := by
  simp only [Passage.rounds, Proc.round, observe_bind, Passage.andThen_assoc]
  congr 1
  funext r s
  cases r with
  | done b => rfl
  | again x =>
    have hbind : scene.observe (do
        perform (.tick runner kind)
        body x) s = Passage.andThen (Passage.perform scene.limits scene.within (.tick runner kind) s)
          fun _ => scene.observe (body x) := by
      rw [← scene.observe_perform]
      exact scene.observe_bind _ _ s
    rw [hbind, Passage.andThen_assoc]
    rfl

end Loops

/-- Where a run is a part of another one: `q` is run from the state `t` in the scene `inner` when `p` is run from the
state `s` in the scene `outer`. -/
inductive Subrun {β : Type} (q : Proc β) (inner : Scene) (t : State) : {α : Type} → Proc α → Scene → State → Prop
  /-- It is the whole run. -/
  | here : Subrun q inner t q inner t
  /-- It is a part of the first of two computations. -/
  | first {α γ : Type} {p : Proc α} (k : α → Proc γ) {outer : Scene} {s : State} (h : Subrun q inner t p outer s) :
      Subrun q inner t (p >>= k) outer s
  /-- It is a part of the second one, which the first one has come to. -/
  | second {α γ : Type} {p : Proc α} {k : α → Proc γ} {outer : Scene} {s u : State} {h : List Occurrence} {a : α}
      (hp : outer.observe p s = (h, .ok a, u)) (hk : Subrun q inner t (k a) outer u) :
      Subrun q inner t (p >>= k) outer s
  /-- It is a part of a computation whose thrown value is caught. -/
  | attempt {α : Type} {p : Proc α} {outer : Scene} {s : State} (h : Subrun q inner t p outer s) :
      Subrun q inner t p.attempt outer s
  /-- It is a part of a round of a loop, which whole rounds have come to. -/
  | loop {σ γ : Type} {runner : RunnerId} {kind : NodeKind} {test body : σ → Proc (Round σ γ)} {n : Nat} {x y : σ}
      {outer : Scene} {s u : State} (hn : n < outer.bound)
      (hrounds : outer.Rounds (Proc.round runner kind test body) n x s y u)
      (h : Subrun q inner t (Proc.round runner kind test body y) outer u) :
      Subrun q inner t (Proc.repeated runner kind test body x) outer s
  /-- It is a part of a call. -/
  | call {function : ObjectId} {invoker : Option FrameId} {this : Value} {args : List Value} {outer : Scene}
      {n : Nat} {s : State} (hn : outer.nested = n + 1) (hdepth : (s.depth : Int) < outer.limits.depth)
      (h : Subrun q inner t (callBody function invoker this args)
        { outer with nested := n, within := .call function invoker this args :: outer.within }
        { s with depth := s.depth + 1 }) :
      Subrun q inner t (Proc.call function invoker this args) outer s
  /-- It is a part of a construction. -/
  | construct {function : ObjectId} {invoker : Option FrameId} {args : List Value} {outer : Scene} {n room : Nat}
      {s : State} (hn : outer.nested = n + 1) (hroom : outer.room = room + 1)
      (h : Subrun q inner t (constructBody function invoker args)
        { outer with nested := n, room, within := .construct function invoker args :: outer.within } s) :
      Subrun q inner t (Proc.request (.construct function invoker args)) outer s

/-- The depth of calls is the same after a run as before it. -/
theorem Scene.depth_observe {α : Type} (scene : Scene) (p : Proc α) (s : State) :
    (scene.observe p s).2.2.depth = s.depth := by
  have hlasting := lasting_depth scene.limits
  rw [observe, Proc.observe_snd]
  simp only [observeAnswer_snd]
  exact hlasting.run (hlasting.answer scene.nested scene.room) p s

theorem Scene.Rounds.depth {σ β : Type} {scene : Scene} {round : σ → Proc (Round σ β)} {n : Nat} {x y : σ}
    {s t : State} (h : scene.Rounds round n x s y t) : t.depth = s.depth := by
  induction h with
  | none => rfl
  | @more n x y z s t u h hround _ ih =>
    have hdepth := scene.depth_observe (round x) s
    rw [hround] at hdepth
    exact ih.trans hdepth

namespace Subrun

variable {α β γ : Type} {q : Proc β} {p : Proc α} {inner outer : Scene} {s t : State}

/-- A part of a part is a part. -/
theorem trans {r : Proc γ} {middle : Scene} {u : State} (h : Subrun q middle u p outer s)
    (h' : Subrun r inner t q middle u) : Subrun r inner t p outer s := by
  induction h with
  | here => exact h'
  | first k _ ih => exact .first k ih
  | second hp _ ih => exact .second hp ih
  | attempt _ ih => exact .attempt ih
  | loop hn hrounds _ ih => exact .loop hn hrounds ih
  | call hn hdepth _ ih => exact .call hn hdepth ih
  | construct hn hroom _ ih => exact .construct hn hroom ih

/-- A fault in a round ends the loop. -/
theorem unwinds_rounds {σ : Type} {runner : RunnerId} {kind : NodeKind} {test body : σ → Proc (Round σ β)} {n m : Nat}
    {x y : σ} (hrounds : outer.Rounds (Proc.round runner kind test body) n x s y t) (hn : n < m)
    {h : List Occurrence} {e : Fault} {u : State} {depth : Nat}
    (hround : Passage.Unwinds h e u depth (outer.observe (Proc.round runner kind test body y) t)) :
    Passage.Unwinds h e u depth
      (Passage.rounds (Passage.perform outer.limits outer.within (.tick runner kind)) (fun x => outer.observe (test x))
        (fun x => outer.observe (body x)) m x s) := by
  induction hrounds generalizing m with
  | none =>
    obtain ⟨m, rfl⟩ := Nat.exists_eq_add_one_of_ne_zero (Nat.ne_zero_of_lt hn)
    rw [outer.rounds_succ]
    exact hround.andThen _
  | more hfirst _ ih =>
    obtain ⟨m, rfl⟩ := Nat.exists_eq_add_one_of_ne_zero (Nat.ne_zero_of_lt hn)
    rw [outer.rounds_succ, hfirst]
    exact (ih (Nat.lt_of_succ_lt_succ hn) hround).after

/-- A fault ends whatever it happens in. -/
theorem fault (h : Subrun q inner t p outer s) {before : List Occurrence} {e : Fault} {u : State}
    (hq : inner.observe q t = (before, .fault e, u)) : Passage.Unwinds before e u s.depth (outer.observe p s) := by
  induction h with
  | here =>
    have hdepth := inner.depth_observe q t
    rw [hq] at hdepth ⊢
    exact ⟨[], [], by simp [← hdepth], by simp⟩
  | first k _ ih =>
    rw [Scene.observe_bind]
    exact ih.andThen _
  | @second _ _ p k outer s v h a hp _ ih =>
    have hdepth := outer.depth_observe p s
    rw [hp] at hdepth
    rw [Scene.observe_bind, hp, ← hdepth]
    exact ih.after
  | attempt _ ih =>
    rw [Scene.observe_attempt]
    exact ih.caught
  | loop hn hrounds _ ih =>
    rw [hrounds.depth] at ih
    exact (unwinds_rounds hrounds hn ih).andThen _
  | @call function invoker this args outer n s hn hdepth _ ih =>
    let r : Request := .call function invoker this args
    have hanswer : Passage.Unwinds before e u s.depth
        (observeAnswer outer.limits outer.bound outer.nested outer.room outer.within r s) := by
      rw [hn, observeAnswer, if_neg (Int.not_le.2 hdepth)]
      let scene : Scene := { outer with nested := n, within := r :: outer.within }
      let answered := scene.observe (callBody function invoker this args) { s with depth := s.depth + 1 }
      change Passage.Unwinds before e u s.depth (_ :: _ :: answered.1 ++
        [⟨outer.within, .leave, { answered.2.2 with depth := answered.2.2.depth - 1 }⟩], answered.2.1,
          { answered.2.2 with depth := answered.2.2.depth - 1 })
      rw [scene.depth_observe]
      exact ih.enclosed _ _ _ _ rfl
    exact hanswer.caught.andThen _
  | @construct function invoker args outer n room s hn hroom _ ih =>
    let r : Request := .construct function invoker args
    have hanswer : Passage.Unwinds before e u s.depth
        (observeAnswer outer.limits outer.bound outer.nested outer.room outer.within r s) := by
      rw [hn, hroom, observeAnswer]
      let scene : Scene := { outer with nested := n, room, within := r :: outer.within }
      let answered := scene.observe (constructBody function invoker args) s
      have hsame : { answered.2.2 with depth := s.depth } = answered.2.2 := by
        rw [← scene.depth_observe (constructBody function invoker args) s]
      have henclosed := ih.enclosed s.depth ⟨outer.within, .ask r, s⟩ ⟨r :: outer.within, .enter, s⟩
        ⟨outer.within, .leave, answered.2.2⟩ rfl
      rw [hsame] at henclosed
      exact henclosed
    exact hanswer.caught.andThen _

/-! ### Where statements are run -/

variable {scene : Scene} {c : Context} {labels : List Text} {body : Stmt} {last : Option Stmt} {h : List Occurrence}

/-- What a statement does, after it has been counted. -/
theorem counted {stmt : Stmt} (htick : scene.observe (perform (.tick c.runner stmt.kind)) s = (h, .ok (), t)) :
    Subrun (exec c labels stmt) scene t (statement c labels stmt) scene s :=
  .second htick .here

/-- The block of a `try` statement. -/
theorem tryBlock (handler : Option (Text × Stmt)) :
    Subrun (statement c [] body) scene s (exec c labels (.tryCatch body handler last)) scene s := by
  rw [← tryAll_of]
  exact .first _ (.attempt .here)

/-- The handler of a `try` statement whose block has thrown a value. -/
theorem tryHandler {name : Text} {handler : Stmt} {o : Outcome Completion} {v : Value}
    (hblock : scene.observe (statement c [] body) s = (h, o, t)) (ho : o.ending? = some (.throws v)) :
    let f := t.store.frames.size
    Subrun (statement { c with scope := f } [] handler) scene ((t.opened c.scope).written f (.ofText name) v)
      (exec c labels (.tryCatch body (some (name, handler)) last)) scene s := by
  intro f
  obtain ⟨e, hattempt, he⟩ : ∃ e, scene.observe (statement c [] body).attempt s = (h, .ok e, t) ∧
      Completion.ofAttempt e = .throws v := by
    rw [Scene.observe_attempt, hblock]
    cases o with
    | ok e =>
      obtain rfl := Option.some.inj ho
      exact ⟨_, rfl, rfl⟩
    | thrown w =>
      obtain rfl := Completion.throws.inj (Option.some.inj ho)
      exact ⟨_, rfl, rfl⟩
    | fault e => cases ho
    | unfinished => cases ho
  have hput := scene.observe_performed (State.perform_put (v := v) (t.accepts_opened c.scope) (Key.fits_ofText name))
  rw [← tryAll_of]
  refine .second hattempt (.first _ ?_)
  rw [he]
  exact .second (a := f) (scene.observe_perform _ t) (.second hput (.first _ (.attempt .here)))

/-- A statement of a list, after those before it. -/
theorem listed {before after : List Stmt} {stmt : Stmt} {latest latest' : Option Value}
    (hkind : stmt.kind ≠ .functionStmt)
    (hbefore : scene.observe (execList c latest before) s = (h, .ok (.again latest'), t)) :
    Subrun (statement c [] stmt) scene t (execList c latest (before ++ stmt :: after)) scene s := by
  rw [← inList_of hkind]
  exact .second hbefore (.first _ .here)

/-- The statements of a program or of the body of a function, after the declarations. -/
theorem program {f : FrameId} {stmts : List Stmt} {h' : List Occurrence} {u : State}
    (hvariables : scene.observe (declareVariables f (varNamesOf stmts)) s = (h, .ok (), t))
    (hfunctions : scene.observe (declareFunctions c stmts) t = (h', .ok (), u)) :
    Subrun (execList c none stmts) scene u (runList c f stmts) scene s :=
  .second hvariables (.second hfunctions (.first _ .here))

/-- The body of a function of a script, in a call. -/
theorem called {function : ObjectId} {name : Text} {params : List Text} {code : List Stmt} {scope f : FrameId}
    {runner : RunnerId} {selfBound : Bool} {invoker : Option FrameId} {this : Value} {args : List Value} {n : Nat}
    (hn : outer.nested = n + 1) (hdepth : (s.depth : Int) < outer.limits.depth)
    (hbody : s.store.body function = .function name (.script params code scope runner selfBound)) :
    let inner := { outer with nested := n, within := .call function invoker this args :: outer.within }
    inner.observe (openActivation function name params scope selfBound invoker this args)
      { s with depth := s.depth + 1 } = (h, .ok f, t) →
    Subrun (runBody f runner name code) inner t (Proc.call function invoker this args) outer s := by
  intro inner hopen
  refine .call hn hdepth (.second (h := []) (a := s.store.body function) rfl ?_)
  rw [hbody]
  exact .second hopen .here

/-- A program that is given as source text at run time. -/
theorem sourced {source : Text} {node : Node} {p : Program} {scope : Proc FrameId} {f : FrameId} {runner : RunnerId}
    {h' : List Occurrence} {u : State} (hparse : parse source = .ok node) (hp : Program.ofNode? node = some p)
    (hscope : scene.observe scope s = (h, .ok f, t)) (hcounter : scene.observe (counterFor f) t = (h', .ok runner, u)) :
    Subrun (runProgram f runner p) scene u (runSource source scope) scene s := by
  rw [runSource, hparse]
  refine .second hscope (.second hcounter ?_)
  rw [hp]
  exact .here

end Subrun

/-! ## `try` statements in programs -/

/-- The scene in which an engine runs what the host asks it to. -/
def Engine.scene (e : Engine) : Scene := ⟨e.limits, e.fuel, e.fuel, e.limits.stack, []⟩

theorem Engine.observe_scene {α : Type} (e : Engine) (work : Proc α) :
    e.scene.observe work e.state = (e.record work, (e.run work).1, (e.run work).2.state) := by
  have hrun : (e.scene.observe work e.state).2 = work.runIn e.limits e.fuel e.state := Proc.observeIn_snd work e.fuel _
  exact Prod.ext rfl hrun

/-- A `try` statement with a last part. If what comes before the last part has ended at script level, the last part is
run once, after it; then the statement ends like the last part, or, if this has ended normally, as it would have ended
without it. If what comes before ends with a fault, nothing else is run: the statement ends with the fault at once,
and so does all work of the host in which it stands, at any depth, in the state in which the fault arose up to the
depth of calls. -/
theorem exec_tryFinally (scene : Scene) (c : Context) (labels : List Text) (body : Stmt)
    (handler : Option (Text × Stmt)) (last : Stmt) (s : State) :
    (∀ before o pending t, scene.guarded c body handler s = (before, o, t) → o.ending? = some pending →
      let r := scene.observe (statement c [] last) t
      scene.observe (exec c labels (.tryCatch body handler (some last))) s =
        (before ++ r.1, r.2.1.resuming pending, r.2.2)) ∧
    ∀ before e t, scene.guarded c body handler s = (before, .fault e, t) →
      scene.observe (exec c labels (.tryCatch body handler (some last))) s = (before, .fault e, t) ∧
      ∀ (α : Type) (work : Proc α) (engine : Engine),
        Subrun (exec c labels (.tryCatch body handler (some last))) scene s work engine.scene engine.state →
        engine.run work = (.fault e, { engine with state := { t with depth := engine.state.depth } }) ∧
        ∃ earlier leaving, engine.record work = earlier ++ before ++ leaving ∧ ∀ m ∈ leaving, m.event = .leave := by
  constructor
  · intro before o pending t hguarded hending r
    rw [Scene.observe_tryCatch, hguarded]
    have hsettled : Passage.settle .throws (before, o, t) = (before, .ok pending, t) := by
      cases o with
      | ok e =>
        obtain rfl := Option.some.inj hending
        rfl
      | thrown v =>
        obtain rfl := Option.some.inj hending
        rfl
      | fault e => cases hending
      | unfinished => cases hending
    rw [hsettled, Passage.andThen_ok, Scene.observe_finished]
  · intro before e t hguarded
    have hfault : scene.observe (exec c labels (.tryCatch body handler (some last))) s = (before, .fault e, t) := by
      rw [Scene.observe_tryCatch, hguarded]
      rfl
    refine ⟨hfault, fun α work engine hsubrun => ?_⟩
    obtain ⟨earlier, leaving, hrecord, hleaving⟩ := hsubrun.fault hfault
    rw [Engine.observe_scene] at hrecord
    obtain ⟨hrecord, hend⟩ := Prod.mk.inj hrecord
    obtain ⟨hout, hstate⟩ := Prod.mk.inj hend
    have hrest : (engine.run work).2 = { engine with state := (engine.run work).2.state } := rfl
    rw [hstate] at hrest
    exact ⟨Prod.ext hout hrest, earlier, leaving, hrecord, hleaving⟩

theorem Outcome.fault_of_isRefused {α : Type} {o : Outcome α} (h : o.isRefused) : ∃ k, o = .fault (.sealed k) := by
  cases o with
  | fault e =>
    cases e with
    | «sealed» k => exact ⟨k, rfl⟩
    | _ => cases h
  | _ => cases h

/-- The statement `x = true`. -/
def assignX : Stmt := .expr (.assign none (.ident "x") (.literal (.bool true)))

/-- The statement with the given block that catches what this throws and has a last part, both empty. -/
def attempting (body : Stmt) : Stmt := .tryCatch body (some ("e", .empty)) (some .empty)

/-- An engine with a sealed scope in which `x` is bound, and with a function whose body is
`try { try { x = true } catch (e) {} finally {} } catch (e) {} finally {}`. -/
def attemptingEngine : Engine :=
  let scope : Frame :=
    { parent := some Realm.core, role := .program, entries := [(.ofText "x", .null)], sealed := true }
  let function : Object := { body := .function "f" (.script [] [attempting (attempting assignX)] 1 0 false) }
  { state := { store := { frames := #[{ role := .core }, scope], objects := #[function] } }, fuel := 3 }

/-- The refusal of the assignment ends both `try` statements and the call. A `break` in a `try` statement is held back
and taken up again. -/
theorem exec_tryFinally_refused :
    let e := attemptingEngine
    let work := Proc.call 0 none .undefined []
    ((e.run work).1.isRefused ∧ (e.run work).2.state.depth = 0) ∧
      (e.scene.observe (exec ⟨0, 0⟩ [] (.tryCatch (.breaks none) none (some .empty))) e.state).2.1 =
        .ok (.breaks none none) := by
  intro e work
  let scene : Scene := { e.scene with nested := 2, within := [.call 0 none .undefined []] }
  let c : Context := ⟨0, 3⟩
  let opened := scene.observe (openActivation 0 "f" [] 1 false none .undefined []) { e.state with depth := 1 }
  let tick (s : State) := scene.observe (perform (.tick 0 .tryStmt)) s
  let s := (tick (tick opened.2.2).2.2).2.2
  have hsub : Subrun (exec c [] (attempting assignX)) scene s work e.scene e.state := by
    have hopen : opened = (opened.1, .ok 3, opened.2.2) := Passage.ends rfl
    have hbody : Subrun (runBody 3 0 "f" [attempting (attempting assignX)]) scene opened.2.2 work e.scene e.state :=
      .called rfl (by decide) rfl hopen
    have hlist : Subrun (execList c none [attempting (attempting assignX)]) scene opened.2.2 work e.scene e.state :=
      hbody.trans (.first _ (.program (Passage.ends rfl) (Passage.ends rfl)))
    have houter : Subrun (statement c [] (attempting (attempting assignX))) scene opened.2.2 work e.scene e.state :=
      hlist.trans (.first _ .here)
    have hblock := (houter.trans (.counted (Passage.ends rfl))).trans (Subrun.tryBlock _)
    exact hblock.trans (.counted (Passage.ends rfl))
  have hrefused : (scene.guarded c assignX (some ("e", .empty)) s).2.1.isRefused := by decide +kernel
  obtain ⟨k, hfault⟩ := Outcome.fault_of_isRefused hrefused
  have hrun := (((exec_tryFinally scene c [] assignX _ .empty s).2 _ _ _ (Passage.ends hfault)).2 _ work e hsub).1
  have hbreak : (e.scene.guarded ⟨0, 0⟩ (.breaks none) none e.state).2.1 = .ok (.breaks none none) := rfl
  have hresumed := (exec_tryFinally e.scene ⟨0, 0⟩ [] (.breaks none) none .empty e.state).1 _ _ _ _
    (Passage.ends hbreak) rfl
  rw [hrun, hresumed]
  exact ⟨⟨rfl, rfl⟩, rfl⟩

end ScriptEngine
