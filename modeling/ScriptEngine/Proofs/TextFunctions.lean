import ScriptEngine.Proofs.Reach

/-!
# Functions made from texts

A function is made from texts by running a program: its parameters and its body are put into the text of a
function expression, and the text is read and run as a whole. If that text cannot be read, the only effect is a
new error. If it reads as one function expression, the only effect is the new function, and no code of the texts
has been executed. But the texts can end the function expression before its time; then what they hold besides is
code like any other, and is executed.

## Main results

* `run_oneFunction`: the run of a program that is one function expression.
* `functionFromTexts_builds`: what happens when a function is made from texts.
* `functionFromTexts_executes`: texts whose code is executed on the way.
-/

namespace ScriptEngine

open Proc

variable {limits : Limits} {bound : Nat} {handler : Handler}

/-! ## Scopes that see the built-in names -/

namespace Store

variable {names : Key → Prop} {s : Store} {f : FrameId}

/-- The last scope of a rooted chain is that of the built-in names. -/
theorem Sound.getLastD_ancestors (hs : s.Sound names) (h : s.Rooted f) {n : Nat} (hn : f < n) (d : FrameId) :
    (s.ancestors n f).getLastD d = Realm.core := by
  induction h generalizing n d with
  | @program f hrole hp =>
    have hne : f ≠ Realm.core := hs.ne_core (.program hrole hp)
    obtain ⟨m, rfl⟩ := Nat.exists_eq_add_one_of_ne_zero (Nat.ne_zero_of_lt hn)
    have hm : m ≠ 0 := by
      rintro rfl
      exact hne (Nat.lt_one_iff.1 hn)
    obtain ⟨m, rfl⟩ := Nat.exists_eq_add_one_of_ne_zero hm
    simp [ancestors, hp, hs.core_parent]
  | @inner f p hp hlt hrooted ih =>
    obtain ⟨m, rfl⟩ := Nat.exists_eq_add_one_of_ne_zero (Nat.ne_zero_of_lt hn)
    rw [ancestors, hp, List.getLastD_cons]
    exact ih (Nat.lt_of_lt_of_le hlt (Nat.le_of_lt_succ hn)) f

theorem Sound.isAttached (hs : s.Sound names) (h : s.Rooted f) : s.isAttached f := by
  rw [Store.isAttached, root, chain, hs.getLastD_ancestors h (Nat.lt_succ_self f), hs.core_role]
  rfl

end Store

/-! ## Adding to a state -/

/-- Nothing is printed and nothing that was there is changed. -/
structure State.Adds (s t : State) : Prop where
  frames : s.store.Extends t.store
  objects : s.store.objects.size ≤ t.store.objects.size
  object (o : ObjectId) : o < s.store.objects.size → t.store.object o = s.store.object o
  printed : t.printed = s.printed

namespace State.Adds

variable {s t u : State}

theorem refl (s : State) : s.Adds s := ⟨⟨Nat.le_refl _, fun _ _ => rfl⟩, Nat.le_refl _, fun _ _ => rfl, rfl⟩

theorem trans (h : s.Adds t) (h' : t.Adds u) : s.Adds u where
  frames := h.frames.trans h'.frames
  objects := Nat.le_trans h.objects h'.objects
  object o ho := (h'.object o (Nat.lt_of_lt_of_le ho h.objects)).trans (h.object o ho)
  printed := h'.printed.trans h.printed

/-- Only frames that were not there differ. -/
theorem refined (h : s.Adds t) {store : Store} (hframes : s.store.Extends store)
    (hobjects : store.objects = t.store.objects) : s.Adds { t with store } where
  frames := hframes
  objects := by
    simp only [hobjects]
    exact h.objects
  object o ho := by
    simp only [Store.object, hobjects]
    exact h.object o ho
  printed := h.printed

theorem addWith (s : State) (proto : Option ObjectId) (body : Body) (props : Option FrameId → Frame) :
    s.Adds { s with store := (s.store.addWith proto body props).2 } where
  frames := .addWith _ _ _ _
  objects := by simp [Store.addWith, Store.addFrame, Store.addObject]
  object o ho := by
    refine (Store.Next.object_addObject _ _ _).trans ?_
    rw [if_neg (Nat.ne_of_lt ho)]
    rfl
  printed := rfl

/-- The scope of a program comes with an object. -/
theorem addProgramScope (s : State) : s.Adds { s with store := s.store.addProgramScope.2 } :=
  (addWith s (some Realm.objectPrototype) .plain fun _ => { parent := some Realm.core, role := .program }).refined
    (.addProgramScope _) rfl

/-- A function comes with the object from which what it constructs inherits. -/
theorem addClosure (s : State) (name : Text) (params : List Text) (body : List Stmt) (scope : FrameId)
    (runner : RunnerId) (selfBound : Bool) :
    s.Adds { s with store := (s.store.addClosure name params body scope runner selfBound).2 } := by
  have hfunction := addWith s (some Realm.functionPrototype)
    (.function name (.script params body scope runner (selfBound && !name.isEmpty)))
    fun parent => (({ parent } : Frame).define Key.length (.ofNat params.length)).define Key.nameKey (.str name)
  have hproto := hfunction.trans (addWith _ (some Realm.objectPrototype) .plain fun parent => { parent })
  exact hproto.refined (.addClosure _ _ _ _ _ _ _) rfl

theorem count (limits : Limits) (s : State) (runner : RunnerId) (kind : NodeKind) :
    s.Adds (Action.count limits s runner kind).2 := by
  simp only [Action.count, apply_ite Prod.snd, ite_self]
  split <;> exact ⟨(refl s).frames, Nat.le_refl _, fun _ _ => rfl, rfl⟩

end State.Adds

/-! ## One function expression -/

theorem Action.store_count (limits : Limits) (s : State) (runner : RunnerId) (kind : NodeKind) :
    (Action.count limits s runner kind).2.store = s.store := by
  simp only [Action.count, apply_ite Prod.snd, ite_self]
  split <;> rfl

theorem run_counted {α : Type} {c : Context} {st : Stmt} {p : Proc α} {s : State}
    (hsteps : 0 ≤ limits.steps) (hcounter : s.counter c.runner = 0) :
    (counted c st p).run limits bound handler s =
      p.run limits bound handler (Action.count limits s c.runner st.kind).2 := by
  have hlimit : ¬(limits.steps ≠ 0 ∧ limits.steps < (s.counter c.runner + 1 : Nat)) := by
    rw [hcounter]
    omega
  have htick : (perform (.tick c.runner st.kind)).run limits bound handler s =
      (.ok (), (Action.count limits s c.runner st.kind).2) := by
    change Course.andThen (Course.perform limits (.tick c.runner st.kind) s) _ = _
    rw [Course.perform_tick, if_neg hlimit]
    rfl
  exact run_then htick rfl

/-- The state after a statement has made a function. -/
def State.withClosure (s : State) (limits : Limits) (name : Text) (params : List Text) (code : List Stmt)
    (scope : FrameId) (runner : RunnerId) : State :=
  let t := (Action.count limits s runner .expr).2
  { t with store := (t.store.addClosure name params code scope runner true).2 }

section WithClosure

variable (s : State) (limits : Limits) (name : Text) (params : List Text) (code : List Stmt) (scope : FrameId)
  (runner : RunnerId)

/-- The function that has been made. -/
theorem State.body_withClosure : (s.withClosure limits name params code scope runner).store.body s.store.objects.size =
    .function name (.script params code scope runner (!name.isEmpty)) := by
  rw [State.withClosure, Action.store_count]
  simp only [Store.body, Store.object, Store.addClosure, Store.addFunction, Store.addPlain, Store.addWith,
    Store.addFrame, Store.addObject, Store.linkPrototype, Store.defineProperty, Store.modifyFrame,
    Array.getD_eq_getD_getElem?, Array.getElem?_push, Array.size_push]
  simp

theorem State.Adds.withClosure : s.Adds (s.withClosure limits name params code scope runner) :=
  (State.Adds.count limits s runner .expr).trans (.addClosure _ name params code scope runner true)

end WithClosure

/-- A program that is one function expression makes the function and does nothing else. -/
theorem run_oneFunction {scope : FrameId} {runner : RunnerId} {name : Text} {params : List Text}
    {code : List Stmt} {s : State} (hsteps : 0 ≤ limits.steps) (hcounter : s.counter runner = 0) :
    (runProgram scope runner [.expr (.function name params code)]).run limits bound handler s =
      (.ok (.obj s.store.objects.size), s.withClosure limits name params code scope runner) := by
  let c : Context := ⟨runner, scope⟩
  let t := s.withClosure limits name params code scope runner
  have hstore := Action.store_count limits s runner .expr
  have hvalue : (value (eval c (.function name params code))).run limits bound handler
      (Action.count limits s runner .expr).2 = (.ok (.obj s.store.objects.size), t) := by
    rw [eval, ← hstore]
    rfl
  have hlist : (execList c none [.expr (.function name params code)]).run limits bound handler s =
      (.ok (.again (some (.obj s.store.objects.size))), t) := by
    rw [execList, exec]
    · refine run_then ((run_counted hsteps hcounter).trans (run_then hvalue rfl)) ?_
      simp [Completion.afterStatement, execList]
    · simp
  refine run_then (run_read _ s) (run_then (a := .normal (some (.obj s.store.objects.size))) (t := t) ?_ rfl)
  -- A function expression declares no names.
  exact run_then (a := ()) (t := s) rfl (run_then (a := ()) (t := s) rfl (run_then hlist rfl))

/-! ## Functions from texts -/

theorem run_map_toText (texts : List Text) (s : State) :
    (Proc.map toText (texts.map .str)).run limits bound handler s = (.ok texts, s) := by
  rw [map_of_pure (g := Value.str) fun _ => rfl, run_pure]

/-- The scope in which a function from texts is made: that of the program of the caller, or a new one. -/
def programScope (invoker : Option FrameId) : Proc FrameId :=
  match invoker with
  | some f => read (·.globalScope f)
  | none => perform .openProgram

theorem run_functionFromTexts {i : Invocation} {params : List Text} {body : Text}
    (hargs : i.args = (params ++ [body]).map .str) (s : State) :
    (functionFromTexts i).run limits bound handler s =
      (runSource (functionSource params body) (programScope i.invoker)).run limits bound handler s := by
  have hlast : i.args.getLast? = some (.str body) := by simp [hargs]
  have hinit : i.args.dropLast = params.map .str := by simp [hargs]
  rw [functionFromTexts, hinit, hlast]
  exact run_then (run_map_toText params s) (run_then (a := body) (t := s) rfl rfl)

theorem run_programScope {names : Key → Prop} {invoker : Option FrameId} {s : State}
    (hs : s.store.Sound names) (hinvoker : ∀ f ∈ invoker, s.store.Rooted f) :
    ∃ g t, (programScope invoker).run limits bound handler s = (.ok g, t) ∧ s.Adds t ∧ t.store.isAttached g ∧
      ∀ f ∈ invoker, g = s.store.globalScope f := by
  cases invoker with
  | some f =>
    have hrooted := hs.rooted_globalScope (hinvoker f rfl)
    refine ⟨_, s, rfl, .refl s, hs.isAttached hrooted, ?_⟩
    rintro _ ⟨⟩
    rfl
  | none =>
    obtain ⟨hnext, hrooted⟩ := Store.Next.addProgramScope hs
    exact ⟨_, _, rfl, .addProgramScope s, hnext.sound.isAttached hrooted, nofun⟩

theorem run_counterFor {g : FrameId} {s : State} (h : s.store.isAttached g) :
    (counterFor g).run limits bound handler s =
      (.ok s.counters.size, { s with counters := s.counters.push 0 }) := by
  have hchoice (attached : Bool) (ha : attached) :
      Proc.run limits bound handler (if attached then perform .newRunner else fault .detachedScope : Proc RunnerId) s =
        (.ok s.counters.size, { s with counters := s.counters.push 0 }) := by
    subst ha
    rfl
  exact run_then (run_read _ s) (hchoice _ h)

/-- The function that a text reads as, if it is one function expression: its name, parameters and code. -/
def functionIn? (source : Text) : Option (Text × List Text × List Stmt) :=
  match parse source with
  | .ok n =>
    match Program.ofNode? n with
    | some [.expr (.function name params code)] => some (name, params, code)
    | _ => none
  | .error _ => none

theorem of_functionIn? {source name : Text} {params : List Text} {code : List Stmt}
    (h : functionIn? source = some (name, params, code)) :
    ∃ n, parse source = .ok n ∧ Program.ofNode? n = some [.expr (.function name params code)] := by
  unfold functionIn? at h
  split at h
  · rename_i n hparse
    split at h
    · rename_i hprogram
      cases h
      exact ⟨n, hparse, hprogram⟩
    · cases h
  · cases h

/-- What happens when a function is made from texts. Where the text of the whole cannot be read, a new syntax
error is thrown; where a literal in it denotes no value, the run ends with a fault. Where it reads as one function
expression, the result is a new function with the parameters and the code that were read, closed over the scope
of the program. In all these cases nothing is printed and nothing that was there is changed: no code from the
texts has been executed. -/
theorem functionFromTexts_builds {names : Key → Prop} {i : Invocation} {params : List Text} {body : Text}
    {s : State} (hargs : i.args = (params ++ [body]).map .str) (hs : s.store.Sound names)
    (hinvoker : ∀ f ∈ i.invoker, s.store.Rooted f) (hsteps : 0 ≤ limits.steps) :
    let r := (functionFromTexts i).run limits bound handler s
    (∀ message, parse (functionSource params body) = .error (.malformed message) →
      r = (.thrown (.obj s.store.objects.size),
        { s with store := (s.store.addError .syntaxError (some message)).2 }) ∧ s.Adds r.2) ∧
    (∀ e, parse (functionSource params body) = .error (.literal e) → r = (.fault (.literal e), s)) ∧
    ∀ name ps code, functionIn? (functionSource params body) = some (name, ps, code) →
      ∃ o scope runner, r.1 = .ok (.obj o) ∧ s.store.objects.size ≤ o ∧
        r.2.store.body o = .function name (.script ps code scope runner (!name.isEmpty)) ∧
        (∀ f ∈ i.invoker, scope = s.store.globalScope f) ∧ s.Adds r.2 := by
  intro r
  have hr : r = (runSource (functionSource params body) (programScope i.invoker)).run limits bound handler s :=
    run_functionFromTexts hargs s
  refine ⟨?_, ?_, ?_⟩
  · intro message hparse
    have hthrown : r = (.thrown (.obj s.store.objects.size),
        { s with store := (s.store.addError .syntaxError (some message)).2 }) := by
      rw [hr, runSource, hparse]
      rfl
    refine ⟨hthrown, ?_⟩
    rw [hthrown]
    exact .addWith s _ _ _
  · intro e hparse
    rw [hr, runSource, hparse]
    rfl
  · intro name ps code hread
    obtain ⟨n, hparse, hprogram⟩ := of_functionIn? hread
    obtain ⟨g, t, hscope, hadds, hattached, hglobal⟩ := @run_programScope limits bound handler _ _ s hs hinvoker
    let u : State := { t with counters := t.counters.push 0 }
    have hrunner : (counterFor g).run limits bound handler t = (.ok t.counters.size, u) := run_counterFor hattached
    have hcounter : u.counter t.counters.size = 0 := by simp [u, State.counter]
    have hfunction : r = (.ok (.obj t.store.objects.size), u.withClosure limits name ps code g t.counters.size) := by
      rw [hr, runSource, hparse]
      refine run_then hscope (run_then hrunner ?_)
      rw [hprogram]
      exact run_oneFunction hsteps hcounter
    rw [hfunction]
    refine ⟨_, g, t.counters.size, rfl, hadds.objects, ?_, hglobal, ?_⟩
    · exact u.body_withClosure limits name ps code g t.counters.size
    · have hcounted : t.Adds u := ⟨(State.Adds.refl t).frames, Nat.le_refl _, fun _ _ => rfl, rfl⟩
      exact (hadds.trans hcounted).trans (.withClosure u limits name ps code g t.counters.size)

/-- A function with one parameter, made in a new engine. -/
theorem functionFromTexts_builds_identity :
    let s := (Engine.new {} {} []).state
    let i : Invocation := ⟨none, .undefined, [.str "a", .str "return a"]⟩
    ∃ r o name code scope runner, (functionFromTexts i).run {} 0 (fun _ s => (.unfinished, s)) s = r ∧
      r.1 = .ok (.obj o) ∧
      r.2.store.body o = .function name (.script [Text.ofString "a"] code scope runner (!name.isEmpty)) ∧
      r.2.printed = s.printed := by
  intro s i
  have hparams : (functionIn? (functionSource ["a"] "return a")).map (·.2.1) = some [Text.ofString "a"] := by
    decide +kernel
  obtain ⟨⟨name, params, code⟩, hread, hps⟩ := Option.map_eq_some_iff.1 hparams
  obtain rfl : params = [Text.ofString "a"] := hps
  have hbuilds := @functionFromTexts_builds {} 0 (fun _ s => (.unfinished, s)) _ i ["a"] "return a" s rfl
    (Engine.sound_new {} {} []) nofun (by decide)
  obtain ⟨o, scope, runner, hvalue, -, hbody, -, hadds⟩ := hbuilds.2.2 name _ code hread
  exact ⟨_, o, name, code, scope, runner, rfl, hvalue, hbody, hadds.printed⟩

/-- A state with a program in whose scope `x` is bound. -/
def oneVariable : State :=
  { store := { frames := #[{ role := .core },
      { parent := some Realm.core, role := .program, entries := [(.name "x", .null)] }] } }

/-- The value bound to `x` in the scope of the program. -/
def State.isSet (s : State) : Bool :=
  match (s.store.frame 1).lookup? (.name "x") with
  | some (.bool b) => b
  | _ => false

/-- The text `}), (x = true), (function() {` for a body closes the function expression, and what comes after it
is executed: the call gives a function, but it has written to `x`. -/
theorem functionFromTexts_executes :
    let r := (functionFromTexts ⟨some 1, .undefined, [.str "\x7d), (x = true), (function() \x7b"]⟩).run
      {} 0 (fun _ s => (.unfinished, s)) oneVariable
    oneVariable.isSet = false ∧ r.2.isSet = true := by
  decide +kernel

end ScriptEngine
