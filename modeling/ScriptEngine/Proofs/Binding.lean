import ScriptEngine.Proofs.Lowered
import ScriptEngine.Proofs.Setters

/-!
# Chains of bound functions

A function that is bound again and again is a chain of functions, each of which calls the one before it with the
receiver and the first arguments that it was bound to. Only the first receiver reaches the function at the
beginning of the chain, with all arguments in the order of the bindings. Each function of the chain takes one call
more, so this function runs some levels lower than it does when it is called at once. Construction and `instanceof`
go to the beginning of the chain without calls.

## Main definitions

* `Binding`: a receiver and first arguments.
* `Store.Binds`: the chain in the store.
* `BindChain`: what a program does to make such a chain.

## Main results

* `BindChain.binds`: a chain that was made is in the store, whatever has been done since.
* `Store.Binds.answer_call`, `Store.Binds.unbound`: calls and constructions go through the chain.
* `Store.Binds.answer_callMethod`, `Store.Binds.answer_construct`, `Store.Binds.run_instanceOf`: calls, constructions
  and `instanceof` at the end of a chain against those at its beginning.
* `bind_composes`: what can be done with the function at the end of a chain, in terms of that at its beginning.
-/

namespace ScriptEngine

variable {α : Type} {limits : Limits} {bound n room : Nat} {handler : Handler}

/-- What a function is bound to. -/
structure Binding where
  /-- The receiver. -/
  this : Value
  /-- The first arguments. -/
  args : List Value

namespace Binding

/-- The receiver at the beginning of a chain: that of the first binding; without bindings it is the one that is
given. -/
def receiver (bs : List Binding) (this : Value) : Value := (bs.head?.map Binding.this).getD this

/-- The arguments at the beginning of a chain: those of the bindings in turn, and then those that are given. -/
def arguments (bs : List Binding) (args : List Value) : List Value := bs.flatMap Binding.args ++ args

variable {bs : List Binding} {b : Binding} {args : List Value}

theorem receiver_concat (this : Value) : receiver (bs ++ [b]) this = receiver bs b.this := by
  cases bs <;> rfl

theorem arguments_concat : arguments (bs ++ [b]) args = arguments bs (b.args ++ args) := by
  simp [arguments]

end Binding

/-! ## Functions stay what they are -/

/-- Only dates change what they are, so functions are the same after a run as before it. -/
theorem lasting_function (limits : Limits) (o : ObjectId) (name : Text) (callable : Callable) :
    Lasting limits fun s t =>
      s.store.body o = .function name callable → t.store.body o = .function name callable where
  refl _ h := h
  trans h h' ho := h' (h ho)
  call h := h
  act s a ho := by
    obtain ⟨new, h⟩ | ⟨o', ms, rfl⟩ := a.objects_perform limits s
    · have hlt : o < s.store.objects.size := Store.Next.lt_size_of_isCallable (by rw [ho]; rfl)
      rw [← ho, Store.body, Store.body, Store.object, Store.object, h]
      simp [Array.getD_eq_getD_getElem?, Array.getElem?_append_left hlt]
    · have hroom : ¬Frame.mostElements < (Action.setTime o' ms).demand s := Nat.not_lt_zero _
      rw [Action.perform, if_neg hroom]
      obtain h | h := Store.Next.object_modifyObject s.store o' _ o
      · exact (congrArg Object.body h).trans ho
      · refine (congrArg Object.body h).trans ?_
        simp only [show (s.store.object o).body = _ from ho]

/-! ## Chains in the store -/

namespace Store

variable {s t : Store} {f g o : ObjectId} {bs : List Binding} {args : List Value}

/-- A chain of functions that are bound one to another; it leads from `f` to the function that is bound last. A
function is older than what is bound to it. -/
inductive Binds (s : Store) (f : ObjectId) : List Binding → ObjectId → Prop
  | self : Binds s f [] f
  | bind {bs : List Binding} {g h : ObjectId} {name : Text} (b : Binding) (hchain : Binds s f bs g) (hlt : g < h)
      (hbody : s.body h = .function name (.bound g b.this b.args)) : Binds s f (bs ++ [b]) h

/-- A chain lasts as long as functions stay what they are. -/
theorem Binds.later (h : s.Binds f bs g)
    (hst : ∀ o name callable, s.body o = .function name callable → t.body o = .function name callable) :
    t.Binds f bs g := by
  induction h with
  | self => exact .self
  | bind b hchain hlt hbody ih => exact .bind b ih hlt (hst _ _ _ hbody)

theorem Binds.isCallable (h : s.Binds f bs g) (hf : (s.body f).isCallable) : (s.body g).isCallable := by
  cases h with
  | self => exact hf
  | bind b hchain hlt hbody => rw [hbody]; rfl

/-- What is at the end of a chain is bound, unless it is the beginning. -/
theorem Binds.exists_bound (h : s.Binds f bs g) (hne : bs ≠ []) :
    ∃ name target this args, s.body g = .function name (.bound target this args) := by
  cases h with
  | self => exact absurd rfl hne
  | bind b hchain hlt hbody => exact ⟨_, _, _, _, hbody⟩

/-- Targets are older, so the number of an object bounds the length of its chain. -/
theorem unbound_congr {m n : Nat} (hm : o < m) (hn : o < n) : s.unbound m o args = s.unbound n o args := by
  induction m generalizing n o args with
  | zero => cases hm
  | succ m ih =>
    obtain ⟨n, rfl⟩ := Nat.exists_eq_add_one_of_ne_zero (Nat.ne_zero_of_lt hn)
    rw [Store.unbound, Store.unbound]
    cases hbody : s.body o with
    | function name callable =>
      cases callable with
      | bound target this args' =>
        dsimp only
        by_cases htarget : target < o
        · rw [if_pos htarget, if_pos htarget]
          have hbelow {k : Nat} (hk : o < k + 1) : target < k := Nat.lt_of_lt_of_le htarget (Nat.le_of_lt_succ hk)
          exact ih (hbelow hm) (hbelow hn)
        · rw [if_neg htarget, if_neg htarget]
      | _ => rfl
    | _ => rfl

/-- The function at the beginning of a chain does not depend on the arguments. -/
theorem unbound_fst (n : Nat) (o : ObjectId) (args args' : List Value) :
    (s.unbound n o args).1 = (s.unbound n o args').1 := by
  induction n generalizing o args args' with
  | zero => rfl
  | succ n ih =>
    rw [Store.unbound, Store.unbound]
    cases s.body o with
    | function name callable =>
      cases callable with
      | bound target this args'' =>
        dsimp only
        split
        · exact ih _ _ _
        · rfl
      | _ => rfl
    | _ => rfl

/-- Both ends of a chain stand for the same function. -/
theorem Binds.unbound (h : s.Binds f bs g) (args : List Value) :
    s.unbound (g + 1) g args = s.unbound (f + 1) f (Binding.arguments bs args) := by
  induction h generalizing args with
  | self => rfl
  | @bind bs g h name b hchain hlt hbody ih =>
    rw [Binding.arguments_concat, ← ih, Store.unbound, hbody]
    dsimp only
    rw [if_pos hlt]
    exact unbound_congr hlt (Nat.lt_succ_self g)

end Store

/-! ## Calls through a chain -/

theorem Proc.run_request (r : Request) (s : State) : (Proc.request r).run limits bound handler s = handler r s := by
  refine (run_ask r _ s).trans ?_
  rcases handler r s with ⟨_ | _ | _ | _, t⟩ <;> rfl

/-- A course some calls deeper. -/
def Course.deeperBy (k : Nat) (f : Course α) : Course α := fun s =>
  let r := f { s with depth := s.depth + k }
  (r.1, { r.2 with depth := r.2.depth - k })

theorem Course.deeper_deeperBy (k : Nat) (f : Course α) : (f.deeperBy k).deeper = f.deeperBy (k + 1) := by
  funext s
  simp only [deeper, deeperBy, Nat.add_assoc, Nat.add_comm 1, Nat.sub_sub]

variable {s : State} {f g c : ObjectId} {bs : List Binding}

/-- A bound function calls its target. -/
theorem answer_bound {name : Text} {this' : Value} {args' : List Value}
    (hbody : s.store.body g = .function name (.bound f this' args')) (invoker : Option FrameId) (this : Value)
    (args : List Value) : answer limits bound (n + 1) room (.call g invoker this args) s =
      if limits.depth ≤ s.depth then (.fault (.tooDeep limits.depth), s)
      else Course.deeper (answer limits bound n room (.call f invoker this' (args' ++ args))) s := by
  rw [answer_call]
  have hrun : (callBody g invoker this args).run limits bound (answer limits bound n room)
      { s with depth := s.depth + 1 } =
        answer limits bound n room (.call f invoker this' (args' ++ args)) { s with depth := s.depth + 1 } := by
    refine Proc.run_then (Proc.run_read _ _) ?_
    rw [hbody]
    exact Proc.run_request _ _
  simp only [Course.deeper, hrun]

/-- Calling the end of a chain calls its beginning, deeper by the length of the chain, unless calls get too deep
on the way. -/
theorem Store.Binds.answer_call {store : Store} (h : store.Binds f bs g) (hs : s.store = store) {m : Nat}
    (hm : m = n + bs.length) (invoker : Option FrameId) (this : Value) (args : List Value) :
    (Cut.depth limits).Ends (answer limits bound m room (.call g invoker this args) s).1 ∨
      answer limits bound m room (.call g invoker this args) s =
        (answer limits bound n room (.call f invoker (Binding.receiver bs this) (Binding.arguments bs args))).deeperBy
          bs.length s := by
  induction h generalizing s this args m with
  | self =>
    subst hm
    exact .inr rfl
  | @bind bs g h name b hchain hlt hbody ih =>
    obtain rfl : m = n + bs.length + 1 := by simpa [Nat.add_assoc] using hm
    rw [answer_bound (hs ▸ hbody)]
    by_cases hdeep : limits.depth ≤ s.depth
    · rw [if_pos hdeep]
      exact .inl rfl
    rw [if_neg hdeep, Binding.receiver_concat, Binding.arguments_concat, List.length_append, List.length_singleton,
      ← Course.deeper_deeperBy]
    obtain hcut | hbefore := @ih { s with depth := s.depth + 1 } hs _ rfl b.this (b.args ++ args)
    · exact .inl hcut
    · right
      simp only [Course.deeper, hbefore]

/-- The methods of functions, called on a function. -/
theorem FunctionFn.run_target (what : String) (hf : (s.store.body f).isCallable) :
    (FunctionFn.target what (.obj f)).run limits bound handler s = (.ok f, s) :=
  Proc.run_then (Proc.run_callable? hf) rfl

/-- The method that calls a function with a receiver. -/
theorem answer_callMethod {name : Text} (hf : (s.store.body f).isCallable)
    (hbody : s.store.body c = .function name (.native (.function .call))) (invoker : Option FrameId) (this : Value)
    (args : List Value) : answer limits bound (n + 1) room (.call c invoker (.obj f) (this :: args)) s =
      if limits.depth ≤ s.depth then (.fault (.tooDeep limits.depth), s)
      else Course.deeper (answer limits bound n room (.call f invoker this args)) s := by
  rw [ScriptEngine.answer_call]
  have hrun : (callBody c invoker (.obj f) (this :: args)).run limits bound (answer limits bound n room)
      { s with depth := s.depth + 1 } =
        answer limits bound n room (.call f invoker this args) { s with depth := s.depth + 1 } := by
    refine Proc.run_then (Proc.run_read _ _) ?_
    rw [hbody]
    exact Proc.run_then (FunctionFn.run_target "call" hf) (Proc.run_request _ _)
  simp only [Course.deeper, hrun]

/-! ## Chains that are made -/

/-- A function is bound again and again, with any computations in between; all of this leads to a state. -/
inductive BindChain (f : ObjectId) : List Binding → ObjectId → State → Prop
  | start {s : State} (hf : (s.store.body f).isCallable) : BindChain f [] f s
  | bind {bs : List Binding} {g h : ObjectId} {s t : State} {limits : Limits} {bound : Nat} {handler : Handler}
      (b : Binding) (invoker : Option FrameId) (hchain : BindChain f bs g s)
      (hrun : (FunctionFn.bind.invoke ⟨invoker, .obj g, b.this :: b.args⟩).run limits bound handler s =
        (.ok (.obj h), t)) : BindChain f (bs ++ [b]) h t
  | later {α : Type} {bs : List Binding} {g : ObjectId} {s : State} (limits : Limits) (bound n room : Nat)
      (p : Proc α) (hchain : BindChain f bs g s) :
      BindChain f bs g (p.run limits bound (answer limits bound n room) s).2

/-- To bind a function makes a new function, and always succeeds. -/
theorem run_bind_invoke (b : Binding) (invoker : Option FrameId) (hg : (s.store.body g).isCallable) :
    (FunctionFn.bind.invoke ⟨invoker, .obj g, b.this :: b.args⟩).run limits bound handler s =
      (.ok (.obj s.store.objects.size), { s with store := (s.store.addBound g b.this b.args).2 }) := by
  have hperform : (Action.newBound g b.this b.args).perform limits s =
      (.ok s.store.objects.size, { s with store := (s.store.addBound g b.this b.args).2 }) :=
    if_neg (Nat.not_lt_zero _)
  exact Proc.run_then (FunctionFn.run_target "bind" hg) (Proc.run_then (Proc.run_perform hperform) rfl)

/-- A chain that was made is in the store. -/
theorem BindChain.binds (h : BindChain f bs g s) : (s.store.body f).isCallable ∧ s.store.Binds f bs g := by
  induction h with
  | start hf => exact ⟨hf, .self⟩
  | @bind bs g h s t limits bound handler b invoker hchain hrun ih =>
    obtain ⟨hf, hbinds⟩ := ih
    have hg := hbinds.isCallable hf
    have hlt : g < s.store.objects.size := Store.Next.lt_size_of_isCallable hg
    rw [run_bind_invoke b invoker hg] at hrun
    obtain ⟨hh, rfl⟩ := Prod.mk.inj hrun
    obtain rfl : s.store.objects.size = h := by simpa using hh
    have hkept (o : ObjectId) (ho : o < s.store.objects.size) :
        (s.store.addBound g b.this b.args).2.body o = s.store.body o := by
      refine congrArg Object.body ((Store.Next.object_addObject _ _ o).trans ?_)
      rw [if_neg (by simpa [Store.addFrame] using Nat.ne_of_lt ho)]
      rfl
    have hnew : (s.store.addBound g b.this b.args).2.body s.store.objects.size = .function _ (.bound g b.this b.args) :=
      congrArg Object.body ((Store.Next.object_addObject _ _ _).trans (if_pos rfl))
    refine ⟨?_, .bind b (hbinds.later fun o name callable ho => ?_) hlt hnew⟩
    · rwa [hkept f (Store.Next.lt_size_of_isCallable hf)]
    · rwa [hkept o (Store.Next.lt_size_of_isCallable (by rw [ho]; rfl))]
  | @later α bs g s limits bound n room p hchain ih =>
    obtain ⟨hf, hbinds⟩ := ih
    have hkept (o : ObjectId) (name : Text) (callable : Callable) (ho : s.store.body o = .function name callable) :
        (p.run limits bound (answer limits bound n room) s).2.store.body o = .function name callable :=
      (lasting_function limits o name callable).run ((lasting_function limits o name callable).answer n room) p s ho
    refine ⟨?_, hbinds.later hkept⟩
    cases hbody : s.store.body f with
    | function name callable => rw [hkept f name callable hbody]; rfl
    | _ =>
      rw [hbody] at hf
      cases hf

/-! ## What a chain does -/

/-- Two states that are the same, but for the levels of the lines of the trace since `old`, which are lower by `k`
in the second. -/
def State.TracedBelow (k : Nat) (old : List TraceLine) (s t : State) : Prop :=
  ∃ new, s.trace = new ++ old ∧ t = { s with trace := new.map (·.lowered k) ++ old }

/-- Without a trace there is no such difference. -/
theorem lasting_trace (h : limits.trace = 0) : Lasting limits fun s t => t.trace = s.trace where
  refl _ := rfl
  trans h h' := h'.trans h
  act s a := by
    by_cases ha : ∃ runner kind, a = .tick runner kind
    · obtain ⟨runner, kind, rfl⟩ := ha
      have hroom : ¬Frame.mostElements < (Action.tick runner kind).demand s := Nat.not_lt_zero _
      rw [Action.perform, if_neg hroom, Action.enact, Action.count_snd, if_neg (by simp [h])]
    · exact a.trace_perform fun runner kind he => ha ⟨runner, kind, he⟩
  call h := h

namespace State.TracedBelow

variable {k : Nat} {t : State}

theorem eq_of_trace (h : s.TracedBelow k s.trace t) : t = s := by
  obtain ⟨new, hnew, rfl⟩ := h
  obtain rfl : new = [] := by simpa using hnew
  rfl

theorem eq_of_zero {old : List TraceLine} (h : s.TracedBelow 0 old t) : t = s := by
  obtain ⟨new, hnew, rfl⟩ := h
  have hsame : new.map (·.lowered 0) = new := List.map_id' new
  rw [hsame, ← hnew]

end State.TracedBelow

/-- Two courses of which the second goes some levels deeper, and both come back. -/
theorem Sunk.deeper {f f' : Course α} {k : Nat} (h : Sunk (Cut.depth limits) k s.trace
      (f { s with depth := s.depth + 1 }) (f' { s with depth := s.depth + (k + 1) })) :
    (f'.deeperBy (k + 1) s).1 = .fault (.tooDeep limits.depth) ∨
      (f'.deeperBy (k + 1) s).1 = (f.deeper s).1 ∧
        (f.deeper s).2.TracedBelow k s.trace (f'.deeperBy (k + 1) s).2 := by
  obtain hcut | ⟨hsame, new, hnew, hbelow⟩ := h
  · exact .inl (Cut.Ends.of_depth hcut)
  · refine .inr ⟨hsame, new, hnew, ?_⟩
    have hdepth (d : Nat) : d + k - (k + 1) = d - 1 := by omega
    simp only [Course.deeperBy, Course.deeper, hbelow, State.placed, hdepth]

section Composition

variable {b : Binding} {rest : List Binding} {invoker : Option FrameId} {args : List Value}

/-- A call of the end of a chain, against `f.call` with the first receiver and all arguments. -/
theorem Store.Binds.answer_callMethod (h : s.store.Binds f (b :: rest) g) (hf : (s.store.body f).isCallable)
    {name : Text} (hc : s.store.body c = .function name (.native (.function .call))) (this : Value) :
    let direct :=
      answer limits bound (n + 1) room (.call c invoker (.obj f) (b.this :: Binding.arguments (b :: rest) args)) s
    let chained := answer limits bound (n + (b :: rest).length) room (.call g invoker this args) s
    chained.1 = .fault (.tooDeep limits.depth) ∨
      chained.1 = direct.1 ∧ direct.2.TracedBelow rest.length s.trace chained.2 := by
  intro direct chained
  by_cases hdeep : limits.depth ≤ s.depth
  · obtain ⟨name', target, this', args', hg⟩ := h.exists_bound (List.cons_ne_nil b rest)
    have hchained : chained = _ := answer_bound hg invoker this args
    rw [if_pos hdeep] at hchained
    rw [hchained]
    exact .inl rfl
  have hdirect : direct = _ := ScriptEngine.answer_callMethod hf hc invoker b.this (Binding.arguments (b :: rest) args)
  rw [if_neg hdeep] at hdirect
  obtain hcut | hchained :=
    @Store.Binds.answer_call limits bound n room s f g (b :: rest) s.store h rfl _ rfl invoker this args
  · exact .inl (Cut.Ends.of_depth hcut)
  rw [show chained = _ from hchained, hdirect]
  -- both call `f` in the end, and the chain does so from the deeper level
  have hbelow : State.Below rest.length s.trace { s with depth := s.depth + 1 }
      { s with depth := s.depth + (rest.length + 1) } := by
    refine ⟨[], rfl, ?_⟩
    simp [State.placed, Nat.add_assoc, Nat.add_comm 1]
  exact (Sinks.answer bound n room (.call f invoker b.this _) s.trace _ _ hbelow).deeper

/-- Where both end in the same way, the trace is all that can differ. -/
theorem State.TracedBelow.eq_of_answer {k m : Nat} {r : Request} {t : State}
    (h : (answer limits bound m room r s).2.TracedBelow k s.trace t) (hk : k = 0 ∨ limits.trace = 0) :
    t = (answer limits bound m room r s).2 := by
  obtain rfl | htrace := hk
  · exact h.eq_of_zero
  · have hnone : (answer limits bound m room r s).2.trace = s.trace := (lasting_trace htrace).answer m room r s
    rw [← hnone] at h
    exact h.eq_of_trace

/-- Constructing with the end of a chain is constructing with its beginning. -/
theorem Store.Binds.answer_construct (h : s.store.Binds f bs g) :
    answer limits bound n room (.construct g invoker args) s =
      answer limits bound n room (.construct f invoker (Binding.arguments bs args)) s := by
  cases n with
  | zero => rfl
  | succ n =>
    cases room with
    | zero => rfl
    | succ room =>
      change (constructBody g invoker args).run limits bound (answer limits bound n room) s =
        (constructBody f invoker (Binding.arguments bs args)).run limits bound (answer limits bound n room) s
      unfold constructBody
      rw [Proc.run_bind, Proc.run_bind, Proc.run_read, Proc.run_read, h.unbound]

/-- The instances of the end of a chain are those of its beginning. -/
theorem Store.Binds.run_instanceOf (h : s.store.Binds f bs g) (hf : (s.store.body f).isCallable) (v : Value) :
    (instanceOf v (.obj g)).run limits bound handler s = (instanceOf v (.obj f)).run limits bound handler s := by
  have hsame : (s.store.unbound (g + 1) g []).1 = (s.store.unbound (f + 1) f []).1 := by
    rw [h.unbound]
    exact Store.unbound_fst _ _ _ _
  unfold instanceOf
  rw [Proc.run_bind, Proc.run_bind, Proc.run_callable? hf, Proc.run_callable? (h.isCallable hf), Course.andThen_ok,
    Course.andThen_ok]
  dsimp only
  rw [Proc.run_bind, Proc.run_bind, Proc.run_read, Proc.run_read, hsame]

end Composition

/-- Binding a function again and again composes. However the chain was made, and whatever has been done since, a call
of the function at its end does what `f.call` does with the first receiver and all arguments in turn: it ends in the
same way, in the same state. Only the level is another one, which the trace tells; and if calls get too deep on the
way, the run ends with this. Constructing with the end of the chain is constructing with `f` and all arguments, and
what is an instance of the end is one of `f`. -/
theorem bind_composes {b : Binding} {rest : List Binding} (h : BindChain f (b :: rest) g s) (limits : Limits)
    (bound n room : Nat) (handler : Handler) (invoker : Option FrameId) (args : List Value) :
    let all := Binding.arguments (b :: rest) args
    (∀ this c name, s.store.body c = .function name (.native (.function .call)) →
      let direct := answer limits bound (n + 1) room (.call c invoker (.obj f) (b.this :: all)) s
      let chained := answer limits bound (n + (b :: rest).length) room (.call g invoker this args) s
      chained.1 = .fault (.tooDeep limits.depth) ∨
        chained.1 = direct.1 ∧ direct.2.TracedBelow rest.length s.trace chained.2 ∧
          (rest = [] ∨ limits.trace = 0 → chained.2 = direct.2)) ∧
    answer limits bound n room (.construct g invoker args) s =
      answer limits bound n room (.construct f invoker all) s ∧
    ∀ v, (instanceOf v (.obj g)).run limits bound handler s = (instanceOf v (.obj f)).run limits bound handler s := by
  obtain ⟨hf, hbinds⟩ := h.binds
  intro all
  refine ⟨?_, hbinds.answer_construct, hbinds.run_instanceOf hf⟩
  intro this c name hc direct chained
  obtain hdeep | ⟨hend, htraced⟩ := hbinds.answer_callMethod hf hc this
  · exact .inl hdeep
  · refine .inr ⟨hend, htraced, fun hsame => htraced.eq_of_answer ?_⟩
    exact hsame.imp_left (congrArg List.length)

/-- A state with the function that makes arrays, and the method that calls a function. -/
def callableArrays : State :=
  let object (f : Native) : Object := { body := .function [] (.native f) }
  { store := { frames := #[{}, {}], objects := #[object (.array .construct), object (.function .call)] } }

/-- A function that is bound twice makes an array of all three arguments. -/
theorem bind_composes_twice :
    let invoke (o : ObjectId) (args : List Value) (s : State) :=
      (FunctionFn.bind.invoke ⟨none, .obj o, args⟩).run {} 1 (answer {} 1 1 1) s
    let once := (invoke 0 [.null, .bool true] callableArrays).2
    let twice := (invoke 2 [.undefined, .bool false] once).2
    let chained := answer {} 1 3 1 (.call 3 none .undefined [.null]) twice
    let direct := answer {} 1 2 1 (.call 1 none (.obj 0) [.null, .bool true, .bool false, .null]) twice
    chained.1 = .ok (.obj 4) ∧ chained.2 = direct.2 ∧
      answer {} 1 1 1 (.construct 3 none [.null]) twice =
        answer {} 1 1 1 (.construct 0 none [.bool true, .bool false, .null]) twice := by
  intro invoke once twice chained direct
  have honce : invoke 0 [.null, .bool true] callableArrays = (.ok (.obj 2), once) := rfl
  have htwice : invoke 2 [.undefined, .bool false] once = (.ok (.obj 3), twice) := rfl
  have hfirst : BindChain 0 [⟨.null, [.bool true]⟩] 2 once :=
    .bind ⟨.null, [.bool true]⟩ none (.start rfl) honce
  have hsecond : BindChain 0 [⟨.null, [.bool true]⟩, ⟨.undefined, [.bool false]⟩] 3 twice :=
    .bind ⟨.undefined, [.bool false]⟩ none hfirst htwice
  have hok : chained.1 = .ok (.obj 4) := by
    rw [show chained = _ from answer_bound rfl none .undefined [.null], if_neg (by decide)]
    rfl
  obtain ⟨hcall, hconstruct, -⟩ := bind_composes hsecond {} 1 1 1 (answer {} 1 1 1) none [.null]
  obtain hdeep | ⟨-, -, hsame⟩ := hcall .undefined 1 [] rfl
  · exact absurd (hok.symm.trans hdeep) nofun
  · exact ⟨hok, hsame (.inr rfl), hconstruct⟩

end ScriptEngine
