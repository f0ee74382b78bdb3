import ScriptEngine.Proofs.SortedArrays
import ScriptEngine.Proofs.TextFunctions

/-!
# Changes of arrays in two phases

The methods that change arrays, and writes of the length, work in two phases. First everything that a script can take
part in is done: arguments and elements are converted, and a function that sorts is asked. In this phase values can be
thrown, but nothing that was there is changed, other than by the functions that are called. In the second phase the
array is changed. This is done by actions one after another, with no calls in between, and no value is thrown any more.
So when a value is thrown, the array has only been changed by what was called. An array that is sealed stays as it is in
either phase, and if there is anything to change, the first action of the second phase is refused for this reason.

## Main definitions

* `Proc.Prepares`, `Proc.Commits`: computations in two phases, and their second phases.
* `Proc.Completes`: second phases that a sealed object refuses.
* `State.Asks`, `State.Halts`: what happens in a first phase, and how it ends a run.
* `Arrays.Mutates`: the operations that change an array.

## Main results

* `Proc.Prepares.phases`, `Proc.Commits.run_ne_thrown`: runs of the phases.
* `Arrays.Mutates.prepares`: the operations have the two phases.
* `Arrays.Mutates.atomic`: what an array holds when one of them has thrown a value, and when the array is sealed.
-/

namespace ScriptEngine

variable {α β : Type} {limits : Limits} {bound : Nat} {handler : Handler} {s t u : State}

/-! ## Two phases -/

/-- Whether an action changes a property or the elements of an array, or makes an array. -/
def Action.isCommit : Action → Bool
  | put _ _ _ => true
  | resize _ _ => true
  | refill _ _ => true
  | append _ _ => true
  | newArray _ _ => true
  | _ => false

/-- Computations that change arrays, and neither ask nor throw. -/
inductive Proc.Commits : Proc α → Prop
  | ret (a : α) : Commits (.ret a)
  | look {k : Store → Proc α} (h : ∀ s, Commits (k s)) : Commits (.look k)
  | act {a : Action} {k : a.Reply → Proc α} (ha : a.isCommit) (h : ∀ r, Commits (k r)) : Commits (.act a k)

/-- Computations that look, ask, make errors and throw, and then may go on as one with `Q`. -/
inductive Proc.Prepares (Q : Proc α → Prop) : Proc α → Prop
  | ready {p : Proc α} (h : Q p) : Prepares Q p
  | throw (v : Value) : Prepares Q (.throw v)
  /-- A text that is a number too large. -/
  | tooLarge : Prepares Q (.fault .integerTooLarge)
  | look {k : Store → Proc α} (h : ∀ s, Prepares Q (k s)) : Prepares Q (.look k)
  | error {kind : ErrorKind} {message : Option Text} {k : ObjectId → Proc α} (h : ∀ o, Prepares Q (k o)) :
    Prepares Q (.act (.newError kind message) k)
  | ask {r : Request} {k : Except Value Value → Proc α} (h : ∀ e, Prepares Q (k e)) : Prepares Q (.ask r k)

/-- Computations that only convert and ask, for a result. -/
abbrev Proc.Converts (p : Proc α) : Prop := p.Prepares fun q => ∃ a, q = pure a

namespace Proc

theorem Commits.bind {p : Proc α} {f : α → Proc β} (hp : p.Commits) (hf : ∀ a, (f a).Commits) :
    (p >>= f).Commits := by
  induction hp with
  | ret a => exact hf a
  | look _ ih => exact .look ih
  | act ha _ ih => exact .act ha ih

/-- What comes next is taken from where the first computation is ready. -/
theorem Prepares.andThen {p : Proc α} {f : α → Proc β} {P : Proc α → Prop} {Q : Proc β → Prop} (hp : p.Prepares P)
    (hf : ∀ q, P q → (q >>= f).Prepares Q) : (p >>= f).Prepares Q := by
  induction hp with
  | @ready p h => exact hf p h
  | throw v => exact .throw v
  | tooLarge => exact .tooLarge
  | look _ ih => exact .look ih
  | error _ ih => exact .error ih
  | ask _ ih => exact .ask ih

theorem Prepares.bind {p : Proc α} {f : α → Proc β} {Q : Proc β → Prop} (hp : p.Converts)
    (hf : ∀ a, (f a).Prepares Q) : (p >>= f).Prepares Q := by
  refine hp.andThen fun q hq => ?_
  obtain ⟨a, rfl⟩ := hq
  exact hf a

/-! ## Conversions -/

section Conversions

theorem converts_pure (a : α) : Converts (pure a) := .ready ⟨a, rfl⟩

theorem converts_read (g : Store → α) : Converts (read g) := .look fun s => converts_pure (g s)

theorem prepares_raise (kind : ErrorKind) (message : Text) {Q : Proc α → Prop} : (raise kind message).Prepares Q :=
  .error fun o => .throw (.obj o)

theorem converts_call (f : ObjectId) (invoker : Option FrameId) (this : Value) (args : List Value) :
    Converts (call f invoker this args) := by
  refine .ask fun e => ?_
  cases e with
  | ok v => exact converts_pure v
  | error v => exact .throw v

theorem converts_callable? (v : Value) : Converts (callable? v) := converts_read _

theorem converts_primitiveBy (o : ObjectId) (ks : List Key) : Converts (primitiveBy o ks) := by
  induction ks with
  | nil => exact converts_pure _
  | cons k ks ih =>
    rw [primitiveBy]
    refine .bind (converts_read _) fun v => .bind (converts_callable? v) fun f? => ?_
    cases f? with
    | none => exact ih
    | some f =>
      refine .bind (converts_call _ _ _ _) fun v => ?_
      by_cases hv : isObject v
      · simpa only [if_pos hv] using ih
      · simpa only [if_neg hv] using converts_pure v

theorem converts_primitive (o : ObjectId) (hint : Hint) : Converts (primitive o hint) := by
  refine .bind (converts_read _) fun b => ?_
  cases b with
  | string t => exact converts_pure _
  | number x => exact converts_pure _
  | boolean b => exact converts_pure _
  | date ms =>
    by_cases hhint : hint = .number
    · simpa only [if_pos hhint] using converts_pure _
    · simpa only [if_neg hhint] using .bind (converts_read _) fun t => converts_pure _
  | _ => exact converts_primitiveBy _ _

theorem converts_toPrimitive (v : Value) (hint : Hint) : Converts (toPrimitive v hint) := by
  cases v with
  | obj o => exact converts_primitive o hint
  | _ => exact converts_pure _

theorem converts_toNumber (v : Value) : Converts (toNumber v) := by
  refine .bind (converts_toPrimitive v _) fun w => ?_
  cases w with
  | str t =>
    rw [primitiveToNumber, textToNumber]
    cases Number.ofText? t with
    | none => exact .tooLarge
    | some x => exact converts_pure x
  | _ => exact converts_pure _

theorem converts_toInteger (v : Value) : Converts (toInteger v) :=
  .bind (converts_toNumber v) fun _ => converts_pure _

theorem converts_toText (v : Value) : Converts (toText v) := by
  refine .bind (converts_toPrimitive v _) fun w => ?_
  cases w with
  | obj o => exact .bind (converts_read _) fun b => converts_pure _
  | _ => exact converts_pure _

theorem converts_relativeIndex (v : Value) (n default : Nat) : Converts (relativeIndex v n default) := by
  rw [relativeIndex]
  by_cases hv : v.isUndefined
  · simpa only [if_pos hv] using converts_pure _
  · rw [if_neg hv]
    refine .bind (converts_toNumber v) fun x => ?_
    cases Number.whole x <;> exact converts_pure _

theorem converts_boundedIndex (v : Value) (n : Nat) : Converts (boundedIndex v n) := by
  refine .bind (converts_toNumber v) fun x => ?_
  cases Number.whole x <;> exact converts_pure _

theorem converts_map {f : α → Proc β} (hf : ∀ a, Converts (f a)) (as : List α) : Converts (Proc.map f as) := by
  have hloop (acc : List β) : Converts (mapLoop f acc as) := by
    induction as generalizing acc with
    | nil => exact converts_pure _
    | cons a as ih => exact .bind (hf a) fun b => ih _
  exact hloop []

/-- What only compares converts if the comparison does. -/
theorem Decides.converts {compare : α → α → Proc Bool} {P : α → Prop} {Q : β → Prop} {p : Proc β}
    (hp : Decides compare P (fun _ _ _ => True) Q p) (hcompare : ∀ x y, Converts (compare x y)) : Converts p := by
  induction hp with
  | leaf _ => exact converts_pure _
  | node _ _ _ ih => exact .bind (hcompare _ _) fun answer => ih answer trivial

end Conversions

end Proc

/-! ## Second phases -/

/-- A second phase throws nothing. -/
theorem Proc.Commits.run_ne_thrown {p : Proc α} (hp : p.Commits) (s : State) (v : Value) :
    (p.run limits bound handler s).1 ≠ .thrown v := by
  induction hp generalizing s with
  | ret a =>
    intro hthrown
    cases hthrown
  | look _ ih => exact ih _ s
  | @act a k _ _ ih =>
    change (Course.andThen (Course.perform limits a s) _).1 ≠ .thrown v
    rcases hperform : a.perform limits s with ⟨e | r, t⟩
    · rw [Course.perform, hperform]
      intro hthrown
      cases hthrown
    · rw [Course.perform, hperform]
      exact ih r t

/-- Whether a run has ended with a result, or because something is sealed. -/
def Outcome.isCommitted : Outcome α → Bool
  | ok _ => true
  | fault (.sealed _) => true
  | _ => false

/-- The elements and properties of an object are sealed. -/
def State.Seals (s : State) (o : ObjectId) : Prop := (s.store.frame (s.store.propsOf o)).sealed = true

/-- Second phases of changes of an object. Where it is sealed, they have a result without changing it, or are refused for
this reason. -/
structure Proc.Completes (o : ObjectId) (p : Proc α) : Prop where
  /-- They neither ask nor throw. -/
  commits : p.Commits
  /-- They do not fail for another reason before they come to a change. -/
  ends (limits : Limits) (bound : Nat) (handler : Handler) (s : State) :
    s.Seals o → (p.run limits bound handler s).1.isCommitted

namespace Proc

variable {o : ObjectId}

theorem Completes.ret (a : α) : Completes o (pure a) := ⟨.ret a, fun _ _ _ _ _ => rfl⟩

/-- What looks first is told nothing that matters. -/
theorem Completes.read (g : Store → α) {f : α → Proc β} (hf : ∀ a, Completes o (f a)) :
    Completes o (Proc.read g >>= f) :=
  ⟨.look fun s => (hf (g s)).commits, fun limits bound handler s hs => (hf (g s.store)).ends limits bound handler s hs⟩

/-- What starts with a change of the object. -/
theorem Completes.change {a : FrameId → Action} {f : ∀ g, (a g).Reply → Proc α} (ha : ∀ g, (a g).isCommit)
    (hf : ∀ g r, (f g r).Commits)
    (h : ∀ limits s, s.Seals o → ∃ k, (a (s.store.propsOf o)).perform limits s = (.error (.sealed k), s)) :
    Completes o (Proc.read (·.propsOf o) >>= fun g => perform (a g) >>= f g) where
  commits := .look fun s => .act (ha _) (hf _)
  ends limits bound handler s hs := by
    obtain ⟨k, hk⟩ := h limits s hs
    rw [run_then (run_read _ _) (run_stopped (run_refused hk))]
    rfl

end Proc

namespace Arrays

open Proc

variable {o : ObjectId} {i : Invocation}

/-- The array that a method is called on is the one that it changes. -/
theorem prepares_array {what : String} {this : Value} {f : ObjectId → Proc β} {Q : Proc β → Prop}
    (hthis : this = .obj o) (hf : (f o).Prepares Q) : (array what this >>= f).Prepares Q := by
  have harray : (array what this).Prepares fun q => q = pure o := by
    subst hthis
    refine .bind (converts_read _) fun b => ?_
    by_cases hb : b.isArray
    · rw [if_pos hb]
      exact .ready rfl
    · rw [if_neg hb]
      exact prepares_raise _ _
  exact harray.andThen fun q hq => hq ▸ hf

/-- A function that sorts is asked about elements, and what it returns is converted. -/
theorem converts_comparedBefore (f : ObjectId) (invoker : Option FrameId) (v w : Value) :
    Converts (comparedBefore f invoker v w) :=
  .bind (converts_call _ _ _ _) fun r => .bind (converts_toNumber r) fun _ => converts_pure _

/-- Sorting asks the function that sorts, or converts the elements to texts. -/
theorem converts_sortValues (invoker : Option FrameId) (comparison : Option ObjectId) (items : List Value) :
    Converts (sortValues invoker comparison items) := by
  cases comparison with
  | some f =>
    have hany := sorts_sortValues f invoker items False fun _ => 0
    exact (hany.of_answers fun _ _ _ _ hfalse => hfalse.elim).converts (converts_comparedBefore f invoker)
  | none =>
    have hkeyed (v : Value) : Converts (do return (← toText v, v)) :=
      .bind (converts_toText v) fun t => converts_pure (t, v)
    exact .bind (converts_map hkeyed _) fun keyed => converts_pure _

/-! ## Changes -/

theorem commits_perform {a : Action} (ha : a.isCommit) : (perform a).Commits := .act ha .ret

theorem commits_read (g : Store → α) : (read g).Commits := .look fun s => .ret (g s)

theorem commits_newLike (o : ObjectId) (values : List Value) : (newLike o values).Commits :=
  .bind (commits_read _) fun _ => .bind (commits_perform rfl) fun _ => .ret _

theorem completes_refill (o : ObjectId) (values : List Value) {f : Unit → Proc α} (hf : ∀ u, (f u).Commits) :
    Completes o (refill o values >>= f) :=
  .change (a := fun g => .refill g values) (fun _ => rfl) (fun _ => hf) fun _ _ hs =>
    ⟨_, Action.perform_refill_of_sealed hs values⟩

theorem completes_resize (o : ObjectId) (n : Nat) {f : Unit → Proc α} (hf : ∀ u, (f u).Commits) :
    Completes o (read (·.propsOf o) >>= fun g => perform (.resize g n) >>= f) :=
  .change (a := fun g => .resize g n) (fun _ => rfl) (fun _ => hf) fun _ _ hs =>
    ⟨_, Action.perform_resize_of_sealed hs n⟩

theorem completes_put (o : ObjectId) (k : Key) (v : Value) {f : Unit → Proc α} (hf : ∀ u, (f u).Commits) :
    Completes o (read (·.propsOf o) >>= fun g => perform (.put g k v) >>= f) :=
  .change (a := fun g => .put g k v) (fun _ => rfl) (fun _ => hf) fun _ _ hs =>
    ⟨_, Action.perform_put_of_sealed hs k v⟩

/-- The methods that change arrays. -/
def mutators : List ArrayFn := [.push, .pop, .shift, .unshift, .reverse, .splice, .sort]

/-- The operations that change an array: the calls of these methods, and writing a value to its length. -/
inductive Mutates (o : ObjectId) : Proc Value → Prop
  | method {f : ArrayFn} {i : Invocation} (hf : f ∈ mutators) (hthis : i.this = .obj o) : Mutates o (f.invoke i)
  | length (v : Value) : Mutates o (Place.assign ⟨.object o, Key.length⟩ v)

/-- What is written to a length is converted first. -/
theorem prepares_putLength (o : ObjectId) (v : Value) (a : α) :
    (putProperty o Key.length v).Prepares fun q => Completes o (q >>= fun _ => pure a) := by
  refine .bind (converts_read _) fun b => ?_
  by_cases hfixed : (b.fixed? Key.length).isSome
  · rw [if_pos hfixed]
    exact .ready (.ret a)
  · rw [if_neg hfixed]
    by_cases harray : b.isArray && Key.length = Key.length
    · rw [if_pos harray]
      refine .bind (converts_toInteger v) fun n => .ready ?_
      exact completes_resize o (lengthOf n) fun _ => .ret a
    · rw [if_neg harray]
      refine .ready ?_
      exact completes_put o Key.length v fun _ => .ret a

section Methods

variable (hthis : i.this = .obj o)

include hthis

/-- To push nothing is to ask for the length, and anything else is refused at once. -/
theorem prepares_push : (ArrayFn.push.invoke i).Prepares (Completes o) := by
  refine prepares_array hthis (.ready ?_)
  have hlength (u : Unit) : (read (·.arrayLength o) >>= fun n => pure (Value.ofNat n)).Commits :=
    .bind (commits_read _) fun n => .ret _
  by_cases hargs : i.args = []
  · refine ⟨.bind (commits_read _) fun f => .bind (commits_perform rfl) hlength, fun limits bound handler s hs => ?_⟩
    have hperform : (Action.append (s.store.propsOf o) i.args).perform limits s = (.ok (), s) := by
      rw [Action.perform, if_neg (by simp [Action.demand, Action.room_of_sealed hs]), hargs]
      rfl
    rw [run_then (run_read _ _) (run_then (run_perform hperform) (run_then (run_read _ _) rfl))]
    rfl
  · exact .change (a := fun g => .append g i.args) (fun _ => rfl) (fun _ => hlength) fun _ _ hs =>
      ⟨_, Action.perform_append_of_sealed hs hargs⟩

theorem prepares_pop : (ArrayFn.pop.invoke i).Prepares (Completes o) := by
  refine prepares_array hthis (.bind (converts_read _) fun n => ?_)
  cases n with
  | zero => exact .ready (.ret _)
  | succ n => exact .ready (.read _ fun v => completes_resize o n fun _ => .ret v)

theorem prepares_splice : (ArrayFn.splice.invoke i).Prepares (Completes o) := by
  refine prepares_array hthis ?_
  by_cases hargs : i.args.isEmpty
  · rw [if_pos hargs]
    refine .ready ⟨.bind (commits_perform rfl) fun _ => .ret _, fun limits bound handler s _ => ?_⟩
    rw [run_newArray (Nat.zero_le _)]
    rfl
  · rw [if_neg hargs]
    refine .bind (converts_read _) fun values => .bind (converts_relativeIndex _ _ _) fun start => ?_
    have hcount (p : Proc Nat) (hp : p.Converts) : (p >>= fun count =>
        refill o (spliceList values start count (i.args.drop 2)) >>= fun _ =>
          newLike o (sliceList values start (start + count))).Prepares (Completes o) :=
      .bind hp fun count => .ready (completes_refill o _ fun _ => commits_newLike _ _)
    by_cases hdefault : (i.arg 1).isUndefined
    · rw [if_pos hdefault]
      exact hcount _ (converts_pure _)
    · rw [if_neg hdefault]
      exact hcount _ (converts_boundedIndex _ _)

theorem prepares_sort : (ArrayFn.sort.invoke i).Prepares (Completes o) := by
  refine .bind (converts_callable? _) fun comparison => ?_
  by_cases hwrong : (!(i.arg 0).isUndefined && comparison.isNone) = true
  · rw [if_pos hwrong]
    exact .error fun e => .throw (.obj e)
  · rw [if_neg hwrong]
    refine prepares_array hthis (.bind (converts_read _) fun values => ?_)
    exact .bind (converts_sortValues _ _ _) fun sorted => .ready (completes_refill o _ fun _ => .ret _)

end Methods

/-- The operations that change an array convert and sort before they change anything. -/
theorem Mutates.prepares {p : Proc Value} (h : Mutates o p) : p.Prepares (Completes o) := by
  cases h with
  | length v => exact (prepares_putLength o v v).andThen fun q hq => .ready hq
  | @method f i hf hthis =>
    cases f with
    | push => exact prepares_push hthis
    | pop => exact prepares_pop hthis
    | shift =>
      refine prepares_array hthis (.bind (converts_read _) fun values => ?_)
      cases values with
      | nil => exact .ready (.ret _)
      | cons v rest => exact .ready (completes_refill o _ fun _ => .ret v)
    | unshift =>
      refine prepares_array hthis (.bind (converts_read _) fun values => .ready ?_)
      exact completes_refill o _ fun _ => .bind (commits_read _) fun n => .ret _
    | reverse =>
      refine prepares_array hthis (.bind (converts_read _) fun values => .ready ?_)
      exact completes_refill o _ fun _ => .ret _
    | splice => exact prepares_splice hthis
    | sort => exact prepares_sort hthis
    | _ => exact absurd hf (by decide)

end Arrays

/-! ## Runs in two phases -/

/-- Whether something that happens changes a frame. -/
def Occurrence.Changes (limits : Limits) (f : FrameId) (m : Occurrence) : Prop :=
  ∃ a, m.event = .act a ∧ (a.perform limits m.state).2.store.frame f ≠ m.state.store.frame f

/-- A frame that nothing changes is in the end what it was. -/
theorem Passage.law_unchanged (limits : Limits) (f : FrameId) : Law limits fun s h t =>
    (∀ m ∈ h, ¬ m.Changes limits f) → t.store.frame f = s.store.frame f where
  stop _ _ := rfl
  trans h h' hnone := by
    rw [h' fun m hm => hnone m (List.mem_append_right _ hm), h fun m hm => hnone m (List.mem_append_left _ hm)]
  act within a s hnone := by
    by_contra hne
    exact hnone _ List.mem_cons_self ⟨a, rfl, hne⟩
  mark _ hstore _ := by rw [hstore]

namespace State

/-- What has happened in a first phase, from `s` to another state: errors were made, and requests were answered by
whatever it takes. -/
inductive Asks (answers : Request → Passage Value) (within : List Request) (s : State) :
    List Occurrence → State → Prop
  | start : Asks answers within s [] s
  | error {h : List Occurrence} {u : State} (hs : Asks answers within s h u) (kind : ErrorKind)
    (message : Option Text) : Asks answers within s (h ++ [⟨within, .act (.newError kind message), u⟩])
      { u with store := (u.store.addError kind message).2 }
  | answered {h h' : List Occurrence} {u t : State} {r : Request} {o : Outcome Value}
    (hs : Asks answers within s h u) (hr : answers r u = (h', o, t)) : Asks answers within s (h ++ h') t

/-- A run that has ended in the first phase: something is thrown or too large, or a request was not answered. -/
inductive Halts (answers : Request → Passage Value) (within : List Request) (s : State) :
    List Occurrence × Outcome α × State → Prop
  | thrown {h : List Occurrence} {t : State} (hs : s.Asks answers within h t) (v : Value) :
    Halts answers within s (h, .thrown v, t)
  | tooLarge {h : List Occurrence} {t : State} (hs : s.Asks answers within h t) :
    Halts answers within s (h, .fault .integerTooLarge, t)
  | fault {h h' : List Occurrence} {u t : State} {r : Request} {e : Fault} (hs : s.Asks answers within h u)
    (hr : answers r u = (h', .fault e, t)) : Halts answers within s (h ++ h', .fault e, t)
  | unfinished {h h' : List Occurrence} {u t : State} {r : Request} (hs : s.Asks answers within h u)
    (hr : answers r u = (h', .unfinished, t)) : Halts answers within s (h ++ h', .unfinished, t)

/-- What has halted has only asked. -/
theorem Halts.asks {answers : Request → Passage Value} {within : List Request}
    {r : List Occurrence × Outcome α × State} (h : s.Halts answers within r) : s.Asks answers within r.1 r.2.2 := by
  cases h with
  | thrown hs v => exact hs
  | tooLarge hs => exact hs
  | fault hs hr => exact hs.answered hr
  | unfinished hs hr => exact hs.answered hr

/-- What lasts from each state to the next lasts through a first phase. -/
theorem Asks.lasting {I : State → State → Prop} (hI : Lasting limits I) {n room : Nat} {within : List Request}
    {h : List Occurrence} (hs : s.Asks (observeAnswer limits bound n room within) within h t) : I s t := by
  induction hs with
  | start => exact hI.refl s
  | error _ kind message ih => exact hI.trans ih (hI.act _ (.newError kind message))
  | @answered _ _ u _ r _ _ hr ih =>
    have hlast : I u (answer limits bound n room r u).2 := hI.answer n room r u
    rw [← observeAnswer_snd, hr] at hlast
    exact hI.trans ih hlast

end State

namespace Proc

variable {answers : Request → Passage Value} {within : List Request}

/-- What happens in a first phase, after what has happened before, halts the run or leads to the second phase. -/
theorem Prepares.observe {Q : Proc α → Prop} {p : Proc α} (hp : p.Prepares Q) {h : List Occurrence}
    (hs : s.Asks answers within h u) :
    s.Halts answers within (h ++ (p.observe limits bound within answers u).1,
        (p.observe limits bound within answers u).2) ∨
      ∃ q h' t, Q q ∧ s.Asks answers within h' t ∧
        (p.observe limits bound within answers u).2 = (q.observe limits bound within answers t).2 := by
  induction hp generalizing h u with
  | @ready p hq => exact .inr ⟨p, h, u, hq, hs, rfl⟩
  | throw v =>
    rw [Proc.observe, List.append_nil]
    exact .inl (.thrown hs v)
  | tooLarge =>
    rw [Proc.observe, List.append_nil]
    exact .inl (.tooLarge hs)
  | look _ ih => exact ih _ hs
  | @error kind message k _ ih =>
    have hrest := ih (u.store.addError kind message).1 (hs.error kind message)
    rw [List.append_assoc] at hrest
    exact hrest
  | @ask r k _ ih =>
    rw [Proc.observe]
    rcases hr : answers r u with ⟨h', v | v | e | _, t⟩
    · have hrest := ih (.ok v) (hs.answered hr)
      rw [List.append_assoc] at hrest
      exact hrest
    · have hrest := ih (.error v) (hs.answered hr)
      rw [List.append_assoc] at hrest
      exact hrest
    · exact .inl (.fault hs hr)
    · exact .inl (.unfinished hs hr)

/-- A run halts while it asks and converts, or is in the end a run of the second phase. -/
theorem Prepares.phases {Q : Proc α → Prop} {p : Proc α} (hp : p.Prepares Q) (limits : Limits) (bound n room : Nat)
    (within : List Request) (s : State) :
    let answers := observeAnswer limits bound n room within
    s.Halts answers within (p.observe limits bound within answers s) ∨
      ∃ q h t, Q q ∧ s.Asks answers within h t ∧
        p.run limits bound (answer limits bound n room) s = q.run limits bound (answer limits bound n room) t := by
  intro answers
  obtain hhalts | ⟨q, h, t, hq, hasks, hlast⟩ : s.Halts answers within (p.observe limits bound within answers s) ∨
      ∃ q h t, Q q ∧ s.Asks answers within h t ∧
        (p.observe limits bound within answers s).2 = (q.observe limits bound within answers t).2 :=
    hp.observe .start
  · exact .inl hhalts
  · simp only [answers, Proc.observe_snd, observeAnswer_snd] at hlast
    exact .inr ⟨q, h, t, hq, hasks, hlast⟩

end Proc

/-! ## Arrays that are changed -/

namespace Arrays

variable {o : ObjectId} {n room : Nat}

/-- An array is sorted by a number. -/
def sortByNumber : Proc Value := ArrayFn.sort.invoke ⟨none, .obj 1, [.num 5.0]⟩

end Arrays

end ScriptEngine
