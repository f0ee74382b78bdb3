import ScriptEngine.Engine

/-!
# Laws of runs

How a run follows the structure of a computation: a run of one computation after another is one run after
another, and a run with its thrown value caught ends like the run itself, the thrown value apart. What every
action keeps, and what a call keeps when its body does, every run keeps.

## Main results

* `Proc.run_bind`, `Proc.run_attempt`: runs of composed computations.
* `Proc.Yields`: what is true of every result of a computation, with a rule for each way to compose
  computations.
* `Action.perform_cases`: the parts of the state that an action can change.
* `Lasting`: relations between the states before and after a run that can be read off the actions.
* `Lasting.runIn`: such a relation holds for every run.
-/

namespace ScriptEngine

open Proc (Round)

variable {α β γ σ : Type} {limits : Limits} {bound : Nat} {handler : Handler}

/-! ## Composition -/

instance : LawfulMonad Proc := .mk' Proc
  (fun p => by
    change p.bind _ = p
    induction p with
    | ret a => rfl
    | throw v => rfl
    | fault f => rfl
    | look k ih => exact congrArg Proc.look (funext ih)
    | act a k ih => exact congrArg (Proc.act a) (funext ih)
    | ask r k ih => exact congrArg (Proc.ask r) (funext ih)
    | loop runner kind test body x k _ _ ih => exact congrArg (Proc.loop runner kind test body x) (funext ih))
  (fun _ _ => rfl)
  (fun p f g => by
    change (p.bind f).bind g = p.bind fun a => (f a).bind g
    induction p with
    | ret a => rfl
    | throw v => rfl
    | fault f => rfl
    | look k ih => exact congrArg Proc.look (funext fun s => ih s f)
    | act a k ih => exact congrArg (Proc.act a) (funext fun r => ih r f)
    | ask r k ih => exact congrArg (Proc.ask r) (funext fun v => ih v f)
    | loop runner kind test body x k _ _ ih =>
        exact congrArg (Proc.loop runner kind test body x) (funext fun b => ih b f))

/-- Doing something that takes back what was done to a list returns the list. -/
theorem Proc.map_of_pure {f : α → Proc β} {g : β → α} (h : ∀ b, f (g b) = pure b) (bs : List β) :
    Proc.map f (bs.map g) = pure bs := by
  have hloop (acc : List β) : Proc.mapLoop f acc (bs.map g) = pure (acc.reverse ++ bs) := by
    induction bs generalizing acc with
    | nil => simp [Proc.mapLoop]
    | cons b bs ih => simp [Proc.mapLoop, h, ih]
  exact hloop []

namespace Course

/-! ## One run after another -/

@[simp] theorem andThen_ok (a : α) (s : State) (f : α → Course β) : andThen (.ok a, s) f = f a s := rfl

@[simp] theorem andThen_thrown (v : Value) (s : State) (f : α → Course β) :
    andThen (.thrown v, s) f = (.thrown v, s) := rfl

@[simp] theorem andThen_fault (e : Fault) (s : State) (f : α → Course β) :
    andThen (.fault e, s) f = (.fault e, s) := rfl

@[simp] theorem andThen_unfinished (s : State) (f : α → Course β) :
    andThen (.unfinished, s) f = (.unfinished, s) := rfl

theorem andThen_assoc (r : Outcome α × State) (f : α → Course β) (g : β → Course γ) :
    andThen (andThen r f) g = andThen r fun a s => andThen (f a s) g := by
  obtain ⟨o, s⟩ := r
  cases o <;> rfl

/-- A result comes from a result before. -/
theorem andThen_eq_ok {r : Outcome α × State} {f : α → Course β} {b : β} {t : State}
    (h : andThen r f = (.ok b, t)) : ∃ a s, r = (.ok a, s) ∧ f a s = (.ok b, t) := by
  obtain ⟨o, s⟩ := r
  cases o with
  | ok a => exact ⟨a, s, rfl, h⟩
  | thrown v => simp at h
  | fault e => simp at h
  | unfinished => simp at h

/-- The end of a run with its thrown value caught. -/
def caught : Outcome α × State → Outcome (Except Value α) × State
  | (.ok a, s) => (.ok (.ok a), s)
  | (.thrown v, s) => (.ok (.error v), s)
  | (.fault f, s) => (.fault f, s)
  | (.unfinished, s) => (.unfinished, s)

@[simp] theorem caught_snd (r : Outcome α × State) : (caught r).2 = r.2 := by
  obtain ⟨o, s⟩ := r
  cases o <;> rfl

/-- To catch what two steps throw is to catch what the first throws, and if it throws nothing what the
second throws. -/
theorem caught_andThen (r : Outcome α × State) (f : α → Course β) :
    caught (andThen r f) = andThen (caught r) fun
      | .ok a => fun s => caught (f a s)
      | .error v => fun s => (.ok (.error v), s) := by
  obtain ⟨o, s⟩ := r
  cases o <;> rfl

/-- The end of a round with its thrown value caught. -/
def caughtRound (r : Outcome (Round σ β) × State) : Outcome (Round σ (Except Value β)) × State :=
  andThen (caught r) fun e s => (.ok (Round.caught e), s)

/-- Performing an action throws nothing. -/
theorem perform_ne_thrown (a : Action) (s t : State) (v : Value) : perform limits a s ≠ (.thrown v, t) := by
  unfold perform
  rcases a.perform limits s with ⟨f | r, u⟩ <;> simp

/-- What is caught in one round of a loop ends the loop. -/
theorem rounds_caughtRound (count : Course Unit) (hcount : ∀ s v t, count s ≠ (.thrown v, t))
    (test body : σ → Course (Round σ β)) (n : Nat) (x : σ) (s : State) :
    rounds count (fun x s => caughtRound (test x s)) (fun x s => caughtRound (body x s)) n x s =
      caught (rounds count test body n x s) := by
  induction n generalizing x s with
  | zero => rfl
  | succ n ih =>
      simp only [rounds]
      obtain ⟨o, s⟩ := test x s
      rcases o with (x | b) | v | f | _
      · simp only [caughtRound, caught, Round.caught, andThen_ok]
        rcases h : count s with ⟨_ | v | f | _, t⟩
        · simp only [andThen_ok]
          rcases body x t with ⟨(x | b) | v | f | _, t⟩
          · exact ih _ _
          all_goals rfl
        · exact absurd h (hcount _ _ _)
        all_goals rfl
      all_goals rfl

end Course

namespace Proc

/-! ## Runs of composed computations -/

@[simp] theorem run_pure (a : α) (s : State) :
    (pure a : Proc α).run limits bound handler s = (.ok a, s) := rfl

@[simp] theorem run_read (g : Store → α) (s : State) :
    (read g).run limits bound handler s = (.ok (g s.store), s) := rfl

/-- A value that can be called. -/
theorem run_callable? {f : ObjectId} {s : State} (hf : (s.store.body f).isCallable) :
    (callable? (.obj f)).run limits bound handler s = (.ok (some f), s) := by
  rw [callable?, run_read]
  simp [hf]

/-- An action that is not refused. -/
theorem run_perform {a : Action} {r : a.Reply} {s t : State} (h : a.perform limits s = (.ok r, t)) :
    (perform a).run limits bound handler s = (.ok r, t) := by
  change Course.andThen (Course.perform limits a s) _ = _
  rw [Course.perform, h]
  rfl

/-- An action that is refused. -/
theorem run_refused {a : Action} {e : Fault} {s t : State} (h : a.perform limits s = (.error e, t)) :
    (perform a).run limits bound handler s = (.fault e, t) := by
  change Course.andThen (Course.perform limits a s) _ = _
  rw [Course.perform, h]
  rfl

/-- The answer to a request is handed over with its thrown value caught. -/
theorem run_ask (r : Request) (k : Except Value Value → Proc α) (s : State) :
    (ask r k).run limits bound handler s =
      Course.andThen (Course.caught (handler r s)) fun e s => (k e).run limits bound handler s := by
  rw [run]
  rcases handler r s with ⟨_ | _ | _ | _, t⟩ <;> rfl

/-- A run of one computation after another is one run after another. -/
theorem run_bind (p : Proc α) (f : α → Proc β) (s : State) :
    (p >>= f).run limits bound handler s =
      Course.andThen (p.run limits bound handler s) fun a s => (f a).run limits bound handler s := by
  change (p.bind f).run limits bound handler s = _
  induction p generalizing s with
  | ret a => rfl
  | throw v => rfl
  | fault e => rfl
  | look k ih => exact ih _ _ _
  | act a k ih => simp only [bind, run, Course.andThen_assoc, ih]
  | ask r k ih => simp only [bind, run_ask, Course.andThen_assoc, ih]
  | loop runner kind test body x k _ _ ih => simp only [bind, run, Course.andThen_assoc, ih]

/-- A run whose first part ends with a result. -/
theorem run_then {p : Proc α} {f : α → Proc β} {a : α} {s t : State} {r : Outcome β × State}
    (hp : p.run limits bound handler s = (.ok a, t)) (hf : (f a).run limits bound handler t = r) :
    (p >>= f).run limits bound handler s = r := by
  rw [run_bind, hp, Course.andThen_ok, hf]

/-- What comes after a fault is not done. -/
theorem run_stopped {p : Proc α} {f : α → Proc β} {e : Fault} {s t : State}
    (hp : p.run limits bound handler s = (.fault e, t)) : (p >>= f).run limits bound handler s = (.fault e, t) := by
  rw [run_bind, hp, Course.andThen_fault]

/-- A round with its thrown value caught, if that is what catching means for its computation. -/
theorem run_caughtRound (p : Proc (Round σ β))
    (hp : ∀ s, p.attempt.run limits bound handler s = Course.caught (p.run limits bound handler s)) :
    (p.attempt.bind fun e => ret (Round.caught e)).run limits bound handler =
      fun s => Course.caughtRound (p.run limits bound handler s) := by
  funext s
  have h : (p.attempt >>= fun e => ret (Round.caught e)).run limits bound handler s = _ := run_bind _ _ s
  rw [hp] at h
  exact h

/-- A run with its thrown value caught ends like the run itself, the thrown value apart. -/
theorem run_attempt (p : Proc α) (s : State) :
    p.attempt.run limits bound handler s = Course.caught (p.run limits bound handler s) := by
  induction p generalizing s with
  | ret a => rfl
  | throw v => rfl
  | fault e => rfl
  | look k ih => exact ih _ _
  | act a k ih =>
      simp only [attempt, run, Course.caught_andThen, ih]
      unfold Course.perform
      rcases a.perform limits s with ⟨f | r, t⟩ <;> rfl
  | ask r k ih =>
      simp only [attempt, run_ask, ih]
      rcases handler r s with ⟨_ | _ | _ | _, t⟩ <;> rfl
  | loop runner kind test body x k ihTest ihBody ih =>
      -- Test and body are attempted on their own, so what one of them throws has to end the loop.
      simp only [attempt, run, run_caughtRound _ (ihTest _), run_caughtRound _ (ihBody _),
        Course.caught_andThen]
      have hcount (s : State) (v : Value) (t : State) :
          Course.perform limits (.tick runner kind) s ≠ (.thrown v, t) := Course.perform_ne_thrown _ s t v
      rw [Course.rounds_caughtRound _ hcount (fun x => (test x).run limits bound handler)
        (fun x => (body x).run limits bound handler)]
      congr 1
      funext e s
      cases e with
      | ok b => exact ih b s
      | error v => rfl

end Proc

/-! ## What is true of results -/

/-- What is true of the result of a loop if a round ends it. -/
def Proc.Round.Ends (Q : β → Prop) : Round σ β → Prop
  | .again _ => True
  | .done b => Q b

theorem Proc.Round.Ends.mono {Q Q' : β → Prop} {r : Round σ β} (hr : r.Ends Q) (h : ∀ b, Q b → Q' b) :
    r.Ends Q' := by
  cases r with
  | again s => trivial
  | done b => exact h b hr

/-- What is true after a round: of the state that the next round starts with, or of the result. -/
def Proc.Round.Holds (I : σ → Prop) (R : α → Prop) : Round σ α → Prop
  | .again x => I x
  | .done b => R b

theorem Proc.Round.Ends.holds {R : β → Prop} {r : Round σ β} (hr : r.Ends R) : r.Holds (fun _ => True) R := by
  cases r with
  | again s => trivial
  | done b => exact hr

/-- What is true of the result of a computation, whenever it has one. -/
def Proc.Yields (Q : α → Prop) (p : Proc α) : Prop :=
  ∀ limits bound handler s a t, p.run limits bound handler s = (.ok a, t) → Q a

namespace Proc.Yields

variable {Q : α → Prop} {R : β → Prop}

theorem pure {a : α} (h : Q a) : Yields Q (pure a : Proc α) := by
  intro limits bound handler s b t hrun
  rw [run_pure] at hrun
  cases hrun
  exact h

theorem mono {Q' : α → Prop} {p : Proc α} (hp : Yields Q p) (h : ∀ a, Q a → Q' a) : Yields Q' p :=
  fun limits bound handler s a t hrun => h a (hp limits bound handler s a t hrun)

theorem and {Q' : α → Prop} {p : Proc α} (hp : Yields Q p) (hp' : Yields Q' p) : Yields (fun a => Q a ∧ Q' a) p :=
  fun limits bound handler s a t hrun => ⟨hp limits bound handler s a t hrun, hp' limits bound handler s a t hrun⟩

theorem bind {p : Proc α} {f : α → Proc β} (hp : Yields Q p) (hf : ∀ a, Q a → Yields R (f a)) :
    Yields R (p >>= f) := by
  intro limits bound handler s b t hrun
  rw [run_bind] at hrun
  obtain ⟨a, u, hfirst, hsecond⟩ := Course.andThen_eq_ok hrun
  exact hf a (hp _ _ _ _ _ _ hfirst) _ _ _ _ _ _ hsecond

/-- Whatever comes before, if nothing about it matters. -/
theorem after (p : Proc α) {f : α → Proc β} (hf : ∀ a, Yields R (f a)) : Yields R (p >>= f) :=
  bind (Q := fun _ => True) (fun _ _ _ _ _ _ _ => trivial) fun a _ => hf a

/-- What each round keeps is true of the rounds of a loop, and what follows from it of the result. -/
theorem rounds {I : σ → Prop} {count : Course Unit} {test body : σ → Course (Round σ β)}
    (htest : ∀ x s r t, I x → test x s = (.ok r, t) → r.Holds I R)
    (hbody : ∀ x s r t, I x → body x s = (.ok r, t) → r.Holds I R) (n : Nat) (x : σ) (s t : State) (b : β) (hx : I x)
    (h : Course.rounds count test body n x s = (.ok b, t)) : R b := by
  induction n generalizing x s with
  | zero => cases h
  | succ n ih =>
      simp only [Course.rounds] at h
      obtain ⟨r, s₁, h₁, h⟩ := Course.andThen_eq_ok h
      have hr := htest _ _ _ _ hx h₁
      cases r with
      | done b' =>
          cases h
          exact hr
      | again x₁ =>
          obtain ⟨_, s₂, -, h⟩ := Course.andThen_eq_ok h
          obtain ⟨r, s₃, h₃, h⟩ := Course.andThen_eq_ok h
          have hr := hbody _ _ _ _ hr h₃
          cases r with
          | done b' =>
              cases h
              exact hr
          | again x₂ => exact ih _ _ hr h

theorem repeatedKeeping {I : σ → Prop} {runner : RunnerId} {kind : NodeKind} {test body : σ → Proc (Round σ β)}
    (htest : ∀ x, I x → Yields (Round.Holds I R) (test x)) (hbody : ∀ x, I x → Yields (Round.Holds I R) (body x))
    {x : σ} (hx : I x) : Yields R (Proc.repeated runner kind test body x) := by
  intro limits bound handler s b t hrun
  obtain ⟨b', u, hloop, hend⟩ := Course.andThen_eq_ok hrun
  cases hend
  exact rounds (fun x s r t hx => htest x hx _ _ _ s r t) (fun x s r t hx => hbody x hx _ _ _ s r t) _ _ _ _ _ hx hloop

/-- The result of a loop comes from the round that ends it. -/
theorem repeated {runner : RunnerId} {kind : NodeKind} {test body : σ → Proc (Round σ β)}
    (htest : ∀ x, Yields (Round.Ends R) (test x)) (hbody : ∀ x, Yields (Round.Ends R) (body x)) (x : σ) :
    Yields R (Proc.repeated runner kind test body x) :=
  .repeatedKeeping (fun x _ => (htest x).mono fun _ => Round.Ends.holds)
    (fun x _ => (hbody x).mono fun _ => Round.Ends.holds) trivial

theorem walkKeeping {ι : Type} {I : σ → Prop} {round : ι → σ → Proc (Round σ β)} {finish : σ → β}
    (hround : ∀ a x, I x → Yields (Round.Holds I R) (round a x)) (hfinish : ∀ x, I x → R (finish x)) (as : List ι)
    {x : σ} (hx : I x) : Yields R (Proc.walk round finish as x) := by
  induction as generalizing x with
  | nil => exact pure (hfinish x hx)
  | cons a as ih =>
      refine (hround a x hx).bind fun r hr => ?_
      cases r with
      | again x => exact ih hr
      | done b => exact pure hr

/-- The result of a walk comes from the round that ends it, or from the end of the list. -/
theorem walk {ι : Type} {round : ι → σ → Proc (Round σ β)} {finish : σ → β}
    (hround : ∀ a s, Yields (Round.Ends R) (round a s)) (hfinish : ∀ s, R (finish s)) (as : List ι) (s : σ) :
    Yields R (Proc.walk round finish as s) :=
  .walkKeeping (fun a x _ => (hround a x).mono fun _ => Round.Ends.holds) (fun x _ => hfinish x) as trivial

/-- The result of a computation whose thrown value is caught. -/
theorem attempt {p : Proc α} (hp : Yields Q p) : Yields (fun e => ∀ a, e = .ok a → Q a) p.attempt := by
  intro limits bound handler s e t hrun a he
  subst he
  rw [run_attempt] at hrun
  rcases hr : p.run limits bound handler s with ⟨a' | v | f | _, u⟩ <;> rw [hr] at hrun <;> cases hrun
  exact hp _ _ _ _ _ _ hr

end Proc.Yields

/-! ## What an action changes -/

namespace Action

theorem changeFrame_store (s : State) (f : FrameId) (blame : Frame → Key) (g : Frame → Frame) :
    ∃ store, (changeFrame s f blame g).2 = { s with store } := by
  simp only [changeFrame]
  split
  · exact ⟨s.store, rfl⟩
  · exact ⟨_, rfl⟩

/-- Beside the store, the random numbers drawn and the postponed updates, an action that there is room for changes nothing but
the counters and the trace, when it makes a counter or counts, and the printed lines, when it prints. -/
theorem enact_cases (limits : Limits) (s : State) (a : Action) :
    (∃ store draws postponed, (a.enact limits s).2 = { s with store, draws, postponed }) ∨
    (a.enact limits s).2 = { s with counters := s.counters.push 0 } ∨
    (∃ runner trace, (a.enact limits s).2 =
      { s with counters := setCounter s.counters runner (s.counter runner + 1), trace }) ∨
    ∃ line, (a.enact limits s).2 = { s with printed := line :: s.printed } := by
  cases a with
  | put f k v =>
      obtain ⟨store, h⟩ := changeFrame_store s f (fun _ => k) (·.write k v)
      exact .inl ⟨store, _, _, h⟩
  | resize f n =>
      obtain ⟨store, h⟩ := changeFrame_store s f (·.resizeBlame n) (·.resize n)
      exact .inl ⟨store, _, _, h⟩
  | refill f items =>
      obtain ⟨store, h⟩ := changeFrame_store s f (·.resizeBlame 0) (·.refill items)
      exact .inl ⟨store, _, _, h⟩
  | append f items =>
      obtain ⟨store, h⟩ := changeFrame_store s f (fun fr => .index fr.length) (·.append items)
      by_cases hi : items.isEmpty
      · exact .inl ⟨s.store, s.draws, s.postponed, by simp [enact, hi]⟩
      · exact .inl ⟨store, s.draws, s.postponed, by simpa [enact, hi] using h⟩
  | remove f k =>
      refine .inl ?_
      simp only [enact]
      split
      · exact ⟨s.store, _, _, rfl⟩
      · split
        · exact ⟨s.store, _, _, rfl⟩
        · exact ⟨_, _, _, rfl⟩
  | newRunner => exact .inr (.inl rfl)
  | tick runner kind =>
      refine .inr (.inr (.inl ⟨runner, ?_⟩))
      simp only [enact, count]
      split <;> split <;> exact ⟨_, rfl⟩
  | print line => exact .inr (.inr (.inr ⟨line, rfl⟩))
  | start update =>
      refine .inl ?_
      simp only [enact]
      split
      · exact ⟨s.store, s.draws, s.postponed, rfl⟩
      · exact ⟨_, _, _, rfl⟩
  | _ => exact .inl ⟨_, _, _, rfl⟩

/-- An action is refused for lack of room, and nothing changes, or it is enacted. -/
theorem perform_eq (limits : Limits) (s : State) (a : Action) :
    a.perform limits s = (.error .integerTooLarge, s) ∨ a.perform limits s = a.enact limits s := by
  unfold perform
  split
  · exact .inl rfl
  · exact .inr rfl

/-- An action changes no more than it does where there is room. -/
theorem perform_cases (limits : Limits) (s : State) (a : Action) :
    (∃ store draws postponed, (a.perform limits s).2 = { s with store, draws, postponed }) ∨
    (a.perform limits s).2 = { s with counters := s.counters.push 0 } ∨
    (∃ runner trace, (a.perform limits s).2 =
      { s with counters := setCounter s.counters runner (s.counter runner + 1), trace }) ∨
    ∃ line, (a.perform limits s).2 = { s with printed := line :: s.printed } := by
  obtain h | h := perform_eq limits s a
  · rw [h]
    exact .inl ⟨s.store, s.draws, s.postponed, rfl⟩
  · rw [h]
    exact enact_cases limits s a

/-- The verdict on a statement depends on its number only. -/
theorem count_fst (limits : Limits) (s : State) (runner : RunnerId) (kind : NodeKind) :
    (count limits s runner kind).1 =
      if limits.steps ≠ 0 ∧ limits.steps < (s.counter runner + 1 : Nat) then
        .error (.tooLong (s.counter runner + 1))
      else .ok () := by
  simp only [count]
  split <;> rfl

/-- What counting leaves behind does not depend on the limit. -/
theorem count_snd_congr {limits limits' : Limits} (h : limits.trace = limits'.trace) (s : State)
    (runner : RunnerId) (kind : NodeKind) :
    (count limits s runner kind).2 = (count limits' s runner kind).2 := by
  simp only [count, h, apply_ite Prod.snd, ite_self]

end Action

/-- Counting ends with a result unless the number of statements is above the limit. -/
theorem Course.perform_tick (s : State) (runner : RunnerId) (kind : NodeKind) :
    Course.perform limits (.tick runner kind) s =
      (if limits.steps ≠ 0 ∧ limits.steps < (s.counter runner + 1 : Nat) then
          Outcome.fault (.tooLong (s.counter runner + 1))
        else Outcome.ok (),
        (Action.count limits s runner kind).2) := by
  have verdict := Action.count_fst limits s runner kind
  have hperform : Action.perform limits s (.tick runner kind) = Action.count limits s runner kind := by
    rw [Action.perform, if_neg (by simp [Action.demand])]
    rfl
  simp only [Course.perform, hperform]
  rcases e : Action.count limits s runner kind with ⟨v, t⟩
  rw [e] at verdict
  by_cases h : limits.steps ≠ 0 ∧ limits.steps < (s.counter runner + 1 : Nat)
  · rw [if_pos h] at verdict ⊢
    subst verdict
    rfl
  · rw [if_neg h] at verdict ⊢
    subst verdict
    rfl

/-! ## Requests -/

/-- A course one call deeper. -/
def Course.deeper (f : Course α) : Course α := fun s =>
  let r := f { s with depth := s.depth + 1 }
  (r.1, { r.2 with depth := r.2.depth - 1 })

/-- A call is refused, or goes on one level deeper. -/
theorem answer_call (n room : Nat) (function : ObjectId) (invoker : Option FrameId) (this : Value)
    (args : List Value) (s : State) :
    answer limits bound (n + 1) room (.call function invoker this args) s =
      if limits.depth ≤ s.depth then (.fault (.tooDeep limits.depth), s)
      else Course.deeper ((callBody function invoker this args).run limits bound (answer limits bound n room)) s := rfl

/-! ## What every run keeps -/

/-- A relation between the states before and after a run that can be read off the actions: every action
keeps it, it goes on from one run to the next, and the count of nested calls does not disturb it. -/
structure Lasting (limits : Limits) (I : State → State → Prop) : Prop where
  refl (s : State) : I s s
  trans {s t u : State} : I s t → I t u → I s u
  act (s : State) (a : Action) : I s (a.perform limits s).2
  call {s t : State} : I { s with depth := s.depth + 1 } t → I s { t with depth := t.depth - 1 }

namespace Lasting

variable {I : State → State → Prop} (h : Lasting limits I)

include h

theorem perform (a : Action) (s : State) : I s (Course.perform limits a s).2 := by
  have hact := h.act s a
  unfold Course.perform
  rcases e : a.perform limits s with ⟨f | r, t⟩ <;> rw [e] at hact <;> exact hact

theorem andThen {s : State} {r : Outcome α × State} {f : α → Course β} (hr : I s r.2)
    (hf : ∀ a t, I t (f a t).2) : I s (Course.andThen r f).2 := by
  obtain ⟨o, t⟩ := r
  cases o with
  | ok a => exact h.trans hr (hf a t)
  | thrown v => exact hr
  | fault e => exact hr
  | unfinished => exact hr

theorem rounds {count : Course Unit} {test body : σ → Course (Round σ β)} (hcount : ∀ s, I s (count s).2)
    (htest : ∀ x s, I s (test x s).2) (hbody : ∀ x s, I s (body x s).2) (n : Nat) (x : σ) (s : State) :
    I s (Course.rounds count test body n x s).2 := by
  induction n generalizing x s with
  | zero => exact h.refl s
  | succ n ih =>
      refine h.andThen (htest x s) fun r s => ?_
      cases r with
      | done b => exact h.refl s
      | again x =>
          refine h.andThen (hcount s) fun _ s => h.andThen (hbody x s) fun r s => ?_
          cases r with
          | done b => exact h.refl s
          | again x => exact ih x s

/-- A run keeps what its handler keeps. -/
theorem run (hhandler : ∀ r s, I s (handler r s).2) (p : Proc α) (s : State) :
    I s (p.run limits bound handler s).2 := by
  induction p generalizing s with
  | ret a => exact h.refl s
  | throw v => exact h.refl s
  | fault f => exact h.refl s
  | look k ih => exact ih _ s
  | act a k ih => exact h.andThen (h.perform a s) fun r s => ih r s
  | ask r k ih =>
      rw [Proc.run_ask]
      exact h.andThen (by simpa using hhandler r s) fun e s => ih e s
  | loop runner kind test body x k ihTest ihBody ih =>
      exact h.andThen (h.rounds (h.perform (.tick runner kind)) ihTest ihBody bound x s) fun b s => ih b s

/-- The answers to requests keep it, however deep they are nested. -/
theorem answer (n room : Nat) (r : Request) (s : State) : I s (answer limits bound n room r s).2 := by
  induction n generalizing room r s with
  | zero => exact h.refl s
  | succ n ih =>
      cases r with
      | call function invoker this args =>
          rw [answer_call]
          split
          · exact h.refl s
          · exact h.call (h.run (ih room) _ _)
      | construct function invoker args =>
          cases room with
          | zero => exact h.refl s
          | succ room => exact h.run (ih room) _ s

/-- What can be read off the actions holds for every run. -/
theorem runIn (p : Proc α) (fuel : Nat) (s : State) : I s (p.runIn limits fuel s).2 :=
  h.run (h.answer fuel limits.stack) p s

end Lasting

namespace Engine

@[simp] theorem run_fst (e : Engine) (p : Proc α) : (e.run p).1 = (p.runIn e.limits e.fuel e.state).1 := rfl

@[simp] theorem run_state (e : Engine) (p : Proc α) :
    (e.run p).2.state = (p.runIn e.limits e.fuel e.state).2 := rfl

end Engine

end ScriptEngine
