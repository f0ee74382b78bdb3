import ScriptEngine.Proofs.Run

/-!
# Records of runs

What a run does on the way to its end: the actions it performs, the requests it makes, and where the answer
to a request begins and ends, each with the state of that moment and with the requests that are being
answered then. A run with its record is the run itself once the record is forgotten, so what is true of the
record is true of the run.

## Main definitions

* `Occurrence`: something that happens in a run.
* `Passage`: what happens from a state on, with its record.
* `Proc.observe`, `observeAnswer`: runs and answers with their records.
* `Engine.record`: the record of a piece of work for the host.
* `Passage.Law`: what holds of passages because it holds of each thing that happens.

## Main results

* `Proc.observe_snd`, `observeAnswer_snd`: without its record an observed run is the run.
* `Proc.observe_bind`, `Proc.observe_attempt`: records of composed computations.
* `Passage.Law.observeIn`: a law holds of every run.
-/

namespace ScriptEngine

open Proc (Round)

/-- What can happen in a run. -/
inductive Event where
  /-- An action is performed. -/
  | act (a : Action)
  /-- A request is made. -/
  | ask (r : Request)
  /-- The answer to the innermost request begins. -/
  | enter
  /-- The answer to a request is over. -/
  | leave

/-- Something that happens in a run. -/
structure Occurrence where
  /-- The requests that are being answered, the innermost first. -/
  within : List Request
  /-- What happens. -/
  event : Event
  /-- The state in which it happens. -/
  state : State

/-- What happens from a state on, with its record. -/
abbrev Passage (α : Type) := State → List Occurrence × Outcome α × State

namespace Passage

/-- What happens after a result; nothing happens after anything else. -/
def andThen (r : List Occurrence × Outcome α × State) (f : α → Passage β) : List Occurrence × Outcome β × State :=
  match r with
  | (h, .ok a, s) => (h ++ (f a s).1, (f a s).2)
  | (h, .thrown v, s) => (h, .thrown v, s)
  | (h, .fault e, s) => (h, .fault e, s)
  | (h, .unfinished, s) => (h, .unfinished, s)

/-- The end of a passage with its thrown value caught. -/
def caught (r : List Occurrence × Outcome α × State) : List Occurrence × Outcome (Except Value α) × State :=
  (r.1, Course.caught r.2)

/-- Performs an action. -/
def perform (limits : Limits) (within : List Request) (a : Action) : Passage a.Reply := fun s =>
  ([⟨within, .act a, s⟩], Course.perform limits a s)

/-- Goes round a loop, at most `n` times. -/
def rounds (count : Passage Unit) (test body : σ → Passage (Round σ β)) : Nat → σ → Passage β
  | 0, _, s => ([], .unfinished, s)
  | n + 1, x, s =>
    andThen (test x s) fun r s =>
      match r with
      | .done b => ([], .ok b, s)
      | .again x =>
        andThen (count s) fun _ s =>
          andThen (body x s) fun r s =>
            match r with
            | .done b => ([], .ok b, s)
            | .again x => rounds count test body n x s

end Passage

/-- Runs a computation and records what it does; the answers to its requests come with their own records. -/
def Proc.observe (limits : Limits) (bound : Nat) (within : List Request) (answers : Request → Passage Value) :
    Proc α → Passage α
  | ret a, s => ([], .ok a, s)
  | throw v, s => ([], .thrown v, s)
  | fault f, s => ([], .fault f, s)
  | look k, s => observe limits bound within answers (k s.store) s
  | act a k, s =>
    Passage.andThen (Passage.perform limits within a s) fun r s => observe limits bound within answers (k r) s
  | ask r k, s =>
    Passage.andThen (Passage.caught (answers r s)) fun e s => observe limits bound within answers (k e) s
  | loop runner kind test body x k, s =>
    Passage.andThen
      (Passage.rounds (Passage.perform limits within (.tick runner kind))
        (fun x => observe limits bound within answers (test x))
        (fun x => observe limits bound within answers (body x)) bound x s)
      fun b s => observe limits bound within answers (k b) s

/-- Answers requests and records what happens. -/
def observeAnswer (limits : Limits) (bound : Nat) : Nat → (room : Nat) → List Request → Request → Passage Value
  | 0, _, _, _, s => ([], .unfinished, s)
  | n + 1, room, within, .call function invoker this args, s =>
    let r : Request := .call function invoker this args
    if limits.depth ≤ s.depth then ([⟨within, .ask r, s⟩], .fault (.tooDeep limits.depth), s)
    else
      let deep := { s with depth := s.depth + 1 }
      let (h, outcome, t) :=
        (callBody function invoker this args).observe limits bound (r :: within)
          (observeAnswer limits bound n room (r :: within)) deep
      let back := { t with depth := t.depth - 1 }
      (⟨within, .ask r, s⟩ :: ⟨r :: within, .enter, deep⟩ :: h ++ [⟨within, .leave, back⟩], outcome, back)
  | n + 1, room, within, .construct function invoker args, s =>
    let r : Request := .construct function invoker args
    match room with
    | 0 => ([⟨within, .ask r, s⟩], .fault .stackFull, s)
    | room + 1 =>
      let (h, outcome, t) :=
        (constructBody function invoker args).observe limits bound (r :: within)
          (observeAnswer limits bound n room (r :: within)) s
      (⟨within, .ask r, s⟩ :: ⟨r :: within, .enter, s⟩ :: h ++ [⟨within, .leave, t⟩], outcome, t)

/-- Runs a computation whose requests are answered, with its record. -/
def Proc.observeIn {α : Type} (c : Proc α) (limits : Limits) (fuel : Nat) : Passage α :=
  c.observe limits fuel [] (observeAnswer limits fuel fuel limits.stack [])

/-- What happens when an engine runs a computation. -/
def Engine.record (e : Engine) (c : Proc α) : List Occurrence := (c.observeIn e.limits e.fuel e.state).1

variable {α β γ σ : Type} {limits : Limits} {bound : Nat}

namespace Passage

variable {h : List Occurrence} {s : State}

@[simp] theorem andThen_ok (a : α) (f : α → Passage β) :
    andThen (h, .ok a, s) f = (h ++ (f a s).1, (f a s).2) := rfl

@[simp] theorem andThen_thrown (v : Value) (f : α → Passage β) :
    andThen (h, .thrown v, s) f = (h, .thrown v, s) := rfl

@[simp] theorem andThen_fault (e : Fault) (f : α → Passage β) :
    andThen (h, .fault e, s) f = (h, .fault e, s) := rfl

@[simp] theorem andThen_unfinished (f : α → Passage β) :
    andThen (h, .unfinished, s) f = (h, .unfinished, s) := rfl

/-- A passage of which it is known how it has ended. -/
theorem ends {r : List Occurrence × Outcome α × State} {o : Outcome α} (h : r.2.1 = o) : r = (r.1, o, r.2.2) :=
  Prod.ext rfl (Prod.ext h rfl)

/-- A record that has happened before a passage. -/
theorem andThen_append (h : List Occurrence) (r : List Occurrence × Outcome α × State) (f : α → Passage β) :
    andThen (h ++ r.1, r.2) f = (h ++ (andThen r f).1, (andThen r f).2) := by
  obtain ⟨h', o, s⟩ := r
  cases o <;> simp [andThen]

theorem andThen_assoc (r : List Occurrence × Outcome α × State) (f : α → Passage β) (g : β → Passage γ) :
    andThen (andThen r f) g = andThen r fun a s => andThen (f a s) g := by
  obtain ⟨h, o, s⟩ := r
  cases o with
  | ok a => simp [andThen_append]
  | thrown v => rfl
  | fault e => rfl
  | unfinished => rfl

/-- Without the records, one passage after another is one course after another. -/
theorem andThen_snd (r : List Occurrence × Outcome α × State) (f : α → Passage β) :
    (andThen r f).2 = Course.andThen r.2 fun a s => (f a s).2 := by
  obtain ⟨h, o, s⟩ := r
  cases o <;> rfl

theorem rounds_snd (count : Passage Unit) (test body : σ → Passage (Round σ β)) (n : Nat) (x : σ) (s : State) :
    (rounds count test body n x s).2 =
      Course.rounds (fun s => (count s).2) (fun x s => (test x s).2) (fun x s => (body x s).2) n x s := by
  induction n generalizing x s with
  | zero => rfl
  | succ n ih =>
      simp only [rounds, Course.rounds, andThen_snd]
      congr 1
      funext r s
      cases r with
      | done b => rfl
      | again x =>
          simp only [andThen_snd]
          congr 1
          funext _ s
          congr 1
          funext r s
          cases r with
          | done b => rfl
          | again x => exact ih x s

/-- To catch what two steps throw is to catch what the first throws, and if it throws nothing what the
second throws. -/
theorem caught_andThen (r : List Occurrence × Outcome α × State) (f : α → Passage β) :
    caught (andThen r f) = andThen (caught r) fun
      | .ok a => fun s => caught (f a s)
      | .error v => fun s => ([], .ok (.error v), s) := by
  obtain ⟨h, o, s⟩ := r
  cases o <;> simp [caught, Course.caught, andThen]

/-- The end of a round with its thrown value caught. -/
def caughtRound (r : List Occurrence × Outcome (Round σ β) × State) :
    List Occurrence × Outcome (Round σ (Except Value β)) × State :=
  andThen (caught r) fun e s => ([], .ok (Round.caught e), s)

/-- What is caught in one round of a loop ends the loop. -/
theorem rounds_caughtRound (count : Passage Unit) (hcount : ∀ s v t, (count s).2 ≠ (.thrown v, t))
    (test body : σ → Passage (Round σ β)) (n : Nat) (x : σ) (s : State) :
    rounds count (fun x s => caughtRound (test x s)) (fun x s => caughtRound (body x s)) n x s =
      caught (rounds count test body n x s) := by
  induction n generalizing x s with
  | zero => rfl
  | succ n ih =>
      simp only [rounds]
      obtain ⟨h, o, s⟩ := test x s
      rcases o with (x | b) | v | f | _
      · simp only [caughtRound, caught, Course.caught, Round.caught, andThen_ok, List.append_nil]
        rcases e : count s with ⟨h', _ | v | f | _, t⟩
        · simp only [andThen_ok]
          rcases body x t with ⟨h'', (x | b) | v | f | _, t⟩
          · simp only [andThen_ok, List.append_nil]
            exact congrArg (fun r => (h ++ (h' ++ (h'' ++ r.1)), r.2)) (ih x t)
          all_goals simp
        · exact absurd (congrArg Prod.snd e) (hcount s v t)
        all_goals rfl
      all_goals simp [caughtRound, caught, Course.caught, Round.caught]

end Passage

namespace Proc

variable {within : List Request} {answers : Request → Passage Value}

/-- Without its record an observed run is the run. -/
theorem observe_snd (p : Proc α) (s : State) :
    (p.observe limits bound within answers s).2 = p.run limits bound (fun r s => (answers r s).2) s := by
  induction p generalizing s with
  | ret a => rfl
  | throw v => rfl
  | fault f => rfl
  | look k ih => exact ih _ s
  | act a k ih => simp only [observe, run, Passage.andThen_snd, ih, Passage.perform]
  | ask r k ih => simp only [observe, run_ask, Passage.andThen_snd, ih, Passage.caught]
  | loop runner kind test body x k ihTest ihBody ih =>
      have hrounds := Passage.rounds_snd (Passage.perform limits within (.tick runner kind))
        (fun x => (test x).observe limits bound within answers)
        (fun x => (body x).observe limits bound within answers) bound x s
      simp only [ihTest, ihBody] at hrounds
      simp only [observe, run, Passage.andThen_snd, ih]
      exact congrArg (Course.andThen · _) hrounds

@[simp] theorem observe_pure (a : α) (s : State) :
    (pure a : Proc α).observe limits bound within answers s = ([], .ok a, s) := rfl

/-- The record of one computation after another is one record after another. -/
theorem observe_bind (p : Proc α) (f : α → Proc β) (s : State) :
    (p >>= f).observe limits bound within answers s =
      Passage.andThen (p.observe limits bound within answers s) fun a s =>
        (f a).observe limits bound within answers s := by
  change (p.bind f).observe limits bound within answers s = _
  induction p generalizing s with
  | ret a => simp [bind, observe]
  | throw v => rfl
  | fault e => rfl
  | look k ih => exact ih _ _ _
  | act a k ih => simp only [bind, observe, Passage.andThen_assoc, ih]
  | ask r k ih => simp only [bind, observe, Passage.andThen_assoc, ih]
  | loop runner kind test body x k _ _ ih => simp only [bind, observe, Passage.andThen_assoc, ih]

/-- A round with its thrown value caught, if that is what catching means for its computation. -/
theorem observe_caughtRound (p : Proc (Round σ β))
    (hp : ∀ s, p.attempt.observe limits bound within answers s =
      Passage.caught (p.observe limits bound within answers s)) :
    (p.attempt.bind fun e => ret (Round.caught e)).observe limits bound within answers =
      fun s => Passage.caughtRound (p.observe limits bound within answers s) := by
  funext s
  have h : (p.attempt >>= fun e => ret (Round.caught e)).observe limits bound within answers s = _ :=
    observe_bind _ _ s
  rw [hp] at h
  exact h

/-- An observed run with its thrown value caught is the observed run itself, the thrown value apart. -/
theorem observe_attempt (p : Proc α) (s : State) :
    p.attempt.observe limits bound within answers s =
      Passage.caught (p.observe limits bound within answers s) := by
  induction p generalizing s with
  | ret a => rfl
  | throw v => rfl
  | fault e => rfl
  | look k ih => exact ih _ _
  | act a k ih =>
      simp only [attempt, observe, Passage.caught_andThen, ih, Passage.perform, Course.perform]
      rcases a.perform limits s with ⟨f | r, t⟩ <;> rfl
  | ask r k ih =>
      simp only [attempt, observe, ih]
      rcases answers r s with ⟨h, _ | _ | _ | _, t⟩ <;> rfl
  | loop runner kind test body x k ihTest ihBody ih =>
      -- What is caught in a loop is caught in the round in which it is thrown.
      simp only [attempt, observe, observe_caughtRound _ (ihTest _), observe_caughtRound _ (ihBody _),
        Passage.caught_andThen]
      have hcount (s : State) (v : Value) (t : State) :
          (Passage.perform limits within (.tick runner kind) s).2 ≠ (.thrown v, t) :=
        Course.perform_ne_thrown _ s t v
      rw [Passage.rounds_caughtRound _ hcount (fun x => (test x).observe limits bound within answers)
        (fun x => (body x).observe limits bound within answers)]
      congr 1
      funext e s
      cases e with
      | ok b => exact ih b s
      | error v => rfl

end Proc

/-- Without their records observed answers are the answers. -/
theorem observeAnswer_snd (n room : Nat) (within : List Request) (r : Request) (s : State) :
    (observeAnswer limits bound n room within r s).2 = answer limits bound n room r s := by
  induction n generalizing room within r s with
  | zero => rfl
  | succ n ih =>
      cases r with
      | call function invoker this args =>
          simp only [observeAnswer, answer]
          split
          · rfl
          · simp only [Proc.observe_snd, ih]
      | construct function invoker args =>
          cases room with
          | zero => rfl
          | succ room => simp only [observeAnswer, answer, Proc.observe_snd, ih]

theorem Proc.observeIn_snd (p : Proc α) (fuel : Nat) (s : State) :
    (p.observeIn limits fuel s).2 = p.runIn limits fuel s := by
  simp only [observeIn, runIn, observe_snd, observeAnswer_snd]

/-! ## Laws of records -/

/-- A relation between the state before a passage, its record and the state after it, which holds if nothing
happens, for each action, for what happens beside actions, and for one passage after another. -/
structure Passage.Law (limits : Limits) (R : State → List Occurrence → State → Prop) : Prop where
  stop (s : State) : R s [] s
  trans {s t u : State} {h h' : List Occurrence} : R s h t → R t h' u → R s (h ++ h') u
  act (within : List Request) (a : Action) (s : State) : R s [⟨within, .act a, s⟩] (a.perform limits s).2
  mark {m : Occurrence} {s : State} : (∀ a, m.event ≠ .act a) → m.state.store = s.store → R s [m] m.state

namespace Passage.Law

variable {R : State → List Occurrence → State → Prop} {within : List Request} {s : State}

theorem caught {r : List Occurrence × Outcome α × State} (hr : R s r.1 r.2.2) :
    R s (Passage.caught r).1 (Passage.caught r).2.2 := by
  rw [Passage.caught, Course.caught_snd]
  exact hr

variable (law : Law limits R)
include law

theorem andThen {r : List Occurrence × Outcome α × State} {f : α → Passage β} (hr : R s r.1 r.2.2)
    (hf : ∀ a t, R t (f a t).1 (f a t).2.2) : R s (Passage.andThen r f).1 (Passage.andThen r f).2.2 := by
  obtain ⟨h, o, t⟩ := r
  cases o with
  | ok a => exact law.trans hr (hf a t)
  | thrown v => exact hr
  | fault e => exact hr
  | unfinished => exact hr

theorem perform (within : List Request) (a : Action) (s : State) :
    R s (Passage.perform limits within a s).1 (Passage.perform limits within a s).2.2 := by
  have hact := law.act within a s
  simp only [Passage.perform, Course.perform]
  rcases e : a.perform limits s with ⟨f | r, t⟩ <;> rw [e] at hact <;> exact hact

theorem rounds {count : Passage Unit} {test body : σ → Passage (Round σ β)}
    (hcount : ∀ s, R s (count s).1 (count s).2.2) (htest : ∀ x s, R s (test x s).1 (test x s).2.2)
    (hbody : ∀ x s, R s (body x s).1 (body x s).2.2) (n : Nat) (x : σ) (s : State) :
    R s (Passage.rounds count test body n x s).1 (Passage.rounds count test body n x s).2.2 := by
  induction n generalizing x s with
  | zero => exact law.stop s
  | succ n ih =>
      refine law.andThen (htest x s) fun r s => ?_
      cases r with
      | done b => exact law.stop s
      | again x =>
          refine law.andThen (hcount s) fun _ s => law.andThen (hbody x s) fun r s => ?_
          cases r with
          | done b => exact law.stop s
          | again x => exact ih x s

/-- A law holds of a run if it holds of the answers to its requests. -/
theorem observe {answers : Request → Passage Value} (hanswers : ∀ r s, R s (answers r s).1 (answers r s).2.2)
    (p : Proc α) (s : State) :
    R s (p.observe limits bound within answers s).1 (p.observe limits bound within answers s).2.2 := by
  induction p generalizing s with
  | ret a => exact law.stop s
  | throw v => exact law.stop s
  | fault f => exact law.stop s
  | look k ih => exact ih _ s
  | act a k ih => exact law.andThen (law.perform within a s) ih
  | ask r k ih => exact law.andThen (caught (hanswers r s)) ih
  | loop runner kind test body x k ihTest ihBody ih =>
      exact law.andThen (law.rounds (law.perform within (.tick runner kind)) ihTest ihBody bound x s) ih

theorem observeAnswer (n room : Nat) (within : List Request) (r : Request) (s : State) :
    R s (observeAnswer limits bound n room within r s).1 (observeAnswer limits bound n room within r s).2.2 := by
  induction n generalizing room within r s with
  | zero => exact law.stop s
  | succ n ih =>
      have hask : R s [⟨within, .ask r, s⟩] s := law.mark (by simp) rfl
      cases r with
      | call function invoker this args =>
          simp only [ScriptEngine.observeAnswer]
          split
          · exact hask
          · let inner : List Request := .call function invoker this args :: within
            let deep : State := { s with depth := s.depth + 1 }
            have hbody := @observe _ limits bound _ inner law _ (ih room inner)
              (callBody function invoker this args) deep
            have henter : R s [⟨inner, .enter, deep⟩] deep := law.mark (by simp) rfl
            exact law.trans (law.trans (law.trans hask henter) hbody) (law.mark (by simp) rfl)
      | construct function invoker args =>
          cases room with
          | zero => exact hask
          | succ room =>
              let inner : List Request := .construct function invoker args :: within
              have hbody := @observe _ limits bound _ inner law _ (ih room inner)
                (constructBody function invoker args) s
              have henter : R s [⟨inner, .enter, s⟩] s := law.mark (by simp) rfl
              exact law.trans (law.trans (law.trans hask henter) hbody) (law.mark (by simp) rfl)

theorem observeIn (p : Proc α) (fuel : Nat) (s : State) :
    R s (p.observeIn limits fuel s).1 (p.observeIn limits fuel s).2.2 :=
  law.observe (law.observeAnswer fuel limits.stack []) p s

end Passage.Law

end ScriptEngine
