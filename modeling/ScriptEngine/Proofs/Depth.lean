import ScriptEngine.Proofs.Record

/-!
# The depth of calls

The counter of nested calls is, at every moment of a run, what it was at the start plus the number of calls
that are being answered. So it never leaves the range between its first value and the limit, and it is back
at its first value when the run is over, however the run ends. A call at the limit is refused before
anything of the function that is called has happened, and since nothing catches the refusal the run unwinds
from there without doing anything else.

## Main definitions

* `Steady`: properties of states that hold at every moment of a run.
* `Refuses`: what the record of a run looks like after a call at the limit.

## Main results

* `Steady.observe`, `Refuses.observe`: both hold for every run whose requests are answered that way.
* `Engine.run_depth`: the depth of calls in a run.
-/

namespace ScriptEngine

open Proc (Round)

variable {α β σ : Type} {limits : Limits} {bound : Nat}

/-! ## What holds at every moment -/

/-- A property of states, given the requests that are being answered, which actions and the beginnings and
ends of answers keep. -/
structure Steady (limits : Limits) (J : List Request → State → Prop) : Prop where
  act {within : List Request} {s : State} (a : Action) : J within s → J within (a.perform limits s).2
  enterCall {within : List Request} {s : State} (function : ObjectId) (invoker : Option FrameId) (this : Value)
    (args : List Value) : J within s → ¬limits.depth ≤ s.depth →
      J (.call function invoker this args :: within) { s with depth := s.depth + 1 }
  leaveCall {within : List Request} {s : State} {function : ObjectId} {invoker : Option FrameId} {this : Value}
    {args : List Value} : J (.call function invoker this args :: within) s →
      J within { s with depth := s.depth - 1 }
  construct {within : List Request} {s : State} (function : ObjectId) (invoker : Option FrameId)
    (args : List Value) : J (.construct function invoker args :: within) s ↔ J within s

/-- A property that holds at every moment of a passage, and at its end. -/
structure Throughout (J : List Request → State → Prop) (within : List Request)
    (r : List Occurrence × Outcome α × State) : Prop where
  moments : ∀ m ∈ r.1, J m.within m.state
  final : J within r.2.2

namespace Steady

variable {J : List Request → State → Prop} {within : List Request}

theorem andThen {r : List Occurrence × Outcome α × State} {f : α → Passage β} (hr : Throughout J within r)
    (hf : ∀ a s, J within s → Throughout J within (f a s)) : Throughout J within (Passage.andThen r f) := by
  obtain ⟨h, o, s⟩ := r
  cases o with
  | ok a =>
      have h₂ := hf a s hr.final
      refine ⟨fun m hm => ?_, h₂.final⟩
      rcases List.mem_append.mp hm with hm | hm
      · exact hr.moments m hm
      · exact h₂.moments m hm
  | thrown v => exact ⟨hr.moments, hr.final⟩
  | fault e => exact ⟨hr.moments, hr.final⟩
  | unfinished => exact ⟨hr.moments, hr.final⟩

theorem stop (o : Outcome α) {s : State} (hs : J within s) : Throughout J within ([], o, s) := ⟨by simp, hs⟩

theorem rounds {count : Passage Unit} {test body : σ → Passage (Round σ β)}
    (hcount : ∀ s, J within s → Throughout J within (count s))
    (htest : ∀ x s, J within s → Throughout J within (test x s))
    (hbody : ∀ x s, J within s → Throughout J within (body x s)) (n : Nat) (x : σ) (s : State)
    (hs : J within s) : Throughout J within (Passage.rounds count test body n x s) := by
  induction n generalizing x s with
  | zero => exact stop _ hs
  | succ n ih =>
      refine andThen (htest x s hs) fun r s hs => ?_
      cases r with
      | done b => exact stop _ hs
      | again x =>
          refine andThen (hcount s hs) fun _ s hs => andThen (hbody x s hs) fun r s hs => ?_
          cases r with
          | done b => exact stop _ hs
          | again x => exact ih x s hs

variable (h : Steady limits J)

include h

theorem perform (a : Action) (s : State) (hs : J within s) :
    Throughout J within (Passage.perform limits within a s) := by
  refine ⟨by simpa [Passage.perform] using hs, ?_⟩
  have hact := h.act a hs
  simp only [Passage.perform, Course.perform]
  rcases e : a.perform limits s with ⟨f | r, t⟩ <;> rw [e] at hact <;> exact hact

/-- The property holds throughout a run if it does so in the answers to its requests. -/
theorem observe {answers : Request → Passage Value}
    (hanswers : ∀ r s, J within s → Throughout J within (answers r s)) (p : Proc α) (s : State)
    (hs : J within s) : Throughout J within (p.observe limits bound within answers s) := by
  induction p generalizing s with
  | ret a => exact stop _ hs
  | throw v => exact stop _ hs
  | fault f => exact stop _ hs
  | look k ih => exact ih _ s hs
  | act a k ih => exact andThen (h.perform a s hs) fun r s hs => ih r s hs
  | ask r k ih =>
      have hr := hanswers r s hs
      have hcaught : Throughout J within (Passage.caught (answers r s)) :=
        ⟨hr.moments, by simpa [Passage.caught] using hr.final⟩
      exact andThen hcaught fun e s hs => ih e s hs
  | loop runner kind test body x k ihTest ihBody ih =>
      exact andThen (rounds (h.perform (.tick runner kind)) ihTest ihBody bound x s hs) fun b s hs => ih b s hs

theorem observeAnswer (n room : Nat) (r : Request) (s : State) (hs : J within s) :
    Throughout J within (observeAnswer limits bound n room within r s) := by
  induction n generalizing room within r s with
  | zero => exact stop _ hs
  | succ n ih =>
      cases r with
      | call function invoker this args =>
          simp only [ScriptEngine.observeAnswer]
          split
          · exact ⟨by simpa using hs, hs⟩
          · rename_i hroom
            have hdeep := h.enterCall function invoker this args hs hroom
            have hbody := @observe _ limits bound J _ h _ (fun r s hs => ih room r s hs)
              (callBody function invoker this args) _ hdeep
            have hback := h.leaveCall hbody.final
            refine ⟨?_, hback⟩
            simpa [or_imp, forall_and] using ⟨hs, hdeep, hbody.moments, hback⟩
      | construct function invoker args =>
          cases room with
          | zero => exact ⟨by simpa [ScriptEngine.observeAnswer] using hs, hs⟩
          | succ room =>
              have hdeep := (h.construct function invoker args).mpr hs
              have hbody := @observe _ limits bound J _ h _ (fun r s hs => ih room r s hs)
                (constructBody function invoker args) _ hdeep
              have hback := (h.construct function invoker args).mp hbody.final
              refine ⟨?_, hback⟩
              simpa [ScriptEngine.observeAnswer, or_imp, forall_and] using ⟨hs, hdeep, hbody.moments, hback⟩

end Steady

/-! ## The counter -/

/-- Actions leave the depth of calls alone. -/
theorem Action.perform_depth (limits : Limits) (s : State) (a : Action) :
    (a.perform limits s).2.depth = s.depth := by
  obtain ⟨_, _, _, h⟩ | h | ⟨_, _, h⟩ | ⟨_, h⟩ := a.perform_cases limits s <;> rw [h]

/-- Runs come back to the depth at which they began. -/
theorem lasting_depth (limits : Limits) : Lasting limits fun s t => t.depth = s.depth where
  refl _ := rfl
  trans h h' := h'.trans h
  act s a := a.perform_depth limits s
  call h := by simp [h]

/-- Whether a request is a call. -/
def Request.isCall : Request → Bool
  | call _ _ _ _ => true
  | construct _ _ _ => false

/-- The number of calls among requests. -/
def callCount (within : List Request) : Nat := within.countP Request.isCall

@[simp] theorem callCount_call (function : ObjectId) (invoker : Option FrameId) (this : Value)
    (args : List Value) (within : List Request) :
    callCount (.call function invoker this args :: within) = callCount within + 1 := by
  simp [callCount, List.countP_cons, Request.isCall]

@[simp] theorem callCount_construct (function : ObjectId) (invoker : Option FrameId) (args : List Value)
    (within : List Request) : callCount (.construct function invoker args :: within) = callCount within := by
  simp [callCount, Request.isCall]

/-- The counter is up from its first value by the number of calls that are being answered, and within the
limit. -/
structure InDepth (limits : Limits) (first : Nat) (within : List Request) (s : State) : Prop where
  counted : s.depth = first + callCount within
  limited : (s.depth : Int) ≤ limits.depth

theorem steady_inDepth (limits : Limits) (first : Nat) : Steady limits (InDepth limits first) where
  act a h := by
    constructor <;> rw [Action.perform_depth]
    · exact h.counted
    · exact h.limited
  enterCall function invoker this args h hroom := by
    have hcounted := h.counted
    constructor
    · simp only [callCount_call]
      omega
    · simp only
      omega
  leaveCall h := by
    have hcounted := h.counted
    have hlimited := h.limited
    rw [callCount_call] at hcounted
    constructor
    · simp only
      omega
    · simp only
      omega
  construct function invoker args := by
    constructor <;> intro h <;> exact ⟨by simpa using h.counted, h.limited⟩

/-! ## Calls at the limit -/

/-- Whether two states differ in the depth of calls at most. -/
def State.EqUpToDepth (s t : State) : Prop := { s with depth := t.depth } = t

theorem State.EqUpToDepth.trans {s t u : State} (h : s.EqUpToDepth t) (h' : t.EqUpToDepth u) :
    s.EqUpToDepth u := by
  unfold EqUpToDepth at *
  rw [← h', ← h]

/-- Whether something that happens is a call at the limit. -/
def Occurrence.AtLimit (limits : Limits) (m : Occurrence) : Prop :=
  (∃ function invoker this args, m.event = .ask (.call function invoker this args)) ∧
    limits.depth ≤ m.state.depth

/-- After a call at the limit nothing happens but the ends of the answers it is part of, no part of the state
changes but the depth, and the run ends with the refusal. -/
structure Refuses (limits : Limits) (r : List Occurrence × Outcome α × State) : Prop where
  outcome : ∀ m ∈ r.1, m.AtLimit limits → r.2.1 = .fault (.tooDeep limits.depth) ∧ r.2.2.EqUpToDepth m.state
  rest : r.1.Pairwise fun m m' => m.AtLimit limits → m'.event = .leave ∧ m'.state.EqUpToDepth m.state

namespace Refuses

/-- A passage that is still going on has seen no call at the limit. -/
theorem andThen {r : List Occurrence × Outcome α × State} {f : α → Passage β} (hr : Refuses limits r)
    (hf : ∀ a s, Refuses limits (f a s)) : Refuses limits (Passage.andThen r f) := by
  obtain ⟨h, o, s⟩ := r
  cases o with
  | ok a =>
      -- With a call at the limit the first passage would have ended with the refusal.
      have hnone (m : Occurrence) (hm : m ∈ h) : ¬m.AtLimit limits := fun hlimit =>
        nomatch (hr.outcome m hm hlimit).1
      constructor
      · intro m hm hlimit
        rcases List.mem_append.mp hm with hm | hm
        · exact absurd hlimit (hnone m hm)
        · exact (hf a s).outcome m hm hlimit
      · refine List.pairwise_append.mpr ⟨hr.rest, (hf a s).rest, fun m hm m' _ hlimit => ?_⟩
        exact absurd hlimit (hnone m hm)
  | thrown v => exact ⟨fun m hm hlimit => (nomatch (hr.outcome m hm hlimit).1), hr.rest⟩
  | fault e =>
      refine ⟨fun m hm hlimit => ?_, hr.rest⟩
      obtain ⟨hend, hstate⟩ := hr.outcome m hm hlimit
      cases hend
      exact ⟨rfl, hstate⟩
  | unfinished => exact ⟨fun m hm hlimit => (nomatch (hr.outcome m hm hlimit).1), hr.rest⟩

theorem stop (o : Outcome α) (s : State) : Refuses limits ([], o, s) := ⟨by simp, .nil⟩

/-- Something else than a call at the limit. -/
theorem single {m : Occurrence} (hm : ¬m.AtLimit limits) (r : Outcome α × State) : Refuses limits ([m], r) :=
  ⟨by simpa using fun h => absurd h hm, List.pairwise_singleton _ _⟩

theorem not_atLimit {m : Occurrence} (h : ∀ function invoker this args,
    m.event ≠ .ask (.call function invoker this args)) : ¬m.AtLimit limits := by
  rintro ⟨⟨function, invoker, this, args, he⟩, -⟩
  exact h _ _ _ _ he

theorem rounds {count : Passage Unit} {test body : σ → Passage (Round σ β)}
    (hcount : ∀ s, Refuses limits (count s)) (htest : ∀ x s, Refuses limits (test x s))
    (hbody : ∀ x s, Refuses limits (body x s)) (n : Nat) (x : σ) (s : State) :
    Refuses limits (Passage.rounds count test body n x s) := by
  induction n generalizing x s with
  | zero => exact stop _ s
  | succ n ih =>
      refine andThen (htest x s) fun r s => ?_
      cases r with
      | done b => exact stop _ s
      | again x =>
          refine andThen (hcount s) fun _ s => andThen (hbody x s) fun r s => ?_
          cases r with
          | done b => exact stop _ s
          | again x => exact ih x s

theorem caught {r : List Occurrence × Outcome α × State} (hr : Refuses limits r) :
    Refuses limits (Passage.caught r) := by
  refine ⟨fun m hm hlimit => ?_, hr.rest⟩
  obtain ⟨hend, hstate⟩ := hr.outcome m hm hlimit
  obtain ⟨h, o, s⟩ := r
  cases hend
  exact ⟨rfl, hstate⟩

theorem perform (within : List Request) (a : Action) (s : State) :
    Refuses limits (Passage.perform limits within a s) := single (not_atLimit (by simp)) _

theorem observe {within : List Request} {answers : Request → Passage Value}
    (hanswers : ∀ r s, Refuses limits (answers r s)) (p : Proc α) (s : State) :
    Refuses limits (p.observe limits bound within answers s) := by
  induction p generalizing s with
  | ret a => exact stop _ s
  | throw v => exact stop _ s
  | fault f => exact stop _ s
  | look k ih => exact ih _ s
  | act a k ih => exact andThen (perform within a s) fun r s => ih r s
  | ask r k ih => exact andThen (hanswers r s).caught fun e s => ih e s
  | loop runner kind test body x k ihTest ihBody ih =>
      exact andThen (rounds (perform within (.tick runner kind)) ihTest ihBody bound x s) fun b s => ih b s

/-- A passage that is the answer to a request: something before it that is no call at the limit, and its end,
with a state that is the same up to the depth. -/
theorem enclosed {r : List Occurrence × Outcome α × State} (hr : Refuses limits r) {first second : Occurrence}
    (hfirst : ¬first.AtLimit limits) (hsecond : ¬second.AtLimit limits) (within : List Request) {t : State}
    (ht : t.EqUpToDepth r.2.2) :
    Refuses limits (first :: second :: r.1 ++ [⟨within, .leave, t⟩], r.2.1, t) := by
  have hlast : ¬Occurrence.AtLimit limits ⟨within, .leave, t⟩ := not_atLimit (by simp)
  constructor
  · intro m hm hlimit
    simp only [List.cons_append, List.mem_cons, List.mem_append, List.not_mem_nil, or_false] at hm
    rcases hm with rfl | rfl | hm | rfl
    · exact absurd hlimit hfirst
    · exact absurd hlimit hsecond
    · obtain ⟨hend, hstate⟩ := hr.outcome m hm hlimit
      exact ⟨hend, ht.trans hstate⟩
    · exact absurd hlimit hlast
  · refine List.pairwise_cons.mpr ⟨fun _ _ h => absurd h hfirst, ?_⟩
    refine List.pairwise_cons.mpr ⟨fun _ _ h => absurd h hsecond, ?_⟩
    refine List.pairwise_append.mpr ⟨hr.rest, List.pairwise_singleton _ _, fun m hm m' hm' hlimit => ?_⟩
    cases List.mem_singleton.mp hm'
    exact ⟨rfl, ht.trans (hr.outcome m hm hlimit).2⟩

theorem observeAnswer (n room : Nat) (within : List Request) (r : Request) (s : State) :
    Refuses limits (observeAnswer limits bound n room within r s) := by
  induction n generalizing room within r s with
  | zero => exact stop _ s
  | succ n ih =>
      cases r with
      | call function invoker this args =>
          simp only [ScriptEngine.observeAnswer]
          split
          · refine ⟨fun m hm _ => ?_, List.pairwise_singleton _ _⟩
            cases List.mem_singleton.mp hm
            exact ⟨rfl, rfl⟩
          · rename_i hroom
            refine (observe (ih room _) _ _).enclosed ?_ (not_atLimit (by simp)) within rfl
            exact fun h => hroom h.2
      | construct function invoker args =>
          cases room with
          | zero => exact single (not_atLimit (by simp)) _
          | succ room =>
              exact (observe (ih room _) _ _).enclosed (not_atLimit (by simp)) (not_atLimit (by simp)) within rfl

end Refuses

/-! ## Runs of an engine -/

/-- The depth of calls is the same after a run as before it, however the run ends. On the way it is up from
there by the number of calls that are being answered, so it stays within the limit. A call at the limit is
refused: nothing of its function happens, neither does anything else but the ends of the answers it is part
of, and the run ends with the refusal in the state in which the call was made. -/
theorem Engine.run_depth (e : Engine) (work : Proc α) (h : (e.state.depth : Int) ≤ e.limits.depth) :
    (e.run work).2.state.depth = e.state.depth ∧
    (∀ m ∈ e.record work, m.state.depth = e.state.depth + callCount m.within ∧
      e.state.depth ≤ m.state.depth ∧ (m.state.depth : Int) ≤ e.limits.depth) ∧
    ∀ before m after function invoker this args, e.record work = before ++ m :: after →
      m.event = .ask (.call function invoker this args) → (m.state.depth : Int) = e.limits.depth →
        (e.run work).1 = .fault (.tooDeep e.limits.depth) ∧
        (e.run work).2.state = { m.state with depth := e.state.depth } ∧
        ∀ m' ∈ after, m'.event = .leave ∧ m'.state.EqUpToDepth m.state := by
  have hrun := @Proc.observeIn_snd _ e.limits work e.fuel e.state
  have hsteady := steady_inDepth e.limits e.state.depth
  have hthroughout : Throughout (InDepth e.limits e.state.depth) [] (work.observeIn e.limits e.fuel e.state) :=
    hsteady.observe (hsteady.observeAnswer _ _) work e.state ⟨rfl, h⟩
  have hrefuses : Refuses e.limits (work.observeIn e.limits e.fuel e.state) :=
    .observe (.observeAnswer _ _ _) work e.state
  have hdepth : (e.run work).2.state.depth = e.state.depth := by
    rw [Engine.run_state, ← hrun]
    exact hthroughout.final.counted
  refine ⟨hdepth, fun m hm => ?_, ?_⟩
  · have hm := hthroughout.moments m hm
    exact ⟨hm.counted, Nat.le.intro hm.counted.symm, hm.limited⟩
  · intro before m after function invoker this args hrecord hcall hlimit
    change (work.observeIn e.limits e.fuel e.state).1 = before ++ m :: after at hrecord
    have hm : m.AtLimit e.limits := ⟨⟨function, invoker, this, args, hcall⟩, Int.le_of_eq hlimit.symm⟩
    obtain ⟨hend, hstate⟩ := hrefuses.outcome m (by simp [hrecord]) hm
    have hrest := hrefuses.rest
    rw [hrecord] at hrest
    have hafter := (List.pairwise_cons.mp (List.pairwise_append.mp hrest).2.1).1
    rw [hrun] at hend hstate
    refine ⟨hend, ?_, fun m' hm' => hafter m' hm' hm⟩
    rw [← hdepth, ← hstate]
    rfl

/-- An engine that allows one call at a time, with a function that is bound to itself. -/
def selfBoundEngine : Engine :=
  let function : Object := { body := .function [] (.bound 0 .undefined []) }
  { limits := { depth := 1 }, state := { store := { frames := #[{}], objects := #[function] } }, fuel := 3 }

/-- Calling the function makes it call itself, which is refused. -/
theorem Engine.run_depth_selfBound :
    let work := Proc.call 0 none .undefined []
    (selfBoundEngine.run work).1 = .fault (.tooDeep 1) ∧ (selfBoundEngine.run work).2.state.depth = 0 ∧
      (selfBoundEngine.record work).map (·.state.depth) = [0, 1, 1, 0] := by
  obtain ⟨hdepth, -, hlimit⟩ := selfBoundEngine.run_depth (Proc.call 0 none .undefined []) (by decide)
  exact ⟨(hlimit [_, _] _ [_] _ _ _ _ rfl rfl rfl).1, hdepth, rfl⟩

end ScriptEngine
