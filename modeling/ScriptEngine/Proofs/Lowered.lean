import ScriptEngine.Proofs.Cutoff
import ScriptEngine.Proofs.Depth

/-!
# Runs on a lower level

No part of a computation can see how many calls it is nested in. So a run that starts some levels lower ends
exactly as the run itself does, in the same state but for the lines of the trace, which tell the level; or it
comes to the greatest depth of calls and is cut off.

## Main definitions

* `State.Below`: a state some levels below another one.
* `Sinks`: a course that goes the same way some levels lower.

## Main results

* `Action.perform_below`: what an action does some levels lower.
* `Sinks.run`, `Sinks.answer`: runs and answers go the same way on every level.
-/

namespace ScriptEngine

open Proc (Round)

variable {α β σ : Type} {limits : Limits} {k : Nat} {old : List TraceLine} {s t : State}

/-! ## States on two levels -/

/-- A line of the trace as it is written some levels lower. -/
def TraceLine.lowered (k : Nat) (l : TraceLine) : TraceLine := { l with depth := l.depth + k }

/-- The state on another level, with another trace. -/
def State.placed (s : State) (depth : Nat) (trace : List TraceLine) : State := { s with depth, trace }

/-- The second state is `k` levels below the first, and the same otherwise; the lines of the trace since `old`
tell their levels. -/
def State.Below (k : Nat) (old : List TraceLine) (s t : State) : Prop :=
  ∃ new, s.trace = new ++ old ∧ t = s.placed (s.depth + k) (new.map (·.lowered k) ++ old)

theorem State.Below.store (h : s.Below k old t) : t.store = s.store := by
  obtain ⟨new, -, rfl⟩ := h
  rfl

theorem State.Below.depth (h : s.Below k old t) : t.depth = s.depth + k := by
  obtain ⟨new, -, rfl⟩ := h
  rfl

/-- One level further down both states are as far from each other. -/
theorem State.Below.enter (h : s.Below k old t) :
    State.Below k old { s with depth := s.depth + 1 } { t with depth := t.depth + 1 } := by
  obtain ⟨new, hs, rfl⟩ := h
  refine ⟨new, hs, ?_⟩
  simp only [State.placed, Nat.add_right_comm]

theorem State.Below.leave (h : s.Below k old t) (hs : 0 < s.depth) :
    State.Below k old { s with depth := s.depth - 1 } { t with depth := t.depth - 1 } := by
  obtain ⟨new, hnew, rfl⟩ := h
  refine ⟨new, hnew, ?_⟩
  have hdepth : s.depth + k - 1 = s.depth - 1 + k := by omega
  simp only [State.placed, hdepth]

namespace Action

/-- Whether a change of a frame is refused, and what it changes, depends neither on the level nor on the trace. -/
theorem changeFrame_placed (f : FrameId) (blame : Frame → Key) (g : Frame → Frame) (depth : Nat)
    (trace : List TraceLine) : changeFrame (s.placed depth trace) f blame g =
      ((changeFrame s f blame g).1, (changeFrame s f blame g).2.placed depth trace) := by
  by_cases hsealed : (s.store.frame f).sealed
  · simp [changeFrame, State.placed, hsealed]
  · simp [changeFrame, State.placed, hsealed]

/-- What an action does depends neither on the level nor on the trace, unless it counts a statement. -/
theorem enact_placed {a : Action} (ha : ∀ runner kind, a ≠ .tick runner kind) (depth : Nat)
    (trace : List TraceLine) :
    a.enact limits (s.placed depth trace) = ((a.enact limits s).1, (a.enact limits s).2.placed depth trace) := by
  cases a with
  | tick runner kind => exact absurd rfl (ha runner kind)
  | put f k v => exact changeFrame_placed f (fun _ => k) (·.write k v) depth trace
  | resize f n => exact changeFrame_placed f (·.resizeBlame n) (·.resize n) depth trace
  | refill f items => exact changeFrame_placed f (·.resizeBlame 0) (·.refill items) depth trace
  | append f items =>
    cases items with
    | nil => rfl
    | cons v rest => exact changeFrame_placed f (fun fr => .index fr.length) (·.append (v :: rest)) depth trace
  | remove f k =>
    by_cases hgone : (!(s.store.frame f).holds k || (s.store.frame f).role == .slots && k == Key.length) = true
    · simp only [enact, if_pos hgone]
      exact if_pos hgone
    by_cases hsealed : (s.store.frame f).sealed = true
    · simp only [enact, if_neg hgone, if_pos hsealed]
      exact (if_neg hgone).trans (if_pos hsealed)
    · simp only [enact, if_neg hgone, if_neg hsealed]
      exact (if_neg hgone).trans (if_neg hsealed)
  | start update =>
    by_cases hstarted : (s.postponed.getD update {}).started = true
    · simp only [enact, if_pos hstarted]
      exact if_pos hstarted
    · simp only [enact, if_neg hstarted]
      exact if_neg hstarted
  | _ => rfl

theorem perform_placed {a : Action} (ha : ∀ runner kind, a ≠ .tick runner kind) (depth : Nat)
    (trace : List TraceLine) :
    a.perform limits (s.placed depth trace) =
      ((a.perform limits s).1, (a.perform limits s).2.placed depth trace) := by
  have hdemand : a.demand (s.placed depth trace) = a.demand s := by cases a <;> rfl
  unfold perform
  rw [hdemand]
  split
  · rfl
  · exact enact_placed ha depth trace

/-- Only counting a statement adds to the trace. -/
theorem trace_perform {a : Action} (ha : ∀ runner kind, a ≠ .tick runner kind) :
    (a.perform limits s).2.trace = s.trace := by
  have h : a.perform limits s = _ := perform_placed ha s.depth s.trace
  rw [h]
  rfl

/-- An action other than counting a statement is the same on every level. -/
theorem perform_below {a : Action} (ha : ∀ runner kind, a ≠ .tick runner kind) (h : s.Below k old t) :
    (a.perform limits t).1 = (a.perform limits s).1 ∧
      (a.perform limits s).2.Below k old (a.perform limits t).2 := by
  obtain ⟨new, hnew, rfl⟩ := h
  rw [perform_placed ha]
  refine ⟨rfl, new, (trace_perform ha).trans hnew, ?_⟩
  rw [a.perform_depth]

/-- The state after a statement was counted. -/
theorem count_snd (runner : RunnerId) (kind : NodeKind) : (count limits s runner kind).2 =
    if limits.trace ≠ 0 ∧ ((s.counter runner + 1 : Nat) : Int) % limits.trace = 0 then
      { s with
        counters := setCounter s.counters runner (s.counter runner + 1)
        trace := ⟨s.counter runner + 1, s.depth, kind⟩ :: s.trace }
    else { s with counters := setCounter s.counters runner (s.counter runner + 1) } := by
  simp only [count, apply_ite Prod.snd, ite_self]

/-- Counting a statement writes a line of the trace on both levels, or on none. -/
theorem count_below (h : s.Below k old t) (runner : RunnerId) (kind : NodeKind) :
    (count limits s runner kind).2.Below k old (count limits t runner kind).2 := by
  obtain ⟨new, hnew, rfl⟩ := h
  by_cases htraced : limits.trace ≠ 0 ∧ ((s.counter runner + 1 : Nat) : Int) % limits.trace = 0
  · rw [count_snd, count_snd, if_pos htraced]
    refine ⟨⟨s.counter runner + 1, s.depth, kind⟩ :: new, by simp [hnew], ?_⟩
    exact if_pos htraced
  · rw [count_snd, count_snd, if_neg htraced]
    exact ⟨new, hnew, if_neg htraced⟩

end Action

/-! ## Courses on two levels -/

/-- The second end is that of the first, `k` levels below; or there was a cut. -/
def Sunk (c : Cut) (k : Nat) (old : List TraceLine) (r r' : Outcome α × State) : Prop :=
  c.Ends r'.1 ∨ r'.1 = r.1 ∧ r.2.Below k old r'.2

/-- The second course goes the way of the first, `k` levels lower. -/
def Sinks (c : Cut) (k : Nat) (f f' : Course α) : Prop :=
  ∀ old s t, s.Below k old t → Sunk c k old (f s) (f' t)

namespace Sunk

variable {c : Cut} {r r' : Outcome α × State}

theorem andThen {g g' : α → Course β} (h : Sunk c k old r r') (hg : ∀ a, Sinks c k (g a) (g' a)) :
    Sunk c k old (Course.andThen r g) (Course.andThen r' g') := by
  obtain hcut | ⟨hsame, hbelow⟩ := h
  · exact .inl (hcut.andThen g').1
  obtain ⟨o, s⟩ := r
  obtain ⟨o', t⟩ := r'
  obtain rfl : o' = o := hsame
  cases o' with
  | ok a => exact hg a old s t hbelow
  | thrown v => exact .inr ⟨rfl, hbelow⟩
  | fault e => exact .inr ⟨rfl, hbelow⟩
  | unfinished => exact .inr ⟨rfl, hbelow⟩

theorem caught (h : Sunk c k old r r') : Sunk c k old (Course.caught r) (Course.caught r') := by
  obtain hcut | ⟨hsame, hbelow⟩ := h
  · exact .inl hcut.caught
  obtain ⟨o, s⟩ := r
  obtain ⟨o', t⟩ := r'
  obtain rfl : o' = o := hsame
  cases o' <;> exact .inr ⟨rfl, hbelow⟩

end Sunk

namespace Sinks

variable {c : Cut} {bound : Nat} {handler handler' : Handler}

/-- Two courses that end at once in the same way. -/
theorem stop (o : Outcome α) : Sinks c k (fun s => (o, s)) (fun s => (o, s)) := fun _ _ _ h => .inr ⟨rfl, h⟩

theorem andThen {f f' : Course α} {g g' : α → Course β} (h : Sinks c k f f') (hg : ∀ a, Sinks c k (g a) (g' a)) :
    Sinks c k (fun s => Course.andThen (f s) g) (fun s => Course.andThen (f' s) g') :=
  fun old s t hst => (h old s t hst).andThen hg

theorem rounds {count count' : Course Unit} {test test' body body' : σ → Course (Round σ β)}
    (hcount : Sinks c k count count') (htest : ∀ x, Sinks c k (test x) (test' x))
    (hbody : ∀ x, Sinks c k (body x) (body' x)) (n : Nat) (x : σ) :
    Sinks c k (Course.rounds count test body n x) (Course.rounds count' test' body' n x) := by
  induction n generalizing x with
  | zero => exact stop .unfinished
  | succ n ih =>
    refine (htest x).andThen fun r => ?_
    cases r with
    | done b => exact stop (.ok b)
    | again x =>
      refine hcount.andThen fun _ => (hbody x).andThen fun r => ?_
      cases r with
      | done b => exact stop (.ok b)
      | again x => exact ih x

/-- Actions are the same on every level. -/
theorem perform (a : Action) : Sinks c k (Course.perform limits a) (Course.perform limits a) := by
  intro old s t hst
  by_cases ha : ∃ runner kind, a = .tick runner kind
  · obtain ⟨runner, kind, rfl⟩ := ha
    have hcounter : t.counter runner = s.counter runner := by
      obtain ⟨new, -, rfl⟩ := hst
      rfl
    rw [Course.perform_tick, Course.perform_tick, hcounter]
    exact .inr ⟨rfl, Action.count_below hst runner kind⟩
  · have ha : ∀ runner kind, a ≠ .tick runner kind := fun runner kind he => ha ⟨runner, kind, he⟩
    obtain ⟨hsame, hbelow⟩ := Action.perform_below ha hst
    unfold Course.perform
    generalize a.perform limits s = r at hsame hbelow
    generalize a.perform limits t = r' at hsame hbelow
    obtain ⟨v, s₁⟩ := r
    obtain ⟨v', t₁⟩ := r'
    obtain rfl : v' = v := hsame
    cases v' <;> exact .inr ⟨rfl, hbelow⟩

/-- Runs of one computation on two levels, if its requests are answered alike. -/
theorem run (hask : ∀ r, Sinks c k (handler r) (handler' r)) (p : Proc α) :
    Sinks c k (p.run limits bound handler) (p.run limits bound handler') := by
  induction p with
  | ret a => exact stop (.ok a)
  | throw v => exact stop (.thrown v)
  | fault f => exact stop (.fault f)
  | look q ih =>
    intro old s t hst
    change Sunk c k old ((q s.store).run limits bound handler s) ((q t.store).run limits bound handler' t)
    rw [hst.store]
    exact ih s.store old s t hst
  | act a q ih => exact (perform a).andThen ih
  | ask r q ih =>
    intro old s t hst
    rw [Proc.run_ask, Proc.run_ask]
    exact (hask r old s t hst).caught.andThen ih
  | loop runner kind test body x q ihTest ihBody ih =>
    exact (rounds (perform (.tick runner kind)) ihTest ihBody bound x).andThen ih

/-- Inside a call that comes back to the level that it was made on. -/
theorem deeper {f f' : Course α} (h : Sinks c k f f') (hdepth : ∀ s, (f s).2.depth = s.depth) :
    Sinks c k (Course.deeper f) (Course.deeper f') := by
  intro old s t hst
  obtain hcut | ⟨hsame, hbelow⟩ := h old _ _ hst.enter
  · exact .inl hcut
  · refine .inr ⟨hsame, hbelow.leave ?_⟩
    rw [hdepth]
    exact Nat.succ_pos _

end Sinks

/-- The greatest depth of calls may cut a run off. -/
def Cut.depth (limits : Limits) : Cut where
  fault f := f = .tooDeep limits.depth
  bounds := False

theorem Cut.Ends.of_depth {o : Outcome α} (h : (Cut.depth limits).Ends o) : o = .fault (.tooDeep limits.depth) := by
  cases o with
  | ok a => exact h.elim
  | thrown v => exact h.elim
  | fault f => exact congrArg Outcome.fault h
  | unfinished => exact h.elim

/-- Requests are answered alike on every level. -/
theorem Sinks.answer (bound n room : Nat) (r : Request) :
    Sinks (Cut.depth limits) k (ScriptEngine.answer limits bound n room r)
      (ScriptEngine.answer limits bound n room r) := by
  induction n generalizing room r with
  | zero => exact stop .unfinished
  | succ n ih =>
    cases r with
    | call function invoker this args =>
      intro old s t hst
      have hdepth := hst.depth
      rw [answer_call, answer_call]
      by_cases ht : limits.depth ≤ t.depth
      · rw [if_pos ht]
        exact .inl rfl
      · rw [if_neg ht, if_neg (by omega)]
        refine deeper (run (ih room) _) ?_ old s t hst
        exact fun s => (lasting_depth limits).run ((lasting_depth limits).answer n room) _ s
    | construct function invoker args =>
      cases room with
      | zero => exact stop (.fault .stackFull)
      | succ room => exact run (ih room) (constructBody function invoker args)

end ScriptEngine
