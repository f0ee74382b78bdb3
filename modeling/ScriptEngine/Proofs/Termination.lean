import ScriptEngine.Proofs.Cutoff

/-!
# Every run ends

With a limit on statements, every run ends. No single number goes down all the time: a function counts its
statements on the counter of the program that made it, and a program that is made from source text counts on
a new one. But a loop counts on one counter in every round, and whatever its rounds do, no counter ever goes
back. A call goes one level deeper and comes back up at its end, and a construction leaves less room on the
stack of the host. So loops end because of the limit on statements, and nested requests because of the other
limits.

## Main definitions

* `Grows`: what a run does to the depth and to the counters.
* `Finishes`: what ends, if it starts at a certain depth.
* `Limits.enough`: an amount of fuel that is enough for every run.

## Main results

* `Finishes.rounds`: a loop ends.
* `Finishes.answer`: nested requests end.
* `Engine.runTree_ends`: programs end.
-/

namespace ScriptEngine

open Proc (Round)

variable {α β σ : Type} {limits : Limits} {bound : Nat} {handler : Handler} {d : Nat}

/-! ## Counters -/

theorem getD_setCounter (counters : Array Nat) (runner r : Nat) (n : Nat) :
    (setCounter counters runner n).getD r 0 = if r = runner then n else counters.getD r 0 := by
  unfold setCounter
  split
  · rename_i h
    by_cases hr : r = runner
    · subst hr
      simp [Array.getD_eq_getD_getElem?, h, Array.getElem_modify]
    · have hne : runner ≠ r := Ne.symm hr
      simp [Array.getD_eq_getD_getElem?, Array.getElem?_modify, hr, hne]
  · rename_i h
    have hle : counters.size ≤ runner := Nat.le_of_not_lt h
    have hsize : (counters ++ Array.replicate (runner - counters.size) 0).size = runner := by
      rw [Array.size_append, Array.size_replicate]
      omega
    simp only [Array.getD_eq_getD_getElem?, Array.getElem?_push, hsize]
    by_cases hr : r = runner
    · simp [hr]
    · simp only [hr, if_false, Array.getElem?_append]
      split
      · rfl
      · rename_i hs
        rw [Array.getElem?_replicate, Array.getElem?_eq_none (by omega)]
        split <;> rfl

/-- A run comes back to the depth at which it began, and no counter goes back. -/
structure Grows (s t : State) : Prop where
  depth : t.depth = s.depth
  counter (r : RunnerId) : s.counter r ≤ t.counter r

theorem lasting_grows (limits : Limits) : Lasting limits Grows where
  refl s := ⟨rfl, fun _ => Nat.le_refl _⟩
  trans h h' := ⟨h'.depth.trans h.depth, fun r => Nat.le_trans (h.counter r) (h'.counter r)⟩
  act s a := by
    obtain ⟨_, _, _, h⟩ | h | ⟨runner, _, h⟩ | ⟨_, h⟩ := Action.perform_cases limits s a
    · rw [h]
      exact ⟨rfl, fun _ => Nat.le_refl _⟩
    · rw [h]
      refine ⟨rfl, fun r => ?_⟩
      simp only [State.counter, Array.getD_eq_getD_getElem?, Array.getElem?_push]
      split
      · rename_i hr
        simp [hr]
      · exact Nat.le_refl _
    · rw [h]
      refine ⟨rfl, fun r => ?_⟩
      simp only [State.counter, getD_setCounter]
      split
      · rename_i hr
        rw [hr]
        omega
      · exact Nat.le_refl _
    · rw [h]
      exact ⟨rfl, fun _ => Nat.le_refl _⟩
  call h := ⟨by have := h.depth; simp at this ⊢; omega, h.counter⟩

/-- Counting a statement makes its counter go on. -/
theorem counter_count (s : State) (runner : RunnerId) (kind : NodeKind) :
    (Action.count limits s runner kind).2.counter runner = s.counter runner + 1 := by
  simp only [Action.count, apply_ite Prod.snd, ite_self]
  split <;> simp only [State.counter, getD_setCounter, if_true]

/-- A statement that was counted is within the limit. -/
theorem Course.perform_tick_eq_ok (hlimit : 0 < limits.steps) {s t : State} {runner : RunnerId}
    {kind : NodeKind} {u : Unit} (h : Course.perform limits (.tick runner kind) s = (.ok u, t)) :
    t.counter runner = s.counter runner + 1 ∧ (s.counter runner : Int) < limits.steps := by
  rw [Course.perform_tick] at h
  obtain ⟨hverdict, rfl⟩ := Prod.mk.inj h
  refine ⟨counter_count s runner kind, ?_⟩
  by_cases hl : limits.steps ≠ 0 ∧ limits.steps < (s.counter runner + 1 : Nat)
  · rw [if_pos hl] at hverdict
    cases hverdict
  · omega

/-! ## What ends -/

/-- One run after another ends if both do. -/
theorem Course.andThen_ne_unfinished {r : Outcome α × State} {g : α → Course β} (hr : r.1 ≠ .unfinished)
    (hg : ∀ a t, r = (.ok a, t) → (g a t).1 ≠ .unfinished) : (Course.andThen r g).1 ≠ .unfinished := by
  rcases r with ⟨a | v | e | _, t⟩
  · exact hg a t rfl
  · simp
  · simp
  · exact absurd rfl hr

/-- From states of the given depth on, a course ends. -/
structure Finishes (d : Nat) (f : Course α) : Prop where
  ends (s : State) : s.depth = d → (f s).1 ≠ .unfinished
  grows (s : State) : Grows s (f s).2

namespace Finishes

theorem stop {o : Outcome α} (h : o ≠ .unfinished) : Finishes d fun s => (o, s) where
  ends _ _ := h
  grows := (lasting_grows {}).refl

theorem perform (limits : Limits) (a : Action) : Finishes d (Course.perform limits a) where
  ends s _ := by
    unfold Course.perform
    rcases a.perform limits s with ⟨f | r, t⟩ <;> simp
  grows := (lasting_grows limits).perform a

/-- What a course leads to is at the same depth, with counters that have not gone back. -/
theorem grows_of_eq {f : Course α} (hf : Finishes d f) {s t : State} {a : α} (h : f s = (.ok a, t)) :
    Grows s t := by
  have := hf.grows s
  rwa [h] at this

theorem andThen {f : Course α} {g : α → Course β} (hf : Finishes d f) (hg : ∀ a, Finishes d (g a)) :
    Finishes d fun s => Course.andThen (f s) g where
  ends s hs := by
    refine Course.andThen_ne_unfinished (hf.ends s hs) fun a t h => ?_
    exact (hg a).ends t ((hf.grows_of_eq h).depth.trans hs)
  grows s := (lasting_grows {}).andThen (hf.grows s) fun a => (hg a).grows

theorem caught {f : Course α} (hf : Finishes d f) : Finishes d fun s => Course.caught (f s) where
  ends s hs := by
    have hend := hf.ends s hs
    generalize f s = r at hend ⊢
    rcases r with ⟨a | v | e | _, t⟩
    · simp [Course.caught]
    · simp [Course.caught]
    · simp [Course.caught]
    · exact absurd rfl hend
  grows s := by simpa using hf.grows s

section Loop

variable {test body : σ → Course (Round σ β)} {runner : RunnerId} {kind : NodeKind}

/-- A round ends if the next one does. The next one starts with a greater counter, and only if the limit
has not been reached. -/
theorem round_ends (hlimit : 0 < limits.steps) (htest : ∀ x, Finishes d (test x))
    (hbody : ∀ x, Finishes d (body x)) (n : Nat) (x : σ) (s : State) (hs : s.depth = d)
    (hnext : ∀ x t, t.depth = d → s.counter runner < t.counter runner →
      (s.counter runner : Int) < limits.steps →
      (Course.rounds (Course.perform limits (.tick runner kind)) test body n x t).1 ≠ .unfinished) :
    (Course.rounds (Course.perform limits (.tick runner kind)) test body (n + 1) x s).1 ≠ .unfinished := by
  have hcount : Finishes d (Course.perform limits (.tick runner kind)) := perform limits _
  simp only [Course.rounds]
  refine Course.andThen_ne_unfinished ((htest x).ends s hs) fun r s₁ h₁ => ?_
  have g₁ := (htest x).grows_of_eq h₁
  cases r with
  | done b => simp
  | again x₁ =>
      refine Course.andThen_ne_unfinished (hcount.ends s₁ (g₁.depth.trans hs)) fun _ s₂ h₂ => ?_
      have g₂ := hcount.grows_of_eq h₂
      obtain ⟨c₂, hleft⟩ := Course.perform_tick_eq_ok hlimit h₂
      have d₂ : s₂.depth = d := g₂.depth.trans (g₁.depth.trans hs)
      refine Course.andThen_ne_unfinished ((hbody x₁).ends s₂ d₂) fun r s₃ h₃ => ?_
      have g₃ := (hbody x₁).grows_of_eq h₃
      cases r with
      | done b => simp
      | again x₂ =>
          -- The test and the body can run other loops on the same counter, so it may grow by more than one.
          have c₁ := g₁.counter runner
          have c₃ := g₃.counter runner
          exact hnext x₂ s₃ (g₃.depth.trans d₂) (by omega) (by omega)

/-- A loop ends within as many rounds as statements are left on its counter: the round that counts one
statement too many ends in a fault. -/
theorem rounds_ends (hlimit : 0 < limits.steps) (htest : ∀ x, Finishes d (test x))
    (hbody : ∀ x, Finishes d (body x)) (n : Nat) (x : σ) (s : State) (hs : s.depth = d)
    (hn : limits.steps ≤ (s.counter runner + n : Nat)) :
    (Course.rounds (Course.perform limits (.tick runner kind)) test body (n + 1) x s).1 ≠ .unfinished := by
  induction n generalizing x s with
  | zero =>
      refine round_ends hlimit htest hbody 0 x s hs fun _ t _ _ hleft => ?_
      omega
  | succ n ih =>
      refine round_ends hlimit htest hbody (n + 1) x s hs fun x t ht hcount _ => ih x t ht ?_
      omega

/-- A loop of a machine with a bound above the limit ends. -/
theorem rounds (hlimit : 0 < limits.steps) (hbound : limits.steps.toNat < bound)
    (htest : ∀ x, Finishes d (test x)) (hbody : ∀ x, Finishes d (body x)) (x : σ) :
    Finishes d (Course.rounds (Course.perform limits (.tick runner kind)) test body bound x) where
  ends s hs := by
    obtain ⟨n, rfl⟩ : ∃ n, bound = n + 1 := ⟨bound - 1, by omega⟩
    exact rounds_ends hlimit htest hbody n x s hs (by omega)
  grows := (lasting_grows limits).rounds ((lasting_grows limits).perform _) (fun x => (htest x).grows)
    (fun x => (hbody x).grows) bound x

end Loop

/-- A run ends if its requests do. -/
theorem run (hlimit : 0 < limits.steps) (hbound : limits.steps.toNat < bound)
    (hask : ∀ r, Finishes d (handler r)) (p : Proc α) : Finishes d (p.run limits bound handler) := by
  induction p with
  | ret a => exact stop (by simp)
  | throw v => exact stop (by simp)
  | fault f => exact stop (by simp)
  | look k ih => exact ⟨fun s => (ih s.store).ends s, fun s => (ih s.store).grows s⟩
  | act a k ih => exact (perform limits a).andThen ih
  | ask r k ih =>
      have h := (hask r).caught.andThen ih
      constructor
      · intro s hs
        simpa only [Proc.run_ask] using h.ends s hs
      · intro s
        simpa only [Proc.run_ask] using h.grows s
  | loop runner kind test body x k ihTest ihBody ih => exact (rounds hlimit hbound ihTest ihBody x).andThen ih

/-- Requests end if they can be nested as deep as calls and constructions can. -/
theorem answer (hlimit : 0 < limits.steps) (hbound : limits.steps.toNat < bound) {n room d : Nat}
    (hn : limits.depth.toNat - d + room < n) (r : Request) :
    Finishes d (ScriptEngine.answer limits bound n room r) := by
  refine ⟨fun s hs => ?_, fun s => (lasting_grows limits).answer n room r s⟩
  induction n generalizing room d r s with
  | zero => omega
  | succ n ih =>
      have hask (room d : Nat) (h : limits.depth.toNat - d + room < n) (r : Request) :
          Finishes d (ScriptEngine.answer limits bound n room r) :=
        ⟨ih h r, fun s => (lasting_grows limits).answer n room r s⟩
      -- A call gives up one level of depth for good: its body comes back to the depth it started at.
      cases r with
      | call function invoker this args =>
          rw [answer_call]
          split
          · simp
          · exact (run hlimit hbound (hask room (d + 1) (by omega)) _).ends _ (congrArg (· + 1) hs)
      | construct function invoker args =>
          cases room with
          | zero => simp [ScriptEngine.answer]
          | succ room => exact (run hlimit hbound (hask room d (by omega)) _).ends s hs

end Finishes

/-! ## Enough fuel -/

/-- An amount of fuel that is enough for every run, if there is a limit on statements. -/
def Limits.enough (limits : Limits) : Nat := limits.steps.toNat + limits.depth.toNat + limits.stack + 1

theorem runIn_ne_unfinished (hlimit : 0 < limits.steps) {fuel : Nat} (hfuel : limits.enough ≤ fuel) (p : Proc α)
    (s : State) : (p.runIn limits fuel s).1 ≠ .unfinished := by
  unfold Limits.enough at hfuel
  have hask : ∀ r, Finishes s.depth (answer limits fuel fuel limits.stack r) :=
    Finishes.answer hlimit (by omega) (by omega)
  exact (Finishes.run hlimit (by omega) hask p).ends s rfl

/-- With a limit on statements every program ends, with a value, a thrown value or a fault, whatever state
it starts in and whatever the other limits are; and more fuel than enough changes nothing. -/
theorem Engine.runTree_ends (settings : Settings) (hlimit : 0 < settings.stepLimit) (state : State) (fuel : Nat)
    (hfuel : settings.limits.enough ≤ fuel) (desk : Proc Desk) (tree : Node) :
    let r := Engine.run ⟨settings.limits, state, fuel⟩ (runTree desk tree)
    let r' := Engine.run ⟨settings.limits, state, settings.limits.enough⟩ (runTree desk tree)
    ((∃ v, r.1 = .ok v) ∨ (∃ v, r.1 = .thrown v) ∨ ∃ f, r.1 = .fault f) ∧
      r.1 = r'.1 ∧ r.2.state = r'.2.state := by
  intro r r'
  have hends : r'.1 ≠ .unfinished := runIn_ne_unfinished hlimit (Nat.le_refl _) (runTree desk tree) state
  have hsame := runIn_of_le hfuel (runTree desk tree) state hends
  have hout : r.1 = r'.1 := by simp only [r, r', run_fst, hsame]
  have hstate : r.2.state = r'.2.state := by simp only [r, r', run_state, hsame]
  refine ⟨?_, hout, hstate⟩
  rw [hout]
  generalize r'.1 = o at hends
  cases o with
  | ok v => exact .inl ⟨v, rfl⟩
  | thrown v => exact .inr (.inl ⟨v, rfl⟩)
  | fault f => exact .inr (.inr ⟨f, rfl⟩)
  | unfinished => exact absurd rfl hends

/-- An endless loop ends with the tenth statement, and so it does with a million units of fuel. -/
theorem Engine.runTree_ends_endlessLoop :
    let r := Engine.run ⟨{ stepLimit := 9 : Settings }.limits, {}, 1000000⟩ (runTree newDesk endlessLoop)
    let r' := Engine.run ⟨{ stepLimit := 9 : Settings }.limits, {}, { stepLimit := 9 : Settings }.limits.enough⟩
      (runTree newDesk endlessLoop)
    r'.1 = .fault (.tooLong 10) ∧
      ((∃ v, r.1 = .ok v) ∨ (∃ v, r.1 = .thrown v) ∨ ∃ f, r.1 = .fault f) ∧
        r.1 = r'.1 ∧ r.2.state = r'.2.state :=
  ⟨rfl, Engine.runTree_ends { stepLimit := 9 } (by decide) {} 1000000 (by decide) newDesk endlessLoop⟩

end ScriptEngine
