import ScriptEngine.Proofs.Run

/-!
# Runs that are cut off

Limits and bounds do nothing but cut runs off. Of two runs of the same computation from the same state, the
one with the smaller limits ends exactly as the other one does, or it is cut off on the way; then it has
printed the beginning of what the other one prints. The comparison goes through both runs in lock step: no
part of a computation can see a limit, and none goes on after a fault.

## Main definitions

* `Cut`: what may cut a run off.
* `Follows`: a run that ends as another one does, unless it is cut off.
* `Trails`: a course that follows another one from every state.

## Main results

* `Trails.runIn`: the run with the smaller limits follows the other one.
* `runIn_of_le`: a run that finishes is the same run with more fuel.
-/

namespace ScriptEngine

open Proc (Round)

variable {α β σ : Type}

/-- What may cut a run off: some of the faults, and perhaps the bounds of the machine. -/
structure Cut where
  /-- The faults that cut a run off. -/
  fault : Fault → Prop
  /-- Whether the bounds of the machine may cut it off. -/
  bounds : Prop

/-- Whether a run was cut off. -/
def Cut.Ends (c : Cut) : Outcome α → Prop
  | .ok _ => False
  | .thrown _ => False
  | .fault f => c.fault f
  | .unfinished => c.bounds

/-- Nothing comes after a run that was cut off. -/
theorem Cut.Ends.andThen {c : Cut} {r : Outcome α × State} (h : c.Ends r.1) (g : α → Course β) :
    c.Ends (Course.andThen r g).1 ∧ (Course.andThen r g).2 = r.2 := by
  rcases r with ⟨a | v | f | _, s⟩
  · exact h.elim
  · exact h.elim
  · exact ⟨h, rfl⟩
  · exact ⟨h, rfl⟩

/-- Nothing is caught when a run is cut off. -/
theorem Cut.Ends.caught {c : Cut} {r : Outcome α × State} (h : c.Ends r.1) : c.Ends (Course.caught r).1 := by
  rcases r with ⟨a | v | f | _, s⟩
  · exact h.elim
  · exact h.elim
  · exact h
  · exact h

/-- The first run ends as the second one does; or it was cut off, and has printed the beginning of what the
second one has printed. Printed lines stand in reverse. -/
def Follows (c : Cut) (r r' : Outcome α × State) : Prop :=
  r = r' ∨ c.Ends r.1 ∧ r.2.printed <:+ r'.2.printed

/-- A bound that is the same as another one, or smaller if that is allowed. -/
def AtMost (allowed : Prop) (n n' : Nat) : Prop := n = n' ∨ n ≤ n' ∧ allowed

theorem AtMost.pred {allowed : Prop} {n n' : Nat} (h : AtMost allowed (n + 1) n') :
    ∃ m, n' = m + 1 ∧ AtMost allowed n m := by
  refine ⟨n' - 1, ?_, ?_⟩
  · obtain h | ⟨h, -⟩ := h <;> omega
  · obtain h | ⟨h, ha⟩ := h
    · exact .inl (by omega)
    · exact .inr ⟨by omega, ha⟩

/-- Limits that differ from others only where they are smaller and the difference shows in a cut. Zero steps
stand for no limit. -/
structure Limits.Within (c : Cut) (limits limits' : Limits) : Prop where
  trace : limits.trace = limits'.trace
  steps : limits.steps = limits'.steps ∨
    (limits'.steps = 0 ∨ limits.steps ≠ 0 ∧ limits.steps ≤ limits'.steps) ∧ ∀ n, c.fault (.tooLong n)
  depth : limits.depth = limits'.depth ∨ limits.depth ≤ limits'.depth ∧ c.fault (.tooDeep limits.depth)
  stack : AtMost (c.fault .stackFull) limits.stack limits'.stack

/-- Printed lines stay printed. -/
theorem lasting_printed (limits : Limits) : Lasting limits fun s t => s.printed <:+ t.printed where
  refl s := List.suffix_refl _
  trans := List.IsSuffix.trans
  act s a := by
    obtain ⟨_, _, _, h⟩ | h | ⟨_, _, h⟩ | ⟨_, h⟩ := Action.perform_cases limits s a
    · simp [h]
    · simp [h]
    · simp [h]
    · simp [h]
  call h := h

/-- Of two courses the first follows the second from every state, and the second takes back nothing that
was printed. -/
structure Trails (c : Cut) (f f' : Course α) : Prop where
  follows (s : State) : Follows c (f s) (f' s)
  prints (s : State) : s.printed <:+ (f' s).2.printed

namespace Trails

variable {c : Cut} {limits limits' : Limits} {bound bound' : Nat} {handler handler' : Handler}

/-- Two courses that end at once in the same way. -/
theorem stop (o : Outcome α) : Trails c (fun s => (o, s)) (fun s => (o, s)) where
  follows _ := .inl rfl
  prints _ := List.suffix_refl _

theorem andThen {f f' : Course α} {g g' : α → Course β} (h : Trails c f f') (hg : ∀ a, Trails c (g a) (g' a)) :
    Trails c (fun s => Course.andThen (f s) g) (fun s => Course.andThen (f' s) g') where
  follows s := by
    have later := (lasting_printed {}).andThen (List.suffix_refl (f' s).2.printed) fun a => (hg a).prints
    obtain heq | ⟨hcut, hp⟩ := h.follows s
    · rw [heq]
      rcases f' s with ⟨a | v | e | _, t⟩
      · exact (hg a).follows t
      all_goals exact .inl rfl
    · obtain ⟨hend, hstate⟩ := hcut.andThen g
      refine .inr ⟨hend, ?_⟩
      rw [hstate]
      exact hp.trans later
  prints s := (lasting_printed {}).andThen (h.prints s) fun a => (hg a).prints

/-- The thrown values are the same, so they are caught alike. -/
theorem caught {f f' : Course α} (h : Trails c f f') :
    Trails c (fun s => Course.caught (f s)) (fun s => Course.caught (f' s)) where
  follows s := by
    obtain heq | ⟨hcut, hp⟩ := h.follows s
    · exact .inl (congrArg Course.caught heq)
    · exact .inr ⟨hcut.caught, by simpa using hp⟩
  prints s := by simpa using h.prints s

theorem rounds {count count' : Course Unit} {test test' body body' : σ → Course (Round σ β)}
    (hcount : Trails c count count') (htest : ∀ x, Trails c (test x) (test' x))
    (hbody : ∀ x, Trails c (body x) (body' x)) {n n' : Nat} (hn : AtMost c.bounds n n') (x : σ) :
    Trails c (Course.rounds count test body n x) (Course.rounds count' test' body' n' x) := by
  have hprint (n : Nat) (x : σ) (s : State) :
      s.printed <:+ (Course.rounds count' test' body' n x s).2.printed :=
    (lasting_printed {}).rounds hcount.prints (fun x => (htest x).prints) (fun x => (hbody x).prints) n x s
  induction n generalizing n' x with
  | zero =>
      obtain h | ⟨-, h⟩ := hn
      · subst h
        exact stop .unfinished
      · exact ⟨fun s => .inr ⟨h, hprint n' x s⟩, hprint n' x⟩
  | succ n ih =>
      obtain ⟨m, rfl, hm⟩ := hn.pred
      refine (htest x).andThen fun r => ?_
      cases r with
      | done b => exact stop (.ok b)
      | again x =>
          refine hcount.andThen fun _ => (hbody x).andThen fun r => ?_
          cases r with
          | done b => exact stop (.ok b)
          | again x => exact ih hm x

/-- Runs of one computation by two machines, if the actions and the requests of the first follow those of
the second. -/
theorem run (hbound : AtMost c.bounds bound bound')
    (hact : ∀ a, Trails c (Course.perform limits a) (Course.perform limits' a))
    (hask : ∀ r, Trails c (handler r) (handler' r)) (p : Proc α) :
    Trails c (p.run limits bound handler) (p.run limits' bound' handler') := by
  induction p with
  | ret a => exact stop (.ok a)
  | throw v => exact stop (.thrown v)
  | fault f => exact stop (.fault f)
  | look k ih => exact ⟨fun s => (ih s.store).follows s, fun s => (ih s.store).prints s⟩
  | act a k ih => exact (hact a).andThen ih
  | ask r k ih =>
      have h := (hask r).caught.andThen ih
      constructor
      · intro s
        simpa only [Proc.run_ask] using h.follows s
      · intro s
        simpa only [Proc.run_ask] using h.prints s
  | loop runner kind test body x k ihTest ihBody ih =>
      exact (rounds (hact (.tick runner kind)) ihTest ihBody hbound x).andThen ih

/-- Only counting a statement depends on the limits. -/
theorem perform (h : limits.Within c limits') (a : Action) :
    Trails c (Course.perform limits a) (Course.perform limits' a) where
  follows s := by
    cases a with
    | tick runner kind =>
        rw [Course.perform_tick, Course.perform_tick, Action.count_snd_congr h.trace]
        by_cases hl : limits.steps ≠ 0 ∧ limits.steps < (s.counter runner + 1 : Nat)
        · obtain he | ⟨-, hcut⟩ := h.steps
          · rw [he]
            exact .inl rfl
          · rw [if_pos hl]
            exact .inr ⟨hcut _, List.suffix_refl _⟩
        · have hl' : ¬ (limits'.steps ≠ 0 ∧ limits'.steps < (s.counter runner + 1 : Nat)) := by
            obtain he | ⟨hle, -⟩ := h.steps <;> omega
          rw [if_neg hl, if_neg hl']
          exact .inl rfl
    | _ => exact .inl rfl
  prints := (lasting_printed limits').perform a

/-- Two courses inside a call. -/
theorem deeper {f f' : Course α} (h : Trails c f f') : Trails c (Course.deeper f) (Course.deeper f') where
  follows s := by
    obtain heq | hcut := h.follows { s with depth := s.depth + 1 }
    · simp only [Course.deeper, heq]
      exact .inl rfl
    · exact .inr hcut
  prints s := h.prints { s with depth := s.depth + 1 }

/-- Requests to two machines. When the first machine has no room left for a request, it is cut off, and
whatever the second one does leaves printed what was printed. -/
theorem answer (h : limits.Within c limits') (hbound : AtMost c.bounds bound bound') {n n' : Nat}
    (hn : AtMost c.bounds n n') {room room' : Nat} (hroom : AtMost (c.fault .stackFull) room room')
    (r : Request) :
    Trails c (ScriptEngine.answer limits bound n room r) (ScriptEngine.answer limits' bound' n' room' r) := by
  have hprint (n room : Nat) (r : Request) (s : State) :
      s.printed <:+ (ScriptEngine.answer limits' bound' n room r s).2.printed :=
    (lasting_printed limits').answer n room r s
  induction n generalizing n' room room' r with
  | zero =>
      obtain h | ⟨-, h⟩ := hn
      · subst h
        exact stop .unfinished
      · exact ⟨fun s => .inr ⟨h, hprint n' room' r s⟩, hprint n' room' r⟩
  | succ n ih =>
      obtain ⟨m, rfl, hm⟩ := hn.pred
      cases r with
      | call function invoker this args =>
          have hbody := (run hbound (perform h) (ih hm hroom) (callBody function invoker this args)).deeper
          refine ⟨fun s => ?_, hprint _ _ _⟩
          by_cases hd : limits.depth ≤ s.depth
          · rw [answer_call, if_pos hd]
            obtain he | ⟨-, hcut⟩ := h.depth
            · rw [answer_call, ← he, if_pos hd]
              exact .inl rfl
            · exact .inr ⟨hcut, hprint _ _ _ s⟩
          · have hd' : ¬ limits'.depth ≤ s.depth := by
              obtain he | ⟨he, -⟩ := h.depth <;> omega
            rw [answer_call, answer_call, if_neg hd, if_neg hd']
            exact hbody.follows s
      | construct function invoker args =>
          cases room with
          | zero =>
              obtain he | ⟨-, hcut⟩ := hroom
              · subst he
                exact stop (.fault .stackFull)
              · exact ⟨fun s => .inr ⟨hcut, hprint _ _ _ s⟩, hprint _ _ _⟩
          | succ room =>
              obtain ⟨room', rfl, hless⟩ := hroom.pred
              exact run hbound (perform h) (ih hm hless) (constructBody function invoker args)

/-- The run with the smaller limits, or with less fuel, follows the other one. -/
theorem runIn (h : limits.Within c limits') {fuel fuel' : Nat} (hfuel : AtMost c.bounds fuel fuel')
    (p : Proc α) : Trails c (p.runIn limits fuel) (p.runIn limits' fuel') :=
  run hfuel (perform h) (answer h hfuel hfuel h.stack) p

end Trails

/-! ## Fuel -/

/-- With the same limits, only the bounds of the machine can cut a run off. -/
def Cut.machine : Cut where
  fault _ := False
  bounds := True

theorem Cut.Ends.of_machine {o : Outcome α} (h : Cut.machine.Ends o) : o = .unfinished := by
  cases o with
  | ok a => exact h.elim
  | thrown v => exact h.elim
  | fault f => exact h.elim
  | unfinished => rfl

theorem Limits.within_machine (limits : Limits) : limits.Within Cut.machine limits where
  trace := rfl
  steps := .inl rfl
  depth := .inl rfl
  stack := .inl rfl

/-- A run that finishes is the same run with more fuel. -/
theorem runIn_of_le {limits : Limits} {fuel fuel' : Nat} (hle : fuel ≤ fuel') (p : Proc α) (s : State)
    (hfinished : (p.runIn limits fuel s).1 ≠ .unfinished) : p.runIn limits fuel' s = p.runIn limits fuel s := by
  have h := (Trails.runIn limits.within_machine (.inr ⟨hle, trivial⟩) p).follows s
  obtain heq | ⟨hcut, -⟩ := h
  · exact heq.symm
  · exact absurd hcut.of_machine hfinished

/-! ## Limits -/

/-- Whether a fault says that a limit was exceeded: that on statements, or that on what is nested. -/
def Fault.isLimit : Fault → Bool
  | .tooLong _ => true
  | .tooDeep _ => true
  | .stackFull => true
  | _ => false

/-- With the same fuel, only limits can cut a run off. -/
def Cut.limits : Cut where
  fault f := f.isLimit
  bounds := False

theorem Cut.Ends.of_limits {o : Outcome α} (h : Cut.limits.Ends o) : ∃ f, o = .fault f ∧ f.isLimit := by
  cases o with
  | ok a => exact h.elim
  | thrown v => exact h.elim
  | fault f => exact ⟨f, rfl, h⟩
  | unfinished => exact h.elim

/-- The limits of settings that differ only in limits on statements and on nested calls. A greater number of
nested calls makes more room on the stack of the host. -/
theorem Settings.limits_within (settings : Settings) (steps depth : Int)
    (hsteps : steps = 0 ∨ settings.stepLimit ≠ 0 ∧ settings.stepLimit ≤ steps)
    (hdepth : settings.maxCallDepth ≤ depth) :
    settings.limits.Within Cut.limits { settings with stepLimit := steps, maxCallDepth := depth }.limits where
  trace := rfl
  steps := .inr ⟨hsteps, fun _ => rfl⟩
  depth := .inr ⟨hdepth, rfl⟩
  stack := by
    refine .inr ⟨Nat.div_le_div_right (Int.toNat_le_toNat ?_), rfl⟩
    simp only [hostRecursionLimit, neededRoom]
    split <;> omega

/-- Limits cut runs off and do not change them. Of two engines in the same state whose settings differ only
in the limits, the one with the smaller limits either ends a piece of work exactly as the other one does, in
the same state, or exceeds a limit and has printed the beginning of what the other one prints. -/
theorem Engine.run_smaller_limits (settings : Settings) (steps depth : Int)
    (hsteps : steps = 0 ∨ settings.stepLimit ≠ 0 ∧ settings.stepLimit ≤ steps)
    (hdepth : settings.maxCallDepth ≤ depth) (state : State) (fuel : Nat) (work : Proc α) :
    let settings' := { settings with stepLimit := steps, maxCallDepth := depth }
    let small := Engine.run ⟨settings.limits, state, fuel⟩ work
    let large := Engine.run ⟨settings'.limits, state, fuel⟩ work
    (∃ f, small.1 = .fault f ∧ f.isLimit ∧ small.2.state.printed.reverse <+: large.2.state.printed.reverse) ∨
      small.1 = large.1 ∧ small.2.state = large.2.state := by
  intro settings' small large
  have h : Follows Cut.limits (work.runIn settings.limits fuel state) (work.runIn _ fuel state) :=
    (Trails.runIn (settings.limits_within steps depth hsteps hdepth) (.inl rfl) work).follows state
  obtain heq | ⟨hcut, hp⟩ := h
  · refine .inr ⟨?_, ?_⟩
    · simp only [small, large, settings', run_fst, heq]
    · simp only [small, large, settings', run_state, heq]
  · obtain ⟨f, hf, hlimit⟩ := hcut.of_limits
    exact .inl ⟨f, hf, hlimit, List.reverse_prefix.mpr hp⟩

/-- A program whose loop never ends by itself. -/
def endlessLoop : Node :=
  .mk .program .none {} [.mk .whileStmt .none {} [.mk .boolean (.flag true) {} [], .absent]]

/-- An endless loop is cut off by a limit of three statements when the second round is counted; without a
limit it goes on. -/
theorem Engine.run_smaller_limits_endlessLoop :
    let work := runTree newDesk endlessLoop
    let small := Engine.run ⟨{ stepLimit := 3 : Settings }.limits, {}, 10⟩ work
    let large := Engine.run ⟨{ stepLimit := 0 : Settings }.limits, {}, 10⟩ work
    small.1 = .fault (.tooLong 4) ∧ large.1 = .unfinished ∧
      ((∃ f, small.1 = .fault f ∧ f.isLimit ∧
          small.2.state.printed.reverse <+: large.2.state.printed.reverse) ∨
        small.1 = large.1 ∧ small.2.state = large.2.state) :=
  ⟨rfl, rfl, Engine.run_smaller_limits { stepLimit := 3 } 0 500 (.inl rfl) (by decide) {} 10
    (runTree newDesk endlessLoop)⟩

end ScriptEngine
