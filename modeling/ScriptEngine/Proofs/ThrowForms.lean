import ScriptEngine.Proofs.Holes
import ScriptEngine.Proofs.Record

/-!
# Two forms of a thrown value

A value is thrown in two forms. A statement can end with it, which every construct around the statement has to
hand on; or it leaves the computation at once. Both come to the same thing: whatever stands around, the same
happens in the same order until a `try` statement catches the value or a program or body of a function ends with
it, and there the two forms meet.

## Main definitions

* `Passage.settle`: the end of a passage, with a value that left it as its result.
* `Proc.Same`: computations whose runs are the same up to the form in which values are thrown.
* `Hole.raising`: the same in a hole, with values thrown in the other form.

## Main results

* `Layer.same_run`: every layer keeps to it.
* `Hole.raising_within`: the two forms in statements, programs and bodies of functions.
-/

namespace ScriptEngine

open Proc (Round)

variable {α β σ ι : Type} {limits : Limits} {bound : Nat}

/-! ## Settled passages -/

namespace Passage

/-- The end of a passage, with a thrown value turned into a result. -/
def settle (thrown : Value → α) (r : List Occurrence × Outcome α × State) :
    List Occurrence × Outcome α × State :=
  match r with
  | (h, .thrown v, s) => (h, .ok (thrown v), s)
  | r => r

theorem settle_append (thrown : Value → α) (h : List Occurrence) (r : List Occurrence × Outcome α × State) :
    settle thrown (h ++ r.1, r.2) = (h ++ (settle thrown r).1, (settle thrown r).2) := by
  obtain ⟨h', o, s⟩ := r
  cases o <;> rfl

/-- A passage that hands on thrown values can follow one that is settled. -/
theorem settle_andThen {i : Value → α} {j : Value → β} {f : α → Passage β}
    (hf : ∀ v s, settle j (f (i v) s) = ([], .ok (j v), s)) (r : List Occurrence × Outcome α × State) :
    settle j (andThen (settle i r) f) = settle j (andThen r f) := by
  obtain ⟨h, o, s⟩ := r
  cases o with
  | thrown v =>
      change settle j (h ++ (f (i v) s).1, (f (i v) s).2) = (h, .ok (j v), s)
      rw [settle_append, hf, List.append_nil]
  | _ => rfl

theorem settle_andThen_congr {j : Value → β} {f g : α → Passage β}
    (h : ∀ a s, settle j (f a s) = settle j (g a s)) (r : List Occurrence × Outcome α × State) :
    settle j (andThen r f) = settle j (andThen r g) := by
  obtain ⟨r, o, s⟩ := r
  cases o with
  | ok a => simp only [andThen_ok, settle_append, h]
  | _ => rfl

/-- A passage that throws at once what was thrown before can follow one that is settled. -/
theorem andThen_settle {i : Value → α} {f : α → Passage β} (hf : ∀ v s, f (i v) s = ([], .thrown v, s))
    (r : List Occurrence × Outcome α × State) : andThen (settle i r) f = andThen r f := by
  obtain ⟨h, o, s⟩ := r
  cases o with
  | thrown v =>
      change (h ++ (f (i v) s).1, (f (i v) s).2) = (h, .thrown v, s)
      rw [hf, List.append_nil]
  | _ => rfl

/-- Rounds of a loop whose bodies are settled alike. -/
theorem settle_rounds {j : Value → β} {count : Passage Unit} {test body body' : σ → Passage (Round σ β)}
    (h : ∀ x s, settle (fun v => .done (j v)) (body x s) = settle (fun v => .done (j v)) (body' x s)) (n : Nat)
    (x : σ) (s : State) :
    settle j (rounds count test body n x s) = settle j (rounds count test body' n x s) := by
  induction n generalizing x s with
  | zero => rfl
  | succ n ih =>
      simp only [rounds]
      refine settle_andThen_congr (fun r s => ?_) _
      cases r with
      | done b => rfl
      | again x =>
          refine settle_andThen_congr (fun _ s => ?_) _
          -- A value that the body throws ends the loop just as a round that is the last one.
          rw [← settle_andThen (i := fun v => .done (j v)) (fun v s => rfl), h, settle_andThen (fun v s => rfl)]
          refine settle_andThen_congr (fun r s => ?_) _
          cases r with
          | done b => rfl
          | again x => exact ih x s

end Passage

open Passage (settle andThen)

/-- Two computations whose runs are the same in all that is recorded, up to the form in which values are thrown
at their ends: `thrown v` is a result that stands for a thrown value. -/
def Proc.Same (thrown : Value → α) (p q : Proc α) : Prop :=
  ∀ limits bound within answers s,
    settle thrown (p.observe limits bound within answers s) = settle thrown (q.observe limits bound within answers s)

namespace Proc.Same

variable {i : Value → α} {j : Value → β} {p q : Proc α}

theorem refl (i : Value → α) (p : Proc α) : Same i p p := fun _ _ _ _ _ => rfl

theorem trans {r : Proc α} (h : Same i p q) (h' : Same i q r) : Same i p r :=
  fun limits bound within answers s => (h limits bound within answers s).trans (h' limits bound within answers s)

/-- The two forms. -/
theorem thrown (i : Value → α) (v : Value) : Same i (pure (i v)) (throw v) := fun _ _ _ _ _ => rfl

/-- Something that hands on thrown values, after computations that are the same. -/
theorem bind {f : α → Proc β} (h : Same i p q) (hf : ∀ v, Same j (f (i v)) (throw v)) :
    Same j (p >>= f) (q >>= f) := by
  intro limits bound within answers s
  have hthrown (v : Value) (s : State) :
      settle j ((f (i v)).observe limits bound within answers s) = ([], .ok (j v), s) :=
    hf v limits bound within answers s
  rw [Proc.observe_bind, Proc.observe_bind, ← Passage.settle_andThen hthrown, h limits bound within answers s,
    Passage.settle_andThen hthrown]

/-- Computations that are the same, after something. -/
theorem after (p : Proc α) {f g : α → Proc β} (h : ∀ a, Same j (f a) (g a)) : Same j (p >>= f) (p >>= g) := by
  intro limits bound within answers s
  rw [Proc.observe_bind, Proc.observe_bind]
  exact Passage.settle_andThen_congr (fun a s => h a limits bound within answers s) _

/-- What is caught is the same in both forms. -/
theorem attempt {p q : Proc Completion} (h : Same .throws p q) (f : Completion → Proc β) (j : Value → β) :
    Same j (p.attempt >>= fun e => f (Completion.ofAttempt e))
      (q.attempt >>= fun e => f (Completion.ofAttempt e)) := by
  -- To catch a value and to take it for a completion is to settle.
  have hcaught (r : List Occurrence × Outcome Completion × State) (g : Completion → Passage β) :
      andThen (Passage.caught r) (fun e => g (Completion.ofAttempt e)) = andThen (settle .throws r) g := by
    obtain ⟨r, o, t⟩ := r
    cases o <;> rfl
  intro limits bound within answers s
  simp only [Proc.observe_bind, observe_attempt]
  rw [hcaught _ fun e => (f e).observe limits bound within answers, h limits bound within answers s, ← hcaught]

/-- Rounds whose bodies are the same. -/
theorem repeated {runner : RunnerId} {kind : NodeKind} {test body body' : σ → Proc (Round σ β)}
    (h : ∀ x, Same (fun v => .done (j v)) (body x) (body' x)) (x : σ) :
    Same j (Proc.repeated runner kind test body x) (Proc.repeated runner kind test body' x) := by
  intro limits bound within answers s
  have hrounds (r : List Occurrence × Outcome β × State) : andThen r (fun b s => ([], .ok b, s)) = r := by
    obtain ⟨h, o, t⟩ := r
    cases o <;> simp [andThen]
  change settle j (andThen (Passage.rounds _ _ _ bound x s) fun b s => ([], .ok b, s)) =
    settle j (andThen (Passage.rounds _ _ _ bound x s) fun b s => ([], .ok b, s))
  rw [hrounds, hrounds]
  exact Passage.settle_rounds (fun x s => h x limits bound within answers s) bound x s

/-- What is built around computations keeps to it. -/
theorem congruence : Congruence fun _ {_} thrown p q => Same thrown p q where
  refl _ i p := .refl i p
  after p _ _ hk := .after p hk
  bind h hthrown hk := (h.bind fun v => by rw [hthrown]; exact .thrown _ v).trans (.after _ hk)
  attempt h k := h.attempt k _
  opened hk := .after _ hk
  repeated h x := .repeated h x

/-- The two forms meet where a value that a computation ends with is thrown. -/
theorem observe_bind {f : α → Proc β} (h : Same i p q) (hf : ∀ v, f (i v) = throw v) (limits : Limits)
    (bound : Nat) (within : List Request) (answers : Request → Passage Value) :
    (p >>= f).observe limits bound within answers = (q >>= f).observe limits bound within answers := by
  funext s
  have hthrown (v : Value) (s : State) : (f (i v)).observe limits bound within answers s = ([], .thrown v, s) := by
    rw [hf]
    rfl
  rw [Proc.observe_bind, Proc.observe_bind, ← Passage.andThen_settle hthrown, h limits bound within answers s,
    Passage.andThen_settle hthrown]

end Proc.Same

/-! ## Holes -/

namespace Hole

/-- The same, except that a value that it would end with leaves the computation at once. -/
def raising (h : Hole) : Hole where
  kind := h.kind
  names := h.names
  run c labels := do
    match ← h.run c labels with
    | .throws v => .throw v
    | e => return e

/-- What can stand in a hole in two forms: it is counted and declares names alike, and is executed alike up to
the form in which it throws. -/
structure Alike (h h' : Hole) : Prop where
  kind : h'.kind = h.kind
  names : h'.names = h.names
  run (c : Context) (labels : List Text) : Proc.Same .throws (h.run c labels) (h'.run c labels)

theorem alike_raising (h : Hole) : h.Alike h.raising where
  kind := rfl
  names := rfl
  run c labels := by
    have hforms (e : Completion) : Proc.Same .throws (pure e) (match e with
        | .throws v => .throw v
        | e => return e) := by
      cases e with
      | throws v => exact .thrown _ v
      | _ => exact .refl _ _
    have hsame := Proc.Same.after (h.run c labels) hforms
    rw [bind_pure] at hsame
    exact hsame

end Hole

/-- Every layer hands on thrown values in both forms. -/
theorem Layer.same_run (l : Layer) {h h' : Hole} (hh : h.Alike h') (c : Context) (labels : List Text) :
    Proc.Same .throws (l.run h c labels) (l.run h' c labels) :=
  Proc.Same.congruence.layer hh.kind hh.run l c labels

namespace Hole

namespace Alike

variable {h h' : Hole}

theorem wrap (hh : h.Alike h') (l : Layer) : (l.wrap h).Alike (l.wrap h') where
  kind := l.kind_fill _ _
  names := l.varNames_fill (by rw [Hole.standIn, hh.names, Hole.standIn])
  run := l.same_run hh

/-- Layers around each other hand on thrown values in both forms. -/
theorem within (hh : h.Alike h') (layers : List Layer) : (h.within layers).Alike (h'.within layers) := by
  induction layers with
  | nil => exact hh
  | cons l layers ih => exact ih.wrap l

variable (hh : h.Alike h') (before after : List Stmt) (scope : FrameId) (runner : RunnerId)
include hh

theorem wholeList (c : Context) (declareIn : FrameId) :
    Proc.Same .throws (h.wholeList before after c declareIn) (h'.wholeList before after c declareIn) := by
  have hin := Proc.Same.congruence.inList hh.kind hh.run before after c none
  rw [Hole.wholeList, Hole.wholeList, hh.names]
  exact .after _ fun _ => .after _ fun _ => .after _ fun _ => hin.bind fun v => .thrown _ v

variable (limits : Limits) (bound : Nat) (requests : List Request) (answers : Request → Passage Value)

/-- The two forms meet at the end of a program. -/
theorem observe_program :
    (h.program before after scope runner).observe limits bound requests answers =
      (h'.program before after scope runner).observe limits bound requests answers := by
  funext s
  rw [program, program, Proc.observe_bind, Proc.observe_bind]
  congr 1
  funext target
  exact (hh.wholeList before after ⟨runner, scope⟩ target).observe_bind (fun _ => rfl) limits bound requests answers

/-- The two forms meet at the end of the body of a function. -/
theorem observe_body (name : Text) :
    (h.body before after scope runner name).observe limits bound requests answers =
      (h'.body before after scope runner name).observe limits bound requests answers :=
  (hh.wholeList before after ⟨runner, scope⟩ scope).observe_bind (fun _ => rfl) limits bound requests answers

end Alike

end Hole

/-- Computations with the same observed runs are the same for every engine. -/
theorem Engine.run_of_observe {p q : Proc α}
    (h : ∀ limits bound within answers, p.observe limits bound within answers =
      q.observe limits bound within answers) (e : Engine) : e.run p = e.run q ∧ e.record p = e.record q := by
  have hobserve : p.observeIn e.limits e.fuel e.state = q.observeIn e.limits e.fuel e.state := congrFun (h ..) _
  have hrun : p.runIn e.limits e.fuel e.state = q.runIn e.limits e.fuel e.state := by
    rw [← Proc.observeIn_snd, hobserve, Proc.observeIn_snd]
  exact ⟨by rw [Engine.run, hrun, Engine.run], congrArg Prod.fst hobserve⟩

/-- The two forms in which a value is thrown come to the same thing. Layers with a statement in their hole make up
a statement, and programs and bodies of functions around it are run as such. If something stands in the hole
that ends with a thrown value, or the same that raises it, then layers around it run alike: all that happens is
the same in the same order and in the same states, and the ends differ at most in the form of the value. For a
program or the body of a function around the layers, the ends do not differ at all. -/
theorem Hole.raising_within (h : Hole) (layers : List Layer) (before after : List Stmt) :
    (∀ s : Stmt, s.kind ≠ .functionStmt →
      (∀ scope runner, ((Hole.of s).within layers).program before after scope runner =
        runProgram scope runner (before ++ layers.foldr Layer.fill s :: after)) ∧
      ∀ scope runner name, ((Hole.of s).within layers).body before after scope runner name =
        runBody scope runner name (before ++ layers.foldr Layer.fill s :: after)) ∧
    (∀ c labels limits bound requests answers s,
      settle .throws (((h.within layers).run c labels).observe limits bound requests answers s) =
        settle .throws (((h.raising.within layers).run c labels).observe limits bound requests answers s)) ∧
    (∀ scope runner (e : Engine),
      e.run ((h.within layers).program before after scope runner) =
          e.run ((h.raising.within layers).program before after scope runner) ∧
        e.record ((h.within layers).program before after scope runner) =
          e.record ((h.raising.within layers).program before after scope runner)) ∧
    ∀ scope runner name limits bound requests answers,
      ((h.within layers).body before after scope runner name).observe limits bound requests answers =
        ((h.raising.within layers).body before after scope runner name).observe limits bound requests answers := by
  have hforms := h.alike_raising.within layers
  refine ⟨fun s hs => ?_, hforms.run, fun scope runner => ?_, fun scope runner name limits bound requests answers => ?_⟩
  · obtain ⟨hof, hkind⟩ := within_of layers hs
    rw [hof]
    exact ⟨program_of hkind before after, body_of hkind before after⟩
  · exact Engine.run_of_observe (hforms.observe_program before after scope runner)
  · exact hforms.observe_body before after scope runner limits bound requests answers name

/-- A labelled loop around a `try` statement whose body is the hole. -/
def guardedLoop : List Layer :=
  [.labelled "outer", .doLoop (.literal (.bool false)),
    .tryBody (some ("e", .expr (.ident "e"))) (some (.expr (.literal .null)))]

/-- The statement `throw true`. -/
def throwTrue : Stmt := .throws (.literal (.bool true))

/-- An engine with one empty scope. -/
def bareEngine : Engine := { state := { store := { frames := #[{}], objects := #[] } }, fuel := 5 }

/-- With `throw true` in the hole of the loop, and with the same that raises the value, the handler gives the value
back, as the value of the program. -/
theorem Hole.raising_within_guardedLoop :
    throwTrue.kind ≠ .functionStmt ∧
      ((Hole.of throwTrue).within guardedLoop).program [] [] 0 0 =
        runProgram 0 0 [guardedLoop.foldr Layer.fill throwTrue] ∧
      (bareEngine.run (((Hole.of throwTrue).within guardedLoop).program [] [] 0 0)).1 = .ok (.bool true) ∧
      (bareEngine.run (((Hole.of throwTrue).raising.within guardedLoop).program [] [] 0 0)).1 =
        .ok (.bool true) := by
  obtain ⟨hfill, -, hprogram, -⟩ := Hole.raising_within (.of throwTrue) guardedLoop [] []
  have hkind : throwTrue.kind ≠ .functionStmt := by decide
  have hran : (bareEngine.run (((Hole.of throwTrue).within guardedLoop).program [] [] 0 0)).1 =
      .ok (.bool true) := rfl
  refine ⟨hkind, (hfill throwTrue hkind).1 0 0, hran, ?_⟩
  rw [← (hprogram 0 0 bareEngine).1, hran]

end ScriptEngine
