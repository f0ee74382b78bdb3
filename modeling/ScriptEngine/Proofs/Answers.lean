import ScriptEngine.Proofs.Programs

/-!
# The answers to requests

Source text that is run stands for a program that assigns only to what can be assigned to, since it has been
parsed. The functions of a script that are called are harmless, since the store is sound. So every call and
every construction keeps to its licence; that licence lets it make reference errors only if it is one of an
error constructor. Therefore requests are answered lawfully, and so is the run of every computation that
behaves.

## Main results

* `tame_runSource`: source text at run time.
* `Native.tame_invoke`, `Native.tame_construct`: built-in functions.
* `behaves_callBody`, `behaves_constructBody`: calls and constructions.
* `observeAnswer_lawful`: the answers to requests.
* `Engine.run_lawful`: runs of an engine.
-/

namespace ScriptEngine

open Proc

variable {α : Type} {L : Licence} {s t : Store} {scope : Option FrameId}

/-! ## Source text -/

theorem tame_counterFor (f : FrameId) : (counterFor f).Tame L scope :=
  .bind (.read _) fun _ => .ite (.perform fun _ => trivial) (.fault (by simp))

/-- Source text that is run in a rooted scope. -/
theorem tame_runSource (source : Text) {place : Proc FrameId} (hplace : place.Meets L scope fun s f => s.Rooted f) :
    (runSource source place).Tame L scope := by
  unfold runSource
  cases h : parse source with
  | error e =>
      cases e with
      | malformed message => exact .raise (by decide) message
      | literal e => exact .fault (by simp)
  | ok n =>
      obtain ⟨p, hp, htargeted⟩ := Program.ofNode?_of_parse h
      refine Meets.bind hplace fun f s hs _ hf => ?_
      have hrun := Tame.bind (L := L) (tame_counterFor f) fun runner => runProgram_tame (f := f) runner htargeted
      simp only [hp]
      refine hrun s hs ?_
      rintro _ ⟨⟩
      exact hf

theorem meets_openProgram : (perform .openProgram).Meets L scope fun s f => s.Rooted f :=
  fun _ _ _ => ⟨trivial, fun _ _ _ hf => hf⟩

theorem tame_evalSource (i : Invocation) : (evalSource i).Tame L i.invoker := by
  unfold evalSource
  split
  · refine tame_runSource _ ?_
    split
    · rename_i f hf
      exact .pure fun s _ hscope => hscope f hf
    · exact meets_openProgram
  · exact .pure _

theorem tame_functionFromTexts (i : Invocation) : (functionFromTexts i).Tame L i.invoker := by
  refine .bind (.map Proc.tame_toText _) fun params => ?_
  extract_lets rest
  have hrest (body : Text) : (rest body).Tame L i.invoker := by
    refine tame_runSource _ ?_
    split
    · rename_i f hf
      exact fun s hs hscope => hs.rooted_globalScope (hscope f hf)
    · exact meets_openProgram
  split
  · exact .bind (Proc.tame_toText _) hrest
  · exact .bind (.pure _) hrest

/-! ## Built-in functions -/

namespace FunctionFn

theorem tame_target (what : String) (this : Value) : (target what this).Tame L scope := by
  refine .bind (tame_callable? this) fun f => ?_
  cases f with
  | some f => exact .pure _
  | none => exact .typeError _

theorem tame_invoke (f : FunctionFn) (i : Invocation) : (f.invoke i).Tame L i.invoker := by
  cases f with
  | blank => exact .pure _
  | construct => exact tame_functionFromTexts i
  | call => exact .bind (tame_target _ _) fun _ => .call _ _ _
  | apply => exact .bind (tame_target _ _) fun _ => .bind (tame_listFrom _) fun _ => .call _ _ _
  | bind => exact .bind (tame_target _ _) fun _ => .bind (.perform fun _ => trivial) fun _ => .pure _
  | toText => exact .bind (tame_target _ _) fun _ => .bind (tame_body _) fun _ => .pure _

end FunctionFn

namespace Native

/-- A built-in function keeps to its licence; an error constructor needs one to make reference errors. -/
theorem tame_invoke (n : Native) (h : ∀ kind, n = .error (.construct kind) → L.forges) (i : Invocation) :
    (n.invoke i).Tame L i.invoker := by
  cases n with
  | object f => exact f.tame_invoke i
  | function f => exact f.tame_invoke i
  | array f => exact f.tame_invoke i
  | string f => exact f.tame_invoke i
  | number f => exact f.tame_invoke i
  | boolean f => exact f.tame_invoke i
  | date f => exact f.tame_invoke i
  | regexp f => exact f.tame_invoke i
  | error f => exact f.tame_invoke (fun kind hf => h kind (by rw [hf])) i
  | math f => exact f.tame_invoke i
  | log => exact Service.tame_printLine _
  | eval => exact tame_evalSource i

theorem tame_construct {n : Native} (h : ∀ kind, n = .error (.construct kind) → L.forges) {i : Invocation}
    {p : Proc Value} (hp : n.construct? i = some p) : p.Tame L i.invoker := by
  unfold construct? at hp
  split at hp <;> cases hp
  · exact ObjectFn.tame_make _
  · exact tame_functionFromTexts i
  · exact Arrays.tame_make _
  · exact .bind (Strings.tame_ofArgs _) fun _ => tame_newBox _
  · exact .bind (NumberFn.tame_ofArgs _) fun _ => tame_newBox _
  · exact tame_newBox _
  · exact .bind (Dates.tame_ofArgs _) fun _ => tame_newBox _
  · exact RegExpFn.tame_make _ _
  · exact ErrorFn.tame_make (fun _ => h _ rfl) _

end Native

/-! ## Calls and constructions -/

/-- The scope of a call is rooted. -/
theorem meets_openActivation (function : ObjectId) (name : Text) (params : List Text) (scope : FrameId)
    (selfBound : Bool) (invoker : Option FrameId) (this : Value) (args : List Value) :
    (openActivation function name params scope selfBound invoker this args).Meets L (some scope)
      fun s f => s.Rooted f := by
  unfold openActivation
  extract_lets rest
  have hrest (this : Value) : (rest this).Meets L (some scope) fun s f => s.Rooted f := by
    refine Meets.next (Tame.perform fun _ => trivial) fun arguments => (Tame.read _).next fun caller => ?_
    have hthis : Key.this.Proper ∧ Key.arguments.Proper ∧ Key.caller.Proper := by decide
    refine .opened fun f => (Tame.putScope hthis.1 _).next fun _ => (Tame.putScope hthis.2.1 _).next fun _ =>
      (Tame.putScope hthis.2.2 _).next fun _ => ?_
    extract_lets bindArguments
    have hbind (u : Unit) : (bindArguments u).Meets L (some f) fun s f => s.Rooted f :=
      Meets.next (Tame.each (fun _ => .putScope (Key.proper_ofText _) _) _) fun _ =>
        .pure fun s _ hscope => hscope f rfl
    split
    · exact (Tame.putScope (Key.proper_ofText _) _).next hbind
    · exact hbind ()
  split
  · exact (Tame.read _).next hrest
  · exact (Tame.pure _).next hrest

theorem behaves_callBody {function : ObjectId} {invoker : Option FrameId} (hs : s.Sound L.names)
    (hinvoker : ∀ f ∈ invoker, s.Rooted f) (h : (s.body function).isErrorConstructor → L.forges) (this : Value)
    (args : List Value) : (callBody function invoker this args).Behaves L (fun _ _ => True) s := by
  have hharmless := hs.harmless function
  refine behaves_read.2 ?_
  split
  · rename_i hbody
    rw [hbody] at hharmless
    refine Behaves.bind (meets_openActivation _ _ _ _ _ _ _ _ s hs ?_) hs fun t f ht hf =>
      runBody_tame _ _ hharmless.2 t ht.sound ?_
    · rintro _ ⟨⟩
      exact hharmless.1
    · rintro _ ⟨⟩
      exact hf
  · rename_i n hbody
    rw [hbody] at h
    refine n.tame_invoke (fun kind hn => h (by rw [hn]; rfl)) ⟨invoker, this, args⟩ s hs hinvoker
  · exact Service.tame_invoke _ ⟨invoker, this, args⟩ s hs hinvoker
  · exact Tame.call _ _ _ s hs hinvoker
  · exact tame_notCallable _ _ _ s hs hinvoker

theorem tame_constructPlain (function : ObjectId) (args : List Value) :
    (constructPlain function scope args).Tame L scope :=
  .bind (.read _) fun _ => .bind (.perform fun _ => trivial) fun _ => .bind (.call _ _ _) fun _ => .pure _

theorem behaves_constructBody {function : ObjectId} {invoker : Option FrameId} {args : List Value}
    (hs : s.Sound L.names) (hinvoker : ∀ f ∈ invoker, s.Rooted f)
    (h : (s.body (s.unbound (function + 1) function args).1).isErrorConstructor → L.forges) :
    (constructBody function invoker args).Behaves L (fun _ _ => True) s := by
  refine behaves_read.2 ?_
  generalize s.unbound (function + 1) function args = target at h
  refine behaves_read.2 ?_
  split
  · rename_i n hbody
    rw [hbody] at h
    split
    · rename_i p hp
      exact Native.tame_construct (fun kind hn => h (by rw [hn]; rfl)) hp s hs hinvoker
    · exact tame_constructPlain _ _ s hs hinvoker
  · exact tame_constructPlain _ _ s hs hinvoker

/-! ## Answers -/

theorem isCallable_of_isErrorConstructor {b : Body} (h : b.isErrorConstructor) : b.isCallable := by
  unfold Body.isErrorConstructor at h
  split at h
  · rfl
  · cases h

/-- A chain of bound functions that leads to a function stays what it is. -/
theorem Store.Later.unbound (hst : s.Later t) {n : Nat} {o : ObjectId} {args : List Value}
    (h : (s.body (s.unbound n o args).1).isCallable) : t.unbound n o args = s.unbound n o args := by
  induction n generalizing o args with
  | zero => rfl
  | succ n ih =>
      unfold Store.unbound at h ⊢
      cases hbody : s.body o with
      | function name callable =>
          rw [hst.function o (by simp [hbody, Body.isCallable]), hbody]
          rw [hbody] at h
          cases callable with
          | bound target this args' =>
              dsimp only at h ⊢
              split
              · exact ih (by simpa [*] using h)
              · rfl
          | _ => rfl
      | _ =>
          simp [hbody, Body.isCallable] at h

/-- A request to an error constructor stays one. -/
theorem Request.isErrorConstruction_later (hst : s.Later t) {r : Request} (h : r.isErrorConstruction s) :
    r.isErrorConstruction t := by
  cases r with
  | call function invoker this args =>
      have hcallable := isCallable_of_isErrorConstructor h
      simpa [isErrorConstruction, hst.function function hcallable] using h
  | construct function invoker args =>
      have hcallable := isCallable_of_isErrorConstructor h
      simpa [isErrorConstruction, hst.unbound hcallable, hst.function _ hcallable] using h

/-- The licence of an answer: it may make reference errors if it is one of an error constructor. -/
def Request.licence (names : Key → Prop) (s : Store) (r : Request) : Licence where
  names := names
  forges := r.isErrorConstruction s

variable {names : Key → Prop} {limits : Limits} {bound : Nat}

/-- A passage with moments around it that are no actions. -/
theorem Passage.Lawful.enclosed {r : List Occurrence × Outcome Value × State} {s s' : State}
    (hr : Lawful names (fun _ _ => True) s' r) (hstore : s'.store = s.store) {first second last : Occurrence}
    (hevents : ∀ a, first.event ≠ .act a ∧ second.event ≠ .act a ∧ last.event ≠ .act a) {t : State}
    (ht : t.store = r.2.2.store) :
    Lawful names (fun _ _ => True) s (first :: second :: r.1 ++ [last], r.2.1, t) where
  record o ho message he := by
    simp only [List.cons_append, List.mem_cons, List.mem_append, List.not_mem_nil, or_false] at ho
    obtain rfl | rfl | ho | rfl := ho
    · exact absurd he (hevents _).1
    · exact absurd he (hevents _).2.1
    · exact hr.record o ho message he
    · exact absurd he (hevents _).2.2
  aimed o ho a he := by
    simp only [List.cons_append, List.mem_cons, List.mem_append, List.not_mem_nil, or_false] at ho
    obtain rfl | rfl | ho | rfl := ho
    · exact absurd he (hevents _).1
    · exact absurd he (hevents _).2.1
    · exact hr.aimed o ho a he
    · exact absurd he (hevents _).2.2
  next := by
    rw [← hstore, ht]
    exact hr.next
  fault := hr.fault
  result _ _ := trivial

/-- A request that is refused. -/
theorem Passage.Lawful.refused {s : State} {o : Occurrence} {e : Fault} (hs : s.store.Sound names)
    (ho : ∀ a, o.event ≠ .act a) (he : e ≠ .malformedTree) :
    Lawful names (fun _ _ => True) s ([o], (.fault e : Outcome Value), s) where
  record o' ho' message he' := by
    cases List.mem_singleton.1 ho'
    exact absurd he' (ho _)
  aimed o' ho' a he' := by
    cases List.mem_singleton.1 ho'
    exact absurd he' (ho _)
  next := .refl hs
  fault := by
    rintro _ ⟨⟩
    exact he
  result := nofun

/-- What is done for a request is lawful if further requests are answered lawfully. -/
theorem Request.observe_lawful (r : Request) {within : List Request} {answers : Request → Passage Value} {s : State}
    (hs : s.store.Sound names)
    (hanswers : ∀ r (t : State), t.store.Sound names → (∀ f ∈ r.invoker, t.store.Rooted f) →
      Passage.Lawful names (fun _ _ => True) t (answers r t))
    {p : Proc Value} (hp : p.Behaves (r.licence names s.store) (fun _ _ => True) s.store) :
    Passage.Lawful names (fun _ _ => True) s (p.observe limits bound (r :: within) answers s) :=
  hp.observe (fun h _ ht => ⟨r, within, rfl, r.isErrorConstruction_later ht h⟩) hanswers (.refl hs)

/-- Requests are answered lawfully. -/
theorem observeAnswer_lawful (n room : Nat) (within : List Request) (r : Request) {s : State}
    (hs : s.store.Sound names) (hr : ∀ f ∈ r.invoker, s.store.Rooted f) :
    Passage.Lawful names (fun _ _ => True) s (observeAnswer limits bound n room within r s) := by
  induction n generalizing room within r s with
  | zero => exact .stop hs nofun nofun
  | succ n ih =>
      cases r with
      | call function invoker this args =>
          simp only [observeAnswer]
          split
          · exact .refused hs (by simp) (by simp)
          -- Inside the call the depth is another one, which has no part in what is lawful.
          · have hrun (t : State) (ht : t.store = s.store) :
                Passage.Lawful names (fun _ _ => True) t ((callBody function invoker this args).observe limits bound
                  (.call function invoker this args :: within)
                  (observeAnswer limits bound n room (.call function invoker this args :: within)) t) := by
              rw [← ht] at hs hr
              exact Request.observe_lawful _ hs (fun r _ => ih room _ r) (behaves_callBody hs hr id this args)
            refine (hrun { s with depth := s.depth + 1 } rfl).enclosed (s := s) ?_ ?_ ?_
            · rfl
            · simp
            · rfl
      | construct function invoker args =>
          cases room with
          | zero => exact .refused hs (by simp) (by simp)
          | succ room =>
              have hrun : Passage.Lawful names (fun _ _ => True) s
                  ((constructBody function invoker args).observe limits bound
                    (.construct function invoker args :: within)
                    (observeAnswer limits bound n room (.construct function invoker args :: within)) s) :=
                Request.observe_lawful _ hs (fun r _ => ih room _ r) (behaves_constructBody hs hr id)
              refine hrun.enclosed (s := s) ?_ ?_ ?_
              · rfl
              · simp
              · rfl

/-! ## Runs of an engine -/

/-- A computation that the engine runs for the host makes no reference errors of its own. -/
def Licence.forHost (names : Key → Prop) : Licence := ⟨names, False⟩

/-- A run of a computation that behaves is lawful. -/
theorem Engine.run_lawful {e : Engine} (hs : e.store.Sound names) {p : Proc α} {Q : Store → α → Prop}
    (hp : p.Behaves (.forHost names) Q e.store) :
    Passage.Lawful names Q e.state (e.record p, (e.run p).1, (e.run p).2.state) := by
  have hobserve : Passage.Lawful names Q e.state (p.observeIn e.limits e.fuel e.state) :=
    hp.observe (fun h => absurd h id) (fun r t => observeAnswer_lawful _ _ _ r) (.refl hs)
  rwa [← Prod.eta (p.observeIn e.limits e.fuel e.state), p.observeIn_snd] at hobserve

end ScriptEngine
