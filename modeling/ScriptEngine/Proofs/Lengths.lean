import Mathlib.Logic.Relation
import ScriptEngine.Proofs.Depth
import ScriptEngine.Proofs.Reach
import ScriptEngine.Proofs.Slots

/-!
# The lengths of arrays

Whatever a computation does to the store comes down to four kinds of changes: a frame is changed, a scope is
added, an object is added with its frame of properties, or the body of an object is changed. In a tidy store
the length of every array is in step with its indexes, and what properties are looked up in is there. Each
change keeps the store tidy, so it is tidy at every moment of every run, also while a method of an array
calls functions and when it ends with a thrown value or a fault.

## Main definitions

* `Store.Change`, `Store.Changes`: the changes of a store.
* `Store.Tidy`: the lengths of arrays, and the frames that are there.
* `Engine.Moment`: the states between and during the runs of an engine.

## Main results

* `Action.changes`: an action makes such changes only.
* `Engine.Moment.tidy`: every store is tidy.
* `Engine.Moment.array_length`: the length of an array at any moment.
-/

namespace ScriptEngine

namespace Frame.Inherits

variable {f g : Frame} {parent : Option FrameId}

theorem alike (h : f.Inherits parent) (hfg : f.Alike g) : g.Inherits parent :=
  ⟨hfg.parent.trans h.parent, fun o => hfg.role.trans_ne (h.role o)⟩

theorem ofItems (parent : Option FrameId) (items : List Value) : (Frame.ofItems parent items).Inherits parent := by
  have hempty : ({ parent, role := .slots } : Frame).Inherits parent := ⟨rfl, nofun⟩
  exact hempty.alike (.ofItems parent items)

end Frame.Inherits

namespace Store

variable {s t : Store}

/-! ## Changes -/

/-- Where the lookup of properties can start, or go on when an object is added: at the properties of an object,
or at the built-in names. -/
def Anchored (s : Store) (f : FrameId) : Prop := f = Realm.core ∨ ∃ o, s.propsOf o = f

/-- One change of a store. -/
inductive Change : Store → Store → Prop
  /-- A frame is changed; if it is in step, it stays so. -/
  | frame {s : Store} (f : FrameId) (g : Frame → Frame) (halike : ∀ fr : Frame, fr.Alike (g fr))
      (hlength : ∀ n, (s.frame f).InStep n → ∃ m, (g (s.frame f)).InStep m) : Change s (s.modifyFrame f g)
  /-- A scope is added. -/
  | scope {s : Store} (parent : FrameId) (role : Frame.Role) : Change s (s.addScope parent role).2
  /-- An object is added with its frame of properties, which is in step if the object is an array. -/
  | object {s : Store} (proto : Option ObjectId) (body : Body) (fr : Frame)
      (hparent : ∀ p, fr.parent = some p → s.Anchored p) (hrole : ∀ o, fr.role ≠ .subject o)
      (hlength : body.isArray → ∃ n, fr.InStep n) :
      Change s ((s.addFrame fr).2.addObject { proto, props := s.frames.size, body }).2
  /-- An object is changed, but neither its frame of properties nor whether it is an array. -/
  | body {s : Store} (o : ObjectId) (change : Object → Object)
      (hchange : ∀ x, (change x).props = x.props ∧ (change x).body.isArray = x.body.isArray) :
      Change s (s.modifyObject o change)

/-- Changes one after another. -/
abbrev Changes : Store → Store → Prop := Relation.ReflTransGen Change

namespace Changes

/-- An object that inherits from another one. -/
theorem addWith (s : Store) (proto : Option ObjectId) (body : Body) (props : Option FrameId → Frame)
    (hprops : ∀ parent, (props parent).Inherits parent)
    (hlength : body.isArray → ∀ parent, ∃ n, (props parent).InStep n) :
    s.Changes (s.addWith proto body props).2 := by
  refine .single (.object proto body (props (s.parentFrame proto)) ?_ (hprops _).role fun hbody => hlength hbody _)
  intro p hp
  rw [(hprops _).parent, parentFrame, Option.map_eq_some_iff] at hp
  obtain ⟨o, -, ho⟩ := hp
  exact .inr ⟨o, ho⟩

theorem define (s : Store) (f : FrameId) {k : Key} (hk : k.isOrdinary) (v : Value) :
    s.Changes (s.modifyFrame f (·.define k v)) :=
  .single (.frame f _ (fun fr => .define fr k v) fun n hn => ⟨n, hn.define hk v⟩)

theorem addProgramScope (s : Store) : s.Changes s.addProgramScope.2 := by
  have hobject : s.Change _ := .object (some Realm.objectPrototype) .plain
    { parent := some Realm.core, role := .program } (fun p hp => .inl (Option.some.inj hp).symm) nofun nofun
  refine (Relation.ReflTransGen.single hobject).tail (.frame s.frames.size _ ?_ ?_)
  · exact fun fr => (Frame.Alike.define fr _ _).trans (.define _ _ _)
  · exact fun n hn => ⟨n, (hn.define rfl _).define rfl _⟩

theorem addFunction (s : Store) (proto : ObjectId) (name : Text) (arity : Nat) (callable : Callable) :
    s.Changes (s.addFunction proto name arity callable).2 := addWith s _ _ _ (fun _ => ⟨rfl, nofun⟩) nofun

/-- An object without properties. -/
theorem addPlain (s : Store) (proto : Option ObjectId) {body : Body} (hbody : body.isArray = false) :
    s.Changes (s.addPlain proto body).2 :=
  addWith s _ _ _ (fun _ => ⟨rfl, nofun⟩) fun harray => absurd harray (by simp [hbody])

theorem linkPrototype (s : Store) (function proto : ObjectId) : s.Changes (s.linkPrototype function proto) := by
  have hconstructor := define s (s.propsOf proto) (k := Key.constructor) rfl (.obj function)
  exact hconstructor.trans (define _ _ (k := Key.prototype) rfl (.obj proto))

theorem addClosure (s : Store) (name : Text) (params : List Text) (body : List Stmt) (scope : FrameId)
    (runner : RunnerId) (selfBound : Bool) :
    s.Changes (s.addClosure name params body scope runner selfBound).2 := by
  let callable : Callable := .script params body scope runner (selfBound && !name.isEmpty)
  have hfunction := addFunction s Realm.functionPrototype name params.length callable
  have hproto := hfunction.trans (addPlain _ (some Realm.objectPrototype) (show Body.plain.isArray = false from rfl))
  exact hproto.trans (linkPrototype _ _ _)

theorem sealFrom (flag : Bool) (n : Nat) (s : Store) (f : FrameId) : s.Changes (s.sealFrom flag n f) := by
  induction n generalizing s f with
  | zero => exact .refl
  | succ n ih =>
    rw [Store.sealFrom]
    split
    · exact .refl
    · have hfirst : s.Changes (s.modifyFrame f fun fr => { fr with sealed := flag }) :=
        .single (.frame f _ (fun _ => ⟨rfl, rfl⟩) fun n hn => ⟨n, hn.sealed flag⟩)
      exact List.foldlRecOn _ _ hfirst fun t ht g _ => ht.trans (ih t g)

end Changes

end Store

namespace Action

theorem changes_changeFrame (s : State) (f : FrameId) (blame : Frame → Key) {g : Frame → Frame}
    (halike : ∀ fr : Frame, fr.Alike (g fr)) (hlength : (s.store.frame f).sealed = false →
      ∀ n, (s.store.frame f).InStep n → ∃ m, (g (s.store.frame f)).InStep m) :
    s.store.Changes (changeFrame s f blame g).2.store := by
  simp only [changeFrame]
  split
  · exact .refl
  · rename_i hsealed
    exact .single (.frame f g halike (hlength (eq_false_of_ne_true hsealed)))

theorem changes_grow {s : State} (g : Store → Nat × Store) (h : s.store.Changes (g s.store).2) :
    s.store.Changes (grow s g).2.store := h

/-- An action changes the store in these ways only; that there is room for what it asks for keeps lengths
within what a double can tell apart. -/
theorem changes (limits : Limits) (s : State) (a : Action) :
    s.store.Changes (a.perform limits s).2.store := by
  unfold perform
  split
  · exact .refl
  rename_i hroom
  have hroom := Nat.le_of_not_lt hroom
  cases a with
  | put f k v =>
    refine changes_changeFrame s f _ (fun fr => .write fr k v) fun hsealed n hn => hn.write k v ?_
    simpa [demand, hsealed] using hroom
  | remove f k =>
    simp only [enact]
    split
    · exact .refl
    · rename_i hkept
      split
      · exact .refl
      · refine .single (.frame f _ (fun fr => .erase fr k) fun n hn => ⟨n, hn.erase ?_⟩)
        rintro rfl
        simp [hn.role] at hkept
  | resize f n => exact changes_changeFrame s f _ (fun fr => .resize fr n) fun _ m hm => ⟨_, hm.resize n⟩
  | refill f items =>
    refine changes_changeFrame s f _ (fun fr => .refill fr items) fun hsealed n hn => ⟨_, hn.refill ?_⟩
    simpa [demand, hsealed] using hroom
  | append f items =>
    have happend : s.store.Changes (changeFrame s f (fun fr => .index fr.length) (·.append items)).2.store := by
      refine changes_changeFrame s f _ (fun fr => .append fr items) fun hsealed n hn => ⟨_, hn.append ?_⟩
      simpa [demand, hsealed, hn.length_eq] using hroom
    by_cases hitems : items.isEmpty
    · simpa [enact, hitems] using Relation.ReflTransGen.refl
    · simpa [enact, hitems] using happend
  | setTime o ms =>
    refine .single (.body o _ ?_)
    intro x
    split
    · rename_i hdate
      simp [hdate, Body.isArray]
    · exact ⟨rfl, rfl⟩
  | openScope parent role => exact changes_grow _ (.single (.scope parent role))
  | openProgram => exact changes_grow _ (.addProgramScope _)
  | newObject proto => exact changes_grow _ (.addPlain _ proto rfl)
  | newBoxed b => exact changes_grow _ (.addPlain _ _ (by cases b <;> rfl))
  | newArray proto items =>
    exact changes_grow _ (.addWith _ _ _ _ (.ofItems · items) fun _ parent => ⟨_, .ofItems parent hroom⟩)
  | newArguments items callee =>
    refine changes_grow _ (.addWith _ _ _ _ ?_ fun _ parent => ⟨_, (Frame.InStep.ofItems parent hroom).define rfl _⟩)
    intro parent
    exact (Frame.Inherits.ofItems parent items).alike (.define _ _ _)
  | newError kind message =>
    refine changes_grow _ (.addWith _ _ _ _ (fun _ => ?_) fun harray => ?_)
    · cases message <;> exact ⟨rfl, fun o hrole => by cases hrole⟩
    · cases harray
  | newRegExp source flags =>
    refine changes_grow _ (.addWith _ _ _ _ (fun _ => ⟨rfl, fun o hrole => ?_⟩) fun harray => ?_)
    · cases hrole
    · cases harray
  | newClosure name params body scope runner selfBound => exact changes_grow _ (.addClosure _ _ _ _ _ _ _)
  | newBound target this args => exact changes_grow _ (.addFunction _ _ _ _ _)
  | tick runner kind =>
    simp only [enact, count, apply_ite Prod.snd, ite_self]
    split <;> exact .refl
  | start update =>
    simp only [enact]
    split <;> exact .refl
  | newRunner => exact .refl
  | print line => exact .refl
  | draw => exact .refl
  | settle update v => exact .refl

end Action

theorem Body.eq_array_of_isArray {b : Body} (h : b.isArray) : b = .array := by
  cases b <;> first | rfl | cases h

/-! ## Tidy stores -/

/-- The length of every array is in step with its indexes, and the frames in which properties are looked up are
there. -/
structure Store.Tidy (s : Store) : Prop where
  inStep (o : ObjectId) : (s.body o).isArray → ∃ n, (s.frame (s.propsOf o)).InStep n
  grounded (f : FrameId) : s.Anchored f → ∀ n, ∀ g ∈ s.ancestors n f, g < s.frames.size

namespace Store

variable {s t : Store} {f g : FrameId} {n : Nat}

/-- The frame of an array is there. -/
theorem lt_size_of_inStep (h : (s.frame f).InStep n) : f < s.frames.size := by
  refine Nat.lt_of_not_le fun hle => ?_
  have hrole := h.role
  rw [frame_of_size_le hle] at hrole
  cases hrole

/-- What a frame holds itself is found first. -/
theorem find?_of_lookup? {k : Key} {v : Value} (h : (s.frame f).lookup? k = some v) : s.find? f k = some v := by
  rw [find?, chain, ancestors, List.findSome?_cons, h]

theorem findSome?_congr {α β : Type} {as : List α} {p q : α → Option β} (h : ∀ a ∈ as, p a = q a) :
    as.findSome? p = as.findSome? q := by
  induction as with
  | nil => rfl
  | cons a as ih =>
    rw [List.findSome?_cons, List.findSome?_cons, h a List.mem_cons_self,
      ih fun b hb => h b (List.mem_cons_of_mem a hb)]

/-- Chains depend on the parents of their frames. -/
theorem ancestors_congr (h : ∀ g ∈ s.ancestors n f, (t.frame g).parent = (s.frame g).parent) :
    t.ancestors n f = s.ancestors n f := by
  induction n generalizing f with
  | zero => rfl
  | succ n ih =>
    rw [ancestors, ancestors, h f List.mem_cons_self]
    cases hparent : (s.frame f).parent with
    | none => rfl
    | some p =>
      have hrest : t.ancestors n p = s.ancestors n p := by
        refine ih fun g hg => h g ?_
        rw [ancestors, hparent]
        exact List.mem_cons_of_mem f hg
      simp only [hrest]

/-- A chain whose frames are there does not change when frames are added. -/
theorem Extends.ancestors (h : Extends s t) (hf : ∀ g ∈ s.ancestors n f, g < s.frames.size) :
    t.ancestors n f = s.ancestors n f := by
  refine ancestors_congr fun g hg => ?_
  rw [h.frame g (hf g hg)]

theorem frame_addFrame (s : Store) (fr : Frame) : (s.addFrame fr).2.frame s.frames.size = fr := by
  simp [addFrame, frame]

theorem parent_modifyFrame (s : Store) (f : FrameId) {c : Frame → Frame} (hc : ∀ fr : Frame, fr.Alike (c fr))
    (g : FrameId) : ((s.modifyFrame f c).frame g).parent = (s.frame g).parent := by
  by_cases hg : g < s.frames.size
  · by_cases he : f = g
    · subst he
      rw [frame_modifyFrame_self s f c hg]
      exact (hc _).parent
    · rw [frame_modifyFrame_of_ne s c he]
  · have hle := Nat.le_of_not_lt hg
    rw [frame_of_size_le hle, frame_of_size_le (by simpa using hle)]

namespace Tidy

theorem frame (h : s.Tidy) (f : FrameId) {c : Frame → Frame} (halike : ∀ fr : Frame, fr.Alike (c fr))
    (hlength : ∀ n, (s.frame f).InStep n → ∃ m, (c (s.frame f)).InStep m) : (s.modifyFrame f c).Tidy where
  inStep o ho := by
    obtain ⟨n, hn⟩ := h.inStep o ho
    change ∃ n, ((s.modifyFrame f c).frame (s.propsOf o)).InStep n
    by_cases he : f = s.propsOf o
    · subst he
      rw [frame_modifyFrame_self s _ c (lt_size_of_inStep hn)]
      exact hlength n hn
    · rw [frame_modifyFrame_of_ne s c he]
      exact ⟨n, hn⟩
  grounded f' hf' n g hg := by
    rw [ancestors_congr fun g _ => parent_modifyFrame s f halike g] at hg
    rw [size_modifyFrame]
    exact h.grounded f' hf' n g hg

theorem scope (h : s.Tidy) (fr : Frame) : (s.addFrame fr).2.Tidy where
  inStep o ho := by
    obtain ⟨n, hn⟩ := h.inStep o ho
    exact ⟨n, by rwa [← (Extends.addFrame s fr).frame _ (lt_size_of_inStep hn)] at hn⟩
  grounded f hf n g hg := by
    rw [(Extends.addFrame s fr).ancestors (h.grounded f hf n)] at hg
    exact Nat.lt_of_lt_of_le (h.grounded f hf n g hg) (Extends.addFrame s fr).size

/-- Where a new object finds its properties: in its own frame, and then where the lookup could go before. -/
theorem grounded_addFrame (h : s.Tidy) {fr : Frame} (hparent : ∀ p, fr.parent = some p → s.Anchored p) (n : Nat)
    (hg : g ∈ (s.addFrame fr).2.ancestors n s.frames.size) : g < (s.addFrame fr).2.frames.size := by
  cases n with
  | zero => cases hg
  | succ n =>
    rw [ancestors, frame_addFrame] at hg
    obtain rfl | hg := List.mem_cons.1 hg
    · simp [Store.addFrame]
    · cases hp : fr.parent with
      | none =>
        rw [hp] at hg
        cases hg
      | some p =>
        rw [hp] at hg
        exact (h.scope fr).grounded p (hparent p hp) n g hg

theorem object (h : s.Tidy) (proto : Option ObjectId) (body : Body) {fr : Frame}
    (hparent : ∀ p, fr.parent = some p → s.Anchored p) (hlength : body.isArray → ∃ n, fr.InStep n) :
    ((s.addFrame fr).2.addObject { proto, props := s.frames.size, body }).2.Tidy where
  inStep o ho := by
    simp only [Store.body, propsOf, Next.object_addObject] at ho ⊢
    change ∃ n, ((s.addFrame fr).2.frame _).InStep n
    by_cases hnew : o = (s.addFrame fr).2.objects.size
    · rw [if_pos hnew] at ho ⊢
      rw [frame_addFrame]
      exact hlength ho
    · rw [if_neg hnew] at ho ⊢
      exact (h.scope fr).inStep o ho
  grounded f hf n g hg := by
    have hancestors : ((s.addFrame fr).2.addObject { proto, props := s.frames.size, body }).2.ancestors n f =
        (s.addFrame fr).2.ancestors n f := ancestors_congr fun _ _ => rfl
    rw [hancestors] at hg
    obtain rfl | ⟨o, rfl⟩ := hf
    · exact (h.scope fr).grounded _ (.inl rfl) n g hg
    · simp only [propsOf, Next.object_addObject] at hg
      by_cases hnew : o = (s.addFrame fr).2.objects.size
      · rw [if_pos hnew] at hg
        exact h.grounded_addFrame hparent n hg
      · rw [if_neg hnew] at hg
        exact (h.scope fr).grounded _ (.inr ⟨o, rfl⟩) n g hg

theorem body (h : s.Tidy) (o : ObjectId) {change : Object → Object}
    (hchange : ∀ x, (change x).props = x.props ∧ (change x).body.isArray = x.body.isArray) :
    (s.modifyObject o change).Tidy := by
  have hprops (o' : ObjectId) : (s.modifyObject o change).propsOf o' = s.propsOf o' := by
    obtain he | he := Next.object_modifyObject s o change o'
    · rw [propsOf, propsOf, he]
    · rw [propsOf, propsOf, he, (hchange _).1]
  have hbody (o' : ObjectId) : ((s.modifyObject o change).body o').isArray = (s.body o').isArray := by
    obtain he | he := Next.object_modifyObject s o change o'
    · rw [Store.body, Store.body, he]
    · rw [Store.body, Store.body, he, (hchange _).2]
  constructor
  · intro o' ho'
    rw [hbody] at ho'
    rw [hprops]
    exact h.inStep o' ho'
  · intro f hf n g hg
    have hanchored : s.Anchored f := by
      refine hf.imp_right ?_
      rintro ⟨o', ho'⟩
      exact ⟨o', (hprops o').symm.trans ho'⟩
    rw [show (s.modifyObject o change).ancestors n f = s.ancestors n f from ancestors_congr fun _ _ => rfl] at hg
    exact h.grounded f hanchored n g hg

/-- A change keeps a store tidy. -/
theorem change (h : s.Tidy) (hst : s.Change t) : t.Tidy := by
  cases hst with
  | frame f c halike hlength => exact h.frame f halike hlength
  | scope parent role => exact h.scope _
  | object proto body fr hparent _ hlength => exact h.object proto body hparent hlength
  | body o change hchange => exact h.body o hchange

theorem changes (h : s.Tidy) (hst : s.Changes t) : t.Tidy := by
  induction hst with
  | refl => exact h
  | tail _ hlast ih => exact ih.change hlast

end Tidy

end Store

/-! ## New arrays -/

/-- The state with a further array. -/
def State.withArray (s : State) (proto : Option ObjectId) (values : List Value) : State :=
  { s with store := (s.store.addArray proto values).2 }

section NewArrays

variable {proto : Option ObjectId} {values : List Value}

theorem Store.object_addArray (s : Store) :
    (s.addArray proto values).2.object s.objects.size = { proto, props := s.frames.size, body := .array } := by
  refine (Next.object_addObject _ _ _).trans ?_
  rw [if_pos rfl]

theorem Store.frame_addArray (s : Store) :
    (s.addArray proto values).2.frame s.frames.size = Frame.ofItems (s.parentFrame proto) values :=
  frame_addFrame s _

theorem Action.perform_newArray {limits : Limits} {s : State} (proto : Option ObjectId)
    (hroom : values.length ≤ Frame.mostElements) :
    (Action.newArray proto values).perform limits s = (.ok s.store.objects.size, s.withArray proto values) := by
  rw [perform, if_neg (by simpa [demand] using hroom)]
  rfl

theorem Proc.run_newArray {limits : Limits} {bound : Nat} {handler : Handler} {s : State}
    (hroom : values.length ≤ Frame.mostElements) :
    (newArray values).run limits bound handler s =
      (.ok (.obj s.store.objects.size), s.withArray (some Realm.arrayPrototype) values) :=
  run_then (run_perform (Action.perform_newArray _ hroom)) rfl

theorem Engine.store_run_newArray (e : Engine) (hroom : values.length ≤ Frame.mostElements) :
    (e.run (Proc.newArray values)).2.store = (e.store.addArray (some Realm.arrayPrototype) values).2 := by
  have hrun : (Proc.newArray values).runIn e.limits e.fuel e.state =
      (.ok (.obj e.state.store.objects.size), e.state.withArray (some Realm.arrayPrototype) values) :=
    Proc.run_newArray hroom
  rw [run, hrun]
  rfl

end NewArrays

/-! ## Tidy stores at every moment -/

/-- The setup adds arrays without elements. -/
theorem Setup.changes_add (s : Store) (proto : Option ObjectId) {body : Body} {props : Option FrameId → Frame}
    (hpiece : Setup.Piece body props) : s.Changes (s.addWith proto body props).2 := by
  refine .addWith s proto body props hpiece.inherits fun ha parent => ?_
  rw [hpiece.empty ha]
  exact ⟨0, .ofItems parent (Nat.zero_le _)⟩

/-- Where the setup binds what may be an element, there is no array. -/
theorem Setup.changes_define {s : Store} (hs : (s.frame Realm.core).role = .core) {f : FrameId} {k : Key}
    (hk : f = Realm.core ∨ k.isOrdinary) (v : Value) : s.Changes (s.modifyFrame f (·.define k v)) := by
  obtain rfl | hk := hk
  · refine .single (.frame Realm.core _ (fun fr => .define fr k v) fun n hn => ?_)
    have hrole := hn.role
    rw [hs] at hrole
    cases hrole
  · exact .define s f hk v

/-- The steps of the setup keep stores tidy, given that they are sound. -/
theorem Setup.kept_tidy : Setup.Kept fun s => s.Sound (fun _ => True) ∧ s.Tidy where
  add {s} proto _ _ hpiece hs :=
    ⟨Setup.kept_sound.add proto hpiece hs.1, hs.2.changes (Setup.changes_add s proto hpiece)⟩
  define f _ v hk hproper hs :=
    ⟨Setup.kept_sound.define f v hk hproper hs.1, hs.2.changes (Setup.changes_define hs.1.core_role hk v)⟩

/-- Frames that have no parents end every chain. -/
theorem Store.mem_ancestors_of_parent {s : Store} {f g : FrameId} {n : Nat} (h : (s.frame f).parent = none)
    (hg : g ∈ s.ancestors n f) : g = f := by
  cases n with
  | zero => cases hg
  | succ n =>
    rw [ancestors, h] at hg
    exact List.mem_singleton.1 hg

theorem Setup.first_tidy (host : Host) : (Setup.first host).Tidy := by
  have hobject (o : ObjectId) : (first host).object o = { proto := none, props := 1, body := .plain } := by
    have hadd := Store.Next.object_addObject
      (({ frames := #[{ role := .core }], host } : Store).addFrame { parent := none }).2
      { proto := none, props := 1, body := .plain } o
    refine hadd.trans ?_
    split <;> rfl
  constructor
  · intro o ho
    rw [Store.body, hobject] at ho
    cases ho
  · intro f hf n g hg
    obtain rfl | ⟨o, rfl⟩ := hf
    · rw [Store.mem_ancestors_of_parent rfl hg]
      exact Nat.zero_lt_two
    · rw [Store.propsOf, hobject] at hg
      rw [Store.mem_ancestors_of_parent rfl hg]
      exact Nat.one_lt_two

namespace Engine

variable {scopes : List FrameId} {e : Engine}

theorem tidy_new (settings : Settings) (host : Host) (services : List (Text × Service)) :
    (new settings host services).store.Tidy := by
  have hfirst : (Setup.first host).Sound fun _ => True := Setup.kept_sound.addPlain none .plain rfl rfl rfl
    ⟨rfl, rfl, fun _ _ => trivial, fun _ => Nat.one_ne_zero, fun _ => trivial⟩
  have hinitial := Setup.kept_tidy.initial_of_first host ⟨hfirst, Setup.first_tidy host⟩
  have hs := (Setup.kept_tidy.services services hinitial).2
  simp only [new, store]
  split
  · exact hs.changes (.sealFrom true _ _ _)
  · exact hs

/-- A tidy store stays so at every moment of a run. -/
theorem steady_tidy (limits : Limits) : Steady limits fun _ s => s.store.Tidy where
  act a h := h.changes (a.changes limits _)
  enterCall _ _ _ _ h _ := h
  leaveCall h := h
  construct _ _ _ := Iff.rfl

/-- The store is tidy throughout a run and after it. -/
theorem throughout_tidy {α : Type} (h : e.store.Tidy) (p : Proc α) :
    Throughout (fun _ s => s.store.Tidy) [] (p.observeIn e.limits e.fuel e.state) :=
  (steady_tidy e.limits).observe
    (fun r s hs => (steady_tidy e.limits).observeAnswer e.fuel e.limits.stack r s hs) p e.state h

theorem tidy_run {α : Type} (h : e.store.Tidy) (p : Proc α) : (e.run p).2.store.Tidy := by
  have hfinal := (throughout_tidy h p).final
  rwa [Proc.observeIn_snd] at hfinal

theorem Reached.tidy (h : Reached scopes e) : e.store.Tidy := by
  induction h with
  | new settings host services fuel => exact tidy_new settings host services
  | opened h hdesk hd ih => exact tidy_run ih _
  | worked h hp ih => exact tidy_run ih _
  | registered h name f ih =>
    unfold Session.register
    split
    · exact ih
    · exact (Setup.kept_tidy.service name f ⟨h.held.sound, ih⟩).2
  | restricted h flag ih => exact ih.changes (.sealFrom flag _ _ _)
  | collected h ih => exact ih

/-- The states of the engines that a host can reach: between the runs, and during and after the run of any
computation. -/
inductive Moment : State → Prop
  | between {scopes : List FrameId} {e : Engine} (h : Reached scopes e) : Moment e.state
  | during {scopes : List FrameId} {e : Engine} {α : Type} {p : Proc α} {o : Occurrence} (h : Reached scopes e)
      (ho : o ∈ e.record p) : Moment o.state
  | after {scopes : List FrameId} {e : Engine} {α : Type} (p : Proc α) (h : Reached scopes e) :
      Moment (e.run p).2.state

theorem Moment.tidy {s : State} (h : Moment s) : s.store.Tidy := by
  cases h with
  | between h => exact h.tidy
  | during h ho => exact (throughout_tidy h.tidy _).moments _ ho
  | after p h => exact tidy_run h.tidy p

/-- At every moment, between the runs of an engine and during them, every array has a length of its own. The
length is a natural number, which the double that is bound tells exactly, and every index that the array has
of its own is below it. -/
theorem Moment.array_length {s : State} (h : Moment s) {o : ObjectId} (ho : (s.store.body o).isArray) :
    ∃ n, s.store.hasOwn o Key.length ∧ s.store.getProperty o Key.length = .num (Number.ofNat n) ∧
      Number.isInteger (Number.ofNat n) ∧ Number.truncate (Number.ofNat n) = n ∧ s.store.arrayLength o = n ∧
      ∀ i, (s.store.frame (s.store.propsOf o)).holds (.index i) → i < n := by
  obtain ⟨n, hn⟩ := h.tidy.inStep o ho
  have hbody : s.store.body o = .array := Body.eq_array_of_isArray ho
  refine ⟨n, ?_, ?_, Number.isInteger_ofNat hn.room, Number.truncate_ofNat hn.room, hn.length_eq, hn.below⟩
  · simp [Store.hasOwn, hbody, Frame.contains, Frame.holds, hn.bound, hn.hidden]
  · rw [Store.getProperty, hbody, Store.find?_of_lookup? hn.bound]
    rfl

/-- A new array with two elements. -/
theorem Moment.array_length_two :
    let e := ((Engine.new {} {} []).run (Proc.newArray [.null, .null])).2
    let o := (Engine.new {} {} []).store.objects.size
    (e.store.body o).isArray ∧ e.store.getProperty o Key.length = .num (Number.ofNat 2) ∧
      ∀ i, (e.store.frame (e.store.propsOf o)).holds (.index i) → i < 2 := by
  intro e o
  have hroom : [Value.null, Value.null].length ≤ Frame.mostElements := by decide
  have hstore : e.store = _ := (Engine.new {} {} []).store_run_newArray hroom
  have harray : (e.store.body o).isArray := by
    rw [hstore, Store.body, Store.object_addArray]
    rfl
  have hlength : e.store.arrayLength o = 2 := by
    rw [hstore, Store.arrayLength, Store.propsOf, Store.object_addArray, Store.frame_addArray,
      (Frame.InStep.ofItems _ hroom).length_eq]
    rfl
  obtain ⟨n, -, hproperty, -, -, hn, hbelow⟩ := (Moment.after _ (.new {} {} [] _)).array_length harray
  obtain rfl : n = 2 := hn.symm.trans hlength
  exact ⟨harray, hproperty, hbelow⟩

end Engine

end ScriptEngine
