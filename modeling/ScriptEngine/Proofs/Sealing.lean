import ScriptEngine.Proofs.Frames
import ScriptEngine.Proofs.Run
import ScriptEngine.Proofs.Setup

/-!
# Sealed frames

A sealed frame stays as it is, bindings, order and marks: an action either refuses to touch it, or touches
another frame, or only adds to the store. Since computations change the store through actions alone, no
program can change a sealed frame, however it ends. The frames that the settings seal when an engine is made
are among them, and the scope of the built-in names is one of those.

## Main definitions

* `Store.Extends`: a store with further frames.
* `Store.FrameStep`: what can be done to the frames of a store at once.
* `KeepsSealed`, `SameSeals`: what runs do to sealed frames, and to seals.

## Main results

* `Action.frameStep`: what an action does to frames.
* `Action.perform_sealed`: an action leaves sealed frames alone.
* `Engine.run_keepsSealed`: so does every piece of work for the host.
* `Action.perform_append_of_sealed` and the like: what would change a sealed frame is refused.
-/

namespace ScriptEngine

variable {α : Type} {limits : Limits}

namespace Store

/-! ## Frames after a change -/

@[simp] theorem frame_modifyFrame_self (s : Store) (f : FrameId) (g : Frame → Frame) (h : f < s.frames.size) :
    (s.modifyFrame f g).frame f = g (s.frame f) := by
  simp [frame, modifyFrame, Array.getD_eq_getD_getElem?, h, Array.getElem_modify]

theorem frame_modifyFrame_of_ne (s : Store) {f f' : FrameId} (g : Frame → Frame) (h : f ≠ f') :
    (s.modifyFrame f g).frame f' = s.frame f' := by
  simp [frame, modifyFrame, Array.getD_eq_getD_getElem?, Array.getElem?_modify, h]

@[simp] theorem size_modifyFrame (s : Store) (f : FrameId) (g : Frame → Frame) :
    (s.modifyFrame f g).frames.size = s.frames.size := Array.size_modify

/-- A frame that is sealed is there. -/
theorem lt_size_of_sealed {s : Store} {f : FrameId} (h : (s.frame f).sealed) : f < s.frames.size := by
  refine Nat.lt_of_not_le fun hle => ?_
  simp [frame, Array.getD_eq_getD_getElem?, Array.getElem?_eq_none hle] at h

/-! ## Adding to the store -/

/-- A store that has the frames of another one, and perhaps further ones. -/
structure Extends (s t : Store) : Prop where
  size : s.frames.size ≤ t.frames.size
  frame (f : FrameId) : f < s.frames.size → t.frame f = s.frame f

namespace Extends

variable {s t u : Store}

theorem refl (s : Store) : Extends s s := ⟨Nat.le_refl _, fun _ _ => rfl⟩

theorem trans (h : Extends s t) (h' : Extends t u) : Extends s u where
  size := Nat.le_trans h.size h'.size
  frame f hf := (h'.frame f (Nat.lt_of_lt_of_le hf h.size)).trans (h.frame f hf)

theorem addFrame (s : Store) (fr : Frame) : Extends s (s.addFrame fr).2 where
  size := by simp [Store.addFrame]
  frame f hf := by
    simp [Store.addFrame, Store.frame, Array.getD_eq_getD_getElem?, Array.getElem?_push, Nat.ne_of_lt hf]

/-- A change of a frame that was not there before. -/
theorem modifyFrame (h : Extends s t) {f : FrameId} (hf : s.frames.size ≤ f) (g : Frame → Frame) :
    Extends s (t.modifyFrame f g) where
  size := by simpa using h.size
  frame f' hf' := by
    have hne : f ≠ f' := Ne.symm (Nat.ne_of_lt (Nat.lt_of_lt_of_le hf' hf))
    rw [frame_modifyFrame_of_ne t g hne]
    exact h.frame f' hf'

theorem addObject (h : Extends s t) (o : Object) : Extends s (t.addObject o).2 := ⟨h.size, h.frame⟩

theorem addWith (s : Store) (proto : Option ObjectId) (body : Body) (props : Option FrameId → Frame) :
    Extends s (s.addWith proto body props).2 := (addFrame s _).addObject _

end Extends

/-- The properties of a new object are in a new frame. -/
theorem propsOf_addWith (s : Store) (proto : Option ObjectId) (body : Body) (props : Option FrameId → Frame) :
    (s.addWith proto body props).2.propsOf (s.addWith proto body props).1 = s.frames.size := by
  simp [Store.addWith, Store.addFrame, Store.addObject, Store.propsOf, Store.object]

/-- The objects that were there keep their frames of properties. -/
theorem propsOf_addWith_of_lt (s : Store) (proto : Option ObjectId) (body : Body)
    (props : Option FrameId → Frame) {o : ObjectId} (h : o < s.objects.size) :
    (s.addWith proto body props).2.propsOf o = s.propsOf o := by
  simp [Store.addWith, Store.addFrame, Store.addObject, Store.propsOf, Store.object,
    Array.getD_eq_getD_getElem?, Array.getElem?_push, Nat.ne_of_lt h]

theorem Extends.addProgramScope (s : Store) : Extends s s.addProgramScope.2 := by
  have h : Extends s (s.addFrame { parent := some Realm.core, role := .program }).2 := .addFrame s _
  exact (h.addObject _).modifyFrame (Nat.le_refl s.frames.size) _

/-- The function and the object it constructs with lead to each other through frames that are new. -/
theorem Extends.addClosure (s : Store) (name : Text) (params : List Text) (body : List Stmt) (scope : FrameId)
    (runner : RunnerId) (selfBound : Bool) :
    Extends s (s.addClosure name params body scope runner selfBound).2 := by
  let callable : Callable := .script params body scope runner (selfBound && !name.isEmpty)
  let s₁ := (s.addFunction Realm.functionPrototype name params.length callable).2
  let s₂ := (s₁.addPlain (some Realm.objectPrototype) .plain).2
  have h₁ : Extends s s₁ := .addWith _ _ _ _
  have h₂ : Extends s₁ s₂ := .addWith _ _ _ _
  have hproto : s₂.propsOf s₁.objects.size = s₁.frames.size := propsOf_addWith _ _ _ _
  have hfunction : s₂.propsOf s.objects.size = s.frames.size := by
    have hlt : s.objects.size < s₁.objects.size := by
      simp [s₁, addFunction, Store.addWith, Store.addFrame, Store.addObject]
    exact (propsOf_addWith_of_lt _ _ _ _ hlt).trans (propsOf_addWith _ _ _ _)
  -- The frames of the two objects are changed once more, after both are there.
  refine ((h₁.trans h₂).modifyFrame ?_ _).modifyFrame ?_ _
  · exact Nat.le_trans h₁.size (Nat.le_of_eq hproto.symm)
  · exact Nat.le_of_eq hfunction.symm

end Store

/-! ## What an action does to frames -/

namespace Frame

theorem sealed_write (f : Frame) (k : Key) (v : Value) : (f.write k v).sealed = f.sealed :=
  sealed_of_reworked (.write trivial trivial f v)

theorem sealed_resize (f : Frame) (n : Nat) : (f.resize n).sealed = f.sealed :=
  sealed_of_reworked (.resize trivial (fun _ => trivial) f n)

theorem sealed_refill (f : Frame) (values : List Value) : (f.refill values).sealed = f.sealed :=
  sealed_of_reworked (.refill (fun _ => trivial) trivial (fun _ => trivial) f values)

theorem sealed_append (f : Frame) (values : List Value) : (f.append values).sealed = f.sealed :=
  sealed_of_reworked (.append (fun _ => trivial) trivial f values)

end Frame

/-- What is done to the frames that were there: nothing, or one that is not sealed is changed, and not sealed by it. -/
inductive Store.FrameStep (s : Store) : Store → Prop
  | grown {t : Store} (h : s.Extends t) : FrameStep s t
  | frame (f : FrameId) (g : Frame → Frame) (hopen : ¬(s.frame f).sealed) (hg : ∀ fr : Frame, (g fr).sealed = fr.sealed) :
    FrameStep s (s.modifyFrame f g)

namespace Store.FrameStep

variable {s t : Store} {f : FrameId}

theorem refl (s : Store) : s.FrameStep s := .grown (.refl s)

theorem size (h : s.FrameStep t) : s.frames.size ≤ t.frames.size := by
  cases h with
  | grown h => exact h.size
  | frame f g _ _ => exact Nat.le_of_eq (size_modifyFrame s f g).symm

/-- A sealed frame is as it was. -/
theorem frame_eq (h : s.FrameStep t) (hf : (s.frame f).sealed) : t.frame f = s.frame f := by
  cases h with
  | grown h => exact h.frame f (lt_size_of_sealed hf)
  | frame f' g hopen _ =>
    have hne : f' ≠ f := fun he => hopen (he ▸ hf)
    exact frame_modifyFrame_of_ne s g hne

/-- What was there is sealed if it was sealed before. -/
theorem sealed_eq (h : s.FrameStep t) (hf : f < s.frames.size) : (t.frame f).sealed = (s.frame f).sealed := by
  cases h with
  | grown h => rw [h.frame f hf]
  | frame f' g _ hg =>
    by_cases he : f' = f
    · subst he
      rw [frame_modifyFrame_self s f' g hf, hg]
    · rw [frame_modifyFrame_of_ne s g he]

end Store.FrameStep

namespace Action

theorem frameStep_changeFrame (s : State) (f : FrameId) (blame : Frame → Key) {g : Frame → Frame}
    (hg : ∀ fr : Frame, (g fr).sealed = fr.sealed) : s.store.FrameStep (changeFrame s f blame g).2.store := by
  simp only [changeFrame]
  split
  · exact .refl _
  · rename_i hopen
    exact .frame f g hopen hg

theorem frameStep_grow (s : State) (g : Store → Nat × Store) (h : s.store.Extends (g s.store).2) :
    s.store.FrameStep (grow s g).2.store := .grown h

/-- An action changes one frame that is not sealed, or only adds to the store. -/
theorem frameStep (limits : Limits) (s : State) (a : Action) : s.store.FrameStep (a.perform limits s).2.store := by
  obtain hroom | hroom := perform_eq limits s a
  · rw [hroom]
    exact .refl _
  rw [hroom]
  cases a with
  | put f k v => exact frameStep_changeFrame s f _ fun fr => fr.sealed_write k v
  | resize f n => exact frameStep_changeFrame s f _ fun fr => fr.sealed_resize n
  | refill f items => exact frameStep_changeFrame s f _ fun fr => fr.sealed_refill items
  | append f items =>
      by_cases hi : items.isEmpty
      · simpa [enact, hi] using .refl _
      · simpa [enact, hi] using frameStep_changeFrame s f (fun fr => .index fr.length) fun fr => fr.sealed_append items
  | remove f k =>
      simp only [enact]
      split
      · exact .refl _
      · split
        · exact .refl _
        · rename_i hopen
          exact .frame f _ hopen fun _ => rfl
  | openScope parent role => exact frameStep_grow s _ (.addFrame _ _)
  | openProgram => exact frameStep_grow s _ (.addProgramScope _)
  | newObject proto => exact frameStep_grow s _ (.addWith _ _ _ _)
  | newBoxed b => exact frameStep_grow s _ (.addWith _ _ _ _)
  | newArray proto items => exact frameStep_grow s _ (.addWith _ _ _ _)
  | newArguments items callee => exact frameStep_grow s _ (.addWith _ _ _ _)
  | newError kind message => exact frameStep_grow s _ (.addWith _ _ _ _)
  | newRegExp source flags => exact frameStep_grow s _ (.addWith _ _ _ _)
  | newClosure name params body scope runner selfBound => exact frameStep_grow s _ (.addClosure _ _ _ _ _ _ _)
  | newBound target this args => exact frameStep_grow s _ (.addWith _ _ _ _)
  | setTime o ms => exact .grown ⟨Nat.le_refl _, fun _ _ => rfl⟩
  | tick runner kind =>
      simp only [enact, count, apply_ite Prod.snd, ite_self]
      split <;> exact .refl _
  | start update =>
      simp only [enact]
      split <;> exact .refl _
  | _ => exact .refl _

/-- An action leaves sealed frames alone. -/
theorem perform_sealed (s : State) (a : Action) {f : FrameId} (h : (s.store.frame f).sealed) :
    (a.perform limits s).2.store.frame f = s.store.frame f := (frameStep limits s a).frame_eq h

/-! ## Refused changes -/

@[simp]
theorem room_of_unsealed {s : State} {f : FrameId} (h : (s.store.frame f).sealed = false) (n : Nat) : room s f n = n := by
  simp [room, h]

@[simp]
theorem room_of_sealed {s : State} {f : FrameId} (h : (s.store.frame f).sealed = true) (n : Nat) : room s f n = 0 := by
  simp [room, h]

theorem room_le (s : State) (f : FrameId) (n : Nat) : room s f n ≤ n := by
  unfold room
  split <;> omega

section

variable {s : State} {f : FrameId} (h : (s.store.frame f).sealed = true)

include h

theorem changeFrame_of_sealed (blame : Frame → Key) (g : Frame → Frame) :
    changeFrame s f blame g = (.error (.sealed (blame (s.store.frame f))), s) := if_pos h

/-- Changes of a sealed frame are refused, whatever room they would ask for. -/
theorem perform_put_of_sealed (k : Key) (v : Value) :
    (put f k v).perform limits s = (.error (.sealed k), s) := by
  rw [perform, if_neg (by simp [demand, h])]
  exact changeFrame_of_sealed h (fun _ => k) (·.write k v)

theorem perform_resize_of_sealed (n : Nat) :
    (resize f n).perform limits s = (.error (.sealed ((s.store.frame f).resizeBlame n)), s) := by
  rw [perform, if_neg (by simp [demand])]
  exact changeFrame_of_sealed h (·.resizeBlame n) (·.resize n)

theorem perform_refill_of_sealed (items : List Value) :
    (refill f items).perform limits s = (.error (.sealed ((s.store.frame f).resizeBlame 0)), s) := by
  rw [perform, if_neg (by simp [demand, h])]
  exact changeFrame_of_sealed h (·.resizeBlame 0) (·.refill items)

theorem perform_append_of_sealed {items : List Value} (hne : items ≠ []) :
    (append f items).perform limits s = (.error (.sealed (.index (s.store.frame f).length)), s) := by
  have henact : (append f items).enact limits s = changeFrame s f (fun fr => .index fr.length) (·.append items) :=
    if_neg (by simpa using hne)
  rw [perform, if_neg (by simp [demand, h])]
  exact henact.trans (changeFrame_of_sealed h _ _)

end

end Action

/-- Every frame that was sealed before is as it was. -/
def KeepsSealed (s t : State) : Prop := ∀ f, (s.store.frame f).sealed → t.store.frame f = s.store.frame f

theorem lasting_keepsSealed (limits : Limits) : Lasting limits KeepsSealed where
  refl _ _ _ := rfl
  trans h h' f hf := by
    have hmid := h f hf
    rw [h' f (by rw [hmid]; exact hf), hmid]
  act s a _ hf := a.perform_sealed s hf
  call h := h

/-- What was there is sealed after a run if it was sealed before. -/
structure SameSeals (s t : State) : Prop where
  size : s.store.frames.size ≤ t.store.frames.size
  sealed (f : FrameId) : f < s.store.frames.size → (t.store.frame f).sealed = (s.store.frame f).sealed

theorem lasting_sameSeals (limits : Limits) : Lasting limits SameSeals where
  refl _ := ⟨Nat.le_refl _, fun _ _ => rfl⟩
  trans h h' :=
    ⟨Nat.le_trans h.size h'.size, fun f hf =>
      (h'.sealed f (Nat.lt_of_lt_of_le hf h.size)).trans (h.sealed f hf)⟩
  act s a := ⟨(a.frameStep limits s).size, fun _ hf => (a.frameStep limits s).sealed_eq hf⟩
  call h := ⟨h.size, h.sealed⟩

/-! ## Sealing the built-in names -/

namespace Store

/-- Sealing leaves nothing open that was sealed. -/
theorem sealFrom_sealed (n : Nat) (s : Store) (f : FrameId) {g : FrameId} (h : (s.frame g).sealed) :
    ((sealFrom true n s f).frame g).sealed := by
  induction n generalizing s f with
  | zero => exact h
  | succ n ih =>
      rw [sealFrom]
      split
      · exact h
      · rename_i hopen
        have hne : f ≠ g := fun he => hopen (he ▸ h)
        refine List.foldlRecOn _ _ ?_ fun s hs g' _ => ih s g' hs
        rw [frame_modifyFrame_of_ne s _ hne]
        exact h

/-- The frame from which sealing starts gets sealed. -/
theorem setSealed_sealed (s : Store) {f : FrameId} (h : f < s.frames.size) :
    ((s.setSealed f true).frame f).sealed := by
  rw [setSealed, sealFrom]
  split
  · assumption
  · refine List.foldlRecOn _ _ ?_ fun s hs g' _ => sealFrom_sealed _ s g' hs
    rw [frame_modifyFrame_self s f _ h]

end Store

/-- The scope of the built-in names is there from the start. -/
theorem Setup.kept_core : Setup.Kept fun s => Realm.core < s.frames.size where
  add proto body props _ hs := Nat.lt_of_lt_of_le hs (Store.Extends.addWith _ proto body props).size
  define f k v _ _ hs := by simpa using hs

/-- An engine whose settings say so has sealed built-in names. -/
theorem Engine.new_core_sealed (settings : Settings) (host : Host) (services : List (Text × Service))
    (h : settings.readOnlyCore) : ((Engine.new settings host services).store.frame Realm.core).sealed := by
  have hcore := Setup.kept_core.services services (Setup.kept_core.initial host Nat.zero_lt_one)
  simp only [Engine.new, Engine.store, h, if_true]
  exact Store.setSealed_sealed _ hcore

/-- The engine after several pieces of work, one after another. -/
def Engine.afterAll (e : Engine) (works : List (Proc α)) : Engine :=
  works.foldl (fun e work => (e.run work).2) e

theorem Engine.afterAll_keepsSealed (e : Engine) (works : List (Proc α)) :
    KeepsSealed e.state (e.afterAll works).state := by
  induction works generalizing e with
  | nil => exact (lasting_keepsSealed e.limits).refl _
  | cons work works ih =>
      have h : KeepsSealed e.state (e.run work).2.state :=
        (lasting_keepsSealed e.limits).runIn work e.fuel e.state
      exact (lasting_keepsSealed e.limits).trans h (ih _)

/-- No program changes a sealed frame, whatever state the engine is in and however the program ends. In
particular, in an engine whose settings seal the built-in names, their scope and all that was sealed with
it stay as they were through any number of programs. -/
theorem Engine.run_keepsSealed :
    (∀ (e : Engine) (work : Proc α) (f : FrameId), (e.store.frame f).sealed →
      (e.run work).2.store.frame f = e.store.frame f) ∧
    ∀ (settings : Settings) (host : Host) (services : List (Text × Service)), settings.readOnlyCore →
      let e := Engine.new settings host services
      (e.store.frame Realm.core).sealed ∧ ∀ (works : List (Proc α)) (f : FrameId), (e.store.frame f).sealed →
        (e.afterAll works).store.frame f = e.store.frame f := by
  constructor
  · intro e work
    exact (lasting_keepsSealed e.limits).runIn work e.fuel e.state
  · intro settings host services h e
    exact ⟨Engine.new_core_sealed settings host services h, fun works => e.afterAll_keepsSealed works⟩

/-- Whether a run ended because a frame is sealed. -/
def Outcome.isRefused : Outcome α → Bool
  | .fault (.sealed _) => true
  | _ => false

/-- An engine with a sealed scope in which `x` is bound. -/
def sealedEngine : Engine :=
  let scope : Frame := { role := .program, entries := [(.name "x", .null)], sealed := true }
  { state := { store := { frames := #[scope] } } }

/-- An assignment to `x`. -/
def assignment : Proc Value := runProgram 0 0 [.expr (.assign none (.ident "x") (.literal (.bool true)))]

/-- The assignment is refused, and the sealed scope is as it was; so are the built-in names of an engine that
seals them. -/
theorem Engine.run_keepsSealed_assignment :
    (sealedEngine.run assignment).1.isRefused ∧
      (sealedEngine.run assignment).2.store.frame 0 = sealedEngine.store.frame 0 ∧
      ((Engine.new { readOnlyCore := true } {} []).afterAll [assignment]).store.frame Realm.core =
        (Engine.new { readOnlyCore := true } {} []).store.frame Realm.core := by
  obtain ⟨hrun, hnew⟩ := @Engine.run_keepsSealed Value
  obtain ⟨hcore, hall⟩ := hnew { readOnlyCore := true } {} [] rfl
  exact ⟨by decide +kernel, hrun sealedEngine assignment 0 rfl, hall [assignment] Realm.core hcore⟩

end ScriptEngine
