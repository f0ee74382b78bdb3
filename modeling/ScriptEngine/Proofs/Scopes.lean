import ScriptEngine.Proofs.Frames
import ScriptEngine.Proofs.Names
import ScriptEngine.Proofs.Reading
import ScriptEngine.Proofs.Sealing

/-!
# Scopes of programs and the built-in names

A scope is *rooted* if its chain passes the scope of a program before it can come to the built-in names. In a
sound store the functions of scripts are closed over rooted scopes, and no object has the scope of the
built-in names for its properties. Therefore nothing that is written goes to that scope, except to names that
may be there, and stores stay sound under all actions that keep to this.

A computation also keeps to some rules about keys: a name that it binds is denoted by a text, and an index is bound in
a scope, among the elements of an array, or among the properties of an object that has no such character.

## Main definitions

* `Store.Rooted`: scopes inside the scope of a program.
* `Store.Later`: how stores go on: scopes, functions and arrays stay what they are.
* `Store.Sound`: stores as computations find them.
* `Store.Takes`: the keys that a computation may bind in a frame.
* `Licence`: what a computation may do, with `Licence.Allows` for its actions.

## Main results

* `Store.Sound.globalScope_ne_core`, `Store.Sound.varScope_ne_core`: where new names go.
* `Licence.next_perform`: an action that is allowed leaves the store sound.
-/

namespace ScriptEngine

/-! ## Rooted scopes -/

/-- A scope whose chain passes the scope of a program; parents are older than what they are parents of. -/
inductive Store.Rooted (s : Store) : FrameId → Prop
  | program {f : FrameId} (h : (s.frame f).role = .program) (hp : (s.frame f).parent = some Realm.core) : Rooted s f
  | inner {f p : FrameId} (h : (s.frame f).parent = some p) (hlt : p < f) (hp : Rooted s p) : Rooted s f

/-- A store after another one: no scope, function or array has gone or has become another. -/
structure Store.Later (s t : Store) : Prop where
  size : s.frames.size ≤ t.frames.size
  alike (f : FrameId) : f < s.frames.size → (s.frame f).Alike (t.frame f)
  function (o : ObjectId) : (s.body o).isCallable → t.body o = s.body o
  array (o : ObjectId) : (s.body o).isArray → (t.body o).isArray ∧ t.propsOf o = s.propsOf o

namespace Store

variable {s t u : Store} {f g : FrameId}

/-- A frame that is not there has no parent and no role. -/
theorem frame_of_size_le (h : s.frames.size ≤ f) : s.frame f = {} := by
  simp [frame, Array.getD_eq_getD_getElem?, Array.getElem?_eq_none h]

theorem Rooted.lt_size (h : s.Rooted f) : f < s.frames.size := by
  refine Nat.lt_of_not_le fun hle => ?_
  cases h with
  | program h hp => simp [frame_of_size_le hle] at h
  | inner h hlt hp => simp [frame_of_size_le hle] at h

theorem Later.refl (s : Store) : s.Later s := ⟨Nat.le_refl _, fun _ _ => .refl _, fun _ _ => rfl, fun _ ho => ⟨ho, rfl⟩⟩

theorem Later.trans (h : s.Later t) (h' : t.Later u) : s.Later u where
  size := Nat.le_trans h.size h'.size
  alike f hf := (h.alike f hf).trans (h'.alike f (Nat.lt_of_lt_of_le hf h.size))
  function o ho := by
    have hmid := h.function o ho
    rw [h'.function o (by rwa [hmid]), hmid]
  array o ho := by
    obtain ⟨hmid, hprops⟩ := h.array o ho
    obtain ⟨hlast, hprops'⟩ := h'.array o hmid
    exact ⟨hlast, hprops'.trans hprops⟩

theorem Rooted.later (h : s.Rooted f) (hst : s.Later t) : t.Rooted f := by
  induction h with
  | @program f h hp =>
      have halike := hst.alike f (Rooted.lt_size (.program h hp))
      exact .program (halike.role.trans h) (halike.parent.trans hp)
  | @inner f p h hlt hp ih =>
      exact .inner ((hst.alike f (Rooted.lt_size (.inner h hlt hp))).parent.trans h) hlt ih

/-- A chain that is rooted meets the scope of a program. -/
theorem Rooted.exists_program (h : s.Rooted f) {n : Nat} (hn : f < n) :
    ∃ g ∈ s.ancestors n f, (s.frame g).role = .program := by
  induction h generalizing n with
  | @program f h hp =>
      obtain ⟨n, rfl⟩ := Nat.exists_eq_add_one_of_ne_zero (Nat.ne_zero_of_lt hn)
      exact ⟨f, by simp [ancestors], h⟩
  | @inner f p h hlt hp ih =>
      obtain ⟨n, rfl⟩ := Nat.exists_eq_add_one_of_ne_zero (Nat.ne_zero_of_lt hn)
      obtain ⟨g, hg, hrole⟩ := ih (Nat.lt_of_lt_of_le hlt (Nat.le_of_lt_succ hn))
      exact ⟨g, by simp [ancestors, h, hg], hrole⟩

/-- On a rooted chain a search that stops at the scope of a program finds what it looks for. -/
theorem Rooted.nearest_spec (h : s.Rooted f) {p : Frame.Role → Bool} (hp : p .program) :
    s.nearest f p ∈ s.chain f ∧ p (s.frame (s.nearest f p)).role := by
  obtain ⟨g, hg, hrole⟩ := h.exists_program (Nat.lt_succ_self f)
  have hsome : ((s.chain f).find? fun g => p (s.frame g).role).isSome :=
    List.find?_isSome.2 ⟨g, hg, by simp [hrole, hp]⟩
  obtain ⟨g', hg'⟩ := Option.isSome_iff_exists.1 hsome
  have hnearest : s.nearest f p = g' := by simp [nearest, hg']
  rw [hnearest]
  exact ⟨List.mem_of_find?_eq_some hg', by simpa using List.find?_some hg'⟩

/-- A scope that holds a key is on the chain and has the key bound. -/
theorem mem_chain_of_owner? {k : Key} (h : s.owner? f k = some (.scope g)) :
    g ∈ s.chain f ∧ (s.frame g).holds k := by
  obtain ⟨g', hmem, hg'⟩ := List.exists_of_findSome?_eq_some h
  unfold levelOwner? at hg'
  split at hg'
  · split at hg'
    · cases hg'
    · split at hg'
      · cases hg'
        exact ⟨hmem, ‹_›⟩
      · cases hg'
  · split at hg'
    · cases hg'
      exact ⟨hmem, ‹_›⟩
    · cases hg'

end Store

/-! ## Keys that are bound -/

/-- A character of a string is fixed. -/
theorem Body.isSome_fixed?_of_mem {b : Body} {k : Key} (h : k ∈ b.characterKeys) : (b.fixed? k).isSome := by
  cases b with
  | string t =>
    obtain ⟨i, hi, rfl⟩ := List.mem_map.1 h
    have hlt : i < t.length := List.mem_range.1 hi
    simp [fixed?, Key.length, Key.index?, hlt]
  | _ => cases h

theorem Body.characterKeys_of_isArray {b : Body} (h : b.isArray) : b.characterKeys = [] := by
  cases b with
  | array => rfl
  | _ => cases h

namespace Store

variable {s t : Store} {f : FrameId} {k : Key}

/-- An array is there. -/
theorem lt_size_of_isArray {o : ObjectId} (h : (s.body o).isArray) : o < s.objects.size := by
  refine Nat.lt_of_not_le fun hle => ?_
  simp [body, object, Array.getD_eq_getD_getElem?, Array.getElem?_eq_none hle, Body.isArray] at h

/-- The frame of an array. -/
def Slotted (s : Store) (f : FrameId) : Prop := ∃ o, (s.body o).isArray ∧ s.propsOf o = f

theorem Slotted.later (h : s.Slotted f) (hst : s.Later t) : t.Slotted f := by
  obtain ⟨o, ho, rfl⟩ := h
  exact ⟨o, hst.array o ho⟩

/-- A key that a computation may bind in a frame: a name that a text denotes, or an index in a scope or where an
object has no character of that index. -/
def Takes (s : Store) (f : FrameId) : Key → Prop
  | .index i => s.Rooted f ∨ f = Realm.core ∨ ∃ o, s.propsOf o = f ∧ .index i ∉ (s.body o).characterKeys
  | .name t => Key.ofText t = .name t

theorem Takes.proper (h : s.Takes f k) : k.Proper := by
  cases k with
  | index i => trivial
  | name t => exact h

theorem takes_scope (hk : k.Proper) (h : s.Rooted f ∨ f = Realm.core) : s.Takes f k := by
  cases k with
  | index i => exact h.imp_right .inl
  | name t => exact hk

theorem takes_propsOf (hk : k.Proper) {o : ObjectId} (h : ((s.body o).fixed? k).isSome = false) :
    s.Takes (s.propsOf o) k := by
  cases k with
  | index i =>
    refine .inr (.inr ⟨o, rfl, fun hmem => ?_⟩)
    rw [Body.isSome_fixed?_of_mem hmem] at h
    cases h
  | name t => exact hk

theorem Slotted.takes (h : s.Slotted f) (i : Nat) : s.Takes f (.index i) := by
  obtain ⟨o, ho, rfl⟩ := h
  refine .inr (.inr ⟨o, rfl, ?_⟩)
  rw [Body.characterKeys_of_isArray ho]
  exact List.not_mem_nil

end Store

/-! ## Sound stores -/

/-- What a function of a script brings along: a scope that is rooted, and a body that assigns only to what can
be assigned to. -/
def Body.Harmless (s : Store) : Body → Prop
  | .function _ (.script _ body scope _ _) => s.Rooted scope ∧ stmtsTargeted body
  | _ => True

/-- A store as computations find it; `names` are the names that may be bound among the built-in ones. -/
structure Store.Sound (names : Key → Prop) (s : Store) : Prop where
  core_role : (s.frame Realm.core).role = .core
  core_parent : (s.frame Realm.core).parent = none
  core_names (k : Key) : (s.frame Realm.core).holds k → names k
  props (o : ObjectId) : s.propsOf o ≠ Realm.core
  harmless (o : ObjectId) : (s.body o).Harmless s

theorem Body.Harmless.later {s t : Store} {b : Body} (h : b.Harmless s) (hst : s.Later t) : b.Harmless t := by
  unfold Body.Harmless at h ⊢
  split
  · exact ⟨h.1.later hst, h.2⟩
  · trivial

namespace Store

variable {names : Key → Prop} {s t : Store} {f : FrameId}

namespace Sound

theorem core_lt_size (hs : s.Sound names) : Realm.core < s.frames.size := by
  refine Nat.lt_of_not_le fun hle => ?_
  have hrole := hs.core_role
  simp [frame_of_size_le hle] at hrole

theorem ne_core (hs : s.Sound names) (h : s.Rooted f) : f ≠ Realm.core := by
  rintro rfl
  cases h with
  | program h hp => simp [hs.core_role] at h
  | inner h hlt hp => simp [hs.core_parent] at h

theorem nearest_ne_core (hs : s.Sound names) (h : s.Rooted f) {p : Frame.Role → Bool} (hp : p .program)
    (hcore : p .core = false) : s.nearest f p ≠ Realm.core := by
  intro he
  have hrole := (h.nearest_spec hp).2
  rw [he, hs.core_role, hcore] at hrole
  cases hrole

/-- A rooted chain consists of rooted scopes, with the built-in names at its end. -/
theorem mem_ancestors (hs : s.Sound names) (h : s.Rooted f) {n : Nat} {g : FrameId} (hg : g ∈ s.ancestors n f) :
    s.Rooted g ∨ g = Realm.core := by
  induction n generalizing f with
  | zero => cases hg
  | succ n ih =>
      obtain rfl | hg := List.mem_cons.1 hg
      · exact .inl h
      cases h with
      | program hrole hp =>
          -- The built-in names are the parent, and have none themselves.
          cases n with
          | zero => simp [hp, ancestors] at hg
          | succ n => simpa [hp, ancestors, hs.core_parent] using Or.inr hg
      | inner hp hlt hrooted =>
          rw [hp] at hg
          exact ih hrooted hg

/-- Names that are not declared go to the scope of a program. -/
theorem globalScope_ne_core (hs : s.Sound names) (h : s.Rooted f) : s.globalScope f ≠ Realm.core :=
  hs.nearest_ne_core h rfl rfl

theorem rooted_globalScope (hs : s.Sound names) (h : s.Rooted f) : s.Rooted (s.globalScope f) :=
  (hs.mem_ancestors h (h.nearest_spec rfl).1).resolve_right (hs.globalScope_ne_core h)

/-- Declared names go to the scope of a program or of a call. -/
theorem varScope_ne_core (hs : s.Sound names) (h : s.Rooted f) : s.varScope f ≠ Realm.core :=
  hs.nearest_ne_core h rfl rfl

theorem rooted_varScope (hs : s.Sound names) (h : s.Rooted f) : s.Rooted (s.varScope f) :=
  (hs.mem_ancestors h (h.nearest_spec rfl).1).resolve_right (hs.varScope_ne_core h)

/-- The built-in names are a chain of their own. -/
theorem chain_core (hs : s.Sound names) : s.chain Realm.core = [Realm.core] := by
  simp [chain, ancestors, hs.core_parent]

/-- The scopes that a search from a rooted scope, or from the built-in names, comes to. -/
theorem mem_chain (hs : s.Sound names) (hf : s.Rooted f ∨ f = Realm.core) {g : FrameId} (hg : g ∈ s.chain f) :
    s.Rooted g ∨ g = Realm.core := by
  obtain hf | rfl := hf
  · exact hs.mem_ancestors hf hg
  · rw [hs.chain_core] at hg
    exact .inr (List.mem_singleton.1 hg)

theorem globalScope_core (hs : s.Sound names) : s.globalScope Realm.core = Realm.core := by
  simp [globalScope, nearest, root, hs.chain_core, hs.core_role]

theorem slotted_ne_core (hs : s.Sound names) (h : s.Slotted f) : f ≠ Realm.core := by
  obtain ⟨o, -, rfl⟩ := h
  exact hs.props o

/-- More names may be bound. -/
theorem mono {names' : Key → Prop} (hs : s.Sound names) (h : ∀ k, (s.frame Realm.core).holds k → names' k) :
    s.Sound names' := { hs with core_names := h }

end Sound

end Store

/-! ## Changes of a store -/

/-- A sound store after another one. -/
structure Store.Next (names : Key → Prop) (s t : Store) : Prop where
  later : s.Later t
  sound : t.Sound names

namespace Store.Next

variable {names : Key → Prop} {s t u : Store}

theorem refl (hs : s.Sound names) : s.Next names s := ⟨.refl s, hs⟩

theorem trans (h : s.Next names t) (h' : t.Next names u) : s.Next names u := ⟨h.later.trans h'.later, h'.sound⟩

/-- A change of the bindings of a frame. -/
theorem modifyFrame (hs : s.Sound names) (f : FrameId) {g : Frame → Frame} (hg : ∀ fr : Frame, fr.Alike (g fr))
    (hnames : f = Realm.core → ∀ k, (g (s.frame Realm.core)).holds k → names k) :
    s.Next names (s.modifyFrame f g) := by
  have hframe (f' : FrameId) (hf' : f' < s.frames.size) :
      (s.modifyFrame f g).frame f' = if f = f' then g (s.frame f') else s.frame f' := by
    split
    · subst f
      exact frame_modifyFrame_self s f' g hf'
    · exact frame_modifyFrame_of_ne s g ‹_›
  have hlater : s.Later (s.modifyFrame f g) := by
    refine ⟨by simp, fun f' hf' => ?_, fun o _ => rfl, fun _ ho => ⟨ho, rfl⟩⟩
    rw [hframe f' hf']
    split
    · exact hg _
    · exact .refl _
  have halike := hlater.alike Realm.core hs.core_lt_size
  refine ⟨hlater, halike.role.trans hs.core_role, halike.parent.trans hs.core_parent, fun k hk => ?_, hs.props,
    fun o => (hs.harmless o).later hlater⟩
  rw [hframe _ hs.core_lt_size] at hk
  split at hk
  · exact hnames ‹_› k hk
  · exact hs.core_names k hk

theorem addFrame (hs : s.Sound names) (fr : Frame) : s.Next names (s.addFrame fr).2 := by
  have hext := Extends.addFrame s fr
  have hlater : s.Later (s.addFrame fr).2 := by
    refine ⟨hext.size, fun f hf => ?_, fun o _ => rfl, fun _ ho => ⟨ho, rfl⟩⟩
    rw [hext.frame f hf]
    exact .refl _
  have hcore := hext.frame Realm.core hs.core_lt_size
  refine ⟨hlater, ?_, ?_, fun k hk => ?_, hs.props, fun o => (hs.harmless o).later hlater⟩
  · rw [hcore, hs.core_role]
  · rw [hcore, hs.core_parent]
  · exact hs.core_names k (by rwa [hcore] at hk)

/-- After an object was added, an object is the new one or what it was before. -/
theorem object_addObject (s : Store) (x : Object) (o : ObjectId) :
    (s.addObject x).2.object o = if o = s.objects.size then x else s.object o := by
  simp only [Store.addObject, object, Array.getD_eq_getD_getElem?, Array.getElem?_push]
  split <;> rfl

/-- A function is there. -/
theorem lt_size_of_isCallable {o : ObjectId} (h : (s.body o).isCallable) : o < s.objects.size := by
  refine Nat.lt_of_not_le fun hle => ?_
  simp [body, object, Array.getD_eq_getD_getElem?, Array.getElem?_eq_none hle, Body.isCallable] at h

theorem addObject (hs : s.Sound names) {x : Object} (hprops : x.props ≠ Realm.core)
    (hbody : x.body.Harmless s) : s.Next names (s.addObject x).2 := by
  have hlater : s.Later (s.addObject x).2 := by
    refine ⟨Nat.le_refl _, fun f _ => .refl _, fun o ho => ?_, fun o ho => ?_⟩
    · have hne : o ≠ s.objects.size := Nat.ne_of_lt (lt_size_of_isCallable ho)
      simp [body, object_addObject, hne]
    · have hne : o ≠ s.objects.size := Nat.ne_of_lt (lt_size_of_isArray ho)
      simpa [body, propsOf, object_addObject, hne] using ho
  refine ⟨hlater, hs.core_role, hs.core_parent, hs.core_names, fun o => ?_, fun o => ?_⟩
  · simp only [propsOf, object_addObject]
    split
    · exact hprops
    · exact hs.props o
  · simp only [body, object_addObject]
    split
    · exact hbody.later hlater
    · exact (hs.harmless o).later hlater

/-- A new object has a new frame for its properties. -/
theorem addWith (hs : s.Sound names) (proto : Option ObjectId) (body : Body) (hbody : body.Harmless s)
    (props : Option FrameId → Frame) : s.Next names (s.addWith proto body props).2 := by
  have hframe := addFrame hs (props (s.parentFrame proto))
  exact hframe.trans (addObject hframe.sound (Nat.ne_of_gt hs.core_lt_size) (hbody.later hframe.later))

theorem define (hs : s.Sound names) {f : FrameId} (hf : f ≠ Realm.core) (k : Key) (v : Value) :
    s.Next names (s.modifyFrame f (·.define k v)) :=
  modifyFrame hs f (fun fr => .define fr k v) fun he => absurd he hf

/-- The scope of a new program is rooted. -/
theorem addProgramScope (hs : s.Sound names) :
    s.Next names s.addProgramScope.2 ∧ s.addProgramScope.2.Rooted s.addProgramScope.1 := by
  have hne : s.frames.size ≠ Realm.core := Nat.ne_of_gt hs.core_lt_size
  have hframe := addFrame hs { parent := some Realm.core, role := .program }
  have hobject := addObject (x := { proto := some Realm.objectPrototype, props := s.frames.size, body := .plain })
    hframe.sound hne trivial
  have hchange := modifyFrame (g := fun fr => (fr.define Key.this (.obj s.objects.size)).define (.name "globalThis")
    (.obj s.objects.size)) hobject.sound s.frames.size (fun fr => (Frame.Alike.define _ _ _).trans (.define _ _ _))
    (fun he => absurd he hne)
  have hnext := hobject.trans hchange
  have hlt : s.frames.size < (s.addFrame { parent := some Realm.core, role := .program }).2.frames.size := by
    simp [Store.addFrame]
  have halike := hnext.later.alike s.frames.size hlt
  refine ⟨hframe.trans hnext, .program (halike.role.trans ?_) (halike.parent.trans ?_)⟩
  · simp [Store.addFrame, frame]
  · simp [Store.addFrame, frame]

theorem linkPrototype (hs : s.Sound names) (function proto : ObjectId) :
    s.Next names (s.linkPrototype function proto) := by
  have h := define hs (hs.props proto) Key.constructor (.obj function)
  exact h.trans (define h.sound (h.sound.props function) Key.prototype (.obj proto))

/-- A function of a script and the object from which what it constructs inherits. -/
theorem addClosure (hs : s.Sound names) (name : Text) (params : List Text) {body : List Stmt}
    (hbody : stmtsTargeted body) {scope : FrameId} (hscope : s.Rooted scope) (runner : RunnerId)
    (selfBound : Bool) : s.Next names (s.addClosure name params body scope runner selfBound).2 := by
  have h₁ := addWith hs (some Realm.functionPrototype)
    (.function name (.script params body scope runner (selfBound && !name.isEmpty))) ⟨hscope, hbody⟩
    fun parent => (({ parent } : Frame).define Key.length (.ofNat params.length)).define Key.nameKey (.str name)
  have h₂ := addWith h₁.sound (some Realm.objectPrototype) .plain trivial fun parent => { parent }
  exact (h₁.trans h₂).trans (linkPrototype h₂.sound _ _)

/-- After a change of an object, an object is what it was before or is changed. -/
theorem object_modifyObject (s : Store) (o : ObjectId) (change : Object → Object) (o' : ObjectId) :
    (s.modifyObject o change).object o' = s.object o' ∨
      (s.modifyObject o change).object o' = change (s.object o') := by
  simp only [Store.modifyObject, object, Array.getD_eq_getD_getElem?, Array.getElem?_modify]
  by_cases he : o = o'
  · cases s.objects[o']? <;> simp [he]
  · simp [he]

/-- A change that at most gives dates another time. -/
theorem modifyObject (hs : s.Sound names) (o : ObjectId) {change : Object → Object}
    (hchange : ∀ x, change x = x ∨ ∃ ms ms', x.body = .date ms ∧ change x = { x with body := .date ms' }) :
    s.Next names (s.modifyObject o change) := by
  have hobject (o' : ObjectId) : (s.modifyObject o change).object o' = s.object o' ∨
      ∃ ms ms', (s.object o').body = .date ms ∧
        (s.modifyObject o change).object o' = { s.object o' with body := .date ms' } := by
    obtain h | h := object_modifyObject s o change o'
    · exact .inl h
    · rw [h]
      exact hchange _
  have hlater : s.Later (s.modifyObject o change) := by
    refine ⟨Nat.le_refl _, fun f _ => .refl _, fun o' ho' => ?_, fun o' ho' => ?_⟩
    · obtain h | ⟨ms, ms', hdate, -⟩ := hobject o'
      · simp [body, h]
      · simp [body, hdate, Body.isCallable] at ho'
    · obtain h | ⟨ms, ms', hdate, -⟩ := hobject o'
      · simpa [body, propsOf, h] using ho'
      · simp [body, hdate, Body.isArray] at ho'
  refine ⟨hlater, hs.core_role, hs.core_parent, hs.core_names, fun o' => ?_, fun o' => ?_⟩
  · obtain h | ⟨ms, ms', -, h⟩ := hobject o'
    · simpa [propsOf, h] using hs.props o'
    · simpa [propsOf, h] using hs.props o'
  · obtain h | ⟨ms, ms', -, h⟩ := hobject o'
    · simpa [body, h] using (hs.harmless o').later hlater
    · simp [body, h, Body.Harmless]

end Store.Next

/-! ## Licences -/

/-- What a computation may do. -/
structure Licence where
  /-- The names that may be bound in the scope of the built-in names. -/
  names : Key → Prop
  /-- Whether reference errors may be made. -/
  forges : Prop

/-- The actions that may be performed. -/
def Licence.Allows (L : Licence) (s : Store) : Action → Prop
  | .put f k _ => (f = Realm.core → L.names k) ∧ s.Takes f k
  | .resize f _ => f ≠ Realm.core
  | .refill f _ => s.Slotted f
  | .append f _ => s.Slotted f
  | .openScope parent _ => s.Rooted parent
  | .newClosure _ _ body scope _ _ => s.Rooted scope ∧ stmtsTargeted body
  | .newError kind _ => kind = .referenceError → L.forges
  | _ => True

/-- An action that binds only keys which computations may bind. -/
def Action.Aimed (s : Store) : Action → Prop
  | put f k _ => s.Takes f k
  | refill f _ => s.Slotted f
  | append f _ => s.Slotted f
  | _ => True

/-- What is known of the answer to an action: a scope that was opened is rooted, and a new array is one. -/
def Action.Answered (t : Store) : (a : Action) → a.Reply → Prop
  | openScope _ _, f => t.Rooted f
  | openProgram, f => t.Rooted f
  | newArray _ _, o => (t.body o).isArray
  | _, _ => True

namespace Licence

variable {L : Licence} {limits : Limits} {s : State}

theorem Allows.aimed {s : Store} {a : Action} (ha : L.Allows s a) : a.Aimed s := by
  cases a with
  | put f k v => exact ha.2
  | refill f items => exact ha
  | append f items => exact ha
  | _ => trivial

theorem next_changeFrame (hs : s.store.Sound L.names) (f : FrameId) (blame : Frame → Key) {g : Frame → Frame}
    (hg : ∀ fr : Frame, fr.Alike (g fr))
    (hnames : f = Realm.core → ∀ k, (g (s.store.frame Realm.core)).holds k → L.names k) :
    s.store.Next L.names (Action.changeFrame s f blame g).2.store := by
  simp only [Action.changeFrame]
  split
  · exact .refl hs
  · exact .modifyFrame hs f hg hnames

theorem next_grow (g : Store → Nat × Store) (h : s.store.Next L.names (g s.store).2) :
    s.store.Next L.names (Action.grow s g).2.store := h

/-- On the built-in names a binding is an ordinary one. -/
theorem holds_write (hs : s.store.Sound L.names) {k k' : Key} {v : Value}
    (h : ((s.store.frame Realm.core).write k v).holds k') : k' = k ∨ (s.store.frame Realm.core).holds k' := by
  unfold Frame.write at h
  rw [hs.core_role] at h
  exact Frame.holds_put.1 h

/-- An action that is allowed leaves the store sound. -/
theorem next_perform (hs : s.store.Sound L.names) {a : Action} (ha : L.Allows s.store a) :
    s.store.Next L.names (a.perform limits s).2.store := by
  obtain hroom | hroom := a.perform_eq limits s
  · rw [hroom]
    exact .refl hs
  rw [hroom]
  cases a with
  | put f k v =>
      refine next_changeFrame hs f _ (fun fr => .write fr k v) fun hf k' hk' => ?_
      obtain rfl | hk' := holds_write hs hk'
      · exact ha.1 hf
      · exact hs.core_names k' hk'
  | remove f k =>
      simp only [Action.enact]
      split
      · exact .refl hs
      · split
        · exact .refl hs
        · exact .modifyFrame hs f (fun fr => .erase fr k) fun _ k' hk' =>
            hs.core_names k' (Frame.holds_of_erase hk')
  | resize f n => exact next_changeFrame hs f _ (fun fr => .resize fr n) fun hf => absurd hf ha
  | refill f items =>
      exact next_changeFrame hs f _ (fun fr => .refill fr items) fun hf => absurd hf (hs.slotted_ne_core ha)
  | append f items =>
      by_cases hi : items.isEmpty
      · simpa [Action.enact, hi] using Store.Next.refl hs
      · have hnext := next_changeFrame hs f (fun fr => .index fr.length) (fun fr => .append fr items)
          fun hf => absurd hf (hs.slotted_ne_core ha)
        simpa [Action.enact, hi] using hnext
  | setTime o ms =>
      refine .modifyObject hs o fun x => ?_
      split
      · exact .inr ⟨_, ms, ‹_›, rfl⟩
      · exact .inl rfl
  | openScope parent role => exact next_grow _ (.addFrame hs _)
  | openProgram => exact next_grow _ (Store.Next.addProgramScope hs).1
  | newObject proto => exact next_grow _ (.addWith hs _ _ (by trivial) _)
  | newBoxed b => exact next_grow _ (.addWith hs _ _ (by cases b <;> trivial) _)
  | newArray proto items => exact next_grow _ (.addWith hs _ _ (by trivial) _)
  | newArguments items callee => exact next_grow _ (.addWith hs _ _ (by trivial) _)
  | newError kind message => exact next_grow _ (.addWith hs _ _ (by trivial) _)
  | newRegExp source flags => exact next_grow _ (.addWith hs _ _ (by trivial) _)
  | newClosure name params body scope runner selfBound =>
      exact next_grow _ (.addClosure hs name params ha.2 ha.1 runner selfBound)
  | newBound target this args => exact next_grow _ (.addWith hs _ _ (by trivial) _)
  | tick runner kind =>
      simp only [Action.enact, Action.count, apply_ite Prod.snd, ite_self]
      split <;> exact .refl hs
  | start update =>
      simp only [Action.enact]
      split <;> exact .refl hs
  | newRunner => exact .refl hs
  | print line => exact .refl hs
  | draw => exact .refl hs
  | settle update v => exact .refl hs

/-- Scopes that were opened are rooted, and new arrays are arrays. -/
theorem answered_perform (hs : s.store.Sound L.names) {a : Action} (ha : L.Allows s.store a) {r : a.Reply}
    (h : (a.perform limits s).1 = .ok r) : a.Answered (a.perform limits s).2.store r := by
  obtain hroom | hroom := a.perform_eq limits s
  · rw [hroom] at h
    cases h
  rw [hroom] at h ⊢
  cases a with
  | openScope parent role =>
      obtain rfl : s.store.frames.size = r := Except.ok.inj h
      have hlt := Store.Rooted.lt_size ha
      have hnext : s.store.Next L.names (s.store.addScope parent role).2 := .addFrame hs _
      refine .inner (p := parent) ?_ hlt (Store.Rooted.later ha hnext.later)
      simp [Action.enact, Action.grow, Store.addScope, Store.addFrame, Store.frame, hlt]
  | openProgram =>
      obtain rfl : s.store.addProgramScope.1 = r := Except.ok.inj h
      exact (Store.Next.addProgramScope hs).2
  | newArray proto items =>
      obtain rfl : s.store.objects.size = r := Except.ok.inj h
      simp [Action.Answered, Action.enact, Action.grow, Store.addArray, Store.addWith, Store.addFrame, Store.body,
        Store.Next.object_addObject, Body.isArray]
  | _ => trivial

theorem changeFrame_ne_malformedTree {f : FrameId} {blame : Frame → Key} {g : Frame → Frame} {e : Fault}
    (h : (Action.changeFrame s f blame g).1 = .error e) : e ≠ .malformedTree := by
  simp only [Action.changeFrame] at h
  split at h
  · cases h
    simp
  · cases h

/-- An action is refused because a frame is sealed, for lack of room, or because it counts too many
statements. -/
theorem perform_ne_malformedTree {a : Action} {e : Fault} (h : (a.perform limits s).1 = .error e) :
    e ≠ .malformedTree := by
  obtain hroom | hroom := a.perform_eq limits s
  · rw [hroom] at h
    cases h
    simp
  rw [hroom] at h
  cases a with
  | put f k v => exact changeFrame_ne_malformedTree h
  | resize f n => exact changeFrame_ne_malformedTree h
  | refill f items => exact changeFrame_ne_malformedTree h
  | append f items =>
      cases items with
      | nil => cases h
      | cons v rest =>
          have hchange : (Action.changeFrame s f (fun fr => .index fr.length) (·.append (v :: rest))).1 =
            .error e := h
          exact changeFrame_ne_malformedTree hchange
  | remove f k =>
      simp only [Action.enact] at h
      split at h
      · cases h
      · split at h
        · cases h
          simp
        · cases h
  | tick runner kind =>
      have hcount := Action.count_fst limits s runner kind
      rw [show (Action.count limits s runner kind).1 = .error e from h] at hcount
      split at hcount
      · cases hcount
        simp
      · cases hcount
  | start update =>
      simp only [Action.enact] at h
      split at h <;> cases h
  | _ => cases h

end Licence

end ScriptEngine
