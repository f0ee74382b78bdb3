import ScriptEngine.Proofs.Links

/-!
# The keys that frames hold

A frame binds every key once. What the work for a host binds is an index or a name that a text denotes, and no index
is bound where a string has a character: the frame of a string belongs to that string alone, is no scope, and nothing
is bound in it but what its string leaves free. So no property of a string has the key of one of its characters.

Each action of such work keeps a store to this, and so do the setup and what a host does between the pieces of work.

## Main definitions

* `Store.Fits`: the keys that a frame may hold.
* `Store.Keyed`, `Store.Orderly`: stores whose frames hold such keys only, and will if strings are made.
* `Engine.Working`: the states between the pieces of work for a host, and during them.

## Main results

* `Store.Orderly.perform`: what an action does to such a store.
* `Engine.Working.keyed`: the keys of all stores that there are.
-/

namespace ScriptEngine

/-! ## The keys that a frame may hold -/

namespace Store

variable {s t : Store} {f : FrameId} {o : ObjectId} {k : Key}

/-- A key that a frame may hold: an index or a name that a text denotes, and no character of the object that has its
properties there. -/
structure Fits (s : Store) (f : FrameId) (k : Key) : Prop where
  proper : k.Proper
  free (o : ObjectId) : s.propsOf o = f → k ∉ (s.body o).characterKeys

/-- An object with a frame of its own, which is neither a scope nor inside one. -/
structure Secluded (s : Store) (o : ObjectId) : Prop where
  rooted : ¬s.Rooted (s.propsOf o)
  core : s.propsOf o ≠ Realm.core
  alone (o' : ObjectId) : s.propsOf o' = s.propsOf o → o' = o

/-- A store whose frames hold only keys that fit; strings with characters have frames of their own. -/
structure Keyed (s : Store) : Prop where
  there (o : ObjectId) : s.propsOf o < s.frames.size
  keys (f : FrameId) : (s.frame f).Keyed (s.Fits f)
  secluded (o : ObjectId) : (s.body o).characterKeys ≠ [] → s.Secluded o

/-- A store in which strings, as they are made, get such frames: what they inherit from is there, and in no scope. -/
structure Orderly (s : Store) : Prop where
  keyed : s.Keyed
  strings : Realm.stringPrototype < s.objects.size
  apart : ¬s.Rooted (s.propsOf Realm.stringPrototype)

/-- The characters of a string are indexes. -/
theorem name_notMem_characterKeys (t : Text) (b : Body) : .name t ∉ b.characterKeys := by
  cases b <;> simp [Body.characterKeys]

theorem fits_name {t : Text} (ht : Key.ofText t = .name t) (f : FrameId) : s.Fits f (.name t) :=
  ⟨ht, fun _ _ => name_notMem_characterKeys t _⟩

theorem fits_length (f : FrameId) : s.Fits f Key.length := fits_name (by decide) f

/-- A frame that was rooted later was rooted before. -/
theorem Rooted.earlier (h : t.Rooted f) (hst : s.Settled t) (hf : f < s.frames.size) : s.Rooted f := by
  induction h with
  | @program f hrole hparent =>
    have halike := hst.alike f hf
    exact .program (halike.role.symm.trans hrole) (halike.parent.symm.trans hparent)
  | @inner f p hparent hlt hp ih =>
    exact .inner ((hst.alike f hf).parent.symm.trans hparent) hlt (ih (Nat.lt_trans hlt hf))

/-- A new frame is rooted only as the scope of a program, or inside what is rooted. -/
theorem not_rooted_addFrame {fr : Frame} (hrole : fr.role ≠ .program)
    (hparent : ∀ p, fr.parent = some p → ¬s.Rooted p) : ¬(s.addFrame fr).2.Rooted s.frames.size := by
  intro h
  cases h with
  | program h => exact hrole (by rwa [frame_addFrame] at h)
  | @inner _ p h hlt hp =>
    rw [frame_addFrame] at h
    exact hparent p h (hp.earlier (.addFrame s fr) hlt)

theorem Secluded.settled (h : s.Secluded o) (hst : s.Settled t) (ho : s.propsOf o < s.frames.size)
    (hprops : ∀ o', t.propsOf o' = s.propsOf o') : t.Secluded o where
  rooted hrooted := h.rooted (hprops o ▸ hrooted.earlier hst (hprops o ▸ ho))
  core := hprops o ▸ h.core
  alone o' he := h.alone o' ((hprops o').symm.trans (he.trans (hprops o)))

namespace Keyed

theorem propsOf_ne_size (h : s.Keyed) (o : ObjectId) : s.propsOf o ≠ s.frames.size := Nat.ne_of_lt (h.there o)

/-- What a computation may bind in a frame fits there. -/
theorem fits (h : s.Keyed) (hk : s.Takes f k) : s.Fits f k := by
  refine ⟨hk.proper, fun o ho hmem => ?_⟩
  have hsecluded := h.secluded o (List.ne_nil_of_mem hmem)
  cases k with
  | name t => exact name_notMem_characterKeys t _ hmem
  | index i =>
    subst ho
    obtain hrooted | hcore | ⟨o', hprops, hfree⟩ := hk
    · exact hsecluded.rooted hrooted
    · exact hsecluded.core hcore
    · exact hfree (hsecluded.alone o' hprops ▸ hmem)

/-! ## Changes of a store -/

/-- A frame is changed, and what it holds fits. -/
theorem frame (h : s.Keyed) (f : FrameId) {c : Frame → Frame} (halike : ∀ fr : Frame, fr.Alike (c fr))
    (hc : (s.frame f).Keyed (s.Fits f) → (c (s.frame f)).Keyed (s.Fits f)) : (s.modifyFrame f c).Keyed where
  there o := by
    rw [size_modifyFrame]
    exact h.there o
  keys g := by
    have hkeyed : ((s.modifyFrame f c).frame g).Keyed (s.Fits g) := by
      by_cases hg : g < s.frames.size
      · by_cases he : f = g
        · subst he
          rw [frame_modifyFrame_self s f c hg]
          exact hc (h.keys f)
        · rw [frame_modifyFrame_of_ne s c he]
          exact h.keys g
      · rw [frame_of_size_le (by simpa using hg)]
        exact .empty none .plain
    exact hkeyed.mono fun k _ hk => ⟨hk.proper, hk.free⟩
  secluded o ho := (h.secluded o ho).settled (.modifyFrame s f halike) (h.there o) fun _ => rfl

/-- A name is bound. -/
theorem define (h : s.Keyed) (f : FrameId) {t : Text} (ht : Key.ofText t = .name t) (v : Value) :
    (s.modifyFrame f (·.define (.name t) v)).Keyed :=
  h.frame f (fun fr => .define fr _ v) fun hkeyed => hkeyed.define (fits_name ht f) v

/-- Any key that computations have may be among the built-in names. -/
theorem defineCore (h : s.Keyed) (hk : k.Proper) (v : Value) : (s.modifyFrame Realm.core (·.define k v)).Keyed := by
  refine h.frame Realm.core (fun fr => .define fr k v) fun hkeyed => hkeyed.define ⟨hk, fun o ho hmem => ?_⟩ v
  exact (h.secluded o (List.ne_nil_of_mem hmem)).core ho

theorem sealFrom (h : s.Keyed) (flag : Bool) (n : Nat) (f : FrameId) : (s.sealFrom flag n f).Keyed := by
  induction n generalizing s f with
  | zero => exact h
  | succ n ih =>
    rw [Store.sealFrom]
    split
    · exact h
    · have hfirst : (s.modifyFrame f fun fr => { fr with sealed := flag }).Keyed :=
        h.frame f (fun _ => ⟨rfl, rfl⟩) fun hkeyed => hkeyed.sealed flag
      exact List.foldlRecOn _ _ hfirst fun t ht g _ => ih ht g

/-- A frame is added; no object has its properties there yet. -/
theorem addFrame (h : s.Keyed) {fr : Frame} (hfr : fr.Keyed Key.Proper) : (s.addFrame fr).2.Keyed where
  there o := Nat.lt_of_lt_of_le (h.there o) (Settled.addFrame s fr).frames
  keys g := by
    rw [frame_addFrame_eq]
    split
    · rename_i hg
      exact hfr.mono fun k _ hk => ⟨hk, fun o ho => absurd (ho.trans hg) (h.propsOf_ne_size o)⟩
    · exact (h.keys g).mono fun k _ hk => ⟨hk.proper, hk.free⟩
  secluded o ho := (h.secluded o ho).settled (.addFrame s fr) (h.there o) fun _ => rfl

/-- An object is added with a frame that no other object has. If the object has characters, it is secluded. -/
theorem addObject (h : s.Keyed) {x : Object} (hthere : x.props < s.frames.size) (hnew : ∀ o, s.propsOf o ≠ x.props)
    (hfree : ∀ k ∈ (s.frame x.props).keys, k ∉ x.body.characterKeys)
    (hstring : x.body.characterKeys ≠ [] → ¬s.Rooted x.props ∧ x.props ≠ Realm.core) :
    (s.addObject x).2.Keyed := by
  have hst := Settled.addObject s x
  -- An object is the new one, or what it was before.
  have hcases (o : ObjectId) : (o = s.objects.size ∧ (s.addObject x).2.object o = x) ∨
      (o ≠ s.objects.size ∧ (s.addObject x).2.object o = s.object o) := by
    rw [Next.object_addObject]
    by_cases ho : o = s.objects.size
    · exact .inl ⟨ho, if_pos ho⟩
    · exact .inr ⟨ho, if_neg ho⟩
  constructor
  · intro o
    obtain ⟨-, he⟩ | ⟨-, he⟩ := hcases o
    · rwa [Store.propsOf, he]
    · rw [Store.propsOf, he]
      exact h.there o
  · intro g
    refine (h.keys g).mono fun k hk hfits => ⟨hfits.proper, fun o ho => ?_⟩
    obtain ⟨-, he⟩ | ⟨-, he⟩ := hcases o <;> rw [Store.propsOf, he] at ho <;> rw [Store.body, he]
    · exact hfree k (ho ▸ hk)
    · exact hfits.free o ho
  · intro o ho
    obtain ⟨hsize, he⟩ | ⟨-, he⟩ := hcases o <;> rw [Store.body, he] at ho
    · have hprops : (s.addObject x).2.propsOf o = x.props := by rw [Store.propsOf, he]
      rw [← hprops] at hthere hnew hstring
      refine ⟨fun hrooted => (hstring ho).1 (hrooted.earlier hst hthere), (hstring ho).2, fun o' ho' => ?_⟩
      obtain ⟨hsize', -⟩ | ⟨-, he'⟩ := hcases o'
      · exact hsize'.trans hsize.symm
      · rw [Store.propsOf, he'] at ho'
        exact absurd ho' (hnew o')
    · have hprops : (s.addObject x).2.propsOf o = s.propsOf o := by rw [Store.propsOf, he, Store.propsOf]
      obtain ⟨hrooted, hcore, halone⟩ := h.secluded o ho
      have hlt := h.there o
      rw [← hprops] at hrooted hcore halone hlt
      refine ⟨fun hr => hrooted (hr.earlier hst hlt), hcore, fun o' ho' => ?_⟩
      obtain ⟨-, he'⟩ | ⟨-, he'⟩ := hcases o' <;> rw [Store.propsOf, he'] at ho'
      · exact absurd (hprops.symm.trans ho'.symm) (hnew o)
      · exact halone o' ho'

/-- A new object has a new frame for its properties. -/
theorem addOwner (h : s.Keyed) (proto : Option ObjectId) (body : Body) {fr : Frame} (hfr : fr.Keyed Key.Proper)
    (hfree : ∀ k ∈ fr.keys, k ∉ body.characterKeys)
    (hstring : body.characterKeys ≠ [] → ¬(s.addFrame fr).2.Rooted s.frames.size) :
    ((s.addFrame fr).2.addObject { proto, props := s.frames.size, body }).2.Keyed := by
  refine (h.addFrame hfr).addObject ?_ h.propsOf_ne_size ?_ fun hbody => ⟨hstring hbody, ?_⟩
  · simp [Store.addFrame]
  · rwa [frame_addFrame]
  · exact Nat.ne_of_gt (Nat.lt_of_le_of_lt (Nat.zero_le _) (h.there 0))

theorem addWith (h : s.Keyed) (proto : Option ObjectId) (body : Body) (hbody : body.characterKeys = [])
    {props : Option FrameId → Frame} (hprops : ∀ parent, (props parent).Keyed Key.Proper) :
    (s.addWith proto body props).2.Keyed :=
  h.addOwner proto body (hprops _) (by simp [hbody]) fun hne => absurd hbody hne

/-- An object without properties; a string inherits from what is in no scope. -/
theorem addPlain (h : s.Keyed) (proto : Option ObjectId) (body : Body)
    (hproto : body.characterKeys ≠ [] → ∀ o ∈ proto, ¬s.Rooted (s.propsOf o)) :
    (s.addPlain proto body).2.Keyed := by
  refine h.addOwner proto body (.empty _ .plain) nofun fun hbody => not_rooted_addFrame nofun fun p hp => ?_
  obtain ⟨o, ho, rfl⟩ := Option.map_eq_some_iff.1 hp
  exact hproto hbody o ho

theorem addFunction (h : s.Keyed) (proto : ObjectId) (name : Text) (arity : Nat) (callable : Callable) :
    (s.addFunction proto name arity callable).2.Keyed :=
  h.addWith _ _ rfl fun parent => ((Frame.Keyed.empty parent .plain).define (by decide) _).define (by decide) _

theorem addError (h : s.Keyed) (kind : ErrorKind) (message : Option Text) : (s.addError kind message).2.Keyed := by
  refine h.addWith _ .error rfl fun parent => ?_
  cases message with
  | some t => exact (Frame.Keyed.empty parent .plain).define (by decide) _
  | none => exact .empty parent .plain

theorem linkPrototype (h : s.Keyed) (function proto : ObjectId) : (s.linkPrototype function proto).Keyed :=
  (h.define _ (t := "constructor") (by decide) _).define _ (t := "prototype") (by decide) _

theorem addClosure (h : s.Keyed) (name : Text) (params : List Text) (body : List Stmt) (scope : FrameId)
    (runner : RunnerId) (selfBound : Bool) : (s.addClosure name params body scope runner selfBound).2.Keyed := by
  have hfunction := h.addFunction Realm.functionPrototype name params.length
    (.script params body scope runner (selfBound && !name.isEmpty))
  have hproto := hfunction.addPlain (some Realm.objectPrototype) .plain nofun
  exact hproto.linkPrototype _ _

/-- The scope of a program has the properties of an object without characters. -/
theorem addProgramScope (h : s.Keyed) : s.addProgramScope.2.Keyed := by
  have howner := h.addOwner (some Realm.objectPrototype) .plain (.empty (some Realm.core) .program) nofun nofun
  refine howner.frame s.frames.size (fun fr => (Frame.Alike.define fr _ _).trans (.define _ _ _)) fun hkeyed => ?_
  exact (hkeyed.define (fits_name (by decide) _) _).define (fits_name (by decide) _) _

/-- The body of an object is changed, but not its characters. -/
theorem body (h : s.Keyed) (o : ObjectId) {change : Object → Object}
    (hchange : ∀ x, (change x).props = x.props ∧ (change x).body.characterKeys = x.body.characterKeys) :
    (s.modifyObject o change).Keyed := by
  have hprops (o' : ObjectId) : (s.modifyObject o change).propsOf o' = s.propsOf o' :=
    propsOf_modifyObject s o (fun x => (hchange x).1) o'
  have hbody (o' : ObjectId) : ((s.modifyObject o change).body o').characterKeys = (s.body o').characterKeys := by
    obtain he | he := Next.object_modifyObject s o change o'
    · rw [Store.body, Store.body, he]
    · rw [Store.body, Store.body, he, (hchange _).2]
  constructor
  · intro o'
    rw [hprops]
    exact h.there o'
  · intro g
    refine (h.keys g).mono fun k _ hk => ⟨hk.proper, fun o' ho' => ?_⟩
    rw [hbody]
    exact hk.free o' ((hprops o').symm.trans ho')
  · intro o' ho'
    rw [hbody] at ho'
    exact (h.secluded o' ho').settled (.modifyObject s o fun x => (hchange x).1) (h.there o') hprops

end Keyed

/-- What strings inherit from stays where it is. -/
theorem Orderly.settled (h : s.Orderly) (hst : s.Settled t) (ht : t.Keyed) : t.Orderly := by
  refine ⟨ht, Nat.lt_of_lt_of_le h.strings hst.objects, fun hrooted => h.apart ?_⟩
  rw [hst.propsOf _ h.strings] at hrooted
  exact hrooted.earlier hst (h.keyed.there _)

theorem Orderly.sealFrom (h : s.Orderly) (flag : Bool) (n : Nat) (f : FrameId) : (s.sealFrom flag n f).Orderly :=
  h.settled (.of_changes (.sealFrom flag n s f)) (h.keyed.sealFrom flag n f)

end Store

/-! ## Actions -/

namespace Store

variable {s : State} {limits : Limits}

theorem Keyed.changeFrame (h : s.store.Keyed) (f : FrameId) (blame : Frame → Key) {c : Frame → Frame}
    (halike : ∀ fr : Frame, fr.Alike (c fr))
    (hc : (s.store.frame f).Keyed (s.store.Fits f) → (c (s.store.frame f)).Keyed (s.store.Fits f)) :
    (Action.changeFrame s f blame c).2.store.Keyed := by
  simp only [Action.changeFrame]
  split
  · exact h
  · exact h.frame f halike hc

/-- After an action that binds only keys which computations may bind, frames hold keys that fit. -/
theorem Orderly.keyed_perform (h : s.store.Orderly) {a : Action} (ha : a.Aimed s.store) :
    (a.perform limits s).2.store.Keyed := by
  have hkeyed := h.keyed
  obtain hroom | hroom := a.perform_eq limits s
  · rw [hroom]
    exact hkeyed
  rw [hroom]
  have hindex (i : Nat) : Key.Proper (.index i) := trivial
  have hlength : Key.length.Proper := by decide
  cases a with
  | put f k v =>
    exact hkeyed.changeFrame f _ (fun fr => .write fr k v) fun hf =>
      hf.reworked (.write (fits_length f) (hkeyed.fits ha) _ v)
  | remove f k =>
    simp only [Action.enact]
    split
    · exact hkeyed
    · split
      · exact hkeyed
      · exact hkeyed.frame f (fun fr => .erase fr k) fun hf => hf.erase k
  | resize f n =>
    exact hkeyed.changeFrame f _ (fun fr => .resize fr n) fun hf =>
      hf.reworked (.resize (fits_length f) (fun _ => trivial) _ n)
  | refill f items =>
    exact hkeyed.changeFrame f _ (fun fr => .refill fr items) fun hf =>
      hf.reworked (.refill (fun i => hkeyed.fits (ha.takes i)) (fits_length f) (fun _ => trivial) _ items)
  | append f items =>
    by_cases hitems : items.isEmpty
    · simpa [Action.enact, hitems] using hkeyed
    · have happend := hkeyed.changeFrame f (fun fr => .index fr.length) (fun fr => .append fr items) fun hf =>
        hf.reworked (.append (fun i => hkeyed.fits (ha.takes i)) (fits_length f) _ items)
      simpa [Action.enact, hitems] using happend
  | setTime o ms =>
    refine hkeyed.body o fun x => ?_
    split
    · rename_i hdate
      simp [hdate, Body.characterKeys]
    · exact ⟨rfl, rfl⟩
  | openScope parent role => exact hkeyed.addFrame (.empty _ _)
  | openProgram => exact hkeyed.addProgramScope
  | newObject proto => exact hkeyed.addPlain proto .plain fun hbody => absurd rfl hbody
  | newBoxed b =>
    refine hkeyed.addPlain _ _ fun hbody o ho => ?_
    cases b with
    | string t =>
      obtain rfl : Realm.stringPrototype = o := Option.some.inj ho
      exact h.apart
    | _ => exact absurd rfl hbody
  | newArray proto items => exact hkeyed.addWith proto .array rfl fun parent => .ofItems hindex hlength parent items
  | newArguments items callee =>
    exact hkeyed.addWith _ .array rfl fun parent =>
      (Frame.Keyed.ofItems hindex hlength parent items).define (by decide) _
  | newError kind message => exact hkeyed.addError kind message
  | newRegExp source flags =>
    exact hkeyed.addWith _ (.regexp source flags) rfl fun parent =>
      (Frame.Keyed.empty parent .plain).define (by decide) _
  | newClosure name params body scope runner selfBound =>
    exact hkeyed.addClosure name params body scope runner selfBound
  | newBound target this args => exact hkeyed.addFunction _ _ _ _
  | tick runner kind =>
    simp only [Action.enact, Action.count, apply_ite Prod.snd, ite_self]
    split <;> exact hkeyed
  | start update =>
    simp only [Action.enact]
    split <;> exact hkeyed
  | newRunner => exact hkeyed
  | print line => exact hkeyed
  | draw => exact hkeyed
  | settle update v => exact hkeyed

theorem Orderly.perform (h : s.store.Orderly) {a : Action} (ha : a.Aimed s.store) :
    (a.perform limits s).2.store.Orderly := h.settled (.of_changes (a.changes limits s)) (h.keyed_perform ha)

end Store

/-- A passage that binds only what computations may bind goes through orderly stores. -/
theorem Passage.law_orderly (limits : Limits) : Law limits fun s h t => (∀ m ∈ h, m.Aimed) → s.store.Orderly →
    (∀ m ∈ h, m.state.store.Orderly) ∧ t.store.Orderly where
  stop s _ hs := ⟨by simp, hs⟩
  trans {s t u h h'} hst htu haimed hs := by
    have hfirst := hst (fun m hm => haimed m (List.mem_append_left _ hm)) hs
    have hlast := htu (fun m hm => haimed m (List.mem_append_right _ hm)) hfirst.2
    refine ⟨fun m hm => ?_, hlast.2⟩
    rcases List.mem_append.1 hm with hm | hm
    · exact hfirst.1 m hm
    · exact hlast.1 m hm
  act within a s haimed hs := by
    refine ⟨fun m hm => ?_, hs.perform (haimed _ (List.mem_singleton_self _) a rfl)⟩
    rw [List.mem_singleton.1 hm]
    exact hs
  mark {m s} _ hm _ hs := by
    rw [hm]
    refine ⟨fun m' hm' => ?_, hs⟩
    rwa [List.mem_singleton.1 hm', hm]

/-! ## The store of a new engine -/

namespace Setup

/-- The steps of the setup bind only names that texts denote. -/
theorem kept_keyed : Kept Store.Keyed where
  add proto _ _ hpiece hs :=
    hs.addWith proto _ hpiece.characterless fun parent => ⟨hpiece.nodup parent, hpiece.proper parent⟩
  define {s} f k v hk hproper hs := by
    obtain rfl | hk := hk
    · exact hs.defineCore hproper v
    · cases k with
      | index i => cases hk
      | name t => exact hs.define f hproper v

theorem kept_orderly : Kept Store.Orderly where
  add {s} proto _ _ hpiece hs :=
    hs.settled ((Store.Settled.addFrame s _).trans (.addObject _ _)) (kept_keyed.add proto hpiece hs.keyed)
  define {s} f k v hk hproper hs :=
    hs.settled (.modifyFrame s f fun fr => .define fr k v) (kept_keyed.define f v hk hproper hs.keyed)

/-- Nothing that the setup adds is the scope of a program. -/
theorem kept_programless : Kept fun s => ∀ f, (s.frame f).role ≠ .program where
  add {s} proto body props hpiece hs f := by
    change ((s.addFrame (props (s.parentFrame proto))).2.frame f).role ≠ .program
    rw [Store.frame_addFrame_eq]
    split
    · exact hpiece.role _
    · exact hs f
  define {s} f k v _ _ hs g := by
    by_cases hg : g < s.frames.size
    · have hst := Store.Settled.modifyFrame s f fun fr => .define fr k v
      exact (hst.alike g hg).role.trans_ne (hs g)
    · rw [Store.frame_of_size_le (by simpa using hg)]
      simp

theorem first_keyed (host : Host) : (first host).Keyed where
  there o := by
    match o with
    | 0 => exact Nat.one_lt_two
    | o + 1 => exact Nat.one_lt_two
  keys f := by
    match f with
    | 0 => exact .empty none .core
    | 1 => exact .empty none .plain
    | f + 2 => exact .empty none .plain
  secluded o ho := by
    match o with
    | 0 => exact absurd rfl ho
    | o + 1 => exact absurd rfl ho

theorem first_programless (host : Host) (f : FrameId) : ((first host).frame f).role ≠ .program := by
  match f with
  | 0 => nofun
  | 1 => nofun
  | f + 2 => nofun

theorem size_prototypes (host : Host) : (prototypes { frames := #[{ role := .core }], host }).objects.size = 15 := by
  simp [prototypes, Store.addPlain, Store.addArray, Store.addFunction, Store.addWith, Store.addFrame, Store.addObject,
    Realm.errorKinds]

end Setup

/-- Without the scope of a program no scope is rooted. -/
theorem Store.not_rooted {s : Store} (h : ∀ f, (s.frame f).role ≠ .program) (f : FrameId) : ¬s.Rooted f := by
  intro hrooted
  induction hrooted with
  | program hrole => exact h _ hrole
  | inner _ _ _ ih => exact ih

theorem Store.orderly_initial (host : Host) : (initial host).Orderly := by
  refine Setup.kept_orderly.initial_of_prototypes host ⟨?_, ?_, not_rooted ?_ _⟩
  · exact Setup.kept_keyed.prototypes (Setup.first_keyed host)
  · rw [Setup.size_prototypes]
    decide
  · exact Setup.kept_programless.prototypes (Setup.first_programless host)

/-! ## Engines in the hands of a host -/

namespace Engine

variable {scopes : List FrameId} {e : Engine}

theorem orderly_new (settings : Settings) (host : Host) (services : List (Text × Service)) :
    (new settings host services).store.Orderly := by
  have hs := Setup.kept_orderly.services services (Store.orderly_initial host)
  simp only [new, store]
  split
  · exact hs.sealFrom true _ _
  · exact hs

/-- Work that binds only what computations may bind goes through orderly stores. -/
theorem orderly_run {α : Type} {p : Proc α} (haimed : ∀ o ∈ e.record p, o.Aimed) (h : e.store.Orderly) :
    (∀ o ∈ e.record p, o.state.store.Orderly) ∧ (e.run p).2.store.Orderly := by
  have hrun := (Passage.law_orderly e.limits).observeIn p e.fuel e.state haimed h
  rwa [Proc.observeIn_snd] at hrun

theorem Work.aimed {α : Type} {p : Proc α} (hp : Work scopes p) (h : Reached scopes e) :
    ∀ o ∈ e.record p, o.Aimed := (run_lawful h.held.sound (hp.behaves h.held.sound h.held.rooted)).aimed

/-- The store of an engine that a host can reach. -/
theorem Reached.orderly (h : Reached scopes e) : e.store.Orderly := by
  induction h with
  | new settings host services fuel => exact orderly_new settings host services
  | opened h hdesk hd ih => exact (orderly_run (run_lawful h.held.sound (hdesk.behaves h.held.rooted)).aimed ih).2
  | worked h hp ih => exact (orderly_run (hp.aimed h) ih).2
  | registered h name f ih =>
    unfold Session.register
    split
    · exact ih
    · exact Setup.kept_orderly.service name f ih
  | restricted h flag ih => exact ih.sealFrom flag _ _
  | collected h ih => exact ih

/-- The states of the engines that a host can reach: between the pieces of work for the host, and during them. -/
inductive Working : State → Prop
  | between {scopes : List FrameId} {e : Engine} (h : Reached scopes e) : Working e.state
  | during {scopes : List FrameId} {e : Engine} {α : Type} {p : Proc α} {o : Occurrence} (h : Reached scopes e)
      (hp : Work scopes p) (ho : o ∈ e.record p) : Working o.state

/-- Between the pieces of work and during them, every frame binds each key once, to an index or a name that a text
denotes, and no key of a character of the string that has its properties there. -/
theorem Working.keyed {s : State} (h : Working s) : s.store.Keyed := by
  cases h with
  | between h => exact h.orderly.keyed
  | during h hp ho => exact ((orderly_run (hp.aimed h) h.orderly).1 _ ho).keyed

end Engine

end ScriptEngine
