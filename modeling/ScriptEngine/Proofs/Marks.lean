import ScriptEngine.Proofs.Edits

/-!
# Marks that outlive their bindings

A frame keeps the marks of a key beside its bindings, and to drop a binding leaves them there. The mark of a masked
key goes when the key is bound again. The mark that keeps a key out of enumeration stays: a key that was dropped and
is bound anew is listed only if it has never been kept out. In everything else a scope behaves as if it had never
held what was dropped.

## Main definitions

* `Bench.forget`: a bench on which a scope has never held a key.
* `Bench.Abreast`: two benches after the same edits.
* `Frame.Trails`, `Store.Trails`: what differs between them.
* `Bench.Shows`: what is seen on the two benches.

## Main results

* `Store.Trails.after`: the same edits do the same on both benches.
* `Bench.shows_of_remove`: what a binding that was dropped leaves behind.
-/

namespace ScriptEngine

open Proc

/-! ## Frames -/

/-- The frame without a binding and without the marks of its key. -/
def Frame.forget (f : Frame) (k : Key) : Frame :=
  { f with
    entries := f.entries.filter (·.1 ≠ k)
    unlisted := f.unlisted.filter (· ≠ k)
    hidden := f.hidden.filter (· ≠ k) }

/-- Two frames that differ at most in the marks of one key: the first one may still keep the key out of enumeration,
and may still mask it as long as it is not bound. -/
structure Frame.Trails (k : Key) (stale : Bool) (f g : Frame) : Prop where
  role : f.role = g.role
  parent : f.parent = g.parent
  sealed : f.sealed = g.sealed
  entries : f.entries = g.entries
  unlisted (k' : Key) : k' ∈ f.unlisted ↔ k' ∈ g.unlisted ∨ stale = true ∧ k' = k
  hidden (k' : Key) : k' ≠ k ∨ g.holds k = true → (k' ∈ f.hidden ↔ k' ∈ g.hidden)

namespace Frame

variable {f g : Frame} {k k' : Key} {v : Value} {stale : Bool}

theorem mem_unlisted_define : k' ∈ (f.define k v).unlisted ↔ k' = k ∨ k' ∈ f.unlisted := by
  by_cases h : k ∈ f.unlisted
  · have hsame : (f.define k v).unlisted = f.unlisted := by simp [define, put, h]
    rw [hsame, or_iff_right_of_imp]
    rintro rfl
    exact h
  · have hadded : (f.define k v).unlisted = k :: f.unlisted := by simp [define, put, h]
    rw [hadded, List.mem_cons]

theorem mem_hidden_put : k' ∈ (f.put k v).hidden ↔ k' ∈ f.hidden ∧ k' ≠ k := by
  simp [put]

/-- A frame without a key trails itself with the marks that it has kept. -/
theorem Trails.start (f : Frame) (k : Key) : (f.erase k).Trails k (f.unlisted.contains k) (f.forget k) where
  role := rfl
  parent := rfl
  sealed := rfl
  entries := rfl
  unlisted k' := by
    by_cases h : k' = k
    · simp [erase, forget, h]
    · simp [erase, forget, h]
  hidden k' h := by
    have hfree : ¬ (f.forget k).holds k = true := by simp [holds_iff, forget]
    have hne : k' ≠ k := h.resolve_right hfree
    simp [erase, forget, hne]

namespace Trails

variable {a : Key}

theorem lookup? (h : f.Trails k stale g) (a : Key) : f.lookup? a = g.lookup? a := by
  rw [Frame.lookup?, Frame.lookup?, h.entries]

theorem holds (h : f.Trails k stale g) (a : Key) : f.holds a = g.holds a := by
  rw [Frame.holds, Frame.holds, h.lookup?]

theorem keys (h : f.Trails k stale g) : f.keys = g.keys := by
  rw [Frame.keys, Frame.keys, h.entries]

theorem put (h : f.Trails k stale g) (a : Key) (v : Value) : (f.put a v).Trails k stale (g.put a v) where
  role := h.role
  parent := h.parent
  sealed := h.sealed
  entries := congrArg (bindEntry a v) h.entries
  unlisted := h.unlisted
  hidden k' hk' := by
    rw [mem_hidden_put, mem_hidden_put]
    refine and_congr_left fun hne => h.hidden k' ?_
    by_cases hk : k' = k
    · subst hk
      exact .inr ((holds_put.1 (hk'.resolve_left fun hn => hn rfl)).resolve_left hne)
    · exact .inl hk

theorem define (h : f.Trails k stale g) (a : Key) (v : Value) : (f.define a v).Trails k stale (g.define a v) :=
  { h.put a v with
    unlisted := fun k' => by rw [mem_unlisted_define, mem_unlisted_define, h.unlisted, or_assoc] }

theorem mask (h : f.Trails k stale g) (a : Key) : (f.mask a).Trails k stale (g.mask a) :=
  { h.put a .undefined with
    hidden := fun k' hk' => by
      have hput := (h.put a .undefined).hidden k' hk'
      simp only [Frame.mask, List.mem_cons, hput] }

theorem erase (h : f.Trails k stale g) (a : Key) : (f.erase a).Trails k stale (g.erase a) where
  role := h.role
  parent := h.parent
  sealed := h.sealed
  entries := by rw [Frame.erase, Frame.erase, h.entries]
  unlisted := h.unlisted
  hidden k' hk' := h.hidden k' (hk'.imp_right holds_of_erase)

theorem write (h : f.Trails k stale g) (a : Key) (v : Value) : (f.write a v).Trails k stale (g.write a v) := by
  have hput := h.put a v
  unfold Frame.write
  rw [h.role]
  split
  · split
    · rename_i i
      have hlength : (f.put (.index i) v).length = (g.put (.index i) v).length := by
        rw [Frame.length, Frame.length, hput.lookup?]
      simp only [hlength]
      split
      · exact hput.put _ _
      · exact hput
    · split
      · exact h
      · exact hput
  · exact hput

theorem touch (h : f.Trails k stale g) (t : Touch) : (t.apply f).Trails k stale (t.apply g) := by
  cases t with
  | write a v => exact h.write a v
  | define a v => exact h.define a v
  | mask a => exact h.mask a
  | erase a => exact h.erase a

/-- The mark that was left behind keeps the key out of enumeration, once it is bound again. -/
theorem isListed (h : f.Trails k stale g) {a : Key} (ha : a ≠ k ∨ g.holds k = true) :
    f.isListed a = (g.isListed a && !(stale && a == k)) := by
  rw [Bool.eq_iff_iff]
  simp only [Frame.isListed, Bool.and_eq_true, Bool.not_eq_true', List.contains_eq_mem, decide_eq_false_iff_not,
    Bool.and_eq_false_iff, beq_eq_false_iff_ne, h.unlisted, h.hidden a ha, not_or, not_and_or, Bool.not_eq_true]
  tauto

/-- What is bound is masked in both frames or in neither. -/
theorem contains_hidden (h : f.Trails k stale g) {a : Key} (ha : g.holds a = true) :
    f.hidden.contains a = g.hidden.contains a := by
  have hor : a ≠ k ∨ g.holds k = true := by
    by_cases hk : a = k
    · exact .inr (hk ▸ ha)
    · exact .inl hk
  simp only [List.contains_eq_mem, h.hidden a hor]

theorem contains (h : f.Trails k stale g) (a : Key) : f.contains a = g.contains a := by
  rw [Frame.contains, Frame.contains, h.holds]
  cases ha : g.holds a with
  | false => rfl
  | true => rw [h.contains_hidden ha]

theorem isEnumerable (h : f.Trails k stale g) (a : Key) :
    f.isEnumerable a = (g.isEnumerable a && !(stale && a == k)) := by
  rw [Frame.isEnumerable, Frame.isEnumerable, h.holds, Bool.and_assoc]
  cases ha : g.holds a with
  | false => rfl
  | true =>
    refine congrArg (true && ·) (h.isListed ?_)
    by_cases hk : a = k
    · exact .inr (hk ▸ ha)
    · exact .inl hk

theorem localKeys (h : f.Trails k stale g) (listedOnly : Bool) :
    f.localKeys listedOnly = (g.localKeys listedOnly).filter fun a => !(listedOnly && stale && a == k) := by
  simp only [Frame.localKeys, h.keys, List.filter_filter]
  refine List.filter_congr fun a ha => ?_
  rw [h.contains_hidden (holds_of_mem_keys ha)]
  have hunlisted : f.unlisted.contains a = (g.unlisted.contains a || (stale && a == k)) := by
    rw [Bool.eq_iff_iff]
    simp [h.unlisted]
  rw [hunlisted]
  cases listedOnly <;> cases stale <;> cases hk : a == k <;> simp

end Trails

end Frame

/-! ## Stores -/

/-- Two stores that differ at most in the marks of one key of one frame. -/
structure Store.Trails (f : FrameId) (k : Key) (stale : Bool) (s t : Store) : Prop where
  lt_size : f < s.frames.size
  size : t.frames.size = s.frames.size
  objects : t.objects = s.objects
  elsewhere (g : FrameId) : g ≠ f → t.frame g = s.frame g
  here : (s.frame f).Trails k stale (t.frame f)

namespace Store.Trails

variable {s t : Store} {f g : FrameId} {k k' : Key} {o : ObjectId} {stale : Bool}

theorem role (h : Trails f k stale s t) (g : FrameId) : (s.frame g).role = (t.frame g).role := by
  by_cases hg : g = f
  · subst hg
    exact h.here.role
  · rw [h.elsewhere g hg]

theorem parent (h : Trails f k stale s t) (g : FrameId) : (s.frame g).parent = (t.frame g).parent := by
  by_cases hg : g = f
  · subst hg
    exact h.here.parent
  · rw [h.elsewhere g hg]

theorem sealed (h : Trails f k stale s t) (g : FrameId) : (s.frame g).sealed = (t.frame g).sealed := by
  by_cases hg : g = f
  · subst hg
    exact h.here.sealed
  · rw [h.elsewhere g hg]

theorem entries (h : Trails f k stale s t) (g : FrameId) : (s.frame g).entries = (t.frame g).entries := by
  by_cases hg : g = f
  · subst hg
    exact h.here.entries
  · rw [h.elsewhere g hg]

theorem lookup? (h : Trails f k stale s t) (g : FrameId) (k' : Key) :
    (s.frame g).lookup? k' = (t.frame g).lookup? k' := by
  rw [Frame.lookup?, Frame.lookup?, h.entries]

theorem holds (h : Trails f k stale s t) (g : FrameId) (k' : Key) : (s.frame g).holds k' = (t.frame g).holds k' := by
  rw [Frame.holds, Frame.holds, h.lookup?]

theorem keys (h : Trails f k stale s t) (g : FrameId) : (s.frame g).keys = (t.frame g).keys := by
  rw [Frame.keys, Frame.keys, h.entries]

theorem chain (h : Trails f k stale s t) (g : FrameId) : s.chain g = t.chain g :=
  ancestors_congr fun g' _ => h.parent g'

theorem object (h : Trails f k stale s t) (o : ObjectId) : s.object o = t.object o := by
  rw [Store.object, Store.object, h.objects]

theorem body (h : Trails f k stale s t) (o : ObjectId) : s.body o = t.body o := congrArg Object.body (h.object o)

theorem propsOf (h : Trails f k stale s t) (o : ObjectId) : s.propsOf o = t.propsOf o :=
  congrArg Object.props (h.object o)

theorem find? (h : Trails f k stale s t) (g : FrameId) (k' : Key) : s.find? g k' = t.find? g k' := by
  simp only [Store.find?, h.chain, h.lookup?]

theorem getProperty (h : Trails f k stale s t) (o : ObjectId) (k' : Key) : s.getProperty o k' = t.getProperty o k' := by
  simp only [Store.getProperty, h.body, h.propsOf, h.find?]

theorem hasProperty (h : Trails f k stale s t) (o : ObjectId) (k' : Key) : s.hasProperty o k' = t.hasProperty o k' := by
  simp only [Store.hasProperty, h.body, h.propsOf, h.find?]

theorem propertyKeys (h : Trails f k stale s t) (o : ObjectId) : s.propertyKeys o = t.propertyKeys o := by
  simp only [Store.propertyKeys, h.propsOf, h.chain, h.keys]

theorem get (h : Trails f k stale s t) (g : FrameId) (k' : Key) : s.get g k' = t.get g k' := by
  simp only [Store.get, levelLookup?, h.chain, h.role, h.hasProperty, h.getProperty, h.lookup?]

theorem owner? (h : Trails f k stale s t) (g : FrameId) (k' : Key) : s.owner? g k' = t.owner? g k' := by
  simp only [Store.owner?, levelOwner?, h.chain, h.role, h.hasProperty, h.holds]

theorem has (h : Trails f k stale s t) (g : FrameId) (k' : Key) : s.has g k' = t.has g k' := by
  rw [Store.has, Store.has, h.owner?]

theorem globalScope (h : Trails f k stale s t) (g : FrameId) : s.globalScope g = t.globalScope g := by
  simp only [Store.globalScope, nearest, root, h.chain, h.role]

theorem levelKeys (h : Trails f k stale s t) (g : FrameId) : s.levelKeys g = t.levelKeys g := by
  simp only [Store.levelKeys, h.role, h.propertyKeys, h.keys]

theorem binder? (h : Trails f k stale s t) (k' : Key) : s.binder? k' = t.binder? k' := by
  funext c
  cases c with
  | scope g => rfl
  | object o => simp only [Store.binder?, h.body, h.propsOf]

/-- An edit has the same effect on both stores. -/
theorem effect (h : Trails f k stale s t) (e : Edit) : e.effect s = e.effect t := by
  cases e <;> simp only [Edit.effect, h.has, h.holds, h.role, h.owner?, h.globalScope, h.binder?]

theorem plain (h : Trails f k stale s t) {e : Edit} (he : e.Plain s) : e.Plain t := by
  have hscope {g : FrameId} (hg : s.Arrayless g) : t.Arrayless g := fun g' hg' o hrole => by
    rw [← h.body]
    exact hg g' (by rwa [h.chain]) o (by rwa [h.role])
  cases e with
  | set g a v => exact hscope he
  | update g a v => exact hscope he
  | _ => trivial

/-- The same effect on both stores leaves no further difference. -/
theorem after (h : Trails f k stale s t) (e : Effect) : Trails f k stale (s.after e) (t.after e) := by
  cases e with
  | nothing => exact h
  | scope parent role =>
    exact
      { lt_size := Nat.lt_of_lt_of_le h.lt_size (by simp [Store.after, addFrame])
        size := by simp [Store.after, addFrame, h.size]
        objects := h.objects
        elsewhere := fun g hg => by
          simp only [Store.after, frame_addFrame_eq, h.size, h.elsewhere g hg]
        here := by
          simp only [Store.after, frame_addFrame_eq, h.size, Nat.ne_of_lt h.lt_size, if_false]
          exact h.here }
  | touch g a =>
    rw [Store.after, Store.after, h.sealed]
    split
    · exact h
    · exact
        { lt_size := by simpa using h.lt_size
          size := by simp [h.size]
          objects := h.objects
          elsewhere := fun g' hg' => by
            simp only [frame_modifyFrame, h.size, h.elsewhere g' hg']
          here := by
            simp only [frame_modifyFrame, h.size]
            split
            · exact h.here.touch a
            · exact h.here }

/-- What a loop along a chain lists: the mark that was left behind matters where its frame is the first to have the
key. -/
theorem listedKeys (h : Trails f k stale s t) (hrole : ∀ o, (t.frame f).role ≠ .subject o) (seen : List Key)
    (gs : List FrameId) : s.listedKeys seen gs = (t.listedKeys seen gs).filter fun a =>
      !(stale && a == k && gs.find? (fun g => (t.levelKeys g).contains k) == some f) := by
  induction gs generalizing seen with
  | nil => rfl
  | cons g rest ih =>
    rw [Store.listedKeys, Store.listedKeys, h.levelKeys]
    -- A key of this frame is fresh or has been seen.
    have hcases {a : Key} (ha : a ∉ (t.levelKeys g).eraseDups.filter (fun a => !seen.contains a) ++ seen) :
        a ∉ t.levelKeys g := by
      intro hkey
      by_cases hseen : a ∈ seen
      · exact ha (List.mem_append_right _ hseen)
      · exact ha (List.mem_append_left _ (List.mem_filter.2 ⟨List.mem_eraseDups.2 hkey, by simpa using hseen⟩))
    have hkeys {a : Key} (ha : a ∈ (t.levelKeys g).eraseDups.filter fun a => !seen.contains a) : a ∈ t.levelKeys g :=
      List.mem_eraseDups.1 (List.mem_filter.1 ha).1
    generalize (t.levelKeys g).eraseDups.filter (fun a => !seen.contains a) = fresh at hcases hkeys
    rw [List.filter_append, List.filter_filter, ih]
    congr 1
    · refine List.filter_congr fun a ha => ?_
      by_cases hk : a = k
      · -- The key is there, so this is the first frame that has it.
        subst hk
        have hfound : (g :: rest).find? (fun g => (t.levelKeys g).contains a) = some g := by
          simp [hkeys ha]
        rw [hfound]
        by_cases hg : g = f
        · subst hg
          have hheld : a ∈ (t.frame g).keys := by
            rw [← Founded.levelKeys_eq hrole]
            exact hkeys ha
          rw [h.here.isListed (.inr (Frame.holds_of_mem_keys hheld)), Bool.and_comm]
          simp
        · rw [h.elsewhere g hg]
          simp [hg]
      · have hlisted : (s.frame g).isListed a = (t.frame g).isListed a := by
          by_cases hg : g = f
          · subst hg
            rw [h.here.isListed (.inl hk)]
            simp [hk]
          · rw [h.elsewhere g hg]
        simp [hlisted, hk]
    · refine List.filter_congr fun a ha => ?_
      have hunseen := hcases (not_mem_of_mem_listedKeys ha)
      by_cases hk : a = k
      · subst hk
        rw [List.find?_cons_of_neg (by simpa using hunseen)]
      · simp [beq_eq_false_iff_ne.2 hk]

end Store.Trails

/-! ## Benches -/

/-- The bench on which a scope has never held a key; all its other bindings and marks are the same. -/
def Bench.forget (b : Bench) (f : FrameId) (k : Key) : Bench :=
  (b.withStore fun s => ((), s.modifyFrame f (·.forget k))).2

/-- Two benches after the same edits. -/
inductive Bench.Abreast (b d : Bench) : Bench → Bench → Prop
  | start : Abreast b d b d
  | edit {b' d' : Bench} (h : Abreast b d b' d') (e : Edit) (hplain : e.Plain b'.store) :
      Abreast b d (e.run b') (e.run d')

/-- What is seen of the scopes of a bench, against another bench, if a mark may have been left behind which keeps a
key of scope `f` out of enumeration. -/
structure Bench.Shows (b d : Bench) (stale : Bool) (f : FrameId) (k : Key) : Prop where
  get (g : FrameId) (a : Key) : b.store.get g a = d.store.get g a
  has (g : FrameId) (a : Key) : b.has a (.scope g) = d.has a (.scope g)
  contains (g : FrameId) (a : Key) : (b.store.frame g).contains a = (d.store.frame g).contains a
  localKeys (g : FrameId) : (b.store.frame g).localKeys false = (d.store.frame g).localKeys false
  isEnumerable (g : FrameId) (a : Key) : (b.store.frame g).isEnumerable a =
    ((d.store.frame g).isEnumerable a && !(stale && g == f && a == k))
  listedLocalKeys (g : FrameId) : (b.store.frame g).localKeys true =
    ((d.store.frame g).localKeys true).filter fun a => !(stale && g == f && a == k)
  /-- The mark matters where this scope is the first one with the key. Where it has a subject, its marks are also
  applied to what the subject has, and this is not said here. -/
  enumerableKeys (g : FrameId) : (∀ o, (d.store.frame f).role ≠ .subject o) →
    b.enumerableKeys (.scope g) = (d.enumerableKeys (.scope g)).filter fun a =>
      !(stale && a == k && (d.store.chain g).find? (fun g => (d.store.levelKeys g).contains k) == some f)

namespace Store.Trails

variable {s t : Store} {f g : FrameId} {k : Key} {stale : Bool}

theorem shows {b d : Bench} (h : Trails f k stale b.store d.store) : b.Shows d stale f k where
  get := h.get
  has g a := h.has g a
  contains g a := by
    by_cases hg : g = f
    · subst hg
      exact h.here.contains a
    · rw [h.elsewhere g hg]
  localKeys g := by
    by_cases hg : g = f
    · subst hg
      simpa using h.here.localKeys false
    · rw [h.elsewhere g hg]
  isEnumerable g a := by
    by_cases hg : g = f
    · subst hg
      simpa using h.here.isEnumerable a
    · rw [h.elsewhere g hg]
      simp [hg]
  listedLocalKeys g := by
    by_cases hg : g = f
    · subst hg
      simpa using h.here.localKeys true
    · rw [h.elsewhere g hg]
      simp [beq_eq_false_iff_ne.2 hg]
  enumerableKeys g hrole := by
    rw [Bench.enumerableKeys, Store.enumerableKeys, h.chain]
    exact h.listedKeys hrole [] _

end Store.Trails

namespace Bench

variable {b c d : Bench} {f : FrameId} {k : Key}

/-- A binding that was dropped was there, and nothing refused to drop it. -/
theorem store_remove (h : (b.perform (Place.delete ⟨.scope f, k⟩) fun _ a => a).1 = .value true) :
    f < b.store.frames.size ∧ ((Edit.remove f k).run b).store = b.store.modifyFrame f (·.erase k) := by
  -- What is reported is the verdict on the action.
  have hreport : ((Action.remove f k).perform b.engine.limits b.engine.state).1 = .ok true := by
    have hrun : (Place.delete ⟨.scope f, k⟩).runIn b.engine.limits b.engine.fuel b.engine.state =
        Course.andThen (Course.perform b.engine.limits (.remove f k) b.engine.state) fun r s => (.ok r, s) := rfl
    revert h
    simp only [Bench.perform, Engine.perform, Engine.run, hrun, Course.perform]
    rcases (Action.remove f k).perform b.engine.limits b.engine.state with ⟨e | r, t⟩
    · exact fun h => by cases h
    · exact fun h => by cases h; rfl
  simp only [Action.perform, Action.demand, Nat.not_lt_zero, if_false, Action.enact] at hreport
  split at hreport
  · cases hreport
  rename_i hheld
  split at hreport
  · cases hreport
  rename_i hopen
  have hkept : (!(b.store.frame f).holds k || ((b.store.frame f).role == .slots && k == Key.length)) = false :=
    Bool.eq_false_iff.2 hheld
  have heffect : (Edit.remove f k).effect b.store = .touch f (.erase k) := by
    have hdrops := congrArg (!·) hkept
    simp only [Bool.not_or, Bool.not_not, Bool.not_false] at hdrops
    rw [Edit.effect, if_pos hdrops]
  constructor
  · refine Nat.lt_of_not_le fun hle => ?_
    rw [Store.frame_of_size_le hle] at hkept
    cases hkept
  · have hunsealed : ¬ ((b.store.frame f).sealed = true ∨ Frame.mostElements < (Touch.erase k).demand) := by
      rintro (hsealed | hroom)
      · exact hopen hsealed
      · exact Nat.not_lt_zero _ hroom
    rw [Edit.store_run (e := .remove f k) trivial, heffect, Store.after, if_neg hunsealed]
    rfl

/-- What a binding that was dropped leaves behind, whatever is edited afterwards: at most a mark that keeps its key
out of enumeration, and that only if the key had been kept out of enumeration before. -/
theorem shows_of_remove (h : (b.perform (Place.delete ⟨.scope f, k⟩) fun _ a => a).1 = .value true)
    (hcd : Abreast ((Edit.remove f k).run b) (b.forget f k) c d) :
    c.Shows d ((b.store.frame f).unlisted.contains k) f k := by
  refine Store.Trails.shows ?_
  obtain ⟨hlt, hremove⟩ := store_remove h
  induction hcd with
  | start =>
    have hforget : (b.forget f k).store = b.store.modifyFrame f (·.forget k) := rfl
    rw [hremove, hforget]
    exact
      { lt_size := by simpa using hlt
        size := by simp
        objects := rfl
        elsewhere := fun g hg => by
          rw [Store.frame_modifyFrame_of_ne _ _ (Ne.symm hg), Store.frame_modifyFrame_of_ne _ _ (Ne.symm hg)]
        here := by
          rw [Store.frame_modifyFrame_self _ _ _ hlt, Store.frame_modifyFrame_self _ _ _ hlt]
          exact .start _ k }
  | edit h e hplain ih =>
    rw [Edit.store_run hplain, Edit.store_run (ih.plain hplain), ih.effect]
    exact ih.after _

/-- A bench with one scope and a key in it that enumeration leaves out. -/
def oneDefined : Bench :=
  (Edit.define 0 "x" .null).run { engine := { fuel := 1, state := { store := { frames := #[{}] } } } }

/-- A key that is dropped and bound anew is seen as before, but not listed. -/
theorem shows_of_remove_oneDefined :
    ((Edit.put 0 "x" .null).run ((Edit.remove 0 "x").run oneDefined)).Shows
      ((Edit.put 0 "x" .null).run (oneDefined.forget 0 "x")) true 0 "x" :=
  shows_of_remove (b := oneDefined) (f := 0) (k := "x") rfl (.edit .start (.put 0 "x" .null) trivial)

/-- A scope that dropped the key differs from one that never held it. -/
theorem remove_leaves_trace :
    (oneDefined.perform (Place.delete ⟨.scope 0, "x"⟩) fun _ a => a).1 = .value true ∧
      ((Edit.put 0 "x" .null).run ((Edit.remove 0 "x").run oneDefined)).enumerableKeys (.scope 0) = [] ∧
      ((Edit.put 0 "x" .null).run (oneDefined.forget 0 "x")).enumerableKeys (.scope 0) = [("x" : Key)] :=
  ⟨rfl, by decide, by decide⟩

end Bench

end ScriptEngine
