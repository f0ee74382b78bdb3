import ScriptEngine.Bench
import ScriptEngine.Proofs.Assignment
import ScriptEngine.Proofs.Enumeration

/-!
# Edits by hand

On a bench the host changes scopes one key at a time. Each edit is aimed at one frame and touches it in one of four
ways, or is refused. The bindings of a frame stand in the order in which they were made: a key that is bound again
keeps its place, and one that was dropped and is bound anew goes to the end. Enumeration goes through the frames of a
chain from the nearest on, and through each in this order.

## Main definitions

* `Edit`: the changes by hand, with `Edit.run` for what they do to a bench.
* `Touch`: what an edit does to one frame.
* `Edit.effect`: what an edit does to the store, with `Store.after` for the store after it.
* `Bench.History`: a bench and what it was before each edit.
* `Frame.Elder`: one key of a frame was bound before another.
* `Bench.Enumerates`: the keys of a chain of scopes.

## Main results

* `Edit.store_run`: edits do to the store what they are said to do.
* `Frame.InOrder.follows`: a touch keeps the bindings in their order.
* `Bench.History.enumerates`: the keys of a chain after any edits.
-/

namespace ScriptEngine

open Proc

/-! ## Edits -/

/-- A change that the host makes by hand. -/
inductive Edit where
  /-- Keeps a new scope. -/
  | scope (name : Text) (parent : Option FrameId) (role : Frame.Role)
  /-- Binds a key in a scope. -/
  | put (f : FrameId) (k : Key) (v : Value)
  /-- Binds a key in a scope and keeps it out of enumeration. -/
  | define (f : FrameId) (k : Key) (v : Value)
  /-- Masks a key of a scope. -/
  | hide (f : FrameId) (k : Key)
  /-- Drops a binding of a scope. -/
  | remove (f : FrameId) (k : Key)
  /-- Writes a key where it is held, or in the scope of the program. -/
  | set (f : FrameId) (k : Key) (v : Value)
  /-- Writes a key where it is held. -/
  | update (f : FrameId) (k : Key) (v : Value)

/-- The bench after an edit. -/
def Edit.run (b : Bench) : Edit → Bench
  | scope name parent role => b.keepScope name parent role
  | put f k v => (b.perform (putIn (.scope f) k v) fun _ a => a).2
  | define f k v => (b.define (.scope f) k v).2
  | hide f k => (b.hide (.scope f) k).2
  | remove f k => (b.perform (Place.delete ⟨.scope f, k⟩) fun _ a => a).2
  | set f k v => (b.perform (Place.assign ⟨.scope f, k⟩ v) fun _ a => a).2
  | update f k v => (b.perform (Proc.update (.scope f) k v) fun _ a => a).2

/-- A scope without arrays for subjects along its chain. -/
def Store.Arrayless (s : Store) (f : FrameId) : Prop :=
  ∀ g ∈ s.chain f, ∀ o, (s.frame g).role = .subject o → (s.body o).isArray = false

/-- An edit that writes to no array, whose length takes a conversion and with it perhaps a call. -/
def Edit.Plain (s : Store) : Edit → Prop
  | set f _ _ => s.Arrayless f
  | update f _ _ => s.Arrayless f
  | _ => True

/-! ## What edits do to frames -/

/-- What an edit does to one frame. -/
inductive Touch where
  | write (k : Key) (v : Value)
  | define (k : Key) (v : Value)
  | mask (k : Key)
  | erase (k : Key)

namespace Touch

/-- The frame after a touch. -/
def apply (f : Frame) : Touch → Frame
  | write k v => f.write k v
  | define k v => f.define k v
  | mask k => f.mask k
  | erase k => f.erase k

/-- The number of elements that a touch asks room for. -/
def demand : Touch → Nat
  | write k _ => (k.index?.map (· + 1)).getD 0
  | _ => 0

end Touch

/-- What an edit does to a store. -/
inductive Effect where
  | nothing
  | scope (parent : Option FrameId) (role : Frame.Role)
  | touch (f : FrameId) (t : Touch)

/-- A touch of a frame, if there is one to touch. -/
def Effect.touchAt (f : Option FrameId) (t : Touch) : Effect := f.elim .nothing fun f => .touch f t

namespace Store

/-- The store after an effect. A frame that is sealed, or for which there is no room, is not touched. -/
def after (s : Store) : Effect → Store
  | .nothing => s
  | .scope parent role => (s.addFrame { parent, role }).2
  | .touch f t => if (s.frame f).sealed = true ∨ Frame.mostElements < t.demand then s else s.modifyFrame f t.apply

/-- The frame in which a key of a container is bound; what is fixed is not bound at all. -/
def binder? (s : Store) (k : Key) : Container → Option FrameId
  | .scope f => some f
  | .object o => if ((s.body o).fixed? k).isSome then none else some (s.propsOf o)

end Store

/-- The effect that an edit has on a store. -/
def Edit.effect (s : Store) : Edit → Effect
  | scope _ parent role => .scope parent role
  | put f k v => .touch f (.write k v)
  | define f k v => .touch f (.define k v)
  | hide f k => if s.has f k then .touch f (.mask k) else .nothing
  | remove f k =>
    if (s.frame f).holds k && !((s.frame f).role == .slots && k == Key.length) then .touch f (.erase k) else .nothing
  | set f k v => .touchAt (s.binder? k ((s.owner? f k).getD (.scope (s.globalScope f)))) (.write k v)
  | update f k v => .touchAt ((s.owner? f k).bind (s.binder? k)) (.write k v)

/-! ## Edits on a bench -/

section Runs

variable {α β : Type} {limits : Limits} {bound : Nat} {handler : Handler} {s : State} {f : FrameId} {k : Key}
  {v : Value}

/-- The end of a run that throws nothing and leaves the store `t`. -/
def Course.Leaves (t : Store) (r : Outcome α × State) : Prop := r.2.store = t ∧ ∀ v, r.1 ≠ .thrown v

namespace Course.Leaves

theorem perform (a : Action) :
    Leaves (a.perform limits s).2.store ((Proc.perform a).run limits bound handler s) := by
  change Leaves _ (Course.andThen (Course.perform limits a s) _)
  rw [Course.perform]
  rcases a.perform limits s with ⟨e | r, t⟩
  · exact ⟨rfl, by simp⟩
  · exact ⟨rfl, by simp [Proc.run]⟩

theorem result {t : Store} {p : Proc α} (h : Leaves t (p.run limits bound handler s)) (b : β) :
    Leaves t ((p >>= fun _ => pure b).run limits bound handler s) := by
  rw [run_bind]
  revert h
  rcases p.run limits bound handler s with ⟨_ | _ | _ | _, u⟩
  · exact fun h => ⟨h.1, by simp⟩
  · exact fun h => absurd rfl (h.2 _)
  · exact fun h => ⟨h.1, by simp⟩
  · exact fun h => ⟨h.1, by simp⟩

end Course.Leaves

theorem Action.store_perform_put (s : State) (f : FrameId) (k : Key) (v : Value) :
    ((put f k v).perform limits s).2.store = s.store.after (.touch f (.write k v)) := by
  simp only [perform, demand, enact, changeFrame, Store.after, Touch.demand]
  by_cases hsealed : (s.store.frame f).sealed = true
  · simp [hsealed]
  · by_cases hroom : Frame.mostElements < (k.index?.map (· + 1)).getD 0
    · simp [hroom, hsealed]
    · simp [hroom, hsealed, Touch.apply]

theorem Action.store_perform_remove (s : State) (f : FrameId) (k : Key) :
    ((remove f k).perform limits s).2.store = s.store.after ((Edit.remove f k).effect s.store) := by
  simp only [perform, demand, Nat.not_lt_zero, if_false, enact, Edit.effect]
  by_cases hholds : (s.store.frame f).holds k = true
  · by_cases hlength : ((s.store.frame f).role == .slots && k == Key.length) = true
    · simp [hholds, hlength, Store.after]
    · by_cases hsealed : (s.store.frame f).sealed = true
      · simp [hholds, hlength, hsealed, Store.after]
      · simp [hholds, hlength, hsealed, Store.after, Touch.demand, Touch.apply]
  · simp [hholds, Store.after]

/-- To write to a container that is no array is to touch the frame in which the key is bound. -/
theorem leaves_putIn {c : Container} (hc : ∀ o, c = .object o → (s.store.body o).isArray = false) :
    Course.Leaves (s.store.after (.touchAt (s.store.binder? k c) (.write k v)))
      ((putIn c k v).run limits bound handler s) := by
  have hput (g : FrameId) : Course.Leaves (s.store.after (.touch g (.write k v)))
      ((perform (.put g k v)).run limits bound handler s) := by
    have hleaves : Course.Leaves _ ((perform (.put g k v)).run limits bound handler s) := .perform _
    rwa [Action.store_perform_put] at hleaves
  cases c with
  | scope g => exact hput g
  | object o =>
    have hbody : (putIn (.object o) k v).run limits bound handler s =
        (if ((s.store.body o).fixed? k).isSome = true then return ()
          else if ((s.store.body o).isArray && k = Key.length) = true then do
            let n ← toInteger v
            perform (.resize (← read (·.propsOf o)) (lengthOf n))
          else do perform (.put (← read (·.propsOf o)) k v) : Proc Unit).run limits bound handler s := rfl
    rw [hbody, hc o rfl]
    by_cases hfixed : ((s.store.body o).fixed? k).isSome = true
    · simp only [hfixed, if_true, Store.binder?]
      exact ⟨rfl, by simp⟩
    · simp only [hfixed, Store.binder?, Bool.false_and, Bool.false_eq_true, if_false]
      exact hput _

/-- Work that throws nothing leaves the bench with what its run leaves. -/
theorem Bench.store_perform {b : Bench} {c : Proc α} {t : Store} (view : Store → α → β)
    (h : Course.Leaves t (c.runIn b.engine.limits b.engine.fuel b.engine.state)) :
    (b.perform c view).2.store = t := by
  revert h
  simp only [Bench.perform, Bench.store, Engine.perform, Engine.run, Engine.store]
  rcases c.runIn b.engine.limits b.engine.fuel b.engine.state with ⟨_ | _ | _ | _, u⟩
  · exact fun h => h.1
  · exact fun h => absurd rfl (h.2 _)
  · exact fun h => h.1
  · exact fun h => h.1

end Runs

namespace Store

variable {s : Store} {f : FrameId} {k : Key}

theorem modifyFrame_id (s : Store) (f : FrameId) : (s.modifyFrame f fun fr => fr) = s := by
  have hframes : s.frames.modify f (fun fr => fr) = s.frames :=
    Array.ext (by simp) fun i _ _ => by simp [Array.getElem_modify]
  simp only [modifyFrame, hframes]

/-- A container that holds a key is no array if no scope of the chain has one for its subject. -/
theorem Arrayless.owner? (h : s.Arrayless f) {o : ObjectId} (howner : s.owner? f k = some (.object o)) :
    (s.body o).isArray = false := by
  obtain ⟨g, hg, hlevel⟩ := List.exists_of_findSome?_eq_some howner
  unfold levelOwner? at hlevel
  split at hlevel
  · rename_i o' hrole
    split at hlevel
    · obtain rfl : o' = o := by simpa using hlevel
      exact h g hg _ hrole
    · split at hlevel <;> cases hlevel
  · split at hlevel <;> cases hlevel

end Store

/-- What an edit does to the store of a bench. -/
theorem Edit.store_run {b : Bench} {e : Edit} (h : e.Plain b.store) :
    (e.run b).store = b.store.after (e.effect b.store) := by
  cases e with
  | scope name parent role => rfl
  | put f k v => exact Bench.store_perform _ (leaves_putIn (c := .scope f) (by simp))
  | define f k v =>
    simp only [run, Bench.define, Bench.change, effect, Store.after, Bench.frameOf]
    by_cases hsealed : (b.store.frame f).sealed = true
    · simp [hsealed]
    · simp only [hsealed, Bool.false_eq_true, if_false, Touch.demand, Nat.not_lt_zero, or_self]
      rfl
  | hide f k =>
    simp only [run, Bench.hide, Bench.change, effect, Bench.frameOf]
    by_cases hhas : b.store.has f k = true
    · by_cases hsealed : (b.store.frame f).sealed = true
      · simp [hsealed, hhas, Store.after]
      · simp only [hsealed, hhas, Store.after, Bool.false_eq_true, if_false, if_true, Touch.demand, Nat.not_lt_zero,
          or_self]
        rfl
    · by_cases hsealed : (b.store.frame f).sealed = true
      · simp [hsealed, hhas, Store.after]
      · simp only [hsealed, hhas, Bool.false_eq_true, if_false]
        exact b.store.modifyFrame_id f
  | remove f k => exact (Bench.store_perform _ (.perform _)).trans (Action.store_perform_remove _ f k)
  | set f k v =>
    have hc : ∀ o, (b.store.owner? f k).getD (.scope (b.store.globalScope f)) = .object o →
        (b.store.body o).isArray = false := by
      intro o ho
      cases howner : b.store.owner? f k with
      | none => simp [howner] at ho
      | some c => exact Store.Arrayless.owner? h (howner.trans (by simpa [howner] using ho))
    exact Bench.store_perform _ (Course.Leaves.result (p := putVariable f k v) (leaves_putIn hc) v)
  | update f k v =>
    refine Bench.store_perform _ ?_
    rw [Proc.runIn, run_update, effect]
    cases howner : b.store.owner? f k with
    | none =>
      rw [show b.engine.state.store.owner? f k = none from howner]
      exact ⟨rfl, by simp⟩
    | some c =>
      have hc : ∀ o, c = .object o → (b.store.body o).isArray = false := by
        rintro o rfl
        exact Store.Arrayless.owner? h howner
      rw [show b.engine.state.store.owner? f k = some c from howner]
      exact .result (leaves_putIn hc) true

/-! ## The order of bindings -/

namespace Frame

variable {f g : Frame} {past : List Frame} {k k' : Key} {v : Value}

/-- One key was bound before another, in a frame of which it is given what it has been, the latest first: once the
second key was not bound, and the first one has been bound ever since. -/
def Elder (past : List Frame) (k k' : Key) : Prop :=
  ∃ later f earlier, past = later ++ f :: earlier ∧ f.holds k' = false ∧ ∀ g ∈ later ++ [f], g.holds k = true

/-- The keys of a frame stand in the order in which they were bound. -/
def InOrder (f : Frame) (past : List Frame) : Prop := f.keys.Pairwise (Elder (f :: past))

/-- How the keys of a frame go on: some are dropped, or one is added at the end. -/
def Follows (f g : Frame) : Prop := g.keys.Sublist f.keys ∨ ∃ k, f.holds k = false ∧ g.keys = f.keys ++ [k]

theorem Elder.cons (h : Elder past k k') (hg : g.holds k = true) : Elder (g :: past) k k' := by
  obtain ⟨later, f, earlier, rfl, hfree, hheld⟩ := h
  exact ⟨g :: later, f, earlier, rfl, hfree, List.forall_mem_cons.2 ⟨hg, hheld⟩⟩

/-- Keys that are dropped leave the others in their order, and a new key is the youngest of all. -/
theorem InOrder.follows (h : f.InOrder past) (hfg : f.Follows g) : g.InOrder (f :: past) := by
  have hold {ks : List Key} (hks : ks.Sublist f.keys) (hheld : ∀ k ∈ ks, g.holds k = true) :
      ks.Pairwise (Elder (g :: f :: past)) :=
    (List.Pairwise.sublist hks h).imp_of_mem fun hk _ helder => helder.cons (hheld _ hk)
  obtain hdropped | ⟨k, hfree, hadded⟩ := hfg
  · exact hold hdropped fun k hk => holds_of_mem_keys hk
  · have hheld (k' : Key) (hk' : k' ∈ f.keys) : g.holds k' = true := holds_of_mem_keys (by simp [hadded, hk'])
    rw [InOrder, hadded, List.pairwise_append]
    refine ⟨hold (.refl _) hheld, List.pairwise_singleton _ _, fun k₁ hk₁ k₂ hk₂ => ?_⟩
    obtain rfl := List.mem_singleton.1 hk₂
    exact ⟨[g], f, past, rfl, hfree, by simp [hheld k₁ hk₁, holds_of_mem_keys hk₁]⟩

theorem Follows.refl (f : Frame) : f.Follows f := .inl (.refl _)

theorem Follows.put (f : Frame) (k : Key) (v : Value) : f.Follows (f.put k v) := by
  by_cases hk : k ∈ f.keys
  · exact .inl (by simp [keys_put, hk])
  · refine .inr ⟨k, ?_, by simp [keys_put, hk]⟩
    exact Bool.eq_false_iff.2 fun hholds => hk (mem_keys_of_holds hholds)

theorem Follows.erase (f : Frame) (k : Key) : f.Follows (f.erase k) :=
  .inl (List.Sublist.map _ List.filter_sublist)

theorem Alike.touch (f : Frame) (t : Touch) : f.Alike (t.apply f) := by
  cases t with
  | write k v => exact .write f k v
  | define k v => exact .define f k v
  | mask k => exact ⟨rfl, rfl⟩
  | erase k => exact .erase f k

/-- On a frame that is not that of an array. -/
theorem Follows.touch (hf : f.role ≠ .slots) (t : Touch) : f.Follows (t.apply f) := by
  cases t with
  | write k v =>
    rw [Touch.apply, write_eq_put hf]
    exact .put f k v
  | define k v => exact .put f k v
  | mask k => exact .put f k .undefined
  | erase k => exact .erase f k

end Frame

/-! ## Benches and what they were -/

namespace Store

variable {s : Store} {f g : FrameId} {k : Key}

/-- What an effect does to one frame: the frame is new, it is as it was, or it is touched. -/
theorem frame_after (s : Store) (e : Effect) (g : FrameId) :
    (s.frames.size ≤ g ∧ ((s.after e).frame g).entries = []) ∨ (s.after e).frame g = s.frame g ∨
      ∃ t : Touch, (s.after e).frame g = t.apply (s.frame g) := by
  cases e with
  | nothing => exact .inr (.inl rfl)
  | scope parent role =>
    rw [after, frame_addFrame_eq]
    by_cases hg : g = s.frames.size
    · exact .inl ⟨Nat.le_of_eq hg.symm, by simp [hg]⟩
    · exact .inr (.inl (by simp [hg]))
  | touch f t =>
    rw [after]
    split
    · exact .inr (.inl rfl)
    · rw [frame_modifyFrame]
      split
      · exact .inr (.inr ⟨t, rfl⟩)
      · exact .inr (.inl rfl)

/-- The keys of a frame go on in order, if it is not that of an array. -/
theorem follows_after {e : Effect} (hrole : ((s.after e).frame g).role ≠ .slots) :
    (s.frame g).role ≠ .slots ∧ (s.frame g).Follows ((s.after e).frame g) := by
  obtain ⟨hnew, hentries⟩ | hsame | ⟨t, ht⟩ := s.frame_after e g
  · rw [frame_of_size_le hnew]
    exact ⟨by simp, .inl (by simp [Frame.keys, hentries])⟩
  · rw [hsame] at hrole ⊢
    exact ⟨hrole, .refl _⟩
  · rw [ht] at hrole ⊢
    rw [(Frame.Alike.touch _ t).role] at hrole
    exact ⟨hrole, .touch hrole t⟩

end Store

/-- A bench and what it was before each edit, the latest first. -/
inductive Bench.History (first : Bench) : List Bench → Prop
  | start : History first [first]
  | edit {b : Bench} {past : List Bench} (h : History first (b :: past)) (e : Edit) (hplain : e.Plain b.store) :
      History first (e.run b :: b :: past)

/-- What a frame was on each bench. -/
def Bench.frames (past : List Bench) (g : FrameId) : List Frame := past.map (·.store.frame g)

/-- The bindings of a frame that was empty at first stand in the order in which they were made. -/
theorem Bench.History.inOrder {first b : Bench} {past : List Bench} (h : History first (b :: past)) {g : FrameId}
    (hrole : (b.store.frame g).role ≠ .slots) (hfirst : (first.store.frame g).entries = []) :
    (b.store.frame g).InOrder (frames past g) := by
  generalize hall : b :: past = all at h
  induction h generalizing b past with
  | start =>
    obtain ⟨rfl, rfl⟩ := List.cons.inj hall
    simp [Frame.InOrder, Frame.keys, hfirst]
  | edit h e hplain ih =>
    obtain ⟨rfl, rfl⟩ := List.cons.inj hall
    rw [Edit.store_run hplain] at hrole ⊢
    obtain ⟨hbefore, hfollows⟩ := Store.follows_after hrole
    exact (ih hbefore rfl).follows hfollows

/-! ## The keys of a chain -/

theorem eraseDups_sublist {α : Type} [DecidableEq α] (as : List α) : as.eraseDups.Sublist as := by
  cases as with
  | nil => simp
  | cons a rest =>
    rw [List.eraseDups_cons]
    exact ((eraseDups_sublist _).trans List.filter_sublist).cons_cons a
termination_by as.length
decreasing_by
  have hle := List.length_filter_le (fun b => !b == a) rest
  simp only [List.length_cons]
  omega

namespace Store

variable {s : Store} {f g : FrameId} {k k' : Key} {gs : List FrameId} {elder : FrameId → Key → Key → Prop}

/-- One key comes before another along a chain: the nearest frame that binds either of them binds the first one, and
the second one too only if the first one is the elder. -/
def Precedes (s : Store) (elder : FrameId → Key → Key → Prop) (gs : List FrameId) (k k' : Key) : Prop :=
  ∃ before g after, gs = before ++ g :: after ∧
    (∀ h ∈ before, (s.frame h).holds k = false ∧ (s.frame h).holds k' = false) ∧
    (s.frame g).holds k = true ∧ ((s.frame g).holds k' = true → elder g k k')

theorem Precedes.cons (h : s.Precedes elder gs k k') (hk : (s.frame g).holds k = false)
    (hk' : (s.frame g).holds k' = false) : s.Precedes elder (g :: gs) k k' := by
  obtain ⟨before, g', after, rfl, hbefore, hholds⟩ := h
  exact ⟨g :: before, g', after, rfl, List.forall_mem_cons.2 ⟨⟨hk, hk'⟩, hbefore⟩, hholds⟩

/-- Enumeration goes through a chain from the nearest frame on, and through each frame in the order of its keys. -/
theorem pairwise_listedKeys (hgs : ∀ g ∈ gs, s.levelKeys g = (s.frame g).keys)
    (horder : ∀ g ∈ gs, (s.frame g).keys.Pairwise (elder g)) (seen : List Key) :
    (s.listedKeys seen gs).Pairwise (s.Precedes elder gs) := by
  induction gs generalizing seen with
  | nil => exact .nil
  | cons g rest ih =>
    rw [listedKeys, hgs g List.mem_cons_self]
    -- What is neither seen nor fresh is not bound here.
    have hfree {k : Key} (hk : k ∉ (s.frame g).keys.eraseDups.filter (fun k => !seen.contains k) ++ seen) :
        (s.frame g).holds k = false := by
      refine Bool.eq_false_iff.2 fun hholds => hk ?_
      by_cases hseen : k ∈ seen
      · exact List.mem_append_right _ hseen
      · exact List.mem_append_left _ (List.mem_filter.2 ⟨List.mem_eraseDups.2 (Frame.mem_keys_of_holds hholds),
          by simpa using hseen⟩)
    have hbound {k : Key} (hk : k ∈ ((s.frame g).keys.eraseDups.filter fun k => !seen.contains k).filter
        (s.frame g).isListed) : (s.frame g).holds k = true :=
      Frame.holds_of_mem_keys (List.mem_eraseDups.1 (List.mem_filter.1 (List.mem_filter.1 hk).1).1)
    refine List.pairwise_append.2 ⟨?_, ?_, ?_⟩
    · have hsub := ((List.filter_sublist (p := (s.frame g).isListed)).trans
        (List.filter_sublist (p := fun k => !seen.contains k))).trans (eraseDups_sublist (s.frame g).keys)
      refine ((horder g List.mem_cons_self).sublist hsub).imp_of_mem fun hk _ helder => ?_
      exact ⟨[], g, rest, rfl, by simp, hbound hk, fun _ => helder⟩
    · refine (ih (fun g' hg' => hgs g' (List.mem_cons_of_mem g hg'))
        (fun g' hg' => horder g' (List.mem_cons_of_mem g hg')) _).imp_of_mem fun hk hk' h => ?_
      exact h.cons (hfree (not_mem_of_mem_listedKeys hk)) (hfree (not_mem_of_mem_listedKeys hk'))
    · intro k hk k' hk'
      refine ⟨[], g, rest, rfl, by simp, hbound hk, fun hholds => ?_⟩
      simp [hfree (not_mem_of_mem_listedKeys hk')] at hholds

end Store

/-- What the keys of a chain of scopes are on a bench that has a past. -/
structure Bench.Enumerates (b : Bench) (past : List Bench) (f : FrameId) : Prop where
  nodup_keys : (b.keys (.scope f)).Nodup
  mem_keys (k : Key) : k ∈ b.keys (.scope f) ↔ b.has k (.scope f) = true
  nodup_enumerableKeys : (b.enumerableKeys (.scope f)).Nodup
  mem_enumerableKeys (k : Key) : k ∈ b.enumerableKeys (.scope f) ↔
    ∃ g, b.store.holder? f k = some g ∧ k ∉ (b.store.frame g).unlisted ∧ k ∉ (b.store.frame g).hidden
  /-- The nearest frame comes first, and in a frame the key that was bound first. -/
  ordered : (b.enumerableKeys (.scope f)).Pairwise
    (b.store.Precedes (fun g => Frame.Elder (frames (b :: past) g)) (b.store.chain f))

/-- The keys of a chain of scopes without subjects which were empty at first. -/
theorem Bench.History.enumerates {first b : Bench} {past : List Bench} (h : History first (b :: past)) {f : FrameId}
    (hroles : ∀ g ∈ b.store.chain f, (b.store.frame g).role ≠ .slots ∧ ∀ o, (b.store.frame g).role ≠ .subject o)
    (hfirst : ∀ g ∈ b.store.chain f, (first.store.frame g).entries = []) : b.Enumerates past f := by
  have hlevels : ∀ g ∈ b.store.chain f, b.store.levelKeys g = (b.store.frame g).keys :=
    fun g hg => Store.Founded.levelKeys_eq (hroles g hg).2
  constructor
  case nodup_keys => exact nodup_eraseDups _
  case mem_keys =>
    intro k
    rw [Bench.has, Store.has_iff]
    simp only [Bench.keys, Store.keys, Store.mergeKeys, List.mem_eraseDups, List.mem_flatten, List.mem_map,
      exists_exists_and_eq_and]
    refine exists_congr fun g => and_congr_right fun hg => ?_
    have hkeys : k ∈ (b.store.frame g).keys ↔ (b.store.frame g).holds k = true :=
      ⟨Frame.holds_of_mem_keys, Frame.mem_keys_of_holds⟩
    have hsubject : ¬ ∃ o, (b.store.frame g).role = .subject o ∧ b.store.hasProperty o k = true := by
      rintro ⟨o, hrole, -⟩
      exact (hroles g hg).2 o hrole
    rw [hlevels g hg, hkeys, Store.LevelHas, or_iff_left hsubject]
  case nodup_enumerableKeys => exact Store.nodup_listedKeys _ _
  case mem_enumerableKeys =>
    intro k
    rw [Bench.enumerableKeys, Store.enumerableKeys, Store.mem_listedKeys hlevels]
    simp [Store.holder?, Option.any_eq_true, Frame.isListed]
  case ordered =>
    exact Store.pairwise_listedKeys hlevels (fun g hg => h.inOrder (hroles g hg).1 (hfirst g hg)) []

/-- A bench with a scope inside another one. -/
def twoScopes : Bench := { engine := { fuel := 1, state := { store := { frames := #[{}, { parent := some 0 }] } } } }

/-- A key that is dropped and bound again goes to the end of its scope. -/
theorem Bench.History.enumerates_rebound :
    ∃ b past, History twoScopes (b :: past) ∧ b.Enumerates past 1 ∧
      b.enumerableKeys (.scope 1) = (["x", "z", "y"] : List Key) := by
  have h₀ : History twoScopes [twoScopes] := .start
  have h₁ := h₀.edit (.put 0 "y" .null) trivial
  have h₂ := h₁.edit (.put 1 "z" .null) trivial |>.edit (.put 1 "x" .null) trivial
  have h₃ := h₂.edit (.remove 1 "z") trivial |>.edit (.put 1 "z" .null) trivial
  have hordinary {b : Bench} (hroles : ∀ g ∈ b.store.chain 1, (b.store.frame g).role = .plain) :
      ∀ g ∈ b.store.chain 1, (b.store.frame g).role ≠ .slots ∧ ∀ o, (b.store.frame g).role ≠ .subject o :=
    fun g hg => by simp [hroles g hg]
  have h₄ := h₃.edit (.set 1 "y" .undefined) fun g hg o hrole => absurd hrole ((hordinary (by decide) g hg).2 o)
  exact ⟨_, _, h₄, h₄.enumerates (hordinary (by decide)) (by decide), by decide⟩

end ScriptEngine
