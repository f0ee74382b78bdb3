import ScriptEngine.Proofs.Links
import ScriptEngine.Proofs.Membership

/-!
# Assignment

Reading a name and writing it walk the same chain, by different steps: reading asks each scope for a value, writing
for the container that holds the key. A scope with a subject answers from the properties of that object, which may
inherit from any scope of the chain, also from the one that receives the write. Nevertheless what was written is what
is read afterwards, wherever the name was bound before.

## Main definitions

* `Frame.SameBut`: two frames that differ at one key at most.
* `Store.Writable`: chains without sealed scopes, with plain objects for subjects.
* `Store.LevelHas`: a scope of a chain has a key, itself or by its subject.
* `Store.Receives`: the frame that a key written from a scope goes to.
* `State.Writes`: what writing a key from a scope does.

## Main results

* `Store.exists_receives`: some frame receives every key.
* `Store.Writable.get_written`: what was written is read.
* `State.write_is_received`: a write changes the frame that receives it, at the key, and nothing else.
-/

namespace ScriptEngine

open Proc

variable {limits : Limits} {bound : Nat} {handler : Handler}

/-! ## Frames that differ at one key -/

/-- Two frames with the same place, the same seal, and the same bindings and marks in the same order, those of one
key apart. -/
structure Frame.SameBut (k : Key) (f g : Frame) : Prop where
  alike : f.Alike g
  sealed : g.sealed = f.sealed
  entries : g.entries.filter (·.1 ≠ k) = f.entries.filter (·.1 ≠ k)
  unlisted : g.unlisted.filter (· ≠ k) = f.unlisted.filter (· ≠ k)
  hidden : g.hidden.filter (· ≠ k) = f.hidden.filter (· ≠ k)

namespace Frame

variable {f : Frame} {k : Key} {v : Value}

theorem filter_bindEntry (k : Key) (v : Value) (entries : List (Key × Value)) :
    (bindEntry k v entries).filter (·.1 ≠ k) = entries.filter (·.1 ≠ k) := by
  induction entries with
  | nil => simp [bindEntry]
  | cons e rest ih =>
    by_cases h : e.1 = k
    · simp [bindEntry, h]
    · rw [bindEntry, if_neg h, List.filter_cons_of_pos (by simpa using h), List.filter_cons_of_pos (by simpa using h),
        ih]

theorem SameBut.put (f : Frame) (k : Key) (v : Value) : f.SameBut k (f.put k v) where
  alike := .put f k v
  sealed := rfl
  entries := filter_bindEntry k v f.entries
  unlisted := rfl
  hidden := by simp [Frame.put, List.filter_filter]

/-- On a frame that is not that of an array a binding is an ordinary one. -/
theorem write_eq_put (h : f.role ≠ .slots) : f.write k v = f.put k v := by
  unfold write
  split
  · exact absurd ‹_› h
  · rfl

end Frame

namespace Store

variable {s : Store} {f g t : FrameId} {o : ObjectId} {k : Key} {v : Value}

/-! ## Chains that can be written to -/

/-- A frame that takes every change of a binding: it is there, it is not sealed, and it is not that of an array. -/
structure Accepts (s : Store) (f : FrameId) : Prop where
  lt_size : f < s.frames.size
  unsealed : (s.frame f).sealed = false
  role : (s.frame f).role ≠ .slots

/-- A chain whose scopes take every change. Their subjects are plain objects whose own frames do so too. -/
structure Writable (s : Store) (f : FrameId) : Prop where
  scope (g : FrameId) : g ∈ s.chain f → s.Accepts g
  subject (g : FrameId) (o : ObjectId) : g ∈ s.chain f → (s.frame g).role = .subject o →
    s.body o = .plain ∧ s.Accepts (s.propsOf o)

/-- A scope has a key: it has bound it, or it has a subject with this property, its own or an inherited one. -/
def LevelHas (s : Store) (g : FrameId) (k : Key) : Prop :=
  (s.frame g).holds k = true ∨ ∃ o, (s.frame g).role = .subject o ∧ s.hasProperty o k = true

/-- The frame that a key written from a scope goes to. -/
inductive Receives (s : Store) (f : FrameId) (k : Key) : FrameId → Prop
  /-- The nearest scope that has the key has bound it, and has no subject with this property. -/
  | scope {before after : List FrameId} {g : FrameId} (hchain : s.chain f = before ++ g :: after)
      (hbefore : ∀ h ∈ before, ¬ s.LevelHas h k) (hg : (s.frame g).holds k = true)
      (hsubject : ∀ o, (s.frame g).role = .subject o → s.hasProperty o k = false) : Receives s f k g
  /-- The nearest scope that has the key has a subject with this property: it goes to the object's own frame. -/
  | subject {before after : List FrameId} {g : FrameId} {o : ObjectId} (hchain : s.chain f = before ++ g :: after)
      (hbefore : ∀ h ∈ before, ¬ s.LevelHas h k) (hrole : (s.frame g).role = .subject o)
      (ho : s.hasProperty o k = true) : Receives s f k (s.propsOf o)
  /-- No scope has the key: it goes to the nearest scope of a program. -/
  | program {before after : List FrameId} {g : FrameId} (hnone : ∀ h ∈ s.chain f, ¬ s.LevelHas h k)
      (hchain : s.chain f = before ++ g :: after) (hbefore : ∀ h ∈ before, (s.frame h).role ≠ .program)
      (hrole : (s.frame g).role = .program) : Receives s f k g
  /-- No scope has the key or is that of a program: it goes to the last one. -/
  | root {before : List FrameId} {g : FrameId} (hnone : ∀ h ∈ s.chain f, ¬ s.LevelHas h k)
      (hroles : ∀ h ∈ s.chain f, (s.frame h).role ≠ .program) (hchain : s.chain f = before ++ [g]) : Receives s f k g

/-! ## The container of a key -/

theorem levelOwner?_eq_none_iff : s.levelOwner? g k = none ↔ ¬ s.LevelHas g k := by
  unfold levelOwner? LevelHas
  split
  · rename_i o hrole
    by_cases ho : s.hasProperty o k <;> simp [hrole, ho]
  · rename_i hrole
    have hsubject : ¬ ∃ o, (s.frame g).role = .subject o ∧ s.hasProperty o k = true := by
      rintro ⟨o, ho, -⟩
      exact hrole o ho
    rw [or_iff_left hsubject]
    by_cases hg : (s.frame g).holds k <;> simp [hg]

theorem levelOwner?_scope (hg : (s.frame g).holds k = true)
    (hsubject : ∀ o, (s.frame g).role = .subject o → s.hasProperty o k = false) :
    s.levelOwner? g k = some (.scope g) := by
  unfold levelOwner?
  split
  · simp [hsubject _ ‹_›, hg]
  · simp [hg]

theorem owner?_eq_none_iff : s.owner? f k = none ↔ ∀ g ∈ s.chain f, ¬ s.LevelHas g k := by
  simp only [owner?, List.findSome?_eq_none_iff, levelOwner?_eq_none_iff]

theorem has_iff : s.has f k = true ↔ ∃ g ∈ s.chain f, s.LevelHas g k := by
  rw [has, Option.isSome_iff_ne_none, Ne, owner?_eq_none_iff]
  simp

theorem globalScope_of_chain {before after : List FrameId} (hchain : s.chain f = before ++ g :: after)
    (hbefore : ∀ h ∈ before, (s.frame h).role ≠ .program) (hrole : (s.frame g).role = .program) :
    s.globalScope f = g := by
  have hnone : before.find? (fun h => (s.frame h).role == .program) = none := by
    simpa using hbefore
  simp [globalScope, nearest, hchain, List.find?_append, hnone, hrole]

theorem globalScope_of_root {before : List FrameId} (hroles : ∀ h ∈ s.chain f, (s.frame h).role ≠ .program)
    (hchain : s.chain f = before ++ [g]) : s.globalScope f = g := by
  have hnone : (s.chain f).find? (fun h => (s.frame h).role == .program) = none := by
    simpa using hroles
  simp [globalScope, nearest, hnone, root, hchain]

/-- The first element of a list with a property. -/
theorem exists_first {α : Type} {as : List α} {p : α → Prop} (h : ∃ a ∈ as, p a) :
    ∃ before a after, as = before ++ a :: after ∧ (∀ b ∈ before, ¬ p b) ∧ p a := by
  classical
  obtain ⟨a, ha, hp⟩ := h
  have hsome : (as.find? fun a => p a).isSome := List.find?_isSome.2 ⟨a, ha, by simpa using hp⟩
  obtain ⟨b, hb⟩ := Option.isSome_iff_exists.1 hsome
  obtain ⟨hp, before, after, rfl, hbefore⟩ := List.find?_eq_some_iff_append.1 hb
  exact ⟨before, b, after, rfl, by simpa using hbefore, by simpa using hp⟩

/-- Every key written from a scope goes somewhere. -/
theorem exists_receives (s : Store) (f : FrameId) (k : Key) : ∃ t, s.Receives f k t := by
  by_cases hhas : ∃ g ∈ s.chain f, s.LevelHas g k
  · obtain ⟨before, g, after, hchain, hbefore, hg⟩ := exists_first hhas
    by_cases hsubject : ∃ o, (s.frame g).role = .subject o ∧ s.hasProperty o k = true
    · obtain ⟨o, hrole, ho⟩ := hsubject
      exact ⟨_, .subject hchain hbefore hrole ho⟩
    · exact ⟨_, .scope hchain hbefore (hg.resolve_right hsubject) (by simpa using hsubject)⟩
  · have hnone : ∀ g ∈ s.chain f, ¬ s.LevelHas g k := by simpa using hhas
    by_cases hprogram : ∃ g ∈ s.chain f, (s.frame g).role = .program
    · obtain ⟨before, g, after, hchain, hbefore, hg⟩ := exists_first hprogram
      exact ⟨_, .program hnone hchain hbefore hg⟩
    · have hne : s.chain f ≠ [] := by simp [chain, ancestors]
      exact ⟨_, .root hnone (by simpa using hprogram) (List.dropLast_append_getLast hne).symm⟩

/-- The frame that receives a key is the own frame of the container that is looked for, and takes the change. -/
theorem Writable.receiver (hw : s.Writable f) (hr : s.Receives f k t) :
    s.Accepts t ∧ ((s.owner? f k).getD (.scope (s.globalScope f)) = .scope t ∨
      ∃ o, (s.owner? f k).getD (.scope (s.globalScope f)) = .object o ∧ s.body o = .plain ∧ s.propsOf o = t) := by
  cases hr with
  | scope hchain hbefore hg hsubject =>
    have howner := owner?_of_chain hchain (fun h hh => levelOwner?_eq_none_iff.2 (hbefore h hh))
      (levelOwner?_scope hg hsubject)
    exact ⟨hw.scope t (by simp [hchain]), .inl (by rw [howner]; rfl)⟩
  | @subject before after g o hchain hbefore hrole ho =>
    have howner := owner?_of_chain hchain (fun h hh => levelOwner?_eq_none_iff.2 (hbefore h hh))
      (levelOwner?_subject hrole ho)
    obtain ⟨hplain, haccepts⟩ := hw.subject g o (by simp [hchain]) hrole
    exact ⟨haccepts, .inr ⟨o, by rw [howner]; rfl, hplain, rfl⟩⟩
  | program hnone hchain hbefore hrole =>
    refine ⟨hw.scope t (by simp [hchain]), .inl ?_⟩
    rw [owner?_eq_none_iff.2 hnone, globalScope_of_chain hchain hbefore hrole]
    rfl
  | root hnone hroles hchain =>
    refine ⟨hw.scope t (by simp [hchain]), .inl ?_⟩
    rw [owner?_eq_none_iff.2 hnone, globalScope_of_root hroles hchain]
    rfl

/-! ## Reading after a change -/

/-- The store with a key bound in one frame. -/
def written (s : Store) (t : FrameId) (k : Key) (v : Value) : Store := s.modifyFrame t (·.put k v)

theorem chain_written (s : Store) (t : FrameId) (k : Key) (v : Value) (f : FrameId) :
    (s.written t k v).chain f = s.chain f :=
  ancestors_congr fun g _ => parent_modifyFrame s t (fun fr => .put fr k v) g

/-- A frame after a change of one that may not be there. -/
theorem frame_modifyFrame (s : Store) (f : FrameId) (c : Frame → Frame) (g : FrameId) :
    (s.modifyFrame f c).frame g = if f = g ∧ f < s.frames.size then c (s.frame g) else s.frame g := by
  by_cases hf : f = g
  · subst hf
    by_cases hlt : f < s.frames.size
    · rw [frame_modifyFrame_self s f c hlt, if_pos ⟨rfl, hlt⟩]
    · have hle := Nat.le_of_not_lt hlt
      rw [if_neg fun h => hlt h.2, frame_of_size_le hle, frame_of_size_le (by simpa using hle)]
  · rw [frame_modifyFrame_of_ne s c hf, if_neg fun h => hf h.1]

theorem role_written (s : Store) (t : FrameId) (k : Key) (v : Value) (g : FrameId) :
    ((s.written t k v).frame g).role = (s.frame g).role := by
  rw [written, frame_modifyFrame]
  split <;> rfl

theorem lookup?_written (ht : t < s.frames.size) (g : FrameId) :
    ((s.written t k v).frame g).lookup? k = if g = t then some v else (s.frame g).lookup? k := by
  by_cases h : g = t
  · subst h
    rw [written, frame_modifyFrame_self s g _ ht]
    simp
  · rw [written, frame_modifyFrame_of_ne s _ (Ne.symm h), if_neg h]

/-- Where all that find something find the same, that is what is found. -/
theorem findSome?_none_or {α β : Type} {as : List α} {p : α → Option β} {b : β}
    (h : ∀ a ∈ as, p a = none ∨ p a = some b) : as.findSome? p = none ∨ as.findSome? p = some b := by
  cases hfind : as.findSome? p with
  | none => exact .inl rfl
  | some b' =>
    obtain ⟨a, ha, hb'⟩ := List.exists_of_findSome?_eq_some hfind
    obtain hnone | hsome := h a ha
    · simp [hnone] at hb'
    · exact .inr (hb'.symm.trans hsome)

/-- A search that found nothing finds at most what has been written. -/
theorem find?_written (ht : t < s.frames.size) (h : s.find? f k = none) :
    (s.written t k v).find? f k = none ∨ (s.written t k v).find? f k = some v := by
  rw [find?, chain_written]
  refine findSome?_none_or fun g hg => ?_
  rw [lookup?_written ht]
  split
  · exact .inr rfl
  · exact .inl (List.findSome?_eq_none_iff.1 h g hg)

/-- A scope gives the property of a plain object that is its subject, or else what it has bound. -/
theorem levelLookup?_subject (hrole : (s.frame g).role = .subject o) (ho : s.body o = .plain) :
    s.levelLookup? g k = (s.find? (s.propsOf o) k).or ((s.frame g).lookup? k) := by
  unfold levelLookup?
  rw [hrole]
  cases h : s.find? (s.propsOf o) k <;>
    simp [hasProperty, getProperty, ho, Body.fixed?, Body.fixedPresent, h]

/-- What a search gives if the nearer scopes give nothing else. -/
theorem get_of_chain {before after : List FrameId} (hchain : s.chain f = before ++ g :: after)
    (hbefore : ∀ h ∈ before, s.levelLookup? h k = none ∨ s.levelLookup? h k = some v)
    (hg : s.levelLookup? g k = some v) : s.get f k = v := by
  obtain hnone | hsome := findSome?_none_or hbefore
  · simp [get, hchain, List.findSome?_append, hnone, hg]
  · simp [get, hchain, List.findSome?_append, hsome]

/-- A property that a plain object lacks is nowhere along its frames. -/
theorem find?_of_lacks (h : s.hasProperty o k = false) : s.find? (s.propsOf o) k = none := by
  simp only [hasProperty, Bool.or_eq_false_iff] at h
  simpa using h.2

theorem levelLookup?_written_subject (hrole : (s.frame g).role = .subject o) (ho : s.body o = .plain) :
    (s.written t k v).levelLookup? g k =
      ((s.written t k v).find? (s.propsOf o) k).or (((s.written t k v).frame g).lookup? k) :=
  levelLookup?_subject ((role_written s t k v g).trans hrole) ho

theorem levelLookup?_written_own (hrole : ∀ o, (s.frame g).role ≠ .subject o) :
    (s.written t k v).levelLookup? g k = ((s.written t k v).frame g).lookup? k :=
  Founded.levelLookup?_eq (by simpa [role_written] using hrole) k

namespace Writable

/-- A scope that did not have the key gives at most what has been written: its subject may inherit from the frame
that was written to. -/
theorem levelLookup?_written (hw : s.Writable f) (hg : g ∈ s.chain f) (ht : t < s.frames.size)
    (h : ¬ s.LevelHas g k) :
    (s.written t k v).levelLookup? g k = none ∨ (s.written t k v).levelLookup? g k = some v := by
  simp only [LevelHas, not_or, Bool.not_eq_true, not_exists, not_and] at h
  obtain ⟨hholds, hlacks⟩ := h
  have hown : ((s.written t k v).frame g).lookup? k = none ∨ ((s.written t k v).frame g).lookup? k = some v := by
    rw [lookup?_written ht]
    split
    · exact .inr rfl
    · exact .inl (by simpa [Frame.holds] using hholds)
  by_cases hsubject : ∃ o, (s.frame g).role = .subject o
  · obtain ⟨o, hrole⟩ := hsubject
    rw [levelLookup?_written_subject hrole (hw.subject g o hg hrole).1]
    obtain hnone | hsome := find?_written (v := v) ht (find?_of_lacks (hlacks o hrole))
    · simpa [hnone] using hown
    · simp [hsome]
  · rw [levelLookup?_written_own (by simpa using hsubject)]
    exact hown

/-- A scope that was written to gives what has been written, unless it has a subject with the property. -/
theorem levelLookup?_written_self (hw : s.Writable f) (hg : g ∈ s.chain f)
    (hsubject : ∀ o, (s.frame g).role = .subject o → s.hasProperty o k = false) :
    (s.written g k v).levelLookup? g k = some v := by
  have hlt := (hw.scope g hg).lt_size
  have hown : ((s.written g k v).frame g).lookup? k = some v := by simp [lookup?_written hlt]
  by_cases hrole : ∃ o, (s.frame g).role = .subject o
  · obtain ⟨o, hrole⟩ := hrole
    rw [levelLookup?_written_subject hrole (hw.subject g o hg hrole).1, hown]
    obtain hnone | hsome := find?_written (v := v) hlt (find?_of_lacks (hsubject o hrole))
    · simp [hnone]
    · simp [hsome]
  · rw [levelLookup?_written_own (by simpa using hrole), hown]

/-- What was written is read, from the scope that it was written from. -/
theorem get_written (hw : s.Writable f) (hr : s.Receives f k t) : (s.written t k v).get f k = v := by
  have hlt := (hw.receiver hr).1.lt_size
  -- The scopes nearer than the one that receives did not have the key.
  have hnearer {before after : List FrameId} {g : FrameId} (hchain : s.chain f = before ++ g :: after)
      (hbefore : ∀ h ∈ before, ¬ s.LevelHas h k) (hg : (s.written t k v).levelLookup? g k = some v) :
      (s.written t k v).get f k = v :=
    get_of_chain ((chain_written s t k v f).trans hchain)
      (fun h hh => hw.levelLookup?_written (by simp [hchain, hh]) hlt (hbefore h hh)) hg
  cases hr with
  | scope hchain hbefore hg hsubject =>
    exact hnearer hchain hbefore (hw.levelLookup?_written_self (by simp [hchain]) hsubject)
  | @subject before after g o hchain hbefore hrole ho =>
    refine hnearer hchain hbefore ?_
    have hfound : (s.written (s.propsOf o) k v).find? (s.propsOf o) k = some v :=
      find?_of_lookup? (by simp [lookup?_written hlt])
    rw [levelLookup?_written_subject hrole (hw.subject g o (by simp [hchain]) hrole).1, hfound]
    rfl
  | program hnone hchain hbefore hrole =>
    have hlacks := hnone t (by simp [hchain])
    simp only [LevelHas, not_or, not_exists, not_and, Bool.not_eq_true] at hlacks
    exact hnearer hchain (fun h hh => hnone h (by simp [hchain, hh]))
      (hw.levelLookup?_written_self (by simp [hchain]) hlacks.2)
  | root hnone hroles hchain =>
    have hlacks := hnone t (by simp [hchain])
    simp only [LevelHas, not_or, not_exists, not_and, Bool.not_eq_true] at hlacks
    exact hnearer hchain (fun h hh => hnone h (by simp [hchain, hh]))
      (hw.levelLookup?_written_self (by simp [hchain]) hlacks.2)

end Writable

/-- Changes of a frame that do the same to it as it is are the same change. -/
theorem modifyFrame_congr {c c' : Frame → Frame} (h : c (s.frame f) = c' (s.frame f)) :
    s.modifyFrame f c = s.modifyFrame f c' := by
  have hframes : s.frames.modify f c = s.frames.modify f c' := by
    refine Array.ext (by simp) fun i hi hi' => ?_
    simp only [Array.getElem_modify]
    split
    · subst i
      have hlt : f < s.frames.size := by simpa using hi
      simpa [frame, Array.getD_eq_getD_getElem?, hlt] using h
    · rfl
  simp only [modifyFrame, hframes]

end Store

/-! ## Writing a name -/

/-- An update writes to the container that holds the key. -/
theorem run_update (f : FrameId) (k : Key) (v : Value) (s : State) :
    (update (.scope f) k v).run limits bound handler s =
      ((s.store.owner? f k).elim (pure false) fun c => putIn c k v >>= fun _ => pure true).run limits bound handler
        s := by
  refine run_then (run_read _ s) ?_
  dsimp only
  cases s.store.owner? f k <;> rfl

/-- A key that there is room for in every frame. -/
def Key.Fits (k : Key) : Prop := ∀ i, k = .index i → i < Frame.mostElements

/-- Every name spells such a key. -/
theorem Key.fits_ofText (t : Text) : (ofText t).Fits := by
  intro i hi
  unfold ofText at hi
  split at hi
  · rename_i h
    simp only [Bool.and_eq_true, decide_eq_true_eq] at h
    obtain rfl := Key.index.inj hi
    exact Nat.lt_of_le_of_lt h.2 (by decide)
  · cases hi

namespace State

variable {s : State} {f g t : FrameId} {k : Key} {v : Value}

/-- The state with a key bound in one frame. -/
def written (s : State) (t : FrameId) (k : Key) (v : Value) : State := { s with store := s.store.written t k v }

/-- What writing a key from a scope does if frame `t` receives it. -/
structure Writes (s : State) (f : FrameId) (k : Key) (v : Value) (t : FrameId) : Prop where
  /-- An assignment binds the key in this frame, whether or not anything had it. -/
  assign {limits : Limits} {bound : Nat} {handler : Handler} :
    (Place.assign ⟨.scope f, k⟩ v).run limits bound handler s = (.ok v, s.written t k v)
  /-- What was written is read. -/
  get {limits : Limits} {bound : Nat} {handler : Handler} :
    (Place.get ⟨.scope f, k⟩).run limits bound handler (s.written t k v) = (.ok v, s.written t k v)
  /-- An update does the same if a scope of the chain has the key. -/
  update {limits : Limits} {bound : Nat} {handler : Handler} : (∃ g ∈ s.store.chain f, s.store.LevelHas g k) →
    (Proc.update (.scope f) k v).run limits bound handler s = (.ok true, s.written t k v)
  /-- Otherwise an update says so and changes nothing. -/
  refuse {limits : Limits} {bound : Nat} {handler : Handler} : (∀ g ∈ s.store.chain f, ¬ s.store.LevelHas g k) →
    (Proc.update (.scope f) k v).run limits bound handler s = (.ok false, s)
  /-- The frame differs from before at the key only. -/
  here : (s.store.frame t).SameBut k ((s.written t k v).store.frame t)
  /-- No other frame differs from before. -/
  elsewhere (g : FrameId) : g ≠ t → (s.written t k v).store.frame g = s.store.frame g

theorem perform_put (ht : s.store.Accepts t) (hk : k.Fits) :
    (Action.put t k v).perform limits s = (.ok (), s.written t k v) := by
  have hroom : ¬ Frame.mostElements < (Action.put t k v).demand s := by
    cases k with
    | index i => simpa [Action.demand, ht.unsealed, Key.index?] using hk i rfl
    | name n => simp [Action.demand, ht.unsealed, Key.index?]
  have hwrite : s.store.modifyFrame t (·.write k v) = s.store.written t k v :=
    Store.modifyFrame_congr (Frame.write_eq_put ht.role)
  have hchange : Action.changeFrame s t (fun _ => k) (·.write k v) = (.ok (), s.written t k v) := by
    simp [Action.changeFrame, ht.unsealed, hwrite, written]
  rw [Action.perform, if_neg hroom]
  exact hchange

/-- To write to the container that is looked for is to bind the key in the frame that receives it. -/
theorem run_putIn (hw : s.store.Writable f) (hr : s.store.Receives f k t) (hk : k.Fits) :
    (putIn ((s.store.owner? f k).getD (.scope (s.store.globalScope f))) k v).run limits bound handler s =
      (.ok (), s.written t k v) := by
  obtain ⟨haccepts, hscope | ⟨o, hobject, hplain, rfl⟩⟩ := hw.receiver hr
  · rw [hscope]
    exact run_perform (perform_put haccepts hk)
  · rw [hobject, putIn, putProperty]
    refine run_then (run_read _ s) ?_
    rw [hplain]
    exact run_then (run_read _ s) (run_perform (perform_put haccepts hk))

/-- Whatever key is written from a scope whose chain can be written to, one frame receives it, and that frame
changes, at this key and nowhere else. -/
theorem write_is_received (hw : s.store.Writable f) (hk : k.Fits) (v : Value) :
    (∃ t, s.store.Receives f k t) ∧ ∀ t, s.store.Receives f k t → s.Writes f k v t := by
  refine ⟨s.store.exists_receives f k, fun t hr => ?_⟩
  have hlt := (hw.receiver hr).1.lt_size
  constructor
  case assign =>
    intro limits bound handler
    exact run_then (run_then (run_read _ s) (run_putIn hw hr hk)) rfl
  case get =>
    intro limits bound handler
    rw [Place.get, run_read]
    exact congrArg (fun w => (Outcome.ok w, s.written t k v)) (hw.get_written hr)
  case update =>
    intro limits bound handler hhas
    have hput : (putIn ((s.store.owner? f k).getD (.scope (s.store.globalScope f))) k v).run limits bound handler s =
        (.ok (), s.written t k v) := run_putIn hw hr hk
    rw [run_update]
    cases howner : s.store.owner? f k with
    | none =>
      obtain ⟨g, hg, hlevel⟩ := hhas
      exact absurd hlevel (Store.owner?_eq_none_iff.1 howner g hg)
    | some c =>
      rw [howner] at hput
      exact run_then hput rfl
  case refuse =>
    intro limits bound handler hnone
    rw [run_update, Store.owner?_eq_none_iff.2 hnone, Option.elim_none, run_pure]
  case here =>
    rw [written, Store.written, Store.frame_modifyFrame_self _ _ _ hlt]
    exact .put _ k v
  case elsewhere =>
    intro g hg
    exact Store.frame_modifyFrame_of_ne s.store _ hg.symm

/-- A scope with a subject that inherits from the scope of the program around it. -/
def withinInherited : State :=
  { store :=
      { frames := #[{ role := .core }, {}, { parent := some 0, role := .program }, { parent := some 2 },
          { parent := some 2, role := .subject 1 }]
        objects := #[{}, { props := 3 }] } }

/-- A name that nothing has goes to the scope of the program; the subject inherits it from there, and the name is read
through the subject. -/
theorem write_is_received_through_subject :
    withinInherited.store.Writable 4 ∧ withinInherited.Writes 4 "x" (.bool true) 2 ∧
      (withinInherited.written 2 "x" (.bool true)).store.hasProperty 1 "x" = true := by
  have hchain : withinInherited.store.chain 4 = [4, 2, 0] := by decide
  have hw : withinInherited.store.Writable 4 := by
    constructor
    · rw [hchain]
      simp only [List.forall_mem_cons]
      exact ⟨⟨by decide, rfl, by decide⟩, ⟨by decide, rfl, by decide⟩, ⟨by decide, rfl, by decide⟩, by simp⟩
    · intro g o hg hrole
      have hcases : g = 4 ∨ g = 2 ∨ g = 0 := by simpa [hchain] using hg
      obtain rfl | rfl | rfl := hcases
      · obtain rfl : 1 = o := Frame.Role.subject.inj hrole
        exact ⟨rfl, by decide, rfl, by decide⟩
      · cases hrole
      · cases hrole
  have hr : withinInherited.store.Receives 4 "x" 2 := by
    have hsplit : withinInherited.store.chain 4 = [4] ++ 2 :: [0] := hchain
    refine .program ?_ hsplit ?_ rfl
    · rw [← Store.owner?_eq_none_iff]
      decide
    · decide
  exact ⟨hw, (write_is_received hw (Key.fits_ofText _) _).2 2 hr, by decide⟩

end State

end ScriptEngine
