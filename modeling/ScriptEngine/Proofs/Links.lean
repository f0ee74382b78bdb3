import ScriptEngine.Proofs.Lengths

/-!
# Links between frames

Frames lead to other frames in two ways: to the parent, and from a scope with a subject to the properties of that
object. Both were there before the frame was, and stay what they are; a frame is numbered when it is made, so
links lead from a number to a smaller one. Frames of properties lead to frames of properties and never have
subjects. Hence every loop that climbs from parent to parent ends, whatever it does on each frame, also if it
goes through the properties of a subject there.

## Main definitions

* `Store.Link`: the frames that a frame leads to.
* `Store.Founded`: stores whose links lead to older frames.
* `Store.Settled`: what never changes in a store.
* `Store.Climb`: loops along the parents of a frame, with no bound on how often they go round.
* `Store.Ends`: the ends of the loops that scopes and objects are searched with.
* `Engine.Life`: the states of an engine from the start on.

## Main results

* `Store.Founded.change`, `Store.Settled.of_change`: what a change of a store does to its links.
* `Store.Founded.climb`: every loop ends.
* `Engine.Life.links_founded`: the links in every state of an engine.
-/

namespace ScriptEngine

open Proc (Round)

/-! ## What never changes -/

/-- A store after another one, as far as links go: nothing is lost, no frame has got another parent or role, and
no object another frame of properties. -/
structure Store.Settled (s t : Store) : Prop where
  frames : s.frames.size ≤ t.frames.size
  objects : s.objects.size ≤ t.objects.size
  alike (f : FrameId) : f < s.frames.size → (s.frame f).Alike (t.frame f)
  propsOf (o : ObjectId) : o < s.objects.size → t.propsOf o = s.propsOf o

namespace Store

variable {s t u : Store} {f g : FrameId}

theorem Settled.refl (s : Store) : s.Settled s := ⟨Nat.le_refl _, Nat.le_refl _, fun _ _ => .refl _, fun _ _ => rfl⟩

theorem Settled.trans (h : s.Settled t) (h' : t.Settled u) : s.Settled u where
  frames := Nat.le_trans h.frames h'.frames
  objects := Nat.le_trans h.objects h'.objects
  alike f hf := (h.alike f hf).trans (h'.alike f (Nat.lt_of_lt_of_le hf h.frames))
  propsOf o ho := (h'.propsOf o (Nat.lt_of_lt_of_le ho h.objects)).trans (h.propsOf o ho)

theorem frame_addFrame_eq (s : Store) (fr : Frame) (f : FrameId) :
    (s.addFrame fr).2.frame f = if f = s.frames.size then fr else s.frame f := by
  by_cases h : f = s.frames.size <;>
    simp [Store.addFrame, Store.frame, Array.getD_eq_getD_getElem?, Array.getElem?_push, h]

theorem propsOf_modifyObject (s : Store) (o : ObjectId) {change : Object → Object}
    (hchange : ∀ x, (change x).props = x.props) (o' : ObjectId) :
    (s.modifyObject o change).propsOf o' = s.propsOf o' := by
  rcases Next.object_modifyObject s o change o' with h | h <;> simp [Store.propsOf, h, hchange]

theorem Settled.addFrame (s : Store) (fr : Frame) : s.Settled (s.addFrame fr).2 where
  frames := (Extends.addFrame s fr).size
  objects := Nat.le_refl _
  alike f hf := by
    rw [(Extends.addFrame s fr).frame f hf]
    exact .refl _
  propsOf _ _ := rfl

theorem propsOf_addObject (s : Store) (x : Object) (o : ObjectId) :
    (s.addObject x).2.propsOf o = if o = s.objects.size then x.props else s.propsOf o := by
  rw [Store.propsOf, Next.object_addObject]
  split <;> rfl

theorem Settled.addObject (s : Store) (x : Object) : s.Settled (s.addObject x).2 where
  frames := Nat.le_refl _
  objects := by simp [Store.addObject]
  alike _ _ := .refl _
  propsOf o ho := by rw [propsOf_addObject, if_neg (Nat.ne_of_lt ho)]

theorem Settled.modifyObject (s : Store) (o : ObjectId) {change : Object → Object}
    (hchange : ∀ x, (change x).props = x.props) : s.Settled (s.modifyObject o change) where
  frames := Nat.le_refl _
  objects := by simp [Store.modifyObject]
  alike _ _ := .refl _
  propsOf o' _ := propsOf_modifyObject s o hchange o'

theorem Settled.modifyFrame (s : Store) (f : FrameId) {c : Frame → Frame} (halike : ∀ fr : Frame, fr.Alike (c fr)) :
    s.Settled (s.modifyFrame f c) where
  frames := by simp
  objects := Nat.le_refl _
  alike g hg := by
    by_cases he : f = g
    · subst he
      rw [frame_modifyFrame_self s f c hg]
      exact halike _
    · rw [frame_modifyFrame_of_ne s c he]
      exact .refl _
  propsOf _ _ := rfl

/-- A change leaves the links alone that are there. -/
theorem Settled.of_change (h : s.Change t) : s.Settled t := by
  cases h with
  | frame f c halike hlength => exact .modifyFrame s f halike
  | scope parent role => exact .addFrame s _
  | object proto body fr hparent hrole hlength => exact (Settled.addFrame s fr).trans (.addObject _ _)
  | body o change hchange => exact .modifyObject s o fun x => (hchange x).1

theorem Settled.of_changes (h : s.Changes t) : s.Settled t := by
  induction h with
  | refl => exact .refl s
  | tail _ hlast ih => exact ih.trans (.of_change hlast)

/-! ## Links lead to older frames -/

/-- The frames that a frame leads to: its parent, and the properties of its subject. -/
inductive Link (s : Store) : FrameId → FrameId → Prop
  | parent {f p : FrameId} (h : (s.frame f).parent = some p) : Link s p f
  | subject {f : FrameId} {o : ObjectId} (h : (s.frame f).role = .subject o) : Link s (s.propsOf o) f

/-- A store in which links lead to older frames, and from frames of properties to such frames only. -/
structure Founded (s : Store) : Prop where
  core : (s.frame Realm.core).role = .core
  first : 0 < s.objects.size ∧ s.propsOf 0 = ({} : Object).props
  parent {f p : FrameId} : (s.frame f).parent = some p → p < f
  subject {f : FrameId} {o : ObjectId} : (s.frame f).role = .subject o → o < s.objects.size ∧ s.propsOf o < f
  anchored {f : FrameId} : s.Anchored f →
    f < s.frames.size ∧ (∀ o, (s.frame f).role ≠ .subject o) ∧ ∀ p, (s.frame f).parent = some p → s.Anchored p

namespace Founded

theorem core_lt_size (h : s.Founded) : Realm.core < s.frames.size := (h.anchored (.inl rfl)).1

theorem lt_of_link (h : s.Founded) (hlink : s.Link g f) : g < f := by
  cases hlink with
  | parent hp => exact h.parent hp
  | subject ho => exact (h.subject ho).2

theorem lt_of_links (h : s.Founded) (hlinks : Relation.TransGen s.Link g f) : g < f := by
  induction hlinks with
  | single hlink => exact h.lt_of_link hlink
  | tail _ hlink ih => exact Nat.lt_trans ih (h.lt_of_link hlink)

theorem wellFounded_link (h : s.Founded) : WellFounded s.Link :=
  Subrelation.wf (fun hlink => h.lt_of_link hlink) Nat.lt_wfRel.wf

/-- What is not there yet stands for the first object, so what is anchored stays so. -/
theorem anchored_mono (h : s.Founded) (hst : s.Settled t) (hf : s.Anchored f) : t.Anchored f := by
  obtain rfl | ⟨o, rfl⟩ := hf
  · exact .inl rfl
  · by_cases ho : o < s.objects.size
    · exact .inr ⟨o, hst.propsOf o ho⟩
    · have hdefault : s.propsOf o = ({} : Object).props := by
        simp [Store.propsOf, Store.object, Array.getD_eq_getD_getElem?, Array.getElem?_eq_none (Nat.le_of_not_lt ho)]
      rw [hdefault, ← h.first.2]
      exact .inr ⟨0, hst.propsOf 0 h.first.1⟩

/-- A store stays founded if what is new in it is: new frames lead to older ones, and the frame of properties of
an object is one that was there, or a new one that leads to one that was there. -/
theorem settled (h : s.Founded) (hst : s.Settled t)
    (hparent : ∀ f p, s.frames.size ≤ f → (t.frame f).parent = some p → p < f)
    (hsubject : ∀ f o, s.frames.size ≤ f → (t.frame f).role = .subject o → o < s.objects.size ∧ s.propsOf o < f)
    (hprops : ∀ o, s.Anchored (t.propsOf o) ∨ t.propsOf o < t.frames.size ∧
      (∀ x, (t.frame (t.propsOf o)).role ≠ .subject x) ∧
      ∀ p, (t.frame (t.propsOf o)).parent = some p → s.Anchored p) : t.Founded where
  core := (hst.alike _ h.core_lt_size).role.trans h.core
  first := ⟨Nat.lt_of_lt_of_le h.first.1 hst.objects, (hst.propsOf 0 h.first.1).trans h.first.2⟩
  parent {f p} hp := by
    by_cases hf : f < s.frames.size
    · rw [(hst.alike f hf).parent] at hp
      exact h.parent hp
    · exact hparent f p (Nat.le_of_not_lt hf) hp
  subject {f o} ho := by
    have hold : o < s.objects.size ∧ s.propsOf o < f := by
      by_cases hf : f < s.frames.size
      · rw [(hst.alike f hf).role] at ho
        exact h.subject ho
      · exact hsubject f o (Nat.le_of_not_lt hf) ho
    rw [hst.propsOf o hold.1]
    exact ⟨Nat.lt_of_lt_of_le hold.1 hst.objects, hold.2⟩
  anchored {f} hf := by
    -- A frame that was anchored before is as it was.
    have hold (g : FrameId) (hg : s.Anchored g) :
        g < t.frames.size ∧ (∀ o, (t.frame g).role ≠ .subject o) ∧ ∀ p, (t.frame g).parent = some p → t.Anchored p := by
      obtain ⟨hlt, hrole, hparents⟩ := h.anchored hg
      rw [(hst.alike g hlt).role, (hst.alike g hlt).parent]
      exact ⟨Nat.lt_of_lt_of_le hlt hst.frames, hrole, fun p hp => h.anchored_mono hst (hparents p hp)⟩
    obtain rfl | ⟨o, rfl⟩ := hf
    · exact hold _ (.inl rfl)
    · obtain hanchored | ⟨hlt, hrole, hparents⟩ := hprops o
      · exact hold _ hanchored
      · exact ⟨hlt, hrole, fun p hp => h.anchored_mono hst (hparents p hp)⟩

/-- Where the frames past the end begin there is nothing. -/
theorem frame_past (hf : s.frames.size ≤ f) : (s.frame f).parent = none ∧ (s.frame f).role = .plain := by
  rw [frame_of_size_le hf]
  exact ⟨rfl, rfl⟩

theorem frame (h : s.Founded) (f : FrameId) {c : Frame → Frame} (hst : s.Settled (s.modifyFrame f c)) :
    (s.modifyFrame f c).Founded := by
  refine h.settled hst ?_ ?_ fun o => .inl (.inr ⟨o, rfl⟩)
  · intro g p hg hp
    simp [frame_past (s := s.modifyFrame f c) (by simpa using hg)] at hp
  · intro g o hg ho
    simp [frame_past (s := s.modifyFrame f c) (by simpa using hg)] at ho

theorem lt_size_of_scopeRole {role : Frame.Role} {o : ObjectId} (h : s.scopeRole role = .subject o) :
    o < s.objects.size := by
  unfold scopeRole at h
  split at h
  · split at h
    · cases h
      assumption
    · cases h
  · simp_all

/-- The parent and the subject of a new scope are there already. -/
theorem scope (h : s.Founded) (parent : FrameId) (role : Frame.Role) : (s.addScope parent role).2.Founded := by
  refine h.settled (.addFrame s _) ?_ ?_ fun o => .inl (.inr ⟨o, rfl⟩)
  · intro g p hg hp
    rw [addScope, frame_addFrame_eq] at hp
    by_cases he : g = s.frames.size
    · by_cases hlt : parent < s.frames.size
      · simp only [he, hlt, ↓reduceIte, Option.some.injEq] at hp
        exact he ▸ hp ▸ hlt
      · simp [he, hlt] at hp
    · simp [he, frame_past hg] at hp
  · intro g o hg ho
    rw [addScope, frame_addFrame_eq] at ho
    by_cases he : g = s.frames.size
    · simp only [he, ↓reduceIte] at ho
      exact ⟨lt_size_of_scopeRole ho, he ▸ (h.anchored (.inr ⟨o, rfl⟩)).1⟩
    · simp [he, frame_past hg] at ho

/-- The frame of properties of a new object leads to one that is there already. -/
theorem object (h : s.Founded) (proto : Option ObjectId) (body : Body) {fr : Frame}
    (hparent : ∀ p, fr.parent = some p → s.Anchored p) (hrole : ∀ o, fr.role ≠ .subject o) :
    ((s.addFrame fr).2.addObject { proto, props := s.frames.size, body }).2.Founded := by
  let t := ((s.addFrame fr).2.addObject { proto, props := s.frames.size, body }).2
  have hframe (g : FrameId) : t.frame g = if g = s.frames.size then fr else s.frame g := frame_addFrame_eq s fr g
  have hprops (o : ObjectId) : t.propsOf o = if o = s.objects.size then s.frames.size else s.propsOf o :=
    propsOf_addObject _ _ o
  refine h.settled ((Settled.addFrame s fr).trans (.addObject _ _)) ?_ ?_ ?_
  · intro g p hg hp
    rw [hframe] at hp
    by_cases he : g = s.frames.size
    · rw [if_pos he] at hp
      exact he ▸ (h.anchored (hparent p hp)).1
    · simp [he, frame_past hg] at hp
  · intro g o hg ho
    rw [hframe] at ho
    by_cases he : g = s.frames.size
    · rw [if_pos he] at ho
      exact absurd ho (hrole o)
    · simp [he, frame_past hg] at ho
  · intro o
    rw [hprops]
    by_cases he : o = s.objects.size
    · rw [if_pos he, hframe, if_pos rfl]
      exact .inr ⟨by simp [Store.addFrame, Store.addObject], hrole, hparent⟩
    · rw [if_neg he]
      exact .inl (.inr ⟨o, rfl⟩)

theorem body (h : s.Founded) (o : ObjectId) {change : Object → Object}
    (hchange : ∀ x, (change x).props = x.props) : (s.modifyObject o change).Founded := by
  have hst : s.Settled (s.modifyObject o change) := .modifyObject s o hchange
  refine h.settled hst (fun _ _ _ => h.parent) (fun _ _ _ => h.subject) ?_
  intro o'
  rw [propsOf_modifyObject s o hchange o']
  exact .inl (.inr ⟨o', rfl⟩)

/-- A change keeps a store founded. -/
theorem change (h : s.Founded) (hst : s.Change t) : t.Founded := by
  have hsettled := Settled.of_change hst
  cases hst with
  | frame f c halike hlength => exact h.frame f hsettled
  | scope parent role => exact h.scope parent role
  | object proto body fr hparent hrole hlength => exact h.object proto body hparent hrole
  | body o change hchange => exact h.body o fun x => (hchange x).1

theorem changes (h : s.Founded) (hst : s.Changes t) : t.Founded := by
  induction hst with
  | refl => exact h
  | tail _ hlast ih => exact ih.change hlast

end Founded

/-! ## Loops along the parents -/

/-- A loop that visits a frame, its parent, the parent of that and so on, until a visit ends it or there is no
further parent, where `finish` gives the result. Nothing bounds how often it goes round. -/
inductive Climb (s : Store) {σ β : Type} (visit : FrameId → σ → Round σ β) (finish : σ → β) :
    FrameId → σ → β → Prop
  | stop {f : FrameId} {x : σ} {b : β} (h : visit f x = .done b) : Climb s visit finish f x b
  | up {f p : FrameId} {x y : σ} {b : β} (h : visit f x = .again y) (hp : (s.frame f).parent = some p)
      (hrest : Climb s visit finish p y b) : Climb s visit finish f x b
  | top {f : FrameId} {x y : σ} (h : visit f x = .again y) (hp : (s.frame f).parent = none) :
      Climb s visit finish f x (finish y)

/-- The visits of a loop to the frames of a list. -/
def along {σ β : Type} (visit : FrameId → σ → Round σ β) (finish : σ → β) : List FrameId → σ → β
  | [], x => finish x
  | f :: rest, x =>
    match visit f x with
    | .done b => b
    | .again y => along visit finish rest y

section Loops

variable {σ β γ : Type} {visit visit' : FrameId → σ → Round σ β} {finish : σ → β} {x : σ} {b b' : β}

/-- A loop has one end. -/
theorem Climb.unique (h : s.Climb visit finish f x b) (h' : s.Climb visit finish f x b') : b = b' := by
  induction h with
  | stop h =>
    cases h' with
    | stop h' => simpa [h] using h'
    | up h' => simp [h] at h'
    | top h' => simp [h] at h'
  | up h hp hrest ih =>
    cases h' with
    | stop h' => simp [h] at h'
    | up h' hp' hrest' =>
      obtain rfl : _ = _ := Round.again.inj (h.symm.trans h')
      obtain rfl : _ = _ := Option.some.inj (hp.symm.trans hp')
      exact ih hrest'
    | top h' hp' => simp [hp] at hp'
  | top h hp =>
    cases h' with
    | stop h' => simp [h] at h'
    | up h' hp' => simp [hp] at hp'
    | top h' hp' => rw [Round.again.inj (h.symm.trans h')]

/-- A loop visits a frame and its ancestors and ends with the last of them, since each is older than the one
before. -/
theorem Founded.climb_ancestors (h : s.Founded) (visit : FrameId → σ → Round σ β) (finish : σ → β) {n : Nat}
    (hn : f < n) (x : σ) : s.Climb visit finish f x (along visit finish (s.ancestors n f) x) := by
  induction n generalizing f x with
  | zero => exact absurd hn (Nat.not_lt_zero f)
  | succ n ih =>
    rw [ancestors, along]
    cases hvisit : visit f x with
    | done b => exact .stop hvisit
    | again y =>
      cases hparent : (s.frame f).parent with
      | none => exact .top hvisit hparent
      | some p =>
        have hp : p < n := Nat.lt_of_lt_of_le (h.parent hparent) (Nat.le_of_lt_succ hn)
        exact .up hvisit hparent (ih hp y)

theorem Founded.climb (h : s.Founded) (visit : FrameId → σ → Round σ β) (finish : σ → β) (f : FrameId) (x : σ) :
    s.Climb visit finish f x (along visit finish (s.chain f) x) :=
  h.climb_ancestors visit finish (Nat.lt_succ_self f) x

theorem along_congr {l : List FrameId} (h : ∀ g ∈ l, visit g = visit' g) (x : σ) :
    along visit finish l x = along visit' finish l x := by
  induction l generalizing x with
  | nil => rfl
  | cons g rest ih =>
    simp only [along, h g List.mem_cons_self]
    split
    · rfl
    · exact ih (fun g' hg' => h g' (List.mem_cons_of_mem g hg')) _

/-- A visit that looks for something. -/
def seek (found : γ → β) (level : FrameId → Option γ) (f : FrameId) (_ : Unit) : Round Unit β :=
  match level f with
  | some c => .done (found c)
  | none => .again ()

theorem along_seek (found : γ → β) (level : FrameId → Option γ) (d : β) (l : List FrameId) :
    along (seek found level) (fun _ => d) l () = ((l.findSome? level).map found).getD d := by
  induction l with
  | nil => rfl
  | cons g rest ih => cases h : level g <;> simp [along, seek, h, ih]

/-- A visit that collects keys. -/
def collect (level : FrameId → List Key) (f : FrameId) (seen : List Key) : Round (List Key) β :=
  .again (seen ++ level f)

theorem along_collect (level : FrameId → List Key) (finish : List Key → β) (l : List FrameId) (seen : List Key) :
    along (collect level) finish l seen = finish (seen ++ (l.map level).flatten) := by
  induction l generalizing seen with
  | nil => simp [along]
  | cons g rest ih => simp [along, collect, ih]

/-- A visit that collects the keys that enumeration shows; beside them goes what has been seen. -/
def listLevel (s : Store) (f : FrameId) (seen : List Key × List Key) : Round (List Key × List Key) β :=
  let fresh := (s.levelKeys f).eraseDups.filter fun k => !seen.1.contains k
  .again (fresh ++ seen.1, seen.2 ++ fresh.filter (s.frame f).isListed)

theorem along_listLevel (s : Store) (l : List FrameId) (seen shown : List Key) :
    along s.listLevel Prod.snd l (seen, shown) = shown ++ s.listedKeys seen l := by
  induction l generalizing seen shown with
  | nil => simp [along, listedKeys]
  | cons g rest ih => simp [along, listLevel, listedKeys, ih]

/-- A visit that stops at a role. -/
def stopAt (s : Store) (p : Frame.Role → Bool) (f : FrameId) (_ : FrameId) : Round FrameId FrameId :=
  if p (s.frame f).role then .done f else .again f

theorem along_stopAt (s : Store) (p : Frame.Role → Bool) (l : List FrameId) (f : FrameId) :
    along (s.stopAt p) id l f = (l.find? fun g => p (s.frame g).role).getD (l.getLastD f) := by
  induction l generalizing f with
  | nil => rfl
  | cons g rest ih =>
    by_cases h : p (s.frame g).role
    · simp [along, stopAt, h]
    · simp only [along, stopAt, h, Bool.false_eq_true, ↓reduceIte, ih, List.find?_cons_of_neg, not_false_eq_true,
        List.getLastD_cons]

/-- A visit that stops at one frame, but not if the loop started there. -/
def meet (g f : FrameId) (started : Bool) : Round Bool Bool := if started && f == g then .done true else .again true

theorem along_meet (g : FrameId) (l : List FrameId) : along (meet g) (fun _ => false) l true = l.contains g := by
  induction l with
  | nil => rfl
  | cons f rest ih =>
    by_cases h : f = g
    · simp [along, meet, h]
    · simp [along, meet, h, Ne.symm h, ih]

end Loops

/-- The ends of the loops that scopes and objects are searched with: they come to an end and give the values that
the functions of the store give. What a loop does on a scope with a subject goes through the properties of that
object; the loops there use the same visits and meet no further subject. -/
structure Ends (s : Store) : Prop where
  get (f : FrameId) (k : Key) : s.Climb (seek id fun g => s.levelLookup? g k) (fun _ => .undefined) f () (s.get f k)
  owner? (f : FrameId) (k : Key) :
    s.Climb (seek some fun g => s.levelOwner? g k) (fun _ => none) f () (s.owner? f k)
  has (f : FrameId) (k : Key) :
    s.Climb (seek (fun _ => true) fun g => s.levelOwner? g k) (fun _ => false) f () (s.has f k)
  keys (f : FrameId) : s.Climb (collect s.levelKeys) List.eraseDups f [] (s.keys f)
  enumerableKeys (f : FrameId) : s.Climb s.listLevel Prod.snd f ([], []) (s.enumerableKeys f)
  inherits (f g : FrameId) : s.Climb (meet g) (fun _ => false) f false (s.inherits f g)
  root (f : FrameId) : s.Climb (s.stopAt fun _ => false) id f f (s.root f)
  globalScope (f : FrameId) : s.Climb (s.stopAt (· == .program)) id f f (s.globalScope f)
  find? (o : ObjectId) (k : Key) :
    s.Climb (seek some fun g => s.levelLookup? g k) (fun _ => none) (s.propsOf o) () (s.find? (s.propsOf o) k)
  propertyKeys (o : ObjectId) :
    s.Climb (collect s.levelKeys) List.eraseDups (s.propsOf o) [] (s.propertyKeys o)
  plain (o : ObjectId) : ∀ g ∈ s.chain (s.propsOf o), ∀ x, (s.frame g).role ≠ .subject x

namespace Founded

/-- Frames of properties lead to frames without subjects. -/
theorem role_ancestors (h : s.Founded) (hf : s.Anchored f) {n : Nat} (hg : g ∈ s.ancestors n f) (o : ObjectId) :
    (s.frame g).role ≠ .subject o := by
  induction n generalizing f with
  | zero => cases hg
  | succ n ih =>
    obtain ⟨-, hrole, hparent⟩ := h.anchored hf
    obtain rfl | hg := List.mem_cons.1 hg
    · exact hrole o
    · cases hp : (s.frame f).parent with
      | none => simp [hp] at hg
      | some p =>
        rw [hp] at hg
        exact ih (hparent p hp) hg

theorem levelLookup?_eq (hrole : ∀ o, (s.frame f).role ≠ .subject o) (k : Key) :
    s.levelLookup? f k = (s.frame f).lookup? k := by
  unfold levelLookup?
  split
  · exact absurd ‹_› (hrole _)
  · rfl

theorem levelKeys_eq (hrole : ∀ o, (s.frame f).role ≠ .subject o) : s.levelKeys f = (s.frame f).keys := by
  unfold levelKeys
  split
  · exact absurd ‹_› (hrole _)
  · rfl

/-- Every search comes to an end. -/
theorem ends (h : s.Founded) : s.Ends where
  get f k := by simpa [along_seek, Store.get] using h.climb (seek id fun g => s.levelLookup? g k) (fun _ => .undefined) f ()
  owner? f k := by
    have hclimb := h.climb (seek some fun g => s.levelOwner? g k) (fun _ => none) f ()
    rw [along_seek] at hclimb
    cases howner : (s.chain f).findSome? fun g => s.levelOwner? g k <;> simpa [Store.owner?, howner] using hclimb
  has f k := by
    have hclimb := h.climb (seek (fun _ => true) fun g => s.levelOwner? g k) (fun _ => false) f ()
    rw [along_seek] at hclimb
    cases howner : (s.chain f).findSome? fun g => s.levelOwner? g k <;>
      simpa [Store.has, Store.owner?, howner] using hclimb
  keys f := by simpa [along_collect, Store.keys, mergeKeys] using h.climb (collect s.levelKeys) List.eraseDups f []
  enumerableKeys f := by
    simpa [along_listLevel, Store.enumerableKeys] using h.climb s.listLevel Prod.snd f ([], [])
  inherits f g := by
    have hclimb := h.climb (meet g) (fun _ => false) f false
    rw [chain, ancestors, along] at hclimb
    simpa [meet, along_meet, Store.inherits, chain, ancestors] using hclimb
  root f := by
    have hnone : ((s.chain f).find? fun _ => false) = none := List.find?_eq_none.2 (by simp)
    simpa [along_stopAt, Store.root, hnone] using h.climb (s.stopAt fun _ => false) id f f
  globalScope f := by
    simpa [along_stopAt, Store.globalScope, Store.nearest, Store.root] using h.climb (s.stopAt (· == .program)) id f f
  find? o k := by
    have hclimb := h.climb (seek some fun g => s.levelLookup? g k) (fun _ => none) (s.propsOf o) ()
    have hlevel : ∀ g ∈ s.chain (s.propsOf o), seek some (fun g => s.levelLookup? g k) g =
        seek some (fun g => (s.frame g).lookup? k) g := by
      intro g hg
      funext u
      simp only [seek, levelLookup?_eq (h.role_ancestors (.inr ⟨o, rfl⟩) hg) k]
    rw [along_congr hlevel, along_seek] at hclimb
    cases hfound : (s.chain (s.propsOf o)).findSome? fun g => (s.frame g).lookup? k <;>
      simpa [Store.find?, hfound] using hclimb
  propertyKeys o := by
    have hclimb := h.climb (collect s.levelKeys) List.eraseDups (s.propsOf o) []
    have hkeys : (s.chain (s.propsOf o)).map s.levelKeys = (s.chain (s.propsOf o)).map fun g => (s.frame g).keys := by
      refine List.map_congr_left fun g hg => ?_
      exact levelKeys_eq (h.role_ancestors (.inr ⟨o, rfl⟩) hg)
    simpa [along_collect, hkeys, Store.propertyKeys, mergeKeys] using hclimb
  plain o g hg x := h.role_ancestors (.inr ⟨o, rfl⟩) hg x

end Founded

end Store

/-! ## The order of the moments of a run -/

/-- The moments of a passage follow each other by changes of the store. -/
structure Passage.Ordered (s : State) (h : List Occurrence) (t : State) : Prop where
  moments : h.Pairwise fun m m' => m.state.store.Changes m'.state.store
  since : ∀ m ∈ h, s.store.Changes m.state.store
  before : ∀ m ∈ h, m.state.store.Changes t.store
  whole : s.store.Changes t.store

namespace Passage.Ordered

variable {s t u : State} {h h' : List Occurrence}

theorem single {m : Occurrence} (hm : m.state.store = s.store) (hst : s.store.Changes t.store) : Ordered s [m] t := by
  refine ⟨List.pairwise_singleton _ _, ?_, ?_, hst⟩
  · intro m' hm'
    rw [List.mem_singleton.1 hm', hm]
  · intro m' hm'
    rw [List.mem_singleton.1 hm', hm]
    exact hst

theorem trans (hst : Ordered s h t) (htu : Ordered t h' u) : Ordered s (h ++ h') u := by
  refine ⟨?_, ?_, ?_, hst.whole.trans htu.whole⟩
  · refine List.pairwise_append.2 ⟨hst.moments, htu.moments, ?_⟩
    intro m hm m' hm'
    exact (hst.before m hm).trans (htu.since m' hm')
  · intro m hm
    rcases List.mem_append.1 hm with hm | hm
    · exact hst.since m hm
    · exact hst.whole.trans (htu.since m hm)
  · intro m hm
    rcases List.mem_append.1 hm with hm | hm
    · exact (hst.before m hm).trans htu.whole
    · exact htu.before m hm

/-- An action changes the store step by step, and nothing else does. -/
theorem law (limits : Limits) : Law limits Ordered where
  stop _ := ⟨.nil, by simp, by simp, .refl⟩
  trans := trans
  act _ a s := single rfl (a.changes limits s)
  mark {m s} _ hm := single hm (hm ▸ .refl)

end Passage.Ordered

/-! ## The states of an engine -/

/-- The first object is there, and has the frame of properties that objects have by default. -/
theorem Setup.first_founded (host : Host) : (Setup.first host).Founded where
  core := rfl
  first := ⟨Nat.zero_lt_one, rfl⟩
  parent {f p} h := by
    match f with
    | 0 => cases h
    | 1 => cases h
    | f + 2 => cases h
  subject {f o} h := by
    match f with
    | 0 => cases h
    | 1 => cases h
    | f + 2 => cases h
  anchored {f} hf := by
    have hprops (o : ObjectId) : (Setup.first host).propsOf o = 1 := by
      match o with
      | 0 => rfl
      | o + 1 => rfl
    obtain rfl | ⟨o, rfl⟩ := hf
    · exact ⟨Nat.zero_lt_two, nofun, nofun⟩
    · rw [hprops]
      exact ⟨Nat.one_lt_two, nofun, nofun⟩

/-- The steps of the setup are changes of the store. -/
theorem Setup.kept_changes {s : Store} (hs : s.Founded) : Setup.Kept s.Changes where
  add {t} proto _ _ hpiece h := h.trans (Setup.changes_add t proto hpiece)
  define _ _ v hk _ h := h.trans (Setup.changes_define (hs.changes h).core hk v)

namespace Engine

theorem founded_new (settings : Settings) (host : Host) (services : List (Text × Service)) :
    (new settings host services).store.Founded := by
  have hfirst := Setup.first_founded host
  have hkept := Setup.kept_changes hfirst
  have hs := hfirst.changes (hkept.services services (hkept.initial_of_first host .refl))
  simp only [new, store]
  split
  · exact hs.changes (.sealFrom true _ _ _)
  · exact hs

/-- The states of an engine from the start on, in order: between the runs, during and after them. The engine may
run any computations, and the host may do in between what hosts can do. -/
inductive Life : List State → Engine → Prop
  | new (settings : Settings) (host : Host) (services : List (Text × Service)) (fuel : Nat) :
      Life [(new settings host services).state] { new settings host services with fuel }
  | ran {states : List State} {e : Engine} {α : Type} (p : Proc α) (h : Life states e) :
      Life (states ++ (e.record p).map (·.state) ++ [(e.run p).2.state]) (e.run p).2
  | registered {states : List State} {e : Engine} (h : Life states e) (name : Text) (f : Service) :
      Life (states ++ [(Session.register e name f).2.state]) (Session.register e name f).2
  | restricted {states : List State} {e : Engine} (h : Life states e) (flag : Bool) :
      Life (states ++ [(Session.restrict e flag).2.state]) (Session.restrict e flag).2
  | collected {states : List State} {e : Engine} (h : Life states e) :
      Life (states ++ [e.collect.2.state]) e.collect.2

namespace Life

variable {states : List State} {e : Engine}

/-- Stores follow each other by changes, from one that is founded on. -/
structure Unfolds (states : List State) (e : Engine) : Prop where
  founded : ∀ s ∈ states, s.store.Founded
  order : states.Pairwise fun s t => s.store.Changes t.store
  now : ∀ s ∈ states, s.store.Changes e.store
  current : e.store.Founded

/-- The states of a further piece of work. -/
theorem Unfolds.onward (h : Unfolds states e) {later : List State} {e' : Engine}
    (hsince : ∀ s ∈ later, e.store.Changes s.store) (horder : later.Pairwise fun s t => s.store.Changes t.store)
    (hbefore : ∀ s ∈ later, s.store.Changes e'.store) (hwhole : e.store.Changes e'.store) :
    Unfolds (states ++ later) e' where
  founded s hs := by
    rcases List.mem_append.1 hs with hs | hs
    · exact h.founded s hs
    · exact h.current.changes (hsince s hs)
  order := by
    refine List.pairwise_append.2 ⟨h.order, horder, ?_⟩
    intro s hs t ht
    exact (h.now s hs).trans (hsince t ht)
  now s hs := by
    rcases List.mem_append.1 hs with hs | hs
    · exact (h.now s hs).trans hwhole
    · exact hbefore s hs
  current := h.current.changes hwhole

/-- One further state. -/
theorem Unfolds.step (h : Unfolds states e) {e' : Engine} (hwhole : e.store.Changes e'.store) :
    Unfolds (states ++ [e'.state]) e' := by
  refine h.onward ?_ (List.pairwise_singleton _ _) ?_ hwhole
  · intro s hs
    rw [List.mem_singleton.1 hs]
    exact hwhole
  · intro s hs
    rw [List.mem_singleton.1 hs]
    exact .refl

/-- The states of a run. -/
theorem Unfolds.ran (h : Unfolds states e) {α : Type} (p : Proc α) :
    Unfolds (states ++ (e.record p).map (·.state) ++ [(e.run p).2.state]) (e.run p).2 := by
  have hrun := (Passage.Ordered.law e.limits).observeIn p e.fuel e.state
  have hend : (p.observeIn e.limits e.fuel e.state).2.2 = (e.run p).2.state := by
    rw [Proc.observeIn_snd]
    rfl
  obtain ⟨hmoments, hsince, hbefore, hwhole⟩ := hrun
  rw [hend] at hbefore hwhole
  have hrecord : ∀ s ∈ (e.record p).map (·.state), e.store.Changes s.store ∧ s.store.Changes (e.run p).2.store := by
    intro s hs
    obtain ⟨m, hm, rfl⟩ := List.mem_map.1 hs
    exact ⟨hsince m hm, hbefore m hm⟩
  rw [List.append_assoc]
  refine h.onward ?_ ?_ ?_ hwhole
  · intro s hs
    rcases List.mem_append.1 hs with hs | hs
    · exact (hrecord s hs).1
    · rw [List.mem_singleton.1 hs]
      exact hwhole
  · refine List.pairwise_append.2 ⟨List.pairwise_map.2 hmoments, List.pairwise_singleton _ _, ?_⟩
    intro s hs t ht
    rw [List.mem_singleton.1 ht]
    exact (hrecord s hs).2
  · intro s hs
    rcases List.mem_append.1 hs with hs | hs
    · exact (hrecord s hs).2
    · rw [List.mem_singleton.1 hs]
      exact .refl

theorem unfolds (h : Life states e) : Unfolds states e := by
  induction h with
  | new settings host services fuel =>
    have hnew := founded_new settings host services
    refine ⟨?_, List.pairwise_singleton _ _, ?_, hnew⟩
    · intro s hs
      rw [List.mem_singleton.1 hs]
      exact hnew
    · intro s hs
      rw [List.mem_singleton.1 hs]
      exact .refl
  | ran p h ih => exact ih.ran p
  | @registered states e h name f ih =>
    refine ih.step ?_
    unfold Session.register
    split
    · exact .refl
    · exact (Setup.kept_changes ih.current).service name f .refl
  | restricted h flag ih => exact ih.step (.sealFrom flag _ _ _)
  | collected h ih => exact ih.step .refl

/-- In every state of an engine, whatever it runs, the frames that a frame leads to are older than the frame: the
parent, and the properties of the object that a scope has for its subject. They stay what they are in all later
states. So links are well-founded, no chain of them comes back to where it started, every loop along the parents
of a frame ends, and the searches through scopes and objects do so with the values that they are given here. -/
theorem links_founded (h : Life states e) :
    (states.Pairwise fun s t => s.store.Settled t.store) ∧
      ∀ s ∈ states,
        (∀ f p, (s.store.frame f).parent = some p → p < f) ∧
        (∀ f o, (s.store.frame f).role = .subject o → o < s.store.objects.size ∧ s.store.propsOf o < f) ∧
        WellFounded s.store.Link ∧ (∀ f, ¬Relation.TransGen s.store.Link f f) ∧
        (∀ {σ β : Type} (visit : FrameId → σ → Round σ β) (finish : σ → β) (f : FrameId) (x : σ),
          ∃! b, s.store.Climb visit finish f x b) ∧
        s.store.Ends := by
  have hunfolds := h.unfolds
  refine ⟨hunfolds.order.imp Store.Settled.of_changes, ?_⟩
  intro s hs
  have hfounded := hunfolds.founded s hs
  refine ⟨fun _ _ => hfounded.parent, fun _ _ => hfounded.subject, hfounded.wellFounded_link, ?_, ?_, hfounded.ends⟩
  · intro f hcycle
    exact Nat.lt_irrefl f (hfounded.lt_of_links hcycle)
  · intro σ β visit finish f x
    exact ⟨_, hfounded.climb visit finish f x, fun b hb => hb.unique (hfounded.climb visit finish f x)⟩

/-- A scope over the object that stands for a program, and in it a scope over an object that inherits from it. -/
def withinGlobal : Program :=
  let derived : Expr := .call (.member (.ident "Object") (.literal (.str "create"))) [.ident "globalThis"]
  [.within (.ident "globalThis") (.within derived (.expr (.ident "x")))]

/-- The links when such scopes have been opened. -/
theorem links_founded_withinGlobal :
    let e : Engine := { Engine.new {} {} [] with fuel := 100 }
    let work : Proc Value := newDesk >>= fun d => runProgram d.scope d.runner withinGlobal
    WellFounded (e.run work).2.state.store.Link ∧ (e.run work).2.state.store.Ends := by
  intro e work
  have hlife : Life _ (e.run work).2 := .ran work (.new {} {} [] 100)
  obtain ⟨-, -, hwf, -, -, hends⟩ := (links_founded hlife).2 _ List.mem_concat_self
  exact ⟨hwf, hends⟩

end Life

/-- What a host can reach has a life behind it. -/
theorem Reached.life {scopes : List FrameId} {e : Engine} (h : Reached scopes e) :
    ∃ states, Life states e ∧ e.state ∈ states := by
  induction h with
  | new settings host services fuel => exact ⟨_, .new settings host services fuel, List.mem_singleton_self _⟩
  | opened h hdesk hd ih =>
    obtain ⟨states, hlife, -⟩ := ih
    exact ⟨_, hlife.ran _, List.mem_concat_self⟩
  | worked h hp ih =>
    obtain ⟨states, hlife, -⟩ := ih
    exact ⟨_, hlife.ran _, List.mem_concat_self⟩
  | registered h name f ih =>
    obtain ⟨states, hlife, -⟩ := ih
    exact ⟨_, hlife.registered name f, List.mem_concat_self⟩
  | restricted h flag ih =>
    obtain ⟨states, hlife, -⟩ := ih
    exact ⟨_, hlife.restricted flag, List.mem_concat_self⟩
  | collected h ih =>
    obtain ⟨states, hlife, -⟩ := ih
    exact ⟨_, hlife.collected, List.mem_concat_self⟩

end Engine
end ScriptEngine
