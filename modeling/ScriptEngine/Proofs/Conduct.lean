import ScriptEngine.Proofs.Record
import ScriptEngine.Proofs.Scopes

/-!
# The conduct of computations

A computation *behaves* if it keeps to its licence: it performs only actions that are allowed, makes requests
only from rooted scopes, and never finds a tree malformed. The definition follows the computation through all
stores that it may come across: after each action and each answer these are the sound stores that can follow.
What is true of a computation in this sense is true of all its runs.

## Main definitions

* `Proc.Behaves`: a computation keeps to its licence from a store on.
* `Proc.Meets`, `Proc.Tame`: it does so in every sound store in which a scope is rooted.
* `Proc.Onward`: it does so in every store after a given one.
* `Occurrence.Lawful`: only a call of an error constructor makes reference errors.
* `Occurrence.Aimed`: keys are bound where computations may bind them.

## Main results

* `Proc.behaves_bind`, `Proc.Behaves.attempt`: composed computations.
* `Proc.Behaves.observe`: a run of a computation that behaves.
-/

namespace ScriptEngine

open Proc (Round)

/-- The scope from which a request is made. -/
def Request.invoker : Request → Option FrameId
  | call _ invoker _ _ => invoker
  | construct _ invoker _ => invoker

/-- A computation keeps to its licence from a store on, and what is true of its result. -/
def Proc.Behaves (L : Licence) : Proc α → (Store → α → Prop) → Store → Prop
  | ret a, Q, s => Q s a
  | throw _, _, _ => True
  | fault f, _, _ => f ≠ .malformedTree
  | look k, Q, s => Behaves L (k s) Q s
  | act a k, Q, s => L.Allows s a ∧ ∀ r t, s.Next L.names t → a.Answered t r → Behaves L (k r) Q t
  | ask r k, Q, s => (∀ f ∈ r.invoker, s.Rooted f) ∧ ∀ v t, s.Next L.names t → Behaves L (k v) Q t
  | loop _ _ test body _ k, Q, s => ∀ t, s.Next L.names t →
    (∀ x, Behaves L (test x) (fun _ _ => True) t) ∧ (∀ x, Behaves L (body x) (fun _ _ => True) t) ∧
      ∀ b, Behaves L (k b) Q t

/-- A computation keeps to its licence in every sound store in which a scope, if one is given, is rooted. -/
def Proc.Meets (L : Licence) (scope : Option FrameId) (Q : Store → α → Prop) (p : Proc α) : Prop :=
  ∀ s, s.Sound L.names → (∀ f ∈ scope, s.Rooted f) → p.Behaves L Q s

/-- A computation keeps to its licence, whatever its result. -/
abbrev Proc.Tame (L : Licence) (scope : Option FrameId) (p : Proc α) : Prop := p.Meets L scope fun _ _ => True

/-- A computation keeps to its licence in every store after a given one, whatever its result. -/
def Proc.Onward (L : Licence) (s : Store) (p : Proc α) : Prop :=
  ∀ t, s.Next L.names t → p.Behaves L (fun _ _ => True) t

variable {α β σ : Type} {L : Licence} {s : Store} {scope : Option FrameId}

namespace Proc

/-- One computation after another behaves if the second does after the first. -/
theorem behaves_bind (p : Proc α) (f : α → Proc β) (Q : Store → β → Prop) :
    (p >>= f).Behaves L Q s ↔ p.Behaves L (fun t a => (f a).Behaves L Q t) s := by
  change (p.bind f).Behaves L Q s ↔ _
  induction p generalizing s with
  | ret a => rfl
  | throw v => rfl
  | fault e => rfl
  | look k ih => exact ih s _
  | act a k ih => simp only [bind, Behaves, ih]
  | ask r k ih => simp only [bind, Behaves, ih]
  | loop runner kind test body x k _ _ ih => simp only [bind, Behaves, ih]

theorem behaves_read {f : Store → α} {k : α → Proc β} {Q : Store → β → Prop} :
    (Proc.read f >>= k).Behaves L Q s ↔ (k (f s)).Behaves L Q s := Iff.rfl

theorem Behaves.mono {Q Q' : Store → α → Prop} {p : Proc α} (hp : p.Behaves L Q s) (hs : s.Sound L.names)
    (h : ∀ t a, s.Next L.names t → Q t a → Q' t a) : p.Behaves L Q' s := by
  induction p generalizing s with
  | ret a => exact h s a (.refl hs) hp
  | throw v => trivial
  | fault e => exact hp
  | look k ih => exact ih s hp hs h
  | act a k ih =>
      exact ⟨hp.1, fun r t ht hr => ih r (hp.2 r t ht hr) ht.sound fun u a hu => h u a (ht.trans hu)⟩
  | ask r k ih => exact ⟨hp.1, fun v t ht => ih v (hp.2 v t ht) ht.sound fun u a hu => h u a (ht.trans hu)⟩
  | loop runner kind test body x k _ _ ih =>
      intro t ht
      obtain ⟨htest, hbody, hk⟩ := hp t ht
      exact ⟨htest, hbody, fun b => ih b (hk b) ht.sound fun u a hu => h u a (ht.trans hu)⟩

theorem Behaves.bind {P : Store → α → Prop} {Q : Store → β → Prop} {p : Proc α} {f : α → Proc β}
    (hp : p.Behaves L P s) (hs : s.Sound L.names)
    (hf : ∀ t a, s.Next L.names t → P t a → (f a).Behaves L Q t) : (p >>= f).Behaves L Q s :=
  (behaves_bind p f Q).2 (hp.mono hs hf)

theorem Behaves.attempt {Q : Store → α → Prop} {p : Proc α} (hp : p.Behaves L Q s) (hs : s.Sound L.names) :
    p.attempt.Behaves L (fun _ _ => True) s := by
  induction p generalizing s with
  | ret a => trivial
  | throw v => trivial
  | fault e => exact hp
  | look k ih => exact ih s hp hs
  | act a k ih => exact ⟨hp.1, fun r t ht hr => ih r (hp.2 r t ht hr) ht.sound⟩
  | ask r k ih => exact ⟨hp.1, fun v t ht => ih v (hp.2 v t ht) ht.sound⟩
  | loop runner kind test body x k ihTest ihBody ih =>
      simp only [Proc.attempt, Behaves]
      intro t ht
      obtain ⟨htest, hbody, hk⟩ := hp t ht
      refine ⟨fun x => ?_, fun x => ?_, fun b => ?_⟩
      · exact (ihTest x (htest x) ht.sound).bind ht.sound fun _ _ _ _ => trivial
      · exact (ihBody x (hbody x) ht.sound).bind ht.sound fun _ _ _ _ => trivial
      · cases b with
        | ok b => exact ih b (hk b) ht.sound
        | error v => trivial

namespace Meets

variable {P : Store → α → Prop} {Q : Store → β → Prop}

theorem pure {a : α} (h : ∀ s, s.Sound L.names → (∀ f ∈ scope, s.Rooted f) → P s a) :
    Meets L scope P (pure a) := h

theorem bind {p : Proc α} {f : α → Proc β} (hp : p.Meets L scope P)
    (hf : ∀ a s, s.Sound L.names → (∀ f ∈ scope, s.Rooted f) → P s a → (f a).Behaves L Q s) :
    (p >>= f).Meets L scope Q := fun s hs hscope =>
  (hp s hs hscope).bind hs fun t a ht ha => hf a t ht.sound (fun f hf => (hscope f hf).later ht.later) ha

/-- Whatever its result. -/
theorem tame {p : Proc α} (hp : p.Meets L scope P) : p.Tame L scope := fun s hs hscope =>
  (hp s hs hscope).mono hs fun _ _ _ _ => trivial

/-- What the result of the first computation is does not matter. -/
theorem next {p : Proc α} {f : α → Proc β} (hp : p.Meets L scope P) (hf : ∀ a, (f a).Meets L scope Q) :
    (p >>= f).Meets L scope Q := hp.bind fun a s hs hscope _ => hf a s hs hscope

theorem throw (v : Value) : Meets L scope P (Proc.throw v) := fun _ _ _ => trivial

theorem fault {f : Fault} (h : f ≠ .malformedTree) : Meets L scope P (Proc.fault f) := fun _ _ _ => h

theorem raise {kind : ErrorKind} (h : kind ≠ .referenceError) (message : Text) :
    Meets L scope P (raise kind message) := fun _ _ _ => ⟨fun he => absurd he h, fun _ _ _ _ => trivial⟩

theorem typeError (message : Text) : Meets L scope P (typeError message) := raise (by decide) message

theorem rangeError (message : Text) : Meets L scope P (rangeError message) := raise (by decide) message

end Meets

namespace Tame

variable {p : Proc α}

theorem pure (a : α) : Tame L scope (pure a) := fun _ _ _ => trivial

theorem bind {f : α → Proc β} (hp : p.Tame L scope) (hf : ∀ a, (f a).Tame L scope) :
    (p >>= f).Tame L scope := Meets.next hp hf

theorem ite {c : Prop} [Decidable c] {q : Proc α} (hp : p.Tame L scope) (hq : q.Tame L scope) :
    (if c then p else q).Tame L scope := by
  split
  · exact hp
  · exact hq

theorem read (f : Store → α) : Tame L scope (Proc.read f) := fun _ _ _ => trivial

theorem perform {a : Action} (h : ∀ s : Store, L.Allows s a) : Tame L scope (Proc.perform a) :=
  fun s _ _ => ⟨h s, fun _ _ _ _ => trivial⟩

/-- A name goes to any frame but that of the built-in names. -/
theorem put {f : FrameId} (hf : f ≠ Realm.core) {name : Text} (hname : Key.ofText name = .name name) (v : Value) :
    Tame L scope (Proc.perform (.put f (.name name) v)) := perform fun _ => ⟨fun he => absurd he hf, hname⟩

theorem attempt (hp : p.Tame L scope) : p.attempt.Tame L scope := fun s hs hscope => (hp s hs hscope).attempt hs

/-- The frame of the properties of an object is not that of the built-in names. -/
theorem propsOf (o : ObjectId) {f : FrameId → Proc β} (hf : ∀ g, g ≠ Realm.core → (f g).Tame L scope) :
    (Proc.read (·.propsOf o) >>= f).Tame L scope := fun s hs hscope => hf _ (hs.props o) s hs hscope

theorem request {r : Request} (h : r.invoker = none ∨ r.invoker = scope) : Tame L scope (request r) := by
  intro s hs hscope
  refine ⟨fun f hf => ?_, fun v t ht => ?_⟩
  · obtain h | h := h
    · simp [h] at hf
    · exact hscope f (h ▸ hf)
  · cases v <;> trivial

theorem call (function : ObjectId) (this : Value) (args : List Value) :
    Tame L scope (call function scope this args) := request (.inr rfl)

/-- A call by the engine itself. -/
theorem callAlone (function : ObjectId) (this : Value) (args : List Value) :
    Tame L scope (Proc.call function none this args) := request (.inl rfl)

theorem onward (hp : p.Tame L scope) (hscope : ∀ f ∈ scope, s.Rooted f) : p.Onward L s :=
  fun t ht => hp t ht.sound fun f hf => (hscope f hf).later ht.later

/-- What is onward from every sound store in which a scope is rooted is tame. -/
theorem of_onward (h : ∀ s, s.Sound L.names → (∀ f ∈ scope, s.Rooted f) → p.Onward L s) : p.Tame L scope :=
  fun s hs hscope => h s hs hscope s (.refl hs)

end Tame

namespace Onward

theorem pure (a : α) : Onward L s (pure a) := fun _ _ => trivial

theorem bind {p : Proc α} {f : α → Proc β} (hp : p.Onward L s) (hf : ∀ a, (f a).Onward L s) :
    (p >>= f).Onward L s := fun t ht =>
  (hp t ht).bind ht.sound fun u a hu _ => hf a u (ht.trans hu)

theorem throw (v : Value) : Onward L s (Proc.throw v : Proc α) := fun _ _ => trivial

theorem fault {f : Fault} (h : f ≠ .malformedTree) : Onward L s (Proc.fault f : Proc α) := fun _ _ => h

theorem read (f : Store → α) : Onward L s (Proc.read f) := fun _ _ => trivial

theorem ite {c : Prop} [Decidable c] {p q : Proc α} (hp : p.Onward L s) (hq : q.Onward L s) :
    (if c then p else q).Onward L s := by
  split
  · exact hp
  · exact hq

/-- An index of an array. -/
theorem putIndex {f : FrameId} (hf : s.Slotted f) (i : Nat) (v : Value) :
    Onward L s (perform (.put f (.index i) v)) := fun _ ht =>
  have hlater := hf.later ht.later
  ⟨⟨fun he => absurd he (ht.sound.slotted_ne_core hlater), hlater.takes i⟩, fun _ _ _ _ => trivial⟩

theorem walk {ι : Type} {round : ι → σ → Proc (Round σ β)} {finish : σ → β}
    (hround : ∀ a x, (round a x).Onward L s) (as : List ι) (x : σ) : (walk round finish as x).Onward L s := by
  induction as generalizing x with
  | nil => exact pure _
  | cons a as ih =>
      refine (hround a x).bind fun r => ?_
      cases r with
      | again x => exact ih x
      | done b => exact pure b

end Onward

namespace Tame

theorem walk {ι : Type} {round : ι → σ → Proc (Round σ β)} {finish : σ → β}
    (hround : ∀ a x, (round a x).Tame L scope) (as : List ι) (x : σ) : (walk round finish as x).Tame L scope :=
  of_onward fun _ _ hscope => .walk (fun a x => (hround a x).onward hscope) as x

theorem map {f : α → Proc β} (hf : ∀ a, (f a).Tame L scope) (as : List α) : (map f as).Tame L scope := by
  have hloop (acc : List β) : (mapLoop f acc as).Tame L scope := by
    induction as generalizing acc with
    | nil => exact pure _
    | cons a as ih => exact (hf a).bind fun b => ih (b :: acc)
  exact hloop []

theorem each {f : α → Proc Unit} (hf : ∀ a, (f a).Tame L scope) (as : List α) : (each f as).Tame L scope := by
  induction as with
  | nil => exact pure ()
  | cons a as ih => exact (hf a).bind fun _ => ih

theorem repeated {runner : RunnerId} {kind : NodeKind} {test body : σ → Proc (Round σ β)}
    (htest : ∀ x, (test x).Tame L scope) (hbody : ∀ x, (body x).Tame L scope) (x : σ) :
    (repeated runner kind test body x).Tame L scope := fun _ _ hscope t ht =>
  have hrooted := fun f hf => (hscope f hf).later ht.later
  ⟨fun x => htest x t ht.sound hrooted, fun x => hbody x t ht.sound hrooted, fun _ => trivial⟩

end Tame

end Proc

/-! ## Runs -/

/-- Whether a function makes errors, by the body it has. -/
def Body.isErrorConstructor : Body → Bool
  | .function _ (.native (.error (.construct _))) => true
  | _ => false

/-- Whether a request is one to an error constructor. -/
def Request.isErrorConstruction (s : Store) : Request → Bool
  | call function _ _ _ => (s.body function).isErrorConstructor
  | construct function _ args => (s.body (s.unbound (function + 1) function args).1).isErrorConstructor

/-- Only a call of an error constructor makes reference errors. -/
def Occurrence.Lawful (o : Occurrence) : Prop :=
  ∀ message, o.event = .act (.newError .referenceError message) →
    ∃ r rest, o.within = r :: rest ∧ r.isErrorConstruction o.state.store

/-- An action binds only keys which computations may bind. -/
def Occurrence.Aimed (o : Occurrence) : Prop := ∀ a, o.event = .act a → a.Aimed o.state.store

/-- A passage that keeps to the law: what it records is lawful and aimed, it leaves a sound store, finds no tree
malformed, and its result is as told. -/
structure Passage.Lawful (names : Key → Prop) (Q : Store → α → Prop) (s : State)
    (r : List Occurrence × Outcome α × State) : Prop where
  record (o : Occurrence) : o ∈ r.1 → o.Lawful
  aimed (o : Occurrence) : o ∈ r.1 → o.Aimed
  next : s.store.Next names r.2.2.store
  fault (e : Fault) : r.2.1 = .fault e → e ≠ .malformedTree
  result (a : α) : r.2.1 = .ok a → Q r.2.2.store a

namespace Passage.Lawful

variable {names : Key → Prop} {s t : State} {Q : Store → α → Prop} {R : Store → β → Prop}

theorem ok {a : α} (hs : s.store.Sound names) (h : Q s.store a) : Lawful names Q s ([], .ok a, s) :=
  ⟨by simp, by simp, .refl hs, by simp, by rintro _ ⟨⟩; exact h⟩

theorem stop {o : Outcome α} (hs : s.store.Sound names) (hok : ∀ a, o ≠ .ok a)
    (hfault : ∀ e, o = .fault e → e ≠ .malformedTree) : Lawful names Q s ([], o, s) :=
  ⟨by simp, by simp, .refl hs, hfault, fun a h => absurd h (hok a)⟩

/-- One passage after another. -/
theorem andThen {r : List Occurrence × Outcome α × State} {f : α → Passage β} (hr : Lawful names Q s r)
    (hf : ∀ a t, s.store.Next names t.store → Q t.store a → Lawful names R t (f a t)) :
    Lawful names R s (Passage.andThen r f) := by
  obtain ⟨h, o, t⟩ := r
  cases o with
  | ok a =>
      have hlast := hf a t hr.next (hr.result a rfl)
      refine ⟨fun m hm => ?_, fun m hm => ?_, hr.next.trans hlast.next, hlast.fault, hlast.result⟩
      · rcases List.mem_append.1 hm with hm | hm
        · exact hr.record m hm
        · exact hlast.record m hm
      · rcases List.mem_append.1 hm with hm | hm
        · exact hr.aimed m hm
        · exact hlast.aimed m hm
  | thrown v => exact ⟨hr.record, hr.aimed, hr.next, nofun, nofun⟩
  | fault e =>
      refine ⟨hr.record, hr.aimed, hr.next, ?_, nofun⟩
      rintro _ ⟨⟩
      exact hr.fault e rfl
  | unfinished => exact ⟨hr.record, hr.aimed, hr.next, nofun, nofun⟩

theorem mono {Q' : Store → α → Prop} {r : List Occurrence × Outcome α × State} (hr : Lawful names Q s r)
    (h : ∀ t a, Q t a → Q' t a) : Lawful names Q' s r := { hr with result := fun a ha => h _ a (hr.result a ha) }

theorem caught {r : List Occurrence × Outcome α × State} (hr : Lawful names Q s r) :
    Lawful names (fun _ _ => True) s (Passage.caught r) := by
  obtain ⟨h, o, t⟩ := r
  cases o with
  | ok a => exact ⟨hr.record, hr.aimed, hr.next, nofun, fun _ _ => trivial⟩
  | thrown v => exact ⟨hr.record, hr.aimed, hr.next, nofun, fun _ _ => trivial⟩
  | fault e =>
      refine ⟨hr.record, hr.aimed, hr.next, ?_, nofun⟩
      rintro _ ⟨⟩
      exact hr.fault e rfl
  | unfinished => exact ⟨hr.record, hr.aimed, hr.next, nofun, nofun⟩

/-- An action that is allowed, in an answer that may make reference errors if the licence says so. -/
theorem perform (limits : Limits) {within : List Request} {a : Action} (hs : s.store.Sound L.names)
    (ha : L.Allows s.store a)
    (hforges : L.forges → ∃ r rest, within = r :: rest ∧ r.isErrorConstruction s.store) :
    Lawful L.names (fun t r => a.Answered t r) s (Passage.perform limits within a s) := by
  have hnext := @Licence.next_perform L limits s hs a ha
  have hanswered := @Licence.answered_perform L limits s hs a ha
  have hfault := @Licence.perform_ne_malformedTree limits s a
  simp only [Passage.perform, Course.perform]
  have hlawful : Occurrence.Lawful ⟨within, .act a, s⟩ := by
    rintro message ⟨⟩
    exact hforges (ha rfl)
  have haimed : Occurrence.Aimed ⟨within, .act a, s⟩ := by
    rintro _ ⟨⟩
    exact ha.aimed
  rcases e : a.perform limits s with ⟨f | r, t⟩ <;> rw [e] at hnext hanswered hfault
  · refine ⟨by simpa using hlawful, by simpa using haimed, hnext, ?_, by simp⟩
    rintro _ ⟨⟩
    exact hfault rfl
  · refine ⟨by simpa using hlawful, by simpa using haimed, hnext, by simp, ?_⟩
    rintro _ ⟨⟩
    exact hanswered rfl

theorem rounds {s₀ : Store} (count : Passage Unit) (test body : σ → Passage (Round σ β))
    (hcount : ∀ t : State, s₀.Next names t.store → Lawful names (fun _ _ => True) t (count t))
    (htest : ∀ x (t : State), s₀.Next names t.store → Lawful names (fun _ _ => True) t (test x t))
    (hbody : ∀ x (t : State), s₀.Next names t.store → Lawful names (fun _ _ => True) t (body x t)) (n : Nat) (x : σ)
    (hs : s₀.Next names s.store) : Lawful names (fun _ _ => True) s (Passage.rounds count test body n x s) := by
  induction n generalizing x s with
  | zero => exact stop hs.sound nofun nofun
  | succ n ih =>
      refine (htest x s hs).andThen fun r t ht _ => ?_
      cases r with
      | done b => exact ok ht.sound trivial
      | again x =>
          refine (hcount t (hs.trans ht)).andThen fun _ u hu _ => ?_
          refine (hbody x u ((hs.trans ht).trans hu)).andThen fun r v hv _ => ?_
          cases r with
          | done b => exact ok hv.sound trivial
          | again x => exact ih x (((hs.trans ht).trans hu).trans hv)

end Passage.Lawful

/-- A run of a computation that behaves is lawful, if the answers to its requests are. -/
theorem Proc.Behaves.observe {limits : Limits} {bound : Nat} {within : List Request}
    {answers : Request → Passage Value} {s₀ : Store}
    (hforges : L.forges → ∀ t, s₀.Later t → ∃ r rest, within = r :: rest ∧ r.isErrorConstruction t)
    (hanswers : ∀ r (t : State), t.store.Sound L.names → (∀ f ∈ r.invoker, t.store.Rooted f) →
      Passage.Lawful L.names (fun _ _ => True) t (answers r t))
    {p : Proc α} {Q : Store → α → Prop} {s : State} (hs : s₀.Next L.names s.store) (hp : p.Behaves L Q s.store) :
    Passage.Lawful L.names Q s (p.observe limits bound within answers s) := by
  induction p generalizing s with
  | ret a => exact .ok hs.sound hp
  | throw v => exact .stop hs.sound nofun nofun
  | fault e =>
      refine .stop hs.sound nofun ?_
      rintro _ ⟨⟩
      exact hp
  | look k ih => exact ih s.store hs hp
  | act a k ih =>
      have hact := Passage.Lawful.perform limits hs.sound hp.1 fun h => hforges h s.store hs.later
      exact hact.andThen fun r t ht hr => ih r (hs.trans ht) (hp.2 r t.store ht hr)
  | ask r k ih =>
      exact (hanswers r s hs.sound hp.1).caught.andThen fun v t ht _ => ih v (hs.trans ht) (hp.2 v t.store ht)
  | loop runner kind test body x k ihTest ihBody ih =>
      -- A round can start in any later store, and for all of these the computation is known to behave.
      have hcount (t : State) (ht : s.store.Next L.names t.store) :=
        Passage.Lawful.perform (a := .tick runner kind) limits ht.sound trivial
          fun h => hforges h t.store (hs.trans ht).later
      have hloop := Passage.Lawful.rounds (Passage.perform limits within (.tick runner kind))
        (fun x => (test x).observe limits bound within answers)
        (fun x => (body x).observe limits bound within answers)
        (fun t ht => (hcount t ht).mono fun _ _ _ => trivial)
        (fun x t ht => ihTest x (hs.trans ht) ((hp t.store ht).1 x))
        (fun x t ht => ihBody x (hs.trans ht) ((hp t.store ht).2.1 x)) bound x (.refl hs.sound)
      exact hloop.andThen fun b t ht _ => ih b (hs.trans ht) ((hp t.store ht).2.2 b)

end ScriptEngine
