import ScriptEngine.Proofs.Lengths

/-!
# Properties that are read and properties that are found

Member access reads a property along the objects from which an object inherits, after what comes with the body of
the object itself; the operator `in` and scopes with a subject ask first whether the property is there. A property
that is read as something other than `undefined` is there, with one exception: a pattern gives its source and its
flags without a binding, and does not count them as present.

## Main definitions

* `Body.patternKeys`: the keys of the source and the flags of a pattern.
* `Store.Untouched`: an object is as it was, and so is what it inherits.
* `State.Finds`: an object is found to have a property, by `in` and as a subject.

## Main results

* `Store.unfound_iff`: which properties are read but not there.
* `State.finds_of_readable`: what is read is found, these apart.
-/

namespace ScriptEngine

open Proc

variable {limits : Limits} {bound : Nat} {handler : Handler}

/-! ## What is read is there -/

namespace Body

/-- The keys of the source and the flags of a pattern. -/
def patternKeys : List Key := [Key.source, Key.global, Key.ignoreCase, Key.multiline]

theorem fixed?_ne_undefined (b : Body) (k : Key) : b.fixed? k ≠ some .undefined := by
  cases b with
  | string t =>
    rw [fixed?]
    split
    · simp [Value.ofNat]
    · simp [Option.bind_eq_some_iff]
  | regexp source flags =>
    rw [fixed?]
    repeat' split
    all_goals simp
  | _ => simp [fixed?]

theorem fixed?_regexp_isSome (source flags : Text) (k : Key) :
    ((regexp source flags).fixed? k).isSome ↔ k ∈ patternKeys := by
  simp only [fixed?, patternKeys, List.mem_cons, List.not_mem_nil, or_false]
  repeat' split
  all_goals simp_all

/-- What is fixed counts as present, except with patterns. -/
theorem fixedPresent_eq {b : Body} (hb : ∀ source flags, b ≠ .regexp source flags) (k : Key) :
    b.fixedPresent k = (b.fixed? k).isSome := by
  cases b with
  | regexp source flags => exact absurd rfl (hb source flags)
  | _ => rfl

end Body

namespace Store

variable {s t : Store} {o : ObjectId} {k : Key} {f : FrameId}

/-- A property can be read but is not there exactly if it belongs to a pattern, and nothing on the chain of the
pattern binds its key. -/
theorem unfound_iff :
    s.getProperty o k ≠ .undefined ∧ s.hasProperty o k = false ↔
      (∃ source flags, s.body o = .regexp source flags) ∧ k ∈ Body.patternKeys ∧ s.find? (s.propsOf o) k = none := by
  by_cases hb : ∃ source flags, s.body o = .regexp source flags
  · obtain ⟨source, flags, hb⟩ := hb
    have hfixed := Body.fixed?_regexp_isSome source flags k
    have hdefined := (s.body o).fixed?_ne_undefined k
    rw [hb] at hdefined
    simp only [getProperty, hasProperty, hb, Body.fixedPresent]
    cases hread : (Body.regexp source flags).fixed? k with
    | none =>
      simp only [hread, Option.isSome_none, Bool.false_eq_true, false_iff] at hfixed
      cases hfind : s.find? (s.propsOf o) k <;> simp [hfixed]
    | some v =>
      simp only [hread, Option.isSome_some, true_iff] at hfixed
      have hv : v ≠ .undefined := fun hv => hdefined (hread.trans (congrArg some hv))
      cases hfind : s.find? (s.propsOf o) k <;> simp [hfixed, hv]
  · simp only [not_exists] at hb
    have hpresent := Body.fixedPresent_eq hb k
    simp only [getProperty, hasProperty, hpresent, hb, exists_false, false_and, iff_false, not_and, Bool.not_eq_false]
    intro hread
    cases hfixed : (s.body o).fixed? k with
    | some v => simp
    | none =>
      rw [hfixed] at hread
      cases hfind : s.find? (s.propsOf o) k with
      | some v => simp
      | none => simp [hfind] at hread

/-! ## Untouched objects -/

/-- An object and the frames that its properties are looked up in are as they were. -/
structure Untouched (s : Store) (o : ObjectId) (t : Store) : Prop where
  object : t.object o = s.object o
  frame (g : FrameId) : g ∈ s.chain (s.propsOf o) → t.frame g = s.frame g

namespace Untouched

theorem body (h : s.Untouched o t) : t.body o = s.body o := congrArg Object.body h.object

theorem propsOf (h : s.Untouched o t) : t.propsOf o = s.propsOf o := congrArg Object.props h.object

theorem chain (h : s.Untouched o t) : t.chain (s.propsOf o) = s.chain (s.propsOf o) :=
  ancestors_congr fun g hg => by rw [h.frame g hg]

theorem find? (h : s.Untouched o t) (k : Key) : t.find? (t.propsOf o) k = s.find? (s.propsOf o) k := by
  rw [h.propsOf, Store.find?, Store.find?, h.chain]
  exact findSome?_congr fun g hg => by rw [h.frame g hg]

theorem getProperty (h : s.Untouched o t) (k : Key) : t.getProperty o k = s.getProperty o k := by
  simp only [Store.getProperty, h.body, h.find?]

theorem hasProperty (h : s.Untouched o t) (k : Key) : t.hasProperty o k = s.hasProperty o k := by
  simp only [Store.hasProperty, h.body, h.find?]

end Untouched

/-! ## Scopes with a subject -/

/-- The container that a scope on a chain gives for a key is the one of the chain if no nearer scope has one. -/
theorem owner?_of_chain {before after : List FrameId} {g : FrameId} {c : Container}
    (hchain : s.chain f = before ++ g :: after) (hbefore : ∀ f ∈ before, s.levelOwner? f k = none)
    (hg : s.levelOwner? g k = some c) : s.owner? f k = some c := by
  have hnone : before.findSome? (fun f => s.levelOwner? f k) = none := List.findSome?_eq_none_iff.2 hbefore
  simp [owner?, hchain, List.findSome?_append, hnone, hg]

theorem owner?_of_levelOwner? {c : Container} (h : s.levelOwner? f k = some c) : s.owner? f k = some c := by
  rw [owner?, chain, ancestors, List.findSome?_cons, h]

/-- What an object has, a scope with the object for its subject gives. -/
theorem levelOwner?_subject (hrole : (s.frame f).role = .subject o) (hhas : s.hasProperty o k = true) :
    s.levelOwner? f k = some (.object o) := by
  simp [levelOwner?, hrole, hhas]

/-- To open a scope touches no object. -/
theorem Untouched.addScope (h : s.Tidy) (o : ObjectId) (parent : FrameId) (role : Frame.Role) :
    s.Untouched o (s.addScope parent role).2 where
  object := rfl
  frame g hg := by
    have hlt := h.grounded _ (.inr ⟨o, rfl⟩) _ g hg
    rw [Store.addScope, (Extends.addFrame s _).frame g hlt]

/-- A new scope with a subject that is there. -/
theorem role_addScope (ho : o < s.objects.size) (parent : FrameId) :
    ((s.addScope parent (.subject o)).2.frame s.frames.size).role = .subject o := by
  rw [addScope, frame_addFrame]
  simp [scopeRole, ho]

end Store

/-! ## What is read is found -/

/-- An object is found to have a property. -/
structure State.Finds (s : State) (o : ObjectId) (k : Key) : Prop where
  has : s.store.hasProperty o k = true
  /-- The operator `in` says so, whatever the conversion of its left side to the key has done before. -/
  elementOf {limits : Limits} {bound : Nat} {handler : Handler} {v : Value} {u : State} :
    (toKey v).run limits bound handler u = (.ok k, s) →
    (binaryValue .elementOf v (.obj o)).run limits bound handler u = (.ok (.bool true), s)
  /-- As the subject of a scope the object holds the name, wherever inside this scope no nearer one does, and the
  value of the name is that of the property. -/
  ident {limits : Limits} {bound : Nat} {handler : Handler} {c : Context} {name : Text}
      {before after : List FrameId} {g : FrameId} :
    Key.ofText name = k → s.store.chain c.scope = before ++ g :: after → (s.store.frame g).role = .subject o →
    (∀ f ∈ before, s.store.levelOwner? f k = none) →
    s.store.owner? c.scope k = some (.object o) ∧
      (value (eval c (.ident name))).run limits bound handler s = (.ok (s.store.getProperty o k), s)
  /-- A `with` statement runs its body in such a scope. -/
  within {limits : Limits} {bound : Nat} {handler : Handler} {c : Context} {labels : List Text} {object : Expr}
      {body : Stmt} {name : Text} {u : State} :
    s.store.Tidy → o < s.store.objects.size → Key.ofText name = k →
    (value (eval c object) >>= toObject).run limits bound handler u = (.ok o, s) →
    ∃ f t, let inner : Context := { c with scope := f }
      (exec c labels (.within object body)).run limits bound handler u =
        (counted inner body (exec inner [] body)).run limits bound handler t ∧
      (t.store.frame f).role = .subject o ∧ t.store.owner? f k = some (.object o) ∧
      (value (eval inner (.ident name))).run limits bound handler t = (.ok (s.store.getProperty o k), t)

namespace State.Finds

variable {s : State} {o : ObjectId} {k : Key}

/-- The value of a name that a container holds. -/
theorem run_ident {c : Context} {name : Text} (howner : s.store.owner? c.scope (.ofText name) = some (.object o)) :
    (value (eval c (.ident name))).run limits bound handler s =
      (.ok (s.store.getProperty o (.ofText name)), s) := by
  have hplace : (eval c (.ident name)).run limits bound handler s =
      (.ok (.place ⟨.object o, .ofText name⟩), s) := by
    rw [eval, resolveName]
    refine run_then (run_then (run_read _ s) rfl) ?_
    rw [howner]
    rfl
  rw [value, run_then hplace]
  rfl

theorem of_hasProperty (hhas : s.store.hasProperty o k = true) : s.Finds o k where
  has := hhas
  elementOf hkey := by
    refine run_then hkey (run_then (run_read _ s) ?_)
    rw [hhas, run_pure]
  ident hname hchain hrole hbefore := by
    have howner := Store.owner?_of_chain hchain hbefore (Store.levelOwner?_subject hrole hhas)
    refine ⟨howner, ?_⟩
    subst hname
    exact run_ident howner
  within {limits bound handler c labels object body name u} htidy ho hname hobject := by
    let t : State := { s with store := (s.store.addScope c.scope (.subject o)).2 }
    have hopen : (perform (.openScope c.scope (.subject o))).run limits bound handler s =
        (.ok s.store.frames.size, t) := rfl
    have hrole : (t.store.frame s.store.frames.size).role = .subject o := Store.role_addScope ho c.scope
    have hsame : s.store.Untouched o t.store := .addScope htidy o c.scope (.subject o)
    have howner : t.store.owner? s.store.frames.size k = some (.object o) :=
      Store.owner?_of_levelOwner? (Store.levelOwner?_subject hrole ((hsame.hasProperty k).trans hhas))
    refine ⟨s.store.frames.size, t, ?_, hrole, howner, ?_⟩
    · rw [run_bind] at hobject
      obtain ⟨v, s', hvalue, hobject⟩ := Course.andThen_eq_ok hobject
      rw [exec]
      exact run_then hvalue (run_then hobject (run_then hopen rfl))
    · subst hname
      rw [run_ident (c := { c with scope := s.store.frames.size }) howner, hsame.getProperty]

end State.Finds

/-- A property that is read as something other than `undefined` is found, whatever the object is, unless it is the
source or a flag of a pattern and nothing on the chain of the pattern binds its key. -/
theorem State.finds_of_readable {s : State} {o : ObjectId} {k : Key} (hread : s.store.getProperty o k ≠ .undefined)
    (hpattern : ∀ source flags, s.store.body o = .regexp source flags → k ∈ Body.patternKeys →
      s.store.find? (s.store.propsOf o) k ≠ none) : s.Finds o k := by
  refine .of_hasProperty ?_
  by_contra hhas
  obtain ⟨⟨source, flags, hbody⟩, hk, hfind⟩ := Store.unfound_iff.1 ⟨hread, Bool.eq_false_iff.2 hhas⟩
  exact hpattern source flags hbody hk hfind

/-- A state with a string of one character. -/
def oneString : State :=
  { store := { frames := #[{ role := .core }, {}], objects := #[{ body := .string "a" }] } }

/-- The first character of a string is read, and so it is found. -/
theorem State.finds_of_readable_character :
    oneString.store.getProperty 0 (.index 0) = .str "a" ∧ oneString.Finds 0 (.index 0) := by
  have hread : oneString.store.getProperty 0 (.index 0) = .str "a" := rfl
  have hbody : oneString.store.body 0 = .string "a" := rfl
  refine ⟨hread, finds_of_readable (by simp [hread]) ?_⟩
  intro source flags hpattern
  simp [hbody] at hpattern

/-- Whether there is a result that is accepted. -/
def Outcome.gives {α : Type} (p : α → Bool) : Outcome α → Bool
  | .ok a => p a
  | _ => false

/-- The source of a pattern is read by `/a/.source`, but `'source' in /a/` does not find it, nor does
`with (/a/) source`. -/
theorem State.readable_not_found :
    let work (p : Program) : Proc Value := Engine.newDesk >>= fun d => runProgram d.scope d.runner p
    let result (p : Program) := ((Engine.new {} {} []).run (work p)).1
    let source : Expr := .literal (.str "source")
    let pattern : Expr := .regexp "a" ""
    (result [.expr (.member pattern source)]).gives (·.identical (.str "a")) ∧
    (result [.expr (.binary .elementOf source pattern)]).gives (·.identical (.bool false)) ∧
    (result [.within pattern (.expr (.ident "source"))]).gives (·.identical .undefined) := by
  decide +kernel

end ScriptEngine
