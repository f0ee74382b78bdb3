import Mathlib.Data.List.Nodup
import ScriptEngine.Proofs.Declarations
import ScriptEngine.Proofs.Membership
import ScriptEngine.Proofs.Names

/-!
# Loops over the keys of an object

A loop over the keys of an object takes down the keys at its start: the characters of a string, and then the
keys that the nearest frame which binds them lists. In each round it asks whether the object still has the key, and
if so assigns the name of the key and runs the body. As long as no key is taken away from the object, the loop does
one round for each of these names, in order.

Along the frames every key comes once, but nothing compares them with the characters of a string, and two keys can
have the same spelling: that of a number above the largest index is a name, and there may be an index of that
number as well. These are the only ways in which a name comes twice.

## Main definitions

* `Store.holder?`: the nearest frame that binds a key.
* `Store.shows`: the keys that enumeration is to show.
* `Store.Retains`: an object has still got the keys that a loop runs over.
* `KeyLoop`: the two forms of loops over keys, with `KeyLoop.visits` for their rounds.

## Main results

* `Store.Founded.mem_loopKeys`: the keys of a loop are those that enumeration is to show.
* `Store.nodup_names_iff`: when no name comes twice.
* `KeyLoop.exec_visits`: what a loop does.
-/

namespace ScriptEngine

open Proc

/-! ## The keys of a loop -/

theorem nodup_eraseDups {α : Type} [DecidableEq α] (as : List α) : as.eraseDups.Nodup := by
  cases as with
  | nil => simp
  | cons a rest =>
    rw [List.eraseDups_cons, List.nodup_cons, List.mem_eraseDups]
    exact ⟨by simp, nodup_eraseDups _⟩
termination_by as.length
decreasing_by
  have hle := List.length_filter_le (fun b => !b == a) rest
  simp only [List.length_cons]
  omega

namespace Key

/-- Only an index and a name can have the same spelling. -/
theorem text_injOn_iff {ks : List Key} :
    (∀ k ∈ ks, ∀ k' ∈ ks, k.text = k'.text → k = k') ↔ ∀ i, .index i ∈ ks → .name (Text.ofNat i) ∉ ks := by
  constructor
  · intro h i hi hname
    cases h _ hi _ hname rfl
  · intro h k hk k' hk' htext
    cases k with
    | index i =>
      cases k' with
      | index j => rw [Text.ofNat_injective htext]
      | name t =>
        rw [← show Text.ofNat i = t from htext] at hk'
        exact absurd hk' (h i hk)
    | name t =>
      cases k' with
      | index j =>
        rw [show t = Text.ofNat j from htext] at hk
        exact absurd hk (h j hk')
      | name t' => exact congrArg Key.name htext

/-- Keys that their spellings denote are spelled differently. -/
theorem name_not_mem_of_ofText {ks : List Key} (h : ∀ k ∈ ks, ofText k.text = k) (i : Nat) (hi : .index i ∈ ks) :
    .name (Text.ofNat i) ∉ ks := by
  intro hname
  have hindex : ofText (Text.ofNat i) = .index i := h _ hi
  rw [show ofText (Text.ofNat i) = .name (Text.ofNat i) from h _ hname] at hindex
  cases hindex

end Key

theorem Body.nodup_characterKeys (b : Body) : b.characterKeys.Nodup := by
  cases b with
  | string t => exact List.nodup_range.map fun i j h => Key.index.inj h
  | _ => exact .nil

theorem Body.fixedPresent_of_mem_characterKeys {b : Body} {k : Key} (h : k ∈ b.characterKeys) :
    b.fixedPresent k = true := by
  cases b with
  | string t => exact isSome_fixed?_of_mem h
  | _ => cases h

namespace Store

variable {s t : Store} {f : FrameId} {o : ObjectId} {k : Key}

/-- The nearest frame of a chain that binds a key. -/
def holder? (s : Store) (f : FrameId) (k : Key) : Option FrameId := (s.chain f).find? fun g => (s.frame g).holds k

/-- Whether enumeration is to show a key of an object: it belongs to a character of a string, or the nearest frame
that binds the key lists it. -/
def shows (s : Store) (o : ObjectId) (k : Key) : Bool :=
  (s.body o).characterKeys.contains k || (s.holder? (s.propsOf o) k).any fun g => (s.frame g).isListed k

/-- The keys of a chain that enumeration shows: those that the nearest frame lists which binds them. -/
theorem mem_listedKeys {gs : List FrameId} (hgs : ∀ g ∈ gs, s.levelKeys g = (s.frame g).keys) (seen : List Key) :
    k ∈ s.listedKeys seen gs ↔
      k ∉ seen ∧ (gs.find? fun g => (s.frame g).holds k).any (fun g => (s.frame g).isListed k) := by
  induction gs generalizing seen with
  | nil => simp [listedKeys]
  | cons g rest ih =>
    have hkeys : k ∈ (s.frame g).keys ↔ (s.frame g).holds k = true :=
      ⟨Frame.holds_of_mem_keys, Frame.mem_keys_of_holds⟩
    have hrest := ih fun g' hg' => hgs g' (List.mem_cons_of_mem g hg')
    simp only [listedKeys, List.mem_append, List.mem_filter, List.mem_eraseDups, hgs g List.mem_cons_self, hkeys, hrest,
      List.find?_cons]
    by_cases hseen : k ∈ seen <;> cases hholds : (s.frame g).holds k <;> simp [hseen]

theorem not_mem_of_mem_listedKeys {gs : List FrameId} {seen : List Key} (h : k ∈ s.listedKeys seen gs) : k ∉ seen := by
  induction gs generalizing seen with
  | nil => cases h
  | cons g rest ih =>
    rcases List.mem_append.1 h with h | h
    · simpa using (List.mem_filter.1 (List.mem_filter.1 h).1).2
    · exact fun hk => ih h (List.mem_append_right _ hk)

/-- Along a chain every key comes once. -/
theorem nodup_listedKeys (gs : List FrameId) (seen : List Key) : (s.listedKeys seen gs).Nodup := by
  induction gs generalizing seen with
  | nil => exact .nil
  | cons g rest ih =>
    refine List.Nodup.append (((nodup_eraseDups _).filter _).filter _) (ih _) ?_
    intro k hk hrest
    exact not_mem_of_mem_listedKeys hrest (List.mem_append_left seen (List.mem_filter.1 hk).1)

theorem Founded.mem_loopKeys (h : s.Founded) : k ∈ s.loopKeys o ↔ s.shows o k = true := by
  have hlevels : ∀ g ∈ s.chain (s.propsOf o), s.levelKeys g = (s.frame g).keys :=
    fun g hg => Founded.levelKeys_eq (h.role_ancestors (.inr ⟨o, rfl⟩) hg)
  simp [loopKeys, enumerableKeys, mem_listedKeys hlevels, shows, holder?]

/-- No name comes twice in a loop exactly if no character of a string is listed once more, and no index is spelled
like another key. -/
theorem nodup_names_iff :
    ((s.loopKeys o).map Key.text).Nodup ↔
      (∀ k ∈ (s.body o).characterKeys, k ∉ s.enumerableKeys (s.propsOf o)) ∧
      ∀ i, .index i ∈ s.loopKeys o → .name (Text.ofNat i) ∉ s.loopKeys o := by
  have hkeys : (s.loopKeys o).Nodup ↔ ∀ k ∈ (s.body o).characterKeys, k ∉ s.enumerableKeys (s.propsOf o) := by
    rw [loopKeys, List.nodup_append]
    have hchain : (s.enumerableKeys (s.propsOf o)).Nodup := nodup_listedKeys _ _
    simp only [(s.body o).nodup_characterKeys, hchain, true_and]
    exact ⟨fun h k hk hlisted => h k hk k hlisted rfl, fun h k hk k' hk' he => h k hk (he ▸ hk')⟩
  rw [← hkeys, ← Key.text_injOn_iff]
  constructor
  · intro h
    exact ⟨h.of_map, fun k hk k' hk' htext => List.inj_on_of_nodup_map h hk hk' htext⟩
  · rintro ⟨hnodup, hinj⟩
    exact (List.nodup_map_iff_inj_on hnodup).2 hinj

/-- An object has still got all the keys that a loop runs over. -/
def Retains (s : Store) (o : ObjectId) (t : Store) : Prop := ∀ k ∈ s.loopKeys o, t.hasProperty o k = true

instance (s : Store) (o : ObjectId) (t : Store) : Decidable (s.Retains o t) :=
  inferInstanceAs (Decidable (∀ k ∈ s.loopKeys o, t.hasProperty o k = true))

theorem Founded.hasProperty_of_mem_loopKeys (h : s.Founded) (hk : k ∈ s.loopKeys o) : s.hasProperty o k = true := by
  have hshows := h.mem_loopKeys.1 hk
  simp only [shows, Bool.or_eq_true, List.contains_iff_mem] at hshows
  rw [hasProperty, Bool.or_eq_true]
  refine hshows.imp Body.fixedPresent_of_mem_characterKeys ?_
  intro hheld
  cases hholder : s.holder? (s.propsOf o) k with
  | none => simp [hholder] at hheld
  | some g =>
    have hg := List.find?_some hholder
    exact List.findSome?_isSome_iff.2 ⟨g, List.mem_of_find?_eq_some hholder, hg⟩

/-- An object that is not touched retains its keys. -/
theorem Untouched.retains (h : s.Untouched o t) (hs : s.Founded) : s.Retains o t := by
  intro k hk
  rw [h.hasProperty]
  exact hs.hasProperty_of_mem_loopKeys hk

end Store

/-! ## Walks whose rounds are never left out -/

section Walks

variable {α β σ : Type} {scene : Scene} {P : Store → Prop}

/-- The store at the beginning of a passage is that of the first thing that happens, or of the end. -/
structure Passage.Starts (s : State) (h : List Occurrence) (t : State) : Prop where
  first : ∀ m ∈ h.head?, m.state.store = s.store
  idle : h = [] → t.store = s.store

theorem Passage.Starts.law (limits : Limits) : Law limits Starts where
  stop s := ⟨by simp, fun _ => rfl⟩
  trans {s t u h h'} hst htu := by
    cases h with
    | nil =>
      have hstore := hst.idle rfl
      exact ⟨fun m hm => (htu.first m hm).trans hstore, fun hh => (htu.idle hh).trans hstore⟩
    | cons m h => exact ⟨hst.first, nofun⟩
  act within a s := ⟨by simp, nofun⟩
  mark _ hm := ⟨by simpa using hm, nofun⟩

/-- What the store satisfies throughout a passage it satisfies at the beginning. -/
theorem Scene.of_throughout {p : Proc α} {s : State}
    (h : Throughout (fun _ t => P t.store) scene.within (scene.observe p s)) : P s.store := by
  have hstarts := scene.law (Passage.Starts.law scene.limits) p s
  cases hrecord : (scene.observe p s).1 with
  | nil =>
    rw [← hstarts.idle hrecord]
    exact h.final
  | cons m rest =>
    rw [← hstarts.first m (by simp [hrecord])]
    exact h.moments m (by simp [hrecord])

/-- What holds throughout two passages holds throughout the second. -/
theorem Throughout.of_andThen {J : List Request → State → Prop} {within : List Request} {h : List Occurrence} {a : α}
    {s : State} {f : α → Passage β} (hr : Throughout J within (Passage.andThen (h, .ok a, s) f)) :
    Throughout J within (f a s) :=
  ⟨fun m hm => hr.moments m (List.mem_append_right h hm), hr.final⟩

/-- A round that is left out unless the store passes a test. -/
def guarded (p : α → Store → Bool) (round : α → σ → Proc (Round σ β)) (a : α) (x : σ) : Proc (Round σ β) := do
  if !(← read (p a)) then return .again x else round a x

/-- Where the store passes all the tests throughout a walk, to make the tests changes nothing. -/
theorem Scene.observe_walk_guarded (p : α → Store → Bool) (round : α → σ → Proc (Round σ β)) (finish : σ → β)
    {as : List α} (has : ∀ s, P s → ∀ a ∈ as, p a s = true) {x : σ} {s : State}
    (h : Throughout (fun _ t => P t.store) scene.within (scene.observe (walk round finish as x) s)) :
    scene.observe (walk (guarded p round) finish as x) s = scene.observe (walk round finish as x) s := by
  induction as generalizing x s with
  | nil => rfl
  | cons a rest ih =>
    have hpass : p a s.store = true := has s.store (Scene.of_throughout h) a List.mem_cons_self
    have hround : scene.observe (guarded p round a x) s = scene.observe (round a x) s := by
      change scene.observe (if !p a s.store then _ else round a x) s = _
      simp [hpass]
    simp only [walk, scene.observe_bind, hround] at h ⊢
    generalize scene.observe (round a x) s = r at h ⊢
    obtain ⟨e, o, t⟩ := r
    cases o with
    | ok r =>
      have hrest := h.of_andThen
      cases r with
      | again y =>
        have hwalk := ih (fun s hs b hb => has s hs b (List.mem_cons_of_mem a hb)) hrest
        simp only [Passage.andThen_ok, hwalk]
      | done b => rfl
    | thrown v => rfl
    | fault e => rfl
    | unfinished => rfl

theorem walk_map {γ : Type} (g : γ → α) (round : α → σ → Proc (Round σ β)) (finish : σ → β) (as : List γ) (x : σ) :
    walk round finish (as.map g) x = walk (fun a => round (g a)) finish as x := by
  induction as generalizing x with
  | nil => rfl
  | cons a rest ih =>
    simp only [List.map_cons, walk, ih]

end Walks

/-! ## Loops -/

/-- The two forms of loops over the keys of an object: with declarations, the first of which names the variable
that is assigned to, or with the expression that is assigned to. -/
inductive KeyLoop where
  | declaring (decls : List (Text × Option Expr))
  | assigning (target : Expr)

namespace KeyLoop

/-- The statement of a loop. -/
def stmt (l : KeyLoop) (object : Expr) (body : Stmt) : Stmt :=
  match l with
  | declaring decls => .forInVar decls object body
  | assigning target => .forIn target object body

/-- The value whose keys a loop runs over; declared variables get their values before. -/
def subject (l : KeyLoop) (c : Context) (object : Expr) : Proc Value :=
  match l with
  | declaring decls => do
    execDecls c decls
    value (eval c object)
  | assigning _ => value (eval c object)

/-- The place that a loop assigns to. -/
def target (l : KeyLoop) (c : Context) : Proc Place :=
  match l with
  | declaring decls => resolveName c.scope (((decls.head?).map (·.1)).getD [])
  | assigning target => place (eval c target)

/-- A round of a loop: a name is assigned, and the body is run. -/
def visit (l : KeyLoop) (c : Context) (labels : List Text) (body : Stmt) (name : Text) (latest : Option Value) :
    Proc (Round (Option Value) Completion) := do
  let p ← l.target c
  let _ ← p.assign (.str name)
  return Completion.afterRound labels latest (← counted c body (exec c [] body))

/-- One round for each of the names, in order, up to one that ends the loop. -/
def visits (l : KeyLoop) (c : Context) (labels : List Text) (body : Stmt) (names : List Text) : Proc Completion :=
  walk (l.visit c labels body) Completion.normal names none

variable {l : KeyLoop} {c : Context} {labels : List Text} {object : Expr} {body : Stmt}

/-- A loop goes through the keys of its object, and leaves those out that have gone since. -/
theorem exec_stmt : exec c labels (l.stmt object body) = (do
    let v ← l.subject c object
    if v.isNullish then return .normal none
    else
      let o ← toObject v
      walk (guarded (fun k s => s.hasProperty o k) fun k => l.visit c labels body k.text) Completion.normal
        (← read (·.loopKeys o)) none) := by
  cases l with
  | declaring decls =>
    rw [subject, bind_assoc]
    rfl
  | assigning target => rfl

/-- What is neither `undefined` nor `null` is an object or becomes one. -/
theorem observe_toObject (scene : Scene) {v : Value} (hv : v.isNullish = false) (s : State) :
    ∃ h o t, scene.observe (toObject v) s = (h, .ok o, t) := by
  cases v with
  | undefined => cases hv
  | null => cases hv
  | obj o => exact ⟨[], o, s, rfl⟩
  | _ => exact ⟨_, _, _, rfl⟩

/-- A loop over the keys of a value that is not `undefined` or `null` takes down the keys of its object. As long as
the object retains them, as it does when it is not touched, the loop does one round for each of their names and
nothing else. The keys are those that enumeration is to show. No name comes twice, unless a character of a string
is listed once more further on, or an index is spelled like a name; the latter needs a key other than the one that
its spelling denotes. -/
theorem exec_visits (scene : Scene) {s s₁ : State} {h₁ : List Occurrence} {v : Value} (hs : s.store.Founded)
    (hsubject : scene.observe (l.subject c object) s = (h₁, .ok v, s₁)) (hv : v.isNullish = false) :
    ∃ h₂ o s₂, scene.observe (toObject v) s₁ = (h₂, .ok o, s₂) ∧
      let keys := s₂.store.loopKeys o
      let rounds := scene.observe (l.visits c labels body (keys.map Key.text)) s₂
      (Throughout (fun _ t => s₂.store.Retains o t.store) scene.within rounds →
        scene.observe (exec c labels (l.stmt object body)) s = (h₁ ++ (h₂ ++ rounds.1), rounds.2)) ∧
      (∀ t, s₂.store.Untouched o t → s₂.store.Retains o t) ∧
      (∀ k, k ∈ keys ↔ s₂.store.shows o k) ∧
      ((keys.map Key.text).Nodup ↔
        (∀ k ∈ (s₂.store.body o).characterKeys, k ∉ s₂.store.enumerableKeys (s₂.store.propsOf o)) ∧
        ∀ i, .index i ∈ keys → .name (Text.ofNat i) ∉ keys) ∧
      ((∀ k ∈ keys, Key.ofText k.text = k) → ∀ i, .index i ∈ keys → .name (Text.ofNat i) ∉ keys) := by
  obtain ⟨h₂, o, s₂, hobject⟩ := observe_toObject scene hv s₁
  have hfounded : s₂.store.Founded := by
    have hfirst := (scene.law (Passage.Ordered.law scene.limits) (l.subject c object) s).whole
    have hsecond := (scene.law (Passage.Ordered.law scene.limits) (toObject v) s₁).whole
    rw [hsubject] at hfirst
    rw [hobject] at hsecond
    exact (hs.changes hfirst).changes hsecond
  refine ⟨h₂, o, s₂, hobject, ?_, fun t ht => ht.retains hfounded, fun k => hfounded.mem_loopKeys,
    Store.nodup_names_iff, Key.name_not_mem_of_ofText⟩
  intro hretains
  rw [visits, walk_map] at hretains ⊢
  have hwalk := Scene.observe_walk_guarded (fun k s => s.hasProperty o k) _ _ (fun t ht k hk => ht k hk) hretains
  rw [exec_stmt, scene.observe_bind, hsubject, Passage.andThen_ok]
  simp only [hv, Bool.false_eq_true, if_false, scene.observe_bind, hobject, Passage.andThen_ok]
  exact congrArg (fun r => (h₁ ++ (h₂ ++ r.1), r.2)) hwalk

/-- The loop `for (var k in 'ab') ;` assigns `0` and `1`. -/
theorem exec_visits_characters :
    let scene : Scene := ⟨{}, 1, 1, 1, []⟩
    let s : State := { store := Setup.first {} }
    let l : KeyLoop := .declaring [("k", none)]
    let c : Context := ⟨0, Realm.core⟩
    ∃ h o t, scene.observe (toObject (.str "ab")) s = (h, .ok o, t) ∧
      (t.store.loopKeys o).map Key.text = ["0", "1"] ∧
      let rounds := scene.observe (l.visits c [] .empty ["0", "1"]) t
      scene.observe (exec c [] (l.stmt (.literal (.str "ab")) .empty)) s = (h ++ rounds.1, rounds.2) := by
  intro scene s l c
  have hsubject : scene.observe (l.subject c (.literal (.str "ab"))) s = ([], .ok (.str "ab"), s) := rfl
  obtain ⟨h, o, t, hobject, hrounds, -⟩ :=
    @exec_visits l c [] _ .empty scene _ _ _ _ (Setup.first_founded {}) hsubject rfl
  cases hobject
  refine ⟨_, _, _, rfl, by decide +kernel, hrounds ?_⟩
  exact ⟨by decide +kernel, by decide +kernel⟩

/-- The program `String.prototype['0'] = 'x'; var n = ''; for (var k in 'a') n = n + k + ';'; n`. -/
def inheritedCharacter : Program :=
  let character : Expr := .member (.member (.ident "String") (.literal (.str "prototype"))) (.literal (.str "0"))
  let longer : Expr := .binary .add (.binary .add (.ident "n") (.ident "k")) (.literal (.str ";"))
  [.expr (.assign none character (.literal (.str "x"))),
    .var [("n", some (.literal (.str "")))],
    .forInVar [("k", none)] (.literal (.str "a")) (.expr (.assign none (.ident "n") longer)),
    .expr (.ident "n")]

/-- A string and what it inherits from can both have a key `0`. A loop over the string assigns this name twice,
although its body does not touch them. -/
theorem visits_twice :
    let work : Proc Value := Engine.newDesk >>= fun d => runProgram d.scope d.runner inheritedCharacter
    ((Engine.new {} {} []).run work).1.gives (·.identical (.str "0;0;")) := by
  decide +kernel

end KeyLoop

end ScriptEngine
