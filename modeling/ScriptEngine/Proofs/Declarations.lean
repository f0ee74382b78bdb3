import ScriptEngine.Proofs.Holes
import ScriptEngine.Proofs.Links

/-!
# Where declared variables get their first values

A variable is declared in the scope of a call when the body of the function starts, and gets its first value where
it is bound at the time: the whole chain of scopes is searched. As long as the scope of the call holds the name,
that is the scope itself, or a scope inside it that binds the name too. But the name can be deleted, and then the
value goes to whatever scope outside holds it.

To say what the statements of a call do, wherever they stand in its body, a declaration is compared with one that
searches no further than the scope of the call. Both do the same, whatever else happens, unless the name is taken
away from that scope.

## Main definitions

* `Store.Inside`: scopes inside the scope of a call.
* `Action.takes`: the actions that can take names away from a frame.
* `Passage.Until`: passages that are the same until an action of some kind.
* `Proc.Agrees`: computations that do the same in the scopes of a call until names are taken away.
* `Hole.homing`: a statement with a declaration that searches no further than the scope of the call.

## Main results

* `Layer.agrees_run`: layers of statements around declarations.
* `callBody_homing`: the declarations in the body of a function.
* `callBody_strays`: a declaration after its name has been deleted.
-/

namespace ScriptEngine

open Proc (Round)

variable {α β σ ι : Type} {f g : FrameId} {ks : List Key}

/-! ## Scopes of a call -/

namespace Store

variable {s t : Store}

/-- A scope that is `f` or inside it; parents are older than what they are parents of. -/
inductive Inside (s : Store) (f : FrameId) : FrameId → Prop
  | here : Inside s f f
  | inner {g p : FrameId} (hp : (s.frame g).parent = some p) (hlt : p < g) (h : Inside s f p) : Inside s f g

theorem Inside.le (h : s.Inside f g) : f ≤ g := by
  induction h with
  | here => exact Nat.le_refl f
  | inner hp hlt h ih => exact Nat.le_trans ih (Nat.le_of_lt hlt)

theorem Inside.settled (h : s.Inside f g) (hst : s.Settled t) : t.Inside f g := by
  induction h with
  | here => exact .here
  | @inner g p hp hlt h ih =>
    have hg : g < s.frames.size := by
      refine Nat.lt_of_not_le fun hle => ?_
      simp [frame_of_size_le hle] at hp
    exact .inner ((hst.alike g hg).parent.trans hp) hlt ih

/-- The container nearer than `f` that binds a key, for a scope `g` inside `f`. -/
def nearer? (s : Store) (f g : FrameId) (k : Key) : Option Container :=
  ((s.chain g).takeWhile (· != f)).findSome? fun h => s.levelOwner? h k

/-- A key that `f` holds itself is found there, or nearer. -/
theorem Inside.findSome?_ancestors (h : s.Inside f g) {k : Key} (hf : s.levelOwner? f k = some (.scope f)) {n : Nat}
    (hn : g < n) :
    (s.ancestors n g).findSome? (fun h => s.levelOwner? h k) =
      some ((((s.ancestors n g).takeWhile (· != f)).findSome? fun h => s.levelOwner? h k).getD (.scope f)) := by
  induction h generalizing n with
  | here =>
    obtain ⟨m, rfl⟩ := Nat.exists_eq_add_one_of_ne_zero (Nat.ne_zero_of_lt hn)
    simp [ancestors, hf]
  | @inner g p hp hlt h ih =>
    obtain ⟨m, rfl⟩ := Nat.exists_eq_add_one_of_ne_zero (Nat.ne_zero_of_lt hn)
    have hne : g ≠ f := Nat.ne_of_gt (Nat.lt_of_le_of_lt h.le hlt)
    have hrest := ih (Nat.lt_of_lt_of_le hlt (Nat.le_of_lt_succ hn))
    cases hlevel : s.levelOwner? g k with
    | some c => simp [ancestors, hp, hne, hlevel]
    | none => simpa [ancestors, hp, hne, hlevel] using hrest

/-- The scope `f` of a call with names that it holds. -/
structure Home (f : FrameId) (ks : List Key) (s : Store) : Prop where
  there : f < s.frames.size
  role : ∃ function, (s.frame f).role = .activation function
  holds : ∀ k ∈ ks, (s.frame f).holds k

/-- The same, seen from a scope `g` inside `f`. -/
structure At (f : FrameId) (ks : List Key) (g : FrameId) (s : Store) : Prop where
  home : s.Home f ks
  inside : s.Inside f g

theorem Home.levelOwner? (h : s.Home f ks) {k : Key} (hk : k ∈ ks) : s.levelOwner? f k = some (.scope f) := by
  obtain ⟨function, hrole⟩ := h.role
  simp [Store.levelOwner?, hrole, h.holds k hk]

/-- What a scope of a call finds when it looks for a name of the call. -/
theorem At.owner? (h : s.At f ks g) {k : Key} (hk : k ∈ ks) :
    s.owner? g k = some ((s.nearer? f g k).getD (.scope f)) :=
  h.inside.findSome?_ancestors (h.home.levelOwner? hk) (Nat.lt_succ_self g)

theorem At.lt_size (h : s.At f ks g) : g < s.frames.size := by
  cases h.inside with
  | here => exact h.home.there
  | inner hp hlt hinside =>
    refine Nat.lt_of_not_le fun hle => ?_
    simp [frame_of_size_le hle] at hp

end Store

/-! ## Taking names away -/

/-- Whether an action can take names away from a frame: by dropping one of them or, if a name is the index of an
element, which no identifier is, by setting the length of what would be an array. -/
def Action.takes (f : FrameId) (ks : List Key) : Action → Bool
  | remove f' k => f' == f && ks.contains k
  | resize f' _ => f' == f && ks.any (·.index?.isSome)
  | refill f' _ => f' == f && ks.any (·.index?.isSome)
  | _ => false

namespace Frame

variable {fr : Frame} {k k' : Key}

theorem holds_write (k' : Key) (v : Value) (h : fr.holds k) : (fr.write k' v).holds k :=
  holds_of_reworked (fun _ => False) id (.write trivial trivial fr v) h

theorem holds_append (items : List Value) (h : fr.holds k) : (fr.append items).holds k :=
  holds_of_reworked (fun _ => False) id (.append (fun _ => trivial) trivial fr items) h

/-- What is no index stays when the length is set. -/
theorem holds_resize (hk : k.index? = none) (n : Nat) (h : fr.holds k) : (fr.resize n).holds k :=
  holds_of_reworked (·.index?.isSome) (by simp [hk]) (.resize trivial (fun _ => rfl) fr n) h

theorem holds_refill (hk : k.index? = none) (items : List Value) (h : fr.holds k) : (fr.refill items).holds k :=
  holds_of_reworked (·.index?.isSome) (by simp [hk]) (.refill (fun _ => trivial) trivial (fun _ => rfl) fr items) h

/-- The scope of a call is no array. -/
theorem write_of_activation {function : ObjectId} (hrole : fr.role = .activation function) (k : Key) (v : Value) :
    fr.write k v = fr.put k v := by
  unfold write
  rw [hrole]

end Frame

namespace Action

variable {limits : Limits} {s : State} {k : Key}

theorem holds_changeFrame {f' : FrameId} (blame : Frame → Key) {c : Frame → Frame} (hf : f < s.store.frames.size)
    (hk : (s.store.frame f).holds k) (hc : f' = f → (c (s.store.frame f)).holds k) :
    ((changeFrame s f' blame c).2.store.frame f).holds k := by
  simp only [changeFrame]
  split
  · exact hk
  · by_cases he : f' = f
    · subst he
      rw [Store.frame_modifyFrame_self _ _ _ hf]
      exact hc rfl
    · rw [Store.frame_modifyFrame_of_ne _ _ he]
      exact hk

theorem holds_grow (c : Store → Nat × Store) (hc : s.store.Extends (c s.store).2) (hf : f < s.store.frames.size)
    (hk : (s.store.frame f).holds k) : ((grow s c).2.store.frame f).holds k := by
  change ((c s.store).2.frame f).holds k
  rw [hc.frame f hf]
  exact hk

theorem holds_remove {f' : FrameId} {k' : Key} (hf : f < s.store.frames.size) (hk : (s.store.frame f).holds k)
    (hne : f' = f → k ≠ k') : ((enact limits s (.remove f' k')).2.store.frame f).holds k := by
  simp only [enact]
  split
  · exact hk
  · split
    · exact hk
    · by_cases he : f' = f
      · rw [he, Store.frame_modifyFrame_self _ _ _ hf]
        exact Frame.holds_erase (hne he) hk
      · rw [Store.frame_modifyFrame_of_ne _ _ he]
        exact hk

/-- What does not take a name away leaves it with the scope of a call. -/
theorem holds_perform (h : s.store.Home f ks) (hk : k ∈ ks) {a : Action} (ha : a.takes f ks = false) :
    ((a.perform limits s).2.store.frame f).holds k := by
  have hf := h.there
  have hheld := h.holds k hk
  obtain hroom | hroom := perform_eq limits s a
  · rw [hroom]
    exact hheld
  rw [hroom]
  cases a with
  | put f' k' v =>
    exact holds_changeFrame _ hf hheld fun _ => Frame.holds_write k' v hheld
  | remove f' k' =>
    refine holds_remove hf hheld ?_
    rintro rfl rfl
    simp [takes, hk] at ha
  | resize f' n =>
    refine holds_changeFrame _ hf hheld fun he => Frame.holds_resize ?_ n hheld
    have hindex : ∀ k ∈ ks, k.index? = none := by simpa [takes, he] using ha
    exact hindex k hk
  | refill f' items =>
    refine holds_changeFrame _ hf hheld fun he => Frame.holds_refill ?_ items hheld
    have hindex : ∀ k ∈ ks, k.index? = none := by simpa [takes, he] using ha
    exact hindex k hk
  | append f' items =>
    by_cases hi : items.isEmpty
    · simpa [enact, hi] using hheld
    · simpa [enact, hi] using
        holds_changeFrame (fun fr => .index fr.length) hf hheld fun _ => Frame.holds_append items hheld
  | openScope parent role => exact holds_grow _ (.addFrame _ _) hf hheld
  | openProgram => exact holds_grow _ (.addProgramScope _) hf hheld
  | newObject proto => exact holds_grow _ (.addWith _ _ _ _) hf hheld
  | newBoxed b => exact holds_grow _ (.addWith _ _ _ _) hf hheld
  | newArray proto items => exact holds_grow _ (.addWith _ _ _ _) hf hheld
  | newArguments items callee => exact holds_grow _ (.addWith _ _ _ _) hf hheld
  | newError kind message => exact holds_grow _ (.addWith _ _ _ _) hf hheld
  | newRegExp source flags => exact holds_grow _ (.addWith _ _ _ _) hf hheld
  | newClosure name params body scope runner selfBound => exact holds_grow _ (.addClosure _ _ _ _ _ _ _) hf hheld
  | newBound target this args => exact holds_grow _ (.addWith _ _ _ _) hf hheld
  | tick runner kind =>
    simp only [enact, count, apply_ite Prod.snd, ite_self]
    split <;> exact hheld
  | start update =>
    simp only [enact]
    split <;> exact hheld
  | _ => exact hheld

end Action

theorem Store.At.perform {limits : Limits} {s : State} (h : s.store.At f ks g) {a : Action}
    (ha : a.takes f ks = false) : (a.perform limits s).2.store.At f ks g := by
  have hst := Store.Settled.of_changes (a.changes limits s)
  obtain ⟨function, hrole⟩ := h.home.role
  refine ⟨⟨Nat.lt_of_lt_of_le h.home.there hst.frames, ⟨function, ?_⟩, ?_⟩, h.inside.settled hst⟩
  · rw [(hst.alike f h.home.there).role, hrole]
  · intro k hk
    exact Action.holds_perform h.home hk ha

namespace Store.At

/-- Fewer names. -/
theorem mono {s : Store} (h : s.At f ks g) {ks' : List Key} (hks : ∀ k ∈ ks', k ∈ ks) : s.At f ks' g :=
  ⟨⟨h.home.there, h.home.role, fun k hk => h.home.holds k (hks k hk)⟩, h.inside⟩

/-- One more name. -/
theorem hold {s : Store} (h : s.At f ks g) {k : Key} (hk : (s.frame f).holds k) : s.At f (ks ++ [k]) g := by
  refine ⟨⟨h.home.there, h.home.role, ?_⟩, h.inside⟩
  intro k' hk'
  rcases List.mem_append.1 hk' with hk' | hk'
  · exact h.home.holds k' hk'
  · rw [List.mem_singleton.1 hk']
    exact hk

/-- A name that is put into the scope of a call is held there. -/
theorem put {limits : Limits} {s t : State} (h : s.store.At f ks g) {k : Key} {v : Value} {u : Unit}
    (hrun : (Action.put f k v).perform limits s = (.ok u, t)) : t.store.At f (ks ++ [k]) g := by
  have hkept : ((Action.put f k v).perform limits s).2.store.At f ks g := h.perform rfl
  rw [hrun] at hkept
  refine hkept.hold ?_
  obtain ⟨function, hrole⟩ := h.home.role
  obtain hroom | hroom := Action.perform_eq limits s (.put f k v)
  · cases hroom.symm.trans hrun
  · have hchange : Action.changeFrame s f (fun _ => k) (·.write k v) = (.ok u, t) := hroom.symm.trans hrun
    rw [Action.changeFrame] at hchange
    split at hchange
    · cases hchange
    · obtain rfl := (Prod.mk.inj hchange).2
      rw [frame_modifyFrame_self _ _ _ h.home.there, Frame.write_of_activation hrole]
      exact Frame.holds_put.2 (.inl rfl)

end Store.At

/-! ## The same until a name is taken away -/

/-- Whether an action of a given kind happens. -/
def Occurrence.does (bad : Action → Bool) (m : Occurrence) : Bool :=
  match m.event with
  | .act a => bad a
  | _ => false

namespace Passage

/-- Passages that are the same up to the end, or else up to an action of a given kind. -/
def Until (bad : Action → Bool) (r r' : List Occurrence × Outcome α × State) : Prop :=
  r = r' ∨ ∃ h rest rest', r.1 = h ++ rest ∧ r'.1 = h ++ rest' ∧ ∃ m ∈ h, m.does bad

namespace Until

variable {bad : Action → Bool} {r r' : List Occurrence × Outcome α × State}

theorem refl (r : List Occurrence × Outcome α × State) : Until bad r r := .inl rfl

theorem caught (h : Until bad r r') : Until bad (Passage.caught r) (Passage.caught r') := by
  rcases h with rfl | h
  · exact refl _
  · exact .inr h

theorem fst_andThen (r : List Occurrence × Outcome α × State) (k : α → Passage β) :
    ∃ rest, (andThen r k).1 = r.1 ++ rest := by
  obtain ⟨h, o, s⟩ := r
  cases o with
  | ok a => exact ⟨_, rfl⟩
  | thrown v => exact ⟨[], (List.append_nil h).symm⟩
  | fault e => exact ⟨[], (List.append_nil h).symm⟩
  | unfinished => exact ⟨[], (List.append_nil h).symm⟩

/-- What comes after has to be the same only if nothing has happened before. -/
theorem andThen {k k' : α → Passage β} (h : Until bad r r')
    (hk : ∀ a, r.2.1 = .ok a → (∀ m ∈ r.1, m.does bad = false) → Until bad (k a r.2.2) (k' a r.2.2)) :
    Until bad (Passage.andThen r k) (Passage.andThen r' k') := by
  rcases h with rfl | ⟨h, rest, rest', hr, hr', hbad⟩
  · obtain ⟨h, o, s⟩ := r
    cases o with
    | ok a =>
      by_cases hclean : ∀ m ∈ h, m.does bad = false
      · rcases hk a rfl hclean with he | ⟨h', rest, rest', hr, hr', m, hm, hbad⟩
        · exact .inl (by simp only [andThen_ok, he])
        · refine .inr ⟨h ++ h', rest, rest', ?_, ?_, m, List.mem_append_right h hm, hbad⟩
          · simp [hr]
          · simp [hr']
      · -- The action has happened already, so the records go together up to here.
        exact .inr ⟨h, _, _, rfl, rfl, by simpa using hclean⟩
    | thrown v => exact refl _
    | fault e => exact refl _
    | unfinished => exact refl _
  · obtain ⟨more, hmore⟩ := fst_andThen r k
    obtain ⟨more', hmore'⟩ := fst_andThen r' k'
    refine .inr ⟨h, rest ++ more, rest' ++ more', ?_, ?_, hbad⟩
    · rw [hmore, hr, List.append_assoc]
    · rw [hmore', hr', List.append_assoc]

end Until

/-- From a scope of a call that holds names, what does not take them away leads to the like. -/
def Keeps (f : FrameId) (ks : List Key) (g : FrameId) (s : State) (h : List Occurrence) (t : State) : Prop :=
  s.store.At f ks g → (∀ m ∈ h, m.does (Action.takes f ks) = false) → t.store.At f ks g

theorem law_keeps (limits : Limits) (f : FrameId) (ks : List Key) (g : FrameId) : Law limits (Keeps f ks g) where
  stop _ hs _ := hs
  trans hst htu hs hclean :=
    htu (hst hs fun m hm => hclean m (List.mem_append_left _ hm)) fun m hm => hclean m (List.mem_append_right _ hm)
  act _ _ _ hs hclean := hs.perform (hclean _ (List.mem_singleton_self _))
  mark _ hm hs _ := hm ▸ hs

end Passage

open Passage (Until)

/-! ## Computations inside a call -/

/-- The circumstances of a computation in a run, such as those of the body of a call in `observeAnswer`. -/
structure Scene where
  /-- The limits of the run. -/
  limits : Limits
  /-- How often loops go round at most. -/
  bound : Nat
  /-- How deep further requests are nested at most. -/
  nested : Nat
  /-- How many further constructions there is room for. -/
  room : Nat
  /-- The requests that are being answered, the innermost first. -/
  within : List Request

/-- Runs a computation whose requests are answered, with its record. -/
def Scene.observe (scene : Scene) (p : Proc α) : Passage α :=
  p.observe scene.limits scene.bound scene.within
    (observeAnswer scene.limits scene.bound scene.nested scene.room scene.within)

namespace Scene

variable (scene : Scene)

theorem observe_bind (p : Proc α) (k : α → Proc β) (s : State) :
    scene.observe (p >>= k) s = Passage.andThen (scene.observe p s) fun a => scene.observe (k a) :=
  Proc.observe_bind p k s

theorem law {R : State → List Occurrence → State → Prop} (law : Passage.Law scene.limits R) (p : Proc α) (s : State) :
    R s (scene.observe p s).1 (scene.observe p s).2.2 :=
  law.observe (law.observeAnswer scene.nested scene.room scene.within) p s

theorem observe_perform (a : Action) (s : State) :
    scene.observe (Proc.perform a) s = Passage.perform scene.limits scene.within a s := by
  change Passage.andThen (Passage.perform scene.limits scene.within a s) (fun r s => ([], .ok r, s)) = _
  simp only [Passage.perform, Course.perform]
  split <;> simp

theorem keeps (p : Proc α) (f : FrameId) (ks : List Key) (g : FrameId) (s : State) :
    Passage.Keeps f ks g s (scene.observe p s).1 (scene.observe p s).2.2 :=
  scene.law (Passage.law_keeps scene.limits f ks g) p s

end Scene

/-- Computations that do the same in a scope of a call that holds names, until one of the names is taken away. -/
def Proc.Agrees (f : FrameId) (ks : List Key) (g : FrameId) (p q : Proc α) : Prop :=
  ∀ (scene : Scene) (s : State), s.store.At f ks g → Until (Action.takes f ks) (scene.observe p s) (scene.observe q s)

namespace Proc.Agrees

variable {p q : Proc α}

theorem refl (p : Proc α) : Agrees f ks g p p := fun _ _ _ => .refl _

theorem bind (h : Agrees f ks g p q) {k k' : α → Proc β} (hk : ∀ a, Agrees f ks g (k a) (k' a)) :
    Agrees f ks g (p >>= k) (q >>= k') := by
  intro scene s hs
  rw [scene.observe_bind, scene.observe_bind]
  refine (h scene s hs).andThen fun a _ hclean => ?_
  exact hk a scene _ (scene.keeps p f ks g s hs hclean)

theorem after (p : Proc α) {k k' : α → Proc β} (hk : ∀ a, Agrees f ks g (k a) (k' a)) :
    Agrees f ks g (p >>= k) (p >>= k') := (refl p).bind hk

theorem attempt (h : Agrees f ks g p q) : Agrees f ks g p.attempt q.attempt := by
  intro scene s hs
  simp only [Scene.observe, Proc.observe_attempt]
  exact (h scene s hs).caught

/-- A scope that is opened in a scope of a call is one itself. -/
theorem opened {role : Frame.Role} {k k' : FrameId → Proc β} (hk : ∀ g', Agrees f ks g' (k g') (k' g')) :
    Agrees f ks g (perform (.openScope g role) >>= k) (perform (.openScope g role) >>= k') := by
  intro scene s hs
  have hobserve (k : FrameId → Proc β) : scene.observe (perform (.openScope g role) >>= k) s =
      Passage.andThen ([⟨scene.within, .act (.openScope g role), s⟩], .ok s.store.frames.size,
        { s with store := (s.store.addScope g role).2 }) fun g' => scene.observe (k g') := rfl
  have hafter : ((Action.openScope g role).perform scene.limits s).2.store.At f ks g := hs.perform rfl
  have hinner : (s.store.addScope g role).2.Inside f s.store.frames.size := by
    refine .inner ?_ hs.lt_size hafter.inside
    rw [Store.addScope, Store.frame_addFrame_eq, if_pos rfl]
    simp [hs.lt_size]
  rw [hobserve, hobserve]
  refine (Until.refl _).andThen fun a ha _ => ?_
  cases ha
  exact hk _ scene _ ⟨hafter.home, hinner⟩

/-- Rounds with bodies that do the same. -/
theorem repeated {runner : RunnerId} {kind : NodeKind} {test body body' : σ → Proc (Round σ β)}
    (h : ∀ x, Agrees f ks g (body x) (body' x)) (x : σ) :
    Agrees f ks g (Proc.repeated runner kind test body x) (Proc.repeated runner kind test body' x) := by
  intro scene s hs
  let count := Passage.perform scene.limits scene.within (.tick runner kind)
  -- Only bodies differ; what holds of the scope goes from each part of a round to the next.
  have hrounds (n : Nat) : Until (Action.takes f ks)
      (Passage.rounds count (fun x => scene.observe (test x)) (fun x => scene.observe (body x)) n x s)
      (Passage.rounds count (fun x => scene.observe (test x)) (fun x => scene.observe (body' x)) n x s) := by
    induction n generalizing x s with
    | zero => exact .refl _
    | succ n ih =>
      refine (Until.refl _).andThen fun r _ hclean => ?_
      have hs := scene.keeps (test x) f ks g s hs hclean
      cases r with
      | done b => exact .refl _
      | again x =>
        refine (Until.refl _).andThen fun _ _ hclean => ?_
        have hs := (Passage.law_keeps scene.limits f ks g).perform scene.within (.tick runner kind) _ hs hclean
        refine (h x scene _ hs).andThen fun r _ hclean => ?_
        have hs := scene.keeps (body x) f ks g _ hs hclean
        cases r with
        | done b => exact .refl _
        | again x => exact ih x _ hs
  exact (hrounds scene.bound).andThen (k := fun b => scene.observe (.ret b)) fun b _ _ => .refl _

/-- What is built around computations keeps to it. -/
theorem congruence (f : FrameId) (ks : List Key) : Congruence fun g {_} _ p q => Agrees f ks g p q where
  refl _ _ p := .refl p
  after p _ _ hk := .after p hk
  bind h _ hk := h.bind hk
  attempt h _ := h.attempt.bind fun _ => .refl _
  opened hk := .opened hk
  repeated h x := .repeated h x

end Proc.Agrees

/-! ## Holes in the body of a function -/

/-- What can stand in a hole in the body of a function and does the same there. -/
structure Hole.Agree (f : FrameId) (ks : List Key) (h h' : Hole) : Prop where
  kind : h'.kind = h.kind
  names : h'.names = h.names
  run (c : Context) (labels : List Text) : Proc.Agrees f ks c.scope (h.run c labels) (h'.run c labels)

/-- Layers run alike around what does the same. -/
theorem Layer.agrees_run (l : Layer) {h h' : Hole} (hh : h.Agree f ks h') (c : Context) (labels : List Text) :
    Proc.Agrees f ks c.scope (l.run h c labels) (l.run h' c labels) :=
  (Proc.Agrees.congruence f ks).layer hh.kind hh.run l c labels

namespace Hole.Agree

variable {h h' : Hole}

theorem wrap (hh : h.Agree f ks h') (l : Layer) : (l.wrap h).Agree f ks (l.wrap h') where
  kind := l.kind_fill _ _
  names := l.varNames_fill (by rw [Hole.standIn, hh.names, Hole.standIn])
  run := l.agrees_run hh

theorem within (hh : h.Agree f ks h') (layers : List Layer) : (h.within layers).Agree f ks (h'.within layers) := by
  induction layers with
  | nil => exact hh
  | cons l layers ih => exact ih.wrap l

end Hole.Agree

/-! ## Declarations that stay at home -/

/-- Gives a declared variable its first value in a call with the scope `f`: in `f`, if no scope nearer than that
binds the name. -/
def initAtHome (f scope : FrameId) (name : Text) (v : Value) : Proc Unit := do
  match ← Proc.read (·.nearer? f scope (.ofText name)) with
  | none => Proc.perform (.put f (.ofText name) v)
  | some c => Proc.putIn c (.ofText name) v

/-- Gives declared variables their first values; the name `x` stays at home. -/
def declsAtHome (f : FrameId) (x : Text) (c : Context) : List (Text × Option Expr) → Proc Unit
  | [] => return ()
  | (_, none) :: rest => declsAtHome f x c rest
  | (name, some e) :: rest => do
    let v ← value (eval c e)
    if name = x then initAtHome f c.scope name v else initVariable c.scope name v
    declsAtHome f x c rest

/-- The statements that give declared variables their first values, without the declarations. -/
inductive Declaring where
  | var
  | forVar (test update : Option Expr) (body : Stmt)
  | forInVar (object : Expr) (body : Stmt)

/-- The statement with declarations. -/
def Declaring.stmt (decls : List (Text × Option Expr)) : Declaring → Stmt
  | var => .var decls
  | forVar test update body => .forVar decls test update body
  | forInVar object body => .forInVar decls object body

/-- Declarations without first values. -/
def bare (decls : List (Text × Option Expr)) : List (Text × Option Expr) := decls.map fun d => (d.1, none)

/-- A statement with declarations of which `x` stays at home. -/
def Hole.homing (f : FrameId) (x : Text) (decls : List (Text × Option Expr)) (d : Declaring) : Hole where
  kind := (d.stmt decls).kind
  names := (d.stmt decls).varNames
  run c labels := do
    declsAtHome f x c decls
    exec c labels (d.stmt (bare decls))

section Homing

variable {x : Text} {decls : List (Text × Option Expr)} {d : Declaring}

theorem observe_initAtHome (scene : Scene) (f scope : FrameId) (x : Text) (v : Value) (s : State) :
    scene.observe (initAtHome f scope x v) s =
      scene.observe (Proc.putIn ((s.store.nearer? f scope (.ofText x)).getD (.scope f)) (.ofText x) v) s := by
  change scene.observe (match s.store.nearer? f scope (.ofText x) with
    | none => Proc.perform (.put f (.ofText x) v)
    | some c => Proc.putIn c (.ofText x) v) s = _
  cases s.store.nearer? f scope (.ofText x) <;> rfl

theorem agrees_initAtHome (scope : FrameId) (v : Value) :
    Proc.Agrees f [.ofText x] scope (initVariable scope x v) (initAtHome f scope x v) := by
  intro scene s hs
  refine .inl ?_
  change scene.observe (Proc.putIn ((s.store.owner? scope (.ofText x)).getD _) _ v) s = _
  rw [hs.owner? (List.mem_singleton_self _), Option.getD_some, observe_initAtHome]

theorem agrees_declsAtHome (x : Text) (c : Context) (decls : List (Text × Option Expr)) :
    Proc.Agrees f [.ofText x] c.scope (execDecls c decls) (declsAtHome f x c decls) := by
  induction decls with
  | nil => exact .refl _
  | cons decl rest ih =>
    obtain ⟨name, e | e⟩ := decl
    · exact ih
    · refine .after _ fun v => ?_
      by_cases hname : name = x
      · subst hname
        simpa using (agrees_initAtHome c.scope v).bind fun _ => ih
      · simpa [hname] using .after _ fun _ => ih

/-- A statement gives its variables their first values, and then goes on without. -/
theorem exec_declaring (c : Context) (labels : List Text) : exec c labels (d.stmt decls) = (do
    execDecls c decls
    exec c labels (d.stmt (bare decls))) := by
  have hbare : execDecls c (bare decls) = pure () := by
    induction decls with
    | nil => rfl
    | cons decl rest ih => exact ih
  have hhead : (bare decls).head?.map (·.1) = decls.head?.map (·.1) := by cases decls <;> rfl
  cases d <;> simp only [Declaring.stmt, exec, hbare, hhead, pure_bind]

theorem Hole.agree_homing : (Hole.of (d.stmt decls)).Agree f [.ofText x] (.homing f x decls d) where
  kind := rfl
  names := rfl
  run c labels := by
    change Proc.Agrees f _ c.scope (exec c labels (d.stmt decls)) _
    rw [exec_declaring]
    exact (agrees_declsAtHome x c decls).bind fun _ => .refl _

theorem mem_varNames_stmt (hx : x ∈ decls.map (·.1)) : x ∈ (d.stmt decls).varNames := by
  cases d <;> simp_all [Declaring.stmt, Stmt.varNames]

/-- What is declared in a hole is declared by the layer around it. -/
theorem Layer.mem_varNames_fill (l : Layer) {st : Stmt} (hx : x ∈ st.varNames) : x ∈ (l.fill st).varNames := by
  cases l with
  | thenBranch test alternate => cases alternate <;> simp [fill, Stmt.varNames, hx]
  | tryBody handler finalizer => cases handler <;> cases finalizer <;> simp [fill, Stmt.varNames, hx]
  | catchBody body name finalizer => cases finalizer <;> simp [fill, Stmt.varNames, hx]
  | finallyBody body handler => cases handler <;> simp [fill, Stmt.varNames, hx]
  | _ =>
    simp [fill, Stmt.varNames, varNamesOf_append, varNamesOf, clauseVarNames_append, clauseVarNames_ofTest, hx]

theorem mem_varNames_layers (layers : List Layer) {st : Stmt} (hx : x ∈ st.varNames) :
    x ∈ (layers.foldr Layer.fill st).varNames := by
  induction layers with
  | nil => exact hx
  | cons l layers ih => exact l.mem_varNames_fill ih

end Homing

/-! ## Calls -/

namespace Scene

variable {scene : Scene} {s : State} {Q : α → Store → Prop}

/-- What holds of a result and of the store when there is one. -/
def Gives (scene : Scene) (p : Proc α) (s : State) (Q : α → Store → Prop) : Prop :=
  ∀ h a t, scene.observe p s = (h, .ok a, t) → Q a t.store

namespace Gives

theorem pure {a : α} (h : Q a s.store) : scene.Gives (pure a) s Q := by
  intro _ _ _ hrun
  cases hrun
  exact h

theorem bind {p : Proc α} {k : α → Proc β} {R : α → Store → Prop} {Q : β → Store → Prop} (hp : scene.Gives p s R)
    (hk : ∀ a t, R a t.store → scene.Gives (k a) t Q) : scene.Gives (p >>= k) s Q := by
  intro h b u hrun
  rw [scene.observe_bind] at hrun
  rcases hr : scene.observe p s with ⟨h', a | v | e | -, t⟩ <;> rw [hr] at hrun
  · obtain ⟨-, hrest⟩ := Prod.mk.inj hrun
    exact hk a t (hp h' a t hr) _ b u (Prod.ext rfl hrest)
  all_goals cases hrun

/-- Whatever is done first, it leaves the scopes that are there what they are. -/
theorem next {p : Proc α} {k : α → Proc β} {Q : β → Store → Prop}
    (hk : ∀ a t, s.store.Settled t.store → scene.Gives (k a) t Q) : scene.Gives (p >>= k) s Q := by
  refine bind (R := fun _ t => s.store.Settled t) ?_ hk
  intro h a t hrun
  have hordered := scene.law (Passage.Ordered.law scene.limits) p s
  rw [hrun] at hordered
  exact .of_changes hordered.whole

/-- A new scope is numbered next. -/
theorem opened {parent : FrameId} {role : Frame.Role} {k : FrameId → Proc β} {Q : β → Store → Prop}
    (hk : ∀ t : State, t.store = (s.store.addScope parent role).2 → scene.Gives (k s.store.frames.size) t Q) :
    scene.Gives (Proc.perform (.openScope parent role) >>= k) s Q := by
  intro h b u hrun
  obtain ⟨-, hrest⟩ := Prod.mk.inj hrun
  exact hk { s with store := (s.store.addScope parent role).2 } rfl _ b u (Prod.ext rfl hrest)

end Gives

/-- The scope of a call is a new one. -/
theorem gives_openActivation (scene : Scene) (function : ObjectId) (name : Text) (params : List Text) (scope : FrameId)
    (selfBound : Bool) (invoker : Option FrameId) (this : Value) (args : List Value) (s : State) :
    scene.Gives (openActivation function name params scope selfBound invoker this args) s fun f t =>
      s.store.frames.size ≤ f ∧ (t.frame f).role = .activation function ∧ t.At f [] f := by
  unfold openActivation
  extract_lets rest
  have hrest (this : Value) (t : State) (ht : s.store.Settled t.store) : scene.Gives (rest this) t fun f t =>
      s.store.frames.size ≤ f ∧ (t.frame f).role = .activation function ∧ t.At f [] f := by
    refine .next fun arguments t' ht' => .next fun caller u hu => .opened fun v hv => ?_
    have hopen := (ht.trans (ht'.trans hu)).frames
    have hthere : u.store.frames.size < v.store.frames.size := by simp [hv, Store.addScope, Store.addFrame]
    have hrole : (v.store.frame u.store.frames.size).role = .activation function := by
      rw [hv, Store.addScope, Store.frame_addFrame_eq, if_pos rfl]
      rfl
    -- The scope is there, and nothing that follows gives it another role.
    refine .next fun _ w₁ h₁ => .next fun _ w₂ h₂ => .next fun _ w₃ h₃ => ?_
    extract_lets bindArguments
    have hbind (w₄ : State) (h₄ : w₃.store.Settled w₄.store) (_ : Unit) : scene.Gives (bindArguments ()) w₄ fun f t =>
        s.store.frames.size ≤ f ∧ (t.frame f).role = .activation function ∧ t.At f [] f := by
      refine .next fun _ w₅ h₅ => .pure ?_
      have hlater := h₁.trans (h₂.trans (h₃.trans (h₄.trans h₅)))
      have hkept := (hlater.alike _ hthere).role.trans hrole
      exact ⟨hopen, hkept, ⟨Nat.lt_of_lt_of_le hthere hlater.frames, ⟨function, hkept⟩, by simp⟩, .here⟩
    split
    · exact .next fun _ w h => hbind w h ()
    · exact hbind w₃ (.refl _) ()
  split
  · exact .next fun this t ht => hrest this t ht
  · exact .next fun this t ht => hrest this t ht

/-- Declared names are held by the scope of the call. -/
theorem gives_declareVariables (scene : Scene) (names : List Text) {s : State} (hs : s.store.At f ks f) :
    scene.Gives (declareVariables f names) s fun _ t => t.At f (ks ++ names.map .ofText) f := by
  induction names generalizing ks s with
  | nil => exact .pure (by simpa using hs)
  | cons name rest ih =>
    have hrest (t : State) (ht : t.store.At f (ks ++ [.ofText name]) f) :
        scene.Gives (declareVariables f rest) t fun _ t => t.At f (ks ++ (name :: rest).map .ofText) f := by
      simpa using ih ht
    have hput : scene.Gives (Proc.perform (.put f (.ofText name) .undefined)) s fun _ t =>
        t.At f (ks ++ [.ofText name]) f := by
      intro h u t hrun
      rw [scene.observe_perform] at hrun
      simp only [Passage.perform, Course.perform] at hrun
      split at hrun
      · cases hrun
        exact hs.put ‹_›
      · cases hrun
    change scene.Gives (if !(s.store.frame f).contains (.ofText name) then _ else _) s _
    split
    · exact hput.bind fun _ => hrest
    · exact hrest s (hs.hold (by simp_all [Frame.contains]))

end Scene

/-- Statements with a hole that run alike, as bodies of functions. -/
theorem Hole.Agree.observe_body {h h' : Hole} {k : Key} (hh : h.Agree f [k] h') {before after : List Stmt}
    (hk : k ∈ (varNamesOf before ++ h.names ++ varNamesOf after).map Key.ofText) (runner : RunnerId) (name : Text)
    (scene : Scene) {s : State} (hs : s.store.At f [] f) :
    Until (Action.takes f [k]) (scene.observe (h.body before after f runner name) s)
      (scene.observe (h'.body before after f runner name) s) := by
  have hlist : Until (Action.takes f [k]) (scene.observe (h.wholeList before after ⟨runner, f⟩ f) s)
      (scene.observe (h'.wholeList before after ⟨runner, f⟩ f) s) := by
    rw [Hole.wholeList, Hole.wholeList, hh.names, scene.observe_bind, scene.observe_bind]
    refine (Until.refl _).andThen fun u hu _ => ?_
    -- The names are held from here on.
    have hheld := scene.gives_declareVariables _ hs _ u _ (Passage.ends hu)
    have hin := (Proc.Agrees.congruence f [k]).inList hh.kind hh.run before after ⟨runner, f⟩ none
    have hrest : Proc.Agrees f [k] f _ _ := .after (declareFunctions ⟨runner, f⟩ before) fun _ =>
      .after (declareFunctions ⟨runner, f⟩ after) fun _ => hin.bind fun e => .refl (pure (endOfList e))
    refine hrest scene _ (hheld.mono ?_)
    simpa using hk
  rw [Hole.body, Hole.body, scene.observe_bind, scene.observe_bind]
  exact hlist.andThen fun _ _ _ => .refl _

/-- To bind a name in a scope changes nothing but that scope. -/
theorem Action.frame_put {limits : Limits} (f : FrameId) (k : Key) (v : Value) (s : State) :
    let t := ((Action.put f k v).perform limits s).2
    t.store.objects = s.store.objects ∧ ∀ g ≠ f, t.store.frame g = s.store.frame g := by
  intro t
  have ht : t = s ∨ t.store = s.store.modifyFrame f (·.write k v) := by
    obtain hroom | hroom := perform_eq limits s (.put f k v)
    · exact .inl (congrArg Prod.snd hroom)
    · have hchange : t = (changeFrame s f (fun _ => k) (·.write k v)).2 := congrArg Prod.snd hroom
      rw [changeFrame] at hchange
      split at hchange
      · exact .inl hchange
      · exact .inr (congrArg State.store hchange)
  rcases ht with ht | ht
  · simp [ht]
  · rw [ht]
    exact ⟨rfl, fun g hg => Store.frame_modifyFrame_of_ne _ _ hg.symm⟩

section Calls

variable {s : State} {function : ObjectId} {name x : Text} {params : List Text} {code before after : List Stmt}
  {layers : List Layer} {decls : List (Text × Option Expr)} {d : Declaring} {scope : FrameId} {runner : RunnerId}
  {selfBound : Bool}

/-- A call of a function of a script opens a scope and runs the body there. -/
theorem Scene.observe_callBody (scene : Scene)
    (hbody : s.store.body function = .function name (.script params code scope runner selfBound))
    (invoker : Option FrameId) (this : Value) (args : List Value) :
    scene.observe (callBody function invoker this args) s =
      Passage.andThen (scene.observe (openActivation function name params scope selfBound invoker this args) s)
        fun f => scene.observe (runBody f runner name code) := by
  have hread : scene.observe (Proc.body function) s = ([], .ok (s.store.body function), s) := rfl
  rw [callBody, scene.observe_bind, hread, hbody, Passage.andThen_ok, List.nil_append]
  exact scene.observe_bind _ _ s

/-- The body of a function, and the same body with a declaration that stays at home. -/
theorem observe_runBody_homing (hcode : code = before ++ layers.foldr Layer.fill (d.stmt decls) :: after)
    (hx : x ∈ decls.map (·.1)) (scene : Scene) (hs : s.store.At f [] f) (runner : RunnerId) (name : Text) :
    Until (Action.takes f [.ofText x]) (scene.observe (runBody f runner name code) s)
      (scene.observe (((Hole.homing f x decls d).within layers).body before after f runner name) s) := by
  have hkind : (d.stmt decls).kind ≠ .functionStmt := by cases d <;> simp [Declaring.stmt, Stmt.kind]
  obtain ⟨hof, hlayers⟩ := Hole.within_of layers hkind
  have hagree : ((Hole.of (d.stmt decls)).within layers).Agree f [.ofText x] _ := Hole.agree_homing.within layers
  rw [hof] at hagree
  rw [hcode, ← Hole.body_of hlayers]
  refine hagree.observe_body ?_ runner name scene hs
  have hnames : x ∈ (layers.foldr Layer.fill (d.stmt decls)).varNames :=
    mem_varNames_layers layers (mem_varNames_stmt hx)
  exact List.mem_map_of_mem (List.mem_append_left _ (List.mem_append_right _ hnames))

/-- Where no nearer scope binds the name, it is bound in the scope of the call, and nothing else changes. -/
theorem observe_initAtHome_alone (scene : Scene) (v : Value) (hnearer : s.store.nearer? f g (.ofText x) = none) :
    let r := scene.observe (initAtHome f g x v) s
    r = Passage.perform scene.limits scene.within (.put f (.ofText x) v) s ∧
      r.2.2.store.objects = s.store.objects ∧ ∀ g' ≠ f, r.2.2.store.frame g' = s.store.frame g' := by
  intro r
  have hr : r = Passage.perform scene.limits scene.within (.put f (.ofText x) v) s := by
    rw [← scene.observe_perform]
    exact (observe_initAtHome scene f g x v s).trans (by rw [hnearer]; rfl)
  have hstate : r.2.2 = ((Action.put f (.ofText x) v).perform scene.limits s).2 := by
    rw [hr]
    simp only [Passage.perform, Course.perform]
    split <;> rename_i he <;> rw [he]
  rw [hstate]
  exact ⟨hr, Action.frame_put f _ v s⟩

/-- A call opens a scope `f` and runs the body there. Whatever statements are around a declaration of `x` in the
body, and whatever the call does, other calls included, the declaration does what one does that searches for `x`
no further than `f`, until `x` is taken away from `f`. Where no nearer scope binds `x`, such a declaration binds it
in `f`, and changes no other scope and no object. -/
theorem callBody_homing (scene : Scene)
    (hbody : s.store.body function = .function name (.script params code scope runner selfBound))
    (hcode : code = before ++ layers.foldr Layer.fill (d.stmt decls) :: after) (hx : x ∈ decls.map (·.1))
    (invoker : Option FrameId) (this : Value) (args : List Value) :
    let opening := openActivation function name params scope selfBound invoker this args
    scene.observe (callBody function invoker this args) s =
        Passage.andThen (scene.observe opening s) (fun f => scene.observe (runBody f runner name code)) ∧
      ∀ h f t, scene.observe opening s = (h, .ok f, t) →
        s.store.frames.size ≤ f ∧ (t.store.frame f).role = .activation function ∧
        Until (Action.takes f [.ofText x]) (scene.observe (runBody f runner name code) t)
          (scene.observe (((Hole.homing f x decls d).within layers).body before after f runner name) t) ∧
        ∀ u g v, u.store.nearer? f g (.ofText x) = none →
          let r := scene.observe (initAtHome f g x v) u
          r = Passage.perform scene.limits scene.within (.put f (.ofText x) v) u ∧
          r.2.2.store.objects = u.store.objects ∧ ∀ g' ≠ f, r.2.2.store.frame g' = u.store.frame g' := by
  intro opening
  refine ⟨scene.observe_callBody hbody invoker this args, ?_⟩
  intro h f t hopen
  obtain ⟨hnew, hrole, hat⟩ := scene.gives_openActivation function name params scope selfBound invoker this args s
    h f t hopen
  refine ⟨hnew, hrole, observe_runBody_homing hcode hx scene hat runner name, ?_⟩
  intro u g v hnearer
  exact observe_initAtHome_alone scene v hnearer

end Calls

/-- The declaration `var x = false`. -/
def falseX : List (Text × Option Expr) := [("x", some (.literal (.bool false)))]

/-- A state with a program that has bound `x` to `true`, and a function of it with the given body. -/
def oneFunction (body : List Stmt) : State :=
  let program : Frame := { parent := some Realm.core, role := .program, entries := [(.ofText "x", .bool true)] }
  let function : Object := { body := .function "f" (.script [] body 1 0 false) }
  { store := { frames := #[{ role := .core }, program], objects := #[function] } }

/-- The value of `x` in a scope. -/
def Store.flag? (s : Store) (f : FrameId) : Option Bool :=
  match (s.frame f).lookup? (.ofText "x") with
  | some (.bool b) => some b
  | _ => none

/-- A declaration in a block of the function: it does what one does that stays in the scope of the call, and the
`x` of the program is what it was. -/
theorem callBody_homing_block :
    let scene : Scene := ⟨{}, 1, 1, 1, []⟩
    let s := oneFunction [.block [.var falseX]]
    let r := scene.observe (callBody 0 none .undefined []) s
    let home := fun f => ((Hole.homing f "x" falseX .var).within [.block [] []]).body [] [] f 0 "f"
    (∃ h f t, scene.observe (openActivation 0 "f" [] 1 false none .undefined []) s = (h, .ok f, t) ∧
      Until (Action.takes f [.ofText "x"]) (scene.observe (runBody f 0 "f" [.block [.var falseX]]) t)
        (scene.observe (home f) t)) ∧
    r.2.2.store.flag? 1 = some true := by
  intro scene s r home
  have hhoming := @callBody_homing s 0 "f" "x" [] [.block [.var falseX]] [] [] [.block [] []] falseX .var 1 0 false
    scene rfl rfl (List.mem_cons_self ..) none .undefined []
  refine ⟨?_, by decide +kernel⟩
  have hopen : (scene.observe (openActivation 0 "f" [] 1 false none .undefined []) s).2.1 = .ok 3 := rfl
  exact ⟨_, 3, _, Passage.ends hopen, (hhoming.2 _ 3 _ (Passage.ends hopen)).2.2.1⟩

/-- A declaration after its name has been deleted, as in `delete x; var x = false`: it binds the name not in the
scope of the call but in that of the program. -/
theorem callBody_strays :
    let scene : Scene := ⟨{}, 1, 1, 1, []⟩
    let s := oneFunction [.expr (.unary .delete (.ident "x")), .var falseX]
    let r := scene.observe (callBody 0 none .undefined []) s
    s.store.flag? 1 = some true ∧ r.2.2.store.flag? 1 = some false := by
  decide +kernel

end ScriptEngine
