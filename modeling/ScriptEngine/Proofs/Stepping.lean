import ScriptEngine.Proofs.ListMethods
import ScriptEngine.Proofs.Matches
import ScriptEngine.Proofs.Places

/-!
# Stepping through matches

The matches of a global pattern can be had in two ways: one by one, by calls that each start where the one before has
ended, or all at once. In the first way the position is a property of the pattern, which anyone can see. As long as no
match is empty, both ways give the same matches: what the property holds after some calls is where the search for the
remaining matches starts.

## Main definitions

* `Hits.Series`: the matches of a search that is repeated from the end of each match.
* `Store.PatternAt`: a pattern that is not sealed, with the position in its property.
* `PatternRef.Stepped`: calls one after another, until there is no further match.
* `PatternRef.Collected`: the answer with all matches.

## Main results

* `Hits.series_collect`: collected matches that are not empty are such a series.
* `PatternRef.run_exec_some`, `PatternRef.run_exec_none`: what one call does.
* `PatternRef.stepped_of_series`: what the calls do.
* `PatternRef.exec_steps_through_match`: both ways come to the same.
-/

namespace ScriptEngine

/-! ## Repeated searches -/

namespace Hits

variable {find : Nat → Bool → Option Hit} {t : Text} {p n : Nat} {hits : List Hit}

/-- The matches of a search from a position on, each from the end of the one before it, until there is none. -/
inductive Series (find : Nat → Option Hit) : Nat → List Hit → Prop
  | done {p : Nat} (h : find p = none) : Series find p []
  | next {p : Nat} {h : Hit} {hits : List Hit} (hfind : find p = some h) (hrest : Series find h.stop hits) :
      Series find p (h :: hits)

/-- Every match takes the position further, so there are fewer of them than may be collected. -/
theorem series_collectFrom (hfind : ∀ p advance h, find p advance = some h → h.Within t p)
    (hp : p ≤ t.length) (hn : t.length < n + p) (hne : ∀ h ∈ collectFrom find n p false, h.start ≠ h.stop) :
    Series (find · false) p (collectFrom find n p false) := by
  induction n generalizing p with
  | zero => omega
  | succ n ih =>
    rw [collectFrom] at hne ⊢
    cases hfound : find p false with
    | none => exact .done hfound
    | some h =>
      simp only [hfound, List.forall_mem_cons] at hne ⊢
      obtain ⟨hhead, htail⟩ := hne
      have hwithin := hfind p false h hfound
      have hafter := hwithin.after
      have horder := hwithin.order
      have hflag : (h.stop == h.start) = false := by simpa using Ne.symm hhead
      rw [hflag] at htail ⊢
      exact .next hfound (ih hwithin.inside (by omega) htail)

theorem series_collect {c : Compiled} (hne : ∀ h ∈ collect (c.find t) t.length, h.start ≠ h.stop) :
    Series (c.find t · false) 0 (collect (c.find t) t.length) :=
  series_collectFrom (fun _ _ _ => Compiled.within_find) (Nat.zero_le _) (by omega) hne

/-- There are at most as many matches that are not empty as characters. -/
theorem InOrder.length_le (h : InOrder t p hits) (hne : ∀ h ∈ hits, h.start ≠ h.stop) (hp : p ≤ t.length) :
    p + hits.length ≤ t.length := by
  induction hits generalizing p with
  | nil => exact hp
  | cons hit rest ih =>
    obtain ⟨hwithin, hrest⟩ := h
    obtain ⟨hhead, htail⟩ := List.forall_mem_cons.1 hne
    have hafter := hwithin.after
    have horder := hwithin.order
    have hlength := ih hrest htail hwithin.inside
    rw [List.length_cons]
    omega

end Hits

/-! ## Patterns with their position -/

/-- A name other than that of the length is bound in every frame in the same way. -/
theorem Frame.write_of_name (fr : Frame) {k : Key} (hname : k.index? = none) (hlength : k ≠ Key.length) (v : Value) :
    fr.write k v = fr.put k v := by
  cases k with
  | index i => cases hname
  | name x =>
    rw [write]
    split
    · simp only [if_neg hlength]
    · rfl

namespace Store

variable {s t : Store} {r : PatternRef} {p n : Nat}

/-- A pattern that is not sealed, with the position from which its next search starts. -/
structure PatternAt (s : Store) (r : PatternRef) (p : Nat) : Prop where
  body : s.body r.object = .regexp r.source r.flags
  grounded : ∀ f ∈ s.chain (s.propsOf r.object), f < s.frames.size
  unsealed : (s.frame (s.propsOf r.object)).sealed = false
  lastIndex : s.getProperty r.object Key.lastIndex = .ofNat p

theorem getProperty_lastIndex (h : s.body r.object = .regexp r.source r.flags) :
    s.getProperty r.object Key.lastIndex = (s.find? (s.propsOf r.object) Key.lastIndex).getD .undefined := by
  have hfixed : (Body.regexp r.source r.flags).fixed? Key.lastIndex = none := by
    rw [Body.fixed?, if_neg (by decide), if_neg (by decide), if_neg (by decide), if_neg (by decide)]
  rw [getProperty, h, hfixed]

theorem lt_size_of_regexp (h : s.body r.object = .regexp r.source r.flags) : r.object < s.objects.size := by
  refine Nat.lt_of_not_le fun hle => ?_
  simp [Store.body, object, Array.getD_eq_getD_getElem?, Array.getElem?_eq_none hle] at h

namespace PatternAt

theorem propsOf_lt (h : s.PatternAt r p) : s.propsOf r.object < s.frames.size :=
  h.grounded _ (by simp [chain, ancestors])

/-- A pattern has the same position when everything that was there is as it was. -/
theorem keeps (h : s.PatternAt r p) (hst : s.Keeps t) : t.PatternAt r p := by
  have hobject := lt_size_of_regexp h.body
  have hprops := hst.propsOf hobject
  have hbody : t.body r.object = .regexp r.source r.flags := by
    rw [Store.body, hst.object _ hobject]
    exact h.body
  refine ⟨hbody, ?_, ?_, ?_⟩
  · rw [hprops, hst.toExtends.chain h.grounded]
    exact fun f hf => Nat.lt_of_lt_of_le (h.grounded f hf) hst.size
  · rw [hprops, hst.frame _ h.propsOf_lt]
    exact h.unsealed
  · rw [getProperty_lastIndex hbody, hprops, hst.toExtends.find? h.grounded, ← getProperty_lastIndex h.body]
    exact h.lastIndex

/-- A pattern with another position. -/
theorem set (h : s.PatternAt r p) (n : Nat) :
    (s.modifyFrame (s.propsOf r.object) (·.write Key.lastIndex (.ofNat n))).PatternAt r n := by
  have hframe := frame_modifyFrame_self s _ (·.write Key.lastIndex (.ofNat n)) h.propsOf_lt
  have hchain : (s.modifyFrame (s.propsOf r.object) (·.write Key.lastIndex (.ofNat n))).chain (s.propsOf r.object) =
      s.chain (s.propsOf r.object) :=
    ancestors_congr fun g _ => parent_modifyFrame s _ (fun fr => .write fr _ _) g
  refine ⟨h.body, ?_, ?_, ?_⟩
  · change ∀ f ∈ Store.chain _ (s.propsOf r.object), _
    rw [hchain, size_modifyFrame]
    exact h.grounded
  · change (Store.frame _ (s.propsOf r.object)).sealed = false
    rw [hframe, Frame.sealed_write, h.unsealed]
  · rw [getProperty_lastIndex (by exact h.body)]
    change (Store.find? _ (s.propsOf r.object) _).getD _ = _
    rw [find?_of_lookup? (by rw [hframe, Frame.write_of_name _ rfl (by decide), Frame.lookup?_put, if_pos rfl])]
    rfl

end PatternAt

/-! ## New arrays -/

/-- An array that was not there before, with its first element. -/
structure Fresh (s : Store) (a : ObjectId) (v : Value) (t : Store) : Prop where
  keeps : s.Keeps t
  isArray : (t.body a).isArray
  propsOf_ge : s.frames.size ≤ t.propsOf a
  propsOf_lt : t.propsOf a < t.frames.size
  unsealed : (t.frame (t.propsOf a)).sealed = false
  head : (t.frame (t.propsOf a)).lookup? (.index 0) = some v

namespace Fresh

variable {a : ObjectId} {v : Value}

theorem addArray (s : Store) (proto : Option ObjectId) (v : Value) (rest : List Value) :
    s.Fresh s.objects.size v (s.addArray proto (v :: rest)).2 := by
  have hprops : (s.addArray proto (v :: rest)).2.propsOf s.objects.size = s.frames.size := by
    rw [propsOf, object_addArray]
  have hframe : (s.addArray proto (v :: rest)).2.frame s.frames.size =
      Frame.ofItems (s.parentFrame proto) (v :: rest) := frame_addArray s
  refine ⟨.addArray _ _ _, ?_, Nat.le_of_eq hprops.symm, ?_, ?_, ?_⟩
  · rw [Store.body, object_addArray]
    rfl
  · rw [hprops]
    simp [Store.addArray, Store.addWith, Store.addFrame, Store.addObject]
  · rw [hprops, hframe]
    exact Frame.sealed_of_reworked (.ofItems (fun _ => trivial) trivial _ _)
  · rw [hprops, hframe, Frame.lookup?_ofItems]
    rfl

/-- Another property leaves the first element alone. -/
theorem write (h : s.Fresh a v t) {k : Key} (hname : k.index? = none) (hlength : k ≠ Key.length) (w : Value) :
    s.Fresh a v (t.modifyFrame (t.propsOf a) (·.write k w)) := by
  have hframe := frame_modifyFrame_self t _ (·.write k w) h.propsOf_lt
  have hkeeps : s.Keeps (t.modifyFrame (t.propsOf a) (·.write k w)) :=
    ⟨h.keeps.toExtends.modifyFrame h.propsOf_ge _, h.keeps.objects, h.keeps.object⟩
  refine ⟨hkeeps, h.isArray, h.propsOf_ge, ?_, ?_, ?_⟩
  · rw [size_modifyFrame]
    exact h.propsOf_lt
  · change (Store.frame _ (t.propsOf a)).sealed = false
    rw [hframe, Frame.sealed_write, h.unsealed]
  · change (Store.frame _ (t.propsOf a)).lookup? _ = _
    have hne : Key.index 0 ≠ k := by
      rintro rfl
      cases hname
    rw [hframe, Frame.write_of_name _ hname hlength, Frame.lookup?_put, if_neg hne, h.head]

theorem getProperty_zero (h : s.Fresh a v t) : t.getProperty a (.index 0) = v := by
  have hfixed : (t.body a).fixed? (.index 0) = none := by
    have harray := h.isArray
    cases hbody : t.body a <;> simp [hbody, Body.isArray] at harray
    rfl
  rw [getProperty, hfixed, find?_of_lookup? h.head]
  rfl

end Fresh

/-- A new pattern is not sealed, and its position is the start. -/
theorem addRegExp_pattern (s : Store) (source flags : Text) :
    let t := (s.addRegExp source flags).2
    t.body s.objects.size = .regexp source flags ∧ (t.frame (t.propsOf s.objects.size)).sealed = false ∧
      t.getProperty s.objects.size Key.lastIndex = .ofNat 0 := by
  intro t
  have hobject : t.object s.objects.size =
      { proto := some Realm.regexpPrototype, props := s.frames.size, body := .regexp source flags } :=
    (Next.object_addObject _ _ _).trans (if_pos rfl)
  have hframe : t.frame (t.propsOf s.objects.size) =
      ({ parent := s.parentFrame (some Realm.regexpPrototype) } : Frame).define Key.lastIndex (.ofNat 0) := by
    rw [propsOf, hobject]
    exact frame_addFrame s _
  have hbody : t.body s.objects.size = .regexp source flags := by rw [Store.body, hobject]
  refine ⟨hbody, by rw [hframe]; rfl, ?_⟩
  rw [@getProperty_lastIndex t ⟨s.objects.size, source, flags⟩ hbody,
    find?_of_lookup? (by rw [hframe, Frame.lookup?_define, if_pos rfl])]
  rfl

end Store

/-! ## One call -/

namespace PatternRef

open Proc

variable {limits : Limits} {bound : Nat} {handler : Handler} {s : State} {r : PatternRef} {t : Text} {c : Compiled}
  {p n : Nat}

/-- What an expression is read as when it is used. -/
def Reads (r : PatternRef) (c : Compiled) : Prop :=
  Compiled.ofText { ignoreCase := r.has 105, multiline := r.has 109 } (Pattern.translate r.source) = .ok c

theorem Reads.compile (h : r.Reads c) : r.compile = pure c := by
  rw [PatternRef.compile]
  rw [Reads] at h
  simp only [h]

/-- Whether a pattern can be read, and what it is read as passes a test. -/
def readsAs (source flags : Text) (test : Compiled → Bool) : Bool :=
  match Compiled.ofText { ignoreCase := List.contains flags 105, multiline := List.contains flags 109 }
    (Pattern.translate source) with
  | .ok c => test c
  | .error _ => false

theorem exists_reads (o : ObjectId) {source flags : Text} (test : Compiled → Bool) (h : readsAs source flags test) :
    ∃ c, Reads ⟨o, source, flags⟩ c ∧ test c := by
  rw [readsAs] at h
  split at h
  · rename_i c hc
    exact ⟨c, hc, h⟩
  · cases h

theorem run_of? (h : s.store.body r.object = .regexp r.source r.flags) :
    (of? (.obj r.object)).run limits bound handler s = (.ok (some r), s) := by
  simp [of?, h]

theorem run_lastIndex (h : s.store.PatternAt r p) (hp : p ≤ 2 ^ 53) :
    r.lastIndex.run limits bound handler s = (.ok (p : Int), s) := by
  have hinteger : toInteger (.ofNat p) = pure (Number.ofNat p) :=
    congrArg Proc.ret (NumberFn.integerPart_ofNat hp)
  rw [PatternRef.lastIndex]
  refine run_then (run_read _ s) ?_
  rw [h.lastIndex, hinteger]
  refine run_then (run_pure _ s) ?_
  rw [Number.truncate?_ofNat hp]
  rfl

/-- A property under a name is put into the frame of an object that is not sealed. -/
theorem run_put_name {o : ObjectId} {k : Key} (hopen : (s.store.frame (s.store.propsOf o)).sealed = false)
    (hname : k.index? = none) (v : Value) :
    (perform (.put (s.store.propsOf o) k v)).run limits bound handler s = (.ok (), s.changed o (·.write k v)) := by
  refine run_perform ?_
  rw [Action.perform, if_neg (by simp [Action.demand, hopen, hname])]
  exact Arrays.changeFrame_of_open hopen (fun _ => k) (·.write k v)

theorem run_setLastIndex (hopen : (s.store.frame (s.store.propsOf r.object)).sealed = false) (n : Nat) :
    (r.setLastIndex n).run limits bound handler s =
      (.ok (), s.changed r.object (·.write Key.lastIndex (.ofNat n))) :=
  run_then (run_read _ s) (run_put_name hopen rfl _)

/-- A search from the position leaves the position where the match ends, or at the start if there is none. -/
theorem run_next (h : s.store.PatternAt r p) (hglobal : r.isGlobal) (hc : r.Reads c) (hp : p ≤ t.length)
    (hroom : t.length ≤ Frame.mostElements) :
    (r.next t).run limits bound handler s = (.ok (c.find t p false),
      s.changed r.object (·.write Key.lastIndex (.ofNat (((c.find t p false).map (·.stop)).getD 0)))) := by
  have hinside : (0 : Int) ≤ (p : Int) ∧ (p : Int) ≤ t.length := ⟨Int.natCast_nonneg p, Int.ofNat_le.2 hp⟩
  rw [PatternRef.next, if_pos hglobal]
  refine run_then (run_lastIndex h (Nat.le_trans hp hroom)) ?_
  simp only [if_pos hinside, if_pos hglobal, hc.compile]
  exact run_then (run_pure c s) (run_then (run_pure _ s) (run_then (run_setLastIndex h.unsealed _) rfl))

/-- The array for a match is new, and its first element is the text of the match. -/
theorem run_hitArray (limits : Limits) (bound : Nat) (handler : Handler) (s : State) {h : Hit} (t : Text)
    (hroom : h.groups.length < Frame.mostElements) :
    ∃ a u, (hitArray t h).run limits bound handler s = (.ok (.obj a), u) ∧ s.store.Keeps u.store ∧
      (u.store.body a).isArray ∧ u.store.getProperty a (.index 0) = .str h.text := by
  have hitems : (Value.str h.text :: groupValues h).length ≤ Frame.mostElements := by simpa [groupValues] using hroom
  let a := s.store.objects.size
  let s₁ := s.withArray (some Realm.arrayPrototype) (.str h.text :: groupValues h)
  let s₂ := s₁.changed a (·.write Key.matchIndex (.ofNat h.start))
  let s₃ := s₂.changed a (·.write Key.input (.str t))
  have hnew : s.store.Fresh a (.str h.text) s₁.store := .addArray s.store _ _ _
  have hindexed : s.store.Fresh a (.str h.text) s₂.store := hnew.write rfl (by decide) _
  have hinput : s.store.Fresh a (.str h.text) s₃.store := hindexed.write rfl (by decide) _
  have hindex : (perform (.put (s₁.store.propsOf a) Key.matchIndex (.ofNat h.start))).run limits bound handler s₁ =
      (.ok (), s₂) := run_put_name hnew.unsealed rfl _
  have hsubject : (perform (.put (s₂.store.propsOf a) Key.input (.str t))).run limits bound handler s₂ =
      (.ok (), s₃) := run_put_name hindexed.unsealed rfl _
  have hrun : (hitArray t h).run limits bound handler s = (.ok (.obj a), s₃) :=
    run_then (run_perform (Action.perform_newArray _ hitems)) (run_then (run_read _ s₁)
      (run_then hindex (run_then hsubject (run_pure _ s₃))))
  exact ⟨a, s₃, hrun, hinput.keeps, hinput.isArray, hinput.getProperty_zero⟩

/-! ## Calls one after another -/

variable {u : State} {h : Hit} {hits : List Hit} {invoker : Option FrameId}

theorem run_receiver (h : s.store.body r.object = .regexp r.source r.flags) (what : String) :
    (RegExpFn.receiver what (.obj r.object)).run limits bound handler s = (.ok r, s) :=
  run_then (run_of? h) rfl

/-- A call where there is no further match: it answers `null`, and the position is the start again. -/
theorem run_exec_none (limits : Limits) (bound : Nat) (handler : Handler) (invoker : Option FrameId)
    (hs : s.store.PatternAt r p) (hglobal : r.isGlobal) (hc : r.Reads c) (hp : p ≤ t.length)
    (hroom : t.length ≤ Frame.mostElements) (hfind : c.find t p false = none) :
    ∃ u, (RegExpFn.exec.invoke ⟨invoker, .obj r.object, [.str t]⟩).run limits bound handler s = (.ok .null, u) ∧
      u.store.PatternAt r 0 := by
  have hnext : (r.next t).run limits bound handler s = _ := run_next hs hglobal hc hp hroom
  rw [hfind] at hnext
  exact ⟨_, run_then (run_receiver hs.body "exec") (run_then (run_pure t s) (run_then hnext rfl)), hs.set 0⟩

/-- A call where there is a further match: the first element of its answer is the text of the match, and the position is
where the match ends. -/
theorem run_exec_some (limits : Limits) (bound : Nat) (handler : Handler) (invoker : Option FrameId)
    (hs : s.store.PatternAt r p) (hglobal : r.isGlobal) (hc : r.Reads c) (hp : p ≤ t.length)
    (hroom : t.length ≤ Frame.mostElements) (hgroups : h.groups.length < Frame.mostElements)
    (hfind : c.find t p false = some h) :
    ∃ a u, (RegExpFn.exec.invoke ⟨invoker, .obj r.object, [.str t]⟩).run limits bound handler s = (.ok (.obj a), u) ∧
      (u.store.body a).isArray ∧ u.store.getProperty a (.index 0) = .str h.text ∧ u.store.PatternAt r h.stop := by
  have hnext : (r.next t).run limits bound handler s = _ := run_next hs hglobal hc hp hroom
  rw [hfind] at hnext
  obtain ⟨a, u, hrun, hkeeps, harray, hhead⟩ := run_hitArray limits bound handler
    (s.changed r.object (·.write Key.lastIndex (.ofNat h.stop))) t hgroups
  exact ⟨a, u, run_then (run_receiver hs.body "exec") (run_then (run_pure t s) (run_then hnext hrun)), harray, hhead,
    (hs.set h.stop).keeps hkeeps⟩

/-- Calls one after another from a position on, with the matches that they find: the first element of each answer is the
text of a match, the position is where this match ends and further on than before, and in the end there is no further
match, and the position is the start. -/
inductive Stepped (call : State → Outcome Value × State) (o : ObjectId) : State → Nat → List Hit → State → Prop
  | done {s u : State} {p : Nat} (hrun : call s = (.ok .null, u))
      (hlast : u.store.getProperty o Key.lastIndex = .ofNat 0) : Stepped call o s p [] u
  | next {s u w : State} {p : Nat} {a : ObjectId} {h : Hit} {hits : List Hit} (hrun : call s = (.ok (.obj a), u))
      (harray : (u.store.body a).isArray) (hhead : u.store.getProperty a (.index 0) = .str h.text)
      (hlast : u.store.getProperty o Key.lastIndex = .ofNat h.stop) (hfurther : p < h.stop)
      (hrest : Stepped call o u h.stop hits w) : Stepped call o s p (h :: hits) w

theorem Stepped.lastIndex {call : State → Outcome Value × State} {o : ObjectId} (h : Stepped call o s p hits u) :
    u.store.getProperty o Key.lastIndex = .ofNat 0 := by
  induction h with
  | done _ hlast => exact hlast
  | next _ _ _ _ _ _ ih => exact ih

/-- The calls go through a series of matches that are not empty. -/
theorem stepped_of_series (limits : Limits) (bound : Nat) (handler : Handler) (invoker : Option FrameId)
    (hseries : Hits.Series (c.find t · false) p hits) (hs : s.store.PatternAt r p)
    (hglobal : r.isGlobal) (hc : r.Reads c) (hp : p ≤ t.length) (hroom : t.length ≤ Frame.mostElements)
    (hgroups : c.groups < Frame.mostElements) (hne : ∀ h ∈ hits, h.start ≠ h.stop) :
    ∃ u, Stepped ((RegExpFn.exec.invoke ⟨invoker, .obj r.object, [.str t]⟩).run limits bound handler) r.object s p hits
      u := by
  induction hseries generalizing s with
  | done hfind =>
    obtain ⟨u, hrun, hu⟩ := run_exec_none limits bound handler invoker hs hglobal hc hp hroom hfind
    exact ⟨u, .done hrun hu.lastIndex⟩
  | @next p h hits hfind hrest ih =>
    obtain ⟨hhead, htail⟩ := List.forall_mem_cons.1 hne
    have hwithin := Compiled.within_find hfind
    have hfew : h.groups.length < Frame.mostElements := by rwa [Compiled.length_groups_find hfind]
    obtain ⟨a, u, hrun, harray, hitem, hu⟩ :=
      run_exec_some limits bound handler invoker hs hglobal hc hp hroom hfew hfind
    have hfurther : p < h.stop :=
      Nat.lt_of_le_of_lt hwithin.after (Nat.lt_of_le_of_ne hwithin.order hhead)
    obtain ⟨w, hw⟩ := ih hu hwithin.inside htail
    exact ⟨w, .next hrun harray hitem hu.lastIndex hfurther hw⟩

/-! ## All at once -/

/-- What all matches together are answered by: an array with their texts, or `null` if there are none. -/
def Collected (s : Store) (hits : List Hit) (v : Value) : Prop :=
  hits = [] ∧ v = .null ∨
    hits ≠ [] ∧ ∃ a, v = .obj a ∧ (s.body a).isArray ∧ s.arrayItems a = hits.map fun h => .str h.text

theorem run_hitTexts (limits : Limits) (bound : Nat) (handler : Handler) (s : State) {hits : List Hit}
    (hroom : hits.length ≤ Frame.mostElements) :
    ∃ v u, (Strings.hitTexts hits).run limits bound handler s = (.ok v, u) ∧ Collected u.store hits v ∧
      s.store.Keeps u.store := by
  cases hits with
  | nil => exact ⟨.null, s, rfl, .inl ⟨rfl, rfl⟩, .refl _⟩
  | cons h hits =>
    have hvalues : ((h :: hits).map fun h => Value.str h.text).length ≤ Frame.mostElements := by rwa [List.length_map]
    obtain ⟨harray, hitems⟩ := s.store.addArray_items (some Realm.arrayPrototype) hvalues
    have hcollected : Collected (s.withArray (some Realm.arrayPrototype) ((h :: hits).map fun h => .str h.text)).store
        (h :: hits) (.obj s.store.objects.size) := .inr ⟨List.cons_ne_nil _ _, _, rfl, harray, hitems⟩
    exact ⟨_, _, run_newArray hvalues, hcollected, .addArray s.store _ _⟩

/-- What `match` does with a global pattern. -/
theorem run_match (limits : Limits) (bound : Nat) (handler : Handler) (invoker : Option FrameId)
    (hs : s.store.PatternAt r p) (hglobal : r.isGlobal) (hc : r.Reads c)
    (hroom : (Hits.collect (c.find t) t.length).length ≤ Frame.mostElements) :
    ∃ v u, (StringFn.match.invoke ⟨invoker, .str t, [.obj r.object]⟩).run limits bound handler s = (.ok v, u) ∧
      Collected u.store (Hits.collect (c.find t) t.length) v ∧ u.store.PatternAt r 0 := by
  let s₁ := s.changed r.object (·.write Key.lastIndex (.ofNat 0))
  have hs₁ : s₁.store.PatternAt r 0 := hs.set 0
  have hpattern : (Strings.patternOf (.obj r.object)).run limits bound handler s = (.ok r, s) :=
    run_then (run_of? hs.body) rfl
  have hset : (r.setLastIndex 0).run limits bound handler s = (.ok (), s₁) := run_setLastIndex hs.unsealed 0
  obtain ⟨v, u, htexts, hcollected, hkeeps⟩ := run_hitTexts limits bound handler s₁ hroom
  refine ⟨v, u, run_then (run_pure t s) (run_then hpattern ?_), hcollected, hs₁.keeps hkeeps⟩
  rw [if_pos hglobal, hc.compile]
  exact run_then hset (run_then (run_pure c s₁) htexts)

/-- At every moment of an engine, for a global pattern that is not sealed and whose position is the start, and for a
string in which none of the matches that are collected is empty: these matches are those of a search that is repeated
from the end of each match; calls of `exec` go through them one after another, each with the text of a match as the
first element of its answer and further on with the position, until after finitely many calls there is no further
match; `match` answers with all of these texts at once. In both ways the position is the start again in the end. The
host has room for the characters and the groups. -/
theorem exec_steps_through_match (hs : Engine.Moment s) (hbody : s.store.body r.object = .regexp r.source r.flags)
    (hglobal : r.isGlobal) (hopen : (s.store.frame (s.store.propsOf r.object)).sealed = false)
    (hstart : s.store.getProperty r.object Key.lastIndex = .ofNat 0) (hc : r.Reads c)
    (hroom : t.length ≤ Frame.mostElements) (hgroups : c.groups < Frame.mostElements)
    (hne : ∀ h ∈ Hits.collect (c.find t) t.length, h.start ≠ h.stop)
    (limits : Limits) (bound : Nat) (handler : Handler) (invoker : Option FrameId) :
    let hits := Hits.collect (c.find t) t.length
    Hits.Series (c.find t · false) 0 hits ∧
      (∃ u, Stepped ((RegExpFn.exec.invoke ⟨invoker, .obj r.object, [.str t]⟩).run limits bound handler) r.object s 0
        hits u ∧ u.store.getProperty r.object Key.lastIndex = .ofNat 0) ∧
      ∃ v u, (StringFn.match.invoke ⟨invoker, .str t, [.obj r.object]⟩).run limits bound handler s = (.ok v, u) ∧
        Collected u.store hits v ∧ u.store.getProperty r.object Key.lastIndex = .ofNat 0 := by
  intro hits
  have hpattern : s.store.PatternAt r 0 := ⟨hbody, hs.tidy.grounded _ (.inr ⟨r.object, rfl⟩) _, hopen, hstart⟩
  have hfew : hits.length ≤ Frame.mostElements := by
    have : 0 + hits.length ≤ t.length := (Hits.inOrder_collect c t).length_le hne (Nat.zero_le _)
    omega
  have hseries : Hits.Series (c.find t · false) 0 hits := Hits.series_collect hne
  obtain ⟨u, hstepped⟩ :=
    stepped_of_series limits bound handler invoker hseries hpattern hglobal hc (Nat.zero_le _) hroom hgroups hne
  obtain ⟨v, w, hrun, hcollected, hw⟩ := run_match limits bound handler invoker hpattern hglobal hc hfew
  exact ⟨hseries, ⟨u, hstepped, hstepped.lastIndex⟩, v, w, hrun, hcollected, hw.lastIndex⟩

theorem store_run_new (e : Engine) (source flags : Text) :
    (e.run (perform (.newRegExp source flags))).2.store = (e.store.addRegExp source flags).2 := by
  have hperform : (Action.newRegExp source flags).perform e.limits e.state =
      (.ok e.state.store.objects.size, { e.state with store := (e.state.store.addRegExp source flags).2 }) := by
    rw [Action.perform, if_neg (by simp [Action.demand])]
    rfl
  have hrun : (perform (.newRegExp source flags)).runIn e.limits e.fuel e.state = _ := run_perform hperform
  rw [Engine.run, hrun]
  rfl

/-- The two matches of a pattern in a word. The second one starts where the first one ends. -/
theorem exec_steps_through_match_twice :
    let e := ((Engine.new {} {} []).run (perform (.newRegExp "a?na?" "g"))).2
    let o := (Engine.new {} {} []).store.objects.size
    let exec := (RegExpFn.exec.invoke ⟨none, .obj o, [.str "bananas"]⟩).runIn e.limits e.fuel
    ∃ hits : List Hit, hits.map (fun h => (h.start, h.stop)) = [(1, 4), (4, 6)] ∧
      (∃ u, Stepped exec o e.state 0 hits u) ∧
      ∃ v u, (StringFn.match.invoke ⟨none, .str "bananas", [.obj o]⟩).runIn e.limits e.fuel e.state = (.ok v, u) ∧
        Collected u.store hits v := by
  intro e o exec
  have hstore : e.state.store = _ := store_run_new (Engine.new {} {} []) "a?na?" "g"
  have hpattern : e.state.store.body o = .regexp "a?na?" "g" ∧
      (e.state.store.frame (e.state.store.propsOf o)).sealed = false ∧
      e.state.store.getProperty o Key.lastIndex = .ofNat 0 := by
    rw [hstore]
    exact Store.addRegExp_pattern _ "a?na?" "g"
  obtain ⟨hbody, hopen, hstart⟩ := hpattern
  clear_value o
  let r : PatternRef := ⟨o, "a?na?", "g"⟩
  let t : Text := "bananas"
  let test (c : Compiled) : Bool := c.groups = 0 ∧ (∀ h ∈ Hits.collect (c.find t) t.length, h.start ≠ h.stop) ∧
    (Hits.collect (c.find t) t.length).map (fun h => (h.start, h.stop)) = [(1, 4), (4, 6)]
  have hread : readsAs "a?na?" "g" test := by decide +kernel
  obtain ⟨c, hc, htest⟩ := exists_reads o test hread
  obtain ⟨hgroups, hne, hhits⟩ := of_decide_eq_true htest
  obtain ⟨-, ⟨u, hstepped, -⟩, v, w, hrun, hcollected, -⟩ := exec_steps_through_match (s := e.state) (r := r) (t := t)
    (.after _ (.new {} {} [] _)) hbody rfl hopen hstart hc (by decide) (by rw [hgroups]; decide) hne e.limits e.fuel
    (answer e.limits e.fuel e.fuel e.limits.stack) none
  exact ⟨_, hhits, ⟨u, hstepped⟩, v, w, hrun, hcollected⟩

/-- An engine with a global pattern that is sealed. -/
def sealedPattern : Engine :=
  let props : Frame := { (({ parent := some 1 } : Frame).define Key.lastIndex (.ofNat 0)) with sealed := true }
  let objects := #[{ props := 1 }, { proto := some 0, props := 2, body := .regexp "a" "g" }]
  { state := { store := { frames := #[{ role := .core }, {}, props], objects } } }

/-- A global pattern that is sealed has no position to change: where there is no match, `exec` does not answer `null`
but is refused, and so is `match`. -/
theorem exec_refused_sealed :
    let r : PatternRef := ⟨1, "a", "g"⟩
    sealedPattern.store.body 1 = .regexp r.source r.flags ∧ r.isGlobal ∧
      sealedPattern.store.getProperty 1 Key.lastIndex = .ofNat 0 ∧
      (∃ c, r.Reads c ∧ (Hits.collect (c.find "b") 1).isEmpty) ∧
      (sealedPattern.run (RegExpFn.exec.invoke ⟨none, .obj 1, [.str "b"]⟩)).1.isRefused ∧
      (sealedPattern.run (StringFn.match.invoke ⟨none, .str "b", [.obj 1]⟩)).1.isRefused := by
  exact ⟨rfl, rfl, rfl, exists_reads 1 _ (by decide +kernel), by decide +kernel, by decide +kernel⟩

end PatternRef

end ScriptEngine
