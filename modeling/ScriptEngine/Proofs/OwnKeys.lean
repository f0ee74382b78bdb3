import ScriptEngine.Proofs.Enumeration
import ScriptEngine.Proofs.HeldKeys

/-!
# Listed properties

Two functions tell which properties of an object are enumerable. `Object.keys` lists the names of all of them, and
`propertyIsEnumerable` answers for one name. The first one takes the characters of a string and then the frame of the
properties. The second one looks into the frame too, but for the indexes of a string it only compares the index with
the number of characters; and it looks for keys that texts denote, while an array that has been filled past the greatest
index has others.

So the answers agree but for these indexes, and the list has a name twice only if such an index and a name are spelled
alike.

## Main definitions

* `Store.ownNames`: the names that are listed.
* `Store.Stray`: the indexes about which the two functions differ.

## Main results

* `Store.Keyed.mem_ownNames`: the listed names are the enumerable ones and the strays.
* `Store.Keyed.nodup_ownNames_iff`: when no name is listed twice.
* `Engine.Working.keys_enumerable`: what the two functions answer.
-/

namespace ScriptEngine

open Proc

/-! ## Own keys -/

theorem Frame.mem_localKeys {f : Frame} {k : Key} : k ∈ f.localKeys true ↔ f.isEnumerable k := by
  simp only [localKeys, List.mem_filter, isEnumerable, isListed, Bool.true_and, Bool.and_eq_true]
  constructor
  · rintro ⟨hk, hhidden, hunlisted⟩
    exact ⟨holds_of_mem_keys hk, hunlisted, hhidden⟩
  · rintro ⟨hk, hunlisted, hhidden⟩
    exact ⟨mem_keys_of_holds hk, hhidden, hunlisted⟩

theorem Body.index_mem_characterKeys {b : Body} {i : Nat} :
    .index i ∈ b.characterKeys ↔ ∃ t, b = .string t ∧ i < t.length := by
  cases b <;> simp [characterKeys]

namespace Store

variable {s : Store} {o : ObjectId} {k : Key} {i : Nat} {t : Text}

theorem mem_ownKeys :
    k ∈ s.ownKeys o true ↔ k ∈ (s.body o).characterKeys ∨ (s.frame (s.propsOf o)).isEnumerable k := by
  rw [ownKeys, List.mem_append, Frame.mem_localKeys]

/-- The names of the own properties that enumeration shows, the characters of a string first. -/
def ownNames (s : Store) (o : ObjectId) : List Text := (s.ownKeys o true).map Key.text

/-- An index that is listed, but is past the greatest index, as one that was pushed to the longest array, or past the
characters of a string. -/
def Stray (s : Store) (o : ObjectId) (i : Nat) : Prop :=
  .index i ∈ s.ownKeys o true ∧ (Key.maxIndex < i ∨ ∃ t, s.body o = .string t ∧ t.length ≤ i)

/-- An index is enumerable if it is listed, and in a string if it is one of the characters. -/
theorem isEnumerable_index : ObjectFn.isEnumerable s o (.index i) ↔
    .index i ∈ s.ownKeys o true ∧ ∀ t, s.body o = .string t → i < t.length := by
  rw [mem_ownKeys, Body.index_mem_characterKeys]
  unfold ObjectFn.isEnumerable
  cases hbody : s.body o with
  | string u => simpa using fun hi : i < u.length => Or.inl hi
  | _ => simp

theorem isEnumerable_name : ObjectFn.isEnumerable s o (.name t) ↔ .name t ∈ s.ownKeys o true := by
  have hfree : .name t ∉ (s.body o).characterKeys := name_notMem_characterKeys t _
  rw [mem_ownKeys, or_iff_right hfree]
  unfold ObjectFn.isEnumerable
  cases s.body o <;> rfl

namespace Keyed

/-- The keys of an object are such as computations have them, and every one comes once. -/
theorem ownKeys (h : s.Keyed) (o : ObjectId) : (s.ownKeys o true).Nodup ∧ ∀ k ∈ s.ownKeys o true, k.Proper := by
  have hkeys := h.keys (s.propsOf o)
  refine ⟨List.nodup_append.2 ⟨(s.body o).nodup_characterKeys, hkeys.nodup.filter _, ?_⟩, fun k hk => ?_⟩
  · rintro k hk _ hlocal rfl
    exact (hkeys.all k (List.mem_filter.1 hlocal).1).free o rfl hk
  · cases k with
    | index i => trivial
    | name t =>
      obtain hcharacter | hlocal := mem_ownKeys.1 hk
      · exact absurd hcharacter (name_notMem_characterKeys t _)
      · exact (hkeys.all _ (Frame.mem_keys_of_holds (Bool.and_eq_true_iff.1 hlocal).1)).proper

/-- The listed names are the enumerable ones, and those of strays. -/
theorem mem_ownNames (h : s.Keyed) :
    t ∈ s.ownNames o ↔ ObjectFn.isEnumerable s o (.ofText t) ∨ ∃ i, s.Stray o i ∧ t = Text.ofNat i := by
  constructor
  · intro ht
    obtain ⟨k, hk, rfl⟩ := List.mem_map.1 ht
    cases k with
    | name t =>
      have hproper : Key.ofText t = .name t := (h.ownKeys o).2 _ hk
      exact .inl (by rwa [Key.text, hproper, isEnumerable_name])
    | index i =>
      by_cases hstray : s.Stray o i
      · exact .inr ⟨i, hstray, rfl⟩
      · simp only [Stray, hk, true_and, not_or, not_exists, not_and, Nat.not_lt, Nat.not_le] at hstray
        have hindex : Key.ofText (Text.ofNat i) = .index i := Key.ofText_eq_index.2 ⟨rfl, hstray.1⟩
        left
        rw [Key.text, hindex, isEnumerable_index]
        exact ⟨hk, hstray.2⟩
  · rintro (ht | ⟨i, hstray, rfl⟩)
    · obtain ⟨i, -, rfl, hkey⟩ | ⟨-, hkey⟩ := Key.ofText_cases t
      · rw [hkey, isEnumerable_index] at ht
        exact List.mem_map_of_mem ht.1
      · rw [hkey, isEnumerable_name] at ht
        exact List.mem_map_of_mem ht
    · exact List.mem_map_of_mem hstray.1

/-- No name is listed twice, unless an index past the greatest one is spelled like a name. -/
theorem nodup_ownNames_iff (h : s.Keyed) : (s.ownNames o).Nodup ↔
    ∀ i, Key.maxIndex < i → .index i ∈ s.ownKeys o true → .name (Text.ofNat i) ∉ s.ownKeys o true := by
  obtain ⟨hnodup, hproper⟩ := h.ownKeys o
  rw [ownNames, List.nodup_map_iff_inj_on hnodup, Key.text_injOn_iff]
  constructor
  · intro hfree i _ hi
    exact hfree i hi
  · intro hfree i hi hname
    by_cases hpast : Key.maxIndex < i
    · exact hfree i hpast hi hname
    · -- Up to the greatest index the text denotes the index.
      have hindex : Key.ofText (Text.ofNat i) = .index i := Key.ofText_eq_index.2 ⟨rfl, Nat.le_of_not_lt hpast⟩
      rw [hproper _ hname] at hindex
      cases hindex

end Keyed

end Store

/-! ## The two functions -/

section Functions

variable {limits : Limits} {bound : Nat} {handler : Handler} {s t : State} {o : ObjectId} {call : Invocation}

theorem ObjectFn.run_keys (hcall : call.arg 0 = .obj o) (hroom : (s.store.ownNames o).length ≤ Frame.mostElements) :
    (keys.invoke call).run limits bound handler s =
      (.ok (.obj s.store.objects.size), s.withArray (some Realm.arrayPrototype) ((s.store.ownNames o).map .str)) := by
  have hkeys : (keys.invoke call).run limits bound handler s =
      (newArray ((s.store.ownNames o).map .str)).run limits bound handler s := by
    rw [invoke, hcall, Store.ownNames, List.map_map]
    rfl
  rw [hkeys, run_newArray (by rwa [List.length_map])]

theorem ObjectFn.run_propertyIsEnumerable (hthis : call.this = .obj o) {k : Key}
    (hk : (toKey (call.arg 0)).run limits bound handler s = (.ok k, t)) :
    (propertyIsEnumerable.invoke call).run limits bound handler s =
      (.ok (.bool (isEnumerable t.store o k)), t) := by
  rw [invoke, hthis]
  exact run_then rfl (run_then hk rfl)

end Functions

/-- In every state between the pieces of work for a host and during them, for every object: `keys` returns a new array
of the listed names, for which there has to be room; `propertyIsEnumerable` answers for the text that its argument
stands for; a text is listed exactly if it is enumerable or that of a stray index; and no name is listed twice, unless
it is that of an index past the greatest one and of another property as well. -/
theorem Engine.Working.keys_enumerable {s : State} (h : Working s) (o : ObjectId) (limits : Limits) (bound : Nat)
    (handler : Handler) :
    (∀ call : Invocation, call.arg 0 = .obj o → (s.store.ownNames o).length ≤ Frame.mostElements →
      (ObjectFn.keys.invoke call).run limits bound handler s =
        (.ok (.obj s.store.objects.size),
          s.withArray (some Realm.arrayPrototype) ((s.store.ownNames o).map .str))) ∧
    (∀ (call : Invocation) (t : Text), call.this = .obj o →
      (toKey (call.arg 0)).run limits bound handler s = (.ok (.ofText t), s) →
      (ObjectFn.propertyIsEnumerable.invoke call).run limits bound handler s =
        (.ok (.bool (ObjectFn.isEnumerable s.store o (.ofText t))), s)) ∧
    (∀ t, t ∈ s.store.ownNames o ↔
      ObjectFn.isEnumerable s.store o (.ofText t) ∨ ∃ i, s.store.Stray o i ∧ t = Text.ofNat i) ∧
    ((s.store.ownNames o).Nodup ↔ ∀ i, Key.maxIndex < i →
      .index i ∈ s.store.ownKeys o true → .name (Text.ofNat i) ∉ s.store.ownKeys o true) := by
  refine ⟨?_, ?_, ?_, h.keyed.nodup_ownNames_iff⟩
  · intro call hcall hroom
    exact ObjectFn.run_keys hcall hroom
  · intro call t hthis hkey
    exact ObjectFn.run_propertyIsEnumerable hthis hkey
  · intro t
    exact h.keyed.mem_ownNames

/-- The host has constructed a string, with the built-in constructor. Its second character is listed because
`propertyIsEnumerable` says so. -/
theorem Engine.Working.keys_enumerable_string :
    let constructor : ObjectId := 51
    let work : Proc Value := Proc.request (.construct constructor none [.str "ab"])
    let s := ((Engine.new {} {} []).run work).2.state
    let o := (Engine.new {} {} []).store.objects.size
    (ObjectFn.propertyIsEnumerable.invoke ⟨none, .obj o, [.str "1"]⟩).run {} 5 (answer {} 5 5 5) s =
      (.ok (.bool true), s) ∧ Text.ofString "1" ∈ s.store.ownNames o := by
  intro constructor work s o
  have hworking : Working s := .between (.worked (.new {} {} [] _) (.request _ nofun))
  obtain ⟨-, henumerable, hmem, -⟩ := keys_enumerable hworking o {} 5 (answer {} 5 5 5)
  have htrue : ObjectFn.isEnumerable s.store o (.ofText "1") = true := by decide +kernel
  refine ⟨?_, (hmem "1").2 (.inl htrue)⟩
  rw [henumerable ⟨none, .obj o, [.str "1"]⟩ "1" rfl rfl, htrue]

/-- The program `var s = new String('abc'); s[5] = 'x'; var k = Object.keys(s)[3]; k + s.propertyIsEnumerable(k)`. -/
def pastCharacters : Program :=
  let method (object : Expr) (name : Text) (args : List Expr) : Expr :=
    .call (.member object (.literal (.str name))) args
  let listed : Expr := .member (method (.ident "Object") "keys" [.ident "s"]) (.literal (.num 3.0))
  [.var [("s", some (.new (.ident "String") [.literal (.str "abc")]))],
    .expr (.assign none (.member (.ident "s") (.literal (.num 5.0))) (.literal (.str "x"))),
    .var [("k", some listed)],
    .expr (.binary .add (.ident "k") (method (.ident "s") "propertyIsEnumerable" [.ident "k"]))]

/-- A property of a string at an index past its characters is listed, and `propertyIsEnumerable` denies it. -/
theorem keys_not_enumerable :
    let work : Proc Value := Engine.newDesk >>= fun d => runProgram d.scope d.runner pastCharacters
    ((Engine.new {} {} []).run work).1.gives (·.identical (.str "5false")) := by
  decide +kernel

end ScriptEngine
