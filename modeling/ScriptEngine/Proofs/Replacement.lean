import ScriptEngine.Proofs.Stepping

/-!
# Replacement

What stands for the matches of a pattern is given by a template, in which a dollar sign has a meaning, or by a
function, whose answer is taken as it is. A text gets through a template unharmed if all its dollar signs are doubled.
So both ways to replace every match by the same text come to the same: the pieces of the string around the matches,
with this text between them.

## Main definitions

* `Text.doubled`: a text with its dollar signs doubled.
* `Strings.Matched`: the matches that are replaced, for the patterns that can be used.
* `Strings.Returns`: calls that all return the same text.

## Main results

* `Template.expand_doubled`, `Template.expand_match`: what a template of doubled dollar signs stands for, and one that
  is the match.
* `Strings.Matched.run_hitsOf`, `Strings.Matched.inOrder`: the matches are found, and follow one another.
* `Strings.replace_doubled`: both ways to replace all matches by one text.
-/

namespace ScriptEngine

/-- A text with its dollar signs doubled. -/
def Text.doubled (r : Text) : Text := r.flatMap fun c => if c = 36 then [36, 36] else [c]

namespace Template

/-- Doubled dollar signs stand for single ones, wherever they are. -/
theorem expand_doubled (t : Text) (h : Hit) (r : Text) : expand t h (Text.doubled r) = r := by
  induction r with
  | nil => rfl
  | cons c rest ih =>
    by_cases hc : c = 36
    · subst hc
      have hcons : Text.doubled (36 :: rest) = 36 :: 36 :: Text.doubled rest := rfl
      rw [hcons, expand.eq_def]
      simp [ih]
    · have hcons : Text.doubled (c :: rest) = c :: Text.doubled rest := by simp [Text.doubled, hc]
      rw [hcons, expand.eq_def]
      simp [hc, ih]

/-- A dollar sign with an ampersand stands for the match. -/
theorem expand_match (t : Text) (h : Hit) : expand t h "$&" = h.text := by
  change expand t h [36, 38] = h.text
  simp [expand]

end Template

namespace Strings

open Proc

variable {limits : Limits} {bound : Nat} {handler : Handler} {s u w : State} {t r : Text} {pattern : Value}
  {hits : List Hit} {f : ObjectId} {invoker : Option FrameId}

/-! ## Matches that are replaced -/

/-- The matches that are replaced in a string, and the state once they are found: the first occurrence of a text, the
first match of a pattern that is not global, or all matches of one that is global and not sealed. -/
inductive Matched (t : Text) (s : State) : Value → List Hit → State → Prop
  | text (needle : Text) :
      Matched t s (.str needle)
        ((Text.indexOf? needle t).map fun i => (⟨i, i + needle.length, needle, []⟩ : Hit)).toList s
  | first {p : PatternRef} {c : Compiled} (hbody : s.store.body p.object = .regexp p.source p.flags)
      (hfirst : p.isGlobal = false) (hc : p.Reads c) :
      Matched t s (.obj p.object) (c.find t 0 false).toList s
  | all {p : PatternRef} {c : Compiled} (hbody : s.store.body p.object = .regexp p.source p.flags)
      (hglobal : p.isGlobal) (hopen : (s.store.frame (s.store.propsOf p.object)).sealed = false) (hc : p.Reads c) :
      Matched t s (.obj p.object) (Hits.collect (c.find t) t.length)
        (s.changed p.object (·.write Key.lastIndex (.ofNat 0)))

namespace Matched

theorem run_hitsOf (h : Matched t s pattern hits u) :
    (hitsOf t pattern).run limits bound handler s = (.ok hits, u) := by
  cases h with
  | text needle => exact run_then (run_read _ s) (run_then (run_pure needle s) rfl)
  | @first p c hbody hfirst hc =>
    refine run_then (PatternRef.run_of? hbody) ?_
    simp only [hc.compile]
    refine run_then (run_pure c s) ?_
    rw [if_neg (by simp [hfirst])]
    rfl
  | @all p c hbody hglobal hopen hc =>
    refine run_then (PatternRef.run_of? hbody) ?_
    simp only [hc.compile]
    refine run_then (run_pure c s) ?_
    rw [if_pos hglobal]
    exact run_then (PatternRef.run_setLastIndex hopen 0) rfl

/-- The matches lie in the string and follow one another. -/
theorem inOrder (h : Matched t s pattern hits u) : Hits.InOrder t 0 hits := by
  cases h with
  | text needle =>
    cases hfirst : Text.indexOf? needle t with
    | none => trivial
    | some i =>
      obtain ⟨hi, hhere, -⟩ := Text.indexOf?_eq_some_iff.1 hfirst
      have hlength := hhere.length_le
      rw [List.length_drop] at hlength
      refine ⟨⟨Nat.zero_le i, Nat.le_add_right _ _, by simp only; omega, ?_⟩, trivial⟩
      rw [Text.slice, List.drop_take, Nat.add_sub_cancel_left]
      exact List.prefix_iff_eq_take.1 hhere
  | @first p c hbody hfirst hc =>
    cases hfind : c.find t 0 false with
    | none => trivial
    | some h => exact ⟨Compiled.within_find hfind, trivial⟩
  | @all p c hbody hglobal hopen hc => exact Hits.inOrder_collect c t

end Matched

/-! ## Functions that return a text -/

/-- What a function is given for a match. -/
def callbackArgs (t : Text) (h : Hit) : List Value :=
  .str h.text :: PatternRef.groupValues h ++ [.ofNat h.start, .str t]

/-- Calls of a function, one for each of some matches, that all return the same text; other than that they may do
anything. -/
inductive Returns (call : List Value → Course Value) (t r : Text) : List Hit → State → State → Prop
  | done {s : State} : Returns call t r [] s s
  | next {s u w : State} {h : Hit} {hits : List Hit} (hcall : call (callbackArgs t h) s = (.ok (.str r), u))
      (hrest : Returns call t r hits u w) : Returns call t r (h :: hits) s w

/-- A function that always returns the same text, and leaves everything else alone. -/
theorem Returns.of_forall {call : List Value → Course Value} (h : ∀ args, call args s = (.ok (.str r), s))
    (hits : List Hit) : Returns call t r hits s s := by
  induction hits with
  | nil => exact .done
  | cons hit rest ih => exact .next (h _) ih

/-- The calls go through the list of the matches. -/
theorem Returns.run_map
    (h : Returns (fun args => (call f invoker .undefined args).run limits bound handler) t r hits s u) :
    (Proc.map (replacementBy f invoker t) hits).run limits bound handler s = (.ok (hits.map fun h => (h, r)), u) := by
  have hloop (acc : List (Hit × Text)) :
      (Proc.mapLoop (replacementBy f invoker t) acc hits).run limits bound handler s =
        (.ok (acc.reverse ++ hits.map fun h => (h, r)), u) := by
    induction h generalizing acc with
    | done => simp [Proc.mapLoop]
    | @next s u w h hits hcall hrest ih =>
      have hround : (replacementBy f invoker t h).run limits bound handler s = (.ok (h, r), u) :=
        run_then hcall (run_then (run_pure r u) rfl)
      refine run_then hround ((ih _).trans ?_)
      simp
  exact hloop []

/-! ## Both ways -/

/-- A template that is a text. -/
theorem run_replace_template (hmatched : Matched t s pattern hits u) (template : Text) :
    (StringFn.replace.invoke ⟨invoker, .str t, [pattern, .str template]⟩).run limits bound handler s =
      (.ok (.str (Hits.assemble t 0 (hits.map fun h => (h, Template.expand t h template)))), u) := by
  refine run_then (run_pure t s) (run_then hmatched.run_hitsOf ?_)
  cases hits with
  | nil => rfl
  | cons h hits => exact run_then (run_read _ u) (run_then (run_pure template u) rfl)

/-- A function that returns the same text for all matches. -/
theorem run_replace_function (hmatched : Matched t s pattern hits u) (hf : (u.store.body f).isCallable)
    (hreturns : Returns (fun args => (call f invoker .undefined args).run limits bound handler) t r hits u w) :
    (StringFn.replace.invoke ⟨invoker, .str t, [pattern, .obj f]⟩).run limits bound handler s =
      (.ok (.str (Hits.assemble t 0 (hits.map fun h => (h, r)))), w) := by
  refine run_then (run_pure t s) (run_then hmatched.run_hitsOf ?_)
  cases hits with
  | nil =>
    cases hreturns
    rfl
  | cons h hits => exact run_then (run_callable? hf) (run_then hreturns.run_map rfl)

/-- To replace the matches by a text with doubled dollar signs, and by a function that returns the text itself, comes to
the same: the pieces of the string around the matches, with the text between them. To replace every match by itself
changes nothing. A pattern may be a text, or a regular expression that can be read, global or not, but a global one must
not be sealed. -/
theorem replace_doubled (hmatched : Matched t s pattern hits u) (r : Text) (hf : (u.store.body f).isCallable)
    (hreturns : Returns (fun args => (call f invoker .undefined args).run limits bound handler) t r hits u w) :
    let replace (replacement : Value) :=
      (StringFn.replace.invoke ⟨invoker, .str t, [pattern, replacement]⟩).run limits bound handler s
    let pieces := Hits.pieces t 0 hits
    Hits.Parted 0 t hits pieces ∧
      replace (.str (Text.doubled r)) = (.ok (.str (Text.joinWith r pieces)), u) ∧
      replace (.obj f) = (.ok (.str (Text.joinWith r pieces)), w) ∧
      replace (.str "$&") = (.ok (.str t), u) := by
  intro replace pieces
  have horder := hmatched.inOrder
  have hdoubled : replace (.str (Text.doubled r)) = _ := run_replace_template hmatched _
  have hfunction : replace (.obj f) = _ := run_replace_function hmatched hf hreturns
  have hmatch : replace (.str "$&") = _ := run_replace_template hmatched _
  simp only [Template.expand_doubled, Template.expand_match, Hits.assemble_const, horder.assemble_text]
    at hdoubled hfunction hmatch
  exact ⟨horder.parted, hdoubled, hfunction, hmatch⟩

/-- An engine with a function that always returns the same text, and with a global pattern that has a group. -/
def constantFunction : Engine :=
  let props : Frame := { parent := some 1, entries := [(Key.lastIndex, .ofNat 2)] }
  let objects := #[{ props := 1 },
    { proto := some 0, props := 1, body := .function "String" (.native (.string .construct)) },
    { proto := some 0, props := 1, body := .function [] (.bound 1 .undefined [.str "$1$"]) },
    { proto := some 0, props := 2, body := .regexp "(b)|c?" "g" }]
  { state := { store := { frames := #[{ role := .core }, {}, props], objects } } }

/-- Dollar signs that are not doubled would stand for groups. Two of the matches are empty. -/
theorem replace_doubled_group :
    let e := constantFunction
    let replace (replacement : Value) :=
      (StringFn.replace.invoke ⟨none, .str "abc", [.obj 3, replacement]⟩).run {} 2 (answer {} 2 2 1) e.state
    ∃ hits u, Matched "abc" e.state (.obj 3) hits u ∧ (u.store.body 2).isCallable ∧
      Returns (fun args => (call 2 none .undefined args).run {} 2 (answer {} 2 2 1)) "abc" "$1$" hits u u ∧
      replace (.str "$$1$$") = (.ok (.str "$1$a$1$$1$$1$"), u) ∧
      replace (.obj 2) = (.ok (.str "$1$a$1$$1$$1$"), u) ∧ replace (.str "$&") = (.ok (.str "abc"), u) := by
  intro e replace
  let test (c : Compiled) : Bool :=
    Text.joinWith "$1$" (Hits.pieces "abc" 0 (Hits.collect (c.find "abc") 3)) = "$1$a$1$$1$$1$"
  have hread : PatternRef.readsAs "(b)|c?" "g" test := by decide +kernel
  obtain ⟨c, hc, htest⟩ := PatternRef.exists_reads 3 test hread
  have htext := of_decide_eq_true htest
  let hits := Hits.collect (c.find "abc") 3
  let u := e.state.changed 3 (·.write Key.lastIndex (.ofNat 0))
  have hmatched : Matched "abc" e.state (.obj 3) hits u := .all (p := ⟨3, "(b)|c?", "g"⟩) rfl rfl rfl hc
  have hcall (args : List Value) : (call 2 none .undefined args).run {} 2 (answer {} 2 2 1) u = (.ok (.str "$1$"), u) :=
    rfl
  have hreturns : Returns (fun args => (call 2 none .undefined args).run {} 2 (answer {} 2 2 1)) "abc" "$1$" hits u u :=
    .of_forall hcall hits
  obtain ⟨-, hdoubled, hfunction, hmatch⟩ := replace_doubled hmatched "$1$" rfl hreturns
  rw [htext] at hdoubled hfunction
  exact ⟨hits, u, hmatched, rfl, hreturns, hdoubled, hfunction, hmatch⟩

/-- A global pattern that is sealed is refused, even if no match is to be replaced: the answer is not the string. -/
theorem replace_refused_sealed :
    let p : PatternRef := ⟨1, "a", "g"⟩
    let e := PatternRef.sealedPattern
    e.store.body 1 = .regexp p.source p.flags ∧ p.isGlobal ∧ (∃ c, p.Reads c ∧ (Hits.collect (c.find "b") 1).isEmpty) ∧
      (e.run (StringFn.replace.invoke ⟨none, .str "b", [.obj 1, .str "$&"]⟩)).1.isRefused := by
  exact ⟨rfl, rfl, PatternRef.exists_reads 1 _ (by decide +kernel), by decide +kernel⟩

end Strings

end ScriptEngine
