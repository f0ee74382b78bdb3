import ScriptEngine.Proofs.Conduct

/-!
# The conduct of built-in functions

Conversions, operators and built-in functions keep to every licence: what they write goes to the properties of
objects, and they call functions from the scope of their own caller or from no scope at all. Only an error
constructor makes reference errors. The built-in functions that run source text are left to
where programs are treated.

## Main results

* `Proc.tame_toText` and its like: conversions.
* `Sorting.tame_sort`: sorting by a comparison that is tame.
* `ArrayFn.tame_invoke` and its like: the families of built-in functions.
-/

namespace ScriptEngine

variable {α β : Type} {L : Licence} {scope : Option FrameId}

/-! ## Conversions -/

namespace Proc

theorem tame_callable? (v : Value) : (callable? v).Tame L scope := .read _

theorem tame_body (o : ObjectId) : (body o).Tame L scope := .read _

theorem tame_typeOf (v : Value) : (typeOf v).Tame L scope := .read _

theorem tame_newArray (items : List Value) : (newArray items).Tame L scope :=
  .bind (.perform fun _ => trivial) fun _ => .pure _

theorem tame_newObject : newObject.Tame L scope := .perform fun _ => trivial

/-- The methods that turn an object into a primitive value are called from no scope. -/
theorem tame_primitiveBy (o : ObjectId) (keys : List Key) : (primitiveBy o keys).Tame L scope := by
  induction keys with
  | nil => exact .pure _
  | cons k rest ih =>
      refine .bind (.read _) fun v => .bind (tame_callable? v) fun f => ?_
      cases f with
      | none => exact ih
      | some f =>
          refine .bind (.callAlone f _ _) fun v => ?_
          split
          · exact ih
          · exact .pure v

theorem tame_primitive (o : ObjectId) (hint : Hint) : (primitive o hint).Tame L scope := by
  refine .bind (tame_body o) fun b => ?_
  split
  · exact .pure _
  · exact .pure _
  · exact .pure _
  · split
    · exact .pure _
    · exact .bind (.read _) fun _ => .pure _
  · exact tame_primitiveBy o _

theorem tame_toPrimitive (v : Value) (hint : Hint) : (toPrimitive v hint).Tame L scope := by
  cases v with
  | obj o => exact tame_primitive o hint
  | _ => exact .pure _

theorem tame_primitiveToNumber (v : Value) : (primitiveToNumber v).Tame L scope := by
  cases v with
  | str t =>
      simp only [primitiveToNumber, textToNumber]
      split
      · exact .pure _
      · exact .fault (by simp)
  | _ => exact .pure _

theorem tame_toNumber (v : Value) : (toNumber v).Tame L scope :=
  (tame_toPrimitive v .number).bind tame_primitiveToNumber

theorem tame_toInteger (v : Value) : (toInteger v).Tame L scope := (tame_toNumber v).bind fun _ => .pure _

theorem tame_toUint32 (v : Value) : (toUint32 v).Tame L scope := (tame_toNumber v).bind fun _ => .pure _

theorem tame_toInt32 (v : Value) : (toInt32 v).Tame L scope := (tame_toNumber v).bind fun _ => .pure _

theorem tame_primitiveToText (v : Value) : (primitiveToText v).Tame L scope := by
  cases v with
  | obj o => exact .bind (tame_body o) fun _ => .pure _
  | _ => exact .pure _

theorem tame_toText (v : Value) : (toText v).Tame L scope :=
  (tame_toPrimitive v .string).bind tame_primitiveToText

theorem proper_of_indexKey? {x : Float} {k : Key} (h : indexKey? x = some k) : k.Proper := by
  unfold indexKey? at h
  split at h
  · split at h <;> cases h
    trivial
  · cases h

/-- A key that a value is converted to is denoted by a text. -/
theorem meets_toKey (v : Value) : (toKey v).Meets L scope fun _ k => k.Proper := by
  unfold toKey
  split
  · split
    · rename_i hk
      exact .pure fun _ _ _ => proper_of_indexKey? hk
    · exact .pure fun _ _ _ => Key.proper_ofText _
  · exact (tame_toText v).next fun _ => .pure fun _ _ _ => Key.proper_ofText _

theorem tame_toKey (v : Value) : (toKey v).Tame L scope := (meets_toKey v).tame

theorem tame_toObjectValue (v : Value) : (toObjectValue v).Tame L scope := by
  cases v with
  | undefined => exact .typeError _
  | null => exact .typeError _
  | bool b => exact .bind (.perform fun _ => trivial) fun _ => .pure _
  | num x => exact .bind (.perform fun _ => trivial) fun _ => .pure _
  | str t => exact .bind (.perform fun _ => trivial) fun _ => .pure _
  | obj o => exact .pure _
  | frame f => exact .pure _

theorem tame_toObject (v : Value) : (toObject v).Tame L scope := by
  refine .bind (tame_toObjectValue v) fun w => ?_
  split
  · exact .pure _
  · exact tame_newObject

theorem tame_listFrom (v : Value) : (listFrom v).Tame L scope := by
  unfold listFrom
  split
  · exact .pure _
  · split
    · refine .bind (tame_body _) fun b => ?_
      split
      · exact .read _
      · exact .bind (.read _) fun _ => .bind (tame_toUint32 _) fun _ => .read _
    · exact .typeError _

theorem tame_relativeIndex (v : Value) (length default : Nat) : (relativeIndex v length default).Tame L scope := by
  unfold relativeIndex
  split
  · exact .pure _
  · refine .bind (tame_toNumber v) fun x => ?_
    split <;> exact .pure _

theorem tame_boundedIndex (v : Value) (most : Nat) : (boundedIndex v most).Tame L scope := by
  refine .bind (tame_toNumber v) fun x => ?_
  split <;> exact .pure _

/-- A property goes to the frame of its object, which is not that of the built-in names, unless it is fixed. -/
theorem tame_putProperty (o : ObjectId) {k : Key} (hk : k.Proper) (v : Value) :
    (putProperty o k v).Tame L scope := by
  intro s hs hscope
  refine behaves_read.2 ?_
  split
  · trivial
  · rename_i hfree
    split
    · have hresize : (toInteger v >>= fun n => do
          perform (.resize (← read (·.propsOf o)) (lengthOf n))).Tame L scope :=
        .bind (tame_toInteger v) fun n => .propsOf o fun f hf => .perform fun _ => hf
      exact hresize s hs hscope
    · have htakes := Store.takes_propsOf hk (Bool.eq_false_iff.2 hfree)
      exact ⟨⟨fun he => absurd he (hs.props o), htakes⟩, fun _ _ _ _ => trivial⟩

theorem tame_notCallable (invoker : Option FrameId) (v : Value) (name : Text) :
    (notCallable invoker v name : Proc α).Tame L scope := by
  unfold notCallable
  extract_lets rest
  have hrest (what : Text) : (rest what).Tame L scope := by
    refine .bind (.read _) fun attached => ?_
    split
    · exact .typeError _
    · exact .throw _
  split
  · exact .bind (tame_typeOf v) hrest
  · exact .bind (.pure _) hrest

end Proc

open Proc

/-! ## Operators -/

namespace Operator

variable {a b : Operand}

theorem tame_add (ha : a.Tame L scope) (hb : b.Tame L scope) : (add a b).Tame L scope := by
  refine .bind ha fun x => .bind (tame_toPrimitive x .none) fun x => .bind hb fun y =>
    .bind (tame_toPrimitive y .none) fun y => ?_
  split
  · exact .bind (tame_toText _) fun _ => .bind (tame_toText _) fun _ => .pure _
  · exact .bind (tame_toText _) fun _ => .bind (tame_toText _) fun _ => .pure _
  · exact .bind (tame_toNumber _) fun _ => .bind (tame_toNumber _) fun _ => .pure _

theorem tame_number (ha : a.Tame L scope) : (number a).Tame L scope := ha.bind tame_toNumber

theorem tame_arithmetic (f : Float → Float → Float) (ha : a.Tame L scope) (hb : b.Tame L scope) :
    (arithmetic f a b).Tame L scope := (tame_number ha).bind fun _ => (tame_number hb).bind fun _ => .pure _

theorem tame_ordering (p : Float → Bool) (ha : a.Tame L scope) (hb : b.Tame L scope) :
    (ordering p a b).Tame L scope := (tame_number ha).bind fun _ => (tame_number hb).bind fun _ => .pure _

theorem tame_primitiveEqual (v w : Value) : (primitiveEqual v w).Tame L scope := by
  unfold primitiveEqual
  split
  · exact .pure _
  · split
    · exact .pure _
    · exact .bind (tame_primitiveToNumber v) fun _ => .bind (tame_primitiveToNumber w) fun _ => .pure _

theorem tame_looseEqual (v w : Value) : (looseEqual v w).Tame L scope := by
  unfold looseEqual
  split
  · exact .pure _
  split
  · exact .pure _
  split
  · refine .bind (tame_toPrimitive v .none) fun p => ?_
    split
    · exact .pure _
    · exact tame_primitiveEqual p w
  split
  · refine .bind (tame_toPrimitive w .none) fun p => ?_
    split
    · exact .pure _
    · exact tame_primitiveEqual v p
  · exact tame_primitiveEqual v w

theorem tame_comparison {f : Value → Value → Proc Bool} (hf : ∀ v w, (f v w).Tame L scope) (ha : a.Tame L scope)
    (hb : b.Tame L scope) : (comparison f a b).Tame L scope :=
  ha.bind fun v => hb.bind fun w => (hf v w).bind fun _ => .pure _

theorem tame_apply (op : BinaryOp) (ha : a.Tame L scope) (hb : b.Tame L scope) : (apply op a b).Tame L scope := by
  cases op with
  | add => exact tame_add ha hb
  | less =>
      rw [apply]
      exact tame_ordering _ ha hb
  | greater =>
      rw [apply]
      exact tame_ordering _ ha hb
  | lessEq =>
      rw [apply]
      exact tame_ordering _ ha hb
  | greaterEq =>
      rw [apply]
      exact tame_ordering _ ha hb
  | equal => exact tame_comparison tame_looseEqual ha hb
  | notEqual => exact tame_comparison (fun v w => (tame_looseEqual v w).bind fun _ => .pure _) ha hb
  | identical => exact tame_comparison (fun _ _ => .pure _) ha hb
  | notIdentical => exact tame_comparison (fun _ _ => .pure _) ha hb
  | elementOf => exact .pure _
  | instanceOf => exact .pure _
  | _ => exact tame_arithmetic _ ha hb

theorem tame_applyUnary (op : UnaryOp) (ha : a.Tame L scope) : (applyUnary op a).Tame L scope := by
  cases op with
  | minus => exact (tame_number ha).bind fun _ => .pure _
  | plus => exact (tame_number ha).bind fun _ => .pure _
  | not => exact ha.bind fun _ => .pure _
  | bitNot => exact (tame_number ha).bind fun _ => .pure _
  | typeOf => exact ha.bind fun v => .bind (tame_typeOf v) fun _ => .pure _
  | void => exact ha.bind fun _ => .pure _
  | delete => exact ha.bind fun _ => .pure _

end Operator

/-! ## Sorting -/

namespace Sorting

variable {lt : Before α} (hlt : ∀ x y, (lt x y).Tame L scope)

section Comparison

include hlt

theorem tame_insertionPoint (items : Array α) (x : α) (lo hi : Nat) :
    (insertionPoint lt items x lo hi).Tame L scope := by
  fun_induction insertionPoint lt items x lo hi with
  | case1 => exact .pure _
  | case2 lo hi h mid y hy ih₁ ih₂ =>
      refine .bind (hlt x y) fun before => ?_
      split
      · exact ih₁
      · exact ih₂
  | case3 => exact .pure _

theorem tame_insertionSort (sorted items : List α) : (insertionSort lt sorted items).Tame L scope := by
  induction items generalizing sorted with
  | nil => exact .pure _
  | cons x rest ih => exact .bind (tame_insertionPoint hlt _ x _ _) fun n => ih _

theorem tame_runRest (descending : Bool) (n : Nat) (x : α) (items : List α) :
    (runRest lt descending n x items).Tame L scope := by
  induction items generalizing n x with
  | nil => exact .pure _
  | cons y rest ih =>
      refine .bind (hlt y x) fun before => ?_
      split
      · exact ih _ _
      · exact .pure _

theorem tame_takeRun (items : List α) : (takeRun lt items).Tame L scope := by
  unfold takeRun
  split
  · exact .pure _
  · exact .pure _
  · exact .bind (hlt _ _) fun descending => .bind (tame_runRest hlt _ _ _ _) fun n => .pure _

end Comparison

/-- Steps of growing length along a list, for any test that is tame. -/
theorem tame_gallop {p : α → Proc Bool} (hp : ∀ x, (p x).Tame L scope) (items : Array α) (fuel last next : Nat) :
    (gallop p items fuel last next).Tame L scope := by
  induction fuel generalizing last next with
  | zero => exact .pure _
  | succ fuel ih =>
      unfold gallop
      split
      · exact .pure _
      · refine .bind (hp _) fun more => ?_
        split
        · exact ih _ _
        · exact .pure _

theorem tame_narrow {p : α → Proc Bool} (hp : ∀ x, (p x).Tame L scope) (early : Nat) (items : Array α)
    (lo hi : Nat) : (narrow p early items lo hi).Tame L scope := by
  fun_induction narrow p early items lo hi with
  | case1 => exact .pure _
  | case2 lo hi h mid x hx ih₁ ih₂ =>
      refine .bind (hp x) fun more => ?_
      split
      · exact ih₁
      · exact ih₂
  | case3 => exact .pure _

theorem tame_prefixCount {p : α → Proc Bool} (hp : ∀ x, (p x).Tame L scope) (early : Nat) (items : List α) :
    (prefixCount p early items).Tame L scope := by
  unfold prefixCount
  split
  · exact .pure _
  · refine .bind (hp _) fun more => ?_
    split
    · exact .bind (tame_gallop hp _ _ _ _) fun r => tame_narrow hp early _ _ _
    · exact .pure _

section Merging

variable {side : Side α} (hside : ∀ y x, (side.takesY y x).Tame L scope)
include hside

theorem tame_headToHead (fuel winsX winsY : Nat) (m : Merge α) :
    (headToHead side fuel winsX winsY m).Tame L scope := by
  induction fuel generalizing winsX winsY m with
  | zero => exact .pure _
  | succ fuel ih =>
      unfold headToHead
      split
      · exact .pure _
      split
      · exact .pure _
      split
      · refine .bind (hside _ _) fun y => ?_
        split
        · exact ih _ _ _
        · exact ih _ _ _
      · exact .pure _

theorem tame_leadX (m : Merge α) : (leadX side m).Tame L scope := by
  unfold leadX
  split
  · exact .pure _
  · exact tame_prefixCount (fun x => (hside _ x).bind fun _ => .pure _) _ _

theorem tame_leadY (m : Merge α) : (leadY side m).Tame L scope := by
  unfold leadY
  split
  · exact .pure _
  · exact tame_prefixCount (fun y => hside y _) _ _

theorem tame_galloping (fuel : Nat) (m : Merge α) : (galloping side fuel m).Tame L scope := by
  induction fuel generalizing m with
  | zero => exact .pure _
  | succ fuel ih =>
      unfold galloping
      refine .ite (.bind (tame_leadX hside _) fun a => .ite (.pure _) (.ite (.pure _) ?_))
        (.bind (tame_leadY hside _) fun a => .ite (.pure _) (.ite (.pure _) ?_))
      · exact .bind (tame_leadY hside _) fun b => .ite (.pure _) (.ite (.pure _) (.ite (ih _) (.pure _)))
      · exact .bind (tame_leadX hside _) fun b => .ite (.pure _) (.ite (.pure _) (.ite (ih _) (.pure _)))

theorem tame_mergeLoop (fuel : Nat) (m : Merge α) : (mergeLoop side fuel m).Tame L scope := by
  induction fuel generalizing m with
  | zero => exact .pure _
  | succ fuel ih =>
      unfold mergeLoop
      split
      · exact .pure _
      refine .bind (tame_headToHead hside _ _ _ _) fun m => ?_
      split
      · exact .pure _
      · exact .bind (tame_galloping hside _ _) fun m => ih m

theorem tame_mergeFrom (threshold : Nat) (xs ys : List α) : (mergeFrom side threshold xs ys).Tame L scope :=
  .bind (tame_mergeLoop hside _ _) fun _ => .pure _

end Merging

section Comparison

include hlt

theorem tame_merge (threshold : Nat) (a b : List α) : (merge lt threshold a b).Tame L scope := by
  unfold merge
  split
  · exact .pure _
  · refine .bind (tame_prefixCount (fun x => (hlt _ x).bind fun _ => .pure _) _ _) fun k => ?_
    split
    · exact .pure _
    · refine .bind (tame_prefixCount (fun y => (hlt y _).bind fun _ => .pure _) _ _) fun r => ?_
      refine .ite (.pure _) (.ite ?_ ?_)
      · exact .bind (tame_mergeFrom hlt _ _ _) fun _ => .pure _
      · exact .bind (tame_mergeFrom (fun y x => hlt x y) _ _ _) fun _ => .pure _

theorem tame_collapse (power fuel : Nat) (stack : List (Run α)) (threshold : Nat) :
    (collapse lt power fuel stack threshold).Tame L scope := by
  fun_induction collapse lt power fuel stack threshold with
  | case1 => exact .pure _
  | case2 fuel top below rest threshold h ih =>
      exact .bind (tame_merge hlt _ _ _) fun (items, threshold) => ih items threshold
  | case3 => exact .pure _
  | case4 => exact .pure _
  | case5 => exact .pure _

theorem tame_addRun (total : Nat) (stack : List (Run α)) (threshold : Nat) (items : List α) :
    (addRun lt total stack threshold items).Tame L scope := by
  unfold addRun
  split
  · exact .pure _
  · exact .bind (tame_collapse hlt _ _ _ _) fun _ => .pure _

theorem tame_mergeAll (fuel : Nat) (stack : List (Run α)) (threshold : Nat) :
    (mergeAll lt fuel stack threshold).Tame L scope := by
  fun_induction mergeAll lt fuel stack threshold with
  | case1 fuel c b a rest threshold h ih =>
      exact .bind (tame_merge hlt _ _ _) fun (items, threshold) => ih items threshold
  | case2 fuel c b a rest threshold h ih =>
      exact .bind (tame_merge hlt _ _ _) fun (items, threshold) => ih items threshold
  | case3 => exact .bind (tame_merge hlt _ _ _) fun _ => .pure _
  | case4 => exact .pure _

theorem tame_sortRuns (total least fuel : Nat) (stack : List (Run α)) (threshold : Nat) (items : List α) :
    (sortRuns lt total least fuel stack threshold items).Tame L scope := by
  fun_induction sortRuns lt total least fuel stack threshold items with
  | case1 fuel stack threshold x rest ih =>
      exact .bind (tame_takeRun hlt _) fun (run, rest) => .bind (tame_insertionSort hlt _ _) fun _ =>
        .bind (tame_addRun hlt _ _ _ _) fun (stack, threshold) => ih run rest stack threshold
  | case2 => exact .bind (tame_mergeAll hlt _ _ _) fun _ => .pure _

/-- Sorting does what its comparison does. -/
theorem tame_sort (items : List α) : (sort lt items).Tame L scope := tame_sortRuns hlt _ _ _ _ _ _

end Comparison

end Sorting

/-! ## Arrays -/

namespace Arrays

/-- What is taken for an array is one. -/
theorem meets_array (what : String) (this : Value) :
    (array what this).Meets L scope fun s o => (s.body o).isArray := by
  unfold array
  split
  · intro s hs hscope
    refine behaves_read.2 ?_
    split
    · assumption
    · exact Meets.typeError _ s hs hscope
  · exact .typeError _

/-- Something that is done with an array. -/
theorem tame_array (what : String) (this : Value) {f : ObjectId → Proc β}
    (hf : ∀ o s, (s.body o).isArray → (∀ g ∈ scope, s.Rooted g) → (f o).Onward L s) :
    (array what this >>= f).Tame L scope :=
  (meets_array what this).bind fun o s hs hscope ho => hf o s ho hscope s (.refl hs)

theorem tame_arrayLike (this : Value) : (arrayLike this).Tame L scope := by
  have hcopy (v : Value) :
      (listFrom v >>= fun items => perform (.newArray (some Realm.arrayPrototype) items)).Tame L scope :=
    .bind (tame_listFrom v) fun _ => .perform fun _ => trivial
  unfold arrayLike
  split
  · exact .bind (tame_body _) fun b => .ite (.pure _) (hcopy _)
  · exact .bind (tame_toObjectValue _) hcopy

theorem tame_newLike (o : ObjectId) (values : List Value) : (newLike o values).Tame L scope :=
  .bind (.read _) fun _ => .bind (.perform fun _ => trivial) fun _ => .pure _

/-- An array stays one, so its elements may be replaced later on. -/
theorem onward_refill {s : Store} {o : ObjectId} (ho : (s.body o).isArray) (values : List Value) :
    (refill o values).Onward L s := fun _ ht => ⟨⟨o, (ht.later.array o ho).1, rfl⟩, fun _ _ _ _ => trivial⟩

theorem tame_callback (what : String) (i : Invocation) : (callback what i).Tame L scope := by
  refine .bind (tame_callable? _) fun f => ?_
  cases f with
  | some f => exact .pure _
  | none => exact .bind (tame_toText _) fun _ => .typeError _

/-- A walk through the elements of an array that are there. -/
theorem onward_overPresent {σ : Type} {s : Store} {o : ObjectId} {round : Nat → Value → σ → Proc (Round σ β)}
    {finish : σ → β} (hround : ∀ n v x, (round n v x).Onward L s) (init : σ) :
    (overPresent o round finish init).Onward L s :=
  .bind (.read _) fun _ => .walk (fun i x => .bind (.read _) fun _ =>
    .ite (.bind (.read _) fun v => hround i v x) (.pure _)) _ _

theorem tame_overPresent {σ : Type} {o : ObjectId} {round : Nat → Value → σ → Proc (Round σ β)} {finish : σ → β}
    (hround : ∀ n v x, (round n v x).Tame L scope) (init : σ) : (overPresent o round finish init).Tame L scope :=
  .of_onward fun _ _ hscope => onward_overPresent (fun n v x => (hround n v x).onward hscope) init

/-- A walk in which a function of the script is called for each element, from the scope of the caller. -/
theorem tame_overResults {σ : Type} (what : String) {i : Invocation} (o : ObjectId)
    {round : Nat → Value → Value → σ → Proc (Round σ β)} {finish : σ → β}
    (hround : ∀ n v r x, (round n v r x).Tame L i.invoker) (init : σ) :
    (overResults what i o round finish init).Tame L i.invoker :=
  .bind (tame_callback what i) fun _ =>
    tame_overPresent (fun n v x => .bind (.call _ _ _) fun r => hround n v r x) init

theorem tame_sortValues (comparison : Option ObjectId) (values : List Value) :
    (sortValues scope comparison values).Tame L scope := by
  unfold sortValues
  cases comparison with
  | some f =>
      have hbefore (a b : Value) : (comparedBefore f scope a b).Tame L scope :=
        .bind (.call _ _ _) fun _ => .bind (tame_toNumber _) fun _ => .pure _
      exact .bind (Sorting.tame_sort hbefore _) fun _ => .pure _
  | none => exact .bind (.map (fun v => .bind (tame_toText v) fun _ => .pure _) _) fun _ => .pure _

theorem tame_make (args : List Value) : (make args).Tame L scope := by
  unfold make
  split
  · refine .ite ?_ (.rangeError _)
    exact .bind (.perform fun _ => trivial) fun a => .propsOf a fun _ hf =>
      .bind (.perform fun _ => hf) fun _ => .pure _
  · exact tame_newArray _

theorem tame_joinItems (o : ObjectId) (separator : Value) : (joinItems o separator).Tame L scope := by
  unfold joinItems
  extract_lets rest
  have hrest (sep : Text) : (rest sep).Tame L scope :=
    .bind (.read _) fun _ => .bind (.map (fun v => .ite (.pure _) (tame_toText v)) _) fun _ => .pure _
  exact .ite (.bind (.pure _) hrest) (.bind (tame_toText _) hrest)

theorem tame_popFrom (o : ObjectId) : (popFrom o).Tame L scope := by
  refine .bind (.read _) fun n => ?_
  cases n with
  | zero => exact .pure _
  | succ n => exact .bind (.read _) fun _ => .propsOf o fun _ hf => .bind (.perform fun _ => hf) fun _ => .pure _

theorem onward_shiftFrom {s : Store} {o : ObjectId} (ho : (s.body o).isArray) : (shiftFrom o).Onward L s := by
  refine .bind (.read _) fun values => ?_
  cases values with
  | nil => exact .pure _
  | cons v rest => exact .bind (onward_refill ho rest) fun _ => .pure _

theorem onward_spliceIn {s : Store} {o : ObjectId} (ho : (s.body o).isArray) (i : Invocation) :
    (spliceIn o i).Onward L s := by
  have hnone : ∀ f ∈ (none : Option FrameId), s.Rooted f := nofun
  refine .bind (.read _) fun values => .bind ((tame_relativeIndex _ _ _).onward hnone) fun start => ?_
  extract_lets rest
  have hrest (count : Nat) : (rest count).Onward L s :=
    .bind (onward_refill ho _) fun _ => (tame_newLike o _).onward hnone
  exact .ite (.bind (.pure _) hrest) (.bind ((tame_boundedIndex _ _).onward hnone) hrest)

theorem tame_lastCount (v : Value) (n : Nat) : (lastCount v n).Tame L scope := by
  refine .ite (.pure _) (.bind (tame_toInteger v) fun k => ?_)
  split
  · exact .pure _
  · exact .ite (.pure _) (.fault (by simp))

theorem tame_reduceWith (o : ObjectId) (i : Invocation) : (reduceWith o i).Tame L i.invoker := by
  refine .bind (tame_callback _ i) fun cb => .bind (tame_overPresent (fun _ _ _ => .pure _) _) fun entries => ?_
  -- The rest of the walk is the same with and without a first value that is given.
  extract_lets step
  have hstep (acc : Value) (rest : List (Nat × Value)) : (step acc rest).Tame L i.invoker :=
    .walk (fun _ _ => .bind (.call _ _ _) fun _ => .pure _) _ _
  split
  · exact hstep _ _
  · exact hstep _ _
  · exact .typeError _

theorem tame_mapWith (o : ObjectId) (i : Invocation) : (mapWith o i).Tame L i.invoker := by
  refine .bind (tame_callback _ i) fun cb s hs hscope => ⟨trivial, fun out t ht hout => ?_⟩
  -- The frame of the new array is looked up once, before the callback is called.
  have hf : t.Slotted (t.propsOf out) := ⟨out, hout, rfl⟩
  have hinvoker : ∀ f ∈ i.invoker, t.Rooted f := fun f hf => (hscope f hf).later ht.later
  have hround (n : Nat) (v : Value) (x : Value) : (do
      let r ← call cb.function i.invoker cb.this [v, .ofNat n, .obj o]
      perform (.put (t.propsOf out) (.index n) r)
      return Round.again x : Proc (Round Value Value)).Onward L t :=
    .bind ((Tame.call _ _ _).onward hinvoker) fun _ => .bind (.putIndex hf _ _) fun _ => .pure _
  refine behaves_read.2 (behaves_read.2 ⟨ht.sound.slotted_ne_core hf, fun _ u hu _ => ?_⟩)
  exact onward_overPresent hround _ u hu

end Arrays

open Arrays in
theorem ArrayFn.tame_invoke (f : ArrayFn) (i : Invocation) : (f.invoke i).Tame L i.invoker := by
  cases f with
  | construct => exact tame_make _
  | isArray =>
      unfold ArrayFn.invoke
      dsimp only
      split
      · exact .bind (tame_body _) fun _ => .pure _
      · exact .pure _
  | concat => exact .bind (tame_arrayLike _) fun o => .bind (.read _) fun _ => tame_newLike o _
  | join => exact .bind (tame_arrayLike _) fun o => tame_joinItems o _
  | pop => exact .bind (meets_array _ _).tame fun o => tame_popFrom o
  | push =>
      exact tame_array _ _ fun o s ho _ t ht => ⟨⟨o, (ht.later.array o ho).1, rfl⟩, fun _ _ _ _ => trivial⟩
  | reverse =>
      exact tame_array _ _ fun o s ho _ => .bind (.read _) fun _ => .bind (onward_refill ho _) fun _ => .pure _
  | shift => exact tame_array _ _ fun o s ho _ => onward_shiftFrom ho
  | slice =>
      exact .bind (tame_arrayLike _) fun o => .bind (.read _) fun _ => .bind (tame_relativeIndex _ _ _) fun _ =>
        .bind (tame_relativeIndex _ _ _) fun _ => .bind (.read _) fun _ => tame_newLike o _
  | sort =>
      refine .bind (tame_callable? _) fun comparison => ?_
      extract_lets rest
      have hrest (u : Unit) : (rest u).Tame L i.invoker := tame_array _ _ fun o s ho hscope =>
        .bind (.read _) fun _ => .bind ((tame_sortValues _ _).onward hscope) fun _ =>
          .bind (onward_refill ho _) fun _ => .pure _
      exact .ite (.bind (.typeError _) hrest) (hrest ())
  | splice =>
      exact tame_array _ _ fun o s ho hscope => .ite ((tame_newArray _).onward hscope) (onward_spliceIn ho i)
  | unshift =>
      exact tame_array _ _ fun o s ho _ => .bind (.read _) fun _ => .bind (onward_refill ho _) fun _ =>
        .bind (.read _) fun _ => .pure _
  | indexOf =>
      exact .bind (tame_arrayLike _) fun _ => .bind (.read _) fun _ =>
        .bind (tame_relativeIndex _ _ _) fun _ => .pure _
  | lastIndexOf =>
      exact .bind (tame_arrayLike _) fun _ => .bind (.read _) fun _ => .bind (tame_lastCount _ _) fun _ => .pure _
  | toText => exact .bind (tame_arrayLike _) fun o => tame_joinItems o _
  | forEach => exact .bind (tame_arrayLike _) fun o => tame_overResults _ o (fun _ _ _ _ => .pure _) _
  | map => exact .bind (tame_arrayLike _) fun o => tame_mapWith o i
  | filter =>
      exact .bind (tame_arrayLike _) fun o =>
        .bind (tame_overResults _ o (fun _ _ _ _ => .pure _) _) fun _ => tame_newArray _
  | every => exact .bind (tame_arrayLike _) fun o => tame_overResults _ o (fun _ _ _ _ => .pure _) _
  | some => exact .bind (tame_arrayLike _) fun o => tame_overResults _ o (fun _ _ _ _ => .pure _) _
  | reduce => exact .bind (tame_arrayLike _) fun o => tame_reduceWith o i

/-! ## Objects -/

namespace ObjectFn

theorem tame_make (v : Value) : (make v).Tame L scope :=
  .ite (.bind tame_newObject fun _ => .pure _) (tame_toObjectValue v)

theorem tame_keyNames (v : Value) : (keyNames v).Tame L scope := by
  unfold keyNames
  split
  · exact .bind (.read _) fun _ => tame_newArray _
  · exact .typeError _

theorem tame_derive (v : Value) : (derive v).Tame L scope := by
  unfold derive
  split
  · exact .bind (.perform fun _ => trivial) fun _ => .pure _
  · exact .bind (.perform fun _ => trivial) fun _ => .pure _
  · exact .typeError _

theorem tame_describe (v : Value) : (describe v).Tame L scope := by
  unfold describe
  split
  · exact .pure _
  · exact .pure _
  · exact .bind (tame_toObject _) fun o => .bind (tame_body o) fun _ => .pure _

theorem tame_invoke (f : ObjectFn) (i : Invocation) : (f.invoke i).Tame L i.invoker := by
  cases f with
  | construct => exact tame_make _
  | keys => exact tame_keyNames _
  | create => exact tame_derive _
  | hasOwnProperty =>
      exact .bind (tame_toObject _) fun _ => .bind (tame_toKey _) fun _ => .bind (.read _) fun _ => .pure _
  | isPrototypeOf =>
      unfold invoke
      dsimp only
      split
      · exact .bind (tame_toObject _) fun _ => .bind (.read _) fun _ => .pure _
      · exact .pure _
  | propertyIsEnumerable =>
      exact .bind (tame_toObject _) fun _ => .bind (tame_toKey _) fun _ => .bind (.read _) fun _ => .pure _
  | toText => exact tame_describe _
  | toLocaleText =>
      refine .bind (tame_toObject _) fun o => .bind (.read _) fun v => .bind (tame_callable? v) fun f => ?_
      cases f with
      | some f => exact .call _ _ _
      | none => exact .typeError _
  | valueOf => exact tame_toObjectValue _

end ObjectFn

/-! ## Numbers, truth values and errors -/

theorem tame_newBox (b : Boxed) : (newBox b).Tame L scope := .bind (.perform fun _ => trivial) fun _ => .pure _

namespace NumberFn

theorem tame_number (what : String) (this : Value) : (number what this).Tame L scope := by
  unfold number
  split
  · exact .pure _
  · refine .bind (tame_body _) fun b => ?_
    split
    · exact .pure _
    · exact .typeError _
  · exact .typeError _

theorem tame_digits (what : String) (least most : Nat) (v : Value) : (digits what least most v).Tame L scope :=
  .bind (tame_toInteger v) fun _ => .ite (.pure _) (.rangeError _)

theorem tame_ofArgs (args : List Value) : (ofArgs args).Tame L scope := by
  cases args with
  | nil => exact .pure _
  | cons v _ => exact tame_toNumber v

theorem tame_invoke (f : NumberFn) (i : Invocation) : (f.invoke i).Tame L i.invoker := by
  cases f with
  | construct => exact .bind (tame_ofArgs _) fun _ => .pure _
  | toFixed =>
      refine .bind (tame_number _ _) fun _ => .bind (tame_digits _ _ _ _) fun _ => ?_
      split
      · exact .pure _
      · exact .fault (by simp)
  | toExponential =>
      exact .bind (tame_number _ _) fun _ => .ite (.pure _) (.bind (tame_digits _ _ _ _) fun _ => .pure _)
  | toPrecision =>
      exact .bind (tame_number _ _) fun _ => .ite (.pure _) (.bind (tame_digits _ _ _ _) fun _ => .pure _)
  | toText =>
      refine .bind (tame_number _ _) fun x => ?_
      extract_lets rest
      have hrest (radix : Float) : (rest radix).Tame L i.invoker := .ite (.pure _) (.rangeError _)
      exact .ite (.bind (.pure _) hrest) (.bind (tame_toInteger _) hrest)
  | toLocaleText => exact .bind (tame_number _ _) fun _ => .pure _
  | valueOf => exact .bind (tame_number _ _) fun _ => .pure _

end NumberFn

namespace BooleanFn

theorem tame_truth (this : Value) : (truth this).Tame L scope := by
  unfold truth
  split
  · exact .pure _
  · refine .bind (tame_body _) fun b => ?_
    split
    · exact .pure _
    · exact .typeError _
  · exact .typeError _

theorem tame_invoke (f : BooleanFn) (i : Invocation) : (f.invoke i).Tame L i.invoker := by
  cases f with
  | construct => exact .pure _
  | toText => exact .bind (tame_truth _) fun _ => .pure _
  | valueOf => exact .bind (tame_truth _) fun _ => .pure _

end BooleanFn

namespace ErrorFn

theorem tame_part (o : ObjectId) (k : Key) (absent : Text) : (part o k absent).Tame L scope :=
  .bind (.read _) fun v => .ite (.pure _) (Proc.tame_toText v)

/-- An error constructor needs a licence to make reference errors. -/
theorem tame_make {kind : ErrorKind} (h : kind = .referenceError → L.forges) (message : Value) :
    (make kind message).Tame L scope := by
  unfold make
  extract_lets rest
  have hrest (text : Option Text) : (rest text).Tame L scope :=
    .bind (.perform (a := .newError kind text) fun _ => h) fun _ => .pure _
  exact .ite (.bind (.pure _) hrest) (.bind (Proc.tame_toText _) fun _ => .bind (.pure _) hrest)

theorem tame_invoke (f : ErrorFn) (h : ∀ kind, f = .construct kind → L.forges) (i : Invocation) :
    (f.invoke i).Tame L i.invoker := by
  cases f with
  | construct kind => exact tame_make (fun _ => h kind rfl) _
  | toText =>
      unfold invoke
      dsimp only
      split
      · exact .bind (tame_part _ _ _) fun _ => .bind (tame_part _ _ _) fun _ =>
          .ite (.pure _) (.ite (.pure _) (.pure _))
      · exact .typeError _

end ErrorFn

/-! ## Functions of the host -/

namespace Service

theorem tame_printLine (args : List Value) : (printLine args).Tame L scope :=
  .bind (.map tame_toText args) fun _ => .bind (.perform fun _ => trivial) fun _ => .pure _

theorem tame_parseInteger (t : Text) (base : Int) : (parseInteger t base).Tame L scope := by
  unfold parseInteger
  dsimp only
  refine .ite (.pure _) (.ite (.pure _) (.ite (.fault (by simp)) ?_))
  split
  · exact .pure _
  · exact .fault (by simp)

theorem tame_result (f : Service) (i : Invocation) : (f.result i).Tame L i.invoker := by
  cases f with
  | print => exact tame_printLine _
  | isNaN => exact .bind (tame_toNumber _) fun _ => .pure _
  | isFinite => exact .bind (tame_toNumber _) fun _ => .pure _
  | parseInt => exact .bind (tame_toText _) fun _ => .bind (tame_toInt32 _) fun _ => tame_parseInteger _ _
  | parseFloat => exact .bind (tame_toText _) fun _ => .pure _
  | escape => exact .bind (tame_toText _) fun _ => .pure _
  | unescape => exact .bind (tame_toText _) fun _ => .pure _
  | argumentCount => exact .pure _
  | nothing => exact .pure _
  | firstArgument => exact .pure _
  | difference => exact Operator.tame_apply .sub (.pure _) (.pure _)
  | callerName => exact .read _

theorem tame_invoke (f : Service) (i : Invocation) : (f.invoke i).Tame L i.invoker := by
  refine .ite (.bind (tame_result f i) fun v => ?_) (.fault (by simp))
  split <;> exact .pure _

end Service

/-! ## Numbers and dates -/

namespace MathFn

theorem tame_extremeOf (beats : Float → Float → Bool) (empty : Float) (i : Invocation) :
    (extremeOf beats empty i).Tame L scope := .bind (.map tame_toNumber _) fun _ => .ite (.pure _) (.pure _)

theorem tame_binary (f : Float → Float → Float) (i : Invocation) : (binary f i).Tame L scope :=
  .bind (tame_toNumber _) fun _ => .bind (tame_toNumber _) fun _ => .pure _

theorem tame_invoke (f : MathFn) (i : Invocation) : (f.invoke i).Tame L i.invoker := by
  cases f with
  | unary f => exact .bind (tame_toNumber _) fun _ => .pure _
  | atan2 => exact tame_binary _ i
  | pow => exact tame_binary _ i
  | max => exact tame_extremeOf _ _ i
  | min => exact tame_extremeOf _ _ i
  | random => exact .bind (.perform fun _ => trivial) fun _ => .pure _

end MathFn

theorem Moment.time_ne_malformedTree {zone : Int} {m : Moment} {f : Fault} (h : m.time zone = .error f) :
    f ≠ .malformedTree := by
  unfold Moment.time at h
  split at h
  · cases h
  · split at h
    · cases h
    · cases h
      simp

theorem Moment.ofHeader?_ne_malformedTree {t : Text} {f : Fault} (h : Moment.ofHeader? t = .error f) :
    f ≠ .malformedTree := by
  unfold Moment.ofHeader? at h
  split at h
  · split at h
    · cases h
    · dsimp only at h
      split at h
      · split at h
        · generalize zoneSeconds _ = zone at h
          split at h
          · cases h
            simp
          split at h
          · cases h
          split at h
          · cases h
            simp
          · cases h
        · cases h
      · cases h
  · cases h

/-- Reading a date can fail, but no syntax tree is to blame. -/
theorem Time.parse_ne_malformedTree {zone : Int} {t : Text} {f : Fault} (h : Time.parse zone t = .error f) :
    f ≠ .malformedTree := by
  unfold Time.parse at h
  dsimp only at h
  split at h
  · split at h
    · exact Moment.time_ne_malformedTree h
    · exact Moment.time_ne_malformedTree h
  · split at h
    · exact Moment.time_ne_malformedTree h
    · split at h
      · exact Moment.time_ne_malformedTree h
      · cases h
      · cases h
        exact Moment.ofHeader?_ne_malformedTree ‹_›

namespace Dates

theorem tame_parse (t : Text) : (parse t).Tame L scope := by
  refine .bind (.read _) fun z => ?_
  split
  · exact .pure _
  · exact .fault (Time.parse_ne_malformedTree ‹_›)

theorem tame_ofFields (args : List Value) : (ofFields args).Tame L scope := by
  refine .bind (.map tame_toNumber _) fun _ => .bind (.read _) fun _ => ?_
  split
  · exact .pure _
  · exact .fault (by simp)

theorem tame_ofArgs (args : List Value) : (ofArgs args).Tame L scope := by
  unfold ofArgs
  split
  · exact .read _
  · extract_lets converted
    have hconverted : converted.Tame L scope := by
      refine .bind (tame_toPrimitive _ _) fun p => ?_
      split
      · exact tame_parse _
      · exact .bind (tame_toNumber _) fun _ => .pure _
    split
    · refine .bind (tame_body _) fun b => ?_
      split
      · exact .pure _
      · exact hconverted
    · exact hconverted
  · exact tame_ofFields _

theorem tame_receiver (this : Value) : (receiver this).Tame L scope := by
  unfold receiver
  split
  · refine .bind (tame_body _) fun b => ?_
    split
    · exact .pure _
    · exact .typeError _
  · exact .typeError _

theorem tame_setTime (d : Ref) (ms : Float) : (setTime d ms).Tame L scope :=
  .bind (.perform fun _ => trivial) fun _ => .pure _

theorem tame_revive (d : Ref) : (revive d).Tame L scope :=
  .ite (.pure _) (.bind (.perform fun _ => trivial) fun _ => .pure _)

theorem tame_setFields (d : Ref) (first : DateField) (values : List Value) :
    (setFields d first values).Tame L scope :=
  .ite (tame_setTime d _) (.bind (.read _) fun _ => .bind (.map tame_toNumber _) fun _ => tame_setTime d _)

theorem tame_setYear (this v : Value) : (setYear this v).Tame L scope := by
  refine .bind (tame_receiver this) fun _ => .bind (tame_toNumber v) fun y => ?_
  split
  · exact .fault (by simp)
  · exact .bind (tame_receiver this) fun d => .bind (tame_revive d) fun d => tame_setFields d _ _

end Dates

open Dates in
theorem DateFn.tame_invoke (f : DateFn) (i : Invocation) : (f.invoke i).Tame L i.invoker := by
  cases f with
  | construct => exact .bind (.read _) fun _ => .bind (.read _) fun _ => .pure _
  | now => exact .bind (.read _) fun _ => .pure _
  | parse => exact .bind (tame_toText _) fun _ => .bind (tame_parse _) fun _ => .pure _
  | utc =>
      unfold DateFn.invoke
      dsimp only
      split
      · exact .pure _
      · exact .bind (tame_ofFields _) fun _ => .pure _
      · exact .bind (tame_ofFields _) fun _ => .pure _
  | get field => exact .bind (.read _) fun _ => .bind (tame_receiver _) fun _ => .pure _
  | set field =>
      refine .bind (tame_receiver _) fun d => ?_
      extract_lets rest
      have hrest (d : Ref) : (rest d).Tame L i.invoker := tame_setFields d _ _
      exact .ite (.bind (tame_revive d) hrest) (.bind (.pure _) hrest)
  | format style => exact .bind (.read _) fun _ => .bind (tame_receiver _) fun _ => .pure _
  | getDay => exact .bind (.read _) fun _ => .bind (tame_receiver _) fun _ => .pure _
  | getTime => exact .bind (tame_receiver _) fun _ => .pure _
  | getTimezoneOffset => exact .bind (.read _) fun _ => .bind (tame_receiver _) fun _ => .pure _
  | getYear => exact .bind (.read _) fun _ => .bind (tame_receiver _) fun _ => .pure _
  | setYear => exact tame_setYear _ _
  | setTime => exact .bind (tame_receiver _) fun d => .bind (tame_toNumber _) fun _ => tame_setTime d _

/-! ## Patterns and strings -/

theorem tame_newRegExp (source flags : Text) : (newRegExp source flags).Tame L scope :=
  .ite (.bind (.perform fun _ => trivial) fun _ => .pure _) (.raise (by decide) _)

namespace PatternRef

theorem tame_of? (v : Value) : (of? v).Tame L scope := .read _

theorem tame_compile (r : PatternRef) : r.compile.Tame L scope := by
  unfold compile
  dsimp only
  split
  · exact .pure _
  · exact .fault (by simp)
  · exact .fault (by simp)
  · exact .fault (by simp)
  · exact .raise (by decide) _

theorem tame_setLastIndex (r : PatternRef) (n : Nat) : (r.setLastIndex n).Tame L scope :=
  .propsOf _ fun _ hf => .put hf (by decide) _

theorem tame_lastIndex (r : PatternRef) : r.lastIndex.Tame L scope := by
  refine .bind (.read _) fun v => .bind (tame_toInteger v) fun n => ?_
  split
  · exact .pure _
  · exact .fault (by simp)

theorem tame_hitArray (t : Text) (h : Hit) : (hitArray t h).Tame L scope :=
  .bind (.perform fun _ => trivial) fun a => .propsOf a fun _ hf => .bind (.put hf (by decide) _) fun _ =>
    .bind (.put hf (by decide) _) fun _ => .pure _

theorem tame_next (r : PatternRef) (t : Text) : (r.next t).Tame L scope := by
  unfold next
  extract_lets finish search
  have hfinish (found : Option Hit) : (finish found).Tame L scope :=
    .ite (.bind (tame_setLastIndex r _) fun _ => .pure _) (.pure _)
  have hsearch (start : Int) : (search start).Tame L scope :=
    .ite (.bind (tame_compile r) fun _ => .bind (.pure _) hfinish) (.bind (.pure _) hfinish)
  exact .ite (.bind (tame_lastIndex r) hsearch) (.bind (.pure _) hsearch)

theorem tame_exec (r : PatternRef) (t : Text) : (r.exec t).Tame L scope := by
  refine .bind (tame_next r t) fun h => ?_
  cases h with
  | some h => exact tame_hitArray t h
  | none => exact .pure _

end PatternRef

namespace RegExpFn

theorem tame_make (pattern flags : Value) : (make pattern flags).Tame L scope := by
  refine .bind (PatternRef.tame_of? _) fun r => ?_
  cases r with
  | some r =>
      exact .ite (.bind (.pure _) fun _ => tame_newRegExp _ _) (.bind (Proc.tame_toText _) fun _ => tame_newRegExp _ _)
  | none =>
      have hflags (source : Text) : (if flags.isUndefined then newRegExp source [] else
          Proc.toText flags >>= newRegExp source).Tame L scope :=
        .ite (tame_newRegExp _ _) (.bind (Proc.tame_toText _) fun _ => tame_newRegExp _ _)
      exact .ite (hflags _) (.bind (Proc.tame_toText _) hflags)

theorem tame_receiver (what : String) (this : Value) : (receiver what this).Tame L scope := by
  refine .bind (PatternRef.tame_of? _) fun r => ?_
  cases r with
  | some r => exact .pure _
  | none => exact .typeError _

theorem tame_invoke (f : RegExpFn) (i : Invocation) : (f.invoke i).Tame L i.invoker := by
  cases f with
  | construct =>
      refine .bind (PatternRef.tame_of? _) fun r => ?_
      cases r with
      | some r => exact .ite (.pure _) (tame_make _ _)
      | none => exact tame_make _ _
  | exec => exact .bind (tame_receiver _ _) fun r => .bind (Proc.tame_toText _) fun t => r.tame_exec t
  | test =>
      exact .bind (tame_receiver _ _) fun r => .bind (Proc.tame_toText _) fun t =>
        .bind (r.tame_next t) fun _ => .pure _
  | toText => exact .bind (tame_receiver _ _) fun _ => .pure _

end RegExpFn

namespace Strings

theorem tame_pointAt? (t : Text) (v : Value) : (pointAt? t v).Tame L scope := .bind (tame_toInteger v) fun _ => .pure _

theorem tame_charCodeAt (t : Text) (v : Value) : (charCodeAt t v).Tame L scope := by
  refine .bind (tame_pointAt? t v) fun c => ?_
  cases c <;> exact .pure _

theorem tame_lastIndexOf (t : Text) (what start : Value) : (lastIndexOf t what start).Tame L scope := by
  refine .bind (Proc.tame_toText what) fun needle => .bind (tame_toNumber start) fun n => ?_
  exact .ite (.pure _) (.bind (tame_boundedIndex _ _) fun _ => .pure _)

theorem tame_localeCompare (t : Text) (other : Value) : (localeCompare t other).Tame L scope := by
  refine .bind (Proc.tame_toText other) fun u => ?_
  split <;> exact .pure _

theorem tame_substr (t : Text) (start length : Value) : (substr t start length).Tame L scope :=
  .bind (tame_relativeIndex _ _ _) fun _ => .ite (.pure _) (.bind (tame_boundedIndex _ _) fun _ => .pure _)

theorem tame_substring (t : Text) (start stop : Value) : (substring t start stop).Tame L scope :=
  .bind (tame_boundedIndex _ _) fun _ => .ite (.pure _) (.bind (tame_boundedIndex _ _) fun _ => .pure _)

theorem tame_patternOf (v : Value) : (patternOf v).Tame L scope := by
  refine .bind (PatternRef.tame_of? v) fun r => ?_
  cases r with
  | some r => exact .pure _
  | none =>
      have hnew (source : Text) : (perform (.newRegExp source []) >>= fun o =>
          (pure ⟨o, source, []⟩ : Proc PatternRef)).Tame L scope := .bind (.perform fun _ => trivial) fun _ => .pure _
      exact .ite (hnew _) (.bind (Proc.tame_toText v) hnew)

theorem tame_hitTexts (hits : List Hit) : (hitTexts hits).Tame L scope := by
  cases hits with
  | nil => exact .pure _
  | cons h rest => exact tame_newArray _

theorem tame_matchAll (t : Text) (pattern : Value) : (matchAll t pattern).Tame L scope := by
  refine .bind (tame_patternOf pattern) fun r => .ite ?_ (r.tame_exec t)
  exact .bind (r.tame_setLastIndex 0) fun _ => .bind r.tame_compile fun c => tame_hitTexts _

theorem tame_search (t : Text) (pattern : Value) : (search t pattern).Tame L scope :=
  .bind (tame_patternOf pattern) fun r => .bind r.tame_compile fun _ => .pure _

theorem tame_hitsOf (t : Text) (pattern : Value) : (hitsOf t pattern).Tame L scope := by
  refine .bind (PatternRef.tame_of? pattern) fun r => ?_
  cases r with
  | some r => exact .bind r.tame_compile fun _ => .ite (.bind (r.tame_setLastIndex 0) fun _ => .pure _) (.pure _)
  | none => exact .bind (Proc.tame_toText pattern) fun _ => .pure _

theorem tame_replacementBy (f : ObjectId) (t : Text) (h : Hit) : (replacementBy f scope t h).Tame L scope :=
  .bind (.call f _ _) fun _ => .bind (Proc.tame_toText _) fun _ => .pure _

theorem tame_replace (t : Text) (pattern replacement : Value) :
    (replace scope t pattern replacement).Tame L scope := by
  refine .bind (tame_hitsOf t pattern) fun hits => ?_
  split
  · exact .pure _
  · refine .bind (tame_callable? replacement) fun f => ?_
    cases f with
    | some f => exact .bind (.map (tame_replacementBy f t) _) fun _ => .pure _
    | none => exact .bind (Proc.tame_toText replacement) fun _ => .pure _

theorem tame_mostPieces (limit : Value) : (mostPieces limit).Tame L scope := .ite (.pure _) (tame_toUint32 limit)

theorem tame_split (t : Text) (separator limit : Value) : (split t separator limit).Tame L scope := by
  refine .bind (tame_mostPieces limit) fun most => .ite (tame_newArray _) (.ite (tame_newArray _) ?_)
  refine .bind (PatternRef.tame_of? separator) fun r => ?_
  cases r with
  | some r => exact .bind r.tame_compile fun _ => tame_newArray _
  | none => exact .bind (Proc.tame_toText separator) fun _ => tame_newArray _

theorem tame_receiver (this : Value) : (receiver this).Tame L scope := .ite (.typeError _) (Proc.tame_toText this)

theorem tame_primitiveOf (this : Value) : (primitiveOf this).Tame L scope := by
  unfold primitiveOf
  dsimp only
  split
  · exact .pure _
  · refine .bind (tame_body _) fun b => ?_
    split
    · exact .pure _
    · exact .typeError _
  · exact .typeError _

theorem tame_ofArgs (args : List Value) : (ofArgs args).Tame L scope := by
  cases args with
  | nil => exact .pure _
  | cons v _ => exact Proc.tame_toText v

end Strings

open Strings in
theorem StringFn.tame_invoke (f : StringFn) (i : Invocation) : (f.invoke i).Tame L i.invoker := by
  cases f with
  | construct => exact .bind (tame_ofArgs _) fun _ => .pure _
  | fromCharCode => exact .bind (.map tame_toUint32 _) fun _ => .pure _
  | valueOf => exact .bind (tame_primitiveOf _) fun _ => .pure _
  | charAt => exact .bind (tame_receiver _) fun t => .bind (tame_pointAt? t _) fun _ => .pure _
  | charCodeAt => exact .bind (tame_receiver _) fun t => tame_charCodeAt t _
  | concat => exact .bind (tame_receiver _) fun _ => .bind (.map Proc.tame_toText _) fun _ => .pure _
  | indexOf =>
      exact .bind (tame_receiver _) fun _ => .bind (tame_boundedIndex _ _) fun _ =>
        .bind (Proc.tame_toText _) fun _ => .pure _
  | lastIndexOf => exact .bind (tame_receiver _) fun t => tame_lastIndexOf t _ _
  | localeCompare => exact .bind (tame_receiver _) fun t => tame_localeCompare t _
  | «match» => exact .bind (tame_receiver _) fun t => tame_matchAll t _
  | replace => exact .bind (tame_receiver _) fun t => tame_replace t _ _
  | search => exact .bind (tame_receiver _) fun t => tame_search t _
  | slice =>
      exact .bind (tame_receiver _) fun _ => .bind (tame_relativeIndex _ _ _) fun _ =>
        .bind (tame_relativeIndex _ _ _) fun _ => .pure _
  | split => exact .bind (tame_receiver _) fun t => tame_split t _ _
  | substr => exact .bind (tame_receiver _) fun t => tame_substr t _ _
  | substring => exact .bind (tame_receiver _) fun t => tame_substring t _ _
  | toLowerCase => exact .bind (tame_receiver _) fun _ => .pure _
  | toUpperCase => exact .bind (tame_receiver _) fun _ => .pure _

end ScriptEngine
