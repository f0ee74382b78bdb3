import ScriptEngine.Proofs.Lengths

/-!
# The methods of arrays as list functions

An array stands for the list of its elements, those that it inherits included. Eight methods of arrays are
functions on this list: each reads the list, makes of it and of the arguments the list that it writes back,
the answer, or a new array, and leaves everything else as it is.

## Main definitions

* `Store.HoldsList`: an array stands for a list.
* `Store.Keeps`, `Store.Touches`: what happens to the rest of the store.
* `Arrays.Effect`, `Arrays.effect?`: the methods as list functions.
* `Arrays.Position`: arguments that are positions, with conversions that leave the store as it is.

## Main results

* `Store.HoldsList.append`, `Store.HoldsList.refill`, `Store.HoldsList.resize`: changes of an array as changes
  of the list.
* `Arrays.simulates_list`: what the methods do is what the list functions say.
-/

namespace ScriptEngine

/-! ## Positions -/

namespace Number.Whole

/-- A position in a list of `n` elements: negative numbers count from the end, and what lies outside is the
nearest end. -/
def position (n : Nat) : Whole → Nat
  | finite i => (max 0 (min (n : Int) (if i < 0 then n + i else i))).toNat
  | infinite negative => if negative then 0 else n

/-- A number of elements, at least zero and at most `n`. -/
def amount (n : Nat) : Whole → Nat
  | finite i => (max 0 (min (n : Int) i)).toNat
  | infinite negative => if negative then 0 else n

end Number.Whole

/-! ## The rest of the store -/

namespace Store

variable {s t u : Store} {o : ObjectId} {items values : List Value}

/-- Everything that was there is as it was. -/
structure Keeps (s t : Store) : Prop extends Extends s t where
  objects : s.objects.size ≤ t.objects.size
  object (o : ObjectId) : o < s.objects.size → t.object o = s.object o

/-- Everything that was there is as it was, but for the elements and the length of an array. -/
structure Touches (o : ObjectId) (s t : Store) : Prop where
  size : s.frames.size ≤ t.frames.size
  frame (f : FrameId) : f < s.frames.size → f ≠ s.propsOf o → t.frame f = s.frame f
  names : (s.frame (s.propsOf o)).SameNames (t.frame (s.propsOf o))
  objects : s.objects.size ≤ t.objects.size
  object (o : ObjectId) : o < s.objects.size → t.object o = s.object o

theorem Keeps.refl (s : Store) : s.Keeps s := ⟨⟨Nat.le_refl _, fun _ _ => rfl⟩, Nat.le_refl _, fun _ _ => rfl⟩

theorem Keeps.trans (h : s.Keeps t) (h' : t.Keeps u) : s.Keeps u where
  toExtends := h.toExtends.trans h'.toExtends
  objects := Nat.le_trans h.objects h'.objects
  object o ho := (h'.object o (Nat.lt_of_lt_of_le ho h.objects)).trans (h.object o ho)

theorem Keeps.propsOf (h : s.Keeps t) (ho : o < s.objects.size) : t.propsOf o = s.propsOf o := by
  rw [Store.propsOf, Store.propsOf, h.object o ho]

theorem Keeps.addArray (s : Store) (proto : Option ObjectId) (values : List Value) :
    s.Keeps (s.addArray proto values).2 where
  toExtends := .addWith s proto .array _
  objects := by simp [Store.addArray, Store.addWith, Store.addFrame, Store.addObject]
  object o ho := by
    have hne : o ≠ s.objects.size := Nat.ne_of_lt ho
    refine (Next.object_addObject _ _ o).trans ?_
    rw [if_neg (by simpa [Store.addFrame] using hne)]
    rfl

theorem Keeps.touches (h : s.Keeps t) (hprops : s.propsOf o < s.frames.size) : s.Touches o t where
  size := h.size
  frame f hf _ := h.frame f hf
  names := by
    rw [h.frame _ hprops]
    exact .refl _
  objects := h.objects
  object := h.object

theorem Touches.trans (h : s.Touches o t) (h' : t.Touches o u) (ho : o < s.objects.size) : s.Touches o u := by
  have hprops : t.propsOf o = s.propsOf o := by rw [propsOf, propsOf, h.object o ho]
  constructor
  · exact Nat.le_trans h.size h'.size
  · intro f hf hne
    rw [h'.frame f (Nat.lt_of_lt_of_le hf h.size) (by rwa [hprops]), h.frame f hf hne]
  · have hnames := h'.names
    rw [hprops] at hnames
    exact h.names.trans hnames
  · exact Nat.le_trans h.objects h'.objects
  · intro o' ho'
    rw [h'.object o' (Nat.lt_of_lt_of_le ho' h.objects), h.object o' ho']

theorem Touches.modifyFrame (s : Store) (o : ObjectId) {c : Frame → Frame} (hc : ∀ fr : Frame, fr.SameNames (c fr)) :
    s.Touches o (s.modifyFrame (s.propsOf o) c) where
  size := Nat.le_of_eq (size_modifyFrame s _ c).symm
  frame f _ hne := frame_modifyFrame_of_ne s c (Ne.symm hne)
  names := by
    by_cases hlt : s.propsOf o < s.frames.size
    · rw [frame_modifyFrame_self s _ c hlt]
      exact hc _
    · have hle := Nat.le_of_not_lt hlt
      rw [frame_of_size_le hle, frame_of_size_le (by simpa using hle)]
      exact .refl _
  objects := Nat.le_refl _
  object _ _ := rfl

/-! ## Arrays as lists -/

/-- An array stands for a list. -/
structure HoldsList (s : Store) (o : ObjectId) (items : List Value) : Prop where
  isArray : (s.body o).isArray
  inStep : (s.frame (s.propsOf o)).InStep items.length
  grounded : ∀ f ∈ s.chain (s.propsOf o), f < s.frames.size
  items : s.arrayItems o = items

/-- The list of elements from its length and its elements. -/
theorem arrayItems_eq (hlength : s.arrayLength o = items.length)
    (hitem : ∀ (i : Nat) (hi : i < items.length), s.arrayItem o i = items[i]) : s.arrayItems o = items := by
  apply List.ext_getElem
  · simp [arrayItems, hlength]
  · intro i _ hi
    simp [arrayItems, hitem i hi]

/-- An element of an array that is not inherited. -/
theorem arrayItem_of_lookup? {i : Nat} {v : Value}
    (h : (s.frame (s.propsOf o)).lookup? (.index i) = some v) : s.arrayItem o i = v := by
  rw [arrayItem, find?_of_lookup? h, Option.getD_some]

/-- A key to which a change of a frame does nothing is found as before. -/
theorem find?_modifyFrame {f : FrameId} {c : Frame → Frame} {k : Key} (hc : ∀ fr : Frame, fr.Alike (c fr))
    (hk : (c (s.frame f)).lookup? k = (s.frame f).lookup? k) (g : FrameId) :
    (s.modifyFrame f c).find? g k = s.find? g k := by
  have hlookup (g : FrameId) : ((s.modifyFrame f c).frame g).lookup? k = (s.frame g).lookup? k := by
    by_cases hlt : g < s.frames.size
    · by_cases he : f = g
      · subst he
        rw [frame_modifyFrame_self s f c hlt, hk]
      · rw [frame_modifyFrame_of_ne s c he]
    · have hle := Nat.le_of_not_lt hlt
      rw [frame_of_size_le hle, frame_of_size_le (by simpa using hle)]
  have hchain : (s.modifyFrame f c).chain g = s.chain g :=
    ancestors_congr fun g _ => parent_modifyFrame s f hc g
  rw [find?, find?, hchain]
  simp only [hlookup]

/-- A chain of frames that were there is the same in a store with further frames. -/
theorem Extends.chain (h : s.Extends t) {f : FrameId} (hf : ∀ g ∈ s.chain f, g < s.frames.size) :
    t.chain f = s.chain f := h.ancestors hf

theorem Extends.find? (h : s.Extends t) {f : FrameId} (hf : ∀ g ∈ s.chain f, g < s.frames.size) (k : Key) :
    t.find? f k = s.find? f k := by
  rw [Store.find?, Store.find?, h.chain hf]
  exact findSome?_congr fun g hg => by rw [h.frame g (hf g hg)]

/-- The list of a tidy store's array. -/
theorem Tidy.holdsList (h : s.Tidy) (ho : (s.body o).isArray) : s.HoldsList o (s.arrayItems o) := by
  obtain ⟨n, hn⟩ := h.inStep o ho
  have hlength : (s.arrayItems o).length = n := by simp [arrayItems, arrayLength, hn.length_eq]
  exact ⟨ho, hlength ▸ hn, h.grounded _ (.inr ⟨o, rfl⟩) _, rfl⟩

namespace HoldsList

theorem lt_size (h : s.HoldsList o items) : o < s.objects.size := lt_size_of_isArray h.isArray

theorem propsOf_lt (h : s.HoldsList o items) : s.propsOf o < s.frames.size := lt_size_of_inStep h.inStep

theorem arrayLength (h : s.HoldsList o items) : s.arrayLength o = items.length := h.inStep.length_eq

theorem arrayItem (h : s.HoldsList o items) {i : Nat} (hi : i < items.length) : s.arrayItem o i = items[i] := by
  obtain ⟨-, -, -, rfl⟩ := h
  simp [arrayItems]

/-- An array stands for the same list when everything that was there is as it was. -/
theorem keeps (h : s.HoldsList o items) (hst : s.Keeps t) : t.HoldsList o items := by
  have hprops := hst.propsOf h.lt_size
  have hframe := hst.frame _ h.propsOf_lt
  have hchain : t.chain (s.propsOf o) = s.chain (s.propsOf o) := hst.toExtends.chain h.grounded
  have hfind (k : Key) : t.find? (s.propsOf o) k = s.find? (s.propsOf o) k := hst.toExtends.find? h.grounded k
  refine ⟨?_, ?_, ?_, arrayItems_eq ?_ ?_⟩
  · rw [body, hst.object o h.lt_size]
    exact h.isArray
  · rw [hprops, hframe]
    exact h.inStep
  · rw [hprops, hchain]
    intro f hf
    exact Nat.lt_of_lt_of_le (h.grounded f hf) hst.size
  · rw [Store.arrayLength, hprops, hframe]
    exact h.arrayLength
  · intro i hi
    rw [Store.arrayItem, hprops, hfind]
    exact h.arrayItem hi

/-- A change of the frame of an array that binds an index to the element of a new list, or leaves an element of
the old list alone that is also one of the new list. -/
theorem change (h : s.HoldsList o items) {c : Frame → Frame} (hc : ∀ fr : Frame, fr.Alike (c fr))
    (hlength : (c (s.frame (s.propsOf o))).InStep values.length)
    (hitem : ∀ (i : Nat) (hi : i < values.length),
      (c (s.frame (s.propsOf o))).lookup? (.index i) = some values[i] ∨
        (c (s.frame (s.propsOf o))).lookup? (.index i) = (s.frame (s.propsOf o)).lookup? (.index i) ∧
          items[i]? = some values[i]) :
    (s.modifyFrame (s.propsOf o) c).HoldsList o values := by
  have hframe := frame_modifyFrame_self s _ c h.propsOf_lt
  refine ⟨h.isArray, ?_, ?_, arrayItems_eq ?_ ?_⟩
  · change ((s.modifyFrame (s.propsOf o) c).frame (s.propsOf o)).InStep _
    rw [hframe]
    exact hlength
  · change ∀ f ∈ (s.modifyFrame (s.propsOf o) c).chain (s.propsOf o), _
    rw [show (s.modifyFrame (s.propsOf o) c).chain (s.propsOf o) = s.chain (s.propsOf o) from
      ancestors_congr fun g _ => parent_modifyFrame s _ hc g, size_modifyFrame]
    exact h.grounded
  · change ((s.modifyFrame (s.propsOf o) c).frame (s.propsOf o)).length = _
    rw [hframe, hlength.length_eq]
  · intro i hi
    obtain hown | ⟨hsame, hold⟩ := hitem i hi
    · refine arrayItem_of_lookup? ?_
      change ((s.modifyFrame (s.propsOf o) c).frame (s.propsOf o)).lookup? _ = _
      rw [hframe, hown]
    · obtain ⟨hlt, hget⟩ := List.getElem?_eq_some_iff.1 hold
      have hfind : (s.modifyFrame (s.propsOf o) c).arrayItem o i = s.arrayItem o i :=
        congrArg (Option.getD · _) (find?_modifyFrame hc hsame _)
      rw [hfind, h.arrayItem hlt, hget]

theorem append (h : s.HoldsList o items) (hroom : items.length + values.length ≤ Frame.mostElements) :
    (s.modifyFrame (s.propsOf o) (·.append values)).HoldsList o (items ++ values) := by
  refine h.change (fun fr => .append fr values) ?_ ?_
  · rw [List.length_append]
    exact h.inStep.append hroom
  · intro i hi
    rw [h.inStep.lookup?_append hroom]
    by_cases hlt : i < items.length
    · refine .inr ⟨if_pos hlt, ?_⟩
      rw [List.getElem_append_left hlt, List.getElem?_eq_getElem hlt]
    · refine .inl ?_
      rw [if_neg hlt, List.getElem_append_right (Nat.le_of_not_lt hlt), List.getElem?_eq_getElem]

theorem refill (h : s.HoldsList o items) (hroom : values.length ≤ Frame.mostElements) :
    (s.modifyFrame (s.propsOf o) (·.refill values)).HoldsList o values := by
  refine h.change (fun fr => .refill fr values) (h.inStep.refill hroom) ?_
  intro i hi
  refine .inl ?_
  rw [h.inStep.lookup?_refill]
  exact List.getElem?_eq_getElem hi

theorem resize (h : s.HoldsList o items) {n : Nat} (hn : n ≤ items.length) (hsmall : n < 4294967296) :
    (s.modifyFrame (s.propsOf o) (·.resize n)).HoldsList o (items.take n) := by
  have hsettled : Frame.settledLength n = n := if_pos hsmall
  have htake : (items.take n).length = n := List.length_take_of_le hn
  refine h.change (fun fr => .resize fr n) ?_ ?_
  · have hstep := h.inStep.resize n
    rw [hsettled] at hstep
    rwa [htake]
  · intro i hi
    rw [htake] at hi
    have hbelow : ¬(Key.index i).index?.any (Frame.settledLength n ≤ ·) := by
      simpa [Key.index?, hsettled] using hi
    refine .inr ⟨?_, ?_⟩
    · rw [h.inStep.lookup?_resize, if_neg (Key.index_ne_length i), if_neg hbelow]
    · rw [List.getElem_take, List.getElem?_eq_getElem]

end HoldsList

/-- A new array stands for the list that it is made from. -/
theorem addArray_items (s : Store) (proto : Option ObjectId) (hroom : values.length ≤ Frame.mostElements) :
    ((s.addArray proto values).2.body s.objects.size).isArray ∧
      (s.addArray proto values).2.arrayItems s.objects.size = values := by
  have hframe : (s.addArray proto values).2.frame ((s.addArray proto values).2.propsOf s.objects.size) =
      Frame.ofItems (s.parentFrame proto) values := by
    rw [propsOf, object_addArray, frame_addArray]
  refine ⟨?_, arrayItems_eq ?_ ?_⟩
  · rw [body, object_addArray]
    rfl
  · rw [arrayLength, hframe, (Frame.InStep.ofItems _ hroom).length_eq]
  · intro i hi
    refine arrayItem_of_lookup? ?_
    rw [hframe, Frame.lookup?_ofItems, List.getElem?_eq_getElem hi]

end Store

/-- A new engine in which an array has been made. -/
theorem Engine.made_newArray {values : List Value} (hroom : values.length ≤ Frame.mostElements) :
    let e := ((Engine.new {} {} []).run (Proc.newArray values)).2
    let o := (Engine.new {} {} []).store.objects.size
    Engine.Moment e.state ∧ (e.state.store.body o).isArray ∧ e.state.store.arrayItems o = values ∧
      (e.state.store.frame (e.state.store.propsOf o)).sealed = false := by
  intro e o
  have hstore : e.state.store = _ := (Engine.new {} {} []).store_run_newArray hroom
  obtain ⟨harray, hitems⟩ := (Engine.new {} {} []).store.addArray_items (some Realm.arrayPrototype) hroom
  rw [← hstore] at harray hitems
  refine ⟨.after _ (.new {} {} [] _), harray, hitems, ?_⟩
  rw [hstore, Store.propsOf, Store.object_addArray, Store.frame_addArray]
  exact Frame.sealed_of_reworked (.ofItems (fun _ => trivial) trivial _ values)

/-! ## The methods as list functions -/

namespace Arrays

/-- What a method of arrays answers. -/
inductive Answer where
  /-- A value. -/
  | value (v : Value)
  /-- The array itself. -/
  | receiver
  /-- A new array with the given elements. -/
  | fresh (values : List Value)

/-- What a method of arrays comes to. -/
structure Effect where
  /-- The elements that the array gets; there are none to write if it is left alone. -/
  written : Option (List Value)
  /-- The answer. -/
  answer : Answer

/-- The methods as functions of the elements and the arguments; `p` and `q` are the first two arguments as
positions, where they are given. An array among the arguments of `concat` stands for its elements. -/
def effect? (s : Store) (items args : List Value) (p q : Option Number.Whole) : ArrayFn → Option Effect
  | .push => some ⟨if args.isEmpty then none else some (items ++ args), .value (.ofNat (items ++ args).length)⟩
  | .pop => some ⟨if items.isEmpty then none else some items.dropLast, .value (items.getLastD .undefined)⟩
  | .shift => some ⟨if items.isEmpty then none else some items.tail, .value (items.headD .undefined)⟩
  | .unshift => some ⟨some (args ++ items), .value (.ofNat (args ++ items).length)⟩
  | .reverse => some ⟨some items.reverse, .receiver⟩
  | .splice =>
    let start := p.elim 0 (·.position items.length)
    let count := q.elim (items.length - start) (·.amount (items.length - start))
    if args.isEmpty then some ⟨none, .fresh []⟩
    else some ⟨some (items.take start ++ args.drop 2 ++ items.drop (start + count)),
      .fresh ((items.drop start).take count)⟩
  | .slice =>
    let start := p.elim 0 (·.position items.length)
    let stop := q.elim items.length (·.position items.length)
    some ⟨none, .fresh ((items.drop start).take (stop - start))⟩
  | .concat => some ⟨none, .fresh (items ++ args.flatMap (spread s))⟩
  | _ => none

/-- The elements of a new array that is the answer. -/
def Answer.elements : Answer → List Value
  | value _ => []
  | receiver => []
  | fresh values => values

/-- The lengths of what is written and of the new array are 32-bit numbers. -/
def Effect.Small (e : Effect) : Prop :=
  (e.written.getD []).length < 4294967296 ∧ e.answer.elements.length < 4294967296

instance (e : Effect) : Decidable e.Small := inferInstanceAs (Decidable (_ ∧ _))

/-- Whether a value is the answer: a new array is one that was not there before. -/
def Answer.Is (o : ObjectId) (s t : Store) (v : Value) : Answer → Prop
  | value w => v = w
  | receiver => v = .obj o
  | fresh values => ∃ new, v = .obj new ∧ s.objects.size ≤ new ∧ (t.body new).isArray ∧ t.arrayItems new = values

/-- What an effect comes to in the store. -/
structure Effect.Made (e : Effect) (o : ObjectId) (s t : Store) (v : Value) : Prop where
  items : t.arrayItems o = e.written.getD (s.arrayItems o)
  answer : e.answer.Is o s t v
  touches : s.Touches o t
  unchanged : e.written = none → t.frame (s.propsOf o) = s.frame (s.propsOf o)

/-! ## Arguments that are positions -/

/-- An argument that is a position: it is missing, or becomes a number in a way that leaves what is in the store
as it is. -/
inductive Position (limits : Limits) (bound : Nat) (handler : Handler) (s : State) (v : Value) :
    Option Number.Whole → State → Prop
  | missing (h : v = .undefined) : Position limits bound handler s v none s
  | number {x : Float} {t : State} (h : v ≠ .undefined)
      (hrun : (Proc.toNumber v).run limits bound handler s = (.ok x, t)) (hkeeps : s.store.Keeps t.store) :
      Position limits bound handler s v (some (Number.whole x)) t

end Arrays

/-! ## Runs -/

namespace State

/-- The state with the frame of an array changed. -/
def changed (s : State) (o : ObjectId) (c : Frame → Frame) : State :=
  { s with store := s.store.modifyFrame (s.store.propsOf o) c }

end State

namespace Arrays

open Proc

variable {limits : Limits} {bound : Nat} {handler : Handler} {s t : State} {o : ObjectId} {items values : List Value}
  {i : Invocation} {p q : Option Number.Whole}

/-! ## Receivers, reads and writes -/

theorem run_array {this : Value} (hthis : this = .obj o) (h : s.store.HoldsList o items) (what : String) :
    (array what this).run limits bound handler s = (.ok o, s) := by
  simp [array, hthis, Proc.body, run_bind, h.isArray]

theorem run_arrayLike {this : Value} (hthis : this = .obj o) (h : s.store.HoldsList o items) :
    (arrayLike this).run limits bound handler s = (.ok o, s) := by
  simp [arrayLike, hthis, Proc.body, run_bind, h.isArray]

theorem run_items (h : s.store.HoldsList o items) :
    (Arrays.items o).run limits bound handler s = (.ok items, s) := by
  rw [Arrays.items, run_read, h.items]

theorem run_length (h : s.store.HoldsList o items) :
    (Arrays.length o).run limits bound handler s = (.ok items.length, s) := by
  rw [Arrays.length, run_read, h.arrayLength]

theorem changeFrame_of_open (hopen : (s.store.frame (s.store.propsOf o)).sealed = false) (blame : Frame → Key)
    (c : Frame → Frame) : Action.changeFrame s (s.store.propsOf o) blame c = (.ok (), s.changed o c) := by
  simp [Action.changeFrame, hopen, State.changed]

theorem perform_append (h : s.store.HoldsList o items) (hopen : (s.store.frame (s.store.propsOf o)).sealed = false)
    (hroom : items.length + values.length ≤ Frame.mostElements) (hne : values ≠ []) :
    (Action.append (s.store.propsOf o) values).perform limits s =
      (.ok (), s.changed o (·.append values)) := by
  have henact : (Action.append (s.store.propsOf o) values).enact limits s = Action.changeFrame s (s.store.propsOf o)
      (fun fr => .index fr.length) (·.append values) := if_neg (by simpa using hne)
  rw [Action.perform, if_neg (by simpa [Action.demand, hopen, h.inStep.length_eq] using hroom)]
  exact henact.trans (changeFrame_of_open hopen _ _)

theorem perform_resize (hopen : (s.store.frame (s.store.propsOf o)).sealed = false) (n : Nat) :
    (Action.resize (s.store.propsOf o) n).perform limits s =
      (.ok (), s.changed o (·.resize n)) := by
  rw [Action.perform, if_neg (by simp [Action.demand])]
  exact changeFrame_of_open hopen (·.resizeBlame n) (·.resize n)

theorem run_refill (hopen : (s.store.frame (s.store.propsOf o)).sealed = false)
    (hroom : values.length ≤ Frame.mostElements) :
    (Arrays.refill o values).run limits bound handler s = (.ok (), s.changed o (·.refill values)) := by
  have hperform : (Action.refill (s.store.propsOf o) values).perform limits s =
      (.ok (), s.changed o (·.refill values)) := by
    rw [Action.perform, if_neg (by simpa [Action.demand, hopen] using hroom)]
    exact changeFrame_of_open hopen (·.resizeBlame 0) (·.refill values)
  exact run_perform hperform

theorem run_refill_of_sealed (hsealed : (s.store.frame (s.store.propsOf o)).sealed = true) (values : List Value) :
    ∃ k, (Arrays.refill o values).run limits bound handler s = (.fault (.sealed k), s) :=
  ⟨_, run_then (run_read _ _) (run_refused (Action.perform_refill_of_sealed hsealed values))⟩

theorem run_newLike (o : ObjectId) (hroom : values.length ≤ Frame.mostElements) :
    (newLike o values).run limits bound handler s =
      (.ok (.obj s.store.objects.size), s.withArray (s.store.object o).proto values) := by
  rw [newLike, run_bind, run_read, Course.andThen_ok, run_bind, run_perform (Action.perform_newArray _ hroom)]
  rfl

/-! ## Positions -/

theorem Position.keeps {v : Value} (h : Position limits bound handler s v p t) : s.store.Keeps t.store := by
  cases h with
  | missing h => exact .refl _
  | number h hrun hkeeps => exact hkeeps

/-- A number is a position. -/
theorem Position.num (x : Float) : Position limits bound handler s (.num x) (some (Number.whole x)) s :=
  .number nofun rfl (.refl _)

theorem isUndefined_of_ne {v : Value} (h : v ≠ .undefined) : v.isUndefined = false := by
  cases v <;> first | rfl | exact absurd rfl h

theorem run_relativeIndex {v : Value} (h : Position limits bound handler s v p t) (n default : Nat) :
    (relativeIndex v n default).run limits bound handler s = (.ok (p.elim default (·.position n)), t) := by
  cases h with
  | missing h =>
    subst h
    rfl
  | @number x t h hrun hkeeps =>
    rw [relativeIndex, isUndefined_of_ne h, if_neg Bool.false_ne_true]
    refine run_then hrun ?_
    cases Number.whole x with
    | infinite negative => cases negative <;> rfl
    | finite j =>
      have hposition : (if j < 0 then ((n : Int) + j).toNat else min j.toNat n) = (Number.Whole.finite j).position n := by
        simp only [Number.Whole.position]
        split <;> omega
      rw [Option.elim_some, ← hposition]
      rfl

theorem run_boundedIndex {v : Value} {x : Float} (hrun : (toNumber v).run limits bound handler s = (.ok x, t))
    (n : Nat) : (boundedIndex v n).run limits bound handler s = (.ok ((Number.whole x).amount n), t) := by
  refine run_then hrun ?_
  cases Number.whole x with
  | infinite negative => cases negative <;> rfl
  | finite j =>
    have hamount : min j.toNat n = (Number.Whole.finite j).amount n := by
      simp only [Number.Whole.amount]
      omega
    rw [← hamount]
    rfl

/-- A number of elements, all of them if it is missing, and what is done with it. -/
theorem run_amount {β : Type} {v : Value} (h : Position limits bound handler s v p t) (n : Nat) (k : Nat → Proc β) :
    (if v.isUndefined then pure n >>= k else boundedIndex v n >>= k).run limits bound handler s =
      (k (p.elim n (·.amount n))).run limits bound handler t := by
  cases h with
  | missing h =>
    subst h
    rfl
  | @number x t h hrun hkeeps =>
    rw [isUndefined_of_ne h, if_neg Bool.false_ne_true]
    exact run_then (run_boundedIndex hrun n) rfl

/-! ## Each method -/

/-- An array that is left alone. -/
theorem Effect.Made.of_keeps {v : Value} {s t : Store} {answer : Answer} (h : s.HoldsList o items)
    (hkeeps : s.Keeps t) (hanswer : answer.Is o s t v) : Effect.Made ⟨none, answer⟩ o s t v where
  items := by
    rw [(h.keeps hkeeps).items, h.items]
    rfl
  answer := hanswer
  touches := hkeeps.touches h.propsOf_lt
  unchanged _ := hkeeps.frame _ h.propsOf_lt

/-- An array that gets other elements. -/
theorem Effect.Made.of_touches {v : Value} {s t : Store} {answer : Answer} (ht : t.HoldsList o values)
    (htouches : s.Touches o t) (hanswer : answer.Is o s t v) : Effect.Made ⟨some values, answer⟩ o s t v where
  items := ht.items
  answer := hanswer
  touches := htouches
  unchanged := nofun

theorem le_mostElements {n : Nat} (h : n < 4294967296) : n ≤ Frame.mostElements := by
  unfold Frame.mostElements
  omega

/-- The answer is a new array. -/
theorem fresh_is {s t : Store} (proto : Option ObjectId) (hroom : values.length ≤ Frame.mostElements)
    (hsize : s.objects.size ≤ t.objects.size) :
    (Answer.fresh values).Is o s (t.addArray proto values).2 (.obj t.objects.size) := by
  obtain ⟨harray, hitems⟩ := t.addArray_items proto hroom
  exact ⟨t.objects.size, rfl, hsize, harray, hitems⟩

/-- A method run at a state does what an effect says. -/
def Effect.Done (e : Effect) (limits : Limits) (bound : Nat) (handler : Handler) (f : ArrayFn) (i : Invocation)
    (s : State) (o : ObjectId) : Prop :=
  ∃ v t, (f.invoke i).run limits bound handler s = (.ok v, t) ∧ e.Made o s.store t.store v

/-- A method run at a state is refused because something is sealed. Nothing that was there has changed. -/
def Refused (limits : Limits) (bound : Nat) (handler : Handler) (f : ArrayFn) (i : Invocation) (s : State) : Prop :=
  ∃ k t, (f.invoke i).run limits bound handler s = (.fault (.sealed k), t) ∧ s.store.Keeps t.store

/-- A method that comes to writing all the elements back to an array that is sealed is refused. -/
theorem refused_refill (h : s.store.HoldsList o items) (hsealed : (s.store.frame (s.store.propsOf o)).sealed = true)
    {f : ArrayFn} {t : State} {g : Unit → Proc Value} (hkeeps : s.store.Keeps t.store)
    (hrun : (f.invoke i).run limits bound handler s = (Arrays.refill o values >>= g).run limits bound handler t) :
    Refused limits bound handler f i s := by
  have hstill : (t.store.frame (t.store.propsOf o)).sealed = true := by
    rw [hkeeps.propsOf h.lt_size, hkeeps.frame _ h.propsOf_lt, hsealed]
  obtain ⟨k, hrefill⟩ := @run_refill_of_sealed limits bound handler t o hstill values
  exact ⟨k, t, hrun.trans (run_stopped hrefill), hkeeps⟩

section Methods

variable (h : s.store.HoldsList o items) (hthis : i.this = .obj o)

include h hthis

/-- To push nothing is to ask for the length. -/
theorem run_push_nil (hargs : i.args = []) :
    (ArrayFn.push.invoke i).run limits bound handler s = (.ok (.ofNat items.length), s) := by
  have hperform : (Action.append (s.store.propsOf o) i.args).perform limits s = (.ok (), s) := by
    have hroom : (Action.append (s.store.propsOf o) i.args).demand s ≤ Frame.mostElements :=
      (Action.room_le _ _ _).trans (by simpa [h.inStep.length_eq, hargs] using h.inStep.room)
    rw [Action.perform, if_neg hroom.not_gt, hargs]
    rfl
  refine run_then (run_array hthis h "push") (run_then (run_read _ _) ?_)
  exact run_then (run_perform hperform) (run_then (run_length h) rfl)

theorem run_push (hopen : (s.store.frame (s.store.propsOf o)).sealed = false) (hargs : i.args ≠ [])
    (hroom : items.length + i.args.length ≤ Frame.mostElements) :
    (ArrayFn.push.invoke i).run limits bound handler s =
      (.ok (.ofNat (items ++ i.args).length), s.changed o (·.append i.args)) := by
  refine run_then (run_array hthis h "push") (run_then (run_read _ _) ?_)
  exact run_then (run_perform (perform_append h hopen hroom hargs)) (run_then (run_length (h.append hroom)) rfl)

theorem run_pop (hopen : (s.store.frame (s.store.propsOf o)).sealed = false) {n : Nat} (hn : items.length = n + 1) :
    (ArrayFn.pop.invoke i).run limits bound handler s = (.ok (s.store.arrayItem o n), s.changed o (·.resize n)) := by
  refine run_then (run_array hthis h "pop") (run_then (run_length h) ?_)
  rw [hn]
  refine run_then (run_read _ _) (run_then (run_read _ _) ?_)
  exact run_then (run_perform (perform_resize hopen n)) rfl

theorem done_push (hopen : i.args ≠ [] → (s.store.frame (s.store.propsOf o)).sealed = false)
    (hroom : items.length + i.args.length ≤ Frame.mostElements) :
    Effect.Done ⟨if i.args.isEmpty then none else some (items ++ i.args), .value (.ofNat (items ++ i.args).length)⟩
      limits bound handler .push i s o := by
  by_cases hargs : i.args = []
  · have hrun := @run_push_nil limits bound handler s o items i h hthis hargs
    rw [hargs, List.append_nil]
    exact ⟨_, s, hrun, .of_keeps h (.refl _) rfl⟩
  · rw [if_neg (by simpa using hargs)]
    refine ⟨_, _, run_push h hthis (hopen hargs) hargs hroom, ?_⟩
    exact .of_touches (h.append hroom) (.modifyFrame s.store o fun fr => .append fr i.args) rfl

theorem done_pop (hopen : items ≠ [] → (s.store.frame (s.store.propsOf o)).sealed = false)
    (hsmall : items.dropLast.length < 4294967296) :
    Effect.Done ⟨if items.isEmpty then none else some items.dropLast, .value (items.getLastD .undefined)⟩
      limits bound handler .pop i s o := by
  by_cases hitems : items = []
  · subst hitems
    exact ⟨_, s, run_then (run_array hthis h "pop") (run_then (run_length h) rfl), .of_keeps h (.refl _) rfl⟩
  · obtain ⟨n, hn⟩ := Nat.exists_eq_add_one_of_ne_zero (List.length_pos_iff.2 hitems).ne'
    have hlt : n < items.length := by omega
    have hdrop : items.dropLast = items.take n := by rw [List.dropLast_eq_take, hn, Nat.add_sub_cancel]
    have hlast : s.store.arrayItem o n = items.getLastD .undefined := by
      have hget : items.getLast? = some items[n] := by
        rw [List.getLast?_eq_getElem?, hn, Nat.add_sub_cancel, List.getElem?_eq_getElem hlt]
      rw [h.arrayItem hlt, List.getLastD_eq_getLast?, hget, Option.getD_some]
    rw [hdrop, List.length_take_of_le hlt.le] at hsmall
    rw [if_neg (by simpa using hitems), hdrop]
    refine ⟨_, _, run_pop h hthis (hopen hitems) hn, ?_⟩
    exact .of_touches (h.resize hlt.le hsmall) (.modifyFrame s.store o fun fr => .resize fr n) hlast

theorem done_shift (hopen : items ≠ [] → (s.store.frame (s.store.propsOf o)).sealed = false) :
    Effect.Done ⟨if items.isEmpty then none else some items.tail, .value (items.headD .undefined)⟩
      limits bound handler .shift i s o := by
  cases items with
  | nil => exact ⟨_, s, run_then (run_array hthis h "shift") (run_then (run_items h) rfl), .of_keeps h (.refl _) rfl⟩
  | cons v rest =>
    have hroom : rest.length ≤ Frame.mostElements := Nat.le_of_succ_le h.inStep.room
    have hrun : (ArrayFn.shift.invoke i).run limits bound handler s = (.ok v, s.changed o (·.refill rest)) := by
      refine run_then (run_array hthis h "shift") (run_then (run_items h) ?_)
      exact run_then (run_refill (hopen nofun) hroom) rfl
    exact ⟨_, _, hrun, .of_touches (h.refill hroom) (.modifyFrame s.store o fun fr => .refill fr rest) rfl⟩

theorem done_unshift (hopen : (s.store.frame (s.store.propsOf o)).sealed = false)
    (hroom : (i.args ++ items).length ≤ Frame.mostElements) :
    Effect.Done ⟨some (i.args ++ items), .value (.ofNat (i.args ++ items).length)⟩
      limits bound handler .unshift i s o := by
  have hrefill := h.refill hroom
  have hrun : (ArrayFn.unshift.invoke i).run limits bound handler s =
      (.ok (.ofNat (i.args ++ items).length), s.changed o (·.refill (i.args ++ items))) := by
    refine run_then (run_array hthis h "unshift") (run_then (run_items h) ?_)
    exact run_then (run_refill hopen hroom) (run_then (run_length hrefill) rfl)
  exact ⟨_, _, hrun, .of_touches hrefill (.modifyFrame s.store o fun fr => .refill fr (i.args ++ items)) rfl⟩

theorem done_reverse (hopen : (s.store.frame (s.store.propsOf o)).sealed = false) :
    Effect.Done ⟨some items.reverse, .receiver⟩ limits bound handler .reverse i s o := by
  have hroom : items.reverse.length ≤ Frame.mostElements := by
    rw [List.length_reverse]
    exact h.inStep.room
  have hrun : (ArrayFn.reverse.invoke i).run limits bound handler s =
      (.ok (.obj o), s.changed o (·.refill items.reverse)) := by
    refine run_then (run_array hthis h "reverse") (run_then (run_items h) ?_)
    exact run_then (run_refill hopen hroom) rfl
  exact ⟨_, _, hrun, .of_touches (h.refill hroom) (.modifyFrame s.store o fun fr => .refill fr items.reverse) rfl⟩

theorem done_concat (hroom : (items ++ i.args.flatMap (spread s.store)).length ≤ Frame.mostElements) :
    Effect.Done ⟨none, .fresh (items ++ i.args.flatMap (spread s.store))⟩ limits bound handler .concat i s o := by
  have hrun : (ArrayFn.concat.invoke i).run limits bound handler s = (.ok (.obj s.store.objects.size),
      s.withArray (s.store.object o).proto (items ++ i.args.flatMap (spread s.store))) := by
    refine run_then (run_arrayLike hthis h) (run_then (run_read _ _) ?_)
    rw [h.items]
    exact run_newLike o hroom
  exact ⟨_, _, hrun, .of_keeps h (.addArray _ _ _) (fresh_is _ hroom (Nat.le_refl _))⟩

/-- The part between two positions. The positions are found first, and the elements are read after that. -/
theorem done_slice {s₁ s₂ : State} (hp : Position limits bound handler s (i.arg 0) p s₁)
    (hq : Position limits bound handler s₁ (i.arg 1) q s₂) :
    let start := p.elim 0 (·.position items.length)
    let stop := q.elim items.length (·.position items.length)
    Effect.Done ⟨none, .fresh ((items.drop start).take (stop - start))⟩ limits bound handler .slice i s o := by
  intro start stop
  have hkeeps := hp.keeps.trans hq.keeps
  have hheld := h.keeps hkeeps
  have hlist : sliceList items start stop = (items.drop start).take (stop - start) := List.drop_take
  have hroom : ((items.drop start).take (stop - start)).length ≤ Frame.mostElements := by
    have := h.inStep.room
    simp only [List.length_take, List.length_drop]
    omega
  have hrun : (ArrayFn.slice.invoke i).run limits bound handler s = (.ok (.obj s₂.store.objects.size),
      s₂.withArray (s₂.store.object o).proto ((items.drop start).take (stop - start))) := by
    refine run_then (run_arrayLike hthis h) (run_then (run_length h) ?_)
    refine run_then (run_relativeIndex hp items.length 0) (run_then (run_relativeIndex hq items.length items.length) ?_)
    refine run_then (run_read _ _) ?_
    rw [hheld.items, ← hlist]
    exact run_newLike o (by rwa [hlist])
  exact ⟨_, _, hrun, .of_keeps h (hkeeps.trans (.addArray _ _ _)) (fresh_is _ hroom hkeeps.objects)⟩

/-- Elements in place of others. The elements are read first, and written when the positions are known. -/
theorem done_splice {s₁ s₂ : State} (hp : Position limits bound handler s (i.arg 0) p s₁)
    (hq : Position limits bound handler s₁ (i.arg 1) q s₂) (hargs : i.args ≠ [])
    (hopen : (s.store.frame (s.store.propsOf o)).sealed = false) {start count : Nat}
    (hstart : start = p.elim 0 (·.position items.length))
    (hcount : count = q.elim (items.length - start) (·.amount (items.length - start)))
    (hroom : (items.take start ++ i.args.drop 2 ++ items.drop (start + count)).length ≤ Frame.mostElements) :
    Effect.Done ⟨some (items.take start ++ i.args.drop 2 ++ items.drop (start + count)),
      .fresh ((items.drop start).take count)⟩ limits bound handler .splice i s o := by
  have hkeeps := hp.keeps.trans hq.keeps
  have hheld := h.keeps hkeeps
  have hprops := hkeeps.propsOf h.lt_size
  have hopen₂ : (s₂.store.frame (s₂.store.propsOf o)).sealed = false := by
    rw [hprops, hkeeps.frame _ h.propsOf_lt, hopen]
  have hremoved : sliceList items start (start + count) = (items.drop start).take count := by
    rw [sliceList, List.drop_take, Nat.add_sub_cancel_left]
  have hfresh : ((items.drop start).take count).length ≤ Frame.mostElements := by
    have := h.inStep.room
    simp only [List.length_take, List.length_drop]
    omega
  let written := items.take start ++ i.args.drop 2 ++ items.drop (start + count)
  let s₃ := s₂.changed o (·.refill written)
  have hrun : (ArrayFn.splice.invoke i).run limits bound handler s = (.ok (.obj s₃.store.objects.size),
      s₃.withArray (s₃.store.object o).proto ((items.drop start).take count)) := by
    refine run_then (run_array hthis h "splice") ?_
    rw [if_neg (by simpa using hargs)]
    refine run_then (run_items h) (run_then (run_relativeIndex hp items.length 0) ?_)
    rw [← hstart]
    refine (run_amount hq (items.length - start) _).trans ?_
    rw [← hcount]
    refine run_then (run_refill hopen₂ hroom) ?_
    rw [hremoved]
    exact run_newLike o hfresh
  have hrewritten : s₃.store.HoldsList o written := hheld.refill hroom
  have htouches : s.store.Touches o s₃.store :=
    (hkeeps.touches h.propsOf_lt).trans (.modifyFrame s₂.store o fun fr => .refill fr written) h.lt_size
  have hnew := Store.Keeps.addArray s₃.store (s₃.store.object o).proto ((items.drop start).take count)
  refine ⟨_, _, hrun, .of_touches (hrewritten.keeps hnew) ?_ (fresh_is _ hfresh htouches.objects)⟩
  exact htouches.trans (hnew.touches hrewritten.propsOf_lt) h.lt_size

/-- Without arguments nothing is replaced. -/
theorem done_splice_nil (hargs : i.args = []) :
    Effect.Done ⟨none, .fresh []⟩ limits bound handler .splice i s o := by
  have hroom : ([] : List Value).length ≤ Frame.mostElements := Nat.zero_le _
  have hrun : (ArrayFn.splice.invoke i).run limits bound handler s = (.ok (.obj s.store.objects.size),
      s.withArray (some Realm.arrayPrototype) []) := by
    refine run_then (run_array hthis h "splice") ?_
    rw [if_pos (by simpa using hargs)]
    exact run_newArray hroom
  exact ⟨_, _, hrun, .of_keeps h (.addArray _ _ _) (fresh_is _ hroom (Nat.le_refl _))⟩

/-! ## Each method on an array that is sealed -/

/-- What is not appended is not pushed. -/
theorem run_push_refused {e : Fault}
    (hperform : (Action.append (s.store.propsOf o) i.args).perform limits s = (.error e, s)) :
    (ArrayFn.push.invoke i).run limits bound handler s = (.fault e, s) :=
  run_then (run_array hthis h "push") (run_then (run_read _ _) (run_stopped (run_refused hperform)))

section Sealed

variable (hsealed : (s.store.frame (s.store.propsOf o)).sealed = true)

include hsealed

theorem refused_push (hargs : i.args ≠ []) : Refused limits bound handler .push i s :=
  ⟨_, s, run_push_refused h hthis (Action.perform_append_of_sealed hsealed hargs), .refl _⟩

theorem refused_pop (hitems : items ≠ []) : Refused limits bound handler .pop i s := by
  obtain ⟨n, hn⟩ := Nat.exists_eq_add_one_of_ne_zero (List.length_pos_iff.2 hitems).ne'
  have hrun : (ArrayFn.pop.invoke i).run limits bound handler s =
      (.fault (.sealed ((s.store.frame (s.store.propsOf o)).resizeBlame n)), s) := by
    refine run_then (run_array hthis h "pop") (run_then (run_length h) ?_)
    rw [hn]
    refine run_then (run_read _ _) (run_then (run_read _ _) ?_)
    exact run_stopped (run_refused (Action.perform_resize_of_sealed hsealed n))
  exact ⟨_, s, hrun, .refl _⟩

theorem refused_shift (hitems : items ≠ []) : Refused limits bound handler .shift i s := by
  obtain ⟨v, rest, rfl⟩ := List.exists_cons_of_ne_nil hitems
  apply refused_refill h hsealed (.refl _)
  exact run_then (run_array hthis h "shift") (run_then (run_items h) rfl)

theorem refused_unshift : Refused limits bound handler .unshift i s := by
  apply refused_refill h hsealed (.refl _)
  exact run_then (run_array hthis h "unshift") (run_then (run_items h) rfl)

theorem refused_reverse : Refused limits bound handler .reverse i s := by
  apply refused_refill h hsealed (.refl _)
  exact run_then (run_array hthis h "reverse") (run_then (run_items h) rfl)

/-- The positions are found before it comes to writing. -/
theorem refused_splice {s₁ s₂ : State} (hp : Position limits bound handler s (i.arg 0) p s₁)
    (hq : Position limits bound handler s₁ (i.arg 1) q s₂) (hargs : i.args ≠ []) :
    Refused limits bound handler .splice i s := by
  apply refused_refill h hsealed (hp.keeps.trans hq.keeps)
  refine run_then (run_array hthis h "splice") ?_
  rw [if_neg (by simpa using hargs)]
  refine run_then (run_items h) (run_then (run_relativeIndex hp items.length 0) ?_)
  exact run_amount hq _ _

end Sealed

end Methods

/-! ## All methods -/

/-- At every moment of an engine, the eight methods simulate functions on the list of the elements of an array,
holes and inherited elements included. Where the method leaves the array alone, or the array is not sealed, it ends
with the answer that the list function gives, the elements of the array are then the list that it writes, and nothing
else that was there has changed; in particular properties under other names have not. Lengths have to be 32-bit
numbers. Where the method writes and the array is sealed, it is refused, and nothing that was there has changed. To
write an empty list is to write too. -/
theorem simulates_list {s : State} (hs : Engine.Moment s) {o : ObjectId} (ho : (s.store.body o).isArray)
    {limits : Limits} {bound : Nat} {handler : Handler} {f : ArrayFn} {i : Invocation} (hthis : i.this = .obj o)
    {p q : Option Number.Whole} (hargs : f = .slice ∨ f = .splice → ∃ s₁ s₂,
      Position limits bound handler s (i.arg 0) p s₁ ∧ Position limits bound handler s₁ (i.arg 1) q s₂)
    {e : Effect} (he : effect? s.store (s.store.arrayItems o) i.args p q f = some e) :
    (e.Small → (e.written.isSome → (s.store.frame (s.store.propsOf o)).sealed = false) →
      ∃ v t, (f.invoke i).run limits bound handler s = (.ok v, t) ∧ e.Made o s.store t.store v) ∧
    (e.written.isSome → (s.store.frame (s.store.propsOf o)).sealed = true →
      ∃ k t, (f.invoke i).run limits bound handler s = (.fault (.sealed k), t) ∧ s.store.Keeps t.store) := by
  have h := hs.tidy.holdsList ho
  generalize s.store.arrayItems o = items at h he
  cases f with
  | push =>
    obtain rfl := Option.some.inj he
    by_cases hne : i.args = []
    · refine ⟨fun _ _ => done_push h hthis (absurd hne) (by simpa [hne] using h.inStep.room), ?_⟩
      simp [hne]
    · rw [if_neg (by simpa using hne)]
      refine ⟨fun hsmall hopen => ?_, fun _ hsealed => refused_push h hthis hsealed hne⟩
      have hroom := le_mostElements hsmall.1
      rw [Option.getD_some, List.length_append] at hroom
      have hdone := @done_push limits bound handler s o items i h hthis (fun _ => hopen rfl) hroom
      rwa [if_neg (by simpa using hne)] at hdone
  | pop =>
    obtain rfl := Option.some.inj he
    by_cases hne : items = []
    · refine ⟨fun _ _ => done_pop h hthis (absurd hne) (by simp [hne]), ?_⟩
      simp [hne]
    · refine ⟨fun hsmall hopen => ?_, fun _ hsealed => refused_pop h hthis hsealed hne⟩
      rw [if_neg (by simpa using hne)] at hsmall hopen
      exact done_pop h hthis (fun _ => hopen rfl) hsmall.1
  | shift =>
    obtain rfl := Option.some.inj he
    by_cases hne : items = []
    · refine ⟨fun _ _ => done_shift h hthis (absurd hne), ?_⟩
      simp [hne]
    · refine ⟨fun _ hopen => done_shift h hthis fun _ => hopen ?_, fun _ hsealed => refused_shift h hthis hsealed hne⟩
      rw [if_neg (by simpa using hne)]
      rfl
  | unshift =>
    obtain rfl := Option.some.inj he
    exact ⟨fun hsmall hopen => done_unshift h hthis (hopen rfl) (le_mostElements hsmall.1),
      fun _ hsealed => refused_unshift h hthis hsealed⟩
  | reverse =>
    obtain rfl := Option.some.inj he
    exact ⟨fun _ hopen => done_reverse h hthis (hopen rfl), fun _ hsealed => refused_reverse h hthis hsealed⟩
  | concat =>
    obtain rfl := Option.some.inj he
    exact ⟨fun hsmall _ => done_concat h hthis (le_mostElements hsmall.2), nofun⟩
  | slice =>
    obtain rfl := Option.some.inj he
    obtain ⟨s₁, s₂, hp, hq⟩ := hargs (.inl rfl)
    exact ⟨fun _ _ => done_slice h hthis hp hq, nofun⟩
  | splice =>
    simp only [effect?] at he
    by_cases hne : i.args = []
    · rw [if_pos (by simpa using hne)] at he
      obtain rfl := Option.some.inj he
      exact ⟨fun _ _ => done_splice_nil h hthis hne, nofun⟩
    · rw [if_neg (by simpa using hne)] at he
      obtain rfl := Option.some.inj he
      obtain ⟨s₁, s₂, hp, hq⟩ := hargs (.inr rfl)
      exact ⟨fun hsmall hopen => done_splice h hthis hp hq hne (hopen rfl) rfl rfl (le_mostElements hsmall.1),
        fun _ hsealed => refused_splice h hthis hsealed hp hq hne⟩
  | _ => cases he

/-- One element is replaced, counted from the end by a number with a fraction. -/
theorem simulates_list_replaced :
    let e := ((Engine.new {} {} []).run (Proc.newArray [.bool true, .bool false, .bool true, .bool true])).2
    let o := (Engine.new {} {} []).store.objects.size
    ∃ v t, e.run (ArrayFn.splice.invoke ⟨none, .obj o, [.num (-2.5), .num 1.0, .null]⟩) =
        (.ok v, { e with state := t }) ∧ t.store.arrayItems o = [.bool true, .bool false, .null, .bool true] := by
  intro e o
  have hroom : [Value.bool true, .bool false, .bool true, .bool true].length ≤ Frame.mostElements := by decide
  obtain ⟨hmoment, harray, hitems, hopen⟩ := Engine.made_newArray hroom
  have hp : Number.whole (-2.5) = .finite (-2) := by decide +kernel
  have hq : Number.whole 1.0 = .finite 1 := by decide +kernel
  obtain ⟨v, t, hrun, hmade⟩ := (@simulates_list e.state hmoment o harray e.limits e.fuel
    (answer e.limits e.fuel e.fuel e.limits.stack) .splice ⟨none, .obj o, [.num (-2.5), .num 1.0, .null]⟩ rfl
    (some (.finite (-2))) (some (.finite 1)) (fun _ => ⟨e.state, e.state, hp ▸ .num (-2.5), hq ▸ .num 1.0⟩)
    ⟨some [.bool true, .bool false, .null, .bool true], .fresh [.bool true]⟩ (by rw [hitems]; rfl)).1 (by decide)
    (fun _ => hopen)
  refine ⟨v, t, ?_, hmade.items⟩
  rw [Engine.run, Proc.runIn, hrun]

/-- An engine with an array that is sealed, and holds nothing. -/
def sealedArray : Engine :=
  let elements : Frame := { Frame.ofItems (some 1) [] with sealed := true }
  let objects := #[{ props := 1 }, { proto := some 0, props := 2, body := .array }]
  { state := { store := { frames := #[{ role := .core }, {}, elements], objects } } }

/-- What the methods do with an array that is sealed, and `splice` without arguments, are exceptions: nothing is
added to the array, and the work ends with a fault; and nothing is removed, although positions that are missing
stand for all the elements. -/
theorem simulates_list_exceptions :
    ((sealedArray.store.body 1).isArray ∧
      (sealedArray.run (ArrayFn.push.invoke ⟨none, .obj 1, [.null]⟩)).1.isRefused) ∧
    let e := ((Engine.new {} {} []).run (Proc.newArray [.null])).2
    let o := (Engine.new {} {} []).store.objects.size
    (e.store.body o).isArray ∧ (e.run (ArrayFn.splice.invoke ⟨none, .obj o, []⟩)).2.store.arrayItems o = [.null] := by
  refine ⟨⟨rfl, by decide +kernel⟩, ?_⟩
  intro e o
  have hroom : [Value.null].length ≤ Frame.mostElements := by decide
  obtain ⟨hmoment, harray, hitems, -⟩ := Engine.made_newArray hroom
  have hheld := hmoment.tidy.holdsList harray
  obtain ⟨v, t, hrun, hmade⟩ := @done_splice_nil e.limits e.fuel (answer e.limits e.fuel e.fuel e.limits.stack)
    e.state o _ ⟨none, .obj o, []⟩ hheld rfl rfl
  refine ⟨harray, ?_⟩
  rw [Engine.run, Proc.runIn, hrun]
  change t.store.arrayItems o = _
  rw [hmade.items, Option.getD_none, hitems]

end Arrays

end ScriptEngine
