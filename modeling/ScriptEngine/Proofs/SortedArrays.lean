import ScriptEngine.Proofs.Links
import ScriptEngine.Proofs.ListMethods
import ScriptEngine.Proofs.Merging

/-!
# Arrays that are sorted

Sorting reads the elements of an array, sets those that are `undefined` apart, compares the others, and writes all of them
back in one action. A comparison function can do anything in between, to the array as well, but it cannot take away what
has been read: the elements are written as they were when sorting began, in another order. That order is right if the
answers are those of some order, and elements that are equal in it have not passed each other.

## Main definitions

* `Sorting.Consistent`, `Sorting.Ordered`: orders, and lists in them.
* `State.Obeys`: comparisons with the answers of an order.
* `Store.Rearranged`: what has become of an array.

## Main results

* `Sorting.Consistent.ordered`: the order of the elements, from the order of their ranks.
* `Arrays.sort_rearranges`: what sorting does to an array.
-/

namespace ScriptEngine

/-! ## Orders -/

namespace Sorting

variable {α : Type} {P : α → Prop} {c : α → α → Ordering} {l l' : List α} {x y : α}

/-- An order of the elements with `P`: it does not contradict itself, but different elements can be equal in it. -/
structure Consistent (P : α → Prop) (c : α → α → Ordering) : Prop where
  /-- The other way round, the answer is the opposite. -/
  swap {x y : α} (hx : P x) (hy : P y) : c y x = (c x y).swap
  /-- Of three elements in order the last does not come before the first. -/
  trans {x y z : α} (hx : P x) (hy : P y) (hz : P z) (h : c x y ≠ .gt) (h' : c y z ≠ .gt) : c x z ≠ .gt

/-- The elements of a list in ascending order; those that are equal follow each other as they do in the list. -/
structure Ordered (c : α → α → Ordering) (l l' : List α) : Prop where
  ascending : l'.Pairwise fun x y => c x y ≠ .gt
  stable (x : α) (hx : x ∈ l) : l'.filter (c x · = .eq) = l.filter (c x · = .eq)

/-- The number of elements of a list that come before an element. -/
def rank (c : α → α → Ordering) (l : List α) (x : α) : Int := (l.countP (c · x = .lt) : Nat)

/-- Fewer elements have the stronger of two properties, if it makes a difference for one of them. -/
theorem countP_lt_countP {p q : α → Bool} (h : ∀ z ∈ l, p z → q z) (hx : x ∈ l) (hq : q x) (hp : ¬p x) :
    l.countP p < l.countP q := by
  refine Nat.lt_of_le_of_ne (List.countP_mono_left h) fun he => hp ?_
  have hboth : (l.filter q).countP p = (l.filter q).length := by
    rw [List.countP_filter, ← List.countP_eq_length_filter, ← he]
    exact List.countP_congr fun z hz => by simpa using h z hz
  exact List.countP_eq_length.1 hboth x (List.mem_filter.2 ⟨hx, hq⟩)

namespace Consistent

theorem self (h : Consistent P c) (hx : P x) : c x x = .eq := by
  have hswap := h.swap hx hx
  cases hc : c x x with
  | eq => rfl
  | lt => simp [hc] at hswap
  | gt => simp [hc] at hswap

/-- What comes before an element comes before all that do not come before the element. -/
theorem lt_of_lt_of_le {z : α} (h : Consistent P c) (hx : P x) (hy : P y) (hz : P z) (hlt : c x y = .lt)
    (hle : c y z ≠ .gt) : c x z = .lt := by
  by_contra hnot
  have hback : c z x ≠ .gt := by rwa [h.swap hx hz, Ne, Ordering.swap_eq_gt]
  have hgt := h.trans hy hz hx hle hback
  rw [h.swap hx hy, hlt] at hgt
  exact hgt rfl

/-- Elements are in the order of their ranks. -/
theorem rank_lt_iff (h : Consistent (· ∈ l) c) (hx : x ∈ l) (hy : y ∈ l) : rank c l x < rank c l y ↔ c x y = .lt := by
  rw [rank, rank, Int.ofNat_lt]
  constructor
  · intro hlt
    by_contra hnot
    have hle : c y x ≠ .gt := by rwa [h.swap hx hy, Ne, Ordering.swap_eq_gt]
    refine Nat.not_le_of_lt hlt (List.countP_mono_left fun z hz hbefore => ?_)
    simpa using h.lt_of_lt_of_le hz hy hx (by simpa using hbefore) hle
  · intro hlt
    refine countP_lt_countP (fun z hz hbefore => ?_) hx (by simpa using hlt) (by simp [h.self hx])
    simpa using h.lt_of_lt_of_le hz hx hy (by simpa using hbefore) (by simp [hlt])

theorem rank_le_iff (h : Consistent (· ∈ l) c) (hx : x ∈ l) (hy : y ∈ l) :
    rank c l x ≤ rank c l y ↔ c x y ≠ .gt := by
  rw [← Int.not_lt, h.rank_lt_iff hy hx, h.swap hx hy, Ordering.swap_eq_lt]

theorem rank_eq_iff (h : Consistent (· ∈ l) c) (hx : x ∈ l) (hy : y ∈ l) :
    rank c l y = rank c l x ↔ c x y = .eq := by
  rw [Int.le_antisymm_iff, h.rank_le_iff hx hy, h.rank_le_iff hy hx, h.swap hx hy]
  cases c x y <;> simp

/-- Elements that are arranged by their ranks are in order. -/
theorem ordered (h : Consistent (· ∈ l) c) (harranged : Arranged True (rank c l) l l')
    (hascending : Ascending True (rank c l) l') : Ordered c l l' where
  ascending := by
    refine (hascending trivial).imp_of_mem fun hx hy hle => ?_
    exact (h.rank_le_iff (harranged.perm.mem_iff.2 hx) (harranged.perm.mem_iff.2 hy)).1 hle
  stable x hx := by
    have hrank (m : List α) (hm : ∀ y ∈ m, y ∈ l) :
        m.filter (c x · = .eq) = m.filter (rank c l · = rank c l x) :=
      List.filter_congr fun y hy => by simp only [h.rank_eq_iff hx (hm y hy)]
    rw [hrank l' fun y hy => harranged.perm.mem_iff.2 hy, hrank l fun _ hy => hy]
    exact harranged.stable trivial _

end Consistent

/-- Sorting by an order that can be computed. -/
theorem ordered_mergeSort (hc : Consistent (fun _ => True) c) (l : List α) :
    Ordered c l (l.mergeSort (c · · != .gt)) := by
  have htrans (x y z : α) (h : (c x y != .gt) = true) (h' : (c y z != .gt) = true) : (c x z != .gt) = true := by
    simp only [bne_iff_ne] at h h' ⊢
    exact hc.trans trivial trivial trivial h h'
  have htotal (x y : α) : (c x y != .gt || c y x != .gt) = true := by
    rw [@hc.swap y x trivial trivial]
    cases c y x <;> rfl
  refine ⟨(List.pairwise_mergeSort htrans htotal l).imp fun h => by simpa using h, fun x _ => ?_⟩
  -- Equal elements are in ascending order already, and sorting leaves what is in order as it is.
  have hequal : (l.filter (c x · = .eq)).Pairwise fun y z => (c y z != .gt) = true := by
    refine List.pairwise_of_forall_mem_list fun y hy z hz => ?_
    have hxy : c x y = .eq := by simpa using (List.mem_filter.1 hy).2
    have hxz : c x z = .eq := by simpa using (List.mem_filter.1 hz).2
    have hyx : c y x = .eq := by rw [@hc.swap x y trivial trivial, hxy, Ordering.swap_eq]
    rw [bne_iff_ne]
    exact @hc.trans y x z trivial trivial trivial (by simp [hyx]) (by simp [hxz])
  have hsublist := (List.sublist_mergeSort htrans htotal hequal List.filter_sublist).filter (c x · = .eq)
  rw [List.filter_filter] at hsublist
  simp only [Bool.and_self] at hsublist
  exact (hsublist.eq_of_length (((List.mergeSort_perm l _).filter _).length_eq).symm).symm

namespace Ordered

variable {β : Type} {c' : α → α → Ordering}

/-- The order of other elements that stand for them. -/
theorem map {g : β → α} {m m' : List β} (h : Ordered (fun x y => c (g x) (g y)) m m') :
    Ordered c (m.map g) (m'.map g) where
  ascending := List.pairwise_map.2 h.ascending
  stable x hx := by
    obtain ⟨y, hy, rfl⟩ := List.mem_map.1 hx
    rw [List.filter_map, List.filter_map]
    exact congrArg (List.map g) (h.stable y hy)

/-- Another order of the same elements. -/
theorem congr (h : Ordered c l l') (hperm : l'.Perm l) (hc : ∀ x ∈ l, ∀ y ∈ l, c x y = c' x y) : Ordered c' l l' where
  ascending := h.ascending.imp_of_mem fun hx hy hle => by
    rwa [← hc _ (hperm.mem_iff.1 hx) _ (hperm.mem_iff.1 hy)]
  stable x hx := by
    have hsame (m : List α) (hm : ∀ y ∈ m, y ∈ l) : m.filter (c' x · = .eq) = m.filter (c x · = .eq) :=
      List.filter_congr fun y hy => by simp only [hc x hx y (hm y hy)]
    rw [hsame l' fun y hy => hperm.mem_iff.1 hy, hsame l fun _ hy => hy, h.stable x hx]

end Ordered

end Sorting

/-- Texts are ordered like all lists. -/
theorem Text.compare_eq (s t : Text) : Text.compare s t = Ord.compare s t := by
  induction s generalizing t with
  | nil => cases t <;> rfl
  | cons a s ih =>
    cases t with
    | nil => rfl
    | cons b t =>
      rw [Text.compare, List.compare_cons_cons, ih, Nat.compare_eq_ite_lt]
      split
      · rfl
      · split <;> rfl

/-- An order of texts is one of all that have a text. -/
theorem Text.consistent_compare {α : Type} (text : α → Text) (P : α → Prop) :
    Sorting.Consistent P fun x y => Ord.compare (text x) (text y) where
  swap _ _ := Std.OrientedCmp.eq_swap
  trans _ _ _ h h' :=
    Ordering.isLE_iff_ne_gt.1 (Std.TransCmp.isLE_trans (Ordering.isLE_iff_ne_gt.2 h) (Ordering.isLE_iff_ne_gt.2 h'))

/-! ## Arrays while elements are compared -/

namespace Store

variable {s t : Store} {o : ObjectId}

/-- What is an array stays one, and nothing else becomes one. -/
theorem Changes.isArray (h : s.Changes t) (ho : o < s.objects.size) : (t.body o).isArray = (s.body o).isArray := by
  induction h with
  | refl => rfl
  | @tail t u hfirst hlast ih =>
    rw [← ih]
    have hlt := Nat.lt_of_lt_of_le ho (Settled.of_changes hfirst).objects
    cases hlast with
    | frame f g halike hlength => rfl
    | scope parent role => rfl
    | object proto body fr hparent hrole hlength =>
      have hne : o ≠ (t.addFrame fr).2.objects.size := Nat.ne_of_lt hlt
      rw [Store.body, Next.object_addObject, if_neg hne]
      rfl
    | body o' change hchange =>
      rcases Next.object_modifyObject t o' change o with h | h
      · rw [Store.body, Store.body, h]
      · rw [Store.body, Store.body, h, (hchange _).2]

end Store

theorem lasting_changes (limits : Limits) : Lasting limits fun s t => s.store.Changes t.store where
  refl _ := .refl
  trans h h' := h.trans h'
  act s a := a.changes limits s
  call h := h

/-- The answers to comparisons of elements with `P` are those of an order, as long as such elements are compared. -/
def State.Obeys {α : Type} (limits : Limits) (bound : Nat) (handler : Handler) (compare : α → α → Proc Bool)
    (P : α → Prop) (s : State) (c : α → α → Ordering) : Prop :=
  ∀ u x y before t, s.Compared limits bound handler compare P u → P x → P y →
    (compare x y).run limits bound handler u = (.ok before, t) → (before = true ↔ c x y = .lt)

namespace Arrays

open Proc Sorting

variable {limits : Limits} {bound n room : Nat} {handler : Handler} {s u : State} {o f : ObjectId} {i : Invocation}
  {items values sorted : List Value}

/-- The elements of a list other than `undefined`. -/
def definedOf (items : List Value) : List Value := items.filter (!·.isUndefined)

/-- The elements of a list that are `undefined`. -/
def missingOf (items : List Value) : List Value := List.replicate (items.length - (definedOf items).length) .undefined

/-- The elements that are not `undefined`, in some order, and the others make up the list. -/
theorem perm_append_missing (h : sorted.Perm (definedOf items)) : (sorted ++ missingOf items).Perm items := by
  have hmissing : (items.filter fun v => !!v.isUndefined) = missingOf items := by
    have hlength := (List.filter_append_perm (!·.isUndefined) items).length_eq
    rw [List.length_append] at hlength
    refine List.eq_replicate_iff.2 ⟨by rw [definedOf]; omega, fun v hv => ?_⟩
    have hv : v.isUndefined = true := by simpa using (List.mem_filter.1 hv).2
    cases v <;> first | rfl | cases hv
  rw [← hmissing]
  exact (h.append_right _).trans (List.filter_append_perm _ _)

end Arrays

/-- What has become of an array that was sorted: the elements that it had, those that are not `undefined` in the order of
a list, and then the others. -/
structure Store.Rearranged (s t : Store) (o : ObjectId) (sorted : List Value) : Prop where
  length : t.arrayLength o = s.arrayLength o
  perm : (t.arrayItems o).Perm (s.arrayItems o)
  defined : sorted.Perm (Arrays.definedOf (s.arrayItems o))
  items : t.arrayItems o = sorted ++ Arrays.missingOf (s.arrayItems o)

namespace Arrays

open Proc Sorting

variable {limits : Limits} {bound n room : Nat} {handler : Handler} {s u : State} {o f : ObjectId} {i : Invocation}
  {items values sorted : List Value} {compare : Value → Value → Proc Bool} {P : Value → Prop}

/-- Whatever comparisons do, an array stays an array, and does not get sealed. -/
theorem holdsList_of_compared (hu : s.Compared limits bound (answer limits bound n room) compare P u)
    (hs : s.store.Tidy) (ho : (s.store.body o).isArray) (hopen : (s.store.frame (s.store.propsOf o)).sealed = false) :
    u.store.HoldsList o (u.store.arrayItems o) ∧ (u.store.frame (u.store.propsOf o)).sealed = false := by
  have hlt := Store.lt_size_of_isArray ho
  have hchanges : s.store.Changes u.store :=
    (lasting_changes limits).compared ((lasting_changes limits).answer n room) hu
  have hseals := (lasting_sameSeals limits).compared ((lasting_sameSeals limits).answer n room) hu
  constructor
  · exact (hs.changes hchanges).holdsList (by rw [hchanges.isArray hlt, ho])
  · rw [(Store.Settled.of_changes hchanges).propsOf o hlt, hseals.sealed _ (hs.holdsList ho).propsOf_lt, hopen]

/-- There is room for the elements, as there was before. -/
theorem room_for_sorted (h : s.store.HoldsList o items) (hdefined : sorted.Perm (definedOf items)) :
    (sorted ++ missingOf items).length ≤ Frame.mostElements :=
  Nat.le_trans (Nat.le_of_eq (perm_append_missing hdefined).length_eq) h.inStep.room

/-- The elements are written back. -/
theorem rearranged_refill (h : s.store.HoldsList o items) (hu : u.store.HoldsList o values)
    (hdefined : sorted.Perm (definedOf items)) :
    s.store.Rearranged (u.changed o (·.refill (sorted ++ missingOf items))).store o sorted := by
  have hperm := perm_append_missing hdefined
  have hrefill := hu.refill (room_for_sorted h hdefined)
  have hitems : (u.changed o (·.refill (sorted ++ missingOf items))).store.arrayItems o = sorted ++ missingOf items :=
    hrefill.items
  refine ⟨?_, by rwa [hitems, h.items], by rwa [h.items], by rw [hitems, h.items]⟩
  rw [h.arrayLength, ← hperm.length_eq]
  exact hrefill.arrayLength

/-! ## Sorting an array -/

section Steps

variable (h : s.store.HoldsList o items) (hthis : i.this = .obj o)

include h hthis

/-- Sorting compares first, and writes after that. -/
theorem run_sort {comparison : Option ObjectId}
    (hcallable : (callable? (i.arg 0)).run limits bound handler s = (.ok comparison, s))
    (hfits : i.arg 0 = .undefined ∨ comparison.isSome) :
    (ArrayFn.sort.invoke i).run limits bound handler s =
      Course.andThen ((sortValues i.invoker comparison items).run limits bound handler s) fun values =>
        (refill o values >>= fun _ => pure (.obj o)).run limits bound handler := by
  refine run_then hcallable ?_
  have hfits : ¬(!(i.arg 0).isUndefined && comparison.isNone) = true := by
    rcases hfits with hnone | hsome
    · simp [hnone, Value.isUndefined]
    · obtain ⟨f, rfl⟩ := Option.isSome_iff_exists.1 hsome
      simp
  rw [if_neg hfits]
  refine run_then (run_array hthis h "sort") (run_then (run_items h) ?_)
  exact run_bind _ _ s

end Steps

/-! ## Sorting by a function -/

/-- A sort by a function only compares, and only elements that are not `undefined`. -/
theorem sorts_sortValues (f : ObjectId) (invoker : Option FrameId) (items : List Value) (fair : Prop)
    (key : Value → Int) :
    Sorts (comparedBefore f invoker) (· ∈ definedOf items) fair key
      (fun values => ∃ sorted, values = sorted ++ missingOf items ∧ Arranged fair key (definedOf items) sorted ∧
        Ascending fair key sorted)
      (sortValues invoker (some f) items) :=
  (sorts_sort fun _ hv => hv).bind fun sorted hsorted => .leaf ⟨sorted, rfl, hsorted⟩

/-- Sorted values that a run comes to are in an order that the comparisons obey. -/
theorem ordered_of_obeys {c : Value → Value → Ordering} (hc : Consistent (· ∈ definedOf items) c)
    (hobeys : s.Obeys limits bound handler (comparedBefore f i.invoker) (· ∈ definedOf items) c)
    (hrun : (sortValues i.invoker (some f) items).run limits bound handler s = (.ok (sorted ++ missingOf items), u)) :
    Ordered c (definedOf items) sorted := by
  have hfair := (sorts_sortValues f i.invoker items True (rank c (definedOf items))).run
    fun u x y before t hu hx hy hrun _ => (hobeys u x y before t hu hx hy hrun).trans (hc.rank_lt_iff hx hy).symm
  rcases hfair with ⟨values, t, hrun', ⟨sorted', hvalues, harranged, hascending⟩, -⟩ | ⟨_, _, _, _, _, _, hbreaks⟩
  · rw [hrun] at hrun'
    obtain ⟨hsame, -⟩ := Prod.mk.inj hrun'
    have hlists := (Outcome.ok.inj hsame).trans hvalues
    rw [List.append_cancel_right hlists]
    exact hc.ordered harranged hascending
  · exact absurd hrun (hbreaks.ne_ok _ _)

/-! ## Sorting by texts -/

/-- The text of a value that is no object. -/
def ownText : Value → Text
  | .undefined => "undefined"
  | .null => "null"
  | .bool b => if b then "true" else "false"
  | .num x => Number.toText x
  | .str t => t
  | .obj _ => []
  | .frame _ => "[object Environment]"

theorem toText_eq_ownText {v : Value} (h : isObject v = false) : toText v = pure (ownText v) := by
  cases v with
  | obj o => cases h
  | _ => rfl

/-- What is done to each element of a list, if it does nothing else. -/
theorem map_eq_pure {α β : Type} {p : α → Proc β} {g : α → β} {l : List α} (h : ∀ a ∈ l, p a = pure (g a)) :
    Proc.map p l = pure (l.map g) := by
  have hloop (acc : List β) : Proc.mapLoop p acc l = pure (acc.reverse ++ l.map g) := by
    induction l generalizing acc with
    | nil => simp [Proc.mapLoop]
    | cons a l ih =>
      have hrest := ih fun b hb => h b (List.mem_cons_of_mem a hb)
      simp [Proc.mapLoop, h a List.mem_cons_self, hrest]
  exact hloop []

/-- Elements that are sorted together with their texts. -/
theorem ordered_texts (text : Value → Text) (l : List Value) :
    Ordered (fun v w => Ord.compare (text v) (text w)) l
      (((l.map fun v => (text v, v)).mergeSort fun a b => Text.compare a.1 b.1 != .gt).map (·.2)) := by
  simp only [Text.compare_eq]
  have hsorted := ordered_mergeSort (Text.consistent_compare Prod.fst fun _ => True) (l.map fun v => (text v, v))
  have htexts : ∀ a ∈ l.map fun v => (text v, v), a.1 = text a.2 := by
    intro a ha
    obtain ⟨v, -, rfl⟩ := List.mem_map.1 ha
    rfl
  have hpairs : Ordered (fun a b => Ord.compare (text a.2) (text b.2)) (l.map fun v => (text v, v)) _ :=
    hsorted.congr (List.mergeSort_perm _ _) fun a ha b hb => by rw [htexts a ha, htexts b hb]
  have hmap := Ordered.map (c := fun v w => Ord.compare (text v) (text w)) hpairs
  rwa [List.map_map, show Prod.snd ∘ (fun v => (text v, v)) = id from rfl, List.map_id] at hmap

/-- The elements are sorted by their texts. -/
theorem sortValues_none (invoker : Option FrameId) (hplain : ∀ v ∈ definedOf items, isObject v = false) :
    ∃ sorted, sortValues invoker none items = pure (sorted ++ missingOf items) ∧ sorted.Perm (definedOf items) ∧
      Ordered (fun v w => Ord.compare (ownText v) (ownText w)) (definedOf items) sorted := by
  have htexts : Proc.map (fun v => do return (← toText v, v)) (definedOf items) =
      pure ((definedOf items).map fun v => (ownText v, v)) :=
    map_eq_pure fun v hv => by rw [toText_eq_ownText (hplain v hv), pure_bind]
  refine ⟨_, ?_, ?_, ordered_texts ownText (definedOf items)⟩
  · change (Proc.map (fun v => do return (← toText v, v)) (definedOf items) >>= _) = _
    rw [htexts, pure_bind]
    rfl
  · have hperm := (List.mergeSort_perm ((definedOf items).map fun v => (ownText v, v))
      fun a b => Text.compare a.1 b.1 != .gt).map (·.2)
    rwa [List.map_map, show Prod.snd ∘ (fun v => (ownText v, v)) = id from rfl, List.map_id] at hperm

/-! ## Sorting at every moment -/

/-- What sorting does to an array that is not sealed, at every moment of an engine. A function that sorts is only asked
about elements that are not `undefined`. Unless a comparison has no answer, and the work ends as this comparison does,
the array has the elements in the end that it had in the beginning, whatever the comparisons have done: first those that
are not `undefined`, and these are in every order that the comparisons obey. Elements that are no objects can also be
sorted without a function: then the order is that of their texts. -/
theorem sort_rearranges {s : State} (hs : Engine.Moment s) {o : ObjectId} (ho : (s.store.body o).isArray)
    (hopen : (s.store.frame (s.store.propsOf o)).sealed = false) {i : Invocation} (hthis : i.this = .obj o)
    (limits : Limits) (bound n room : Nat) :
    let items := definedOf (s.store.arrayItems o)
    let handler := answer limits bound n room
    let run := (ArrayFn.sort.invoke i).run limits bound handler s
    (∀ f, i.arg 0 = .obj f → (s.store.body f).isCallable →
      let compare := comparedBefore f i.invoker
      Decides compare (· ∈ items) (fun _ _ _ => True) (fun _ => True)
          (sortValues i.invoker (some f) (s.store.arrayItems o)) ∧
        (s.Fails limits bound handler compare (· ∈ items) run ∨
          ∃ sorted u, s.Compared limits bound handler compare (· ∈ items) u ∧
            let t := u.changed o (·.refill (sorted ++ missingOf (s.store.arrayItems o)))
            run = (.ok (.obj o), t) ∧ s.store.Rearranged t.store o sorted ∧
              ∀ c, Consistent (· ∈ items) c → s.Obeys limits bound handler compare (· ∈ items) c →
                Ordered c items sorted)) ∧
    (i.arg 0 = .undefined → (∀ v ∈ items, isObject v = false) →
      ∃ sorted t, ∃ text : Value → Text, run = (.ok (.obj o), t) ∧ s.store.Rearranged t.store o sorted ∧
        (∀ v ∈ items, toText v = pure (text v)) ∧ Ordered (fun v w => Ord.compare (text v) (text w)) items sorted) := by
  intro items handler run
  have h := hs.tidy.holdsList ho
  constructor
  · intro f hf hcallable compare
    have hcomparison : (callable? (i.arg 0)).run limits bound handler s = (.ok (some f), s) := by
      rw [hf, callable?, run_read]
      simp [hcallable]
    have hrun := run_sort h hthis hcomparison (.inr rfl)
    have hany := sorts_sortValues f i.invoker (s.store.arrayItems o) False fun _ => 0
    refine ⟨(hany.of_answers fun _ _ _ _ hfalse => hfalse.elim).mono fun _ _ => trivial, ?_⟩
    rcases hany.run (s := s) fun _ _ _ _ _ _ _ _ _ hfalse => hfalse.elim with
      ⟨values, u, hvalues, ⟨sorted, rfl, harranged, -⟩, hu⟩ | hfails
    · obtain ⟨huheld, huopen⟩ := holdsList_of_compared hu hs.tidy ho hopen
      refine .inr ⟨sorted, u, hu, ?_, rearranged_refill h huheld harranged.perm.symm, fun c hc hobeys => ?_⟩
      · rw [show run = _ from hrun, hvalues]
        exact run_then (run_refill huopen (room_for_sorted h harranged.perm.symm)) rfl
      · exact ordered_of_obeys hc hobeys hvalues
    · left
      rw [show run = _ from hrun]
      exact hfails.andThen _
  · intro hnone hplain
    have hcomparison : (callable? (i.arg 0)).run limits bound handler s = (.ok none, s) := by
      rw [hnone]
      rfl
    have hrun := run_sort h hthis hcomparison (.inl hnone)
    obtain ⟨sorted, hvalues, hperm, hordered⟩ := sortValues_none i.invoker hplain
    refine ⟨sorted, _, ownText, ?_, rearranged_refill h h hperm, fun v hv => toText_eq_ownText (hplain v hv), hordered⟩
    rw [show run = _ from hrun, hvalues]
    exact run_then (run_refill hopen (room_for_sorted h hperm)) rfl

/-- A function that answers nothing makes no difference between elements. -/
theorem run_comparedBefore_blank (hf : s.store.body f = .function [] (.native (.function .blank)))
    (hdepth : s.depth < limits.depth) (invoker : Option FrameId) (v w : Value) :
    (comparedBefore f invoker v w).run limits bound (answer limits bound (n + 1) room) s = (.ok false, s) := by
  have hbody : (callBody f invoker .undefined [v, w]).run limits bound (answer limits bound n room)
      { s with depth := s.depth + 1 } = (.ok .undefined, { s with depth := s.depth + 1 }) := by
    refine run_then (run_read _ _) ?_
    rw [hf]
    rfl
  have hcall : (call f invoker .undefined [v, w]).run limits bound (answer limits bound (n + 1) room) s =
      (.ok .undefined, s) := by
    refine (run_ask _ _ s).trans ?_
    rw [answer_call, if_neg (Int.not_le.2 hdepth), Course.deeper, hbody]
    rfl
  have hnan : decide (Number.nan < 0) = false := by decide +kernel
  refine run_then hcall ?_
  change (Outcome.ok (decide (Number.nan < 0)), s) = _
  rw [hnan]

-- The evaluation goes through all that is set up when an engine is made.
set_option maxRecDepth 20000 in
/-- The object from which functions inherit is a function that answers nothing. -/
theorem body_functionPrototype :
    (Engine.new {} {} []).store.body Realm.functionPrototype = .function [] (.native (.function .blank)) := by rfl

/-- It still is one when an array has been made. -/
theorem newArray_functionPrototype {values : List Value} (hroom : values.length ≤ Frame.mostElements) :
    ((Engine.new {} {} []).run (Proc.newArray values)).2.state.store.body Realm.functionPrototype =
      .function [] (.native (.function .blank)) := by
  have hlt : Realm.functionPrototype < (Engine.new {} {} []).store.objects.size := by
    refine Nat.lt_of_not_le fun hle => ?_
    have hbody := body_functionPrototype
    simp [Store.body, Store.object, Array.getD_eq_getD_getElem?, Array.getElem?_eq_none hle] at hbody
  have hstore : ((Engine.new {} {} []).run (Proc.newArray values)).2.state.store = _ :=
    (Engine.new {} {} []).store_run_newArray hroom
  rw [hstore, Store.body, (Store.Keeps.addArray _ _ _).object _ hlt]
  exact body_functionPrototype

/-- Two texts after an `undefined` one keep their order if a function makes no difference between them, and change it
otherwise. -/
theorem sort_rearranges_letters :
    let e := ((Engine.new {} {} []).run (Proc.newArray [.undefined, .str "b", .str "a"])).2
    let o := (Engine.new {} {} []).store.objects.size
    let sort (args : List Value) := (ArrayFn.sort.invoke ⟨none, .obj o, args⟩).run {} 1 (answer {} 1 1 1) e.state
    (∃ t, sort [.obj Realm.functionPrototype] = (.ok (.obj o), t) ∧
      t.store.arrayItems o = [.str "b", .str "a", .undefined]) ∧
    ∃ t, sort [] = (.ok (.obj o), t) ∧ t.store.arrayItems o = [.str "a", .str "b", .undefined] := by
  intro e o sort
  have hroom : [Value.undefined, .str "b", .str "a"].length ≤ Frame.mostElements := by decide
  obtain ⟨hmoment, harray, hitems, hopen⟩ := Engine.made_newArray hroom
  have hdefined : definedOf (e.state.store.arrayItems o) = [.str "b", .str "a"] := by
    rw [hitems]
    rfl
  have hmissing : missingOf (e.state.store.arrayItems o) = [.undefined] := by
    rw [hitems]
    rfl
  constructor
  · have hblank : e.state.store.body Realm.functionPrototype = _ := newArray_functionPrototype hroom
    have hcompare := @run_comparedBefore_blank {} 1 0 1 e.state Realm.functionPrototype hblank (by decide) none
    obtain ⟨-, ⟨u, v, w, hu, -, -, hunanswered, -⟩ | ⟨sorted, u, hu, hrun, hmade, hordered⟩⟩ :=
      (@sort_rearranges e.state hmoment o harray hopen ⟨none, .obj o, [.obj Realm.functionPrototype]⟩ rfl {} 1 1 1).1
        Realm.functionPrototype rfl (by rw [hblank]; rfl)
    · rw [hu.eq_self fun v w => ⟨false, hcompare v w⟩] at hunanswered
      exact absurd (hcompare v w) (hunanswered false e.state)
    · have hequal := hordered (fun _ _ => .eq) ⟨fun _ _ => rfl, fun _ _ _ _ _ => by decide⟩ <| by
        intro u v w before t hu _ _ hrun
        rw [hu.eq_self fun v w => ⟨false, hcompare v w⟩, hcompare v w] at hrun
        obtain ⟨hfalse, -⟩ := Prod.mk.inj hrun
        rw [← Outcome.ok.inj hfalse]
        simp
      have hsame := hequal.stable (.str "b") (by rw [hdefined]; simp)
      simp only [decide_true, List.filter_true] at hsame
      refine ⟨_, hrun, ?_⟩
      rw [hmade.items, hsame, hdefined, hmissing]
      rfl
  · obtain ⟨sorted, t, text, hrun, hmade, htext, hordered⟩ :=
      (@sort_rearranges e.state hmoment o harray hopen ⟨none, .obj o, []⟩ rfl {} 1 1 1).2 rfl
        (by rw [hdefined]; simp [isObject])
    refine ⟨t, hrun, ?_⟩
    have hb : text (.str "b") = "b" := by
      have h := htext (.str "b") (by rw [hdefined]; simp)
      exact (Proc.ret.inj h).symm
    have ha : text (.str "a") = "a" := by
      have h := htext (.str "a") (by rw [hdefined]; simp)
      exact (Proc.ret.inj h).symm
    have hsorted : sorted = [.str "a", .str "b"] := by
      have hperm := hmade.defined
      rw [hdefined, List.perm_pair] at hperm
      refine hperm.resolve_left fun hkept => ?_
      have hascending := hordered.ascending
      rw [hkept, List.pairwise_pair, hb, ha] at hascending
      exact hascending rfl
    rw [hmade.items, hsorted, hmissing]
    rfl

/-- An engine with an array that is sealed, and holds `undefined` and `null`. -/
def sealedPair : Engine :=
  let elements : Frame := { Frame.ofItems (some 1) [.undefined, .null] with sealed := true }
  let objects := #[{ props := 1 }, { proto := some 0, props := 2, body := .array }]
  { state := { store := { frames := #[{ role := .core }, {}, elements], objects } } }

/-- An array that is sealed is refused, and stays as it is: `undefined` does not come last. -/
theorem sort_rearranges_sealed :
    (sealedPair.store.body 1).isArray ∧
      let r := sealedPair.run (ArrayFn.sort.invoke ⟨none, .obj 1, []⟩)
      r.1.isRefused ∧ (r.2.store.arrayItems 1).map Value.isUndefined = [true, false] := by
  exact ⟨rfl, by decide +kernel⟩

end Arrays

end ScriptEngine
