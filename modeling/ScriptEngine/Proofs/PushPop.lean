import ScriptEngine.Proofs.Edits
import ScriptEngine.Proofs.ListMethods
import ScriptEngine.Proofs.NumberKeys

/-!
# Push and pop

A value that is pushed is bound to the index at the end of an array, and popping drops this index again. So the
frame of the array is as it was, with its bindings in their order, when as many values have been popped as were pushed.
Three limits do not fit together here. Numbers are keys of elements below `2 ^ 32 - 1`, lengths can be set below
`2 ^ 32`, and pushing asks for neither: what is pushed to the longest arrays cannot be read, and popping it
again empties the array.

## Main results

* `Frame.InStep.resize_push`: dropping the last element again.
* `Arrays.run_popAll`: popping as often as was pushed.
* `Arrays.push_pop`: push and pop are inverse, up to the limits.
-/

namespace ScriptEngine

namespace Frame

variable {f : Frame} {k k' : Key} {v v' : Value} {n : Nat} {values : List Value}

/-! ## Bindings that are made and dropped -/

theorem put_put : (f.put k v).put k v' = f.put k v' := by
  have hentries (entries : List (Key × Value)) :
      bindEntry k v' (bindEntry k v entries) = bindEntry k v' entries := by
    induction entries with
    | nil => simp [bindEntry]
    | cons e rest ih =>
      by_cases he : e.1 = k
      · simp [bindEntry, he]
      · simp [bindEntry, he, ih]
  simp [put, hentries, List.filter_filter]

/-- To bind a key to the value it has changes nothing. -/
theorem put_self (h : f.lookup? k = some v) (hhidden : f.hidden = []) : f.put k v = f := by
  have hentries (entries : List (Key × Value)) (h : entries.lookup k = some v) : bindEntry k v entries = entries := by
    induction entries with
    | nil => cases h
    | cons e rest ih =>
      rw [lookup_cons] at h
      by_cases he : e.1 = k
      · rw [if_pos he.symm] at h
        rw [bindEntry, if_pos he, ← he, ← Option.some.inj h]
      · rw [if_neg (Ne.symm he)] at h
        rw [bindEntry, if_neg he, ih h]
  obtain ⟨parent, role, entries, unlisted, hidden, flag⟩ := f
  obtain rfl : hidden = [] := hhidden
  simp only [put, hentries entries h, List.filter_nil]

theorem erase_put_of_ne (hne : k ≠ k') : (f.put k v).erase k' = (f.erase k').put k v := by
  have hentries (entries : List (Key × Value)) :
      (bindEntry k v entries).filter (·.1 ≠ k') = bindEntry k v (entries.filter (·.1 ≠ k')) := by
    induction entries with
    | nil => simp [bindEntry, hne]
    | cons e rest ih =>
      simp only [ne_eq, decide_not] at ih ⊢
      by_cases he : e.1 = k
      · simp [bindEntry, he, hne]
      · by_cases he' : e.1 = k'
        · simp [bindEntry, he', Ne.symm hne, ih]
        · simp [bindEntry, he, he', ih]
  simp only [put, erase, hentries]

/-- A key that was not bound is not bound when its binding has been dropped. -/
theorem erase_put_self (h : f.lookup? k = none) (hhidden : f.hidden = []) : (f.put k v).erase k = f := by
  have hentries (entries : List (Key × Value)) (h : entries.lookup k = none) :
      (bindEntry k v entries).filter (·.1 ≠ k) = entries := by
    rw [filter_bindEntry, List.filter_eq_self]
    intro e he
    have hne := List.lookup_eq_none_iff.1 h e he
    simpa using Ne.symm (by simpa using hne)
  obtain ⟨parent, role, entries, unlisted, hidden, flag⟩ := f
  obtain rfl : hidden = [] := hhidden
  simp only [put, erase, hentries entries h, List.filter_nil]

namespace InStep

/-- The last element is all that is at or past the length before. -/
theorem beyond_push (h : f.InStep n) (hroom : n + 1 ≤ mostElements) (v : Value) : (f.push v).beyond n = [.index n] := by
  have hkeys : (f.push v).keys = f.keys ++ [.index n] := by
    have hlength : Key.length ∈ f.keys := mem_keys_of_holds (by simp [holds, h.bound])
    have hfree : Key.index n ∉ f.keys := by
      intro hmem
      exact Nat.lt_irrefl n (h.below n (holds_of_mem_keys hmem))
    rw [Frame.push, h.length_eq, Frame.putLength, keys_put, keys_put, if_neg hfree,
      if_pos (List.mem_append_left _ hlength)]
  have hold : f.keys.filter (fun k => k.index?.any (n ≤ ·)) = [] := by
    rw [List.filter_eq_nil_iff]
    intro k hk hany
    cases k with
    | name t => cases hany
    | index i =>
      have hlt := h.below i (holds_of_mem_keys hk)
      have hle : n ≤ i := by simpa [Key.index?] using hany
      omega
  have hhidden := (h.push hroom v).hidden
  rw [beyond, localKeys, hkeys, hhidden]
  simpa [Key.index?] using hold

/-- When the last element is dropped again, the frame is as it was. -/
theorem resize_push (h : f.InStep n) (hroom : n + 1 ≤ mostElements) (hn : n < 4294967296) (v : Value) :
    (f.push v).resize n = f := by
  have hsettled : settledLength n = n := if_pos hn
  have hlength : (f.push v).length = n + 1 := (h.push hroom v).length_eq
  have hfree : f.lookup? (.index n) = none := h.lookup?_eq_none (Nat.le_refl n)
  calc (f.push v).resize n
    _ = ((f.push v).erase (.index n)).putLength n := by
      rw [Frame.resize]
      simp only [hsettled, hlength, if_pos (Nat.lt_succ_self n), h.beyond_push hroom, List.foldl_cons, List.foldl_nil]
    _ = ((f.put (.index n) v).erase (.index n)).putLength n := by
      simp only [Frame.push, h.length_eq, Frame.putLength, erase_put_of_ne (Key.index_ne_length n).symm, put_put]
    _ = f.putLength n := by rw [erase_put_self hfree h.hidden]
    _ = f := put_self h.bound h.hidden

end InStep

end Frame

/-! ## One array -/

namespace State

/-- A change of an array, and another one after it, is any change that does the same to its frame. -/
theorem changed_changed (s : State) (o : ObjectId) {c c' d : Frame → Frame}
    (h : c' (c (s.store.frame (s.store.propsOf o))) = d (s.store.frame (s.store.propsOf o))) :
    (s.changed o c).changed o c' = s.changed o d := by
  have hframes : (s.store.frames.modify (s.store.propsOf o) c).modify (s.store.propsOf o) c' =
      s.store.frames.modify (s.store.propsOf o) fun fr => c' (c fr) := by
    refine Array.ext (by simp) fun n _ _ => ?_
    simp only [Array.getElem_modify]
    split <;> rfl
  have htwo : (s.store.modifyFrame (s.store.propsOf o) c).modifyFrame (s.store.propsOf o) c' =
      s.store.modifyFrame (s.store.propsOf o) fun fr => c' (c fr) := by
    simp only [Store.modifyFrame, hframes]
  exact congrArg (fun store => { s with store }) (htwo.trans (Store.modifyFrame_congr h))

/-- To append nothing changes nothing. -/
theorem changed_append_nil (s : State) (o : ObjectId) : s.changed o (·.append []) = s := by
  have hstore : s.store.modifyFrame (s.store.propsOf o) (·.append []) = s.store := Store.modifyFrame_id _ _
  rw [changed, hstore]

end State

namespace Arrays

open Proc

variable {limits : Limits} {bound : Nat} {handler : Handler} {s : State} {o : ObjectId} {items values : List Value}
  {i j : Invocation}

/-- Pops as many values, the last one first. -/
def popAll (i : Invocation) : Nat → Proc (List Value)
  | 0 => return []
  | n + 1 => do
    let v ← ArrayFn.pop.invoke i
    return v :: (← popAll i n)

/-- To pop as many values as were appended gives them in reverse, and the state is as it was. -/
theorem run_popAll (h : s.store.HoldsList o items) (hthis : i.this = .obj o)
    (hopen : (s.store.frame (s.store.propsOf o)).sealed = false) (hroom : items.length + values.length ≤ 4294967296) :
    (popAll i values.length).run limits bound handler (s.changed o (·.append values)) = (.ok values.reverse, s) := by
  induction values using List.reverseRecOn with
  | nil =>
    rw [s.changed_append_nil]
    rfl
  | append_singleton values v ih =>
    rw [List.length_append, List.length_singleton] at hroom
    have hmost : items.length + (values.length + 1) ≤ Frame.mostElements := by
      unfold Frame.mostElements
      omega
    let t := s.changed o (·.append (values ++ [v]))
    have ht : t.store.HoldsList o (items ++ (values ++ [v])) := h.append (by simpa using hmost)
    have hframe : t.store.frame (t.store.propsOf o) = (s.store.frame (s.store.propsOf o)).append (values ++ [v]) :=
      Store.frame_modifyFrame_self _ _ _ h.propsOf_lt
    have hlast : t.store.arrayItem o (items.length + values.length) = v := by
      have hitem := ht.arrayItem (i := items.length + values.length) (by simp)
      simpa using hitem
    -- The last value is popped, and what is left was appended without it.
    have hstate : t.changed o (·.resize (items.length + values.length)) = s.changed o (·.append values) := by
      have hshrink : ((s.store.frame (s.store.propsOf o)).append (values ++ [v])).resize
          (items.length + values.length) = (s.store.frame (s.store.propsOf o)).append values := by
        rw [Frame.append, List.foldl_append]
        exact (h.inStep.append (by omega)).resize_push hmost (by omega) v
      exact s.changed_changed o hshrink
    have hpop : (ArrayFn.pop.invoke i).run limits bound handler t = (.ok v, s.changed o (·.append values)) := by
      have hstill : (t.store.frame (t.store.propsOf o)).sealed = false := by rw [hframe, Frame.sealed_append, hopen]
      have hlength : (items ++ (values ++ [v])).length = items.length + values.length + 1 := by simp [Nat.add_assoc]
      rw [run_pop ht hthis hstill hlength, hlast, hstate]
    rw [List.length_append, List.length_singleton, List.reverse_append]
    exact run_then hpop (run_then (ih (by omega)) rfl)

/-- What an array holds at an index that is a number's is read by member access with this number. -/
theorem run_member {n : Nat} {v : Value} (ho : (s.store.body o).isArray) (hn : n ≤ Key.maxIndex)
    (h : (s.store.frame (s.store.propsOf o)).lookup? (.index n) = some v) :
    (property (.obj o) (.ofNat n) >>= Place.get).run limits bound handler s = (.ok v, s) := by
  have hread : s.store.getProperty o (.index n) = v := by
    rw [Store.getProperty, Body.eq_array_of_isArray ho, Store.find?_of_lookup? h]
    rfl
  rw [Value.ofNat, property_obj (toKey_ofNat hn) o, ← hread]
  rfl

/-- Pushing values and popping as many are inverse to each other on every array, at every moment of an engine. Either
the values are not pushed, and nothing has changed: the array is sealed, or too long for any host. Or they are pushed,
and each can be read by its number if this is one that elements have. If lengths of this size can be set, popping as
many values as were pushed gives them in reverse, and everything is exactly as it was before. -/
theorem push_pop {s : State} (hs : Engine.Moment s) {o : ObjectId} (ho : (s.store.body o).isArray)
    {limits : Limits} {bound : Nat} {handler : Handler} {i j : Invocation} (hi : i.this = .obj o)
    (hj : j.this = .obj o) :
    let n := s.store.arrayLength o
    ((ArrayFn.push.invoke i).run limits bound handler s = (.fault .integerTooLarge, s) ∧
        Frame.mostElements < n + i.args.length) ∨
      ((ArrayFn.push.invoke i).run limits bound handler s = (.fault (.sealed (.index n)), s) ∧
        i.args ≠ [] ∧ (s.store.frame (s.store.propsOf o)).sealed) ∨
      ∃ t, (ArrayFn.push.invoke i).run limits bound handler s = (.ok (.ofNat (n + i.args.length)), t) ∧
        (∀ (m : Nat) (hm : m < i.args.length), n + m ≤ Key.maxIndex →
          (property (.obj o) (.ofNat (n + m)) >>= Place.get).run limits bound handler t = (.ok i.args[m], t)) ∧
        (n + i.args.length ≤ 4294967296 →
          (popAll j i.args.length).run limits bound handler t = (.ok i.args.reverse, s)) := by
  intro n
  have h := hs.tidy.holdsList ho
  have hlength : (s.store.arrayItems o).length = n := h.arrayLength.symm
  by_cases hnone : i.args = []
  · refine .inr (.inr ⟨s, ?_, ?_, ?_⟩)
    · rw [run_push_nil h hi hnone, hlength, hnone, List.length_nil, Nat.add_zero]
    · simp [hnone]
    · simp [hnone, popAll]
  by_cases hsealed : (s.store.frame (s.store.propsOf o)).sealed
  · exact .inr (.inl ⟨run_push_refused h hi (Action.perform_append_of_sealed hsealed hnone), hnone, hsealed⟩)
  have hopen := Bool.eq_false_iff.2 hsealed
  by_cases hroom : Frame.mostElements < n + i.args.length
  · have hdemand : (Action.append (s.store.propsOf o) i.args).demand s = n + i.args.length :=
      Action.room_of_unsealed hopen _
    refine .inl ⟨run_push_refused h hi ?_, hroom⟩
    rw [Action.perform, if_pos (by rwa [hdemand])]
  · have hmost : (s.store.arrayItems o).length + i.args.length ≤ Frame.mostElements := by omega
    refine .inr (.inr ⟨s.changed o (·.append i.args), ?_, ?_, ?_⟩)
    · rw [run_push h hi hopen hnone hmost, List.length_append, hlength]
    · intro m hm hindex
      refine run_member (h.append hmost).isArray hindex ?_
      change ((s.store.modifyFrame (s.store.propsOf o) _).frame (s.store.propsOf o)).lookup? _ = _
      rw [Store.frame_modifyFrame_self _ _ _ h.propsOf_lt, h.inStep.lookup?_append hmost, hlength, if_neg (by omega),
        Nat.add_sub_cancel_left, List.getElem?_eq_getElem hm]
    · intro hsmall
      exact run_popAll h hj hopen (by omega)

/-- A new array, in a new engine, and its length set to a number. -/
def newSparse (n : Float) : Proc Unit := do
  let _ ← newArray [.null]
  putProperty (Engine.new {} {} []).store.objects.size Key.length (.num n)

/-- What the host can reach by making this array. -/
theorem moment_newSparse (n : Float) : Engine.Moment ((Engine.new {} {} []).run (newSparse n)).2.state :=
  .after (newSparse n) (.new {} {} [] _)

/-- It takes elements, and has this length. -/
theorem newSparse_open :
    let s := ((Engine.new {} {} []).run (newSparse 4294967294.0)).2.state
    let o := (Engine.new {} {} []).store.objects.size
    (s.store.body o).isArray ∧ (s.store.frame (s.store.propsOf o)).sealed = false ∧
      s.store.arrayLength o = 4294967294 := by
  decide +kernel

/-- Two values are pushed to a sparse array. The first one gets the greatest index, and is read; popping gives both. -/
theorem push_pop_sparse :
    let s := ((Engine.new {} {} []).run (newSparse 4294967294.0)).2.state
    let o := (Engine.new {} {} []).store.objects.size
    let handler := answer {} 5 5 5
    ∃ t, (ArrayFn.push.invoke ⟨none, .obj o, [.bool true, .null]⟩).run {} 5 handler s =
        (.ok (.ofNat 4294967296), t) ∧
      (property (.obj o) (.ofNat 4294967294) >>= Place.get).run {} 5 handler t = (.ok (.bool true), t) ∧
      (popAll ⟨none, .obj o, []⟩ 2).run {} 5 handler t = (.ok [.null, .bool true], s) := by
  intro s o handler
  obtain ⟨harray, hopen, hlength⟩ := newSparse_open
  obtain ⟨-, hroom⟩ | ⟨-, -, hsealed⟩ | ⟨t, hpush, hread, hpop⟩ := @push_pop s (moment_newSparse _) o harray {} 5
    handler ⟨none, .obj o, [.bool true, .null]⟩ ⟨none, .obj o, []⟩ rfl rfl
  · rw [hlength] at hroom
    exact absurd hroom (by decide)
  · rw [hopen] at hsealed
    cases hsealed
  · rw [hlength] at hpush hread hpop
    exact ⟨t, hpush, hread 0 (by decide) (by decide), hpop (by decide)⟩

/-- An array that is as long as lengths can be set: what is pushed is not read by its number; and when two values have
been pushed, popping one drops all that the array holds. -/
theorem push_unread :
    let o := (Engine.new {} {} []).store.objects.size
    let push (args : List Value) : Proc Value := ArrayFn.push.invoke ⟨none, .obj o, args⟩
    let pop : Proc Value := ArrayFn.pop.invoke ⟨none, .obj o, []⟩
    let result (p : Proc Value) := ((Engine.new {} {} []).run p).1
    (result do
      newSparse 4294967295.0
      let _ ← push [.bool true]
      (← property (.obj o) (.num 4294967295.0)).get).gives (·.identical .undefined) ∧
    (result do
      newSparse 4294967295.0
      let _ ← push [.bool true, .bool false]
      let _ ← pop
      (← property (.obj o) (.num 0.0)).get).gives (·.identical .undefined) := by
  decide +kernel

end Arrays

end ScriptEngine
