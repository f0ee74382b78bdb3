import ScriptEngine.Builtin.Date
import ScriptEngine.Proofs.Scopes

/-!
# Setters of dates

A setter converts its arguments to numbers, which may run functions of a script, and then sets the time of its date once.
If a conversion throws something, the setter ends there, and the state is the one that the conversions have left. One
setter takes its date out of an invalid state before it converts anything, so there the conversions, and what is left if
they throw something, start from a date that is valid already.

## Main definitions

* `DateFn.inputs?`: the arguments that a setter converts.

## Main results

* `Proc.run_bind_thrown_iff`: a thrown value comes from the first part, if the rest throws nothing.
* `Lasting.staysDate`: dates stay dates.
* `Dates.set_thrown_iff`: a setter throws what its conversions throw, and leaves what they leave.
-/

namespace ScriptEngine

variable {α β : Type} {limits : Limits} {bound : Nat} {handler : Handler}

/-! ## Runs that throw nothing -/

/-- If what comes after the first part throws nothing, then the whole ends with a thrown value exactly if the first part
does, and in the same state. -/
theorem Proc.run_bind_thrown_iff {p : Proc α} {f : α → Proc β} {s : State}
    (hf : ∀ a u, p.run limits bound handler s = (.ok a, u) → ∀ v t, (f a).run limits bound handler u ≠ (.thrown v, t))
    (v : Value) (t : State) :
    (p >>= f).run limits bound handler s = (.thrown v, t) ↔ p.run limits bound handler s = (.thrown v, t) := by
  rw [run_bind]
  rcases hp : p.run limits bound handler s with ⟨a | w | e | _, u⟩
  · exact iff_of_false (hf a u hp v t) nofun
  all_goals simp

/-! ## Dates stay dates -/

/-- A date is not turned into something else; it may get another time. -/
def Store.StaysDate (o : ObjectId) (s t : Store) : Prop := ∀ ms, s.body o = .date ms → ∃ ms', t.body o = .date ms'

namespace Store

variable {s t : Store} {o : ObjectId}

/-- What comes after the objects that are there leaves them as they are. -/
theorem StaysDate.of_append {new : Array Object} (h : t.objects = s.objects ++ new) : s.StaysDate o t := by
  intro ms ho
  have hlt : o < s.objects.size := by
    refine Nat.lt_of_not_le fun hle => ?_
    simp [body, object, Array.getD_eq_getD_getElem?, Array.getElem?_eq_none hle] at ho
  refine ⟨ms, ?_⟩
  rw [← ho, body, body, object, object, h, Array.getD_eq_getD_getElem?, Array.getD_eq_getD_getElem?,
    Array.getElem?_append_left hlt]

end Store

/-- Only the time of a date is ever set; besides that, objects are only added. -/
theorem Action.objects_perform (limits : Limits) (s : State) (a : Action) :
    (∃ new, (a.perform limits s).2.store.objects = s.store.objects ++ new) ∨ ∃ o ms, a = .setTime o ms := by
  have hsame : ∃ new, s.store.objects = s.store.objects ++ new := ⟨#[], Array.append_empty.symm⟩
  have hframe (f : FrameId) (blame : Frame → Key) (g : Frame → Frame) :
      ∃ new, (changeFrame s f blame g).2.store.objects = s.store.objects ++ new := by
    simp only [changeFrame]
    split <;> exact hsame
  by_cases htime : ∃ o ms, a = .setTime o ms
  · exact .inr htime
  refine .inl ?_
  obtain h | h := perform_eq limits s a
  · rw [h]
    exact hsame
  rw [h]
  cases a with
  | put f k v => exact hframe f _ _
  | resize f n => exact hframe f _ _
  | refill f items => exact hframe f _ _
  | append f items =>
    by_cases hitems : items.isEmpty
    · rw [show enact limits s (.append f items) = (.ok (), s) from if_pos hitems]
      exact hsame
    · rw [show enact limits s (.append f items) = changeFrame s f _ _ from if_neg hitems]
      exact hframe f _ _
  | remove f k =>
    simp only [enact]
    split
    · exact hsame
    · split <;> exact hsame
  | setTime o ms => exact absurd ⟨o, ms, rfl⟩ htime
  | newClosure name params body scope runner selfBound =>
    exact ⟨#[_] ++ #[_], by rw [← Array.append_assoc, ← Array.push_eq_append, ← Array.push_eq_append]; rfl⟩
  | openProgram => exact ⟨#[_], Array.push_eq_append⟩
  | newObject proto => exact ⟨#[_], Array.push_eq_append⟩
  | newBoxed b => exact ⟨#[_], Array.push_eq_append⟩
  | newArray proto items => exact ⟨#[_], Array.push_eq_append⟩
  | newArguments items callee => exact ⟨#[_], Array.push_eq_append⟩
  | newError kind message => exact ⟨#[_], Array.push_eq_append⟩
  | newRegExp source flags => exact ⟨#[_], Array.push_eq_append⟩
  | newBound target this args => exact ⟨#[_], Array.push_eq_append⟩
  | tick runner kind =>
    simp only [enact, count, apply_ite Prod.snd, ite_self]
    split <;> exact hsame
  | start update =>
    simp only [enact]
    split <;> exact hsame
  | openScope parent role => exact hsame
  | newRunner => exact hsame
  | print line => exact hsame
  | draw => exact hsame
  | settle update v => exact hsame

/-- Dates stay dates in every run. -/
theorem Lasting.staysDate (limits : Limits) (o : ObjectId) : Lasting limits fun s t => s.store.StaysDate o t.store where
  refl _ ms ho := ⟨ms, ho⟩
  trans h h' ms ho := Exists.elim (h ms ho) fun ms' ho' => h' ms' ho'
  call h := h
  act s a := by
    obtain ⟨new, h⟩ | ⟨o', ms', rfl⟩ := a.objects_perform limits s
    · exact .of_append h
    · intro ms ho
      have hroom : ¬Frame.mostElements < (Action.setTime o' ms').demand s := Nat.not_lt_zero _
      rw [Action.perform, if_neg hroom]
      obtain h | h := Store.Next.object_modifyObject s.store o' _ o
      · exact ⟨ms, (congrArg Object.body h).trans ho⟩
      · refine ⟨ms', (congrArg Object.body h).trans ?_⟩
        simp only [show (s.store.object o).body = .date ms from ho]

/-! ## Setters -/

/-- The arguments that a setter converts to numbers. -/
def DateFn.inputs? (f : DateFn) (i : Invocation) : Option (List Value) :=
  match f with
  | .set field => some (i.args.take (Dates.setterCount field))
  | .setYear => some [i.arg 0]
  | .setTime => some [i.arg 0]
  | _ => none

namespace Dates

open Proc

variable {s : State} {o : ObjectId} {ms : Float}

theorem run_receiver (ho : s.store.body o = .date ms) :
    (receiver (.obj o)).run limits bound handler s = (.ok ⟨o, ms⟩, s) := by
  simp [receiver, Proc.body, run_bind, ho]

/-- To set a time throws nothing. -/
theorem setTime_not_thrown (d : Ref) (x : Float) (s : State) (v : Value) (t : State) :
    (setTime d x).run limits bound handler s ≠ (.thrown v, t) := by
  have hthrown (u : State) (w : Value) := @Course.perform_ne_thrown limits (.setTime d.object x) s u w
  change Course.andThen (Course.perform limits (.setTime d.object x) s) _ ≠ _
  rcases hperform : Course.perform limits (.setTime d.object x) s with ⟨r | w | e | _, u⟩
  · exact nofun
  · exact absurd hperform (hthrown u w)
  · exact nofun
  · exact nofun

/-- An invalid date has its time set to zero. -/
theorem run_revive_invalid {d : Ref} (h : Time.isValid d.ms = false) (s : State) :
    (revive d).run limits bound handler s =
      (.ok { d with ms := 0.0 }, ((Action.setTime d.object 0.0).perform limits s).2) := by
  rw [revive, if_neg (by simp [h])]
  rfl

theorem run_revive_valid {d : Ref} (h : Time.isValid d.ms = true) (s : State) :
    (revive d).run limits bound handler s = (.ok d, s) := by
  rw [revive, if_pos h]
  rfl

/-- Fields that are set throw what the conversions of their values throw. -/
theorem setFields_thrown_iff (d : Ref) (first : DateField) (values : List Value) (s : State) (v : Value) (t : State) :
    (setFields d first values).run limits bound handler s = (.thrown v, t) ↔
      (Proc.map toNumber (values.take (7 - first.position))).run limits bound handler s = (.thrown v, t) := by
  unfold setFields
  split
  case isTrue hnone =>
    rw [List.isEmpty_iff] at hnone
    subst hnone
    exact iff_of_false (setTime_not_thrown _ _ s v t) (by simp [Proc.map, Proc.mapLoop])
  case isFalse =>
    change (Proc.map toNumber (values.take (7 - first.position)) >>= fun new => _).run limits bound handler s = _ ↔ _
    exact run_bind_thrown_iff (fun new u _ => setTime_not_thrown _ _ u) v t

theorem map_singleton_thrown_iff (f : α → Proc β) (a : α) (s : State) (v : Value) (t : State) :
    (Proc.map f [a]).run limits bound handler s = (.thrown v, t) ↔
      (f a).run limits bound handler s = (.thrown v, t) :=
  run_bind_thrown_iff (fun _ _ _ _ _ => by simp [Proc.mapLoop]) v t

/-- A setter takes no more arguments than it has fields to write. -/
theorem take_setterCount (field : DateField) (args : List Value) :
    (args.take (setterCount field)).take (7 - field.position) = args.take (setterCount field) := by
  rw [List.take_take, Nat.min_eq_right]
  cases field <;> decide

/-- The year is set as the conversion of the argument has left the date, and throws nothing any more. -/
theorem setYear_thrown_iff {n room : Nat} (ho : s.store.body o = .date ms) (w : Value) (v : Value) (t : State) :
    (setYear (.obj o) w).run limits bound (answer limits bound n room) s = (.thrown v, t) ↔
      (toNumber w).run limits bound (answer limits bound n room) s = (.thrown v, t) := by
  rw [setYear, run_bind, run_receiver ho, Course.andThen_ok]
  refine run_bind_thrown_iff (fun x u hx v t => ?_) v t
  have hlasting := Lasting.staysDate limits o
  have hkept : s.store.StaysDate o ((toNumber w).run limits bound (answer limits bound n room) s).2.store :=
    hlasting.run (hlasting.answer n room) (toNumber w) s
  rw [hx] at hkept
  obtain ⟨ms', ho'⟩ := hkept ms ho
  cases Time.fullYear? x with
  | none => simp [run]
  | some y =>
    have hyear (d : Ref) (u : State) : (setFields d .year [.num y]).run limits bound (answer limits bound n room) u ≠
        (.thrown v, t) := by
      rw [Ne, setFields_thrown_iff, show [Value.num y].take (7 - DateField.position .year) = [.num y] from rfl,
        map_singleton_thrown_iff]
      intro hthrown
      cases hthrown
    simp only [run_bind, run_receiver ho', Course.andThen_ok]
    cases hvalid : Time.isValid ms' with
    | true =>
      rw [run_revive_valid (d := ⟨o, ms'⟩) hvalid, Course.andThen_ok]
      exact hyear _ _
    | false =>
      rw [run_revive_invalid (d := ⟨o, ms'⟩) hvalid, Course.andThen_ok]
      exact hyear _ _

/-- Fields are set in a date that may have been taken out of an invalid state before. -/
theorem invoke_set (field : DateField) (i : Invocation) :
    (DateFn.set field).invoke i = receiver i.this >>= fun d =>
      (if field = .year then revive d else pure d) >>= fun d =>
        setFields d field (i.args.take (setterCount field)) := by
  by_cases hyear : field = .year
  · simp only [DateFn.invoke, if_pos hyear]
  · simp only [DateFn.invoke, if_neg hyear]

/-- Fields are set after the conversions of their values, which begin where the date has been made valid. -/
theorem set_field_thrown_iff (ho : s.store.body o = .date ms) {i : Invocation} (hthis : i.this = .obj o)
    {field : DateField} {u : State} {d : Ref}
    (hentered : (if field = .year then revive ⟨o, ms⟩ else pure ⟨o, ms⟩).run limits bound handler s = (.ok d, u))
    (v : Value) (t : State) :
    ((DateFn.set field).invoke i).run limits bound handler s = (.thrown v, t) ↔
      (Proc.map toNumber (i.args.take (setterCount field))).run limits bound handler u = (.thrown v, t) := by
  rw [invoke_set, hthis, run_bind, run_receiver ho, Course.andThen_ok, run_bind, hentered, Course.andThen_ok,
    setFields_thrown_iff, take_setterCount]

/-- The time is set after the conversion of the argument. -/
theorem setTime_thrown_iff (ho : s.store.body o = .date ms) {i : Invocation} (hthis : i.this = .obj o) (v : Value)
    (t : State) :
    (DateFn.setTime.invoke i).run limits bound handler s = (.thrown v, t) ↔
      (toNumber (i.arg 0)).run limits bound handler s = (.thrown v, t) := by
  have hinvoke : DateFn.setTime.invoke i = receiver i.this >>= fun d =>
    toNumber (i.arg 0) >>= fun x => setTime d (Time.clip x) := rfl
  rw [hinvoke, hthis, run_bind, run_receiver ho, Course.andThen_ok]
  exact run_bind_thrown_iff (fun x u _ => setTime_not_thrown _ _ u) v t

/-- A setter that is called on a date throws exactly what the conversions of its arguments throw, and ends in the state
that these conversions have left: it has not set a time itself, so the date has the time that it had when they began, if
they have not set another. The conversions begin in the state in which the setter is called. Only `setFullYear` on an
invalid date has set the time to zero before. -/
theorem set_thrown_iff {n room : Nat} (ho : s.store.body o = .date ms) {f : DateFn} {i : Invocation}
    (hthis : i.this = .obj o) {values : List Value} (hf : f.inputs? i = some values) :
    let call := (f.invoke i).run limits bound (answer limits bound n room)
    let convert := (Proc.map toNumber values).run limits bound (answer limits bound n room)
    ((f = .set .year → Time.isValid ms) → ∀ v t, call s = (.thrown v, t) ↔ convert s = (.thrown v, t)) ∧
    (f = .set .year → Time.isValid ms = false → ∀ v t,
      call s = (.thrown v, t) ↔ convert ((Action.setTime o 0.0).perform limits s).2 = (.thrown v, t)) := by
  intro call convert
  cases f with
  | set field =>
    obtain rfl := Option.some.inj hf
    refine ⟨fun hvalid => set_field_thrown_iff ho hthis (d := ⟨o, ms⟩) ?_, fun hyear hinvalid =>
      set_field_thrown_iff ho hthis (d := ⟨o, 0.0⟩) ?_⟩
    · by_cases hyear : field = .year
      · rw [if_pos hyear]
        exact run_revive_valid (d := ⟨o, ms⟩) (hvalid (congrArg DateFn.set hyear)) s
      · rw [if_neg hyear]
        rfl
    · rw [if_pos (DateFn.set.inj hyear)]
      exact run_revive_invalid (d := ⟨o, ms⟩) hinvalid s
  | setYear =>
    obtain rfl := Option.some.inj hf
    have hinvoke : DateFn.setYear.invoke i = setYear (.obj o) (i.arg 0) := congrArg (setYear · (i.arg 0)) hthis
    refine ⟨fun _ v t => ?_, nofun⟩
    simp only [call, convert]
    rw [hinvoke, setYear_thrown_iff ho, map_singleton_thrown_iff]
  | setTime =>
    obtain rfl := Option.some.inj hf
    refine ⟨fun _ v t => ?_, nofun⟩
    simp only [call, convert]
    rw [setTime_thrown_iff ho hthis, map_singleton_thrown_iff]
  | _ => cases hf

/-- A state with a date, an object whose conversion to a number throws `null`, and the function that does so. -/
def throwingNumber (ms : Float) : State :=
  let thrower : Object := { body := .function "" (.script [] [.throws (.literal .null)] 1 0 false) }
  { store := {
      frames := #[{ role := .core }, {}, { entries := [(Key.valueOf, .obj 2)] }]
      objects := #[{ body := .date ms }, { props := 2 }, thrower] } }

/-- Hours and minutes are to be set, and the conversion of the minutes throws `null`; the time stays what it was. -/
theorem set_thrown_iff_minutes :
    (throwingNumber 0.0).store.body 0 = .date 0.0 ∧
    (DateFn.set .hours).inputs? ⟨none, .obj 0, [.num 1.0, .obj 1]⟩ = some [.num 1.0, .obj 1] ∧
    ∃ t, ((DateFn.set .hours).invoke ⟨none, .obj 0, [.num 1.0, .obj 1]⟩).run {} 3 (answer {} 3 3 1)
      (throwingNumber 0.0) = (.thrown .null, t) ∧ t.store.body 0 = .date 0.0 := by
  have hset := (@set_thrown_iff {} 3 (throwingNumber 0.0) 0 0.0 3 1 rfl (.set .hours) ⟨none, .obj 0, [.num 1.0, .obj 1]⟩
    rfl [.num 1.0, .obj 1] rfl).1 nofun
  have hconvert : ((Proc.map toNumber [.num 1.0, .obj 1]).run {} 3 (answer {} 3 3 1) (throwingNumber 0.0)).1 =
      .thrown .null := rfl
  exact ⟨rfl, rfl, _, (hset _ _).2 (Prod.ext hconvert rfl), rfl⟩

/-- An invalid date is to get a year, and the conversion of the year throws `null`. The conversion does not touch the date,
but the date is valid afterwards. -/
theorem setFullYear_revives :
    let s := throwingNumber Number.nan
    let converted := (toNumber (.obj 1)).run {} 3 (answer {} 3 3 1) s
    let called := ((DateFn.set .year).invoke ⟨none, .obj 0, [.obj 1]⟩).run {} 3 (answer {} 3 3 1) s
    s.store.body 0 = .date Number.nan ∧
    (converted.1 = .thrown .null ∧ converted.2.store.body 0 = .date Number.nan) ∧
    (called.1 = .thrown .null ∧ called.2.store.body 0 = .date 0.0) ∧ Time.isValid Number.nan = false := by
  exact ⟨rfl, ⟨rfl, rfl⟩, ⟨rfl, rfl⟩, by decide +kernel⟩

end Dates

end ScriptEngine
