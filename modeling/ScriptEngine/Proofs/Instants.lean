import Mathlib
import ScriptEngine.Builtin.Date
import ScriptEngine.Proofs.Calendar
import ScriptEngine.Proofs.Operations
import ScriptEngine.Proofs.Run

/-!
# Instants and their fields

An instant is shown as a date and a time of day on a local clock, and an instant is made from such fields. The clock is a
fixed number of minutes off, so the two ways are inverse to each other as long as nothing comes near the first or the last
year that can be shown. Writing fields into a date that it has already therefore changes nothing.

## Main definitions

* `Fields.Genuine`: the fields of local clocks.
* `Fields.numbers`: fields as they are passed around.

## Main results

* `Fields.Genuine.ofMilliseconds_toMilliseconds`, `Fields.toMilliseconds_ofMilliseconds`: fields and counts of milliseconds.
* `Time.ofSeconds_seconds`, `Time.ofSeconds_local`: seconds in a double keep the milliseconds.
* `Time.ofFields_numbers`: the instant of the fields of a local clock.
* `Time.fields_inverse`: instants and fields are inverse to each other.
-/

namespace ScriptEngine

namespace Fields

/-- The date. -/
def date (f : Fields) : Civil := ⟨f.year, f.month + 1, f.day⟩

/-- The milliseconds since midnight. -/
def timeOfDay (f : Fields) : Int := f.hours * 3600000 + f.minutes * 60000 + f.seconds * 1000 + f.milliseconds

/-- The fields of local clocks: a date that exists and a time of day. -/
structure Genuine (f : Fields) : Prop where
  /-- The date exists. -/
  date : f.date.Genuine
  /-- A day has 24 hours. -/
  hours : 0 ≤ f.hours ∧ f.hours < 24
  /-- An hour has 60 minutes. -/
  minutes : 0 ≤ f.minutes ∧ f.minutes < 60
  /-- A minute has 60 seconds. -/
  seconds : 0 ≤ f.seconds ∧ f.seconds < 60
  /-- A second has 1000 milliseconds. -/
  milliseconds : 0 ≤ f.milliseconds ∧ f.milliseconds < 1000

/-- The fields in order, as numbers. -/
def numbers (f : Fields) : List Float :=
  [f.year, f.month, f.day, f.hours, f.minutes, f.seconds, f.milliseconds].map Number.ofInt

variable {f : Fields}

theorem Genuine.timeOfDay_bounds (hf : f.Genuine) : 0 ≤ f.timeOfDay ∧ f.timeOfDay < 86400000 := by
  obtain ⟨-, hhours, hminutes, hseconds, hmilliseconds⟩ := hf
  simp only [timeOfDay]
  omega

/-- The fields of local clocks count whole days and the time of the day. -/
theorem Genuine.toMilliseconds_eq (hf : f.Genuine) :
    f.toMilliseconds = f.date.daysFrom * 86400000 + f.timeOfDay := by
  have hpos : 1 ≤ f.month + 1 := hf.date.month_pos
  have hle : f.month + 1 ≤ 12 := hf.date.month_le
  have hyear : f.month.fdiv 12 = 0 := by
    rw [Int.fdiv_eq_ediv_of_nonneg _ (by decide)]
    omega
  have hmonth : f.month.fmod 12 = f.month := by
    rw [Int.fmod_eq_emod_of_nonneg _ (by decide)]
    omega
  have hday : f.date.daysFrom = Civil.daysFrom ⟨f.year, f.month + 1, 1⟩ + (f.day - 1) := by
    simp only [Fields.date, Civil.daysFrom_eq, Civil.marchYear, Civil.yearDay, Civil.marchMonth]
    omega
  simp only [toMilliseconds, hyear, hmonth, msPerDay, add_zero, timeOfDay, hday]
  omega

/-- A count of milliseconds is cut into days and the time of the day. -/
theorem ofMilliseconds_eq (t : Int) : ofMilliseconds t =
    ⟨(Civil.ofDays (t / 86400000)).year, (Civil.ofDays (t / 86400000)).month - 1, (Civil.ofDays (t / 86400000)).day,
      t % 86400000 / 3600000, t % 86400000 / 60000 % 60, t % 86400000 / 1000 % 60, t % 86400000 % 1000⟩ := by
  have hdays : t.fdiv msPerDay = t / 86400000 := Int.fdiv_eq_ediv_of_nonneg t (by decide)
  have hrest : t - t / 86400000 * msPerDay = t % 86400000 := by
    simp only [msPerDay]
    omega
  simp only [ofMilliseconds, hdays, hrest]

theorem date_ofMilliseconds (t : Int) : (ofMilliseconds t).date = Civil.ofDays (t / 86400000) := by
  simp only [ofMilliseconds_eq, date, sub_add_cancel]

theorem timeOfDay_ofMilliseconds (t : Int) : (ofMilliseconds t).timeOfDay = t % 86400000 := by
  simp only [ofMilliseconds_eq, timeOfDay]
  omega

/-- The fields of a count of milliseconds are those of a local clock. -/
theorem genuine_ofMilliseconds (t : Int) : (ofMilliseconds t).Genuine where
  date := by
    rw [date_ofMilliseconds]
    exact Civil.genuine_ofDays _
  hours := by
    simp only [ofMilliseconds_eq]
    omega
  minutes := by
    simp only [ofMilliseconds_eq]
    omega
  seconds := by
    simp only [ofMilliseconds_eq]
    omega
  milliseconds := by
    simp only [ofMilliseconds_eq]
    omega

theorem toMilliseconds_ofMilliseconds (t : Int) : (ofMilliseconds t).toMilliseconds = t := by
  rw [(genuine_ofMilliseconds t).toMilliseconds_eq, date_ofMilliseconds, timeOfDay_ofMilliseconds,
    Civil.daysFrom_ofDays]
  omega

/-- The fields of local clocks are determined by the date and the time of the day. -/
theorem Genuine.ext {g : Fields} (hf : f.Genuine) (hg : g.Genuine) (hdate : f.date = g.date)
    (htime : f.timeOfDay = g.timeOfDay) : f = g := by
  obtain ⟨-, hhours, hminutes, hseconds, hmilliseconds⟩ := hf
  obtain ⟨-, hhours', hminutes', hseconds', hmilliseconds'⟩ := hg
  obtain ⟨year, month, day, hours, minutes, seconds, milliseconds⟩ := f
  obtain ⟨year', month', day', hours', minutes', seconds', milliseconds'⟩ := g
  simp only [Fields.date, Civil.mk.injEq, timeOfDay, mk.injEq] at *
  omega

theorem Genuine.ofMilliseconds_toMilliseconds (hf : f.Genuine) : ofMilliseconds f.toMilliseconds = f := by
  have htime := hf.timeOfDay_bounds
  have hday : f.toMilliseconds / 86400000 = f.date.daysFrom := by
    rw [hf.toMilliseconds_eq]
    omega
  refine (genuine_ofMilliseconds _).ext hf ?_ ?_
  · rw [date_ofMilliseconds, hday, Civil.ofDays_daysFrom hf.date]
  · rw [timeOfDay_ofMilliseconds, hf.toMilliseconds_eq]
    omega

end Fields

/-- The days of the years from 2 to 9998. -/
theorem Civil.Genuine.daysFrom_bounds {c : Civil} (hc : c.Genuine) (hlow : 2 ≤ c.year) (hhigh : c.year ≤ 9998) :
    -718797 ≤ c.daysFrom ∧ c.daysFrom < 2932532 := by
  have hnext : ¬9999 ≤ c.year := by omega
  rw [hc.le_year_iff] at hlow hnext
  exact ⟨hlow, not_le.1 hnext⟩

/-! ## Numbers -/

namespace Number

theorem truncate?_ofInt {i : Int} (hi : i.natAbs < 2 ^ 53) : truncate? (ofInt i) = some i := by
  rw [truncate?_eq, value?_ofInt hi, Option.map_some, towardZero, Int.floor_intCast, Int.ceil_intCast, ite_self]

theorem isNaN_ofInt {i : Int} (hi : i.natAbs < 2 ^ 53) : (ofInt i).isNaN = false := by
  obtain ⟨d, hd, -⟩ := Option.map_eq_some_iff.1 (value?_ofInt hi)
  exact isNaN_of_decode hd

end Number

namespace Time

open Number (truncate?_ofInt isNaN_ofInt)

variable {zone t : Int}

/-- A valid instant is left as it is. -/
theorem clip_ofInt (hlow : earliest ≤ t) (hhigh : t ≤ latest) : clip (Number.ofInt t) = Number.ofInt t := by
  simp only [earliest, latest] at hlow hhigh
  have hrange : (Number.ofInt earliest ≤ Number.ofInt t && Number.ofInt t ≤ Number.ofInt latest) = true := by
    rw [Bool.and_eq_true, decide_eq_true_eq, decide_eq_true_eq, Number.ofInt_le_iff (by decide) (by omega),
      Number.ofInt_le_iff (by omega) (by decide)]
    exact ⟨hlow, hhigh⟩
  rw [clip, if_pos hrange, Number.truncate, truncate?_ofInt (by omega), Option.getD_some]

/-- The fields of a valid instant are those of its count of milliseconds, the zone added. -/
theorem fieldNumbers_ofInt (ht : t.natAbs < 2 ^ 53) (zone : Int) :
    fieldNumbers zone (Number.ofInt t) = (Fields.ofMilliseconds (t + zone * 60000)).numbers := by
  have hvalid : isValid (Number.ofInt t) = true := by
    rw [isValid, isNaN_ofInt ht]
    rfl
  have hfields : fields zone (Number.ofInt t) = Fields.ofMilliseconds (t + zone * 60000) := by
    rw [fields, Number.truncate, truncate?_ofInt ht, Option.getD_some]
  have hfield (which : DateField) : field zone (Number.ofInt t) which =
      Number.ofInt (fieldValue (Fields.ofMilliseconds (t + zone * 60000)) which) := by
    rw [field, if_pos hvalid, hfields]
  simp only [fieldNumbers, List.map, hfield]
  rfl

/-- Seconds in a double that are near to a whole number of milliseconds give that number. -/
theorem ofSeconds_eq {x : Float} {r : ℚ} (hx : Number.value? x = some r) (hnear : |r * 1000 - t| < 1 / 4)
    (ht : t.natAbs < 2 ^ 50) : ofSeconds x = clipInt t := by
  have hthousand : Number.value? 1000.0 = some 1000 := by
    have hsame : (1000.0 : Float) = Number.ofInt 1000 := by decide +kernel
    rw [hsame, Number.value?_ofInt (by decide)]
    norm_num
  have hbound := Number.abs_intCast_lt ht
  have hsmall : |r * 1000| ≤ 2 ^ 52 * 2 ^ (-1 : Int) := by
    rw [abs_lt] at hnear hbound
    rw [abs_le]
    constructor <;> norm_num <;> linarith
  obtain ⟨p, hp, herror⟩ := (Number.roundsTo_mul hx hthousand).near (by decide) (by decide) hsmall
  have hround : Number.roundToEven (x * 1000.0) = t := by
    refine Number.roundToEven_eq hp ?_
    rw [abs_le] at herror
    rw [abs_lt] at hnear ⊢
    norm_num at herror
    constructor <;> linarith
  rw [ofSeconds, hround]

/-- Whole seconds and milliseconds that are added up in a double can be told apart again. The quotient, the sum and the
scaling are rounded, but all of it moves a time by less than half a millisecond. -/
theorem ofSeconds_seconds {whole ms : Int} (hwhole : whole.natAbs < 2 ^ 40) (hlow : 0 ≤ ms) (hhigh : ms < 1000) :
    ofSeconds (seconds whole (ms * 1000)) = clipInt (whole * 1000 + ms) := by
  have hmillion : Number.value? 1000000.0 = some 1000000 := by
    have hsame : (1000000.0 : Float) = Number.ofInt 1000000 := by decide +kernel
    rw [hsame, Number.value?_ofInt (by decide)]
    norm_num
  have hlow' : (0 : ℚ) ≤ ms := by exact_mod_cast hlow
  have hhigh' : (ms : ℚ) < 1000 := by exact_mod_cast hhigh
  have hquotient : |((ms * 1000 : Int) : ℚ) / 1000000| ≤ 2 ^ 52 * 2 ^ (-52 : Int) := by
    rw [abs_le]
    push_cast
    constructor <;> norm_num <;> linarith
  obtain ⟨a, ha, herror⟩ := (Number.roundsTo_div (Number.value?_ofInt (i := ms * 1000) (by omega)) hmillion
    (by norm_num)).near (by decide) (by decide) hquotient
  have hbound := Number.abs_intCast_lt hwhole
  rw [abs_le] at herror
  push_cast at herror
  norm_num at herror
  have hsum : |(whole : ℚ) + a| ≤ 2 ^ 52 * 2 ^ (-11 : Int) := by
    rw [abs_lt] at hbound
    rw [abs_le]
    constructor <;> norm_num <;> linarith
  obtain ⟨r, hr, herror'⟩ := (Number.roundsTo_add (Number.value?_ofInt (i := whole) (by omega)) ha).near (by decide)
    (by decide) hsum
  refine ofSeconds_eq hr ?_ (by omega)
  rw [abs_le] at herror'
  rw [abs_lt]
  norm_num at herror'
  push_cast
  constructor <;> linarith

/-- A local time that a clock can tell loses nothing on its way through a double. -/
theorem ofSeconds_local (hlow : firstLocal ≤ t) (hhigh : t ≤ lastLocal) (hresolvable : isResolvable zone t = true) :
    ofSeconds (seconds (t.fdiv 1000 - zone * 60) (t.fmod 1000 * 1000)) = clipInt (t - zone * 60000) := by
  have hseconds : t.fdiv 1000 = t / 1000 := Int.fdiv_eq_ediv_of_nonneg _ (by decide)
  have hrest : t.fmod 1000 = t % 1000 := Int.fmod_eq_emod_of_nonneg _ (by decide)
  simp only [isResolvable, hseconds, firstLocal, lastLocal, Bool.and_eq_true, decide_eq_true_eq] at hlow hhigh hresolvable
  have htotal : (t / 1000 - zone * 60) * 1000 + t % 1000 = t - zone * 60000 := by omega
  rw [hseconds, hrest, ofSeconds_seconds (by omega) (by omega) (by omega), htotal]

/-- The instant of fields that may lie outside their ranges is the count of their milliseconds, less the zone, if it keeps
clear of the first and the last year. -/
theorem ofFields_eq {fs : List Float} {f : Fields} (hfs : fs.map Number.truncate? =
      [some f.year, some f.month, some f.day, some f.hours, some f.minutes, some f.seconds, some f.milliseconds])
    (hlow : 1 ≤ f.year + f.month.fdiv 12) (hhigh : f.year + f.month.fdiv 12 ≤ 9999)
    (hstart : -718797 * 86400000 ≤ f.toMilliseconds) (hend : f.toMilliseconds < 2932532 * 86400000)
    (hzone : zone.natAbs ≤ 364 * 1440) :
    ofFields zone fs = Number.ofInt (f.toMilliseconds - zone * 60000) ∧
      earliest ≤ f.toMilliseconds - zone * 60000 ∧ f.toMilliseconds - zone * 60000 ≤ latest := by
  have hvalid : earliest ≤ f.toMilliseconds - zone * 60000 ∧ f.toMilliseconds - zone * 60000 ≤ latest := by
    simp only [earliest, latest]
    omega
  have hrange : firstLocal ≤ f.toMilliseconds ∧ f.toMilliseconds ≤ lastLocal := by
    simp only [firstLocal, lastLocal]
    omega
  have hresolvable : isResolvable zone f.toMilliseconds = true := by
    have hseconds : f.toMilliseconds.fdiv 1000 = f.toMilliseconds / 1000 := Int.fdiv_eq_ediv_of_nonneg _ (by decide)
    simp only [isResolvable, hseconds, firstLocal, lastLocal, Fields.msPerDay, Bool.and_eq_true, decide_eq_true_eq]
    omega
  refine ⟨?_, hvalid⟩
  simp only [ofFields, hfs]
  rw [if_pos ⟨hlow, hhigh, hrange.1, hrange.2, hresolvable⟩, ofSeconds_local hrange.1 hrange.2 hresolvable, clipInt,
    if_pos hvalid]

/-- The instant of the fields of a local clock is the count of their milliseconds, less the zone. -/
theorem ofFields_numbers {f : Fields} (hf : f.Genuine) (hlow : 2 ≤ f.year) (hhigh : f.year ≤ 9998)
    (hzone : zone.natAbs < 1440) :
    ofFields zone f.numbers = Number.ofInt (f.toMilliseconds - zone * 60000) ∧
      earliest ≤ f.toMilliseconds - zone * 60000 ∧ f.toMilliseconds - zone * 60000 ≤ latest := by
  have hdays := hf.date.daysFrom_bounds hlow hhigh
  have htime := hf.timeOfDay_bounds
  have hcount := hf.toMilliseconds_eq
  have hpos : 1 ≤ f.month + 1 := hf.date.month_pos
  have hle : f.month + 1 ≤ 12 := hf.date.month_le
  have hfirst : 1 ≤ f.day := hf.date.day_pos
  have hlast : f.day ≤ 31 := hf.date.day_le.trans (Civil.daysInMonth_bounds _ _).2
  obtain ⟨-, hhours, hminutes, hseconds, hmilliseconds⟩ := hf
  have hyear : f.year + f.month.fdiv 12 = f.year := by
    rw [Int.fdiv_eq_ediv_of_nonneg _ (by decide)]
    omega
  refine ofFields_eq ?_ (by omega) (by omega) (by omega) (by omega) (by omega)
  simp only [Fields.numbers, List.map, truncate?_ofInt (show f.year.natAbs < 2 ^ 53 by omega),
    truncate?_ofInt (show f.month.natAbs < 2 ^ 53 by omega), truncate?_ofInt (show f.day.natAbs < 2 ^ 53 by omega),
    truncate?_ofInt (show f.hours.natAbs < 2 ^ 53 by omega), truncate?_ofInt (show f.minutes.natAbs < 2 ^ 53 by omega),
    truncate?_ofInt (show f.seconds.natAbs < 2 ^ 53 by omega),
    truncate?_ofInt (show f.milliseconds.natAbs < 2 ^ 53 by omega)]

end Time

/-! ## Writing fields -/

variable {limits : Limits} {bound : Nat} {handler : Handler}

/-- A change that leaves an object as it is. -/
theorem Store.modifyObject_self {s : Store} {o : ObjectId} {g : Object → Object} (h : g (s.object o) = s.object o) :
    s.modifyObject o g = s := by
  have hsame : s.objects.modify o g = s.objects := by
    refine Array.ext Array.size_modify fun i hi hi' => ?_
    rw [Array.getElem_modify]
    split
    case isTrue heq =>
      subst heq
      rwa [Store.object, Array.getD_eq_getD_getElem?, Array.getElem?_eq_getElem hi', Option.getD_some] at h
    case isFalse => rfl
  rw [modifyObject, hsame]

/-- Setting the time that a date has already changes nothing. -/
theorem perform_setTime_self {o : ObjectId} {ms : Float} {s : State} (h : s.store.body o = .date ms) :
    (Action.setTime o ms).perform limits s = (.ok (), s) := by
  have hroom : ¬Frame.mostElements < (Action.setTime o ms).demand s := Nat.not_lt_zero _
  rw [Action.perform, if_neg hroom, Action.enact, Store.modifyObject_self]
  have hbody : (s.store.object o).body = .date ms := h
  generalize s.store.object o = x at *
  obtain ⟨proto, props, body⟩ := x
  subst hbody
  rfl

namespace Dates

open Proc (run_then run_read run_pure run_perform)

/-- A run of the fields of a date, written into the date at the place from which it was taken, changes nothing. -/
theorem run_setFields_self {o : ObjectId} {ms : Float} {s : State} (h : s.store.body o = .date ms)
    (hsame : Time.ofFields s.store.host.zone (Time.fieldNumbers s.store.host.zone ms) = ms) (first : DateField)
    {n : Nat} (hn : n ≠ 0) :
    (setFields ⟨o, ms⟩ first
      ((((Time.fieldNumbers s.store.host.zone ms).drop first.position).take n).map .num)).run limits bound handler s =
      (.ok (.num ms), s) := by
  generalize hfields : Time.fieldNumbers s.store.host.zone ms = fields at *
  have hlength : fields.length = 7 := by
    rw [← hfields]
    rfl
  have hfirst : first.position < 7 := by cases first <;> decide
  have hsome : (((fields.drop first.position).take n).map Value.num).isEmpty = false := by
    rw [List.isEmpty_eq_false_iff, ← List.length_pos_iff]
    simp only [List.length_map, List.length_take, List.length_drop, hlength]
    omega
  have hnew : (((fields.drop first.position).take n).map Value.num).take (7 - first.position) =
      ((fields.drop first.position).take n).map .num := by
    refine List.take_of_length_le ?_
    simp only [List.length_map, List.length_take, List.length_drop, hlength]
    omega
  have hrest (xs : List Float) : xs.drop (xs.take n).length = xs.drop n := by
    calc xs.drop (xs.take n).length = (xs.take n ++ xs.drop n).drop (xs.take n).length := by rw [List.take_append_drop]
      _ = xs.drop n := List.drop_left
  have hwhole : fields.take first.position ++ (fields.drop first.position).take n ++
      fields.drop (first.position + ((fields.drop first.position).take n).length) = fields := by
    rw [List.append_assoc, ← List.drop_drop, hrest, List.take_append_drop, List.take_append_drop]
  have hnumbers (xs : List Float) : Proc.map Proc.toNumber (xs.map .num) = pure xs :=
    Proc.map_of_pure (g := Value.num) (fun _ => rfl) xs
  have hset : (setTime ⟨o, ms⟩ ms).run limits bound handler s = (.ok (.num ms), s) :=
    run_then (run_perform (perform_setTime_self h)) (run_pure _ _)
  rw [setFields, hsome, hnew, hnumbers]
  refine run_then (run_read _ s) (run_then (run_pure _ s) ?_)
  simp only [hfields, hwhole, hsame]
  exact hset

end Dates

namespace Time

/-- Instants and the fields of a local clock are inverse to each other from the year 2 to the year 9998, with a clock less
than a day off: the fields of an instant make up the instant, and the instant of the fields of a local clock has these
fields. So a date stays the same if fields that it has already, at least one of them, are written into it. -/
theorem fields_inverse {zone : Int} (hzone : zone.natAbs < 1440) :
    (∀ (t : Int) (c : Civil), c.DayNumber ((t + zone * 60000) / 86400000) → 2 ≤ c.year → c.year ≤ 9998 →
      ofFields zone (fieldNumbers zone (clip (Number.ofInt t))) = Number.ofInt t) ∧
    (∀ f : Fields, f.Genuine → 2 ≤ f.year → f.year ≤ 9998 →
      fieldNumbers zone (clip (ofFields zone f.numbers)) = f.numbers) ∧
    ∀ (t : Int) (c : Civil) (o : ObjectId) (s : State) (first : DateField) (n : Nat),
      c.DayNumber ((t + zone * 60000) / 86400000) → 2 ≤ c.year → c.year ≤ 9998 →
      s.store.host.zone = zone → s.store.body o = .date (Number.ofInt t) → n ≠ 0 →
      (Dates.setFields ⟨o, Number.ofInt t⟩ first
        ((((fieldNumbers zone (Number.ofInt t)).drop first.position).take n).map .num)).run limits bound handler s =
        (.ok (.num (Number.ofInt t)), s) := by
  have hinstant {t : Int} {c : Civil} (hc : c.DayNumber ((t + zone * 60000) / 86400000)) (hlow : 2 ≤ c.year)
      (hhigh : c.year ≤ 9998) : clip (Number.ofInt t) = Number.ofInt t ∧
        ofFields zone (fieldNumbers zone (Number.ofInt t)) = Number.ofInt t := by
    obtain ⟨hgenuine, hnumber⟩ := Civil.dayNumber_iff.1 hc
    have hdate : (Fields.ofMilliseconds (t + zone * 60000)).date = c := by
      rw [Fields.date_ofMilliseconds, ← hnumber, Civil.ofDays_daysFrom hgenuine]
    have hyear : (Fields.ofMilliseconds (t + zone * 60000)).year = c.year := by
      rw [← hdate]
      rfl
    obtain ⟨hback, hearliest, hlatest⟩ :=
      ofFields_numbers (Fields.genuine_ofMilliseconds (t + zone * 60000)) (hyear ▸ hlow) (hyear ▸ hhigh) hzone
    rw [Fields.toMilliseconds_ofMilliseconds, add_sub_cancel_right] at hback hearliest hlatest
    have hsmall : t.natAbs < 2 ^ 53 := by
      simp only [earliest, latest] at hearliest hlatest
      omega
    exact ⟨clip_ofInt hearliest hlatest, by rw [fieldNumbers_ofInt hsmall, hback]⟩
  refine ⟨fun t c hc hlow hhigh => ?_, fun f hf hlow hhigh => ?_, fun t c o s first n hc hlow hhigh hs ho hn => ?_⟩
  · obtain ⟨hclip, hback⟩ := hinstant hc hlow hhigh
    rw [hclip, hback]
  · obtain ⟨hinstant, hearliest, hlatest⟩ := ofFields_numbers hf hlow hhigh hzone
    have hsmall : (f.toMilliseconds - zone * 60000).natAbs < 2 ^ 53 := by
      simp only [earliest, latest] at hearliest hlatest
      omega
    rw [hinstant, clip_ofInt hearliest hlatest, fieldNumbers_ofInt hsmall, sub_add_cancel,
      hf.ofMilliseconds_toMilliseconds]
  · subst hs
    exact Dates.run_setFields_self ho (hinstant hc hlow hhigh).2 first hn

/-- A quarter of an hour before noon of a leap day, on a clock 150 minutes ahead, and the day and the hour of it written
into a date. -/
theorem fields_inverse_leap_day : Civil.DayNumber ⟨2000, 2, 29⟩ ((951824700000 + 150 * 60000) / 86400000) ∧
    ofFields 150 (fieldNumbers 150 (clip (Number.ofInt 951824700000))) = Number.ofInt 951824700000 ∧
    fieldNumbers 150 (clip (ofFields 150 (Fields.numbers ⟨2000, 1, 29, 14, 15, 0, 0⟩))) =
      Fields.numbers ⟨2000, 1, 29, 14, 15, 0, 0⟩ ∧
    ∃ s : State, s.store.body 0 = .date (Number.ofInt 951824700000) ∧
      (Dates.setFields ⟨0, Number.ofInt 951824700000⟩ .day [.num (Number.ofInt 29), .num (Number.ofInt 14)]).run
        {} 0 (fun _ s => (.unfinished, s)) s = (.ok (.num (Number.ofInt 951824700000)), s) := by
  have hday : Civil.DayNumber ⟨2000, 2, 29⟩ ((951824700000 + 150 * 60000) / 86400000) :=
    Civil.dayNumber_iff.2 ⟨⟨by decide, by decide, by decide, by decide⟩, by decide⟩
  have hgenuine : Fields.Genuine ⟨2000, 1, 29, 14, 15, 0, 0⟩ :=
    ⟨⟨by decide, by decide, by decide, by decide⟩, by decide, by decide, by decide, by decide⟩
  have hfields : fieldNumbers 150 (Number.ofInt 951824700000) = Fields.numbers ⟨2000, 1, 29, 14, 15, 0, 0⟩ := by
    rw [fieldNumbers_ofInt (by decide)]
    congr 1
  obtain ⟨hinstant, hnumbers, hwritten⟩ :=
    @fields_inverse {} 0 (fun _ s => (.unfinished, s)) 150 (by decide)
  refine ⟨hday, hinstant _ _ hday (by decide) (by decide), hnumbers _ hgenuine (by decide) (by decide),
    { store := { objects := #[{ body := .date (Number.ofInt 951824700000) }], host := { zone := 150 } } }, rfl, ?_⟩
  have hsame := hwritten 951824700000 _ 0
    { store := { objects := #[{ body := .date (Number.ofInt 951824700000) }], host := { zone := 150 } } } .day 2
    hday (by decide) (by decide) rfl rfl (by decide)
  rw [hfields] at hsame
  exact hsame

end Time

end ScriptEngine
