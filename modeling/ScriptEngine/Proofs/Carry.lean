import Mathlib
import ScriptEngine.Proofs.Instants

/-!
# Fields outside their ranges

An instant can be made from fields that lie outside their ranges. Months are carried into the year, and everything below is
one sum of durations, which may be negative, may be huge, and may cancel each other. So the instant is a linear function of
the fields, once the month that they count from has been found.

## Main results

* `Fields.toMilliseconds_linear`: the count of milliseconds is linear in the fields below the month.
* `Time.ofFields_carry`: so is the instant, whatever mixture of fields makes it up.
-/

namespace ScriptEngine

/-- The milliseconds of fields are counted from the first of the month that the year and the months lead to. -/
theorem Fields.toMilliseconds_linear {f : Fields} {n : Int}
    (h : Civil.DayNumber ⟨f.year + f.month / 12, f.month % 12 + 1, 1⟩ n) :
    f.toMilliseconds =
      86400000 * (n + f.day - 1) + 3600000 * f.hours + 60000 * f.minutes + 1000 * f.seconds + f.milliseconds := by
  have hyear : f.month.fdiv 12 = f.month / 12 := Int.fdiv_eq_ediv_of_nonneg _ (by decide)
  have hmonth : f.month.fmod 12 = f.month % 12 := Int.fmod_eq_emod_of_nonneg _ (by decide)
  have hday := (Civil.dayNumber_iff.1 h).2
  simp only [toMilliseconds, hyear, hmonth, hday, msPerDay]
  ring

namespace Time

/-- A field that is no number, or an infinite one, makes no instant. -/
theorem ofFields_of_infinite (zone : Int) {fs : List Float} {x : Float} (hx : x ∈ fs) (h : Number.isFinite x = false) :
    ofFields zone fs = Number.nan := by
  have hnone : none ∈ fs.map Number.truncate? := by
    refine List.mem_map.2 ⟨x, hx, ?_⟩
    rw [Number.isFinite, Option.isSome_eq_false_iff, Option.isNone_iff_eq_none] at h
    rw [Number.truncate?, h, Option.map_none]
  unfold ofFields
  split
  case h_1 hall =>
    rw [hall] at hnone
    simp at hnone
  case h_2 => rfl

/-- Fields outside their ranges carry. If the fields are integers of any size and either sign, and both the year with the
months carried into it and the day on which the local clock ends up lie in the years from 2 to 9998, then the instant is
linear in the fields below the month: it counts them from the first of the month that the year and the months lead to, and
leaves out the zone. A field that is not finite makes no instant. -/
theorem ofFields_carry {zone : Int} (hzone : zone.natAbs ≤ 364 * 1440) :
    (∀ (fs : List Float) (y mon d h mi s ms n : Int) (c : Civil),
      fs.map Number.value? = [y, mon, d, h, mi, s, ms].map (fun i : Int => some (i : ℚ)) →
      2 ≤ y + mon / 12 → y + mon / 12 ≤ 9998 → Civil.DayNumber ⟨y + mon / 12, mon % 12 + 1, 1⟩ n →
      Civil.DayNumber c ((86400000 * (n + d - 1) + 3600000 * h + 60000 * mi + 1000 * s + ms) / 86400000) →
      2 ≤ c.year → c.year ≤ 9998 →
      ofFields zone fs = Number.ofInt
        (86400000 * (n + d - 1) + 3600000 * h + 60000 * mi + 1000 * s + ms - 60000 * zone)) ∧
    ∀ fs : List Float, (∃ x ∈ fs, Number.isFinite x = false) → ofFields zone fs = Number.nan := by
  refine ⟨fun fs y mon d h mi s ms n c hfs hlow hhigh hn hc hfirst hlast => ?_, fun fs hfs =>
    Exists.elim hfs fun x hx => ofFields_of_infinite zone hx.1 hx.2⟩
  have hcount := Fields.toMilliseconds_linear (f := ⟨y, mon, d, h, mi, s, ms⟩) hn
  have hyear : mon.fdiv 12 = mon / 12 := Int.fdiv_eq_ediv_of_nonneg _ (by decide)
  obtain ⟨hgenuine, hnumber⟩ := Civil.dayNumber_iff.1 hc
  have hdays := hgenuine.daysFrom_bounds hfirst hlast
  have hwhole : fs.map Number.truncate? = [some y, some mon, some d, some h, some mi, some s, some ms] := by
    have hvalue : fs.map Number.truncate? = (fs.map Number.value?).map (Option.map Number.towardZero) := by
      rw [List.map_map]
      exact List.map_congr_left fun x _ => Number.truncate?_eq x
    rw [hvalue, hfs]
    simp [Number.towardZero]
  simp only at hcount
  rw [← hyear] at hlow hhigh
  have hinstant := ofFields_eq (f := ⟨y, mon, d, h, mi, s, ms⟩) hwhole (Int.le_trans (by decide) hlow)
    (Int.le_trans hhigh (by decide)) (by rw [hcount]; omega) (by rw [hcount]; omega) hzone
  rw [hinstant.1, hcount, mul_comm zone]

/-- Fourteen months before the start of 2000, and then a number of days and the same days as hours taken away again that no
clock could show: the last day of October 1998, seven minutes after midnight on a clock that is behind. -/
theorem ofFields_carry_cancelled :
    [Number.ofInt 2000, Number.ofInt (-14), Number.ofInt (2 ^ 80), Number.ofInt (-(24 * 2 ^ 80)), Number.ofInt 7,
        Number.ofInt (-60), Number.ofInt 60001].map Number.value? =
      [2000, -14, 2 ^ 80, -(24 * 2 ^ 80), 7, -60, 60001].map (fun i : Int => some (i : ℚ)) ∧
    Civil.DayNumber ⟨1998, 11, 1⟩ 10531 ∧ Civil.DayNumber ⟨1998, 10, 31⟩ 10530 ∧
    ofFields (-330) [Number.ofInt 2000, Number.ofInt (-14), Number.ofInt (2 ^ 80), Number.ofInt (-(24 * 2 ^ 80)),
      Number.ofInt 7, Number.ofInt (-60), Number.ofInt 60001] = Number.ofInt 909812220001 ∧
    ofFields (-330) [Number.ofInt 2000, Number.infinity] = Number.nan := by
  have hlarge : Number.decode (Number.ofInt (2 ^ 80)) = some ⟨false, 2 ^ 52, 28⟩ := by decide +kernel
  have hnegative : Number.decode (Number.ofInt (-(24 * 2 ^ 80))) = some ⟨true, 3 * 2 ^ 51, 32⟩ := by decide +kernel
  have hvalues : [Number.ofInt 2000, Number.ofInt (-14), Number.ofInt (2 ^ 80), Number.ofInt (-(24 * 2 ^ 80)),
      Number.ofInt 7, Number.ofInt (-60), Number.ofInt 60001].map Number.value? =
      [2000, -14, 2 ^ 80, -(24 * 2 ^ 80), 7, -60, 60001].map (fun i : Int => some (i : ℚ)) := by
    simp only [List.map, Number.value?_ofInt (show (2000 : Int).natAbs < 2 ^ 53 by decide),
      Number.value?_ofInt (show (-14 : Int).natAbs < 2 ^ 53 by decide),
      Number.value?_ofInt (show (7 : Int).natAbs < 2 ^ 53 by decide),
      Number.value?_ofInt (show (-60 : Int).natAbs < 2 ^ 53 by decide),
      Number.value?_ofInt (show (60001 : Int).natAbs < 2 ^ 53 by decide)]
    rw [Number.value?, hlarge, Number.value?, hnegative]
    norm_num [Dyadic.value]
  have hmonth : Civil.DayNumber ⟨1998, 11, 1⟩ 10531 :=
    Civil.dayNumber_iff.2 ⟨⟨by decide, by decide, by decide, by decide⟩, by decide⟩
  have hday : Civil.DayNumber ⟨1998, 10, 31⟩ 10530 :=
    Civil.dayNumber_iff.2 ⟨⟨by decide, by decide, by decide, by decide⟩, by decide⟩
  have hsum : (86400000 * (10531 + 2 ^ 80 - 1) + 3600000 * -(24 * 2 ^ 80) + 60000 * 7 + 1000 * -60 + 60001 : Int) =
      909792420001 := by norm_num
  have hcarry := @ofFields_carry (-330) (by decide)
  have hinstant := hcarry.1 _ 2000 (-14) (2 ^ 80) (-(24 * 2 ^ 80)) 7 (-60) 60001 10531 ⟨1998, 10, 31⟩ hvalues (by decide)
    (by decide) hmonth (by rw [hsum]; exact hday) (by decide) (by decide)
  rw [hsum] at hinstant
  exact ⟨hvalues, hmonth, hday, hinstant, hcarry.2 _ ⟨Number.infinity, by simp, by decide +kernel⟩⟩

end Time

end ScriptEngine
