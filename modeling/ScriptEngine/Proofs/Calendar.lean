import Mathlib
import ScriptEngine.Calendar.Civil

/-!
# Days and dates

Every day has one date. The calendar is given by the lengths of its months, which say what the day after a date is: a date
has a day number if counting the days one by one from the first of January 1970, forward or backward, leads to it. The
two directions of the arithmetic take years that start in March, so that a leap day is the last of its year and the
months before it start on the same day in every year.

## Main definitions

* `Civil.Genuine`: the dates that exist.
* `Civil.next`: the day after a date.
* `Civil.DayNumber`: numbers of days by counting.
* `Civil.yearStart`, `Civil.ofYearDay`: years that start in March, and their days.

## Main results

* `Civil.daysFrom_next`: the next day has the next number.
* `Civil.daysFrom_ofDays`, `Civil.ofDays_daysFrom`: both directions are inverse to each other.
* `Civil.Genuine.le_year_iff`: later years have greater day numbers.
* `Civil.dayNumber_iff`: the arithmetic counts days.
-/

namespace ScriptEngine

namespace Civil

/-- The dates that exist. -/
structure Genuine (c : Civil) : Prop where
  /-- The first month is January. -/
  month_pos : 1 ≤ c.month
  /-- The last one is December. -/
  month_le : c.month ≤ 12
  /-- Days are counted from one. -/
  day_pos : 1 ≤ c.day
  /-- A month has its last day. -/
  day_le : c.day ≤ daysInMonth c.year c.month

/-- The day after a date. -/
def next (c : Civil) : Civil :=
  if c.day < daysInMonth c.year c.month then { c with day := c.day + 1 }
  else if c.month < 12 then ⟨c.year, c.month + 1, 1⟩
  else ⟨c.year + 1, 1, 1⟩

/-- The number of a day, counted one by one from the first of January 1970 on or back from it. -/
inductive DayNumber : Civil → Int → Prop
  | epoch : DayNumber ⟨1970, 1, 1⟩ 0
  | after {c : Civil} {n : Int} (h : DayNumber c n) : DayNumber c.next (n + 1)
  | before {c : Civil} {n : Int} (hc : c.Genuine) (h : DayNumber c.next (n + 1)) : DayNumber c n

/-! ## Years from March to February -/

/-- The number of the first of March of a year, from that of the year 0 on. -/
def yearStart (y : Int) : Int := 365 * y + y / 4 - y / 100 + y / 400

/-- A leap day belongs to the year that starts in the March before. -/
theorem yearStart_succ (y : Int) : yearStart (y + 1) = yearStart y + if isLeap (y + 1) then 366 else 365 := by
  have hleap : isLeap (y + 1) = true ↔ (y + 1) % 4 = 0 ∧ ((y + 1) % 100 ≠ 0 ∨ (y + 1) % 400 = 0) := by
    simp [isLeap]
  simp only [yearStart, hleap]
  split <;> omega

theorem strictMono_yearStart : StrictMono yearStart := by
  refine strictMono_int_of_lt_succ fun y => ?_
  rw [yearStart_succ]
  split <;> omega

/-- Every day lies in one year. -/
theorem year_unique {y y' z : Int} (h : yearStart y ≤ z ∧ z < yearStart (y + 1))
    (h' : yearStart y' ≤ z ∧ z < yearStart (y' + 1)) : y = y' := by
  have hle := strictMono_yearStart.lt_iff_lt.1 (h.1.trans_lt h'.2)
  have hge := strictMono_yearStart.lt_iff_lt.1 (h'.1.trans_lt h.2)
  omega

/-- The calendar repeats itself after 400 years. -/
theorem yearStart_cycle (y k : Int) : yearStart (y + k * 400) = yearStart y + k * 146097 := by
  simp only [yearStart]
  omega

/-- The year of a day among the 400 years that repeat. -/
theorem yearOfEra_bounds {z : Int} (hlow : 0 ≤ z) (hhigh : z < 146097) :
    yearStart ((z - z / 1460 + z / 36524 - z / 146096) / 365) ≤ z ∧
      z < yearStart ((z - z / 1460 + z / 36524 - z / 146096) / 365 + 1) := by
  by_cases hlast : z = 146096
  · subst hlast
    decide
  · -- Three centuries without the leap day at their end, then groups of four years, of which the last has one more day.
    obtain ⟨century, group, year, day, hcentury, hgroup, hyear, hday, hleap, hz⟩ : ∃ century group year day : Int,
        (0 ≤ century ∧ century ≤ 3) ∧ (0 ≤ group ∧ group ≤ 24) ∧ (0 ≤ year ∧ year ≤ 3) ∧ (0 ≤ day ∧ day ≤ 365) ∧
          (day = 365 → year = 3 ∧ group ≤ 23) ∧ z = 36524 * century + 1461 * group + 365 * year + day := by
      by_cases hleap : z % 36524 % 1461 = 1460
      · exact ⟨z / 36524, z % 36524 / 1461, 3, 365, by omega, by omega, by omega, by omega, by omega, by omega⟩
      · exact ⟨z / 36524, z % 36524 / 1461, z % 36524 % 1461 / 365, z % 36524 % 1461 % 365, by omega, by omega, by omega,
          by omega, by omega, by omega⟩
    have hcenturies : z / 36524 = century := by omega
    have hnone : z / 146096 = 0 := by omega
    have hgroups : z / 1460 = 25 * century + group ∧ 24 * century + group + 365 * year + day < 1460 ∨
        z / 1460 = 25 * century + group + 1 ∧ 1460 ≤ 24 * century + group + 365 * year + day := by omega
    have hyears : (z - z / 1460 + z / 36524 - z / 146096) / 365 = 100 * century + 4 * group + year := by
      rw [hcenturies, hnone]
      rcases hgroups with ⟨hgroups, hless⟩ | ⟨hgroups, hmore⟩
      · rw [hgroups]
        omega
      · rw [hgroups]
        omega
    have hfours : (100 * century + 4 * group + year) / 4 = 25 * century + group := by omega
    have hhundreds : (100 * century + 4 * group + year) / 100 = century := by omega
    have hcycle : (100 * century + 4 * group + year) / 400 = 0 := by omega
    have hlow : yearStart (100 * century + 4 * group + year) = 36524 * century + 1461 * group + 365 * year := by
      rw [yearStart, hfours, hhundreds, hcycle]
      omega
    rw [hyears, yearStart_succ, hlow]
    have hlong : day = 365 → isLeap (100 * century + 4 * group + year + 1) = true := by
      intro hday
      obtain ⟨rfl, hgroup⟩ := hleap hday
      simp [isLeap]
      omega
    split
    case isTrue => omega
    case isFalse hshort =>
      have hday := mt hlong hshort
      omega

/-! ## Months from March to February -/

/-- The number of days before a month, from March on. -/
def monthStart (m : Int) : Int := (153 * m + 2) / 5

/-- Every day lies in one month. -/
theorem month_iff {m day : Int} : (5 * day + 2) / 153 = m ↔ monthStart m ≤ day ∧ day < monthStart (m + 1) := by
  simp only [monthStart]
  omega

/-- The date of a day of a year that starts in March. -/
def ofYearDay (y day : Int) : Civil :=
  let m := (5 * day + 2) / 153
  ⟨if m < 10 then y else y + 1, if m < 10 then m + 3 else m - 9, day - monthStart m + 1⟩

/-- The year of a date if years start in March. -/
def marchYear (c : Civil) : Int := if c.month ≤ 2 then c.year - 1 else c.year

/-- The number of months before the one of a date if years start in March. -/
def marchMonth (c : Civil) : Int := if 2 < c.month then c.month - 3 else c.month + 9

/-- The number of days before a date if years start in March. -/
def yearDay (c : Civil) : Int := monthStart c.marchMonth + c.day - 1

/-- A month ends where the next one starts, and February with the year. -/
theorem daysInMonth_eq {c : Civil} (hpos : 1 ≤ c.month) (hle : c.month ≤ 12) : daysInMonth c.year c.month =
    (if c.month = 2 then yearStart (c.marchYear + 1) - yearStart c.marchYear else monthStart (c.marchMonth + 1)) -
      monthStart c.marchMonth := by
  obtain ⟨year, month, day⟩ := c
  simp only at hpos hle
  by_cases hfebruary : month = 2
  · subst hfebruary
    have hlength := yearStart_succ (year - 1)
    rw [sub_add_cancel] at hlength
    simp [daysInMonth, marchYear, marchMonth, monthStart, hlength]
    split <;> omega
  · have hall : ∀ month : Int, 1 ≤ month → month ≤ 12 → month ≠ 2 → daysInMonth year month =
        monthStart ((if 2 < month then month - 3 else month + 9) + 1) -
          monthStart (if 2 < month then month - 3 else month + 9) := by
      intro month hpos hle hne
      interval_cases month <;> first | rfl | exact absurd rfl hne
    simp only [if_neg hfebruary, marchMonth]
    exact hall month hpos hle hfebruary

theorem daysFrom_eq (c : Civil) : daysFrom c = yearStart c.marchYear + c.yearDay - 719468 := by
  have hfdiv (y : Int) : y.fdiv 400 = y / 400 := Int.fdiv_eq_ediv_of_nonneg y (by decide)
  simp only [daysFrom, hfdiv, yearStart, marchYear, yearDay, marchMonth, monthStart]
  generalize (if c.month ≤ 2 then c.year - 1 else c.year) = y
  generalize (if 2 < c.month then c.month - 3 else c.month + 9) = m
  omega

theorem yearStart_succ_bounds (y : Int) :
    yearStart y + 365 ≤ yearStart (y + 1) ∧ yearStart (y + 1) ≤ yearStart y + 366 := by
  rw [yearStart_succ]
  split <;> omega

/-- The date of a day is found in the year of the day. -/
theorem ofDays_eq (n : Int) : ∃ y, (yearStart y ≤ n + 719468 ∧ n + 719468 < yearStart (y + 1)) ∧
    ofDays n = ofYearDay y (n + 719468 - yearStart y) := by
  obtain ⟨era, z, hz, hlow, hhigh⟩ : ∃ era z : Int, n + 719468 = z + era * 146097 ∧ 0 ≤ z ∧ z < 146097 :=
    ⟨(n + 719468) / 146097, (n + 719468) % 146097, by omega, by omega, by omega⟩
  have hera : (z + era * 146097).fdiv 146097 = era := by
    rw [Int.fdiv_eq_ediv_of_nonneg _ (by decide)]
    omega
  have hbounds := yearOfEra_bounds hlow hhigh
  simp only [ofDays, hz, hera, add_sub_cancel_right]
  generalize (z - z / 1460 + z / 36524 - z / 146096) / 365 = y at *
  have hfirst : yearStart 0 < yearStart (y + 1) := hlow.trans_lt hbounds.2
  have hlast : yearStart y < yearStart 400 := hbounds.1.trans_lt hhigh
  rw [strictMono_yearStart.lt_iff_lt] at hfirst hlast
  have hyear : 365 * y + y / 4 - y / 100 = yearStart y := by
    simp only [yearStart]
    omega
  have hnext := yearStart_succ_bounds y
  have hstart := yearStart_cycle y era
  have hstart' := yearStart_cycle (y + 1) era
  have horder : y + era * 400 + 1 = y + 1 + era * 400 := by omega
  refine ⟨y + era * 400, ?_, ?_⟩
  · rw [horder, hstart, hstart']
    omega
  · have hday : z + era * 146097 - yearStart (y + era * 400) = z - yearStart y := by omega
    rw [hyear, hday, ofYearDay]
    generalize hday : z - yearStart y = day at *
    simp only [monthStart]
    have hmonth : 0 ≤ (5 * day + 2) / 153 ∧ (5 * day + 2) / 153 ≤ 11 := by omega
    by_cases hm : (5 * day + 2) / 153 < 10
    · have hlate : ¬(5 * day + 2) / 153 + 3 ≤ 2 := by omega
      simp only [if_pos hm, if_neg hlate]
    · have hearly : (5 * day + 2) / 153 - 9 ≤ 2 := by omega
      simp only [if_neg hm, if_pos hearly]

/-! ## Both directions -/

variable {c : Civil} {y day : Int}

theorem marchMonth_bounds (hpos : 1 ≤ c.month) (hle : c.month ≤ 12) :
    0 ≤ c.marchMonth ∧ c.marchMonth ≤ 11 ∧ (c.marchMonth = 11 ↔ c.month = 2) := by
  unfold marchMonth
  split <;> omega

/-- A date in its year. -/
theorem Genuine.ofYearDay_eq (hc : c.Genuine) :
    (0 ≤ c.yearDay ∧ yearStart c.marchYear + c.yearDay < yearStart (c.marchYear + 1)) ∧
      ofYearDay c.marchYear c.yearDay = c := by
  have hlast := hc.day_le
  have hfirst := hc.day_pos
  rw [daysInMonth_eq hc.month_pos hc.month_le] at hlast
  obtain ⟨hlow, hhigh, hfebruary⟩ := marchMonth_bounds hc.month_pos hc.month_le
  have hlength := yearStart_succ_bounds c.marchYear
  have hmonth : (5 * c.yearDay + 2) / 153 = c.marchMonth := by
    rw [month_iff, yearDay]
    simp only [monthStart] at hlast ⊢
    split at hlast <;> omega
  refine ⟨?_, ?_⟩
  · rw [yearDay]
    simp only [monthStart] at hlast ⊢
    split at hlast <;> omega
  · have hpos := hc.month_pos
    have hle := hc.month_le
    obtain ⟨year, month, day⟩ := c
    simp only [ofYearDay, hmonth, mk.injEq]
    simp only [marchYear, marchMonth, yearDay] at *
    split <;> omega

/-- A day of a year is a date. -/
theorem genuine_ofYearDay (hlow : 0 ≤ day) (hhigh : yearStart y + day < yearStart (y + 1)) :
    (ofYearDay y day).Genuine ∧ (ofYearDay y day).marchYear = y ∧ (ofYearDay y day).yearDay = day := by
  have hlength := yearStart_succ_bounds y
  obtain ⟨m, hm⟩ : ∃ m, (5 * day + 2) / 153 = m := ⟨_, rfl⟩
  have hmonth := month_iff.1 hm
  have hrange : 0 ≤ m ∧ m ≤ 11 := by omega
  have hyear : (ofYearDay y day).marchYear = y := by
    simp only [ofYearDay, marchYear, hm]
    split <;> split <;> omega
  have hself : (ofYearDay y day).marchMonth = m := by
    simp only [ofYearDay, marchMonth, hm]
    split <;> omega
  have hpos : 1 ≤ (ofYearDay y day).month := by
    simp only [ofYearDay, hm]
    split <;> omega
  have hle : (ofYearDay y day).month ≤ 12 := by
    simp only [ofYearDay, hm]
    split <;> omega
  have hday : (ofYearDay y day).day = day - monthStart m + 1 := by
    simp only [ofYearDay, hm]
  refine ⟨⟨hpos, hle, by omega, ?_⟩, hyear, ?_⟩
  · rw [daysInMonth_eq hpos hle, hday, hyear, hself]
    split <;> omega
  · rw [yearDay, hself, hday]
    omega

theorem genuine_ofDays (n : Int) : (ofDays n).Genuine := by
  obtain ⟨y, ⟨hlow, hhigh⟩, heq⟩ := ofDays_eq n
  rw [heq]
  exact (genuine_ofYearDay (by omega) (by omega)).1

theorem daysFrom_ofDays (n : Int) : daysFrom (ofDays n) = n := by
  obtain ⟨y, ⟨hlow, hhigh⟩, heq⟩ := ofDays_eq n
  have hpos : 0 ≤ n + 719468 - yearStart y := by omega
  obtain ⟨-, hyear, hday⟩ := genuine_ofYearDay (y := y) hpos (by omega)
  rw [heq, daysFrom_eq, hyear, hday]
  omega

theorem ofDays_daysFrom (hc : c.Genuine) : ofDays (daysFrom c) = c := by
  obtain ⟨⟨hlow, hhigh⟩, hself⟩ := hc.ofYearDay_eq
  obtain ⟨y, hbounds, heq⟩ := ofDays_eq (daysFrom c)
  have hnumber : daysFrom c + 719468 = yearStart c.marchYear + c.yearDay := by
    rw [daysFrom_eq]
    omega
  rw [hnumber] at hbounds heq
  obtain rfl : y = c.marchYear := year_unique hbounds ⟨by omega, hhigh⟩
  rw [heq, add_sub_cancel_left, hself]

/-! ## Years from January to December -/

theorem daysFrom_newYear (y : Int) : daysFrom ⟨y, 1, 1⟩ = yearStart (y - 1) - 719162 := by
  rw [daysFrom_eq]
  simp only [marchYear, yearDay, marchMonth, monthStart]
  rw [if_pos (by decide), if_neg (by decide)]
  omega

theorem strictMono_newYear : StrictMono fun y => daysFrom ⟨y, 1, 1⟩ := by
  intro y y' hlt
  have hmarch := strictMono_yearStart (sub_lt_sub_right hlt 1)
  simp only [daysFrom_newYear]
  omega

/-- A date lies in its year. -/
theorem Genuine.newYear_bounds (hc : c.Genuine) :
    daysFrom ⟨c.year, 1, 1⟩ ≤ daysFrom c ∧ daysFrom c < daysFrom ⟨c.year + 1, 1, 1⟩ := by
  obtain ⟨⟨hfirst, hlast⟩, -⟩ := hc.ofYearDay_eq
  have hpos := hc.month_pos
  have hle := hc.month_le
  have hday := hc.day_pos
  have hlength := hc.day_le
  have hnext := yearStart_succ_bounds (c.year - 1)
  rw [sub_add_cancel] at hnext
  rw [daysFrom_newYear, daysFrom_newYear, daysFrom_eq, add_sub_cancel_right]
  by_cases hmonth : c.month ≤ 2
  · -- January and February belong to the year that starts in the March before.
    have hyear : c.marchYear = c.year - 1 := if_pos hmonth
    have hwinter : 306 ≤ c.yearDay := by
      simp only [yearDay, marchMonth, monthStart]
      split <;> omega
    rw [hyear, sub_add_cancel] at hlast
    rw [hyear]
    omega
  · have hyear : c.marchYear = c.year := if_neg hmonth
    have hsummer : c.yearDay ≤ 305 := by
      rw [daysInMonth_eq hpos hle, if_neg (by omega)] at hlength
      simp only [yearDay, marchMonth, monthStart] at hlength ⊢
      split at hlength <;> split <;> omega
    rw [hyear]
    omega

/-- Later years have greater day numbers. -/
theorem Genuine.le_year_iff (hc : c.Genuine) (y : Int) : y ≤ c.year ↔ daysFrom ⟨y, 1, 1⟩ ≤ daysFrom c := by
  obtain ⟨hstart, hend⟩ := hc.newYear_bounds
  constructor
  · intro h
    exact (strictMono_newYear.monotone h).trans hstart
  · intro h
    exact Int.lt_add_one_iff.1 (strictMono_newYear.lt_iff_lt.1 (h.trans_lt hend))

/-! ## Counting days -/

theorem daysInMonth_bounds (year month : Int) : 1 ≤ daysInMonth year month ∧ daysInMonth year month ≤ 31 := by
  unfold daysInMonth
  repeat' split
  all_goals omega

theorem Genuine.next (hc : c.Genuine) : c.next.Genuine := by
  obtain ⟨hpos, hle, hfirst, hlast⟩ := hc
  unfold Civil.next
  split
  · exact ⟨hpos, hle, by simp only; omega, by simp only; omega⟩
  · split
    · exact ⟨by simp only; omega, by simp only; omega, le_rfl, (daysInMonth_bounds _ _).1⟩
    · exact ⟨le_rfl, by simp only; omega, le_rfl, (daysInMonth_bounds _ _).1⟩

/-- The next day has the next number. -/
theorem daysFrom_next (hc : c.Genuine) : daysFrom c.next = daysFrom c + 1 := by
  have hlast := hc.day_le
  have hpos := hc.month_pos
  have hle := hc.month_le
  unfold next
  split
  case isTrue =>
    rw [daysFrom_eq, daysFrom_eq]
    simp only [marchYear, marchMonth, yearDay]
    omega
  case isFalse hend =>
    -- After the last day of a month comes the first one of the next.
    have hday : c.day = daysInMonth c.year c.month := by omega
    rw [daysInMonth_eq hpos hle] at hday
    obtain ⟨year, month, day⟩ := c
    simp only at hpos hle hday ⊢
    by_cases hfebruary : month = 2
    · subst hfebruary
      simp [daysFrom_eq, yearDay, marchMonth, marchYear, monthStart] at hday ⊢
      omega
    · rw [if_neg hfebruary] at hday
      split
      case isTrue hsame =>
        have hmonth : marchMonth ⟨year, month + 1, 1⟩ = marchMonth ⟨year, month, day⟩ + 1 := by
          simp only [marchMonth]
          split <;> split <;> omega
        have hyear : marchYear ⟨year, month + 1, 1⟩ = marchYear ⟨year, month, day⟩ := by
          simp only [marchYear]
          split <;> split <;> omega
        rw [daysFrom_eq, daysFrom_eq, yearDay, yearDay, hmonth, hyear]
        simp only
        omega
      case isFalse hother =>
        obtain rfl : month = 12 := by omega
        simp [daysFrom_eq, yearDay, marchMonth, marchYear, monthStart] at hday ⊢
        omega

/-- The arithmetic counts days. -/
theorem dayNumber_iff {n : Int} : DayNumber c n ↔ c.Genuine ∧ daysFrom c = n := by
  constructor
  · intro h
    induction h with
    | epoch => exact ⟨⟨by decide, by decide, by decide, by decide⟩, by decide⟩
    | after _ ih => exact ⟨ih.1.next, by rw [daysFrom_next ih.1, ih.2]⟩
    | before hc _ ih =>
      have hnext := daysFrom_next hc
      exact ⟨hc, by omega⟩
  · rintro ⟨hc, rfl⟩
    have hnext (n : Int) : (ofDays n).next = ofDays (n + 1) := by
      rw [← ofDays_daysFrom (genuine_ofDays n).next, daysFrom_next (genuine_ofDays n), daysFrom_ofDays]
    have hall (n : Int) : DayNumber (ofDays n) n := by
      induction n with
      | zero => exact .epoch
      | succ n ih =>
        rw [← hnext]
        exact ih.after
      | pred n ih =>
        refine .before (genuine_ofDays _) ?_
        rw [hnext, sub_add_cancel]
        exact ih
    have hself := hall (daysFrom c)
    rwa [ofDays_daysFrom hc] at hself

end Civil

end ScriptEngine
