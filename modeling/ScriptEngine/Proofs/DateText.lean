import Mathlib
import ScriptEngine.Proofs.Instants
import ScriptEngine.Proofs.Places

/-!
# Printed dates

A time is printed as a date, a time of day and the zone of the clock. All parts have a fixed number of characters, so a
text that is printed has 33 of them, whatever the year is and on whichever side of the start of 1970 the time lies. Each part
is read back by its own reader, which takes as many characters as were printed and leaves the rest. What is lost is only the
fraction of a second.

## Main results

* `Time.two_eq`, `Time.four_parts`: the digits of what is printed.
* `Moment.ofPrinted?_printed`: the moment that is read from a printed time.
* `Moment.ofFigures?_printed`: a printed time is no date in figures.
* `Time.parse_text`: a printed time is read back up to its second.
-/

namespace ScriptEngine

open Decimal (digitsValue)

/-! ## Digits -/

namespace Time

/-- A number below 100 has two digits. -/
theorem two_eq {n : Nat} (hn : n < 100) : two n = [48 + n / 10, 48 + n % 10] := by
  have hsign : ¬(n : Int) < 0 := by omega
  rw [two, Text.ofInt, if_neg hsign, Int.natAbs_natCast, Text.padZero_ofNat, Text.padZero_one, Text.ofNat_of_lt (by omega)]
  rfl

/-- A number below 10000 has four digits. -/
theorem four_parts {n : Nat} (hn : n < 10000) : (four n).IsDigits ∧ (four n).length = 4 ∧ digitsValue (four n) = n := by
  have hsign : ¬(n : Int) < 0 := by omega
  have hlength : (Text.ofNat n).length ≤ 4 := Decimal.digitCount_le (k := 4) (by decide) hn
  rw [four, Text.ofInt, if_neg hsign, Int.natAbs_natCast, Text.padZero]
  refine ⟨(Text.isDigits_zeros _).append (Text.isDigits_ofNat n), ?_, ?_⟩
  · rw [List.length_append, Text.zeros, List.length_replicate]
    omega
  · rw [Decimal.digitsValue_append, Decimal.digitsValue_zeros, Decimal.digitsValue_ofNat, zero_mul, zero_add]

end Time

/-! ## Characters -/

/-- A text without a character has no place where it is replaced. -/
theorem Text.replaceAll_of_not_mem {c : CodePoint} {t : Text} (h : c ∉ t) (new : Text) : replaceAll t [c] new = t := by
  have hsplit (piece : Text) : splitLoop [c] 0 piece t = [piece.reverse ++ t] := by
    induction t generalizing piece with
    | nil => simp [splitLoop]
    | cons d t ih =>
      obtain ⟨hd, ht⟩ := List.ne_and_not_mem_of_not_mem_cons h
      simp [splitLoop, hd, ih ht]
  rw [replaceAll, splitOn, hsplit]
  rfl

/-- A character other than a blank, and other than the letter that stands for Greenwich. -/
def Text.IsInk (c : Nat) : Prop := 33 ≤ c ∧ c < 128 ∧ c ≠ 90

namespace Text.IsInk

theorem not_blank {c : Nat} (h : IsInk c) : isBlank c = false := by
  have hall : ∀ c < 128, 33 ≤ c → isBlank c = false := by decide
  exact hall c h.2.1 h.1

theorem of_isAsciiDigit {c : Nat} (h : isAsciiDigit c) : IsInk c := by
  have hdigit := (isAsciiDigit_iff c).1 h
  exact ⟨by omega, by omega, by omega⟩

end Text.IsInk

namespace Time

open Text (IsInk)

variable {n : Nat}

theorem two_ink (hn : n < 100) : (two n).length = 2 ∧ ∀ c ∈ two n, IsInk c := by
  rw [two_eq hn]
  refine ⟨rfl, fun c hc => .of_isAsciiDigit ((Text.isAsciiDigit_iff c).2 ?_)⟩
  obtain rfl | rfl : c = 48 + n / 10 ∨ c = 48 + n % 10 := by simpa using hc
  · omega
  · omega

theorem four_ink (hn : n < 10000) : (four n).length = 4 ∧ ∀ c ∈ four n, IsInk c := by
  obtain ⟨hdigits, hlength, -⟩ := four_parts hn
  exact ⟨hlength, fun c hc => .of_isAsciiDigit (hdigits c hc)⟩

theorem dayNames_ink (hn : n < 7) : (nameAt dayNames n).length = 3 ∧ ∀ c ∈ nameAt dayNames n, IsInk c := by
  unfold IsInk
  interval_cases n <;> decide

theorem monthNames_ink (hn : n < 12) : (nameAt monthNames n).length = 3 ∧ ∀ c ∈ nameAt monthNames n, IsInk c := by
  unfold IsInk
  interval_cases n <;> decide

theorem zoneText_ink {zone : Int} (hzone : zone.natAbs < 1440) :
    (zoneText zone).length = 8 ∧ ∀ c ∈ zoneText zone, IsInk c := by
  obtain ⟨hlength, hhours⟩ := two_ink (n := zone.natAbs / 60) (by omega)
  obtain ⟨hlength', hminutes⟩ := two_ink (n := zone.natAbs % 60) (by omega)
  have hsign : ((if 0 ≤ zone then "+" else "-" : Text)).length = 1 ∧
      ∀ c ∈ (if 0 ≤ zone then "+" else "-" : Text), IsInk c := by
    unfold IsInk
    split <;> decide
  have hname : (Text.ofString "GMT").length = 3 ∧ ∀ c ∈ Text.ofString "GMT", IsInk c := by
    unfold IsInk
    decide
  constructor
  · rw [zoneText, List.length_append, List.length_append, List.length_append, hname.1, hsign.1, hlength, hlength']
  · simp only [zoneText, List.mem_append]
    rintro c (((hc | hc) | hc) | hc)
    · exact hname.2 c hc
    · exact hsign.2 c hc
    · exact hhours c hc
    · exact hminutes c hc

/-! ## What is printed -/

/-- The parts of a printed time, with blanks and colons between them. -/
def printed (w : Int) (f : Fields) (zone : Int) : Text :=
  nameAt dayNames w ++ (32 :: (nameAt monthNames f.month ++ (32 :: (two f.day ++ (32 :: (four f.year ++ (32 ::
    (two f.hours ++ (58 :: (two f.minutes ++ (58 :: (two f.seconds ++ (32 :: zoneText zone)))))))))))))

theorem text_full {zone : Int} {x : Float} (hx : isValid x = true) :
    text zone x .full = printed (Civil.weekday (localDay zone x)) (fields zone x) zone := by
  simp only [text, hx, dateText, clockText, Bool.not_true, Bool.false_eq_true, if_false, printed, List.append_assoc]
  rfl

/-- The parts of a printed time are visible, and have as many characters as they always have. -/
structure Printable (w : Int) (f : Fields) (zone : Int) : Prop where
  /-- The name of the day has three. -/
  weekday : (nameAt dayNames w).length = 3 ∧ ∀ c ∈ nameAt dayNames w, IsInk c
  /-- It starts with a letter. -/
  letter : ∀ c ∈ (nameAt dayNames w).head?, Text.isAsciiDigit c = false
  /-- The name of the month has three. -/
  month : (nameAt monthNames f.month).length = 3 ∧ ∀ c ∈ nameAt monthNames f.month, IsInk c
  /-- The day of the month has two. -/
  day : (two f.day).length = 2 ∧ ∀ c ∈ two f.day, IsInk c
  /-- The year has four. -/
  year : (four f.year).length = 4 ∧ ∀ c ∈ four f.year, IsInk c
  /-- The hours have two. -/
  hours : (two f.hours).length = 2 ∧ ∀ c ∈ two f.hours, IsInk c
  /-- The minutes have two. -/
  minutes : (two f.minutes).length = 2 ∧ ∀ c ∈ two f.minutes, IsInk c
  /-- The seconds have two. -/
  seconds : (two f.seconds).length = 2 ∧ ∀ c ∈ two f.seconds, IsInk c
  /-- The zone has eight. -/
  zone : (zoneText zone).length = 8 ∧ ∀ c ∈ zoneText zone, IsInk c

variable {w zone : Int} {f : Fields}

/-- The day of the week and the fields of local clocks in the years from 1 to 9999 are natural numbers. -/
theorem exists_natural (hw : 0 ≤ w ∧ w < 7) (hf : f.Genuine) (hlow : 1 ≤ f.year) (hhigh : f.year ≤ 9999) :
    ∃ (n year month day hours minutes seconds : Nat) (milliseconds : Int),
      w = n ∧ f = ⟨year, month, day, hours, minutes, seconds, milliseconds⟩ ∧ n < 7 ∧ 1 ≤ year ∧ year ≤ 9999 ∧
        month < 12 ∧ 1 ≤ day ∧ day ≤ 31 ∧ hours < 24 ∧ minutes < 60 ∧ seconds < 60 := by
  have hmonth : 1 ≤ f.month + 1 ∧ f.month + 1 ≤ 12 := ⟨hf.date.month_pos, hf.date.month_le⟩
  have hday : 1 ≤ f.day ∧ f.day ≤ 31 := ⟨hf.date.day_pos, hf.date.day_le.trans (Civil.daysInMonth_bounds _ _).2⟩
  obtain ⟨-, hhours, hminutes, hseconds, -⟩ := hf
  obtain ⟨year, month, day, hours, minutes, seconds, milliseconds⟩ := f
  simp only at *
  lift w to Nat using hw.1
  lift year to Nat using by omega
  lift month to Nat using by omega
  lift day to Nat using by omega
  lift hours to Nat using by omega
  lift minutes to Nat using by omega
  lift seconds to Nat using by omega
  exact ⟨w, year, month, day, hours, minutes, seconds, milliseconds, rfl, rfl, by omega⟩

/-- The fields of local clocks in the years from 1 to 9999 are printable. -/
theorem printable (hw : 0 ≤ w ∧ w < 7) (hf : f.Genuine) (hlow : 1 ≤ f.year) (hhigh : f.year ≤ 9999)
    (hzone : zone.natAbs < 1440) : Printable w f zone := by
  obtain ⟨n, year, month, day, hours, minutes, seconds, _, rfl, rfl, hn, -, hyear, hmonth, -, hday, hhours, hminutes,
    hseconds⟩ := exists_natural hw hf hlow hhigh
  exact {
    weekday := dayNames_ink hn
    letter := by interval_cases n <;> decide
    month := monthNames_ink hmonth
    day := two_ink (by omega)
    year := four_ink (by omega)
    hours := two_ink (by omega)
    minutes := two_ink (by omega)
    seconds := two_ink (by omega)
    zone := zoneText_ink hzone }

namespace Printable

variable (h : Printable w f zone)

include h

theorem length : (printed w f zone).length = 33 := by
  simp only [printed, List.length_append, List.length_cons, h.weekday.1, h.month.1, h.day.1, h.year.1, h.hours.1,
    h.minutes.1, h.seconds.1, h.zone.1]

/-- All characters but the blanks are visible. -/
theorem ink : ∀ c ∈ printed w f zone, c = 32 ∨ IsInk c := by
  have hcolon : IsInk 58 := ⟨by decide, by decide, by decide⟩
  simp only [printed, List.mem_append, List.mem_cons]
  rintro c (hc | rfl | hc | rfl | hc | rfl | hc | rfl | hc | rfl | hc | rfl | hc | rfl | hc)
  · exact .inr (h.weekday.2 c hc)
  · exact .inl rfl
  · exact .inr (h.month.2 c hc)
  · exact .inl rfl
  · exact .inr (h.day.2 c hc)
  · exact .inl rfl
  · exact .inr (h.year.2 c hc)
  · exact .inl rfl
  · exact .inr (h.hours.2 c hc)
  · exact .inr hcolon
  · exact .inr (h.minutes.2 c hc)
  · exact .inr hcolon
  · exact .inr (h.seconds.2 c hc)
  · exact .inl rfl
  · exact .inr (h.zone.2 c hc)

/-- A printed time is written in ASCII, and nothing in it stands for Greenwich. -/
theorem ascii : ∀ c ∈ printed w f zone, c < 128 ∧ c ≠ 90 := by
  intro c hc
  rcases h.ink c hc with rfl | hink
  · decide
  · exact hink.2

/-- No blanks stand at the ends. -/
theorem strip : Text.strip (printed w f zone) = printed w f zone := by
  obtain ⟨first, rest, hfirst⟩ := List.exists_cons_of_length_eq_add_one h.weekday.1
  obtain ⟨last, front, hlast⟩ := List.exists_cons_of_length_eq_add_one (List.length_reverse.trans h.zone.1)
  have hink := (h.weekday.2 first (by rw [hfirst]; exact List.mem_cons_self)).not_blank
  have hink' := (h.zone.2 last (by rw [← List.mem_reverse, hlast]; exact List.mem_cons_self)).not_blank
  obtain ⟨before, hbefore⟩ : ∃ before, printed w f zone = before ++ zoneText zone :=
    ⟨nameAt dayNames w ++ (32 :: (nameAt monthNames f.month ++ (32 :: (two f.day ++ (32 :: (four f.year ++ (32 ::
      (two f.hours ++ (58 :: (two f.minutes ++ (58 :: (two f.seconds ++ [32])))))))))))), by simp [printed]⟩
  have hstart : Text.trimStart Text.isBlank (printed w f zone) = printed w f zone := by
    rw [printed, hfirst, List.cons_append, Text.trimStart, List.dropWhile_cons_of_neg (by simp [hink])]
  rw [Text.strip, Text.trim, hstart, Text.trimEnd, hbefore, List.reverse_append, hlast, List.cons_append,
    List.dropWhile_cons_of_neg (by simp [hink']), ← List.cons_append, ← hlast, ← List.reverse_append, List.reverse_reverse]

end Printable

end Time

/-! ## Readers -/

namespace Moment

open Time (two four nameAt dayNames monthNames zoneText)

variable {n : Nat} {rest : Text}

/-- The digits of a number below 100, and the number that is read from them. -/
theorem digits_two (hn : n < 100) : two n = [48 + n / 10, 48 + n % 10] ∧ Text.isDecimal (48 + n / 10) ∧
    Text.isDecimal (48 + n % 10) ∧ number [48 + n / 10, 48 + n % 10] = n := by
  have hdigit {d : Nat} (hd : d < 10) : Text.isAsciiDigit (48 + d) := (Text.isAsciiDigit_iff _).2 ⟨by omega, by omega⟩
  have hvalue {d : Nat} (hd : d < 10) : Text.decimalValue? (48 + d) = some d := by
    rw [Text.decimalValue?_of_isAsciiDigit (hdigit hd), Nat.add_sub_cancel_left]
  have hten : n / 10 < 10 := by omega
  have hone : n % 10 < 10 := by omega
  refine ⟨Time.two_eq hn, Text.isDecimal_of_isAsciiDigit (hdigit hten), Text.isDecimal_of_isAsciiDigit (hdigit hone), ?_⟩
  simp only [number, digitsValue, List.foldl, hvalue hten, hvalue hone, Option.getD_some]
  omega

/-- The name of a day is found among the names. -/
theorem name?_dayNames {i : Nat} (hi : i < 7) (rest : Text) :
    name? dayNames (nameAt dayNames i ++ rest) = some (i, rest) := by
  interval_cases i <;> rfl

/-- The name of a month is found among the names. -/
theorem name?_monthNames {i : Nat} (hi : i < 12) (rest : Text) :
    name? monthNames (nameAt monthNames i ++ rest) = some (i, rest) := by
  interval_cases i <;> rfl

/-- One blank is passed over. -/
theorem blanks?_cons {t : Text} {n : Nat} (h : t.length = n + 1 ∧ ∀ c ∈ t, Text.IsInk c) (rest : Text) :
    blanks? (32 :: (t ++ rest)) = some (t ++ rest) := by
  have hblank : Text.isBlank 32 = true := by decide
  obtain ⟨hlength, ht⟩ := h
  obtain ⟨c, t, rfl⟩ := List.exists_cons_of_length_eq_add_one hlength
  have hc := (ht c List.mem_cons_self).not_blank
  simp [blanks?, hblank, hc]

/-- A day of the month has two digits. -/
theorem dayOfMonth?_two (hlow : 1 ≤ n) (hhigh : n ≤ 31) (rest : Text) :
    dayOfMonth? (two n ++ rest) = some ((n : Int), rest) := by
  obtain ⟨htwo, -, hdecimal, hvalue⟩ := digits_two (n := n) (by omega)
  rw [htwo, List.cons_append, List.singleton_append]
  simp only [dayOfMonth?, hvalue, hdecimal, Bool.and_true]
  obtain hfirst | hfirst | hfirst : n / 10 = 0 ∨ (n / 10 = 1 ∨ n / 10 = 2) ∨ n / 10 = 3 := by omega
  · have hlast : 49 ≤ 48 + n % 10 ∧ 48 + n % 10 ≤ 57 := by omega
    simp [hfirst, hlast]
  · rcases hfirst with hfirst | hfirst <;> simp [hfirst]
  · have hlast : n % 10 = 0 ∨ n % 10 = 1 := by omega
    rcases hlast with hlast | hlast <;> simp [hfirst, hlast]

/-- A year has four digits. -/
theorem decimals?_four (hn : n < 10000) (rest : Text) : decimals? 4 (four n ++ rest) = some (four n, rest) := by
  obtain ⟨hdigits, hlength, -⟩ := Time.four_parts hn
  have hdecimals : (four n).all Text.isDecimal = true :=
    List.all_eq_true.2 fun c hc => Text.isDecimal_of_isAsciiDigit (hdigits c hc)
  simp [decimals?, List.take_left' hlength, List.drop_left' hlength, hlength, hdecimals]

/-- Two digits of a time of day; a first digit that is too large is allowed for in pairs. -/
theorem short?_two (most : Nat) (exact : List String) (hn : n < 100)
    (h : n / 10 ≤ most ∨ (exact.any fun p => Text.ofString p = two n) = true) (rest : Text) :
    short? most exact (two n ++ rest) = some ((n : Int), rest) := by
  obtain ⟨htwo, -, hdecimal, hvalue⟩ := digits_two hn
  rw [htwo] at h ⊢
  rw [List.cons_append, List.singleton_append]
  simp only [short?, hvalue, hdecimal, Bool.and_true]
  rcases h with hmost | hexact
  · simp [hmost]
  · simp [hexact]

/-- Two digits of an offset, the hours. -/
theorem decimals?_two (hn : n < 100) (rest : Text) : decimals? 2 (two n ++ rest) = some (two n, rest) := by
  obtain ⟨htwo, hten, hone, -⟩ := digits_two hn
  rw [htwo]
  simp [decimals?, hten, hone]

/-- Two digits of an offset, the minutes. -/
theorem sixty?_two (hn : n < 60) (rest : Text) : sixty? (two n ++ rest) = some ((n : Int), rest) := by
  obtain ⟨htwo, -, hone, hvalue⟩ := digits_two (n := n) (by omega)
  have hfirst : 48 + n / 10 ≤ 53 := by omega
  rw [htwo, List.cons_append, List.singleton_append]
  simp [sixty?, hfirst, hone, hvalue]

/-- The zone of a clock is read back in microseconds. -/
theorem printedOffset?_zoneText {zone : Int} (hzone : zone.natAbs < 1440) :
    printedOffset? ((zoneText zone).drop 3) = some (zone * 60000000) := by
  obtain ⟨sign, hsign, htext⟩ : ∃ sign, sign = (if 0 ≤ zone then 43 else 45) ∧
      (zoneText zone).drop 3 = sign :: (two (zone.natAbs / 60 : Nat) ++ two (zone.natAbs % 60 : Nat)) := by
    refine ⟨_, rfl, ?_⟩
    rw [zoneText]
    split <;> rfl
  have hmark : ¬(sign ≠ 43 ∧ sign ≠ 45) := by
    rw [hsign]
    split <;> simp
  have hhours := decimals?_two (n := zone.natAbs / 60) (by omega) (two (zone.natAbs % 60 : Nat))
  have hminutes := sixty?_two (n := zone.natAbs % 60) (by omega) []
  obtain ⟨htwo, -, -, hvalue⟩ := digits_two (n := zone.natAbs / 60) (by omega)
  obtain ⟨htwo', -, -, -⟩ := digits_two (n := zone.natAbs % 60) (by omega)
  have hcolon : ¬(two (zone.natAbs % 60 : Nat)).head? = some 58 := by
    have hdigit : 48 + zone.natAbs % 60 / 10 ≠ 58 := by omega
    rw [htwo', List.head?_cons, Option.some.injEq]
    exact hdigit
  have hfraction : offsetFraction? [] = some 0 := rfl
  rw [List.append_nil] at hminutes
  rw [htwo, List.cons_append, List.singleton_append] at hhours
  rw [htext, htwo, List.cons_append, List.singleton_append]
  simp only [printedOffset?, hhours, if_neg hmark, hcolon, if_false, hminutes, hvalue, hfraction, List.isEmpty_nil, if_true,
    Option.bind_eq_bind, Option.bind_some]
  change some _ = some _
  rw [Option.some.injEq, hsign]
  by_cases hpos : 0 ≤ zone
  · rw [if_pos hpos, if_neg (by decide)]
    omega
  · rw [if_neg hpos, if_pos rfl]
    omega

end Moment

/-! ## Reading what is printed -/

namespace Moment

open Time (printed)

/-- A printed time is read part by part. -/
theorem ofPrinted?_printed {w zone : Int} {f : Fields} (hw : 0 ≤ w ∧ w < 7) (hf : f.Genuine) (hlow : 1 ≤ f.year)
    (hhigh : f.year ≤ 9999) (hzone : zone.natAbs < 1440) : ofPrinted? (printed w f zone) =
      some ⟨f.year, f.month + 1, f.day, f.hours, f.minutes, f.seconds, 0, some (zone * 60000000)⟩ := by
  have hprint := Time.printable hw hf hlow hhigh hzone
  rw [ofPrinted?, List.take_of_length_le (Nat.le_of_eq hprint.length), printed]
  have hlast : f.day ≤ Civil.daysInMonth f.year (f.month + 1) := hf.date.day_le
  obtain ⟨n, year, month, day, hours, minutes, seconds, _, rfl, rfl, hn, hpos, hyear, hmonth, hdayPos, hday, hhours,
    hminutes, hseconds⟩ := Time.exists_natural hw hf hlow hhigh
  simp only at hlast
  have hzoneBlank := blanks?_cons hprint.zone []
  rw [List.append_nil] at hzoneBlank
  have hfirst := name?_dayNames (i := n) hn
  have hsecond := name?_monthNames (i := month) hmonth
  have hthird := dayOfMonth?_two (n := day) (by omega) (by omega)
  have hfourth := decimals?_four (n := year) (by omega)
  have hpair : hours / 10 ≤ 1 ∨ (["20", "21", "22", "23"].any fun p => Text.ofString p = Time.two hours) = true := by
    by_cases hless : hours < 20
    · exact .inl (by omega)
    · obtain rfl | rfl | rfl | rfl : hours = 20 ∨ hours = 21 ∨ hours = 22 ∨ hours = 23 := by omega
      all_goals exact .inr (by decide)
  have hfifth := short?_two (n := hours) 1 ["20", "21", "22", "23"] (by omega) hpair
  have hsixth := short?_two (n := minutes) 5 [] (by omega) (.inl (by omega))
  have hseventh := short?_two (n := seconds) 5 ["60", "61"] (by omega) (.inl (by omega))
  have hcolon (r : Text) : expect? 58 (58 :: r) = some r := rfl
  refine Option.bind_eq_some_iff.2 ⟨_, hfirst _, ?_⟩
  refine Option.bind_eq_some_iff.2 ⟨_, blanks?_cons hprint.month _, Option.bind_eq_some_iff.2 ⟨_, hsecond _, ?_⟩⟩
  refine Option.bind_eq_some_iff.2 ⟨_, blanks?_cons hprint.day _, Option.bind_eq_some_iff.2 ⟨_, hthird _, ?_⟩⟩
  refine Option.bind_eq_some_iff.2 ⟨_, blanks?_cons hprint.year _, Option.bind_eq_some_iff.2 ⟨_, hfourth _, ?_⟩⟩
  refine Option.bind_eq_some_iff.2 ⟨_, blanks?_cons hprint.hours _, Option.bind_eq_some_iff.2 ⟨_, hfifth _, ?_⟩⟩
  refine Option.bind_eq_some_iff.2 ⟨_, hcolon _, Option.bind_eq_some_iff.2 ⟨_, hsixth _, ?_⟩⟩
  refine Option.bind_eq_some_iff.2 ⟨_, hcolon _, Option.bind_eq_some_iff.2 ⟨_, hseventh _, ?_⟩⟩
  refine Option.bind_eq_some_iff.2 ⟨_, hzoneBlank, ?_⟩
  have hname : ¬((Time.zoneText zone).take 3).map smallLetter ≠ Text.ofString "gmt" := not_not.2 rfl
  have hyear : number (Time.four year) = year := congrArg Nat.cast (Time.four_parts (n := year) (by omega)).2.2
  rw [if_neg hname]
  refine Option.bind_eq_some_iff.2 ⟨_, printedOffset?_zoneText hzone, ?_⟩
  rw [hyear]
  have hgenuine : isGenuine ⟨year, month + 1, day, hours, minutes, seconds, 0, some (zone * 60000000)⟩ = true := by
    simp only [isGenuine, Bool.and_eq_true, decide_eq_true_eq]
    omega
  have hfits : offsetFits (zone * 60000000) = true := by
    simp only [offsetFits, Bool.and_eq_true, decide_eq_true_eq]
    omega
  exact if_pos (by rw [hgenuine, hfits]; rfl)

/-- A printed time starts with a letter, so it is no date in figures. -/
theorem ofFigures?_printed {w zone : Int} {f : Fields} (h : Time.Printable w f zone) :
    ofFigures? (printed w f zone) = none := by
  have hascii (c : Nat) (hc : c ∈ printed w f zone) : isSurrogate c = false := by
    have hsmall := (h.ascii c hc).1
    have hlow : ¬0xD800 ≤ c := Nat.not_le.2 (Nat.lt_trans hsmall (by decide))
    simp [isSurrogate, hlow]
  have hmend : mendSeparator (printed w f zone) = printed w f zone := by
    have hnone (i : Nat) : ((printed w f zone)[i]?).any isSurrogate = false := by
      rw [Option.any_eq_false]
      intro c hc
      simp [hascii c (List.mem_of_getElem? hc)]
    simp [mendSeparator, hnone]
  have hdate (n : Nat) : date? ((printed w f zone).take n) = none := by
    obtain ⟨first, rest, hfirst⟩ := List.exists_cons_of_length_eq_add_one h.weekday.1
    have hletter := h.letter first (by rw [hfirst]; rfl)
    have hnone : figures? 4 ((printed w f zone).take n) = none := by
      rw [printed, hfirst, figures?]
      cases n with
      | zero => rfl
      | succ n => simp [hletter]
    rw [date?, hnone]
    rfl
  simp [ofFigures?, hmend, hdate]

end Moment

/-! ## Whole seconds -/

namespace Moment

theorem roundsTo_quotient (num : Int) {den : Nat} (hden : den ≠ 0) : Number.RoundsTo (num / den) (quotient num den) := by
  refine ⟨decide (num < 0), num.natAbs / den, by positivity, ?_, Number.rounds_nearest _ _ hden⟩
  have hcast : ((num.natAbs : Nat) : ℚ) = |(num : ℚ)| := by rw [Nat.cast_natAbs, Int.cast_abs]
  rw [hcast]
  by_cases hneg : num < 0
  · rw [decide_eq_true hneg, if_pos rfl, abs_of_neg (Int.cast_lt_zero.2 hneg), neg_div, neg_neg]
  · rw [decide_eq_false hneg, if_neg Bool.false_ne_true, abs_of_nonneg (Int.cast_nonneg (not_lt.1 hneg))]

/-- The time of a moment with an offset, counted in whole seconds. -/
theorem time_of_offset {m : Moment} {offset k : Int} (zone : Int) (hoffset : m.offset = some offset)
    (h : m.clockSeconds * 1000000 + m.microseconds - offset = k * 1000000) (hk : k.natAbs < 2 ^ 38) :
    m.time zone = .ok (Time.clipInt (k * 1000)) := by
  have hquotient : ((k * 1000000 : Int) : ℚ) / (1000000 : Nat) = k := by
    push_cast
    exact mul_div_cancel_right₀ _ (by norm_num)
  have hbound : |(k : ℚ)| ≤ 2 ^ 52 * 2 ^ (-14 : Int) := (Number.abs_intCast_lt hk).le.trans (by norm_num)
  have hround := roundsTo_quotient (k * 1000000) (show 1000000 ≠ 0 by decide)
  rw [hquotient] at hround
  obtain ⟨r, hr, herror⟩ := hround.near (by decide) (by decide) hbound
  have hnear : |r * 1000 - (k * 1000 : Int)| < 1 / 4 := by
    rw [abs_le] at herror
    rw [abs_lt]
    norm_num at herror
    push_cast
    constructor <;> linarith
  simp only [time, hoffset, h]
  rw [Time.ofSeconds_eq hr hnear (by omega)]

end Moment

namespace Time

variable {zone t : Int}

/-- The valid instants are the whole numbers of milliseconds in their range. -/
theorem exists_of_clip {x : Float} (hx : isValid x) (hclip : clip x = x) :
    ∃ t, x = Number.ofInt t ∧ earliest ≤ t ∧ t ≤ latest := by
  unfold clip at hclip
  split at hclip
  case isTrue hrange =>
    obtain ⟨d, hd⟩ : ∃ d, Number.decode x = some d := by
      rcases hdecode : Number.decode x with _ | d
      · have hzero : Number.truncate x = 0 := by rw [Number.truncate, Number.truncate?, hdecode]; rfl
        have hnone : Number.decode (Number.ofInt 0) ≠ none := by decide +kernel
        rw [← hclip, hzero] at hdecode
        exact absurd hdecode hnone
      · exact ⟨d, rfl⟩
    have hvalue : Number.value? x = some d.value := by rw [Number.value?, hd]; rfl
    rw [Bool.and_eq_true, decide_eq_true_eq, decide_eq_true_eq,
      Number.le_iff (Number.value?_ofInt (by decide)) hvalue,
      Number.le_iff hvalue (Number.value?_ofInt (by decide))] at hrange
    obtain ⟨hlow, hhigh⟩ := hrange
    have hwhole : Number.truncate x = Number.towardZero d.value := by
      rw [Number.truncate, Number.truncate?_eq, hvalue]
      rfl
    refine ⟨Number.truncate x, hclip.symm, ?_⟩
    rw [hwhole, Number.towardZero]
    split
    case isTrue hpos =>
      exact ⟨Int.le_floor.2 hlow, Int.cast_le.1 ((Int.floor_le _).trans hhigh)⟩
    case isFalse hneg =>
      exact ⟨Int.cast_le.1 (hlow.trans (Int.le_ceil _)), Int.ceil_le.2 hhigh⟩
  case isFalse =>
    rw [← hclip] at hx
    exact absurd hx (by decide +kernel)

/-- A local clock that is less than a day off shows the years from 1 to 9999. -/
theorem year_bounds (hlow : earliest ≤ t) (hhigh : t ≤ latest) (hzone : zone.natAbs < 1440) :
    1 ≤ (Fields.ofMilliseconds (t + zone * 60000)).year ∧ (Fields.ofMilliseconds (t + zone * 60000)).year ≤ 9999 := by
  have hfirst : Civil.daysFrom ⟨1, 1, 1⟩ = -719162 := by decide
  have hlast : Civil.daysFrom ⟨10000, 1, 1⟩ = 2932897 := by decide
  have hgenuine := Civil.genuine_ofDays ((t + zone * 60000) / 86400000)
  have hlower := hgenuine.le_year_iff 1
  have hupper := hgenuine.le_year_iff 10000
  rw [Civil.daysFrom_ofDays, hfirst] at hlower
  rw [Civil.daysFrom_ofDays, hlast] at hupper
  simp only [earliest, latest] at hlow hhigh
  rw [Fields.ofMilliseconds_eq]
  simp only
  omega

/-- A text without blanks around it that is no date in figures is read in the form in which times are printed. -/
theorem parse_of_printed {text : Text} {m : Moment} (hstrip : text.strip = text) (hletter : 90 ∉ text)
    (hfigures : Moment.ofFigures? text = none) (hprinted : Moment.ofPrinted? text = some m) :
    parse zone text = m.time zone := by
  have hreplace : Text.replaceAll text "Z" "+00:00" = text := Text.replaceAll_of_not_mem hletter _
  simp only [parse, hstrip, hreplace, hfigures, hprinted]

/-- The fields of an instant without their milliseconds, together with their zone, stand for the start of its second. -/
theorem time_of_fields {f : Fields} (hf : f.Genuine) (hlocal : f.toMilliseconds = t + zone * 60000)
    (hlow : earliest ≤ t) (hhigh : t ≤ latest) :
    (⟨f.year, f.month + 1, f.day, f.hours, f.minutes, f.seconds, 0, some (zone * 60000000)⟩ : Moment).time zone =
      .ok (Number.ofInt (1000 * (t / 1000))) := by
  have hcount := hf.toMilliseconds_eq
  have hmilliseconds := hf.milliseconds
  have hclock : f.date.daysFrom * 86400 + f.hours * 3600 + f.minutes * 60 + f.seconds = t / 1000 + zone * 60 := by
    simp only [Fields.timeOfDay] at hcount
    omega
  have htotal : (Moment.clockSeconds ⟨f.year, f.month + 1, f.day, f.hours, f.minutes, f.seconds, 0,
      some (zone * 60000000)⟩) * 1000000 + 0 - zone * 60000000 = t / 1000 * 1000000 := by
    have hsame : Moment.clockSeconds ⟨f.year, f.month + 1, f.day, f.hours, f.minutes, f.seconds, 0,
        some (zone * 60000000)⟩ = t / 1000 + zone * 60 := hclock
    rw [hsame]
    omega
  simp only [earliest, latest] at hlow hhigh
  have hvalid : earliest ≤ t / 1000 * 1000 ∧ t / 1000 * 1000 ≤ latest := by
    simp only [earliest, latest]
    omega
  rw [Moment.time_of_offset zone rfl htotal (by omega), clipInt, if_pos hvalid, mul_comm]

/-- A printed time is read back up to its second. -/
theorem parse_text (hzone : zone.natAbs < 1440) {x : Float} (hx : isValid x) (hclip : clip x = x) :
    parse zone (text zone x .full) = .ok (Number.ofInt (1000 * (Number.truncate x / 1000))) := by
  obtain ⟨t, rfl, hlow, hhigh⟩ := exists_of_clip hx hclip
  have hsmall : t.natAbs < 2 ^ 53 := by
    simp only [earliest, latest] at hlow hhigh
    omega
  have htruncate : Number.truncate (Number.ofInt t) = t := by
    rw [Number.truncate, Number.truncate?_ofInt hsmall, Option.getD_some]
  have hfields : fields zone (Number.ofInt t) = Fields.ofMilliseconds (t + zone * 60000) := by
    rw [fields, htruncate]
  have hweekday (n : Int) : 0 ≤ Civil.weekday n ∧ Civil.weekday n < 7 := by
    rw [Civil.weekday]
    omega
  obtain ⟨hyear, hyear'⟩ := year_bounds hlow hhigh hzone
  have hgenuine := Fields.genuine_ofMilliseconds (t + zone * 60000)
  have hprint := printable (hweekday (localDay zone (Number.ofInt t))) hgenuine hyear hyear' hzone
  have hread := Moment.ofPrinted?_printed (hweekday (localDay zone (Number.ofInt t))) hgenuine hyear hyear' hzone
  rw [text_full hx, hfields, htruncate,
    parse_of_printed hprint.strip (fun hmem => (hprint.ascii 90 hmem).2 rfl) (Moment.ofFigures?_printed hprint) hread,
    time_of_fields hgenuine (Fields.toMilliseconds_ofMilliseconds _) hlow hhigh]

/-- The local clock of an instant can show the first day of the year 1. -/
theorem parse_text_first_year : isValid (Number.ofInt (-62135510399001)) = true ∧
    clip (Number.ofInt (-62135510399001)) = Number.ofInt (-62135510399001) ∧
    parse (-1439) (text (-1439) (Number.ofInt (-62135510399001)) .full) =
      .ok (Number.ofInt (-62135510400000)) := by
  have hvalid : isValid (Number.ofInt (-62135510399001)) = true := by decide +kernel
  have hclip := clip_ofInt (t := -62135510399001) (by decide) (by decide)
  have htruncate : Number.truncate (Number.ofInt (-62135510399001)) = -62135510399001 := by
    rw [Number.truncate, Number.truncate?_ofInt (by decide), Option.getD_some]
  have hparse := @parse_text (-1439) (by decide) _ hvalid hclip
  rw [htruncate] at hparse
  exact ⟨hvalid, hclip, hparse⟩

end Time

end ScriptEngine
