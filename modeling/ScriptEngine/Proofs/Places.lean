import Mathlib
import ScriptEngine.Builtin.Boxes
import ScriptEngine.Proofs.Comparison
import ScriptEngine.Proofs.Run

/-!
# A given number of places

A number with a given number of places is written without an exponent: a whole part without superfluous zeros, a point
and as many digits as there are places, with no point if there are none. Below `10 ^ 21` this takes at most 122 digits
for 100 places, so there are always enough of them. What is written is the nearest number with so many places, taken
from the exact value of the double, and of two the one farther from zero.

## Main definitions

* `Number.Fixed`: texts with a given number of places, and the numbers that they stand for.
* `Number.NearestAway`: the nearest number with a given number of places.

## Main results

* `Number.placesText_eq`: the parts of what is written.
* `Number.toFixed_nearest`: what is written stands for the nearest number.
-/

namespace ScriptEngine

namespace Text

theorem padZero_one (n : Nat) : padZero 1 (ofNat n) = ofNat n := by
  have hpos : 1 ≤ (ofNat n).length := Decimal.digitCount_pos n
  rw [padZero, Nat.sub_eq_zero_of_le hpos]
  rfl

/-- The last digit of a numeral with zeros in front. -/
theorem padZero_ofNat (width n : Nat) :
    padZero (width + 2) (ofNat n) = padZero (width + 1) (ofNat (n / 10)) ++ [48 + n % 10] := by
  by_cases h : n < 10
  · have hzero : n / 10 = 0 := Nat.div_eq_of_lt h
    have hlength : width + 1 - ([48] : Text).length = width := rfl
    have hlength' : width + 2 - ([48 + n] : Text).length = width + 1 := rfl
    rw [ofNat_of_lt h, hzero, ofNat_of_lt (by decide), Nat.mod_eq_of_lt h, padZero, padZero, hlength, hlength', zeros,
      List.replicate_succ']
    rfl
  · have hlength : width + 2 - (ofNat (n / 10) ++ [48 + n % 10]).length = width + 1 - (ofNat (n / 10)).length := by
      rw [List.length_append, List.length_singleton]
      omega
    rw [ofNat_of_le (not_lt.1 h), padZero, padZero, hlength, List.append_assoc]

end Text

namespace Number

open Decimal (digitsValue digitCount)

/-! ## What is written -/

/-- The parts of a number with places: the number before the point, and as many digits as there are places. -/
structure Parts (q places : Nat) (whole fraction : Text) : Prop where
  /-- The whole part has no superfluous zeros. -/
  numeral : Key.isNumeral whole
  /-- Digits stand behind the point. -/
  digits : fraction.IsDigits
  /-- There are as many of them as there are places. -/
  length : fraction.length = places
  /-- All digits together are the number without the point. -/
  value : digitsValue (whole ++ fraction) = q

/-- The digits of a number, cut before its last places. -/
theorem padZero_parts (q places : Nat) :
    ∃ whole fraction, Text.padZero (places + 1) (Text.ofNat q) = whole ++ fraction ∧ Parts q places whole fraction := by
  induction places generalizing q with
  | zero =>
    refine ⟨Text.ofNat q, [], by rw [Text.padZero_one, List.append_nil], Text.isNumeral_ofNat q, ?_, rfl, ?_⟩
    · exact fun c hc => absurd hc List.not_mem_nil
    · rw [List.append_nil, Decimal.digitsValue_ofNat]
  | succ places ih =>
    obtain ⟨whole, fraction, hpad, hparts⟩ := ih (q / 10)
    have hlast : Text.isAsciiDigit (48 + q % 10) := (Text.isAsciiDigit_iff _).2 (by omega)
    refine ⟨whole, fraction ++ [48 + q % 10], ?_, hparts.numeral, ?_, ?_, ?_⟩
    · rw [Text.padZero_ofNat, hpad, List.append_assoc]
    · exact hparts.digits.append (List.forall_mem_singleton.2 hlast)
    · rw [List.length_append, hparts.length, List.length_singleton]
    · rw [← List.append_assoc, Decimal.digitsValue_concat, hparts.value, Text.decimalValue?_of_isAsciiDigit hlast,
        Option.getD_some]
      omega

/-- A number with places is its parts with a point between them, or the whole part alone. -/
theorem placesText_eq (q places : Nat) :
    ∃ whole fraction, placesText q places = whole ++ decimals fraction ∧ Parts q places whole fraction := by
  obtain ⟨whole, fraction, hpad, hparts⟩ := padZero_parts q places
  refine ⟨whole, fraction, ?_, hparts⟩
  unfold placesText
  split
  case isTrue hzero =>
    subst hzero
    obtain rfl := List.eq_nil_of_length_eq_zero hparts.length
    rw [Text.padZero_one] at hpad
    exact hpad
  case isFalse hplaces =>
    have hcut : (whole ++ fraction).length - places = whole.length := by
      rw [List.length_append, hparts.length, Nat.add_sub_cancel]
    have hfraction : fraction ≠ [] := by
      rintro rfl
      exact hplaces hparts.length.symm
    simp only [hpad, hcut, List.take_left, List.drop_left, List.append_assoc, decimals, if_neg hfraction]

/-- Texts of a sign, a whole part and a given number of places, and the numbers that they stand for. -/
inductive Fixed (places : Nat) : Text → ℚ → Prop
  | signed {negative : Bool} {whole fraction : Text} (hwhole : Key.isNumeral whole) (hfraction : fraction.IsDigits)
    (hlength : fraction.length = places) :
    Fixed places ((if negative then "-" else [] : Text) ++ (whole ++ decimals fraction))
      ((if negative then -1 else 1) * (digitsValue (whole ++ fraction) / 10 ^ places))

/-! ## Rounding -/

/-- The nearest number with a given number of places, of two the one farther from zero. -/
structure NearestAway (places : Nat) (q v : ℚ) : Prop where
  /-- It has no more places. -/
  multiple : ∃ k : ℤ, v = k / 10 ^ places
  /-- No other such number is nearer. -/
  nearest : ∀ k : ℤ, |v - q| ≤ |k / 10 ^ places - q|
  /-- One that is as near is not farther from zero. -/
  away : ∀ k : ℤ, |k / 10 ^ places - q| = |v - q| → |(k / 10 ^ places : ℚ)| ≤ |v|

theorem NearestAway.neg {places : Nat} {q v : ℚ} (h : NearestAway places q v) : NearestAway places (-q) (-v) := by
  have hmirror (k : ℤ) : |(k / 10 ^ places : ℚ) - -q| = |((-k : ℤ) / 10 ^ places : ℚ) - q| := by
    rw [← abs_neg]
    congr 1
    push_cast
    ring
  have hself : |-v - -q| = |v - q| := by
    rw [← abs_neg]
    congr 1
    ring
  obtain ⟨k, hk⟩ := h.multiple
  refine ⟨⟨-k, by rw [hk]; push_cast; ring⟩, fun j => ?_, fun j hj => ?_⟩
  · rw [hself, hmirror]
    exact h.nearest (-j)
  · rw [hself, hmirror] at hj
    have hle := h.away (-j) hj
    rwa [Int.cast_neg, neg_div, abs_neg, ← abs_neg v] at hle

/-- Rounding the absolute value and putting the sign back. -/
theorem NearestAway.signed {places : Nat} {q v : ℚ} (h : NearestAway places |q| v) :
    NearestAway places q ((if q < 0 then -1 else 1) * v) := by
  by_cases hneg : q < 0
  · have hmirrored := h.neg
    rw [abs_of_neg hneg, neg_neg] at hmirrored
    rw [if_pos hneg, neg_one_mul]
    exact hmirrored
  · rw [abs_of_nonneg (not_lt.1 hneg)] at h
    rw [if_neg hneg, one_mul]
    exact h

/-- Adding one half and dropping the fraction. -/
theorem roundHalfUp_bounds (num : Nat) {den : Nat} (hden : den ≠ 0) :
    (roundHalfUp num den : ℚ) ≤ num / den + 1 / 2 ∧ (num / den + 1 / 2 : ℚ) < roundHalfUp num den + 1 := by
  have hpos : (0 : ℚ) < den := by positivity
  have hquotient : (num / den + 1 / 2 : ℚ) = (2 * num + den : Nat) / (2 * den : Nat) := by
    push_cast
    field_simp
  have hfloor := Nat.floor_div_eq_div (K := ℚ) (2 * num + den) (2 * den)
  rw [hquotient, roundHalfUp, ← hfloor]
  exact ⟨Nat.floor_le (by positivity), Nat.lt_floor_add_one _⟩

/-- A natural number that is reached by rounding a tie up is the nearest one. -/
theorem nearest_of_bounds {y : ℚ} {n : Nat} (hy : 0 ≤ y) (hlow : (n : ℚ) ≤ y + 1 / 2) (hhigh : y + 1 / 2 < n + 1)
    (k : ℤ) : |(n - y : ℚ)| ≤ |k - y| ∧ (|(k - y : ℚ)| = |n - y| → |(k : ℚ)| ≤ n) := by
  have hnear : |(n - y : ℚ)| ≤ 1 / 2 := abs_le.2 ⟨by linarith, by linarith⟩
  rcases lt_trichotomy k n with hlt | rfl | hgt
  · -- The next smaller number is as near only if the number lies between the two.
    have hstep : (k : ℚ) ≤ n - 1 := by exact_mod_cast Int.le_sub_one_of_lt hlt
    have hdistance : |(k - y : ℚ)| = y - k := by rw [abs_of_nonpos (by linarith), neg_sub]
    rw [hdistance]
    refine ⟨hnear.trans (by linarith), fun htie => ?_⟩
    have hlast : (n - 1 : ℚ) ≤ k := by linarith
    have hle : (-n : ℚ) ≤ k := by linarith
    exact abs_le.2 ⟨hle, by linarith⟩
  · refine ⟨le_of_eq (by push_cast; rfl), fun _ => ?_⟩
    rw [Int.cast_natCast, Nat.abs_cast]
  · have hstep : (n + 1 : ℚ) ≤ k := by exact_mod_cast hgt
    have hfar : 1 / 2 < |(k - y : ℚ)| := lt_of_lt_of_le (by linarith) (le_abs_self _)
    exact ⟨hnear.trans hfar.le, fun htie => absurd (htie ▸ hfar) hnear.not_gt⟩

/-- Rounding at a place of a number that is not negative. -/
theorem nearestAway_roundHalfUp (num : Nat) {den : Nat} (hden : den ≠ 0) (places : Nat) :
    NearestAway places (num / den) (roundHalfUp (num * 10 ^ places) den / 10 ^ places) := by
  have hpower : (0 : ℚ) < 10 ^ places := by positivity
  obtain ⟨hlow, hhigh⟩ := roundHalfUp_bounds (num * 10 ^ places) hden
  have hscaled : ((num * 10 ^ places : Nat) / den : ℚ) = num / den * 10 ^ places := by
    push_cast
    ring
  rw [hscaled] at hlow hhigh
  have hnonneg : (0 : ℚ) ≤ num / den * 10 ^ places := by positivity
  have hdistance (k : ℚ) : |k / 10 ^ places - num / den| = |k - num / den * 10 ^ places| / 10 ^ places := by
    rw [← abs_of_pos hpower, ← abs_div, abs_of_pos hpower, sub_div, mul_div_cancel_right₀ _ hpower.ne']
  generalize roundHalfUp (num * 10 ^ places) den = n at *
  refine ⟨⟨n, rfl⟩, fun k => ?_, fun k hk => ?_⟩
  · rw [hdistance, hdistance]
    exact div_le_div_of_nonneg_right (nearest_of_bounds hnonneg hlow hhigh k).1 hpower.le
  · rw [hdistance, hdistance, div_left_inj' hpower.ne'] at hk
    rw [abs_div, abs_div, Nat.abs_cast]
    exact div_le_div_of_nonneg_right ((nearest_of_bounds hnonneg hlow hhigh k).2 hk) (abs_nonneg _)

/-! ## Fixed places -/

/-- What is written below `10 ^ 21`, and that it has few enough digits. -/
theorem toFixed?_eq {x : Float} {d : Dyadic} (hx : decode x = some d) (hsmall : d.magnitude < 10 ^ 21) {places : Nat}
    (hplaces : places ≤ 100) :
    toFixed? x places = some ((if d.value < 0 then "-" else [] : Text) ++
      placesText (roundHalfUp (d.ratio.1 * 10 ^ places) d.ratio.2) places) := by
  have hden := d.ratio_snd_pos.ne'
  have hratio : (d.ratio.1 : ℚ) / d.ratio.2 = d.magnitude := d.ratio_eq
  have hplain : ¬10 ^ 21 * d.ratio.2 ≤ d.ratio.1 := by
    rw [← hratio, div_lt_iff₀ (Nat.cast_pos.2 d.ratio_snd_pos)] at hsmall
    exact not_le.2 (by exact_mod_cast hsmall)
  have hfew : digitCount (roundHalfUp (d.ratio.1 * 10 ^ places) d.ratio.2) ≤ 160 := by
    have hlow := (roundHalfUp_bounds (d.ratio.1 * 10 ^ places) hden).1
    have hscaled : ((d.ratio.1 * 10 ^ places : Nat) / d.ratio.2 : ℚ) = d.magnitude * 10 ^ places := by
      rw [← hratio]
      push_cast
      ring
    have hbound : (roundHalfUp (d.ratio.1 * 10 ^ places) d.ratio.2 : ℚ) < (10 ^ (21 + places) + 1 : Nat) := by
      have hmagnitude : d.magnitude * 10 ^ places < 10 ^ 21 * 10 ^ places := by gcongr
      rw [hscaled] at hlow
      push_cast
      rw [pow_add]
      linarith
    have hdigits := Decimal.digitCount_le (k := 22 + places) (by omega) ((Nat.cast_lt.1 hbound).trans_le ?_)
    · omega
    · have hpower : 0 < 10 ^ (21 + places) := by positivity
      have hnext : 10 ^ (22 + places) = 10 * 10 ^ (21 + places) := by rw [← pow_succ']; congr 1; omega
      omega
  unfold toFixed?
  simp only [hx, Nat.pow_eq, if_neg hplain, mostFixedDigits, if_neg (not_lt.2 hfew), d.shown_sign]
  by_cases hneg : d.value < 0
  · rw [decide_eq_true hneg, if_pos rfl, if_pos hneg]
  · rw [decide_eq_false hneg, if_neg hneg]
    rfl

theorem fixed_placesText (negative : Bool) (q places : Nat) :
    Fixed places ((if negative then "-" else [] : Text) ++ placesText q places)
      ((if negative then -1 else 1) * (q / 10 ^ places)) := by
  obtain ⟨whole, fraction, htext, hparts⟩ := placesText_eq q places
  rw [htext, ← hparts.value]
  exact .signed hparts.numeral hparts.digits hparts.length

theorem head_placesText (q places : Nat) : (placesText q places).head? ≠ some 45 := by
  obtain ⟨whole, fraction, htext, hparts⟩ := placesText_eq q places
  have hnumeral := hparts.numeral
  rw [htext]
  cases whole with
  | nil => cases hnumeral
  | cons c whole =>
    rw [Text.isNumeral_cons] at hnumeral
    rw [List.cons_append, List.head?_cons, ne_eq, Option.some.injEq]
    rintro rfl
    omega

end Number

namespace NumberFn

theorem integerPart_ofNat {n : Nat} (hn : n ≤ 2 ^ 53) : Proc.integerPart (Number.ofNat n) = Number.ofNat n := by
  rw [Proc.integerPart, Number.truncate?_ofNat hn]
  exact Number.ofInt_natCast n

/-- An argument between the bounds is taken as it is. -/
theorem digits_ofNat {least most n : Nat} (what : String) (hleast : least ≤ n) (hmost : n ≤ most)
    (hsmall : most < 2 ^ 53) : digits what least most (.num (Number.ofNat n)) = return n := by
  have hbounds : (Number.ofNat least ≤ Number.ofNat n && Number.ofNat n ≤ Number.ofNat most) = true := by
    rw [Bool.and_eq_true, decide_eq_true_eq, decide_eq_true_eq]
    simp only [← Number.ofInt_natCast]
    rw [Number.ofInt_le_iff (by omega) (by omega), Number.ofInt_le_iff (by omega) (by omega)]
    omega
  have hnumber : Proc.toInteger (.num (Number.ofNat n)) = return Number.ofNat n := by
    change (return Proc.integerPart (Number.ofNat n) : Proc Float) = _
    rw [integerPart_ofNat (by omega)]
  rw [digits, hnumber, pure_bind, if_pos hbounds, Number.truncate_ofNat (by omega), Int.toNat_natCast]

/-- A number with places is what the method returns if there are few enough digits. -/
theorem invoke_toFixed {x : Float} {places : Nat} {t : Text} (hplaces : places ≤ 100)
    (ht : Number.toFixed? x places = some t) (invoker : Option FrameId) :
    invoke .toFixed ⟨invoker, .num x, [.num (Number.ofNat places)]⟩ = return .str t := by
  have hnumber : number "toFixed" (.num x) = return x := rfl
  have hdigits := digits_ofNat "toFixed" (Nat.zero_le places) hplaces (by norm_num)
  unfold invoke
  simp only [Invocation.arg, List.getD_cons_zero]
  rw [hnumber, pure_bind, hdigits, pure_bind, ht]

end NumberFn

namespace Number

/-- Below `10 ^ 21` a number always has a text with up to a hundred places. It stands for the nearest number with so
many places, of two for the one farther from zero, and it has a minus sign if the number is negative. -/
theorem toFixed_nearest {x : Float} {q : ℚ} (hx : value? x = some q) (hq : |q| < 10 ^ 21) {places : Nat}
    (hplaces : places ≤ 100) (invoker : Option FrameId) :
    ∃ t v, NumberFn.invoke .toFixed ⟨invoker, .num x, [.num (ofNat places)]⟩ = (return .str t) ∧
      toFixed? x places = some t ∧ Fixed places t v ∧ NearestAway places q v ∧ (t.head? = some 45 ↔ q < 0) := by
  obtain ⟨d, hd, rfl⟩ := Option.map_eq_some_iff.1 hx
  rw [d.abs_value] at hq
  have htext := toFixed?_eq hd hq hplaces
  have hround := nearestAway_roundHalfUp d.ratio.1 d.ratio_snd_pos.ne' places
  rw [show (d.ratio.1 : ℚ) / d.ratio.2 = |d.value| from d.ratio_eq.trans d.abs_value.symm] at hround
  generalize roundHalfUp (d.ratio.1 * 10 ^ places) d.ratio.2 = n at *
  have hfixed := fixed_placesText (decide (d.value < 0)) n places
  simp only [decide_eq_true_eq] at hfixed
  refine ⟨_, _, NumberFn.invoke_toFixed hplaces htext invoker, htext, hfixed, hround.signed, ?_⟩
  by_cases hneg : d.value < 0
  · rw [if_pos hneg]
    exact iff_of_true rfl hneg
  · rw [if_neg hneg]
    exact iff_of_false (head_placesText n places) hneg

/-- A negative number half way between two with two places. -/
theorem toFixed_nearest_tie : value? (Float.ofBits 0xbfc0000000000000) = some (-1 / 8) ∧
    toFixed? (Float.ofBits 0xbfc0000000000000) 2 = some (Text.ofString "-0.13") ∧
    ∃ v, Fixed 2 "-0.13" v ∧ NearestAway 2 (-1 / 8) v := by
  have hdecode : decode (Float.ofBits 0xbfc0000000000000) = some ⟨true, 2 ^ 52, -55⟩ := by decide +kernel
  have hvalue : value? (Float.ofBits 0xbfc0000000000000) = some (-1 / 8) := by
    rw [value?, hdecode, Option.map_some, Dyadic.value]
    norm_num
  have htext : toFixed? (Float.ofBits 0xbfc0000000000000) 2 = some (Text.ofString "-0.13") := by decide +kernel
  have hsmall : |(-1 / 8 : ℚ)| < 10 ^ 21 := by norm_num [abs_of_neg]
  obtain ⟨t, v, -, ht, hfixed, hnearest, -⟩ := toFixed_nearest hvalue hsmall (by decide : 2 ≤ 100) none
  rw [htext, Option.some.injEq] at ht
  exact ⟨hvalue, htext, v, ht ▸ hfixed, hnearest⟩

end Number

end ScriptEngine
