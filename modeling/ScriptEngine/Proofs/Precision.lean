import Mathlib
import ScriptEngine.Proofs.ExponentForm
import ScriptEngine.Proofs.Places

/-!
# A given number of significant digits

A number with a given number of significant digits is rounded once to find out which exponent it has, and this decides
on the layout. In the layout without an exponent the number is then rounded a second time, at the place that the exponent
gives. Where the first rounding carries into a new digit this is one place further to the left, but then all digits are
zeros behind a one either way: both roundings yield the same digits, and the number is the one that the exponent form
shows.

## Main definitions

* `Number.significantDigits`: the digits that a numeral shows.
* `Number.Shows`: numerals of a magnitude that is rounded to a number of digits.

## Main results

* `Number.halfEven_significant`: the second rounding yields the digits of the first one.
* `Number.toPrecision_eq_toExponential`: both forms stand for the same number, with the same digits.
-/

namespace ScriptEngine

namespace Number

open Decimal (digitsValue Reads HasMagnitude)

/-! ## Digits that are shown -/

/-- The digits of a numeral from the first one on that is not zero, those of its exponent left out. -/
def significantDigits (t : Text) : Text := ((t.takeWhile (· != 101)).filter Text.isAsciiDigit).dropWhile (· == 48)

theorem dropWhile_zeros {s : Text} (hs : s.IsDigits) (hvalue : digitsValue s ≠ 0) :
    s.dropWhile (· == 48) = Text.ofNat (digitsValue s) := by
  induction s with
  | nil => exact absurd rfl hvalue
  | cons c s ih =>
    obtain ⟨hc, hdigits⟩ := List.forall_mem_cons.1 hs
    by_cases hzero : c = 48
    · subst hzero
      have hrest : digitsValue (48 :: s) = digitsValue s := by
        have happend := Decimal.digitsValue_append [48] s
        rwa [show digitsValue [48] = 0 from rfl, Nat.zero_mul, Nat.zero_add] at happend
      rw [hrest] at hvalue ⊢
      rw [List.dropWhile_cons_of_pos rfl, ih hdigits hvalue]
    · have hnumeral : Key.isNumeral (c :: s) := by
        obtain ⟨hlow, hhigh⟩ := (Text.isAsciiDigit_iff c).1 hc
        rw [Text.isNumeral_cons]
        exact .inr ⟨Nat.lt_of_le_of_ne hlow (Ne.symm hzero), hhigh, List.all_eq_true.2 hdigits⟩
      rw [List.dropWhile_cons_of_neg (by simpa using hzero), Decimal.digitsValue_eq_toNatBase hs,
        Text.ofNat_toNatBase hnumeral]

theorem filter_decimals {s : Text} (hs : s.IsDigits) : (decimals s).filter Text.isAsciiDigit = s := by
  unfold decimals
  split
  case isTrue h => exact h.symm
  case isFalse => exact List.filter_eq_self.2 hs

/-- A point and an exponent change nothing about the digits that are shown. -/
theorem significantDigits_eq {whole fraction t : Text} {e : Int} (hwhole : whole.IsDigits) (hfraction : fraction.IsDigits)
    (ht : Decimal.Mark t e) (hvalue : digitsValue (whole ++ fraction) ≠ 0) :
    significantDigits (whole ++ (decimals fraction ++ t)) = Text.ofNat (digitsValue (whole ++ fraction)) := by
  have hdigit {s : Text} (hs : s.IsDigits) : ∀ c ∈ s, (c != 101) = true := by
    intro c hc
    have hdigit := (Text.isAsciiDigit_iff c).1 (hs c hc)
    simp only [bne_iff_ne]
    rintro rfl
    omega
  have hdecimals : ∀ c ∈ decimals fraction, (c != 101) = true := by
    unfold decimals
    split
    · simp
    · exact List.forall_mem_cons.2 ⟨rfl, hdigit hfraction⟩
  have hend : t.takeWhile (· != 101) = [] := by
    cases ht with
    | nothing => rfl
    | exponent =>
      rw [Decimal.exponentText_eq]
      rfl
  rw [significantDigits, List.takeWhile_append_of_pos (hdigit hwhole), List.takeWhile_append_of_pos hdecimals, hend,
    List.append_nil, List.filter_append, filter_decimals hfraction, List.filter_eq_self.2 hwhole,
    dropWhile_zeros (hwhole.append hfraction) hvalue]

/-! ## Rounding twice -/

/-- The digits are those that the magnitude is rounded to at the place that their exponent gives. -/
theorem halfEven_significant {d : Dyadic} (hd : d.mantissa ≠ 0) (k : Nat) :
    HalfEven (d.magnitude / 10 ^ ((significant d (k + 1)).2 - k)) (significant d (k + 1)).1 := by
  obtain ⟨m, hround, ⟨-, -, heq⟩ | ⟨hcarry, hbelow, heq⟩⟩ := significant_eq hd k
  · rw [heq, Int.add_sub_cancel]
    exact hround
  · -- A magnitude just below a power of ten is rounded to it at the next place too.
    have hexponent : Decimal.place d (k + 1) + k + 1 - (k : Int) = Decimal.place d (k + 1) + 1 := by omega
    have htenth : d.magnitude / 10 ^ (Decimal.place d (k + 1) + 1) = d.magnitude / 10 ^ Decimal.place d (k + 1) / 10 := by
      rw [zpow_add_one₀ (by norm_num : (10 : ℚ) ≠ 0), div_div]
    have hlow := hround.low
    rw [heq]
    simp only [hexponent, htenth]
    generalize d.magnitude / 10 ^ Decimal.place d (k + 1) = y at *
    rw [hcarry, pow_succ] at hlow hbelow
    push_cast at hlow hbelow
    refine ⟨?_, ?_, fun _ => ⟨?_, ?_⟩⟩ <;> push_cast <;> linarith

theorem significant_bounds {d : Dyadic} (hd : d.mantissa ≠ 0) (k : Nat) :
    10 ^ k ≤ (significant d (k + 1)).1 ∧ (significant d (k + 1)).1 < 10 ^ (k + 1) := by
  obtain ⟨m, -, ⟨hfirst, hlast, heq⟩ | ⟨-, -, heq⟩⟩ := significant_eq hd k
  · rw [heq]
    exact ⟨hfirst, hlast⟩
  · rw [heq]
    exact ⟨le_rfl, Nat.pow_lt_pow_right (by decide) (Nat.lt_succ_self k)⟩

/-- The second rounding, at the place of the last digit, yields the digits of the first one. -/
theorem roundHalfEven_significant {d : Dyadic} (hd : d.mantissa ≠ 0) {k places : Nat}
    (hplaces : (places : Int) = k - (significant d (k + 1)).2) :
    roundHalfEven (d.ratio.1 * 10 ^ places) d.ratio.2 = (significant d (k + 1)).1 := by
  have hround := halfEven_roundHalfEven (d.ratio.1 * 10 ^ places) d.ratio_snd_pos.ne'
  have hscaled : ((d.ratio.1 * 10 ^ places : Nat) / d.ratio.2 : ℚ) =
      d.magnitude / 10 ^ ((significant d (k + 1)).2 - k) := by
    have hexponent : (significant d (k + 1)).2 - k = -(places : Int) := by omega
    rw [hexponent, zpow_neg, zpow_natCast, div_inv_eq_mul, Dyadic.magnitude, ← d.ratio_eq]
    push_cast
    ring
  rw [hscaled] at hround
  exact hround.unique (halfEven_significant hd k)

/-! ## Both forms -/

/-- A magnitude rounded to a number of significant digits, a tie going to even. -/
def RoundedTo (m : ℚ) (count : Nat) (v : ℚ) : Prop :=
  ∃ (e : Int) (n : Nat), HasMagnitude m e ∧ HalfEven (m / 10 ^ (e - count + 1)) n ∧ v = n * 10 ^ (e - count + 1)

/-- A numeral of a magnitude that shows certain digits. -/
structure Shows (t : Text) (v : ℚ) (digits : Text) : Prop where
  /-- The numeral stands for the magnitude. -/
  value : ∃ decimal, Reads t decimal ∧ decimal.value = v
  /-- It shows the digits. -/
  digits : significantDigits t = digits

/-- The number that the digits and their exponent make up. -/
def shownValue (d : Dyadic) (k : Nat) : ℚ := (significant d (k + 1)).1 * 10 ^ ((significant d (k + 1)).2 - k)

theorem roundedTo_shownValue {d : Dyadic} (hd : d.mantissa ≠ 0) (k : Nat) :
    RoundedTo d.magnitude (k + 1) (shownValue d k) := by
  obtain ⟨m, hround, hvalue⟩ := (rounded_significant hd k).value
  rw [← magnitude_ratio hd] at hround hvalue
  exact ⟨_, m, hasMagnitude_ratio hd, hround, hvalue⟩

theorem hasMagnitude_shownValue {d : Dyadic} (hd : d.mantissa ≠ 0) (k : Nat) :
    HasMagnitude (shownValue d k) (significant d (k + 1)).2 := by
  obtain ⟨hlow, hhigh⟩ := significant_bounds hd k
  have hlow : (10 ^ k : ℚ) ≤ (significant d (k + 1)).1 := by exact_mod_cast hlow
  have hhigh : ((significant d (k + 1)).1 : ℚ) < 10 ^ (k + 1) := by exact_mod_cast hhigh
  generalize hparts : significant d (k + 1) = parts at *
  obtain ⟨q, e⟩ := parts
  have hfirst : (10 : ℚ) ^ e = 10 ^ k * 10 ^ (e - k) := by
    rw [Decimal.ten_pow_mul_zpow, add_sub_cancel]
  have hlast : (10 : ℚ) ^ (e + 1) = 10 ^ (k + 1) * 10 ^ (e - k) := by
    rw [Decimal.ten_pow_mul_zpow]
    congr 1
    omega
  rw [shownValue, hparts]
  constructor
  · rw [hfirst]
    exact mul_le_mul_of_nonneg_right hlow (by positivity)
  · rw [hlast]
    exact mul_lt_mul_of_pos_right hhigh (by positivity)

/-- The exponent form shows the digits. -/
theorem shows_exponentForm {d : Dyadic} (hd : d.mantissa ≠ 0) (k : Nat) :
    ∃ t, exponentForm d k = signText d ++ t ∧ Shows t (shownValue d k) (Text.ofNat (significant d (k + 1)).1) := by
  obtain ⟨first, rest, hdigits, hrest, hform⟩ := exponentForm_eq hd k
  obtain ⟨hfirst, hrest'⟩ := List.forall_mem_cons.1 (hdigits ▸ Text.isDigits_ofNat _)
  have hvalue : digitsValue ([first] ++ rest) = (significant d (k + 1)).1 := by
    rw [List.singleton_append, ← hdigits, Decimal.digitsValue_ofNat]
  have hpos : digitsValue ([first] ++ rest) ≠ 0 := by
    have hlow := (significant_bounds hd k).1
    have hpower : 0 < 10 ^ k := by positivity
    omega
  have hfirst' : Text.IsDigits [first] := List.forall_mem_singleton.2 hfirst
  have hmark := Decimal.Mark.exponent (significant d (k + 1)).2
  refine ⟨_, hform, ⟨⟨_, reads_decimals hfirst' (List.cons_ne_nil _ _) hrest' hmark, ?_⟩, ?_⟩⟩
  · rw [Decimal.value, hvalue, hrest, shownValue]
  · rw [← hvalue]
    exact significantDigits_eq hfirst' hrest' hmark hpos

/-- So does the form with the places that are left behind the point. -/
theorem shows_placesText {d : Dyadic} (hd : d.mantissa ≠ 0) {k places : Nat}
    (hplaces : (places : Int) = k - (significant d (k + 1)).2) :
    ∃ whole fraction, placesText (roundHalfEven (d.ratio.1 * 10 ^ places) d.ratio.2) places = whole ++ decimals fraction ∧
      Parts (significant d (k + 1)).1 places whole fraction ∧
      Shows (whole ++ decimals fraction) (shownValue d k) (Text.ofNat (significant d (k + 1)).1) := by
  obtain ⟨whole, fraction, htext, hparts⟩ := placesText_eq (significant d (k + 1)).1 places
  have hdigits := Text.isDigits_of_isNumeral hparts.numeral
  have hne : whole ≠ [] := by
    rintro rfl
    cases hparts.numeral
  have hpos : digitsValue (whole ++ fraction) ≠ 0 := by
    have hlow := (significant_bounds hd k).1
    have hpower : 0 < 10 ^ k := by positivity
    rw [hparts.value]
    omega
  have hreads := reads_decimals hdigits hne hparts.digits .nothing
  have hshown := significantDigits_eq hdigits hparts.digits .nothing hpos
  rw [List.append_nil, hparts.value] at hreads hshown
  rw [roundHalfEven_significant hd hplaces]
  refine ⟨whole, fraction, htext, hparts, ⟨⟨_, hreads, ?_⟩, hshown⟩⟩
  have hexponent : (0 : Int) - fraction.length = (significant d (k + 1)).2 - k := by
    rw [hparts.length, hplaces]
    omega
  rw [Decimal.value, hexponent, shownValue]

/-- With a given number of significant digits, the form that chooses its layout and the exponent form stand for the same
number, the one that the double is rounded to, and show the same digits, as many as asked for. There is no exponent if
the first digit of the rounded number stands among that many places before the point or up to six places behind it. -/
theorem toPrecision_eq_toExponential {x : Float} {q : ℚ} (hx : value? x = some q) (hq : q ≠ 0) {count : Nat}
    (hcount : 0 < count) :
    ∃ (t u digits : Text) (v : ℚ) (e : Int),
      toPrecision x count = (if q < 0 then "-" else [] : Text) ++ t ∧
      toExponential x (some (count - 1)) = (if q < 0 then "-" else [] : Text) ++ u ∧
      RoundedTo |q| count v ∧ Shows t v digits ∧ Shows u v digits ∧ digits.length = count ∧ HasMagnitude v e ∧
      if e < -6 ∨ count ≤ e then t = u
      else ∃ whole fraction, t = whole ++ decimals fraction ∧ Key.isNumeral whole ∧ fraction.IsDigits := by
  obtain ⟨d, hdecode, rfl⟩ := Option.map_eq_some_iff.1 hx
  obtain ⟨k, rfl⟩ := Nat.exists_eq_succ_of_ne_zero hcount.ne'
  have hd : d.mantissa ≠ 0 := mt d.value_eq_zero_iff.2 hq
  have hsign : signText d = (if d.value < 0 then "-" else [] : Text) := by
    simp only [signText, Dyadic.value_neg_iff hd]
  obtain ⟨u, hform, hshows⟩ := shows_exponentForm hd k
  rw [hsign] at hform
  have hrounded := roundedTo_shownValue hd k
  rw [← d.abs_value] at hrounded
  have hexponential : toExponential x (some (k + 1 - 1)) = (if d.value < 0 then "-" else [] : Text) ++ u := by
    simp only [toExponential, hdecode, Nat.add_sub_cancel, hform]
  by_cases hexponent : (significant d (k + 1)).2 < -6 ∨ ((k + 1 : Nat) : Int) ≤ (significant d (k + 1)).2
  · have hprecision : toPrecision x (k + 1) = exponentForm d k := by
      simp only [toPrecision, hdecode, if_neg hd, if_pos hexponent, Nat.add_sub_cancel]
    rw [hform] at hprecision
    refine ⟨u, u, _, _, _, hprecision, hexponential, hrounded, hshows, hshows, (rounded_significant hd k).digits,
      hasMagnitude_shownValue hd k, ?_⟩
    rw [if_pos hexponent]
  · obtain ⟨places, hplaces⟩ := Int.eq_ofNat_of_zero_le (show 0 ≤ k - (significant d (k + 1)).2 by omega)
    have hleft : (((k + 1 : Nat) : Int) - 1 - (significant d (k + 1)).2).toNat = places := by omega
    have hprecision : toPrecision x (k + 1) =
        signText d ++ placesText (roundHalfEven (d.ratio.1 * 10 ^ places) d.ratio.2) places := by
      simp only [toPrecision, hdecode, if_neg hd, if_neg hexponent, hleft, Nat.pow_eq]
    obtain ⟨whole, fraction, htext, hparts, hshows'⟩ := shows_placesText hd hplaces.symm
    rw [hsign, htext] at hprecision
    refine ⟨_, u, _, _, _, hprecision, hexponential, hrounded, hshows', hshows, (rounded_significant hd k).digits,
      hasMagnitude_shownValue hd k, ?_⟩
    rw [if_neg hexponent]
    exact ⟨whole, fraction, rfl, hparts.numeral, hparts.digits⟩

/-- A number below one that is rounded up to one. -/
theorem toPrecision_eq_toExponential_carry : value? (Float.ofBits 0x3fefe00000000000) = some (255 / 256) ∧
    toPrecision (Float.ofBits 0x3fefe00000000000) 2 = "1.0" ∧
    toExponential (Float.ofBits 0x3fefe00000000000) (some 1) = "1.0e+0" ∧
    ∃ v digits, RoundedTo (255 / 256) 2 v ∧ Shows "1.0" v digits ∧ Shows "1.0e+0" v digits ∧ digits.length = 2 := by
  have hdecode : decode (Float.ofBits 0x3fefe00000000000) = some ⟨false, 255 * 2 ^ 45, -53⟩ := by decide +kernel
  have hvalue : value? (Float.ofBits 0x3fefe00000000000) = some (255 / 256) := by
    rw [value?, hdecode, Option.map_some, Dyadic.value]
    norm_num
  have hprecision : toPrecision (Float.ofBits 0x3fefe00000000000) 2 = "1.0" := by decide +kernel
  have hexponential : toExponential (Float.ofBits 0x3fefe00000000000) (some 1) = "1.0e+0" := by decide +kernel
  have hpositive : ¬(255 / 256 : ℚ) < 0 := by norm_num
  obtain ⟨t, u, digits, v, e, ht, hu, hrounded, hshows, hshows', hlength, -⟩ :=
    toPrecision_eq_toExponential hvalue (by norm_num) (by decide : 0 < 2)
  rw [if_neg hpositive, List.nil_append, hprecision] at ht
  rw [if_neg hpositive, List.nil_append, hexponential] at hu
  rw [abs_of_pos (by norm_num)] at hrounded
  subst ht hu
  exact ⟨hvalue, hprecision, hexponential, v, digits, hrounded, hshows, hshows', hlength⟩

end Number

end ScriptEngine
