import Mathlib
import ScriptEngine.Proofs.NumberText

/-!
# Exponent forms

A double in exponent form is rounded to a number of digits. Where that is the number of digits of its shortest decimal,
the digits written are as near to the double as so many digits can be, but nothing makes sure that they are read as the
double. They are if the reach of the double goes as far down as up. A power of two reaches only half as far down, and
there are powers of two whose nearest decimal lies below their reach while the shortest one, farther away, lies above.

## Main definitions

* `Number.Rounded`: the digits of a double rounded to a number of digits.

## Main results

* `Number.reads_exponentForm`: an exponent form is a numeral of the rounded double.
* `Number.toExponential_reads`: how the form with as many digits as needed is read.
-/

namespace ScriptEngine

namespace Number

open Decimal (digitCount place OnGrid ShortestOf)

/-! ## Significant digits -/

/-- A decimal with exactly so many digits that is the double rounded to them. -/
structure Rounded (d : Dyadic) (count : Nat) (decimal : Decimal) : Prop where
  /-- The number of digits. -/
  digits : digitCount decimal.digits = count
  /-- It is a point of the grid, the one to which the double is rounded. -/
  value : ∃ m : Nat, HalfEven (d.magnitude / 10 ^ place d count) m ∧ decimal.value = m * 10 ^ place d count

/-- The exponent of the first digit of a double. -/
theorem hasMagnitude_ratio {d : Dyadic} (hd : d.mantissa ≠ 0) :
    Decimal.HasMagnitude d.magnitude (Decimal.magnitude d.ratio.1 d.ratio.2) := by
  have hratio : (d.ratio.1 : ℚ) / d.ratio.2 = d.magnitude := d.ratio_eq
  have hnum : d.ratio.1 ≠ 0 := by
    intro hzero
    rw [hzero, Nat.cast_zero, zero_div] at hratio
    exact (Dyadic.magnitude_pos hd).ne hratio
  rw [← hratio]
  exact Decimal.hasMagnitude_magnitude hnum d.ratio_snd_pos.ne'

theorem magnitude_ratio {d : Dyadic} (hd : d.mantissa ≠ 0) (count : Nat) :
    Decimal.magnitude d.ratio.1 d.ratio.2 - count + 1 = place d count := by
  obtain ⟨hunit, hmid, -, hmagnitude, -⟩ := Decimal.Interval.of_eq hd
  have hfirst := Decimal.hasMagnitude_magnitude hmid hunit
  rw [hmagnitude] at hfirst
  rw [place, (hasMagnitude_ratio hd).unique hfirst]

/-- The digits are those that the magnitude is rounded to at the place of the last one. Rounding up to the next power of
ten takes a digit off the end. -/
theorem significant_eq {d : Dyadic} (hd : d.mantissa ≠ 0) (k : Nat) :
    ∃ m, HalfEven (d.magnitude / 10 ^ place d (k + 1)) m ∧
      (10 ^ k ≤ m ∧ m < 10 ^ (k + 1) ∧ significant d (k + 1) = (m, place d (k + 1) + k) ∨
        m = 10 ^ (k + 1) ∧ d.magnitude / 10 ^ place d (k + 1) < m ∧
          significant d (k + 1) = (10 ^ k, place d (k + 1) + k + 1)) := by
  have hplace := magnitude_ratio hd (k + 1)
  have hfirst : Decimal.magnitude d.ratio.1 d.ratio.2 = place d (k + 1) + k := by omega
  have hshift : ((k + 1 : Nat) : Int) - 1 - (place d (k + 1) + k) = -place d (k + 1) := by omega
  obtain ⟨hden, hquotient⟩ := Decimal.scale_eq d.ratio.1 d.ratio_snd_pos.ne' (-place d (k + 1))
  rw [d.ratio_eq, zpow_neg, ← div_eq_mul_inv] at hquotient
  have hround := halfEven_roundHalfEven (Decimal.scale d.ratio.1 d.ratio.2 (-place d (k + 1))).1 hden
  rw [hquotient] at hround
  obtain ⟨n, -, hgrid, -⟩ := Decimal.exists_offers hd (show 0 < k + 1 by omega)
  have hneighbour := hgrid.floor_or_next hround
  have hlow := hgrid.first
  have hhigh := hgrid.last
  rw [Nat.add_sub_cancel] at hlow
  refine ⟨_, hround, ?_⟩
  unfold significant
  simp only [if_neg hd, hfirst, hshift, Nat.pow_eq, Nat.add_sub_cancel]
  generalize roundHalfEven _ _ = m at *
  split
  case isTrue hcarry =>
    have hlast : (n + 1 : ℚ) ≤ m := by exact_mod_cast (show n + 1 ≤ m by omega)
    have hbelow : d.magnitude / 10 ^ place d (k + 1) < n + 1 := (div_lt_iff₀ (by positivity)).2 hgrid.high
    exact .inr ⟨hcarry, hbelow.trans_le hlast, rfl⟩
  case isFalse hcarry => exact .inl ⟨by omega, by omega, rfl⟩

theorem rounded_significant {d : Dyadic} (hd : d.mantissa ≠ 0) (k : Nat) :
    Rounded d (k + 1) ⟨(significant d (k + 1)).1, (significant d (k + 1)).2 - k⟩ := by
  obtain ⟨m, hround, ⟨hfirst, hlast, heq⟩ | ⟨hcarry, -, heq⟩⟩ := significant_eq hd k
  · rw [heq]
    exact ⟨Decimal.digitCount_eq hfirst hlast, m, hround, by rw [Decimal.value, Int.add_sub_cancel]⟩
  · have hexponent : place d (k + 1) + k + 1 - (k : Int) = 1 + place d (k + 1) := by omega
    rw [heq]
    refine ⟨Decimal.digitCount_eq (le_refl _) (Nat.pow_lt_pow_right (by decide) (Nat.lt_succ_self k)), m, hround, ?_⟩
    rw [Decimal.value, hcarry, hexponent, zpow_add₀ (by norm_num), pow_succ]
    push_cast
    ring

/-! ## Reading exponent forms -/

/-- An exponent form is the sign, the digits with a point behind the first one, and the exponent. -/
theorem exponentForm_eq {d : Dyadic} (hd : d.mantissa ≠ 0) (places : Nat) :
    ∃ first rest, Text.ofNat (significant d (places + 1)).1 = first :: rest ∧ rest.length = places ∧
      exponentForm d places =
        signText d ++ first :: (decimals rest ++ exponentText (significant d (places + 1)).2) := by
  have hlength : (Text.ofNat (significant d (places + 1)).1).length = places + 1 := (rounded_significant hd places).digits
  unfold exponentForm
  generalize significant d (places + 1) = parts at *
  obtain ⟨q, e⟩ := parts
  simp only at hlength ⊢
  have hpad : Text.padZero (places + 1) (Text.ofNat q) = Text.ofNat q := by
    rw [Text.padZero, hlength, Nat.sub_self]
    rfl
  obtain ⟨first, rest, hdigits⟩ := List.exists_cons_of_ne_nil (Text.ofNat_ne_nil q)
  have hrest : rest.length = places := by
    rw [hdigits, List.length_cons] at hlength
    exact Nat.succ.inj hlength
  refine ⟨first, rest, hdigits, hrest, ?_⟩
  rw [hpad, hdigits, List.append_assoc]
  subst hrest
  cases rest <;> rfl

/-- An exponent form is a numeral of the rounded double, after the sign. -/
theorem reads_exponentForm {d : Dyadic} (hd : d.mantissa ≠ 0) (places : Nat) :
    ∃ t written, exponentForm d places = signText d ++ t ∧ Decimal.Reads t written ∧
      Rounded d (places + 1) written := by
  obtain ⟨first, rest, hdigits, hrest, hform⟩ := exponentForm_eq hd places
  have hreads := reads_exponent (hdigits ▸ Text.isDigits_ofNat _) (significant d (places + 1)).2
  rw [← hdigits, Decimal.digitsValue_ofNat, hrest] at hreads
  exact ⟨_, _, hform, hreads, rounded_significant hd places⟩

/-! ## As many digits as needed -/

theorem Rounded.closest {d : Dyadic} {count : Nat} {decimal : Decimal} (h : Rounded d count decimal)
    (hd : d.mantissa ≠ 0) (hcount : 0 < count) (other : Decimal) (hother : digitCount other.digits ≤ count) :
    |decimal.value - d.magnitude| ≤ |other.value - d.magnitude| := by
  obtain ⟨m, hm, hvalue⟩ := h.value
  obtain ⟨n, -, hgrid, -⟩ := Decimal.exists_offers hd hcount
  obtain ⟨k, -, -, hk⟩ := Decimal.exists_neighbour hgrid hcount hother
  rw [hvalue]
  exact (Decimal.dist_le_of_halfEven hm k).trans hk

/-- As many digits as the shortest decimal has are enough, unless the double is a power of two: then the nearest decimal
with so many digits may lie below its reach. -/
theorem Rounded.reaches_or {d : Dyadic} (hc : d.Canonical) (hd : d.mantissa ≠ 0) {decimal : Decimal}
    (h : Rounded d (digitCount (Decimal.shortest d).digits) decimal) :
    d.Reaches decimal.value ∨ (d.mantissa = 2 ^ 52 ∧ -1074 < d.exponent) ∧ decimal.value < d.magnitude ∧
      d.magnitude < (Decimal.shortest d).value := by
  have hshortest := (Decimal.shortest_spec hc hd).reaches
  have hclosest := h.closest hd (Decimal.digitCount_pos _) _ le_rfl
  by_cases hreaches : d.Reaches decimal.value
  · exact .inl hreaches
  · have hside := mt (hshortest.of_dist_le hclosest) hreaches
    push Not at hside
    obtain ⟨hless, hbelow⟩ := hside
    refine .inr ⟨?_, hless, ?_⟩
    · by_contra hpower
      exact hbelow (by rw [Dyadic.below, if_neg hpower])
    · by_contra hle
      have hle := not_lt.1 hle
      rw [abs_of_nonpos (by linarith), abs_of_nonpos (by linarith)] at hclosest
      exact hreaches (hshortest.between d.reaches_magnitude (by linarith) hless.le)

theorem ofText?_signed {d : Dyadic} {t : Text} {decimal : Decimal} (ht : Decimal.Reads t decimal) :
    ofText? (signText d ++ t) = some (decimal.toNumber d.negative) := by
  unfold signText
  cases d.negative
  · exact ht.ofText?.1
  · exact ht.ofText?.2

/-- A zero is read back with its sign. -/
theorem ofText?_toExponential_zero {x : Float} {d : Dyadic} (hdecode : decode x = some d) (hd : d.mantissa = 0) :
    ofText? (toExponential x none) = some x := by
  have hreads := Decimal.reads_whole (Text.isDigits_ofNat 0) (Text.ofNat_ne_nil 0) (.exponent 0)
  have hform : toExponential x none = signText d ++ (Text.ofNat 0 ++ exponentText 0) := by
    unfold toExponential exponentForm significant
    simp only [hdecode, if_pos hd]
    exact List.append_assoc _ _ _
  have hzero := d.reaches_magnitude
  rw [Dyadic.magnitude, hd, Nat.cast_zero, zero_mul] at hzero
  rw [hform, ofText?_signed hreads, Option.some.injEq, Decimal.toNumber_eq_iff hdecode, Decimal.value,
    Decimal.digitsValue_ofNat, Nat.cast_zero, zero_mul]
  exact hzero

/-- How the exponent form with as many digits as the shortest decimal has is read. It is the nearest decimal with so
many digits, and it is read as the double unless that is a power of two between it and the shortest decimal. -/
theorem toExponential_reads {x : Float} {q : ℚ} (hx : value? x = some q) :
    q = 0 ∧ ofText? (toExponential x none) = some x ∨
    q ≠ 0 ∧ ∃ written shortest : Decimal, ofText? (toExponential x none) = some (written.toNumber (q < 0)) ∧
      ShortestOf x q shortest ∧ digitCount written.digits = digitCount shortest.digits ∧
      (∀ other : Decimal, digitCount other.digits ≤ digitCount shortest.digits →
        |written.value - abs q| ≤ |other.value - abs q|) ∧
      (written.toNumber (q < 0) = x ∨
        written.value < |q| ∧ |q| < shortest.value ∧ ∃ j : Int, -1022 < j ∧ |q| = 2 ^ j) := by
  obtain ⟨d, hdecode, rfl⟩ := Option.map_eq_some_iff.1 hx
  have hc := canonical_of_decode hdecode
  by_cases hd : d.mantissa = 0
  · exact .inl ⟨d.value_eq_zero_iff.2 hd, ofText?_toExponential_zero hdecode hd⟩
  · refine .inr ⟨mt d.value_eq_zero_iff.1 hd, ?_⟩
    have hsign : decide (d.value < 0) = d.negative := by simp [Dyadic.value_neg_iff hd]
    have hcount := Decimal.digitCount_pos (Decimal.shortest d).digits
    obtain ⟨t, written, htext, hreads, hrounded⟩ :=
      reads_exponentForm hd (digitCount (Decimal.shortest d).digits - 1)
    rw [Nat.sub_add_cancel hcount] at hrounded
    have hform : toExponential x none = signText d ++ t := by
      unfold toExponential
      simp only [hdecode, if_neg hd, htext]
    rw [hsign, hform, d.abs_value]
    refine ⟨written, Decimal.shortest d, ?_, (Decimal.shortestOf_iff hdecode hd _).2 (Decimal.shortest_spec hc hd),
      hrounded.digits, hrounded.closest hd hcount, ?_⟩
    · exact ofText?_signed hreads
    · rw [Decimal.toNumber_eq_iff hdecode]
      refine (hrounded.reaches_or hc hd).imp_right fun h => ⟨h.2.1, h.2.2, 52 + d.exponent, by omega, ?_⟩
      rw [Dyadic.magnitude, h.1.1]
      exact_mod_cast two_pow_mul_zpow 52 d.exponent

/-- One third is written with as many digits as its shortest decimal has. -/
theorem toExponential_reads_third : value? (1 / 3 : Float) = some (6004799503160661 / 2 ^ 54) ∧
    ∃ written shortest : Decimal,
      ofText? (toExponential (1 / 3) none) = some (written.toNumber ((6004799503160661 / 2 ^ 54 : ℚ) < 0)) ∧
      ShortestOf (1 / 3) (6004799503160661 / 2 ^ 54) shortest ∧
      digitCount written.digits = digitCount shortest.digits := by
  have hdecode : decode (1 / 3 : Float) = some ⟨false, 6004799503160661, -54⟩ := by decide +kernel
  have hvalue : value? (1 / 3 : Float) = some (6004799503160661 / 2 ^ 54) := by
    rw [value?, hdecode, Option.map_some, Dyadic.value]
    norm_num
  refine ⟨hvalue, ?_⟩
  obtain ⟨hzero, -⟩ | ⟨-, written, shortest, hreads, hshortest, hcount, -⟩ := toExponential_reads hvalue
  · norm_num at hzero
  · exact ⟨written, shortest, hreads, hshortest, hcount⟩

/-- A power of two that is not read back. -/
theorem toExponential_not_read : value? (Float.ofBits 0x3e70000000000000) = some (2 ^ (-24 : Int)) ∧
    ofText? (toExponential (Float.ofBits 0x3e70000000000000) none) ≠ some (Float.ofBits 0x3e70000000000000) := by
  have hdecode : decode (Float.ofBits 0x3e70000000000000) = some ⟨false, 2 ^ 52, -76⟩ := by decide +kernel
  refine ⟨?_, by decide +kernel⟩
  rw [value?, hdecode, Option.map_some, Dyadic.value]
  norm_num

end Number

end ScriptEngine
