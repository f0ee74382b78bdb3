import Mathlib
import ScriptEngine.Proofs.Numerals
import ScriptEngine.Proofs.Shortest

/-!
# The text of a number

A double is written as its shortest decimal, with the point where it belongs, but for the large integers: below
`10 ^ 21` an integer is written in full, and from `2 ^ 53` on this can be more digits than the shortest decimal has. In
either form it is read as the double that was written.

## Main definitions

* `Decimal.ShortestOf`: the shortest decimals of a double, as they are read.

## Main results

* `Number.ofText?_toText`: reading what is written.
* `Number.toText_forms`: what is written for every double.
-/

namespace ScriptEngine

/-! ## Exact numbers -/

namespace Dyadic

theorem value_eq (d : Dyadic) : d.value = if d.negative then -d.magnitude else d.magnitude := by
  unfold value magnitude
  split <;> ring

theorem abs_value (d : Dyadic) : |d.value| = d.magnitude := by
  have hpos : 0 ≤ d.magnitude := by
    unfold magnitude
    positivity
  rw [value_eq]
  split
  · rw [abs_neg, abs_of_nonneg hpos]
  · rw [abs_of_nonneg hpos]

theorem value_eq_zero_iff (d : Dyadic) : d.value = 0 ↔ d.mantissa = 0 := by
  rw [← abs_eq_zero, abs_value]
  unfold magnitude
  simp [zpow_ne_zero]

theorem value_neg_iff {d : Dyadic} (hd : d.mantissa ≠ 0) : d.value < 0 ↔ d.negative := by
  have hpos := magnitude_pos hd
  rw [value_eq]
  split
  case isTrue h => exact iff_of_true (by linarith) h
  case isFalse h => exact iff_of_false (by linarith) h

/-- When a minus sign is shown. -/
theorem shown_sign (d : Dyadic) : (d.negative && d.mantissa != 0) = decide (d.value < 0) := by
  by_cases hd : d.mantissa = 0
  · have hvalue : ¬d.value < 0 := by
      rw [d.value_eq_zero_iff.2 hd]
      exact lt_irrefl 0
    rw [hd, decide_eq_false hvalue]
    exact Bool.and_false _
  · rw [bne_iff_ne.2 hd, Bool.and_true, ← Bool.coe_iff_coe, decide_eq_true_eq]
    exact (value_neg_iff hd).symm

theorem ratio_snd_pos (d : Dyadic) : 0 < d.ratio.2 := by
  unfold ratio
  split
  · exact Nat.one_pos
  · exact Nat.two_pow_pos _

/-- The magnitude is an integer exactly if the check for integers succeeds. -/
theorem isInteger_iff (d : Dyadic) (i : Nat) : d.isInteger ∧ d.floorMagnitude = i ↔ d.magnitude = i := by
  have hden := d.ratio_snd_pos
  have hquotient : d.magnitude = i ↔ d.ratio.1 = i * d.ratio.2 := by
    rw [magnitude, ← d.ratio_eq, div_eq_iff (Nat.cast_ne_zero.2 hden.ne')]
    exact_mod_cast Iff.rfl
  rw [hquotient, isInteger, floorMagnitude, beq_iff_eq, ← Nat.dvd_iff_mod_eq_zero]
  constructor
  · rintro ⟨hdvd, rfl⟩
    exact (Nat.div_mul_cancel hdvd).symm
  · intro h
    rw [h]
    exact ⟨Nat.dvd_mul_left _ _, Nat.mul_div_cancel _ hden⟩

end Dyadic

namespace Number

open Float.Model Float.Model.UnpackedFloat

/-- There is one double that is not a number, and two are infinite. -/
theorem eq_of_decode_none {x : Float} (h : decode x = none) : x = nan ∨ x = infinity ∨ x = -infinity := by
  have hsame {y : Float} (hbits : x.toBits.toNat = y.toBits.toNat) : x = y := by
    rw [← Float.ofBits_toBits x, UInt64.toNat_inj.1 hbits, Float.ofBits_toBits]
  have hlt := x.toBits.toNat_lt
  have hexponent : x.toBits.toNat / 2 ^ 52 % 2 ^ 11 = 2047 := by
    unfold decode at h
    dsimp only at h
    by_contra hne
    rw [Nat.pow_eq, Nat.pow_eq, if_neg hne] at h
    split at h <;> cases h
  by_cases hfraction : x.toBits.toNat % 2 ^ 52 = 0
  · right
    have hinfinity : infinity.toBits.toNat = 2047 * 2 ^ 52 := by decide +kernel
    have hinfinity' : (-infinity).toBits.toNat = 2047 * 2 ^ 52 + 2 ^ 63 := by decide +kernel
    rcases Nat.lt_or_ge x.toBits.toNat (2 ^ 63) with hpositive | hnegative
    · exact .inl (hsame (by rw [hinfinity]; omega))
    · exact .inr (hsame (by rw [hinfinity']; omega))
  · -- A double holds only one pattern of bits that is not a number.
    left
    have hnan : x.toBits.toBitVec = nan.toBits.toBitVec := by
      rw [show nan.toBits.toBitVec = packedNaN Format.binary64 by decide +kernel]
      refine x.toModel.valid.eq_packedNaN ?_ fun hzero => hfraction ?_
      · refine BitVec.eq_of_toNat_eq ?_
        simp only [unpackExponent, BitVec.toNat_cast, BitVec.extractLsb_toNat, Nat.shiftRight_eq_div_pow]
        exact hexponent
      · have hnat := congrArg BitVec.toNat hzero
        simp only [unpackMantissa, BitVec.toNat_cast, BitVec.extractLsb_toNat, Nat.shiftRight_eq_div_pow] at hnat
        rwa [pow_zero, Nat.div_one] at hnat
    exact hsame (congrArg BitVec.toNat hnan)

/-! ## Reading what is written -/

theorem reads_magnitudeText {d : Dyadic} (hc : d.Canonical) (hd : d.mantissa ≠ 0) :
    ∃ decimal, Decimal.Reads (magnitudeText d) decimal ∧ d.Reaches decimal.value := by
  unfold magnitudeText
  split
  case isTrue h =>
    have hinteger : d.isInteger := (Bool.and_eq_true_iff.1 h).1
    have hmagnitude := (d.isInteger_iff _).1 ⟨hinteger, rfl⟩
    refine ⟨_, Decimal.reads_ofNat _, ?_⟩
    rw [Decimal.value, zpow_zero, mul_one, ← hmagnitude]
    exact d.reaches_magnitude
  case isFalse =>
    extract_lets decimal s
    have hspells := spells_layout (Text.ofNat_ne_nil decimal.digits) (s.length + decimal.exponent)
    obtain ⟨read, hreads, hvalue⟩ := hspells.reads (Text.isDigits_ofNat _) (Text.ofNat_ne_nil _)
    refine ⟨read, hreads, ?_⟩
    rw [Decimal.digitsValue_ofNat, add_sub_cancel_left] at hvalue
    rw [hvalue]
    exact (Decimal.shortest_spec hc hd).reaches

theorem ofText?_toText (x : Float) : ofText? (toText x) = some (if value? x = some 0 then 0.0 else x) := by
  unfold toText value?
  cases hx : decode x with
  | none =>
    rw [Option.map_none, if_neg (by simp)]
    rcases eq_of_decode_none hx with rfl | rfl | rfl <;> decide +kernel
  | some d =>
    simp only [Option.map_some, Option.some.injEq, d.value_eq_zero_iff]
    by_cases hd : d.mantissa = 0
    · rw [if_pos hd, if_pos hd]
      decide +kernel
    · rw [if_neg hd, if_neg hd]
      obtain ⟨decimal, hreads, hreaches⟩ := reads_magnitudeText (canonical_of_decode hx) hd
      rw [← Decimal.toNumber_eq_iff hx] at hreaches
      split
      case isTrue h =>
        rw [h] at hreaches
        rw [← hreaches]
        exact hreads.ofText?.2
      case isFalse h =>
        rw [Bool.not_eq_true] at h
        rw [h] at hreaches
        rw [hreads.ofText?.1, hreaches]

/-- What is written is read as the double that was written, but that zero loses its sign; and every layout of digits
stands for the digits with the point at its position. -/
theorem text_lossless : (∀ x : Float, ofText? (toText x) = some (if value? x = some 0 then 0.0 else x)) ∧
    ∀ (s : Text) (n : Int), s ≠ [] → s.IsDigits → ∃ decimal, Decimal.scan? (layout s n) = some (decimal, []) ∧
      decimal.value = (Nat.ofDigits 10 (s.reverse.map (· - 48)) : Nat) * 10 ^ (n - s.length) := by
  refine ⟨ofText?_toText, fun s n hne hs => ?_⟩
  obtain ⟨decimal, hreads, hvalue⟩ := (spells_layout hne n).reads hs hne
  rw [Decimal.digitsValue_eq_ofDigits hs] at hvalue
  exact ⟨decimal, hreads.scan, hvalue⟩

/-- The smallest double, and three digits far behind the point. -/
theorem text_lossless_small :
    ofText? (toText (Float.ofBits 1)) = some (if value? (Float.ofBits 1) = some 0 then 0.0 else Float.ofBits 1) ∧
      ("123" : Text) ≠ [] ∧ Text.IsDigits "123" ∧ ∃ decimal, Decimal.scan? (layout "123" (-20)) = some (decimal, []) ∧
        decimal.value = (123 : Nat) * 10 ^ ((-20 : Int) - (3 : Nat)) := by
  have hne : ("123" : Text) ≠ [] := by decide
  have hdigits : Text.IsDigits "123" := by
    unfold Text.IsDigits
    decide
  exact ⟨text_lossless.1 _, hne, hdigits, text_lossless.2 "123" (-20) hne hdigits⟩

end Number

/-! ## The shortest decimal -/

namespace Decimal

/-- The shortest decimals of a double, as decimals are read; `q` is its value. -/
structure ShortestOf (x : Float) (q : ℚ) (decimal : Decimal) : Prop where
  /-- It is read as the double. -/
  reads : decimal.toNumber (q < 0) = x
  /-- No decimal with fewer digits is. -/
  fewest : ∀ other : Decimal, other.toNumber (q < 0) = x → digitCount decimal.digits ≤ digitCount other.digits
  /-- Of those with as many digits none is nearer. -/
  closest : ∀ other : Decimal, other.toNumber (q < 0) = x → digitCount other.digits = digitCount decimal.digits →
    |decimal.value - abs q| ≤ |other.value - abs q|

theorem shortestOf_iff {x : Float} {d : Dyadic} (hx : Number.decode x = some d) (hd : d.mantissa ≠ 0)
    (decimal : Decimal) : ShortestOf x d.value decimal ↔ Shortest d decimal := by
  have hreads (other : Decimal) : other.toNumber (d.value < 0) = x ↔ d.Reaches other.value := by
    rw [← toNumber_eq_iff hx]
    simp [Dyadic.value_neg_iff hd]
  constructor
  · intro h
    obtain ⟨hx', hfewest, hclosest⟩ := h
    simp only [hreads, d.abs_value] at hx' hfewest hclosest
    exact ⟨hx', hfewest, hclosest⟩
  · intro h
    constructor
    · exact (hreads decimal).2 h.reaches
    · simpa only [hreads] using h.fewest
    · simpa only [hreads, d.abs_value] using h.closest

/-- When a double below `2 ^ 53` is an integer, its last place is not above the point. -/
theorem exponent_nonpos {d : Dyadic} (hc : d.Canonical) {i : Nat} (hi : d.magnitude = i) (hsmall : i < 2 ^ 53) :
    d.exponent ≤ 0 := by
  by_contra hlarge
  have hfull : ((2 ^ 52 : Nat) : ℚ) ≤ d.mantissa := Nat.cast_le.2 (hc.full.resolve_right (by omega))
  have htwo : (2 : ℚ) ^ (1 : Int) ≤ 2 ^ d.exponent := zpow_le_zpow_right₀ one_le_two (by omega)
  have hless : (i : ℚ) < (2 ^ 53 : Nat) := Nat.cast_lt.2 hsmall
  rw [← hi, Dyadic.magnitude] at hless
  push_cast at hfull hless
  rw [zpow_one] at htwo
  have := mul_le_mul hfull htwo (by norm_num) (by positivity)
  linarith

/-- What is read as such a double is at most a half away from it. -/
theorem near_of_reaches {d : Dyadic} {q : ℚ} (h : d.Reaches q) (hexponent : d.exponent ≤ 0) :
    d.magnitude - 1 / 2 ≤ q ∧ q ≤ d.magnitude + 1 / 2 := by
  have hplace : (2 : ℚ) ^ d.exponent ≤ 1 := zpow_le_one_of_nonpos₀ one_le_two hexponent
  constructor
  · refine le_trans ?_ h.low
    have := mul_le_mul d.below_le hplace (by positivity) (by norm_num)
    rw [Dyadic.magnitude, Dyadic.lower]
    linarith
  · refine h.high.trans ?_
    rw [Dyadic.magnitude, Dyadic.upper]
    linarith

/-- A decimal without a fraction that is at most a half away from an integer is this integer. -/
theorem value_eq_of_near {decimal : Decimal} {i : Nat} (hexponent : 0 ≤ decimal.exponent)
    (hlow : (i : ℚ) - 1 / 2 ≤ decimal.value) (hhigh : decimal.value ≤ i + 1 / 2) : decimal.value = i := by
  obtain ⟨k, hk⟩ := Int.eq_ofNat_of_zero_le hexponent
  have hvalue : decimal.value = (decimal.digits * 10 ^ k : Nat) := by
    rw [value, hk, zpow_natCast]
    push_cast
    rfl
  rw [hvalue] at hlow hhigh ⊢
  have hle : i < decimal.digits * 10 ^ k + 1 := by
    rw [← Nat.cast_lt (α := ℚ)]
    push_cast at hlow ⊢
    linarith
  have hge : decimal.digits * 10 ^ k < i + 1 := by
    rw [← Nat.cast_lt (α := ℚ)]
    push_cast at hhigh ⊢
    linarith
  exact congrArg Nat.cast (by omega)

/-- A decimal with a fraction and with fewer digits than an integer is less than a tenth of it. -/
theorem ten_mul_value_lt {decimal : Decimal} {i : Nat} (hi : i ≠ 0) (hexponent : decimal.exponent < 0)
    (hfewer : digitCount decimal.digits < digitCount i) : 10 * decimal.value < i := by
  have hless : decimal.value < 10 ^ ((digitCount i : Int) - 2) :=
    decimal.value_lt.trans_le (zpow_le_zpow_right₀ (by norm_num) (by omega))
  have hmore := le_value (d := ⟨i, 0⟩) hi
  have hself : value ⟨i, 0⟩ = i := by
    rw [value, zpow_zero, mul_one]
  have hten : (10 : ℚ) ^ ((digitCount i : Int) + 0 - 1) = 10 * 10 ^ ((digitCount i : Int) - 2) := by
    rw [← zpow_one_add₀ (by norm_num)]
    congr 1
    ring
  rw [hself, hten] at hmore
  linarith

/-- A shortest decimal of an integer below `2 ^ 53` is the integer. -/
theorem Shortest.value_eq {d : Dyadic} {decimal : Decimal} (h : Shortest d decimal) (hc : d.Canonical)
    (hd : d.mantissa ≠ 0) {i : Nat} (hi : d.magnitude = i) (hsmall : i < 2 ^ 53) : decimal.value = i := by
  have hpos : i ≠ 0 := by
    rintro rfl
    exact (Dyadic.magnitude_pos hd).ne' (by rw [hi, Nat.cast_zero])
  obtain ⟨hlow, hhigh⟩ := near_of_reaches h.reaches (exponent_nonpos hc hi hsmall)
  rw [hi] at hlow hhigh
  have hself : value ⟨i, 0⟩ = d.magnitude := by
    rw [value, zpow_zero, mul_one, hi]
  have hreaches : d.Reaches (value ⟨i, 0⟩) := by
    rw [hself]
    exact d.reaches_magnitude
  have hfewest : digitCount decimal.digits ≤ digitCount i := h.fewest _ hreaches
  rcases hfewest.eq_or_lt with hsame | hfewer
  · have hzero := h.closest _ hreaches hsame.symm
    rw [hself, sub_self, abs_zero] at hzero
    rw [← hi]
    exact sub_eq_zero.1 (abs_eq_zero.1 (le_antisymm hzero (abs_nonneg _)))
  · by_cases hinteger : 0 ≤ decimal.exponent
    · exact value_eq_of_near hinteger hlow hhigh
    · have hless := ten_mul_value_lt hpos (not_le.1 hinteger) hfewer
      have hone : (1 : ℚ) ≤ i := by exact_mod_cast Nat.one_le_iff_ne_zero.2 hpos
      linarith

end Decimal

namespace Number

open Decimal (ShortestOf digitCount)

theorem ofNat_mul_pow {n : Nat} (hn : n ≠ 0) (k : Nat) : Text.ofNat (n * 10 ^ k) = Text.ofNat n ++ Text.zeros k := by
  induction k with
  | zero => rw [pow_zero, mul_one, Text.zeros, List.replicate_zero, List.append_nil]
  | succ k ih =>
    have hpos : 0 < n * 10 ^ k := by positivity
    rw [pow_succ, ← mul_assoc, Text.ofNat_of_le (by omega), Nat.mul_div_cancel _ (by decide), Nat.mul_mod_left, ih,
      Text.zeros, Text.zeros, List.replicate_succ', List.append_assoc]

/-- An integer that is its own shortest decimal is written in full. -/
theorem spells_ofNat {d : Dyadic} {decimal : Decimal} (h : Decimal.Shortest d decimal) {i : Nat} (hpos : i ≠ 0)
    (hmagnitude : d.magnitude = i) (hvalue : decimal.value = i) (hsmall : i < 10 ^ 21) :
    Spells (Text.ofNat decimal.digits) (digitCount decimal.digits + decimal.exponent) (Text.ofNat i) := by
  have hself : d.Reaches (Decimal.value ⟨i, 0⟩) := by
    rw [Decimal.value, zpow_zero, mul_one, ← hmagnitude]
    exact d.reaches_magnitude
  have hfewest : digitCount decimal.digits ≤ digitCount i := h.fewest _ hself
  rcases le_or_gt 0 decimal.exponent with hinteger | hfraction
  · obtain ⟨k, hk⟩ := Int.eq_ofNat_of_zero_le hinteger
    have hi : i = decimal.digits * 10 ^ k := by
      rw [Decimal.value, hk, zpow_natCast] at hvalue
      exact_mod_cast hvalue.symm
    have hdigits : decimal.digits ≠ 0 := by
      intro hzero
      rw [hi, hzero, zero_mul] at hpos
      exact hpos rfl
    have htext := ofNat_mul_pow hdigits k
    rw [← hi] at htext
    have hcount : digitCount i = digitCount decimal.digits + k := by
      rw [digitCount, htext, List.length_append, Text.zeros, List.length_replicate, digitCount]
    have hbound := Decimal.digitCount_le (by decide) hsmall
    have hpadded := Spells.padded (s := Text.ofNat decimal.digits) (n := digitCount decimal.digits + decimal.exponent)
      (by rw [digitCount]; omega) (by omega)
    have hzeros :
        ((digitCount decimal.digits : Int) + decimal.exponent - (Text.ofNat decimal.digits).length).toNat = k := by
      rw [digitCount]
      omega
    rwa [hzeros, ← htext] at hpadded
  · -- Zeros behind the point are more digits than the integer has.
    obtain ⟨k, hk⟩ := Int.eq_ofNat_of_zero_le (show 0 ≤ -decimal.exponent by omega)
    have hexponent : decimal.exponent = -(k : Int) := by omega
    have hdigits : decimal.digits = i * 10 ^ k := by
      rw [Decimal.value, hexponent, zpow_neg, zpow_natCast, mul_inv_eq_iff_eq_mul₀ (by positivity)] at hvalue
      exact_mod_cast hvalue
    have hcount : digitCount decimal.digits = digitCount i + k := by
      rw [digitCount, hdigits, ofNat_mul_pow hpos, List.length_append, Text.zeros, List.length_replicate, digitCount]
    omega

/-- How the magnitude of a double is written. -/
theorem magnitudeText_forms {d : Dyadic} (hc : d.Canonical) (hd : d.mantissa ≠ 0) {decimal : Decimal}
    (hdecimal : Decimal.shortest d = decimal) :
    (∃ i : Nat, d.magnitude = i ∧ 2 ^ 53 ≤ i ∧ i < 10 ^ 21 ∧ decimal.value ≠ i ∧ magnitudeText d = Text.ofNat i) ∨
      ((decimal.value = d.magnitude ∨ ∀ i : Nat, d.magnitude = i → 10 ^ 21 ≤ i) ∧
        Spells (Text.ofNat decimal.digits) (digitCount decimal.digits + decimal.exponent) (magnitudeText d)) := by
  have hshortest := Decimal.shortest_spec hc hd
  unfold magnitudeText
  simp only [hdecimal] at hshortest ⊢
  split
  case isTrue h =>
    obtain ⟨hinteger, hsmall⟩ := Bool.and_eq_true_iff.1 h
    have hmagnitude := (d.isInteger_iff _).1 ⟨hinteger, rfl⟩
    have hsmall := of_decide_eq_true hsmall
    generalize d.floorMagnitude = i at *
    by_cases hexact : decimal.value = i
    · refine .inr ⟨.inl (hexact.trans hmagnitude.symm), spells_ofNat hshortest ?_ hmagnitude hexact hsmall⟩
      rintro rfl
      exact (Dyadic.magnitude_pos hd).ne' (by rw [hmagnitude, Nat.cast_zero])
    · refine .inl ⟨i, hmagnitude, ?_, hsmall, hexact, rfl⟩
      by_contra hless
      exact hexact (hshortest.value_eq hc hd hmagnitude (not_le.1 hless))
  case isFalse h =>
    refine .inr ⟨.inr fun i hi => ?_, spells_layout (Text.ofNat_ne_nil _) _⟩
    obtain ⟨hinteger, hfloor⟩ := (d.isInteger_iff i).2 hi
    by_contra hless
    exact h (Bool.and_eq_true_iff.2 ⟨hinteger, decide_eq_true (by rw [hfloor]; exact not_le.1 hless)⟩)

/-- What is written for every double. Large integers below `10 ^ 21` that are not their own shortest decimals are
written in full. -/
theorem toText_forms (x : Float) :
    x = nan ∧ toText x = "NaN" ∨ x = infinity ∧ toText x = "Infinity" ∨ x = -infinity ∧ toText x = "-Infinity" ∨
    value? x = some 0 ∧ toText x = "0" ∨
    ∃ (q : ℚ) (t : Text) (decimal : Decimal), value? x = some q ∧ q ≠ 0 ∧
      toText x = (if q < 0 then "-" ++ t else t) ∧ ShortestOf x q decimal ∧
      ((∃ i : Nat, |q| = i ∧ 2 ^ 53 ≤ i ∧ i < 10 ^ 21 ∧ decimal.value ≠ i ∧ t = Text.ofNat i) ∨
        ((decimal.value = |q| ∨ ∀ i : Nat, |q| = i → 10 ^ 21 ≤ i) ∧
          Spells (Text.ofNat decimal.digits) (digitCount decimal.digits + decimal.exponent) t)) := by
  cases hx : decode x with
  | none =>
    rcases eq_of_decode_none hx with rfl | rfl | rfl
    · exact .inl ⟨rfl, by decide +kernel⟩
    · exact .inr (.inl ⟨rfl, by decide +kernel⟩)
    · exact .inr (.inr (.inl ⟨rfl, by decide +kernel⟩))
  | some d =>
    refine .inr (.inr (.inr ?_))
    have hvalue : value? x = some d.value := by rw [value?, hx, Option.map_some]
    by_cases hd : d.mantissa = 0
    · refine .inl ⟨by rw [hvalue, d.value_eq_zero_iff.2 hd], ?_⟩
      unfold toText
      rw [hx]
      exact if_pos hd
    · have hc := canonical_of_decode hx
      refine .inr ⟨d.value, magnitudeText d, Decimal.shortest d, hvalue, mt d.value_eq_zero_iff.1 hd, ?_,
        (Decimal.shortestOf_iff hx hd _).2 (Decimal.shortest_spec hc hd), ?_⟩
      · unfold toText
        simp only [hx, if_neg hd, Dyadic.value_neg_iff hd]
      · rw [d.abs_value]
        exact magnitudeText_forms hc hd rfl

/-- A power of two that is written with more digits than its shortest decimal has. -/
theorem toText_not_shortest : value? (Float.ofBits 0x43b0000000000000) = some (2 ^ 60) ∧
    ¬∃ decimal, ShortestOf (Float.ofBits 0x43b0000000000000) (2 ^ 60) decimal ∧
      Spells (Text.ofNat decimal.digits) (digitCount decimal.digits + decimal.exponent)
        (toText (Float.ofBits 0x43b0000000000000)) := by
  have hdecode : decode (Float.ofBits 0x43b0000000000000) = some ⟨false, 2 ^ 52, 8⟩ := by decide +kernel
  have htext : toText (Float.ofBits 0x43b0000000000000) = Text.ofNat 1152921504606846976 := by decide +kernel
  refine ⟨?_, ?_⟩
  · rw [value?, hdecode, Option.map_some, Dyadic.value]
    norm_num
  rintro ⟨decimal, hshortest, hspells⟩
  -- The text is the integer, so the decimal would be.
  obtain ⟨read, hreads, hvalue⟩ := hspells.reads (Text.isDigits_ofNat _) (Text.ofNat_ne_nil _)
  rw [htext] at hreads
  obtain rfl : (⟨1152921504606846976, 0⟩ : Decimal) = read := by
    have hscan := (Decimal.reads_ofNat 1152921504606846976).scan.symm.trans hreads.scan
    exact (Prod.mk.inj (Option.some.inj hscan)).1
  rw [Decimal.digitsValue_ofNat, digitCount, add_sub_cancel_left] at hvalue
  change _ = decimal.value at hvalue
  -- But sixteen digits are enough.
  have hother : (⟨1152921504606847, 3⟩ : Decimal).toNumber ((2 : ℚ) ^ 60 < 0) = Float.ofBits 0x43b0000000000000 := by
    have hsign : decide ((2 : ℚ) ^ 60 < 0) = false := by norm_num
    rw [hsign]
    decide +kernel
  have hfewest : digitCount decimal.digits ≤ 16 := hshortest.fewest _ hother
  have hread : Decimal.value ⟨1152921504606846976, 0⟩ = 1152921504606846976 := by
    rw [Decimal.value, zpow_zero, mul_one]
    rfl
  have hlarge : (10 : ℚ) ^ (18 : Int) < 10 ^ (digitCount decimal.digits + decimal.exponent) := by
    refine lt_trans ?_ decimal.value_lt
    rw [← hvalue, hread]
    norm_num
  have hlarge := (zpow_lt_zpow_iff_right₀ (by norm_num)).1 hlarge
  obtain ⟨k, hk⟩ := Int.eq_ofNat_of_zero_le (show 0 ≤ decimal.exponent - 3 by omega)
  have hexponent : decimal.exponent = (k + 3 : Nat) := by omega
  have hmultiple : 1152921504606846976 = decimal.digits * 10 ^ k * 1000 := by
    rw [hread, Decimal.value, hexponent, zpow_natCast, pow_add, ← mul_assoc] at hvalue
    norm_num at hvalue
    exact_mod_cast hvalue
  omega

end Number

end ScriptEngine
