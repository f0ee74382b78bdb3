import Mathlib
import ScriptEngine.Proofs.NumberText

/-!
# Comparing doubles

The operations on doubles that are not built on `Number.decode` work on a form in which a finite double has a sign, a
mantissa and an exponent too, but zero is a case of its own. Both forms hold the same numbers, so finite doubles are
compared like the rational numbers that they are, the difference of a finite double with itself is zero, and the absolute
value of a double only loses the sign.

## Main definitions

* `Number.unpacked`: the other form of an exact number.

## Main results

* `Number.unpack_of_decode`, `Number.decode_pack`: the two forms of a finite double.
* `Number.compare_unpack`, `Number.le_iff`: finite doubles are compared by their values.
* `Number.difference_self`, `Number.abs_eq`: differences with itself, and absolute values.
-/

namespace ScriptEngine

open Float.Model Float.Model.UnpackedFloat

namespace Number

/-! ## Two forms of a double -/

/-- The sign of the other form. -/
def modelSign (negative : Bool) : Sign := if negative then .negative else .positive

theorem finite_congr {s : Sign} {m m' : Nat} {e e' : Int} (hm : 0 < m) (hmantissa : m = m') (hexponent : e = e') :
    UnpackedFloat.finite s m e hm = .finite s m' e' (hmantissa ▸ hm) := by
  subst hmantissa hexponent
  rfl

/-- The sign bit, as the other form has it. -/
theorem ofBitVec_unpackSign (b : UInt64) :
    Sign.ofBitVec (@unpackSign Format.binary64 b.toBitVec) = modelSign (b.toNat / 2 ^ 63 == 1) := by
  have hlt := b.toNat_lt
  have hbit : (@unpackSign Format.binary64 b.toBitVec).toNat = b.toNat / 2 ^ 63 := by
    simp only [unpackSign, BitVec.toNat_cast, BitVec.extractLsb_toNat, Nat.shiftRight_eq_div_pow]
    change b.toNat / 2 ^ 63 % 2 ^ 1 = _
    omega
  have htop : b.toNat / 2 ^ 63 < 2 := by omega
  simp only [Sign.ofBitVec, modelSign, ← BitVec.toNat_inj, hbit, beq_iff_eq]
  interval_cases b.toNat / 2 ^ 63 <;> rfl

/-- The exponent bits and the fraction bits, as natural numbers. -/
theorem toNat_unpack (b : UInt64) :
    (@unpackExponent Format.binary64 b.toBitVec).toNat = b.toNat / 2 ^ 52 % 2 ^ 11 ∧
      (@unpackMantissa Format.binary64 b.toBitVec).toNat = b.toNat % 2 ^ 52 := by
  constructor
  · simp only [unpackExponent, BitVec.toNat_cast, BitVec.extractLsb_toNat, Nat.shiftRight_eq_div_pow]
    rfl
  · simp only [unpackMantissa, BitVec.toNat_cast, BitVec.extractLsb_toNat, Nat.shiftRight_eq_div_pow]
    rw [pow_zero, Nat.div_one]
    rfl

/-- The other form of an exact number. -/
def unpacked (d : Dyadic) : UnpackedFloat :=
  if hm : d.mantissa = 0 then .zero (modelSign d.negative)
  else .finite (modelSign d.negative) d.mantissa d.exponent (Nat.pos_of_ne_zero hm)

theorem unpacked_zero {d : Dyadic} (hm : d.mantissa = 0) : unpacked d = .zero (modelSign d.negative) := dif_pos hm

theorem unpacked_finite {d : Dyadic} (hm : d.mantissa ≠ 0) :
    unpacked d = .finite (modelSign d.negative) d.mantissa d.exponent (Nat.pos_of_ne_zero hm) := dif_neg hm

/-- The other form of a finite double. -/
theorem unpack_of_decode {x : Float} {d : Dyadic} (h : decode x = some d) : x.toModel.unpack = unpacked d := by
  obtain ⟨hexponent, hmantissa⟩ := toNat_unpack x.toBits
  have hleading : (1#1 ++ @unpackMantissa Format.binary64 x.toBits.toBitVec).toNat =
      2 ^ 52 + x.toBits.toNat % 2 ^ 52 := by
    rw [BitVec.toNat_append, hmantissa, ← Nat.shiftLeft_add_eq_or_of_lt (Nat.mod_lt _ (by decide))]
    rfl
  have hones : (-1#11).toNat = 2047 := rfl
  have hnone : (0#11).toNat = 0 := rfl
  have hbias : (Format.binary64.exponentBias : Int) = 1023 := rfl
  change UnpackedFloat.unpack Format.binary64 x.toBits.toBitVec = _
  unfold UnpackedFloat.unpack
  simp only [decode, Nat.pow_eq] at h
  simp only [← BitVec.toNat_inj, hexponent, hmantissa, ofBitVec_unpackSign, hleading, hones, hnone, hbias]
  split at h
  case isTrue => cases h
  case isFalse hinfinite =>
    rw [if_neg hinfinite]
    split at h
    case isTrue hsubnormal =>
      cases h
      rw [if_pos hsubnormal, hsubnormal]
      rfl
    case isFalse hnormal =>
      cases h
      rw [if_neg hnormal, unpacked_finite (by simp)]
      exact finite_congr _ rfl (by simp only; omega)

/-- A double is made again from its other form. -/
theorem ofModel_pack {y : Float} {u : UnpackedFloat} (h : y.toModel.unpack = u) :
    Float.ofModel (Float.Model.pack u) = y := by
  subst h
  exact Float.ofBits_toBits y

/-- A canonical number is found in the double that is made from its other form. -/
theorem decode_pack {d : Dyadic} (h : d.Canonical) : decode (Float.ofModel (Float.Model.pack (unpacked d))) = some d := by
  have hdecode := decode_magnitudeBits h
  rwa [ofModel_pack (unpack_of_decode hdecode)]

/-- A number beyond the largest exponent becomes infinite. -/
theorem decode_pack_infinite {d : Dyadic} (hfull : 2 ^ 52 ≤ d.mantissa) (he : 971 < d.exponent) :
    decode (Float.ofModel (Float.Model.pack (unpacked d))) = none := by
  have hbiased : 2 ^ 11 ≤ (d.exponent + 1023 + 52).toNat + 1 := by omega
  have hpack : UnpackedFloat.pack Format.binary64 (unpacked d) =
      UnpackedFloat.pack Format.binary64 (.infinity (modelSign d.negative)) := by
    rw [unpacked_finite (by omega)]
    exact if_pos hbiased
  have hmodel : Float.Model.pack (unpacked d) = Float.Model.pack (.infinity (modelSign d.negative)) := by
    simp only [Float.Model.pack, hpack]
  rw [hmodel]
  cases d.negative <;> decide +kernel

/-- A finite double is a number. -/
theorem isNaN_of_decode {x : Float} {d : Dyadic} (h : decode x = some d) : x.isNaN = false := by
  change x.toModel.unpack.isNaN = false
  rw [unpack_of_decode h, unpacked]
  split <;> rfl

end Number

/-! ## Order -/

/-- Canonical numbers are compared by their exponents first. -/
theorem Dyadic.Canonical.compare_magnitude {d d' : Dyadic} (h : d.Canonical) (h' : d'.Canonical) :
    (compare d.exponent d'.exponent).then (compare d.mantissa d'.mantissa) = compare d.magnitude d'.magnitude := by
  have hless {d d' : Dyadic} (h : d.Canonical) (h' : d'.Canonical)
      (hlt : d.exponent < d'.exponent ∨ d.exponent = d'.exponent ∧ d.mantissa < d'.mantissa) :
      d.magnitude < d'.magnitude := by
    have hupper : d.magnitude < d.upper := by
      rw [magnitude, upper]
      gcongr
      linarith
    have hlower : d'.lower < d'.magnitude := by
      have hbelow : 0 < d'.below := by
        unfold below
        split <;> norm_num
      rw [magnitude, lower]
      gcongr
      linarith
    have hends : d.upper ≤ d'.lower := (upper_le_lower h h' hlt).elim le_of_lt fun heq => heq.1.le
    linarith
  rcases lt_trichotomy d.exponent d'.exponent with hlt | heq | hgt
  · rw [compare_lt_iff_lt.2 hlt, compare_lt_iff_lt.2 (hless h h' (.inl hlt))]
    rfl
  · rw [compare_eq_iff_eq.2 heq]
    change compare d.mantissa d'.mantissa = _
    rcases lt_trichotomy d.mantissa d'.mantissa with hlt | hsame | hgt
    · rw [compare_lt_iff_lt.2 hlt, compare_lt_iff_lt.2 (hless h h' (.inr ⟨heq, hlt⟩))]
    · rw [compare_eq_iff_eq.2 hsame, compare_eq_iff_eq.2 (by rw [magnitude, magnitude, heq, hsame])]
    · rw [compare_gt_iff_gt.2 hgt, compare_gt_iff_gt.2 (hless h' h (.inr ⟨heq.symm, hgt⟩))]
  · rw [compare_gt_iff_gt.2 hgt, compare_gt_iff_gt.2 (hless h' h (.inl hgt))]
    rfl

namespace Number

theorem compare_neg_neg (a b : ℚ) : compare (-a) (-b) = (compare a b).swap := by
  rcases lt_trichotomy a b with h | h | h
  · rw [compare_lt_iff_lt.2 h, compare_gt_iff_gt.2 (neg_lt_neg h)]
    rfl
  · rw [compare_eq_iff_eq.2 h, compare_eq_iff_eq.2 (congrArg Neg.neg h)]
    rfl
  · rw [compare_gt_iff_gt.2 h, compare_lt_iff_lt.2 (neg_lt_neg h)]
    rfl

/-- Finite doubles are compared by their values. -/
theorem compare_unpack {x y : Float} {p q : ℚ} (hx : value? x = some p) (hy : value? y = some q) :
    x.toModel.unpack.compare y.toModel.unpack = some (compare p q) := by
  obtain ⟨d, hd, rfl⟩ := Option.map_eq_some_iff.1 hx
  obtain ⟨d', hd', rfl⟩ := Option.map_eq_some_iff.1 hy
  have hmagnitude := (canonical_of_decode hd).compare_magnitude (canonical_of_decode hd')
  rw [unpack_of_decode hd, unpack_of_decode hd']
  by_cases hzero : d.mantissa = 0 <;> by_cases hzero' : d'.mantissa = 0
  · rw [unpacked_zero hzero, unpacked_zero hzero', d.value_eq_zero_iff.2 hzero, d'.value_eq_zero_iff.2 hzero']
    rfl
  · have hpos := Dyadic.magnitude_pos hzero'
    rw [unpacked_zero hzero, unpacked_finite hzero', d.value_eq_zero_iff.2 hzero, d'.value_eq]
    cases d'.negative
    · exact congrArg some (compare_lt_iff_lt.2 hpos).symm
    · exact congrArg some (compare_gt_iff_gt.2 (neg_neg_of_pos hpos)).symm
  · have hpos := Dyadic.magnitude_pos hzero
    rw [unpacked_finite hzero, unpacked_zero hzero', d'.value_eq_zero_iff.2 hzero', d.value_eq]
    cases d.negative
    · exact congrArg some (compare_gt_iff_gt.2 hpos).symm
    · exact congrArg some (compare_lt_iff_lt.2 (neg_neg_of_pos hpos)).symm
  · have hpos := Dyadic.magnitude_pos hzero
    have hpos' := Dyadic.magnitude_pos hzero'
    rw [unpacked_finite hzero, unpacked_finite hzero', d.value_eq, d'.value_eq]
    cases d.negative <;> cases d'.negative
    · exact congrArg some hmagnitude
    · exact congrArg some (compare_gt_iff_gt.2 ((neg_neg_of_pos hpos').trans hpos)).symm
    · exact congrArg some (compare_lt_iff_lt.2 ((neg_neg_of_pos hpos).trans hpos')).symm
    · rw [if_pos rfl, if_pos rfl, compare_neg_neg, ← hmagnitude]
      rfl

theorem le_iff {x y : Float} {p q : ℚ} (hx : value? x = some p) (hy : value? y = some q) : x ≤ y ↔ p ≤ q := by
  change decide (x.toModel.unpack.le y.toModel.unpack = true) = true ↔ p ≤ q
  rw [decide_eq_true_eq, UnpackedFloat.le, compare_unpack hx hy, Option.any_some, Ordering.isLE_iff_ne_gt]
  exact compare_le_iff_le

theorem ofInt_le_iff {i j : Int} (hi : i.natAbs < 2 ^ 53) (hj : j.natAbs < 2 ^ 53) : ofInt i ≤ ofInt j ↔ i ≤ j := by
  rw [le_iff (value?_ofInt hi) (value?_ofInt hj), Int.cast_le]

/-! ## Differences and absolute values -/

/-- A finite double less itself is zero. -/
theorem difference_self {x : Float} {d : Dyadic} (h : decode x = some d) : x - x = 0.0 := by
  have hzero : (0.0 : Float) = Float.ofModel (Float.Model.pack (.zero .positive)) := by decide +kernel
  change Float.ofModel (Float.Model.pack (UnpackedFloat.sub Format.binary64 x.toModel.unpack x.toModel.unpack)) = _
  rw [hzero, unpack_of_decode h]
  congr 2
  by_cases hm : d.mantissa = 0
  · rw [unpacked_zero hm]
    cases d.negative <;> rfl
  · rw [unpacked_finite hm]
    simp only [UnpackedFloat.sub, sub_self]
    rfl

/-- The absolute value of a finite double is the double with a plus sign. -/
theorem abs_eq {x y : Float} {d : Dyadic} (hx : decode x = some d) (hy : decode y = some { d with negative := false }) :
    x.abs = y := by
  refine ofModel_pack ?_
  rw [unpack_of_decode hx, unpack_of_decode hy]
  by_cases hm : d.mantissa = 0
  · rw [unpacked_zero hm, unpacked_zero (d := { d with negative := false }) hm]
    rfl
  · rw [unpacked_finite hm, unpacked_finite (d := { d with negative := false }) hm]
    rfl

end Number

end ScriptEngine
