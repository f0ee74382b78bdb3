import Mathlib
import ScriptEngine.Proofs.Comparison

/-!
# Operations on doubles

The sum, the product and the quotient of two finite doubles are the exact ones, rounded. An operation keeps a mantissa of
its exact result, and of what lies behind it only whether that is nothing, less than a half, a half or more. Shifting the
mantissa keeps that promise, and it is all that rounding needs. Once more it is shifted if rounding has made it a power of
two. So the result is the double that reaches the exact number, and it is no farther from it than half a last place.

## Main definitions

* `Number.Stands`: the numbers that a mantissa with a round bit and a sticky bit stands for.
* `Number.RoundsTo`: the doubles that a number is rounded to.

## Main results

* `Number.rounds_roundWithAccuracy`: an operation that keeps enough of a number rounds it.
* `Number.roundsTo_add`, `Number.roundsTo_mul`, `Number.roundsTo_div`: what the operations on finite doubles are.
* `Number.RoundsTo.near`: how far a result is from the exact one.
* `Number.roundToEven_eq`: the whole numbers that doubles near them are rounded to.
-/

namespace ScriptEngine

open Float.Model Float.Model.UnpackedFloat

namespace Number

/-! ## Mantissas with a rest -/

/-- The numbers that a mantissa with a round bit and a sticky bit stands for. The round bit is a half, and the sticky bit
says that there is more, up to another half. -/
def Stands (em : ExtendedMantissa) (y : ℚ) : Prop :=
  let known : ℚ := em.mantissa + if em.roundBit then 1 / 2 else 0
  if em.stickyBit then known < y ∧ y < known + 1 / 2 else y = known

/-- The last bit becomes the round bit, and what was behind it sticks. -/
theorem Stands.shiftRightOne {em : ExtendedMantissa} {y : ℚ} (h : Stands em y) : Stands em.shiftRightOne (y / 2) := by
  obtain ⟨m, round, sticky⟩ := em
  have hm : (m : ℚ) = 2 * (m / 2 : Nat) + (m % 2 : Nat) := by exact_mod_cast (Nat.div_add_mod m 2).symm
  rcases Nat.mod_two_eq_zero_or_one m with hbit | hbit <;> rw [hbit] at hm <;> push_cast at hm <;>
    cases round <;> cases sticky <;>
    simp only [Stands, ExtendedMantissa.shiftRightOne, hbit, bne_self_eq_false, Nat.one_ne_zero, bne_iff_ne, ne_eq,
      not_false_eq_true, Bool.or_self, Bool.or_true, Bool.or_false, if_true, Bool.false_eq_true, if_false] at h ⊢ <;>
    first
      | linarith
      | constructor <;> linarith

theorem Stands.shiftRight {em : ExtendedMantissa} {y : ℚ} (h : Stands em y) (n : Nat) :
    Stands (em >>> n) (y / 2 ^ n) := by
  change Stands (n.repeat ExtendedMantissa.shiftRightOne em) _
  induction n with
  | zero =>
    rw [pow_zero, div_one]
    exact h
  | succ n ih =>
    rw [pow_succ, ← div_div]
    exact ih.shiftRightOne

/-- The two bits are enough to round. -/
theorem Stands.halfEven {em : ExtendedMantissa} {y : ℚ} (h : Stands em y) : HalfEven y em.roundedMantissa := by
  obtain ⟨m, round, sticky⟩ := em
  cases round <;> cases sticky <;> simp only [Stands, if_true, Bool.false_eq_true, if_false] at h
  · change HalfEven y m
    exact ⟨by linarith, by linarith, fun _ => ⟨by linarith, by linarith⟩⟩
  · change HalfEven y m
    exact ⟨by linarith, by linarith, fun _ => ⟨by linarith, by linarith⟩⟩
  · change HalfEven y (m + m % 2)
    rcases Nat.mod_two_eq_zero_or_one m with hbit | hbit <;> rw [hbit]
    · exact ⟨by push_cast; linarith, by push_cast; linarith, fun hodd => by omega⟩
    · exact ⟨by push_cast; linarith, by push_cast; linarith, fun hodd => by omega⟩
  · change HalfEven y (m + 1)
    exact ⟨by push_cast; linarith, by push_cast; linarith, fun _ => ⟨by push_cast; linarith, by push_cast; linarith⟩⟩

/-- The rest is less than one. -/
theorem Stands.bounds {m : Nat} {acc : Accuracy} {y : ℚ} (h : Stands (.ofMantissaAndAccuracy m acc) y) :
    m ≤ y ∧ y < m + 1 := by
  rcases acc with _ | _ | _ | _ <;>
    simp only [Stands, ExtendedMantissa.ofMantissaAndAccuracy, if_true, Bool.false_eq_true, if_false] at h <;>
    constructor <;> linarith

theorem stands_exact (m : Nat) : Stands (.ofMantissaAndAccuracy m .exact) m := by
  simp [Stands, ExtendedMantissa.ofMantissaAndAccuracy]

/-- A division with a remainder, compared with half of the divisor. -/
theorem stands_fraction (n : Nat) {d : Nat} (hd : d ≠ 0) :
    Stands (.ofMantissaAndAccuracy (n / d) (accuracyOfFraction (n % d) d)) (n / d) := by
  have hpos : (0 : ℚ) < d := by positivity
  have hless : ((n % d : Nat) : ℚ) / d < 1 := (div_lt_one hpos).2 (Nat.cast_lt.2 (Nat.mod_lt _ (Nat.pos_of_ne_zero hd)))
  have hn : (n : ℚ) / d = (n / d : Nat) + (n % d : Nat) / d := by
    rw [add_div' _ _ _ hpos.ne', mul_comm]
    exact_mod_cast congrArg (fun k : Nat => (k : ℚ) / d) (Nat.div_add_mod n d).symm
  rw [hn, accuracyOfFraction]
  generalize n / d = q
  generalize n % d = r at *
  split
  case isTrue hzero => simp [Stands, ExtendedMantissa.ofMantissaAndAccuracy, hzero]
  case isFalse hzero =>
    have hsome : 0 < (r / d : ℚ) := by positivity
    rcases lt_trichotomy (2 * r) d with hlt | heq | hgt
    · have hbelow : (r / d : ℚ) < 1 / 2 := by
        rw [div_lt_div_iff₀ hpos two_pos, one_mul, mul_comm]
        exact_mod_cast hlt
      rw [compare_lt_iff_lt.2 hlt]
      simp only [Stands, ExtendedMantissa.ofMantissaAndAccuracy, if_true, Bool.false_eq_true, if_false]
      constructor <;> linarith
    · have hhalf : (r / d : ℚ) = 1 / 2 := by
        rw [div_eq_div_iff hpos.ne' two_ne_zero, one_mul, mul_comm]
        exact_mod_cast heq
      rw [compare_eq_iff_eq.2 heq, hhalf]
      simp [Stands, ExtendedMantissa.ofMantissaAndAccuracy]
    · have habove : 1 / 2 < (r / d : ℚ) := by
        rw [div_lt_div_iff₀ two_pos hpos, one_mul, mul_comm]
        exact_mod_cast hgt
      rw [compare_gt_iff_gt.2 hgt]
      simp only [Stands, ExtendedMantissa.ofMantissaAndAccuracy, if_true]
      constructor <;> linarith

/-! ## Rounding what an operation keeps -/

theorem targetExponent_eq (m : Nat) (e : Int) :
    Format.binary64.targetExponent (totalExponent m e) = max ((m.log2 : Int) + 1 + e - 53) (-1074) := rfl

/-- The exponent that an operation shifts a number to. -/
theorem hasExponent_target {m : Nat} {e : Int} {y : ℚ} (hlow : m ≤ y) (hhigh : y < m + 1) (hm : m ≠ 0 ∨ e ≤ -1074) :
    HasExponent (y * 2 ^ e) (Format.binary64.targetExponent (totalExponent m e)) := by
  have hpos : (0 : ℚ) < 2 ^ e := by positivity
  rw [targetExponent_eq]
  rcases Nat.eq_zero_or_pos m with rfl | hm
  · have hle : ((Nat.log2 0 : Nat) : Int) + 1 + e - 53 ≤ -1074 := by
      rw [Nat.log2_zero]
      omega
    rw [max_eq_right hle]
    refine ⟨?_, .inr rfl, le_rfl⟩
    have hleast : (2 : ℚ) ^ e ≤ 2 ^ (-1074 : Int) := zpow_le_zpow_right₀ one_le_two (hm.resolve_left fun h => h rfl)
    calc y * 2 ^ e < 1 * 2 ^ e := mul_lt_mul_of_pos_right (by simpa using hhigh) hpos
      _ ≤ 2 ^ 53 * 2 ^ (-1074 : Int) := mul_le_mul (by norm_num) hleast hpos.le (by norm_num)
  · have hlow' : (2 : ℚ) ^ m.log2 ≤ y := le_trans (by exact_mod_cast Nat.log2_self_le hm.ne') hlow
    have hhigh' : y < 2 ^ (m.log2 + 1) := hhigh.trans_le (by exact_mod_cast Nat.lt_log2_self)
    have hsum : ((53 : Nat) : Int) + ((m.log2 : Int) + 1 + e - 53) = (m.log2 + 1 : Nat) + e := by
      push_cast
      ring
    have hsum' : ((52 : Nat) : Int) + ((m.log2 : Int) + 1 + e - 53) = m.log2 + e := by
      push_cast
      ring
    refine hasExponent_max ?_ ?_
    · rw [two_pow_mul_zpow, hsum, ← two_pow_mul_zpow]
      exact mul_lt_mul_of_pos_right hhigh' hpos
    · rw [two_pow_mul_zpow, hsum', ← two_pow_mul_zpow]
      exact mul_le_mul_of_nonneg_right hlow' hpos.le

/-- A mantissa of 53 bits is left alone, and the next power of two is shifted once. -/
theorem shiftToTargetExponent_carried (negative : Bool) {m : Nat} {e : Int} (hm : m ≤ 2 ^ 53) (he : -1074 ≤ e) :
    shiftToTargetExponent Format.binary64 m e .exact =
      (⟨(Dyadic.carried negative m e).mantissa, false, false⟩, (Dyadic.carried negative m e).exponent) := by
  rcases hm.lt_or_eq with hlt | rfl
  · have hlog : m.log2 ≤ 52 := by
      by_cases hzero : m = 0
      · rw [hzero, Nat.log2_zero]
        omega
      · exact Nat.lt_succ_iff.1 ((Nat.log2_lt hzero).2 hlt)
    have hshift : (Format.binary64.targetExponent (totalExponent m e) - e).toNat = 0 := by
      rw [targetExponent_eq]
      omega
    simp only [shiftToTargetExponent, shiftToExponent, hshift, Dyadic.carried, if_pos hlt, Nat.cast_zero, add_zero]
    rfl
  · have hlog : (2 ^ 53).log2 = 53 := Nat.log2_two_pow
    have hshift : (Format.binary64.targetExponent (totalExponent (2 ^ 53) e) - e).toNat = 1 := by
      rw [targetExponent_eq, hlog]
      omega
    simp only [shiftToTargetExponent, shiftToExponent, hshift, Dyadic.carried, lt_irrefl, if_false]
    rfl

/-- An operation that keeps enough of a number rounds it. -/
theorem rounds_roundWithAccuracy (negative : Bool) {m : Nat} {e : Int} {acc : Accuracy} {y : ℚ}
    (hy : Stands (.ofMantissaAndAccuracy m acc) y) (hm : m ≠ 0 ∨ e ≤ -1074)
    (he : e ≤ Format.binary64.targetExponent (totalExponent m e)) :
    Rounds negative (y * 2 ^ e) (Float.ofModel (Float.Model.pack
      (roundWithAccuracy Format.binary64 (modelSign negative) m e acc))) := by
  have hexponent := hasExponent_target hy.bounds.1 hy.bounds.2 hm
  generalize htarget : Format.binary64.targetExponent (totalExponent m e) = target at hexponent he
  obtain ⟨s, rfl⟩ := Int.le.dest he
  have hshift : (e + s - e).toNat = s := by omega
  have hscale : y * 2 ^ e / 2 ^ (e + s) = y / 2 ^ s := by
    rw [zpow_add₀ two_ne_zero, zpow_natCast, mul_comm, mul_div_mul_left _ _ (by positivity)]
  have hround : HalfEven (y * 2 ^ e / 2 ^ (e + s)) (ExtendedMantissa.ofMantissaAndAccuracy m acc >>> s).roundedMantissa :=
    hscale ▸ (hy.shiftRight s).halfEven
  have hfirst : shiftToTargetExponent Format.binary64 m e acc =
      (ExtendedMantissa.ofMantissaAndAccuracy m acc >>> s, e + s) := by
    simp only [shiftToTargetExponent, shiftToExponent, htarget, hshift]
  have hsecond := shiftToTargetExponent_carried negative (hexponent.halfEven_le hround) hexponent.least
  have hresult : roundWithAccuracy Format.binary64 (modelSign negative) m e acc = unpacked (.carried negative
      (ExtendedMantissa.ofMantissaAndAccuracy m acc >>> s).roundedMantissa (e + s)) := by
    rw [roundWithAccuracy, hfirst]
    simp only [hsecond, unpacked, Dyadic.negative_carried]
  rw [hresult]
  rcases reaches_carried negative hexponent hround with ⟨hcanonical, hreaches⟩ | ⟨hfull, hlarge, hover⟩
  · exact .finite (decode_pack hcanonical) (Dyadic.negative_carried ..) hreaches
  · exact .overflown (decode_pack_infinite hfull hlarge) hover

/-- The zero with a sign rounds zero. -/
theorem rounds_pack_zero (negative : Bool) :
    Rounds negative 0 (Float.ofModel (Float.Model.pack (.zero (modelSign negative)))) := by
  have hcanonical : (⟨negative, 0, -1074⟩ : Dyadic).Canonical := ⟨by norm_num, .inr rfl, le_rfl, by norm_num⟩
  have hdecode := decode_pack hcanonical
  rw [unpacked_zero rfl] at hdecode
  exact .finite hdecode rfl (reaches_zero negative le_rfl (by positivity))

/-! ## Products and quotients -/

/-- A product has as many bits as the larger factor, at least. -/
theorem le_targetExponent_mul {a b : Dyadic} (ha : a.Canonical) (hb : b.Canonical) (hm : a.mantissa * b.mantissa ≠ 0) :
    a.exponent + b.exponent ≤
      Format.binary64.targetExponent (totalExponent (a.mantissa * b.mantissa) (a.exponent + b.exponent)) := by
  obtain ⟨hma, hmb⟩ := Nat.mul_ne_zero_iff.1 hm
  have hbits (h : 2 ^ 52 ≤ a.mantissa ∨ 2 ^ 52 ≤ b.mantissa) : 52 ≤ (a.mantissa * b.mantissa).log2 := by
    rw [Nat.le_log2 hm]
    rcases h with h | h
    · exact h.trans (Nat.le_mul_of_pos_right _ (Nat.pos_of_ne_zero hmb))
    · exact h.trans (Nat.le_mul_of_pos_left _ (Nat.pos_of_ne_zero hma))
  rw [targetExponent_eq]
  rcases ha.full with hfull | hleast
  · have := hbits (.inl hfull)
    omega
  rcases hb.full with hfull | hleast'
  · have := hbits (.inr hfull)
    omega
  · omega

theorem rounds_mul {x y : Float} {a b : Dyadic} (hx : decode x = some a) (hy : decode y = some b) :
    Rounds (a.negative ^^ b.negative) (a.magnitude * b.magnitude) (x * y) := by
  have hsigns : modelSign a.negative * modelSign b.negative = modelSign (a.negative ^^ b.negative) := by
    cases a.negative <;> cases b.negative <;> rfl
  change Rounds _ _ (Float.ofModel (Float.Model.pack
    (UnpackedFloat.mul Format.binary64 x.toModel.unpack y.toModel.unpack)))
  rw [unpack_of_decode hx, unpack_of_decode hy]
  by_cases hm : a.mantissa = 0
  · have hresult : UnpackedFloat.mul Format.binary64 (unpacked a) (unpacked b) =
        .zero (modelSign (a.negative ^^ b.negative)) := by
      rw [unpacked_zero hm, ← hsigns, unpacked]
      split <;> rfl
    rw [hresult, Dyadic.magnitude_eq_zero hm, zero_mul]
    exact rounds_pack_zero _
  by_cases hm' : b.mantissa = 0
  · rw [unpacked_finite hm, unpacked_zero hm', UnpackedFloat.mul, hsigns, Dyadic.magnitude_eq_zero hm', mul_zero]
    exact rounds_pack_zero _
  · have hproduct : a.magnitude * b.magnitude = (a.mantissa * b.mantissa : Nat) * 2 ^ (a.exponent + b.exponent) := by
      rw [Dyadic.magnitude, Dyadic.magnitude, zpow_add₀ two_ne_zero]
      push_cast
      ring
    have hpos : a.mantissa * b.mantissa ≠ 0 := Nat.mul_ne_zero hm hm'
    rw [unpacked_finite hm, unpacked_finite hm', UnpackedFloat.mul, hsigns, hproduct]
    exact rounds_roundWithAccuracy _ (stands_exact _) (.inl hpos)
      (le_targetExponent_mul (canonical_of_decode hx) (canonical_of_decode hy) hpos)

/-- A quotient is taken to as many bits as rounding needs. -/
theorem divCore_bounds {m m' : Nat} (hm : m ≠ 0) (hm' : m' ≠ 0) (e e' : Int) :
    ∃ s : Nat, divCore Format.binary64 m e m' e' =
        (m * 2 ^ s / m', e - e' - s, accuracyOfFraction (m * 2 ^ s % m') m') ∧
      (m * 2 ^ s / m' ≠ 0 ∨ e - e' - s ≤ -1074) ∧
      e - e' - s ≤ Format.binary64.targetExponent (totalExponent (m * 2 ^ s / m') (e - e' - s)) := by
  have htarget : Format.binary64.targetExponent (totalExponent m e - totalExponent m' e') =
      max ((m.log2 : Int) + 1 + e - (m'.log2 + 1 + e') - 53) (-1074) := rfl
  generalize hleast : min (e - e') (Format.binary64.targetExponent (totalExponent m e - totalExponent m' e')) = least
  have hle : least ≤ e - e' := hleast ▸ min_le_left _ _
  obtain ⟨s, hs⟩ := Int.le.dest hle
  have hshift : (e - e' - least).toNat = s := by omega
  have hback : e - e' - s = least := by omega
  rw [htarget] at hleast
  refine ⟨s, by simp only [divCore, htarget, hleast, hshift, hback, Nat.shiftLeft_eq], ?_⟩
  rw [hback, targetExponent_eq]
  by_cases hbits : m'.log2 + 1 ≤ m.log2 + s
  · -- The quotient has at least as many bits as the logarithms say.
    have hquotient : 2 ^ (m.log2 + s - (m'.log2 + 1)) ≤ m * 2 ^ s / m' := by
      rw [Nat.le_div_iff_mul_le (Nat.pos_of_ne_zero hm')]
      calc 2 ^ (m.log2 + s - (m'.log2 + 1)) * m' ≤ 2 ^ (m.log2 + s - (m'.log2 + 1)) * 2 ^ (m'.log2 + 1) :=
            Nat.mul_le_mul_left _ Nat.lt_log2_self.le
        _ = 2 ^ m.log2 * 2 ^ s := by rw [← pow_add, Nat.sub_add_cancel hbits, pow_add]
        _ ≤ m * 2 ^ s := Nat.mul_le_mul_right _ (Nat.log2_self_le hm)
    have hpos : m * 2 ^ s / m' ≠ 0 := (Nat.lt_of_lt_of_le (by positivity) hquotient).ne'
    have hlog := (Nat.le_log2 hpos).2 hquotient
    exact ⟨.inl hpos, by omega⟩
  · -- Otherwise the exponent is the least.
    exact ⟨.inr (by omega), by omega⟩

theorem rounds_div {x y : Float} {a b : Dyadic} (hx : decode x = some a) (hy : decode y = some b) (hb : b.mantissa ≠ 0) :
    Rounds (a.negative ^^ b.negative) (a.magnitude / b.magnitude) (x / y) := by
  have hsigns : modelSign a.negative / modelSign b.negative = modelSign (a.negative ^^ b.negative) := by
    cases a.negative <;> cases b.negative <;> rfl
  change Rounds _ _ (Float.ofModel (Float.Model.pack
    (UnpackedFloat.div Format.binary64 x.toModel.unpack y.toModel.unpack)))
  rw [unpack_of_decode hx, unpack_of_decode hy]
  by_cases hm : a.mantissa = 0
  · rw [unpacked_zero hm, unpacked_finite hb, UnpackedFloat.div, hsigns, Dyadic.magnitude_eq_zero hm, zero_div]
    exact rounds_pack_zero _
  · obtain ⟨s, hcore, hpos, htarget⟩ := divCore_bounds hm hb a.exponent b.exponent
    have hquotient : a.magnitude / b.magnitude =
        (a.mantissa * 2 ^ s : Nat) / b.mantissa * 2 ^ (a.exponent - b.exponent - s) := by
      rw [Dyadic.magnitude, Dyadic.magnitude, zpow_sub₀ two_ne_zero, zpow_sub₀ two_ne_zero, zpow_natCast]
      push_cast
      field_simp
    rw [unpacked_finite hm, unpacked_finite hb, UnpackedFloat.div, hsigns, hcore, hquotient]
    exact rounds_roundWithAccuracy _ (stands_fraction _ hb) hpos htarget

/-- A whole mantissa is rounded after zeros are put behind it. -/
theorem rounds_round (negative : Bool) {m : Nat} (hm : m ≠ 0) (e : Int) :
    Rounds negative (m * 2 ^ e) (Float.ofModel (Float.Model.pack
      (UnpackedFloat.round Format.binary64 (modelSign negative) m e))) := by
  generalize hs : (e - Format.binary64.targetExponent (totalExponent m e)).toNat = s
  have hlog : (m * 2 ^ s).log2 = m.log2 + s := by
    have hlow := Nat.log2_self_le hm
    have hhigh : m < 2 ^ (m.log2 + 1) := Nat.lt_log2_self
    rw [Nat.log2_eq_iff (by positivity), Nat.add_right_comm, pow_add, pow_add 2 (m.log2 + 1)]
    exact ⟨Nat.mul_le_mul_right _ hlow, Nat.mul_lt_mul_of_pos_right hhigh (by positivity)⟩
  have hvalue : (m : ℚ) * 2 ^ e = (m * 2 ^ s : Nat) * 2 ^ (e - s) := by
    rw [zpow_sub₀ two_ne_zero, zpow_natCast]
    push_cast
    field_simp
  have hpos : m * 2 ^ s ≠ 0 := by positivity
  have hle : e - s ≤ Format.binary64.targetExponent (totalExponent (m * 2 ^ s) (e - s)) := by
    rw [targetExponent_eq] at hs ⊢
    omega
  have hround := rounds_roundWithAccuracy negative (stands_exact (m * 2 ^ s)) (.inl hpos) hle
  rw [hvalue]
  simpa only [UnpackedFloat.round, decreaseExponent, hs, Nat.shiftLeft_eq] using hround

/-! ## Sums -/

/-- The doubles that a number is rounded to: its magnitude is rounded with its sign, and zero has both signs. -/
def RoundsTo (v : ℚ) (x : Float) : Prop :=
  ∃ negative q, 0 ≤ q ∧ v = (if negative then -q else q) ∧ Rounds negative q x

/-- A finite double is what its own value is rounded to. -/
theorem roundsTo_self {x : Float} {p : ℚ} (hx : value? x = some p) : RoundsTo p x := by
  obtain ⟨d, hd, rfl⟩ := Option.map_eq_some_iff.1 hx
  exact ⟨d.negative, d.magnitude, d.magnitude_nonneg, d.value_eq, .finite hd rfl d.reaches_magnitude⟩

/-- A whole mantissa with a sign is rounded. -/
theorem roundsTo_normalize (i : Int) (e : Int) :
    RoundsTo (i * 2 ^ e) (Float.ofModel (Float.Model.pack (normalize Format.binary64 i e .positive))) := by
  have hpos : (0 : ℚ) < 2 ^ e := by positivity
  rcases lt_trichotomy i 0 with hneg | rfl | hpos
  · obtain ⟨n, hn⟩ := Int.eq_ofNat_of_zero_le (show 0 ≤ -i by omega)
    obtain rfl : i = -(n : Int) := by omega
    refine ⟨true, n * 2 ^ e, by positivity, by simp, ?_⟩
    rw [UnpackedFloat.normalize, compare_lt_iff_lt.2 hneg, Int.neg_neg, Int.toNat_natCast]
    exact rounds_round true (m := n) (by omega) e
  · refine ⟨false, 0, le_rfl, by simp, rounds_pack_zero false⟩
  · obtain ⟨n, rfl⟩ := Int.eq_ofNat_of_zero_le hpos.le
    refine ⟨false, n * 2 ^ e, by positivity, by simp, ?_⟩
    rw [UnpackedFloat.normalize, compare_gt_iff_gt.2 hpos]
    exact rounds_round false (m := n) (by omega) e

/-- A number at a lower exponent. -/
theorem value_eq_apply (d : Dyadic) {e : Int} (he : e ≤ d.exponent) :
    d.value = ((modelSign d.negative).apply (d.mantissa <<< (d.exponent - e).toNat : Nat) : Int) * 2 ^ e := by
  obtain ⟨s, hs⟩ := Int.le.dest he
  have hshift : (d.exponent - e).toNat = s := by omega
  have hmagnitude : d.magnitude = (d.mantissa * 2 ^ s : Nat) * 2 ^ e := by
    rw [Dyadic.magnitude, ← hs, zpow_add₀ two_ne_zero, zpow_natCast]
    push_cast
    ring
  rw [hshift, Nat.shiftLeft_eq, d.value_eq, hmagnitude]
  cases d.negative
  · simp [modelSign, Sign.apply]
  · simp [modelSign, Sign.apply]

/-- The sum of finite doubles is the exact one, rounded. -/
theorem roundsTo_add {x y : Float} {p q : ℚ} (hx : value? x = some p) (hy : value? y = some q) :
    RoundsTo (p + q) (x + y) := by
  obtain ⟨a, ha, rfl⟩ := Option.map_eq_some_iff.1 hx
  obtain ⟨b, hb, rfl⟩ := Option.map_eq_some_iff.1 hy
  change RoundsTo _ (Float.ofModel (Float.Model.pack
    (UnpackedFloat.add Format.binary64 x.toModel.unpack y.toModel.unpack)))
  by_cases hm : a.mantissa = 0 <;> by_cases hm' : b.mantissa = 0
  · rw [unpack_of_decode ha, unpack_of_decode hb, unpacked_zero hm, unpacked_zero hm', a.value_eq_zero_iff.2 hm,
      b.value_eq_zero_iff.2 hm', add_zero]
    obtain ⟨negative, hsum⟩ : ∃ negative, UnpackedFloat.add Format.binary64 (.zero (modelSign a.negative))
        (.zero (modelSign b.negative)) = .zero (modelSign negative) := by
      cases a.negative <;> cases b.negative
      · exact ⟨false, rfl⟩
      · exact ⟨false, rfl⟩
      · exact ⟨false, rfl⟩
      · exact ⟨true, rfl⟩
    rw [hsum]
    exact ⟨negative, 0, le_rfl, by simp, rounds_pack_zero negative⟩
  · have hsum : UnpackedFloat.add Format.binary64 x.toModel.unpack y.toModel.unpack = y.toModel.unpack := by
      rw [unpack_of_decode ha, unpack_of_decode hb, unpacked_zero hm, unpacked_finite hm', UnpackedFloat.add] <;> simp
    rw [hsum, ofModel_pack rfl, a.value_eq_zero_iff.2 hm, zero_add]
    exact roundsTo_self hy
  · have hsum : UnpackedFloat.add Format.binary64 x.toModel.unpack y.toModel.unpack = x.toModel.unpack := by
      rw [unpack_of_decode ha, unpack_of_decode hb, unpacked_finite hm, unpacked_zero hm', UnpackedFloat.add] <;> simp
    rw [hsum, ofModel_pack rfl, b.value_eq_zero_iff.2 hm', add_zero]
    exact roundsTo_self hx
  · rw [unpack_of_decode ha, unpack_of_decode hb, unpacked_finite hm, unpacked_finite hm', UnpackedFloat.add,
      value_eq_apply a (min_le_left a.exponent b.exponent), value_eq_apply b (min_le_right a.exponent b.exponent),
      ← add_mul, ← Int.cast_add]
    exact roundsTo_normalize _ _

/-- The product of finite doubles is the exact one, rounded. -/
theorem roundsTo_mul {x y : Float} {p q : ℚ} (hx : value? x = some p) (hy : value? y = some q) :
    RoundsTo (p * q) (x * y) := by
  obtain ⟨a, ha, rfl⟩ := Option.map_eq_some_iff.1 hx
  obtain ⟨b, hb, rfl⟩ := Option.map_eq_some_iff.1 hy
  refine ⟨_, _, mul_nonneg a.magnitude_nonneg b.magnitude_nonneg, ?_, rounds_mul ha hb⟩
  rw [a.value_eq, b.value_eq]
  cases a.negative <;> cases b.negative <;> simp

/-- The quotient of finite doubles is the exact one, rounded. -/
theorem roundsTo_div {x y : Float} {p q : ℚ} (hx : value? x = some p) (hy : value? y = some q) (hq : q ≠ 0) :
    RoundsTo (p / q) (x / y) := by
  obtain ⟨a, ha, rfl⟩ := Option.map_eq_some_iff.1 hx
  obtain ⟨b, hb, rfl⟩ := Option.map_eq_some_iff.1 hy
  have hm : b.mantissa ≠ 0 := fun h => hq (b.value_eq_zero_iff.2 h)
  refine ⟨_, _, div_nonneg a.magnitude_nonneg b.magnitude_nonneg, ?_, rounds_div ha hb hm⟩
  rw [a.value_eq, b.value_eq]
  cases a.negative <;> cases b.negative <;> simp [neg_div, div_neg]

/-! ## How near a result is -/

theorem abs_intCast_lt {i : Int} {n : Nat} (h : i.natAbs < 2 ^ n) : |(i : ℚ)| < 2 ^ n := by
  rw [← Int.cast_abs, ← Nat.cast_natAbs]
  exact_mod_cast h

/-- A double is within half a last place of what it reaches. -/
theorem dist_le_of_reaches {d : Dyadic} {q : ℚ} (h : d.Reaches q) : |d.magnitude - q| ≤ 2 ^ d.exponent / 2 := by
  have hpos : (0 : ℚ) < 2 ^ d.exponent := by positivity
  have hlow : (d.mantissa - 1 / 2) * 2 ^ d.exponent ≤ q :=
    le_trans (mul_le_mul_of_nonneg_right (by linarith [d.below_le]) hpos.le) h.low
  have hhigh : q ≤ (d.mantissa + 1 / 2) * 2 ^ d.exponent := h.high
  rw [Dyadic.magnitude, abs_le]
  constructor <;> linarith

/-- A number of up to 52 bits before a place has a result within half of that place. -/
theorem RoundsTo.near {v : ℚ} {x : Float} (h : RoundsTo v x) {k : Int} (hleast : -1074 ≤ k) (hgreatest : k ≤ 971)
    (hv : |v| ≤ 2 ^ 52 * 2 ^ k) : ∃ r, value? x = some r ∧ |r - v| ≤ 2 ^ k / 2 := by
  obtain ⟨negative, q, hq, rfl, hround⟩ := h
  have hsign : |if negative then -q else q| = q := by
    cases negative
    · simpa using hq
    · simpa using hq
  rw [hsign] at hv
  cases hround with
  | overflown hdecode hlarge =>
    have hpower : (2 : ℚ) ^ k ≤ 2 ^ (971 : Int) := zpow_le_zpow_right₀ one_le_two hgreatest
    have hfactor : (2 ^ 52 : ℚ) < 2 ^ 53 - 1 / 2 := by norm_num
    have hless : (2 ^ 52 * 2 ^ k : ℚ) < overflow :=
      (mul_le_mul_of_nonneg_left hpower (by norm_num)).trans_lt (mul_lt_mul_of_pos_right hfactor (by positivity))
    exact absurd (hlarge.trans hv) hless.not_ge
  | @finite d hdecode hnegative hreaches =>
    -- A larger exponent would put the whole reach above the number.
    have hexponent : d.exponent ≤ k := by
      by_contra hgt
      have hfull := Dyadic.least_sub_le (canonical_of_decode hdecode) (by omega)
      have hpower : (2 : ℚ) ^ (k + 1) ≤ 2 ^ d.exponent := zpow_le_zpow_right₀ one_le_two (by omega)
      rw [zpow_add_one₀ two_ne_zero] at hpower
      have hlower : (2 ^ 52 - 1 / 4 : ℚ) * (2 ^ k * 2) ≤ q :=
        (mul_le_mul hfull hpower (by positivity) (le_trans (by norm_num) hfull)).trans hreaches.low
      have hpos : (0 : ℚ) < 2 ^ k := by positivity
      linarith
    have hdist : |d.magnitude - q| ≤ 2 ^ k / 2 :=
      (dist_le_of_reaches hreaches).trans (by gcongr; norm_num)
    refine ⟨d.value, by rw [value?, hdecode]; rfl, ?_⟩
    rw [d.value_eq, hnegative]
    cases negative
    · exact hdist
    · rw [if_pos rfl, if_pos rfl, ← abs_neg]
      convert hdist using 2
      ring

/-- A double is within a half of the whole number that it is rounded to. -/
theorem roundToEven_near {x : Float} {r : ℚ} (hx : value? x = some r) : |r - roundToEven x| ≤ 1 / 2 := by
  obtain ⟨d, hd, rfl⟩ := Option.map_eq_some_iff.1 hx
  have hround := halfEven_roundHalfEven d.ratio.1 d.ratio_snd_pos.ne'
  rw [d.ratio_eq] at hround
  have hdist : |d.magnitude - roundHalfEven d.ratio.1 d.ratio.2| ≤ 1 / 2 := by
    rw [Dyadic.magnitude, abs_le]
    constructor <;> linarith [hround.low, hround.high]
  rw [d.value_eq]
  simp only [roundToEven, hd]
  cases d.negative
  · simpa using hdist
  · rw [abs_sub_comm] at hdist
    simpa [neg_add_eq_sub] using hdist

/-- A double that is nearer than half to a whole number is rounded to that number. -/
theorem roundToEven_eq {x : Float} {r : ℚ} {t : Int} (hx : value? x = some r) (h : |r - t| < 1 / 2) :
    roundToEven x = t := by
  have hround := abs_le.1 (roundToEven_near hx)
  have hnear := abs_lt.1 h
  have hless : |((roundToEven x - t : Int) : ℚ)| < 1 := by
    rw [abs_lt]
    push_cast
    constructor <;> linarith
  have hzero : roundToEven x - t = 0 := Int.abs_lt_one_iff.1 (by exact_mod_cast hless)
  omega

end Number

end ScriptEngine
