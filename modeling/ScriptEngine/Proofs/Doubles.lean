import Mathlib
import ScriptEngine.Number.Binary

/-!
# Integers as doubles

The bits of a double that is neither infinite nor NaN are kept when the double is made from them, so
`Number.decode` sees what `Number.nearest` wrote. For an integer of a magnitude up to `2 ^ 53` nothing is
rounded: the double nearest to it is the integer itself.

## Main definitions

* `Number.value?`: the rational number that a double is.
* `Number.towardZero`: a rational number without its fraction.

## Main results

* `Number.toBits_ofBits`: the bits of finite doubles.
* `Number.decode_nearest`: the double of an integer as an exact number.
* `Number.truncate_ofNat`, `Number.isInteger_ofNat`: so it is an integer, and which.
* `Number.truncate?_eq`, `Number.value?_ofInt`: integer parts and integers as rational numbers.
-/

namespace ScriptEngine

namespace Number

open Float.Model Float.Model.UnpackedFloat

/-! ## Bits -/

/-- The bits of a double that is neither infinite nor NaN. -/
theorem toBits_ofBits (b : UInt64) (h : b.toNat / 2 ^ 52 % 2 ^ 11 ≠ 2047) : (Float.ofBits b).toBits = b := by
  have hexponent : @unpackExponent Format.binary64 b.toBitVec ≠ (-1#_) := by
    intro hones
    apply h
    have hnat := congrArg BitVec.toNat hones
    simp only [unpackExponent, BitVec.toNat_cast, BitVec.extractLsb_toNat, Nat.shiftRight_eq_div_pow] at hnat
    exact hnat
  have hbits := @pack_unpack Format.binary64 b.toBitVec (by decide)
  rw [isNaNBits, decide_eq_false fun hnan => hexponent hnan.1, if_neg Bool.false_ne_true] at hbits
  exact congrArg UInt64.ofBitVec hbits

/-! ## Natural numbers -/

/-- How a finite double is taken apart that was put together from bits. -/
theorem decode_ofBits {biased fraction : Nat} (negative : Bool) (hbiased : biased < 2047)
    (hfraction : fraction < 2 ^ 52) :
    decode (Float.ofBits (UInt64.ofNat (biased * 2 ^ 52 + fraction + if negative then 2 ^ 63 else 0))) =
      some (if biased = 0 then ⟨negative, fraction, -1074⟩
        else ⟨negative, 2 ^ 52 + fraction, (biased : Int) - 1075⟩) := by
  obtain ⟨bits, hbits, hexponent, hsign, hrest⟩ : ∃ bits,
      bits = biased * 2 ^ 52 + fraction + (if negative then 2 ^ 63 else 0) ∧ bits / 2 ^ 52 % 2 ^ 11 = biased ∧
        (bits / 2 ^ 63 == 1) = negative ∧ bits % 2 ^ 52 = fraction := by
    refine ⟨_, rfl, ?_⟩
    cases negative
    · exact ⟨by simp; omega, by simp; omega, by simp; omega⟩
    · exact ⟨by simp; omega, by simp; omega, by simp; omega⟩
  have hsmall : bits < 2 ^ 64 := by
    subst hbits
    split <;> omega
  have htoNat : (UInt64.ofNat bits).toNat = bits := UInt64.toNat_ofNat_of_lt' hsmall
  have hround := toBits_ofBits (UInt64.ofNat bits) (by rw [htoNat, hexponent]; omega)
  rw [← hbits]
  unfold decode
  simp only [hround, htoNat, Nat.pow_eq, hexponent, hsign, hrest]
  rw [if_neg (by omega)]
  split <;> rfl

theorem roundHalfEven_one (n : Nat) : roundHalfEven n 1 = n := by
  simp [roundHalfEven, Nat.mod_one]

/-- A number below `2 ^ 53` has room in the mantissa when its leading bit is moved to the front. -/
theorem shifted_bounds {n : Nat} (hpos : n ≠ 0) (hn : n < 2 ^ 53) :
    n.log2 ≤ 52 ∧ 2 ^ 52 ≤ n * 2 ^ (52 - n.log2) ∧ n * 2 ^ (52 - n.log2) < 2 ^ 53 := by
  have hlog : n.log2 ≤ 52 := Nat.le_of_lt_succ ((Nat.log2_lt hpos).2 hn)
  have hsum : n.log2 + (52 - n.log2) = 52 := Nat.add_sub_cancel' hlog
  refine ⟨hlog, ?_, ?_⟩
  · calc 2 ^ 52 = 2 ^ n.log2 * 2 ^ (52 - n.log2) := by rw [← Nat.pow_add, hsum]
      _ ≤ n * 2 ^ (52 - n.log2) := Nat.mul_le_mul_right _ (Nat.log2_self_le hpos)
  · calc n * 2 ^ (52 - n.log2) < 2 ^ (n.log2 + 1) * 2 ^ (52 - n.log2) :=
          Nat.mul_lt_mul_of_pos_right Nat.lt_log2_self (Nat.two_pow_pos _)
      _ = 2 ^ 53 := by rw [← Nat.pow_add]; congr 1; omega

theorem mantissaExponent_eq {n : Nat} (hpos : n ≠ 0) (hn : n < 2 ^ 53) :
    mantissaExponent n 1 = -((52 - n.log2 : Nat) : Int) := by
  obtain ⟨hlog, hlow, -⟩ := shifted_bounds hpos hn
  have hone : Nat.log2 1 = 0 := by decide
  unfold mantissaExponent
  extract_lets e atLeast
  have he : e = -((52 - n.log2 : Nat) : Int) := by
    simp only [e, hone]
    omega
  have hleast : atLeast e = true := by
    simp only [atLeast, he, Nat.pow_eq, Int.neg_neg, Int.toNat_natCast, Nat.one_mul]
    split
    case isTrue hfull =>
      have hzero : 52 - n.log2 = 0 := by omega
      rw [hzero] at hlow ⊢
      simpa using hlow
    case isFalse => simpa using hlow
  rw [if_pos hleast, he]
  omega

/-- No bit is lost when the leading bit of a number is moved to the front. -/
theorem roundScaled_eq (n k : Nat) : roundScaled n 1 (-(k : Int)) = n * 2 ^ k := by
  unfold roundScaled
  split
  case isTrue hfull =>
    obtain rfl : k = 0 := by omega
    simp [roundHalfEven_one]
  case isFalse => simp [roundHalfEven_one]

theorem magnitudeBits_eq {mantissa k : Nat} (hk : k ≤ 52) (hlow : 2 ^ 52 ≤ mantissa) (hhigh : mantissa < 2 ^ 53) :
    magnitudeBits mantissa (-(k : Int)) = (1075 - k) * 2 ^ 52 + (mantissa - 2 ^ 52) := by
  have hbiased : (-(k : Int) + 1075).toNat = 1075 - k := by omega
  simp only [magnitudeBits, Nat.pow_eq, hbiased]
  rw [if_neg (by omega), if_neg (by omega)]

theorem nearest_eq {n : Nat} (negative : Bool) (hpos : n ≠ 0) (hn : n < 2 ^ 53) :
    nearest negative n 1 = Float.ofBits (UInt64.ofNat
      ((1075 - (52 - n.log2)) * 2 ^ 52 + (n * 2 ^ (52 - n.log2) - 2 ^ 52) + if negative then 2 ^ 63 else 0)) := by
  obtain ⟨hlog, hlow, hhigh⟩ := shifted_bounds hpos hn
  have hbits := magnitudeBits_eq (Nat.sub_le 52 n.log2) hlow hhigh
  rw [← hbits, ← roundScaled_eq, ← mantissaExponent_eq hpos hn]
  unfold nearest
  rw [if_neg hpos]
  rfl

/-- The double nearest to an integer other than zero with a magnitude below `2 ^ 53`, taken apart. -/
theorem decode_nearest {n : Nat} (negative : Bool) (hpos : n ≠ 0) (hn : n < 2 ^ 53) :
    decode (nearest negative n 1) = some ⟨negative, n * 2 ^ (52 - n.log2), -((52 - n.log2 : Nat) : Int)⟩ := by
  obtain ⟨hlog, hlow, hhigh⟩ := shifted_bounds hpos hn
  have hexponent : ((1075 - (52 - n.log2) : Nat) : Int) - 1075 = -((52 - n.log2 : Nat) : Int) := by omega
  rw [nearest_eq negative hpos hn, decode_ofBits negative (by omega) (by omega), if_neg (by omega),
    Nat.add_sub_cancel' hlow, hexponent]

/-- The double nearest to a natural number below `2 ^ 53`, taken apart. -/
theorem decode_ofNat {n : Nat} (hpos : n ≠ 0) (hn : n < 2 ^ 53) :
    decode (ofNat n) = some ⟨false, n * 2 ^ (52 - n.log2), -((52 - n.log2 : Nat) : Int)⟩ :=
  decode_nearest false hpos hn

/-- A natural number written with a negative exponent is still that number. -/
theorem shifted_ratio (n k : Nat) :
    ((⟨false, n * 2 ^ k, -(k : Int)⟩ : Dyadic).ratio.1 / (⟨false, n * 2 ^ k, -(k : Int)⟩ : Dyadic).ratio.2 = n) ∧
      (⟨false, n * 2 ^ k, -(k : Int)⟩ : Dyadic).ratio.1 % (⟨false, n * 2 ^ k, -(k : Int)⟩ : Dyadic).ratio.2 = 0 := by
  by_cases hk : k = 0
  · subst hk
    simp [Dyadic.ratio, Nat.mod_one]
  · have hexponent : ¬(0 : Int) ≤ -(k : Int) := by omega
    simp only [Dyadic.ratio, if_neg hexponent, Nat.pow_eq, Int.neg_neg, Int.toNat_natCast]
    exact ⟨Nat.mul_div_cancel n (Nat.two_pow_pos k), Nat.mul_mod_left n _⟩

/-- Up to `2 ^ 53` the double of a natural number is that number. -/
theorem exists_decode_ofNat {n : Nat} (hn : n ≤ 2 ^ 53) :
    ∃ d, decode (ofNat n) = some d ∧ d.negative = false ∧ d.ratio.1 / d.ratio.2 = n ∧ d.ratio.1 % d.ratio.2 = 0 := by
  by_cases hpos : n = 0
  · subst hpos
    exact ⟨⟨false, 0, -1074⟩, by decide +kernel⟩
  by_cases hmost : n = 2 ^ 53
  · subst hmost
    exact ⟨⟨false, 2 ^ 52, 1⟩, by decide +kernel⟩
  exact ⟨_, decode_ofNat hpos (by omega), rfl, shifted_ratio n _⟩

theorem truncate?_ofNat {n : Nat} (hn : n ≤ 2 ^ 53) : truncate? (ofNat n) = some (n : Int) := by
  obtain ⟨d, hd, hnegative, hquotient, -⟩ := exists_decode_ofNat hn
  rw [truncate?, hd, Option.map_some, Dyadic.truncate, Dyadic.floorMagnitude, hquotient, hnegative]
  rfl

theorem truncate_ofNat {n : Nat} (hn : n ≤ 2 ^ 53) : truncate (ofNat n) = n := by
  rw [truncate, truncate?_ofNat hn]
  rfl

theorem isInteger_ofNat {n : Nat} (hn : n ≤ 2 ^ 53) : isInteger (ofNat n) := by
  obtain ⟨d, hd, -, -, hrest⟩ := exists_decode_ofNat hn
  rw [isInteger, hd, Option.any_some, Dyadic.isInteger, hrest]
  rfl

end Number

/-! ## Rational values -/

/-- The rational number that a dyadic number is. -/
def Dyadic.value (d : Dyadic) : ℚ := (if d.negative then -1 else 1) * (d.mantissa * 2 ^ d.exponent)

theorem Dyadic.ratio_eq (d : Dyadic) : (d.ratio.1 : ℚ) / d.ratio.2 = d.mantissa * 2 ^ d.exponent := by
  unfold ratio
  split
  case isTrue h =>
    obtain ⟨n, hn⟩ := Int.eq_ofNat_of_zero_le h
    simp [hn]
  case isFalse h =>
    obtain ⟨n, hn⟩ := Int.eq_ofNat_of_zero_le (show 0 ≤ -d.exponent by omega)
    have hexponent : d.exponent = -(n : Int) := by omega
    simp [hexponent, div_eq_mul_inv]

namespace Number

/-- The rational number that a finite double is. -/
def value? (x : Float) : Option ℚ := (decode x).map Dyadic.value

/-- A rational number without its fraction. -/
def towardZero (q : ℚ) : Int := if 0 ≤ q then ⌊q⌋ else ⌈q⌉

theorem towardZero_neg (q : ℚ) : towardZero (-q) = -towardZero q := by
  rcases lt_trichotomy q 0 with h | rfl | h
  · rw [towardZero, towardZero, if_pos (neg_nonneg.2 h.le), if_neg h.not_ge, Int.floor_neg]
  · rfl
  · rw [towardZero, towardZero, if_neg (neg_lt_zero.2 h).not_ge, if_pos h.le, Int.ceil_neg]

theorem truncate_eq_towardZero (d : Dyadic) : d.truncate = towardZero d.value := by
  have hmagnitude : (d.floorMagnitude : Int) = towardZero (d.mantissa * 2 ^ d.exponent) := by
    rw [towardZero, if_pos (by positivity), ← d.ratio_eq, Dyadic.floorMagnitude]
    exact (Rat.floor_natCast_div_natCast _ _).symm
  cases hsign : d.negative <;> simp [Dyadic.truncate, Dyadic.value, hsign, hmagnitude, towardZero_neg]

/-- The integer part of a double is its value without the fraction. -/
theorem truncate?_eq (x : Float) : truncate? x = (value? x).map towardZero := by
  rw [truncate?, value?, Option.map_map]
  exact congrArg (Option.map · (decode x)) (funext truncate_eq_towardZero)

/-- Below `2 ^ 53` the double of an integer is that integer. -/
theorem value?_ofInt {i : Int} (hi : i.natAbs < 2 ^ 53) : value? (ofInt i) = some (i : ℚ) := by
  by_cases hzero : i = 0
  · subst hzero
    have hdecode : decode (ofInt 0) = some ⟨false, 0, -1074⟩ := by decide +kernel
    simp [value?, hdecode, Dyadic.value]
  · have hpos : i.natAbs ≠ 0 := Int.natAbs_ne_zero.2 hzero
    have hpower : ((2 : ℚ) ^ (52 - i.natAbs.log2)) ≠ 0 := by positivity
    have hmagnitude : ((i.natAbs * 2 ^ (52 - i.natAbs.log2) : Nat) : ℚ) * 2 ^ (-((52 - i.natAbs.log2 : Nat) : Int)) =
        i.natAbs := by
      rw [zpow_neg, zpow_natCast, Nat.cast_mul, Nat.cast_pow, Nat.cast_ofNat, mul_assoc, mul_inv_cancel₀ hpower, mul_one]
    rw [value?, ofInt, decode_nearest _ hpos hi, Option.map_some, Dyadic.value, hmagnitude]
    congr 1
    rcases Int.lt_or_gt_of_ne hzero with h | h
    · simp [h, abs_of_neg (Int.cast_lt_zero.2 h : (i : ℚ) < 0)]
    · simp [Int.not_lt.2 (Int.le_of_lt h), abs_of_pos (Int.cast_pos.2 h : (0 : ℚ) < i)]

theorem ofInt_natCast (n : Nat) : ofInt n = ofNat n := by
  have hsign : decide ((n : Int) < 0) = false := decide_eq_false (by omega)
  rw [ofInt, hsign]
  rfl

end Number

end ScriptEngine
