import Mathlib
import ScriptEngine.Proofs.Doubles

/-!
# Rounding to a double

Every number that is not too large lies in the reach of exactly one double: half way to the neighbours on both
sides, where the lower neighbour of a power of two is only half as far away. The ends of the reach belong to it if
the mantissa is even. `Number.nearest` finds the double that reaches a quotient, so it depends on the quotient
alone, and a double is the nearest one to a number exactly if it reaches it.

## Main definitions

* `Dyadic.Canonical`: the exact numbers of finite doubles.
* `Number.HalfEven`: the natural number nearest to a rational number, a tie going to the even one.
* `Dyadic.Reaches`: the magnitudes that are rounded to a double.
* `Dyadic.carried`: the number that rounding at an exponent gives.
* `Number.Rounds`: the double that a magnitude is rounded to.

## Main results

* `Number.eq_of_decode`: a double is determined by its exact number.
* `Dyadic.Reaches.unique`: at most one double reaches a number.
* `Number.reaches_carried`: what is rounded at its exponent is in the reach of what comes out.
* `Number.rounds_nearest`: `Number.nearest` rounds.
* `Number.Rounds.eq_iff`: a magnitude is rounded to a double exactly if the double reaches it.
-/

namespace ScriptEngine

/-! ## Exact numbers of doubles -/

/-- The exact number of a finite double: the mantissa has 53 bits, unless the exponent is the least. -/
structure Dyadic.Canonical (d : Dyadic) : Prop where
  /-- The mantissa has at most 53 bits. -/
  lt : d.mantissa < 2 ^ 53
  /-- It has no fewer, unless the exponent is the least. -/
  full : 2 ^ 52 ≤ d.mantissa ∨ d.exponent = -1074
  /-- The least exponent. -/
  least : -1074 ≤ d.exponent
  /-- The greatest exponent. -/
  greatest : d.exponent ≤ 971

namespace Number

/-- The sign bit. -/
def signBit (negative : Bool) : Nat := if negative then 2 ^ 63 else 0

/-- The bits of a canonical number: a biased exponent, which is zero without a leading bit, and a fraction. -/
theorem magnitudeBits_of_canonical {d : Dyadic} (h : d.Canonical) :
    ∃ biased fraction, biased < 2047 ∧ fraction < 2 ^ 52 ∧
      magnitudeBits d.mantissa d.exponent = biased * 2 ^ 52 + fraction ∧
      d = if biased = 0 then ⟨d.negative, fraction, -1074⟩
        else ⟨d.negative, 2 ^ 52 + fraction, (biased : Int) - 1075⟩ := by
  obtain ⟨negative, mantissa, exponent⟩ := d
  obtain ⟨hlt, hfull, hleast, hgreatest⟩ := h
  simp only [magnitudeBits, Nat.pow_eq] at *
  by_cases hm : mantissa < 2 ^ 52
  · have hexponent : exponent = -1074 := by omega
    exact ⟨0, mantissa, by omega, hm, by rw [if_pos hm]; omega, by rw [if_pos rfl, hexponent]⟩
  · refine ⟨(exponent + 1075).toNat, mantissa - 2 ^ 52, by omega, by omega, ?_, ?_⟩
    · rw [if_neg hm, if_neg (by omega)]
    · have hback : 2 ^ 52 + (mantissa - 2 ^ 52) = mantissa := by omega
      have hexponent : ((exponent + 1075).toNat : Int) - 1075 = exponent := by omega
      rw [if_neg (by omega), hback, hexponent]

/-- The double made from the bits of a canonical number is that number. -/
theorem decode_magnitudeBits {d : Dyadic} (h : d.Canonical) :
    decode (Float.ofBits (UInt64.ofNat (magnitudeBits d.mantissa d.exponent + signBit d.negative))) = some d := by
  obtain ⟨biased, fraction, hbiased, hfraction, hbits, hd⟩ := magnitudeBits_of_canonical h
  rw [hbits, signBit, decode_ofBits d.negative hbiased hfraction, ← hd]

/-- What a double is taken apart into is canonical, and its bits are those of the double. -/
theorem decode_eq_some {x : Float} {d : Dyadic} (h : decode x = some d) :
    d.Canonical ∧ x.toBits.toNat = magnitudeBits d.mantissa d.exponent + signBit d.negative := by
  have hsmall : x.toBits.toNat < 2 ^ 64 := x.toBits.toNat_lt
  simp only [decode, Nat.pow_eq] at h
  generalize x.toBits.toNat = bits at *
  have hbiased : bits / 2 ^ 52 % 2 ^ 11 < 2 ^ 11 := Nat.mod_lt _ (by decide)
  have hfraction : bits % 2 ^ 52 < 2 ^ 52 := Nat.mod_lt _ (by decide)
  have hsign : signBit (bits / 2 ^ 63 == 1) = bits / 2 ^ 63 * 2 ^ 63 := by
    simp only [signBit, beq_iff_eq]
    split <;> omega
  have hparts : bits = bits / 2 ^ 52 % 2 ^ 11 * 2 ^ 52 + bits % 2 ^ 52 + bits / 2 ^ 63 * 2 ^ 63 := by omega
  generalize bits / 2 ^ 52 % 2 ^ 11 = biased at *
  generalize bits % 2 ^ 52 = fraction at *
  split at h
  · cases h
  split at h
  · cases h
    refine ⟨⟨by simp only; omega, .inr rfl, by simp, by simp⟩, ?_⟩
    simp only [magnitudeBits, Nat.pow_eq, hsign]
    rw [if_pos hfraction]
    omega
  · cases h
    refine ⟨⟨by simp only; omega, .inl (by simp only; omega), by simp only; omega, by simp only; omega⟩, ?_⟩
    have hback : ((biased : Int) - 1075 + 1075).toNat = biased := by omega
    simp only [magnitudeBits, Nat.pow_eq, hback, hsign]
    rw [if_neg (by omega), if_neg (by omega)]
    omega

theorem canonical_of_decode {x : Float} {d : Dyadic} (h : decode x = some d) : d.Canonical := (decode_eq_some h).1

/-- A finite double is determined by its exact number. -/
theorem eq_of_decode {x y : Float} {d : Dyadic} (hx : decode x = some d) (hy : decode y = some d) : x = y := by
  have hbits : x.toBits = y.toBits := UInt64.toNat_inj.1 ((decode_eq_some hx).2.trans (decode_eq_some hy).2.symm)
  rw [← Float.ofBits_toBits x, hbits, Float.ofBits_toBits]

/-! ## Rounding to a natural number -/

/-- The natural number nearest to a rational number, a tie going to the even one. -/
structure HalfEven (q : ℚ) (r : Nat) : Prop where
  /-- It is not too large. -/
  low : r - 1 / 2 ≤ q
  /-- It is not too small. -/
  high : q ≤ r + 1 / 2
  /-- An odd number does not win a tie. -/
  inside : r % 2 = 1 → r - 1 / 2 < q ∧ q < r + 1 / 2

/-- The same without a division. -/
theorem halfEven_div_iff (num : Nat) {den : Nat} (hden : den ≠ 0) (r : Nat) :
    HalfEven (num / den) r ↔ 2 * (r * den) ≤ 2 * num + den ∧ 2 * num ≤ 2 * (r * den) + den ∧
      (r % 2 = 1 → 2 * (r * den) < 2 * num + den ∧ 2 * num < 2 * (r * den) + den) := by
  have hpos : (0 : ℚ) < den := by positivity
  have hlow : (r - 1 / 2 : ℚ) ≤ num / den ↔ 2 * (r * den) ≤ 2 * num + den := by
    rw [le_div_iff₀ hpos, ← Nat.cast_le (α := ℚ)]
    push_cast
    constructor <;> intro h <;> linarith
  have hhigh : (num / den : ℚ) ≤ r + 1 / 2 ↔ 2 * num ≤ 2 * (r * den) + den := by
    rw [div_le_iff₀ hpos, ← Nat.cast_le (α := ℚ)]
    push_cast
    constructor <;> intro h <;> linarith
  have hlow' : (r - 1 / 2 : ℚ) < num / den ↔ 2 * (r * den) < 2 * num + den := by
    rw [lt_div_iff₀ hpos, ← Nat.cast_lt (α := ℚ)]
    push_cast
    constructor <;> intro h <;> linarith
  have hhigh' : (num / den : ℚ) < r + 1 / 2 ↔ 2 * num < 2 * (r * den) + den := by
    rw [div_lt_iff₀ hpos, ← Nat.cast_lt (α := ℚ)]
    push_cast
    constructor <;> intro h <;> linarith
  rw [← hlow, ← hhigh, ← hlow', ← hhigh']
  exact ⟨fun h => ⟨h.low, h.high, h.inside⟩, fun h => ⟨h.1, h.2.1, h.2.2⟩⟩

theorem halfEven_roundHalfEven (num : Nat) {den : Nat} (hden : den ≠ 0) :
    HalfEven (num / den) (roundHalfEven num den) := by
  have hrest : num % den < den := Nat.mod_lt _ (Nat.pos_of_ne_zero hden)
  have hnum : num = num / den * den + num % den := by rw [Nat.mul_comm]; exact (Nat.div_add_mod num den).symm
  have hnext : (num / den + 1) * den = num / den * den + den := Nat.succ_mul _ _
  rw [halfEven_div_iff num hden]
  simp only [roundHalfEven, beq_iff_eq]
  generalize num / den = q at *
  generalize num % den = rest at *
  split
  · omega
  split
  · rw [hnext]
    omega
  split
  · omega
  · rw [hnext]
    omega

/-- There is one nearest natural number. -/
theorem HalfEven.unique {q : ℚ} {r s : Nat} (hr : HalfEven q r) (hs : HalfEven q s) : r = s := by
  -- Of two different ones the larger is the next after the smaller, and one of them is odd.
  have hlt {r s : Nat} (hr : HalfEven q r) (hs : HalfEven q s) : ¬r < s := by
    intro h
    have hnext : s = r + 1 := by
      have hle : (s : ℚ) ≤ r + 1 := by linarith [hr.high, hs.low]
      have hle : s ≤ r + 1 := by exact_mod_cast hle
      omega
    have htie : q = r + 1 / 2 := by
      have hlow := hs.low
      rw [hnext] at hlow
      push_cast at hlow
      linarith [hr.high]
    by_cases hodd : r % 2 = 1
    · exact absurd htie (hr.inside hodd).2.ne
    · have hinside := (hs.inside (by omega)).1
      rw [hnext] at hinside
      push_cast at hinside
      linarith
  have h := hlt hr hs
  have h' := hlt hs hr
  omega

/-! ## The exponent of a quotient -/

theorem two_pow_mul_zpow (n : Nat) (e : Int) : (2 : ℚ) ^ n * 2 ^ e = 2 ^ (n + e) := by
  rw [zpow_add₀ two_ne_zero, zpow_natCast]

/-- The quotient by a power of two, as the division by it or by its inverse. -/
theorem halfEven_roundScaled (num : Nat) {den : Nat} (hden : den ≠ 0) (e : Int) :
    HalfEven (num / den / 2 ^ e) (roundScaled num den e) := by
  unfold roundScaled
  simp only [Nat.pow_eq]
  split
  case isTrue h =>
    obtain ⟨n, rfl⟩ := Int.eq_ofNat_of_zero_le h
    have hround := halfEven_roundHalfEven num (show den * 2 ^ n ≠ 0 by positivity)
    convert hround using 1
    · simp [div_div]
    · rfl
  case isFalse h =>
    obtain ⟨n, hn⟩ := Int.eq_ofNat_of_zero_le (show 0 ≤ -e by omega)
    obtain rfl : e = -(n : Int) := by omega
    have hround := halfEven_roundHalfEven (num * 2 ^ n) hden
    convert hround using 1
    · simp
      ring
    · simp

/-- The exponent at which a quotient has a leading bit in the place before 53 others, unless it is the least. -/
structure HasExponent (q : ℚ) (e : Int) : Prop where
  /-- The quotient has no more than 53 bits before the point. -/
  high : q < 2 ^ 53 * 2 ^ e
  /-- It has no fewer, unless the exponent is the least. -/
  low : 2 ^ 52 * 2 ^ e ≤ q ∨ e = -1074
  /-- The least exponent. -/
  least : -1074 ≤ e

/-- The leading bits of two numbers give the exponent of their quotient up to one. -/
theorem quotient_log2 {num den : Nat} (hnum : num ≠ 0) (hden : den ≠ 0) :
    (2 : ℚ) ^ ((num.log2 : Int) - den.log2 - 1) ≤ num / den ∧
      (num / den : ℚ) < 2 ^ ((num.log2 : Int) - den.log2 + 1) := by
  have hpos : (0 : ℚ) < den := by positivity
  have hnumLow : (2 : ℚ) ^ num.log2 ≤ num := by exact_mod_cast Nat.log2_self_le hnum
  have hnumHigh : (num : ℚ) < 2 ^ (num.log2 + 1) := by exact_mod_cast Nat.lt_log2_self
  have hdenLow : (2 : ℚ) ^ den.log2 ≤ den := by exact_mod_cast Nat.log2_self_le hden
  have hdenHigh : (den : ℚ) < 2 ^ (den.log2 + 1) := by exact_mod_cast Nat.lt_log2_self
  have hlow : (2 : ℚ) ^ ((num.log2 : Int) - den.log2 - 1) * 2 ^ (den.log2 + 1) = 2 ^ num.log2 := by
    rw [mul_comm, two_pow_mul_zpow, ← zpow_natCast]
    congr 1
    push_cast
    ring
  have hhigh : (2 : ℚ) ^ ((num.log2 : Int) - den.log2 + 1) * 2 ^ den.log2 = 2 ^ (num.log2 + 1) := by
    rw [mul_comm, two_pow_mul_zpow, ← zpow_natCast]
    congr 1
    push_cast
    ring
  rw [le_div_iff₀ hpos, div_lt_iff₀ hpos]
  constructor
  · calc (2 : ℚ) ^ ((num.log2 : Int) - den.log2 - 1) * den
        ≤ 2 ^ ((num.log2 : Int) - den.log2 - 1) * 2 ^ (den.log2 + 1) := by gcongr
      _ ≤ num := hlow ▸ hnumLow
  · calc (num : ℚ) < 2 ^ ((num.log2 : Int) - den.log2 + 1) * 2 ^ den.log2 := hhigh ▸ hnumHigh
      _ ≤ 2 ^ ((num.log2 : Int) - den.log2 + 1) * den := by gcongr

/-- The exponent of a leading bit, or the least one where that is lower. -/
theorem hasExponent_max {q : ℚ} {k : Int} (hhigh : q < 2 ^ 53 * 2 ^ k) (hlow : 2 ^ 52 * 2 ^ k ≤ q) :
    HasExponent q (max k (-1074)) := by
  refine ⟨hhigh.trans_le ?_, ?_, le_max_right _ _⟩
  · gcongr
    · norm_num
    · exact le_max_left _ _
  · by_cases hle : -1074 ≤ k
    · rw [max_eq_left hle]
      exact .inl hlow
    · exact .inr (max_eq_right (by omega))

theorem hasExponent_mantissaExponent {num den : Nat} (hnum : num ≠ 0) (hden : den ≠ 0) :
    HasExponent (num / den) (mantissaExponent num den) := by
  have hpos : (0 : ℚ) < den := by positivity
  obtain ⟨hlow, hhigh⟩ := quotient_log2 hnum hden
  unfold mantissaExponent
  extract_lets e atLeast
  have hleast (k : Int) : atLeast k = true ↔ (2 ^ 52 * 2 ^ k : ℚ) ≤ num / den := by
    simp only [atLeast, Nat.pow_eq]
    rw [le_div_iff₀ hpos]
    split
    case isTrue h =>
      obtain ⟨n, rfl⟩ := Int.eq_ofNat_of_zero_le h
      rw [decide_eq_true_eq, ← Nat.cast_le (α := ℚ)]
      push_cast
      rw [Int.toNat_natCast, zpow_natCast]
      constructor <;> intro h <;> linarith
    case isFalse h =>
      obtain ⟨n, hn⟩ := Int.eq_ofNat_of_zero_le (show 0 ≤ -k by omega)
      obtain rfl : k = -(n : Int) := by omega
      rw [decide_eq_true_eq, ← Nat.cast_le (α := ℚ), zpow_neg, zpow_natCast, ← div_eq_mul_inv, div_mul_eq_mul_div,
        div_le_iff₀ (by positivity)]
      push_cast
      rw [Int.neg_neg, Int.toNat_natCast]
      constructor <;> intro h <;> linarith
  have hhigh : (num / den : ℚ) < 2 ^ 53 * 2 ^ e := by
    have hsum : ((53 : Nat) : Int) + e = (num.log2 : Int) - den.log2 + 1 := by omega
    rwa [two_pow_mul_zpow, hsum]
  -- One less is enough if the leading bit is one place too low.
  have hless : (2 ^ 52 * 2 ^ (e - 1) : ℚ) ≤ num / den := by
    have hsum : ((52 : Nat) : Int) + (e - 1) = (num.log2 : Int) - den.log2 - 1 := by omega
    rwa [two_pow_mul_zpow, hsum]
  split
  case isTrue h => exact hasExponent_max hhigh ((hleast e).1 h)
  case isFalse h =>
    refine hasExponent_max ?_ hless
    have hsmall := not_le.1 fun hle => h ((hleast e).2 hle)
    have hsum : ((53 : Nat) : Int) + (e - 1) = (52 : Nat) + e := by omega
    rwa [two_pow_mul_zpow, hsum, ← two_pow_mul_zpow]

/-! ## Reach -/

end Number

namespace Dyadic

/-- How far the reach of a double goes down, in units of its last place. The lower neighbour of a power of two is
only half as far away. -/
def below (d : Dyadic) : ℚ := if d.mantissa = 2 ^ 52 ∧ -1074 < d.exponent then 1 / 4 else 1 / 2

/-- The lower end of the reach of a double. -/
def lower (d : Dyadic) : ℚ := (d.mantissa - d.below) * 2 ^ d.exponent

/-- The upper end of the reach of a double. -/
def upper (d : Dyadic) : ℚ := (d.mantissa + 1 / 2) * 2 ^ d.exponent

/-- A double reaches a magnitude if it is the one to which the magnitude is rounded. -/
structure Reaches (d : Dyadic) (q : ℚ) : Prop where
  /-- The magnitude is not too small. -/
  low : d.lower ≤ q
  /-- It is not too large. -/
  high : q ≤ d.upper
  /-- The ends belong to the reach only if the mantissa is even. -/
  inside : d.mantissa % 2 = 1 → d.lower < q ∧ q < d.upper

theorem below_le (d : Dyadic) : d.below ≤ 1 / 2 := by
  unfold below
  split <;> norm_num

/-- With a leading bit, the reach starts at most a quarter of a last place below the least such mantissa. -/
theorem least_sub_le {d : Dyadic} (h : d.Canonical) (hexponent : -1074 < d.exponent) :
    (2 ^ 52 - 1 / 4 : ℚ) ≤ d.mantissa - d.below := by
  have hfull : 2 ^ 52 ≤ d.mantissa := h.full.resolve_right (by omega)
  unfold below
  split
  case isTrue hpower => rw [hpower.1]; norm_num
  case isFalse hpower =>
    have hmore : ((2 ^ 52 + 1 : Nat) : ℚ) ≤ d.mantissa := Nat.cast_le.2 (by omega)
    push_cast at hmore
    linarith

/-- The reach in units of the last place. -/
theorem reaches_mul {d : Dyadic} {y : ℚ} (hlow : d.mantissa - d.below ≤ y) (hhigh : y ≤ d.mantissa + 1 / 2)
    (hinside : d.mantissa % 2 = 1 → d.mantissa - d.below < y ∧ y < d.mantissa + 1 / 2) :
    d.Reaches (y * 2 ^ d.exponent) := by
  have hpos : (0 : ℚ) < 2 ^ d.exponent := by positivity
  refine ⟨mul_le_mul_of_nonneg_right hlow hpos.le, mul_le_mul_of_nonneg_right hhigh hpos.le, fun hodd => ?_⟩
  exact ⟨mul_lt_mul_of_pos_right (hinside hodd).1 hpos, mul_lt_mul_of_pos_right (hinside hodd).2 hpos⟩

/-- A smaller canonical number ends where a larger one starts, or before; if they meet, one of the mantissas is odd. -/
theorem upper_le_lower {d d' : Dyadic} (h : d.Canonical) (h' : d'.Canonical)
    (hless : d.exponent < d'.exponent ∨ d.exponent = d'.exponent ∧ d.mantissa < d'.mantissa) :
    d.upper < d'.lower ∨ d.upper = d'.lower ∧ (d.mantissa % 2 = 1 ∨ d'.mantissa % 2 = 1) := by
  have hpos : (0 : ℚ) < 2 ^ d.exponent := by positivity
  unfold upper lower
  rcases hless with hless | ⟨hexponent, hless⟩
  · -- The larger number has its leading bit, so it is at least the next power of two.
    have hlower : (2 ^ 53 - 1 / 2 : ℚ) * 2 ^ d.exponent ≤ (d'.mantissa - d'.below) * 2 ^ d'.exponent := by
      have hstep : (2 : ℚ) * 2 ^ d.exponent ≤ 2 ^ d'.exponent := by
        calc (2 : ℚ) * 2 ^ d.exponent = 2 ^ (d.exponent + 1) := by rw [zpow_add_one₀ two_ne_zero, mul_comm]
          _ ≤ 2 ^ d'.exponent := zpow_le_zpow_right₀ one_le_two (by omega)
      have hleast : -1074 ≤ d.exponent := h.least
      calc (2 ^ 53 - 1 / 2 : ℚ) * 2 ^ d.exponent = (2 ^ 52 - 1 / 4) * (2 * 2 ^ d.exponent) := by ring
        _ ≤ (2 ^ 52 - 1 / 4) * 2 ^ d'.exponent := mul_le_mul_of_nonneg_left hstep (by norm_num)
        _ ≤ _ := mul_le_mul_of_nonneg_right (least_sub_le h' (by omega)) (by positivity)
    by_cases hlast : d.mantissa = 2 ^ 53 - 1
    · have hupper : (d.mantissa + 1 / 2 : ℚ) * 2 ^ d.exponent = (2 ^ 53 - 1 / 2) * 2 ^ d.exponent := by
        rw [hlast]
        norm_num
      rw [hupper]
      exact hlower.lt_or_eq.imp_right fun heq => ⟨heq, .inl (by omega)⟩
    · have hless : ((d.mantissa + 2 : Nat) : ℚ) ≤ (2 ^ 53 : Nat) := Nat.cast_le.2 (by have := h.lt; omega)
      push_cast at hless
      exact .inl (lt_of_lt_of_le (mul_lt_mul_of_pos_right (by linarith) hpos) hlower)
  · have hbelow := d'.below_le
    rw [← hexponent]
    have hnext : (d.mantissa + 1 / 2 : ℚ) ≤ d'.mantissa - d'.below := by
      have hnext : ((d.mantissa + 1 : Nat) : ℚ) ≤ d'.mantissa := Nat.cast_le.2 hless
      push_cast at hnext
      linarith
    by_cases hadjacent : d'.mantissa = d.mantissa + 1
    · rcases (mul_le_mul_of_nonneg_right hnext hpos.le).lt_or_eq with hlt | heq
      · exact .inl hlt
      · exact .inr ⟨heq, by omega⟩
    · have hnext : ((d.mantissa + 2 : Nat) : ℚ) ≤ d'.mantissa := Nat.cast_le.2 (by omega)
      push_cast at hnext
      left
      gcongr
      linarith

/-- At most one double reaches a magnitude. -/
theorem Reaches.unique {d d' : Dyadic} {q : ℚ} (hc : d.Canonical) (hc' : d'.Canonical)
    (hsign : d.negative = d'.negative) (h : d.Reaches q) (h' : d'.Reaches q) : d = d' := by
  have hnot {d d' : Dyadic} (hc : d.Canonical) (hc' : d'.Canonical) (h : d.Reaches q) (h' : d'.Reaches q) :
      ¬(d.exponent < d'.exponent ∨ d.exponent = d'.exponent ∧ d.mantissa < d'.mantissa) := by
    intro hless
    have hmeet := h'.low.trans h.high
    rcases upper_le_lower hc hc' hless with hlt | ⟨heq, hodd | hodd⟩
    · exact hlt.not_ge hmeet
    · exact ((h.inside hodd).2.trans_le (heq.le.trans h'.low)).false
    · exact ((h'.inside hodd).1.trans_le (h.high.trans heq.le)).false
  have hle := hnot hc hc' h h'
  have hge := hnot hc' hc h' h
  obtain ⟨negative, mantissa, exponent⟩ := d
  obtain ⟨negative', mantissa', exponent'⟩ := d'
  simp only at hsign hle hge
  have hmantissa : mantissa = mantissa' := by omega
  have hexponent : exponent = exponent' := by omega
  rw [hsign, hmantissa, hexponent]

end Dyadic

/-! ## The nearest double -/

namespace Number

/-- The least magnitude that is rounded to infinity: half a place above the largest double. -/
def overflow : ℚ := (2 ^ 53 - 1 / 2) * 2 ^ (971 : Int)

theorem overflow_le {y : ℚ} {e : Int} (hy : 2 ^ 53 - 1 / 2 ≤ y) (he : 971 ≤ e) : overflow ≤ y * 2 ^ e := by
  have hpower : (2 : ℚ) ^ (971 : Int) ≤ 2 ^ e := zpow_le_zpow_right₀ one_le_two he
  have hfactor : (0 : ℚ) ≤ 2 ^ 53 - 1 / 2 := by norm_num
  exact mul_le_mul hy hpower (by positivity) (hfactor.trans hy)

/-- What is rounded to at most 53 bits is in the reach of what comes out. -/
theorem reaches_of_halfEven (negative : Bool) {y : ℚ} {e : Int} {m : Nat} (hm : HalfEven y m)
    (hlow : 2 ^ 52 ≤ y ∨ e = -1074) : (⟨negative, m, e⟩ : Dyadic).Reaches (y * 2 ^ e) := by
  by_cases hpower : m = 2 ^ 52 ∧ -1074 < e
  · -- At a power of two the exponent says that the quotient is not below it.
    have hbelow : (⟨negative, m, e⟩ : Dyadic).below = 1 / 4 := if_pos hpower
    have hy : (2 ^ 52 : ℚ) ≤ y := hlow.resolve_right (by omega)
    have hcast : (m : ℚ) = 2 ^ 52 := by exact_mod_cast hpower.1
    refine Dyadic.reaches_mul ?_ hm.high (by simp only; omega)
    rw [hbelow, hcast]
    linarith
  · have hbelow : (⟨negative, m, e⟩ : Dyadic).below = 1 / 2 := if_neg hpower
    exact Dyadic.reaches_mul (by rw [hbelow]; exact hm.low) hm.high (by rw [hbelow]; exact hm.inside)

/-- What is rounded up to the next power of two is in the reach of that power. -/
theorem reaches_of_carry (negative : Bool) {y : ℚ} {e : Int} (he : -1074 ≤ e) (hlow : 2 ^ 53 - 1 / 2 ≤ y)
    (hhigh : y < 2 ^ 53) : (⟨negative, 2 ^ 52, e + 1⟩ : Dyadic).Reaches (y * 2 ^ e) := by
  have hbelow : (⟨negative, 2 ^ 52, e + 1⟩ : Dyadic).below = 1 / 4 := if_pos ⟨rfl, by simp only; omega⟩
  have hhalf : y * 2 ^ e = y / 2 * 2 ^ (e + 1) := by
    rw [zpow_add_one₀ two_ne_zero]
    ring
  rw [hhalf]
  exact Dyadic.reaches_mul (by rw [hbelow]; push_cast; linarith) (by push_cast; linarith) (by norm_num)

theorem magnitudeBits_carry {e : Int} (he : -1074 ≤ e) : magnitudeBits (2 ^ 52) (e + 1) = magnitudeBits (2 ^ 53) e := by
  have hbiased : (e + 1 + 1075).toNat = (e + 1075).toNat + 1 := by omega
  have hbits : ((e + 1075).toNat + 1) * 2 ^ 52 + (2 ^ 52 - 2 ^ 52) = (e + 1075).toNat * 2 ^ 52 + (2 ^ 53 - 2 ^ 52) := by
    omega
  have hfull : ¬2 ^ 52 < 2 ^ 52 := lt_irrefl _
  have hfull' : ¬2 ^ 53 < 2 ^ 52 := by norm_num
  simp only [magnitudeBits, Nat.pow_eq, hbiased, if_neg hfull, if_neg hfull', hbits]

theorem magnitudeBits_overflow {m : Nat} {e : Int} (hm : 2 ^ 52 ≤ m) (he : 971 < e) :
    magnitudeBits m e = 2047 * 2 ^ 52 := by
  simp only [magnitudeBits, Nat.pow_eq]
  rw [if_neg (by omega), if_pos (by omega)]

end Number

/-- The number of a mantissa of at most `2 ^ 53`, which becomes the next power of two. -/
def Dyadic.carried (negative : Bool) (m : Nat) (e : Int) : Dyadic :=
  if m < 2 ^ 53 then ⟨negative, m, e⟩ else ⟨negative, 2 ^ 52, e + 1⟩

@[simp]
theorem Dyadic.negative_carried (negative : Bool) (m : Nat) (e : Int) : (carried negative m e).negative = negative := by
  unfold carried
  split <;> rfl

namespace Number

theorem magnitudeBits_carried (negative : Bool) {m : Nat} {e : Int} (hm : m ≤ 2 ^ 53) (he : -1074 ≤ e) :
    magnitudeBits (Dyadic.carried negative m e).mantissa (Dyadic.carried negative m e).exponent = magnitudeBits m e := by
  rcases hm.lt_or_eq with hlt | rfl
  · rw [Dyadic.carried, if_pos hlt]
  · rw [Dyadic.carried, if_neg (lt_irrefl _)]
    exact magnitudeBits_carry he

/-- A number at its exponent, in units of the last place. -/
theorem HasExponent.div {q : ℚ} {e : Int} (he : HasExponent q e) :
    q / 2 ^ e < 2 ^ 53 ∧ (2 ^ 52 ≤ q / 2 ^ e ∨ e = -1074) := by
  have hpos : (0 : ℚ) < 2 ^ e := by positivity
  rw [div_lt_iff₀ hpos, le_div_iff₀ hpos]
  exact ⟨he.high, he.low⟩

/-- Rounding at the exponent gives at most one bit more. -/
theorem HasExponent.halfEven_le {q : ℚ} {e : Int} {m : Nat} (he : HasExponent q e) (hm : HalfEven (q / 2 ^ e) m) :
    m ≤ 2 ^ 53 := by
  have hlt : (m : ℚ) < (2 ^ 53 + 1 : Nat) := by
    push_cast
    linarith [hm.low, he.div.1]
  exact Nat.lt_succ_iff.1 (Nat.cast_lt.1 hlt)

/-- A magnitude that is rounded at its exponent is in the reach of what comes out, unless it is too large. -/
theorem reaches_carried (negative : Bool) {q : ℚ} {e : Int} {m : Nat} (he : HasExponent q e)
    (hm : HalfEven (q / 2 ^ e) m) :
    (Dyadic.carried negative m e).Canonical ∧ (Dyadic.carried negative m e).Reaches q ∨
    2 ^ 52 ≤ (Dyadic.carried negative m e).mantissa ∧ 971 < (Dyadic.carried negative m e).exponent ∧ overflow ≤ q := by
  have hmost := he.halfEven_le hm
  obtain ⟨hhigh, hlow⟩ := he.div
  have hleast := he.least
  obtain ⟨y, rfl⟩ : ∃ y, q = y * 2 ^ e := ⟨q / 2 ^ e, (div_mul_cancel₀ q (by positivity)).symm⟩
  rw [mul_div_cancel_right₀ y (by positivity)] at hm hhigh hlow
  have hfull : 2 ^ 52 ≤ m ∨ e = -1074 := by
    refine hlow.imp_left fun h => ?_
    have hlt : ((2 ^ 52 : Nat) : ℚ) < (m + 1 : Nat) := by
      push_cast
      linarith [hm.high]
    exact Nat.lt_succ_iff.1 (Nat.cast_lt.1 hlt)
  rcases hmost.lt_or_eq with hlt | rfl
  · rw [Dyadic.carried, if_pos hlt]
    by_cases he : e ≤ 971
    · exact .inl ⟨⟨hlt, hfull, hleast, he⟩, reaches_of_halfEven negative hm hlow⟩
    · have hdouble : y * 2 ^ e = 2 * y * 2 ^ (e - 1) := by
        rw [zpow_sub_one₀ two_ne_zero]
        ring
      have hy : (2 ^ 52 : ℚ) ≤ y := hlow.resolve_right (by omega)
      rw [hdouble]
      exact .inr ⟨hfull.resolve_right (by omega), by simp only; omega, overflow_le (by linarith) (by omega)⟩
  · rw [Dyadic.carried, if_neg (lt_irrefl _)]
    have hy : (2 ^ 53 - 1 / 2 : ℚ) ≤ y := by
      have hlow := hm.low
      push_cast at hlow
      exact hlow
    by_cases he : e + 1 ≤ 971
    · exact .inl ⟨⟨by norm_num, .inl le_rfl, by simp only; omega, he⟩, reaches_of_carry negative hleast hy hhigh⟩
    · exact .inr ⟨le_rfl, by simp only; omega, overflow_le hy (by omega)⟩

theorem decode_nearest_zero (negative : Bool) (den : Nat) :
    decode (nearest negative 0 den) = some ⟨negative, 0, -1074⟩ := by
  rw [nearest, if_pos rfl]
  cases negative <;> decide +kernel

/-- The double that a magnitude is rounded to, with a sign: the finite one that reaches the magnitude, or one that is
not finite if the magnitude is too large. -/
inductive Rounds (negative : Bool) (q : ℚ) (x : Float) : Prop
  | finite {d : Dyadic} (hdecode : decode x = some d) (hsign : d.negative = negative) (hreaches : d.Reaches q)
  | overflown (hdecode : decode x = none) (hlarge : overflow ≤ q)

theorem decode_infinite (negative : Bool) :
    decode (Float.ofBits (UInt64.ofNat (2047 * 2 ^ 52 + signBit negative))) = none := by
  cases negative <;> decide +kernel

/-- The reach of zero. -/
theorem reaches_zero (negative : Bool) {q : ℚ} (hq : 0 ≤ q) (hsmall : q ≤ 2 ^ (-1075 : Int)) :
    (⟨negative, 0, -1074⟩ : Dyadic).Reaches q := by
  have hpos : (0 : ℚ) < 2 ^ (-1074 : Int) := by positivity
  have hbelow : (⟨negative, 0, -1074⟩ : Dyadic).below = 1 / 2 := if_neg fun h => absurd h.2 (lt_irrefl _)
  rw [show (2 : ℚ) ^ (-1075 : Int) = 2 ^ (-1074 : Int) * 2⁻¹ from zpow_sub_one₀ two_ne_zero (-1074)] at hsmall
  refine ⟨?_, ?_, fun hodd => absurd hodd (by norm_num)⟩ <;> simp only [Dyadic.lower, Dyadic.upper, hbelow] <;>
    generalize (2 : ℚ) ^ (-1074 : Int) = place at * <;> push_cast <;> linarith

theorem rounds_zero (negative : Bool) (den : Nat) {q : ℚ} (hq : 0 ≤ q) (hsmall : q ≤ 2 ^ (-1075 : Int)) :
    Rounds negative q (nearest negative 0 den) :=
  .finite (decode_nearest_zero negative den) rfl (reaches_zero negative hq hsmall)

/-- `nearest` rounds a quotient. -/
theorem rounds_nearest (negative : Bool) (num : Nat) {den : Nat} (hden : den ≠ 0) :
    Rounds negative (num / den) (nearest negative num den) := by
  by_cases hnum : num = 0
  · rw [hnum]
    exact rounds_zero negative den (by simp) (by simp)
  · have hnearest : nearest negative num den = Float.ofBits (UInt64.ofNat (magnitudeBits
        (roundScaled num den (mantissaExponent num den)) (mantissaExponent num den) + signBit negative)) := by
      simp only [nearest, if_neg hnum, signBit, Nat.pow_eq]
    have he := hasExponent_mantissaExponent hnum hden
    have hm := halfEven_roundScaled num hden (mantissaExponent num den)
    rw [hnearest, ← magnitudeBits_carried negative (he.halfEven_le hm) he.least]
    rcases reaches_carried negative he hm with ⟨hcanonical, hreaches⟩ | ⟨hfull, hexponent, hlarge⟩
    · have hdecode := decode_magnitudeBits hcanonical
      rw [Dyadic.negative_carried] at hdecode
      exact .finite hdecode (Dyadic.negative_carried ..) hreaches
    · rw [magnitudeBits_overflow hfull hexponent]
      exact .overflown (decode_infinite negative) hlarge

end Number

/-- A finite double reaches no magnitude that is too large. -/
theorem Dyadic.Reaches.lt_overflow {d : Dyadic} {q : ℚ} (h : d.Reaches q) (hc : d.Canonical) : q < Number.overflow := by
  have hpower : (2 : ℚ) ^ d.exponent ≤ 2 ^ (971 : Int) := zpow_le_zpow_right₀ one_le_two hc.greatest
  have hfactor : (0 : ℚ) ≤ 2 ^ 53 - 1 / 2 := by norm_num
  by_cases hlast : d.mantissa = 2 ^ 53 - 1
  · calc q < d.upper := (h.inside (by omega)).2
      _ = (2 ^ 53 - 1 / 2) * 2 ^ d.exponent := by rw [upper, hlast]; norm_num
      _ ≤ Number.overflow := mul_le_mul_of_nonneg_left hpower hfactor
  · have hless : ((d.mantissa + 2 : Nat) : ℚ) ≤ (2 ^ 53 : Nat) := Nat.cast_le.2 (by have := hc.lt; omega)
    push_cast at hless
    calc q ≤ d.upper := h.high
      _ < (2 ^ 53 - 1 / 2) * 2 ^ d.exponent := mul_lt_mul_of_pos_right (by linarith) (by positivity)
      _ ≤ Number.overflow := mul_le_mul_of_nonneg_left hpower hfactor

namespace Number

/-- A magnitude is rounded to a finite double exactly if that double reaches it. -/
theorem Rounds.decode_iff {d : Dyadic} {q : ℚ} {x : Float} (h : Rounds d.negative q x) (hc : d.Canonical) :
    decode x = some d ↔ d.Reaches q := by
  cases h with
  | finite hdecode hsign hreaches =>
    rw [hdecode, Option.some.injEq]
    constructor
    · rintro rfl
      exact hreaches
    · intro hd
      exact hreaches.unique (canonical_of_decode hdecode) hc hsign hd
  | overflown hdecode hlarge =>
    rw [hdecode]
    constructor
    · rintro ⟨⟩
    · intro hd
      exact absurd hlarge (hd.lt_overflow hc).not_ge

/-- A magnitude is rounded to a given finite double exactly if that double reaches it. -/
theorem Rounds.eq_iff {d : Dyadic} {q : ℚ} {x y : Float} (h : Rounds d.negative q x) (hy : decode y = some d) :
    x = y ↔ d.Reaches q := by
  rw [← h.decode_iff (canonical_of_decode hy)]
  constructor
  · rintro rfl
    exact hy
  · intro hx
    exact eq_of_decode hx hy

end Number

end ScriptEngine
