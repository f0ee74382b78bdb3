import Mathlib
import ScriptEngine.Number.Decimal
import ScriptEngine.Proofs.Names
import ScriptEngine.Proofs.Rounding

/-!
# Decimals as numbers

A decimal is a rational number, and its number of digits and its exponent say between which powers of ten it lies.
A decimal far outside the range of doubles is rounded to zero or is too large, so `Decimal.toNumber` rounds every
decimal correctly although it computes with those of moderate size only.

## Main definitions

* `Decimal.value`: the rational number that a decimal is.
* `Decimal.HasMagnitude`: the exponent of the first digit of a number.

## Main results

* `Decimal.pow_digitCount_le`, `Decimal.lt_pow_digitCount`: the number of digits.
* `Decimal.hasMagnitude_magnitude`: the exponent of the first digit of a quotient.
* `Decimal.rounds_toNumber`: the double of a decimal.
-/

namespace ScriptEngine

namespace Decimal

/-! ## Numbers of digits -/

theorem lt_pow_digitCount (n : Nat) : n < 10 ^ digitCount n := by
  unfold digitCount
  induction n using Nat.strongRecOn with
  | _ n ih =>
    by_cases h : n < 10
    · simpa [Text.ofNat_of_lt h] using h
    · have hless := ih (n / 10) (by omega)
      rw [Text.ofNat_of_le (by omega), List.length_append, List.length_singleton, pow_succ]
      omega

theorem pow_digitCount_le {n : Nat} (hn : n ≠ 0) : 10 ^ (digitCount n - 1) ≤ n := by
  unfold digitCount
  induction n using Nat.strongRecOn with
  | _ n ih =>
    by_cases h : n < 10
    · simp [Text.ofNat_of_lt h]
      omega
    · have hless := ih (n / 10) (by omega) (by omega)
      have hpos : (Text.ofNat (n / 10)).length ≠ 0 := by
        intro hzero
        have hnumeral := Text.isNumeral_ofNat (n / 10)
        rw [List.eq_nil_of_length_eq_zero hzero] at hnumeral
        cases hnumeral
      obtain ⟨k, hk⟩ := Nat.exists_eq_succ_of_ne_zero hpos
      rw [hk, Nat.succ_sub_one] at hless
      rw [Text.ofNat_of_le (by omega), List.length_append, List.length_singleton, hk, Nat.add_sub_cancel, pow_succ]
      omega

theorem digitCount_pos (n : Nat) : 0 < digitCount n := by
  refine Nat.pos_of_ne_zero fun hzero => ?_
  have hlt := lt_pow_digitCount n
  rw [hzero] at hlt
  obtain rfl : n = 0 := by omega
  cases hzero

theorem digitCount_le {n k : Nat} (hk : 0 < k) (h : n < 10 ^ k) : digitCount n ≤ k := by
  by_cases hn : n = 0
  · subst hn
    exact hk
  · have hlt : 10 ^ (digitCount n - 1) < 10 ^ k := (pow_digitCount_le hn).trans_lt h
    have := (Nat.pow_lt_pow_iff_right (by decide)).1 hlt
    omega

theorem digitCount_eq {n k : Nat} (hlow : 10 ^ k ≤ n) (hhigh : n < 10 ^ (k + 1)) : digitCount n = k + 1 := by
  have hle := digitCount_le (Nat.succ_pos k) hhigh
  have hge := (Nat.pow_lt_pow_iff_right (by decide)).1 (hlow.trans_lt (lt_pow_digitCount n))
  omega

/-! ## Values -/

/-- The rational number that a decimal is. -/
def value (d : Decimal) : ℚ := d.digits * 10 ^ d.exponent

theorem value_nonneg (d : Decimal) : 0 ≤ d.value := by
  unfold value
  positivity

theorem ten_pow_mul_zpow (n : Nat) (e : Int) : (10 : ℚ) ^ n * 10 ^ e = 10 ^ (n + e) := by
  rw [zpow_add₀ (by norm_num), zpow_natCast]

theorem value_lt (d : Decimal) : d.value < 10 ^ (digitCount d.digits + d.exponent) := by
  have hlt : (d.digits : ℚ) < 10 ^ digitCount d.digits := by exact_mod_cast lt_pow_digitCount d.digits
  rw [value, ← ten_pow_mul_zpow]
  exact mul_lt_mul_of_pos_right hlt (by positivity)

theorem le_value {d : Decimal} (hd : d.digits ≠ 0) : 10 ^ (digitCount d.digits + d.exponent - 1) ≤ d.value := by
  have hle : ((10 ^ (digitCount d.digits - 1) : Nat) : ℚ) ≤ d.digits := Nat.cast_le.2 (pow_digitCount_le hd)
  have hexponent : (digitCount d.digits : Int) + d.exponent - 1 = (digitCount d.digits - 1 : Nat) + d.exponent := by
    have := digitCount_pos d.digits
    omega
  rw [value, hexponent, ← ten_pow_mul_zpow]
  push_cast at hle
  exact mul_le_mul_of_nonneg_right hle (by positivity)

/-- A quotient times a power of ten, as a quotient. -/
theorem scale_eq (num : Nat) {den : Nat} (hden : den ≠ 0) (shift : Int) :
    (scale num den shift).2 ≠ 0 ∧ ((scale num den shift).1 : ℚ) / (scale num den shift).2 = num / den * 10 ^ shift := by
  unfold scale
  simp only [Nat.pow_eq]
  split
  case isTrue h =>
    obtain ⟨n, rfl⟩ := Int.eq_ofNat_of_zero_le h
    refine ⟨hden, ?_⟩
    simp
    ring
  case isFalse h =>
    obtain ⟨n, hn⟩ := Int.eq_ofNat_of_zero_le (show 0 ≤ -shift by omega)
    obtain rfl : shift = -(n : Int) := by omega
    refine ⟨by positivity, ?_⟩
    simp [div_eq_mul_inv]
    ring

/-! ## The first digit -/

/-- The exponent of the first digit of a number. -/
structure HasMagnitude (q : ℚ) (p : Int) : Prop where
  /-- The number is at least this power of ten. -/
  low : 10 ^ p ≤ q
  /-- It is below the next one. -/
  high : q < 10 ^ (p + 1)

theorem HasMagnitude.unique {q : ℚ} {p p' : Int} (h : HasMagnitude q p) (h' : HasMagnitude q p') : p = p' := by
  have hle := (zpow_lt_zpow_iff_right₀ (by norm_num : (1 : ℚ) < 10)).1 (h.low.trans_lt h'.high)
  have hge := (zpow_lt_zpow_iff_right₀ (by norm_num : (1 : ℚ) < 10)).1 (h'.low.trans_lt h.high)
  omega

/-- The number of factors that are missing, if the fuel is enough for them. -/
theorem leadingZeros_spec {num den fuel : Nat} (h : den ≤ 10 ^ fuel * num) :
    den ≤ 10 ^ leadingZeros fuel num den * num ∧
      (leadingZeros fuel num den ≠ 0 → 10 ^ (leadingZeros fuel num den - 1) * num < den) := by
  induction fuel generalizing num with
  | zero => exact ⟨h, fun hne => absurd rfl hne⟩
  | succ fuel ih =>
    unfold leadingZeros
    split
    case isTrue hle => exact ⟨by simpa using hle, fun hne => absurd rfl hne⟩
    case isFalse hlt =>
      have hless : den ≤ 10 ^ fuel * (10 * num) := by rwa [pow_succ, mul_assoc] at h
      obtain ⟨hlow, hhigh⟩ := ih hless
      refine ⟨by rw [pow_succ, mul_assoc]; exact hlow, fun _ => ?_⟩
      rw [Nat.add_sub_cancel]
      by_cases hzero : leadingZeros fuel (10 * num) den = 0
      · rw [hzero]
        omega
      · obtain ⟨k, hk⟩ := Nat.exists_eq_succ_of_ne_zero hzero
        have hhigh := hhigh hzero
        rw [hk, Nat.succ_sub_one] at hhigh
        rw [hk, pow_succ, mul_assoc]
        exact hhigh

theorem hasMagnitude_magnitude {num den : Nat} (hnum : num ≠ 0) (hden : den ≠ 0) :
    HasMagnitude (num / den) (magnitude num den) := by
  have hpos : (0 : ℚ) < den := by positivity
  unfold magnitude
  split
  case isTrue hle =>
    have hquotient : num / den ≠ 0 := (Nat.div_pos hle (Nat.pos_of_ne_zero hden)).ne'
    have hcount := digitCount_pos (num / den)
    have hlow := (Nat.le_div_iff_mul_le (Nat.pos_of_ne_zero hden)).1 (pow_digitCount_le hquotient)
    have hhigh := (Nat.div_lt_iff_lt_mul (Nat.pos_of_ne_zero hden)).1 (lt_pow_digitCount (num / den))
    generalize digitCount (num / den) = count at *
    obtain ⟨k, rfl⟩ := Nat.exists_eq_succ_of_ne_zero hcount.ne'
    rw [Nat.succ_sub_one] at hlow
    constructor
    · rw [le_div_iff₀ hpos]
      push_cast
      rw [add_sub_cancel_right, zpow_natCast]
      exact_mod_cast hlow
    · rw [div_lt_iff₀ hpos, sub_add_cancel, zpow_natCast]
      exact_mod_cast hhigh
  case isFalse hlt =>
    have hfuel : den ≤ 10 ^ den.log2.succ * num := by
      calc den ≤ 2 ^ den.log2.succ := Nat.lt_log2_self.le
        _ ≤ 10 ^ den.log2.succ := Nat.pow_le_pow_left (by decide) _
        _ ≤ 10 ^ den.log2.succ * num := Nat.le_mul_of_pos_right _ (Nat.pos_of_ne_zero hnum)
    obtain ⟨hlow, hhigh⟩ := leadingZeros_spec hfuel
    have hzeros : leadingZeros den.log2.succ num den ≠ 0 := by
      intro hzero
      rw [hzero] at hlow
      omega
    have hhigh := hhigh hzeros
    generalize leadingZeros den.log2.succ num den = zeros at *
    obtain ⟨k, rfl⟩ := Nat.exists_eq_succ_of_ne_zero hzeros
    rw [Nat.succ_sub_one] at hhigh
    constructor
    · rw [le_div_iff₀ hpos, zpow_neg, zpow_natCast, inv_mul_le_iff₀ (by positivity)]
      exact_mod_cast hlow
    · have hexponent : -((k.succ : Nat) : Int) + 1 = -(k : Int) := by omega
      rw [div_lt_iff₀ hpos, hexponent, zpow_neg, zpow_natCast, lt_inv_mul_iff₀ (by positivity)]
      exact_mod_cast hhigh

/-! ## The double of a decimal -/

open Number

theorem two_zpow_le_ten_zpow (n : Nat) : (2 : ℚ) ^ (3 * n : Int) ≤ 10 ^ (n : Int) := by
  rw [zpow_mul, zpow_natCast, zpow_natCast]
  exact pow_le_pow_left₀ (by norm_num) (by norm_num) n

/-- From here on decimals are too large. -/
theorem overflow_le_ten_zpow {e : Int} (he : 400 ≤ e) : overflow ≤ 10 ^ e := by
  calc overflow ≤ 2 ^ 53 * 2 ^ (971 : Int) := overflow_le (by norm_num) le_rfl
    _ = 2 ^ (((53 : Nat) : Int) + 971) := two_pow_mul_zpow 53 971
    _ ≤ 2 ^ (3 * (400 : Nat) : Int) := zpow_le_zpow_right₀ one_le_two (by norm_num)
    _ ≤ 10 ^ ((400 : Nat) : Int) := two_zpow_le_ten_zpow 400
    _ ≤ 10 ^ e := zpow_le_zpow_right₀ (by norm_num) he

/-- From here on decimals are rounded to zero. -/
theorem ten_zpow_le_least {e : Int} (he : e ≤ -400) : (10 : ℚ) ^ e ≤ 2 ^ (-1075 : Int) := by
  calc (10 : ℚ) ^ e ≤ 10 ^ (-((400 : Nat) : Int)) := zpow_le_zpow_right₀ (by norm_num) (by omega)
    _ = (10 ^ ((400 : Nat) : Int))⁻¹ := zpow_neg 10 _
    _ ≤ (2 ^ (3 * (400 : Nat) : Int))⁻¹ := inv_anti₀ (by positivity) (two_zpow_le_ten_zpow 400)
    _ = 2 ^ (-(3 * (400 : Nat) : Int)) := (zpow_neg 2 _).symm
    _ ≤ 2 ^ (-1075 : Int) := zpow_le_zpow_right₀ one_le_two (by norm_num)

/-- The double of a decimal is what its value is rounded to. -/
theorem rounds_toNumber (d : Decimal) (negative : Bool) : Rounds negative d.value (d.toNumber negative) := by
  unfold toNumber
  extract_lets size
  split
  case isTrue h =>
    refine rounds_zero negative 1 d.value_nonneg ?_
    by_cases hd : d.digits = 0
    · rw [value, hd]
      simp
    · exact d.value_lt.le.trans (ten_zpow_le_least (h.resolve_left hd).le)
  case isFalse h =>
    push Not at h
    split
    case isTrue hlarge =>
      have hnone : decode (nearest negative (Nat.pow 2 1024) 1) = none := by cases negative <;> decide +kernel
      exact .overflown hnone ((overflow_le_ten_zpow (by omega)).trans (le_value h.1))
    case isFalse hsmall =>
      have hone : ((1 : Nat) : ℚ) = 1 := Nat.cast_one
      obtain ⟨hden, hquotient⟩ := scale_eq d.digits one_ne_zero d.exponent
      rw [hone, div_one] at hquotient
      rw [value, ← hquotient]
      exact rounds_nearest negative _ hden

/-- A decimal is read as a finite double with its sign exactly if the double reaches its value. -/
theorem toNumber_eq_iff {x : Float} {d : Dyadic} (hx : decode x = some d) (decimal : Decimal) :
    decimal.toNumber d.negative = x ↔ d.Reaches decimal.value :=
  (decimal.rounds_toNumber d.negative).eq_iff hx

end Decimal

end ScriptEngine
