import Mathlib
import ScriptEngine.Proofs.Decimals

/-!
# The shortest decimal of a double

The decimals with a given number of digits that begin at the same place as a double lie on a grid, and the double
lies between two neighbours on it. If any decimal with so many digits or fewer is read as the double, one of these two
is. So the search that looks at them for more and more digits finds as few digits as possible, and what it takes is as
near to the double as any decimal with so many digits. Seventeen digits are always enough, as the places of such a grid
are then narrower than the reach of the double.

## Main definitions

* `Dyadic.magnitude`: the absolute value of a double.
* `Decimal.OnGrid`: a double on the grid of the decimals with a number of digits.
* `Decimal.Shortest`: what is asked of the decimal that stands for a double.

## Main results

* `Decimal.Interval.holds_iff`: the interval of a double is its reach.
* `Decimal.shortest_spec`: the decimal that is found is the shortest one.
-/

namespace ScriptEngine

namespace Dyadic

/-- The absolute value of a double. -/
def magnitude (d : Dyadic) : ℚ := d.mantissa * 2 ^ d.exponent

theorem magnitude_pos {d : Dyadic} (hd : d.mantissa ≠ 0) : 0 < d.magnitude := by
  unfold magnitude
  positivity

theorem magnitude_nonneg (d : Dyadic) : 0 ≤ d.magnitude := by
  unfold magnitude
  positivity

theorem magnitude_eq_zero {d : Dyadic} (hd : d.mantissa = 0) : d.magnitude = 0 := by
  rw [magnitude, hd, Nat.cast_zero, zero_mul]

theorem reaches_magnitude (d : Dyadic) : d.Reaches d.magnitude := by
  have hbelow : 0 < d.below := by
    unfold below
    split <;> norm_num
  exact reaches_mul (by linarith) (by linarith) fun _ => ⟨by linarith, by linarith⟩

/-- What lies between two magnitudes in the reach is in the reach. -/
theorem Reaches.between {d : Dyadic} {q r v : ℚ} (hq : d.Reaches q) (hr : d.Reaches r) (hqv : q ≤ v) (hvr : v ≤ r) :
    d.Reaches v :=
  ⟨hq.low.trans hqv, hvr.trans hr.high, fun hodd => ⟨(hq.inside hodd).1.trans_le hqv, hvr.trans_lt (hr.inside hodd).2⟩⟩

/-- Where the reach goes as far down as up, what is not farther away than something in the reach is in the reach. -/
theorem Reaches.of_dist_le {d : Dyadic} {q v : ℚ} (hq : d.Reaches q) (hdist : |v - d.magnitude| ≤ |q - d.magnitude|)
    (hside : d.magnitude ≤ v ∨ d.below = 1 / 2) : d.Reaches v := by
  have hself := d.reaches_magnitude
  have hplace : (0 : ℚ) ≤ 2 ^ d.exponent := by positivity
  -- The reach goes no farther down than up.
  have hdown : d.magnitude - d.lower ≤ d.upper - d.magnitude := by
    have hbelow := mul_le_mul_of_nonneg_right d.below_le hplace
    simp only [magnitude, lower, upper]
    linarith
  rcases le_total d.magnitude v with hv | hv
  · rw [abs_of_nonneg (sub_nonneg.2 hv)] at hdist
    rcases le_total d.magnitude q with hq' | hq'
    · rw [abs_of_nonneg (sub_nonneg.2 hq')] at hdist
      exact hself.between hq hv (by linarith)
    · rw [abs_of_nonpos (sub_nonpos.2 hq')] at hdist
      have hlow := hself.low
      refine ⟨by linarith, by linarith [hq.low], fun hodd => ⟨?_, ?_⟩⟩
      · linarith [(hself.inside hodd).1]
      · linarith [(hq.inside hodd).1]
  · rw [abs_of_nonpos (sub_nonpos.2 hv)] at hdist
    rcases le_total d.magnitude q with hq' | hq'
    · rw [abs_of_nonneg (sub_nonneg.2 hq')] at hdist
      rcases hside with hside | hside
      · rw [le_antisymm hv hside]
        exact hself
      · have hsame : d.magnitude - d.lower = d.upper - d.magnitude := by
          simp only [magnitude, lower, upper, hside]
          ring
        have hhigh := hself.high
        refine ⟨by linarith [hq.high], by linarith, fun hodd => ⟨?_, ?_⟩⟩
        · linarith [(hq.inside hodd).2]
        · linarith [(hself.inside hodd).2]
    · rw [abs_of_nonpos (sub_nonpos.2 hq')] at hdist
      exact hq.between hself (by linarith) hv

end Dyadic

namespace Decimal

/-! ## The interval of a double -/

/-- The ends of the interval are those of the reach, as quotients. -/
theorem Interval.of_eq {d : Dyadic} (hd : d.mantissa ≠ 0) :
    let i := Interval.of d
    i.unit ≠ 0 ∧ i.mid ≠ 0 ∧ (i.low : ℚ) / i.unit = d.lower ∧ (i.mid : ℚ) / i.unit = d.magnitude ∧
      (i.high : ℚ) / i.unit = d.upper ∧ (i.closed = true ↔ d.mantissa % 2 ≠ 1) := by
  have hpos : 0 < d.mantissa := Nat.pos_of_ne_zero hd
  -- A quarter of the last place.
  obtain ⟨factor, unit, hparts, hfactor, hunit, hplace⟩ : ∃ factor unit,
      (if 2 ≤ d.exponent then (Nat.pow 2 (d.exponent - 2).toNat, 1) else (1, Nat.pow 2 (2 - d.exponent).toNat)) =
        (factor, unit) ∧ factor ≠ 0 ∧ unit ≠ 0 ∧ (4 * factor : ℚ) / unit = 2 ^ d.exponent := by
    split
    case isTrue h =>
      obtain ⟨n, hn⟩ := Int.eq_ofNat_of_zero_le (show 0 ≤ d.exponent - 2 by omega)
      have hexponent : d.exponent = ((2 + n : Nat) : Int) := by omega
      refine ⟨_, _, rfl, (Nat.two_pow_pos _).ne', one_ne_zero, ?_⟩
      rw [hn, hexponent, zpow_natCast, pow_add, Int.toNat_natCast, Nat.pow_eq]
      push_cast
      ring
    case isFalse h =>
      obtain ⟨n, hn⟩ := Int.eq_ofNat_of_zero_le (show 0 ≤ 2 - d.exponent by omega)
      have hexponent : d.exponent = 2 - (n : Int) := by omega
      refine ⟨_, _, rfl, one_ne_zero, (Nat.two_pow_pos _).ne', ?_⟩
      rw [hn, hexponent, zpow_sub₀ two_ne_zero, zpow_natCast, Int.toNat_natCast, Nat.pow_eq]
      push_cast
      norm_num
  obtain ⟨below, hbelow, hless, hcast⟩ : ∃ below,
      (if d.mantissa = Nat.pow 2 52 ∧ -1074 < d.exponent then 1 else 2) = below ∧ below ≤ 4 * d.mantissa ∧
        (below : ℚ) = 4 * d.below := by
    refine ⟨_, rfl, by split <;> omega, ?_⟩
    by_cases hpower : d.mantissa = 2 ^ 52 ∧ -1074 < d.exponent
    · rw [Dyadic.below, Nat.pow_eq, if_pos hpower, if_pos hpower]
      norm_num
    · rw [Dyadic.below, Nat.pow_eq, if_neg hpower, if_neg hpower]
      norm_num
  have hunit' : (unit : ℚ) ≠ 0 := Nat.cast_ne_zero.2 hunit
  simp only [Interval.of, hparts, hbelow]
  refine ⟨hunit, by positivity, ?_, ?_, ?_, by simp⟩
  · rw [Dyadic.lower, ← hplace]
    push_cast [Nat.cast_sub hless]
    rw [hcast]
    ring
  · rw [Dyadic.magnitude, ← hplace]
    push_cast
    ring
  · rw [Dyadic.upper, ← hplace]
    push_cast
    ring

/-- The interval of a double is its reach. -/
theorem Interval.holds_iff {d : Dyadic} (hd : d.mantissa ≠ 0) (decimal : Decimal) :
    (Interval.of d).holds decimal = true ↔ d.Reaches decimal.value := by
  obtain ⟨hunit, -, hlow, -, hhigh, hclosed⟩ := Interval.of_eq hd
  obtain ⟨hden, hvalue⟩ := scale_eq decimal.digits one_ne_zero decimal.exponent
  rw [Nat.cast_one, div_one] at hvalue
  change _ = decimal.value at hvalue
  have hpos : (0 : ℚ) < (Interval.of d).unit := by positivity
  have hpos' : (0 : ℚ) < (scale decimal.digits 1 decimal.exponent).2 := by positivity
  simp only [Interval.holds]
  rw [← hvalue]
  generalize scale decimal.digits 1 decimal.exponent = ratio at *
  have hle (low : Nat) : (low : ℚ) / (Interval.of d).unit ≤ ratio.1 / ratio.2 ↔
      low * ratio.2 ≤ ratio.1 * (Interval.of d).unit := by
    rw [div_le_div_iff₀ hpos hpos']
    exact_mod_cast Iff.rfl
  have hge (high : Nat) : (ratio.1 : ℚ) / ratio.2 ≤ high / (Interval.of d).unit ↔
      ratio.1 * (Interval.of d).unit ≤ high * ratio.2 := by
    rw [div_le_div_iff₀ hpos' hpos]
    exact_mod_cast Iff.rfl
  split
  case isTrue h =>
    simp only [Bool.and_eq_true, decide_eq_true_eq]
    rw [← hle, ← hge, hlow, hhigh]
    exact ⟨fun h' => ⟨h'.1, h'.2, fun hodd => absurd hodd (hclosed.1 h)⟩, fun h' => ⟨h'.low, h'.high⟩⟩
  case isFalse h =>
    simp only [Bool.and_eq_true, decide_eq_true_eq]
    rw [← not_le, ← not_le, ← hle, ← hge, hlow, hhigh, not_le, not_le]
    exact ⟨fun h' => ⟨h'.1.le, h'.2.le, fun _ => h'⟩, fun h' => h'.inside (not_not.1 (mt hclosed.2 h))⟩

/-! ## Grids -/

/-- A number on the grid of the decimals with `count` digits whose last place is `10 ^ e`: it lies between `n` and
`n + 1` of these places, and `n` has so many digits. -/
structure OnGrid (x : ℚ) (count : Nat) (e : Int) (n : Nat) : Prop where
  /-- The number is not below `n` places. -/
  low : n * 10 ^ e ≤ x
  /-- It is below the next point of the grid. -/
  high : x < (n + 1) * 10 ^ e
  /-- There are no fewer digits. -/
  first : 10 ^ (count - 1) ≤ n
  /-- There are no more digits. -/
  last : n < 10 ^ count

namespace OnGrid

variable {x : ℚ} {count : Nat} {e : Int} {n : Nat}

/-- A decimal with so many digits or fewer does not lie between two neighbours on the grid. -/
theorem le_or_le (h : OnGrid x count e n) (hcount : 0 < count) {decimal : Decimal}
    (hdigits : decimal.digits < 10 ^ count) :
    decimal.value ≤ n * 10 ^ e ∨ (n + 1) * 10 ^ e ≤ decimal.value := by
  have hplace : (0 : ℚ) < 10 ^ e := by positivity
  by_cases he : e ≤ decimal.exponent
  · -- The decimal is on the grid itself.
    obtain ⟨k, hk⟩ := Int.eq_ofNat_of_zero_le (show 0 ≤ decimal.exponent - e by omega)
    have hexponent : decimal.exponent = k + e := by omega
    have hvalue : decimal.value = (decimal.digits * 10 ^ k : Nat) * 10 ^ e := by
      rw [value, hexponent, ← ten_pow_mul_zpow]
      push_cast
      ring
    rw [hvalue]
    rcases Nat.lt_or_ge n (decimal.digits * 10 ^ k) with hlt | hge
    · exact .inr (mul_le_mul_of_nonneg_right (by exact_mod_cast hlt) hplace.le)
    · exact .inl (mul_le_mul_of_nonneg_right (by exact_mod_cast hge) hplace.le)
  · -- The decimal is smaller than everything with so many digits.
    left
    have hfirst : ((10 ^ (count - 1) : Nat) : ℚ) ≤ n := Nat.cast_le.2 h.first
    have hlast : (decimal.digits : ℚ) ≤ (10 ^ count : Nat) := Nat.cast_le.2 hdigits.le
    push_cast at hfirst hlast
    calc decimal.value ≤ 10 ^ count * 10 ^ decimal.exponent := mul_le_mul_of_nonneg_right hlast (by positivity)
      _ = 10 ^ (count + decimal.exponent) := ten_pow_mul_zpow _ _
      _ ≤ 10 ^ ((count - 1 : Nat) + e) := zpow_le_zpow_right₀ (by norm_num) (by omega)
      _ = 10 ^ (count - 1) * 10 ^ e := (ten_pow_mul_zpow _ _).symm
      _ ≤ n * 10 ^ e := mul_le_mul_of_nonneg_right hfirst hplace.le

theorem floor_or_next (h : OnGrid x count e n) {m : Nat} (hm : Number.HalfEven (x / 10 ^ e) m) : m = n ∨ m = n + 1 := by
  have hplace : (0 : ℚ) < 10 ^ e := by positivity
  have hlow : (n : ℚ) ≤ x / 10 ^ e := (le_div_iff₀ hplace).2 h.low
  have hhigh : x / 10 ^ e < n + 1 := (div_lt_iff₀ hplace).2 h.high
  have hle : (n : ℚ) < (m + 1 : Nat) := by
    push_cast
    linarith [hm.high]
  have hge : (m : ℚ) < (n + 2 : Nat) := by
    push_cast
    linarith [hm.low]
  have hle := Nat.cast_lt.1 hle
  have hge := Nat.cast_lt.1 hge
  omega

end OnGrid

end Decimal

/-- No natural number is nearer than the one a number is rounded to. -/
theorem Number.HalfEven.dist_le {y : ℚ} {m : Nat} (h : HalfEven y m) (k : Nat) : |m - y| ≤ |k - y| := by
  rcases lt_trichotomy m k with hlt | rfl | hgt
  · have hnext : ((m + 1 : Nat) : ℚ) ≤ k := Nat.cast_le.2 hlt
    push_cast at hnext
    rw [abs_le]
    have hk := le_abs_self ((k : ℚ) - y)
    exact ⟨by linarith [h.high], by linarith [h.low]⟩
  · rfl
  · have hnext : ((k + 1 : Nat) : ℚ) ≤ m := Nat.cast_le.2 hgt
    push_cast at hnext
    rw [abs_le]
    have hk := neg_abs_le ((k : ℚ) - y)
    exact ⟨by linarith [h.high], by linarith [h.low]⟩

namespace Decimal

/-- No point of a grid is nearer than the one a number is rounded to. -/
theorem dist_le_of_halfEven {x : ℚ} {e : Int} {m : Nat} (h : Number.HalfEven (x / 10 ^ e) m) (k : Nat) :
    |m * 10 ^ e - x| ≤ |k * 10 ^ e - x| := by
  have hplace : (0 : ℚ) < 10 ^ e := by positivity
  have hscale (k : Nat) : |k * 10 ^ e - x| = |k - x / 10 ^ e| * 10 ^ e := by
    rw [← abs_of_pos hplace, ← abs_mul, sub_mul, abs_of_pos hplace, div_mul_cancel₀ x hplace.ne']
  rw [hscale, hscale]
  exact mul_le_mul_of_nonneg_right (h.dist_le k) hplace.le

/-- The last place of the decimals with `count` digits that begin where a double begins. -/
def place (d : Dyadic) (count : Nat) : Int := magnitude (Interval.of d).mid (Interval.of d).unit - count + 1

/-- The two neighbours of a double on a grid, and which of them is nearer. -/
theorem exists_onGrid {d : Dyadic} (hd : d.mantissa ≠ 0) {count : Nat} (hcount : 0 < count) :
    let ratio := scale (Interval.of d).mid (Interval.of d).unit (-place d count)
    OnGrid d.magnitude count (place d count) (ratio.1 / ratio.2) ∧
      Number.HalfEven (d.magnitude / 10 ^ place d count) (Number.roundHalfEven ratio.1 ratio.2) := by
  intro ratio
  obtain ⟨hunit, hmid, -, hmagnitude, -⟩ := Interval.of_eq hd
  obtain ⟨hden, hratio⟩ := scale_eq (Interval.of d).mid hunit (-place d count)
  change ratio.2 ≠ 0 at hden
  change (ratio.1 : ℚ) / ratio.2 = _ at hratio
  rw [hmagnitude, zpow_neg, ← div_eq_mul_inv] at hratio
  have hplace : (0 : ℚ) < 10 ^ place d count := by positivity
  have hpos : 0 < ratio.2 := Nat.pos_of_ne_zero hden
  have hpos' : (0 : ℚ) < ratio.2 := Nat.cast_pos.2 hpos
  -- The first digit stands `count - 1` places before the last one.
  have hfirst := hasMagnitude_magnitude hmid hunit
  rw [hmagnitude] at hfirst
  have hlow : (10 : ℚ) ^ (count - 1) ≤ ratio.1 / ratio.2 := by
    have hsum : ((count - 1 : Nat) : Int) + place d count = magnitude (Interval.of d).mid (Interval.of d).unit := by
      unfold place
      omega
    rw [hratio, le_div_iff₀ hplace, ten_pow_mul_zpow, hsum]
    exact hfirst.low
  have hhigh : (ratio.1 : ℚ) / ratio.2 < 10 ^ count := by
    have hsum : (count : Int) + place d count = magnitude (Interval.of d).mid (Interval.of d).unit + 1 := by
      unfold place
      omega
    rw [hratio, div_lt_iff₀ hplace, ten_pow_mul_zpow, hsum]
    exact hfirst.high
  rw [le_div_iff₀ hpos'] at hlow
  rw [div_lt_iff₀ hpos'] at hhigh
  refine ⟨⟨?_, ?_, ?_, ?_⟩, ?_⟩
  · rw [← le_div_iff₀ hplace, ← hratio]
    exact Nat.cast_div_le
  · rw [← div_lt_iff₀ hplace, ← hratio, div_lt_iff₀ hpos']
    exact_mod_cast Nat.lt_mul_of_div_lt (Nat.lt_succ_self (ratio.1 / ratio.2)) hpos
  · exact (Nat.le_div_iff_mul_le hpos).2 (by exact_mod_cast hlow)
  · exact (Nat.div_lt_iff_lt_mul hpos).2 (by exact_mod_cast hhigh)
  · rw [← hratio]
    exact Number.halfEven_roundHalfEven ratio.1 hden

/-- What a grid has to offer: a neighbour in the reach that is as near as any, unless both are out of reach. -/
structure Offers (d : Dyadic) (count n : Nat) (offer : Option Decimal) : Prop where
  /-- Something is offered if one of the neighbours is in the reach. -/
  isSome : ∀ k, k = n ∨ k = n + 1 → d.Reaches (k * 10 ^ place d count) → offer.isSome
  /-- It is a neighbour, so it has no more digits than the upper one. -/
  digits_le : ∀ found ∈ offer, found.digits ≤ n + 1
  /-- It is in the reach. -/
  reaches : ∀ found ∈ offer, d.Reaches found.value
  /-- No neighbour in the reach is nearer. -/
  closest : ∀ found ∈ offer, ∀ k, k = n ∨ k = n + 1 → d.Reaches (k * 10 ^ place d count) →
    |found.value - d.magnitude| ≤ |k * 10 ^ place d count - d.magnitude|

theorem offers_some {d : Dyadic} {count n m : Nat} (hm : m = n ∨ m = n + 1) (hreaches : d.Reaches (m * 10 ^ place d count))
    (hclosest : ∀ k, k = n ∨ k = n + 1 → d.Reaches (k * 10 ^ place d count) →
      |m * 10 ^ place d count - d.magnitude| ≤ |k * 10 ^ place d count - d.magnitude|) :
    Offers d count n (some ⟨m, place d count⟩) where
  isSome _ _ _ := rfl
  digits_le := by
    rintro found ⟨⟩
    simp only
    omega
  reaches := by
    rintro found ⟨⟩
    exact hreaches
  closest := by
    rintro found ⟨⟩
    exact hclosest

theorem withDigits?_eq (d : Dyadic) (count : Nat) :
    let ratio := scale (Interval.of d).mid (Interval.of d).unit (-place d count)
    (Interval.of d).withDigits? count =
      if (Interval.of d).holds ⟨ratio.1 / ratio.2, place d count⟩ = true then
        if (Interval.of d).holds ⟨ratio.1 / ratio.2 + 1, place d count⟩ = true then
          some ⟨Number.roundHalfEven ratio.1 ratio.2, place d count⟩
        else some ⟨ratio.1 / ratio.2, place d count⟩
      else
        if (Interval.of d).holds ⟨ratio.1 / ratio.2 + 1, place d count⟩ = true then
          some ⟨ratio.1 / ratio.2 + 1, place d count⟩
        else none := by
  unfold Interval.withDigits? place
  dsimp only
  have hno {b : Bool} (hb : b = false) : ¬b = true := by
    rw [hb]
    exact Bool.false_ne_true
  split
  case h_1 hdown hup => rw [if_pos hdown, if_pos hup]
  case h_2 hdown hup => rw [if_pos hdown, if_neg (hno hup)]
  case h_3 hdown hup => rw [if_neg (hno hdown), if_pos hup]
  case h_4 hdown hup => rw [if_neg (hno hdown), if_neg (hno hup)]

theorem exists_offers {d : Dyadic} (hd : d.mantissa ≠ 0) {count : Nat} (hcount : 0 < count) :
    ∃ n m, OnGrid d.magnitude count (place d count) n ∧ Number.HalfEven (d.magnitude / 10 ^ place d count) m ∧
      Offers d count n ((Interval.of d).withDigits? count) := by
  obtain ⟨hgrid, hround⟩ := exists_onGrid hd hcount
  refine ⟨_, _, hgrid, hround, ?_⟩
  have hm := hgrid.floor_or_next hround
  have hdist := dist_le_of_halfEven hround
  have hholds (k : Nat) : (Interval.of d).holds ⟨k, place d count⟩ = true ↔ d.Reaches (k * 10 ^ place d count) :=
    Interval.holds_iff hd ⟨k, place d count⟩
  rw [withDigits?_eq]
  generalize scale (Interval.of d).mid (Interval.of d).unit (-place d count) = ratio at *
  generalize Number.roundHalfEven ratio.1 ratio.2 = m at *
  generalize ratio.1 / ratio.2 = n at *
  by_cases hdown : d.Reaches (n * 10 ^ place d count) <;>
    by_cases hup : d.Reaches ((n + 1 : Nat) * 10 ^ place d count)
  · rw [if_pos ((hholds n).2 hdown), if_pos ((hholds (n + 1)).2 hup)]
    refine offers_some hm ?_ fun k _ _ => hdist k
    rcases hm with rfl | rfl
    · exact hdown
    · exact hup
  · rw [if_pos ((hholds n).2 hdown), if_neg (mt (hholds (n + 1)).1 hup)]
    refine offers_some (.inl rfl) hdown ?_
    rintro k (rfl | rfl) h
    · rfl
    · exact absurd h hup
  · rw [if_neg (mt (hholds n).1 hdown), if_pos ((hholds (n + 1)).2 hup)]
    refine offers_some (.inr rfl) hup ?_
    rintro k (rfl | rfl) h
    · exact absurd h hdown
    · rfl
  · rw [if_neg (mt (hholds n).1 hdown), if_neg (mt (hholds (n + 1)).1 hup)]
    refine ⟨?_, by rintro _ ⟨⟩, by rintro _ ⟨⟩, by rintro _ ⟨⟩⟩
    rintro k (rfl | rfl) h
    · exact absurd h hdown
    · exact absurd h hup

/-- For a decimal with so many digits or fewer there is a neighbour on the grid that is no farther away, and in the
reach if the decimal is. -/
theorem exists_neighbour {d : Dyadic} {count n : Nat} (hgrid : OnGrid d.magnitude count (place d count) n)
    (hcount : 0 < count) {decimal : Decimal} (hdigits : digitCount decimal.digits ≤ count) :
    ∃ k, (k = n ∨ k = n + 1) ∧ (d.Reaches decimal.value → d.Reaches (k * 10 ^ place d count)) ∧
      |k * 10 ^ place d count - d.magnitude| ≤ |decimal.value - d.magnitude| := by
  have hlt : decimal.digits < 10 ^ count :=
    (lt_pow_digitCount decimal.digits).trans_le (Nat.pow_le_pow_right (by decide) hdigits)
  have hlow := hgrid.low
  have hhigh := hgrid.high.le
  rcases hgrid.le_or_le hcount hlt with hle | hge
  · refine ⟨n, .inl rfl, fun h => h.between d.reaches_magnitude hle hlow, ?_⟩
    rw [abs_of_nonpos (by linarith), abs_of_nonpos (by linarith)]
    linarith
  · refine ⟨n + 1, .inr rfl, fun h => ?_, ?_⟩
    · push_cast
      exact d.reaches_magnitude.between h hhigh hge
    · push_cast
      rw [abs_of_nonneg (by linarith), abs_of_nonneg (by linarith)]
      linarith

/-- What a grid offers is as near as any decimal with so many digits or fewer. -/
theorem Offers.of_decimal {d : Dyadic} {count n : Nat} {offer : Option Decimal} (h : Offers d count n offer)
    (hgrid : OnGrid d.magnitude count (place d count) n) (hcount : 0 < count) {decimal : Decimal}
    (hdigits : digitCount decimal.digits ≤ count) (hreaches : d.Reaches decimal.value) :
    offer.isSome ∧ ∀ found ∈ offer, |found.value - d.magnitude| ≤ |decimal.value - d.magnitude| := by
  obtain ⟨k, hk, hkreaches, hkdist⟩ := exists_neighbour hgrid hcount hdigits
  have hkreaches := hkreaches hreaches
  refine ⟨h.isSome k hk hkreaches, fun found hfound => ?_⟩
  exact (h.closest found hfound k hk hkreaches).trans hkdist

/-! ## The search -/

theorem Interval.firstFrom_eq (i : Interval) (count : Nat) {k fuel : Nat}
    (hk : (i.withDigits? (count + k)).isSome) (hfuel : k < fuel) : ∃ found j, j ≤ k ∧ i.firstFrom fuel count = some found ∧
      i.withDigits? (count + j) = some found ∧ ∀ l, l < j → i.withDigits? (count + l) = none := by
  induction k generalizing fuel count with
  | zero =>
    obtain ⟨fuel, rfl⟩ := Nat.exists_eq_succ_of_ne_zero hfuel.ne'
    obtain ⟨found, hfound⟩ := Option.isSome_iff_exists.1 hk
    rw [Nat.add_zero] at hfound
    refine ⟨found, 0, le_rfl, ?_, hfound, fun l hl => absurd hl (Nat.not_lt_zero l)⟩
    rw [firstFrom, hfound]
  | succ k ih =>
    obtain ⟨fuel, rfl⟩ := Nat.exists_eq_succ_of_ne_zero (Nat.ne_zero_of_lt hfuel)
    rw [firstFrom]
    cases hcount : i.withDigits? count with
    | some found => exact ⟨found, 0, Nat.zero_le _, rfl, hcount, fun l hl => absurd hl (Nat.not_lt_zero l)⟩
    | none =>
      rw [← Nat.add_assoc, Nat.add_right_comm] at hk
      obtain ⟨found, j, hj, hfirst, hfound, hnone⟩ := ih (count + 1) hk (Nat.lt_of_succ_lt_succ hfuel)
      rw [Nat.add_right_comm, Nat.add_assoc] at hfound
      refine ⟨found, j + 1, Nat.succ_le_succ hj, hfirst, hfound, fun l hl => ?_⟩
      cases l with
      | zero => exact hcount
      | succ l =>
        rw [← Nat.add_assoc, Nat.add_right_comm]
        exact hnone l (Nat.lt_of_succ_lt_succ hl)

/-- A place of the grid of decimals with seventeen digits is narrower than the reach of the double. -/
theorem withDigits?_seventeen {d : Dyadic} (hc : d.Canonical) (hd : d.mantissa ≠ 0) :
    ((Interval.of d).withDigits? 17).isSome := by
  obtain ⟨n, m, hgrid, hround, hoffers⟩ := exists_offers hd (show 0 < 17 by decide)
  refine hoffers.isSome m (hgrid.floor_or_next hround) ?_
  have hplace : (0 : ℚ) < 10 ^ place d 17 := by positivity
  have hlast : (0 : ℚ) < 2 ^ d.exponent := by positivity
  -- The place is at most a part of the double, which is less than `2 ^ 53` of its last places.
  have hfirst : ((10 ^ 16 : Nat) : ℚ) ≤ n := Nat.cast_le.2 hgrid.first
  push_cast at hfirst
  have hpart : (10 : ℚ) ^ 16 * 10 ^ place d 17 ≤ d.magnitude :=
    (mul_le_mul_of_nonneg_right hfirst hplace.le).trans hgrid.low
  have hnarrow : 10 ^ place d 17 < 2 * d.below * 2 ^ d.exponent := by
    unfold Dyadic.magnitude at hpart
    unfold Dyadic.below
    split
    case isTrue hpower =>
      rw [hpower.1] at hpart
      push_cast at hpart
      linarith
    case isFalse =>
      have hmantissa : (d.mantissa : ℚ) ≤ (2 ^ 53 : Nat) := Nat.cast_le.2 hc.lt.le
      have hless := mul_le_mul_of_nonneg_right hmantissa hlast.le
      push_cast at hless
      linarith
  have hbelow := mul_le_mul_of_nonneg_right d.below_le hlast.le
  -- So is the distance to the nearer neighbour.
  have hlow := (le_div_iff₀ hplace).1 hround.low
  have hhigh := (div_le_iff₀ hplace).1 hround.high
  simp only [Dyadic.magnitude] at hlow hhigh
  have habove : d.lower < m * 10 ^ place d 17 := by
    unfold Dyadic.lower
    linarith
  have hunder : m * 10 ^ place d 17 < d.upper := by
    unfold Dyadic.upper
    linarith
  exact ⟨habove.le, hunder.le, fun _ => ⟨habove, hunder⟩⟩

/-! ## Zeros at the end -/

theorem value_dropZeros (fuel : Nat) (decimal : Decimal) : (dropZeros fuel decimal).value = decimal.value := by
  induction fuel generalizing decimal with
  | zero => rfl
  | succ fuel ih =>
    rw [dropZeros]
    split
    case isTrue h =>
      obtain ⟨k, hk⟩ := Nat.dvd_of_mod_eq_zero h.1
      rw [ih, value, value, hk, Nat.mul_div_cancel_left k (by decide), zpow_add₀ (by norm_num)]
      push_cast
      ring
    case isFalse => rfl

theorem digits_dropZeros_le (fuel : Nat) (decimal : Decimal) : (dropZeros fuel decimal).digits ≤ decimal.digits := by
  induction fuel generalizing decimal with
  | zero => rfl
  | succ fuel ih =>
    rw [dropZeros]
    split
    case isTrue => exact (ih _).trans (Nat.div_le_self _ _)
    case isFalse => rfl

theorem digits_dropZeros_pow {fuel k : Nat} (hk : k ≤ fuel) (e : Int) : (dropZeros fuel ⟨10 ^ k, e⟩).digits = 1 := by
  induction k generalizing fuel e with
  | zero => cases fuel <;> rfl
  | succ k ih =>
    obtain ⟨fuel, rfl⟩ := Nat.exists_eq_succ_of_ne_zero (Nat.ne_zero_of_lt hk)
    have hmod : 10 ^ (k + 1) % 10 = 0 := by rw [pow_succ, Nat.mul_mod_left]
    have hdiv : 10 ^ (k + 1) / 10 = 10 ^ k := by rw [pow_succ, Nat.mul_div_cancel _ (by decide)]
    rw [dropZeros, if_pos ⟨hmod, by positivity⟩]
    simp only [hdiv]
    exact ih (Nat.le_of_succ_le_succ hk) (e + 1)

/-! ## The decimal found -/

/-- What is asked of the decimal that stands for a double. -/
structure Shortest (d : Dyadic) (decimal : Decimal) : Prop where
  /-- It is read as the double. -/
  reaches : d.Reaches decimal.value
  /-- No decimal with fewer digits is. -/
  fewest : ∀ other : Decimal, d.Reaches other.value → digitCount decimal.digits ≤ digitCount other.digits
  /-- Of those with as many digits none is nearer. -/
  closest : ∀ other : Decimal, d.Reaches other.value → digitCount other.digits = digitCount decimal.digits →
    |decimal.value - d.magnitude| ≤ |other.value - d.magnitude|

/-- The decimal that is found stands on the first grid that has something to offer, and is the point it offers. -/
theorem exists_shortest {d : Dyadic} (hc : d.Canonical) (hd : d.mantissa ≠ 0) :
    ∃ count n found, 0 < count ∧ OnGrid d.magnitude count (place d count) n ∧ Offers d count n (some found) ∧
      (shortest d).value = found.value ∧ digitCount (shortest d).digits = count ∧
      ∀ other : Decimal, d.Reaches other.value → count ≤ digitCount other.digits := by
  obtain ⟨found, j, hj, hfirst, hfound, hnone⟩ :=
    Interval.firstFrom_eq (Interval.of d) 1 (k := 16) (withDigits?_seventeen hc hd) (show 16 < 17 by decide)
  obtain ⟨n, -, hgrid, -, hoffers⟩ := exists_offers hd (show 0 < 1 + j by omega)
  rw [hfound] at hoffers
  have hshortest : shortest d = dropZeros 20 found := by rw [shortest, hfirst]
  have hfewest (other : Decimal) (hother : d.Reaches other.value) : 1 + j ≤ digitCount other.digits := by
    by_contra hless
    have hpos := digitCount_pos other.digits
    obtain ⟨l, hl⟩ := Nat.exists_eq_add_of_le (show 1 ≤ digitCount other.digits by omega)
    obtain ⟨n', -, hgrid', -, hoffers'⟩ := exists_offers hd (show 0 < 1 + l by omega)
    have hsome := (hoffers'.of_decimal hgrid' (by omega) hl.le hother).1
    rw [hnone l (by omega)] at hsome
    cases hsome
  have hdigits := hoffers.digits_le found rfl
  refine ⟨1 + j, n, found, by omega, hgrid, hoffers, ?_, le_antisymm ?_ ?_, hfewest⟩
  · rw [hshortest, value_dropZeros]
  · -- A point with more digits than the others of its grid is a power of ten.
    rw [hshortest]
    rcases Nat.lt_or_ge found.digits (10 ^ (1 + j)) with hless | hmore
    · exact digitCount_le (by omega) ((digits_dropZeros_le 20 found).trans_lt hless)
    · have hpower : found = ⟨10 ^ (1 + j), found.exponent⟩ := by
        rw [← show found.digits = 10 ^ (1 + j) from le_antisymm (hdigits.trans hgrid.last) hmore]
      rw [hpower, digits_dropZeros_pow (by omega)]
      exact Nat.le_add_right 1 j
  · refine hfewest _ ?_
    rw [hshortest, value_dropZeros]
    exact hoffers.reaches found rfl

/-- The decimal that is found is the shortest one. -/
theorem shortest_spec {d : Dyadic} (hc : d.Canonical) (hd : d.mantissa ≠ 0) : Shortest d (shortest d) := by
  obtain ⟨count, n, found, hcount, hgrid, hoffers, hvalue, hdigits, hfewest⟩ := exists_shortest hc hd
  refine ⟨by rw [hvalue]; exact hoffers.reaches found rfl, by rw [hdigits]; exact hfewest, fun other hother hsame => ?_⟩
  rw [hdigits] at hsame
  rw [hvalue]
  exact (hoffers.of_decimal hgrid hcount hsame.le hother).2 found rfl

end Decimal

end ScriptEngine
