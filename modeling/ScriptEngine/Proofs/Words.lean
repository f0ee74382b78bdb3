import ScriptEngine.Machine.Operator
import ScriptEngine.Proofs.Doubles

/-!
# Operators on words

The bitwise operators compute with natural numbers and integers; here they are compared with vectors of 32 bits.
The vector of a number is its integer part modulo `2 ^ 32`, and whatever is not finite has the vector of zero. The
operators read vectors as signed integers, except for the shift that moves zeros in, and a double holds every such
integer exactly.

## Main definitions

* `Number.word`: the vector of a number.
* `Operator.Gives`: a computation that gives an integer.

## Main results

* `Number.toUint32_eq`, `Number.toInt32_eq`: the two readings of a word.
* `Operator.words`: the bitwise operators on numbers.
-/

namespace ScriptEngine

namespace Number

/-- The 32-bit vector of a number: that of its integer part, or of zero if it is not finite. -/
def word (x : Float) : BitVec 32 := BitVec.ofInt 32 (((value? x).map towardZero).getD 0)

/-! ## Readings -/

theorem toUint32_eq (x : Float) : toUint32 x = (word x).toNat := by
  rw [word, ← truncate?_eq, BitVec.toNat_ofInt]
  rfl

theorem signed32_toNat (v : BitVec 32) : signed32 v.toNat = v.toInt := by
  have hv := v.isLt
  rw [BitVec.toInt_eq_toNat_cond]
  unfold signed32
  extract_lets w
  have hw : w = v.toNat := Nat.mod_eq_of_lt hv
  rw [hw]
  split <;> split <;> omega

theorem toInt32_eq (x : Float) : toInt32 x = (word x).toInt := by
  rw [toInt32, toUint32_eq, signed32_toNat]

theorem shiftCount_eq (y : Float) : shiftCount y = ((word y).setWidth 5).toNat := by
  rw [shiftCount, toUint32_eq, BitVec.toNat_setWidth]

/-- Only the low 32 bits of a natural number count where a word is made from it. -/
theorem ofWord_eq {n : Nat} {v : BitVec 32} (h : n % 2 ^ 32 = v.toNat) : ofWord n = ofInt v.toInt := by
  have hsigned : signed32 n = signed32 v.toNat := by
    rw [← h]
    simp [signed32]
  rw [ofWord, hsigned, signed32_toNat]

/-- The signed reading of a word is small enough for a double. -/
theorem natAbs_toInt_lt (v : BitVec 32) : v.toInt.natAbs < 2 ^ 53 := by
  have hlow := v.le_toInt
  have hhigh := v.toInt_lt
  omega

theorem natAbs_toNat_lt (v : BitVec 32) : (v.toNat : Int).natAbs < 2 ^ 53 := by
  have hhigh := v.isLt
  omega

/-! ## Operators -/

section

variable (x y : Float)

theorem bitAnd_eq : bitAnd x y = ofInt (word x &&& word y).toInt := by
  rw [bitAnd, toUint32_eq, toUint32_eq]
  refine ofWord_eq ?_
  rw [← BitVec.toNat_and, BitVec.toNat_mod_cancel]

theorem bitOr_eq : bitOr x y = ofInt (word x ||| word y).toInt := by
  rw [bitOr, toUint32_eq, toUint32_eq]
  refine ofWord_eq ?_
  rw [← BitVec.toNat_or, BitVec.toNat_mod_cancel]

theorem bitXor_eq : bitXor x y = ofInt (word x ^^^ word y).toInt := by
  rw [bitXor, toUint32_eq, toUint32_eq]
  refine ofWord_eq ?_
  rw [← BitVec.toNat_xor, BitVec.toNat_mod_cancel]

theorem bitNot_eq : bitNot x = ofInt (~~~word x).toInt := by
  rw [bitNot, toUint32_eq]
  refine ofWord_eq ?_
  rw [BitVec.toNat_not]
  have hx := (word x).isLt
  omega

theorem shiftLeft_eq : shiftLeft x y = ofInt (word x <<< ((word y).setWidth 5).toNat).toInt := by
  rw [shiftLeft, toUint32_eq, shiftCount_eq]
  refine ofWord_eq ?_
  rw [BitVec.toNat_shiftLeft, Nat.shiftLeft_eq]
  rfl

/-- The quotient of a signed reading by a power of two, rounded down, is the reading of the shifted word. -/
theorem shiftRight_eq : shiftRight x y = ofInt ((word x).sshiftRight ((word y).setWidth 5).toNat).toInt := by
  rw [shiftRight, toInt32_eq, shiftCount_eq, BitVec.toInt_sshiftRight, Int.shiftRight_eq_div_pow,
    Int.fdiv_eq_ediv_of_nonneg _ (Int.natCast_nonneg _)]
  rfl

theorem shiftRightUnsigned_eq :
    shiftRightUnsigned x y = ofInt (word x >>> ((word y).setWidth 5).toNat).toNat := by
  rw [shiftRightUnsigned, toUint32_eq, shiftCount_eq, BitVec.toNat_ushiftRight, Nat.shiftRight_eq_div_pow]
  rfl

end

end Number

namespace Operator

open Number

/-- A computation that gives an integer, as the double that is exactly this integer. -/
def Gives (p : Proc Value) (i : Int) : Prop := ∃ x, p = (return .num x) ∧ x = ofInt i ∧ value? x = some (i : ℚ)

theorem gives_toInt {x : Float} {v : BitVec 32} (h : x = ofInt v.toInt) : Gives (return .num x) v.toInt :=
  ⟨x, rfl, h, h ▸ value?_ofInt (natAbs_toInt_lt v)⟩

theorem gives_toNat {x : Float} {v : BitVec 32} (h : x = ofInt v.toNat) : Gives (return .num x) v.toNat :=
  ⟨x, rfl, h, h ▸ value?_ofInt (natAbs_toNat_lt v)⟩

/-- The bitwise operators on numbers are those on the 32-bit vectors of their integer parts. The results are read as
signed integers, and shifts are by the low five bits of the right operand; the shift to the right that moves zeros in
is read as an unsigned integer. Both conversions to integers of 32 bits read the vector of their number. -/
theorem words (a b : Float) :
    Gives (apply .bitAnd (return .num a) (return .num b)) (word a &&& word b).toInt ∧
      Gives (apply .bitOr (return .num a) (return .num b)) (word a ||| word b).toInt ∧
      Gives (apply .bitXor (return .num a) (return .num b)) (word a ^^^ word b).toInt ∧
      Gives (applyUnary .bitNot (return .num a)) (~~~word a).toInt ∧
      Gives (apply .shiftLeft (return .num a) (return .num b)) (word a <<< ((word b).setWidth 5).toNat).toInt ∧
      Gives (apply .shiftRight (return .num a) (return .num b))
        ((word a).sshiftRight ((word b).setWidth 5).toNat).toInt ∧
      Gives (apply .shiftRightUnsigned (return .num a) (return .num b))
        (word a >>> ((word b).setWidth 5).toNat).toNat ∧
      Proc.toInt32 (.num a) = (return (word a).toInt) ∧ Proc.toUint32 (.num a) = (return (word a).toNat) := by
  refine ⟨gives_toInt (bitAnd_eq a b), gives_toInt (bitOr_eq a b), gives_toInt (bitXor_eq a b),
    gives_toInt (bitNot_eq a), gives_toInt (shiftLeft_eq a b), gives_toInt (shiftRight_eq a b),
    gives_toNat (shiftRightUnsigned_eq a b), ?_, ?_⟩
  · rw [← toInt32_eq a]
    rfl
  · rw [← toUint32_eq a]
    rfl

/-- The first number whose signed reading is negative. -/
example : toInt32 2147483648.0 = -2147483648 := by decide +kernel

end Operator

end ScriptEngine
