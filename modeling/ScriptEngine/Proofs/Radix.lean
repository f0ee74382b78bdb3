import Mathlib
import ScriptEngine.Builtin.Service
import ScriptEngine.Proofs.Comparison

/-!
# Integers in other bases

An integer is written in a base with the digits of the base and a minus sign in front if it is negative. Reading skips
the blanks in front of a numeral, takes its sign and then as many digits of the base as there are, in either case. What
was written has nothing else in it, and it does not look like a numeral with a mark for base sixteen, so it is read
as the integer that was written.

## Main definitions

* `Service.IsDigit`: what is read as a digit.
* `Service.Digits`: runs of digits and the numbers that they stand for.

## Main results

* `Service.parseInteger_digits`: reading a run of digits with a sign.
* `Number.toRadix_integer`: how an integer is written.
* `Service.parseInt_toRadix`: reading what was written.
-/

namespace ScriptEngine

namespace Text

/-- A capital letter for a small one. -/
def capital (c : CodePoint) : CodePoint := if 97 ≤ c && c ≤ 122 then c - 32 else c

theorem upper_eq_map {t : Text} (ht : ∀ c ∈ t, c < 128) : upper t = t.map capital := by
  induction t with
  | nil => rfl
  | cons c t ih =>
    obtain ⟨hc, ht⟩ := List.forall_mem_cons.1 ht
    have hupper : upperOf c = [capital c] := by
      rw [upperOf, if_pos hc, capital]
      split <;> rfl
    rw [List.map_cons, ← ih ht, upper, List.flatMap_cons, hupper]
    rfl

theorem length_digitsLoop (base fuel n : Nat) (rest : Text) :
    (digitsLoop base fuel n rest).length ≤ fuel + rest.length := by
  induction fuel generalizing n rest with
  | zero => exact (Nat.zero_add _).ge
  | succ fuel ih =>
    simp only [digitsLoop]
    split
    · simp
    · have hless := ih (n / base) (digitPoint (n % base) :: rest)
      rw [List.length_cons] at hless
      omega

/-- A numeral has no more digits than the number has bits. -/
theorem length_ofNatBase {n k : Nat} (base : Nat) (hn : n < 2 ^ k) : (ofNatBase base n).length ≤ k + 1 := by
  have hlength := length_digitsLoop base (n.log2 + 1) n []
  have hlog : n.log2 ≤ k := by
    by_cases hzero : n = 0
    · simp [hzero]
    · exact ((Nat.log2_lt hzero).2 hn).le
  rw [List.length_nil] at hlength
  exact hlength.trans (by omega)

end Text

namespace Service

open Text (isBlank digitPoint capital)

/-! ## Digits -/

/-- A character of ASCII that is read as a digit of a base. -/
structure IsDigit (base : Nat) (c : CodePoint) (v : Nat) : Prop where
  /-- It is one of ASCII. -/
  ascii : c < 128
  /-- Its value as a digit. -/
  value : smallDigit? base c = some v

theorem isDigit_digitPoint {base v : Nat} (hv : v < base) (hbase : base ≤ 36) :
    IsDigit base (digitPoint v) v ∧ IsDigit base (capital (digitPoint v)) v := by
  have hall : ∀ v < 36, Text.lower [digitPoint v] = [digitPoint v] ∧
      Text.lower [capital (digitPoint v)] = [digitPoint v] ∧ digitPoint v < 128 ∧ capital (digitPoint v) < 128 ∧
      Text.digitValue? (digitPoint v) = some v := by decide
  obtain ⟨hlower, hcapital, hascii, hascii', hvalue⟩ := hall v (by omega)
  constructor
  · exact ⟨hascii, by simp [smallDigit?, hlower, hvalue, hv]⟩
  · exact ⟨hascii', by simp [smallDigit?, hcapital, hvalue, hv]⟩

/-- A run of digits of a base, and the number that it stands for. -/
inductive Digits (base : Nat) : Text → Nat → Prop
  | one {c v : Nat} (hc : IsDigit base c v) : Digits base [c] v
  | more {t : Text} {n c v : Nat} (ht : Digits base t n) (hc : IsDigit base c v) : Digits base (t ++ [c]) (base * n + v)

/-- What is written for a number stands for the number, whatever is done to its letters that leaves them digits. -/
theorem digits_ofNatBase {base : Nat} (hlow : 2 ≤ base) {f : CodePoint → CodePoint}
    (hf : ∀ v < base, IsDigit base (f (digitPoint v)) v) (n : Nat) :
    Digits base ((Text.ofNatBase base n).map f) n := by
  induction n using Nat.strongRecOn with
  | _ n ih =>
    by_cases h : n < base
    · rw [Text.ofNatBase_of_lt h]
      exact .one (hf n h)
    · have hrest := ih (n / base) (Nat.div_lt_self (by omega) (by omega))
      have hmore := hrest.more (hf (n % base) (Nat.mod_lt _ (by omega)))
      rw [Nat.div_add_mod] at hmore
      rw [Text.ofNatBase_of_le hlow (not_lt.1 h), List.map_append]
      exact hmore

namespace Digits

variable {base n : Nat} {t : Text}

theorem ne_nil (h : Digits base t n) : t ≠ [] := by
  cases h with
  | one => exact List.cons_ne_nil _ _
  | more => exact List.append_ne_nil_of_right_ne_nil _ (List.cons_ne_nil _ _)

theorem isDigit (h : Digits base t n) : ∀ c ∈ t, ∃ v, IsDigit base c v := by
  induction h with
  | one hc => exact List.forall_mem_singleton.2 ⟨_, hc⟩
  | more _ hc ih => exact List.forall_mem_append.2 ⟨ih, List.forall_mem_singleton.2 ⟨_, hc⟩⟩

/-- The number is what reading the digits from the left computes. -/
theorem foldl_eq (h : Digits base t n) : t.foldl (fun n c => base * n + (smallDigit? base c).getD 0) 0 = n := by
  induction h with
  | one hc => simp [hc.value]
  | more _ hc ih => rw [List.foldl_append, ih, List.foldl_cons, List.foldl_nil, hc.value, Option.getD_some]

end Digits

/-- What is read as a digit is neither a blank nor a sign. -/
theorem IsDigit.ne {base c v : Nat} (h : IsDigit base c v) : ¬isBlank c ∧ c ≠ 43 ∧ c ≠ 45 := by
  have hall : ∀ c < 128, (isBlank c || c == 43 || c == 45) → Text.lower [c] = [c] ∧ Text.digitValue? c = none := by decide
  have hnone (hother : (isBlank c || c == 43 || c == 45) = true) : smallDigit? base c = none := by
    obtain ⟨hlower, hvalue⟩ := hall c h.ascii hother
    simp [smallDigit?, hlower, hvalue]
  have hdigit : ¬(isBlank c || c == 43 || c == 45) = true := by
    intro hother
    exact absurd ((hnone hother).symm.trans h.value) (by simp)
  simpa [and_assoc] using hdigit

/-- The mark of base sixteen is no digit of it. -/
theorem IsDigit.ne_mark {c v : Nat} (h : IsDigit 16 c v) : c ≠ 120 ∧ c ≠ 88 := by
  have hsmall : smallDigit? 16 120 = none ∧ smallDigit? 16 88 = none := by decide
  constructor
  · rintro rfl
    exact absurd (hsmall.1.symm.trans h.value) (by simp)
  · rintro rfl
    exact absurd (hsmall.2.symm.trans h.value) (by simp)

/-! ## Reading integers -/

/-- The digits of a base do not look like a numeral with the mark of base sixteen. -/
theorem Digits.startsWith_mark {n : Nat} {t : Text} (h : Digits 16 t n) :
    t.startsWith "0x" = false ∧ t.startsWith "0X" = false := by
  have hmark {c : CodePoint} (hc : c = 120 ∨ c = 88) : Text.startsWith t [48, c] = false := by
    rw [Text.startsWith, Bool.eq_false_iff, ne_eq, List.isPrefixOf_iff_prefix]
    intro hfront
    obtain ⟨v, hv⟩ := h.isDigit c (hfront.subset (by simp))
    exact hc.elim hv.ne_mark.1 hv.ne_mark.2
  exact ⟨hmark (.inl rfl), hmark (.inr rfl)⟩

theorem takeSign_append {base n : Nat} {t : Text} (ht : Digits base t n) (negative : Bool) :
    takeSign ((if negative then "-" else [] : Text) ++ t) = (negative, t) := by
  cases negative
  · obtain ⟨c, rest, rfl⟩ := List.exists_cons_of_ne_nil ht.ne_nil
    obtain ⟨v, hv⟩ := ht.isDigit c List.mem_cons_self
    obtain ⟨-, hplus, hminus⟩ := hv.ne
    simp only [Bool.false_eq_true, if_false, List.nil_append]
    unfold takeSign
    split
    · simp_all
    · simp_all
    · rfl
  · rfl

theorem stripStart_append {blanks s : Text} (hblanks : ∀ c ∈ blanks, isBlank c) (hs : ∀ c ∈ s.head?, ¬isBlank c) :
    Text.stripStart (blanks ++ s) = s := by
  rw [Text.stripStart, Text.trimStart, List.dropWhile_append_of_pos hblanks]
  cases s with
  | nil => rfl
  | cons c s => exact List.dropWhile_cons_of_neg (hs c rfl)

/-- Reading a run of digits of a base, after blanks and a sign. -/
theorem parseInteger_digits {base n : Nat} (hlow : 2 ≤ base) (hhigh : base ≤ 36) {blanks t : Text}
    (hblanks : ∀ c ∈ blanks, isBlank c) (ht : Digits base t n) (hlength : t.length ≤ mostDigits) {negative : Bool}
    {x : Float} (hx : Number.ofInt? (if negative then -(n : Int) else n) = some x) :
    parseInteger (blanks ++ ((if negative then "-" else [] : Text) ++ t)) base = return .num x := by
  have hstrip : Text.stripStart (blanks ++ ((if negative then "-" else [] : Text) ++ t)) =
      (if negative then "-" else [] : Text) ++ t := by
    refine stripStart_append hblanks ?_
    cases negative
    · intro c hc
      obtain ⟨v, hv⟩ := ht.isDigit c (List.mem_of_mem_head? hc)
      exact hv.ne.1
    · intro c hc
      cases hc
      decide
  have hrange : ¬((base : Int) ≠ 0 ∧ ((base : Int) < 2 ∨ 36 < (base : Int))) := by omega
  have hmark : (((base : Int) == 0 || (base : Int) == 16) && (t.startsWith "0x" || t.startsWith "0X")) = false := by
    by_cases hbase : base = 16
    · subst hbase
      simp [ht.startsWith_mark]
    · have hother : ((base : Int) == 0 || (base : Int) == 16) = false := by
        simp
        omega
      rw [hother, Bool.false_and]
  have hzero : ¬(base : Int) = 0 := by omega
  have htake : t.takeWhile (fun c => (smallDigit? base c).isSome) = t := by
    refine List.takeWhile_eq_self_iff.2 fun c hc => ?_
    obtain ⟨v, hv⟩ := ht.isDigit c hc
    rw [hv.value]
    rfl
  have hempty : t.isEmpty = false := List.isEmpty_eq_false_iff.2 ht.ne_nil
  have hascii : t.any (127 < ·) = false := by
    rw [List.any_eq_false]
    intro c hc
    obtain ⟨v, hv⟩ := ht.isDigit c hc
    have hlt := hv.ascii
    simpa using Nat.le_of_lt_succ hlt
  have hfew : ¬mostDigits < t.length := not_lt.2 hlength
  unfold parseInteger
  simp only [hstrip, takeSign_append ht, if_neg hrange, hmark, Bool.false_eq_true, if_false, if_neg hzero,
    Int.toNat_natCast, htake, hempty, hascii, decide_eq_false hfew, Bool.and_false, Bool.or_false, ht.foldl_eq, hx]

end Service

/-! ## Writing integers -/

namespace Number

variable {x : Float} {d : Dyadic} {i : Int}

/-- A finite double that is an integer, as an exact number. -/
theorem magnitude_of_integer (hvalue : d.value = i) : d.magnitude = i.natAbs ∧ (d.mantissa = 0 ↔ i = 0) ∧
    (d.negative && d.mantissa != 0) = decide (i < 0) := by
  have hzero : d.mantissa = 0 ↔ i = 0 := by
    rw [← d.value_eq_zero_iff, hvalue]
    exact Int.cast_eq_zero
  refine ⟨?_, hzero, ?_⟩
  · rw [← d.abs_value, hvalue, Nat.cast_natAbs, Int.cast_abs]
  · rw [d.shown_sign, hvalue]
    simp only [Int.cast_lt_zero]

/-- A positive double that is an integer is the double of that integer. -/
theorem decode_ofNat_of_magnitude {n : Nat} (hc : d.Canonical) (hmagnitude : d.magnitude = n) :
    decode (ofNat n) = some { d with negative := false } := by
  have hround := rounds_nearest false n one_ne_zero
  rw [Nat.cast_one, div_one] at hround
  have hcanonical : ({ d with negative := false } : Dyadic).Canonical := ⟨hc.lt, hc.full, hc.least, hc.greatest⟩
  refine (hround.decode_iff hcanonical).2 ?_
  rw [← hmagnitude]
  exact Dyadic.reaches_magnitude { d with negative := false }

/-- How an integer is written in a base. -/
theorem toRadix_integer (hx : value? x = some (i : ℚ)) (hi : i.natAbs < 10 ^ 21) (base : Nat) :
    toRadix x base = (if i < 0 then "-" else [] : Text) ++ Text.ofNatBase base i.natAbs := by
  obtain ⟨d, hd, hvalue⟩ := Option.map_eq_some_iff.1 hx
  obtain ⟨hmagnitude, hzero, hsign⟩ := magnitude_of_integer hvalue
  obtain ⟨hinteger, hfloor⟩ := (d.isInteger_iff _).2 hmagnitude
  unfold toRadix
  by_cases hbase : base = 10
  · subst hbase
    simp only [if_true, toText, hd, magnitudeText, hinteger, hfloor, Nat.pow_eq, decide_eq_true hi, Bool.and_true]
    by_cases hmantissa : d.mantissa = 0
    · rw [if_pos hmantissa, hzero.1 hmantissa]
      rfl
    · rw [bne_iff_ne.2 hmantissa, Bool.and_true] at hsign
      rw [if_neg hmantissa, hsign]
      by_cases hneg : i < 0
      · simp [hneg, Text.ofNat]
      · simp [hneg, Text.ofNat]
  · have habs : x.abs = ofNat i.natAbs := abs_eq hd (decode_ofNat_of_magnitude (canonical_of_decode hd) hmagnitude)
    have hnone : ofNat i.natAbs - ofNat i.natAbs = 0.0 :=
      difference_self (decode_ofNat_of_magnitude (canonical_of_decode hd) hmagnitude)
    have hend : ((0.0 : Float) == 0) = true := by decide +kernel
    simp only [if_neg hbase, hd, hfloor, habs, hnone, hend, if_true, hsign, decide_eq_true_eq]

/-- An integer that a double is has that double, where zero has the one without a sign. -/
theorem ofInt?_of_value (hx : value? x = some (i : ℚ)) : ofInt? i = some (if i = 0 then 0.0 else x) := by
  have hsame : ofInt i = if i = 0 then 0.0 else x := by
    obtain ⟨d, hd, hvalue⟩ := Option.map_eq_some_iff.1 hx
    obtain ⟨hmagnitude, hzero, hsign⟩ := magnitude_of_integer hvalue
    by_cases hi : i = 0
    · rw [if_pos hi, hi]
      decide +kernel
    · have hmantissa : d.mantissa ≠ 0 := mt hzero.1 hi
      rw [bne_iff_ne.2 hmantissa, Bool.and_true] at hsign
      have hround := rounds_nearest d.negative i.natAbs one_ne_zero
      rw [Nat.cast_one, div_one] at hround
      rw [if_neg hi, ofInt, ← hsign, hround.eq_iff hd, ← hmagnitude]
      exact d.reaches_magnitude
  have hfinite : isFinite (if i = 0 then 0.0 else x) = true := by
    split
    · decide +kernel
    · obtain ⟨d, hd, -⟩ := Option.map_eq_some_iff.1 hx
      rw [isFinite, hd]
      rfl
  rw [ofInt?, hsame, if_pos hfinite]

end Number

/-! ## Reading what was written -/

namespace Service

open Text (isBlank)

theorem toInt32_ofNat {base : Nat} (hbase : base ≤ 36) : Number.toInt32 (Number.ofNat base) = base := by
  have hall : ∀ base < 37, Number.toInt32 (Number.ofNat base) = (base : Int) := by decide +kernel
  exact hall base (by omega)

theorem invoke_parseInt {t : Text} {base : Nat} (hbase : base ≤ 36) {x : Float}
    (h : parseInteger t base = return .num x) (invoker : Option FrameId) (this : Value) :
    Service.invoke .parseInt ⟨invoker, this, [.str t, .num (Number.ofNat base)]⟩ = return .num x := by
  have hresult : Service.result .parseInt ⟨invoker, this, [.str t, .num (Number.ofNat base)]⟩ = return .num x := by
    rw [← h, ← toInt32_ofNat hbase]
    rfl
  have haccepts : Service.accepts .parseInt [Value.str t, .num (Number.ofNat base)].length = true := by
    change Service.accepts .parseInt 2 = true
    decide
  rw [Service.invoke, if_pos haccepts, hresult]
  rfl

/-- An integer of less than twenty-two digits is read back from what is written for it in any base, also with blanks in
front and in capital letters. Zero comes back without a sign. -/
theorem parseInt_toRadix {x : Float} {i : Int} (hx : Number.value? x = some (i : ℚ)) (hi : i.natAbs < 10 ^ 21)
    {base : Nat} (hlow : 2 ≤ base) (hhigh : base ≤ 36) {blanks : Text} (hblanks : ∀ c ∈ blanks, isBlank c)
    (invoker : Option FrameId) (this : Value) :
    Service.invoke .parseInt
        ⟨invoker, this, [.str (blanks ++ Number.toRadix x base), .num (Number.ofNat base)]⟩ =
      (return .num (if i = 0 then 0.0 else x)) ∧
    Service.invoke .parseInt
        ⟨invoker, this, [.str (blanks ++ Text.upper (Number.toRadix x base)), .num (Number.ofNat base)]⟩ =
      return .num (if i = 0 then 0.0 else x) := by
  have hwritten := Number.toRadix_integer hx hi base
  have hlength : (Text.ofNatBase base i.natAbs).length ≤ mostDigits :=
    (Text.length_ofNatBase base (hi.trans (by decide : 10 ^ 21 < 2 ^ 70))).trans (by decide)
  have hread : Number.ofInt? (if decide (i < 0) then -(i.natAbs : Int) else i.natAbs) =
      some (if i = 0 then 0.0 else x) := by
    rw [← Number.ofInt?_of_value hx]
    congr 1
    simp only [decide_eq_true_eq]
    split <;> omega
  have hsmall := digits_ofNatBase hlow (f := id) (fun v hv => (isDigit_digitPoint hv hhigh).1) i.natAbs
  have hcapital := digits_ofNatBase hlow (fun v hv => (isDigit_digitPoint hv hhigh).2) i.natAbs
  rw [List.map_id] at hsmall
  constructor
  · rw [hwritten]
    simpa using invoke_parseInt hhigh (parseInteger_digits hlow hhigh hblanks hsmall hlength hread) invoker this
  · have hupper : Text.upper (Number.toRadix x base) =
        (if i < 0 then "-" else [] : Text) ++ (Text.ofNatBase base i.natAbs).map Text.capital := by
      have hascii : ∀ c ∈ Text.ofNatBase base i.natAbs, c < 128 := by
        intro c hc
        obtain ⟨v, hv⟩ := hsmall.isDigit c hc
        exact hv.ascii
      rw [hwritten, Text.upper, List.flatMap_append, ← Text.upper_eq_map hascii]
      split <;> rfl
    rw [hupper]
    rw [← List.length_map Text.capital] at hlength
    simpa using invoke_parseInt hhigh (parseInteger_digits hlow hhigh hblanks hcapital hlength hread) invoker this

/-- A negative integer in base sixteen, after a blank and in capital letters. -/
theorem parseInt_toRadix_capital : Number.toRadix (Number.ofInt (-255)) 16 = "-ff" ∧
    Service.invoke .parseInt ⟨none, .undefined, [.str " -FF", .num (Number.ofNat 16)]⟩ =
      return .num (Number.ofInt (-255)) := by
  have hwritten : Number.toRadix (Number.ofInt (-255)) 16 = "-ff" := by decide +kernel
  have hblanks : ∀ c ∈ ([32] : Text), isBlank c := by decide
  have hvalue : Number.value? (Number.ofInt (-255)) = some ((-255 : Int) : ℚ) := Number.value?_ofInt (by decide)
  have hread := (parseInt_toRadix hvalue (by decide) (by decide : 2 ≤ 16) (by decide) hblanks none .undefined).2
  rw [hwritten] at hread
  exact ⟨hwritten, hread⟩

end Service

end ScriptEngine
