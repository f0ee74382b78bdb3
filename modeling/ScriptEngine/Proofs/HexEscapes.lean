import Mathlib
import ScriptEngine.Builtin.Service
import ScriptEngine.Proofs.Names

/-!
# Hexadecimal escapes

A character that is not plain is escaped with two hexadecimal digits, or with four after a letter. Four is the least
width: characters from 0x10000 on are written with five digits and more. Reading takes exactly four, so everything below
0x10000 comes back as it was, whatever stands around it, and any other character comes back as the one of its first
four digits, with the other digits after it.

## Main definitions

* `Text.reread`: what an escaped character is read as.

## Main results

* `Text.ofNatHexUpper_hexNumeral`, `Text.length_ofNatHexUpper_le_iff`: the digits that are written.
* `Text.unescape_escape_append`: reading what was written, in front of any text.
* `Text.flatMap_reread_eq_iff`: the texts that come back as they were.
* `Service.unescape_escape`: both functions of the host, one after the other.
-/

namespace ScriptEngine

namespace Text

/-! ## Digits -/

/-- A run of hexadecimal digits, and the number that it stands for. -/
structure HexNumeral (t : Text) (n : Nat) : Prop where
  digits : ∀ c ∈ t, isHexDigit c
  value : toNatBase 16 t = n

/-- The letters of a digit in capitals. -/
def upperDigit (c : CodePoint) : CodePoint := if 97 ≤ c then c - 32 else c

theorem upperDigit_digitPoint {d : Nat} (h : d < 16) :
    isHexDigit (upperDigit (digitPoint d)) ∧ digitValue? (upperDigit (digitPoint d)) = some d := by
  revert h d
  decide

theorem HexNumeral.digit {d : Nat} (h : d < 16) : HexNumeral [upperDigit (digitPoint d)] d where
  digits := List.forall_mem_singleton.2 (upperDigit_digitPoint h).1
  value := by simp [toNatBase, (upperDigit_digitPoint h).2]

theorem HexNumeral.concat {t : Text} {n d : Nat} (ht : HexNumeral t n) (h : d < 16) :
    HexNumeral (t ++ [upperDigit (digitPoint d)]) (16 * n + d) where
  digits := List.forall_mem_append.2 ⟨ht.digits, List.forall_mem_singleton.2 (upperDigit_digitPoint h).1⟩
  value := by rw [toNatBase_append, ht.value, (upperDigit_digitPoint h).2, Option.getD_some]

/-- Zeros in front do not count. -/
theorem HexNumeral.zeros_append {t : Text} {n : Nat} (ht : HexNumeral t n) (k : Nat) :
    HexNumeral (zeros k ++ t) n := by
  induction k with
  | zero => exact ht
  | succ k ih =>
    refine ⟨List.forall_mem_cons.2 ⟨by decide, ih.digits⟩, ?_⟩
    rw [← ih.value]
    rfl

theorem ofNatBase_hexNumeral (n : Nat) : HexNumeral ((ofNatBase 16 n).map upperDigit) n := by
  induction n using Nat.strongRecOn with
  | _ n ih =>
    by_cases h : n < 16
    · rw [ofNatBase_of_lt h]
      exact .digit h
    · have hrest := (ih (n / 16) (by omega)).concat (Nat.mod_lt n (by decide : 0 < 16))
      rw [Nat.div_add_mod] at hrest
      rw [ofNatBase_of_le (by decide) (Nat.le_of_not_lt h), List.map_append]
      exact hrest

theorem ofNatBase_ne_nil {base : Nat} (hbase : 2 ≤ base) (n : Nat) : ofNatBase base n ≠ [] := by
  by_cases h : n < base
  · simp [ofNatBase_of_lt h]
  · simp [ofNatBase_of_le hbase (Nat.le_of_not_lt h)]

/-- The numbers that can be written with so many digits are those below the power of the base. -/
theorem length_ofNatBase_le_iff {base n k : Nat} (hbase : 2 ≤ base) :
    (ofNatBase base n).length ≤ k + 1 ↔ n < base ^ (k + 1) := by
  induction k generalizing n with
  | zero =>
    by_cases h : n < base
    · simp [ofNatBase_of_lt h, h]
    · have hpos := List.length_pos_iff.2 (ofNatBase_ne_nil hbase (n / base))
      rw [ofNatBase_of_le hbase (Nat.le_of_not_lt h)]
      simp only [List.length_append, List.length_singleton, Nat.zero_add, Nat.pow_one, h, iff_false]
      omega
  | succ k ih =>
    by_cases h : n < base
    · have hpow : base ≤ base ^ (k + 1 + 1) := Nat.le_self_pow (Nat.succ_ne_zero _) base
      simp [ofNatBase_of_lt h, Nat.lt_of_lt_of_le h hpow]
    · rw [ofNatBase_of_le hbase (Nat.le_of_not_lt h), List.length_append, List.length_singleton,
        Nat.add_le_add_iff_right, ih, Nat.div_lt_iff_lt_mul (by omega), ← Nat.pow_succ]

theorem ofNatHexUpper_eq (width n : Nat) :
    ofNatHexUpper width n = zeros (width - (ofNatBase 16 n).length) ++ (ofNatBase 16 n).map upperDigit := by
  have hzeros (k : Nat) : (zeros k).map upperDigit = zeros k := by simp [zeros, upperDigit]
  rw [← hzeros, ← List.map_append]
  rfl

/-- What is written stands for the number. -/
theorem ofNatHexUpper_hexNumeral (width n : Nat) : HexNumeral (ofNatHexUpper width n) n := by
  rw [ofNatHexUpper_eq]
  exact (ofNatBase_hexNumeral n).zeros_append _

theorem le_length_ofNatHexUpper (width n : Nat) : width ≤ (ofNatHexUpper width n).length := by
  rw [ofNatHexUpper_eq, List.length_append, List.length_map, zeros, List.length_replicate]
  omega

/-- A number that is too large for the width is written with more digits. -/
theorem length_ofNatHexUpper_le_iff {width n : Nat} :
    (ofNatHexUpper (width + 1) n).length ≤ width + 1 ↔ n < 16 ^ (width + 1) := by
  rw [← length_ofNatBase_le_iff (by decide), ofNatHexUpper_eq, List.length_append, List.length_map, zeros,
    List.length_replicate]
  omega

/-! ## Reading -/

theorem unescape_cons {c : CodePoint} (h : c ≠ 37) (t : Text) : unescape (c :: t) = c :: unescape t := by
  rw [unescape.eq_def]
  split <;> simp_all

/-- What has no percent sign stays as it is. -/
theorem unescape_append {t : Text} (h : 37 ∉ t) (rest : Text) : unescape (t ++ rest) = t ++ unescape rest := by
  induction t with
  | nil => rfl
  | cons c t ih =>
    rw [List.mem_cons, not_or] at h
    rw [List.cons_append, unescape_cons (Ne.symm h.1), ih h.2, List.cons_append]

theorem HexNumeral.not_mem {t : Text} {n : Nat} (h : HexNumeral t n) : 37 ∉ t ∧ 117 ∉ t :=
  ⟨fun hc => absurd (h.digits 37 hc) (by decide), fun hc => absurd (h.digits 117 hc) (by decide)⟩

theorem unescape_two {t : Text} {n : Nat} (h : HexNumeral t n) (hlength : t.length = 2) (rest : Text) :
    unescape (37 :: (t ++ rest)) = n :: unescape rest := by
  match t, hlength with
  | [a, b], _ =>
    have ha : a ≠ 117 := by
      rintro rfl
      exact h.not_mem.2 List.mem_cons_self
    rw [← h.value]
    simp only [List.cons_append, List.nil_append]
    rw [unescape.eq_def]
    simp [ha, h.digits]

theorem unescape_four {t : Text} {n : Nat} (h : HexNumeral t n) (hlength : t.length = 4) (rest : Text) :
    unescape (37 :: 117 :: (t ++ rest)) = n :: unescape rest := by
  match t, hlength with
  | [a, b, c, d], _ =>
    rw [← h.value]
    simp only [List.cons_append, List.nil_append]
    rw [unescape]
    simp [h.digits]

/-! ## Reading what was written -/

/-- What an escaped character is read as: itself, or the character of its first four digits before the others. -/
def reread (c : CodePoint) : Text :=
  if c < 0x10000 then [c]
  else toNatBase 16 ((ofNatHexUpper 4 c).take 4) :: (ofNatHexUpper 4 c).drop 4

theorem escapePoint_of_plain {c : CodePoint} (h : isPlain c) : escapePoint c = [c] := if_pos h

theorem escapePoint_of_lt {c : CodePoint} (h : ¬isPlain c) (hc : c < 256) :
    escapePoint c = 37 :: ofNatHexUpper 2 c := by
  rw [escapePoint, if_neg h, if_pos hc]
  rfl

theorem escapePoint_of_le {c : CodePoint} (h : ¬isPlain c) (hc : 256 ≤ c) :
    escapePoint c = 37 :: 117 :: ofNatHexUpper 4 c := by
  rw [escapePoint, if_neg h, if_neg (Nat.not_lt.2 hc)]
  rfl

theorem lt_of_isPlain {c : CodePoint} (h : isPlain c) : c < 128 ∧ c ≠ 37 := by
  have hall : ∀ c ∈ ofString "@*_+-./", c < 128 ∧ c ≠ 37 := by decide
  have hrange {low high : Nat} (hlow : 37 < low) (hhigh : high < 128) (hc : low ≤ c ∧ c ≤ high) : c < 128 ∧ c ≠ 37 :=
    ⟨Nat.lt_of_le_of_lt hc.2 hhigh, Nat.ne_of_gt (Nat.lt_of_lt_of_le hlow hc.1)⟩
  simp only [isPlain, Bool.or_eq_true, Bool.and_eq_true, decide_eq_true_eq, List.contains_iff_mem] at h
  obtain ((h | h) | h) | h := h
  · exact hrange (by decide) (by decide) h
  · exact hrange (by decide) (by decide) h
  · exact hrange (by decide) (by decide) h
  · exact hall c h

/-- One character is read back in front of any text. -/
theorem unescape_escapePoint_append (c : CodePoint) (rest : Text) :
    unescape (escapePoint c ++ rest) = reread c ++ unescape rest := by
  by_cases hplain : isPlain c
  · obtain ⟨hlt, hne⟩ := lt_of_isPlain hplain
    rw [escapePoint_of_plain hplain, reread, if_pos (Nat.lt_trans hlt (by decide))]
    exact unescape_cons hne rest
  have hnumeral (width : Nat) := ofNatHexUpper_hexNumeral width c
  have hleast (width : Nat) := le_length_ofNatHexUpper width c
  by_cases hbyte : c < 256
  · have hlength : (ofNatHexUpper 2 c).length = 2 :=
      Nat.le_antisymm (length_ofNatHexUpper_le_iff.2 hbyte) (hleast 2)
    rw [escapePoint_of_lt hplain hbyte, reread, if_pos (Nat.lt_trans hbyte (by decide))]
    exact unescape_two (hnumeral 2) hlength rest
  rw [escapePoint_of_le hplain (Nat.not_lt.1 hbyte), reread]
  by_cases hc : c < 0x10000
  · have hlength : (ofNatHexUpper 4 c).length = 4 :=
      Nat.le_antisymm (length_ofNatHexUpper_le_iff.2 hc) (hleast 4)
    rw [if_pos hc]
    exact unescape_four (hnumeral 4) hlength rest
  · -- The digits after the fourth are text like any other.
    have htake : HexNumeral ((ofNatHexUpper 4 c).take 4) _ :=
      ⟨fun d hd => (hnumeral 4).digits d (List.mem_of_mem_take hd), rfl⟩
    have hdrop : 37 ∉ (ofNatHexUpper 4 c).drop 4 := fun hd => (hnumeral 4).not_mem.1 (List.mem_of_mem_drop hd)
    have hlength : ((ofNatHexUpper 4 c).take 4).length = 4 := by
      rw [List.length_take, Nat.min_eq_left (hleast 4)]
    have hread := unescape_four htake hlength ((ofNatHexUpper 4 c).drop 4 ++ rest)
    rw [← List.append_assoc, List.take_append_drop, unescape_append hdrop] at hread
    rw [if_neg hc]
    exact hread

/-- What was written is read back in front of any text. -/
theorem unescape_escape_append (t rest : Text) : unescape (escape t ++ rest) = t.flatMap reread ++ unescape rest := by
  induction t with
  | nil => rfl
  | cons c t ih =>
    have hcons : escape (c :: t) = escapePoint c ++ escape t := rfl
    rw [hcons, List.append_assoc, unescape_escapePoint_append, ih, List.flatMap_cons, List.append_assoc]

/-- A character from 0x10000 on comes back as two or more. -/
theorem length_reread (c : CodePoint) : 1 ≤ (reread c).length ∧ (0x10000 ≤ c → 2 ≤ (reread c).length) := by
  by_cases hc : c < 0x10000
  · rw [reread, if_pos hc]
    exact ⟨Nat.le_refl 1, fun h => absurd hc (Nat.not_lt.2 h)⟩
  · have hlength : ¬(ofNatHexUpper 4 c).length ≤ 4 := fun h => hc (length_ofNatHexUpper_le_iff.1 h)
    rw [reread, if_neg hc, List.length_cons, List.length_drop]
    omega

theorem length_le_flatMap_reread (t : Text) : t.length ≤ (t.flatMap reread).length := by
  induction t with
  | nil => exact Nat.le_refl 0
  | cons c t ih =>
    have hc := (length_reread c).1
    rw [List.flatMap_cons, List.length_append, List.length_cons]
    omega

/-- Exactly the texts of characters below 0x10000 come back as they were. -/
theorem flatMap_reread_eq_iff (t : Text) : t.flatMap reread = t ↔ ∀ c ∈ t, c < 0x10000 := by
  induction t with
  | nil => simp
  | cons c t ih =>
    rw [List.forall_mem_cons, ← ih, List.flatMap_cons]
    by_cases hc : c < 0x10000
    · rw [reread, if_pos hc]
      simp [hc]
    · have htwo := (length_reread c).2 (Nat.not_lt.1 hc)
      have hrest := length_le_flatMap_reread t
      refine ⟨fun h => ?_, fun h => absurd h.1 hc⟩
      have hlength := congrArg List.length h
      rw [List.length_append, List.length_cons] at hlength
      omega

end Text

namespace Service

theorem invoke_escape (t : Text) (invoker : Option FrameId) (this : Value) :
    Service.invoke .escape ⟨invoker, this, [.str t]⟩ = return .str (Text.escape t) := rfl

theorem invoke_unescape (t : Text) (invoker : Option FrameId) (this : Value) :
    Service.invoke .unescape ⟨invoker, this, [.str t]⟩ = return .str (Text.unescape t) := rfl

/-- To escape a text and to read the escapes again gives a text for every text. It is the text itself exactly if all its
characters are below 0x10000; of any other character it has the one of its first four digits, and the other digits. -/
theorem unescape_escape (t : Text) (invoker invoker' : Option FrameId) (this this' : Value) :
    (do Service.invoke .unescape ⟨invoker', this', [← Service.invoke .escape ⟨invoker, this, [.str t]⟩]⟩) =
        (return .str (t.flatMap Text.reread)) ∧
      (t.flatMap Text.reread = t ↔ ∀ c ∈ t, c < 0x10000) := by
  refine ⟨?_, Text.flatMap_reread_eq_iff t⟩
  have hread := Text.unescape_escape_append t []
  rw [List.append_nil, Text.unescape, List.append_nil] at hread
  rw [invoke_escape, ← hread, ← invoke_unescape _ invoker' this']
  rfl

/-- The first character with five digits comes back as two characters. -/
theorem unescape_escape_five :
    (do Service.invoke .unescape ⟨none, .undefined, [← Service.invoke .escape ⟨none, .undefined, [.str [0x10000]]⟩]⟩) =
        (return .str [0x1000, 48]) ∧
      ([0x1000, 48] : Text) ≠ [0x10000] := by
  refine ⟨?_, by decide⟩
  have hwritten : Text.escape [0x10000] = [37, 117, 49, 48, 48, 48, 48] := by decide
  have hread : Text.unescape [37, 117, 49, 48, 48, 48, 48] = [0x1000, 48] := by
    simp [Text.unescape, Text.isHexDigit, Text.toNatBase, Text.digitValue?]
  rw [invoke_escape, hwritten, ← hread, ← invoke_unescape _ none .undefined]
  rfl

end Service

end ScriptEngine
