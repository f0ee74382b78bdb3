import Mathlib
import ScriptEngine.Number.Layout
import ScriptEngine.Proofs.Decimals

/-!
# Numerals

A numeral is a run of digits, maybe with a point and more digits behind it, maybe with an exponent. Reading one gives
the decimal it stands for, and a text that is nothing but a numeral, with or without a minus sign, is read as the double
of that decimal. The layouts in which digits are written are numerals of the same decimal.

## Main definitions

* `Decimal.Reads`: a numeral and its decimal.
* `Number.Spells`: how digits are written with the point at a given position.

## Main results

* `Decimal.Reads.ofText?`: a numeral is read as the double of its decimal.
* `Number.spells_layout`: the layout of digits is how they are written.
* `Number.Spells.reads`: what is written is a numeral of the same decimal.
-/

namespace ScriptEngine

namespace Text

/-! ## Runs of digits -/

/-- A text of ASCII digits. -/
def IsDigits (t : Text) : Prop := ∀ c ∈ t, isAsciiDigit c

theorem IsDigits.append {s t : Text} (hs : s.IsDigits) (ht : t.IsDigits) : (s ++ t).IsDigits :=
  List.forall_mem_append.2 ⟨hs, ht⟩

theorem isDigits_zeros (n : Nat) : (zeros n).IsDigits := by
  intro c hc
  rw [List.eq_of_mem_replicate hc]
  rfl

theorem isDigits_of_isNumeral {t : Text} (h : Key.isNumeral t) : t.IsDigits := by
  cases t with
  | nil => exact fun c hc => absurd hc List.not_mem_nil
  | cons c rest =>
    rw [isNumeral_cons] at h
    rcases h with ⟨rfl, rfl⟩ | ⟨hlow, hhigh, hrest⟩
    · exact List.forall_mem_singleton.2 rfl
    · exact List.forall_mem_cons.2 ⟨(isAsciiDigit_iff c).2 (by omega), List.all_eq_true.1 hrest⟩

theorem isDigits_ofNat (n : Nat) : (ofNat n).IsDigits := isDigits_of_isNumeral (isNumeral_ofNat n)

theorem ofNat_ne_nil (n : Nat) : ofNat n ≠ [] := by
  have hpos := Decimal.digitCount_pos n
  exact List.ne_nil_of_length_pos hpos

theorem decimalValue?_of_isAsciiDigit {c : CodePoint} (h : isAsciiDigit c) : decimalValue? c = some (c - 48) := by
  rw [decimalValue?, if_pos h]

theorem isDecimal_of_isAsciiDigit {c : CodePoint} (h : isAsciiDigit c) : isDecimal c := by
  rw [isDecimal, decimalValue?_of_isAsciiDigit h]
  rfl

/-- A run of digits ends where something else begins. -/
theorem IsDigits.run {s t : Text} (hs : s.IsDigits) (ht : ∀ c ∈ t.head?, isDecimal c = false) :
    (s ++ t).takeWhile isDecimal = s ∧ (s ++ t).dropWhile isDecimal = t := by
  have hrun (c : CodePoint) (hc : c ∈ s) : isDecimal c := isDecimal_of_isAsciiDigit (hs c hc)
  rw [List.takeWhile_append_of_pos hrun, List.dropWhile_append_of_pos hrun]
  cases t with
  | nil => exact ⟨List.append_nil s, rfl⟩
  | cons c rest =>
    have hc : ¬isDecimal c := by rw [ht c rfl]; exact Bool.false_ne_true
    rw [List.takeWhile_cons_of_neg hc, List.dropWhile_cons_of_neg hc, List.append_nil]
    exact ⟨rfl, rfl⟩

end Text

namespace Decimal

open Text (IsDigits)

theorem digitsValue_concat (t : Text) (c : CodePoint) :
    digitsValue (t ++ [c]) = 10 * digitsValue t + (Text.decimalValue? c).getD 0 := by
  rw [digitsValue, List.foldl_append]
  rfl

theorem digitsValue_append (s t : Text) : digitsValue (s ++ t) = digitsValue s * 10 ^ t.length + digitsValue t := by
  induction t using List.reverseRecOn with
  | nil => simp [digitsValue]
  | append_singleton t c ih =>
    rw [← List.append_assoc, digitsValue_concat, digitsValue_concat, ih, List.length_append, List.length_singleton]
    ring

theorem digitsValue_zeros (n : Nat) : digitsValue (Text.zeros n) = 0 := by
  induction n with
  | zero => rfl
  | succ n ih =>
    rw [Text.zeros, List.replicate_succ']
    rw [digitsValue_concat]
    change 10 * digitsValue (Text.zeros n) + 0 = 0
    rw [ih]

theorem digitsValue_eq_toNatBase {t : Text} (ht : t.IsDigits) : digitsValue t = Text.toNatBase 10 t := by
  induction t using List.reverseRecOn with
  | nil => rfl
  | append_singleton t c ih =>
    obtain ⟨ht, hc⟩ := List.forall_mem_append.1 ht
    have hc := List.forall_mem_singleton.1 hc
    rw [digitsValue_concat, Text.toNatBase_append, ih ht, Text.decimalValue?_of_isAsciiDigit hc,
      Text.digitValue?_of_isAsciiDigit hc]

/-- The value of a digit string, with its last digit the units. -/
theorem digitsValue_eq_ofDigits {t : Text} (ht : t.IsDigits) :
    digitsValue t = Nat.ofDigits 10 (t.reverse.map (· - 48)) := by
  induction t using List.reverseRecOn with
  | nil => rfl
  | append_singleton t c ih =>
    obtain ⟨ht, hc⟩ := List.forall_mem_append.1 ht
    have hc := List.forall_mem_singleton.1 hc
    rw [digitsValue_concat, ih ht, Text.decimalValue?_of_isAsciiDigit hc, List.reverse_concat', List.map_cons,
      Nat.ofDigits_cons, Option.getD_some, add_comm]

theorem digitsValue_ofNat (n : Nat) : digitsValue (Text.ofNat n) = n := by
  rw [digitsValue_eq_toNatBase (Text.isDigits_ofNat n), Text.toNatBase_ofNat]

/-! ## Reading numerals -/

/-- What may stand behind the digits of a numeral: nothing, or an exponent. -/
inductive Mark : Text → Int → Prop
  | nothing : Mark [] 0
  | exponent (e : Int) : Mark (Number.exponentText e) e

theorem exponentText_eq (e : Int) :
    Number.exponentText e = 101 :: (if 0 ≤ e then 43 else 45) :: Text.ofNat e.natAbs := by
  unfold Number.exponentText
  split <;> rfl

theorem scanExponent_exponentText (e : Int) : scanExponent (Number.exponentText e) = (e, []) := by
  obtain ⟨hrun, hrest⟩ := (Text.isDigits_ofNat e.natAbs).run (t := []) (fun _ h => by cases h)
  rw [List.append_nil] at hrun hrest
  have hempty : (Text.ofNat e.natAbs).isEmpty = false := List.isEmpty_eq_false_iff.2 (Text.ofNat_ne_nil _)
  rw [exponentText_eq]
  by_cases he : 0 ≤ e
  · rw [if_pos he]
    simp only [scanExponent, hrun, hrest, hempty, digitsValue_ofNat]
    simp [he]
  · rw [if_neg he]
    simp only [scanExponent, hrun, hrest, hempty, digitsValue_ofNat]
    simp [abs_of_neg (not_le.1 he)]

theorem Mark.scanExponent {t : Text} {e : Int} (h : Mark t e) : scanExponent t = (e, []) := by
  cases h with
  | nothing => rfl
  | exponent => exact scanExponent_exponentText e

theorem Mark.head {t : Text} {e : Int} (h : Mark t e) : ∀ c ∈ t.head?, Text.isDecimal c = false ∧ c ≠ 46 := by
  cases h with
  | nothing => exact fun c hc => by cases hc
  | exponent =>
    rw [exponentText_eq]
    rintro c ⟨⟩
    decide

theorem scan?_whole {s t : Text} {e : Int} (hs : s.IsDigits) (hne : s ≠ []) (ht : Mark t e) :
    scan? (s ++ t) = some (⟨digitsValue s, e⟩, []) := by
  obtain ⟨hrun, hrest⟩ := hs.run fun c hc => (ht.head c hc).1
  have hempty : s.isEmpty = false := List.isEmpty_eq_false_iff.2 hne
  have hpoint : ∀ rest, t ≠ 46 :: rest := by
    rintro rest rfl
    exact (ht.head 46 rfl).2 rfl
  unfold scan?
  simp only [hrun, hrest, hempty, ht.scanExponent]
  simp

theorem scan?_point {s f t : Text} {e : Int} (hs : s.IsDigits) (hne : s ≠ []) (hf : f.IsDigits) (ht : Mark t e) :
    scan? (s ++ 46 :: (f ++ t)) = some (⟨digitsValue (s ++ f), e - f.length⟩, []) := by
  obtain ⟨hrun, hrest⟩ := hs.run (t := 46 :: (f ++ t)) (by rintro c ⟨⟩; decide)
  obtain ⟨hrun', hrest'⟩ := hf.run fun c hc => (ht.head c hc).1
  have hempty : s.isEmpty = false := List.isEmpty_eq_false_iff.2 hne
  simp only [scan?, hrun, hrest, hrun', hrest', hempty, ht.scanExponent]
  simp

/-- The code points of which numerals consist. -/
def isMark (c : CodePoint) : Bool := Text.isAsciiDigit c || c == 46 || c == 101 || c == 43 || c == 45

/-- A numeral and its decimal. -/
structure Reads (t : Text) (decimal : Decimal) : Prop where
  /-- All of the text is read. -/
  scan : scan? t = some (decimal, [])
  /-- It begins with a digit. -/
  first : ∃ c rest, t = c :: rest ∧ Text.isAsciiDigit c
  /-- It consists of digits and the marks of numerals. -/
  marks : ∀ c ∈ t, isMark c

theorem isMark_of_isDigits {s : Text} (hs : s.IsDigits) : ∀ c ∈ s, isMark c := by
  intro c hc
  simp [isMark, hs c hc]

theorem Mark.isMark {t : Text} {e : Int} (h : Mark t e) : ∀ c ∈ t, isMark c := by
  cases h with
  | nothing => exact fun c hc => absurd hc List.not_mem_nil
  | exponent =>
    rw [exponentText_eq]
    refine List.forall_mem_cons.2 ⟨rfl, List.forall_mem_cons.2 ⟨?_, isMark_of_isDigits (Text.isDigits_ofNat _)⟩⟩
    split <;> rfl

theorem exists_first {s : Text} (hs : s.IsDigits) (hne : s ≠ []) (t : Text) :
    ∃ c rest, s ++ t = c :: rest ∧ Text.isAsciiDigit c := by
  obtain ⟨c, rest, rfl⟩ := List.exists_cons_of_ne_nil hne
  exact ⟨c, rest ++ t, rfl, (List.forall_mem_cons.1 hs).1⟩

theorem reads_whole {s t : Text} {e : Int} (hs : s.IsDigits) (hne : s ≠ []) (ht : Mark t e) :
    Reads (s ++ t) ⟨digitsValue s, e⟩ where
  scan := scan?_whole hs hne ht
  first := exists_first hs hne t
  marks := List.forall_mem_append.2 ⟨isMark_of_isDigits hs, ht.isMark⟩

theorem reads_point {s f t : Text} {e : Int} (hs : s.IsDigits) (hne : s ≠ []) (hf : f.IsDigits) (ht : Mark t e) :
    Reads (s ++ 46 :: (f ++ t)) ⟨digitsValue (s ++ f), e - f.length⟩ where
  scan := scan?_point hs hne hf ht
  first := exists_first hs hne _
  marks := List.forall_mem_append.2 ⟨isMark_of_isDigits hs, List.forall_mem_cons.2
    ⟨rfl, List.forall_mem_append.2 ⟨isMark_of_isDigits hf, ht.isMark⟩⟩⟩

theorem reads_ofNat (n : Nat) : Reads (Text.ofNat n) ⟨n, 0⟩ := by
  have hreads := reads_whole (Text.isDigits_ofNat n) (Text.ofNat_ne_nil n) .nothing
  rwa [List.append_nil, digitsValue_ofNat] at hreads

end Decimal

/-! ## Numbers of numerals -/

theorem Text.strip_of_not_blank {t : Text} (h : ∀ c ∈ t, ¬isBlank c) : strip t = t := by
  have hstart {u : Text} (hu : ∀ c ∈ u, ¬isBlank c) : u.dropWhile isBlank = u := by
    cases u with
    | nil => rfl
    | cons c rest => exact List.dropWhile_cons_of_neg (hu c List.mem_cons_self)
  rw [strip, trim, trimStart, trimEnd, hstart h, hstart fun c hc => h c (List.mem_reverse.1 hc), List.reverse_reverse]

theorem Decimal.not_isBlank_of_isMark {c : Nat} (h : isMark c) : ¬Text.isBlank c := by
  simp only [isMark, Text.isAsciiDigit, Bool.or_eq_true, Bool.and_eq_true, decide_eq_true_eq, beq_iff_eq] at h
  rcases h with (((⟨hlow, hhigh⟩ | rfl) | rfl) | rfl) | rfl
  · interval_cases c <;> decide
  all_goals decide

/-- A numeral is read as the double of its decimal, and so it is after a minus sign. -/
theorem Decimal.Reads.ofText? {t : Text} {decimal : Decimal} (h : Reads t decimal) :
    Number.ofText? t = some (decimal.toNumber false) ∧ Number.ofText? (45 :: t) = some (decimal.toNumber true) := by
  have hblank (c : CodePoint) (hc : c ∈ t) : ¬Text.isBlank c := not_isBlank_of_isMark (h.marks c hc)
  have hstrip := Text.strip_of_not_blank hblank
  have hstrip' : Text.strip (45 :: t) = 45 :: t :=
    Text.strip_of_not_blank (List.forall_mem_cons.2 ⟨by decide, hblank⟩)
  obtain ⟨c, rest, rfl, hc⟩ := h.first
  rw [Text.isAsciiDigit_iff] at hc
  -- Only a letter makes a hexadecimal numeral.
  have hhex : (rest.head?.any fun c => c == 120 || c == 88) = false := by
    cases rest with
    | nil => rfl
    | cons c' rest =>
      have hmark := h.marks c' (List.mem_cons_of_mem c List.mem_cons_self)
      by_contra hletter
      simp only [List.head?_cons, Option.any_some, Bool.not_eq_false, Bool.or_eq_true, beq_iff_eq] at hletter
      rcases hletter with rfl | rfl <;> exact absurd hmark (by decide)
  have hword : (c :: rest == Text.ofString "Infinity") = false := by
    refine beq_eq_false_iff_ne.2 fun heq => ?_
    injection heq with hfirst
    subst hfirst
    exact absurd hc (by decide)
  have hplus : c ≠ 43 := by
    rintro rfl
    exact absurd hc (by decide)
  have hminus : c ≠ 45 := by
    rintro rfl
    exact absurd hc (by decide)
  constructor
  · unfold Number.ofText?
    simp only [hstrip, List.isEmpty_cons, List.drop_succ_cons, List.drop_zero, hhex, Bool.and_false, Bool.false_and,
      Bool.false_eq_true, if_false]
    split
    case h_1 heq => exact absurd (List.cons.inj heq).1 hplus
    case h_2 heq => exact absurd (List.cons.inj heq).1 hminus
    case h_3 =>
      simp only [hword, h.scan]
      rfl
  · unfold Number.ofText?
    simp only [hstrip', List.isEmpty_cons, List.drop_succ_cons, List.drop_zero, hword, h.scan]
    rfl

namespace Number

open Decimal (Reads digitsValue reads_whole reads_point)

/-! ## Layouts -/

/-- The digits behind the first one, with the point before them. -/
def decimals (rest : Text) : Text := if rest = [] then [] else "." ++ rest

/-- How the digits `s` are written when the point stands behind the first `n` of them. -/
inductive Spells (s : Text) (n : Int) : Text → Prop
  /-- Zeros take the places up to the point. -/
  | padded (hlow : s.length ≤ n) (hhigh : n ≤ 21) : Spells s n (s ++ Text.zeros (n - s.length).toNat)
  /-- The point stands among the digits. -/
  | pointed {whole fraction : Text} (hs : s = whole ++ fraction) (hn : whole.length = n) (hmore : fraction ≠ [])
    (hlow : 0 < n) (hhigh : n ≤ 21) : Spells s n (whole ++ "." ++ fraction)
  /-- Zeros take the places behind the point. -/
  | fraction (hlow : -6 < n) (hhigh : n ≤ 0) : Spells s n ("0." ++ Text.zeros (-n).toNat ++ s)
  /-- A large number has an exponent. -/
  | large {first : CodePoint} {rest : Text} (hs : s = first :: rest) (hlow : 21 < n) :
    Spells s n (first :: (decimals rest ++ "e+" ++ Text.ofNat (n - 1).toNat))
  /-- A small number has a negative exponent. -/
  | small {first : CodePoint} {rest : Text} (hs : s = first :: rest) (hhigh : n ≤ -6) :
    Spells s n (first :: (decimals rest ++ "e-" ++ Text.ofNat (1 - n).toNat))

theorem exponentText_of_pos {n : Int} (hn : 0 < n) : exponentText (n - 1) = "e+" ++ Text.ofNat (n - 1).toNat := by
  obtain ⟨k, hk⟩ := Int.eq_ofNat_of_zero_le (show 0 ≤ n - 1 by omega)
  rw [exponentText, if_pos (by omega), hk]
  rfl

theorem exponentText_of_nonpos {n : Int} (hn : n ≤ 0) : exponentText (n - 1) = "e-" ++ Text.ofNat (1 - n).toNat := by
  have habs : (n - 1).natAbs = (1 - n).toNat := by omega
  rw [exponentText, if_neg (by omega), habs]
  rfl

theorem spells_layout {s : Text} (hs : s ≠ []) (n : Int) : Spells s n (layout s n) := by
  unfold layout
  extract_lets k
  split
  case isTrue h => exact .padded h.1 h.2
  case isFalse hpadded =>
    split
    case isTrue h =>
      refine .pointed (List.take_append_drop n.toNat s).symm ?_ ?_ h.1 h.2
      · rw [List.length_take]
        omega
      · rw [ne_eq, List.drop_eq_nil_iff]
        omega
    case isFalse hpointed =>
      split
      case isTrue h => exact .fraction h.1 h.2
      case isFalse hfraction =>
        obtain ⟨first, rest, rfl⟩ := List.exists_cons_of_ne_nil hs
        have hlength : 0 < k := by
          simp only [k, List.length_cons]
          omega
        have hspells : Spells (first :: rest) n (first :: (decimals rest ++ exponentText (n - 1))) := by
          by_cases hn : 0 < n
          · rw [exponentText_of_pos hn, ← List.append_assoc]
            exact .large rfl (by omega)
          · rw [exponentText_of_nonpos (by omega), ← List.append_assoc]
            exact .small rfl (by omega)
        cases rest <;> exact hspells

/-- Digits with a point among them, or behind them all, and what may follow. -/
theorem reads_decimals {whole fraction t : Text} {e : Int} (hwhole : whole.IsDigits) (hne : whole ≠ [])
    (hfraction : fraction.IsDigits) (ht : Decimal.Mark t e) :
    Reads (whole ++ (decimals fraction ++ t)) ⟨digitsValue (whole ++ fraction), e - fraction.length⟩ := by
  unfold decimals
  split
  case isTrue h =>
    subst h
    rw [List.length_nil, Nat.cast_zero, sub_zero, List.append_nil, List.nil_append]
    exact reads_whole hwhole hne ht
  case isFalse => exact reads_point hwhole hne hfraction ht

/-- Digits with an exponent, the point behind the first one. -/
theorem reads_exponent {first : CodePoint} {rest : Text} (hs : Text.IsDigits (first :: rest)) (e : Int) :
    Reads (first :: (decimals rest ++ exponentText e)) ⟨digitsValue (first :: rest), e - rest.length⟩ := by
  obtain ⟨hfirst, hrest⟩ := List.forall_mem_cons.1 hs
  exact reads_decimals (List.forall_mem_singleton.2 hfirst) (List.cons_ne_nil _ _) hrest (.exponent e)

/-- What is written stands for the digits with the point at its position. -/
theorem Spells.reads {s t : Text} {n : Int} (h : Spells s n t) (hs : s.IsDigits) (hne : s ≠ []) :
    ∃ decimal, Reads t decimal ∧ decimal.value = digitsValue s * 10 ^ (n - s.length) := by
  cases h with
  | padded hlow hhigh =>
    have hreads := reads_whole (hs.append (Text.isDigits_zeros (n - s.length).toNat))
      (List.append_ne_nil_of_left_ne_nil hne _) .nothing
    rw [List.append_nil] at hreads
    refine ⟨_, hreads, ?_⟩
    obtain ⟨k, hk⟩ := Int.eq_ofNat_of_zero_le (show 0 ≤ n - s.length by omega)
    rw [hk, Int.toNat_natCast, Decimal.value, Decimal.digitsValue_append, Decimal.digitsValue_zeros]
    simp [Text.zeros]
  | @pointed whole fraction hs' hn hmore hlow hhigh =>
    subst hs'
    obtain ⟨hwhole, hfraction⟩ := List.forall_mem_append.1 hs
    have hwhole' : whole ≠ [] := by
      rintro rfl
      simp at hn
      omega
    have hreads := reads_point hwhole hwhole' hfraction .nothing
    rw [List.append_nil] at hreads
    refine ⟨_, by rw [List.append_assoc]; exact hreads, ?_⟩
    rw [Decimal.value, List.length_append, ← hn]
    congr 2
    push_cast
    ring
  | fraction hlow hhigh =>
    have hreads := reads_point (s := [48]) (List.forall_mem_singleton.2 rfl) (List.cons_ne_nil _ _)
      ((Text.isDigits_zeros (-n).toNat).append hs) .nothing
    rw [List.append_nil] at hreads
    refine ⟨_, hreads, ?_⟩
    have hzero : digitsValue [48] = 0 := rfl
    have hexponent : (0 : Int) - (Text.zeros (-n).toNat ++ s).length = n - s.length := by
      rw [List.length_append, Text.zeros, List.length_replicate]
      omega
    rw [Decimal.value, hexponent, Decimal.digitsValue_append, Decimal.digitsValue_append, Decimal.digitsValue_zeros,
      hzero]
    simp
  | @large first rest hs' hlow =>
    subst hs'
    have hreads := reads_exponent hs (n - 1)
    rw [exponentText_of_pos (by omega), ← List.append_assoc] at hreads
    exact ⟨_, hreads, by rw [Decimal.value, List.length_cons, Nat.cast_succ, sub_sub, add_comm (1 : Int)]⟩
  | @small first rest hs' hhigh =>
    subst hs'
    have hreads := reads_exponent hs (n - 1)
    rw [exponentText_of_nonpos (by omega), ← List.append_assoc] at hreads
    exact ⟨_, hreads, by rw [Decimal.value, List.length_cons, Nat.cast_succ, sub_sub, add_comm (1 : Int)]⟩

end Number

end ScriptEngine
