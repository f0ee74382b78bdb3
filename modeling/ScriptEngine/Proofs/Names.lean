import ScriptEngine.Key.Interner

/-!
# Names and their numbers

A decimal numeral is told by its last digit and what comes before it, so writing a number and reading it back
are inverse to each other, and a text is the key of an array index exactly if it is the numeral of one. In a
table of names every name stands once and none of them is such a numeral. Calls only add names at the end, so
what a number has once stood for it stands for ever after.

## Main definitions

* `Key.Proper`: the keys that computations have.
* `Interner.Sorted`: the tables that calls make: each name once, and no numeral of an index.
* `Interner.Call`, `Interner.after`: calls, and the table after some of them.

## Main results

* `Text.toNatBase_ofNat`, `Text.ofNat_toNatBase`: writing and reading numerals.
* `Key.ofText_eq_index`: the texts that are indexes.
* `Interner.intern_cases`: what a call does.
* `Interner.handles_faithful`: the handles that any sequence of calls gives out.
-/

namespace ScriptEngine

/-! ## Numerals -/

namespace Text

theorem digitsLoop_append (base fuel n : Nat) (rest : Text) :
    digitsLoop base fuel n rest = digitsLoop base fuel n [] ++ rest := by
  induction fuel generalizing n rest with
  | zero => rfl
  | succ fuel ih =>
    simp only [digitsLoop]
    split
    · rfl
    · rw [ih _ (digitPoint (n % base) :: rest), ih _ [digitPoint (n % base)]]
      simp

theorem log2_div {base n fuel : Nat} (hbase : 2 ≤ base) (h : n.log2 < fuel + 1) (hn : n / base ≠ 0) :
    (n / base).log2 < fuel := by
  have hpos : n ≠ 0 := by
    intro he
    simp [he] at hn
  rw [Nat.log2_lt hpos, Nat.pow_succ] at h
  rw [Nat.log2_lt hn]
  refine Nat.div_lt_of_lt_mul (Nat.lt_of_lt_of_le h ?_)
  rw [Nat.mul_comm]
  exact Nat.mul_le_mul_right _ hbase

/-- More fuel than a number has binary digits changes nothing. -/
theorem digitsLoop_fuel {base n fuel fuel' : Nat} (hbase : 2 ≤ base) (h : n.log2 < fuel) (h' : n.log2 < fuel') :
    digitsLoop base fuel n [] = digitsLoop base fuel' n [] := by
  induction fuel generalizing n fuel' with
  | zero => omega
  | succ fuel ih =>
    obtain ⟨fuel', rfl⟩ := Nat.exists_eq_add_one_of_ne_zero (Nat.ne_zero_of_lt h')
    simp only [digitsLoop]
    split
    · rfl
    · rename_i hn
      rw [digitsLoop_append, ih (log2_div hbase h hn) (log2_div hbase h' hn), ← digitsLoop_append]

theorem ofNatBase_of_lt {base n : Nat} (h : n < base) : ofNatBase base n = [digitPoint n] := by
  simp [ofNatBase, digitsLoop, Nat.div_eq_of_lt h, Nat.mod_eq_of_lt h]

/-- The last digit of a numeral, and the numeral before it. -/
theorem ofNatBase_of_le {base n : Nat} (hbase : 2 ≤ base) (h : base ≤ n) :
    ofNatBase base n = ofNatBase base (n / base) ++ [digitPoint (n % base)] := by
  have hdiv : n / base ≠ 0 := Nat.ne_of_gt (Nat.div_pos h (by omega))
  have hfuel := log2_div hbase (Nat.lt_succ_self n.log2) hdiv
  rw [ofNatBase, digitsLoop, if_neg hdiv, digitsLoop_append]
  rw [digitsLoop_fuel hbase hfuel (Nat.lt_succ_self (n / base).log2)]
  rfl

theorem ofNat_of_lt {n : Nat} (h : n < 10) : ofNat n = [48 + n] := by
  rw [ofNat, ofNatBase_of_lt h, digitPoint, if_pos h]

theorem ofNat_of_le {n : Nat} (h : 10 ≤ n) : ofNat n = ofNat (n / 10) ++ [48 + n % 10] := by
  rw [ofNat, ofNatBase_of_le (by decide) h, digitPoint, if_pos (Nat.mod_lt _ (by decide))]
  rfl

theorem digitValue?_digit {d : Nat} (h : d < 10) : digitValue? (48 + d) = some d := by
  have hle : 48 + d ≤ 57 := by omega
  simp [digitValue?, hle]

theorem toNatBase_append (base : Nat) (t : Text) (c : Nat) :
    toNatBase base (t ++ [c]) = base * toNatBase base t + (digitValue? c).getD 0 := by
  simp [toNatBase]

/-- A numeral is read as the number it was written for. -/
theorem toNatBase_ofNat (n : Nat) : toNatBase 10 (ofNat n) = n := by
  induction n using Nat.strongRecOn with
  | _ n ih =>
    by_cases h : n < 10
    · rw [ofNat_of_lt h]
      simp [toNatBase, digitValue?_digit h]
    · have hle : 10 ≤ n := by omega
      have hmod : n % 10 < 10 := by omega
      rw [ofNat_of_le hle, toNatBase_append, ih (n / 10) (by omega), digitValue?_digit hmod]
      simp only [Option.getD_some]
      omega

theorem ofNat_injective {m n : Nat} (h : ofNat m = ofNat n) : m = n := by
  rw [← toNatBase_ofNat m, h, toNatBase_ofNat]

theorem length_ofNat_lt {n : Nat} (h : n ≤ Key.maxIndex) : (ofNat n).length < 11 := by
  -- One digit goes with each division by ten.
  have hstep (k m : Nat) (hm : (ofNat (m / 10)).length ≤ k) : (ofNat m).length ≤ k + 1 := by
    by_cases hlt : m < 10
    · simp [ofNat_of_lt hlt]
    · rw [ofNat_of_le (by omega)]
      simpa using hm
  have hlast : n / 10 / 10 / 10 / 10 / 10 / 10 / 10 / 10 / 10 < 10 := by
    simp only [Key.maxIndex] at h
    omega
  have hone := Nat.le_of_eq (congrArg List.length (ofNat_of_lt hlast))
  have hten := hstep 9 n <| hstep 8 _ <| hstep 7 _ <| hstep 6 _ <| hstep 5 _ <| hstep 4 _ <| hstep 3 _ <|
    hstep 2 _ <| hstep 1 _ hone
  omega

open Key (isNumeral)

theorem isAsciiDigit_iff (c : Nat) : isAsciiDigit c ↔ 48 ≤ c ∧ c ≤ 57 := by simp [isAsciiDigit]

theorem isNumeral_cons (c : Nat) (rest : Text) :
    isNumeral (c :: rest) ↔ (c = 48 ∧ rest = []) ∨ (49 ≤ c ∧ c ≤ 57 ∧ rest.all isAsciiDigit) := by
  unfold isNumeral
  split
  · contradiction
  · rename_i h
    injection h with hc hrest
    simp [hc, hrest]
  · rename_i hne h
    injection h with hc hrest
    subst hc hrest
    have hzero : ¬(c = 48 ∧ rest = []) := by
      rintro ⟨rfl, rfl⟩
      exact hne rfl rfl
    simp [hzero, and_assoc]

theorem isAsciiDigit_of_isNumeral {c : Nat} (h : isNumeral [c]) : isAsciiDigit c := by
  rw [isNumeral_cons] at h
  rw [isAsciiDigit_iff]
  omega

/-- A text of two or more characters is a numeral if it is one without its last digit, and not zero. -/
theorem isNumeral_append {t : Text} (ht : t ≠ []) (c : Nat) :
    isNumeral (t ++ [c]) ↔ isNumeral t ∧ t ≠ [48] ∧ isAsciiDigit c := by
  obtain ⟨d, rest, rfl⟩ := List.exists_cons_of_ne_nil ht
  rw [List.cons_append, isNumeral_cons, isNumeral_cons]
  simp only [List.append_eq_nil_iff, List.all_append, List.all_cons, List.all_nil, Bool.and_true,
    Bool.and_eq_true]
  constructor
  · rintro (⟨_, _, h⟩ | ⟨hlow, hhigh, hrest, hc⟩)
    · simp at h
    · refine ⟨.inr ⟨hlow, hhigh, hrest⟩, ?_, hc⟩
      intro h
      injection h with hd
      have := hd ▸ hlow
      contradiction
  · rintro ⟨⟨rfl, rfl⟩ | ⟨hlow, hhigh, hrest⟩, hne, hc⟩
    · simp at hne
    · exact .inr ⟨hlow, hhigh, hrest, hc⟩

/-- What is written for a number is a numeral. -/
theorem isNumeral_ofNat (n : Nat) : isNumeral (ofNat n) := by
  induction n using Nat.strongRecOn with
  | _ n ih =>
    by_cases h : n < 10
    · rw [ofNat_of_lt h, isNumeral_cons]
      simp
      omega
    · have hdiv : n / 10 ≠ 0 := by omega
      have hnum := ih (n / 10) (by omega)
      have hne : ofNat (n / 10) ≠ [] := by
        intro he
        simp [he, isNumeral] at hnum
      have hzero : ofNat (n / 10) ≠ [48] := by
        intro he
        exact hdiv (ofNat_injective (he.trans (ofNat_of_lt (by decide : 0 < 10)).symm))
      rw [ofNat_of_le (by omega), isNumeral_append hne]
      refine ⟨hnum, hzero, ?_⟩
      rw [isAsciiDigit_iff]
      omega

theorem digitValue?_of_isAsciiDigit {c : Nat} (h : isAsciiDigit c) : digitValue? c = some (c - 48) := by
  rw [isAsciiDigit_iff] at h
  simp [digitValue?, h]

/-- A numeral is what is written for the number it is read as. -/
theorem ofNat_toNatBase {t : Text} (h : isNumeral t) : ofNat (toNatBase 10 t) = t := by
  generalize hn : t.length = n
  induction n generalizing t with
  | zero =>
    have ht := List.eq_nil_of_length_eq_zero hn
    simp [ht, isNumeral] at h
  | succ n ih =>
    obtain rfl | ⟨u, (c : Nat), rfl⟩ := t.eq_nil_or_concat
    · simp at hn
    · simp only [List.concat_eq_append] at h hn ⊢
      by_cases hu : u = []
      · subst hu
        have hc := isAsciiDigit_of_isNumeral h
        simp only [toNatBase, List.nil_append, List.foldl_cons, List.foldl_nil, digitValue?_of_isAsciiDigit hc,
          Option.getD_some]
        rw [isAsciiDigit_iff] at hc
        rw [ofNat_of_lt (by omega)]
        have hback : 48 + (10 * 0 + (c - 48)) = c := by omega
        rw [hback]
      · obtain ⟨hnum, hzero, hc⟩ := (isNumeral_append hu c).mp h
        have hrec := ih hnum (by simpa using hn)
        have hpos : toNatBase 10 u ≠ 0 := by
          intro he
          rw [he, ofNat_of_lt (by decide)] at hrec
          exact hzero hrec.symm
        rw [toNatBase_append, digitValue?_of_isAsciiDigit hc, Option.getD_some]
        rw [isAsciiDigit_iff] at hc
        rw [ofNat_of_le (by omega)]
        have hdiv : (10 * toNatBase 10 u + (c - 48)) / 10 = toNatBase 10 u := by omega
        have hmod : 48 + (10 * toNatBase 10 u + (c - 48)) % 10 = c := by omega
        rw [hdiv, hmod, hrec]

end Text

namespace Key

/-- The texts that are indexes: the numerals of the numbers up to the largest. -/
theorem ofText_eq_index {t : Text} {i : Nat} : ofText t = .index i ↔ t = Text.ofNat i ∧ i ≤ maxIndex := by
  unfold ofText
  constructor
  · intro h
    split at h
    · rename_i hcond
      simp only [Bool.and_eq_true, decide_eq_true_eq] at hcond
      injection h with hi
      subst hi
      exact ⟨(Text.ofNat_toNatBase hcond.1.1).symm, hcond.2⟩
    · cases h
  · rintro ⟨rfl, hi⟩
    simp [Text.isNumeral_ofNat, Text.length_ofNat_lt hi, Text.toNatBase_ofNat, hi]

theorem ofText_eq_name {t u : Text} (h : ofText t = .name u) : u = t := by
  unfold ofText at h
  split at h
  · cases h
  · injection h with h
    exact h.symm

/-- A text is an index or a name, and as a name it is itself. -/
theorem ofText_cases (t : Text) :
    (∃ i, i ≤ maxIndex ∧ t = Text.ofNat i ∧ ofText t = .index i) ∨
      ((∀ i, i ≤ maxIndex → t ≠ Text.ofNat i) ∧ ofText t = .name t) := by
  cases h : ofText t with
  | index i =>
    obtain ⟨ht, hi⟩ := ofText_eq_index.mp h
    exact .inl ⟨i, hi, ht, rfl⟩
  | name u =>
    refine .inr ⟨?_, congrArg _ (ofText_eq_name h)⟩
    intro i hi ht
    rw [ofText_eq_index.mpr ⟨ht, hi⟩] at h
    cases h

/-- A key as computations have them: an index, or a name that a text denotes. -/
def Proper : Key → Prop
  | index _ => True
  | name t => ofText t = name t

instance (k : Key) : Decidable k.Proper :=
  match k with
  | index _ => .isTrue trivial
  | name t => inferInstanceAs (Decidable (ofText t = name t))

theorem proper_ofText (t : Text) : (ofText t).Proper := by
  obtain ⟨i, -, -, hkey⟩ | ⟨-, hkey⟩ := ofText_cases t
  · rw [hkey]
    trivial
  · rw [hkey]
    exact hkey

end Key

/-! ## The table -/

namespace Interner

theorem intern_index {i : Nat} (h : i ≤ Key.maxIndex) (table : Interner) :
    table.intern (Text.ofNat i) = (indexHandle i, table) := by
  simp [intern, Key.ofText_eq_index.mpr ⟨rfl, h⟩]

theorem intern_found {table : Interner} {s : Text} {p : Nat} (hs : Key.ofText s = .name s)
    (hp : table.names.idxOf? s = some p) : table.intern s = (⟨numberAt p, s⟩, table) := by
  simp [intern, hs, hp]

theorem intern_new {table : Interner} {s : Text} (hs : Key.ofText s = .name s)
    (hp : table.names.idxOf? s = none) :
    table.intern s = (⟨numberAt table.names.length, s⟩, ⟨table.names ++ [s]⟩) := by
  simp [intern, hs, hp]

theorem idxOf?_append_new {names : List Text} {s : Text} (h : names.idxOf? s = none) :
    (names ++ [s]).idxOf? s = some names.length := by
  simp only [List.idxOf?] at h ⊢
  simp [List.findIdx?_append, h]

/-- What interning does: an index is its own number and leaves every table as it is, a name stands in the table
afterwards, at the end if it did not before. -/
theorem intern_cases (table : Interner) (s : Text) :
    (∃ i, i ≤ Key.maxIndex ∧ s = Text.ofNat i ∧ table.intern s = (indexHandle i, table)) ∨
      ((∀ i, i ≤ Key.maxIndex → s ≠ Text.ofNat i) ∧ Key.ofText s = .name s ∧
        ∃ p, (table.intern s).1 = ⟨numberAt p, s⟩ ∧ (table.intern s).2.names.idxOf? s = some p ∧
          ((table.intern s).2 = table ∨
            s ∉ table.names ∧ (table.intern s).2 = ⟨table.names ++ [s]⟩)) := by
  obtain ⟨i, hi, rfl, _⟩ | ⟨hindex, hs⟩ := Key.ofText_cases s
  · exact .inl ⟨i, hi, rfl, intern_index hi table⟩
  · refine .inr ⟨hindex, hs, ?_⟩
    cases hp : table.names.idxOf? s with
    | some p =>
      rw [intern_found hs hp]
      exact ⟨p, rfl, hp, .inl rfl⟩
    | none =>
      rw [intern_new hs hp]
      exact ⟨_, rfl, idxOf?_append_new hp, .inr ⟨List.idxOf?_eq_none_iff.mp hp, rfl⟩⟩

/-! ## Calls -/

/-- A use of the table. -/
inductive Call where
  /-- The handle of a name is asked for. -/
  | intern (name : Text)
  /-- The handle of a label is asked for. -/
  | keyOf (label : Label)

/-- The handle that a call gives, and the table after it. -/
def call (table : Interner) : Call → Handle × Interner
  | .intern name => table.intern name
  | .keyOf label => table.keyOf label

/-- The table after some calls. -/
def after (table : Interner) (calls : List Call) : Interner :=
  calls.foldl (fun table c => (table.call c).2) table

theorem after_cons (table : Interner) (c : Call) (calls : List Call) :
    table.after (c :: calls) = (table.call c).2.after calls := rfl

/-- A label that is no handle has the handle of its spelling. -/
theorem keyOf_eq_intern (table : Interner) {label : Label} (h : ∀ k, label ≠ .handle k) :
    table.keyOf label = table.intern label.spelling := by
  cases label with
  | handle k => exact absurd rfl (h k)
  | text t => rfl
  | flag b => rfl
  | absent => rfl
  | number i =>
    by_cases hi : 0 ≤ i ∧ i ≤ Key.maxIndex
    · have hle : i.toNat ≤ Key.maxIndex := by omega
      have hneg : ¬i < 0 := by omega
      have habs : i.natAbs = i.toNat := by omega
      simp only [keyOf, if_pos hi, Label.spelling, Text.ofInt, if_neg hneg, habs]
      exact (intern_index hle table).symm
    · simp only [keyOf, if_neg hi]

theorem call_cases (table : Interner) (c : Call) :
    (∃ s, table.call c = table.intern s) ∨ (∃ k, table.call c = (k, table)) := by
  cases c with
  | intern s => exact .inl ⟨s, rfl⟩
  | keyOf label =>
    by_cases h : ∃ k, label = .handle k
    · obtain ⟨k, rfl⟩ := h
      exact .inr ⟨k, rfl⟩
    · exact .inl ⟨label.spelling, keyOf_eq_intern table fun k hk => h ⟨k, hk⟩⟩

/-- What holds of a table and is kept by interning holds after any calls. -/
theorem after_induction {P : Interner → Prop} (step : ∀ table s, P table → P (table.intern s).2)
    {table : Interner} (h : P table) (calls : List Call) : P (table.after calls) := by
  induction calls generalizing table with
  | nil => exact h
  | cons c calls ih =>
    rw [after_cons]
    apply ih
    obtain ⟨s, hs⟩ | ⟨k, hk⟩ := call_cases table c
    · rw [hs]
      exact step table s h
    · rw [hk]
      exact h

/-- A table in which no name stands twice, and none that is an index. -/
structure Sorted (table : Interner) : Prop where
  nodup : table.names.Nodup
  named : ∀ name ∈ table.names, Key.ofText name = .name name

theorem sorted_initial : initial.Sorted := ⟨by decide +kernel, by decide +kernel⟩

theorem Sorted.intern {table : Interner} (h : table.Sorted) (s : Text) : (table.intern s).2.Sorted := by
  obtain ⟨i, _, _, hi⟩ | ⟨_, hs, p, _, _, hsame | ⟨hnew, hadd⟩⟩ := intern_cases table s
  · rw [hi]
    exact h
  · rw [hsame]
    exact h
  · rw [hadd]
    constructor
    · simpa [List.nodup_append] using ⟨h.nodup, fun a ha => by rintro rfl; exact hnew ha⟩
    · intro name hname
      obtain hold | rfl := by simpa using hname
      · exact h.named name hold
      · exact hs

theorem sorted_after (calls : List Call) : (initial.after calls).Sorted :=
  after_induction (fun _ s h => h.intern s) sorted_initial calls

/-! ## What a handle stands for -/

theorem numberAt_neg (p : Nat) : numberAt p < 0 := by
  simp only [numberAt]
  omega

theorem resolve?_numberAt (table : Interner) (p : Nat) : table.resolve? (numberAt p) = table.names[p]? := by
  have hp : (-numberAt p - 1).toNat = p := by
    simp only [numberAt]
    omega
  rw [resolve?, if_neg (Int.not_le.mpr (numberAt_neg p)), hp]

theorem resolve?_natCast (table : Interner) (i : Nat) : table.resolve? i = some (Text.ofNat i) := by
  simp [resolve?]

/-- The handle stands for `s` in the table: it is what the table gives for `s`. -/
def StandsFor (table : Interner) (key : Handle) (s : Text) : Prop := table.intern s = (key, table)

theorem standsFor_intern (table : Interner) (s : Text) :
    (table.intern s).2.StandsFor (table.intern s).1 s := by
  obtain ⟨i, hi, rfl, h⟩ | ⟨_, hs, p, hkey, hp, _⟩ := intern_cases table s
  · rw [h]
    exact h
  · rw [hkey]
    exact intern_found hs hp

namespace StandsFor

variable {table : Interner} {key : Handle} {s : Text}

theorem name (h : table.StandsFor key s) : key.name = s := by
  obtain ⟨i, _, rfl, hi⟩ | ⟨_, _, p, hkey, _⟩ := intern_cases table s
  · rw [h] at hi
    exact congrArg (fun r => r.1.name) hi
  · rw [h] at hkey
    exact congrArg Handle.name hkey

theorem resolve? (h : table.StandsFor key s) : table.resolve? key.id = some s := by
  obtain ⟨i, _, rfl, hi⟩ | ⟨_, _, p, hkey, hp, _⟩ := intern_cases table s
  · rw [h] at hi
    rw [show key = indexHandle i from congrArg Prod.fst hi]
    exact resolve?_natCast table i
  · rw [h] at hkey hp
    rw [show key = ⟨numberAt p, s⟩ from hkey, resolve?_numberAt]
    obtain ⟨hlt, hget, _⟩ := List.idxOf?_eq_some_iff.mp hp
    simpa [List.getElem?_eq_getElem hlt] using hget

/-- Interning another name adds at the end, so the first place of this one stays. -/
theorem intern (h : table.StandsFor key s) (s' : Text) : (table.intern s').2.StandsFor key s := by
  obtain ⟨i, _, _, hi⟩ | ⟨_, _, _, _, _, hsame | ⟨_, hadd⟩⟩ := intern_cases table s'
  · rw [hi]
    exact h
  · rw [hsame]
    exact h
  · rw [hadd]
    obtain ⟨i, hi, rfl, hindex⟩ | ⟨_, hs, p, hkey, hp, _⟩ := intern_cases table s
    · rw [h] at hindex
      rw [show key = indexHandle i from congrArg Prod.fst hindex]
      exact intern_index hi _
    · rw [h] at hkey hp
      rw [show key = ⟨numberAt p, s⟩ from hkey]
      apply intern_found hs
      simp only [List.idxOf?] at hp ⊢
      simp [List.findIdx?_append, hp]

theorem after (h : table.StandsFor key s) (calls : List Call) : (table.after calls).StandsFor key s :=
  after_induction (P := fun table => table.StandsFor key s) (fun _ s' h => h.intern s') h calls

/-- Two handles of one table have the same number exactly if they stand for the same name. -/
theorem same_iff (h : table.StandsFor key s) {key' : Handle} {s' : Text} (h' : table.StandsFor key' s') :
    key'.same key ↔ s' = s := by
  simp only [Handle.same, beq_iff_eq]
  constructor
  · intro hid
    have hres := h'.resolve?
    rw [hid, h.resolve?] at hres
    exact (Option.some.inj hres).symm
  · rintro rfl
    rw [StandsFor, h] at h'
    exact (congrArg (fun r => r.1.id) h').symm

end StandsFor

/-- In a table that calls have made, a number that resolves is the number of what it resolves to. -/
theorem Sorted.standsFor {table : Interner} (h : table.Sorted) {id : Int} (hid : id ≤ Key.maxIndex) {s : Text}
    (hs : table.resolve? id = some s) : table.StandsFor ⟨id, s⟩ s := by
  by_cases hpos : 0 ≤ id
  · obtain ⟨i, rfl⟩ := Int.eq_ofNat_of_zero_le hpos
    rw [resolve?_natCast] at hs
    cases hs
    exact intern_index (by omega) table
  · have hnumber : id = numberAt (-id - 1).toNat := by
      simp only [numberAt]
      omega
    rw [hnumber, resolve?_numberAt] at hs
    obtain ⟨hlt, hget⟩ := List.getElem?_eq_some_iff.mp hs
    rw [hnumber]
    apply intern_found
    · exact h.named s (hget ▸ List.getElem_mem hlt)
    · rw [List.idxOf?_eq_some_iff]
      refine ⟨hlt, hget, ?_⟩
      intro j hj heq
      exact List.pairwise_iff_getElem.mp h.nodup j _ (Nat.lt_trans hj hlt) hlt hj (heq.trans hget.symm)

theorem index?_intern (table : Interner) (s : Text) (i : Nat) :
    (table.intern s).1.index? = some i ↔ s = Text.ofNat i ∧ i ≤ Key.maxIndex := by
  obtain ⟨j, hj, rfl, h⟩ | ⟨hindex, _, p, hkey, _⟩ := intern_cases table s
  · have hvalue : (table.intern (Text.ofNat j)).1.index? = some j := by simp [h, indexHandle, Handle.index?]
    rw [hvalue, Option.some.injEq]
    constructor
    · rintro rfl
      exact ⟨rfl, hj⟩
    · rintro ⟨heq, _⟩
      exact Text.ofNat_injective heq
  · have hnone : (table.intern s).1.index? = none := by
      simp [hkey, Handle.index?, Int.not_le.mpr (numberAt_neg p)]
    simp only [hnone, reduceCtorEq, false_iff, not_and]
    intro heq hi
    exact hindex i hi heq

/-- The table after any calls gives out faithful handles. The handle of a text names it, and from then on,
whatever is called, its number resolves to the text, the text is given the same handle without a change of the
table, and no other text is given one with that number. A handle has an index exactly if its text is the numeral
of one, is then the handle of the number too, and leaves the table alone; all other numbers are negative. -/
theorem handles_faithful (calls later : List Call) (s : Text) :
    let table := initial.after calls
    let key := (table.intern s).1
    let grown := (table.intern s).2.after later
    key.name = s ∧ grown.resolve? key.id = some s ∧ grown.intern s = (key, grown) ∧
      grown.keyOf (.handle key) = (key, grown) ∧
      (∀ s', (grown.intern s').1.same key ↔ s' = s) ∧
      (∀ label, (∀ k, label ≠ .handle k) → table.keyOf label = table.intern label.spelling) ∧
      (∀ (id : Int) (s' : Text), id ≤ Key.maxIndex → table.resolve? id = some s' → table.intern s' = (⟨id, s'⟩, table)) ∧
      (∀ i, key.index? = some i ↔ s = Text.ofNat i ∧ i ≤ Key.maxIndex) ∧
      (∀ i, key.index? = some i →
        table.intern s = (indexHandle i, table) ∧ table.keyOf (.number i) = (indexHandle i, table)) ∧
      (key.index? = none → key.id < 0) := by
  intro table key grown
  have hkey : grown.StandsFor key s := (standsFor_intern table s).after later
  refine ⟨hkey.name, hkey.resolve?, hkey, rfl, ?_, ?_, ?_, index?_intern table s, ?_, ?_⟩
  · intro s'
    exact hkey.intern s' |>.same_iff (standsFor_intern grown s')
  · intro label hlabel
    exact keyOf_eq_intern table hlabel
  · intro id s' hid hs'
    exact (sorted_after calls).standsFor hid hs'
  · intro i hi
    obtain ⟨hs, hle⟩ := (index?_intern table s i).mp hi
    have hrange : (0 : Int) ≤ i ∧ (i : Int) ≤ Key.maxIndex := by omega
    rw [hs]
    exact ⟨intern_index hle table, by simp only [keyOf, if_pos hrange, Int.toNat_natCast]⟩
  · intro hnone
    have hneg : ¬0 ≤ key.id := by
      intro hpos
      simp [Handle.index?, hpos] at hnone
    omega

end Interner
end ScriptEngine
