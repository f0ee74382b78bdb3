import ScriptEngine.Pattern.Search

/-!
# Where matches lie

An expression is matched by handing positions on from part to part. No part hands on a position before the one it was
given, nor one past the end of the text: whatever is found in the end was found by what comes next, from a position in
between. So a match lies in its text, not before the position from which it was looked for, and matches that are
collected follow one another without overlapping.

A text with such matches falls into pieces: the texts between them, and the rest after the last one. With every match
replaced by itself it is the same text, and with every match replaced by another text it has this text between its
pieces.

## Main definitions

* `Regex.Onward`: parts of an expression that lead onward.
* `Hit.Within`: a match lies in a text, from a position on.
* `Hits.InOrder`: matches that follow one another.
* `Hits.Parted`, `Hits.pieces`: a text, its matches and the pieces around them.

## Main results

* `Regex.onward_run`: all expressions lead onward.
* `Text.indexOf?_eq_some_iff`, `Text.indexOf?_eq_none_iff`: where a text occurs first.
* `Compiled.within_matchAt`, `Compiled.within_find`: where a match lies.
* `Hits.inOrder_collect`: where collected matches lie.
* `Hits.InOrder.parted`, `Hits.assemble_const`, `Hits.InOrder.assemble_text`: the pieces between matches, and the text
  with its matches replaced.
-/

namespace ScriptEngine

namespace Regex

/-! ## Parts that lead onward -/

/-- A part leads onward in a text of a given size: what is found with it is found by what comes next, from a position
that is not before the part and not past the end. -/
def Onward (size : Nat) (part : Next → Next) : Prop :=
  ∀ (next : Next) (p : Nat) (m : Marks) (found : Nat × Marks), p ≤ size → part next p m = some found →
    ∃ q m', p ≤ q ∧ q ≤ size ∧ next q m' = some found

variable {text : Array CodePoint} {t : CharTest} {next : Next} {p n : Nat} {m : Marks} {found : Nat × Marks}

/-- A position that a character stands at is followed by another one. -/
theorem lt_size_of_getElem? {c : CodePoint} (h : text[p]? = some c) : p + 1 ≤ text.size :=
  (Array.getElem?_eq_some_iff.1 h).1

theorem Onward.seq {size : Nat} {first second : Next → Next} (h : Onward size first) (h' : Onward size second) :
    Onward size fun next => first (second next) := by
  intro next p m found hp hfound
  obtain ⟨q, m₁, hpq, hq, hnext⟩ := h _ p m found hp hfound
  obtain ⟨q', m₂, hqq', hq', hnext⟩ := h' _ q m₁ found hq hnext
  exact ⟨q', m₂, Nat.le_trans hpq hqq', hq', hnext⟩

/-! ## Repetitions of a character -/

theorem countFrom_le (hp : p ≤ text.size) : p + countFrom text t n p ≤ text.size := by
  induction n generalizing p with
  | zero => exact hp
  | succ n ih =>
    rw [countFrom]
    split
    · rename_i c hc
      split
      · have := ih (lt_size_of_getElem? hc)
        omega
      · exact hp
    · exact hp

theorem tryDown_eq_some (h : tryDown next p m n = some found) : ∃ k ≤ n, next (p + k) m = some found := by
  induction n with
  | zero => exact ⟨0, Nat.le_refl 0, h⟩
  | succ n ih =>
    rw [tryDown] at h
    split at h
    · rename_i r hr
      exact ⟨n + 1, Nat.le_refl _, hr.trans h⟩
    · obtain ⟨k, hk, hnext⟩ := ih h
      exact ⟨k, Nat.le_succ_of_le hk, hnext⟩

theorem tryUp_eq_some (hp : p ≤ text.size) (h : tryUp text t next m n p = some found) :
    ∃ q, p ≤ q ∧ q ≤ text.size ∧ next q m = some found := by
  induction n generalizing p with
  | zero =>
    rw [tryUp] at h
    split at h
    · rename_i r hr
      exact ⟨p, Nat.le_refl p, hp, hr.trans h⟩
    · cases h
  | succ n ih =>
    rw [tryUp] at h
    split at h
    · rename_i r hr
      exact ⟨p, Nat.le_refl p, hp, hr.trans h⟩
    · split at h
      · rename_i c hc
        split at h
        · obtain ⟨q, hpq, hq, hnext⟩ := ih (lt_size_of_getElem? hc) h
          exact ⟨q, Nat.le_of_succ_le hpq, hq, hnext⟩
        · cases h
      · cases h

theorem onward_repeatOne (text : Array CodePoint) (t : CharTest) (how : Eagerness) (least : Nat) (most : Option Nat) :
    Onward text.size (repeatOne text t how least most) := by
  intro next p m found hp hfound
  unfold repeatOne at hfound
  cases how with
  | greedy =>
    dsimp only at hfound
    split at hfound
    · cases hfound
    · rename_i hleast
      obtain ⟨k, hk, hnext⟩ := tryDown_eq_some hfound
      have hcount := countFrom_le (t := t) (n := min (most.getD (text.size - p)) (text.size - p)) hp
      exact ⟨p + least + k, m, by omega, by omega, hnext⟩
  | possessive =>
    dsimp only at hfound
    split at hfound
    · cases hfound
    · exact ⟨_, m, Nat.le_add_right _ _, countFrom_le hp, hfound⟩
  | lazy =>
    dsimp only at hfound
    split at hfound
    · cases hfound
    · rename_i hleast
      have hcount := countFrom_le (t := t) (n := least) hp
      obtain ⟨q, hpq, hq, hnext⟩ := tryUp_eq_some (by omega) hfound
      exact ⟨q, m, by omega, hq, hnext⟩

/-! ## Repetitions of a part -/

section Repetition

variable {body : Next → Next} {least : Nat} {most : Option Nat} {size : Nat}

theorem onward_greedy (h : Onward size body) (fuel count : Nat) (last : Option Nat) :
    Onward size fun next => greedy body least most next fuel count last := by
  induction fuel generalizing count last with
  | zero =>
    intro next p m found _ hfound
    cases hfound
  | succ fuel ih =>
    intro next p m found hp hfound
    simp only [greedy] at hfound
    split at hfound
    · exact (h.seq (ih (count + 1) last)) next p m found hp hfound
    · split at hfound
      · rename_i r hmore
        cases hfound
        split at hmore
        · exact (h.seq (ih (count + 1) (some p))) next p m found hp hmore
        · cases hmore
      · exact ⟨p, m, Nat.le_refl p, hp, hfound⟩

theorem onward_lazy (h : Onward size body) (fuel count : Nat) (last : Option Nat) :
    Onward size fun next => lazy body least most next fuel count last := by
  induction fuel generalizing count last with
  | zero =>
    intro next p m found _ hfound
    cases hfound
  | succ fuel ih =>
    intro next p m found hp hfound
    simp only [lazy] at hfound
    split at hfound
    · exact (h.seq (ih (count + 1) last)) next p m found hp hfound
    · split at hfound
      · rename_i r hr
        exact ⟨p, m, Nat.le_refl p, hp, hr.trans hfound⟩
      · split at hfound
        · exact (h.seq (ih (count + 1) (some p))) next p m found hp hfound
        · cases hfound

/-- A round that is settled ends at a position that is not before it. -/
theorem Onward.settled {p e : Nat} {m m' : Marks} (h : Onward size body) (hp : p ≤ size)
    (hround : body finish p m = some (e, m')) : p ≤ e ∧ e ≤ size := by
  obtain ⟨q, m₁, hpq, hq, hfinish⟩ := h _ p m _ hp hround
  cases hfinish
  exact ⟨hpq, hq⟩

theorem onward_possessive (h : Onward size body) (fuel count : Nat) (last : Option Nat) :
    Onward size fun next => possessive body least most next fuel count last := by
  induction fuel generalizing count last with
  | zero =>
    intro next p m found _ hfound
    cases hfound
  | succ fuel ih =>
    intro next p m found hp hfound
    -- A round that has been settled, and the rounds after it.
    have hgoOn {e : Nat} {m₁ : Marks} {last' : Option Nat} (hround : body finish p m = some (e, m₁))
        (hrest : possessive body least most next fuel (count + 1) last' e m₁ = some found) :
        ∃ q m', p ≤ q ∧ q ≤ size ∧ next q m' = some found := by
      obtain ⟨hpe, he⟩ := h.settled hp hround
      obtain ⟨q, m', heq, hq, hnext⟩ := ih (count + 1) last' next e m₁ found he hrest
      exact ⟨q, m', Nat.le_trans hpe heq, hq, hnext⟩
    simp only [possessive] at hfound
    split at hfound
    · split at hfound
      · rename_i hround
        exact hgoOn hround hfound
      · cases hfound
    · split at hfound
      · split at hfound
        · rename_i hround
          exact hgoOn hround hfound
        · exact ⟨p, m, Nat.le_refl p, hp, hfound⟩
      · exact ⟨p, m, Nat.le_refl p, hp, hfound⟩

theorem onward_repeatBody (text : Array CodePoint) (h : Onward text.size body) (how : Eagerness) :
    Onward text.size (repeatBody text body how least most) := by
  cases how with
  | greedy => exact onward_greedy h _ 0 none
  | lazy => exact onward_lazy h _ 0 none
  | possessive => exact onward_possessive h _ 0 none

end Repetition

/-! ## All expressions -/

theorem sameText_le {fold : Fold} {q : Nat} (hp : p ≤ text.size) (h : sameText text fold n p q) :
    p + n ≤ text.size := by
  induction n generalizing p q with
  | zero => exact hp
  | succ n ih =>
    rw [sameText] at h
    split at h
    · rename_i c d hc hd
      have := ih (lt_size_of_getElem? hc) (Bool.and_eq_true_iff.1 h).2
      omega
    · cases h

/-- A repetition is one of characters, or one of a part. -/
theorem run_rep (how : Eagerness) (least : Nat) (most : Option Nat) (body : Regex) :
    (∃ t, run text (rep how least most body) = repeatOne text t how least most) ∨
      run text (rep how least most body) = repeatBody text (run text body) how least most := by
  cases body with
  | one t => exact .inl ⟨t, by funext next; rw [run]⟩
  | _ =>
    right
    funext next
    rw [run]
    nofun

mutual

/-- Every expression leads onward. -/
theorem onward_run (text : Array CodePoint) : ∀ r : Regex, Onward text.size (run text r)
  | .one t => by
    intro next p m found hp hfound
    simp only [run] at hfound
    split at hfound
    · rename_i c hc
      split at hfound
      · exact ⟨p + 1, m, Nat.le_succ p, lt_size_of_getElem? hc, hfound⟩
      · cases hfound
    · cases hfound
  | .anchor a => by
    intro next p m found hp hfound
    simp only [run] at hfound
    split at hfound
    · exact ⟨p, m, Nat.le_refl p, hp, hfound⟩
    · cases hfound
  | .back g fold => by
    intro next p m found hp hfound
    simp only [run] at hfound
    split at hfound
    · split at hfound
      · rename_i hsame
        exact ⟨_, m, Nat.le_add_right _ _, sameText_le hp hsame, hfound⟩
      · cases hfound
    · cases hfound
  | .seq items => by
    intro next p m found hp hfound
    simp only [run] at hfound
    exact onward_runSeq text items next p m found hp hfound
  | .alt branches => by
    intro next p m found hp hfound
    simp only [run] at hfound
    exact onward_runAlt text branches next p m found hp hfound
  | .group none body => by
    intro next p m found hp hfound
    simp only [run] at hfound
    exact onward_run text body next p m found hp hfound
  | .group (some g) body => by
    intro next p m found hp hfound
    simp only [run] at hfound
    obtain ⟨q, m', hpq, hq, hnext⟩ := onward_run text body _ p _ found hp hfound
    exact ⟨q, _, hpq, hq, hnext⟩
  | .rep how least most body => by
    obtain ⟨t, hrun⟩ | hrun := @run_rep text how least most body
    · rw [hrun]
      exact onward_repeatOne text t how least most
    · rw [hrun]
      exact onward_repeatBody text (onward_run text body) how
  | .atomic body => by
    intro next p m found hp hfound
    simp only [run] at hfound
    split at hfound
    · rename_i e m' hbody
      obtain ⟨hpe, he⟩ := (onward_run text body).settled hp hbody
      exact ⟨e, m', hpe, he, hfound⟩
    · cases hfound
  | .look behind negated body => by
    intro next p m found hp hfound
    simp only [run] at hfound
    split at hfound
    · rename_i m' _
      split at hfound
      · cases hfound
      · exact ⟨p, m', Nat.le_refl p, hp, hfound⟩
    · split at hfound
      · exact ⟨p, m, Nat.le_refl p, hp, hfound⟩
      · cases hfound
  | .cond g yes none => by
    intro next p m found hp hfound
    simp only [run] at hfound
    split at hfound
    · exact onward_run text yes next p m found hp hfound
    · exact ⟨p, m, Nat.le_refl p, hp, hfound⟩
  | .cond g yes (some no) => by
    intro next p m found hp hfound
    simp only [run] at hfound
    split at hfound
    · exact onward_run text yes next p m found hp hfound
    · exact onward_run text no next p m found hp hfound

theorem onward_runSeq (text : Array CodePoint) : ∀ items : List Regex, Onward text.size (runSeq text items)
  | [] => by
    intro next p m found hp hfound
    rw [runSeq] at hfound
    exact ⟨p, m, Nat.le_refl p, hp, hfound⟩
  | r :: rest => by
    intro next p m found hp hfound
    rw [runSeq] at hfound
    exact (onward_run text r).seq (onward_runSeq text rest) next p m found hp hfound

theorem onward_runAlt (text : Array CodePoint) : ∀ branches : List Regex, Onward text.size (runAlt text branches)
  | [] => by
    intro next p m found hp hfound
    simp only [runAlt] at hfound
    cases hfound
  | r :: rest => by
    intro next p m found hp hfound
    simp only [runAlt] at hfound
    split at hfound
    · rename_i hfirst
      exact onward_run text r next p m found hp (hfirst.trans hfound)
    · exact onward_runAlt text rest next p m found hp hfound

end

end Regex

/-! ## Occurrences of a text -/

namespace Text

variable {needle t : Text} {i : Nat}

/-- The first occurrence of a text. -/
theorem indexOf?_eq_some_iff : indexOf? needle t = some i ↔
    i ≤ t.length ∧ needle <+: t.drop i ∧ ∀ j < i, ¬ needle <+: t.drop j := by
  induction t generalizing i with
  | nil =>
    rw [indexOf?]
    cases needle with
    | nil =>
      constructor
      · rintro ⟨⟩
        exact ⟨Nat.le_refl 0, List.nil_prefix, nofun⟩
      · rintro ⟨hi, -, -⟩
        rw [Nat.eq_zero_of_le_zero hi]
        rfl
    | cons c needle => simp
  | cons c rest ih =>
    rw [indexOf?]
    by_cases hfront : needle.isPrefixOf (c :: rest)
    · rw [if_pos hfront]
      have hstarts := List.isPrefixOf_iff_prefix.1 hfront
      cases i with
      | zero => simpa using hstarts
      | succ i =>
        constructor
        · rintro ⟨⟩
        · rintro ⟨-, -, hfirst⟩
          exact absurd hstarts (hfirst 0 (Nat.succ_pos i))
    · rw [if_neg hfront]
      have hstarts : ¬ needle <+: c :: rest := fun h => hfront (List.isPrefixOf_iff_prefix.2 h)
      cases i with
      | zero => simpa using hstarts
      | succ i =>
        rw [Option.map_eq_some_iff]
        simp only [Nat.add_right_cancel_iff, exists_eq_right, ih, List.length_cons, Nat.add_le_add_iff_right,
          List.drop_succ_cons, Nat.forall_lt_succ_left]
        simp [hstarts]

/-- A text that occurs nowhere. -/
theorem indexOf?_eq_none_iff : indexOf? needle t = none ↔ ∀ i, ¬ needle <+: t.drop i := by
  induction t with
  | nil =>
    rw [indexOf?]
    cases needle <;> simp
  | cons c rest ih =>
    rw [indexOf?]
    by_cases hfront : needle.isPrefixOf (c :: rest)
    · have hstarts := List.isPrefixOf_iff_prefix.1 hfront
      rw [if_pos hfront]
      constructor
      · rintro ⟨⟩
      · intro h
        exact absurd hstarts (h 0)
    · have hstarts : ¬ needle <+: c :: rest := fun h => hfront (List.isPrefixOf_iff_prefix.2 h)
      rw [if_neg hfront, Option.map_eq_none_iff, ih]
      constructor
      · intro h i
        cases i with
        | zero => exact hstarts
        | succ i => exact h i
      · intro h i
        exact h (i + 1)

end Text

/-! ## Matches -/

theorem Text.slice_append_drop {t : Text} {p q : Nat} (h : p ≤ q) : t.slice p q ++ t.drop q = t.drop p := by
  have hdrop : t.drop q = (t.drop p).drop (q - p) := by rw [List.drop_drop, Nat.add_sub_cancel' h]
  rw [Text.slice, List.drop_take, hdrop, List.take_append_drop]

/-- A match lies in a text, from a position on, and its text is what stands there. -/
structure Hit.Within (h : Hit) (t : Text) (p : Nat) : Prop where
  after : p ≤ h.start
  order : h.start ≤ h.stop
  inside : h.stop ≤ t.length
  text : h.text = t.slice h.start h.stop

namespace Hit.Within

variable {h : Hit} {t : Text} {p : Nat}

theorem mono {p' : Nat} (hwithin : h.Within t p) (hp : p' ≤ p) : h.Within t p' :=
  ⟨Nat.le_trans hp hwithin.after, hwithin.order, hwithin.inside, hwithin.text⟩

theorem length_text (hwithin : h.Within t p) : h.start + h.text.length = h.stop := by
  have horder := hwithin.order
  have hinside := hwithin.inside
  rw [hwithin.text, Text.slice, List.length_drop, List.length_take]
  omega

/-- What stands before a match, the match and what stands after it make up the text. -/
theorem slice_append_text (hwithin : h.Within t p) : t.slice p h.start ++ h.text ++ t.drop h.stop = t.drop p := by
  rw [hwithin.text, List.append_assoc, Text.slice_append_drop hwithin.order, Text.slice_append_drop hwithin.after]

end Hit.Within

namespace Compiled

variable {c : Compiled} {t : Text} {advance : Bool} {p n : Nat} {h : Hit}

theorem within_matchAt (hp : p ≤ t.length) (hmatch : c.matchAt t advance p = some h) : h.Within t p ∧ h.start = p := by
  rw [matchAt, Option.map_eq_some_iff] at hmatch
  obtain ⟨⟨e, m⟩, hrun, rfl⟩ := hmatch
  obtain ⟨q, m', hpq, hq, hnext⟩ := Regex.onward_run t.toArray c.regex _ p _ _ (by simpa using hp) hrun
  split at hnext
  · cases hnext
  · cases hnext
    have he : e ≤ t.length := by simpa using hq
    exact ⟨⟨Nat.le_refl p, hpq, he, rfl⟩, rfl⟩

theorem within_findFrom (hn : p + n ≤ t.length + 1) (hfind : c.findFrom t advance n p = some h) : h.Within t p := by
  induction n generalizing p advance with
  | zero => cases hfind
  | succ n ih =>
    rw [findFrom] at hfind
    split at hfind
    · rename_i hmatch
      cases hfind
      exact (within_matchAt (by omega) hmatch).1
    · exact (ih (by omega) hfind).mono (Nat.le_succ p)

theorem length_groups_matchAt (hmatch : c.matchAt t advance p = some h) : h.groups.length = c.groups := by
  rw [matchAt, Option.map_eq_some_iff] at hmatch
  obtain ⟨_, -, rfl⟩ := hmatch
  simp [hit]

/-- A match has something, or nothing, for each of the groups. -/
theorem length_groups_find (hfind : c.find t p advance = some h) : h.groups.length = c.groups := by
  rw [find] at hfind
  generalize t.length + 1 - p = n at hfind
  induction n generalizing p advance with
  | zero => cases hfind
  | succ n ih =>
    rw [findFrom] at hfind
    split at hfind
    · rename_i hmatch
      cases hfind
      exact length_groups_matchAt hmatch
    · exact ih hfind

/-- A match that is found lies in the text, not before the position from which it was looked for. -/
theorem within_find (hfind : c.find t p advance = some h) : h.Within t p := by
  rw [find] at hfind
  by_cases hp : p ≤ t.length
  · exact within_findFrom (by omega) hfind
  · rw [show t.length + 1 - p = 0 by omega] at hfind
    cases hfind

end Compiled

/-! ## Matches one after another -/

namespace Hits

variable {t : Text} {p : Nat} {hits : List Hit}

/-- Matches in a text from a position on, none of which starts before the end of the one before it. -/
def InOrder (t : Text) : Nat → List Hit → Prop
  | _, [] => True
  | p, h :: rest => h.Within t p ∧ InOrder t h.stop rest

theorem inOrder_collectFrom {find : Nat → Bool → Option Hit}
    (hfind : ∀ p advance h, find p advance = some h → h.Within t p) (n : Nat) (p : Nat) (advance : Bool) :
    InOrder t p (collectFrom find n p advance) := by
  induction n generalizing p advance with
  | zero => trivial
  | succ n ih =>
    rw [collectFrom]
    split
    · trivial
    · rename_i h hh
      exact ⟨hfind p advance h hh, ih h.stop _⟩

/-- The matches of a pattern that are collected follow one another. -/
theorem inOrder_collect (c : Compiled) (t : Text) : InOrder t 0 (collect (c.find t) t.length) :=
  inOrder_collectFrom (fun _ _ _ => Compiled.within_find) _ 0 false

/-- A text that starts at a position, with matches in it, and the pieces that it falls into: the texts before each of
the matches, and the rest after the last one. -/
inductive Parted : Nat → Text → List Hit → List Text → Prop
  | last {p : Nat} (rest : Text) : Parted p rest [] [rest]
  | next {p : Nat} {piece rest : Text} {h : Hit} {hits : List Hit} {pieces : List Text}
      (hstart : h.start = p + piece.length) (hstop : h.stop = h.start + h.text.length)
      (hrest : Parted h.stop rest hits pieces) : Parted p (piece ++ h.text ++ rest) (h :: hits) (piece :: pieces)

/-- The pieces of a text from a position on, before, between and after matches. -/
def pieces (t : Text) : Nat → List Hit → List Text
  | p, [] => [t.drop p]
  | p, h :: rest => t.slice p h.start :: pieces t h.stop rest

theorem InOrder.parted (h : InOrder t p hits) : Parted p (t.drop p) hits (pieces t p hits) := by
  induction hits generalizing p with
  | nil => exact .last _
  | cons hit rest ih =>
    obtain ⟨hwithin, hrest⟩ := h
    have hpiece : (t.slice p hit.start).length = hit.start - p := by
      have := Nat.le_trans hwithin.order hwithin.inside
      rw [Text.slice, List.length_drop, List.length_take, Nat.min_eq_left this]
    rw [← hwithin.slice_append_text]
    refine .next ?_ hwithin.length_text.symm (ih hrest)
    rw [hpiece, Nat.add_sub_cancel' hwithin.after]

/-- A text with all matches replaced by the same text has this text between its pieces. -/
theorem assemble_const (t r : Text) (p : Nat) (hits : List Hit) :
    assemble t p (hits.map fun h => (h, r)) = Text.joinWith r (pieces t p hits) := by
  induction hits generalizing p with
  | nil => rfl
  | cons h rest ih =>
    have hcons : Text.joinWith r (pieces t p (h :: rest)) =
        t.slice p h.start ++ r ++ Text.joinWith r (pieces t h.stop rest) := by
      cases rest <;> rfl
    rw [List.map_cons, assemble, ih, hcons]

/-- A text with every match replaced by itself is the text. -/
theorem InOrder.assemble_text (h : InOrder t p hits) : assemble t p (hits.map fun h => (h, h.text)) = t.drop p := by
  induction hits generalizing p with
  | nil => rfl
  | cons hit rest ih =>
    obtain ⟨hwithin, hrest⟩ := h
    rw [List.map_cons, assemble, ih hrest, hwithin.slice_append_text]

end Hits

end ScriptEngine
