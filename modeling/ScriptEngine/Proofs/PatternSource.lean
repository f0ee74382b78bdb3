import ScriptEngine.Pattern.Source
import ScriptEngine.Proofs.Lossless

/-!
# Sets in the source of a pattern

A source is rewritten piece by piece: an escape, a reference to a group, an empty set or its complement, the beginning of
a named group, or a single code point. What is written for a piece leads from outside to outside of the sets or from one
to the other just as the piece itself does. So a set of the source is a set of what is written, with the same contents but
for the backslashes before slashes. Only references do not heed the brackets: one that begins in a set is rewritten there
like anywhere else, and one takes all brackets up to its end.

## Main definitions

* `Pattern.Scan`: whether a reading of a source is in a set.
* `Pattern.SetAt`: the sets of a source.
* `Pattern.Undisturbed`: the parts of a source that no reference reaches into.
* `Pattern.Piece`: what is rewritten in one step.

## Main results

* `Pattern.Piece.translateFrom_eq`, `Pattern.exists_piece`: rewriting goes from piece to piece.
* `Pattern.Piece.after_written`: how what is written for a piece is read.
* `Pattern.translateFrom_append`: rewriting up to a set.
* `Pattern.translateFrom_body`: rewriting the contents of a set.
* `Pattern.translate_keeps_sets`: the sets of what is written.
-/

namespace ScriptEngine

namespace Pattern

/-! ## Reading a source -/

/-- How far the reading of a source has come. -/
structure Scan where
  /-- Whether a set is open. -/
  inSet : Bool
  /-- Whether the next code point is escaped. -/
  escaped : Bool
  deriving DecidableEq

namespace Scan

/-- Before the first code point: outside of sets. -/
def outside : Scan := ⟨false, false⟩

/-- After the next code point. A backslash escapes the one after it, and a bracket that is not escaped opens or closes a
set. -/
def step (s : Scan) (c : CodePoint) : Scan :=
  if s.escaped then { s with escaped := false }
  else if c = 92 then { s with escaped := true }
  else { s with inSet := if s.inSet then c ≠ 93 else c = 91 }

/-- After the code points of a text. -/
def after (s : Scan) (t : Text) : Scan := t.foldl step s

@[simp] theorem after_nil (s : Scan) : s.after [] = s := rfl

@[simp] theorem after_cons (s : Scan) (c : CodePoint) (t : Text) : s.after (c :: t) = (s.step c).after t := rfl

@[simp] theorem after_append (s : Scan) (t u : Text) : s.after (t ++ u) = (s.after t).after u := List.foldl_append

end Scan

/-- Whether a text can stand between the brackets of a set: it has no closing bracket that is not escaped. -/
def isSetBody : Text → Bool
  | 92 :: _ :: t => isSetBody t
  | c :: t => c ≠ 92 && c ≠ 93 && isSetBody t
  | [] => true

/-- A set of a source, neither empty nor the complement of the empty one. An opening bracket that is not escaped begins
it outside of other sets, and it goes on to the next closing bracket that is not escaped. -/
structure SetAt (source before body after : Text) : Prop where
  eq : source = before ++ 91 :: (body ++ 93 :: after)
  outside : Scan.outside.after before = .outside
  contents : isSetBody body
  ne_nil : body ≠ []
  ne_caret : body ≠ [94]

/-- A text without the backslashes before slashes. -/
def bareSlashes : Text → Text
  | 92 :: 47 :: t => 47 :: bareSlashes t
  | 92 :: c :: t => 92 :: c :: bareSlashes t
  | c :: t => c :: bareSlashes t
  | [] => []

/-- The end of the reference that begins at a position, if one does: a backslash that is not escaped, two more code
points that mark it, and a name up to the next closing mark. -/
def referenceEnd? (source : Text) (i : Nat) : Option Nat :=
  if (Scan.outside.after (source.take i)).escaped = false ∧ Text.startsWith (source.drop i) "\\k<" then
    (Text.indexOf? ">" (source.drop (i + 3))).map (i + 4 + ·)
  else none

/-- Every reference that begins before the position `stop` ends at `start` at the latest, and is in a set at its end
exactly if it is at its beginning. -/
def Undisturbed (source : Text) (start stop : Nat) : Prop :=
  ∀ i < stop, ∀ j ∈ referenceEnd? source i,
    j ≤ start ∧ Scan.outside.after (source.take j) = Scan.outside.after (source.take i)

/-! ## Pieces -/

/-- What is rewritten in one step, in a set or outside: the piece, what is written for it, whether a set is open
afterwards, and the rest of the source. -/
inductive Piece : Bool → Text → Text → Bool → Text → Prop
  | slash {b : Bool} {rest : Text} : Piece b [92, 47] [47] b rest
  | reference {b : Bool} {name rest : Text} (hname : 62 ∉ name) :
      Piece b (92 :: 107 :: 60 :: (name ++ [62])) ("(?P=" ++ name ++ ")") b rest
  | escape {b : Bool} {c : CodePoint} {rest : Text} (hslash : c ≠ 47)
      (hreference : c = 107 → ∀ u, rest = 60 :: u → 62 ∉ u) : Piece b [92, c] [92, c] b rest
  | lone {b : Bool} : Piece b [92] [92] b []
  | anything {rest : Text} : Piece false [91, 94, 93] "[\\s\\S]" false rest
  | nothing {rest : Text} : Piece false [91, 93] "(?!)" false rest
  | group {rest : Text} (hgroup : rest.head? ≠ some 61 ∧ rest.head? ≠ some 33) :
      Piece false [40, 63, 60] "(?P<" false rest
  | point {b : Bool} {c : CodePoint} {rest : Text} (hescape : c ≠ 92)
      (hset : b = false → c = 91 → ¬[93] <+: rest ∧ ¬[94, 93] <+: rest)
      (hgroup : b = false → c = 40 → ∀ u, rest = 63 :: 60 :: u → u.head? = some 61 ∨ u.head? = some 33) :
      Piece b [c] [c] (if b then c ≠ 93 else c = 91) rest

variable {b b' : Bool} {piece written rest : Text}

theorem indexOf?_cons {c : CodePoint} (h : c ≠ 62) (t : Text) :
    Text.indexOf? ">" (c :: t) = (Text.indexOf? ">" t).map (· + 1) := by
  have hne : (Text.ofString ">").isPrefixOf (c :: t) = false := by
    simpa [Text.ofString, List.isPrefixOf] using h.symm
  rw [Text.indexOf?, hne]
  rfl

theorem indexOf?_of_not_mem {name : Text} (h : 62 ∉ name) (rest : Text) :
    Text.indexOf? ">" (name ++ 62 :: rest) = some name.length := by
  induction name with
  | nil => rfl
  | cons c name ih =>
    rw [List.mem_cons, not_or] at h
    rw [List.cons_append, indexOf?_cons (Ne.symm h.1), ih h.2]
    rfl

theorem indexOf?_eq_none {t : Text} (h : 62 ∉ t) : Text.indexOf? ">" t = none := by
  induction t with
  | nil => rfl
  | cons c t ih =>
    rw [List.mem_cons, not_or] at h
    rw [indexOf?_cons (Ne.symm h.1), ih h.2]
    rfl

namespace Piece

/-- The first piece of a source is rewritten, and then the rest. -/
theorem translateFrom_eq (h : Piece b piece written b' rest) :
    translateFrom b (piece ++ rest) = written ++ translateFrom b' rest := by
  cases h with
  | slash => simp [translateFrom]
  | @reference _ name _ hname =>
    rw [List.cons_append, List.cons_append, List.cons_append, List.append_assoc, List.singleton_append, translateFrom,
      indexOf?_of_not_mem hname]
    simp
  | @escape _ c _ hslash hreference =>
    by_cases hc : c = 107
    · subst hc
      cases rest with
      | nil => simp [translateFrom]
      | cons d u =>
        by_cases hd : d = 60
        · subst hd
          simp [translateFrom, indexOf?_eq_none (hreference rfl u rfl)]
        · simp [translateFrom, hd]
    · simp [translateFrom, hc]
  | lone => simp [translateFrom]
  | anything => simp [translateFrom]
  | nothing => simp [translateFrom]
  | group hgroup => simp [translateFrom, hgroup]
  | @point _ c _ hescape hset hgroup =>
    rw [List.singleton_append, translateFrom.eq_def]
    split
    case h_6 u heq =>
      obtain ⟨rfl, rfl⟩ := List.cons.inj heq
      have hplain : (b || u.head? = some 61 || u.head? = some 33) = true := by
        cases b with
        | true => rfl
        | false => simpa using hgroup rfl rfl u rfl
      simp [hplain]
    all_goals simp_all

/-- What is written for a piece is read like the piece. -/
theorem after_written (h : Piece b piece written b' rest) :
    Scan.after ⟨b, false⟩ written = Scan.after ⟨b, false⟩ piece := by
  cases h with
  | @reference _ name _ hname =>
    have hopen : Scan.after ⟨b, false⟩ "(?P=" = ⟨b, false⟩ := by cases b <;> decide
    have hopen' : Scan.after ⟨b, false⟩ [92, 107, 60] = ⟨b, false⟩ := by cases b <;> decide
    have hclose (s : Scan) : s.step 41 = s.step 62 := by simp [Scan.step]
    have hsplit : 92 :: 107 :: 60 :: (name ++ [62]) = [92, 107, 60] ++ (name ++ [62]) := rfl
    rw [hsplit, List.append_assoc, Scan.after_append, Scan.after_append _ [92, 107, 60], hopen, hopen', Scan.after_append,
      Scan.after_append]
    exact hclose _
  | slash => cases b <;> rfl
  | anything | nothing | group => decide
  | escape | lone | point => rfl

theorem ne_nil (h : Piece b piece written b' rest) : piece ≠ [] := by
  cases h <;> simp

/-- An escape that looks like the beginning of a reference has no end. -/
theorem not_mem_rest (h : Piece b piece written b' rest) (hpiece : piece = [92, 107]) {u : Text}
    (hrest : rest = 60 :: u) : 62 ∉ u := by
  cases h <;> simp_all

theorem not_mem_name (h : Piece b piece written b' rest) {name : Text}
    (hpiece : piece = 92 :: 107 :: 60 :: (name ++ [62])) : 62 ∉ name := by
  cases h <;> simp_all

/-- A piece leads into a set, or out of one, as the rewriting takes it, if a reference leads nowhere else. -/
theorem after_piece (h : Piece b piece written b' rest)
    (hend : (Scan.after ⟨b, false⟩ (piece ++ rest)).escaped = false)
    (hreference : ∀ name, piece = 92 :: 107 :: 60 :: (name ++ [62]) → Scan.after ⟨b, false⟩ piece = ⟨b, false⟩) :
    Scan.after ⟨b, false⟩ piece = ⟨b', false⟩ := by
  cases h with
  | @reference _ name _ hname => exact hreference name rfl
  | lone => simp [Scan.step] at hend
  | slash | escape => cases b <;> simp [Scan.step]
  | anything | nothing | group => rfl
  | point hescape => simp [Scan.step, hescape]

/-- The first piece of the beginning of a source is the first piece of the source, if the beginning ends with a whole
piece and a bracket follows it. -/
theorem extend (h : Piece b piece written b' rest) {c : CodePoint} {t : Text} (hc : c = 91 ∨ b = true ∧ c = 93)
    (hend : (Scan.after ⟨b, false⟩ (piece ++ rest)).escaped = false)
    (hreference : ∀ u, piece = [92, 107] → rest = 60 :: u → 62 ∉ u ++ c :: t) :
    Piece b piece written b' (rest ++ c :: t) := by
  cases h with
  | slash => exact .slash
  | reference hname => exact .reference hname
  | lone => simp [Scan.step] at hend
  | anything => exact .anything
  | nothing => exact .nothing
  | @escape _ d _ hslash _ =>
    refine .escape hslash ?_
    rintro rfl u hu
    cases rest with
    | nil =>
      obtain ⟨rfl, -⟩ := List.cons.inj hu
      simp at hc
    | cons e rest =>
      obtain ⟨rfl, rfl⟩ := List.cons.inj hu
      exact hreference rest rfl rfl
  | group hgroup =>
    refine .group ?_
    cases rest with
    | nil => simp_all
    | cons e rest => exact hgroup
  | @point _ d _ hescape hset hgroup =>
    refine .point hescape ?_ ?_
    · rintro rfl rfl
      obtain ⟨hnothing, hanything⟩ := hset rfl rfl
      obtain rfl : c = 91 := by simpa using hc
      match rest with
      | [] => simp
      | [e] => simp_all
      | e :: f :: rest => simp_all
    · rintro rfl rfl u hu
      obtain rfl : c = 91 := by simpa using hc
      match rest with
      | [] => simp at hu
      | [e] => simp at hu
      | e :: f :: rest =>
        simp only [List.cons_append, List.cons.injEq] at hu
        obtain ⟨rfl, rfl, rfl⟩ := hu
        have hhead := hgroup rfl rfl rest rfl
        cases rest with
        | nil => simp at hhead
        | cons g rest => exact hhead

end Piece

/-- Every source that is not empty begins with a piece. -/
theorem exists_piece (b : Bool) {t : Text} (h : t ≠ []) :
    ∃ piece written b' rest, t = piece ++ rest ∧ Piece b piece written b' rest := by
  obtain ⟨c, t, rfl⟩ := List.exists_cons_of_ne_nil h
  by_cases hescape : c = 92
  · subst hescape
    cases t with
    | nil => exact ⟨_, _, _, _, rfl, .lone⟩
    | cons d t =>
      by_cases hslash : d = 47
      · subst hslash
        exact ⟨_, _, _, _, rfl, .slash⟩
      by_cases hreference : d = 107 ∧ ∃ u, t = 60 :: u ∧ 62 ∈ u
      · obtain ⟨rfl, u, rfl, hu⟩ := hreference
        obtain ⟨name, rest, rfl, hname⟩ := List.eq_append_cons_of_mem hu
        exact ⟨92 :: 107 :: 60 :: (name ++ [62]), _, _, rest, by simp, .reference hname⟩
      · exact ⟨[92, d], _, _, t, rfl, .escape hslash fun hd u hu hmem => hreference ⟨hd, u, hu, hmem⟩⟩
  by_cases hnothing : b = false ∧ c = 91 ∧ [93] <+: t
  · obtain ⟨rfl, rfl, rest, rfl⟩ := hnothing
    exact ⟨_, _, _, rest, rfl, .nothing⟩
  by_cases hanything : b = false ∧ c = 91 ∧ [94, 93] <+: t
  · obtain ⟨rfl, rfl, rest, rfl⟩ := hanything
    exact ⟨_, _, _, rest, rfl, .anything⟩
  by_cases hgroup : b = false ∧ c = 40 ∧ ∃ u, t = 63 :: 60 :: u ∧ u.head? ≠ some 61 ∧ u.head? ≠ some 33
  · obtain ⟨rfl, rfl, u, rfl, hu⟩ := hgroup
    exact ⟨_, _, _, u, rfl, .group hu⟩
  refine ⟨[c], _, _, t, rfl, .point hescape ?_ ?_⟩
  · exact fun hb hc => ⟨fun ht => hnothing ⟨hb, hc, ht⟩, fun ht => hanything ⟨hb, hc, ht⟩⟩
  · intro hb hc u hu
    by_contra hnone
    exact hgroup ⟨hb, hc, u, hu, not_or.1 hnone⟩

/-! ## Rewriting up to a set -/

variable {source before body after p t u name : Text} {start stop : Nat}

/-- A reference that begins before the end of an undisturbed part ends before the part, on the side of the brackets that
it began on. -/
theorem Undisturbed.reference (h : Undisturbed source start stop)
    (hsource : source = p ++ 92 :: 107 :: 60 :: (name ++ 62 :: t)) (hp : (Scan.outside.after p).escaped = false)
    (hname : 62 ∉ name) (hstop : p.length < stop) :
    p.length + 4 + name.length ≤ start ∧
      Scan.outside.after (p ++ 92 :: 107 :: 60 :: (name ++ [62])) = Scan.outside.after p := by
  have htake : source.take (p.length + 4 + name.length) = p ++ 92 :: 107 :: 60 :: (name ++ [62]) := by
    have hsplit : source = (p ++ 92 :: 107 :: 60 :: (name ++ [62])) ++ t := by simp [hsource]
    rw [hsplit, List.take_left']
    simp
    omega
  have hend : referenceEnd? source p.length = some (p.length + 4 + name.length) := by
    have hfront : Text.startsWith (92 :: 107 :: 60 :: (name ++ 62 :: t)) "\\k<" = true := by
      simp [Text.startsWith, Text.ofString]
    have hdrop : source.drop (p.length + 3) = name ++ 62 :: t := by
      rw [hsource, List.drop_append]
      simp
    rw [referenceEnd?, hdrop, indexOf?_of_not_mem hname, hsource, List.take_left, List.drop_left, if_pos ⟨hp, hfront⟩]
    rfl
  have hclear := h p.length hstop _ hend
  rwa [htake, hsource, List.take_left] at hclear

/-- A reference that has no end before a set, or before the end of a set, has none at all. -/
theorem Undisturbed.not_mem (h : Undisturbed source start stop) {c : CodePoint}
    (hsource : source = p ++ 92 :: 107 :: 60 :: (u ++ c :: t)) (hp : (Scan.outside.after p).escaped = false)
    (hu : 62 ∉ u) (hstart : start ≤ p.length + 3 + u.length) (hstop : p.length < stop) : 62 ∉ u ++ c :: t := by
  intro hmem
  obtain ⟨name, q, hsplit, hname⟩ := List.eq_append_cons_of_mem hmem
  rw [hsplit] at hsource
  have hends := (h.reference hsource hp hname hstop).1
  obtain ⟨v, rfl, -⟩ | ⟨v, rfl, hv⟩ := List.append_eq_append_iff.1 hsplit
  · rw [List.length_append] at hends
    omega
  · cases v with
    | nil =>
      rw [List.append_nil] at hstart
      omega
    | cons d v =>
      obtain ⟨rfl, -⟩ := List.cons.inj hv
      simp at hu

/-- The beginning of a source up to a set is rewritten for itself, and what is written for it ends outside of sets. -/
theorem translateFrom_append (h : Undisturbed (before ++ 91 :: t) before.length stop) (hstop : before.length ≤ stop)
    (hbefore : Scan.outside.after before = .outside) {b : Bool} (hp : Scan.outside.after p = ⟨b, false⟩)
    (hsplit : before = p ++ u) :
    translateFrom b (u ++ 91 :: t) = translateFrom b u ++ translateFrom false (91 :: t) ∧
      Scan.after ⟨b, false⟩ (translateFrom b u) = .outside := by
  -- What is left of the beginning becomes shorter with every piece.
  induction hlength : u.length using Nat.strong_induction_on generalizing p u b with
  | _ size ih =>
    have hread : Scan.after ⟨b, false⟩ u = .outside := by rw [← hp, ← Scan.after_append, ← hsplit, hbefore]
    by_cases hu : u = []
    · subst hu
      have hb : b = false := congrArg Scan.inSet hread
      subst hb
      exact ⟨by simp [translateFrom], by simpa [translateFrom] using hread⟩
    obtain ⟨piece, written, b', rest, rfl, hpiece⟩ := exists_piece b hu
    have hend : (Scan.after ⟨b, false⟩ (piece ++ rest)).escaped = false := by rw [hread]; rfl
    have hunescaped : (Scan.outside.after p).escaped = false := by rw [hp]
    have hwithin : p.length < stop := by
      have hpos := List.length_pos_iff.2 hu
      rw [hsplit, List.length_append] at hstop
      omega
    have hnext : Scan.after ⟨b, false⟩ piece = ⟨b', false⟩ := by
      refine hpiece.after_piece hend ?_
      rintro name rfl
      have hname := hpiece.not_mem_name rfl
      have hsource : before ++ 91 :: t = p ++ 92 :: 107 :: 60 :: (name ++ 62 :: (rest ++ 91 :: t)) := by simp [hsplit]
      have hsame := (h.reference hsource hunescaped hname hwithin).2
      rwa [Scan.after_append, hp] at hsame
    have hextended : Piece b piece written b' (rest ++ 91 :: t) := by
      refine hpiece.extend (.inl rfl) hend ?_
      rintro v rfl rfl
      exact h.not_mem (by simp [hsplit]) hunescaped (hpiece.not_mem_rest rfl rfl) (by simp [hsplit]; omega) hwithin
    have hshorter : rest.length < size := by
      have hpos := List.length_pos_iff.2 hpiece.ne_nil
      rw [← hlength, List.length_append]
      omega
    obtain ⟨hrest, hafter⟩ := ih rest.length hshorter (p := p ++ piece) (u := rest) (b := b')
      (by rw [Scan.after_append, hp, hnext]) (by simp [hsplit]) rfl
    rw [List.append_assoc, hextended.translateFrom_eq, hpiece.translateFrom_eq, hrest, Scan.after_append,
      hpiece.after_written, hnext]
    exact ⟨(List.append_assoc _ _ _).symm, hafter⟩

/-! ## Rewriting a set -/

theorem isSetBody_escape (c : CodePoint) (t : Text) : isSetBody (92 :: c :: t) = isSetBody t := by
  rw [isSetBody]

theorem isSetBody_point {c : CodePoint} (h : c ≠ 92) (t : Text) : isSetBody (c :: t) = (c ≠ 93 && isSetBody t) := by
  rw [isSetBody.eq_def]
  split <;> simp_all

/-- What stands in a set leads neither out of it nor into the middle of an escape. -/
theorem after_of_isSetBody {t : Text} (h : isSetBody t) : Scan.after ⟨true, false⟩ t = ⟨true, false⟩ := by
  fun_induction isSetBody t with
  | case1 c t ih => simpa [Scan.step] using ih h
  | case2 c t _ ih =>
    simp only [Bool.and_eq_true, decide_eq_true_eq] at h
    simpa [Scan.step, h.1] using ih h.2
  | case3 => rfl

theorem bareSlashes_escape {c : CodePoint} (h : c ≠ 47) (t : Text) :
    bareSlashes (92 :: c :: t) = 92 :: c :: bareSlashes t := by
  rw [bareSlashes]
  simpa using h

theorem bareSlashes_point {c : CodePoint} (h : c ≠ 92) (t : Text) : bareSlashes (c :: t) = c :: bareSlashes t := by
  rw [bareSlashes.eq_def]
  split <;> simp_all

/-- A piece of the contents of a set that is no reference loses a backslash before a slash, and nothing else. -/
theorem Piece.in_body (h : Piece true piece written b' rest) (hbody : isSetBody (piece ++ rest))
    (hreference : ∀ name, piece ≠ 92 :: 107 :: 60 :: (name ++ [62])) :
    b' = true ∧ isSetBody rest ∧ bareSlashes (piece ++ rest) = written ++ bareSlashes rest := by
  cases h with
  | slash =>
    rw [List.cons_append, List.singleton_append, isSetBody_escape] at hbody
    exact ⟨rfl, hbody, by simp [bareSlashes]⟩
  | @reference _ name => exact absurd rfl (hreference name)
  | escape hslash =>
    rw [List.cons_append, List.singleton_append, isSetBody_escape] at hbody
    exact ⟨rfl, hbody, by rw [List.cons_append, List.singleton_append, bareSlashes_escape hslash]; rfl⟩
  | lone => simp [isSetBody] at hbody
  | point hescape =>
    rw [List.singleton_append, isSetBody_point hescape, Bool.and_eq_true, decide_eq_true_eq] at hbody
    exact ⟨by simpa using hbody.1, hbody.2, by rw [List.singleton_append, bareSlashes_point hescape]; rfl⟩

/-- The contents of a set are rewritten to the same without the backslashes before slashes. -/
theorem translateFrom_body (h : Undisturbed source start stop) (hsource : source = p ++ (u ++ 93 :: t))
    (hp : Scan.outside.after p = ⟨true, false⟩) (hu : isSetBody u) (hstart : start ≤ p.length)
    (hstop : p.length + u.length ≤ stop) :
    translateFrom true (u ++ 93 :: t) = bareSlashes u ++ 93 :: translateFrom false t := by
  induction hlength : u.length using Nat.strong_induction_on generalizing p u with
  | _ size ih =>
    by_cases hnil : u = []
    · subst hnil
      simp [translateFrom, bareSlashes]
    obtain ⟨piece, written, b', rest, rfl, hpiece⟩ := exists_piece true hnil
    have hpositive := List.length_pos_iff.2 hpiece.ne_nil
    have hunescaped : (Scan.outside.after p).escaped = false := by rw [hp]
    have hend : (Scan.after ⟨true, false⟩ (piece ++ rest)).escaped = false := by rw [after_of_isSetBody hu]
    rw [List.length_append] at hstop hlength
    have hwithin : p.length < stop := by omega
    -- A reference would have to end before the set.
    have hreference : ∀ name, piece ≠ 92 :: 107 :: 60 :: (name ++ [62]) := by
      rintro name rfl
      have hsource' : source = p ++ 92 :: 107 :: 60 :: (name ++ 62 :: (rest ++ 93 :: t)) := by simp [hsource]
      have hends := (h.reference hsource' hunescaped (hpiece.not_mem_name rfl) hwithin).1
      omega
    have hextended : Piece true piece written b' (rest ++ 93 :: t) := by
      refine hpiece.extend (.inr ⟨rfl, rfl⟩) hend ?_
      rintro v rfl rfl
      exact h.not_mem (by simp [hsource]) hunescaped (hpiece.not_mem_rest rfl rfl) (by omega) hwithin
    obtain ⟨rfl, hbody, hbare⟩ := hpiece.in_body hu hreference
    have hread : Scan.after ⟨true, false⟩ piece = ⟨true, false⟩ :=
      hpiece.after_piece hend fun name hname => absurd hname (hreference name)
    have hrest := ih rest.length (by omega) (p := p ++ piece) (u := rest) (by simp [hsource])
      (by rw [Scan.after_append, hp, hread]) hbody (by rw [List.length_append]; omega)
      (by rw [List.length_append]; omega) rfl
    rw [List.append_assoc, hextended.translateFrom_eq, hrest, hbare, List.append_assoc]

/-! ## Whole sources -/

/-- A source of single code points. -/
theorem translateFrom_points (hescape : 92 ∉ t) (hset : 91 ∉ t) (hgroup : ¬Text.ofString "(?<" <:+: t) :
    translateFrom false t = t := by
  induction t with
  | nil => simp [translateFrom]
  | cons c t ih =>
    rw [List.mem_cons, not_or] at hescape hset
    have hpoint : Piece false [c] [c] (if false then c ≠ 93 else c = 91) t := by
      refine .point (Ne.symm hescape.1) (fun _ hc => absurd hc.symm hset.1) ?_
      rintro - rfl u rfl
      exact absurd ⟨[], u, rfl⟩ hgroup
    have hrest := ih hescape.2 hset.2 fun h => hgroup (h.trans (List.suffix_cons c t).isInfix)
    have htranslate := hpoint.translateFrom_eq
    simpa [Ne.symm hset.1, hrest] using htranslate

theorem ne_of_isSetBody {c : CodePoint} (h : isSetBody (c :: t)) : c ≠ 93 := by
  rintro rfl
  simp [isSetBody] at h

/-- The bracket of a set is a piece of its own. -/
theorem SetAt.translateFrom_opening (h : SetAt source before body after) :
    translateFrom false (91 :: (body ++ 93 :: after)) = 91 :: translateFrom true (body ++ 93 :: after) := by
  have hpoint : Piece false [91] [91] (if false then (91 : CodePoint) ≠ 93 else (91 : CodePoint) = 91)
      (body ++ 93 :: after) := by
    refine .point (by decide) (fun _ _ => ?_) (fun _ hc => absurd hc (by decide))
    have hcontents := h.contents
    match body, h.ne_nil, h.ne_caret with
    | [c], _, hcaret =>
      have hc := ne_of_isSetBody hcontents
      have hc' : c ≠ 94 := by simpa using hcaret
      simp [hc.symm, hc'.symm]
    | c :: d :: u, _, _ =>
      have hc := ne_of_isSetBody hcontents
      have hd : c = 94 → d ≠ 93 := by
        rintro rfl
        rw [isSetBody_point (by decide), Bool.and_eq_true] at hcontents
        exact ne_of_isSetBody hcontents.2
      constructor
      · simp [hc.symm]
      · rw [List.cons_append, List.cons_append, List.cons_prefix_cons, List.cons_prefix_cons]
        rintro ⟨hfirst, hsecond, -⟩
        exact hd hfirst.symm hsecond.symm
  exact hpoint.translateFrom_eq

theorem isSetBody_bareSlashes {t : Text} (h : isSetBody t) : isSetBody (bareSlashes t) := by
  fun_induction bareSlashes t with
  | case1 t ih =>
    rw [isSetBody_escape] at h
    simpa [isSetBody_point] using ih h
  | case2 c t _ ih =>
    rw [isSetBody_escape] at h ⊢
    exact ih h
  | case3 c t _ hescape ih =>
    have hc : c ≠ 92 := by
      rintro rfl
      cases t with
      | nil => simp [isSetBody] at h
      | cons d t => exact hescape d t rfl rfl
    rw [isSetBody_point hc, Bool.and_eq_true] at h ⊢
    exact ⟨h.1, ih h.2⟩
  | case4 => exact h

theorem bareSlashes_eq_nil {t : Text} (h : bareSlashes t = []) : t = [] := by
  rw [bareSlashes.eq_def] at h
  split at h <;> simp_all

theorem bareSlashes_eq_caret {t : Text} (h : bareSlashes t = [94]) : t = [94] := by
  rw [bareSlashes.eq_def] at h
  split at h
  case h_3 c t _ _ =>
    obtain ⟨rfl, ht⟩ := List.cons.inj h
    rw [bareSlashes_eq_nil ht]
  all_goals simp_all

/-- A set of a source is a set of what is written for the source. What stands before it is written before it, what stands
after it after it, and its contents are the same but for the backslashes before slashes; only, no reference may begin in
it, or reach into it or into and out of others before. A source without backslashes, opening brackets and what could begin
a named group is written as it is. -/
theorem translate_keeps_sets (source : Text) :
    (∀ before body after, SetAt source before body after →
      Undisturbed source before.length (before.length + 1 + body.length) →
        SetAt (translate source) (translate before) (bareSlashes body) (translate after)) ∧
      (92 ∉ source → 91 ∉ source → ¬Text.ofString "(?<" <:+: source → translate source = source) := by
  refine ⟨fun before body after h hundisturbed => ?_, translateFrom_points⟩
  have hbegin : (Scan.outside.after [] : Scan) = ⟨false, false⟩ := rfl
  obtain rfl := h.eq
  obtain ⟨hfront, houtside⟩ :=
    translateFrom_append hundisturbed (by omega) h.outside hbegin (List.nil_append before).symm
  have hopened : Scan.outside.after (before ++ [91]) = ⟨true, false⟩ := by
    rw [Scan.after_append, h.outside]
    rfl
  have hbody := translateFrom_body hundisturbed (p := before ++ [91]) (u := body) (t := after) (by simp) hopened
    h.contents (by simp) (by simp)
  refine ⟨?_, houtside, isSetBody_bareSlashes h.contents, mt bareSlashes_eq_nil h.ne_nil,
    mt bareSlashes_eq_caret h.ne_caret⟩
  rw [translate, hfront, h.translateFrom_opening, hbody]
  rfl

/-- A named group with an escaped bracket and the complement of the empty set, a reference to it, and a set that holds what
would be rewritten outside. The other source is written as it is. -/
theorem translate_keeps_sets_reference :
    let before : Text := "(?<y>\\[[^]\\/)\\k<y>"
    let body : Text := "^\\]\\/(?<["
    let source := before ++ 91 :: (body ++ 93 :: ("x" : Text))
    let plain : Text := "(?:a|b)]"
    SetAt source before body "x" ∧ Undisturbed source before.length (before.length + 1 + body.length) ∧
      SetAt (translate source) (translate before) "^\\]/(?<[" (translate "x") ∧
      92 ∉ plain ∧ 91 ∉ plain ∧ ¬Text.ofString "(?<" <:+: plain ∧ translate plain = plain := by
  intro before body source plain
  have hset : SetAt source before body "x" := ⟨rfl, by decide, by decide, by decide, by decide⟩
  have hundisturbed : Undisturbed source before.length (before.length + 1 + body.length) := by
    unfold Undisturbed
    decide +kernel
  have hplain : 92 ∉ plain ∧ 91 ∉ plain ∧ ¬Text.ofString "(?<" <:+: plain := by decide
  have hresult := (translate_keeps_sets source).1 before body "x" hset hundisturbed
  exact ⟨hset, hundisturbed, hresult, hplain.1, hplain.2.1, hplain.2.2,
    (translate_keeps_sets plain).2 hplain.1 hplain.2.1 hplain.2.2⟩

/-- What looks like a reference is rewritten in a set too, and the set has other members then. -/
theorem translate_reference_in_set :
    SetAt "[\\k<a>]" [] "\\k<a>" [] ∧ bareSlashes "\\k<a>" = "\\k<a>" ∧ translate "[\\k<a>]" = "[(?P=a)]" ∧
      ¬Text.ofString "[\\k<a>]" <:+: translate "[\\k<a>]" := by
  have hset : SetAt "[\\k<a>]" [] "\\k<a>" [] := ⟨rfl, rfl, by decide, by decide, by decide⟩
  have hinside := (@Piece.reference true [97] [93] (by decide)).translateFrom_eq
  have hclosing : translateFrom true [93] = [93] := by simp [translateFrom]
  have htranslate : translate "[\\k<a>]" = "[(?P=a)]" := by
    rw [hclosing] at hinside
    exact hset.translateFrom_opening.trans (congrArg (91 :: ·) hinside)
  refine ⟨hset, by decide, htranslate, ?_⟩
  rw [htranslate]
  decide

end Pattern

end ScriptEngine
