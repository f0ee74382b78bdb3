import ScriptEngine.Grammar.Token
import Mathlib.Data.List.Basic
import Mathlib.Data.List.Infix
import Mathlib.Data.List.TakeWhile

/-!
# Tokens and the text between them

Scanning drops nothing but blanks and comments. Between two tokens stand whole runs of blanks and whole
comments, one after another, and so they do before the first token and after the last; a token's text is
the source between its two positions. Together they are the source again.

The proof lays a text out from left to right: what stands at its front is a filler or a token, and the rest
is laid out in turn.

## Main definitions

* `Token.Filler`: a whole run of blanks or a whole comment, in front of a given text.
* `Token.Gap`: fillers one after another.
* `Token.Laid`: how tokens lie in a text.

## Main results

* `Token.scan_lossless`: how the tokens of a source text lie in it, and what else scanning can say.
-/

namespace ScriptEngine

/-- The first occurrence of a text cuts the text around it, and there is none in what stands before. -/
theorem Text.indexOf?_eq_some {needle t : Text} {i : Nat} (hne : needle ≠ []) (h : indexOf? needle t = some i) :
    ∃ before after, t = before ++ needle ++ after ∧ before.length = i ∧ ¬ needle <:+: before := by
  induction t generalizing i with
  | nil => simp [indexOf?, hne] at h
  | cons c rest ih =>
    rw [indexOf?] at h
    by_cases hfront : needle.isPrefixOf (c :: rest)
    · rw [if_pos hfront] at h
      obtain ⟨after, hafter⟩ := List.isPrefixOf_iff_prefix.1 hfront
      refine ⟨[], after, by simp [hafter], by simpa using h, ?_⟩
      rw [List.infix_nil]
      exact hne
    · rw [if_neg hfront] at h
      obtain ⟨j, hj, rfl⟩ := Option.map_eq_some_iff.1 h
      obtain ⟨before, after, rfl, rfl, hnone⟩ := ih hj
      refine ⟨c :: before, after, rfl, rfl, ?_⟩
      rw [List.infix_cons_iff]
      rintro (hstart | hlater)
      · refine hfront (List.isPrefixOf_iff_prefix.2 (hstart.trans ?_))
        exact ⟨needle ++ after, by simp⟩
      · exact hnone hlater

namespace Token

/-! ## Fillers -/

/-- A whole run of blanks or a whole comment: `after` is the text that follows it. -/
inductive Filler : Text → Text → Prop where
  /-- Blanks, up to a code point that is none. -/
  | blanks {run after : Text} (hne : run ≠ []) (hrun : ∀ c ∈ run, Text.isBlank c)
      (hend : ∀ c ∈ after.head?, ¬ Text.isBlank c) : Filler run after
  /-- A comment that goes on to the end of its line. -/
  | line {body after : Text} (hbody : 10 ∉ body) (hend : ∀ c ∈ after.head?, c = 10) :
      Filler (47 :: 47 :: body) after
  /-- A comment that goes on to the first mark of its end. -/
  | block {body after : Text} (hbody : ¬ [42, 47] <:+: body) : Filler (47 :: 42 :: body ++ [42, 47]) after

/-- Fillers one after another: `after` is the text that follows the last. -/
inductive Gap : Text → Text → Prop where
  | nil (after : Text) : Gap [] after
  | cons {filler rest after : Text} (h : Filler filler (rest ++ after)) (hrest : Gap rest after) :
      Gap (filler ++ rest) after

/-- The longest beginning of a text with a property, and what follows it. -/
theorem exists_takeWhile (p : CodePoint → Bool) (t : Text) :
    ∃ rest, t = t.takeWhile p ++ rest ∧ ∀ c ∈ rest.head?, ¬ p c := by
  refine ⟨t.dropWhile p, List.takeWhile_append_dropWhile.symm, ?_⟩
  intro c hc
  have hstop := List.head?_dropWhile_not p t
  rw [Option.mem_def.1 hc] at hstop
  simpa using hstop

theorem filler_of_blankLength {t : Text} (h : blankLength t ≠ 0) :
    ∃ filler rest, t = filler ++ rest ∧ filler.length = blankLength t ∧ Filler filler rest := by
  obtain ⟨rest, ht, hend⟩ := exists_takeWhile Text.isBlank t
  refine ⟨t.takeWhile Text.isBlank, rest, ht, rfl, .blanks ?_ ?_ hend⟩
  · intro hempty
    exact h (by rw [blankLength, hempty, List.length_nil])
  · intro c hc
    exact List.mem_takeWhile_imp hc

theorem filler_of_commentLength {t : Text} (h : commentLength t ≠ 0) :
    ∃ filler rest, t = filler ++ rest ∧ filler.length = commentLength t ∧ Filler filler rest := by
  unfold commentLength at h ⊢
  split at h
  case h_1 text =>
    obtain ⟨rest, ht, hend⟩ := exists_takeWhile (· != 10) text
    refine ⟨47 :: 47 :: text.takeWhile (· != 10), rest, ?_, rfl, .line ?_ ?_⟩
    · rw [List.cons_append, List.cons_append, ← ht]
    · intro hmem
      simpa using List.mem_takeWhile_imp hmem
    · intro c hc
      simpa using hend c hc
  case h_2 text =>
    cases hfirst : Text.indexOf? (Text.ofString "*/") text with
    | none => simp [hfirst] at h
    | some i =>
      obtain ⟨body, rest, rfl, rfl, hbody⟩ := Text.indexOf?_eq_some (by decide) hfirst
      have hmark : Text.ofString "*/" = [42, 47] := by decide
      rw [hmark] at hbody
      exact ⟨47 :: 42 :: body ++ [42, 47], rest, by simp [hmark], by simp, .block hbody⟩
  case h_3 => exact absurd rfl h

/-! ## Lengths

No token is longer than the text it is taken from. -/

theorem length_of_closingQuote? {quote : CodePoint} {t : Text} {n : Nat} (h : closingQuote? quote t = some n) :
    n ≤ t.length := by
  fun_induction closingQuote? quote t generalizing n with
  | case1 => cases h
  | case2 c rest ih =>
    obtain ⟨m, hm, rfl⟩ := Option.map_eq_some_iff.1 h
    have := ih hm
    simp only [List.length_cons]
    omega
  | case3 c rest _ hc =>
    cases h
    simp
  | case4 => cases h
  | case5 c rest _ _ _ ih =>
    obtain ⟨m, hm, rfl⟩ := Option.map_eq_some_iff.1 h
    have := ih hm
    simp only [List.length_cons]
    omega

theorem length_of_closingSlash? {skip : Nat} {t : Text} {n : Nat} (h : closingSlash? skip t = some n) :
    n ≤ t.length := by
  induction t generalizing skip n with
  | nil => cases h
  | cons c rest ih =>
    -- Whatever stands at the front, the rest of the pattern is measured in the rest of the text.
    have hstep : n = 1 ∨ ∃ skip' m, closingSlash? skip' rest = some m ∧ n = m + 1 := by
      rw [closingSlash?.eq_def] at h
      simp only at h
      split at h
      · obtain ⟨m, hm, rfl⟩ := Option.map_eq_some_iff.1 h
        exact .inr ⟨_, m, hm, rfl⟩
      · split_ifs at h
        · exact .inl (by simpa using h.symm)
        · split at h
          · split_ifs at h
            obtain ⟨m, hm, rfl⟩ := Option.map_eq_some_iff.1 h
            exact .inr ⟨_, m, hm, rfl⟩
          · cases h
        · split at h
          · obtain ⟨m, hm, rfl⟩ := Option.map_eq_some_iff.1 h
            exact .inr ⟨_, m, hm, rfl⟩
          · cases h
        · obtain ⟨m, hm, rfl⟩ := Option.map_eq_some_iff.1 h
          exact .inr ⟨_, m, hm, rfl⟩
    obtain rfl | ⟨skip', m, hm, rfl⟩ := hstep
    · simp
    · have := ih hm
      simp only [List.length_cons]
      omega

theorem length_takeWhile_le (p : CodePoint → Bool) (t : Text) : (t.takeWhile p).length ≤ t.length :=
  (List.takeWhile_prefix p).length_le

theorem numberLength_le (t : Text) : numberLength t ≤ t.length := by
  unfold numberLength
  extract_lets hex
  have hhex : hex ≠ 0 → hex + 2 ≤ t.length := by
    simp only [hex]
    split
    case h_1 mark rest =>
      split_ifs
      · intro _
        have := length_takeWhile_le Text.isHexDigit rest
        simp only [List.length_cons]
        omega
      · intro hzero
        exact absurd rfl hzero
    case h_2 =>
      intro hzero
      exact absurd rfl hzero
  by_cases h : hex ≠ 0
  · rw [if_pos h]
    exact hhex h
  · rw [if_neg h]
    split <;> omega

theorem stringLength_le (t : Text) : stringLength t ≤ t.length := by
  unfold stringLength
  split
  case h_1 quote rest =>
    split_ifs
    · cases h : closingQuote? quote rest with
      | none => simp
      | some n =>
        have := length_of_closingQuote? h
        simp only [Option.map_some, Option.getD_some, List.length_cons]
        omega
    · exact Nat.zero_le _
  case h_2 => exact Nat.le_refl _

theorem identLength_le (t : Text) : identLength t ≤ t.length := by
  unfold identLength
  split
  case h_1 c rest =>
    have := length_takeWhile_le continuesIdent rest
    split_ifs <;> simp only [List.length_cons] <;> omega
  case h_2 => exact Nat.le_refl _

theorem opLength_le (t : Text) : opLength t ≤ t.length := by
  unfold opLength
  cases h : operators.find? (·.isPrefixOf t) with
  | none => simp
  | some op =>
    have hop : op.isPrefixOf t := List.find?_some (p := fun op : Text => op.isPrefixOf t) h
    exact (List.isPrefixOf_iff_prefix.1 hop).length_le

theorem puncLength_le (t : Text) : puncLength t ≤ t.length := by
  unfold puncLength
  split
  · split_ifs <;> simp
  · exact Nat.le_refl _

theorem regexLength_le (t : Text) : regexLength t ≤ t.length := by
  unfold regexLength
  split
  case h_1 rest =>
    split
    case h_1 n hn =>
      split_ifs
      · exact Nat.zero_le _
      · have hlength := length_of_closingSlash? hn
        have hflags := length_takeWhile_le isLetter (rest.drop n)
        simp only [List.length_drop] at hflags
        simp only [List.length_cons]
        omega
    case h_2 => exact Nat.zero_le _
  case h_2 => exact Nat.zero_le _

/-- What stands at the front of a text is not empty and not longer than the text, and it is a filler when it
is no token. -/
theorem lexeme?_eq_some {previous : Option Token} {t : Text} {k : Option TokenClass} {n : Nat}
    (h : lexeme? previous t = some (k, n)) :
    n ≠ 0 ∧ n ≤ t.length ∧ k ≠ some .eof ∧
      (k = Option.none → ∃ filler rest, t = filler ++ rest ∧ filler.length = n ∧ Filler filler rest) := by
  have hfiller {n : Nat} (hn : n ≠ 0)
      (hf : ∃ filler rest, t = filler ++ rest ∧ filler.length = n ∧ Filler filler rest) :
      n ≠ 0 ∧ n ≤ t.length ∧ (Option.none : Option TokenClass) ≠ some .eof ∧
        ((Option.none : Option TokenClass) = Option.none →
          ∃ filler rest, t = filler ++ rest ∧ filler.length = n ∧ Filler filler rest) := by
    refine ⟨hn, ?_, nofun, fun _ => hf⟩
    obtain ⟨filler, rest, rfl, rfl, -⟩ := hf
    simp
  unfold lexeme? at h
  split_ifs at h with hnumber hstring hident hcomment hop hregex hpunc hblank <;> cases h
  · exact ⟨hnumber, numberLength_le t, nofun, nofun⟩
  · exact ⟨hstring, stringLength_le t, nofun, nofun⟩
  · exact ⟨hident, identLength_le t, nofun, nofun⟩
  · exact hfiller hcomment (filler_of_commentLength hcomment)
  · simp only [Bool.and_eq_true, decide_eq_true_eq] at hregex
    exact ⟨hregex.2, regexLength_le t, nofun, nofun⟩
  · exact ⟨hop, opLength_le t, nofun, nofun⟩
  · exact ⟨hpunc, puncLength_le t, nofun, nofun⟩
  · exact hfiller hblank (filler_of_blankLength hblank)

/-- Whether anything stands at the front of a text does not depend on the token before it. -/
theorem lexeme?_eq_none {previous : Option Token} {t : Text} (h : lexeme? previous t = Option.none)
    (previous' : Option Token) : lexeme? previous' t = Option.none := by
  unfold lexeme? at h ⊢
  split_ifs at h with hnumber hstring hident hcomment hop hregex hpunc hblank
  rw [if_neg hnumber, if_neg hstring, if_neg hident, if_neg hcomment, if_neg hop, if_neg hpunc, if_neg hblank]

/-! ## The layout of a text -/

/-- How tokens lie in a text that starts at the given position: each after a gap, and the end mark after the
last gap. -/
inductive Laid : Nat → Text → List Token → Prop where
  | last {pos : Nat} {gap : Text} (hgap : Gap gap []) :
      Laid pos gap [⟨.eof, [], pos + gap.length, pos + gap.length⟩]
  | cons {pos : Nat} {gap text rest : Text} {kind : TokenClass} {tokens : List Token} (hkind : kind ≠ .eof)
      (htext : text ≠ []) (hgap : Gap gap (text ++ rest))
      (hrest : Laid (pos + gap.length + text.length) rest tokens) :
      Laid pos (gap ++ (text ++ rest)) (⟨kind, text, pos + gap.length, pos + gap.length + text.length⟩ :: tokens)

namespace Laid

variable {pos : Nat} {t : Text} {tokens : List Token}

/-- A filler in front makes the first gap longer. -/
theorem filler {filler : Text} (hfiller : Filler filler t) (h : Laid (pos + filler.length) t tokens) :
    Laid pos (filler ++ t) tokens := by
  cases h with
  | last hgap =>
    have hgap' : Gap (filler ++ t) [] := .cons (by rwa [List.append_nil]) hgap
    have hlast : Laid pos _ _ := .last hgap'
    rwa [List.length_append, ← Nat.add_assoc] at hlast
  | @cons _ gap text rest kind tokens hkind htext hgap hrest =>
    have hgap' : Gap (filler ++ gap) (text ++ rest) := .cons hfiller hgap
    have hcons : Laid pos _ _ :=
      .cons hkind htext hgap' (by simpa only [List.length_append, Nat.add_assoc] using hrest)
    simpa only [List.length_append, List.append_assoc, Nat.add_assoc] using hcons

/-- A token can stand at the very front. -/
theorem front {text : Text} {kind : TokenClass} (hkind : kind ≠ .eof) (htext : text ≠ [])
    (h : Laid (pos + text.length) t tokens) :
    Laid pos (text ++ t) (⟨kind, text, pos, pos + text.length⟩ :: tokens) :=
  @Laid.cons pos [] text t kind tokens hkind htext (.nil _) h

end Laid

/-- Skipping the beginning of a text. -/
theorem scanFrom_skip {skip : Nat} (pos : Nat) (previous : Option Token) {t : Text} (h : skip ≤ t.length) :
    scanFrom skip pos previous t = scanFrom 0 (pos + skip) previous (t.drop skip) := by
  induction t generalizing skip pos with
  | nil =>
    obtain rfl : skip = 0 := by simpa using h
    rfl
  | cons c rest ih =>
    cases skip with
    | zero => rfl
    | succ n =>
      rw [scanFrom, List.drop_succ_cons, ih (pos + 1) (by simpa using h)]
      congr 1
      omega

section Steps

variable {pos m : Nat} {previous : Option Token} {c : CodePoint} {rest : Text}

/-- After what stands at the front. -/
theorem scanFrom_next (hm : m ≤ rest.length) (previous : Option Token) :
    scanFrom m (pos + 1) previous rest = scanFrom 0 (pos + (m + 1)) previous (rest.drop m) := by
  rw [scanFrom_skip (pos + 1) previous hm]
  congr 1
  omega

/-- A filler at the front is skipped. -/
theorem scanFrom_filler (hm : m ≤ rest.length) (h : lexeme? previous (c :: rest) = some (Option.none, m + 1)) :
    scanFrom 0 pos previous (c :: rest) = scanFrom 0 (pos + (m + 1)) previous (rest.drop m) := by
  rw [scanFrom, h, ← scanFrom_next hm]
  rfl

/-- A token at the front comes first. -/
theorem scanFrom_token {kind : TokenClass} (hm : m ≤ rest.length)
    (h : lexeme? previous (c :: rest) = some (some kind, m + 1)) :
    let token : Token := ⟨kind, (c :: rest).take (m + 1), pos, pos + (m + 1)⟩
    scanFrom 0 pos previous (c :: rest) =
      (scanFrom 0 (pos + (m + 1)) (some token) (rest.drop m)).map (token :: ·) := by
  intro token
  rw [scanFrom, h, ← scanFrom_next hm]
  simp only [Nat.add_sub_cancel, token]
  split <;> rename_i hrest <;> rw [hrest, Except.map]

/-- A code point that starts no token in what follows starts none in the text. -/
theorem stuck_drop {d : CodePoint} {i : Nat} (hd : (rest.drop m)[i]? = some d)
    (hnone : ∀ p, lexeme? p ((rest.drop m).drop i) = Option.none) :
    (c :: rest)[m + i + 1]? = some d ∧ ∀ p, lexeme? p ((c :: rest).drop (m + i + 1)) = Option.none := by
  refine ⟨by rwa [List.getElem?_drop] at hd, fun p => ?_⟩
  rw [← hnone p, List.drop_drop, List.drop_succ_cons]

end Steps

/-- What scanning says about a text: how tokens lie in it, or which code point starts none. -/
theorem scanFrom_laid (pos : Nat) (previous : Option Token) (t : Text) :
    (∃ tokens, scanFrom 0 pos previous t = .ok tokens ∧ Laid pos t tokens) ∨
      ∃ c i, scanFrom 0 pos previous t = .error (c, pos + i) ∧ t[i]? = some c ∧
        ∀ p, lexeme? p (t.drop i) = Option.none := by
  -- The length of the text decreases by that of the lexeme at its front.
  induction hlength : t.length using Nat.strong_induction_on generalizing t pos previous with
  | _ size ih =>
    cases t with
    | nil => exact .inl ⟨_, rfl, .last (.nil [])⟩
    | cons c rest =>
      cases hlexeme : lexeme? previous (c :: rest) with
      | none =>
        refine .inr ⟨c, 0, ?_, rfl, lexeme?_eq_none hlexeme⟩
        rw [scanFrom, hlexeme]
        rfl
      | some found =>
        obtain ⟨k, n⟩ := found
        obtain ⟨hn, hle, hkind, hfiller⟩ := lexeme?_eq_some hlexeme
        obtain ⟨m, rfl⟩ : ∃ m, n = m + 1 := ⟨n - 1, by omega⟩
        rw [List.length_cons] at hle hlength
        have hm : m ≤ rest.length := by omega
        have hshorter : (rest.drop m).length < size := by
          rw [List.length_drop]
          omega
        have hplace (i : Nat) : pos + (m + 1) + i = pos + (m + i + 1) := by omega
        cases k with
        | none =>
          obtain ⟨filler, after, hcut, hlen, hfill⟩ := hfiller rfl
          have hafter : rest.drop m = after := by
            have := congrArg (List.drop (m + 1)) hcut
            rwa [List.drop_succ_cons, ← hlen, List.drop_left] at this
          rw [scanFrom_filler hm hlexeme]
          obtain ⟨tokens, hok, hlaid⟩ | ⟨d, i, herror, hd, hnone⟩ :=
            ih _ hshorter (pos + (m + 1)) previous _ rfl
          · refine .inl ⟨tokens, hok, ?_⟩
            rw [hafter, ← hlen] at hlaid
            rw [hcut]
            exact hlaid.filler hfill
          · exact .inr ⟨d, m + i + 1, by rw [herror, hplace], stuck_drop hd hnone⟩
        | some kind =>
          rw [scanFrom_token hm hlexeme]
          obtain ⟨tokens, hok, hlaid⟩ | ⟨d, i, herror, hd, hnone⟩ := ih _ hshorter (pos + (m + 1)) _ _ rfl
          · refine .inl ⟨_, by rw [hok, Except.map], ?_⟩
            have hlen : ((c :: rest).take (m + 1)).length = m + 1 := by
              rw [List.length_take, List.length_cons]
              omega
            have hkind : kind ≠ .eof := by simpa using hkind
            have hfront : Laid pos ((c :: rest).take (m + 1) ++ rest.drop m) _ :=
              .front hkind (by simp) (by rwa [hlen])
            rwa [hlen, List.take_succ_cons, List.cons_append, List.take_append_drop] at hfront
          · exact .inr ⟨d, m + i + 1, by rw [herror, hplace, Except.map], stuck_drop hd hnone⟩

/-! ## What the layout says about positions -/

/-- The text between two positions. -/
theorem slice_append (before text after : Text) :
    Text.slice (before ++ (text ++ after)) before.length (before.length + text.length) = text := by
  rw [Text.slice, ← List.append_assoc, ← List.length_append, List.take_left, List.drop_left]

/-- How tokens and the gaps between them cover a source text. -/
structure Covers (source : Text) (tokens : List Token) : Prop where
  /-- The end mark comes last, and every other token has a text. -/
  ending : ∃ body, tokens = body ++ [⟨.eof, [], source.length, source.length⟩] ∧
    ∀ t ∈ body, t.kind ≠ .eof ∧ t.text ≠ []
  /-- A token's text stands between its positions. -/
  text : ∀ t ∈ tokens, t.text = Text.slice source t.start t.stop
  /-- Tokens stand in order, without overlapping. -/
  order : tokens.Pairwise fun t u => t.start < t.stop ∧ t.stop ≤ u.start
  /-- Before each token, from the end of the one before it or from the start of the text, stand whole blanks
  and whole comments. -/
  gaps : ∀ p ∈ (0 :: tokens.map stop).zip tokens, Gap (Text.slice source p.1 p.2.start) (source.drop p.2.start)
  /-- Gaps and tokens together are the text. -/
  whole : ((0 :: tokens.map stop).zip tokens).flatMap (fun p => Text.slice source p.1 p.2.start ++ p.2.text) = source

namespace Laid

variable {pos : Nat} {t : Text} {tokens : List Token}

theorem ending (h : Laid pos t tokens) :
    ∃ body, tokens = body ++ [⟨.eof, [], pos + t.length, pos + t.length⟩] ∧
      ∀ u ∈ body, u.kind ≠ .eof ∧ u.text ≠ [] := by
  induction h with
  | last hgap => exact ⟨[], rfl, nofun⟩
  | @cons pos gap text rest kind tokens hkind htext hgap hrest ih =>
    obtain ⟨body, rfl, hbody⟩ := ih
    refine ⟨⟨kind, text, pos + gap.length, pos + gap.length + text.length⟩ :: body, ?_, ?_⟩
    · simp only [List.length_append, Nat.add_assoc, List.cons_append]
    · rintro u (_ | ⟨_, hu⟩)
      · exact ⟨hkind, htext⟩
      · exact hbody u hu

theorem text (h : Laid pos t tokens) (before : Text) (hpos : before.length = pos) :
    ∀ u ∈ tokens, u.text = Text.slice (before ++ t) u.start u.stop := by
  induction h generalizing before with
  | last hgap =>
    intro u hu
    obtain rfl := List.mem_singleton.1 hu
    simp [Text.slice]
  | @cons pos gap text rest kind tokens hkind htext hgap hrest ih =>
    subst hpos
    rintro u (_ | ⟨_, hu⟩)
    · have hslice := slice_append (before ++ gap) text rest
      rw [List.length_append, List.append_assoc] at hslice
      exact hslice.symm
    · have hu := ih (before ++ gap ++ text) (by simp only [List.length_append]) u hu
      simpa only [List.append_assoc] using hu

theorem le_start (h : Laid pos t tokens) : ∀ u ∈ tokens, pos ≤ u.start := by
  induction h with
  | last hgap =>
    intro u hu
    obtain rfl := List.mem_singleton.1 hu
    exact Nat.le_add_right _ _
  | cons hkind htext hgap hrest ih =>
    rintro u (_ | ⟨_, hu⟩)
    · exact Nat.le_add_right _ _
    · have := ih u hu
      omega

theorem order (h : Laid pos t tokens) : tokens.Pairwise fun t u => t.start < t.stop ∧ t.stop ≤ u.start := by
  induction h with
  | last hgap => exact List.pairwise_singleton _ _
  | cons hkind htext hgap hrest ih =>
    refine List.pairwise_cons.2 ⟨fun u hu => ⟨?_, hrest.le_start u hu⟩, ih⟩
    have := List.length_pos_iff.2 htext
    simp only
    omega

theorem gaps (h : Laid pos t tokens) (before : Text) (hpos : before.length = pos) :
    ∀ p ∈ (pos :: tokens.map stop).zip tokens,
      Gap (Text.slice (before ++ t) p.1 p.2.start) ((before ++ t).drop p.2.start) := by
  induction h generalizing before with
  | @last pos gap hgap =>
    subst hpos
    intro p hp
    obtain rfl := List.mem_singleton.1 (by simpa using hp)
    have hslice := slice_append before gap []
    rw [List.append_nil] at hslice
    have hdrop : (before ++ gap).drop (before.length + gap.length) = [] := by simp
    simpa only [hslice, hdrop] using hgap
  | @cons pos gap text rest kind tokens hkind htext hgap hrest ih =>
    subst hpos
    rw [List.map_cons, List.zip_cons_cons]
    rintro p (_ | ⟨_, hp⟩)
    · simp only [slice_append]
      rwa [← List.append_assoc, ← List.length_append, List.drop_left]
    · have hgap' := ih (before ++ gap ++ text) (by simp only [List.length_append]) p hp
      simpa only [List.append_assoc] using hgap'

theorem whole (h : Laid pos t tokens) (before : Text) (hpos : before.length = pos) :
    ((pos :: tokens.map stop).zip tokens).flatMap
      (fun p => Text.slice (before ++ t) p.1 p.2.start ++ p.2.text) = t := by
  induction h generalizing before with
  | @last pos gap hgap =>
    subst hpos
    have hslice := slice_append before gap []
    rw [List.append_nil] at hslice
    simpa using hslice
  | @cons pos gap text rest kind tokens hkind htext hgap hrest ih =>
    subst hpos
    have hrest' := ih (before ++ gap ++ text) (by simp only [List.length_append])
    simp only [List.append_assoc] at hrest'
    rw [List.map_cons, List.zip_cons_cons, List.flatMap_cons, hrest']
    simp only [slice_append, List.append_assoc]

end Laid

/-- The tokens of a source text lie in it with nothing but blanks and comments between them; when there are
none, some code point starts no token, and the message names it. -/
theorem scan_lossless (source : Text) :
    (∃ tokens, scan source = .ok tokens ∧ Covers source tokens) ∨
      ∃ c pos, scan source = .error (illegalCharacter source c pos) ∧ source[pos]? = some c ∧
        ∀ previous, lexeme? previous (source.drop pos) = Option.none := by
  obtain ⟨tokens, hok, hlaid⟩ | ⟨c, pos, herror, hc⟩ := scanFrom_laid 0 Option.none source
  · refine .inl ⟨tokens, by rw [scan, hok], ?_⟩
    exact {
      ending := by simpa using hlaid.ending
      text := hlaid.text [] rfl
      order := hlaid.order
      gaps := hlaid.gaps [] rfl
      whole := hlaid.whole [] rfl }
  · exact .inr ⟨c, pos, by rw [scan, herror, Nat.zero_add], hc⟩

end Token

end ScriptEngine
