import ScriptEngine.Grammar.Parser
import ScriptEngine.Proofs.Lossless

/-!
# String literals

Every text has a literal: between double quotes, with a backslash before each backslash and each double quote, and with
an escape in place of each line feed. The scanner and the decoder go through such a literal in step: each of its escapes is
a backslash and one code point for both, so the scanner passes no quote but the last, and the decoder takes nothing of what
follows. A program that is one operand is read as that operand.

## Main definitions

* `Text.literalBody`, `Text.literal`: the literal of a text.
* `Parser.Lone`: a token that is a whole operand.

## Main results

* `Token.scan_literal`: the tokens of a literal.
* `unescape_literalBody_append`: decoding a literal in front of any text.
* `Parser.Lone.programBody`: programs that are one operand.
* `literal_denotes`: what the literal of a text is read as.
-/

namespace ScriptEngine

namespace Text

/-- A code point as it is written in a literal. -/
def literalPoint (c : CodePoint) : Text :=
  if c = 92 then [92, 92] else if c = 34 then [92, 34] else if c = 10 then [92, 110] else [c]

/-- What stands between the quotes of the literal of a text. -/
def literalBody (t : Text) : Text := t.flatMap literalPoint

/-- The literal of a text. -/
def literal (t : Text) : Text := 34 :: (literalBody t ++ [34])

/-- A code point is written as an escape of one code point, or as itself if it ends nothing. -/
theorem literalPoint_cases (c : CodePoint) :
    (∃ e, literalPoint c = [92, e]) ∨ literalPoint c = [c] ∧ c ≠ 92 ∧ c ≠ 34 ∧ c ≠ 10 := by
  unfold literalPoint
  split_ifs with hbackslash hquote hline
  · exact .inl ⟨92, rfl⟩
  · exact .inl ⟨34, rfl⟩
  · exact .inl ⟨110, rfl⟩
  · exact .inr ⟨rfl, hbackslash, hquote, hline⟩

theorem literalBody_cons (c : CodePoint) (t : Text) : literalBody (c :: t) = literalPoint c ++ literalBody t := rfl

end Text

open Text (literalPoint literalBody literal literalBody_cons literalPoint_cases)

/-! ## Scanning -/

namespace Token

/-- The first quote that counts is the one after the body. -/
theorem closingQuote?_literalBody (t rest : Text) :
    closingQuote? 34 (literalBody t ++ 34 :: rest) = some ((literalBody t).length + 1) := by
  induction t with
  | nil => rfl
  | cons c t ih =>
    rw [literalBody_cons, List.append_assoc]
    obtain ⟨e, he⟩ | ⟨hself, hbackslash, hquote, hline⟩ := literalPoint_cases c
    · simp [he, closingQuote?, ih]
    · rw [hself, List.singleton_append, closingQuote?.eq_def]
      simp [hbackslash, hquote, hline, ih]

theorem numberLength_quote (t : Text) : numberLength (34 :: t) = 0 := rfl

/-- A literal is one lexeme, whatever stands before and after it. -/
theorem lexeme?_literal (previous : Option Token) (t rest : Text) :
    lexeme? previous (literal t ++ rest) = some (some .string, (literal t).length) := by
  have hcons : literal t ++ rest = 34 :: (literalBody t ++ 34 :: rest) := by simp [literal]
  have hlength : stringLength (literal t ++ rest) = (literal t).length := by
    rw [hcons, stringLength, if_pos (by rfl), closingQuote?_literalBody]
    simp [literal]
  rw [lexeme?, hlength, hcons, numberLength_quote, if_neg (by simp), if_pos (by simp [literal])]

/-- The only token of a literal is the literal. -/
theorem scan_literal (t : Text) :
    scan (literal t) =
      .ok [⟨.string, literal t, 0, (literal t).length⟩, ⟨.eof, [], (literal t).length, (literal t).length⟩] := by
  have hlexeme := lexeme?_literal Option.none t []
  rw [List.append_nil] at hlexeme
  have hend (previous : Option Token) : scanFrom ((literal t).length - 1) 1 previous (literalBody t ++ [34]) =
      .ok [⟨.eof, [], (literal t).length, (literal t).length⟩] := by
    have hlength : (literal t).length - 1 = (literalBody t ++ [34]).length := by simp [literal]
    have hpos : 1 + (literalBody t ++ [34]).length = (literal t).length := by simp [literal, Nat.add_comm]
    rw [hlength, scanFrom_skip 1 previous (Nat.le_refl _), List.drop_length, hpos, scanFrom]
  rw [scan, literal, scanFrom, ← literal, hlexeme]
  simp only [Nat.zero_add, hend, List.take_length]

end Token

/-! ## Decoding -/

/-- The escapes of a literal take no more than one code point after the backslash, and denote what they were written
for. -/
theorem unescapeFrom_literalPoint_append (c : CodePoint) (t : Text) :
    unescapeFrom 0 (literalPoint c ++ t) = (unescapeFrom 0 t).map (c :: ·) := by
  unfold literalPoint
  split_ifs with hbackslash hquote hline
  · subst hbackslash
    rfl
  · subst hquote
    rfl
  · subst hline
    rfl
  · rw [List.singleton_append, unescapeFrom.eq_def]
    simp [hbackslash]

/-- What a literal is written for comes first, whatever follows it. -/
theorem unescape_literalBody_append (s t : Text) : unescape (literalBody s ++ t) = (unescape t).map (s ++ ·) := by
  induction s with
  | nil => cases h : unescape t <;> simp [literalBody, h, Except.map]
  | cons c s ih =>
    rw [literalBody_cons, List.append_assoc, unescape, unescapeFrom_literalPoint_append, ← unescape, ih]
    cases unescape t <;> rfl

/-! ## Parsing -/

namespace Parser

variable {n least : Nat} {noIn : Bool} {ts us : List Lexeme} {l : Lexeme}

/-- One parsing function after another that has answered. -/
theorem run_andThen {α β : Type} {p : Parser α} {f : α → Parser β} {a : α} (h : p.run ts = .ok (a, us)) :
    (p >>= f).run ts = (f a).run us := by
  change (Parser.bind p f).run ts = _
  rw [run, h]

theorem run_return {α : Type} (a : α) (ts : List Lexeme) : (Pure.pure a : Parser α).run ts = .ok (a, ts) := rfl

theorem run_peek (l : Lexeme) (us : List Lexeme) : peek.run (l :: us) = .ok (l.token, l :: us) := rfl

theorem run_advance (l : Lexeme) (us : List Lexeme) : advance.run (l :: us) = .ok ((), us) := rfl

/-- Tokens of different classes are different. -/
theorem isToken_of_ne {t : Token} {kind : TokenClass} (h : t.kind ≠ kind) (text : String) :
    isToken t kind text = false := by
  simp [isToken, h]

theorem run_next_of_ne {kind : TokenClass} (h : l.token.kind ≠ kind) (text : String) (us : List Lexeme) :
    (next kind text).run (l :: us) = .ok (false, l :: us) := by
  rw [← isToken_of_ne h text]
  rfl

/-- A token that is an operand by itself, and nothing after it but the end mark. -/
structure Lone (e : Node) (first l : Lexeme) : Prop where
  ne_op : first.token.kind ≠ .op
  ne_ident : first.token.kind ≠ .ident
  ne_punc : first.token.kind ≠ .punc
  ne_eof : first.token.kind ≠ .eof
  last : l.token.kind = .eof
  primary (n : Nat) : (primary (n + 1)).run [first, l] = .ok (e, [l])

namespace Lone

variable {e : Node} {first : Lexeme}

theorem ne_last (h : Lone e first l) {kind : TokenClass} (hkind : kind ≠ .eof) : l.token.kind ≠ kind := by
  rw [h.last]
  exact hkind.symm

theorem string {s : Text} (hfirst : first.token.kind = .string)
    (hs : unescape (stringBody first.token.text) = .ok s) (hl : l.token.kind = .eof) :
    Lone (Node.leaf .string (.text s) first.token) first l where
  ne_op := by simp [hfirst]
  ne_ident := by simp [hfirst]
  ne_punc := by simp [hfirst]
  ne_eof := by simp [hfirst]
  last := hl
  primary n := by
    rw [Parser.primary, run_andThen (run_peek first [l])]
    simp only [hfirst]
    rw [run_andThen (run_advance first [l]), hs]
    rfl

/-! No level of the descent finds anything to add to a lone operand. -/

theorem postfixed (h : Lone e first l) : (postfixed (n + 3)).run [first, l] = .ok (e, [l]) := by
  have hnew : (nextWord "new").run [first, l] = .ok (false, [first, l]) := run_next_of_ne h.ne_ident "new" [l]
  have htail : (memberTail (n + 1) e true).run [l] = .ok (e, [l]) := by
    rw [memberTail, run_andThen (run_peek l [])]
    simp [isToken_of_ne (h.ne_last (by decide : TokenClass.punc ≠ .eof)), run_return]
  have hcall : (callOrMember (n + 2)).run [first, l] = .ok (e, [l]) := by
    rw [callOrMember, run_andThen hnew]
    exact (run_andThen (h.primary n)).trans htail
  have hpeek : peekLexeme.run [l] = .ok (l, [l]) := rfl
  rw [Parser.postfixed, run_andThen hcall, run_andThen hpeek]
  simp [isUpdate, h.last, run_return]

theorem binary (h : Lone e first l) : (binary (n + 5) least noIn).run [first, l] = .ok (e, [l]) := by
  have hunary : (unary (n + 4)).run [first, l] = .ok (e, [l]) := by
    rw [unary, run_andThen (run_peek first [l])]
    simpa [isUnary, isUpdate, h.ne_op, h.ne_ident] using h.postfixed
  have hprecedence : binaryPrecedence? l.token noIn = none := by simp [binaryPrecedence?, h.last]
  rw [Parser.binary, run_andThen hunary, binaryRest, run_andThen (run_peek l []), hprecedence]
  rfl

theorem assignment (h : Lone e first l) : (assignment (n + 7) noIn).run [first, l] = .ok (e, [l]) := by
  have hconditional : (conditional (n + 6) noIn).run [first, l] = .ok (e, [l]) := by
    rw [conditional, run_andThen h.binary, run_andThen (run_peek l []), isToken_of_ne (h.ne_last (by decide))]
    rfl
  rw [Parser.assignment, run_andThen hconditional, run_andThen (run_peek l [])]
  simp [h.last, run_return]

theorem expression (h : Lone e first l) : (expression (n + 8) noIn).run [first, l] = .ok (e, [l]) := by
  have hcomma : (nextPunc ",").run [l] = .ok (false, [l]) := run_next_of_ne (h.ne_last (by decide)) "," []
  rw [Parser.expression, run_andThen (run_peek first [l]), run_andThen h.assignment, run_andThen hcomma]
  rfl

theorem statement (h : Lone e first l) :
    (statement (n + 9)).run [first, l] = .ok (Node.plain .expr first.token [e], [l]) := by
  have hsemicolon : semicolon.run [l] = .ok ((), [l]) := by
    have hnext : (nextPunc ";").run [l] = .ok (false, [l]) := run_next_of_ne (h.ne_last (by decide)) ";" []
    rw [semicolon, run_andThen hnext]
    rfl
  rw [Parser.statement, run_andThen (run_peek first [l])]
  simp only [isToken_of_ne h.ne_punc, isToken_of_ne h.ne_ident, Bool.false_eq_true, if_false]
  have hsecond : peekSecond.run [first, l] = .ok (l.token, [first, l]) := rfl
  rw [run_andThen hsecond]
  simp only [beq_eq_false_iff_ne.2 h.ne_ident, Bool.false_and, Bool.false_eq_true, if_false]
  rw [run_andThen h.expression, run_andThen hsemicolon]
  rfl

/-- The program is the operand. -/
theorem programBody (h : Lone e first l) :
    (programBody (n + 10)).run [first, l] = .ok ([Node.plain .expr first.token [e]], [l]) := by
  have hend (l : Lexeme) (us : List Lexeme) : atEnd.run (l :: us) = .ok (l.token.kind == .eof, l :: us) := rfl
  have hrest : (Parser.programBody (n + 9)).run [l] = .ok ([], [l]) := by
    rw [Parser.programBody, run_andThen (hend l [])]
    simp [h.last, run_return]
  rw [Parser.programBody, run_andThen (hend first [l]), beq_eq_false_iff_ne.2 h.ne_eof]
  exact (run_andThen h.statement).trans (run_andThen hrest)

end Lone

end Parser

theorem stringBody_literal (s : Text) : Parser.stringBody (literal s) = literalBody s := by
  simp [Parser.stringBody, literal]

theorem unescape_literalBody (s : Text) : unescape (literalBody s) = .ok s := by
  have happend := unescape_literalBody_append s []
  rw [List.append_nil] at happend
  rw [happend]
  simp [unescape, unescapeFrom, Except.map]

/-- Every text has a literal. It is scanned as one token, which is all of it, and parsed as a program that is one string
with the text as its value; and what stands between its quotes is decoded to the text in front of any body. -/
theorem literal_denotes (s : Text) :
    let string : Token := ⟨.string, literal s, 0, (literal s).length⟩
    let last : Token := ⟨.eof, [], (literal s).length, (literal s).length⟩
    Token.scan (literal s) = .ok [string, last] ∧
      parse (literal s) =
        .ok (Node.plain .program string [Node.plain .expr string [Node.leaf .string (.text s) string]]) ∧
      ∀ t, unescape (literalBody s ++ t) = (unescape t).map (s ++ ·) := by
  intro string last
  have hscan : Token.scan (literal s) = .ok [string, last] := Token.scan_literal s
  refine ⟨hscan, ?_, unescape_literalBody_append s⟩
  obtain ⟨first, l, hlexemes, hfirst, hl⟩ : ∃ first l, lexemes (literal s) none [string, last] = [first, l] ∧
      first.token = string ∧ l.token = last := ⟨_, _, rfl, rfl, rfl⟩
  have hvalue : unescape (Parser.stringBody string.text) = .ok s := by
    rw [stringBody_literal, unescape_literalBody]
  have hlone : Parser.Lone (Node.leaf .string (.text s) string) first l := by
    rw [← hfirst] at hvalue ⊢
    exact .string (by rw [hfirst]) hvalue (by rw [hl])
  have hprogram := hlone.programBody (n := 86)
  rw [parse, hscan]
  simp only [hlexemes, List.length_cons, List.length_nil, hprogram, hfirst, List.headD_cons]

/-- A backslash in front of a letter, a double quote and a line feed. -/
example : literal "\\u\"\n" = "\"\\\\u\\\"\\n\"" := by decide

end ScriptEngine
