import ScriptEngine.Grammar.Parser
import ScriptEngine.Proofs.Lossless

/-!
# The cursor of the parser

The tokens ahead of a parsing function always end with the end mark, and the end mark is never taken: a
token is taken only after a look at it that told it from the end mark. Every parsing function that answers
has taken at least one token, those for optional parts apart, so no loop of the descent goes round without
taking one. The bound on the depth of the descent is therefore never reached: between two tokens taken, the
descent passes through fewer functions than it has levels, and `parse` allows for 32 a token.

## Main definitions

* `Parser.cursors`: the tokens ahead at every moment of a parsing function.
* `Parser.Safe`: what has to hold of the tokens ahead so that a parsing function ends as required, by the
  tree of the function.
* `Parser.Descent`: what every parsing function does with the tokens ahead.

## Main results

* `parse_ends`: how parsing the tokens of a source text ends.
-/

namespace ScriptEngine

namespace Parser

/-- The tokens ahead at every moment of a parsing function, in order. -/
def cursors : Parser α → List Lexeme → List (List Lexeme)
  | pure _, ts => [ts]
  | bind p f, ts =>
    p.cursors ts ++
      match p.run ts with
      | .ok (a, rest) => (f a).cursors rest
      | .error _ => []
  | look _, ts => [ts]
  | advance, ts => [ts, ts.drop 1]
  | fail _, ts => [ts]
  | failLiteral _, ts => [ts]

/-- Tokens that end with the end mark, which stands nowhere else. -/
inductive Closed : List Lexeme → Prop where
  | last {l : Lexeme} (h : l.token.kind = .eof) : Closed [l]
  | cons {l : Lexeme} {rest : List Lexeme} (h : l.token.kind ≠ .eof) (hrest : Closed rest) : Closed (l :: rest)

/-- What is left of `ts` after at least `k` tokens have been taken. -/
structure Left (ts : List Lexeme) (k : Nat) (us : List Lexeme) : Prop where
  closed : Closed us
  isSuffix : us <:+ ts
  length_le : us.length + k ≤ ts.length

variable {ts us : List Lexeme} {j k n r : Nat}

theorem Closed.length_pos (h : Closed ts) : 0 < ts.length := by
  cases h <;> simp

theorem Closed.head_mem (h : Closed ts) : (ts.headD endLexeme).token ∈ ts.map (·.token) := by
  cases h <;> simp

theorem Closed.drop_one (h : Closed ts) (hhead : (ts.headD endLexeme).token.kind ≠ .eof) :
    Closed (ts.drop 1) := by
  cases h with
  | last heof => exact absurd heof hhead
  | cons _ hrest => exact hrest

/-- Only the end mark is left when it is the next token. -/
theorem Closed.length_eq_one (h : Closed ts) (hhead : (ts.headD endLexeme).token.kind = .eof) : ts.length = 1 := by
  cases h with
  | last _ => rfl
  | cons hne _ => exact absurd hhead hne

namespace Left

theorem refl (h : Closed ts) : Left ts 0 ts := ⟨h, List.suffix_refl ts, Nat.le_refl _⟩

theorem trans {vs : List Lexeme} (h : Left ts j us) (h' : Left us k vs) : Left ts (j + k) vs := by
  refine ⟨h'.closed, h'.isSuffix.trans h.isSuffix, ?_⟩
  have := h.length_le
  have := h'.length_le
  omega

theorem mono {i : Nat} (h : Left ts j us) (hi : i ≤ j) : Left ts i us := by
  refine ⟨h.closed, h.isSuffix, ?_⟩
  have := h.length_le
  omega

theorem advance (h : Left ts j us) (hhead : (us.headD endLexeme).token.kind ≠ .eof) :
    Left ts (j + 1) (us.drop 1) := by
  refine ⟨h.closed.drop_one hhead, (List.drop_suffix 1 us).trans h.isSuffix, ?_⟩
  have := h.closed.length_pos
  have := h.length_le
  rw [List.length_drop]
  omega

end Left

/-! ## Safe parsing functions -/

/-- What has to hold of the tokens ahead so that the function takes no end mark, stops for the depth of the
descent only if `short` holds, and answers what `Q` allows. -/
def Safe (short : Prop) : Parser α → (α → List Lexeme → Prop) → List Lexeme → Prop
  | pure a, Q, ts => Q a ts
  | bind p f, Q, ts => p.Safe short (fun a us => (f a).Safe short Q us) ts
  | look k, Q, ts => Q (k ts) ts
  | advance, Q, ts => (ts.headD endLexeme).token.kind ≠ .eof ∧ Q () (ts.drop 1)
  | fail e, _, _ => e = .depthExceeded → short
  | failLiteral _, _, _ => True

namespace Safe

variable {α β : Type} {short short' : Prop} {Q Q' : α → List Lexeme → Prop} {p : Parser α} {f : α → Parser β}
  {R : β → List Lexeme → Prop}

theorem mono (h : p.Safe short Q ts) (hshort : short → short') (hQ : ∀ a us, Q a us → Q' a us) :
    p.Safe short' Q' ts := by
  induction p generalizing ts with
  | pure a => exact hQ a ts h
  | bind p f ihp ihf => exact ihp h fun a us ha => ihf a ha hQ
  | look k => exact hQ _ ts h
  | advance => exact ⟨h.1, hQ () _ h.2⟩
  | fail e => exact fun he => hshort (h he)
  | failLiteral e => trivial

/-- How a safe function ends, and where its cursor has been by then. -/
theorem run (h : p.Safe short Q ts) (hts : Closed ts) :
    (∀ us ∈ p.cursors ts, Left ts 0 us) ∧
      match p.run ts with
      | .ok (a, rest) => Left ts 0 rest ∧ Q a rest
      | .error (.error e place) => (e = .depthExceeded → short) ∧ place ∈ ts.map (·.token)
      | .error (.literal _) => True := by
  induction p generalizing ts with
  | pure a => exact ⟨by simpa [cursors] using Left.refl hts, Left.refl hts, h⟩
  | look k => exact ⟨by simpa [cursors] using Left.refl hts, Left.refl hts, h⟩
  | advance =>
    have hnext : Left ts 0 (ts.drop 1) := ((Left.refl hts).advance h.1).mono (Nat.zero_le 1)
    refine ⟨?_, hnext, h.2⟩
    intro us hus
    simp only [cursors, List.mem_cons, List.not_mem_nil, or_false] at hus
    obtain rfl | rfl := hus
    · exact Left.refl hts
    · exact hnext
  | fail e => exact ⟨by simpa [cursors] using Left.refl hts, h, hts.head_mem⟩
  | failLiteral e => exact ⟨by simpa [cursors] using Left.refl hts, trivial⟩
  | bind p f ihp ihf =>
    obtain ⟨hcursors, hend⟩ := ihp h hts
    rw [Parser.cursors, Parser.run]
    cases hrun : p.run ts with
    | error e =>
      simp only [hrun, List.append_nil] at hend ⊢
      refine ⟨hcursors, ?_⟩
      cases e <;> exact hend
    | ok answer =>
      obtain ⟨a, rest⟩ := answer
      simp only [hrun] at hend ⊢
      obtain ⟨hcursors', hend'⟩ := ihf a hend.2 hend.1.closed
      refine ⟨?_, ?_⟩
      · intro us hus
        obtain hus | hus := List.mem_append.1 hus
        · exact hcursors us hus
        · exact hend.1.trans (hcursors' us hus)
      · cases hlast : (f a).run rest with
        | error e =>
          rw [hlast] at hend'
          cases e with
          | error e place =>
            exact ⟨hend'.1, ((List.map_subset _ hend.1.isSuffix.subset) hend'.2)⟩
          | literal e => trivial
        | ok answer =>
          rw [hlast] at hend'
          exact ⟨hend.1.trans hend'.1, hend'.2⟩

end Safe

/-- Takes at least `k` tokens, without a descent. -/
def Takes (p : Parser α) (k : Nat) : Prop := ∀ ts, Closed ts → p.Safe False (fun _ => Left ts k) ts

/-- Takes at least `k` tokens in a descent bounded by `n`, which is enough for 32 levels a token and `r`
more. -/
def Spends (p : Parser α) (n r k : Nat) : Prop :=
  ∀ ts, Closed ts → p.Safe (n < 32 * ts.length + r) (fun _ => Left ts k) ts

namespace Safe

variable {α β : Type} {short : Prop} {p : Parser α} {f : α → Parser β} {R : β → List Lexeme → Prop}

/-! Each rule takes the first step of a parsing function that goes on from tokens left of `ts`. -/

theorem done {a : α} {i : Nat} (h : Left ts j us) (hi : i ≤ j) :
    (Pure.pure a : Parser α).Safe short (fun _ => Left ts i) us := h.mono hi

theorem stop {e : ParseError} (he : e ≠ .depthExceeded) : (Parser.fail e : Parser β).Safe short R us :=
  fun h => absurd h he

theorem take (hp : p.Takes k) (h : Left ts j us) (hf : ∀ a vs, Left ts (j + k) vs → (f a).Safe short R vs) :
    (p >>= f).Safe short R us :=
  (hp us h.closed).mono False.elim fun a vs hvs => hf a vs (h.trans hvs)

theorem call (hp : p.Spends n r k) (h : Left ts j us)
    (hshort : us.length + j ≤ ts.length → n < 32 * us.length + r → short)
    (hf : ∀ a vs, Left ts (j + k) vs → (f a).Safe short R vs) : (p >>= f).Safe short R us :=
  (hp us h.closed).mono (hshort h.length_le) fun a vs hvs => hf a vs (h.trans hvs)

theorem tail {i : Nat} (hp : p.Spends n r k) (h : Left ts j us)
    (hshort : us.length + j ≤ ts.length → n < 32 * us.length + r → short) (hi : i ≤ j + k) :
    p.Safe short (fun _ => Left ts i) us :=
  (hp us h.closed).mono (hshort h.length_le) fun _ _ hvs => (h.trans hvs).mono hi

theorem advance {f : Unit → Parser β} (h : Left ts j us) (hhead : (us.headD endLexeme).token.kind ≠ .eof)
    (hf : ∀ vs, Left ts (j + 1) vs → (f ()).Safe short R vs) : (Parser.advance >>= f).Safe short R us :=
  ⟨hhead, hf _ (h.advance hhead)⟩

theorem advanceTwice {f : Unit → Parser β} (h : Left ts j us) (hhead : (us.headD endLexeme).token.kind ≠ .eof)
    (hsecond : ((us.drop 1).headD endLexeme).token.kind ≠ .eof)
    (hf : ∀ vs, Left ts (j + 2) vs → (f ()).Safe short R vs) :
    (Parser.advance >>= fun _ => Parser.advance >>= f).Safe short R us :=
  ⟨hhead, hsecond, hf _ ((h.advance hhead).advance hsecond)⟩

theorem ite {c : Prop} [Decidable c] {p q : Parser β} (hp : c → p.Safe short R us) (hq : ¬ c → q.Safe short R us) :
    (if c then p else q).Safe short R us := by
  split
  case isTrue h => exact hp h
  case isFalse h => exact hq h

theorem peek {f : Token → Parser β} (h : ∀ t, t = (us.headD endLexeme).token → (f t).Safe short R us) :
    (Parser.peek >>= f).Safe short R us := h _ rfl

theorem peekLexeme {f : Lexeme → Parser β} (h : ∀ l, l = us.headD endLexeme → (f l).Safe short R us) :
    (Parser.peekLexeme >>= f).Safe short R us := h _ rfl

/-- A second token after one that is no end mark is the next one when that has been taken. -/
theorem peekSecond {f : Token → Parser β} (hus : Closed us)
    (h : ∀ t, ((us.headD endLexeme).token.kind ≠ .eof → t = ((us.drop 1).headD endLexeme).token) →
      (f t).Safe short R us) :
    (Parser.peekSecond >>= f).Safe short R us := by
  refine h _ fun hhead => ?_
  cases hus with
  | last heof => exact absurd heof hhead
  | cons _ hrest => cases hrest <;> rfl

theorem atStatementEnd {f : Bool → Parser β} (h : ∀ b, (f b).Safe short R us) :
    (Parser.atStatementEnd >>= f).Safe short R us := h _

theorem literal {x : Except LiteralError α} (h : ∀ a, (f a).Safe short R us) :
    (Parser.literal x >>= f).Safe short R us := by
  cases x with
  | ok a => exact h a
  | error e => trivial

theorem next {f : Bool → Parser β} {kind : TokenClass} {text : String}
    (h : (f (isToken (us.headD endLexeme).token kind text)).Safe short R us) :
    (Parser.next kind text >>= f).Safe short R us := h

theorem atEnd {f : Bool → Parser β} (h : (f ((us.headD endLexeme).token.kind == .eof)).Safe short R us) :
    (Parser.atEnd >>= f).Safe short R us := h

end Safe

/-! ## Single tokens -/

theorem ne_eof_of_isToken {t : Token} {kind : TokenClass} {text : String} (h : isToken t kind text)
    (hkind : kind ≠ .eof) : t.kind ≠ .eof := by
  simp only [isToken, Bool.and_eq_true, beq_iff_eq] at h
  rwa [h.1]

theorem ne_eof_of_punc {t : Token} {text : String} (h : isToken t .punc text) : t.kind ≠ .eof :=
  ne_eof_of_isToken h (by decide)

theorem ne_eof_of_word {t : Token} {text : String} (h : isToken t .ident text) : t.kind ≠ .eof :=
  ne_eof_of_isToken h (by decide)

theorem takes_expect {kind : TokenClass} (text : String) (hkind : kind ≠ .eof) : (expect kind text).Takes 1 := by
  intro ts hts
  refine .peek fun t ht => ?_
  split
  · exact .stop nofun
  case isFalse hclass =>
    split
    · exact .stop nofun
    · have hclass : t.kind = kind := by simpa using hclass
      exact .advance (.refl hts) (by rw [← ht, hclass]; exact hkind) fun us h => .done h (Nat.le_refl _)

theorem takes_punc (text : String) : (punc text).Takes 1 := takes_expect text (by decide)

theorem takes_word (text : String) : (word text).Takes 1 := takes_expect text (by decide)

theorem takes_expectClass {kind : TokenClass} (hkind : kind ≠ .eof) : (expectClass kind).Takes 1 := by
  intro ts hts
  refine .peek fun t ht => ?_
  split
  · exact .stop nofun
  case isFalse hclass =>
    have hclass : t.kind = kind := by simpa using hclass
    exact .advance (.refl hts) (by rw [← ht, hclass]; exact hkind) fun us h => .done h (Nat.le_refl _)

theorem takes_identifier : identifier.Takes 1 := by
  intro ts hts
  refine .peek fun t ht => ?_
  split
  · exact .stop nofun
  case isFalse hword =>
    have hclass : t.kind = .ident := by
      simp only [Bool.or_eq_true, bne_iff_ne, not_or, not_not] at hword
      exact hword.1
    exact .advance (.refl hts) (by rw [← ht, hclass]; decide) fun us h => .done h (Nat.le_refl _)

theorem takes_semicolon : semicolon.Takes 0 := by
  intro ts hts
  refine .next ?_
  split
  case isTrue hmark =>
    exact ⟨ne_eof_of_punc hmark, ((Left.refl hts).advance (ne_eof_of_punc hmark)).mono (Nat.zero_le _)⟩
  · exact Left.refl hts

/-- A jump may have a label and may end with a semicolon. -/
theorem takes_jump (kind : NodeKind) (t : Token) : (jump kind t).Takes 0 := by
  intro ts hts
  unfold jump
  refine .peekLexeme fun l hl => ?_
  split
  case isTrue hlabel =>
    have hclass : l.token.kind = .ident := by
      simp only [Bool.and_eq_true, beq_iff_eq] at hlabel
      exact hlabel.1.1
    refine .advance (.refl hts) (by rw [← hl, hclass]; decide) fun us h => ?_
    exact .take takes_semicolon h fun _ us h => .done h (Nat.zero_le _)
  · exact .take takes_semicolon (.refl hts) fun _ us h => .done h (Nat.zero_le _)

/-! ## The descent -/

/-- What every parsing function takes when its descent is bounded by `n`. Functions that call others without
taking a token first have a higher rank than those. -/
structure Descent (n : Nat) : Prop where
  programBody : ∀ ts, Closed ts →
    (programBody n).Safe (n < 32 * ts.length + 9) (fun _ us => Left ts 0 us ∧ us.length = 1) ts
  statement : (statement n).Spends n 8 1
  block : (block n).Spends n 0 1
  blockBody : (blockBody n).Spends n 9 1
  varList (noIn) : (varList n noIn).Spends n 0 1
  declarations (noIn) : (declarations n noIn).Spends n 0 1
  functionRest : (functionRest n).Spends n 0 1
  parameters : (parameters n).Spends n 0 1
  parenthesized : (parenthesized n).Spends n 0 1
  forRest (t) : (forRest n t).Spends n 8 1
  clauses (seenDefault) : (clauses n seenDefault).Spends n 0 1
  clauseBody : (clauseBody n).Spends n 9 0
  tryRest (t) : (tryRest n t).Spends n 1 1
  expression (noIn) : (expression n noIn).Spends n 7 1
  commaRest (noIn) : (commaRest n noIn).Spends n 0 0
  assignment (noIn) : (assignment n noIn).Spends n 6 1
  conditional (noIn) : (conditional n noIn).Spends n 5 1
  binary (least noIn) : (binary n least noIn).Spends n 4 1
  binaryRest (least noIn left) : (binaryRest n least noIn left).Spends n 0 0
  unary : (unary n).Spends n 3 1
  postfixed : (postfixed n).Spends n 2 1
  arguments : (arguments n).Spends n 0 1
  argumentList : (argumentList n).Spends n 7 1
  construction : (construction n).Spends n 0 1
  callOrMember : (callOrMember n).Spends n 1 1
  memberTail (e calls) : (memberTail n e calls).Spends n 1 0
  primary : (primary n).Spends n 0 1
  elements : (elements n).Spends n 7 1
  properties : (properties n).Spends n 0 1

namespace Descent

theorem programBody_succ (ih : Descent n) (ts : List Lexeme) (hts : Closed ts) :
    (Parser.programBody (n + 1)).Safe (n + 1 < 32 * ts.length + 9)
      (fun _ us => Left ts 0 us ∧ us.length = 1) ts := by
  rw [Parser.programBody]
  refine .atEnd ?_
  split
  case isTrue hend => exact ⟨.refl hts, hts.length_eq_one (by simpa using hend)⟩
  · refine .call ih.statement (.refl hts) (by omega) fun s us h => ?_
    refine (ih.programBody us h.closed).mono ?_ fun rest vs hvs => ⟨(h.trans hvs.1).mono (Nat.zero_le _), hvs.2⟩
    have := h.length_le
    omega

theorem block_succ (ih : Descent n) : (Parser.block (n + 1)).Spends (n + 1) 0 1 := by
  intro ts hts
  rw [Parser.block]
  refine .take (takes_punc _) (.refl hts) fun t us h => ?_
  exact .call ih.blockBody h (by omega) fun body us h => .done h (by omega)

theorem blockBody_succ (ih : Descent n) : (Parser.blockBody (n + 1)).Spends (n + 1) 9 1 := by
  intro ts hts
  rw [Parser.blockBody]
  refine .next ?_
  split
  case isTrue hclose => exact .advance (.refl hts) (ne_eof_of_punc hclose) fun us h => .done h (Nat.le_refl _)
  · refine .atEnd ?_
    split
    · exact .stop nofun
    · refine .call ih.statement (.refl hts) (by omega) fun s us h => ?_
      exact .call ih.blockBody h (by omega) fun rest us h => .done h (by omega)

theorem varList_succ (ih : Descent n) (noIn : Bool) : (Parser.varList (n + 1) noIn).Spends (n + 1) 0 1 := by
  intro ts hts
  rw [Parser.varList]
  refine .take (takes_word _) (.refl hts) fun t us h => ?_
  exact .call (ih.declarations noIn) h (by omega) fun ds us h => .done h (by omega)

theorem declarations_succ (ih : Descent n) (noIn : Bool) :
    (Parser.declarations (n + 1) noIn).Spends (n + 1) 0 1 := by
  intro ts hts
  rw [Parser.declarations]
  refine .take takes_identifier (.refl hts) fun name us h => .next ?_
  extract_lets rest
  have hrest (init : Node) {us : List Lexeme} (h : Left ts 1 us) :
      (rest init).Safe (n + 1 < 32 * ts.length + 0) (fun _ => Left ts 1) us := by
    refine .next ?_
    split
    case isTrue hcomma =>
      refine .advance h (ne_eof_of_punc hcomma) fun us h => ?_
      exact .call (ih.declarations noIn) h (by omega) fun ds us h => .done h (by omega)
    · exact .done h (Nat.le_refl _)
  split
  case isTrue hsign =>
    refine .advance h (ne_eof_of_isToken hsign (by decide)) fun us h => ?_
    exact .call (ih.assignment noIn) h (by omega) fun init us h => hrest init (h.mono (by omega))
  · exact hrest _ h

theorem functionRest_succ (ih : Descent n) : (Parser.functionRest (n + 1)).Spends (n + 1) 0 1 := by
  intro ts hts
  rw [Parser.functionRest]
  refine .take (takes_punc _) (.refl hts) fun t us h => .next ?_
  extract_lets rest
  have hrest (ps : List Node) {us : List Lexeme} (h : Left ts 1 us) :
      (rest ps).Safe (n + 1 < 32 * ts.length + 0) (fun _ => Left ts 1) us :=
    .call ih.block h (by omega) fun body us h => .done h (by omega)
  split
  case isTrue hclose =>
    exact .advance h (ne_eof_of_punc hclose) fun us h => hrest [] (h.mono (by omega))
  · exact .call ih.parameters h (by omega) fun ps us h => hrest ps (h.mono (by omega))

theorem parameters_succ (ih : Descent n) : (Parser.parameters (n + 1)).Spends (n + 1) 0 1 := by
  intro ts hts
  rw [Parser.parameters]
  refine .take takes_identifier (.refl hts) fun p us h => .next ?_
  split
  case isTrue hclose => exact .advance h (ne_eof_of_punc hclose) fun us h => .done h (by omega)
  · refine .take (takes_punc _) h fun _ us h => ?_
    exact .call ih.parameters h (by omega) fun ps us h => .done h (by omega)

theorem parenthesized_succ (ih : Descent n) : (Parser.parenthesized (n + 1)).Spends (n + 1) 0 1 := by
  intro ts hts
  rw [Parser.parenthesized]
  refine .take (takes_punc _) (.refl hts) fun _ us h => ?_
  refine .call (ih.expression false) h (by omega) fun e us h => ?_
  exact .take (takes_punc _) h fun _ us h => .done h (by omega)

theorem statement_succ (ih : Descent n) : (Parser.statement (n + 1)).Spends (n + 1) 8 1 := by
  intro ts hts
  rw [Parser.statement]
  refine .peek fun t ht => ?_
  -- Every statement but an expression starts with a token of its own, so the rest comes after one token.
  have first {β : Type} {f : Unit → Parser β} {R : β → List Lexeme → Prop} (hne : t.kind ≠ .eof)
      (hf : ∀ us, Left ts 1 us → (f ()).Safe (n + 1 < 32 * ts.length + 8) R us) :
      (Parser.advance >>= f).Safe (n + 1 < 32 * ts.length + 8) R ts :=
    .advance (.refl hts) (ht ▸ hne) hf
  have expressionThen (make : Node → Node) {us : List Lexeme} {j : Nat} (h : Left ts j us) :
      (do
        let e ← Parser.expression n false
        semicolon
        return make e : Parser Node).Safe (n + 1 < 32 * ts.length + 8) (fun _ => Left ts 1) us :=
    .call (ih.expression false) h (by omega) fun e us h =>
      .take takes_semicolon h fun _ us h => .done h (by omega)
  have jumpAfter (kind : NodeKind) {us : List Lexeme} (h : Left ts 1 us) :
      (jump kind t).Safe (n + 1 < 32 * ts.length + 8) (fun _ => Left ts 1) us :=
    (takes_jump kind t us h.closed).mono False.elim fun _ _ hvs => (h.trans hvs).mono (by omega)
  refine .ite (fun hmark => first (ne_eof_of_punc hmark) fun us h => .done h (Nat.le_refl _)) fun _ => ?_
  refine .ite (fun _ => .tail ih.block (.refl hts) (by omega) (by omega)) fun _ => ?_
  refine .peekSecond hts fun second hsecond => ?_
  refine .ite (fun hlabel => ?_) fun _ => ?_
  · simp only [Bool.and_eq_true, beq_iff_eq] at hlabel
    have hne : (ts.headD endLexeme).token.kind ≠ .eof := by
      rw [← ht, hlabel.1.1]
      decide
    refine .advanceTwice (.refl hts) hne (hsecond hne ▸ ne_eof_of_punc hlabel.2) fun us h => ?_
    exact .call ih.statement h (by omega) fun body us h => .done h (by omega)
  refine .ite (fun _ => ?_) fun _ => ?_
  · refine .call (ih.varList false) (.refl hts) (by omega) fun v us h => ?_
    exact .take takes_semicolon h fun _ us h => .done h (by omega)
  refine .ite (fun hword => first (ne_eof_of_word hword) fun us h => ?_) fun _ => ?_
  · refine .take takes_identifier h fun name us h => ?_
    exact .call ih.functionRest h (by omega) fun f us h => .done h (by omega)
  refine .ite (fun hword => first (ne_eof_of_word hword) fun us h => .atStatementEnd fun ended => ?_) fun _ => ?_
  · refine .ite (fun _ => ?_) fun _ => expressionThen _ h
    exact .take takes_semicolon h fun _ us h => .done h (by omega)
  refine .ite (fun hword => first (ne_eof_of_word hword) fun us h => ?_) fun _ => ?_
  · refine .call ih.parenthesized h (by omega) fun test us h => ?_
    refine .call ih.statement h (by omega) fun consequent us h => .next ?_
    refine .ite (fun hother => ?_) fun _ => .done h (by omega)
    refine .advance h (ne_eof_of_word hother) fun us h => ?_
    exact .call ih.statement h (by omega) fun alternate us h => .done h (by omega)
  refine .ite (fun hword => first (ne_eof_of_word hword) fun us h => ?_) fun _ => ?_
  · refine .call ih.parenthesized h (by omega) fun test us h => ?_
    exact .call ih.statement h (by omega) fun body us h => .done h (by omega)
  refine .ite (fun hword => first (ne_eof_of_word hword) fun us h => ?_) fun _ => ?_
  · refine .call ih.statement h (by omega) fun body us h => .take (takes_word _) h fun _ us h => ?_
    refine .call ih.parenthesized h (by omega) fun test us h => ?_
    exact .take takes_semicolon h fun _ us h => .done h (by omega)
  refine .ite (fun hword => first (ne_eof_of_word hword) fun us h => ?_) fun _ => ?_
  · exact .take (takes_punc _) h fun _ us h => .tail (ih.forRest t) h (by omega) (by omega)
  refine .ite (fun hword => first (ne_eof_of_word hword) fun us h => ?_) fun _ => ?_
  · refine .call ih.parenthesized h (by omega) fun subject us h => .take (takes_punc _) h fun _ us h => ?_
    exact .call (ih.clauses false) h (by omega) fun cs us h => .done h (by omega)
  refine .ite (fun hword => first (ne_eof_of_word hword) fun us h => ?_) fun _ => ?_
  · exact .tail (ih.tryRest t) h (by omega) (by omega)
  refine .ite (fun hword => first (ne_eof_of_word hword) fun us h => .peekLexeme fun l hl => ?_) fun _ => ?_
  · exact .ite (fun _ => .stop nofun) fun _ => expressionThen _ h
  refine .ite (fun hword => first (ne_eof_of_word hword) fun us h => jumpAfter _ h) fun _ => ?_
  refine .ite (fun hword => first (ne_eof_of_word hword) fun us h => jumpAfter _ h) fun _ => ?_
  refine .ite (fun hword => first (ne_eof_of_word hword) fun us h => ?_) fun _ => expressionThen _ (.refl hts)
  · refine .call ih.parenthesized h (by omega) fun subject us h => ?_
    exact .call ih.statement h (by omega) fun body us h => .done h (by omega)

theorem forRest_succ (ih : Descent n) (t : Token) : (Parser.forRest (n + 1) t).Spends (n + 1) 8 1 := by
  intro ts hts
  rw [Parser.forRest]
  refine .next ?_
  extract_lets rest
  -- An expression where one may be missing.
  have optional {missing : Bool} {rest : Node → Parser Node} {us : List Lexeme} (h : Left ts 1 us)
      (hrest : ∀ e vs, Left ts 1 vs → (rest e).Safe (n + 1 < 32 * ts.length + 8) (fun _ => Left ts 1) vs) :
      (if missing then Parser.pure Node.absent >>= rest else Parser.expression n false >>= rest).Safe
        (n + 1 < 32 * ts.length + 8) (fun _ => Left ts 1) us :=
    .ite (fun _ => hrest _ us h) fun _ =>
      .call (ih.expression false) h (by omega) fun e us h => hrest e us (h.mono (by omega))
  have hrest (init : Node) {us : List Lexeme} {j : Nat} (h : Left ts j us) :
      (rest init).Safe (n + 1 < 32 * ts.length + 8) (fun _ => Left ts 1) us := by
    refine .next (.ite (fun hword => ?_) fun _ => ?_)
    · refine .ite (fun _ => .stop nofun) fun _ => .ite (fun _ => .stop nofun) fun _ => ?_
      refine .advance h (ne_eof_of_word hword) fun us h => ?_
      refine .call (ih.expression false) h (by omega) fun object us h => .take (takes_punc _) h fun _ us h => ?_
      exact .call ih.statement h (by omega) fun body us h => .done h (by omega)
    · refine .take (takes_punc _) h fun _ us h => .next (optional (h.mono (by omega)) fun test us h => ?_)
      refine .take (takes_punc _) h fun _ us h => .next (optional (h.mono (by omega)) fun update us h => ?_)
      refine .take (takes_punc _) h fun _ us h => ?_
      exact .call ih.statement h (by omega) fun body us h => .done h (by omega)
  refine .next ?_
  refine .ite (fun _ => ?_) fun _ => .ite (fun _ => hrest _ (.refl hts)) fun _ => ?_
  · exact .call (ih.varList true) (.refl hts) (by omega) fun v us h => hrest v h
  · exact .call (ih.expression true) (.refl hts) (by omega) fun e us h => hrest e h

theorem clauses_succ (ih : Descent n) (seenDefault : Bool) :
    (Parser.clauses (n + 1) seenDefault).Spends (n + 1) 0 1 := by
  intro ts hts
  rw [Parser.clauses]
  refine .peek fun t ht => ?_
  split
  case isTrue hclose =>
    exact .advance (.refl hts) (ht ▸ ne_eof_of_punc hclose) fun us h => .done h (Nat.le_refl _)
  split
  case isTrue hcase =>
    refine .advance (.refl hts) (ht ▸ ne_eof_of_word hcase) fun us h => ?_
    refine .call (ih.expression false) h (by omega) fun test us h => ?_
    refine .take (takes_punc _) h fun _ us h => ?_
    refine .call ih.clauseBody h (by omega) fun body us h => ?_
    exact .call (ih.clauses seenDefault) h (by omega) fun rest us h => .done h (by omega)
  split
  case isTrue hdefault =>
    split
    · exact .stop nofun
    · refine .advance (.refl hts) (ht ▸ ne_eof_of_word hdefault) fun us h => ?_
      refine .take (takes_punc _) h fun _ us h => ?_
      refine .call ih.clauseBody h (by omega) fun body us h => ?_
      exact .call (ih.clauses true) h (by omega) fun rest us h => .done h (by omega)
  · exact .stop nofun

theorem clauseBody_succ (ih : Descent n) : (Parser.clauseBody (n + 1)).Spends (n + 1) 9 0 := by
  intro ts hts
  rw [Parser.clauseBody]
  refine .peek fun t ht => ?_
  split
  · exact .done (.refl hts) (Nat.le_refl _)
  split
  · exact .stop nofun
  · refine .call ih.statement (.refl hts) (by omega) fun s us h => ?_
    exact .call ih.clauseBody h (by omega) fun rest us h => .done h (by omega)

theorem tryRest_succ (ih : Descent n) (t : Token) : (Parser.tryRest (n + 1) t).Spends (n + 1) 1 1 := by
  intro ts hts
  rw [Parser.tryRest]
  refine .call ih.block (.refl hts) (by omega) fun body us h => .next ?_
  extract_lets rest
  have hrest (handler : Node) {us : List Lexeme} (h : Left ts 1 us) :
      (rest handler).Safe (n + 1 < 32 * ts.length + 1) (fun _ => Left ts 1) us := by
    refine .next ?_
    extract_lets finish
    have hfinish (finalizer : Node) {us : List Lexeme} (h : Left ts 1 us) :
        (finish finalizer).Safe (n + 1 < 32 * ts.length + 1) (fun _ => Left ts 1) us := by
      simp only [finish]
      split
      · exact .stop nofun
      · exact .done h (Nat.le_refl _)
    split
    case isTrue hword =>
      refine .peek fun f hf => .advance h (ne_eof_of_word hword) fun us h => ?_
      exact .call ih.block h (by omega) fun b us h => hfinish _ (h.mono (by omega))
    · exact hfinish _ h
  split
  case isTrue hword =>
    refine .peek fun c hc => .advance h (ne_eof_of_word hword) fun us h => ?_
    refine .take (takes_punc _) h fun _ us h => .take takes_identifier h fun p us h => ?_
    refine .take (takes_punc _) h fun _ us h => ?_
    exact .call ih.block h (by omega) fun b us h => hrest _ (h.mono (by omega))
  · exact hrest _ h

theorem expression_succ (ih : Descent n) (noIn : Bool) :
    (Parser.expression (n + 1) noIn).Spends (n + 1) 7 1 := by
  intro ts hts
  rw [Parser.expression]
  refine .peek fun t ht => .call (ih.assignment noIn) (.refl hts) (by omega) fun e us h => .next ?_
  split
  · exact .call (ih.commaRest noIn) h (by omega) fun es us h => .done h (by omega)
  · exact .done h (by omega)

theorem commaRest_succ (ih : Descent n) (noIn : Bool) :
    (Parser.commaRest (n + 1) noIn).Spends (n + 1) 0 0 := by
  intro ts hts
  rw [Parser.commaRest]
  refine .next ?_
  split
  case isTrue hcomma =>
    refine .advance (.refl hts) (ne_eof_of_punc hcomma) fun us h => ?_
    refine .call (ih.assignment noIn) h (by omega) fun e us h => ?_
    exact .call (ih.commaRest noIn) h (by omega) fun es us h => .done h (by omega)
  · exact .done (.refl hts) (Nat.le_refl _)

theorem assignment_succ (ih : Descent n) (noIn : Bool) :
    (Parser.assignment (n + 1) noIn).Spends (n + 1) 6 1 := by
  intro ts hts
  rw [Parser.assignment]
  refine .call (ih.conditional noIn) (.refl hts) (by omega) fun left us h => .peek fun t ht => ?_
  split
  case isTrue hop =>
    split
    · exact .stop nofun
    · have hclass : t.kind = .op := by
        simp only [Bool.and_eq_true, beq_iff_eq] at hop
        exact hop.1
      refine .advance h (by rw [← ht, hclass]; decide) fun us h => ?_
      exact .call (ih.assignment noIn) h (by omega) fun right us h => .done h (by omega)
  · exact .done h (by omega)

theorem conditional_succ (ih : Descent n) (noIn : Bool) :
    (Parser.conditional (n + 1) noIn).Spends (n + 1) 5 1 := by
  intro ts hts
  rw [Parser.conditional]
  refine .call (ih.binary 1 noIn) (.refl hts) (by omega) fun test us h => .peek fun t ht => ?_
  split
  case isTrue hmark =>
    refine .advance h (ht ▸ ne_eof_of_punc hmark) fun us h => ?_
    refine .call (ih.assignment false) h (by omega) fun consequent us h => ?_
    refine .take (takes_punc _) h fun _ us h => ?_
    exact .call (ih.assignment noIn) h (by omega) fun alternate us h => .done h (by omega)
  · exact .done h (by omega)

theorem binary_succ (ih : Descent n) (least : Nat) (noIn : Bool) :
    (Parser.binary (n + 1) least noIn).Spends (n + 1) 4 1 := by
  intro ts hts
  rw [Parser.binary]
  refine .call ih.unary (.refl hts) (by omega) fun left us h => ?_
  exact .tail (ih.binaryRest least noIn left) h (by omega) (by omega)

/-- A binary operator is no end mark. -/
theorem ne_eof_of_binaryPrecedence? {t : Token} {noIn : Bool} {p : Nat} (h : binaryPrecedence? t noIn = some p) :
    t.kind ≠ .eof := by
  intro heof
  simp [binaryPrecedence?, heof] at h

theorem binaryRest_succ (ih : Descent n) (least : Nat) (noIn : Bool) (left : Node) :
    (Parser.binaryRest (n + 1) least noIn left).Spends (n + 1) 0 0 := by
  intro ts hts
  rw [Parser.binaryRest]
  refine .peek fun t ht => ?_
  split
  · exact .done (.refl hts) (Nat.le_refl _)
  case h_2 p hp =>
    split
    · exact .done (.refl hts) (Nat.le_refl _)
    · refine .advance (.refl hts) (ht ▸ ne_eof_of_binaryPrecedence? hp) fun us h => ?_
      refine .call (ih.binary (p + 1) noIn) h (by omega) fun right us h => ?_
      exact .tail (ih.binaryRest least noIn _) h (by omega) (by omega)

theorem ne_eof_of_isUnary {t : Token} (h : isUnary t) : t.kind ≠ .eof := by
  intro heof
  simp [isUnary, heof] at h

theorem ne_eof_of_isUpdate {t : Token} (h : isUpdate t) : t.kind ≠ .eof := by
  intro heof
  simp [isUpdate, heof] at h

theorem unary_succ (ih : Descent n) : (Parser.unary (n + 1)).Spends (n + 1) 3 1 := by
  intro ts hts
  rw [Parser.unary]
  refine .peek fun t ht => ?_
  split
  case isTrue hop =>
    refine .advance (.refl hts) (ht ▸ ne_eof_of_isUnary hop) fun us h => ?_
    exact .call ih.unary h (by omega) fun e us h => .done h (by omega)
  split
  case isTrue hop =>
    refine .advance (.refl hts) (ht ▸ ne_eof_of_isUpdate hop) fun us h => ?_
    refine .call ih.unary h (by omega) fun target us h => ?_
    split
    · exact .stop nofun
    · exact .done h (by omega)
  · exact .tail ih.postfixed (.refl hts) (by omega) (by omega)

theorem postfixed_succ (ih : Descent n) : (Parser.postfixed (n + 1)).Spends (n + 1) 2 1 := by
  intro ts hts
  rw [Parser.postfixed]
  refine .call ih.callOrMember (.refl hts) (by omega) fun e us h => .peekLexeme fun l hl => ?_
  split
  case isTrue hop =>
    split
    · exact .stop nofun
    · have hne := ne_eof_of_isUpdate (Bool.and_eq_true_iff.1 hop).1
      exact .advance h (hl ▸ hne) fun us h => .done h (by omega)
  · exact .done h (by omega)

theorem arguments_succ (ih : Descent n) : (Parser.arguments (n + 1)).Spends (n + 1) 0 1 := by
  intro ts hts
  rw [Parser.arguments]
  refine .take (takes_punc _) (.refl hts) fun _ us h => .next ?_
  split
  case isTrue hclose => exact .advance h (ne_eof_of_punc hclose) fun us h => .done h (by omega)
  · exact .tail ih.argumentList h (by omega) (by omega)

theorem argumentList_succ (ih : Descent n) : (Parser.argumentList (n + 1)).Spends (n + 1) 7 1 := by
  intro ts hts
  rw [Parser.argumentList]
  refine .call (ih.assignment false) (.refl hts) (by omega) fun e us h => .next ?_
  split
  case isTrue hclose => exact .advance h (ne_eof_of_punc hclose) fun us h => .done h (by omega)
  · refine .take (takes_punc _) h fun _ us h => ?_
    exact .call ih.argumentList h (by omega) fun es us h => .done h (by omega)

theorem construction_succ (ih : Descent n) : (Parser.construction (n + 1)).Spends (n + 1) 0 1 := by
  intro ts hts
  rw [Parser.construction]
  refine .take (takes_word _) (.refl hts) fun t us h => .next ?_
  extract_lets rest
  have hrest (callee : Node) {us : List Lexeme} (h : Left ts 1 us) :
      (rest callee).Safe (n + 1 < 32 * ts.length + 0) (fun _ => Left ts 1) us := by
    refine .next ?_
    extract_lets finish
    split
    · exact .call ih.arguments h (by omega) fun args us h => .done h (by omega)
    · exact .done h (Nat.le_refl _)
  split
  · exact .call ih.construction h (by omega) fun callee us h => hrest callee (h.mono (by omega))
  · refine .call ih.primary h (by omega) fun e us h => ?_
    exact .call (ih.memberTail e false) h (by omega) fun callee us h => hrest callee (h.mono (by omega))

theorem callOrMember_succ (ih : Descent n) : (Parser.callOrMember (n + 1)).Spends (n + 1) 1 1 := by
  intro ts hts
  rw [Parser.callOrMember]
  refine .next ?_
  split
  · refine .call ih.construction (.refl hts) (by omega) fun e us h => ?_
    exact .tail (ih.memberTail e true) h (by omega) (by omega)
  · refine .call ih.primary (.refl hts) (by omega) fun e us h => ?_
    exact .tail (ih.memberTail e true) h (by omega) (by omega)

theorem memberTail_succ (ih : Descent n) (e : Node) (calls : Bool) :
    (Parser.memberTail (n + 1) e calls).Spends (n + 1) 1 0 := by
  intro ts hts
  rw [Parser.memberTail]
  refine .peek fun t ht => ?_
  split
  · refine .call ih.arguments (.refl hts) (by omega) fun args us h => ?_
    exact .tail (ih.memberTail _ calls) h (by omega) (by omega)
  split
  case isTrue hmark =>
    refine .advance (.refl hts) (ht ▸ ne_eof_of_punc hmark) fun us h => ?_
    refine .take (takes_expectClass (by decide)) h fun name us h => ?_
    exact .tail (ih.memberTail _ calls) h (by omega) (by omega)
  split
  case isTrue hmark =>
    refine .advance (.refl hts) (ht ▸ ne_eof_of_punc hmark) fun us h => ?_
    refine .call (ih.expression false) h (by omega) fun key us h => ?_
    refine .take (takes_punc _) h fun _ us h => ?_
    exact .tail (ih.memberTail _ calls) h (by omega) (by omega)
  · exact .done (.refl hts) (Nat.le_refl _)

theorem primary_succ (ih : Descent n) : (Parser.primary (n + 1)).Spends (n + 1) 0 1 := by
  intro ts hts
  rw [Parser.primary]
  refine .peek fun t ht => ?_
  have first {β : Type} {f : Unit → Parser β} {R : β → List Lexeme → Prop} (hne : t.kind ≠ .eof)
      (hf : ∀ us, Left ts 1 us → (f ()).Safe (n + 1 < 32 * ts.length + 0) R us) :
      (Parser.advance >>= f).Safe (n + 1 < 32 * ts.length + 0) R ts :=
    .advance (.refl hts) (ht ▸ hne) hf
  have leaf (a : Node) (hne : t.kind ≠ .eof) :
      (do
        Parser.advance
        return a : Parser Node).Safe (n + 1 < 32 * ts.length + 0) (fun _ => Left ts 1) ts :=
    first hne fun us h => .done h (Nat.le_refl _)
  split
  case h_1 hkind =>
    exact first (by simp [hkind]) fun us h => .literal fun x => .done h (Nat.le_refl _)
  case h_2 hkind =>
    exact first (by simp [hkind]) fun us h => .literal fun x => .done h (Nat.le_refl _)
  case h_3 hkind => exact leaf _ (by simp [hkind])
  case h_4 hkind =>
    have hne : t.kind ≠ .eof := by simp [hkind]
    refine .ite (fun _ => first hne fun us h => .peek fun name hname => ?_) fun _ => ?_
    · extract_lets rest
      have hrest (name : Text) {us : List Lexeme} (h : Left ts 1 us) :
          (rest name).Safe (n + 1 < 32 * ts.length + 0) (fun _ => Left ts 1) us :=
        .call ih.functionRest h (by omega) fun f us h => .done h (by omega)
      refine .ite (fun _ => ?_) fun _ => hrest _ h
      exact .take takes_identifier h fun name us h => hrest _ (h.mono (by omega))
    refine .ite (fun _ => leaf _ hne) fun _ => .ite (fun _ => leaf _ hne) fun _ => ?_
    refine .ite (fun _ => leaf _ hne) fun _ => .ite (fun _ => leaf _ hne) fun _ => ?_
    exact .ite (fun _ => .stop nofun) fun _ => leaf _ hne
  case h_5 hkind =>
    have hne : t.kind ≠ .eof := by simp [hkind]
    refine .ite (fun _ => first hne fun us h => ?_) fun _ => ?_
    · refine .call (ih.expression false) h (by omega) fun e us h => ?_
      exact .take (takes_punc _) h fun _ us h => .done h (by omega)
    refine .ite (fun _ => first hne fun us h => ?_) fun _ => ?_
    · exact .call ih.elements h (by omega) fun es us h => .done h (by omega)
    refine .ite (fun _ => first hne fun us h => ?_) fun _ => .stop nofun
    exact .call ih.properties h (by omega) fun ps us h => .done h (by omega)
  case h_6 => exact .stop nofun
  case h_7 => exact .stop nofun

theorem elements_succ (ih : Descent n) : (Parser.elements (n + 1)).Spends (n + 1) 7 1 := by
  intro ts hts
  rw [Parser.elements]
  refine .peek fun t ht => .ite (fun hclose => ?_) fun _ => .ite (fun hcomma => ?_) fun _ => ?_
  · exact .advance (.refl hts) (ht ▸ ne_eof_of_punc hclose) fun us h => .done h (Nat.le_refl _)
  · refine .advance (.refl hts) (ht ▸ ne_eof_of_punc hcomma) fun us h => ?_
    exact .call ih.elements h (by omega) fun es us h => .done h (by omega)
  · refine .call (ih.assignment false) (.refl hts) (by omega) fun e us h => .next ?_
    extract_lets rest
    have hrest (u : Unit) {us : List Lexeme} (h : Left ts 1 us) :
        (rest u).Safe (n + 1 < 32 * ts.length + 7) (fun _ => Left ts 1) us :=
      .call ih.elements h (by omega) fun es us h => .done h (by omega)
    refine .ite (fun _ => hrest () h) fun _ => ?_
    exact .take (takes_punc _) h fun _ us h => hrest () (h.mono (by omega))

theorem properties_succ (ih : Descent n) : (Parser.properties (n + 1)).Spends (n + 1) 0 1 := by
  intro ts hts
  rw [Parser.properties]
  refine .peek fun t ht => .ite (fun hclose => ?_) fun _ => ?_
  · exact .advance (.refl hts) (ht ▸ ne_eof_of_punc hclose) fun us h => .done h (Nat.le_refl _)
  extract_lets rest
  have hrest (hne : t.kind ≠ .eof) (key : Text) :
      (rest key).Safe (n + 1 < 32 * ts.length + 0) (fun _ => Left ts 1) ts := by
    refine .advance (.refl hts) (ht ▸ hne) fun us h => .take (takes_punc _) h fun _ us h => ?_
    refine .call (ih.assignment false) h (by omega) fun e us h => ?_
    extract_lets p more
    have hmore (u : Unit) {us : List Lexeme} (h : Left ts 1 us) :
        (more u).Safe (n + 1 < 32 * ts.length + 0) (fun _ => Left ts 1) us :=
      .call ih.properties h (by omega) fun ps us h => .done h (by omega)
    refine .next (.ite (fun _ => hmore () (h.mono (by omega))) fun _ => ?_)
    exact .take (takes_punc _) h fun _ us h => hmore () (h.mono (by omega))
  split
  case h_1 hkind => exact hrest (by simp [hkind]) _
  case h_2 hkind => exact .literal (hrest (by simp [hkind]))
  case h_3 hkind => exact .literal fun x => hrest (by simp [hkind]) _
  case h_4 => exact .stop nofun

end Descent

theorem descent (n : Nat) : Descent n := by
  induction n with
  | zero =>
    -- A bound of zero is too small, since there is at least the end mark.
    constructor
    case programBody =>
      intro ts hts _
      have := hts.length_pos
      omega
    all_goals
      intros
      intro ts hts _
      have := hts.length_pos
      omega
  | succ n ih =>
    exact {
      programBody := ih.programBody_succ
      statement := ih.statement_succ
      block := ih.block_succ
      blockBody := ih.blockBody_succ
      varList := ih.varList_succ
      declarations := ih.declarations_succ
      functionRest := ih.functionRest_succ
      parameters := ih.parameters_succ
      parenthesized := ih.parenthesized_succ
      forRest := ih.forRest_succ
      clauses := ih.clauses_succ
      clauseBody := ih.clauseBody_succ
      tryRest := ih.tryRest_succ
      expression := ih.expression_succ
      commaRest := ih.commaRest_succ
      assignment := ih.assignment_succ
      conditional := ih.conditional_succ
      binary := ih.binary_succ
      binaryRest := ih.binaryRest_succ
      unary := ih.unary_succ
      postfixed := ih.postfixed_succ
      arguments := ih.arguments_succ
      argumentList := ih.argumentList_succ
      construction := ih.construction_succ
      callOrMember := ih.callOrMember_succ
      memberTail := ih.memberTail_succ
      primary := ih.primary_succ
      elements := ih.elements_succ
      properties := ih.properties_succ }

/-! ## Whole programs -/

/-- Whenever the function answers, tokens have been taken and the end mark is still ahead. -/
def Consumes (p : Parser α) : Prop :=
  ∀ ts a rest, Closed ts → p.run ts = .ok (a, rest) → Closed rest ∧ rest <:+ ts ∧ rest.length < ts.length

theorem Spends.consumes {p : Parser α} (h : p.Spends n r 1) : p.Consumes := by
  intro ts a rest hts hrun
  obtain ⟨-, hend⟩ := (h ts hts).run hts
  rw [hrun] at hend
  exact ⟨hend.2.closed, hend.2.isSuffix, hend.2.length_le⟩

/-- The parsing functions that take a token whenever they answer: all but those for whole programs and for
parts that may be missing. -/
structure Productive (n : Nat) : Prop where
  statement : (statement n).Consumes
  block : (block n).Consumes
  blockBody : (blockBody n).Consumes
  varList (noIn) : (varList n noIn).Consumes
  declarations (noIn) : (declarations n noIn).Consumes
  functionRest : (functionRest n).Consumes
  parameters : (parameters n).Consumes
  parenthesized : (parenthesized n).Consumes
  forRest (t) : (forRest n t).Consumes
  clauses (seenDefault) : (clauses n seenDefault).Consumes
  tryRest (t) : (tryRest n t).Consumes
  expression (noIn) : (expression n noIn).Consumes
  assignment (noIn) : (assignment n noIn).Consumes
  conditional (noIn) : (conditional n noIn).Consumes
  binary (least noIn) : (binary n least noIn).Consumes
  unary : (unary n).Consumes
  postfixed : (postfixed n).Consumes
  arguments : (arguments n).Consumes
  argumentList : (argumentList n).Consumes
  construction : (construction n).Consumes
  callOrMember : (callOrMember n).Consumes
  primary : (primary n).Consumes
  elements : (elements n).Consumes
  properties : (properties n).Consumes

theorem productive (n : Nat) : Productive n where
  statement := (descent n).statement.consumes
  block := (descent n).block.consumes
  blockBody := (descent n).blockBody.consumes
  varList noIn := ((descent n).varList noIn).consumes
  declarations noIn := ((descent n).declarations noIn).consumes
  functionRest := (descent n).functionRest.consumes
  parameters := (descent n).parameters.consumes
  parenthesized := (descent n).parenthesized.consumes
  forRest t := ((descent n).forRest t).consumes
  clauses seenDefault := ((descent n).clauses seenDefault).consumes
  tryRest t := ((descent n).tryRest t).consumes
  expression noIn := ((descent n).expression noIn).consumes
  assignment noIn := ((descent n).assignment noIn).consumes
  conditional noIn := ((descent n).conditional noIn).consumes
  binary least noIn := ((descent n).binary least noIn).consumes
  unary := (descent n).unary.consumes
  postfixed := (descent n).postfixed.consumes
  arguments := (descent n).arguments.consumes
  argumentList := (descent n).argumentList.consumes
  construction := (descent n).construction.consumes
  callOrMember := (descent n).callOrMember.consumes
  primary := (descent n).primary.consumes
  elements := (descent n).elements.consumes
  properties := (descent n).properties.consumes

/-- How parsing the given tokens ends when the descent is bounded by `n`. -/
structure Ends (input : List Lexeme) (n : Nat) : Prop where
  /-- At every moment the cursor stands at or before the last token, which is the end mark. -/
  cursor : ∀ us ∈ (programBody n).cursors input, ∃ i < input.length, us = input.drop i
  /-- There is a tree, for which every token but the last has been taken; or an error of the grammar, at one
  of the tokens; or a literal without a value. -/
  outcome : (∃ body, (programBody n).run input = .ok (body, input.drop (input.length - 1))) ∨
    (∃ e place, (programBody n).run input = .error (.error e place) ∧ e ≠ .depthExceeded ∧
      place ∈ input.map (·.token)) ∨
    ∃ e, (programBody n).run input = .error (.literal e)

theorem Closed.ends {input : List Lexeme} (h : Closed input) (hn : 32 * input.length + 9 ≤ n) :
    Ends input n := by
  obtain ⟨hcursors, hend⟩ := ((descent n).programBody input h).run h
  refine ⟨?_, ?_⟩
  · intro us hus
    obtain ⟨hclosed, hsuffix, hlength⟩ := hcursors us hus
    have := hclosed.length_pos
    exact ⟨input.length - us.length, by omega, List.suffix_iff_eq_drop.1 hsuffix⟩
  · cases hrun : (programBody n).run input with
    | ok answer =>
      obtain ⟨body, rest⟩ := answer
      rw [hrun] at hend
      have hrest := List.suffix_iff_eq_drop.1 hend.1.isSuffix
      rw [hend.2.2] at hrest
      exact .inl ⟨body, by rw [hrest]⟩
    | error failure =>
      rw [hrun] at hend
      cases failure with
      | literal e => exact .inr (.inr ⟨e, rfl⟩)
      | error e place =>
        refine .inr (.inl ⟨e, place, rfl, ?_, hend.2⟩)
        intro hdepth
        have := hend.1 hdepth
        omega

end Parser

/-- The tokens of a source text end with the end mark, which stands nowhere else. -/
theorem closed_lexemes (source : Text) (previous : Option Token) {body : List Token} {last : Token}
    (hbody : ∀ t ∈ body, t.kind ≠ .eof) (hlast : last.kind = .eof) :
    Parser.Closed (lexemes source previous (body ++ [last])) := by
  induction body generalizing previous with
  | nil => exact .last hlast
  | cons t rest ih =>
    exact .cons (hbody t List.mem_cons_self) (ih (some t) fun u hu => hbody u (List.mem_cons_of_mem t hu))

theorem length_lexemes (source : Text) (previous : Option Token) (tokens : List Token) :
    (lexemes source previous tokens).length = tokens.length := by
  induction tokens generalizing previous with
  | nil => rfl
  | cons t rest ih => simp only [lexemes, List.length_cons, ih]

/-- Parsing the tokens of a source text ends, whatever the bound on the descent beyond what `parse` allows
for, with the cursor never past the end mark; and no parsing function answers without having taken a token,
those for parts that may be missing apart. -/
theorem parse_ends {source : Text} {tokens : List Token} (h : Token.scan source = .ok tokens) :
    (∀ n, 32 * tokens.length + 32 ≤ n → Parser.Ends (lexemes source none tokens) n) ∧
      Parser.Closed (lexemes source none tokens) ∧ ∀ n, Parser.Productive n := by
  have hclosed : Parser.Closed (lexemes source none tokens) := by
    obtain ⟨tokens', hok, hlaid⟩ | ⟨c, pos, herror, -⟩ := Token.scanFrom_laid 0 none source
    · obtain rfl : tokens' = tokens := by simpa [Token.scan, hok] using h
      obtain ⟨body, rfl, hbody⟩ := hlaid.ending
      exact closed_lexemes source none (fun t ht => (hbody t ht).1) rfl
    · simp [Token.scan, herror] at h
  refine ⟨fun n hn => hclosed.ends ?_, hclosed, Parser.productive⟩
  rw [length_lexemes]
  omega

/-- A program that ends in the middle of an argument list. -/
theorem parse_ends_openCall :
    ∃ tokens, Token.scan (Text.ofString "f(x,") = .ok tokens ∧
      (∀ n, 32 * tokens.length + 32 ≤ n →
        Parser.Ends (lexemes (Text.ofString "f(x,") none tokens) n) ∧
      Parser.Closed (lexemes (Text.ofString "f(x,") none tokens) ∧ ∀ n, Parser.Productive n := by
  cases h : Token.scan (Text.ofString "f(x,") with
  | error message =>
    have hok : (Token.scan (Text.ofString "f(x,")).isOk := by decide +kernel
    rw [h] at hok
    cases hok
  | ok tokens => exact ⟨tokens, rfl, parse_ends h⟩

end ScriptEngine
