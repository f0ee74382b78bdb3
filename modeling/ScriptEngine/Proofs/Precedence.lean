import ScriptEngine.Proofs.Layout

/-!
# The grouping of binary operators

Operands joined by binary operators are grouped while they are read: an operator takes its right operand with all
that binds more tightly, and what has been read so far is its left operand. The tree that results has the operands
and operators in the order of the tokens, an operator below another one on its left binds at least as tightly and
one on its right more tightly. There is only one such tree, so how it was built does not matter.

## Main definitions

* `Operation`: trees of operators over operands, with `Operation.reading` for their order.
* `Operation.Standard`: grouping by precedence, and to the left.
* `Parser.Alternates`: tokens that are read as operands and operators in turn.

## Main results

* `Operation.Standard.unique`: operands and operators in a given order are grouped in one way.
* `Parser.binary_grouped`, `Parser.binaryRest_grouped`: what is read and how it is grouped.
* `Parser.binary_standard`: the trees of binary expressions.
-/

namespace ScriptEngine

open ScriptEngine.Parser (binaryPrecedence?)

/-! ## Trees of operators -/

/-- Operands joined by binary operators. An operand is any tree, which may have operators inside. -/
inductive Operation where
  | operand (e : Node)
  | joined (op : Token) (left right : Operation)

namespace Operation

/-- The kind of node for an operator. -/
def kindOf (op : Token) : NodeKind :=
  if op.text = Text.ofString "&&" ∨ op.text = Text.ofString "||" then .logical else .binary

/-- The syntax tree. -/
def toNode : Operation → Node
  | operand e => e
  | joined op left right => Node.named (kindOf op) op.text op [left.toNode, right.toNode]

/-- The operands and operators from left to right. -/
def reading : Operation → List (Node ⊕ Token)
  | operand e => [.inl e]
  | joined op left right => left.reading ++ .inr op :: right.reading

/-- The precedence of the operator at the top. -/
def precedence? (noIn : Bool) : Operation → Option Nat
  | operand _ => none
  | joined op _ _ => binaryPrecedence? op noIn

/-- All is grouped by precedence, and to the left where the precedence is the same. -/
def Standard (noIn : Bool) : Operation → Prop
  | operand _ => True
  | joined op left right =>
    (∃ p, binaryPrecedence? op noIn = some p ∧ (∀ q ∈ left.precedence? noIn, p ≤ q) ∧
      ∀ q ∈ right.precedence? noIn, p < q) ∧ left.Standard noIn ∧ right.Standard noIn

variable {noIn : Bool}

/-- No operator binds less tightly than the one at the top. -/
theorem Standard.le_of_mem {o : Operation} (h : o.Standard noIn) {p : Nat} (hp : ∀ q ∈ o.precedence? noIn, p ≤ q)
    {t : Token} (ht : .inr t ∈ o.reading) {q : Nat} (hq : binaryPrecedence? t noIn = some q) : p ≤ q := by
  induction o with
  | operand e => simp [reading] at ht
  | joined op left right ihLeft ihRight =>
    obtain ⟨⟨r, hr, hleft, hright⟩, hl, hr'⟩ := h
    have hpr : p ≤ r := hp r hr
    simp only [reading, List.mem_append, List.mem_cons, Sum.inr.injEq] at ht
    obtain ht | rfl | ht := ht
    · exact ihLeft hl (fun q hq => Nat.le_trans hpr (hleft q hq)) ht
    · rw [hr] at hq
      cases hq
      exact hpr
    · exact ihRight hr' (fun q hq => Nat.le_trans hpr (Nat.le_of_lt (hright q hq))) ht

/-- The top operator of one grouping cannot be on the left of that of another one. -/
theorem Standard.mid_eq_nil {op op' : Token} {left right left' right' : Operation} {mid : List (Node ⊕ Token)}
    (h : (joined op left right).Standard noIn) (h' : (joined op' left' right').Standard noIn)
    (hleft : left'.reading = left.reading ++ mid)
    (hright : .inr op :: right.reading = mid ++ .inr op' :: right'.reading) : mid = [] := by
  cases mid with
  | nil => rfl
  | cons x mid =>
    simp only [List.cons_append, List.cons.injEq] at hright
    obtain ⟨rfl, hright⟩ := hright
    obtain ⟨⟨p, hp, -, habove⟩, -, hr⟩ := h
    obtain ⟨⟨p', hp', hatLeast, -⟩, hl, -⟩ := h'
    have hlt : p + 1 ≤ p' := hr.le_of_mem habove (by simp [hright]) hp'
    have hle : p' ≤ p := hl.le_of_mem hatLeast (by simp [hleft]) hp
    omega

theorem reading_joined_ne (op : Token) (left right : Operation) (e : Node) :
    (joined op left right).reading ≠ [.inl e] := by
  intro h
  have hmem : .inr op ∈ (joined op left right).reading := by simp [reading]
  rw [h] at hmem
  simp at hmem

/-- Operands and operators in a given order are grouped in one way. -/
theorem Standard.unique {a b : Operation} (ha : a.Standard noIn) (hb : b.Standard noIn)
    (h : a.reading = b.reading) : a = b := by
  induction a generalizing b with
  | operand e =>
    cases b with
    | operand e' => simpa [reading] using h
    | joined op left right => exact absurd h.symm (reading_joined_ne op left right e)
  | joined op left right ihLeft ihRight =>
    cases b with
    | operand e => exact absurd h (reading_joined_ne op left right e)
    | joined op' left' right' =>
      have hsplit := h
      simp only [reading] at hsplit
      obtain ⟨mid, hl, hr⟩ | ⟨mid, hl, hr⟩ := List.append_eq_append_iff.1 hsplit
      · obtain rfl := ha.mid_eq_nil hb hl hr
        simp only [List.append_nil, List.nil_append, List.cons.injEq, Sum.inr.injEq] at hl hr
        rw [hr.1, ihLeft ha.2.1 hb.2.1 hl.symm, ihRight ha.2.2 hb.2.2 hr.2]
      · obtain rfl := hb.mid_eq_nil ha hl hr
        simp only [List.append_nil, List.nil_append, List.cons.injEq, Sum.inr.injEq] at hl hr
        rw [hr.1, ihLeft ha.2.1 hb.2.1 hl, ihRight ha.2.2 hb.2.2 hr.2.symm]

end Operation

/-! ## Reading operands and operators -/

namespace Parser

/-- Tokens are read as operands and operators in turn; each operand is what `unary` makes of the tokens at its
place. -/
inductive Alternates (n : Nat) (noIn : Bool) : List Lexeme → List (Node ⊕ Token) → List Lexeme → Prop
  | last {m : Nat} {ts rest : List Lexeme} {e : Node} (hm : m < n) (he : (unary m).run ts = .ok (e, rest)) :
      Alternates n noIn ts [.inl e] rest
  | more {m : Nat} {ts us rest : List Lexeme} {e : Node} {l : Lexeme} {parts : List (Node ⊕ Token)} (hm : m < n)
      (he : (unary m).run ts = .ok (e, l :: us)) (hl : (binaryPrecedence? l.token noIn).isSome)
      (hrest : Alternates n noIn us parts rest) : Alternates n noIn ts (.inl e :: .inr l.token :: parts) rest

variable {n least : Nat} {noIn : Bool} {ts us rest : List Lexeme} {l : Lexeme}

/-- A result comes from a result before. -/
theorem run_bind_eq_ok {α β : Type} {p : Parser α} {f : α → Parser β} {r : β × List Lexeme}
    (h : (p >>= f).run ts = .ok r) : ∃ a us, p.run ts = .ok (a, us) ∧ (f a).run us = .ok r := by
  change (Parser.bind p f).run ts = _ at h
  rw [run] at h
  split at h
  case h_1 a us hp => exact ⟨a, us, hp, h⟩
  case h_2 => cases h

/-- An operator and further operands after some that have been read. -/
theorem Alternates.append {parts parts' : List (Node ⊕ Token)} (h : Alternates n noIn ts parts (l :: us))
    (hl : (binaryPrecedence? l.token noIn).isSome) (h' : Alternates n noIn us parts' rest) :
    Alternates n noIn ts (parts ++ .inr l.token :: parts') rest := by
  generalize hmid : l :: us = mid at h
  induction h with
  | last hm he =>
    subst hmid
    exact .more hm he hl h'
  | more hm he hl' _ ih => exact .more hm he hl' (ih hmid)

/-- The next token as a binary operator. -/
def nextPrecedence? (noIn : Bool) (ts : List Lexeme) : Option Nat :=
  binaryPrecedence? (ts.headD endLexeme).token noIn

/-- Tokens that have been read as an operation of operators of at least the given precedence. -/
structure Grouped (n least : Nat) (noIn : Bool) (ts : List Lexeme) (o : Operation) (rest : List Lexeme) : Prop where
  alternates : Alternates n noIn ts o.reading rest
  standard : o.Standard noIn
  least_le : ∀ q ∈ o.precedence? noIn, least ≤ q

/-- The kind of node follows from the precedence. -/
theorem kind_of_precedence {op : Token} {p : Nat} (h : binaryPrecedence? op noIn = some p) :
    (if p ≤ 2 then NodeKind.logical else NodeKind.binary) = Operation.kindOf op :=
  of_find_row (P := fun p op => (if p ≤ 2 then NodeKind.logical else NodeKind.binary) =
    if op = Text.ofString "&&" ∨ op = Text.ofString "||" then .logical else .binary) (precedence_of_token h) (by decide)

/-- An operator that is not above the top of what is on its left, with all that binds more tightly on its right. -/
theorem Grouped.joined {o right : Operation} {p : Nat} (h : Grouped n least noIn ts o (l :: us))
    (hp : binaryPrecedence? l.token noIn = some p) (hleast : least ≤ p) (hnext : ∀ q ∈ o.precedence? noIn, p ≤ q)
    (hright : Grouped n (p + 1) noIn us right rest) : Grouped n least noIn ts (.joined l.token o right) rest where
  alternates := h.alternates.append (by simp [hp]) hright.alternates
  standard := ⟨⟨p, hp, hnext, fun q hq => hright.least_le q hq⟩, h.standard, hright.standard⟩
  least_le q hq := by
    simp only [Operation.precedence?, hp, Option.mem_some_iff] at hq
    omega

/-- What reading leads to: a grouped operation, followed by nothing that could be joined to it. -/
def ReadsOperation (n least : Nat) (noIn : Bool) (ts : List Lexeme) (e : Node) (rest : List Lexeme) : Prop :=
  ∃ o : Operation, o.toNode = e ∧ Grouped n least noIn ts o rest ∧ ∀ p ∈ nextPrecedence? noIn rest, p < least

/-- A binary operator is a token that is there. -/
theorem exists_of_nextPrecedence? {p : Nat} (h : nextPrecedence? noIn us = some p) :
    ∃ l vs, us = l :: vs ∧ binaryPrecedence? l.token noIn = some p := by
  cases us with
  | nil => simp [nextPrecedence?, binaryPrecedence?, endLexeme] at h
  | cons l vs => exact ⟨l, vs, rfl, h⟩

/-- The rest of an operation of which `o` has been read. What has been read is not followed by an operator that
binds more tightly than the one at its top, and this stays so with every operator that is joined. -/
theorem binaryRest_grouped {m : Nat} (hbinary : ∀ k < m, ∀ least ts e rest,
      (binary k least noIn).run ts = .ok (e, rest) → ReadsOperation n least noIn ts e rest)
    {o : Operation} (ho : Grouped n least noIn ts o us)
    (hnext : ∀ q ∈ o.precedence? noIn, ∀ p ∈ nextPrecedence? noIn us, p ≤ q) {e : Node}
    (h : (binaryRest m least noIn o.toNode).run us = .ok (e, rest)) : ReadsOperation n least noIn ts e rest := by
  induction m generalizing o us with
  | zero => simp [binaryRest, run] at h
  | succ m ih =>
    rw [binaryRest] at h
    obtain ⟨t, _, hpeek, h⟩ := run_bind_eq_ok h
    cases hpeek
    cases hp : nextPrecedence? noIn us with
    | none =>
      have hhead : binaryPrecedence? (us.headD endLexeme).token noIn = none := hp
      rw [hhead] at h
      cases h
      exact ⟨o, rfl, ho, by simp [hp]⟩
    | some p =>
      obtain ⟨l, vs, rfl, hl⟩ := exists_of_nextPrecedence? hp
      have hhead : binaryPrecedence? ((l :: vs).headD endLexeme).token noIn = some p := hl
      rw [hhead] at h
      dsimp only at h
      split at h
      · rename_i hlow
        cases h
        refine ⟨o, rfl, ho, ?_⟩
        simpa [hp] using hlow
      · rename_i hhigh
        obtain ⟨_, _, hadvance, h⟩ := run_bind_eq_ok h
        cases hadvance
        obtain ⟨_, us, hright, h⟩ := run_bind_eq_ok h
        obtain ⟨right, rfl, hr, hafter⟩ := hbinary m (Nat.lt_succ_self m) (p + 1) vs _ us hright
        have hjoined := ho.joined hl (Nat.le_of_not_lt hhigh) (fun q hq => hnext q hq p hp) hr
        refine ih (fun k hk => hbinary k (Nat.lt_succ_of_lt hk)) hjoined ?_ ?_
        · intro q hq p' hp'
          simp only [Operation.precedence?, hl, Option.mem_some_iff] at hq
          have hlt := hafter p' hp'
          omega
        · rw [kind_of_precedence hl] at h
          exact h

/-- An operation of operators of at least the given precedence. -/
theorem binary_grouped {m : Nat} (hm : m ≤ n) {e : Node} (h : (binary m least noIn).run ts = .ok (e, rest)) :
    ReadsOperation n least noIn ts e rest := by
  induction m using Nat.strongRecOn generalizing least ts e rest with
  | ind m ih =>
    cases m with
    | zero => simp [binary, run] at h
    | succ m =>
      rw [binary] at h
      obtain ⟨first, us, hfirst, h⟩ := run_bind_eq_ok h
      have ho : Grouped n least noIn ts (.operand first) us :=
        ⟨.last hm hfirst, trivial, by simp [Operation.precedence?]⟩
      have hbinary : ∀ k < m, ∀ least ts e rest, (binary k least noIn).run ts = .ok (e, rest) →
          ReadsOperation n least noIn ts e rest := fun k hk _ _ _ _ => ih k (by omega) (by omega)
      exact binaryRest_grouped hbinary ho (by simp [Operation.precedence?]) h

/-- Every binary operator has a precedence of at least one. -/
theorem one_le_precedence {op : Token} {p : Nat} (h : binaryPrecedence? op noIn = some p) : 1 ≤ p :=
  of_find_row (P := fun p _ => 1 ≤ p) (precedence_of_token h) (by decide)

/-- A token is no binary operator where `in` is none if it is no binary operator or the word `in`. -/
theorem binaryPrecedence?_eq_none {t : Token} (h : binaryPrecedence? t noIn = none) :
    binaryPrecedence? t false = none ∨ noIn = true ∧ t.text = Text.ofString "in" := by
  by_cases hin : noIn = true ∧ t.text = Text.ofString "in"
  · exact .inr hin
  · refine .inl ?_
    cases noIn with
    | false => exact h
    | true =>
      simp only [true_and] at hin
      simpa [binaryPrecedence?, hin] using h

/-- A binary expression is read as operands with operators between them, up to a token that is no binary operator,
or the word `in` where it is not to be one. Its tree has them in the order of the tokens, with at least as tight
operators on the left of each operator and tighter ones on its right, and is the only tree that has. -/
theorem binary_standard {e : Node} (h : (binary n 1 noIn).run ts = .ok (e, rest)) :
    ∃ o : Operation, o.toNode = e ∧ Alternates n noIn ts o.reading rest ∧ o.Standard noIn ∧
      (nextPrecedence? false rest = none ∨ noIn = true ∧ (rest.headD endLexeme).token.text = Text.ofString "in") ∧
      ∀ o' : Operation, o'.Standard noIn → o'.reading = o.reading → o' = o := by
  obtain ⟨o, he, hgrouped, hafter⟩ := binary_grouped (Nat.le_refl n) h
  have hend : nextPrecedence? noIn rest = none := by
    cases hp : nextPrecedence? noIn rest with
    | none => rfl
    | some p => exact absurd (hafter p hp) (Nat.not_lt.2 (one_le_precedence hp))
  refine ⟨o, he, hgrouped.alternates, hgrouped.standard, binaryPrecedence?_eq_none hend, ?_⟩
  intro o' ho' hreading
  exact ho'.unique hgrouped.standard hreading

/-- The lexemes of a text. -/
def lexemesOf (source : Text) : List Lexeme :=
  match Token.scan source with
  | .ok tokens => lexemes source none tokens
  | .error _ => []

/-- An expression with operators of three levels, in front of a semicolon. -/
theorem binary_standard_levels :
    ∃ e rest, (binary 40 1 false).run (lexemesOf "a - b - c * d || e;") = .ok (e, rest) ∧
      ∃ o : Operation, o.toNode = e ∧ o.Standard false ∧ nextPrecedence? false rest = none := by
  cases h : (binary 40 1 false).run (lexemesOf "a - b - c * d || e;") with
  | ok answer =>
    obtain ⟨e, rest⟩ := answer
    obtain ⟨o, he, -, ho, hend, -⟩ := binary_standard h
    exact ⟨e, rest, rfl, o, he, ho, hend.resolve_right (by simp)⟩
  | error e =>
    have hok : ((binary 40 1 false).run (lexemesOf "a - b - c * d || e;")).isOk := by decide +kernel
    rw [h] at hok
    cases hok

end Parser

end ScriptEngine
