import ScriptEngine.Grammar.Parser
import ScriptEngine.Grammar.Program

/-!
# The layout of syntax trees

What the parser and the evaluator agree on: for each kind of node, the parts that its children are, in
order, and what it says beside them. Optional parts are present as place holders, so a place holder stands
only where a part is optional, or for an empty statement. Every tree that the parser answers has this
layout.

## Main definitions

* `Part`: what can stand at a position of a tree.
* `NodeKind.layout`: the parts below a node, by its kind.
* `Node.fits`: whether a whole tree is a part of the given sort.

## Main results

* `parse_fits`: the tree of a source text has the layout of a program.
-/

namespace ScriptEngine

/-- What can stand at a position of a tree. -/
inductive Part where
  | program
  | statement
  | block
  | expression
  /-- What can be assigned to. -/
  | target
  | optionalExpression
  | declaration
  | params
  | param
  /-- What a `for` statement starts with. -/
  | loopStart
  /-- What the keys of a `for`-`in` statement are assigned to. -/
  | loopTarget
  | clause
  | handler
  | finalizer
  /-- An element of an array literal, which may be missing. -/
  | element
  | property
  deriving DecidableEq

namespace NodeKind

/-- Whether nodes of a kind are statements. -/
def isStatement : NodeKind → Bool
  | block | empty | expr | varStmt | functionStmt | ifStmt | whileStmt | doStmt | forStmt | forInStmt
  | switchStmt | tryStmt | throwStmt | returnStmt | breakStmt | continueStmt | labelStmt | withStmt => true
  | _ => false

/-- Whether nodes of a kind are expressions. -/
def isExpression : NodeKind → Bool
  | number | string | boolean | null | regexp | ident | this | array | object | functionExpr | member | call
  | new | unary | prefixOp | postfixOp | binary | logical | assign | conditional | comma => true
  | _ => false

/-- Whether nodes of a kind can be assigned to. -/
def isTarget : NodeKind → Bool
  | ident | member => true
  | _ => false

/-- The parts below a node: those at the first positions, and what all further children are, if there can be
any. -/
def layout : NodeKind → List Part × Option Part
  | program => ([], some .statement)
  | block => ([], some .statement)
  | empty => ([], none)
  | expr => ([.expression], none)
  | varStmt => ([], some .declaration)
  | decl => ([.optionalExpression], none)
  | functionStmt => ([.params, .block], none)
  | params => ([], some .param)
  -- A place holder is a statement too, so the last part may be missing.
  | ifStmt => ([.expression, .statement, .statement], none)
  | whileStmt => ([.expression, .statement], none)
  | doStmt => ([.statement, .expression], none)
  | forStmt => ([.loopStart, .optionalExpression, .optionalExpression, .statement], none)
  | forInStmt => ([.loopTarget, .expression, .statement], none)
  | switchStmt => ([.expression], some .clause)
  | caseClause => ([.expression], some .statement)
  | defaultClause => ([], some .statement)
  | tryStmt => ([.block, .handler, .finalizer], none)
  | catchClause => ([.block], none)
  | finallyClause => ([.block], none)
  | throwStmt => ([.expression], none)
  | returnStmt => ([], some .expression)
  | breakStmt => ([], none)
  | continueStmt => ([], none)
  | labelStmt => ([.statement], none)
  | withStmt => ([.expression, .statement], none)
  | number => ([], none)
  | string => ([], none)
  | boolean => ([], none)
  | null => ([], none)
  | regexp => ([], none)
  | ident => ([], none)
  | this => ([], none)
  | array => ([], some .element)
  | hole => ([], none)
  | object => ([], some .property)
  | property => ([.expression], none)
  | functionExpr => ([.params, .block], none)
  | member => ([.expression, .expression], none)
  | call => ([.expression], some .expression)
  | new => ([.expression], some .expression)
  | unary => ([.expression], none)
  | prefixOp => ([.target], none)
  | postfixOp => ([.target], none)
  | binary => ([.expression, .expression], none)
  | logical => ([.expression, .expression], none)
  | assign => ([.target, .expression], none)
  | conditional => ([.expression, .expression, .expression], none)
  | comma => ([], some .expression)

/-- What is asked of the children of a node beside their parts: there is a declaration in a `var` statement,
and only one where keys are assigned to it, at most one default in a `switch`, a handler or a last part in a
`try`, and at most one value in a `return`. -/
def regular : NodeKind → List Node → Bool
  | varStmt, decls => !decls.isEmpty
  | forInStmt, target :: _ => target.kind != varStmt || target.children.length == 1
  | switchStmt, _ :: clauses => clauses.countP (·.kind == defaultClause) ≤ 1
  | tryStmt, [_, handler, finalizer] => !(handler.isEmpty && finalizer.isEmpty)
  | returnStmt, values => values.length ≤ 1
  | _, _ => true

/-- Whether nodes of a kind can say what a payload says: names and literals where they belong, and operators
that have a meaning. -/
def carries : NodeKind → Payload → Bool
  | number, .number _ => true
  | string, .text _ => true
  | boolean, .flag _ => true
  | regexp, .pattern _ _ => true
  | unary, .text op => (Program.unaryOp? op).isSome
  | binary, .text op => (Program.binaryOp? op).isSome
  | assign, .text op => (Program.assignOp? op).isSome
  | logical, .text op => op == Text.ofString "&&" || op == Text.ofString "||"
  | prefixOp, .text op => op == Text.ofString "++" || op == Text.ofString "--"
  | postfixOp, .text op => op == Text.ofString "++" || op == Text.ofString "--"
  | ident, .text _ | decl, .text _ | functionStmt, .text _ | functionExpr, .text _ | property, .text _ => true
  | catchClause, .text _ | labelStmt, .text _ | breakStmt, .text _ | continueStmt, .text _ => true
  | number, .none | string, .none | boolean, .none | regexp, .none | unary, .none | binary, .none => false
  | assign, .none | logical, .none | prefixOp, .none | postfixOp, .none | ident, .none | decl, .none => false
  | functionStmt, .none | functionExpr, .none | property, .none | catchClause, .none | labelStmt, .none => false
  | _, .none => true
  | _, _ => false

end NodeKind

/-- Whether a node of a kind can stand at a position. -/
def Part.admits : Part → NodeKind → Bool
  | program, k => k == .program
  | statement, k => k.isStatement
  | block, k => k == .block
  | expression, k => k.isExpression
  | target, k => k.isTarget
  | optionalExpression, k => k.isExpression || k == .empty
  | declaration, k => k == .decl
  | params, k => k == .params
  | param, k => k == .ident
  | loopStart, k => k.isExpression || k == .varStmt || k == .empty
  | loopTarget, k => k.isTarget || k == .varStmt
  | clause, k => k == .caseClause || k == .defaultClause
  | handler, k => k == .catchClause || k == .empty
  | finalizer, k => k == .finallyClause || k == .empty
  | element, k => k.isExpression || k == .hole
  | property, k => k == .property

mutual

/-- Whether a tree can stand at a position: its kind is admitted there, and it has the layout of its kind, in
all its nodes. -/
def Node.fits (p : Part) : Node → Bool
  | .mk kind payload _ children =>
    p.admits kind && kind.carries payload && kind.regular children &&
      Node.allFit kind.layout.1 kind.layout.2 children

/-- Whether trees can stand one after another at the given positions and at further ones. -/
def Node.allFit (parts : List Part) (more : Option Part) : List Node → Bool
  | [] => parts.isEmpty
  | n :: rest =>
    match parts, more with
    | p :: parts, more => n.fits p && Node.allFit parts more rest
    | [], some p => n.fits p && Node.allFit [] (some p) rest
    | [], none => false

end

namespace Node

variable {n : Node} {p q : Part}

/-- Where a tree can stand depends on the kind of its top node only. -/
theorem fits_of_admits (h : n.fits p) (hq : q.admits n.kind) : n.fits q := by
  obtain ⟨kind, payload, mark, children⟩ := n
  simp only [fits, Bool.and_eq_true] at h ⊢
  exact ⟨⟨⟨hq, h.1.1.2⟩, h.1.2⟩, h.2⟩

theorem admits_of_fits (h : n.fits p) : p.admits n.kind := by
  obtain ⟨kind, payload, mark, children⟩ := n
  simp only [fits, Bool.and_eq_true] at h
  exact h.1.1.1

/-- What can stand at one position can stand at a more liberal one. -/
theorem fits_mono (h : n.fits p) (hq : ∀ k, p.admits k → q.admits k) : n.fits q :=
  fits_of_admits h (hq _ (admits_of_fits h))

theorem fits_mk {kind : NodeKind} {payload : Payload} {mark : Mark} {children : List Node}
    (hkind : p.admits kind) (hpayload : kind.carries payload) (hregular : kind.regular children)
    (h : allFit kind.layout.1 kind.layout.2 children) : (mk kind payload mark children).fits p := by
  simp only [fits, Bool.and_eq_true]
  exact ⟨⟨⟨hkind, hpayload⟩, hregular⟩, h⟩

/-- A leaf has no parts. -/
theorem fits_leaf {kind : NodeKind} {payload : Payload} {t : Token} (hkind : p.admits kind)
    (hpayload : kind.carries payload) (hregular : kind.regular []) (h : kind.layout.1 = []) :
    (leaf kind payload t).fits p :=
  fits_mk hkind hpayload hregular (by simp [h, allFit])

theorem fits_plain {kind : NodeKind} {t : Token} {children : List Node} (hkind : p.admits kind)
    (hpayload : kind.carries .none) (hregular : kind.regular children)
    (h : allFit kind.layout.1 kind.layout.2 children) : (plain kind t children).fits p :=
  fits_mk hkind hpayload hregular h

theorem fits_named {kind : NodeKind} {name : Text} {t : Token} {children : List Node} (hkind : p.admits kind)
    (hpayload : kind.carries (.text name)) (hregular : kind.regular children)
    (h : allFit kind.layout.1 kind.layout.2 children) : (named kind name t children).fits p :=
  fits_mk hkind hpayload hregular h

/-- A place holder can stand where one is admitted. -/
theorem fits_absent (h : p.admits .empty) : absent.fits p := fits_mk h rfl rfl rfl

@[simp] theorem allFit_nil (more : Option Part) : allFit [] more [] = true := by simp [allFit]

@[simp] theorem allFit_part (parts : List Part) (more : Option Part) (rest : List Node) :
    allFit (p :: parts) more (n :: rest) = (n.fits p && allFit parts more rest) := by simp [allFit]

@[simp] theorem allFit_more (rest : List Node) :
    allFit [] (some p) (n :: rest) = (n.fits p && allFit [] (some p) rest) := by simp [allFit]

end Node

/-! ## What parsing functions answer -/

namespace Parser

variable {α β : Type} {P : α → Prop} {Q : β → Prop}

/-- Whatever a parsing function answers has the given property. -/
def Returns (p : Parser α) (P : α → Prop) : Prop := ∀ ts a rest, p.run ts = .ok (a, rest) → P a

namespace Returns

theorem pure {a : α} (h : P a) : Returns (Parser.pure a) P := by
  rintro ts _ _ ⟨⟩
  exact h

theorem fail {e : ParseError} : Returns (Parser.fail e) P := nofun

theorem bind {p : Parser α} {f : α → Parser β} (hp : p.Returns P) (hf : ∀ a, P a → (f a).Returns Q) :
    (p >>= f).Returns Q := by
  intro ts b rest h
  change (Parser.bind p f).run ts = _ at h
  rw [Parser.run] at h
  split at h
  case h_1 a rest' e => exact hf a (hp ts a rest' e) rest' b rest h
  case h_2 e he => cases h

/-- What comes first does not matter. -/
theorem after {p : Parser α} {f : α → Parser β} (hf : ∀ a, (f a).Returns Q) : (p >>= f).Returns Q :=
  bind (P := fun _ => True) (fun _ _ _ _ => trivial) fun a _ => hf a

theorem ite {c : Prop} [Decidable c] {p q : Parser α} (hp : p.Returns P) (hq : q.Returns P) :
    (if c then p else q).Returns P := by
  split
  · exact hp
  · exact hq

theorem mono {p : Parser α} {P' : α → Prop} (h : p.Returns P) (himp : ∀ a, P a → P' a) : p.Returns P' :=
  fun ts a rest e => himp a (h ts a rest e)

end Returns

/-! ## Operators -/

/-- What holds of all entries of a table of operators by precedence holds of the entry that is found. -/
theorem of_find_row {table : List (Nat × List String)} {P : Nat → Text → Prop} {op : Text} {p : Nat}
    (h : (table.find? fun row => (row.2.map Text.ofString).contains op).map (·.1) = some p)
    (hP : ∀ row ∈ table, ∀ op ∈ row.2.map Text.ofString, P row.1 op) : P p op := by
  obtain ⟨row, hrow, rfl⟩ := Option.map_eq_some_iff.1 h
  exact hP row (List.mem_of_find?_eq_some hrow) op (by simpa using List.find?_some hrow)

/-- The kind of node for a binary operator of the given precedence. -/
theorem carries_of_precedence {op : Text} {p : Nat} (h : precedence? op = some p) :
    (if p ≤ 2 then NodeKind.logical else NodeKind.binary).carries (.text op) :=
  of_find_row (P := fun p op => (if p ≤ 2 then NodeKind.logical else NodeKind.binary).carries (.text op) = true) h
    (by decide)

theorem precedence_of_token {t : Token} {noIn : Bool} {p : Nat} (h : binaryPrecedence? t noIn = some p) :
    precedence? t.text = some p := by
  simp only [binaryPrecedence?] at h
  split at h
  · cases h
  · split at h
    · exact h
    · cases h

theorem carries_of_isUnary {t : Token} (h : isUnary t) : NodeKind.unary.carries (.text t.text) := by
  have table : ∀ op ∈ (["-", "+", "!", "~"] ++ ["typeof", "void", "delete"]).map Text.ofString,
      NodeKind.unary.carries (.text op) := by decide
  simp only [isUnary, Bool.or_eq_true, Bool.and_eq_true, List.contains_iff_mem] at h
  refine table _ ?_
  rw [List.map_append, List.mem_append]
  exact h.imp And.right And.right

theorem carries_of_assignmentOps {op : Text} (h : assignmentOps.contains op) :
    NodeKind.assign.carries (.text op) := by
  have table : ∀ op ∈ assignmentOps, NodeKind.assign.carries (.text op) := by decide
  exact table op (List.contains_iff_mem.1 h)

theorem carries_of_isUpdate {t : Token} (h : isUpdate t) :
    NodeKind.prefixOp.carries (.text t.text) ∧ NodeKind.postfixOp.carries (.text t.text) := by
  simp only [isUpdate, Bool.and_eq_true] at h
  exact ⟨h.2, h.2⟩

/-- An expression that can be assigned to. -/
theorem fits_target {n : Node} (h : n.fits .expression) (ht : isTarget n) : n.fits .target := by
  refine Node.fits_of_admits h ?_
  simp only [isTarget, Bool.or_eq_true, beq_iff_eq] at ht
  obtain hk | hk := ht <;> simp [hk, Part.admits, NodeKind.isTarget]

/-! ## The descent -/

/-- Every parsing function answers trees of its part when its descent is bounded by `n`. -/
structure Grammatical (n : Nat) : Prop where
  programBody : (programBody n).Returns (Node.allFit [] (some .statement) ·)
  statement : (statement n).Returns (·.fits .statement)
  block : (block n).Returns (·.fits .block)
  blockBody : (blockBody n).Returns (Node.allFit [] (some .statement) ·)
  varList (noIn) : (varList n noIn).Returns fun v => v.kind = .varStmt ∧ v.fits .statement
  declarations (noIn) : (declarations n noIn).Returns fun ds => ds ≠ [] ∧ Node.allFit [] (some .declaration) ds
  functionRest : (functionRest n).Returns fun f => f.1.fits .params ∧ f.2.fits .block
  parameters : (parameters n).Returns (Node.allFit [] (some .param) ·)
  parenthesized : (parenthesized n).Returns (·.fits .expression)
  forRest (t) : (forRest n t).Returns (·.fits .statement)
  clauses (seenDefault : Bool) : (clauses n seenDefault).Returns fun cs =>
    Node.allFit [] (some .clause) cs ∧ cs.countP (·.kind == .defaultClause) ≤ (if seenDefault then 0 else 1)
  clauseBody : (clauseBody n).Returns (Node.allFit [] (some .statement) ·)
  tryRest (t) : (tryRest n t).Returns (·.fits .statement)
  expression (noIn) : (expression n noIn).Returns (·.fits .expression)
  commaRest (noIn) : (commaRest n noIn).Returns (Node.allFit [] (some .expression) ·)
  assignment (noIn) : (assignment n noIn).Returns (·.fits .expression)
  conditional (noIn) : (conditional n noIn).Returns (·.fits .expression)
  binary (least noIn) : (binary n least noIn).Returns (·.fits .expression)
  binaryRest (least noIn) {left : Node} (h : left.fits .expression) :
    (binaryRest n least noIn left).Returns (·.fits .expression)
  unary : (unary n).Returns (·.fits .expression)
  postfixed : (postfixed n).Returns (·.fits .expression)
  arguments : (arguments n).Returns (Node.allFit [] (some .expression) ·)
  argumentList : (argumentList n).Returns (Node.allFit [] (some .expression) ·)
  construction : (construction n).Returns (·.fits .expression)
  callOrMember : (callOrMember n).Returns (·.fits .expression)
  memberTail (calls) {e : Node} (h : e.fits .expression) : (memberTail n e calls).Returns (·.fits .expression)
  primary : (primary n).Returns (·.fits .expression)
  elements : (elements n).Returns (Node.allFit [] (some .element) ·)
  properties : (properties n).Returns (Node.allFit [] (some .property) ·)

namespace Grammatical

variable {n : Nat}

theorem programBody_succ (ih : Grammatical n) :
    (Parser.programBody (n + 1)).Returns (Node.allFit [] (some .statement) ·) := by
  unfold Parser.programBody
  refine .after fun ended => ?_
  split
  · exact .pure rfl
  · refine .bind ih.statement fun s hs => .bind ih.programBody fun rest hrest => .pure ?_
    simp [hs, hrest]

theorem block_succ (ih : Grammatical n) : (Parser.block (n + 1)).Returns (·.fits .block) := by
  unfold Parser.block
  exact .after fun t => .bind ih.blockBody fun body hbody => .pure (Node.fits_plain rfl rfl rfl hbody)

theorem blockBody_succ (ih : Grammatical n) :
    (Parser.blockBody (n + 1)).Returns (Node.allFit [] (some .statement) ·) := by
  unfold Parser.blockBody
  refine .after fun closed => ?_
  split
  · exact .after fun _ => .pure rfl
  · refine .after fun ended => ?_
    split
    · exact .fail
    · refine .bind ih.statement fun s hs => .bind ih.blockBody fun rest hrest => .pure ?_
      simp [hs, hrest]

theorem varList_succ (ih : Grammatical n) (noIn : Bool) :
    (Parser.varList (n + 1) noIn).Returns fun v => v.kind = .varStmt ∧ v.fits .statement := by
  unfold Parser.varList
  refine .after fun t => .bind (ih.declarations noIn) fun ds hds => .pure ⟨rfl, ?_⟩
  exact Node.fits_plain rfl rfl (by simpa [NodeKind.regular] using hds.1) hds.2

theorem declarations_succ (ih : Grammatical n) (noIn : Bool) :
    (Parser.declarations (n + 1) noIn).Returns fun ds => ds ≠ [] ∧ Node.allFit [] (some .declaration) ds := by
  unfold Parser.declarations
  refine .after fun name => .after fun valued => ?_
  extract_lets rest
  have hrest (init : Node) (h : init.fits .optionalExpression) :
      (rest init).Returns fun ds => ds ≠ [] ∧ Node.allFit [] (some .declaration) ds := by
    have hd : (Node.named .decl name.text name [init]).fits .declaration :=
      Node.fits_named rfl rfl rfl (by simp [NodeKind.layout, h])
    refine .after fun more => ?_
    split
    · refine .after fun _ => .bind (ih.declarations noIn) fun ds hds => .pure ⟨by simp, ?_⟩
      simp [hd, hds.2]
    · exact .pure ⟨by simp, by simp [hd]⟩
  split
  · exact .after fun _ => .bind (ih.assignment noIn) fun e he =>
      hrest e (Node.fits_mono he fun k hk => by simp_all [Part.admits])
  · exact .bind (.pure (Node.fits_absent rfl)) hrest

theorem functionRest_succ (ih : Grammatical n) :
    (Parser.functionRest (n + 1)).Returns fun f => f.1.fits .params ∧ f.2.fits .block := by
  unfold Parser.functionRest
  refine .after fun t => .after fun closed => ?_
  extract_lets rest
  have hrest (ps : List Node) (h : Node.allFit [] (some .param) ps) :
      (rest ps).Returns fun f => f.1.fits .params ∧ f.2.fits .block :=
    .bind ih.block fun b hb => .pure ⟨Node.fits_plain rfl rfl rfl h, hb⟩
  split
  · exact .after fun _ => .bind (.pure (Node.allFit_nil _)) hrest
  · exact .bind ih.parameters hrest

theorem parameters_succ (ih : Grammatical n) :
    (Parser.parameters (n + 1)).Returns (Node.allFit [] (some .param) ·) := by
  unfold Parser.parameters
  refine .after fun name => ?_
  have hp : (Node.named .ident name.text name []).fits .param := Node.fits_named rfl rfl rfl rfl
  refine .after fun closed => ?_
  split
  · exact .after fun _ => .pure (by simp [hp])
  · exact .after fun _ => .bind ih.parameters fun ps hps => .pure (by simp [hp, hps])

theorem parenthesized_succ (ih : Grammatical n) :
    (Parser.parenthesized (n + 1)).Returns (·.fits .expression) := by
  unfold Parser.parenthesized
  exact .after fun _ => .bind (ih.expression false) fun e he => .after fun _ => .pure he

theorem jump_fits {kind : NodeKind} (h : kind = .breakStmt ∨ kind = .continueStmt) (t : Token) :
    (jump kind t).Returns (·.fits .statement) := by
  unfold jump
  refine .after fun l => ?_
  obtain rfl | rfl := h
  all_goals
    split
    · exact .after fun _ => .after fun _ => .pure (Node.fits_named rfl rfl rfl rfl)
    · exact .after fun _ => .pure (Node.fits_plain rfl rfl rfl rfl)

theorem statement_succ (ih : Grammatical n) : (Parser.statement (n + 1)).Returns (·.fits .statement) := by
  unfold Parser.statement
  refine .after fun t => ?_
  refine .ite ?_ ?_
  · exact .after fun _ => .pure (Node.fits_plain rfl rfl rfl rfl)
  refine .ite ?_ ?_
  · exact ih.block.mono fun b hb => Node.fits_mono hb fun k hk => by simp_all [Part.admits, NodeKind.isStatement]
  refine .after fun second => ?_
  refine .ite ?_ ?_
  · exact .after fun _ => .after fun _ => .bind ih.statement fun body hbody =>
      .pure (Node.fits_named rfl rfl rfl (by simp [NodeKind.layout, hbody]))
  refine .ite ?_ ?_
  · exact .bind (ih.varList false) fun v hv => .after fun _ => .pure hv.2
  refine .ite ?_ ?_
  · exact .after fun _ => .after fun name => .bind ih.functionRest fun f hf =>
      .pure (Node.fits_named rfl rfl rfl (by simp [NodeKind.layout, hf]))
  refine .ite ?_ ?_
  · refine .after fun _ => .after fun ended => ?_
    split
    · exact .after fun _ => .pure (Node.fits_plain rfl rfl rfl rfl)
    · exact .bind (ih.expression false) fun e he => .after fun _ =>
        .pure (Node.fits_plain rfl rfl rfl (by simp [NodeKind.layout, he]))
  refine .ite ?_ ?_
  · refine .after fun _ => .bind ih.parenthesized fun test htest => .bind ih.statement fun c hc =>
      .after fun other => ?_
    split
    · exact .after fun _ => .bind ih.statement fun a ha =>
        .pure (Node.fits_plain rfl rfl rfl (by simp [NodeKind.layout, htest, hc, ha]))
    · have ha : Node.absent.fits .statement := Node.fits_absent rfl
      exact .pure (Node.fits_plain rfl rfl rfl (by simp [NodeKind.layout, htest, hc, ha]))
  refine .ite ?_ ?_
  · exact .after fun _ => .bind ih.parenthesized fun test htest => .bind ih.statement fun body hbody =>
      .pure (Node.fits_plain rfl rfl rfl (by simp [NodeKind.layout, htest, hbody]))
  refine .ite ?_ ?_
  · exact .after fun _ => .bind ih.statement fun body hbody => .after fun _ =>
      .bind ih.parenthesized fun test htest => .after fun _ =>
        .pure (Node.fits_plain rfl rfl rfl (by simp [NodeKind.layout, htest, hbody]))
  refine .ite ?_ ?_
  · exact .after fun _ => .after fun _ => ih.forRest t
  refine .ite ?_ ?_
  · refine .after fun _ => .bind ih.parenthesized fun subject hsubject => .after fun _ =>
      .bind (ih.clauses false) fun cs hcs => .pure (Node.fits_plain rfl rfl ?_ ?_)
    · simpa [NodeKind.regular] using hcs.2
    · simp [NodeKind.layout, hsubject, hcs.1]
  refine .ite ?_ ?_
  · exact .after fun _ => ih.tryRest t
  refine .ite ?_ ?_
  · refine .after fun _ => .after fun l => ?_
    split
    · exact .fail
    · exact .bind (ih.expression false) fun e he => .after fun _ =>
        .pure (Node.fits_plain rfl rfl rfl (by simp [NodeKind.layout, he]))
  refine .ite ?_ ?_
  · exact .after fun _ => jump_fits (.inl rfl) t
  refine .ite ?_ ?_
  · exact .after fun _ => jump_fits (.inr rfl) t
  refine .ite ?_ ?_
  · exact .after fun _ => .bind ih.parenthesized fun subject hsubject => .bind ih.statement fun body hbody =>
      .pure (Node.fits_plain rfl rfl rfl (by simp [NodeKind.layout, hsubject, hbody]))
  · exact .bind (ih.expression false) fun e he => .after fun _ =>
      .pure (Node.fits_plain rfl rfl rfl (by simp [NodeKind.layout, he]))

/-- Where an optional expression may stand: nothing, or an expression. -/
theorem optional_or (ih : Grammatical n) {missing : Bool} {rest : Node → Parser Node}
    (hrest : ∀ e, e.fits .optionalExpression → (rest e).Returns (·.fits .statement)) :
    (if missing then Parser.pure Node.absent >>= rest else Parser.expression n false >>= rest).Returns
      (·.fits .statement) := by
  split
  · exact .bind (.pure (Node.fits_absent rfl)) hrest
  · exact .bind (ih.expression false) fun e he => hrest e (Node.fits_mono he (by simp_all [Part.admits]))

/-- The statement for a loop over keys, when its first part was found fit for that. -/
theorem forIn_fits {t : Token} {init object body : Node} (hinit : init.fits .loopStart)
    (hone : (init.kind == .varStmt && init.children.length != 1) = false)
    (htarget : (init.kind != .varStmt && !isTarget init) = false)
    (hobject : object.fits .expression) (hbody : body.fits .statement) :
    (Node.plain .forInStmt t [init, object, body]).fits .statement := by
  have hfits : init.fits .loopTarget := by
    refine Node.fits_of_admits hinit ?_
    by_cases hv : init.kind = .varStmt
    · simp [hv, Part.admits]
    · have ht : isTarget init := by simpa [hv] using htarget
      simp only [isTarget, Bool.or_eq_true, beq_iff_eq] at ht
      obtain hk | hk := ht <;> simp [hk, Part.admits, NodeKind.isTarget]
  refine Node.fits_plain rfl rfl ?_ (by simp [NodeKind.layout, hfits, hobject, hbody])
  by_cases hv : init.kind = .varStmt <;> simp_all [NodeKind.regular]

theorem forRest_succ (ih : Grammatical n) (t : Token) :
    (Parser.forRest (n + 1) t).Returns (·.fits .statement) := by
  unfold Parser.forRest
  refine .after fun declares => .after fun missing => ?_
  extract_lets rest
  have hrest (init : Node) (hinit : init.fits .loopStart) : (rest init).Returns (·.fits .statement) := by
    refine .after fun overKeys => ?_
    split
    · split
      · exact .fail
      case isFalse hone =>
        split
        · exact .fail
        case isFalse htarget =>
          exact .after fun _ => .bind (ih.expression false) fun object hobject => .after fun _ =>
            .bind ih.statement fun body hbody =>
              .pure (forIn_fits hinit (by simpa using hone) (by simpa using htarget) hobject hbody)
    · refine .after fun _ => .after fun noTest => ih.optional_or fun test htest => ?_
      refine .after fun _ => .after fun noUpdate => ih.optional_or fun update hupdate => ?_
      exact .after fun _ => .bind ih.statement fun body hbody =>
        .pure (Node.fits_plain rfl rfl rfl (by simp [NodeKind.layout, hinit, htest, hupdate, hbody]))
  split
  · exact .bind (ih.varList true) fun v hv =>
      hrest v (Node.fits_of_admits hv.2 (by simp [hv.1, Part.admits]))
  split
  · exact .bind (.pure (Node.fits_absent rfl)) hrest
  · exact .bind (ih.expression true) fun e he => hrest e (Node.fits_mono he (by simp_all [Part.admits]))

theorem clauses_succ (ih : Grammatical n) (seenDefault : Bool) :
    (Parser.clauses (n + 1) seenDefault).Returns fun cs =>
      Node.allFit [] (some .clause) cs ∧
        cs.countP (·.kind == .defaultClause) ≤ (if seenDefault then 0 else 1) := by
  unfold Parser.clauses
  refine .after fun t => ?_
  split
  · exact .after fun _ => .pure ⟨rfl, by simp⟩
  split
  · refine .after fun _ => .bind (ih.expression false) fun test htest => .after fun _ =>
      .bind ih.clauseBody fun body hbody => .bind (ih.clauses seenDefault) fun cs hcs => .pure ⟨?_, ?_⟩
    · have hc : (Node.plain .caseClause t (test :: body)).fits .clause :=
        Node.fits_plain rfl rfl rfl (by simp [NodeKind.layout, htest, hbody])
      simp [hc, hcs.1]
    · simpa [Node.plain, Node.kind] using hcs.2
  split
  · split
    · exact .fail
    · refine .after fun _ => .after fun _ => .bind ih.clauseBody fun body hbody =>
        .bind (ih.clauses true) fun cs hcs => .pure ⟨?_, ?_⟩
      · have hd : (Node.plain .defaultClause t body).fits .clause := Node.fits_plain rfl rfl rfl hbody
        simp [hd, hcs.1]
      · simp_all [Node.plain, Node.kind]
  · exact .fail

theorem clauseBody_succ (ih : Grammatical n) :
    (Parser.clauseBody (n + 1)).Returns (Node.allFit [] (some .statement) ·) := by
  unfold Parser.clauseBody
  refine .after fun t => ?_
  split
  · exact .pure rfl
  split
  · exact .fail
  · exact .bind ih.statement fun s hs => .bind ih.clauseBody fun rest hrest => .pure (by simp [hs, hrest])

theorem tryRest_succ (ih : Grammatical n) (t : Token) :
    (Parser.tryRest (n + 1) t).Returns (·.fits .statement) := by
  unfold Parser.tryRest
  refine .bind ih.block fun body hbody => .after fun caught => ?_
  extract_lets rest
  have hrest (handler : Node) (hhandler : handler.fits .handler) : (rest handler).Returns (·.fits .statement) := by
    refine .after fun ends => ?_
    extract_lets finish
    have hfinish (finalizer : Node) (hfinalizer : finalizer.fits .finalizer) :
        (finish finalizer).Returns (·.fits .statement) := by
      simp only [finish]
      split
      · exact .fail
      case isFalse hsome =>
        refine .pure (Node.fits_plain rfl rfl ?_ (by simp [NodeKind.layout, hbody, hhandler, hfinalizer]))
        cases hempty : handler.isEmpty <;> simp_all [NodeKind.regular]
    split
    · exact .after fun f => .after fun _ => .bind ih.block fun b hb =>
        .bind (.pure (Node.fits_plain rfl rfl rfl (by simp [NodeKind.layout, hb]))) hfinish
    · exact .bind (.pure (Node.fits_absent rfl)) hfinish
  split
  · exact .after fun c => .after fun _ => .after fun _ => .after fun name => .after fun _ =>
      .bind ih.block fun b hb =>
        .bind (.pure (Node.fits_named rfl rfl rfl (by simp [NodeKind.layout, hb]))) hrest
  · exact .bind (.pure (Node.fits_absent rfl)) hrest

theorem expression_succ (ih : Grammatical n) (noIn : Bool) :
    (Parser.expression (n + 1) noIn).Returns (·.fits .expression) := by
  unfold Parser.expression
  refine .after fun t => .bind (ih.assignment noIn) fun e he => .after fun more => ?_
  split
  · exact .bind (ih.commaRest noIn) fun es hes =>
      .pure (Node.fits_plain rfl rfl rfl (by simp [NodeKind.layout, he, hes]))
  · exact .pure he

theorem commaRest_succ (ih : Grammatical n) (noIn : Bool) :
    (Parser.commaRest (n + 1) noIn).Returns (Node.allFit [] (some .expression) ·) := by
  unfold Parser.commaRest
  refine .after fun more => ?_
  split
  · exact .after fun _ => .bind (ih.assignment noIn) fun e he =>
      .bind (ih.commaRest noIn) fun es hes => .pure (by simp [he, hes])
  · exact .pure rfl

theorem assignment_succ (ih : Grammatical n) (noIn : Bool) :
    (Parser.assignment (n + 1) noIn).Returns (·.fits .expression) := by
  unfold Parser.assignment
  refine .bind (ih.conditional noIn) fun left hleft => .after fun t => ?_
  split
  case isTrue hop =>
    split
    · exact .fail
    case isFalse htarget =>
      have htarget := fits_target hleft (by simpa using htarget)
      have hop := carries_of_assignmentOps (Bool.and_eq_true_iff.1 hop).2
      exact .after fun _ => .bind (ih.assignment noIn) fun right hright =>
        .pure (Node.fits_named rfl hop rfl (by simp [NodeKind.layout, htarget, hright]))
  · exact .pure hleft

theorem conditional_succ (ih : Grammatical n) (noIn : Bool) :
    (Parser.conditional (n + 1) noIn).Returns (·.fits .expression) := by
  unfold Parser.conditional
  refine .bind (ih.binary 1 noIn) fun test htest => .after fun t => ?_
  split
  · exact .after fun _ => .bind (ih.assignment false) fun c hc => .after fun _ =>
      .bind (ih.assignment noIn) fun a ha =>
        .pure (Node.fits_plain rfl rfl rfl (by simp [NodeKind.layout, htest, hc, ha]))
  · exact .pure htest

theorem binary_succ (ih : Grammatical n) (least : Nat) (noIn : Bool) :
    (Parser.binary (n + 1) least noIn).Returns (·.fits .expression) := by
  unfold Parser.binary
  exact .bind ih.unary fun left hleft => ih.binaryRest least noIn hleft

theorem binaryRest_succ (ih : Grammatical n) (least : Nat) (noIn : Bool) {left : Node}
    (hleft : left.fits .expression) :
    (Parser.binaryRest (n + 1) least noIn left).Returns (·.fits .expression) := by
  unfold Parser.binaryRest
  refine .after fun t => ?_
  split
  · exact .pure hleft
  case h_2 p hp =>
    split
    · exact .pure hleft
    · refine .after fun _ => .bind (ih.binary (p + 1) noIn) fun right hright => ih.binaryRest least noIn ?_
      have hop := carries_of_precedence (precedence_of_token hp)
      split <;> rename_i hp <;> simp only [hp, if_true, if_false] at hop <;>
        exact Node.fits_named rfl hop rfl (by simp [NodeKind.layout, hleft, hright])

theorem unary_succ (ih : Grammatical n) : (Parser.unary (n + 1)).Returns (·.fits .expression) := by
  unfold Parser.unary
  refine .after fun t => ?_
  split
  case isTrue hop =>
    exact .after fun _ => .bind ih.unary fun e he =>
      .pure (Node.fits_named rfl (carries_of_isUnary hop) rfl (by simp [NodeKind.layout, he]))
  split
  case isTrue hop =>
    refine .after fun _ => .bind ih.unary fun target htarget => ?_
    split
    · exact .fail
    case isFalse ht =>
      have htarget := fits_target htarget (by simpa using ht)
      exact .pure (Node.fits_named rfl (carries_of_isUpdate hop).1 rfl (by simp [NodeKind.layout, htarget]))
  · exact ih.postfixed

theorem postfixed_succ (ih : Grammatical n) : (Parser.postfixed (n + 1)).Returns (·.fits .expression) := by
  unfold Parser.postfixed
  refine .bind ih.callOrMember fun e he => .after fun l => ?_
  split
  case isTrue hop =>
    split
    · exact .fail
    case isFalse ht =>
      have htarget := fits_target he (by simpa using ht)
      have hop := (carries_of_isUpdate (Bool.and_eq_true_iff.1 hop).1).2
      exact .after fun _ => .pure (Node.fits_named rfl hop rfl (by simp [NodeKind.layout, htarget]))
  · exact .pure he

theorem arguments_succ (ih : Grammatical n) :
    (Parser.arguments (n + 1)).Returns (Node.allFit [] (some .expression) ·) := by
  unfold Parser.arguments
  refine .after fun _ => .after fun closed => ?_
  split
  · exact .after fun _ => .pure rfl
  · exact ih.argumentList

theorem argumentList_succ (ih : Grammatical n) :
    (Parser.argumentList (n + 1)).Returns (Node.allFit [] (some .expression) ·) := by
  unfold Parser.argumentList
  refine .bind (ih.assignment false) fun e he => .after fun closed => ?_
  split
  · exact .after fun _ => .pure (by simp [he])
  · exact .after fun _ => .bind ih.argumentList fun es hes => .pure (by simp [he, hes])

theorem construction_succ (ih : Grammatical n) :
    (Parser.construction (n + 1)).Returns (·.fits .expression) := by
  unfold Parser.construction
  refine .after fun t => .after fun nested => ?_
  extract_lets rest
  have hrest (callee : Node) (hcallee : callee.fits .expression) : (rest callee).Returns (·.fits .expression) := by
    refine .after fun given => ?_
    extract_lets finish
    have hfinish (args : List Node) (hargs : Node.allFit [] (some .expression) args) :
        (finish args).Returns (·.fits .expression) :=
      .pure (Node.fits_plain rfl rfl rfl (by simp [NodeKind.layout, hcallee, hargs]))
    split
    · exact .bind ih.arguments hfinish
    · exact .bind (.pure (Node.allFit_nil _)) hfinish
  split
  · exact .bind ih.construction hrest
  · exact .bind ih.primary fun e he => .bind (ih.memberTail false he) hrest

theorem callOrMember_succ (ih : Grammatical n) :
    (Parser.callOrMember (n + 1)).Returns (·.fits .expression) := by
  unfold Parser.callOrMember
  refine .after fun constructs => ?_
  split
  · exact .bind ih.construction fun e he => ih.memberTail true he
  · exact .bind ih.primary fun e he => ih.memberTail true he

theorem memberTail_succ (ih : Grammatical n) (calls : Bool) {e : Node} (he : e.fits .expression) :
    (Parser.memberTail (n + 1) e calls).Returns (·.fits .expression) := by
  unfold Parser.memberTail
  refine .after fun t => ?_
  split
  · exact .bind ih.arguments fun args hargs =>
      ih.memberTail calls (Node.fits_plain rfl rfl rfl (by simp [NodeKind.layout, he, hargs]))
  split
  · refine .after fun _ => .after fun name => ih.memberTail calls ?_
    have hkey : (Node.named .string name.text name []).fits .expression := Node.fits_named rfl rfl rfl rfl
    exact Node.fits_plain rfl rfl rfl (by simp [NodeKind.layout, he, hkey])
  split
  · exact .after fun _ => .bind (ih.expression false) fun key hkey => .after fun _ =>
      ih.memberTail calls (Node.fits_plain rfl rfl rfl (by simp [NodeKind.layout, he, hkey]))
  · exact .pure he

theorem primary_succ (ih : Grammatical n) : (Parser.primary (n + 1)).Returns (·.fits .expression) := by
  unfold Parser.primary
  refine .after fun t => ?_
  split
  · exact .after fun _ => .after fun x => .pure (Node.fits_leaf rfl rfl rfl rfl)
  · exact .after fun _ => .after fun x => .pure (Node.fits_leaf rfl rfl rfl rfl)
  · exact .after fun _ => .pure (Node.fits_leaf rfl rfl rfl rfl)
  · split
    · refine .after fun _ => .after fun named => ?_
      extract_lets rest
      have hrest (name : Text) : (rest name).Returns (·.fits .expression) :=
        .bind ih.functionRest fun f hf =>
          .pure (Node.fits_named rfl rfl rfl (by simp [NodeKind.layout, hf]))
      split
      · exact .after fun name => .after hrest
      · exact .after hrest
    split
    · exact .after fun _ => .pure (Node.fits_leaf rfl rfl rfl rfl)
    split
    · exact .after fun _ => .pure (Node.fits_leaf rfl rfl rfl rfl)
    split
    · exact .after fun _ => .pure (Node.fits_leaf rfl rfl rfl rfl)
    split
    · exact .after fun _ => .pure (Node.fits_leaf rfl rfl rfl rfl)
    split
    · exact .fail
    · exact .after fun _ => .pure (Node.fits_leaf rfl rfl rfl rfl)
  · split
    · exact .after fun _ => .bind (ih.expression false) fun e he => .after fun _ => .pure he
    split
    · exact .after fun _ => .bind ih.elements fun es hes => .pure (Node.fits_plain rfl rfl rfl hes)
    split
    · exact .after fun _ => .bind ih.properties fun ps hps => .pure (Node.fits_plain rfl rfl rfl hps)
    · exact .fail
  · exact .fail
  · exact .fail

theorem elements_succ (ih : Grammatical n) :
    (Parser.elements (n + 1)).Returns (Node.allFit [] (some .element) ·) := by
  unfold Parser.elements
  refine .after fun t => ?_
  split
  · exact .after fun _ => .pure rfl
  split
  · have hhole : (Node.plain .hole t []).fits .element := Node.fits_plain rfl rfl rfl rfl
    exact .after fun _ => .bind ih.elements fun es hes => .pure (by simp [hhole, hes])
  · refine .bind (ih.assignment false) fun e he => .after fun closed => ?_
    extract_lets rest
    have hrest (u : Unit) : (rest u).Returns (Node.allFit [] (some .element) ·) :=
      .bind ih.elements fun es hes =>
        .pure (by simp [hes, Node.fits_mono he (q := .element) (by simp_all [Part.admits])])
    split
    · exact .after hrest
    · exact .after fun _ => hrest ()

theorem properties_succ (ih : Grammatical n) :
    (Parser.properties (n + 1)).Returns (Node.allFit [] (some .property) ·) := by
  unfold Parser.properties
  refine .after fun t => ?_
  split
  · exact .after fun _ => .pure rfl
  · extract_lets rest
    have hrest (key : Text) : (rest key).Returns (Node.allFit [] (some .property) ·) := by
      refine .after fun _ => .after fun _ => .bind (ih.assignment false) fun e he => ?_
      extract_lets p more
      have hp : p.fits .property := Node.fits_named rfl rfl rfl (by simp [NodeKind.layout, he])
      refine .after fun closed => ?_
      have hmore (u : Unit) : (more u).Returns (Node.allFit [] (some .property) ·) :=
        .bind ih.properties fun ps hps => .pure (by simp [hp, hps])
      split
      · exact .after hmore
      · exact .after fun _ => hmore ()
    split
    · exact .after hrest
    · exact .after hrest
    · exact .after fun x => .after hrest
    · exact .after hrest

end Grammatical

theorem grammatical (n : Nat) : Grammatical n := by
  induction n with
  | zero =>
      constructor
      all_goals
        intros
        exact .fail
  | succ n ih =>
      exact {
        programBody := ih.programBody_succ
        statement := ih.statement_succ
        block := ih.block_succ
        blockBody := ih.blockBody_succ
        varList := ih.varList_succ
        declarations := ih.declarations_succ
        functionRest := ih.functionRest_succ
        parameters := ih.parameters_succ
        parenthesized := ih.parenthesized_succ
        forRest := ih.forRest_succ
        clauses := ih.clauses_succ
        clauseBody := ih.clauseBody_succ
        tryRest := ih.tryRest_succ
        expression := ih.expression_succ
        commaRest := ih.commaRest_succ
        assignment := ih.assignment_succ
        conditional := ih.conditional_succ
        binary := ih.binary_succ
        binaryRest := ih.binaryRest_succ
        unary := ih.unary_succ
        postfixed := ih.postfixed_succ
        arguments := ih.arguments_succ
        argumentList := ih.argumentList_succ
        construction := ih.construction_succ
        callOrMember := ih.callOrMember_succ
        memberTail := ih.memberTail_succ
        primary := ih.primary_succ
        elements := ih.elements_succ
        properties := ih.properties_succ }

end Parser

/-- The tree of a source text has the layout of a program. -/
theorem parse_fits {source : Text} {n : Node} (h : parse source = .ok n) : n.fits .program := by
  unfold parse at h
  split at h
  · cases h
  · simp only at h
    split at h
    case h_1 tokens _ _ body rest e =>
      cases h
      exact Node.fits_plain rfl rfl rfl ((Parser.grammatical _).programBody _ _ _ e)
    all_goals cases h

end ScriptEngine
