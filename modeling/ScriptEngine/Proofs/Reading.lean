import ScriptEngine.Proofs.Layout

/-!
# Reading trees that have the layout

A tree with the layout of a program stands for a program: no part of it is missing and every operator is
known. Moreover, what such a program assigns to is a variable or a property, at every place where it assigns,
the bodies of its functions included.

## Main definitions

* `Expr.isTarget`: whether an expression can be assigned to.
* `Expr.targeted`, `Stmt.targeted`: whether everything that is assigned to can be.

## Main results

* `Node.readable`: how every tree is read that can stand at a position.
* `Program.ofNode?_of_fits`, `Program.ofNode?_of_parse`: whole programs.
-/

namespace ScriptEngine

/-- Whether an expression can be assigned to. -/
def Expr.isTarget : Expr → Bool
  | .ident _ => true
  | .member _ _ => true
  | _ => false

mutual

/-- Whether everything that an expression assigns to can be assigned to, nested functions included. -/
def Expr.targeted : Expr → Bool
  | .literal _ => true
  | .regexp _ _ => true
  | .ident _ => true
  | .this => true
  | .array elements => elementsTargeted elements
  | .object properties => propertiesTargeted properties
  | .function _ _ body => stmtsTargeted body
  | .member object key => object.targeted && key.targeted
  | .call callee args => callee.targeted && exprsTargeted args
  | .new callee args => callee.targeted && exprsTargeted args
  | .unary _ operand => operand.targeted
  | .updateBefore _ target => target.isTarget && target.targeted
  | .updateAfter _ target => target.isTarget && target.targeted
  | .binary _ left right => left.targeted && right.targeted
  | .and left right => left.targeted && right.targeted
  | .or left right => left.targeted && right.targeted
  | .assign _ target value => target.isTarget && target.targeted && value.targeted
  | .conditional test consequent alternate => test.targeted && consequent.targeted && alternate.targeted
  | .comma items => exprsTargeted items

/-- Whether everything that expressions assign to can be assigned to. -/
def exprsTargeted : List Expr → Bool
  | [] => true
  | e :: rest => e.targeted && exprsTargeted rest

/-- Whether everything that the elements of an array assign to can be assigned to. -/
def elementsTargeted : List (Option Expr) → Bool
  | [] => true
  | none :: rest => elementsTargeted rest
  | some e :: rest => e.targeted && elementsTargeted rest

/-- Whether everything that the properties of an object assign to can be assigned to. -/
def propertiesTargeted : List (Text × Expr) → Bool
  | [] => true
  | (_, e) :: rest => e.targeted && propertiesTargeted rest

/-- Whether everything that declarations assign to in their first values can be assigned to. -/
def declsTargeted : List (Text × Option Expr) → Bool
  | [] => true
  | (_, none) :: rest => declsTargeted rest
  | (_, some e) :: rest => e.targeted && declsTargeted rest

/-- Whether everything that a statement assigns to can be assigned to, nested functions included. -/
def Stmt.targeted : Stmt → Bool
  | .sequence body => stmtsTargeted body
  | .block body => stmtsTargeted body
  | .empty => true
  | .expr e => e.targeted
  | .var decls => declsTargeted decls
  | .function _ _ body => stmtsTargeted body
  | .ifElse test consequent alternate => test.targeted && consequent.targeted && partTargeted alternate
  | .whileLoop test body => test.targeted && body.targeted
  | .doLoop body test => body.targeted && test.targeted
  | .forVar decls test update body =>
    declsTargeted decls && optionalTargeted test && optionalTargeted update && body.targeted
  | .forExpr init test update body =>
    optionalTargeted init && optionalTargeted test && optionalTargeted update && body.targeted
  | .forInVar decls object body => declsTargeted decls && object.targeted && body.targeted
  | .forIn target object body => target.isTarget && target.targeted && object.targeted && body.targeted
  | .switch subject clauses => subject.targeted && clausesTargeted clauses
  | .tryCatch body handler finalizer => body.targeted && handlerTargeted handler && partTargeted finalizer
  | .throws e => e.targeted
  | .returns e => optionalTargeted e
  | .breaks _ => true
  | .continues _ => true
  | .labelled _ body => body.targeted
  | .within object body => object.targeted && body.targeted

/-- Whether everything that an optional expression assigns to can be assigned to. -/
def optionalTargeted : Option Expr → Bool
  | none => true
  | some e => e.targeted

/-- Whether everything that an optional statement assigns to can be assigned to. -/
def partTargeted : Option Stmt → Bool
  | none => true
  | some s => s.targeted

/-- Whether everything that an optional handler assigns to can be assigned to. -/
def handlerTargeted : Option (Text × Stmt) → Bool
  | none => true
  | some (_, s) => s.targeted

/-- Whether everything that statements assign to can be assigned to. -/
def stmtsTargeted : List Stmt → Bool
  | [] => true
  | s :: rest => s.targeted && stmtsTargeted rest

/-- Whether everything that the clauses of a `switch` assign to can be assigned to. -/
def clausesTargeted : List Clause → Bool
  | [] => true
  | .case test body :: rest => test.targeted && stmtsTargeted body && clausesTargeted rest
  | .default body :: rest => stmtsTargeted body && clausesTargeted rest

end

namespace Node

open Program

/-- How a tree is read wherever it can stand. A declaration, a property and a clause are read in front of
others of their sort. -/
structure Readable (n : Node) : Prop where
  expression : n.fits .expression → ∃ e, expr? n = some e ∧ e.targeted ∧ (n.kind.isTarget → e.isTarget)
  statement : n.fits .statement → ∃ s, stmt? n = some s ∧ s.targeted
  body : n.fits .block → ∃ body, stmts? n.children = some body ∧ stmtsTargeted body
  varDeclarations : n.kind = .varStmt → n.fits .statement →
    ∃ ds, varDeclarations? n = some ds ∧ declsTargeted ds
  handler : n.fits .handler → ∃ h, handler? n = some h ∧ handlerTargeted h
  finalizer : n.fits .finalizer → ∃ f, finalizer? n = some f ∧ partTargeted f
  declaration : n.fits .declaration → ∀ rest ds, declarations? rest = some ds → declsTargeted ds →
    ∃ d, declarations? (n :: rest) = some (d :: ds) ∧ declsTargeted (d :: ds)
  property : n.fits .property → ∀ rest ps, properties? rest = some ps → propertiesTargeted ps →
    ∃ p, properties? (n :: rest) = some (p :: ps) ∧ propertiesTargeted (p :: ps)
  clause : n.fits .clause → ∀ rest cs, clauses? rest = some cs → clausesTargeted cs →
    ∃ c, clauses? (n :: rest) = some (c :: cs) ∧ clausesTargeted (c :: cs)

variable {n : Node} {children : List Node}

/-- Trees of one sort are read one by one. -/
theorem readAll {p : Part} {β : Type} {read : List Node → Option (List β)} {T : List β → Prop}
    (hnil : read [] = some []) (hT : T [])
    (hcons : ∀ n ∈ children, n.fits p → ∀ rest bs, read rest = some bs → T bs →
      ∃ b, read (n :: rest) = some (b :: bs) ∧ T (b :: bs))
    (h : allFit [] (some p) children) : ∃ bs, read children = some bs ∧ T bs := by
  induction children with
  | nil => exact ⟨[], hnil, hT⟩
  | cons n rest ih =>
      simp only [allFit_more, Bool.and_eq_true] at h
      obtain ⟨bs, hbs, hT⟩ := ih (fun m hm => hcons m (List.mem_cons_of_mem n hm)) h.2
      obtain ⟨b, hb, hT⟩ := hcons n List.mem_cons_self h.1 rest bs hbs hT
      exact ⟨b :: bs, hb, hT⟩

section Lists

variable (ih : ∀ n ∈ children, n.Readable)
include ih

theorem exprs_of_allFit (h : allFit [] (some .expression) children) :
    ∃ es, exprs? children = some es ∧ exprsTargeted es := by
  refine readAll (by simp [exprs?]) (by simp [exprsTargeted]) (fun n hn hfits rest es hes hT => ?_) h
  obtain ⟨e, he, ht, -⟩ := (ih n hn).expression hfits
  exact ⟨e, by simp [exprs?, he, hes], by simp [exprsTargeted, ht, hT]⟩

theorem elements_of_allFit (h : allFit [] (some .element) children) :
    ∃ es, elements? children = some es ∧ elementsTargeted es := by
  refine readAll (by simp [elements?]) (by simp [elementsTargeted]) (fun n hn hfits rest es hes hT => ?_) h
  by_cases hhole : n.kind = .hole
  · exact ⟨none, by simp [elements?, hhole, hes], by simp [elementsTargeted, hT]⟩
  · have hexpr : n.fits .expression :=
      fits_of_admits hfits (by simpa [Part.admits, hhole] using admits_of_fits hfits)
    obtain ⟨e, he, ht, -⟩ := (ih n hn).expression hexpr
    exact ⟨some e, by simp [elements?, hhole, he, hes], by simp [elementsTargeted, ht, hT]⟩

theorem properties_of_allFit (h : allFit [] (some .property) children) :
    ∃ ps, properties? children = some ps ∧ propertiesTargeted ps :=
  readAll (by simp [properties?]) (by simp [propertiesTargeted]) (fun n hn => (ih n hn).property) h

theorem declarations_of_allFit (h : allFit [] (some .declaration) children) :
    ∃ ds, declarations? children = some ds ∧ declsTargeted ds :=
  readAll (by simp [declarations?]) (by simp [declsTargeted]) (fun n hn => (ih n hn).declaration) h

theorem stmts_of_allFit (h : allFit [] (some .statement) children) :
    ∃ ss, stmts? children = some ss ∧ stmtsTargeted ss := by
  refine readAll (by simp [stmts?]) (by simp [stmtsTargeted]) (fun n hn hfits rest ss hss hT => ?_) h
  obtain ⟨s, hs, ht⟩ := (ih n hn).statement hfits
  exact ⟨s, by simp [stmts?, hs, hss], by simp [stmtsTargeted, ht, hT]⟩

theorem clauses_of_allFit (h : allFit [] (some .clause) children) :
    ∃ cs, clauses? children = some cs ∧ clausesTargeted cs :=
  readAll (by simp [clauses?]) (by simp [clausesTargeted]) (fun n hn => (ih n hn).clause) h

end Lists

/-- How an optional expression is read. -/
theorem Readable.optional (hn : n.Readable) (h : n.fits .optionalExpression) :
    ∃ e, Program.optional n (expr? n) = some e ∧ optionalTargeted e := by
  by_cases hempty : n.isEmpty
  · exact ⟨none, by simp [Program.optional, hempty], by simp [optionalTargeted]⟩
  · have hkind : n.kind ≠ .empty := by simpa [isEmpty] using hempty
    have hexpr : n.fits .expression :=
      fits_of_admits h (by simpa [Part.admits, hkind] using admits_of_fits h)
    obtain ⟨e, he, ht, -⟩ := hn.expression hexpr
    exact ⟨some e, by simp [Program.optional, hempty, he], by simpa [optionalTargeted] using ht⟩

theorem Readable.target (hn : n.Readable) (h : n.fits .target) :
    ∃ e, expr? n = some e ∧ e.targeted ∧ e.isTarget := by
  have hkind : n.kind.isTarget := admits_of_fits h
  have hexpr : n.fits .expression := by
    refine fits_of_admits h ?_
    cases hk : n.kind <;> simp_all [Part.admits, NodeKind.isTarget, NodeKind.isExpression]
  obtain ⟨e, he, ht, htarget⟩ := hn.expression hexpr
  exact ⟨e, he, ht, htarget hkind⟩

/-- How the other branch of an `if` statement is read: a place holder stands for none. -/
theorem Readable.part (hn : n.Readable) (h : n.fits .statement) :
    ∃ s, Program.optional n (stmt? n) = some s ∧ partTargeted s := by
  by_cases hempty : n.isEmpty
  · exact ⟨none, by simp [Program.optional, hempty], by simp [partTargeted]⟩
  · obtain ⟨s, hs, ht⟩ := hn.statement h
    exact ⟨some s, by simp [Program.optional, hempty, hs], by simpa [partTargeted] using ht⟩

theorem allFit_cons_inv {p : Part} {parts : List Part} {more : Option Part}
    (h : allFit (p :: parts) more children) :
    ∃ n rest, children = n :: rest ∧ n.fits p ∧ allFit parts more rest := by
  cases children with
  | nil => simp [allFit] at h
  | cons n rest => exact ⟨n, rest, rfl, by simpa using h⟩

theorem allFit_none_inv (h : allFit [] none children) : children = [] := by
  cases children with
  | nil => rfl
  | cons n rest => simp [allFit] at h

section Step

variable {parts : List Part} {more : Option Part} (ih : ∀ n ∈ children, n.Readable)
include ih

/-- Reads the first of several parts, when it is an expression; what is known of the others stays. -/
theorem expression_first (h : allFit (.expression :: parts) more children) :
    ∃ n rest e, children = n :: rest ∧ expr? n = some e ∧ e.targeted ∧ (∀ m ∈ rest, m.Readable) ∧
      allFit parts more rest := by
  obtain ⟨n, rest, rfl, hn, h⟩ := allFit_cons_inv h
  obtain ⟨e, he, ht, -⟩ := (ih n List.mem_cons_self).expression hn
  exact ⟨n, rest, e, rfl, he, ht, fun m hm => ih m (List.mem_cons_of_mem n hm), h⟩

theorem target_first (h : allFit (.target :: parts) more children) :
    ∃ n rest e, children = n :: rest ∧ expr? n = some e ∧ e.targeted ∧ e.isTarget ∧
      (∀ m ∈ rest, m.Readable) ∧ allFit parts more rest := by
  obtain ⟨n, rest, rfl, hn, h⟩ := allFit_cons_inv h
  obtain ⟨e, he, ht, htarget⟩ := (ih n List.mem_cons_self).target hn
  exact ⟨n, rest, e, rfl, he, ht, htarget, fun m hm => ih m (List.mem_cons_of_mem n hm), h⟩

theorem optional_first (h : allFit (.optionalExpression :: parts) more children) :
    ∃ n rest e, children = n :: rest ∧ Program.optional n (expr? n) = some e ∧ optionalTargeted e ∧
      (∀ m ∈ rest, m.Readable) ∧ allFit parts more rest := by
  obtain ⟨n, rest, rfl, hn, h⟩ := allFit_cons_inv h
  obtain ⟨e, he, ht⟩ := (ih n List.mem_cons_self).optional hn
  exact ⟨n, rest, e, rfl, he, ht, fun m hm => ih m (List.mem_cons_of_mem n hm), h⟩

theorem statement_first (h : allFit (.statement :: parts) more children) :
    ∃ n rest s, children = n :: rest ∧ stmt? n = some s ∧ s.targeted ∧ (∀ m ∈ rest, m.Readable) ∧
      allFit parts more rest := by
  obtain ⟨n, rest, rfl, hn, h⟩ := allFit_cons_inv h
  obtain ⟨s, hs, ht⟩ := (ih n List.mem_cons_self).statement hn
  exact ⟨n, rest, s, rfl, hs, ht, fun m hm => ih m (List.mem_cons_of_mem n hm), h⟩

theorem block_first (h : allFit (.block :: parts) more children) :
    ∃ n rest s, children = n :: rest ∧ stmt? n = some s ∧ s.targeted ∧ (∀ m ∈ rest, m.Readable) ∧
      allFit parts more rest := by
  obtain ⟨n, rest, rfl, hn, h⟩ := allFit_cons_inv h
  have hstatement := fits_mono (q := .statement) hn (by simp_all [Part.admits, NodeKind.isStatement])
  obtain ⟨s, hs, ht⟩ := (ih n List.mem_cons_self).statement hstatement
  exact ⟨n, rest, s, rfl, hs, ht, fun m hm => ih m (List.mem_cons_of_mem n hm), h⟩

/-- The parameters and the statements of a function. -/
theorem function_parts (h : allFit [.params, .block] none children) :
    ∃ params kind payload mark statements body, children = [params, mk kind payload mark statements] ∧
      stmts? statements = some body ∧ stmtsTargeted body := by
  obtain ⟨params, _, rfl, -, h⟩ := allFit_cons_inv h
  obtain ⟨block, _, rfl, hblock, h⟩ := allFit_cons_inv h
  obtain rfl := allFit_none_inv h
  obtain ⟨body, hbody, ht⟩ := (ih block (by simp)).body hblock
  obtain ⟨kind, payload, mark, statements⟩ := block
  exact ⟨params, kind, payload, mark, statements, body, rfl, hbody, ht⟩

variable {kind : NodeKind} {payload : Payload} {mark : Mark}

theorem expression_of_children (h : (mk kind payload mark children).fits .expression) :
    ∃ e, expr? (mk kind payload mark children) = some e ∧ e.targeted ∧ (kind.isTarget → e.isTarget) := by
  simp only [fits, Bool.and_eq_true] at h
  obtain ⟨⟨⟨hkind, hpayload⟩, -⟩, h⟩ := h
  cases kind with
  | number => exact ⟨_, rfl, by simp [Expr.targeted], by simp [NodeKind.isTarget]⟩
  | string => exact ⟨_, rfl, by simp [Expr.targeted], by simp [NodeKind.isTarget]⟩
  | boolean => exact ⟨_, rfl, by simp [Expr.targeted], by simp [NodeKind.isTarget]⟩
  | null => exact ⟨_, rfl, by simp [Expr.targeted], by simp [NodeKind.isTarget]⟩
  | ident => exact ⟨_, rfl, by simp [Expr.targeted], by simp [Expr.isTarget]⟩
  | this => exact ⟨_, rfl, by simp [Expr.targeted], by simp [NodeKind.isTarget]⟩
  | regexp =>
      cases payload with
      | pattern source flags => exact ⟨_, rfl, by simp [Expr.targeted], by simp [NodeKind.isTarget]⟩
      | _ => simp [NodeKind.carries] at hpayload
  | array =>
      obtain ⟨es, hes, ht⟩ := elements_of_allFit ih h
      exact ⟨.array es, by simp [expr?, hes], by simpa [Expr.targeted] using ht, by simp [NodeKind.isTarget]⟩
  | object =>
      obtain ⟨ps, hps, ht⟩ := properties_of_allFit ih h
      exact ⟨.object ps, by simp [expr?, hps], by simpa [Expr.targeted] using ht, by simp [NodeKind.isTarget]⟩
  | functionExpr =>
      obtain ⟨params, k, p, m, statements, ss, rfl, hss, ht⟩ := function_parts ih h
      exact ⟨_, by simpa [expr?] using ⟨ss, hss, rfl⟩, by simpa [Expr.targeted] using ht,
        by simp [NodeKind.isTarget]⟩
  | member =>
      obtain ⟨o, _, eo, rfl, heo, hto, ih, h⟩ := expression_first ih h
      obtain ⟨k, _, ek, rfl, hek, htk, ih, h⟩ := expression_first ih h
      obtain rfl := allFit_none_inv h
      exact ⟨.member eo ek, by simp [expr?, heo, hek], by simp [Expr.targeted, hto, htk], by simp [Expr.isTarget]⟩
  | call =>
      obtain ⟨f, args, ef, rfl, hef, htf, ih, h⟩ := expression_first ih h
      obtain ⟨es, hes, ht⟩ := exprs_of_allFit ih h
      exact ⟨.call ef es, by simp [expr?, hef, hes], by simp [Expr.targeted, htf, ht], by simp [NodeKind.isTarget]⟩
  | new =>
      obtain ⟨f, args, ef, rfl, hef, htf, ih, h⟩ := expression_first ih h
      obtain ⟨es, hes, ht⟩ := exprs_of_allFit ih h
      exact ⟨.new ef es, by simp [expr?, hef, hes], by simp [Expr.targeted, htf, ht], by simp [NodeKind.isTarget]⟩
  | unary =>
      obtain ⟨o, _, e, rfl, he, ht, ih, h⟩ := expression_first ih h
      obtain rfl := allFit_none_inv h
      cases payload with
      | text op =>
          obtain ⟨u, hu⟩ := Option.isSome_iff_exists.1 hpayload
          exact ⟨.unary u e, by simp [expr?, nameOf, hu, he], by simp [Expr.targeted, ht], by simp [NodeKind.isTarget]⟩
      | _ => simp [NodeKind.carries] at hpayload
  | prefixOp =>
      obtain ⟨o, _, e, rfl, he, ht, htarget, ih, h⟩ := target_first ih h
      obtain rfl := allFit_none_inv h
      exact ⟨.updateBefore (nameOf payload != Text.ofString "++") e, by simp [expr?, he],
        by simp [Expr.targeted, ht, htarget], by simp [NodeKind.isTarget]⟩
  | postfixOp =>
      obtain ⟨o, _, e, rfl, he, ht, htarget, ih, h⟩ := target_first ih h
      obtain rfl := allFit_none_inv h
      exact ⟨.updateAfter (nameOf payload != Text.ofString "++") e, by simp [expr?, he],
        by simp [Expr.targeted, ht, htarget], by simp [NodeKind.isTarget]⟩
  | binary =>
      obtain ⟨l, _, el, rfl, hel, htl, ih, h⟩ := expression_first ih h
      obtain ⟨r, _, er, rfl, her, htr, ih, h⟩ := expression_first ih h
      obtain rfl := allFit_none_inv h
      cases payload with
      | text op =>
          obtain ⟨b, hb⟩ := Option.isSome_iff_exists.1 hpayload
          exact ⟨.binary b el er, by simp [expr?, nameOf, hb, hel, her], by simp [Expr.targeted, htl, htr],
            by simp [NodeKind.isTarget]⟩
      | _ => simp [NodeKind.carries] at hpayload
  | logical =>
      obtain ⟨l, _, el, rfl, hel, htl, ih, h⟩ := expression_first ih h
      obtain ⟨r, _, er, rfl, her, htr, ih, h⟩ := expression_first ih h
      obtain rfl := allFit_none_inv h
      by_cases hop : nameOf payload = Text.ofString "&&"
      · exact ⟨.and el er, by simp [expr?, hop, hel, her], by simp [Expr.targeted, htl, htr],
          by simp [NodeKind.isTarget]⟩
      · exact ⟨.or el er, by simp [expr?, hop, hel, her], by simp [Expr.targeted, htl, htr],
          by simp [NodeKind.isTarget]⟩
  | assign =>
      obtain ⟨l, _, el, rfl, hel, htl, htarget, ih, h⟩ := target_first ih h
      obtain ⟨r, _, er, rfl, her, htr, ih, h⟩ := expression_first ih h
      obtain rfl := allFit_none_inv h
      cases payload with
      | text op =>
          obtain ⟨b, hb⟩ := Option.isSome_iff_exists.1 hpayload
          exact ⟨.assign b el er, by simp [expr?, nameOf, hb, hel, her],
            by simp [Expr.targeted, htl, htr, htarget], by simp [NodeKind.isTarget]⟩
      | _ => simp [NodeKind.carries] at hpayload
  | conditional =>
      obtain ⟨t, _, et, rfl, het, htt, ih, h⟩ := expression_first ih h
      obtain ⟨c, _, ec, rfl, hec, htc, ih, h⟩ := expression_first ih h
      obtain ⟨a, _, ea, rfl, hea, hta, ih, h⟩ := expression_first ih h
      obtain rfl := allFit_none_inv h
      exact ⟨.conditional et ec ea, by simp [expr?, het, hec, hea], by simp [Expr.targeted, htt, htc, hta],
        by simp [NodeKind.isTarget]⟩
  | comma =>
      obtain ⟨es, hes, ht⟩ := exprs_of_allFit ih h
      exact ⟨.comma es, by simp [expr?, hes], by simpa [Expr.targeted] using ht, by simp [NodeKind.isTarget]⟩
  | _ => simp [Part.admits, NodeKind.isExpression] at hkind

theorem statement_of_children (h : (mk kind payload mark children).fits .statement) :
    ∃ s, stmt? (mk kind payload mark children) = some s ∧ s.targeted := by
  simp only [fits, Bool.and_eq_true] at h
  obtain ⟨⟨⟨hkind, hpayload⟩, hregular⟩, h⟩ := h
  cases kind with
  | block =>
      obtain ⟨ss, hss, ht⟩ := stmts_of_allFit ih h
      exact ⟨.block ss, by simp [stmt?, hss], by simpa [Stmt.targeted] using ht⟩
  | empty => exact ⟨.empty, rfl, by simp [Stmt.targeted]⟩
  | breakStmt => exact ⟨.breaks (labelOf? payload), rfl, by simp [Stmt.targeted]⟩
  | continueStmt => exact ⟨.continues (labelOf? payload), rfl, by simp [Stmt.targeted]⟩
  | expr =>
      obtain ⟨n, _, e, rfl, he, ht, -, h⟩ := expression_first ih h
      obtain rfl := allFit_none_inv h
      exact ⟨.expr e, by simp [stmt?, he], by simpa [Stmt.targeted] using ht⟩
  | throwStmt =>
      obtain ⟨n, _, e, rfl, he, ht, -, h⟩ := expression_first ih h
      obtain rfl := allFit_none_inv h
      exact ⟨.throws e, by simp [stmt?, he], by simpa [Stmt.targeted] using ht⟩
  | varStmt =>
      obtain ⟨ds, hds, ht⟩ := declarations_of_allFit ih h
      exact ⟨.var ds, by simp [stmt?, hds], by simpa [Stmt.targeted] using ht⟩
  | functionStmt =>
      obtain ⟨params, k, p, m, statements, ss, rfl, hss, ht⟩ := function_parts ih h
      exact ⟨_, by simpa [stmt?] using ⟨ss, hss, rfl⟩, by simpa [Stmt.targeted] using ht⟩
  | ifStmt =>
      obtain ⟨t, _, et, rfl, het, htt, ih, h⟩ := expression_first ih h
      obtain ⟨c, _, sc, rfl, hsc, htc, ih, h⟩ := statement_first ih h
      obtain ⟨a, _, rfl, ha, h⟩ := allFit_cons_inv h
      obtain rfl := allFit_none_inv h
      obtain ⟨sa, hsa, hta⟩ := (ih a (by simp)).part ha
      exact ⟨.ifElse et sc sa, by simp [stmt?, het, hsc, hsa], by simp [Stmt.targeted, htt, htc, hta]⟩
  | whileStmt =>
      obtain ⟨t, _, et, rfl, het, htt, ih, h⟩ := expression_first ih h
      obtain ⟨b, _, sb, rfl, hsb, htb, ih, h⟩ := statement_first ih h
      obtain rfl := allFit_none_inv h
      exact ⟨.whileLoop et sb, by simp [stmt?, het, hsb], by simp [Stmt.targeted, htt, htb]⟩
  | doStmt =>
      obtain ⟨b, _, sb, rfl, hsb, htb, ih, h⟩ := statement_first ih h
      obtain ⟨t, _, et, rfl, het, htt, ih, h⟩ := expression_first ih h
      obtain rfl := allFit_none_inv h
      exact ⟨.doLoop sb et, by simp [stmt?, het, hsb], by simp [Stmt.targeted, htt, htb]⟩
  | forStmt =>
      obtain ⟨i, _, rfl, hi, h⟩ := allFit_cons_inv h
      have hir := ih i List.mem_cons_self
      obtain ⟨t, _, et, rfl, het, htt, ih, h⟩ := optional_first (fun m hm => ih m (List.mem_cons_of_mem i hm)) h
      obtain ⟨u, _, eu, rfl, heu, htu, ih, h⟩ := optional_first ih h
      obtain ⟨b, _, sb, rfl, hsb, htb, ih, h⟩ := statement_first ih h
      obtain rfl := allFit_none_inv h
      by_cases hvar : i.kind = .varStmt
      · obtain ⟨ds, hds, htd⟩ :=
          hir.varDeclarations hvar (fits_of_admits hi (by simp [hvar, Part.admits, NodeKind.isStatement]))
        exact ⟨.forVar ds et eu sb, by simp [stmt?, hvar, hds, het, heu, hsb],
          by simp [Stmt.targeted, htd, htt, htu, htb]⟩
      · obtain ⟨ei, hei, hti⟩ := hir.optional
          (fits_of_admits hi (by simpa [Part.admits, hvar] using admits_of_fits hi))
        exact ⟨.forExpr ei et eu sb, by simp [stmt?, hvar, hei, het, heu, hsb],
          by simp [Stmt.targeted, hti, htt, htu, htb]⟩
  | forInStmt =>
      obtain ⟨i, _, rfl, hi, h⟩ := allFit_cons_inv h
      have hir := ih i List.mem_cons_self
      obtain ⟨o, _, eo, rfl, heo, hto, ih, h⟩ := expression_first (fun m hm => ih m (List.mem_cons_of_mem i hm)) h
      obtain ⟨b, _, sb, rfl, hsb, htb, ih, h⟩ := statement_first ih h
      obtain rfl := allFit_none_inv h
      by_cases hvar : i.kind = .varStmt
      · obtain ⟨ds, hds, htd⟩ :=
          hir.varDeclarations hvar (fits_of_admits hi (by simp [hvar, Part.admits, NodeKind.isStatement]))
        exact ⟨.forInVar ds eo sb, by simp [stmt?, hvar, hds, heo, hsb], by simp [Stmt.targeted, htd, hto, htb]⟩
      · obtain ⟨ei, hei, hti, htarget⟩ := hir.target
          (fits_of_admits hi (by simpa [Part.admits, hvar] using admits_of_fits hi))
        exact ⟨.forIn ei eo sb, by simp [stmt?, hvar, hei, heo, hsb],
          by simp [Stmt.targeted, hti, htarget, hto, htb]⟩
  | switchStmt =>
      obtain ⟨d, _, ed, rfl, hed, htd, ih, h⟩ := expression_first ih h
      obtain ⟨cs, hcs, ht⟩ := clauses_of_allFit ih h
      exact ⟨.switch ed cs, by simp [stmt?, hed, hcs], by simp [Stmt.targeted, htd, ht]⟩
  | tryStmt =>
      obtain ⟨b, _, sb, rfl, hsb, htb, ih, h⟩ := block_first ih h
      obtain ⟨c, _, rfl, hc, h⟩ := allFit_cons_inv h
      obtain ⟨f, _, rfl, hf, h⟩ := allFit_cons_inv h
      obtain rfl := allFit_none_inv h
      obtain ⟨sc, hsc, htc⟩ := (ih c (by simp)).handler hc
      obtain ⟨sf, hsf, htf⟩ := (ih f (by simp)).finalizer hf
      exact ⟨.tryCatch sb sc sf, by simp [stmt?, hsb, hsc, hsf], by simp [Stmt.targeted, htb, htc, htf]⟩
  | returnStmt =>
      cases children with
      | nil => exact ⟨.returns none, rfl, by simp [Stmt.targeted, optionalTargeted]⟩
      | cons n rest =>
          simp only [NodeKind.layout, allFit_more, Bool.and_eq_true] at h
          obtain ⟨e, he, ht, -⟩ := (ih n List.mem_cons_self).expression h.1
          exact ⟨.returns (some e), by simp [stmt?, he], by simpa [Stmt.targeted, optionalTargeted] using ht⟩
  | labelStmt =>
      obtain ⟨b, _, sb, rfl, hsb, htb, ih, h⟩ := statement_first ih h
      obtain rfl := allFit_none_inv h
      exact ⟨.labelled (nameOf payload) sb, by simp [stmt?, hsb], by simpa [Stmt.targeted] using htb⟩
  | withStmt =>
      obtain ⟨o, _, eo, rfl, heo, hto, ih, h⟩ := expression_first ih h
      obtain ⟨b, _, sb, rfl, hsb, htb, ih, h⟩ := statement_first ih h
      obtain rfl := allFit_none_inv h
      exact ⟨.within eo sb, by simp [stmt?, heo, hsb], by simp [Stmt.targeted, hto, htb]⟩
  | _ => simp [Part.admits, NodeKind.isStatement] at hkind

theorem handler_of_children (h : (mk kind payload mark children).fits .handler) :
    ∃ r, handler? (mk kind payload mark children) = some r ∧ handlerTargeted r := by
  simp only [fits, Bool.and_eq_true] at h
  obtain ⟨⟨⟨hkind, -⟩, -⟩, h⟩ := h
  by_cases hempty : kind = .empty
  · subst hempty
    exact ⟨none, by simp [handler?], by simp [handlerTargeted]⟩
  · obtain rfl : kind = .catchClause := by simpa [Part.admits, hempty] using hkind
    obtain ⟨b, _, sb, rfl, hsb, htb, -, h⟩ := block_first ih h
    obtain rfl := allFit_none_inv h
    exact ⟨some (nameOf payload, sb), by simp [handler?, hsb], by simpa [handlerTargeted] using htb⟩

theorem finalizer_of_children (h : (mk kind payload mark children).fits .finalizer) :
    ∃ r, finalizer? (mk kind payload mark children) = some r ∧ partTargeted r := by
  simp only [fits, Bool.and_eq_true] at h
  obtain ⟨⟨⟨hkind, -⟩, -⟩, h⟩ := h
  by_cases hempty : kind = .empty
  · subst hempty
    exact ⟨none, by simp [finalizer?], by simp [partTargeted]⟩
  · obtain rfl : kind = .finallyClause := by simpa [Part.admits, hempty] using hkind
    obtain ⟨b, _, sb, rfl, hsb, htb, -, h⟩ := block_first ih h
    obtain rfl := allFit_none_inv h
    exact ⟨some sb, by simp [finalizer?, hsb], by simpa [partTargeted] using htb⟩

theorem declaration_of_children (h : (mk kind payload mark children).fits .declaration) (rest : List Node)
    (ds : List (Text × Option Expr)) (hds : declarations? rest = some ds) (ht : declsTargeted ds) :
    ∃ d, declarations? (mk kind payload mark children :: rest) = some (d :: ds) ∧ declsTargeted (d :: ds) := by
  simp only [fits, Bool.and_eq_true] at h
  obtain ⟨⟨⟨hkind, -⟩, -⟩, h⟩ := h
  obtain rfl : kind = .decl := by simpa [Part.admits] using hkind
  obtain ⟨i, _, e, rfl, he, hte, -, h⟩ := optional_first ih h
  obtain rfl := allFit_none_inv h
  refine ⟨(nameOf payload, e), by simp [declarations?, he, hds], ?_⟩
  cases e with
  | none => simpa [declsTargeted] using ht
  | some e => simpa [declsTargeted, optionalTargeted, ht] using hte

theorem property_of_children (h : (mk kind payload mark children).fits .property) (rest : List Node)
    (ps : List (Text × Expr)) (hps : properties? rest = some ps) (ht : propertiesTargeted ps) :
    ∃ p, properties? (mk kind payload mark children :: rest) = some (p :: ps) ∧
      propertiesTargeted (p :: ps) := by
  simp only [fits, Bool.and_eq_true] at h
  obtain ⟨⟨⟨hkind, -⟩, -⟩, h⟩ := h
  obtain rfl : kind = .property := by simpa [Part.admits] using hkind
  obtain ⟨i, _, e, rfl, he, hte, -, h⟩ := expression_first ih h
  obtain rfl := allFit_none_inv h
  exact ⟨(nameOf payload, e), by simp [properties?, he, hps], by simp [propertiesTargeted, hte, ht]⟩

theorem clause_of_children (h : (mk kind payload mark children).fits .clause) (rest : List Node)
    (cs : List Clause) (hcs : clauses? rest = some cs) (ht : clausesTargeted cs) :
    ∃ c, clauses? (mk kind payload mark children :: rest) = some (c :: cs) ∧ clausesTargeted (c :: cs) := by
  simp only [fits, Bool.and_eq_true] at h
  obtain ⟨⟨⟨hkind, -⟩, -⟩, h⟩ := h
  by_cases hcase : kind = .caseClause
  · subst hcase
    obtain ⟨t, _, et, rfl, het, htt, ih, h⟩ := expression_first ih h
    obtain ⟨ss, hss, hts⟩ := stmts_of_allFit ih h
    exact ⟨.case et ss, by simp [clauses?, het, hss, hcs], by simp [clausesTargeted, htt, hts, ht]⟩
  · obtain rfl : kind = .defaultClause := by simpa [Part.admits, hcase] using hkind
    obtain ⟨ss, hss, hts⟩ := stmts_of_allFit ih h
    exact ⟨.default ss, by simp [clauses?, hss, hcs], by simp [clausesTargeted, hts, ht]⟩

/-- A tree whose children can be read can be read. -/
theorem readable_mk : (mk kind payload mark children).Readable where
  expression := expression_of_children ih
  statement := statement_of_children ih
  body h := by
    simp only [fits, Bool.and_eq_true] at h
    obtain rfl : kind = .block := by simpa [Part.admits] using h.1.1.1
    exact stmts_of_allFit ih h.2
  varDeclarations hkind h := by
    obtain rfl : kind = .varStmt := hkind
    simp only [fits, Bool.and_eq_true] at h
    simpa only [varDeclarations?] using declarations_of_allFit ih h.2
  handler := handler_of_children ih
  finalizer := finalizer_of_children ih
  declaration := declaration_of_children ih
  property := property_of_children ih
  clause := clause_of_children ih

end Step

/-- Every tree can be read wherever it can stand. -/
theorem readable : (n : Node) → n.Readable := by
  -- The induction is on the tree and on the list of its children at once.
  refine @Node.rec (·.Readable) (fun children => ∀ n ∈ children, n.Readable) ?_ ?_ ?_
  · exact fun kind payload mark children ih => readable_mk ih
  · exact fun n hn => nomatch hn
  · intro n rest hn hrest m hm
    cases hm with
    | head => exact hn
    | tail _ hm => exact hrest m hm

end Node

/-- A tree with the layout of a program stands for a program, and what that assigns to can be assigned to. -/
theorem Program.ofNode?_of_fits {n : Node} (h : n.fits .program) :
    ∃ p, Program.ofNode? n = some p ∧ stmtsTargeted p := by
  obtain ⟨kind, payload, mark, children⟩ := n
  simp only [Node.fits, Bool.and_eq_true] at h
  obtain rfl : kind = .program := by simpa [Part.admits] using h.1.1.1
  exact Node.stmts_of_allFit (fun n _ => n.readable) h.2

/-- The tree of a source text stands for a program. -/
theorem Program.ofNode?_of_parse {source : Text} {n : Node} (h : parse source = .ok n) :
    ∃ p, Program.ofNode? n = some p ∧ stmtsTargeted p :=
  Program.ofNode?_of_fits (parse_fits h)

end ScriptEngine
