import Mathlib
import ScriptEngine.Proofs.Holes
import ScriptEngine.Proofs.NumberText
import ScriptEngine.Proofs.Precedence

/-!
# Numbers as keys

A number that is an array index becomes a key without being written, and every other number becomes the key of its text.
That is the same key in either case, since an index is written in full and a text that spells an index is its key. So a
property of an object literal named by a numeral, an access with a number and an access with its text all come to one
place.

## Main results

* `Proc.toKey_num`: the key of a number is the key of its text.
* `Parser.properties_names`: each property of an object literal has the name that its token gives it.
* `Proc.number_addresses`: one place for a numeral, a number and a text.
-/

namespace ScriptEngine

open Number (toText decode)

namespace Proc

/-- The key of an index, found without writing it, is the key of its text. -/
theorem ofText_of_indexKey? {x : Float} {k : Key} (h : indexKey? x = some k) :
    ∃ i ≤ Key.maxIndex, k = .index i ∧ Number.toText x = Text.ofNat i := by
  unfold indexKey? at h
  cases hx : decode x with
  | none => simp only [hx] at h; cases h
  | some d =>
    simp only [hx] at h
    split at h
    case isFalse => cases h
    case isTrue hindex =>
      obtain ⟨⟨hinteger, hlow⟩, hhigh⟩ := (Bool.and_eq_true_iff.1 hindex).imp_left Bool.and_eq_true_iff.1
      have hlow := of_decide_eq_true hlow
      have hhigh := of_decide_eq_true hhigh
      cases h
      have hmagnitude := (d.isInteger_iff _).1 ⟨hinteger, rfl⟩
      have hzero : d.mantissa = 0 ↔ d.floorMagnitude = 0 := by
        rw [← d.value_eq_zero_iff, ← abs_eq_zero, d.abs_value, hmagnitude, Nat.cast_eq_zero]
      unfold Dyadic.truncate at *
      unfold Number.toText
      simp only [hx]
      by_cases hd : d.mantissa = 0
      · rw [if_pos hd, hzero.1 hd]
        exact ⟨0, Nat.zero_le _, by simp, rfl⟩
      · have hpos := mt hzero.2 hd
        have hsign : ¬d.negative := by
          intro hnegative
          rw [if_pos hnegative] at hlow
          omega
        rw [if_neg hsign] at hhigh ⊢
        rw [if_neg hd, if_neg hsign]
        refine ⟨d.floorMagnitude, by unfold Key.maxIndex; omega, rfl, ?_⟩
        have hsmall : d.floorMagnitude < Nat.pow 10 21 := lt_trans (by omega : _ < 4294967295) (by decide)
        rw [Number.magnitudeText, if_pos (Bool.and_eq_true_iff.2 ⟨hinteger, decide_eq_true hsmall⟩)]

/-- The key of a number is the key of its text. -/
theorem toKey_num (x : Float) : toKey (.num x) = pure (Key.ofText (Number.toText x)) := by
  unfold toKey
  cases h : indexKey? x with
  | none => simp only [h]
  | some k =>
    obtain ⟨i, hi, rfl, htext⟩ := ofText_of_indexKey? h
    simp only [h]
    rw [Key.ofText_eq_index.2 ⟨htext, hi⟩]

/-- The key of a natural number that is an index. -/
theorem toKey_ofNat {n : Nat} (hn : n ≤ Key.maxIndex) : toKey (.num (Number.ofNat n)) = pure (.index n) := by
  have hsmall : n < 4294967295 := by
    unfold Key.maxIndex at hn
    omega
  have htruncate : (Number.decode (Number.ofNat n)).map Dyadic.truncate = some (n : Int) :=
    Number.truncate?_ofNat (by omega)
  have hinteger : (Number.decode (Number.ofNat n)).any Dyadic.isInteger := Number.isInteger_ofNat (by omega)
  obtain ⟨d, hd, hvalue⟩ := Option.map_eq_some_iff.1 htruncate
  rw [hd, Option.any_some] at hinteger
  have hkey : indexKey? (Number.ofNat n) = some (.index n) := by
    simp [indexKey?, hd, hinteger, hvalue, hsmall]
  rw [toKey]
  simp only [hkey]

end Proc

namespace Parser

/-! ## Names of properties -/

/-- What is left is the end of what there was. -/
theorem run_suffix {α : Type} {p : Parser α} {ts us : List Lexeme} {a : α} (h : p.run ts = .ok (a, us)) :
    us <:+ ts := by
  induction p generalizing ts us with
  | pure => cases h; exact List.suffix_refl _
  | bind p f ihp ihf =>
    obtain ⟨b, vs, hp, hf⟩ := run_bind_eq_ok h
    exact (ihf b hf).trans (ihp hp)
  | look => cases h; exact List.suffix_refl _
  | advance => cases h; exact List.drop_suffix _ _
  | fail => cases h
  | failLiteral => cases h

/-- The name that a token gives a property of an object literal. -/
def propertyName? (t : Token) : Option Text :=
  match t.kind with
  | .ident => some t.text
  | .string => (unescape (stringBody t.text)).toOption
  | .number => (numberValue t.text).toOption.map Number.toText
  | _ => none

theorem run_literal {α : Type} {r : Except LiteralError α} {ts us : List Lexeme} {a : α}
    (h : (literal r).run ts = .ok (a, us)) : r = .ok a ∧ us = ts := by
  cases r with
  | ok => cases h; exact ⟨rfl, rfl⟩
  | error => cases h

/-- The rest of a property whose name has been read: the value after a colon, and more properties unless the brace is
next. -/
theorem run_property {n : Nat} {t : Token} {name : Text} {ts us : List Lexeme} {nodes : List Node}
    (h : (do
      advance
      let _ ← punc ":"
      let e ← assignment n false
      let p := Node.named .property name t [e]
      if ← nextPunc "\x7d" then pure () else let _ ← punc ","
      return p :: (← properties n)).run ts = .ok (nodes, us)) :
    ∃ e more vs, nodes = Node.named .property name t [e] :: more ∧ vs <:+ ts.drop 1 ∧
      (properties n).run vs = .ok (more, us) := by
  obtain ⟨_, us₁, hadvance, h⟩ := run_bind_eq_ok h
  obtain ⟨_, us₂, hcolon, h⟩ := run_bind_eq_ok h
  obtain ⟨e, us₃, he, h⟩ := run_bind_eq_ok h
  obtain ⟨closed, us₄, hnext, h⟩ := run_bind_eq_ok h
  cases hadvance
  have hsuffix : us₄ <:+ ts.drop 1 :=
    (run_suffix hnext).trans ((run_suffix he).trans (run_suffix hcolon))
  -- The brace is next, or a comma is taken before more properties.
  obtain ⟨us₅, hsuffix, h⟩ : ∃ us₅, us₅ <:+ ts.drop 1 ∧ (do
      let more ← properties n
      return Node.named .property name t [e] :: more).run us₅ = .ok (nodes, us) := by
    cases closed with
    | true => exact ⟨us₄, hsuffix, h⟩
    | false =>
      obtain ⟨_, us₅, hcomma, h⟩ := run_bind_eq_ok h
      exact ⟨us₅, (run_suffix hcomma).trans hsuffix, h⟩
  obtain ⟨more, us₆, hmore, h⟩ := run_bind_eq_ok h
  cases h
  exact ⟨e, more, us₅, rfl, hsuffix, hmore⟩

/-- There are no properties, or the token that is next names the first one. -/
theorem properties_cases {n : Nat} {ts us : List Lexeme} {nodes : List Node}
    (h : (properties (n + 1)).run ts = .ok (nodes, us)) :
    nodes = [] ∨ ∃ name, propertyName? (ts.headD endLexeme).token = some name ∧
      ∃ e more vs, nodes = Node.named .property name (ts.headD endLexeme).token [e] :: more ∧ vs <:+ ts.drop 1 ∧
        (properties n).run vs = .ok (more, us) := by
  rw [properties] at h
  obtain ⟨t, us₁, hpeek, h⟩ := run_bind_eq_ok h
  obtain ⟨ht, rfl⟩ : (ts.headD endLexeme).token = t ∧ ts = us₁ := by
    cases hpeek
    exact ⟨rfl, rfl⟩
  rw [ht]
  split at h
  case isTrue =>
    obtain ⟨_, us₂, -, h⟩ := run_bind_eq_ok h
    cases h
    exact .inl rfl
  case isFalse =>
    right
    split at h
    case h_1 hkind => exact ⟨_, by simp [propertyName?, hkind], run_property h⟩
    case h_2 hkind =>
      obtain ⟨name, us₂, hliteral, hrun⟩ := run_bind_eq_ok h
      obtain ⟨hname, rfl⟩ := run_literal hliteral
      exact ⟨name, by simp [propertyName?, hkind, hname, Except.toOption], run_property hrun⟩
    case h_3 hkind =>
      obtain ⟨x, us₂, hliteral, hrun⟩ := run_bind_eq_ok h
      obtain ⟨hx, rfl⟩ := run_literal hliteral
      exact ⟨Number.toText x, by simp [propertyName?, hkind, hx, Except.toOption], run_property hrun⟩
    case h_4 =>
      obtain ⟨_, _, hfail, -⟩ := run_bind_eq_ok h
      cases hfail

/-- Each property that is read has its name from a token, in the order of the tokens. -/
theorem properties_names {n : Nat} {ts us : List Lexeme} {nodes : List Node}
    (h : (properties n).run ts = .ok (nodes, us)) :
    ∃ tokens : List Token, tokens.Sublist (ts.map (·.token)) ∧
      List.Forall₂ (fun t node => ∃ name e, propertyName? t = some name ∧ node = Node.named .property name t [e])
        tokens nodes := by
  induction n generalizing ts us nodes with
  | zero => cases h
  | succ n ih =>
    obtain rfl | ⟨name, hname, e, more, vs, rfl, hsuffix, hmore⟩ := properties_cases h
    · exact ⟨[], List.nil_sublist _, .nil⟩
    obtain ⟨tokens, hsublist, hnames⟩ := ih hmore
    cases ts with
    | nil => cases hname
    | cons l ts =>
      exact ⟨l.token :: tokens, .cons_cons _ (hsublist.trans (hsuffix.sublist.map _)), .cons ⟨name, e, hname, rfl⟩ hnames⟩

/-- The properties of the literal have the names of their tokens. -/
theorem map_propertyName? {tokens : List Token} {nodes : List Node} {props : List (Text × Expr)}
    (h : List.Forall₂ (fun t node => ∃ name e, propertyName? t = some name ∧ node = Node.named .property name t [e])
      tokens nodes) (hprops : Program.properties? nodes = some props) :
    tokens.map propertyName? = props.map fun q => some q.1 := by
  induction h generalizing props with
  | nil =>
    rw [Program.properties?] at hprops
    cases hprops
    rfl
  | cons hfirst _ ih =>
    obtain ⟨name, e, hname, rfl⟩ := hfirst
    rw [Node.named, Program.properties?] at hprops
    obtain ⟨expr, -, hprops⟩ := Option.bind_eq_some_iff.1 hprops
    obtain ⟨more, hmore, hprops⟩ := Option.bind_eq_some_iff.1 hprops
    cases hprops
    rw [List.map_cons, List.map_cons, ih hmore, hname]
    rfl

end Parser

namespace Proc

/-! ## Places -/

/-- Each property of an object literal is assigned to the place of its name. -/
theorem evalProperties_append (c : Context) (o : ObjectId) (before : List (Text × Expr)) (name : Text) (e : Expr)
    (later : List (Text × Expr)) :
    evalProperties c o (before ++ (name, e) :: later) = (do
      evalProperties c o before
      let v ← value (eval c e)
      let _ ← Place.assign ⟨.object o, .ofText name⟩ v
      evalProperties c o later) := by
  induction before with
  | nil =>
    rw [List.nil_append, evalProperties, evalProperties]
    simp only [Place.assign, pure_bind, bind_assoc]
  | cons q before ih =>
    rw [List.cons_append, evalProperties, evalProperties, ih]
    simp only [bind_assoc]

theorem property_obj {key : Value} {k : Key} (h : toKey key = pure k) (o : ObjectId) :
    property (.obj o) key = pure ⟨.object o, k⟩ := by
  rw [property, h]
  rfl

theorem elementOf_obj {key : Value} {k : Key} (h : toKey key = pure k) (o : ObjectId) :
    elementOf key (.obj o) = do return .bool (← read (·.hasProperty o k)) := by
  rw [elementOf, h]
  rfl

/-- One place for a numeral in an object literal, a number and a text that are written in the same way. -/
theorem number_addresses :
    (∀ x : Float, toKey (.num x) = pure (Key.ofText (Number.toText x)) ∧
      ∀ k, indexKey? x = some k → ∀ table : Interner, ∃ i, k = .index i ∧
        table.intern (Number.toText x) = (Interner.indexHandle i, table)) ∧
    (∀ (n : Nat) (ts us : List Lexeme) (nodes : List Node) (props : List (Text × Expr)),
      (Parser.properties n).run ts = .ok (nodes, us) → Program.properties? nodes = some props →
      ∃ tokens : List Token, tokens.Sublist (ts.map (·.token)) ∧
        List.Forall₂ (fun t node => ∃ name e, Parser.propertyName? t = some name ∧
          node = Node.named .property name t [e]) tokens nodes ∧
        tokens.map Parser.propertyName? = props.map fun q => some q.1) ∧
    ∀ (x m : Float) (s : Text), Number.toText x = s → Number.toText m = s →
      (∀ t : Token, t.kind = .number → Parser.numberValue t.text = .ok x → Parser.propertyName? t = some s) ∧
      ∀ o : ObjectId,
        (∀ (c : Context) (before : List (Text × Expr)) (e : Expr) (later : List (Text × Expr)),
          evalProperties c o (before ++ (s, e) :: later) = (do
            evalProperties c o before
            let v ← value (eval c e)
            let _ ← Place.assign ⟨.object o, .ofText s⟩ v
            evalProperties c o later)) ∧
        property (.obj o) (.num m) = pure ⟨.object o, .ofText s⟩ ∧
        property (.obj o) (.str s) = pure ⟨.object o, .ofText s⟩ ∧
        elementOf (.num m) (.obj o) = (do return .bool (← read (·.hasProperty o (.ofText s)))) ∧
        elementOf (.str s) (.obj o) = (do return .bool (← read (·.hasProperty o (.ofText s)))) := by
  refine ⟨fun x => ⟨toKey_num x, fun k hk table => ?_⟩, fun n ts us nodes props hrun hprops => ?_, ?_⟩
  · obtain ⟨i, hi, rfl, htext⟩ := ofText_of_indexKey? hk
    refine ⟨i, rfl, ?_⟩
    rw [Interner.intern, Key.ofText_eq_index.2 ⟨htext, hi⟩]
  · obtain ⟨tokens, hsublist, hnames⟩ := Parser.properties_names hrun
    exact ⟨tokens, hsublist, hnames, Parser.map_propertyName? hnames hprops⟩
  · rintro x m s rfl hm
    have hnumber : toKey (.num m) = pure (Key.ofText (Number.toText x)) := by rw [toKey_num, hm]
    have htext : toKey (.str (Number.toText x)) = pure (Key.ofText (Number.toText x)) := rfl
    refine ⟨fun t hkind hx => ?_, fun o => ⟨fun c before e later => evalProperties_append c o before _ e later,
      property_obj hnumber o, property_obj htext o, elementOf_obj hnumber o, elementOf_obj htext o⟩⟩
    simp [Parser.propertyName?, hkind, hx, Except.toOption]

/-- The largest index, written as a hexadecimal numeral. -/
theorem number_addresses_largest : Number.toText 4294967294 = "4294967294" ∧
    (∃ table : Interner, ∃ i, Key.index 4294967294 = .index i ∧
      table.intern (Number.toText 4294967294) = (Interner.indexHandle i, table)) ∧
    (∃ nodes us props, (Parser.properties 40).run (Parser.lexemesOf "0xfffffffe: 1 \x7d") = .ok (nodes, us) ∧
      Program.properties? nodes = some props ∧ ∃ tokens : List Token,
        tokens.Sublist ((Parser.lexemesOf "0xfffffffe: 1 \x7d").map (·.token)) ∧
        tokens.map Parser.propertyName? = props.map fun q => some q.1) ∧
    Parser.propertyName? ⟨.number, "0xfffffffe", 0, 10⟩ = some "4294967294" ∧
    property (.obj 7) (.num 4294967294) = pure ⟨.object 7, .ofText "4294967294"⟩ := by
  have htext : Number.toText 4294967294 = "4294967294" := by decide +kernel
  obtain ⟨hkey, hliteral, hplace⟩ := number_addresses
  obtain ⟨hname, hplace⟩ := hplace 4294967294 4294967294 "4294967294" htext htext
  refine ⟨htext, ⟨Interner.initial, (hkey 4294967294).2 _ (by decide +kernel) _⟩, ?_, hname _ rfl ?_, (hplace 7).2.1⟩
  · have hread : ((Parser.properties 40).run (Parser.lexemesOf "0xfffffffe: 1 \x7d")).toOption.any
        (fun answer => (Program.properties? answer.1).isSome) := by decide +kernel
    cases hrun : (Parser.properties 40).run (Parser.lexemesOf "0xfffffffe: 1 \x7d") with
    | error e =>
      rw [hrun] at hread
      cases hread
    | ok answer =>
      obtain ⟨nodes, us⟩ := answer
      rw [hrun] at hread
      obtain ⟨props, hprops⟩ := Option.isSome_iff_exists.1 hread
      obtain ⟨tokens, hsublist, -, hnames⟩ := hliteral 40 _ _ _ _ hrun hprops
      exact ⟨nodes, us, props, rfl, hprops, tokens, hsublist, hnames⟩
  · decide +kernel

end Proc

end ScriptEngine
