import ScriptEngine.Proofs.Builtins
import ScriptEngine.Proofs.Holes

/-!
# The conduct of programs

A program that assigns only to what can be assigned to keeps to its licence, in every sound store in which its
scope is rooted. A variable that it writes is bound in a rooted scope or among the built-in names already; a
name that it declares goes to a rooted scope.

## Main definitions

* `Place.Legal`: places that may be assigned to.
* `Designator.Fits`: what an expression may designate.

## Main results

* `eval_meets`, `exec_tame`: expressions and statements.
* `runProgram_tame`, `runBody_tame`: whole programs and bodies of functions.
-/

namespace ScriptEngine

open Proc

variable {α β : Type} {L : Licence} {s t : Store} {scope : Option FrameId} {f : FrameId}

/-! ## Places -/

/-- A container into which a key may be written: a rooted scope, or the built-in names if the key may be one. -/
def Container.Open (L : Licence) (s : Store) (k : Key) : Container → Prop
  | .scope f => s.Rooted f ∨ f = Realm.core ∧ L.names k
  | .object _ => True

theorem Container.Open.later {c : Container} {k : Key} (h : c.Open L s k) (hst : s.Later t) : c.Open L t k := by
  cases c with
  | scope f => exact Or.imp_left (·.later hst) h
  | object o => trivial

/-- A place that may be assigned to. -/
structure Place.Legal (L : Licence) (s : Store) (p : Place) : Prop where
  proper : p.key.Proper
  container : p.container.Open L s p.key

theorem Place.Legal.later {p : Place} (h : p.Legal L s) (hst : s.Later t) : p.Legal L t :=
  ⟨h.proper, h.container.later hst⟩

namespace Proc

theorem behaves_putIn (hs : s.Sound L.names) {c : Container} {k : Key} (hk : k.Proper) (hc : c.Open L s k)
    (v : Value) : (putIn c k v).Behaves L (fun _ _ => True) s := by
  cases c with
  | scope f =>
      refine ⟨⟨fun hf => ?_, Store.takes_scope hk (hc.imp_right And.left)⟩, fun _ _ _ _ => trivial⟩
      obtain hrooted | ⟨-, hname⟩ := hc
      · exact absurd hf (hs.ne_core hrooted)
      · exact hname
  | object o =>
      have hput : Tame L none (putProperty o k v) := tame_putProperty o hk v
      exact hput s hs nofun

/-- What holds a key may be written, or what is taken if nothing holds it. -/
theorem open_owner (hs : s.Sound L.names) (hf : s.Rooted f ∨ f = Realm.core) {k : Key} {c : Container}
    (hc : c.Open L s k) : ((s.owner? f k).getD c).Open L s k := by
  cases h : s.owner? f k with
  | none => exact hc
  | some c =>
      cases c with
      | scope g =>
          obtain ⟨hmem, hholds⟩ := s.mem_chain_of_owner? h
          obtain hg | rfl := hs.mem_chain hf hmem
          · exact .inl hg
          · exact .inr ⟨rfl, hs.core_names k hholds⟩
      | object o => trivial

end Proc

namespace Place

variable {p : Place}

theorem behaves_assign (hs : s.Sound L.names) (hp : p.Legal L s) (v : Value) :
    (p.assign v).Behaves L (fun _ _ => True) s := by
  obtain ⟨container, key⟩ := p
  cases container with
  | scope f =>
      obtain ⟨hk, hcontainer⟩ := hp
      have hf : s.Rooted f ∨ f = Realm.core := hcontainer.imp_right And.left
      have hopen : (Container.scope (s.globalScope f)).Open L s key := by
        obtain hrooted | ⟨rfl, hname⟩ := hcontainer
        · exact .inl (hs.rooted_globalScope hrooted)
        · exact .inr ⟨hs.globalScope_core, hname⟩
      have hput : (putVariable f key v).Behaves L (fun _ _ => True) s :=
        behaves_putIn hs hk (open_owner hs hf hopen) v
      exact hput.bind hs fun _ _ _ _ => trivial
  | object o =>
      have hput : Tame L none (putProperty o key v) := tame_putProperty o hp.proper v
      exact (hput s hs nofun).bind hs fun _ _ _ _ => trivial

theorem behaves_combine (hs : s.Sound L.names) (hp : p.Legal L s) (op : BinaryOp) (v : Value) :
    (p.combine op (return v)).Behaves L (fun _ _ => True) s := by
  have hresult : Tame L none (Operator.apply op (return s.read p.container p.key) (return v)) :=
    Operator.tame_apply op (.pure _) (.pure v)
  exact (hresult s hs nofun).bind hs fun _ w ht _ => behaves_assign ht.sound (hp.later ht.later) w

theorem behaves_increment (hs : s.Sound L.names) (hp : p.Legal L s) (delta : Float) :
    (p.increment delta).Behaves L (fun _ _ => True) s := by
  have hnumber : Tame L none (toNumber (s.read p.container p.key)) := tame_toNumber _
  exact (hnumber s hs nofun).bind hs fun _ _ ht _ => behaves_assign ht.sound (hp.later ht.later) _

theorem behaves_incrementAfter (hs : s.Sound L.names) (hp : p.Legal L s) (delta : Float) :
    (p.incrementAfter delta).Behaves L (fun _ _ => True) s := by
  have hnumber : Tame L none (toNumber (s.read p.container p.key)) := tame_toNumber _
  exact (hnumber s hs nofun).bind hs fun _ _ ht _ =>
    (behaves_assign ht.sound (hp.later ht.later) _).bind ht.sound fun _ _ _ _ => trivial

theorem tame_delete (p : Place) : p.delete.Tame L scope := by
  unfold delete
  split
  · exact .perform fun _ => trivial
  · exact .bind (.read _) fun _ => .perform fun _ => trivial

theorem tame_call (p : Place) (args : List Value) : (p.call scope args).Tame L scope := by
  refine .bind (.read _) fun v => .bind (tame_callable? v) fun f => ?_
  cases f with
  | some f => exact .call _ _ _
  | none => exact tame_notCallable _ _ _

end Place

/-- The place of a variable: it is bound in a rooted scope or among the built-in names, or its own scope is
rooted. -/
theorem meets_resolveName (name : Text) : (resolveName f name).Meets L (some f) fun s p => p.Legal L s := by
  intro s hs hscope
  have hf := hscope f rfl
  exact ⟨Key.proper_ofText name, open_owner hs (.inl hf) (.inl hf)⟩

/-! ## Scopes of programs -/

namespace Proc

/-- A scope inside the present one, and something in it. -/
theorem Meets.opened {Q : Store → β → Prop} {role : Frame.Role} {body : FrameId → Proc β}
    (h : ∀ g, (body g).Meets L (some g) Q) :
    (perform (.openScope f role) >>= body).Meets L (some f) Q := by
  refine fun s hs hscope => ⟨hscope f rfl, fun g t ht hg => h g t ht.sound ?_⟩
  rintro _ ⟨⟩
  exact hg

/-- A scope inside the present one, something in it and something in the present one. -/
theorem Tame.openedThen {role : Frame.Role} {body : FrameId → Proc α} {rest : α → Proc β}
    (hbody : ∀ g, (body g).Tame L (some g)) (hrest : ∀ a, (rest a).Tame L (some f)) :
    (Proc.perform (.openScope f role) >>= fun g => body g >>= rest).Tame L (some f) := by
  refine fun s hs hscope => ⟨hscope f rfl, fun g t ht hg => ?_⟩
  have hrooted := hscope f rfl |>.later ht.later
  refine (hbody g t ht.sound ?_).bind ht.sound fun u a hu _ => hrest a u hu.sound ?_
  · rintro _ ⟨⟩
    exact hg
  · rintro _ ⟨⟩
    exact hrooted.later hu.later

theorem Tame.putScope {k : Key} (hk : k.Proper) (v : Value) : (Proc.perform (.put f k v)).Tame L (some f) :=
  fun _ hs hscope =>
    have hf := hscope f rfl
    ⟨⟨fun he => absurd he (hs.ne_core hf), Store.takes_scope hk (.inl hf)⟩, fun _ _ _ _ => trivial⟩

theorem Tame.counted {c : Context} {st : Stmt} {p : Proc α} (hp : p.Tame L scope) :
    (counted c st p).Tame L scope := .bind (.perform fun _ => trivial) fun _ => hp

theorem Tame.goOn {test : Proc Value} (htest : test.Tame L scope) (latest : Option Value) :
    (goOn latest test).Tame L scope := htest.bind fun _ => .ite (.pure _) (.pure _)

theorem Tame.beforeNext {r : Round (Option Value) Completion}
    {next : Option Value → Proc (Round (Option Value) Completion)} (hnext : ∀ latest, (next latest).Tame L scope) :
    (beforeNext r next).Tame L scope := by
  cases r with
  | again latest => exact hnext latest
  | done e => exact .pure _

/-- Further statements after some that may have ended with a jump. -/
theorem Tame.thenRest {r : Round (Option Value) Completion}
    {rest : Option Value → Proc (Round (Option Value) Completion)} (hrest : ∀ latest, (rest latest).Tame L scope) :
    Tame L scope (match r with
      | .done e => return .done e
      | .again latest => rest latest) := by
  cases r with
  | again latest => exact hrest latest
  | done e => exact .pure _

end Proc

theorem tame_initVariable (name : Text) (v : Value) : (initVariable f name v).Tame L (some f) :=
  fun s hs hscope =>
    have hf := hscope f rfl
    have hopen : (Container.scope (s.varScope f)).Open L s (Key.ofText name) := .inl (hs.rooted_varScope hf)
    behaves_putIn hs (Key.proper_ofText name) (open_owner hs (.inl hf) hopen) v

theorem tame_declareVariables (names : List Text) : (declareVariables f names).Tame L (some f) := by
  induction names with
  | nil => exact .pure _
  | cons name rest ih =>
      exact .bind (.read _) fun _ => .ite (.bind (.putScope (Key.proper_ofText name) _) fun _ => ih) ih

theorem tame_newFunction {c : Context} (name : Text) (params : List Text) {body : List Stmt}
    (hbody : stmtsTargeted body) (selfBound : Bool) :
    (newFunction c name params body selfBound).Tame L (some c.scope) := fun _ _ hscope =>
  ⟨⟨hscope _ rfl, hbody⟩, fun _ _ _ _ => trivial⟩

theorem stmtsTargeted_iff {body : List Stmt} : stmtsTargeted body ↔ ∀ st ∈ body, st.targeted := by
  induction body with
  | nil => simp [stmtsTargeted]
  | cons st rest ih => simp [stmtsTargeted, ih]

theorem targeted_of_mem_clauses {clauses : List Clause} (h : clausesTargeted clauses) {cl : Clause}
    (hcl : cl ∈ clauses) : stmtsTargeted cl.body := by
  induction clauses with
  | nil => cases hcl
  | cons first rest ih =>
      cases first <;> simp only [clausesTargeted, Bool.and_eq_true] at h <;>
        obtain rfl | hcl := List.mem_cons.1 hcl
      · exact h.1.2
      · exact ih h.2 hcl
      · exact h.1
      · exact ih h.2 hcl

theorem tame_declareFunctions {c : Context} {body : List Stmt} (hbody : ∀ st ∈ body, st.targeted) :
    (declareFunctions c body).Tame L (some c.scope) := by
  fun_induction declareFunctions c body with
  | case1 => exact .pure _
  | case2 name params body rest ih =>
      have hfirst := hbody _ (List.mem_cons_self ..)
      exact .bind (tame_newFunction _ _ (by simpa [Stmt.targeted] using hfirst) _) fun _ =>
        .bind (.putScope (Key.proper_ofText name) _) fun _ => ih fun st hst => hbody st (List.mem_cons_of_mem _ hst)
  | case3 st rest _ ih => exact ih fun st hst => hbody st (List.mem_cons_of_mem _ hst)

/-! ## Expressions -/

/-- What an expression may designate: a place that may be assigned to, or a value if it is no target. -/
def Designator.Fits (L : Licence) (e : Expr) (s : Store) : Designator → Prop
  | .place p => p.Legal L s
  | .value _ => e.isTarget = false

theorem tame_value {Q : Store → Designator → Prop} {d : Proc Designator} (hd : d.Meets L scope Q) :
    (value d).Tame L scope := by
  refine hd.next fun d => ?_
  cases d with
  | place p => exact Tame.read _
  | value v => exact Tame.pure v

/-- An expression that can be assigned to has a place. -/
theorem meets_place {e : Expr} {d : Proc Designator} (hd : d.Meets L scope (Designator.Fits L e)) (he : e.isTarget) :
    (place d).Meets L scope fun s p => p.Legal L s := by
  refine hd.bind fun d s _ _ hfits => ?_
  cases d with
  | place p => exact hfits
  | value v =>
      rw [Designator.Fits, he] at hfits
      cases hfits

/-- An expression with a value of its own. -/
theorem Proc.Tame.designates {p : Proc Value} (hp : p.Tame L scope) {e : Expr} (he : e.isTarget = false) :
    (p >>= fun v => return .value v).Meets L scope (Designator.Fits L e) := hp.next fun _ => .pure fun _ _ _ => he

/-- An expression that does something with a place. -/
theorem Proc.Meets.designates {p : Proc Place} (hp : p.Meets L scope fun s p => p.Legal L s)
    {g : Place → Proc Value}
    (hg : ∀ p s, s.Sound L.names → (∀ f ∈ scope, s.Rooted f) → p.Legal L s →
      (g p).Behaves L (fun _ _ => True) s) {e : Expr} (he : e.isTarget = false) :
    (p >>= fun p => g p >>= fun v => return .value v).Meets L scope (Designator.Fits L e) :=
  hp.bind fun p s hs hscope hlegal => (hg p s hs hscope hlegal).bind hs fun _ _ _ _ => he

theorem tame_elementOf (v object : Value) : (elementOf v object).Tame L scope := by
  unfold elementOf
  split
  · exact .bind (tame_toKey v) fun _ => .bind (.read _) fun _ => .pure _
  · exact .bind (tame_toText v) fun _ => .bind (tame_toText _) fun _ => .typeError _

theorem tame_instanceOf (v ctor : Value) : (instanceOf v ctor).Tame L scope := by
  refine .bind (tame_callable? ctor) fun f => ?_
  cases f with
  | none => exact .bind (tame_typeOf ctor) fun _ => .fault (by simp)
  | some f =>
      refine .bind (.read _) fun target => ?_
      split
      · refine .bind (.read _) fun proto => ?_
        split
        · exact .bind (.read _) fun _ => .pure _
        · exact .typeError _
      · exact .pure _

theorem tame_binaryValue (op : BinaryOp) (v w : Value) : (binaryValue op v w).Tame L scope := by
  unfold binaryValue
  split
  · exact tame_elementOf v w
  · exact tame_instanceOf v w
  · exact Operator.tame_apply _ (.pure v) (.pure w)

theorem meets_property (base key : Value) : (property base key).Meets L scope fun s p => p.Legal L s := by
  refine (meets_toKey key).bind fun k s hs hscope hk => ?_
  split
  · exact (tame_toText base).next (fun _ => .typeError _) s hs hscope
  · exact (tame_toObject base).next (fun _ => .pure fun _ _ _ => ⟨hk, trivial⟩) s hs hscope

theorem tame_callDesignated (d : Designator) (args : List Value) :
    (callDesignated f d args).Tame L (some f) := by
  cases d with
  | place p => exact p.tame_call args
  | value v =>
      refine .bind (tame_callable? v) fun g => ?_
      cases g with
      | some g => exact .call _ _ _
      | none => exact tame_notCallable _ _ _

theorem tame_construct (ctor : Value) (args : List Value) : (construct f ctor args).Tame L (some f) := by
  refine .bind (tame_callable? ctor) fun g => ?_
  cases g with
  | some g => exact .request (.inr rfl)
  | none => exact .bind (tame_typeOf ctor) fun _ => .typeError _

mutual

/-- An expression designates a place that may be assigned to, or a value if it is no target. -/
theorem eval_meets (c : Context) :
    (e : Expr) → e.targeted → (eval c e).Meets L (some c.scope) (Designator.Fits L e)
  | .literal v, _ => .pure fun _ _ _ => rfl
  | .regexp source flags, _ => (tame_newRegExp source flags).designates rfl
  | .ident name, _ => (meets_resolveName name).bind fun _ _ _ _ hp => hp
  | .this, _ => (Tame.read _).designates rfl
  | .array elements, h => by
      rw [eval]
      -- The frame of the elements is looked up in the store in which the array is made.
      refine fun s hs hscope => ⟨trivial, fun a t ht ha => behaves_read.2 ?_⟩
      have helements := evalElements_onward c (hscope c.scope rfl |>.later ht.later) ⟨a, ha, rfl⟩ 0 elements h
      exact (helements t (.refl ht.sound)).bind ht.sound fun _ _ _ _ => rfl
  | .object properties, h => by
      rw [eval]
      exact tame_newObject.next fun o => (evalProperties_tame c o properties h).next fun _ => .pure fun _ _ _ => rfl
  | .function name params body, h => (tame_newFunction name params h true).designates rfl
  | .member object key, h => by
      simp only [Expr.targeted, Bool.and_eq_true] at h
      rw [eval]
      refine (tame_value (eval_meets c object h.1)).next fun base =>
        (tame_value (eval_meets c key h.2)).next fun k => ?_
      exact (meets_property base k).bind fun _ _ _ _ hp => hp
  | .call callee args, h => by
      simp only [Expr.targeted, Bool.and_eq_true] at h
      rw [eval]
      refine (eval_meets c callee h.1).next fun d => (evalAll_tame c [] args h.2).next fun args => ?_
      exact (tame_callDesignated d args).designates rfl
  | .new callee args, h => by
      simp only [Expr.targeted, Bool.and_eq_true] at h
      rw [eval]
      refine (tame_value (eval_meets c callee h.1)).next fun ctor => (evalAll_tame c [] args h.2).next fun args => ?_
      exact (tame_construct ctor args).designates rfl
  | .unary op operand, h => by
      have hoperand := eval_meets c operand h
      cases op with
      | typeOf =>
          have hrest (unbound : Bool) : Meets L (some c.scope) (Designator.Fits L (.unary .typeOf operand))
              (if unbound then return .value "undefined"
                else return .value (.str (← typeOf (← value (eval c operand))))) := by
            split
            · exact .pure fun _ _ _ => rfl
            · exact (tame_value hoperand).next fun v => (tame_typeOf v).next fun _ => .pure fun _ _ _ => rfl
          unfold eval
          dsimp only
          split
          · exact (Tame.read _).next hrest
          · exact (Tame.pure _).next hrest
      | delete =>
          rw [eval]
          refine hoperand.next fun d => ?_
          cases d with
          | place p => exact p.tame_delete.next fun _ => .pure fun _ _ _ => rfl
          | value v => exact .pure fun _ _ _ => rfl
      | _ =>
          rw [eval]
          · exact (Operator.tame_applyUnary _ (tame_value hoperand)).designates rfl
          · simp
          · simp
  | .updateBefore down target, h => by
      simp only [Expr.targeted, Bool.and_eq_true] at h
      rw [eval]
      exact (meets_place (eval_meets c target h.2) h.1).designates
        (fun _ _ hs _ hp => Place.behaves_increment hs hp _) rfl
  | .updateAfter down target, h => by
      simp only [Expr.targeted, Bool.and_eq_true] at h
      rw [eval]
      exact (meets_place (eval_meets c target h.2) h.1).designates
        (fun _ _ hs _ hp => Place.behaves_incrementAfter hs hp _) rfl
  | .binary op left right, h => by
      simp only [Expr.targeted, Bool.and_eq_true] at h
      rw [eval]
      refine (tame_value (eval_meets c left h.1)).next fun v => (tame_value (eval_meets c right h.2)).next fun w => ?_
      exact (tame_binaryValue op v w).designates rfl
  | .and left right, h => by
      simp only [Expr.targeted, Bool.and_eq_true] at h
      rw [eval]
      refine (tame_value (eval_meets c left h.1)).next fun v => ?_
      split
      · exact (tame_value (eval_meets c right h.2)).designates rfl
      · exact .pure fun _ _ _ => rfl
  | .or left right, h => by
      simp only [Expr.targeted, Bool.and_eq_true] at h
      rw [eval]
      refine (tame_value (eval_meets c left h.1)).next fun v => ?_
      split
      · exact .pure fun _ _ _ => rfl
      · exact (tame_value (eval_meets c right h.2)).designates rfl
  | .assign op target e, h => by
      simp only [Expr.targeted, Bool.and_eq_true] at h
      have hvalue := tame_value (eval_meets c e h.2)
      rw [eval]
      -- The place is found before the value, so it has to be legal still when the value is there.
      refine (meets_place (eval_meets c target h.1.2) h.1.1).bind fun p s hs hscope hp => ?_
      refine (hvalue s hs hscope).bind hs fun t v ht _ => ?_
      have hlegal := hp.later ht.later
      cases op with
      | none => exact (Place.behaves_assign ht.sound hlegal v).bind ht.sound fun _ _ _ _ => rfl
      | some op => exact (Place.behaves_combine ht.sound hlegal op v).bind ht.sound fun _ _ _ _ => rfl
  | .conditional test consequent alternate, h => by
      simp only [Expr.targeted, Bool.and_eq_true] at h
      rw [eval]
      refine (tame_value (eval_meets c test h.1.1)).next fun v => ?_
      split
      · exact (tame_value (eval_meets c consequent h.1.2)).designates rfl
      · exact (tame_value (eval_meets c alternate h.2)).designates rfl
  | .comma items, h => (evalLast_tame c .undefined items h).designates rfl

theorem evalAll_tame (c : Context) (acc : List Value) :
    (es : List Expr) → exprsTargeted es → (evalAll c acc es).Tame L (some c.scope)
  | [], _ => .pure _
  | e :: rest, h => by
      simp only [exprsTargeted, Bool.and_eq_true] at h
      rw [evalAll]
      exact (tame_value (eval_meets c e h.1)).bind fun v => evalAll_tame c (v :: acc) rest h.2

theorem evalLast_tame (c : Context) (last : Value) :
    (es : List Expr) → exprsTargeted es → (evalLast c last es).Tame L (some c.scope)
  | [], _ => .pure _
  | e :: rest, h => by
      simp only [exprsTargeted, Bool.and_eq_true] at h
      rw [evalLast]
      exact (tame_value (eval_meets c e h.1)).bind fun v => evalLast_tame c v rest h.2

/-- The elements go to the frame of an array. -/
theorem evalElements_onward (c : Context) {s : Store} (hscope : s.Rooted c.scope) {f : FrameId} (hf : s.Slotted f)
    (i : Nat) : (es : List (Option Expr)) → elementsTargeted es → (evalElements c f i es).Onward L s
  | [], _ => fun _ ht => ⟨ht.sound.slotted_ne_core (hf.later ht.later), fun _ _ _ _ => trivial⟩
  | none :: rest, h => by
      rw [evalElements]
      exact evalElements_onward c hscope hf (i + 1) rest h
  | some e :: rest, h => by
      simp only [elementsTargeted, Bool.and_eq_true] at h
      rw [evalElements]
      refine ((tame_value (eval_meets c e h.1)).onward ?_).bind fun v => .bind (.putIndex hf i v) fun _ =>
        evalElements_onward c hscope hf (i + 1) rest h.2
      rintro _ ⟨⟩
      exact hscope

theorem evalProperties_tame (c : Context) (o : ObjectId) :
    (ps : List (Text × Expr)) → propertiesTargeted ps → (evalProperties c o ps).Tame L (some c.scope)
  | [], _ => .pure _
  | (name, e) :: rest, h => by
      simp only [propertiesTargeted, Bool.and_eq_true] at h
      rw [evalProperties]
      exact (tame_value (eval_meets c e h.1)).bind fun v =>
        .bind (tame_putProperty o (Key.proper_ofText name) v) fun _ => evalProperties_tame c o rest h.2

end

/-- The value of an expression. -/
theorem tame_evalValue {c : Context} {e : Expr} (h : e.targeted) : (value (eval c e)).Tame L (some c.scope) :=
  tame_value (eval_meets c e h)

/-! ## Statements -/

theorem execDecls_tame (c : Context) {decls : List (Text × Option Expr)} (h : declsTargeted decls) :
    (execDecls c decls).Tame L (some c.scope) := by
  induction decls with
  | nil => exact .pure _
  | cons d rest ih =>
      obtain ⟨name, e⟩ := d
      cases e with
      | none =>
          rw [execDecls]
          exact ih (by simpa [declsTargeted] using h)
      | some e =>
          simp only [declsTargeted, Bool.and_eq_true] at h
          rw [execDecls]
          exact .bind (tame_evalValue h.1) fun v => .bind (tame_initVariable name v) fun _ => ih h.2

theorem matchClause_tame (c : Context) (v : Value) (i : Nat) {clauses : List Clause} (h : clausesTargeted clauses) :
    (matchClause c v i clauses).Tame L (some c.scope) := by
  induction clauses generalizing i with
  | nil => exact .pure _
  | cons first rest ih =>
      cases first with
      | case test body =>
          simp only [clausesTargeted, Bool.and_eq_true] at h
          rw [matchClause]
          exact .bind (tame_evalValue h.1.1) fun _ => .ite (.pure _) (ih _ h.2)
      | default body =>
          simp only [clausesTargeted, Bool.and_eq_true] at h
          rw [matchClause]
          exact ih _ h.2

/-- The rounds of a `for` loop. -/
theorem Proc.Tame.forRounds {c : Context} {labels : List Text} {body : Stmt} (test update : Option Expr)
    (hbody : (exec c [] body).Tame L (some c.scope)) (htest : optionalTargeted test)
    (hupdate : optionalTargeted update) :
    (Layer.forRounds (.of body) c labels test update).Tame L (some c.scope) := by
  refine .repeated (fun latest => ?_) (fun _ => .bind hbody fun _ => .beforeNext fun latest => ?_) _
  · cases test with
    | none => exact .pure _
    | some e => exact .goOn (tame_evalValue htest) latest
  · cases update with
    | none => exact .pure _
    | some e => exact .bind (tame_evalValue hupdate) fun _ => .pure _

/-- The rounds of a loop over the keys of an object, which are assigned to a place that may be assigned to. -/
theorem Proc.Tame.keyRounds {c : Context} {labels : List Text} {body : Stmt} {target : Proc Place}
    (htarget : target.Meets L (some c.scope) fun s p => p.Legal L s) (object : Value)
    (hbody : (exec c [] body).Tame L (some c.scope)) :
    (Layer.keyRounds (.of body) c labels target object).Tame L (some c.scope) := by
  refine .ite (.pure _) (.bind (tame_toObject object) fun o => .bind (.read _) fun keys => .walk (fun k latest => ?_) _ _)
  refine .bind (.read _) fun _ => .ite (.pure _) (Meets.bind htarget fun p s hs hscope hp => ?_)
  refine (Place.behaves_assign hs hp _).bind hs fun t _ ht _ => ?_
  exact Tame.bind hbody.counted (fun _ => .pure _) t ht.sound fun f hf => (hscope f hf).later ht.later

mutual

/-- A statement keeps to its licence. -/
theorem exec_tame (c : Context) (labels : List Text) :
    (st : Stmt) → st.targeted → (exec c labels st).Tame L (some c.scope)
  | .sequence body, h => by
      rw [exec]
      exact .bind (tame_declareFunctions (stmtsTargeted_iff.1 h)) fun _ =>
        .bind (execList_tame c none body h) fun _ => .pure _
  | .block body, h => by
      rw [exec]
      exact .opened fun g => Tame.bind (tame_declareFunctions (c := ⟨c.runner, g⟩) (stmtsTargeted_iff.1 h)) fun _ =>
        .bind (execList_tame ⟨c.runner, g⟩ none body h) fun _ => .pure _
  | .empty, _ => .pure _
  | .expr e, h => .bind (tame_evalValue h) fun _ => .pure _
  | .var decls, h => .bind (execDecls_tame c h) fun _ => .pure _
  | .function name params body, h => by
      rw [exec]
      exact .bind (tame_newFunction name params h false) fun _ =>
        .bind (.putScope (Key.proper_ofText name) _) fun _ => .pure _
  | .ifElse test consequent none, h => by
      simp only [Stmt.targeted, Bool.and_eq_true] at h
      rw [exec]
      exact .bind (tame_evalValue h.1.1) fun _ => .ite (exec_tame c [] consequent h.1.2).counted (.pure _)
  | .ifElse test consequent (some alternate), h => by
      simp only [Stmt.targeted, partTargeted, Bool.and_eq_true] at h
      rw [exec]
      exact .bind (tame_evalValue h.1.1) fun _ =>
        .ite (exec_tame c [] consequent h.1.2).counted (exec_tame c [] alternate h.2).counted
  | .whileLoop test body, h => by
      simp only [Stmt.targeted, Bool.and_eq_true] at h
      have hbody := exec_tame c [] body h.2
      rw [exec]
      exact .repeated (fun latest => .goOn (tame_evalValue h.1) latest) (fun _ => .bind hbody fun _ => .pure _) _
  | .doLoop body test, h => by
      simp only [Stmt.targeted, Bool.and_eq_true] at h
      have hbody := exec_tame c [] body h.1
      rw [exec]
      exact .repeated (fun _ => .pure _)
        (fun _ => .bind hbody fun _ => .beforeNext fun latest => .goOn (tame_evalValue h.2) latest) _
  | .forVar decls test update body, h => by
      simp only [Stmt.targeted, Bool.and_eq_true] at h
      rw [exec]
      exact .bind (execDecls_tame c h.1.1.1) fun _ => .forRounds test update (exec_tame c [] body h.2) h.1.1.2 h.1.2
  | .forExpr none test update body, h => by
      simp only [Stmt.targeted, Bool.and_eq_true] at h
      rw [exec]
      exact .forRounds test update (exec_tame c [] body h.2) h.1.1.2 h.1.2
  | .forExpr (some e) test update body, h => by
      simp only [Stmt.targeted, optionalTargeted, Bool.and_eq_true] at h
      rw [exec]
      exact .bind (tame_evalValue h.1.1.1) fun _ => .forRounds test update (exec_tame c [] body h.2) h.1.1.2 h.1.2
  | .forInVar decls object body, h => by
      simp only [Stmt.targeted, Bool.and_eq_true] at h
      rw [exec]
      exact .bind (execDecls_tame c h.1.1) fun _ => .bind (tame_evalValue h.1.2) fun v =>
        .keyRounds (meets_resolveName _) v (exec_tame c [] body h.2)
  | .forIn target object body, h => by
      simp only [Stmt.targeted, Bool.and_eq_true] at h
      rw [exec]
      exact .bind (tame_evalValue h.1.2) fun v =>
        .keyRounds (meets_place (eval_meets c target h.1.1.2) h.1.1.1) v (exec_tame c [] body h.2)
  | .switch subject clauses, h => by
      simp only [Stmt.targeted, Bool.and_eq_true] at h
      have hclauses := fun g skip => execClauses_tame ⟨c.runner, g⟩ none skip clauses h.2
      rw [exec]
      refine .opened fun g => Tame.bind (tame_evalValue (c := ⟨c.runner, g⟩) h.1) fun v =>
        .bind (matchClause_tame ⟨c.runner, g⟩ v 0 h.2) fun found => ?_
      have hstart (start : Option Nat) : Tame L (some g) (match start with
          | none => return .normal none
          | some i => do
            declareFunctions ⟨c.runner, g⟩ ((clauses.drop i).flatMap Clause.body)
            return Completion.afterSwitch (endOfList (← execClauses ⟨c.runner, g⟩ none i clauses))) := by
        cases start with
        | none => exact .pure _
        | some i =>
            refine .bind (tame_declareFunctions (c := ⟨c.runner, g⟩) fun st hst => ?_) fun _ =>
              .bind (hclauses g i) fun _ => .pure _
            obtain ⟨cl, hcl, hst⟩ := List.mem_flatMap.1 hst
            exact stmtsTargeted_iff.1 (targeted_of_mem_clauses h.2 (List.mem_of_mem_drop hcl)) st hst
      cases found with
      | none => exact .bind (.pure _) hstart
      | some i => exact .bind (.pure _) hstart
  | .tryCatch body handler finalizer, h => by
      simp only [Stmt.targeted, Bool.and_eq_true] at h
      have hbody := exec_tame c [] body h.1.1
      have hhandler := fun c => handler_tame c handler h.1.2
      have hfinalizer := part_tame c finalizer h.2
      rw [exec]
      -- What comes last is the same for every way to get there.
      have hlast (ending : Completion) : Tame L (some c.scope) (match finalizer with
          | none => return ending
          | some st => do
            match ← counted c st (exec c [] st) with
            | .normal _ => return ending
            | last => return last) := by
        cases finalizer with
        | none => exact .pure _
        | some st =>
            refine .bind (hfinalizer st rfl).counted fun e => ?_
            split <;> exact .pure _
      refine .bind hbody.counted.attempt fun e => ?_
      generalize Completion.ofAttempt e = first
      cases handler with
      | none => exact .bind (.pure _) hlast
      | some handler =>
          obtain ⟨name, st⟩ := handler
          cases first with
          | throws v =>
              have hcaught (g : FrameId) : Tame L (some g) (do
                  perform (.put g (.ofText name) v)
                  (counted ⟨c.runner, g⟩ st (exec ⟨c.runner, g⟩ [] st)).attempt) :=
                .bind (.putScope (Key.proper_ofText name) _) fun _ => (hhandler ⟨c.runner, g⟩ name st rfl).counted.attempt
              exact .openedThen hcaught fun e => .bind (.pure _) hlast
          | _ => exact .bind (.pure _) hlast
  | .throws e, h => .bind (tame_evalValue h) fun _ => .pure _
  | .returns none, _ => .pure _
  | .returns (some e), h => .bind (tame_evalValue (by simpa [Stmt.targeted, optionalTargeted] using h)) fun _ => .pure _
  | .breaks label, _ => .pure _
  | .continues label, _ => .pure _
  | .labelled label body, h => by
      have hbody := exec_tame c (if takesLabels body then labels ++ [label] else []) body h
      rw [exec]
      exact .bind hbody.counted fun _ => .pure _
  | .within object body, h => by
      simp only [Stmt.targeted, Bool.and_eq_true] at h
      have hbody := fun c => exec_tame c [] body h.2
      rw [exec]
      exact .bind (tame_evalValue h.1) fun v => .bind (tame_toObject v) fun o =>
        .opened fun g => (hbody ⟨c.runner, g⟩).counted

theorem part_tame (c : Context) :
    (o : Option Stmt) → partTargeted o → ∀ st, o = some st → (exec c [] st).Tame L (some c.scope)
  | none, _, _, he => by cases he
  | some st, h, _, he => by
      cases he
      exact exec_tame c [] st h

theorem handler_tame (c : Context) :
    (o : Option (Text × Stmt)) → handlerTargeted o →
      ∀ name st, o = some (name, st) → (exec c [] st).Tame L (some c.scope)
  | none, _, _, _, he => by cases he
  | some (_, st), h, _, _, he => by
      cases he
      exact exec_tame c [] st h

theorem execList_tame (c : Context) (latest : Option Value) :
    (body : List Stmt) → stmtsTargeted body → (execList c latest body).Tame L (some c.scope)
  | [], _ => .pure _
  | st :: rest, h => by
      simp only [stmtsTargeted, Bool.and_eq_true] at h
      have hst := exec_tame c [] st h.1
      have hrest := fun latest => execList_tame c latest rest h.2
      unfold execList
      split
      · exact .pure _
      · rename_i he
        cases he
        exact hrest _
      · rename_i he
        cases he
        exact .bind hst.counted fun e => .thenRest hrest

theorem execClauses_tame (c : Context) (latest : Option Value) (skip : Nat) :
    (clauses : List Clause) → clausesTargeted clauses →
      (execClauses c latest skip clauses).Tame L (some c.scope)
  | [], _ => .pure _
  | .case test body :: rest, h => by
      simp only [clausesTargeted, Bool.and_eq_true] at h
      have hbody := execList_tame c latest body h.1.2
      have hrest := fun latest skip => execClauses_tame c latest skip rest h.2
      cases skip with
      | zero =>
          rw [execClauses]
          exact .bind hbody fun _ => .thenRest fun latest => hrest latest 0
      | succ n =>
          rw [execClauses]
          exact hrest latest n
  | .default body :: rest, h => by
      simp only [clausesTargeted, Bool.and_eq_true] at h
      have hbody := execList_tame c latest body h.1
      have hrest := fun latest skip => execClauses_tame c latest skip rest h.2
      cases skip with
      | zero =>
          rw [execClauses]
          exact .bind hbody fun _ => .thenRest fun latest => hrest latest 0
      | succ n =>
          rw [execClauses]
          exact hrest latest n

end

/-! ## Programs and bodies -/

/-- Names are declared in a scope that is rooted too. -/
theorem runList_onward (c : Context) {declareIn : FrameId} (hscope : s.Rooted c.scope)
    (hdeclare : s.Rooted declareIn) {body : List Stmt} (h : stmtsTargeted body) :
    (runList c declareIn body).Onward L s := by
  have hinner : (declareFunctions c body >>= fun _ => execList c none body >>= fun r =>
      return endOfList r).Tame L (some c.scope) :=
    .bind (tame_declareFunctions (stmtsTargeted_iff.1 h)) fun _ => .bind (execList_tame c none body h) fun _ => .pure _
  refine .bind ((tame_declareVariables _).onward ?_) fun _ => hinner.onward ?_
  · rintro _ ⟨⟩
    exact hdeclare
  · rintro _ ⟨⟩
    exact hscope

/-- A program that assigns only to what can be assigned to keeps to its licence. -/
theorem runProgram_tame (runner : RunnerId) {p : Program} (h : stmtsTargeted p) :
    (runProgram f runner p).Tame L (some f) := fun s hs hscope => by
  have hf := hscope f rfl
  have hlist : (runList ⟨runner, f⟩ (s.varScope f) p).Onward L s :=
    runList_onward ⟨runner, f⟩ hf (hs.rooted_varScope hf) h
  refine behaves_read.2 (hlist.bind (fun e => ?_) s (.refl hs))
  cases e with
  | normal v => exact .pure _
  | throws v => exact .throw v
  | breaks v label => exact .fault (by simp)
  | continues v label => exact .fault (by simp)
  | returns v => exact .fault (by simp)

theorem runBody_tame (runner : RunnerId) (name : Text) {body : List Stmt} (h : stmtsTargeted body) :
    (runBody f runner name body).Tame L (some f) := .of_onward fun s hs hscope => by
  have hf := hscope f rfl
  refine .bind (runList_onward ⟨runner, f⟩ hf hf h) fun e => ?_
  cases e with
  | normal v => exact .pure _
  | throws v => exact .throw v
  | breaks v label => exact .fault (by simp)
  | continues v label => exact .fault (by simp)
  | returns v => exact .pure _

end ScriptEngine
