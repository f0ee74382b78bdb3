import Mathlib
import ScriptEngine.Machine.Operator
import ScriptEngine.Proofs.Holes

/-!
# Equality across kinds

Two values of different kinds are compared in turns: as long as the comparison is not decided, a turn converts one of
the operands. Which operand it is depends on the kinds and on the sides, but the outcome does not: the order of the
operands does not matter, and a few turns are always enough.

There is one case without an outcome. A decimal numeral that is too large for a double counts as infinity, but a
hexadecimal one has no number, and a comparison that asks for it fails.

## Main definitions

* `Value.isScript`: the values that scripts have.
* `Number.TooLarge`: hexadecimal numerals without a number.
* `Operator.turn`, `Operator.turns`: a comparison in turns.
* `Operator.Settled`: a comparison that is decided, or that comes upon such a numeral.

## Main results

* `Operator.looseEqual_comm`, `Operator.turns_comm`: the order of the operands does not matter.
* `Operator.ends`: every comparison ends.
* `Operator.looseEqual_ladder`: what equality across kinds is.
* `Operator.looseEqual_hugeNumeral`: a comparison without an outcome.
-/

namespace ScriptEngine

open Proc

/-- Whether scripts have a value; a frame is a value only for a host. -/
def Value.isScript : Value → Bool
  | frame _ => false
  | _ => true

namespace Value

theorem identical_comm (a b : Value) : a.identical b = b.identical a := by
  cases a <;> cases b <;> first | rfl | exact BEq.comm

theorem kind_eq_of_identical {a b : Value} (h : a.identical b) : a.kind = b.kind := by
  cases a <;> cases b <;> first | rfl | cases h

theorem kind_obj (o : ObjectId) : (obj o).kind = .object := rfl

end Value

/-- A hexadecimal numeral for a number that is too large for a double. -/
structure Number.TooLarge (t : Text) : Prop where
  /-- It starts with the digit zero and an `x`. -/
  marked : ∃ x digits, Text.strip t = 48 :: x :: digits ∧ (x = 120 ∨ x = 88)
  /-- The rest of it are hexadecimal digits. -/
  digits : ((Text.strip t).drop 2).all Text.isHexDigit
  /-- There is no double for them. -/
  large : Number.ofInt? (Text.toNatBase 16 ((Text.strip t).drop 2)) = none

/-- Other texts have a number. -/
theorem Number.tooLarge_of_ofText?_eq_none {t : Text} (h : ofText? t = none) : TooLarge t := by
  unfold ofText? at h
  extract_lets s hexDigits at h
  split at h
  · cases h
  split at h
  · rename_i hform
    simp only [Bool.and_eq_true, beq_iff_eq, Option.any_eq_true, Bool.or_eq_true] at hform
    obtain ⟨⟨⟨hzero, x, hx, hmark⟩, -⟩, hdigits⟩ := hform
    refine ⟨?_, hdigits, h⟩
    change List.take 1 t.strip = [48] at hzero
    change (List.drop 1 t.strip).head? = some x at hx
    rcases hs : t.strip with - | ⟨z, - | ⟨y, digits⟩⟩ <;> rw [hs] at hzero hx <;> cases hzero <;> cases hx
    exact ⟨x, digits, rfl, hmark⟩
  · split at h
    split at h
    · cases h
    · split at h <;> cases h

namespace Operator

/-! ## The order of the operands -/

theorem primitiveToNumber_of_ne {v : Value} (h : v.kind ≠ .string) : ∃ x, primitiveToNumber v = return x := by
  cases v with
  | str t => exact absurd rfl h
  | _ => exact ⟨_, rfl⟩

theorem primitiveEqual_comm (a b : Value) : primitiveEqual a b = primitiveEqual b a := by
  unfold primitiveEqual
  by_cases hkind : a.kind = b.kind
  · rw [if_pos hkind, if_pos hkind.symm, Value.identical_comm]
  rw [if_neg hkind, if_neg (Ne.symm hkind), Bool.or_comm, Bool.and_comm]
  congr 1
  -- At most one of the operands is a text, and only a text can fail to have a number.
  by_cases ha : a.kind = .string
  · obtain ⟨y, hy⟩ := primitiveToNumber_of_ne fun hb => hkind (ha.trans hb.symm)
    simp only [hy, pure_bind, BEq.comm (a := y)]
  · obtain ⟨x, hx⟩ := primitiveToNumber_of_ne ha
    simp only [hx, pure_bind, BEq.comm (b := x)]

theorem looseEqual_comm (a b : Value) : looseEqual a b = looseEqual b a := by
  unfold looseEqual
  by_cases hkind : a.kind = b.kind
  · rw [if_pos hkind, if_pos hkind.symm, Value.identical_comm]
  rw [if_neg hkind, if_neg (Ne.symm hkind), Bool.or_comm, Bool.and_comm]
  congr 1
  by_cases ha : a.kind = .object
  · have hb : b.kind ≠ .object := fun hb => hkind (ha.trans hb.symm)
    rw [if_pos ha, if_neg hb, if_pos ha]
    simp only [primitiveEqual_comm b]
  · by_cases hb : b.kind = .object
    · rw [if_neg ha, if_pos hb, if_pos hb]
      simp only [primitiveEqual_comm a]
    · rw [if_neg ha, if_neg hb, if_neg hb, if_neg ha, primitiveEqual_comm]

/-! ## Turns -/

/-- One turn of a comparison: it is decided, or one of the operands is converted. -/
def turn (a b : Value) : Proc (Round (Value × Value) Bool) := do
  if a.kind = b.kind then return .done (a.identical b)
  else if a.isNullish || b.isNullish then return .done (a.isNullish && b.isNullish)
  else if a.kind = .boolean then return .again (.num (← primitiveToNumber a), b)
  else if b.kind = .boolean then return .again (a, .num (← primitiveToNumber b))
  else if a.kind = .number ∧ b.kind = .string then return .again (a, .num (← primitiveToNumber b))
  else if a.kind = .string ∧ b.kind = .number then return .again (.num (← primitiveToNumber a), b)
  else if a.kind = .object then
    let p ← toPrimitive a .none
    if isObject p then return .done false else return .again (p, b)
  else if b.kind = .object then
    let p ← toPrimitive b .none
    if isObject p then return .done false else return .again (a, p)
  else return .done false

/-- A comparison that is given up after a number of turns. -/
def turns : Nat → Value → Value → Proc (Option Bool)
  | 0, _, _ => return none
  | n + 1, a, b => do
    match ← turn a b with
    | .done r => return some r
    | .again (a, b) => turns n a b

/-- A turn with its operands the other way round. -/
def turned : Round (Value × Value) Bool → Round (Value × Value) Bool
  | .done r => .done r
  | .again (a, b) => .again (b, a)

theorem turned_converted (decided : Bool) (a b : Value) :
    turned <$> (if decided then return .done false else return .again (a, b) : Proc (Round (Value × Value) Bool)) =
      if decided then return .done false else return .again (b, a) := by
  cases decided <;> rfl

theorem turn_comm (a b : Value) : turn b a = turned <$> turn a b := by
  by_cases hkind : a.kind = b.kind
  · rw [turn, turn, if_pos hkind, if_pos hkind.symm, Value.identical_comm]
    rfl
  cases a <;> cases b <;> first
    | exact absurd rfl hkind
    | rfl
    | simp [turn, turned, turned_converted, primitiveToNumber, Value.kind, Value.isNullish]

theorem turns_comm (n : Nat) (a b : Value) : turns n b a = turns n a b := by
  induction n generalizing a b with
  | zero => rfl
  | succ n ih =>
    rw [turns, turns, turn_comm, bind_map_left]
    congr 1
    funext r
    cases r with
    | done r => rfl
    | again p => exact ih p.1 p.2

@[simp] theorem identical_num (x y : Float) : (Value.num x).identical (.num y) = (x == y) := rfl

/-- Two values of which neither is an object are compared in at most three turns. -/
theorem turns_primitive (n : Nat) {a b : Value} (ha : a.kind ≠ .object) (hb : b.kind ≠ .object) :
    turns (n + 3) a b = some <$> primitiveEqual a b := by
  cases a <;> cases b <;> first
    | exact absurd rfl ha
    | exact absurd rfl hb
    | rfl
    | simp [turns, turn, primitiveEqual, primitiveToNumber, Value.kind, Value.isNullish]

/-- Two turns are enough if one of the values is a number. -/
theorem turns_number (n : Nat) {a : Value} (ha : a.kind ≠ .object) (y : Float) :
    turns (n + 2) a (.num y) = some <$> primitiveEqual a (.num y) := by
  cases a <;> first
    | exact absurd rfl ha
    | rfl
    | simp [turns, turn, primitiveEqual, primitiveToNumber, Value.kind, Value.isNullish]

/-- A boolean counts as its number. -/
theorem primitiveEqual_bool (y : Bool) (p : Value) :
    primitiveEqual p (.num (if y then 1.0 else 0.0)) = primitiveEqual p (.bool y) := by
  have hbool (x : Bool) : ((if x then 1.0 else 0.0 : Float) == if y then 1.0 else 0.0) = (x == y) := by
    cases x <;> cases y <;> decide +kernel
  cases p <;> simp [primitiveEqual, primitiveToNumber, Value.kind, Value.isNullish, Value.identical, hbool]

theorem kind_ne_object {p : Value} (hp : p.isScript) (ho : isObject p = false) : p.kind ≠ .object := by
  cases p with
  | obj o => cases ho
  | frame f => cases hp
  | _ => simp [Value.kind]

/-! ## How comparisons end -/

section

variable {limits : Limits} {bound : Nat} {handler : Handler}

/-- An object is compared with something else by its primitive value. -/
theorem looseEqual_object (o : ObjectId) {b : Value} (hb : b.kind ≠ .object) (hnullish : b.isNullish = false) :
    looseEqual (.obj o) b = (do
      let p ← toPrimitive (.obj o) .none
      if isObject p then return false else primitiveEqual p b) := by
  have hkind : (Value.obj o).kind ≠ b.kind := Ne.symm hb
  have hneither : ((Value.obj o).isNullish || b.isNullish) = false := hnullish
  rw [looseEqual, if_neg hkind, hneither, if_neg Bool.false_ne_true, if_pos (Value.kind_obj o)]

theorem turns_object (n : Nat) (o : ObjectId) {b : Value} (hb : b.kind = .number ∨ b.kind = .string) :
    turns (n + 1) (.obj o) b = (do
      let p ← toPrimitive (.obj o) .none
      if isObject p then return some false else turns n p b) := by
  have hturn : turn (.obj o) b = (do
      let p ← toPrimitive (.obj o) .none
      if isObject p then return .done false else return .again (p, b)) := by
    cases b <;> simp [Value.kind] at hb <;> simp [turn, Value.kind, Value.isNullish]
  rw [turns, hturn, bind_assoc]
  congr 1
  funext p
  cases isObject p <;> rfl

theorem turns_object_bool (n : Nat) (o : ObjectId) (y : Bool) :
    turns (n + 1) (.obj o) (.bool y) = turns n (.obj o) (.num (if y then 1.0 else 0.0)) := by
  simp [turns, turn, primitiveToNumber, Value.kind, Value.isNullish]

/-- Four turns are enough for an object and something else. -/
theorem run_turns_object {o : ObjectId} {b p : Value} {s t : State} (hb : b.kind ≠ .object)
    (hnullish : b.isNullish = false) (hp : p.isScript)
    (h : (toPrimitive (.obj o) .none).run limits bound handler s = (.ok p, t)) :
    (turns 4 (.obj o) b).run limits bound handler s = (some <$> looseEqual (.obj o) b).run limits bound handler s := by
  rw [looseEqual_object o hb hnullish, map_bind, run_bind, h, Course.andThen_ok]
  cases b with
  | num y =>
    rw [turns_object 3 o (.inl rfl), run_bind, h, Course.andThen_ok]
    cases ho : isObject p
    · exact congrArg (·.run limits bound handler t) (turns_number 1 (kind_ne_object hp ho) y)
    · rfl
  | str y =>
    rw [turns_object 3 o (.inr rfl), run_bind, h, Course.andThen_ok]
    cases ho : isObject p
    · exact congrArg (·.run limits bound handler t) (turns_primitive 0 (kind_ne_object hp ho) hb)
    · rfl
  | bool y =>
    rw [turns_object_bool, turns_object 2 o (.inl rfl), run_bind, h, Course.andThen_ok]
    cases ho : isObject p
    · have hturns := turns_number 0 (kind_ne_object hp ho) (if y then 1.0 else 0.0)
      rw [primitiveEqual_bool] at hturns
      exact congrArg (·.run limits bound handler t) hturns
    · rfl
  | undefined => cases hnullish
  | null => cases hnullish
  | obj o => exact absurd rfl hb
  | frame f => exact absurd rfl hb

end

/-- A comparison is settled: it is decided, or it fails because one of the texts is a hexadecimal numeral that is too
large for a double. -/
inductive Settled (texts : Text → Prop) : Outcome Bool → Prop
  | decided (r : Bool) : Settled texts (.ok r)
  | tooLarge {t : Text} (ht : texts t) (hlarge : Number.TooLarge t) : Settled texts (.fault .integerTooLarge)

theorem Settled.mono {texts texts' : Text → Prop} {o : Outcome Bool} (h : Settled texts o)
    (hsub : ∀ t, texts t → texts' t) : Settled texts' o := by
  cases h with
  | decided r => exact .decided r
  | tooLarge ht hlarge => exact .tooLarge (hsub _ ht) hlarge

theorem primitiveToNumber_cases (v : Value) : (∃ x, primitiveToNumber v = return x) ∨
    ∃ t, v = .str t ∧ Number.TooLarge t ∧ primitiveToNumber v = fault .integerTooLarge := by
  cases v with
  | str t =>
    cases ht : Number.ofText? t with
    | some x => exact .inl ⟨x, by rw [primitiveToNumber, textToNumber, ht]⟩
    | none =>
      exact .inr ⟨t, rfl, Number.tooLarge_of_ofText?_eq_none ht, by rw [primitiveToNumber, textToNumber, ht]⟩
  | _ => exact .inl ⟨_, rfl⟩

/-- The comparison of two values of which neither is an object is settled, and changes nothing. -/
theorem settled_primitiveEqual (a b : Value) : ∃ o, Settled (fun t => a = .str t ∨ b = .str t) o ∧
    ∀ limits bound handler s, (primitiveEqual a b).run limits bound handler s = (o, s) := by
  unfold primitiveEqual
  split
  · exact ⟨_, .decided _, fun _ _ _ _ => rfl⟩
  split
  · exact ⟨_, .decided _, fun _ _ _ _ => rfl⟩
  rcases primitiveToNumber_cases a with ⟨x, hx⟩ | ⟨t, rfl, ht, hfault⟩
  · rw [hx, pure_bind]
    rcases primitiveToNumber_cases b with ⟨y, hy⟩ | ⟨t, rfl, ht, hfault⟩
    · rw [hy]
      exact ⟨_, .decided (x == y), fun _ _ _ _ => rfl⟩
    · rw [hfault]
      exact ⟨_, .tooLarge (.inr rfl) ht, fun _ _ _ _ => rfl⟩
  · rw [hfault]
    exact ⟨_, .tooLarge (.inl rfl) ht, fun _ _ _ _ => rfl⟩

theorem looseEqual_primitive {a b : Value} (ha : a.kind ≠ .object) (hb : b.kind ≠ .object) :
    looseEqual a b = primitiveEqual a b := by
  unfold looseEqual
  rw [if_neg ha, if_neg hb]
  unfold primitiveEqual
  split
  · rfl
  · split <;> rfl

/-- A value of which each conversion gives the same: the states in `S` are alike for scripts, and from each of them the
conversion of the value, if it is an object, gives its primitive value and leads to one of them. -/
def Steady (limits : Limits) (bound : Nat) (handler : Handler) (S : State → Prop) (prim : ObjectId → Value)
    (v : Value) : Prop :=
  ∀ o, v = .obj o → (prim o).isScript ∧
    ∀ s, S s → ∃ t, S t ∧ (toPrimitive v .none).run limits bound handler s = (.ok (prim o), t)

/-- The texts that a value can be compared by. -/
def Texts (prim : ObjectId → Value) (v : Value) (t : Text) : Prop := v = .str t ∨ ∃ o, v = .obj o ∧ prim o = .str t

section

variable {limits : Limits} {bound : Nat} {handler : Handler} {S : State → Prop} {prim : ObjectId → Value} {a b : Value}

/-- How comparisons of two values end, wherever they are made. -/
def Ends (limits : Limits) (bound : Nat) (handler : Handler) (S : State → Prop) (prim : ObjectId → Value)
    (a b : Value) : Prop :=
  ∃ verdict, Settled (fun t => Texts prim a t ∨ Texts prim b t) verdict ∧ ∀ s, S s → ∃ t, S t ∧
    (looseEqual a b).run limits bound handler s = (verdict, t) ∧
    (turns 4 a b).run limits bound handler s = (some <$> looseEqual a b).run limits bound handler s

theorem Ends.comm (h : Ends limits bound handler S prim a b) : Ends limits bound handler S prim b a := by
  obtain ⟨verdict, hsettled, hrun⟩ := h
  refine ⟨verdict, hsettled.mono fun t => Or.symm, ?_⟩
  rw [looseEqual_comm, turns_comm]
  exact hrun

/-- A comparison that is decided by the first turn. -/
theorem Ends.of_decided {r : Bool} (hloose : looseEqual a b = return r) (hturn : turn a b = return .done r) :
    Ends limits bound handler S prim a b := by
  refine ⟨.ok r, .decided r, fun s hs => ⟨s, hs, ?_, ?_⟩⟩
  · rw [hloose]
    rfl
  · rw [turns, hturn, hloose]
    rfl

theorem Ends.of_object {o : ObjectId} (hb : b.kind ≠ .object) (hnullish : b.isNullish = false)
    (ho : Steady limits bound handler S prim (.obj o)) : Ends limits bound handler S prim (.obj o) b := by
  obtain ⟨hp, hsteady⟩ := ho o rfl
  by_cases hobject : isObject (prim o)
  · refine ⟨.ok false, .decided false, fun s hs => ?_⟩
    obtain ⟨t, ht, hconversion⟩ := hsteady s hs
    refine ⟨t, ht, ?_, run_turns_object hb hnullish hp hconversion⟩
    rw [looseEqual_object o hb hnullish, run_bind, hconversion, Course.andThen_ok, if_pos hobject]
    rfl
  · obtain ⟨verdict, hsettled, hrun⟩ := settled_primitiveEqual (prim o) b
    refine ⟨verdict, hsettled.mono fun t => ?_, fun s hs => ?_⟩
    · exact Or.imp (fun h => .inr ⟨o, rfl, h⟩) .inl
    obtain ⟨t, ht, hconversion⟩ := hsteady s hs
    refine ⟨t, ht, ?_, run_turns_object hb hnullish hp hconversion⟩
    rw [looseEqual_object o hb hnullish, run_bind, hconversion, Course.andThen_ok, if_neg hobject, hrun]

/-- Every comparison of values that scripts have comes to an end, after four turns at most. -/
theorem ends (ha : a.isScript) (hb : b.isScript) (hsa : Steady limits bound handler S prim a)
    (hsb : Steady limits bound handler S prim b) : Ends limits bound handler S prim a b := by
  by_cases hkind : a.kind = b.kind
  · exact .of_decided (if_pos hkind) (if_pos hkind)
  by_cases hnullish : (a.isNullish || b.isNullish) = true
  · refine .of_decided (r := a.isNullish && b.isNullish) ?_ ?_
    · rw [looseEqual, if_neg hkind, if_pos hnullish]
    · rw [turn, if_neg hkind, if_pos hnullish]
  obtain ⟨hna, hnb⟩ := Bool.or_eq_false_iff.1 (Bool.eq_false_of_not_eq_true hnullish)
  by_cases hao : a.kind = .object
  · have hbo : b.kind ≠ .object := fun h => hkind (hao.trans h.symm)
    cases a with
    | obj o => exact .of_object hbo hnb hsa
    | frame f => cases ha
    | _ => cases hao
  by_cases hbo : b.kind = .object
  · cases b with
    | obj o => exact (Ends.of_object hao hna hsb).comm
    | frame f => cases hb
    | _ => cases hbo
  obtain ⟨verdict, hsettled, hrun⟩ := settled_primitiveEqual a b
  refine ⟨verdict, hsettled.mono fun t => Or.imp .inl .inl, fun s hs => ⟨s, hs, ?_, ?_⟩⟩
  · rw [looseEqual_primitive hao hbo, hrun]
  · rw [looseEqual_primitive hao hbo, turns_primitive 1 hao hbo]

end

/-! ## The ladder -/

/-- On either side a boolean counts as its number. -/
theorem looseEqual_bool (x : Bool) (b : Value) :
    looseEqual (.bool x) b = looseEqual (.num (if x then 1.0 else 0.0)) b := by
  have hbool (p : Value) : primitiveEqual (.bool x) p = primitiveEqual (.num (if x then 1.0 else 0.0)) p := by
    rw [primitiveEqual_comm, ← primitiveEqual_bool, primitiveEqual_comm]
  by_cases hb : b.kind = .object
  · cases b with
    | obj o =>
      rw [looseEqual_comm, looseEqual_comm _ (.obj o), looseEqual_object o (by simp [Value.kind]) rfl,
        looseEqual_object o (by simp [Value.kind]) rfl]
      simp only [primitiveEqual_bool]
    | frame f => exact hbool (.frame f)
    | _ => cases hb
  · rw [looseEqual_primitive (by simp [Value.kind]) hb, looseEqual_primitive (by simp [Value.kind]) hb, hbool]

/-- A number and a text are compared as numbers. -/
theorem looseEqual_num_str (x : Float) (t : Text) :
    looseEqual (.num x) (.str t) = (do return x == (← textToNumber t)) := rfl

theorem looseEqual_of_nullish {a : Value} (h : a.isNullish) (b : Value) : looseEqual a b = return b.isNullish := by
  cases a <;> cases h <;> cases b <;> rfl

theorem looseEqual_of_not_object {p b : Value} (hp : isObject p = false) (hb : b.kind ≠ .object) :
    looseEqual p b = primitiveEqual p b := by
  cases p with
  | obj o => cases hp
  | frame f =>
    cases b with
    | obj o => exact absurd rfl hb
    | frame g => exact absurd rfl hb
    | _ => rfl
  | _ => exact looseEqual_primitive (by simp [Value.kind]) hb

/-- Equality across kinds. The order of the operands does not matter; values that are identical are equal, and values of
one kind are equal only if they are identical. Across kinds it is a ladder: `undefined` and `null` equal each other and
nothing else, a boolean counts as its number, a number and a text are compared as numbers, and an object is compared
with anything else but `undefined` and `null` by its primitive value, unless that is still an object. Every comparison
comes to an end, after four turns at most: if the conversions of objects give the same each time, one verdict holds
wherever the comparison is made. It is no answer only if a text is a hexadecimal numeral too large for a double. -/
theorem looseEqual_ladder {a b : Value} (ha : a.isScript) (hb : b.isScript) :
    looseEqual a b = looseEqual b a ∧
      (a.identical b → looseEqual a b = return true) ∧
      (a.kind = b.kind → looseEqual a b = return a.identical b) ∧
      (a.isNullish → looseEqual a b = return b.isNullish) ∧
      (∀ x, a = .bool x → looseEqual a b = looseEqual (.num (if x then 1.0 else 0.0)) b) ∧
      (∀ x t, a = .num x → b = .str t → looseEqual a b = (do return x == (← textToNumber t))) ∧
      (∀ o, a = .obj o → b.kind ≠ .object → b.isNullish = false → looseEqual a b = (do
        let p ← toPrimitive a .none
        if isObject p then return false else looseEqual p b)) ∧
      ∀ limits bound handler S prim, Steady limits bound handler S prim a → Steady limits bound handler S prim b →
        ∃ verdict, Settled (fun t => Texts prim a t ∨ Texts prim b t) verdict ∧ ∀ s, S s → ∃ t, S t ∧
          (looseEqual a b).run limits bound handler s = (verdict, t) ∧
          (turns 4 a b).run limits bound handler s = (some <$> looseEqual a b).run limits bound handler s := by
  refine ⟨looseEqual_comm a b, fun h => ?_, fun h => if_pos h, fun h => looseEqual_of_nullish h b, ?_, ?_, ?_,
    fun limits bound handler S prim => ends ha hb⟩
  · rw [looseEqual, if_pos (Value.kind_eq_of_identical h), h]
  · rintro x rfl
    exact looseEqual_bool x b
  · rintro x t rfl rfl
    exact looseEqual_num_str x t
  · rintro o rfl hkind hnullish
    rw [looseEqual_object o hkind hnullish]
    congr 1
    funext p
    cases hp : isObject p
    · exact (looseEqual_of_not_object hp hkind).symm
    · rfl

/-- A store with one object, for the text `1`. -/
def boxedOne : State := { store := { objects := #[{ body := .string "1" }] } }

/-- The object for the text `1` equals `true`: the boolean counts as a number, and so does the text of the object. -/
theorem looseEqual_ladder_boxed :
    let handler : Handler := fun _ s => (.unfinished, s)
    ((Value.obj 0).isScript ∧ (Value.bool true).isScript) ∧
      Steady {} 0 handler (· = boxedOne) (fun _ => .str "1") (.obj 0) ∧
      (looseEqual (.obj 0) (.bool true)).run {} 0 handler boxedOne = (.ok true, boxedOne) ∧
      (turns 4 (.obj 0) (.bool true)).run {} 0 handler boxedOne = (.ok (some true), boxedOne) := by
  intro handler
  have hsteady : Steady {} 0 handler (· = boxedOne) (fun _ => .str "1") (.obj 0) := by
    rintro o ⟨⟩
    refine ⟨rfl, ?_⟩
    rintro s rfl
    exact ⟨boxedOne, rfl, rfl⟩
  have hbool : Steady {} 0 handler (· = boxedOne) (fun _ => .str "1") (.bool true) := by
    rintro o ⟨⟩
  have hequal : (looseEqual (.obj 0) (.bool true)).run {} 0 handler boxedOne = (.ok true, boxedOne) := rfl
  obtain ⟨-, -, -, -, -, -, -, hends⟩ := looseEqual_ladder (a := .obj 0) (b := .bool true) rfl rfl
  obtain ⟨verdict, -, hrun⟩ := hends {} 0 handler _ _ hsteady hbool
  obtain ⟨t, rfl, -, hturns⟩ := hrun boxedOne rfl
  refine ⟨⟨rfl, rfl⟩, hsteady, hequal, ?_⟩
  rw [hturns, map_eq_pure_bind, run_bind, hequal]
  rfl

/-- The text `0x` with 256 digits `f`, for the number `2 ^ 1024 - 1`. -/
def hugeNumeral : Text := Text.ofString "0x" ++ List.replicate 256 102

/-- Whether the number one equals this text is not answered. -/
theorem looseEqual_hugeNumeral :
    let handler : Handler := fun _ s => (.unfinished, s)
    (Value.num 1).isScript ∧ (Value.str hugeNumeral).isScript ∧ Number.TooLarge hugeNumeral ∧
      (looseEqual (.num 1) (.str hugeNumeral)).run {} 0 handler boxedOne = (.fault .integerTooLarge, boxedOne) := by
  intro handler
  have hnumber : Number.ofText? hugeNumeral = none := by
    have hnone : (Number.ofText? hugeNumeral).isNone := by decide +kernel
    exact Option.isNone_iff_eq_none.1 hnone
  refine ⟨rfl, rfl, Number.tooLarge_of_ofText?_eq_none hnumber, ?_⟩
  rw [looseEqual_num_str, textToNumber, hnumber]
  rfl

end Operator

end ScriptEngine
