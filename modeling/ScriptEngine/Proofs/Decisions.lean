import ScriptEngine.Proofs.Run

/-!
# Computations that only compare

Some computations do nothing but compare elements, and decide after each comparison how to go on. They are trees: a leaf
is a result, and a node is a comparison with a subtree for each answer. What is true of the answers is known where the
subtrees are looked at, so what is true of the result can be shown along the tree, without a word about what a
comparison does besides answering.

A comparison may be anything that a script can do. A run of such a computation is a series of comparisons, one after
another, and it ends with a result, unless a comparison has none: then the run ends as this comparison does.

## Main definitions

* `Proc.Decides`: computations that only compare, and what is true of their results.
* `State.Compared`: the states between the comparisons of a run.
* `Course.Breaks`: a run that ends because a part of it has no result.

## Main results

* `Proc.Decides.bind`: one computation after another.
* `Proc.Decides.run`: how a run ends.
-/

namespace ScriptEngine

variable {α β γ : Type}

/-! ## Trees -/

/-- A computation that only compares elements with `P`. Every result that it can come to has `Q`, if each comparison of
two elements has given an answer in `R` only. -/
inductive Proc.Decides (compare : α → α → Proc Bool) (P : α → Prop) (R : α → α → Bool → Prop) (Q : β → Prop) :
    Proc β → Prop
  /-- A result. -/
  | leaf {b : β} (h : Q b) : Decides compare P R Q (pure b)
  /-- A comparison, and what follows after each of its answers. -/
  | node {x y : α} {k : Bool → Proc β} (hx : P x) (hy : P y)
      (h : ∀ answer, R x y answer → Decides compare P R Q (k answer)) :
      Decides compare P R Q (compare x y >>= k)

namespace Proc.Decides

variable {compare : α → α → Proc Bool} {P : α → Prop} {R : α → α → Bool → Prop} {Q : β → Prop} {Q' : γ → Prop}

/-- One computation after another. -/
theorem bind {p : Proc β} {f : β → Proc γ} (hp : Decides compare P R Q p)
    (hf : ∀ b, Q b → Decides compare P R Q' (f b)) : Decides compare P R Q' (p >>= f) := by
  induction hp with
  | leaf h =>
    rw [pure_bind]
    exact hf _ h
  | node hx hy _ ih =>
    rw [bind_assoc]
    exact .node hx hy ih

theorem mono {p : Proc β} {Q' : β → Prop} (hp : Decides compare P R Q p) (h : ∀ b, Q b → Q' b) :
    Decides compare P R Q' p := by
  induction hp with
  | leaf hb => exact .leaf (h _ hb)
  | node hx hy _ ih => exact .node hx hy ih

/-- Less is known of the answers if more of them are possible. -/
theorem of_answers {p : Proc β} {R' : α → α → Bool → Prop} (hp : Decides compare P R Q p)
    (h : ∀ x y answer, R' x y answer → R x y answer) : Decides compare P R' Q p := by
  induction hp with
  | leaf hb => exact .leaf hb
  | node hx hy _ ih => exact .node hx hy fun answer hanswer => ih answer (h _ _ answer hanswer)

/-- A single comparison. -/
theorem single {x y : α} (hx : P x) (hy : P y) : Decides compare P R (R x y) (compare x y) := by
  have htree : Decides compare P R (R x y) (compare x y >>= pure) := .node hx hy fun _ h => .leaf h
  rwa [bind_pure] at htree

end Proc.Decides

/-! ## Runs -/

/-- The first run has no result, and whatever was to come after it, the second one ends as it does. -/
structure Course.Breaks (r : Outcome α × State) (r' : Outcome β × State) : Prop where
  /-- There is no result. -/
  unanswered (a : α) (t : State) : r ≠ (.ok a, t)
  /-- Nothing comes after it. -/
  ends (f : α → Course β) : Course.andThen r f = r'

/-- A run that ends because a part of it has no result has none. -/
theorem Course.Breaks.ne_ok {r : Outcome α × State} {r' : Outcome β × State} (h : Course.Breaks r r') (b : β)
    (t : State) : r' ≠ (.ok b, t) := by
  have hends := h.ends fun _ t => (.unfinished, t)
  rcases hr : r with ⟨a | v | e | _, u⟩
  · exact absurd hr (h.unanswered a u)
  all_goals
    rw [hr] at hends
    rw [← hends]
    simp

section Runs

variable {limits : Limits} {bound : Nat} {handler : Handler} {compare : α → α → Proc Bool} {P : α → Prop}
  {R : α → α → Bool → Prop} {Q : β → Prop} {s : State}

/-- The states that are reached by comparisons of elements with `P`, one after another. -/
inductive State.Compared (limits : Limits) (bound : Nat) (handler : Handler) (compare : α → α → Proc Bool) (P : α → Prop)
    (s : State) : State → Prop
  /-- Nothing has been compared yet. -/
  | start : Compared limits bound handler compare P s s
  /-- One more comparison has been answered. -/
  | next {u t : State} {x y : α} {answer : Bool} (h : Compared limits bound handler compare P s u) (hx : P x) (hy : P y)
      (hrun : (compare x y).run limits bound handler u = (.ok answer, t)) : Compared limits bound handler compare P s t

/-- Comparisons that leave the state as it is. -/
theorem State.Compared.eq_self (hpure : ∀ x y, ∃ answer, (compare x y).run limits bound handler s = (.ok answer, s))
    {t : State} (ht : s.Compared limits bound handler compare P t) : t = s := by
  induction ht with
  | start => rfl
  | @next u t x y answer _ _ _ hrun ih =>
    obtain ⟨before, hbefore⟩ := hpure x y
    rw [ih, hbefore] at hrun
    exact (Prod.mk.inj hrun).2.symm

/-- A comparison, on the way of a run, that is not answered, and the run ends as it does. -/
def State.Fails (limits : Limits) (bound : Nat) (handler : Handler) (compare : α → α → Proc Bool) (P : α → Prop)
    (s : State) (r : Outcome β × State) : Prop :=
  ∃ u x y, s.Compared limits bound handler compare P u ∧ P x ∧ P y ∧
    Course.Breaks ((compare x y).run limits bound handler u) r

/-- A relation that lasts relates the states between comparisons. -/
theorem Lasting.compared {I : State → State → Prop} (h : Lasting limits I) (hhandler : ∀ r s, I s (handler r s).2)
    {t : State} (ht : s.Compared limits bound handler compare P t) : I s t := by
  induction ht with
  | start => exact h.refl s
  | @next u t x y answer _ _ _ hrun ih =>
    have hlast : I u ((compare x y).run limits bound handler u).2 := h.run hhandler _ u
    rw [hrun] at hlast
    exact h.trans ih hlast

/-- What ends a run also ends one of which it is the first part. -/
theorem State.Fails.andThen {r : Outcome β × State} (h : s.Fails limits bound handler compare P r) (f : β → Course γ) :
    s.Fails limits bound handler compare P (Course.andThen r f) := by
  obtain ⟨u, x, y, hu, hx, hy, hunanswered, hends⟩ := h
  refine ⟨u, x, y, hu, hx, hy, hunanswered, fun g => ?_⟩
  have hfirst := hends fun _ t => (.unfinished, t)
  rcases hrun : (compare x y).run limits bound handler u with ⟨a | v | e | _, t⟩
  · exact absurd hrun (hunanswered a t)
  all_goals
    rw [hrun] at hfirst
    rw [← hfirst]
    rfl

/-- A run of a computation that only compares ends with a result of the computation, after comparisons only, or it ends as
a comparison does that is not answered. -/
theorem Proc.Decides.run {p : Proc β} (hp : Decides compare P R Q p)
    (hanswers : ∀ u x y answer t, s.Compared limits bound handler compare P u → P x → P y →
      (compare x y).run limits bound handler u = (.ok answer, t) → R x y answer) :
    (∃ b t, p.run limits bound handler s = (.ok b, t) ∧ Q b ∧ s.Compared limits bound handler compare P t) ∨
      s.Fails limits bound handler compare P (p.run limits bound handler s) := by
  -- The run of a subtree starts after the comparisons above it.
  have hfrom (u : State) (hu : s.Compared limits bound handler compare P u) :
      (∃ b t, p.run limits bound handler u = (.ok b, t) ∧ Q b ∧ s.Compared limits bound handler compare P t) ∨
        s.Fails limits bound handler compare P (p.run limits bound handler u) := by
    induction hp generalizing u with
    | @leaf b h => exact .inl ⟨b, u, rfl, h, hu⟩
    | @node x y k hx hy _ ih =>
      rw [run_bind]
      rcases hrun : (compare x y).run limits bound handler u with ⟨answer | v | e | _, t⟩
      · exact ih answer (hanswers u x y answer t hu hx hy hrun) t (hu.next hx hy hrun)
      all_goals exact .inr ⟨u, x, y, hu, hx, hy, by simp [hrun], fun f => by rw [hrun]; rfl⟩
  exact hfrom s .start

end Runs

end ScriptEngine
