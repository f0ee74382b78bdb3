import ScriptEngine.Proofs.Holes
import ScriptEngine.Proofs.Record

/-!
# Computations that mirror each other

A computation can be done in a second way that keeps account of more, or of something else, than the first. It
mirrors the first one if the same happens in the same states, and the results of the first can be read off those of
the second. This is checked piece by piece, and what is true of all results of the first carries over.

## Main definitions

* `Proc.Mirrors`: the second computation does what the first does.
* `Proc.Round.map`: rounds of loops with other results.

## Main results

* `Proc.Mirrors.bind`, `Proc.Mirrors.repeated`, `Proc.Mirrors.walk`: composed computations.
* `Proc.Mirrors.exists_of_ok`, `Proc.Mirrors.yields`: what carries over.
-/

namespace ScriptEngine

open Proc (Round)

variable {α β γ δ σ τ ι : Type}

/-! ## Results that correspond -/

/-- The end of a round that stands for another. -/
def Proc.Round.map (ψ : τ → σ) (φ : β → α) : Round τ β → Round σ α
  | .again x => .again (ψ x)
  | .done b => .done (φ b)

/-- Rounds that correspond. -/
theorem Passage.rounds_map {count : Passage Unit} {test body : σ → Passage (Round σ α)}
    {test' body' : τ → Passage (Round τ β)} {ψ : τ → σ} {φ : β → α}
    (htest : ∀ x s, test (ψ x) s = andThen (test' x s) fun r s => ([], .ok (r.map ψ φ), s))
    (hbody : ∀ x s, body (ψ x) s = andThen (body' x s) fun r s => ([], .ok (r.map ψ φ), s)) (n : Nat) (x : τ)
    (s : State) :
    rounds count test body n (ψ x) s = andThen (rounds count test' body' n x s) fun b s => ([], .ok (φ b), s) := by
  induction n generalizing x s with
  | zero => rfl
  | succ n ih =>
    simp only [rounds, htest, andThen_assoc]
    refine congrArg (andThen _) (funext fun r => funext fun s => ?_)
    cases r with
    | done b => rfl
    | again x =>
      change andThen (count s) _ = andThen (andThen (count s) _) _
      rw [andThen_assoc]
      refine congrArg (andThen _) (funext fun _ => funext fun s => ?_)
      simp only [hbody, andThen_assoc]
      refine congrArg (andThen _) (funext fun r => funext fun s => ?_)
      cases r with
      | done b => rfl
      | again x => exact ih x s

/-- The second computation does what the first does, and its results stand for those of the first. -/
def Proc.Mirrors (φ : β → α) (p : Proc α) (q : Proc β) : Prop :=
  ∀ limits bound within answers s,
    p.observe limits bound within answers s = (φ <$> q).observe limits bound within answers s

namespace Proc.Mirrors

variable {φ : β → α} {ψ : δ → γ} {p : Proc α} {q : Proc β}

theorem of_eq (h : p = φ <$> q) : Mirrors φ p q := fun _ _ _ _ _ => by rw [h]

protected theorem pure (b : β) : Mirrors φ (pure (φ b)) (pure b) := of_eq (map_pure φ b).symm

theorem bind (h : Mirrors φ p q) {f : α → Proc γ} {g : β → Proc δ} (hfg : ∀ b, Mirrors ψ (f (φ b)) (g b)) :
    Mirrors ψ (p >>= f) (q >>= g) := by
  intro limits bound within answers s
  calc (p >>= f).observe limits bound within answers s
    _ = ((φ <$> q) >>= f).observe limits bound within answers s := by
        rw [Proc.observe_bind, h limits bound within answers s, ← Proc.observe_bind]
    _ = (q >>= fun b => f (φ b)).observe limits bound within answers s := by rw [bind_map_left]
    _ = (q >>= fun b => ψ <$> g b).observe limits bound within answers s := by
        rw [Proc.observe_bind, Proc.observe_bind]
        exact congrArg _ (funext fun b => funext fun s => hfg b limits bound within answers s)
    _ = (ψ <$> (q >>= g)).observe limits bound within answers s := by rw [map_bind]

theorem after (p : Proc α) {f : α → Proc γ} {g : α → Proc δ} (h : ∀ a, Mirrors ψ (f a) (g a)) :
    Mirrors ψ (p >>= f) (p >>= g) := bind (φ := id) (of_eq (id_map p).symm) h

theorem ite {b : Prop} [Decidable b] {p' : Proc α} {q' : Proc β} (h : Mirrors φ p q) (h' : Mirrors φ p' q') :
    Mirrors φ (if b then p else p') (if b then q else q') := by
  split
  · exact h
  · exact h'

/-- A result stands for the one that there is at the same end of the first computation. -/
theorem exists_of_ok (h : Mirrors φ p q) {limits : Limits} {bound : Nat} {within : List Request}
    {answers : Request → Passage Value} {s t : State} {r : List Occurrence} {a : α}
    (hrun : p.observe limits bound within answers s = (r, .ok a, t)) :
    ∃ b, q.observe limits bound within answers s = (r, .ok b, t) ∧ a = φ b := by
  have hmap : (φ <$> q).observe limits bound within answers s =
      Passage.andThen (q.observe limits bound within answers s) fun b s => ([], .ok (φ b), s) :=
    Proc.observe_bind q _ s
  rw [h limits bound within answers s, hmap] at hrun
  rcases hq : q.observe limits bound within answers s with ⟨r', b | v | f | _, u⟩ <;> rw [hq] at hrun <;> cases hrun
  exact ⟨b, by simp, rfl⟩

theorem counted {c : Context} {s : Stmt} (h : Mirrors φ p q) : Mirrors φ (counted c s p) (counted c s q) :=
  after _ fun _ => h

theorem repeated {runner : RunnerId} {kind : NodeKind} {test body : σ → Proc (Round σ α)}
    {test' body' : τ → Proc (Round τ β)} (ψ : τ → σ) (htest : ∀ x, Mirrors (Round.map ψ φ) (test (ψ x)) (test' x))
    (hbody : ∀ x, Mirrors (Round.map ψ φ) (body (ψ x)) (body' x)) {x : τ} {y : σ} (hstart : y = ψ x) :
    Mirrors φ (Proc.repeated runner kind test body y) (Proc.repeated runner kind test' body' x) := by
  intro limits bound within answers s
  let count := Passage.perform limits within (.tick runner kind)
  have hmap (q : Proc (Round τ β)) (s : State) : (Round.map ψ φ <$> q).observe limits bound within answers s =
      Passage.andThen (q.observe limits bound within answers s) fun r s => ([], .ok (r.map ψ φ), s) :=
    Proc.observe_bind q _ s
  have hrounds : Passage.rounds count (fun x => (test x).observe limits bound within answers)
      (fun x => (body x).observe limits bound within answers) bound (ψ x) s =
        Passage.andThen (Passage.rounds count (fun x => (test' x).observe limits bound within answers)
          (fun x => (body' x).observe limits bound within answers) bound x s) fun b s => ([], .ok (φ b), s) :=
    Passage.rounds_map (fun x s => (htest x limits bound within answers s).trans (hmap _ s))
      (fun x s => (hbody x limits bound within answers s).trans (hmap _ s)) bound x s
  subst hstart
  change Passage.andThen _ _ =
    Proc.observe limits bound within answers (Proc.repeated runner kind test' body' x >>= _) s
  rw [hrounds, Proc.observe_bind]
  change _ = Passage.andThen (Passage.andThen _ _) _
  rw [Passage.andThen_assoc, Passage.andThen_assoc]
  rfl

theorem walk {round : ι → σ → Proc (Round σ α)} {round' : ι → τ → Proc (Round τ β)} {finish : σ → α}
    {finish' : τ → β} (ψ : τ → σ) (hround : ∀ a x, Mirrors (Round.map ψ φ) (round a (ψ x)) (round' a x))
    (hfinish : ∀ x, finish (ψ x) = φ (finish' x)) (as : List ι) {x : τ} {y : σ} (hstart : y = ψ x) :
    Mirrors φ (Proc.walk round finish as y) (Proc.walk round' finish' as x) := by
  subst hstart
  induction as generalizing x with
  | nil => exact of_eq (by rw [Proc.walk, hfinish, Proc.walk, map_pure])
  | cons a as ih =>
    refine (hround a x).bind fun r => ?_
    cases r with
    | again x => exact ih
    | done b => exact .pure b

end Proc.Mirrors

/-! ## What is true of results -/

/-- What is true of all results of a computation is true of those that stand for them. -/
theorem Proc.Mirrors.yields {R : α → Prop} {φ : β → α} {p : Proc α} {q : Proc β} (h : Mirrors φ p q)
    (hp : Yields R p) : Yields (fun b => R (φ b)) q := by
  intro limits bound handler s b t hrun
  have hsame := congrArg Prod.snd (h limits bound [] (fun r s => ([], handler r s)) s)
  rw [Proc.observe_snd, Proc.observe_snd] at hsame
  have hmap : (φ <$> q).run limits bound handler s = (.ok (φ b), t) := by
    change (q >>= fun b => pure (φ b)).run limits bound handler s = _
    rw [Proc.run_bind, hrun]
    rfl
  exact hp limits bound handler s (φ b) t (hsame.trans hmap)

end ScriptEngine
