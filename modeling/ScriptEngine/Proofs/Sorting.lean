import ScriptEngine.Builtin.Sorting
import ScriptEngine.Proofs.Decisions

/-!
# Insertion, runs and galloping

The parts of which sorting is made do nothing but compare, so each has one statement about its decision tree. It says
what is true whatever the comparison answers, namely that elements are moved and not lost; and what is true besides if
the comparison is fair, which means that it orders the elements by a key. Then lists are in the order of their keys, and
elements with the same key have not passed each other.

## Main definitions

* `Sorting.Arranged`: a list with its elements moved.
* `Sorting.Ascending`: a list in the order of the keys.
* `Sorting.Sorts`: decision trees of comparisons of given elements.

## Main results

* `Sorting.sorts_insertionSort`, `Sorting.sorts_takeRun`: sorted lists that are made by insertion and as runs.
* `Sorting.sorts_prefixCount`: what galloping finds.
-/

namespace ScriptEngine

namespace Sorting

variable {α β : Type} {fair : Prop} {key : α → Int} {l l' m m' : List α}

/-! ## Lists with their elements moved -/

/-- The elements of a list, moved; if the comparison is fair, elements with the same key have stayed in their order. -/
structure Arranged (fair : Prop) (key : α → Int) (l l' : List α) : Prop where
  /-- No element is lost or added. -/
  perm : l.Perm l'
  /-- Elements with the same key have not passed each other. -/
  stable : fair → ∀ k, l'.filter (key · = k) = l.filter (key · = k)

namespace Arranged

theorem refl (l : List α) : Arranged fair key l l := ⟨.refl l, fun _ _ => rfl⟩

theorem trans (h : Arranged fair key l m) (h' : Arranged fair key m l') : Arranged fair key l l' :=
  ⟨h.perm.trans h'.perm, fun hfair k => (h'.stable hfair k).trans (h.stable hfair k)⟩

theorem append (h : Arranged fair key l l') (h' : Arranged fair key m m') : Arranged fair key (l ++ m) (l' ++ m') where
  perm := h.perm.append h'.perm
  stable hfair k := by rw [List.filter_append, List.filter_append, h.stable hfair k, h'.stable hfair k]

/-- Two parts of a list can pass each other if all keys in one are less than those in the other. -/
theorem swap (hless : fair → ∀ x ∈ l, ∀ y ∈ m, key y < key x) : Arranged fair key (l ++ m) (m ++ l) where
  perm := List.perm_append_comm
  stable hfair k := by
    rw [List.filter_append, List.filter_append]
    by_cases hk : ∃ x ∈ l, key x = k
    · obtain ⟨x, hx, rfl⟩ := hk
      have hnone : m.filter (key · = key x) = [] := by
        rw [List.filter_eq_nil_iff]
        intro y hy
        simpa using Int.ne_of_lt (hless hfair x hx y hy)
      rw [hnone, List.append_nil, List.nil_append]
    · have hnone : l.filter (key · = k) = [] := by
        rw [List.filter_eq_nil_iff]
        intro x hx
        simpa using fun he => hk ⟨x, hx, he⟩
      rw [hnone, List.append_nil, List.nil_append]

/-- From the other end the order of the keys is the other one. -/
theorem reverse (h : Arranged fair (fun x => -key x) l l') : Arranged fair key l.reverse l'.reverse where
  perm := ((List.reverse_perm l).trans h.perm).trans (List.reverse_perm l').symm
  stable hfair k := by
    have hkeys (m : List α) : m.filter (key · = k) = m.filter (-key · = -k) :=
      List.filter_congr fun x _ => by simp
    rw [List.filter_reverse, List.filter_reverse, hkeys, hkeys, h.stable hfair]

theorem forall_mem {P : α → Prop} (h : Arranged fair key l l') (hl : ∀ x ∈ l, P x) : ∀ x ∈ l', P x :=
  fun x hx => hl x (h.perm.mem_iff.2 hx)

end Arranged

/-- The elements of a list are in the order of their keys, if the comparison is fair. -/
def Ascending (fair : Prop) (key : α → Int) (l : List α) : Prop := fair → l.Pairwise (key · ≤ key ·)

namespace Ascending

theorem sublist (h : Ascending fair key l) (hm : m.Sublist l) : Ascending fair key m := fun hfair => (h hfair).sublist hm

/-- Two lists in order make one if no key in the second is less than one in the first. -/
theorem append (h : Ascending fair key l) (h' : Ascending fair key m)
    (hle : fair → ∀ x ∈ l, ∀ y ∈ m, key x ≤ key y) : Ascending fair key (l ++ m) :=
  fun hfair => List.pairwise_append.2 ⟨h hfair, h' hfair, hle hfair⟩

theorem left (h : Ascending fair key (l ++ m)) : Ascending fair key l := h.sublist (List.sublist_append_left l m)

theorem right (h : Ascending fair key (l ++ m)) : Ascending fair key m := h.sublist (List.sublist_append_right l m)

theorem le (h : Ascending fair key (l ++ m)) (hfair : fair) : ∀ x ∈ l, ∀ y ∈ m, key x ≤ key y :=
  (List.pairwise_append.1 (h hfair)).2.2

theorem take (h : Ascending fair key l) (n : Nat) : Ascending fair key (l.take n) := h.sublist (List.take_sublist n l)

theorem drop (h : Ascending fair key l) (n : Nat) : Ascending fair key (l.drop n) := h.sublist (List.drop_sublist n l)

theorem singleton (x : α) : Ascending fair key [x] := fun _ => List.pairwise_singleton _ x

theorem reverse (h : Ascending fair (fun x => -key x) l) : Ascending fair key l.reverse := by
  intro hfair
  rw [List.pairwise_reverse]
  exact (h hfair).imp fun hle => by simpa using hle

theorem turn (h : Ascending fair key l) : Ascending fair (fun x => -key x) l.reverse := by
  intro hfair
  rw [List.pairwise_reverse]
  exact (h hfair).imp fun hle => by simpa using hle

/-- The first element has the least key. -/
theorem head_le {x : α} (h : Ascending fair key (x :: l)) (hfair : fair) : ∀ y ∈ x :: l, key x ≤ key y := by
  intro y hy
  rcases List.mem_cons.1 hy with rfl | hy
  · exact Int.le_refl _
  · exact (List.pairwise_cons.1 (h hfair)).1 y hy

/-- The last element has the greatest key. -/
theorem le_getLast {x : α} (h : Ascending fair key l) (hfair : fair) (hx : l.getLast? = some x) :
    ∀ y ∈ l, key y ≤ key x := by
  obtain ⟨init, rfl⟩ := List.getLast?_eq_some_iff.1 hx
  intro y hy
  rcases List.mem_append.1 hy with hy | hy
  · exact h.le hfair y hy x (List.mem_singleton_self x)
  · exact Int.le_of_eq (congrArg key (List.mem_singleton.1 hy))

/-- What stands before an element has no greater key, and what stands after it no smaller one. -/
theorem around (h : Ascending fair key l) (hfair : fair) {i : Nat} {x : α} (hx : l[i]? = some x) :
    (∀ y ∈ l.take (i + 1), key y ≤ key x) ∧ ∀ y ∈ l.drop i, key x ≤ key y := by
  obtain ⟨hi, rfl⟩ := List.getElem?_eq_some_iff.1 hx
  have hsplit := h hfair
  rw [← List.take_append_drop i l, List.pairwise_append, List.drop_eq_getElem_cons hi, List.pairwise_cons] at hsplit
  obtain ⟨-, ⟨hafter, -⟩, hbefore⟩ := hsplit
  rw [List.take_succ_eq_append_getElem hi, List.drop_eq_getElem_cons hi]
  constructor
  · intro y hy
    rcases List.mem_append.1 hy with hy | hy
    · exact hbefore y hy _ List.mem_cons_self
    · exact Int.le_of_eq (congrArg key (List.mem_singleton.1 hy))
  · intro y hy
    rcases List.mem_cons.1 hy with rfl | hy
    · exact Int.le_refl _
    · exact hafter y hy

end Ascending

/-! ## Insertion -/

/-- A computation that compares elements with `P` only, with a result that has `Q`; the comparison orders them by their
keys if it is fair. -/
abbrev Sorts (lt : Before α) (P : α → Prop) (fair : Prop) (key : α → Int) (Q : β → Prop) (p : Proc β) : Prop :=
  Proc.Decides lt P (fun x y answer => fair → (answer = true ↔ key x < key y)) Q p

variable {lt : Before α} {P : α → Prop} {x : α}

/-- An element is inserted after all that have no greater key. -/
theorem sorts_insertionPoint (hl : ∀ y ∈ l, P y) (hx : P x) (horder : Ascending fair key l) (lo hi : Nat) (hle : lo ≤ hi)
    (hsize : hi ≤ l.length) (hlow : fair → ∀ y ∈ l.take lo, key y ≤ key x)
    (hhigh : fair → ∀ y ∈ l.drop hi, key x < key y) :
    Sorts lt P fair key
      (fun n => fair → (∀ y ∈ l.take n, key y ≤ key x) ∧ ∀ y ∈ l.drop n, key x < key y)
      (insertionPoint lt l.toArray x lo hi) := by
  induction lo, hi using insertionPoint.induct l.toArray with
  | case1 lo hi hlt mid hnone =>
    rw [List.getElem?_toArray, List.getElem?_eq_none_iff] at hnone
    omega
  | case2 lo hi hlt mid y hy ihlow ihhigh =>
    rw [insertionPoint, if_pos hlt]
    simp only [show l.toArray[lo + (hi - lo) / 2]? = some y from hy]
    rw [List.getElem?_toArray] at hy
    refine .node hx (hl y (List.mem_of_getElem? hy)) fun answer hanswer => ?_
    have haround (hfair : fair) := horder.around hfair hy
    cases answer with
    | true =>
      refine ihlow (by omega) (by omega) hlow fun hfair z hz => ?_
      exact Int.lt_of_lt_of_le ((hanswer hfair).1 rfl) ((haround hfair).2 z hz)
    | false =>
      refine ihhigh (by omega) hsize (fun hfair z hz => ?_) hhigh
      have hnot : ¬key x < key y := fun h => Bool.false_ne_true ((hanswer hfair).2 h)
      exact Int.le_trans ((haround hfair).1 z hz) (Int.not_lt.1 hnot)
  | case3 lo hi hlt =>
    obtain rfl : lo = hi := by omega
    rw [insertionPoint, if_neg hlt]
    exact .leaf fun hfair => ⟨hlow hfair, hhigh hfair⟩

/-- Insertion keeps a sorted list sorted. -/
theorem sorts_insertionSort (hl : ∀ y ∈ l, P y) (hm : ∀ y ∈ m, P y) (horder : Ascending fair key l) :
    Sorts lt P fair key (fun r => Arranged fair key (l ++ m) r ∧ Ascending fair key r) (insertionSort lt l m) := by
  induction m generalizing l with
  | nil =>
    rw [List.append_nil]
    exact .leaf ⟨.refl l, horder⟩
  | cons x m ih =>
    have hx := hm x List.mem_cons_self
    rw [insertionSort]
    refine (sorts_insertionPoint hl hx horder 0 l.length (Nat.zero_le _) (Nat.le_refl _) (by simp) (by simp)).bind
      fun n hn => ?_
    -- The element passes those with greater keys.
    have hpassed : Arranged fair key (l.drop n ++ [x]) ([x] ++ l.drop n) :=
      .swap fun hfair y hy z hz => by
        rw [List.mem_singleton.1 hz]
        exact (hn hfair).2 y hy
    have harranged : Arranged fair key (l ++ [x]) (l.take n ++ x :: l.drop n) := by
      have happend := (@Arranged.refl α fair key (l.take n)).append hpassed
      rwa [← List.append_assoc, List.take_append_drop] at happend
    have hinserted : Ascending fair key (l.take n ++ x :: l.drop n) := by
      intro hfair
      have hsplit := horder hfair
      rw [← List.take_append_drop n l, List.pairwise_append] at hsplit
      obtain ⟨htake, hdrop, hle⟩ := hsplit
      refine List.pairwise_append.2 ⟨htake, List.pairwise_cons.2 ⟨fun y hy => ?_, hdrop⟩, fun y hy z hz => ?_⟩
      · exact Int.le_of_lt ((hn hfair).2 y hy)
      · rcases List.mem_cons.1 hz with rfl | hz
        · exact (hn hfair).1 y hy
        · exact hle y hy z hz
    have hall : ∀ y ∈ l ++ [x], P y := by
      intro y hy
      rcases List.mem_append.1 hy with hy | hy
      · exact hl y hy
      · rwa [List.mem_singleton.1 hy]
    refine (ih (harranged.forall_mem hall) (fun y hy => hm y (List.mem_cons_of_mem x hy)) hinserted).mono fun r hr => ?_
    refine ⟨?_, hr.2⟩
    have hfirst := harranged.append (.refl m)
    rw [List.append_assoc, List.singleton_append] at hfirst
    exact hfirst.trans hr.1

/-! ## Runs -/

/-- How neighbours, and with them all elements of a run, are related. -/
def InRun (key : α → Int) (descending : Bool) (x y : α) : Prop := if descending then key y < key x else key x ≤ key y

theorem InRun.trans {descending : Bool} {x y z : α} (h : InRun key descending x y) (h' : InRun key descending y z) :
    InRun key descending x z := by
  cases descending with
  | true => exact Int.lt_trans h' h
  | false => exact Int.le_trans h h'

/-- The answer for two neighbours says whether they can stand in one run. -/
theorem inRun_of_answer {descending answer : Bool} {x y : α} (hanswer : answer = true ↔ key y < key x)
    (h : answer = descending) : InRun key descending x y := by
  subst h
  cases answer with
  | true => exact hanswer.1 rfl
  | false => exact Int.not_lt.1 fun hlt => Bool.false_ne_true (hanswer.2 hlt)

/-- A run goes on as long as neighbours are related in the same way. -/
theorem sorts_runRest (descending : Bool) (n : Nat) (hx : P x) (hl : ∀ y ∈ l, P y) :
    Sorts lt P fair key
      (fun r => ∃ j, r = n + j ∧ (fair → (x :: l.take j).Pairwise (InRun key descending)))
      (runRest lt descending n x l) := by
  induction l generalizing x n with
  | nil => exact .leaf ⟨0, rfl, fun _ => List.pairwise_singleton _ x⟩
  | cons y l ih =>
    have hy := hl y List.mem_cons_self
    rw [runRest]
    refine .node hy hx fun answer hanswer => ?_
    by_cases hsame : answer = descending
    · rw [if_pos hsame]
      refine (ih (n + 1) hy fun z hz => hl z (List.mem_cons_of_mem y hz)).mono fun r hr => ?_
      obtain ⟨j, rfl, hpairs⟩ := hr
      refine ⟨j + 1, by omega, fun hfair => ?_⟩
      have hfirst := inRun_of_answer (hanswer hfair) hsame
      refine List.pairwise_cons.2 ⟨fun z hz => ?_, hpairs hfair⟩
      rcases List.mem_cons.1 hz with rfl | hz
      · exact hfirst
      · exact hfirst.trans ((List.pairwise_cons.1 (hpairs hfair)).1 z hz)
    · rw [if_neg hsame]
      exact .leaf ⟨0, rfl, fun _ => List.pairwise_singleton _ x⟩

/-- In a strictly descending list no two elements have the same key, so it can be reversed. -/
theorem arranged_reverse (h : fair → l.Pairwise fun x y => key y < key x) : Arranged fair key l l.reverse where
  perm := (List.reverse_perm l).symm
  stable hfair k := by
    have hsublist : (l.filter (key · = k)).Pairwise fun x y => key y < key x := (h hfair).sublist List.filter_sublist
    have hkeys : ∀ x ∈ l.filter (key · = k), key x = k := fun x hx => by simpa using (List.mem_filter.1 hx).2
    rw [List.filter_reverse]
    -- At most one element is left.
    rcases hfilter : l.filter (key · = k) with _ | ⟨x, _ | ⟨y, rest⟩⟩
    · rfl
    · rfl
    · rw [hfilter] at hsublist hkeys
      have hlt := (List.pairwise_cons.1 hsublist).1 y List.mem_cons_self
      rw [hkeys x List.mem_cons_self, hkeys y (by simp)] at hlt
      exact absurd hlt (Int.lt_irrefl k)

/-- The first run of a list is in order, and with the rest it makes up the list. -/
theorem sorts_takeRun (hl : ∀ y ∈ l, P y) :
    Sorts lt P fair key
      (fun r => Arranged fair key l (r.1 ++ r.2) ∧ Ascending fair key r.1 ∧ (l ≠ [] → r.2.length < l.length))
      (takeRun lt l) := by
  rcases l with _ | ⟨x, _ | ⟨y, l⟩⟩
  · exact .leaf ⟨.refl [], fun _ => .nil, fun h => absurd rfl h⟩
  · exact .leaf ⟨.refl [x], .singleton x, fun _ => Nat.zero_lt_one⟩
  · have hx := hl x List.mem_cons_self
    have hy := hl y (by simp)
    rw [takeRun]
    refine .node hy hx fun descending hdescending => ?_
    refine (sorts_runRest descending 0 hy fun z hz => hl z (by simp [hz])).bind fun n hn => ?_
    obtain ⟨j, rfl, hpairs⟩ := hn
    rw [Nat.zero_add]
    have hrun (hfair : fair) : (x :: y :: l.take j).Pairwise (InRun key descending) := by
      have hfirst := inRun_of_answer (hdescending hfair) rfl
      refine List.pairwise_cons.2 ⟨fun z hz => ?_, hpairs hfair⟩
      rcases List.mem_cons.1 hz with rfl | hz
      · exact hfirst
      · exact hfirst.trans ((List.pairwise_cons.1 (hpairs hfair)).1 z hz)
    have hwhole : x :: y :: l = (x :: y :: l.take j) ++ l.drop j := by simp
    refine .leaf ⟨?_, ?_, fun _ => by simp; omega⟩
    · cases descending with
      | true =>
        have hreversed := (arranged_reverse hrun).append (.refl (l.drop j))
        rwa [← hwhole] at hreversed
      | false =>
        rw [hwhole]
        exact .refl _
    · cases descending with
      | true => exact fun hfair => List.pairwise_reverse.2 ((hrun hfair).imp Int.le_of_lt)
      | false => exact hrun

/-! ## Galloping

What is looked for is the end of the elements with some property; if the comparison is fair, they all stand at the
start. -/

/-- The number of elements at the start of a list with a property, none of which comes later. -/
def Leads (fair : Prop) (T : α → Prop) (l : List α) (n : Nat) : Prop :=
  fair → (∀ y ∈ l.take n, T y) ∧ ∀ y ∈ l.drop n, ¬T y

variable {T : α → Prop} {p : α → Proc Bool}

/-- Elements with a property come first, so one with it comes after such elements only, and one without it before elements
without it. -/
theorem leads_around (horder : fair → l.Pairwise fun y z => T z → T y) (hfair : fair) {i : Nat} {y : α}
    (hy : l[i]? = some y) : (T y → ∀ z ∈ l.take (i + 1), T z) ∧ (¬T y → ∀ z ∈ l.drop i, ¬T z) := by
  obtain ⟨hi, rfl⟩ := List.getElem?_eq_some_iff.1 hy
  have hsplit := horder hfair
  rw [← List.take_append_drop i l, List.pairwise_append, List.drop_eq_getElem_cons hi, List.pairwise_cons] at hsplit
  obtain ⟨-, ⟨hafter, -⟩, hbefore⟩ := hsplit
  rw [List.take_succ_eq_append_getElem hi, List.drop_eq_getElem_cons hi]
  constructor
  · intro hT z hz
    rcases List.mem_append.1 hz with hz | hz
    · exact hbefore z hz _ List.mem_cons_self hT
    · rwa [List.mem_singleton.1 hz]
  · intro hT z hz
    rcases List.mem_cons.1 hz with rfl | hz
    · exact hT
    · exact fun hTz => hT (hafter z hz hTz)

/-- Halving finds the end of the elements with the property. -/
theorem sorts_narrow (hp : ∀ y ∈ l, Sorts lt P fair key (fun answer => fair → (answer = true ↔ T y)) (p y))
    (horder : fair → l.Pairwise fun y z => T z → T y) (early lo hi : Nat) (hle : lo ≤ hi) (hsize : hi ≤ l.length)
    (hlow : fair → ∀ y ∈ l.take lo, T y) (hhigh : fair → ∀ y ∈ l.drop hi, ¬T y) :
    Sorts lt P fair key (Leads fair T l) (narrow p early l.toArray lo hi) := by
  induction lo, hi using narrow.induct early l.toArray with
  | case1 lo hi hlt mid hnone =>
    rw [List.getElem?_toArray, List.getElem?_eq_none_iff] at hnone
    omega
  | case2 lo hi hlt mid y hy ihhigh ihlow =>
    rw [narrow, if_pos hlt]
    simp only [show l.toArray[lo + (hi - lo - early) / 2]? = some y from hy]
    rw [List.getElem?_toArray] at hy
    refine (hp y (List.mem_of_getElem? hy)).bind fun answer hanswer => ?_
    have haround (hfair : fair) := leads_around horder hfair hy
    cases answer with
    | true => exact ihhigh (by omega) hsize (fun hfair => (haround hfair).1 ((hanswer hfair).1 rfl)) hhigh
    | false =>
      refine ihlow (by omega) (by omega) hlow fun hfair => (haround hfair).2 fun hT => ?_
      exact Bool.false_ne_true ((hanswer hfair).2 hT)
  | case3 lo hi hlt =>
    obtain rfl : lo = hi := by omega
    rw [narrow, if_neg hlt]
    exact .leaf fun hfair => ⟨hlow hfair, hhigh hfair⟩

/-- Doubling steps pass the end of the elements with the property, with enough of them. -/
theorem sorts_gallop (hp : ∀ y ∈ l, Sorts lt P fair key (fun answer => fair → (answer = true ↔ T y)) (p y))
    (horder : fair → l.Pairwise fun y z => T z → T y) (fuel last next : Nat) (hfuel : l.length ≤ next + fuel)
    (hlt : last < next) (hlast : last < l.length) (hlow : fair → ∀ y ∈ l.take (last + 1), T y) :
    Sorts lt P fair key
      (fun r => r.1 < r.2 ∧ r.2 ≤ l.length ∧ (fair → (∀ y ∈ l.take (r.1 + 1), T y) ∧ ∀ y ∈ l.drop r.2, ¬T y))
      (gallop p l.toArray fuel last next) := by
  induction fuel generalizing last next with
  | zero =>
    have hend : min next l.toArray.size = l.length := by
      rw [List.size_toArray]
      omega
    rw [gallop, hend]
    exact .leaf ⟨hlast, Nat.le_refl _, fun hfair => ⟨hlow hfair, by simp⟩⟩
  | succ fuel ih =>
    rw [gallop]
    cases hnext : l[next]? with
    | none =>
      simp only [List.getElem?_toArray, hnext, List.size_toArray]
      exact .leaf ⟨hlast, Nat.le_refl _, fun hfair => ⟨hlow hfair, by simp⟩⟩
    | some y =>
      simp only [List.getElem?_toArray, hnext]
      have hbound := (List.getElem?_eq_some_iff.1 hnext).1
      refine (hp y (List.mem_of_getElem? hnext)).bind fun answer hanswer => ?_
      have haround (hfair : fair) := leads_around horder hfair hnext
      cases answer with
      | true =>
        exact ih next (2 * next + 1) (by omega) (by omega) hbound fun hfair =>
          (haround hfair).1 ((hanswer hfair).1 rfl)
      | false =>
        refine .leaf ⟨hlt, Nat.le_of_lt hbound, fun hfair => ⟨hlow hfair, (haround hfair).2 fun hT => ?_⟩⟩
        exact Bool.false_ne_true ((hanswer hfair).2 hT)

/-- Galloping finds the end of the elements with the property. -/
theorem sorts_prefixCount (hp : ∀ y ∈ l, Sorts lt P fair key (fun answer => fair → (answer = true ↔ T y)) (p y))
    (horder : fair → l.Pairwise fun y z => T z → T y) (early : Nat) :
    Sorts lt P fair key (Leads fair T l) (prefixCount p early l) := by
  cases hfirst : l with
  | nil => exact .leaf fun _ => ⟨by simp, by simp⟩
  | cons x rest =>
    rw [← hfirst]
    have hx : l[0]? = some x := by rw [hfirst]; rfl
    have hpos : 0 < l.length := by rw [hfirst]; exact Nat.zero_lt_succ _
    have haround (hfair : fair) := leads_around horder hfair hx
    have hcount : prefixCount p early l = (p x >>= fun answer =>
        if answer then do
          let r ← gallop p l.toArray l.toArray.size 0 1
          narrow p early l.toArray (r.1 + 1) r.2
        else pure 0) := by
      rw [hfirst]
      rfl
    rw [hcount]
    refine (hp x (List.mem_of_getElem? hx)).bind fun answer hanswer => ?_
    cases answer with
    | true =>
      refine (sorts_gallop hp horder l.toArray.size 0 1 (by simp) Nat.zero_lt_one hpos fun hfair =>
        (haround hfair).1 ((hanswer hfair).1 rfl)).bind fun r hr => ?_
      obtain ⟨hlt, hsize, hends⟩ := hr
      exact sorts_narrow hp horder early _ _ hlt hsize (fun hfair => (hends hfair).1) fun hfair => (hends hfair).2
    | false =>
      refine .leaf fun hfair => ⟨by simp, (haround hfair).2 fun hT => ?_⟩
      exact Bool.false_ne_true ((hanswer hfair).2 hT)

end Sorting

end ScriptEngine
