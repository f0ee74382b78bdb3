import ScriptEngine.Proofs.Sorting

/-!
# Merging

A merge takes elements from the starts of two lists. What has been taken, followed by what is left of either list, is in
order at every moment, and the last element of the list that was set aside is greater than all that is left of the other;
so when one element of it is left, or the other list is used up, nothing remains to be compared. All of this is true if
the comparison is fair. That elements are only moved is true in any case.

A merge from the back is a merge from the front of the two lists turned around, with the order of the keys turned around as
well. Runs are merged in an order that depends on their lengths; whatever it is, neighbours are merged.

## Main definitions

* `Sorting.Merge.Sound`: what is true between the steps of a merge.
* `Sorting.Side.Fits`: a side from which a merge can work.
* `Sorting.Crossed`: two lists that can be merged from either end.
* `Sorting.held`: the list that a stack of runs stands for.

## Main results

* `Sorting.sorts_mergeFrom`, `Sorting.sorts_merge`: two sorted lists become one.
* `Sorting.sorts_sort`: sorting.
-/

namespace ScriptEngine

namespace Sorting

variable {α : Type} {fair : Prop} {key : α → Int} {l : List α} {lt : Before α} {P : α → Prop}

/-! ## Steps of a merge -/

/-- What is true between the steps of a merge of the list `l`. -/
structure Merge.Sound (fair : Prop) (key : α → Int) (l : List α) (m : Merge α) : Prop where
  /-- Galloping never starts before a win. -/
  threshold : 1 ≤ m.threshold
  /-- No element is lost, and those with the same key have not passed each other. -/
  arranged : Arranged fair key l (m.taken.reverse ++ (m.xs ++ m.ys))
  /-- What has been taken comes before what is left of the list that was set aside, in order. -/
  xs : Ascending fair key (m.taken.reverse ++ m.xs)
  /-- It comes before what is left of the other list. -/
  ys : Ascending fair key (m.taken.reverse ++ m.ys)
  /-- The last element of the list that was set aside comes last. -/
  last : fair → ∀ x ∈ m.xs.getLast?, ∀ y ∈ m.ys, key y < key x

namespace Merge

variable {m : Merge α}

/-- The number of elements that are left. -/
def left (m : Merge α) : Nat := m.xs.length + m.ys.length

@[simp] theorem left_takeX (m : Merge α) (n : Nat) : (m.takeX n).left = m.xs.length - n + m.ys.length := by
  simp [left, takeX]

@[simp] theorem left_takeY (m : Merge α) (n : Nat) : (m.takeY n).left = m.xs.length + (m.ys.length - n) := by
  simp [left, takeY]

theorem left_takeX_le (m : Merge α) (n : Nat) : (m.takeX n).left ≤ m.left := by
  rw [left_takeX, left]
  omega

theorem left_takeY_le (m : Merge α) (n : Nat) : (m.takeY n).left ≤ m.left := by
  rw [left_takeY, left]
  omega

namespace Sound

/-- Elements can be taken from the list that was set aside if none of the other list goes before them. -/
theorem takeX (h : m.Sound fair key l) {n : Nat} (hle : fair → ∀ x ∈ m.xs.take n, ∀ y ∈ m.ys, key x ≤ key y) :
    (m.takeX n).Sound fair key l := by
  have htaken : (m.takeX n).taken.reverse = m.taken.reverse ++ m.xs.take n := by simp [Merge.takeX]
  have hleft : m.taken.reverse ++ m.xs.take n ++ m.xs.drop n = m.taken.reverse ++ m.xs := by
    rw [List.append_assoc, List.take_append_drop]
  have hxs := h.xs
  rw [← hleft] at hxs
  refine ⟨h.threshold, ?_, ?_, ?_, fun hfair x hx => h.last hfair x ?_⟩
  · have harranged := h.arranged
    rw [← List.append_assoc, ← hleft, List.append_assoc] at harranged
    rwa [htaken]
  · rwa [htaken]
  · rw [htaken]
    refine hxs.left.append h.ys.right fun hfair x hx y hy => ?_
    rcases List.mem_append.1 hx with hx | hx
    · exact h.ys.le hfair x hx y hy
    · exact hle hfair x hx y hy
  · change x ∈ (m.xs.drop n).getLast? at hx
    rw [List.getLast?_drop] at hx
    split at hx
    · cases hx
    · exact hx

/-- Elements can be taken from the other list if they go before all that is left of the one that was set aside. -/
theorem takeY (h : m.Sound fair key l) {n : Nat} (hlt : fair → ∀ y ∈ m.ys.take n, ∀ x ∈ m.xs, key y < key x) :
    (m.takeY n).Sound fair key l := by
  have htaken : (m.takeY n).taken.reverse = m.taken.reverse ++ m.ys.take n := by simp [Merge.takeY]
  have hleft : m.taken.reverse ++ m.ys.take n ++ m.ys.drop n = m.taken.reverse ++ m.ys := by
    rw [List.append_assoc, List.take_append_drop]
  have hys := h.ys
  rw [← hleft] at hys
  refine ⟨h.threshold, ?_, ?_, ?_, fun hfair x hx y hy => h.last hfair x hx y (List.mem_of_mem_drop hy)⟩
  · -- The elements pass what was set aside.
    have hswap : Arranged fair key (m.xs ++ m.ys.take n) (m.ys.take n ++ m.xs) :=
      .swap fun hfair x hx y hy => hlt hfair y hy x hx
    have hpassed := (@Arranged.refl α fair key m.taken.reverse).append
      (hswap.append (.refl (m.ys.drop n)))
    rw [List.append_assoc, List.take_append_drop] at hpassed
    have harranged := h.arranged.trans hpassed
    rw [htaken]
    simpa only [Merge.takeY, List.append_assoc] using harranged
  · rw [htaken]
    refine hys.left.append h.xs.right fun hfair x hx y hy => ?_
    rcases List.mem_append.1 hx with hx | hx
    · exact h.xs.le hfair x hx y hy
    · exact Int.le_of_lt (hlt hfair x hx y hy)
  · rwa [htaken]

/-- When a merge is over, its result is in order. -/
theorem result (h : m.Sound fair key l) (hover : m.isOver = true) :
    Arranged fair key l m.result ∧ Ascending fair key m.result := by
  have hafter (hfair : fair) : ∀ x ∈ m.xs, ∀ y ∈ m.ys, key y < key x := by
    rw [isOver, Bool.or_eq_true, List.isEmpty_iff, decide_eq_true_eq] at hover
    intro x hx y hy
    rcases hover with hnone | hone
    · rw [hnone] at hy
      cases hy
    · obtain ⟨z, hz⟩ := List.length_eq_one_iff.1 (Nat.le_antisymm hone (List.length_pos_of_mem hx))
      rw [hz, List.mem_singleton] at hx
      exact h.last hfair x (by rw [hz, hx]; rfl) y hy
  constructor
  · rw [Merge.result, List.append_assoc]
    exact h.arranged.trans ((Arranged.refl m.taken.reverse).append (.swap hafter))
  · rw [Merge.result]
    refine h.ys.append h.xs.right fun hfair y hy x hx => ?_
    rcases List.mem_append.1 hy with hy | hy
    · exact h.xs.le hfair y hy x hx
    · exact Int.le_of_lt (hafter hfair x hx y hy)

/-- What has to be won to gallop can change. -/
theorem withThreshold (h : m.Sound fair key l) {n : Nat} (hn : 1 ≤ n) : Sound fair key l { m with threshold := n } :=
  ⟨hn, h.arranged, h.xs, h.ys, h.last⟩

theorem forall_xs (h : m.Sound fair key l) (hl : ∀ x ∈ l, P x) : ∀ x ∈ m.xs, P x :=
  fun x hx => h.arranged.forall_mem hl x (by simp [hx])

theorem forall_ys (h : m.Sound fair key l) (hl : ∀ x ∈ l, P x) : ∀ y ∈ m.ys, P y :=
  fun y hy => h.arranged.forall_mem hl y (by simp [hy])

end Sound

end Merge

/-! ## The parts of a merge

The answers to comparisons speak of the key `rank`, which is that of the elements or, from the back, its opposite. -/

variable {rank : α → Int} {side : Side α} {m : Merge α}

/-- A side from which a merge can work: it says whether an element of the second list goes before one of the first. -/
def Side.Fits (side : Side α) (lt : Before α) (P : α → Prop) (fair : Prop) (key rank : α → Int) : Prop :=
  ∀ x y, P x → P y → Sorts lt P fair key (fun answer => fair → (answer = true ↔ rank y < rank x)) (side.takesY y x)

namespace Side.Fits

variable {xs ys : List α} {x y : α}

theorem front (lt : Before α) (early : Nat) (leftFirst : Bool) :
    Side.Fits ⟨lt, early, leftFirst⟩ lt P fair key key := fun _ _ hx hy => .single hy hx

theorem back (lt : Before α) (early : Nat) (leftFirst : Bool) :
    Side.Fits ⟨fun y x => lt x y, early, leftFirst⟩ lt P fair key fun x => -key x :=
  fun _ _ hx hy => (Proc.Decides.single hx hy).mono fun _ hanswer hfair =>
    (hanswer hfair).trans (by rw [Int.neg_lt_neg_iff])

/-- The elements of the first list that stay before one of the second. -/
theorem sorts_stays (hside : side.Fits lt P fair key rank) (hxs : ∀ x ∈ xs, P x) (hy : P y)
    (horder : Ascending fair rank xs) (early : Nat) :
    Sorts lt P fair key (Leads fair (rank · ≤ rank y) xs)
      (prefixCount (fun x => do return !(← side.takesY y x)) early xs) := by
  refine sorts_prefixCount (fun x hx => (hside x y (hxs x hx) hy).bind fun answer hanswer => .leaf fun hfair => ?_)
    (fun hfair => (horder hfair).imp Int.le_trans) early
  rw [Bool.not_eq_true', ← Bool.not_eq_true, hanswer hfair, Int.not_lt]

/-- The elements of the second list that go before one of the first. -/
theorem sorts_goes (hside : side.Fits lt P fair key rank) (hx : P x) (hys : ∀ y ∈ ys, P y)
    (horder : Ascending fair rank ys) (early : Nat) :
    Sorts lt P fair key (Leads fair (rank · < rank x) ys) (prefixCount (fun y => side.takesY y x) early ys) :=
  sorts_prefixCount (fun y hy => hside x y hx (hys y hy)) (fun hfair => (horder hfair).imp Int.lt_of_le_of_lt) early

end Side.Fits

/-- A choice between two computations that only compare. -/
theorem sorts_ite {β : Type} {Q : β → Prop} {c : Prop} [Decidable c] {p q : Proc β} (hp : c → Sorts lt P fair key Q p)
    (hq : ¬c → Sorts lt P fair key Q q) : Sorts lt P fair key Q (if c then p else q) := by
  split
  · exact hp ‹_›
  · exact hq ‹_›

section Parts

variable (hside : side.Fits lt P fair key rank) (hl : ∀ x ∈ l, P x)

include hside hl

/-- Comparing heads leaves less to merge, if there is anything to compare. -/
theorem sorts_headToHead (fuel winsX winsY : Nat) (h : m.Sound fair rank l) :
    Sorts lt P fair key
      (fun r => r.Sound fair rank l ∧ r.left ≤ m.left ∧
        (0 < fuel → ¬m.isOver = true → winsX < m.threshold → winsY < m.threshold → r.left < m.left))
      (headToHead side fuel winsX winsY m) := by
  induction fuel generalizing winsX winsY m with
  | zero => exact .leaf ⟨h, Nat.le_refl _, fun hpos => absurd hpos (Nat.lt_irrefl 0)⟩
  | succ fuel ih =>
    rw [headToHead]
    refine sorts_ite (fun hover => .leaf ⟨h, Nat.le_refl _, fun _ hnot => absurd hover hnot⟩) fun hover => ?_
    refine sorts_ite (fun hwins => .leaf ⟨h, Nat.le_refl _, fun _ _ hx hy => ?_⟩) fun _ => ?_
    · simp only [Bool.or_eq_true, decide_eq_true_eq] at hwins
      omega
    rcases hxs : m.xs with _ | ⟨x, xs⟩
    · exact absurd (by simp [Merge.isOver, hxs]) hover
    rcases hys : m.ys with _ | ⟨y, ys⟩
    · exact absurd (by simp [Merge.isOver, hys]) hover
    have hx : x ∈ m.xs := by simp [hxs]
    have hy : y ∈ m.ys := by simp [hys]
    refine (hside x y (h.forall_xs hl x hx) (h.forall_ys hl y hy)).bind fun answer hanswer => ?_
    have hxorder := h.xs.right
    have hyorder := h.ys.right
    rw [hxs] at hxorder
    rw [hys] at hyorder
    cases answer with
    | true =>
      have htaken : (m.takeY 1).Sound fair rank l := h.takeY fun hfair z hz w hw => by
        rw [hys, List.take_succ_cons, List.take_zero, List.mem_singleton] at hz
        rw [hz]
        rw [hxs] at hw
        exact Int.lt_of_lt_of_le ((hanswer hfair).1 rfl) (hxorder.head_le hfair w hw)
      refine (ih 0 (winsY + 1) htaken).mono fun r hr => ?_
      have hless : (m.takeY 1).left < m.left := by
        simp [Merge.left, Merge.takeY, hys]
      exact ⟨hr.1, by omega, fun _ _ _ _ => by omega⟩
    | false =>
      have htaken : (m.takeX 1).Sound fair rank l := h.takeX fun hfair z hz w hw => by
        rw [hxs, List.take_succ_cons, List.take_zero, List.mem_singleton] at hz
        have hnot : ¬rank y < rank x := fun hlt => Bool.false_ne_true ((hanswer hfair).2 hlt)
        rw [hys] at hw
        rw [hz]
        exact Int.le_trans (Int.not_lt.1 hnot) (hyorder.head_le hfair w hw)
      refine (ih (winsX + 1) 0 htaken).mono fun r hr => ?_
      have hless : (m.takeX 1).left < m.left := by
        simp [Merge.left, Merge.takeX, hxs]
      exact ⟨hr.1, by omega, fun _ _ _ _ => by omega⟩

/-- The elements of the first list that stay before the second one. -/
theorem sorts_leadX (h : m.Sound fair rank l) :
    Sorts lt P fair key
      (fun n => fair → (∀ x ∈ m.xs.take n, ∀ y ∈ m.ys, rank x ≤ rank y) ∧
        ∀ y ∈ m.ys.take 1, ∀ x ∈ m.xs.drop n, rank y < rank x)
      (leadX side m) := by
  have hyorder := h.ys.right
  have hymem := h.forall_ys hl
  rw [leadX]
  rcases hys : m.ys with _ | ⟨y, ys⟩
  · exact .leaf fun _ => ⟨by simp, by simp⟩
  · rw [hys] at hyorder hymem
    refine (hside.sorts_stays (h.forall_xs hl) (hymem y List.mem_cons_self) h.xs.right side.early).mono fun n hn hfair =>
      ⟨fun x hx z hz => ?_, fun z hz x hx => ?_⟩
    · exact Int.le_trans ((hn hfair).1 x hx) (hyorder.head_le hfair z hz)
    · rw [List.take_succ_cons, List.take_zero, List.mem_singleton] at hz
      rw [hz]
      exact Int.not_le.1 ((hn hfair).2 x hx)

/-- The elements of the second list that go before the first one. -/
theorem sorts_leadY (h : m.Sound fair rank l) :
    Sorts lt P fair key
      (fun n => fair → (∀ y ∈ m.ys.take n, ∀ x ∈ m.xs, rank y < rank x) ∧
        ∀ x ∈ m.xs.take 1, ∀ y ∈ m.ys.drop n, rank x ≤ rank y)
      (leadY side m) := by
  have hxorder := h.xs.right
  have hxmem := h.forall_xs hl
  rw [leadY]
  rcases hxs : m.xs with _ | ⟨x, xs⟩
  · exact .leaf fun _ => ⟨by simp, by simp⟩
  · rw [hxs] at hxorder hxmem
    refine (hside.sorts_goes (hxmem x List.mem_cons_self) (h.forall_ys hl) h.ys.right side.early).mono fun n hn hfair =>
      ⟨fun y hy z hz => ?_, fun z hz y hy => ?_⟩
    · exact Int.lt_of_lt_of_le ((hn hfair).1 y hy) (hxorder.head_le hfair z hz)
    · rw [List.take_succ_cons, List.take_zero, List.mem_singleton] at hz
      rw [hz]
      exact Int.not_lt.1 ((hn hfair).2 y hy)

/-- A lead of the first list is taken, and then the head of the second one goes before what is left of the first. -/
theorem sorts_roundX {n : Nat} (h : m.Sound fair rank l) (hle : m.left ≤ n) {k : Nat → Proc (Merge α)}
    (hk : ∀ a, ((m.takeX a).takeY 1).Sound fair rank l → ((m.takeX a).takeY 1).left ≤ n →
      Sorts lt P fair key (fun r => r.Sound fair rank l ∧ r.left ≤ n) (k a)) :
    Sorts lt P fair key (fun r => r.Sound fair rank l ∧ r.left ≤ n)
      (leadX side m >>= fun a =>
        if (m.takeX a).isOver = true then pure (m.takeX a)
        else if ((m.takeX a).takeY 1).isOver = true then pure ((m.takeX a).takeY 1) else k a) := by
  refine (sorts_leadX hside hl h).bind fun a ha => ?_
  have hlead := h.takeX fun hfair => (ha hfair).1
  have hleadLe := Nat.le_trans (m.left_takeX_le a) hle
  have hhead := hlead.takeY fun hfair => (ha hfair).2
  have hheadLe := Nat.le_trans ((m.takeX a).left_takeY_le 1) hleadLe
  exact sorts_ite (fun _ => .leaf ⟨hlead, hleadLe⟩) fun _ =>
    sorts_ite (fun _ => .leaf ⟨hhead, hheadLe⟩) fun _ => hk a hhead hheadLe

/-- A lead of the second list is taken, and then the head of the first one stays before what is left of the second. -/
theorem sorts_roundY {n : Nat} (h : m.Sound fair rank l) (hle : m.left ≤ n) {k : Nat → Proc (Merge α)}
    (hk : ∀ a, ((m.takeY a).takeX 1).Sound fair rank l → ((m.takeY a).takeX 1).left ≤ n →
      Sorts lt P fair key (fun r => r.Sound fair rank l ∧ r.left ≤ n) (k a)) :
    Sorts lt P fair key (fun r => r.Sound fair rank l ∧ r.left ≤ n)
      (leadY side m >>= fun a =>
        if (m.takeY a).isOver = true then pure (m.takeY a)
        else if ((m.takeY a).takeX 1).isOver = true then pure ((m.takeY a).takeX 1) else k a) := by
  refine (sorts_leadY hside hl h).bind fun a ha => ?_
  have hlead := h.takeY fun hfair => (ha hfair).1
  have hleadLe := Nat.le_trans (m.left_takeY_le a) hle
  have hhead := hlead.takeX fun hfair => (ha hfair).2
  have hheadLe := Nat.le_trans ((m.takeY a).left_takeX_le 1) hleadLe
  exact sorts_ite (fun _ => .leaf ⟨hlead, hleadLe⟩) fun _ =>
    sorts_ite (fun _ => .leaf ⟨hhead, hheadLe⟩) fun _ => hk a hhead hheadLe

/-- Galloping leaves no more to merge. -/
theorem sorts_galloping (fuel : Nat) (h : m.Sound fair rank l) :
    Sorts lt P fair key (fun r => r.Sound fair rank l ∧ r.left ≤ m.left) (galloping side fuel m) := by
  induction fuel generalizing m with
  | zero => exact .leaf ⟨h, Nat.le_refl _⟩
  | succ fuel ih =>
    have hpos : 1 ≤ m.threshold - (if 1 < m.threshold then 1 else 0) := by
      have hthreshold := h.threshold
      split <;> omega
    have heager := h.withThreshold hpos
    -- After both leads have been taken, the next round begins, or the heads are compared again.
    have hround (a b : Nat) {u : Merge α} (hu : u.Sound fair rank l) (hle : u.left ≤ m.left) :
        Sorts lt P fair key (fun r => r.Sound fair rank l ∧ r.left ≤ m.left)
          (if (patience ≤ a || patience ≤ b) = true then galloping side fuel u
            else return { u with threshold := u.threshold + 1 }) :=
      sorts_ite (fun _ => (ih hu).mono fun r hr => ⟨hr.1, Nat.le_trans hr.2 hle⟩) fun _ =>
        .leaf ⟨hu.withThreshold (Nat.le_add_left 1 _), hle⟩
    rw [galloping]
    refine sorts_ite (fun _ => ?_) fun _ => ?_
    · exact sorts_roundX hside hl heager (Nat.le_refl m.left) fun a hu hule =>
        sorts_roundY hside hl hu hule fun b hv hvle => hround a b hv hvle
    · exact sorts_roundY hside hl heager (Nat.le_refl m.left) fun a hu hule =>
        sorts_roundX hside hl hu hule fun b hv hvle => hround a b hv hvle

/-- A merge comes to its end. -/
theorem sorts_mergeLoop (fuel : Nat) (h : m.Sound fair rank l) (hfuel : m.left ≤ fuel) :
    Sorts lt P fair key (fun r => r.Sound fair rank l ∧ r.isOver = true) (mergeLoop side fuel m) := by
  induction fuel generalizing m with
  | zero =>
    have hnone : m.ys = [] := List.eq_nil_of_length_eq_zero (by simp only [Merge.left] at hfuel; omega)
    exact .leaf ⟨h, by simp [Merge.isOver, hnone]⟩
  | succ fuel ih =>
    rw [mergeLoop]
    refine sorts_ite (fun hover => .leaf ⟨h, hover⟩) fun hover => ?_
    have hpos : 0 < m.xs.length + m.ys.length := by
      simp only [Merge.isOver, Bool.or_eq_true, decide_eq_true_eq] at hover
      omega
    refine (sorts_headToHead hside hl (m.xs.length + m.ys.length) 0 0 h).bind fun r hr => ?_
    obtain ⟨hsound, -, hless⟩ := hr
    have hless := hless hpos hover h.threshold h.threshold
    refine sorts_ite (fun hover => .leaf ⟨hsound, hover⟩) fun _ => ?_
    refine (sorts_galloping hside hl _ (hsound.withThreshold (Nat.le_add_left 1 r.threshold))).bind fun r' hr' => ?_
    have hle : r'.left ≤ r.left := hr'.2
    exact ih hr'.1 (by omega)

end Parts

theorem mem_take_one {x : α} {xs : List α} : x ∈ xs.take 1 ↔ x ∈ xs.head? := by
  cases xs <;> simp [eq_comm]

/-- The conditions for a merge of two lists from either end: the first one ends after the second, and the second one starts
before the first. -/
structure Crossed (fair : Prop) (rank : α → Int) (xs ys : List α) : Prop where
  left : Ascending fair rank xs
  right : Ascending fair rank ys
  last : fair → ∀ x ∈ xs.getLast?, ∀ y ∈ ys, rank y < rank x
  first : fair → ∀ y ∈ ys.head?, ∀ x ∈ xs, rank y < rank x

/-- From the other end the lists change places. -/
theorem Crossed.turn {xs ys : List α} (h : Crossed fair key xs ys) :
    Crossed fair (fun x => -key x) ys.reverse xs.reverse where
  left := h.right.turn
  right := h.left.turn
  last hfair y hy x hx := by
    rw [List.getLast?_reverse] at hy
    exact Int.neg_lt_neg (h.first hfair y hy x (List.mem_reverse.1 hx))
  first hfair x hx y hy := by
    rw [List.head?_reverse] at hx
    exact Int.neg_lt_neg (h.last hfair x hx y (List.mem_reverse.1 hy))

/-- Two lists are merged from one end. -/
theorem sorts_mergeFrom (hside : side.Fits lt P fair key rank) {threshold : Nat} (hthreshold : 1 ≤ threshold)
    {xs ys : List α} (hmem : ∀ x ∈ xs ++ ys, P x) (h : Crossed fair rank xs ys) :
    Sorts lt P fair key
      (fun r => Arranged fair rank (xs ++ ys) r.1 ∧ Ascending fair rank r.1 ∧ 1 ≤ r.2)
      (mergeFrom side threshold xs ys) := by
  have hsound : Merge.Sound fair rank (xs ++ ys) ⟨xs, ys, [], threshold⟩ :=
    ⟨hthreshold, .refl _, h.left, h.right, h.last⟩
  have htaken := hsound.takeY (n := 1) fun hfair y hy => h.first hfair y (mem_take_one.1 hy)
  have hleft := Merge.left_takeY_le (⟨xs, ys, [], threshold⟩ : Merge α) 1
  refine (sorts_mergeLoop hside hmem (xs.length + ys.length) htaken hleft).bind fun r hr => ?_
  obtain ⟨hend, hover⟩ := hr
  exact .leaf ⟨(hend.result hover).1, (hend.result hover).2, hend.threshold⟩

/-- Two lists are merged from the back. -/
theorem sorts_mergeBack {threshold : Nat} (hthreshold : 1 ≤ threshold) {xs ys : List α} (hmem : ∀ x ∈ xs ++ ys, P x)
    (h : Crossed fair key xs ys) :
    Sorts lt P fair key
      (fun r => Arranged fair key (xs ++ ys) r.1.reverse ∧ Ascending fair key r.1.reverse ∧ 1 ≤ r.2)
      (mergeFrom ⟨fun y x => lt x y, 1, false⟩ threshold ys.reverse xs.reverse) := by
  refine (sorts_mergeFrom (.back lt 1 false) hthreshold (fun x hx => ?_) h.turn).mono fun r hr => ?_
  · rw [← List.reverse_append, List.mem_reverse] at hx
    exact hmem x hx
  · have hturned := hr.1.reverse
    rw [← List.reverse_append, List.reverse_reverse] at hturned
    exact ⟨hturned, hr.2.1.reverse, hr.2.2⟩

/-- The parts of two lists that are out of place are merged, and what is in place already stays around them. -/
theorem merged_between {a b : List α} {first last : α} {k n : Nat} (ha : Ascending fair key a) (hb : Ascending fair key b)
    (hfirst : b.head? = some first) (hlast : (a.drop k).getLast? = some last)
    (hk : Leads fair (key · ≤ key first) a k)
    (hn : fair → (∀ y ∈ b.drop n, key last ≤ key y) ∧ ∀ y ∈ b.take n, key y < key last) {merged : List α}
    (h : Arranged fair key (a.drop k ++ b.take n) merged) (horder : Ascending fair key merged) :
    Arranged fair key (a ++ b) (a.take k ++ merged ++ b.drop n) ∧
      Ascending fair key (a.take k ++ merged ++ b.drop n) := by
  constructor
  · have hwhole := ((Arranged.refl (a.take k)).append h).append (.refl (b.drop n))
    have hsplit : a.take k ++ (a.drop k ++ b.take n) ++ b.drop n = a ++ b := by
      rw [← List.append_assoc, List.take_append_drop, List.append_assoc, List.take_append_drop]
    rwa [hsplit] at hwhole
  · have hstart : fair → ∀ x ∈ a.take k, ∀ y ∈ b, key x ≤ key y := by
      intro hfair x hx y hy
      obtain ⟨rest, rfl⟩ := List.head?_eq_some_iff.1 hfirst
      exact Int.le_trans ((hk hfair).1 x hx) (hb.head_le hfair y hy)
    have hsplitA : Ascending fair key (a.take k ++ a.drop k) := by rwa [List.take_append_drop]
    have hsplitB : Ascending fair key (b.take n ++ b.drop n) := by rwa [List.take_append_drop]
    have hmem {z : α} (hz : z ∈ merged) : z ∈ a.drop k ∨ z ∈ b.take n := List.mem_append.1 (h.perm.mem_iff.2 hz)
    refine ((ha.take k).append horder fun hfair x hx z hz => ?_).append (hb.drop n) fun hfair x hx y hy => ?_
    · rcases hmem hz with hz | hz
      · exact hsplitA.le hfair x hx z hz
      · exact hstart hfair x hx z (List.mem_of_mem_take hz)
    · rcases List.mem_append.1 hx with hx | hx
      · exact hstart hfair x hx y (List.mem_of_mem_drop hy)
      · rcases hmem hx with hx | hx
        · exact Int.le_trans ((ha.drop k).le_getLast hfair hlast x hx) ((hn hfair).1 y hy)
        · exact hsplitB.le hfair x hx y hy

/-- Two lists in order are merged. -/
theorem sorts_merge {threshold : Nat} (hthreshold : 1 ≤ threshold) {a b : List α} (hmem : ∀ x ∈ a ++ b, P x)
    (ha : Ascending fair key a) (hb : Ascending fair key b) :
    Sorts lt P fair key
      (fun r => Arranged fair key (a ++ b) r.1 ∧ Ascending fair key r.1 ∧ 1 ≤ r.2) (merge lt threshold a b) := by
  rcases hfirst : b with _ | ⟨first, rest⟩
  · rw [List.append_nil]
    exact .leaf ⟨.refl a, ha, hthreshold⟩
  have hhead : b.head? = some first := by rw [hfirst]; rfl
  have hfirstMem : P first := hmem first (by simp [hfirst])
  have hfront : Side.Fits ⟨lt, 0, true⟩ lt P fair key key := .front lt 0 true
  have hback : Side.Fits ⟨fun y x => lt x y, 1, false⟩ lt P fair key fun x => -key x := .back lt 1 false
  rw [merge, ← hfirst]
  -- The elements of the first list that are in place.
  refine (hfront.sorts_stays (fun x hx => hmem x (List.mem_append_left b hx)) hfirstMem ha 0).bind fun k hk => ?_
  rcases hlast : (a.drop k).getLast? with _ | last
  · rw [List.getLast?_eq_none_iff, List.drop_eq_nil_iff] at hlast
    rw [Leads, List.take_of_length_le hlast] at hk
    refine .leaf ⟨.refl _, ha.append hb fun hfair x hx y hy => ?_, hthreshold⟩
    rw [hfirst] at hb hy
    exact Int.le_trans ((hk hfair).1 x hx) (hb.head_le hfair y hy)
  have hlastMem : P last := hmem last (List.mem_append_left b (List.mem_of_mem_drop (List.mem_of_getLast? hlast)))
  -- The elements of the second list that are in place.
  have hbMem : ∀ x ∈ b.reverse, P x := fun x hx => hmem x (List.mem_append_right a (List.mem_reverse.1 hx))
  refine (hback.sorts_stays hbMem hlastMem hb.turn 1).bind fun r hr => ?_
  rw [Leads, List.take_reverse, List.drop_reverse] at hr
  simp only [List.mem_reverse, Int.neg_le_neg_iff, Int.not_le] at hr
  generalize b.length - r = n at hr ⊢
  have hwhole {merged : List α} (h : Arranged fair key (a.drop k ++ b.take n) merged)
    (horder : Ascending fair key merged) := merged_between ha hb hhead hlast hk hr h horder
  have hparts : ∀ x ∈ a.drop k ++ b.take n, P x := fun x hx => hmem x <| by
    rcases List.mem_append.1 hx with hx | hx
    · exact List.mem_append_left b (List.mem_of_mem_drop hx)
    · exact List.mem_append_right a (List.mem_of_mem_take hx)
  have hcrossed : Crossed fair key (a.drop k) (b.take n) := by
    refine ⟨ha.drop k, hb.take n, fun hfair x hx y hy => ?_, fun hfair y hy x hx => ?_⟩
    · rw [hlast] at hx
      obtain rfl := Option.some.inj hx
      exact (hr hfair).2 y hy
    · rw [List.head?_take, hhead] at hy
      split at hy
      · cases hy
      · obtain rfl := Option.some.inj hy
        exact Int.not_le.1 ((hk hfair).2 x hx)
  refine sorts_ite (fun hnone => .leaf ?_) fun _ => sorts_ite (fun _ => ?_) fun _ => ?_
  · rw [List.isEmpty_iff] at hnone
    have hrest : b.drop n = b := by
      have hsplit := List.take_append_drop n b
      rwa [hnone, List.nil_append] at hsplit
    have hsame := @hwhole (a.drop k) (by rw [hnone, List.append_nil]; exact .refl _) (ha.drop k)
    rw [List.take_append_drop, hrest] at hsame
    exact ⟨hsame.1, hsame.2, hthreshold⟩
  · exact (sorts_mergeFrom hfront hthreshold hparts hcrossed).bind fun m hm =>
      .leaf ⟨(hwhole hm.1 hm.2.1).1, (hwhole hm.1 hm.2.1).2, hm.2.2⟩
  · exact (sorts_mergeBack hthreshold hparts hcrossed).bind fun m hm =>
      .leaf ⟨(hwhole hm.1 hm.2.1).1, (hwhole hm.1 hm.2.1).2, hm.2.2⟩

/-! ## Stacks of runs -/

/-- The list that the waiting runs stand for; the one on top comes last. -/
def held (stack : List (Run α)) : List α := (stack.reverse.map Run.items).flatten

@[simp] theorem held_nil : held ([] : List (Run α)) = [] := rfl

@[simp] theorem held_cons (top : Run α) (rest : List (Run α)) : held (top :: rest) = held rest ++ top.items := by
  simp [held]

/-- Waiting runs into which a list has been cut, with its elements moved. -/
structure Waiting (fair : Prop) (key : α → Int) (l : List α) (stack : List (Run α)) : Prop where
  arranged : Arranged fair key l (held stack)
  ascending : ∀ run ∈ stack, Ascending fair key run.items

theorem held_append (above stack : List (Run α)) : held (above ++ stack) = held stack ++ held above := by
  simp [held]

namespace Waiting

variable {a b run : Run α} {stack rest : List (Run α)}

/-- Two neighbours are replaced by what they have been merged to. -/
theorem merge (above : List (Run α)) (run : Run α) (h : Waiting fair key l (above ++ b :: a :: rest))
    (harranged : Arranged fair key (a.items ++ b.items) run.items) (horder : Ascending fair key run.items) :
    Waiting fair key l (above ++ run :: rest) where
  arranged := by
    have hpair := ((Arranged.refl (held rest)).append harranged).append (.refl (held above))
    have hheld := h.arranged
    rw [held_append, held_cons, held_cons, List.append_assoc (held rest)] at hheld
    rw [held_append, held_cons]
    exact hheld.trans hpair
  ascending r hr := by
    rcases List.mem_append.1 hr with hr | hr
    · exact h.ascending r (List.mem_append_left _ hr)
    · rcases List.mem_cons.1 hr with rfl | hr
      · exact horder
      · exact h.ascending r (List.mem_append_right _ (List.mem_cons_of_mem _ (List.mem_cons_of_mem _ hr)))

/-- Nothing but the elements of a run matters. -/
theorem relabel (h : Waiting fair key l (a :: rest)) (hrun : run.items = a.items) :
    Waiting fair key l (run :: rest) where
  arranged := by simpa [hrun] using h.arranged
  ascending r hr := by
    rcases List.mem_cons.1 hr with rfl | hr
    · rw [hrun]
      exact h.ascending a List.mem_cons_self
    · exact h.ascending r (List.mem_cons_of_mem _ hr)

/-- One more run. -/
theorem push (run : Run α) (h : Waiting fair key l stack) (horder : Ascending fair key run.items) :
    Waiting fair key (l ++ run.items) (run :: stack) where
  arranged := by
    rw [held_cons]
    exact h.arranged.append (.refl run.items)
  ascending r hr := by
    rcases List.mem_cons.1 hr with rfl | hr
    · exact horder
    · exact h.ascending r hr

/-- A single run is the whole list. -/
theorem only (h : Waiting fair key l [run]) : Arranged fair key l run.items ∧ Ascending fair key run.items :=
  ⟨by simpa using h.arranged, h.ascending run List.mem_cons_self⟩

theorem forall_mem (h : Waiting fair key l stack) (hl : ∀ x ∈ l, P x) (hrun : run ∈ stack) : ∀ x ∈ run.items, P x := by
  intro x hx
  refine h.arranged.forall_mem hl x ?_
  rw [held, List.mem_flatten]
  exact ⟨run.items, List.mem_map.2 ⟨run, List.mem_reverse.2 hrun, rfl⟩, hx⟩

/-- Neighbours are merged. -/
theorem sorts_merge (above : List (Run α)) (h : Waiting fair key l (above ++ b :: a :: rest)) (hl : ∀ x ∈ l, P x)
    {threshold : Nat} (hthreshold : 1 ≤ threshold) :
    Sorts lt P fair key
      (fun r => Arranged fair key (a.items ++ b.items) r.1 ∧ Ascending fair key r.1 ∧ 1 ≤ r.2)
      (Sorting.merge lt threshold a.items b.items) := by
  have ha : a ∈ above ++ b :: a :: rest := by simp
  have hb : b ∈ above ++ b :: a :: rest := by simp
  refine Sorting.sorts_merge hthreshold (fun x hx => ?_) (h.ascending a ha) (h.ascending b hb)
  rcases List.mem_append.1 hx with hx | hx
  · exact h.forall_mem hl ha x hx
  · exact h.forall_mem hl hb x hx

end Waiting

/-- Merging runs on top of a stack keeps the list that it stands for. -/
theorem sorts_collapse (power fuel : Nat) {stack : List (Run α)} (h : Waiting fair key l stack) (hl : ∀ x ∈ l, P x)
    {threshold : Nat} (hthreshold : 1 ≤ threshold) :
    Sorts lt P fair key (fun r => Waiting fair key l r.1 ∧ 1 ≤ r.2) (collapse lt power fuel stack threshold) := by
  induction fuel generalizing stack threshold with
  | zero =>
    rcases stack with _ | ⟨top, _ | ⟨below, rest⟩⟩
    all_goals exact .leaf ⟨h, hthreshold⟩
  | succ fuel ih =>
    rcases stack with _ | ⟨top, _ | ⟨below, rest⟩⟩
    · exact .leaf ⟨h, hthreshold⟩
    · exact .leaf ⟨h.relabel rfl, hthreshold⟩
    · rw [collapse]
      refine sorts_ite (fun _ => ?_) fun _ => .leaf ⟨h.relabel rfl, hthreshold⟩
      refine (h.sorts_merge [] hl hthreshold).bind fun r hr => ?_
      exact ih (h.merge [] ⟨r.1, below.start, power⟩ hr.1 hr.2.1) hr.2.2

/-- One more run comes on the stack. -/
theorem sorts_addRun (total : Nat) {stack : List (Run α)} (h : Waiting fair key l stack) (hl : ∀ x ∈ l, P x)
    {threshold : Nat} (hthreshold : 1 ≤ threshold) {items : List α} (horder : Ascending fair key items) :
    Sorts lt P fair key (fun r => Waiting fair key (l ++ items) r.1 ∧ 1 ≤ r.2)
      (addRun lt total stack threshold items) := by
  rcases stack with _ | ⟨top, rest⟩
  · exact .leaf ⟨h.push ⟨items, 0, 0⟩ horder, hthreshold⟩
  · refine (sorts_collapse _ _ h hl hthreshold).bind fun r hr => ?_
    exact .leaf ⟨hr.1.push ⟨items, top.start + top.items.length, 0⟩ horder, hr.2⟩

/-- At most two runs are merged at once. -/
theorem sorts_mergeAll_few (fuel : Nat) {stack : List (Run α)} (hfew : stack.length ≤ 2) (h : Waiting fair key l stack)
    (hl : ∀ x ∈ l, P x) {threshold : Nat} (hthreshold : 1 ≤ threshold) :
    Sorts lt P fair key (fun r => Arranged fair key l r ∧ Ascending fair key r) (mergeAll lt fuel stack threshold) := by
  rcases stack with _ | ⟨c, _ | ⟨b, _ | ⟨a, rest⟩⟩⟩
  · rw [mergeAll]
    · exact .leaf ⟨h.arranged, fun _ => .nil⟩
    all_goals simp
  · rw [mergeAll]
    · exact .leaf (by simpa using h.only)
    all_goals simp
  · rw [mergeAll]
    exact (h.sorts_merge [] hl hthreshold).bind fun r hr => .leaf (h.merge [] ⟨r.1, 0, 0⟩ hr.1 hr.2.1).only
  · simp at hfew

/-- In the end all runs are merged. -/
theorem sorts_mergeAll (fuel : Nat) {stack : List (Run α)} (hfuel : stack.length ≤ fuel + 2)
    (h : Waiting fair key l stack) (hl : ∀ x ∈ l, P x) {threshold : Nat} (hthreshold : 1 ≤ threshold) :
    Sorts lt P fair key (fun r => Arranged fair key l r ∧ Ascending fair key r) (mergeAll lt fuel stack threshold) := by
  induction fuel generalizing stack threshold with
  | zero => exact sorts_mergeAll_few 0 hfuel h hl hthreshold
  | succ fuel ih =>
    by_cases hfew : stack.length ≤ 2
    · exact sorts_mergeAll_few (fuel + 1) hfew h hl hthreshold
    rcases stack with _ | ⟨c, _ | ⟨b, _ | ⟨a, rest⟩⟩⟩
    iterate 3 exact absurd (by simp) hfew
    rw [mergeAll]
    refine sorts_ite (fun _ => ?_) fun _ => ?_
    · refine (h.sorts_merge [c] hl hthreshold).bind fun r hr => ?_
      refine ih ?_ (h.merge [c] { a with items := r.1 } hr.1 hr.2.1) hr.2.2
      exact Nat.le_of_succ_le_succ hfuel
    · refine (h.sorts_merge [] hl hthreshold).bind fun r hr => ?_
      refine ih ?_ (h.merge [] { b with items := r.1 } hr.1 hr.2.1) hr.2.2
      exact Nat.le_of_succ_le_succ hfuel

/-- When the list has been cut, its runs are merged. -/
theorem sorts_sortRuns_nil (total least fuel : Nat) {stack : List (Run α)} (h : Waiting fair key l stack)
    (hl : ∀ x ∈ l, P x) {threshold : Nat} (hthreshold : 1 ≤ threshold) :
    Sorts lt P fair key (fun r => Arranged fair key (l ++ []) r ∧ Ascending fair key r)
      (sortRuns lt total least fuel stack threshold []) := by
  rw [sortRuns, List.append_nil]
  · exact (sorts_mergeAll _ (Nat.le_add_right _ 2) h hl hthreshold).bind fun r hr => .leaf (by rwa [List.append_nil])
  · simp

/-- A list is cut into runs, which are merged. -/
theorem sorts_sortRuns (total least fuel : Nat) {stack : List (Run α)} {items : List α} (hfuel : items.length ≤ fuel)
    (h : Waiting fair key l stack) (hmem : ∀ x ∈ l ++ items, P x) {threshold : Nat} (hthreshold : 1 ≤ threshold) :
    Sorts lt P fair key (fun r => Arranged fair key (l ++ items) r ∧ Ascending fair key r)
      (sortRuns lt total least fuel stack threshold items) := by
  induction fuel generalizing l stack items threshold with
  | zero =>
    obtain rfl := List.eq_nil_of_length_eq_zero (Nat.le_zero.1 hfuel)
    exact sorts_sortRuns_nil total least 0 h (fun y hy => hmem y (List.mem_append_left _ hy)) hthreshold
  | succ fuel ih =>
    rcases items with _ | ⟨x, rest⟩
    · exact sorts_sortRuns_nil total least (fuel + 1) h (fun y hy => hmem y (List.mem_append_left _ hy)) hthreshold
    rw [sortRuns]
    refine (sorts_takeRun fun y hy => hmem y (List.mem_append_right l hy)).bind fun r hr => ?_
    obtain ⟨hcut, horder, hless⟩ := hr
    have hless := hless (List.cons_ne_nil x rest)
    have hcutMem : ∀ y ∈ r.1 ++ r.2, P y := hcut.forall_mem fun y hy => hmem y (List.mem_append_right l hy)
    refine (sorts_insertionSort (fun y hy => hcutMem y (List.mem_append_left r.2 hy))
      (fun y hy => hcutMem y (List.mem_append_right r.1 (List.mem_of_mem_take hy))) horder).bind fun run hrun => ?_
    refine (sorts_addRun total h (fun y hy => hmem y (List.mem_append_left _ hy)) hthreshold hrun.2).bind fun st hst => ?_
    -- The run that is put on the stack, and what comes after it, make up the rest of the list.
    have hrest := hrun.1.append (.refl (r.2.drop (least - r.1.length)))
    rw [List.append_assoc, List.take_append_drop] at hrest
    have hwhole := (Arranged.refl l).append (hcut.trans hrest)
    rw [← List.append_assoc] at hwhole
    have hfuel : (r.2.drop (least - r.1.length)).length ≤ fuel := by
      rw [List.length_drop]
      omega
    exact (ih hfuel hst.1 (hwhole.forall_mem hmem) hst.2).mono fun m hm => ⟨hwhole.trans hm.1, hm.2⟩

/-- Sorting moves elements, and if the comparison is fair, those with the same key keep their order and the keys ascend. -/
theorem sorts_sort {items : List α} (hmem : ∀ x ∈ items, P x) :
    Sorts lt P fair key (fun r => Arranged fair key items r ∧ Ascending fair key r) (sort lt items) := by
  have hnone : Waiting fair key ([] : List α) [] := ⟨.refl [], by simp⟩
  have hpatience : 1 ≤ patience := by decide
  exact sorts_sortRuns items.length (leastRun items.length) items.length (Nat.le_refl _) hnone hmem hpatience

end Sorting

end ScriptEngine
