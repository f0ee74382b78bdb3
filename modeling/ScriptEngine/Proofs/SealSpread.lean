import Mathlib.Data.Finset.Card
import Mathlib.Logic.Relation
import ScriptEngine.Proofs.Scopes

/-!
# How far seals spread

To seal a frame, or to take its seal away, goes on to the frames that the values of the frame lead to, and from
these to the next. The seal that is written is at the same time the mark of what has been visited: a frame that
has it already ends the search. Frames may lead to each other in circles, and the seals change while the search
is going on; still it ends, and it reaches the frames that could be reached before it began through frames
without the new seal, and no others. Nothing but seals is changed.

## Main definitions

* `Store.Sealing`: setting the seals of frames one after another, with no bound on the depth of the search.
* `Store.OpenPath`: ways through frames that do not have a seal yet.
* `Store.SameButSeals`: stores that differ in their seals only.

## Main results

* `Store.Sealing.spread`: what is sealed at the end of a search.
* `Store.sealing_sealFrom`: a search ends if its bound is above the number of frames without the seal.
* `Store.setSealed_exact`: both together, for the seal of one frame and all that it leads to.
-/

namespace ScriptEngine

namespace Store

variable {s t u : Store} {flag : Bool} {f g i : FrameId} {fs : List FrameId}

/-! ## Frames without the seal -/

/-- A frame that is there and has the other seal. -/
def Unlike (s : Store) (flag : Bool) (f : FrameId) : Prop := f < s.frames.size ∧ (s.frame f).sealed ≠ flag

/-- A way from one frame to another along the values that they hold, on which every frame, the first and the last
one included, has the other seal. -/
inductive OpenPath (flag : Bool) (s : Store) : FrameId → FrameId → Prop
  | here {f : FrameId} (hf : s.Unlike flag f) : OpenPath flag s f f
  | step {f g h : FrameId} (hf : s.Unlike flag f) (hg : g ∈ s.successors f) (hrest : OpenPath flag s g h) :
      OpenPath flag s f h

theorem OpenPath.first (h : OpenPath flag s f g) : s.Unlike flag f := by
  cases h with
  | here hf => exact hf
  | step hf _ _ => exact hf

theorem OpenPath.trans (h : OpenPath flag s f g) (h' : OpenPath flag s g i) : OpenPath flag s f i := by
  induction h with
  | here _ => exact h'
  | step hf hg _ ih => exact .step hf hg (ih h')

/-! ## Stores that differ in their seals -/

/-- A store that differs from another one in the seals of its frames at most. -/
structure SameButSeals (s t : Store) : Prop where
  size : t.frames.size = s.frames.size
  frame (f : FrameId) : { t.frame f with sealed := (s.frame f).sealed } = s.frame f
  objects : t.objects = s.objects
  host : t.host = s.host

namespace SameButSeals

theorem refl (s : Store) : s.SameButSeals s := ⟨rfl, fun _ => rfl, rfl, rfl⟩

theorem trans (h : s.SameButSeals t) (h' : t.SameButSeals u) : s.SameButSeals u where
  size := h'.size.trans h.size
  frame f := by
    have hmid := h'.frame f
    have hfirst := h.frame f
    rw [← hmid] at hfirst
    exact hfirst
  objects := h'.objects.trans h.objects
  host := h'.host.trans h.host

theorem entries (h : s.SameButSeals t) (f : FrameId) : (t.frame f).entries = (s.frame f).entries := by
  have hentries := congrArg Frame.entries (h.frame f)
  exact hentries

/-- Frames lead to the same frames. -/
theorem successors (h : s.SameButSeals t) (f : FrameId) : t.successors f = s.successors f := by
  have hframeOf (v : Value) : t.frameOf? v = s.frameOf? v := by
    cases v <;> simp [frameOf?, propsOf, object, h.objects]
  simp [Store.successors, h.entries f, hframeOf]

end SameButSeals

/-- A way is there before if the frames without the seal have been without it before. -/
theorem OpenPath.before (hsame : s.SameButSeals t) (hunlike : ∀ i, t.Unlike flag i → s.Unlike flag i)
    (h : OpenPath flag t f g) : OpenPath flag s f g := by
  induction h with
  | here hf => exact .here (hunlike _ hf)
  | step hf hg _ ih => exact .step (hunlike _ hf) (hsame.successors _ ▸ hg) ih

/-- The store with the seal of one frame set. -/
def withSeal (s : Store) (f : FrameId) (flag : Bool) : Store := s.modifyFrame f fun fr => { fr with sealed := flag }

theorem SameButSeals.withSeal (s : Store) (f : FrameId) (flag : Bool) : s.SameButSeals (s.withSeal f flag) where
  size := size_modifyFrame s f _
  frame g := by
    by_cases hfg : f = g
    · subst hfg
      by_cases hf : f < s.frames.size
      · rw [Store.withSeal, frame_modifyFrame_self s f _ hf]
      · have hpast := Nat.le_of_not_lt hf
        rw [frame_of_size_le hpast, frame_of_size_le (by simpa [Store.withSeal] using hpast)]
    · rw [Store.withSeal, frame_modifyFrame_of_ne s _ hfg]
  objects := rfl
  host := rfl

/-- The frame itself has the seal now, if it is there, and the others have what they had. -/
theorem sealed_withSeal : ((s.withSeal f flag).frame g).sealed = flag ↔
    (s.frame g).sealed = flag ∨ (g = f ∧ s.Unlike flag f) := by
  by_cases hfg : f = g
  · subst hfg
    by_cases hf : f < s.frames.size
    · rw [withSeal, frame_modifyFrame_self s f _ hf]
      simp [Unlike, hf, em]
    · have hpast := Nat.le_of_not_lt hf
      rw [frame_of_size_le hpast, frame_of_size_le (by simpa [withSeal] using hpast)]
      simp [Unlike, hf]
  · rw [withSeal, frame_modifyFrame_of_ne s _ hfg]
    simp [Ne.symm hfg]

/-- A frame that is not there leads nowhere. -/
theorem lt_size_of_mem_successors (h : g ∈ s.successors f) : f < s.frames.size := by
  refine Nat.lt_of_not_le fun hle => ?_
  simp [successors, frame_of_size_le hle] at h

theorem unlike_withSeal : (s.withSeal f flag).Unlike flag g ↔ s.Unlike flag g ∧ g ≠ f := by
  have hsize := (SameButSeals.withSeal s f flag).size
  constructor
  · rintro ⟨hg, hseal⟩
    rw [hsize] at hg
    rw [Ne, sealed_withSeal, not_or, not_and] at hseal
    refine ⟨⟨hg, hseal.1⟩, ?_⟩
    rintro rfl
    exact hseal.2 rfl ⟨hg, hseal.1⟩
  · rintro ⟨⟨hg, hseal⟩, hne⟩
    refine ⟨hsize.symm ▸ hg, fun hs => ?_⟩
    obtain hs | ⟨he, -⟩ := sealed_withSeal.1 hs
    · exact hseal hs
    · exact hne he

/-! ## The search -/

/-- Sets the seals of frames one after another: a frame that has the seal is passed over; any other one gets it,
and before the next frame comes all that its values lead to. -/
inductive Sealing (flag : Bool) : Store → List FrameId → Store → Prop
  | nil (s : Store) : Sealing flag s [] s
  | skip {s t : Store} {f : FrameId} {rest : List FrameId} (hf : (s.frame f).sealed = flag)
      (hrest : Sealing flag s rest t) : Sealing flag s (f :: rest) t
  | visit {s t u : Store} {f : FrameId} {rest : List FrameId} (hf : (s.frame f).sealed ≠ flag)
      (hinner : Sealing flag (s.withSeal f flag) (s.successors f) t) (hrest : Sealing flag t rest u) :
      Sealing flag s (f :: rest) u

/-- At the end of a search the frames that had the seal have it, and those to which frames without it led. -/
structure Spread (flag : Bool) (s : Store) (fs : List FrameId) (t : Store) : Prop where
  same : s.SameButSeals t
  sealed (g : FrameId) : (t.frame g).sealed = flag ↔ (s.frame g).sealed = flag ∨ ∃ f ∈ fs, OpenPath flag s f g

namespace Spread

/-- A frame without the seal at the end of a search was without it before. -/
theorem unlike (h : Spread flag s fs t) (hg : t.Unlike flag g) : s.Unlike flag g := by
  refine ⟨h.same.size ▸ hg.1, fun hs => hg.2 ?_⟩
  exact (h.sealed g).2 (.inl hs)

/-- A way at the end of a search was there before. -/
theorem path (h : Spread flag s fs t) (hpath : OpenPath flag t f g) : OpenPath flag s f g :=
  hpath.before h.same fun _ => h.unlike

/-- A way that is not there any more at the end of a search leads to where the search went. -/
theorem path_or (h : Spread flag s fs t) (hpath : OpenPath flag s f g) :
    OpenPath flag t f g ∨ ∃ i ∈ fs, OpenPath flag s i g := by
  induction hpath with
  | @here f hf =>
    by_cases ht : (t.frame f).sealed = flag
    · obtain hs | hreached := (h.sealed f).1 ht
      · exact absurd hs hf.2
      · exact .inr hreached
    · exact .inl (.here ⟨h.same.size.symm ▸ hf.1, ht⟩)
  | @step f i g hf hi hrest ih =>
    obtain hpath | hreached := ih
    · by_cases ht : (t.frame f).sealed = flag
      · -- The frame got the seal in the search, so the search could go on from it.
        obtain hs | ⟨j, hj, hjf⟩ := (h.sealed f).1 ht
        · exact absurd hs hf.2
        · exact .inr ⟨j, hj, hjf.trans (.step hf hi hrest)⟩
      · exact .inl (.step ⟨h.same.size.symm ▸ hf.1, ht⟩ (h.same.successors f ▸ hi) hpath)
    · exact .inr hreached

/-- One search after another. -/
theorem append (h : Spread flag s fs t) {gs : List FrameId} (h' : Spread flag t gs u) :
    Spread flag s (fs ++ gs) u where
  same := h.same.trans h'.same
  sealed g := by
    rw [h'.sealed, h.sealed, or_assoc]
    refine or_congr_right ⟨?_, ?_⟩
    · rintro (⟨i, hi, hpath⟩ | ⟨i, hi, hpath⟩)
      · exact ⟨i, List.mem_append_left _ hi, hpath⟩
      · exact ⟨i, List.mem_append_right _ hi, h.path hpath⟩
    · rintro ⟨i, hi, hpath⟩
      obtain hi | hi := List.mem_append.1 hi
      · exact .inl ⟨i, hi, hpath⟩
      · obtain hpath | hreached := h.path_or hpath
        · exact .inr ⟨i, hi, hpath⟩
        · exact .inl hreached

/-- A way that comes by a frame can be begun where that frame was left for the last time. -/
theorem return_or (hpath : OpenPath flag s g i) :
    OpenPath flag (s.withSeal f flag) g i ∨ i = f ∨ ∃ j ∈ s.successors f, OpenPath flag (s.withSeal f flag) j i := by
  have hsame := SameButSeals.withSeal s f flag
  induction hpath with
  | @here g hg =>
    by_cases hgf : g = f
    · exact .inr (.inl hgf)
    · exact .inl (.here (unlike_withSeal.2 ⟨hg, hgf⟩))
  | @step g j i hg hj _ ih =>
    obtain hpath | hdone := ih
    · by_cases hgf : g = f
      · exact .inr (.inr ⟨j, hgf ▸ hj, hpath⟩)
      · exact .inl (.step (unlike_withSeal.2 ⟨hg, hgf⟩) (hsame.successors g ▸ hj) hpath)
    · exact .inr hdone

/-- A search from a frame without the seal. -/
theorem visit (hf : (s.frame f).sealed ≠ flag) (h : Spread flag (s.withSeal f flag) (s.successors f) t) :
    Spread flag s [f] t where
  same := (SameButSeals.withSeal s f flag).trans h.same
  sealed g := by
    rw [h.sealed, sealed_withSeal, or_assoc]
    refine or_congr_right ⟨?_, ?_⟩
    · rintro (⟨rfl, hunlike⟩ | ⟨j, hj, hpath⟩)
      · exact ⟨g, List.mem_singleton_self g, .here hunlike⟩
      · have hbefore := hpath.before (SameButSeals.withSeal s f flag) fun i hi => (unlike_withSeal.1 hi).1
        exact ⟨f, List.mem_singleton_self f, .step ⟨lt_size_of_mem_successors hj, hf⟩ hj hbefore⟩
    · rintro ⟨i, hi, hpath⟩
      obtain rfl := List.mem_singleton.1 hi
      obtain hagain | hlast | hstep := return_or hpath
      · exact absurd rfl (unlike_withSeal.1 hagain.first).2
      · exact .inl ⟨hlast, hpath.first⟩
      · exact .inr hstep

end Spread

/-- How far a search goes. -/
theorem Sealing.spread (h : Sealing flag s fs t) : Spread flag s fs t := by
  induction h with
  | nil s => exact ⟨.refl s, by simp⟩
  | @skip s t f rest hf _ ih =>
    refine ⟨ih.same, fun g => ?_⟩
    have hnone : ¬OpenPath flag s f g := fun hpath => hpath.first.2 hf
    simp [ih.sealed g, hnone]
  | visit hf _ _ ihInner ihRest => exact (Spread.visit hf ihInner).append ihRest

/-- A search has one end at most. -/
theorem Sealing.unique (h : Sealing flag s fs t) (h' : Sealing flag s fs u) : t = u := by
  induction h generalizing u with
  | nil s =>
    cases h'
    rfl
  | skip hf _ ih =>
    cases h' with
    | skip _ hrest => exact ih hrest
    | visit hne _ _ => exact absurd hf hne
  | visit hf _ _ ihInner ihRest =>
    cases h' with
    | skip he _ => exact absurd he hf
    | visit _ hinner hrest =>
      obtain rfl := ihInner hinner
      exact ihRest hrest

theorem Sealing.cons (h : Sealing flag s [f] t) (hrest : Sealing flag t fs u) : Sealing flag s (f :: fs) u := by
  cases h with
  | skip hf hnil =>
    cases hnil
    exact .skip hf hrest
  | visit hf hinner hnil =>
    cases hnil
    exact .visit hf hinner hrest

/-! ## The bound on the depth -/

/-- The frames without the seal. -/
def unlikeFrames (s : Store) (flag : Bool) : Finset FrameId :=
  (Finset.range s.frames.size).filter fun f => (s.frame f).sealed ≠ flag

theorem mem_unlikeFrames : f ∈ s.unlikeFrames flag ↔ s.Unlike flag f := by simp [unlikeFrames, Unlike]

theorem Spread.card_le (h : Spread flag s fs t) : (t.unlikeFrames flag).card ≤ (s.unlikeFrames flag).card := by
  refine Finset.card_le_card fun g hg => ?_
  exact mem_unlikeFrames.2 (h.unlike (mem_unlikeFrames.1 hg))

theorem card_withSeal (hf : s.Unlike flag f) :
    ((s.withSeal f flag).unlikeFrames flag).card < (s.unlikeFrames flag).card := by
  refine Finset.card_lt_card (Finset.ssubset_iff_of_subset ?_ |>.2 ⟨f, mem_unlikeFrames.2 hf, ?_⟩)
  · intro g hg
    exact mem_unlikeFrames.2 (unlike_withSeal.1 (mem_unlikeFrames.1 hg)).1
  · intro hmem
    exact (unlike_withSeal.1 (mem_unlikeFrames.1 hmem)).2 rfl

/-- Frames one after another, if the search from each of them ends. -/
theorem sealing_foldl {n : Nat}
    (hn : ∀ (s : Store) f, (s.unlikeFrames flag).card < n → Sealing flag s [f] (sealFrom flag n s f))
    (fs : List FrameId) (hs : (s.unlikeFrames flag).card < n) :
    Sealing flag s fs (fs.foldl (fun s g => sealFrom flag n s g) s) := by
  induction fs generalizing s with
  | nil => exact .nil s
  | cons f fs ih =>
    have hfirst := hn s f hs
    exact hfirst.cons (ih (Nat.lt_of_le_of_lt hfirst.spread.card_le hs))

/-- A search whose bound is above the number of frames without the seal comes to its end. -/
theorem sealing_sealFrom {n : Nat} (s : Store) (f : FrameId) (hn : (s.unlikeFrames flag).card < n) :
    Sealing flag s [f] (sealFrom flag n s f) := by
  induction n generalizing s f with
  | zero => exact absurd hn (Nat.not_lt_zero _)
  | succ n ih =>
    rw [sealFrom]
    split
    · exact .skip ‹_› (.nil s)
    · rename_i hf
      refine .visit hf ?_ (.nil _)
      by_cases hlt : f < s.frames.size
      · have hless := card_withSeal ⟨hlt, hf⟩
        exact sealing_foldl ih (s.successors f) (by omega)
      · have hnone : s.successors f = [] := by simp [successors, frame_of_size_le (Nat.le_of_not_lt hlt)]
        rw [hnone]
        exact .nil _

theorem card_unlikeFrames_le (s : Store) (flag : Bool) : (s.unlikeFrames flag).card ≤ s.frames.size := by
  have hle := Finset.card_filter_le (Finset.range s.frames.size) fun f => (s.frame f).sealed ≠ flag
  simpa [unlikeFrames] using hle

/-- The search of `setSealed` comes to its end. -/
theorem sealing_setSealed (s : Store) (f : FrameId) (flag : Bool) : Sealing flag s [f] (s.setSealed f flag) :=
  sealing_sealFrom s f (Nat.lt_succ_of_le (s.card_unlikeFrames_le flag))

/-- Where all frames have the other seal, every way is open. -/
theorem openPath_iff (hall : ∀ i < s.frames.size, (s.frame i).sealed ≠ flag) (hg : g < s.frames.size) :
    OpenPath flag s f g ↔ Relation.ReflTransGen (fun i j => j ∈ s.successors i) f g := by
  constructor
  · intro hpath
    induction hpath with
    | here _ => exact .refl
    | step _ hj _ ih => exact .head hj (ih hg)
  · intro hpath
    induction hpath using Relation.ReflTransGen.head_induction_on with
    | refl => exact .here ⟨hg, hall g hg⟩
    | @head i j hj _ ih =>
      have hi := lt_size_of_mem_successors hj
      exact .step ⟨hi, hall i hi⟩ hj ih

/-- To set the seal of a frame is a search that ends, in one way only, whatever circles the frames of the store
lead in. It changes nothing but seals. At its end those frames have the seal that had it before, and those that the
first frame led to through frames with the other seal, itself and the last one included; all others have the seal
that they had. In a store in which all frames have the other seal, these are all frames that the first one leads
to. -/
theorem setSealed_exact (s : Store) (f : FrameId) (flag : Bool) :
    (∀ t, Sealing flag s [f] t ↔ t = s.setSealed f flag) ∧ s.SameButSeals (s.setSealed f flag) ∧
      (∀ g, ((s.setSealed f flag).frame g).sealed = flag ↔ (s.frame g).sealed = flag ∨ OpenPath flag s f g) ∧
      ((∀ g < s.frames.size, (s.frame g).sealed ≠ flag) → ∀ g < s.frames.size,
        (((s.setSealed f flag).frame g).sealed = flag ↔
          Relation.ReflTransGen (fun i j => j ∈ s.successors i) f g)) := by
  have hsearch := sealing_setSealed s f flag
  have hspread := hsearch.spread
  have hsealed (g : FrameId) :
      ((s.setSealed f flag).frame g).sealed = flag ↔ (s.frame g).sealed = flag ∨ OpenPath flag s f g := by
    simpa using hspread.sealed g
  refine ⟨fun t => ⟨fun ht => ht.unique hsearch, fun ht => ht ▸ hsearch⟩, hspread.same, hsealed, ?_⟩
  intro hall g hg
  rw [hsealed g, openPath_iff hall hg]
  exact or_iff_right (hall g hg)

/-- A frame and the properties of an object that lead to each other, a frame that only leads to them, and one that
they lead to and that leads to itself. -/
def circle : Store :=
  { frames := #[{ entries := [(.name "a", .obj 0)] }, { entries := [(.name "b", .frame 0), (.name "c", .frame 3)] },
      { entries := [(.name "d", .frame 0)] }, { entries := [(.name "e", .frame 3)] }]
    objects := #[{ props := 1 }] }

/-- Sealing the first frame of the circle seals what it leads to, and not the frame that only leads to it. -/
theorem setSealed_exact_circle :
    (∀ g < 4, (circle.frame g).sealed ≠ true) ∧
      ((circle.setSealed 0 true).frame 3).sealed = true ∧
      Relation.ReflTransGen (fun i j => j ∈ circle.successors i) 0 3 ∧
      ((circle.setSealed 0 true).frame 2).sealed = false ∧
      ¬Relation.ReflTransGen (fun i j => j ∈ circle.successors i) 0 2 := by
  obtain ⟨-, -, -, hreached⟩ := setSealed_exact circle 0 true
  have hall : ∀ g < 4, (circle.frame g).sealed ≠ true := by decide
  have hthird : ((circle.setSealed 0 true).frame 3).sealed = true := by decide +kernel
  have hsecond : ((circle.setSealed 0 true).frame 2).sealed = false := by decide +kernel
  refine ⟨hall, hthird, (hreached hall 3 (by decide)).1 hthird, hsecond, ?_⟩
  intro hpath
  have hsealed := (hreached hall 2 (by decide)).2 hpath
  rw [hsecond] at hsealed
  cases hsealed

end Store

end ScriptEngine
