import ScriptEngine.Heap.Frame

/-!
# Changes of frames

Whatever a change does to the bindings of a frame, it does by binding keys and by dropping bindings. So what these two
keep is kept by all changes, given that it is known which keys they are for: `write` is for its own key and the length,
`resize` binds the length and drops indexes, and `refill` and `append` bind indexes and the length.

## Main definitions

* `Frame.Reworked`: a frame after such changes, with the keys that they may be for.
* `Frame.Alike`: frames with the same place in the store.
* `Frame.Keyed`: frames that bind every key once, and only keys of a kind.

## Main results

* `Frame.Reworked.write`, `Frame.Reworked.resize`, `Frame.Reworked.refill`, `Frame.Reworked.append`: what changes do.
* `Frame.Alike.of_reworked`, `Frame.Keyed.reworked`: what they keep.
-/

namespace ScriptEngine

namespace Frame

variable {f g : Frame} {k k' : Key} {v : Value}

/-! ## Bindings -/

theorem holds_iff : f.holds k ↔ ∃ e ∈ f.entries, k = e.1 := by
  simp [holds, lookup?, List.lookup_isSome_iff]

theorem holds_of_mem_keys (h : k ∈ f.keys) : f.holds k := by
  obtain ⟨e, he, rfl⟩ := List.mem_map.1 h
  exact holds_iff.2 ⟨e, he, rfl⟩

theorem mem_keys_of_holds (h : f.holds k) : k ∈ f.keys := by
  obtain ⟨e, he, rfl⟩ := holds_iff.1 h
  exact List.mem_map_of_mem he

theorem exists_bindEntry_iff (entries : List (Key × Value)) :
    (∃ e ∈ bindEntry k v entries, k' = e.1) ↔ k' = k ∨ ∃ e ∈ entries, k' = e.1 := by
  induction entries with
  | nil => simp [bindEntry]
  | cons e rest ih =>
      by_cases h : e.1 = k
      · simp [bindEntry, h]
      · simp [bindEntry, h, ih, or_left_comm]

theorem holds_put : (f.put k v).holds k' ↔ k' = k ∨ f.holds k' := by
  simp only [holds_iff, put, exists_bindEntry_iff]

theorem holds_define : (f.define k v).holds k' ↔ k' = k ∨ f.holds k' := holds_put

/-- What a frame holds without a key it held with it. -/
theorem holds_of_erase (h : (f.erase k).holds k') : f.holds k' := by
  rw [holds_iff] at h ⊢
  obtain ⟨e, he, hk⟩ := h
  exact ⟨e, (List.mem_filter.1 he).1, hk⟩

theorem holds_erase (hne : k ≠ k') (h : f.holds k) : (f.erase k').holds k := by
  rw [holds_iff] at h ⊢
  obtain ⟨e, he, rfl⟩ := h
  exact ⟨e, List.mem_filter.2 ⟨he, by simpa using hne⟩, rfl⟩

theorem map_bindEntry (k : Key) (v : Value) (entries : List (Key × Value)) :
    (bindEntry k v entries).map (·.1) =
      if k ∈ entries.map (·.1) then entries.map (·.1) else entries.map (·.1) ++ [k] := by
  induction entries with
  | nil => simp [bindEntry]
  | cons e rest ih =>
    by_cases he : e.1 = k
    · simp [bindEntry, he]
    · rw [bindEntry, if_neg he, List.map_cons, ih]
      by_cases hrest : k ∈ rest.map (·.1)
      · simp [hrest]
      · rw [if_neg hrest, if_neg (by simpa [Ne.symm he] using hrest)]
        rfl

/-- A key that was not bound comes last. -/
theorem keys_put (f : Frame) (k : Key) (v : Value) :
    (f.put k v).keys = if k ∈ f.keys then f.keys else f.keys ++ [k] := map_bindEntry k v f.entries

/-! ## All changes -/

/-- A frame after changes of bindings: keys were bound for which `puts` holds, and bindings were dropped of keys for which
`drops` holds. -/
inductive Reworked (puts drops : Key → Prop) (f : Frame) : Frame → Prop
  | refl : Reworked puts drops f f
  | put {g : Frame} {k : Key} (hg : Reworked puts drops f g) (hk : puts k) (v : Value) :
      Reworked puts drops f (g.put k v)
  | erase {g : Frame} {k : Key} (hg : Reworked puts drops f g) (hk : drops k) : Reworked puts drops f (g.erase k)

namespace Reworked

variable {puts drops : Key → Prop}

theorem foldl {β : Type} {change : Frame → β → Frame} {bs : List β}
    (hchange : ∀ g, ∀ b ∈ bs, f.Reworked puts drops g → f.Reworked puts drops (change g b))
    (h : f.Reworked puts drops g) : f.Reworked puts drops (bs.foldl change g) :=
  List.foldlRecOn _ _ h fun g hg b hb => hchange g b hb hg

section Length

variable (hlength : puts Key.length)
include hlength

theorem write (hk : puts k) (f : Frame) (v : Value) : f.Reworked puts drops (f.write k v) := by
  have hput : f.Reworked puts drops (f.put k v) := refl.put hk v
  unfold Frame.write
  split
  · split
    · dsimp only
      split
      · exact hput.put hlength _
      · exact hput
    · split
      · exact refl
      · exact hput
  · exact hput

variable (hdrops : ∀ i, drops (.index i))
include hdrops

theorem resize (f : Frame) (n : Nat) : f.Reworked puts drops (f.resize n) := by
  refine put ?_ hlength _
  split
  · refine foldl (fun g k hk hg => hg.erase ?_) refl
    -- What lies beyond a length are indexes.
    have hindex := (List.mem_filter.1 hk).2
    cases k with
    | index i => exact hdrops i
    | name t => cases hindex
  · exact refl

end Length

variable (hindex : ∀ i, puts (.index i))
include hindex

theorem putFrom (h : f.Reworked puts drops g) (i : Nat) (values : List Value) :
    f.Reworked puts drops (g.putFrom i values) := by
  induction values generalizing g i with
  | nil => exact h
  | cons v rest ih => exact ih (h.put (hindex i) v) (i + 1)

variable (hlength : puts Key.length)
include hlength

theorem refill (hdrops : ∀ i, drops (.index i)) (f : Frame) (values : List Value) :
    f.Reworked puts drops (f.refill values) :=
  ((resize hlength hdrops f 0).putFrom hindex 0 values).put hlength _

theorem append (f : Frame) (values : List Value) : f.Reworked puts drops (f.append values) :=
  foldl (fun _ v _ hg => (hg.put (hindex _) v).put hlength _) refl

theorem ofItems (parent : Option FrameId) (values : List Value) :
    (({ parent, role := .slots } : Frame).define Key.length (.ofNat 0)).Reworked puts drops (ofItems parent values) :=
  (putFrom hindex refl 0 values).put hlength _

end Reworked

/-! ## Roles and parents -/

/-- Two frames with the same place in the store: the same role and the same parent. -/
structure Alike (f g : Frame) : Prop where
  role : g.role = f.role
  parent : g.parent = f.parent

namespace Alike

variable {h : Frame}

theorem refl (f : Frame) : f.Alike f := ⟨rfl, rfl⟩

theorem trans (h₁ : f.Alike g) (h₂ : g.Alike h) : f.Alike h :=
  ⟨h₂.role.trans h₁.role, h₂.parent.trans h₁.parent⟩

theorem put (f : Frame) (k : Key) (v : Value) : f.Alike (f.put k v) := ⟨rfl, rfl⟩

theorem define (f : Frame) (k : Key) (v : Value) : f.Alike (f.define k v) := ⟨rfl, rfl⟩

theorem erase (f : Frame) (k : Key) : f.Alike (f.erase k) := ⟨rfl, rfl⟩

/-- No change of bindings moves a frame to another place. -/
theorem of_reworked (h : f.Reworked (fun _ => True) (fun _ => True) g) : f.Alike g := by
  induction h with
  | refl => exact refl f
  | put _ _ v ih => exact ih.trans (put _ _ v)
  | erase _ _ ih => exact ih.trans (erase _ _)

theorem write (f : Frame) (k : Key) (v : Value) : f.Alike (f.write k v) := of_reworked (.write trivial trivial f v)

theorem resize (f : Frame) (n : Nat) : f.Alike (f.resize n) := of_reworked (.resize trivial (fun _ => trivial) f n)

theorem refill (f : Frame) (values : List Value) : f.Alike (f.refill values) :=
  of_reworked (.refill (fun _ => trivial) trivial (fun _ => trivial) f values)

theorem append (f : Frame) (values : List Value) : f.Alike (f.append values) :=
  of_reworked (.append (fun _ => trivial) trivial f values)

theorem ofItems (parent : Option FrameId) (values : List Value) :
    ({ parent, role := .slots } : Frame).Alike (ofItems parent values) :=
  (define _ _ _).trans (of_reworked (.ofItems (fun _ => trivial) trivial parent values))

end Alike

/-! ## What is bound, and the marks -/

/-- A key stays bound if its binding is not dropped. -/
theorem holds_of_reworked (drops : Key → Prop) (hk : ¬drops k) (h : f.Reworked (fun _ => True) drops g)
    (hf : f.holds k) : g.holds k := by
  induction h with
  | refl => exact hf
  | put _ _ v ih => exact holds_put.2 (.inr ih)
  | erase _ hdrop ih =>
    refine holds_erase ?_ ih
    rintro rfl
    exact hk hdrop

/-- Changes of bindings do not seal a frame, nor open it. -/
theorem sealed_of_reworked (h : f.Reworked (fun _ => True) (fun _ => True) g) : g.sealed = f.sealed := by
  induction h with
  | refl => rfl
  | put _ _ v ih => exact ih
  | erase _ _ ih => exact ih

theorem hidden_put (h : f.hidden = []) : (f.put k v).hidden = [] := by simp [put, h]

/-- If no key is masked, changes of bindings mask none. -/
theorem hidden_of_reworked (h : f.Reworked (fun _ => True) (fun _ => True) g) (hf : f.hidden = []) : g.hidden = [] := by
  induction h with
  | refl => exact hf
  | put _ _ v ih => exact hidden_put ih
  | erase _ _ ih => exact ih

/-! ## Keys -/

/-- A frame that binds every key once, and only keys of a kind. -/
structure Keyed (P : Key → Prop) (f : Frame) : Prop where
  nodup : f.keys.Nodup
  all : ∀ k ∈ f.keys, P k

namespace Keyed

variable {P Q : Key → Prop}

theorem empty (parent : Option FrameId) (role : Frame.Role) : Keyed P { parent, role } := ⟨.nil, nofun⟩

theorem mono (h : f.Keyed P) (hPQ : ∀ k ∈ f.keys, P k → Q k) : f.Keyed Q :=
  ⟨h.nodup, fun k hk => hPQ k hk (h.all k hk)⟩

theorem put (h : f.Keyed P) (hk : P k) (v : Value) : (f.put k v).Keyed P := by
  by_cases hmem : k ∈ f.keys
  · exact ⟨by simpa [keys_put, hmem] using h.nodup, by simpa [keys_put, hmem] using h.all⟩
  · constructor
    · rw [keys_put, if_neg hmem, List.nodup_append]
      refine ⟨h.nodup, by simp, ?_⟩
      rintro a ha b hb rfl
      exact hmem (List.mem_singleton.1 hb ▸ ha)
    · rw [keys_put, if_neg hmem]
      intro k' hk'
      rcases List.mem_append.1 hk' with hk' | hk'
      · exact h.all k' hk'
      · exact List.mem_singleton.1 hk' ▸ hk

theorem define (h : f.Keyed P) (hk : P k) (v : Value) : (f.define k v).Keyed P := by
  have hput := h.put hk v
  exact ⟨hput.nodup, hput.all⟩

theorem erase (h : f.Keyed P) (k : Key) : (f.erase k).Keyed P := by
  have hsub : (f.erase k).keys.Sublist f.keys := List.filter_sublist.map _
  exact ⟨h.nodup.sublist hsub, fun k' hk' => h.all k' (hsub.subset hk')⟩

theorem sealed (h : f.Keyed P) (flag : Bool) : Keyed P { f with sealed := flag } := ⟨h.nodup, h.all⟩

/-- Changes that bind keys of the kind keep a frame keyed, whatever they drop. -/
theorem reworked (h : f.Keyed P) (hg : f.Reworked P (fun _ => True) g) : g.Keyed P := by
  induction hg with
  | refl => exact h
  | put _ hk v ih => exact ih.put hk v
  | erase _ _ ih => exact ih.erase _

theorem ofItems (hindex : ∀ i, P (.index i)) (hlength : P Key.length) (parent : Option FrameId)
    (values : List Value) : (ofItems parent values).Keyed P :=
  ((empty parent .slots).define hlength _).reworked (.ofItems hindex hlength parent values)

end Keyed

end Frame

end ScriptEngine
