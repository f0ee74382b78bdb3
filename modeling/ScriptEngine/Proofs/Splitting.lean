import ScriptEngine.Proofs.ListMethods
import ScriptEngine.Proofs.Lossless
import ScriptEngine.Proofs.Matches

/-!
# Splitting

A string is split where an expression matches, or where a text occurs. In both cases the pieces and what stands between
them make up the string.

With an expression two positions move: the start of the piece, and the place where a match is tried. Wherever a match
ends at the start of the piece, it is passed over, so every match that is used takes the start of the next piece further
on; and as no match ends before it starts, the place never falls behind the start. So splitting ends, even if the
expression matches the empty text everywhere.

With a text the pieces lie between the leftmost occurrences that do not overlap. To join them with this text gives the
string again.

## Main definitions

* `Hits.Splits`: how a split goes on from two positions, with no bound on its steps.
* `Text.Leftmost`: the leftmost occurrences of a text that do not overlap.

## Main results

* `Strings.splitByMatches_lossless`: what splitting by an expression uses and gives.
* `Strings.join_split`: what splitting by a text gives, and that joining undoes it.
-/

namespace ScriptEngine

/-! ## Splitting by matches -/

namespace Hits

variable {matchAt : Nat → Option Hit} {t last : Text} {p q n : Nat} {cuts : List (Text × Hit)}

/-- What is found at a position is a match that starts there and lies in the text. -/
def Anchored (matchAt : Nat → Option Hit) (t : Text) : Prop :=
  ∀ q h, q ≤ t.length → matchAt q = some h → h.Within t q ∧ h.start = q

/-- How a split goes on from the start `p` of a piece and the place `q` where a match is tried next: the pieces with the
matches that follow them, and the last piece. -/
inductive Splits (matchAt : Nat → Option Hit) (t : Text) : Nat → Nat → List (Text × Hit) → Text → Prop
  /-- The end has been reached. -/
  | last {p q : Nat} (hq : t.length ≤ q) : Splits matchAt t p q [] (t.drop p)
  /-- There is no match, or it ends where the piece starts. -/
  | pass {p q : Nat} {cuts : List (Text × Hit)} {last : Text} (hq : q < t.length)
      (hmatch : ∀ h, matchAt q = some h → h.stop = p) (hrest : Splits matchAt t p (q + 1) cuts last) :
      Splits matchAt t p q cuts last
  /-- There is a match that ends elsewhere. The next piece starts where it ends. -/
  | cut {p q : Nat} {h : Hit} {cuts : List (Text × Hit)} {last : Text} (hq : q < t.length)
      (hmatch : matchAt q = some h) (hstop : h.stop ≠ p) (hrest : Splits matchAt t h.stop h.stop cuts last) :
      Splits matchAt t p q ((t.slice p q, h) :: cuts) last

/-- A split ends within any number of steps that is large enough: each step takes one of the positions further. -/
theorem splits_splitFrom (hmatch : Anchored matchAt t) (hpq : p ≤ q) (hq : q ≤ t.length)
    (hn : 2 * t.length < n + p + q) :
    Splits matchAt t p q (splitFrom matchAt t n p q).1 (splitFrom matchAt t n p q).2 := by
  induction n generalizing p q with
  | zero => omega
  | succ n ih =>
    rw [splitFrom]
    by_cases hlt : q < t.length
    · rw [if_pos hlt]
      cases hfound : matchAt q with
      | none => exact .pass hlt (by simp [hfound]) (ih (by omega) (by omega) (by omega))
      | some h =>
        obtain ⟨hwithin, hstart⟩ := hmatch q h hq hfound
        by_cases hstop : h.stop = p
        · simp only [if_pos hstop]
          exact .pass hlt (by simp [hfound, hstop]) (ih (by omega) (by omega) (by omega))
        · simp only [if_neg hstop]
          have hqstop := hwithin.order
          exact .cut hlt hfound hstop (ih (Nat.le_refl _) hwithin.inside (by omega))
    · rw [if_neg hlt]
      exact .last (Nat.le_of_not_lt hlt)

namespace Splits

/-- The matches that a split uses lie in the text, one after another, and the pieces are those between them. -/
theorem inOrder (h : Splits matchAt t p q cuts last) (hmatch : Anchored matchAt t) (hpq : p ≤ q) :
    InOrder t p (cuts.map (·.2)) ∧ cuts.map (·.1) ++ [last] = pieces t p (cuts.map (·.2)) := by
  induction h with
  | last hq => exact ⟨trivial, rfl⟩
  | pass hq hmatch' hrest ih => exact ih (Nat.le_succ_of_le hpq)
  | @cut p q h cuts last hq hfound hstop hrest ih =>
    obtain ⟨hwithin, hstart⟩ := hmatch q h (Nat.le_of_lt hq) hfound
    obtain ⟨horder, hpieces⟩ := ih (Nat.le_refl _)
    refine ⟨⟨hwithin.mono hpq, horder⟩, ?_⟩
    rw [List.map_cons, List.map_cons, List.cons_append, hpieces, pieces, hstart]

/-- Every match that a split uses is one at the place where it starts. -/
theorem matchAt_start (h : Splits matchAt t p q cuts last) (hmatch : Anchored matchAt t) :
    ∀ hit ∈ cuts.map (·.2), matchAt hit.start = some hit := by
  induction h with
  | last hq => exact nofun
  | pass hq hmatch' hrest ih => exact ih
  | @cut p q h cuts last hq hfound hstop hrest ih =>
    rw [List.map_cons, List.forall_mem_cons]
    refine ⟨?_, ih⟩
    rwa [(hmatch q h (Nat.le_of_lt hq) hfound).2]

/-- Every match that a split uses ends after the start of the piece before it. -/
theorem increasing (h : Splits matchAt t p q cuts last) (hmatch : Anchored matchAt t) (hpq : p ≤ q) :
    (p :: cuts.map (·.2.stop)).IsChain (· < ·) := by
  induction h with
  | last hq => exact .singleton _
  | pass hq hmatch' hrest ih => exact ih (Nat.le_succ_of_le hpq)
  | @cut p q h cuts last hq hfound hstop hrest ih =>
    obtain ⟨hwithin, hstart⟩ := hmatch q h (Nat.le_of_lt hq) hfound
    have hfurther : p < h.stop := by
      have := hwithin.order
      omega
    exact .cons_cons hfurther (ih (Nat.le_refl _))

end Splits

end Hits

namespace Strings

open Hits

/-- Splitting by an expression, whatever its matches are, as long as those at a position start there and end in the
text. Nothing comes out of the empty string if it matches. In all other cases splitting comes to an end, with pieces
and with the matches that were used. The values are the pieces, and after each but the last one what the groups of its
match have taken; the pieces with the matches between them make up the string; and no match that was used ends where
the piece before it starts, but further on. -/
theorem splitByMatches_lossless {matchAt : Nat → Option Hit} {t : Text} (hmatch : Anchored matchAt t) :
    (t = [] ∧ (matchAt 0).isSome ∧ splitByMatches matchAt t = []) ∨
      ∃ cuts last, Splits matchAt t 0 0 cuts last ∧
        splitByMatches matchAt t =
          (cuts.flatMap fun cut => .str cut.1 :: PatternRef.groupValues cut.2) ++ [.str last] ∧
        Parted 0 t (cuts.map (·.2)) (cuts.map (·.1) ++ [last]) ∧
        (∀ h ∈ cuts.map (·.2), matchAt h.start = some h) ∧
        (0 :: cuts.map (·.2.stop)).IsChain (· < ·) := by
  have hparted {cuts : List (Text × Hit)} {last : Text} (h : Splits matchAt t 0 0 cuts last) :
      Parted 0 t (cuts.map (·.2)) (cuts.map (·.1) ++ [last]) := by
    obtain ⟨horder, hpieces⟩ := h.inOrder hmatch (Nat.le_refl 0)
    rw [hpieces]
    exact horder.parted
  by_cases hempty : t = []
  · cases hfound : matchAt 0 with
    | some h => exact .inl ⟨hempty, rfl, by simp [splitByMatches, hempty, hfound]⟩
    | none =>
      have hsplits : Splits matchAt t 0 0 [] (t.drop 0) := .last (by simp [hempty])
      refine .inr ⟨[], _, hsplits, ?_, hparted hsplits, nofun, .singleton _⟩
      simp [splitByMatches, hempty, hfound]
  · have hsplits : Splits matchAt t 0 0 (Hits.split matchAt t).1 (Hits.split matchAt t).2 :=
      splits_splitFrom hmatch (Nat.le_refl 0) (Nat.zero_le _) (by omega)
    refine .inr ⟨_, _, hsplits, ?_, hparted hsplits, hsplits.matchAt_start hmatch,
      hsplits.increasing hmatch (Nat.le_refl 0)⟩
    rw [splitByMatches, if_neg (by simpa using hempty)]

/-- A group that a match has taken is a piece of its own, and empty matches are used where they end behind the start of
the piece. -/
theorem splitByMatches_lossless_group :
    let c : Compiled := ⟨.alt [.group (some 1) (.one (.literal 98 false .exact)), .seq []], 1⟩
    let t : Text := "abcd"
    Anchored (c.matchAt t false) t ∧
      ∃ (cuts : List (Text × Hit)) (last : Text), splitByMatches (c.matchAt t false) t =
          (cuts.flatMap fun cut => .str cut.1 :: PatternRef.groupValues cut.2) ++ [.str last] ∧
        Parted 0 t (cuts.map (·.2)) (cuts.map (·.1) ++ [last]) ∧
        splitByMatches (c.matchAt t false) t =
          [.str "a", .str "b", .str "c", .undefined, .str "d"] := by
  intro c t
  have hmatch : Anchored (c.matchAt t false) t := fun _ _ hq hfound => Compiled.within_matchAt hq hfound
  refine ⟨hmatch, ?_⟩
  obtain ⟨hempty, -⟩ | ⟨cuts, last, -, hpieces, hparted, -⟩ := splitByMatches_lossless hmatch
  · exact absurd hempty (by decide)
  · exact ⟨cuts, last, hpieces, hparted, by rfl⟩

end Strings

/-! ## Splitting by a text -/

namespace Text

variable {sep t front : Text} {p : Nat} {starts starts' : List Nat} {parts : List Text}

/-- The leftmost occurrences of a text from a position on that do not overlap: each is the first one that does not start
before the one before it has ended. -/
inductive Leftmost (sep t : Text) : Nat → List Nat → Prop
  | none {p : Nat} (h : ∀ i, p ≤ i → ¬ sep <+: t.drop i) : Leftmost sep t p []
  | next {p i : Nat} {starts : List Nat} (hp : p ≤ i) (hi : sep <+: t.drop i)
      (hfirst : ∀ j, p ≤ j → j < i → ¬ sep <+: t.drop j) (hrest : Leftmost sep t (i + sep.length) starts) :
      Leftmost sep t p (i :: starts)

namespace Leftmost

/-- There is only one way to go through the leftmost occurrences. -/
theorem unique (h : Leftmost sep t p starts) (h' : Leftmost sep t p starts') : starts = starts' := by
  induction h generalizing starts' with
  | none hnone =>
    cases h' with
    | none _ => rfl
    | next hp hi _ _ => exact absurd hi (hnone _ hp)
  | @next p i rest hp hi hfirst hrest ih =>
    cases h' with
    | none hnone => exact absurd hi (hnone i hp)
    | @next _ j _ hp' hj hfirst' hrest' =>
      obtain rfl : i = j := by
        refine Nat.le_antisymm ?_ ?_
        · exact Nat.le_of_not_lt fun hlt => hfirst j hp' hlt hj
        · exact Nat.le_of_not_lt fun hlt => hfirst' i hp hlt hi
      rw [ih hrest']

/-- What stands in front of a text takes its occurrences further on. -/
theorem shift (h : Leftmost sep t p starts) (front : Text) :
    Leftmost sep (front ++ t) (front.length + p) (starts.map (front.length + ·)) := by
  have hdrop (i : Nat) : (front ++ t).drop (front.length + i) = t.drop i := by simp
  have hmoved {p j : Nat} (hj : front.length + p ≤ j) : ∃ i, j = front.length + i ∧ p ≤ i :=
    ⟨j - front.length, by omega, by omega⟩
  induction h with
  | none hnone =>
    refine .none fun j hj => ?_
    obtain ⟨i, rfl, hi⟩ := hmoved hj
    rw [hdrop]
    exact hnone i hi
  | next hp hi hfirst hrest ih =>
    refine .next (Nat.add_le_add_left hp _) (by rwa [hdrop]) ?_ (by rwa [Nat.add_assoc])
    intro j hj hlt
    obtain ⟨k, rfl, hk⟩ := hmoved hj
    rw [hdrop]
    exact hfirst k hk (Nat.lt_of_add_lt_add_left hlt)

end Leftmost

/-- A text cut at the first occurrence of a separator, and the rest cut in the same way. -/
inductive Cuts (sep : Text) : Text → List Text → Prop
  | last {t : Text} (h : indexOf? sep t = none) : Cuts sep t [t]
  | cut {before after : Text} {parts : List Text} (h : indexOf? sep (before ++ sep ++ after) = some before.length)
      (hrest : Cuts sep after parts) : Cuts sep (before ++ sep ++ after) (before :: parts)

/-- What is left of a separator is dropped first. -/
theorem splitLoop_skip (sep piece : Text) (n : Nat) (t : Text) :
    splitLoop sep n piece t = splitLoop sep 0 piece (t.drop n) := by
  induction t generalizing n with
  | nil => simp [splitLoop]
  | cons c rest ih =>
    cases n with
    | zero => rfl
    | succ n =>
      rw [splitLoop, List.drop_succ_cons]
      exact ih n

theorem splitLoop_eq (hsep : sep ≠ []) (piece t : Text) :
    splitLoop sep 0 piece t =
      match indexOf? sep t with
      | none => [piece.reverse ++ t]
      | some i => (piece.reverse ++ t.take i) :: splitOn (t.drop (i + sep.length)) sep := by
  induction t generalizing piece with
  | nil => simp [splitLoop, indexOf?, hsep]
  | cons c rest ih =>
    rw [splitLoop, indexOf?]
    by_cases hfront : sep.isPrefixOf (c :: rest)
    · have hlength : sep.length = sep.length - 1 + 1 := (Nat.sub_add_cancel (List.length_pos_of_ne_nil hsep)).symm
      have hrest : (c :: rest).drop sep.length = rest.drop (sep.length - 1) := by
        rw [hlength, List.drop_succ_cons, Nat.add_sub_cancel]
      rw [if_pos hfront, if_pos hfront, splitLoop_skip]
      simp only [splitOn, Nat.zero_add, hrest, List.take_zero, List.append_nil]
    · simp only [if_neg hfront, ih]
      cases indexOf? sep rest with
      | none => simp
      | some i => simp [Nat.add_right_comm]

theorem cuts_splitOn (hsep : sep ≠ []) (t : Text) : Cuts sep t (splitOn t sep) := by
  have heq := splitLoop_eq hsep [] t
  cases hfirst : indexOf? sep t with
  | none =>
    rw [splitOn, heq, hfirst]
    exact .last hfirst
  | some i =>
    obtain ⟨before, after, rfl, rfl, -⟩ := indexOf?_eq_some hsep hfirst
    have hafter : (before ++ sep ++ after).drop (before.length + sep.length) = after := by simp
    have hbefore : (before ++ sep ++ after).take before.length = before := by simp
    have hshorter : after.length < (before ++ sep ++ after).length := by
      have := List.length_pos_of_ne_nil hsep
      simp
      omega
    rw [splitOn, heq, hfirst]
    simp only [hafter, hbefore]
    exact .cut hfirst (cuts_splitOn hsep after)
termination_by t.length

namespace Cuts

theorem ne_nil (h : Cuts sep t parts) : parts ≠ [] := by
  cases h <;> exact List.cons_ne_nil _ _

/-- The parts joined by the separator make up the text. -/
theorem joinWith_eq (h : Cuts sep t parts) : joinWith sep parts = t := by
  induction h with
  | last _ => rfl
  | @cut before after parts _ hrest ih =>
    obtain ⟨part, rest, rfl⟩ := List.exists_cons_of_ne_nil hrest.ne_nil
    rw [joinWith, ih]
    nofun

/-- The separator occurs in none of the parts. -/
theorem not_infix (h : Cuts sep t parts) (hsep : sep ≠ []) : ∀ part ∈ parts, ¬ sep <:+: part := by
  induction h with
  | last hnone =>
    rw [List.forall_mem_singleton, List.infix_iff_prefix_suffix]
    rintro ⟨tail, hhead, hsuffix⟩
    rw [List.suffix_iff_eq_drop.1 hsuffix] at hhead
    exact indexOf?_eq_none_iff.1 hnone _ hhead
  | cut hfirst hrest ih =>
    obtain ⟨before, after, heq, hlength, hnone⟩ := indexOf?_eq_some hsep hfirst
    rw [List.append_assoc, List.append_assoc] at heq
    obtain ⟨rfl, -⟩ := List.append_inj heq hlength.symm
    exact List.forall_mem_cons.2 ⟨hnone, ih⟩

/-- There is one part more than there are leftmost occurrences of the separator. -/
theorem exists_leftmost (h : Cuts sep t parts) :
    ∃ starts, Leftmost sep t 0 starts ∧ parts.length = starts.length + 1 := by
  induction h with
  | last hnone => exact ⟨[], .none fun i _ => indexOf?_eq_none_iff.1 hnone i, rfl⟩
  | @cut before after parts hfirst hrest ih =>
    obtain ⟨starts, hstarts, hlength⟩ := ih
    obtain ⟨-, hhere, hnone⟩ := indexOf?_eq_some_iff.1 hfirst
    have hlater := hstarts.shift (before ++ sep)
    rw [List.length_append, Nat.add_zero] at hlater
    exact ⟨_, .next (Nat.zero_le _) hhere (fun j _ => hnone j) hlater, by simp [hlength]⟩

end Cuts

/-- Characters joined by nothing. -/
theorem joinWith_nil_chars (t : Text) : joinWith [] (t.map ([·])) = t := by
  induction t with
  | nil => rfl
  | cons c rest ih =>
    cases rest with
    | nil => rfl
    | cons d rest => simpa [joinWith] using ih

end Text

namespace Strings

open Proc

variable {sep t : Text} {limits : Limits} {bound : Nat} {handler : Handler} {s w : State} {limit : Value} {n : Nat}

/-- The pieces joined by the separator make up the string. -/
theorem joinWith_splitByText (sep t : Text) : Text.joinWith sep (splitByText sep t) = t := by
  rw [splitByText]
  split
  · rename_i hsep
    rw [List.isEmpty_iff.1 hsep]
    exact Text.joinWith_nil_chars t
  · rename_i hsep
    exact (Text.cuts_splitOn (by simpa using hsep) t).joinWith_eq

theorem run_split (limits : Limits) (bound : Nat) (handler : Handler)
    (hlimit : limit = .undefined ∧ n = 4294967295 ∧ w = s ∨
      limit ≠ .undefined ∧ (toUint32 limit).run limits bound handler s = (.ok n, w))
    (hfew : (splitByText sep t).length < 4294967296) :
    ∃ u, (split t (.str sep) limit).run limits bound handler s = (.ok (.obj w.store.objects.size), u) ∧
      (u.store.body w.store.objects.size).isArray ∧
      u.store.arrayItems w.store.objects.size = ((splitByText sep t).take n).map .str := by
  have hroom : (((splitByText sep t).take n).map Value.str).length ≤ Frame.mostElements := by
    have hmost : (4294967296 : Nat) ≤ Frame.mostElements := by decide
    rw [List.length_map, List.length_take]
    omega
  have hmost : (mostPieces limit).run limits bound handler s = (.ok n, w) := by
    obtain ⟨rfl, rfl, rfl⟩ | ⟨hlimit, hrun⟩ := hlimit
    · rfl
    · rwa [mostPieces, if_neg (by simpa using Arrays.isUndefined_of_ne hlimit)]
  refine ⟨w.withArray (some Realm.arrayPrototype) (((splitByText sep t).take n).map .str), ?_,
    w.store.addArray_items _ hroom⟩
  refine run_then hmost ?_
  by_cases hn : n = 0
  · subst hn
    exact run_newArray hroom
  · rw [if_neg hn, if_neg (by simp [Value.isUndefined])]
    rw [List.map_take] at hroom ⊢
    exact run_newArray hroom

/-- The texts of an array of strings, joined. -/
theorem run_join (limits : Limits) (bound : Nat) (handler : Handler) {o : ObjectId} {parts : List Text}
    (invoker : Option FrameId) (sep : Text)
    (harray : (s.store.body o).isArray) (hitems : s.store.arrayItems o = parts.map .str) :
    (ArrayFn.join.invoke ⟨invoker, .obj o, [.str sep]⟩).run limits bound handler s =
      (.ok (.str (Text.joinWith sep parts)), s) := by
  have hlike : (Arrays.arrayLike (.obj o)).run limits bound handler s = (.ok o, s) := by
    simp [Arrays.arrayLike, Proc.body, run_bind, harray]
  have hread : (Arrays.items o).run limits bound handler s = (.ok (parts.map .str), s) := by
    rw [Arrays.items, run_read, hitems]
  have htexts : Proc.map (fun v : Value => if v.isNullish then return [] else toText v) (parts.map .str) = pure parts :=
    map_of_pure (g := Value.str) (fun _ => rfl) parts
  refine run_then hlike ?_
  rw [Arrays.joinItems]
  refine run_then (run_pure sep s) (run_then hread ?_)
  rw [htexts]
  rfl

/-- Splitting by a text gives a new array with the pieces, and to join these by the same text gives the string again.
If the text is not empty, it occurs in none of the pieces, and there is one piece more than there are leftmost
occurrences of it that do not overlap. With a limit the array has the first pieces, as many as the limit says as a
32-bit number. -/
theorem join_split (hfew : (splitByText sep t).length < 4294967296) (limits : Limits) (bound : Nat) (handler : Handler)
    (s : State) (invoker : Option FrameId) :
    let parts := splitByText sep t
    (∃ o u, (StringFn.split.invoke ⟨invoker, .str t, [.str sep]⟩).run limits bound handler s = (.ok (.obj o), u) ∧
      (u.store.body o).isArray ∧ u.store.arrayItems o = parts.map .str ∧
      (ArrayFn.join.invoke ⟨invoker, .obj o, [.str sep]⟩).run limits bound handler u = (.ok (.str t), u)) ∧
    (sep ≠ [] → (∀ part ∈ parts, ¬ sep <:+: part) ∧ (∃ starts, Text.Leftmost sep t 0 starts) ∧
      ∀ starts, Text.Leftmost sep t 0 starts → parts.length = starts.length + 1) ∧
    ∀ limit n w, limit ≠ .undefined → (toUint32 limit).run limits bound handler s = (.ok n, w) →
      ∃ o u, (StringFn.split.invoke ⟨invoker, .str t, [.str sep, limit]⟩).run limits bound handler s =
          (.ok (.obj o), u) ∧
        (u.store.body o).isArray ∧ u.store.arrayItems o = (parts.take n).map .str := by
  intro parts
  refine ⟨?_, ?_, ?_⟩
  · obtain ⟨u, hrun, harray, hitems⟩ := run_split limits bound handler (.inl ⟨rfl, rfl, rfl⟩) hfew
    rw [List.take_of_length_le (Nat.le_of_lt_succ hfew)] at hitems
    have hjoin := run_join limits bound handler invoker sep harray hitems
    rw [joinWith_splitByText] at hjoin
    exact ⟨_, u, hrun, harray, hitems, hjoin⟩
  · intro hsep
    have hcuts := Text.cuts_splitOn hsep t
    have hparts : parts = Text.splitOn t sep := if_neg (by simpa using hsep)
    obtain ⟨starts, hstarts, hlength⟩ := hcuts.exists_leftmost
    rw [hparts]
    refine ⟨hcuts.not_infix hsep, ⟨starts, hstarts⟩, fun starts' hstarts' => ?_⟩
    rw [hlength, hstarts.unique hstarts']
  · intro limit n w hlimit hn
    obtain ⟨u, hrun, harray, hitems⟩ := run_split limits bound handler (.inr ⟨hlimit, hn⟩) hfew
    exact ⟨_, u, hrun, harray, hitems⟩

/-- Of two occurrences that overlap the second one is passed over. A limit that is too large for 32 bits says one. -/
theorem join_split_overlap :
    let e := Engine.new {} {} []
    let run (p : Proc Value) := p.runIn e.limits e.fuel e.state
    (splitByText "aba" "ababa-aba").length < 4294967296 ∧ toUint32 (.num 4294967297.0) = pure 1 ∧
      (∃ o u, run (StringFn.split.invoke ⟨none, .str "ababa-aba", [.str "aba"]⟩) = (.ok (.obj o), u) ∧
        u.store.arrayItems o = [.str "", .str "ba-", .str ""] ∧
        (ArrayFn.join.invoke ⟨none, .obj o, [.str "aba"]⟩).runIn e.limits e.fuel u = (.ok (.str "ababa-aba"), u)) ∧
      ∃ o u, run (StringFn.split.invoke ⟨none, .str "ababa-aba", [.str "aba", .num 4294967297.0]⟩) = (.ok (.obj o), u) ∧
        u.store.arrayItems o = [.str ""] := by
  intro e run
  have hfew : (splitByText "aba" "ababa-aba").length < 4294967296 := by decide
  have hlimit : toUint32 (.num 4294967297.0) = pure 1 := congrArg Proc.ret (by decide +kernel)
  obtain ⟨⟨o, u, hrun, -, hitems, hjoin⟩, -, hfirst⟩ :=
    join_split hfew e.limits e.fuel (answer e.limits e.fuel e.fuel e.limits.stack) e.state none
  refine ⟨hfew, hlimit, ⟨o, u, hrun, hitems, hjoin⟩, ?_⟩
  obtain ⟨o, u, hrun, -, hitems⟩ := hfirst (.num 4294967297.0) 1 e.state nofun (by rw [hlimit]; rfl)
  exact ⟨o, u, hrun, hitems⟩

end Strings

end ScriptEngine
