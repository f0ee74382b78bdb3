import ScriptEngine.Proofs.Doubles
import ScriptEngine.Proofs.Scopes

/-!
# The frames of arrays

What a frame holds after each change, and how the changes keep the length of an array in step with its
indexes: the frame of an array binds its length to a natural number, and every index that it holds is below
it. Properties under other names are left alone by all that changes elements or the length.

## Main definitions

* `Frame.InStep`: the frame of an array whose length is in step with its indexes.
* `Frame.named`: the bindings of a frame under names other than indexes and the length.

## Main results

* `Frame.InStep.write`, `Frame.InStep.resize`, `Frame.InStep.refill`, `Frame.InStep.append`: changes that
  keep the length in step, with what is bound to an index afterwards.
-/

namespace ScriptEngine

theorem Key.index_ne_length (i : Nat) : Key.index i ≠ Key.length := by simp [Key.length]

namespace Frame

variable {f : Frame} {k k' : Key} {v : Value} {n i j : Nat} {values : List Value}

/-! ## Lookups after a change -/

theorem lookup_cons (e : Key × Value) (rest : List (Key × Value)) :
    (e :: rest).lookup k = if k = e.1 then some e.2 else rest.lookup k := by
  rw [List.lookup_cons]
  by_cases h : k = e.1
  · rw [if_pos h, beq_iff_eq.2 h]
  · rw [if_neg h, beq_eq_false_iff_ne.2 h]

theorem lookup_bindEntry (entries : List (Key × Value)) :
    (bindEntry k v entries).lookup k' = if k' = k then some v else entries.lookup k' := by
  induction entries with
  | nil => rw [bindEntry, lookup_cons]
  | cons e rest ih =>
    rw [bindEntry, lookup_cons]
    by_cases he : e.1 = k
    · rw [if_pos he, lookup_cons, he]
      by_cases h : k' = k
      · rw [if_pos h, if_pos h]
      · rw [if_neg h, if_neg h, if_neg h]
    · rw [if_neg he, lookup_cons, ih]
      by_cases h : k' = k
      · rw [if_pos h, if_pos h, if_neg fun heq => he (heq.symm.trans h)]
      · rw [if_neg h, if_neg h]

@[simp] theorem lookup?_put : (f.put k v).lookup? k' = if k' = k then some v else f.lookup? k' :=
  lookup_bindEntry f.entries

@[simp] theorem lookup?_define : (f.define k v).lookup? k' = if k' = k then some v else f.lookup? k' :=
  lookup?_put

@[simp] theorem lookup?_putLength :
    (f.putLength n).lookup? k' = if k' = Key.length then some (.ofNat n) else f.lookup? k' := lookup?_put

theorem lookup?_erase : (f.erase k).lookup? k' = if k' = k then none else f.lookup? k' := by
  unfold lookup? erase
  induction f.entries with
  | nil =>
    rw [List.filter_nil, List.lookup_nil]
    split <;> rfl
  | cons e rest ih =>
    rw [List.filter_cons, lookup_cons]
    by_cases he : e.1 = k
    · rw [if_neg (by simpa using he), ih]
      by_cases h : k' = k
      · rw [if_pos h, if_pos h]
      · rw [if_neg h, if_neg h, if_neg fun heq => h (heq.trans he)]
    · rw [if_pos (by simpa using he), lookup_cons, ih]
      by_cases h : k' = k
      · rw [if_pos h, if_pos h, if_neg fun heq => he (heq.symm.trans h)]
      · rw [if_neg h, if_neg h]

theorem lookup?_foldl_erase (ks : List Key) :
    (ks.foldl erase f).lookup? k' = if k' ∈ ks then none else f.lookup? k' := by
  induction ks generalizing f with
  | nil => simp
  | cons k ks ih =>
    rw [List.foldl_cons, ih, lookup?_erase]
    by_cases h : k' = k <;> simp [h]

/-- The indexes from `i` on are bound to the values in turn, and nothing else changes. -/
theorem lookup?_putFrom : (f.putFrom i values).lookup? (.index j) =
    if i ≤ j ∧ j < i + values.length then values[j - i]? else f.lookup? (.index j) := by
  induction values generalizing f i with
  | nil =>
    rw [putFrom, if_neg]
    simp only [List.length_nil]
    omega
  | cons v rest ih =>
    rw [putFrom, ih, lookup?_put, List.length_cons]
    by_cases hj : j = i
    · subst hj
      rw [if_neg (by omega), if_pos rfl, if_pos (by omega), Nat.sub_self]
      rfl
    · have hne : Key.index j ≠ Key.index i := fun he => hj (by injection he)
      rw [if_neg hne]
      by_cases hin : i + 1 ≤ j ∧ j < i + 1 + rest.length
      · rw [if_pos hin, if_pos (by omega), show j - i = j - (i + 1) + 1 by omega, List.getElem?_cons_succ]
      · rw [if_neg hin, if_neg (by omega)]

theorem lookup?_putFrom_of_ordinary (hk : k.index? = none) :
    (f.putFrom i values).lookup? k = f.lookup? k := by
  induction values generalizing f i with
  | nil => rfl
  | cons v rest ih =>
    have hne : k ≠ .index i := by
      rintro rfl
      cases hk
    rw [putFrom, ih, lookup?_put, if_neg hne]

/-- The elements of an array that is made from them. -/
theorem lookup?_ofItems {parent : Option FrameId} :
    (ofItems parent values).lookup? (.index i) = values[i]? := by
  unfold ofItems
  rw [lookup?_putLength, if_neg (Key.index_ne_length i), lookup?_putFrom, Nat.zero_add, Nat.sub_zero]
  by_cases hi : i < values.length
  · rw [if_pos ⟨Nat.zero_le i, hi⟩]
  · rw [if_neg fun hboth => hi hboth.2, lookup?_define, if_neg (Key.index_ne_length i)]
    exact (List.getElem?_eq_none (by omega)).symm

/-! ## Lengths in step -/

/-- The frame of an array of length `n`: the length is bound, and every index that is bound is below it. -/
structure InStep (f : Frame) (n : Nat) : Prop where
  role : f.role = .slots
  hidden : f.hidden = []
  room : n ≤ mostElements
  bound : f.lookup? Key.length = some (.ofNat n)
  below (i : Nat) : f.holds (.index i) → i < n

namespace InStep

/-- The length that is bound is the length. -/
theorem length_eq (h : f.InStep n) : f.length = n := by
  rw [length, h.bound]
  simp only [Value.ofNat, Number.truncate_ofNat (n := n) h.room, Int.toNat_natCast]

/-- An index at or past the length is not bound. -/
theorem lookup?_eq_none (h : f.InStep n) (hi : n ≤ i) : f.lookup? (.index i) = none := by
  rw [← Option.not_isSome_iff_eq_none]
  intro hholds
  have := h.below i hholds
  omega

theorem sealed (h : f.InStep n) (flag : Bool) : InStep { f with sealed := flag } n :=
  ⟨h.role, h.hidden, h.room, h.bound, h.below⟩

/-- Names like others do not matter. -/
theorem put (h : f.InStep n) (hk : k.isOrdinary) (v : Value) : (f.put k v).InStep n := by
  simp only [Key.isOrdinary, Bool.and_eq_true, Option.isNone_iff_eq_none, bne_iff_ne] at hk
  refine ⟨h.role, hidden_put h.hidden, h.room, ?_, ?_⟩
  · rw [lookup?_put, if_neg (Ne.symm hk.2), h.bound]
  · intro i hi
    obtain he | hi := holds_put.1 hi
    · rw [← he] at hk
      cases hk.1
    · exact h.below i hi

theorem define (h : f.InStep n) (hk : k.isOrdinary) (v : Value) : (f.define k v).InStep n := by
  have hput := h.put hk v
  exact ⟨hput.role, hput.hidden, hput.room, hput.bound, hput.below⟩

/-- A frame whose indexes are below its new length. -/
theorem putLength (hrole : f.role = .slots) (hhidden : f.hidden = []) (hroom : n ≤ mostElements)
    (hbelow : ∀ i, f.holds (.index i) → i < n) : (f.putLength n).InStep n := by
  refine ⟨hrole, hidden_put hhidden, hroom, ?_, ?_⟩
  · rw [lookup?_putLength, if_pos rfl]
  · intro i hi
    obtain he | hi := holds_put.1 hi
    · cases he
    · exact hbelow i hi

theorem erase (h : f.InStep n) (hk : k ≠ Key.length) : (f.erase k).InStep n := by
  refine ⟨h.role, h.hidden, h.room, ?_, ?_⟩
  · rw [lookup?_erase, if_neg (Ne.symm hk), h.bound]
  · intro i hi
    exact h.below i (holds_of_erase hi)

/-- Writing to an index may make the array longer. -/
theorem write (h : f.InStep n) (k : Key) (v : Value) (hroom : (k.index?.map (· + 1)).getD 0 ≤ mostElements) :
    ∃ m, (f.write k v).InStep m := by
  unfold Frame.write
  rw [h.role]
  cases k with
  | index i =>
    have hput : (f.put (.index i) v).lookup? Key.length = some (.ofNat n) := by
      rw [lookup?_put, if_neg (Key.index_ne_length i).symm, h.bound]
    have hlength : (f.put (.index i) v).length = n := by
      rw [← h.length_eq, length, length, hput, h.bound]
    simp only [hlength]
    by_cases hi : n ≤ i
    · rw [if_pos hi]
      refine ⟨i + 1, putLength h.role (hidden_put h.hidden) hroom ?_⟩
      intro j hj
      obtain he | hj := holds_put.1 hj
      · injection he with he
        omega
      · have := h.below j hj
        omega
    · rw [if_neg hi]
      refine ⟨n, h.role, hidden_put h.hidden, h.room, hput, ?_⟩
      intro j hj
      obtain he | hj := holds_put.1 hj
      · injection he with he
        omega
      · exact h.below j hj
  | name t =>
    simp only
    by_cases ht : Key.name t = Key.length
    · rw [if_pos ht]
      exact ⟨n, h⟩
    · rw [if_neg ht]
      refine ⟨n, h.put ?_ v⟩
      simpa [Key.isOrdinary, Key.index?] using ht

/-- What a shorter length drops: the indexes that are bound at or past it. -/
theorem mem_beyond (h : f.InStep n) {m : Nat} : k ∈ f.beyond m ↔ f.holds k ∧ k.index?.any (m ≤ ·) := by
  have hkeys : f.localKeys false = f.keys := by
    unfold localKeys
    simp [h.hidden]
  rw [beyond, hkeys, List.mem_filter]
  exact and_congr_left fun _ => ⟨holds_of_mem_keys, mem_keys_of_holds⟩

/-- The array with what is at or past a new length dropped. -/
theorem lookup?_dropped (h : f.InStep n) (m : Nat) :
    (if m < f.length then (f.beyond m).foldl Frame.erase f else f).lookup? k =
      if k.index?.any (m ≤ ·) then none else f.lookup? k := by
  rw [h.length_eq]
  by_cases hm : m < n
  · rw [if_pos hm, lookup?_foldl_erase]
    by_cases hk : k.index?.any (m ≤ ·)
    · rw [if_pos hk]
      by_cases hholds : f.holds k
      · rw [if_pos (h.mem_beyond.2 ⟨hholds, hk⟩)]
      · rw [if_neg fun hmem => hholds (h.mem_beyond.1 hmem).1]
        exact Option.not_isSome_iff_eq_none.1 hholds
    · rw [if_neg hk, if_neg fun hmem => hk (h.mem_beyond.1 hmem).2]
  · rw [if_neg hm]
    cases k with
    | name t => rfl
    | index i =>
      by_cases hi : m ≤ i
      · rw [if_pos (by simpa [Key.index?] using hi), h.lookup?_eq_none (by omega)]
      · rw [if_neg (by simpa [Key.index?] using hi)]

theorem settledLength_le (n : Nat) : settledLength n ≤ mostElements := by
  unfold settledLength mostElements
  split <;> omega

/-- A new length: the indexes below it stay, and the others go. -/
theorem lookup?_resize (h : f.InStep n) (m : Nat) : (f.resize m).lookup? k =
    if k = Key.length then some (.ofNat (settledLength m))
    else if k.index?.any (settledLength m ≤ ·) then none else f.lookup? k := by
  unfold Frame.resize
  simp only [lookup?_putLength, h.lookup?_dropped]

theorem resize (h : f.InStep n) (m : Nat) : (f.resize m).InStep (settledLength m) := by
  refine ⟨(Alike.resize f m).role.trans h.role, ?_, settledLength_le m, ?_, ?_⟩
  · exact hidden_of_reworked (.resize trivial (fun _ => trivial) f m) h.hidden
  · rw [h.lookup?_resize, if_pos rfl]
  · intro i hi
    by_contra hlt
    have hgone : (Key.index i).index?.any (settledLength m ≤ ·) := by simpa [Key.index?] using hlt
    rw [holds, h.lookup?_resize, if_neg (Key.index_ne_length i), if_pos hgone] at hi
    cases hi

/-- New elements in place of the old ones. -/
theorem lookup?_refill (h : f.InStep n) : (f.refill values).lookup? k =
    match k with
    | .index i => values[i]?
    | .name t => if Key.name t = Key.length then some (.ofNat values.length) else f.lookup? (.name t) := by
  unfold Frame.refill
  rw [lookup?_putLength]
  cases k with
  | index i =>
    rw [if_neg (Key.index_ne_length i), lookup?_putFrom, Nat.zero_add, Nat.sub_zero]
    by_cases hi : i < values.length
    · rw [if_pos ⟨Nat.zero_le i, hi⟩]
    · have hgone : (Key.index i).index?.any (settledLength 0 ≤ ·) := by simp [Key.index?, settledLength]
      rw [if_neg fun hboth => hi hboth.2, h.lookup?_resize, if_neg (Key.index_ne_length i), if_pos hgone]
      exact (List.getElem?_eq_none (by omega)).symm
  | name t =>
    simp only
    by_cases ht : Key.name t = Key.length
    · rw [if_pos ht, if_pos ht]
    · rw [if_neg ht, if_neg ht, lookup?_putFrom_of_ordinary rfl, h.lookup?_resize, if_neg ht]
      rfl

theorem refill (h : f.InStep n) (hroom : values.length ≤ mostElements) :
    (f.refill values).InStep values.length := by
  refine ⟨(Alike.refill f values).role.trans h.role, ?_, hroom, ?_, ?_⟩
  · exact hidden_of_reworked (.refill (fun _ => trivial) trivial (fun _ => trivial) f values) h.hidden
  · rw [h.lookup?_refill]
    rfl
  · intro i hi
    rw [holds, h.lookup?_refill] at hi
    simpa using hi

theorem lookup?_push (h : f.InStep n) : (f.push v).lookup? k =
    if k = Key.length then some (.ofNat (n + 1))
    else if k = .index n then some v else f.lookup? k := by
  rw [Frame.push, h.length_eq, lookup?_putLength, lookup?_put]

theorem push (h : f.InStep n) (hroom : n + 1 ≤ mostElements) (v : Value) : (f.push v).InStep (n + 1) := by
  rw [Frame.push, h.length_eq]
  refine putLength h.role (hidden_put h.hidden) hroom ?_
  intro i hi
  obtain he | hi := holds_put.1 hi
  · injection he with he
    omega
  · have := h.below i hi
    omega

theorem append (h : f.InStep n) (hroom : n + values.length ≤ mostElements) :
    (f.append values).InStep (n + values.length) := by
  induction values generalizing f n with
  | nil => exact h
  | cons v rest ih =>
    rw [List.length_cons] at hroom ⊢
    have hrest := ih (h.push (by omega) v) (by omega)
    rwa [Nat.add_assoc, Nat.add_comm 1] at hrest

/-- Further elements at the end. -/
theorem lookup?_append (h : f.InStep n) (hroom : n + values.length ≤ mostElements) :
    (f.append values).lookup? (.index i) = if i < n then f.lookup? (.index i) else values[i - n]? := by
  induction values generalizing f n with
  | nil =>
    by_cases hi : i < n
    · rw [if_pos hi]
      rfl
    · rw [if_neg hi]
      exact h.lookup?_eq_none (by omega)
  | cons v rest ih =>
    rw [List.length_cons] at hroom
    have hrest := ih (h.push (by omega) v) (by omega)
    refine hrest.trans ?_
    rw [h.lookup?_push, if_neg (Key.index_ne_length i)]
    by_cases hlast : i = n
    · subst hlast
      rw [if_pos (Nat.lt_succ_self i), if_pos rfl, if_neg (Nat.lt_irrefl i), Nat.sub_self]
      rfl
    · have hne : Key.index i ≠ .index n := fun he => hlast (by injection he)
      rw [if_neg hne]
      by_cases hi : i < n
      · rw [if_pos (by omega), if_pos hi]
      · rw [if_neg (by omega), if_neg hi, show i - n = i - (n + 1) + 1 by omega, List.getElem?_cons_succ]

/-- The frame of an array that is made from its elements. -/
theorem ofItems (parent : Option FrameId) (hroom : values.length ≤ mostElements) :
    (Frame.ofItems parent values).InStep values.length := by
  have hlookup (i : Nat) : (Frame.ofItems parent values).lookup? (.index i) = values[i]? := lookup?_ofItems
  refine ⟨(Alike.ofItems parent values).role, ?_, hroom, ?_, ?_⟩
  · exact hidden_of_reworked (.ofItems (fun _ => trivial) trivial parent values) rfl
  · unfold Frame.ofItems
    rw [lookup?_putLength, if_pos rfl]
  · intro i hi
    rw [holds, hlookup] at hi
    simpa using hi

end InStep

/-! ## Names like others -/

/-- The bindings under names other than indexes and the length, in order. -/
def named (f : Frame) : List (Key × Value) := f.entries.filter (·.1.isOrdinary)

/-- Two frames with the same bindings under names like others, and with the same of them shown. -/
structure SameNames (f g : Frame) : Prop where
  named : g.named = f.named
  unlisted : g.unlisted = f.unlisted

namespace SameNames

variable {g h : Frame}

theorem refl (f : Frame) : f.SameNames f := ⟨rfl, rfl⟩

theorem trans (h₁ : f.SameNames g) (h₂ : g.SameNames h) : f.SameNames h :=
  ⟨h₂.named.trans h₁.named, h₂.unlisted.trans h₁.unlisted⟩

theorem put (f : Frame) (hk : k.isOrdinary = false) (v : Value) : f.SameNames (f.put k v) := by
  refine ⟨?_, rfl⟩
  unfold Frame.named Frame.put
  induction f.entries with
  | nil => simp [bindEntry, hk]
  | cons e rest ih =>
    rw [bindEntry]
    by_cases he : e.1 = k
    · simp [he, hk]
    · rw [if_neg he, List.filter_cons, List.filter_cons, ih]

theorem erase (f : Frame) (hk : k.isOrdinary = false) : f.SameNames (f.erase k) := by
  refine ⟨?_, rfl⟩
  unfold Frame.named Frame.erase
  rw [List.filter_filter]
  refine List.filter_congr ?_
  intro e _
  by_cases he : e.1 = k
  · simp [he, hk]
  · simp [he]

/-- Changes that bind and drop no names like others leave them as they are. -/
theorem of_reworked (h : f.Reworked (·.isOrdinary = false) (·.isOrdinary = false) g) : f.SameNames g := by
  induction h with
  | refl => exact refl f
  | put _ hk v ih => exact ih.trans (put _ hk v)
  | erase _ hk ih => exact ih.trans (erase _ hk)

theorem resize (f : Frame) (n : Nat) : f.SameNames (f.resize n) :=
  of_reworked (.resize (by rfl) (fun _ => by rfl) f n)

theorem refill (f : Frame) (values : List Value) : f.SameNames (f.refill values) :=
  of_reworked (.refill (fun _ => by rfl) (by rfl) (fun _ => by rfl) f values)

theorem append (f : Frame) (values : List Value) : f.SameNames (f.append values) :=
  of_reworked (.append (fun _ => by rfl) (by rfl) f values)

end SameNames

end Frame

end ScriptEngine
