import ScriptEngine.Proofs.Answers
import ScriptEngine.Session

/-!
# Engines in the hands of a host

A host makes an engine, opens scopes in it, runs programs in the scopes that it holds, lets functions be
called, registers functions of its own, and seals or unseals the built-in names. In every engine that it can
reach this way the store is sound, and the scopes that it holds are rooted. From this follows what no program
can do: find its own tree malformed, be told that it assigns to what cannot be assigned to, or add a name to
the built-in ones.

## Main definitions

* `Engine.Reached`: the engines that a host can reach, with the scopes that it holds.
* `Engine.runAll`: programs one after another, each in a scope of its own.

## Main results

* `Engine.Reached.held`: the stores of such engines.
* `Session.step_reached`: sessions stay among them.
* `parse_runs`: what holds for every tree that the parser makes, and for running it.
* `Engine.runAll_core`: programs in scopes of their own add nothing to the built-in names.
-/

namespace ScriptEngine

open Proc

/-! ## What a host can do -/

namespace Engine

/-- The desks at which a host that holds some scopes can run programs. -/
inductive Desk.Offered (scopes : List FrameId) : Proc Desk → Prop
  | held {d : Desk} (h : d.scope ∈ scopes) : Offered scopes (return d)
  | fresh : Offered scopes newDesk
  | inner {d : Desk} (h : d.scope ∈ scopes) : Offered scopes (innerDesk d)

/-- What a host that holds some scopes can let an engine do: run a program, call a function or construct with
one, and ask for the text of a value. -/
inductive Work (scopes : List FrameId) : {α : Type} → Proc α → Prop
  | program {source : Text} {n : Node} {desk : Proc Desk} (hn : parse source = .ok n)
      (hdesk : Desk.Offered scopes desk) : Work scopes (runTree desk n)
  | request (r : Request) (hr : ∀ f ∈ r.invoker, f ∈ scopes) : Work scopes (Proc.request r)
  | text (v : Value) : Work scopes (uncaught v)

/-- The engines that a host can reach, with the scopes that it holds. -/
inductive Reached : List FrameId → Engine → Prop
  | new (settings : Settings) (host : Host) (services : List (Text × Service)) (fuel : Nat) :
      Reached [] { new settings host services with fuel }
  | opened {scopes : List FrameId} {e : Engine} {desk : Proc Desk} {d : Desk} (h : Reached scopes e)
      (hdesk : Desk.Offered scopes desk) (hd : (e.run desk).1 = .ok d) :
      Reached (d.scope :: scopes) (e.run desk).2
  | worked {scopes : List FrameId} {e : Engine} {α : Type} {p : Proc α} (h : Reached scopes e)
      (hp : Work scopes p) : Reached scopes (e.run p).2
  | registered {scopes : List FrameId} {e : Engine} (h : Reached scopes e) (name : Text) (f : Service) :
      Reached scopes (Session.register e name f).2
  | restricted {scopes : List FrameId} {e : Engine} (h : Reached scopes e) (flag : Bool) :
      Reached scopes (Session.restrict e flag).2
  | collected {scopes : List FrameId} {e : Engine} (h : Reached scopes e) : Reached scopes e.collect.2

end Engine

/-! ## Sound stores -/

/-- A sound store in which the scopes that the host holds are rooted; any name may be a built-in one. -/
structure Store.Held (scopes : List FrameId) (s : Store) : Prop where
  sound : s.Sound fun _ => True
  rooted (f : FrameId) : f ∈ scopes → s.Rooted f

namespace Store

variable {names : Key → Prop} {scopes : List FrameId} {s t : Store}

theorem Held.next (h : s.Held scopes) (hst : s.Next (fun _ => True) t) : t.Held scopes :=
  ⟨hst.sound, fun f hf => (h.rooted f hf).later hst.later⟩

theorem Next.sealFrom (flag : Bool) (n : Nat) (hs : s.Sound names) (f : FrameId) :
    s.Next names (s.sealFrom flag n f) := by
  induction n generalizing s f with
  | zero => exact .refl hs
  | succ n ih =>
      rw [Store.sealFrom]
      split
      · exact .refl hs
      · have hfirst : s.Next names (s.modifyFrame f fun fr => { fr with sealed := flag }) :=
          .modifyFrame hs f (fun _ => ⟨rfl, rfl⟩) fun _ k hk => hs.core_names k hk
        exact List.foldlRecOn _ _ hfirst fun t ht g _ => ht.trans (ih ht.sound g)

end Store

theorem Body.harmless_of_isScripted {b : Body} (h : b.isScripted = false) (s : Store) : b.Harmless s := by
  unfold Body.Harmless
  split
  · cases h
  · trivial

/-- A function of the host. -/
theorem Store.Next.service {s : Store} (hs : s.Sound fun _ => True) (name : Text) (f : Service) :
    s.Next (fun _ => True) (Setup.service name f s).2 := by
  have hadd := addWith hs (some Realm.functionPrototype) (.function name (.service f)) trivial
    fun parent => (({ parent } : Frame).define Key.length (.ofNat 0)).define Key.nameKey (.str name)
  exact hadd.trans (modifyFrame hadd.sound Realm.core (fun fr => .define fr _ _) fun _ _ _ => trivial)

/-- The steps of the setup keep stores sound. -/
theorem Setup.kept_sound : Setup.Kept (Store.Sound fun _ => True) where
  add proto body props hpiece hs :=
    (Store.Next.addWith hs proto body (body.harmless_of_isScripted hpiece.unscripted _) props).sound
  define f k v _ _ hs := (Store.Next.modifyFrame hs f (fun fr => .define fr k v) fun _ _ _ => trivial).sound

theorem Store.sound_initial (host : Host) : (Store.initial host).Sound fun _ => True := by
  refine Setup.kept_sound.initial host ⟨rfl, rfl, fun _ _ => trivial, fun o => ?_, fun o => trivial⟩
  exact Nat.one_ne_zero

namespace Engine

variable {names : Key → Prop} {scopes : List FrameId} {L : Licence} {s : Store} {e : Engine}

theorem sound_new (settings : Settings) (host : Host) (services : List (Text × Service)) :
    (new settings host services).store.Sound fun _ => True := by
  have hs := Setup.kept_sound.services services (Store.sound_initial host)
  simp only [new, store]
  split
  · exact (Store.Next.sealFrom true _ hs _).sound
  · exact hs

/-- The scope of a desk is rooted. -/
theorem Desk.Offered.behaves {desk : Proc Desk} (h : Desk.Offered scopes desk)
    (hscopes : ∀ f ∈ scopes, s.Rooted f) : desk.Behaves L (fun t d => t.Rooted d.scope) s := by
  cases h with
  | held h => exact hscopes _ h
  | fresh => exact ⟨trivial, fun f t ht hf => ⟨trivial, fun _ u hu _ => Store.Rooted.later hf hu.later⟩⟩
  | inner h =>
      exact ⟨hscopes _ h, fun f t ht hf => ⟨trivial, fun _ u hu _ => Store.Rooted.later hf hu.later⟩⟩

/-- A tree that the parser makes keeps to its licence. -/
theorem behaves_runTree {source : Text} {n : Node} {desk : Proc Desk} (hn : parse source = .ok n)
    (hdesk : Desk.Offered scopes desk) (hs : s.Sound L.names) (hscopes : ∀ f ∈ scopes, s.Rooted f) :
    (runTree desk n).Behaves L (fun _ _ => True) s := by
  obtain ⟨p, hp, htargeted⟩ := Program.ofNode?_of_parse hn
  refine (hdesk.behaves hscopes).bind hs fun t d ht hd => ?_
  rw [hp]
  refine runProgram_tame d.runner htargeted t ht.sound ?_
  rintro _ ⟨⟩
  exact hd

theorem tame_uncaught (v : Value) : (uncaught v).Tame L none := .bind (tame_toText v) fun _ => .pure _

theorem Work.behaves {α : Type} {p : Proc α} (h : Work scopes p) (hs : s.Sound L.names)
    (hscopes : ∀ f ∈ scopes, s.Rooted f) : p.Behaves L (fun _ _ => True) s := by
  cases h with
  | program hn hdesk => exact behaves_runTree hn hdesk hs hscopes
  | request r hr =>
      have hrequest : Tame L r.invoker (Proc.request r) := .request (.inr rfl)
      exact hrequest s hs fun f hf => hscopes f (hr f hf)
  | text v => exact tame_uncaught v s hs nofun

/-- The store of an engine that a host can reach. -/
theorem Reached.held (h : Reached scopes e) : e.store.Held scopes := by
  induction h with
  | new settings host services fuel => exact ⟨sound_new settings host services, nofun⟩
  | opened h hdesk hd ih =>
      -- To open a scope is a run like others; that the new scope is rooted is known of its result.
      have hrun := run_lawful ih.sound (hdesk.behaves ih.rooted)
      have hheld := ih.next hrun.next
      refine ⟨hheld.sound, fun f hf => ?_⟩
      obtain rfl | hf := List.mem_cons.1 hf
      · exact hrun.result _ hd
      · exact hheld.rooted f hf
  | worked h hp ih => exact ih.next (run_lawful ih.sound (hp.behaves ih.sound ih.rooted)).next
  | registered h name f ih =>
      unfold Session.register
      split
      · exact ih
      · exact ih.next (.service ih.sound name f)
  | restricted h flag ih => exact ih.next (.sealFrom flag _ ih.sound _)
  | collected h ih => exact ih

/-! ## Sessions -/

/-- A report takes a run, and another one for the text of a value that nobody caught. -/
theorem perform_snd {α β : Type} (e : Engine) (p : Proc α) (view : Store → α → β) :
    (e.perform p view).2 = (e.run p).2 ∨ ∃ v, (e.perform p view).2 = ((e.run p).2.run (uncaught v)).2 := by
  unfold perform
  rcases e.run p with ⟨outcome, e'⟩
  cases outcome with
  | thrown v =>
      refine .inr ⟨v, ?_⟩
      dsimp only
      rcases e'.run (uncaught v) with ⟨text, e''⟩
      cases text <;> rfl
  | _ => exact .inl rfl

theorem Reached.perform {α β : Type} {p : Proc α} (h : Reached scopes e) (hp : Work scopes p)
    (view : Store → α → β) : Reached scopes (e.perform p view).2 := by
  obtain he | ⟨v, he⟩ := e.perform_snd p view
  · exact he ▸ h.worked hp
  · exact he ▸ (h.worked hp).worked (.text v)

theorem Reached.runSource {desk : Proc Desk} (h : Reached scopes e) (hdesk : Desk.Offered scopes desk)
    (source : Text) : Reached scopes (e.runSource desk source).2 := by
  unfold Engine.runSource
  split
  · exact h
  · exact h
  · exact h.perform (.program ‹_› hdesk) _

end Engine

namespace Session

variable {scopes : List FrameId}

/-- A session starts with a scope that the host holds. -/
theorem start_reached {e : Engine} (h : Engine.Reached scopes e) :
    Engine.Reached ((start e).desk.scope :: scopes) (start e).engine := h.opened .fresh rfl

/-- The steps of a session are among what a host can do. -/
theorem step_reached {s : Session} (h : Engine.Reached scopes s.engine) (hdesk : s.desk.scope ∈ scopes)
    (what : Step) : Engine.Reached scopes (s.step what).2.engine := by
  refine Engine.Reached.collected ?_
  cases what with
  | run source => exact h.runSource (.held hdesk) source
  | fresh source => exact h.runSource .fresh source
  | nested source => exact h.runSource (.inner hdesk) source
  | register name f => exact h.registered name f
  | restrict flag => exact h.restricted flag
  | names => exact h

end Session

/-! ## Trees of the parser -/

/-- A tree that the parser makes has the layout of a program, so every part of it is there and every operator
in it is known, and it stands for a program that assigns only to what can be assigned to. When it is run, in
any engine that a host can reach, the run does not end because the tree is malformed, and every reference error
that is made on the way is made by a call of an error constructor: no assignment lacks a target. -/
theorem parse_runs {source : Text} {n : Node} (h : parse source = .ok n) :
    n.fits .program ∧ (∃ p, Program.ofNode? n = some p ∧ stmtsTargeted p) ∧
      ∀ scopes e desk, Engine.Reached scopes e → Engine.Desk.Offered scopes desk →
        (e.run (Engine.runTree desk n)).1 ≠ .fault .malformedTree ∧
          ∀ o ∈ e.record (Engine.runTree desk n), o.Lawful := by
  refine ⟨parse_fits h, Program.ofNode?_of_parse h, fun scopes e desk hreached hdesk => ?_⟩
  have hheld := hreached.held
  have hrun := Engine.run_lawful hheld.sound (Engine.behaves_runTree h hdesk hheld.sound hheld.rooted)
  exact ⟨fun he => hrun.fault _ he rfl, hrun.record⟩

/-- The tree of an assignment, run in a new engine. -/
theorem parse_runs_assignment : ∃ n, parse (Text.ofString "x = y") = .ok n ∧ n.fits .program ∧
    ((Engine.new {} {} []).run (Engine.runTree Engine.newDesk n)).1 ≠ .fault .malformedTree := by
  cases h : parse (Text.ofString "x = y") with
  | ok n =>
      obtain ⟨hfits, -, hrun⟩ := parse_runs h
      exact ⟨n, rfl, hfits, (hrun [] _ _ (.new {} {} [] _) .fresh).1⟩
  | error e =>
      have hok : (parse (Text.ofString "x = y")).isOk := by decide +kernel
      rw [h] at hok
      cases hok

/-! ## Programs in scopes of their own -/

/-- What is bound at the start of a program in a new scope: the built-in names, and two names for the object
that stands for the scope. -/
theorem Store.has_addProgramScope {names : Key → Prop} {s : Store} (hs : s.Sound names) (k : Key) :
    s.addProgramScope.2.has s.addProgramScope.1 k ↔
      (s.frame Realm.core).holds k ∨ k = Key.this ∨ k = .name "globalThis" := by
  obtain ⟨n, hn⟩ := Nat.exists_eq_add_one_of_ne_zero (Nat.ne_zero_of_lt hs.core_lt_size)
  let o : Value := .obj s.objects.size
  have hscope : s.addProgramScope.2.frame s.frames.size =
      (({ parent := some Realm.core, role := .program } : Frame).define Key.this o).define (.name "globalThis") o := by
    refine (frame_modifyFrame_self _ s.frames.size _ (by simp)).trans ?_
    simp [frame, o]
  have hcore : s.addProgramScope.2.frame Realm.core = s.frame Realm.core :=
    (Extends.addProgramScope s).frame Realm.core hs.core_lt_size
  have hchain : s.addProgramScope.2.chain s.frames.size = [s.frames.size, Realm.core] := by
    have hparent : (s.addProgramScope.2.frame s.frames.size).parent = some Realm.core := by rw [hscope]; rfl
    rw [chain, ancestors, hparent]
    dsimp only
    rw [hn, ancestors, hcore, hs.core_parent]
  have hrole : (s.addProgramScope.2.frame s.frames.size).role = .program := by rw [hscope]; rfl
  have hholds : (s.addProgramScope.2.frame s.frames.size).holds k ↔ k = .name "globalThis" ∨ k = Key.this := by
    rw [hscope, Frame.holds_define, Frame.holds_define]
    simp [Frame.holds, Frame.lookup?]
  have howner (f : FrameId) (hf : ∀ o, (s.addProgramScope.2.frame f).role ≠ .subject o) :
      (s.addProgramScope.2.levelOwner? f k).isSome ↔ (s.addProgramScope.2.frame f).holds k := by
    unfold levelOwner?
    split
    · exact absurd ‹_› (hf _)
    · split <;> simp_all
  have hhas : s.addProgramScope.2.has s.frames.size k ↔ (s.addProgramScope.2.frame s.frames.size).holds k ∨
      (s.addProgramScope.2.frame Realm.core).holds k := by
    rw [has, owner?, hchain, List.findSome?_isSome_iff]
    simp [howner s.frames.size (by simp [hrole]), howner Realm.core (by simp [hcore, hs.core_role])]
  refine hhas.trans ?_
  rw [hholds, hcore]
  grind

namespace Engine

variable {names : Key → Prop} {scopes : List FrameId} {e : Engine}

theorem run_next {α : Type} {p : Proc α} {Q : Store → α → Prop} (hs : e.store.Sound names)
    (hp : p.Behaves (.forHost names) Q e.store) : e.store.Next names (e.run p).2.store := (run_lawful hs hp).next

theorem perform_next {α β : Type} {p : Proc α} (hs : e.store.Sound names)
    (hp : p.Behaves (.forHost names) (fun _ _ => True) e.store) (view : Store → α → β) :
    e.store.Next names (e.perform p view).2.store := by
  have hrun := run_next hs hp
  obtain he | ⟨v, he⟩ := e.perform_snd p view
  · exact he ▸ hrun
  · exact he ▸ hrun.trans (run_next hrun.sound (tame_uncaught v _ hrun.sound nofun))

theorem runSource_next (hs : e.store.Sound names) (hscopes : ∀ f ∈ scopes, e.store.Rooted f) {desk : Proc Desk}
    (hdesk : Desk.Offered scopes desk) (source : Text) :
    e.store.Next names (e.runSource desk source).2.store := by
  unfold runSource
  split
  · exact .refl hs
  · exact .refl hs
  · exact perform_next hs (behaves_runTree ‹_› hdesk hs hscopes) _

/-- The engine after programs, each of them run in a scope of its own. -/
def runAll (e : Engine) (sources : List Text) : Engine :=
  sources.foldl (fun e source => (e.runSource newDesk source).2) e

theorem runAll_next (hs : e.store.Sound names) (sources : List Text) :
    e.store.Next names (e.runAll sources).store := by
  induction sources generalizing e with
  | nil => exact .refl hs
  | cons source rest ih =>
      have hfirst := @runSource_next names [] e hs nofun newDesk .fresh source
      exact hfirst.trans (ih hfirst.sound)

/-- The names that are bound in a new scope. -/
theorem run_newDesk (hs : e.store.Sound names) : ∃ d, (e.run newDesk).1 = .ok d ∧
    ∀ k, (e.run newDesk).2.store.has d.scope k ↔
      (e.store.frame Realm.core).holds k ∨ k = Key.this ∨ k = .name "globalThis" :=
  ⟨_, rfl, Store.has_addProgramScope hs⟩

/-- Programs that are run in scopes of their own add nothing to the built-in names. So a name that is bound when
the next such program starts was a built-in one before the first of them, or is one of the two names for the
object that stands for its own new scope. -/
theorem runAll_core (h : Reached scopes e) (sources : List Text) :
    (∀ k, ((e.runAll sources).store.frame Realm.core).holds k → (e.store.frame Realm.core).holds k) ∧
      ∃ d, ((e.runAll sources).run newDesk).1 = .ok d ∧
        ∀ k, ((e.runAll sources).run newDesk).2.store.has d.scope k →
          (e.store.frame Realm.core).holds k ∨ k = Key.this ∨ k = .name "globalThis" := by
  have hs := h.held.sound.mono fun k (hk : (e.store.frame Realm.core).holds k) => hk
  have hnext := runAll_next hs sources
  obtain ⟨d, hd, hbound⟩ := run_newDesk hnext.sound
  refine ⟨hnext.sound.core_names, d, hd, fun k hk => ?_⟩
  obtain hk | hk := (hbound k).1 hk
  · exact .inl (hnext.sound.core_names k hk)
  · exact .inr hk

/-- Names that a new engine does not have among the built-in ones. -/
theorem new_core_free : ∀ k ∈ [Key.name "x", Key.name "globalThis"],
    ¬((Engine.new {} {} []).store.frame Realm.core).holds k := by decide +kernel

/-- The name `x` is not shared by programs that declare it or assign to it. -/
theorem runAll_core_declared :
    let e := (Engine.new {} {} []).runAll [Text.ofString "var x = true", Text.ofString "x = y"]
    ∃ d, (e.run newDesk).1 = .ok d ∧ ¬(e.run newDesk).2.store.has d.scope (.name "x") := by
  obtain ⟨-, d, hd, hbound⟩ := runAll_core (.new {} {} [] _)
    [Text.ofString "var x = true", Text.ofString "x = y"]
  refine ⟨d, hd, fun hx => ?_⟩
  obtain hcore | hown := hbound _ hx
  · exact new_core_free _ (by simp) hcore
  · revert hown
    decide

/-- The name `globalThis` is no built-in one, and bound when the second program starts. -/
theorem runAll_globalThis :
    let e := (Engine.new {} {} []).runAll [Text.ofString "x = y"]
    ¬((Engine.new {} {} []).store.frame Realm.core).holds (.name "globalThis") ∧
      ∃ d, (e.run newDesk).1 = .ok d ∧ (e.run newDesk).2.store.has d.scope (.name "globalThis") := by
  have hs := (Reached.new {} {} [] (Engine.new {} {} []).fuel).held.sound
  obtain ⟨d, hd, hbound⟩ := run_newDesk (runAll_next hs [Text.ofString "x = y"]).sound
  exact ⟨new_core_free _ (by simp), d, hd, (hbound _).2 (.inr (.inr rfl))⟩

end Engine

end ScriptEngine
