import ScriptEngine.Engine
import ScriptEngine.Proofs.Names

/-!
# The store of a new engine

The store of a new engine is made in two kinds of steps: an object is added with a frame of its own, or a
property is bound and kept out of enumeration. What both kinds of steps keep holds for the store of a new
engine if it holds for the empty scope of built-in names, or after the first object is there.

## Main definitions

* `Setup.Piece`: objects as the steps add them.
* `Setup.Kept`: properties of stores that the steps keep.

## Main results

* `Setup.Kept.initial`, `Setup.Kept.initial_of_first`, `Setup.Kept.initial_of_prototypes`: such a property holds for
  the store of a new engine.
-/

namespace ScriptEngine

/-- Whether an object is a function of a script. -/
def Body.isScripted : Body → Bool
  | .function _ (.script _ _ _ _ _) => true
  | _ => false

/-- Whether a key is a name like others: no index, and not the length. -/
def Key.isOrdinary (k : Key) : Bool := k.index?.isNone && k != Key.length

/-- A frame for the properties of an object, with the frame that is searched after it. -/
structure Frame.Inherits (fr : Frame) (parent : Option FrameId) : Prop where
  parent : fr.parent = parent
  role (o : ObjectId) : fr.role ≠ .subject o

namespace Setup

/-- An object as a step of the setup adds it, with its frame of properties: no function of a script, an array
without elements, a string without characters, and properties under different names that texts denote. -/
structure Piece (body : Body) (props : Option FrameId → Frame) : Prop where
  unscripted : body.isScripted = false
  empty : body.isArray → props = fun parent => Frame.ofItems parent []
  characterless : body.characterKeys = []
  inherits (parent : Option FrameId) : (props parent).Inherits parent
  role (parent : Option FrameId) : (props parent).role ≠ .program
  nodup (parent : Option FrameId) : (props parent).keys.Nodup
  proper (parent : Option FrameId) : ∀ k ∈ (props parent).keys, k.Proper

/-- An object without properties. -/
theorem Piece.plain {body : Body} (hbody : body.isScripted = false) (harray : body.isArray = false)
    (hcharacters : body.characterKeys = []) : Piece body fun parent => { parent } where
  unscripted := hbody
  empty h := absurd h (by simp [harray])
  characterless := hcharacters
  inherits _ := ⟨rfl, nofun⟩
  role _ := nofun
  nodup _ := .nil
  proper _ := nofun

theorem Piece.array : Piece .array fun parent => Frame.ofItems parent [] where
  unscripted := rfl
  empty _ := rfl
  characterless := rfl
  inherits _ := ⟨rfl, nofun⟩
  role _ := nofun
  nodup _ := show [Key.length].Nodup by decide
  proper _ := show ∀ k ∈ [Key.length], k.Proper by decide

theorem Piece.function {name : Text} (arity : Nat) {callable : Callable}
    (hbody : (Body.function name callable).isScripted = false) :
    Piece (.function name callable) fun parent =>
      (({ parent } : Frame).define Key.length (.ofNat arity)).define Key.nameKey (.str name) where
  unscripted := hbody
  empty := nofun
  characterless := rfl
  inherits _ := ⟨rfl, nofun⟩
  role _ := nofun
  nodup _ := show [Key.length, Key.nameKey].Nodup by decide
  proper _ := show ∀ k ∈ [Key.length, Key.nameKey], k.Proper by decide

/-- A property of stores that the steps of the setup keep. Beside the built-in names only names like others are
bound. -/
structure Kept (P : Store → Prop) : Prop where
  add {s : Store} (proto : Option ObjectId) {body : Body} {props : Option FrameId → Frame} :
    Piece body props → P s → P (s.addWith proto body props).2
  define {s : Store} (f : FrameId) {k : Key} (v : Value) :
    f = Realm.core ∨ k.isOrdinary → k.Proper → P s → P (s.modifyFrame f (·.define k v))

/-- The store with the object from which all others inherit. -/
def first (host : Host) : Store :=
  (({ frames := #[{ role := .core }], host } : Store).addPlain none .plain).2

/-- Names that are bound as properties are names like others. -/
def Named (names : List String) : Prop := ∀ name ∈ names, (Key.ofText name).isOrdinary

instance (names : List String) : Decidable (Named names) := inferInstanceAs (Decidable (∀ name ∈ names, _))

namespace Kept

variable {P : Store → Prop} (h : Kept P) {s : Store}

/-- What the steps of a list keep, the list keeps. -/
theorem foldl {β : Type} {step : Store → β → Store} {bs : List β} (hstep : ∀ s, ∀ b ∈ bs, P s → P (step s b))
    (hs : P s) : P (bs.foldl step s) := List.foldlRecOn _ _ hs fun s hs b hb => hstep s b hb hs

include h

theorem addFunction (proto : ObjectId) (name : Text) (arity : Nat) (callable : Callable)
    (hbody : (Body.function name callable).isScripted = false) (hs : P s) :
    P (s.addFunction proto name arity callable).2 := h.add _ (.function arity hbody) hs

theorem addPlain (proto : Option ObjectId) (body : Body) (hbody : body.isScripted = false)
    (harray : body.isArray = false) (hcharacters : body.characterKeys = []) (hs : P s) :
    P (s.addPlain proto body).2 := h.add _ (.plain hbody harray hcharacters) hs

theorem defineProperty (o : ObjectId) {k : Key} (hk : k.isOrdinary) (hproper : k.Proper) (v : Value) (hs : P s) :
    P (s.defineProperty o k v) := h.define (s.propsOf o) v (.inr hk) hproper hs

theorem property (o : ObjectId) {name : String} (hname : (Key.ofText name).isOrdinary) (v : Value) (hs : P s) :
    P (property o name v s) := h.defineProperty o hname (Key.proper_ofText name) v hs

theorem builtin (name : String) (v : Value) (hs : P s) : P (builtin name v s) :=
  h.define Realm.core v (.inl rfl) (Key.proper_ofText name) hs

theorem method (o : ObjectId) {m : MethodEntry} (hm : (Key.ofText m.1).isOrdinary) (hs : P s) :
    P (method o s m) :=
  h.property o hm _ (h.addFunction Realm.functionPrototype m.1 m.2.2 (.native m.2.1) rfl hs)

theorem methods (o : ObjectId) {ms : List MethodEntry} (hms : Named (ms.map (·.1))) (hs : P s) :
    P (methods o ms s) := foldl (fun _ m hm => h.method o (hms m.1 (List.mem_map_of_mem hm))) hs

theorem constants (o : ObjectId) {cs : List (String × Float)} (hcs : Named (cs.map (·.1))) (hs : P s) :
    P (cs.foldl (fun s (name, x) => Setup.property o name (.num x) s) s) :=
  foldl (fun _ c hc => h.property o (hcs c.1 (List.mem_map_of_mem hc)) (.num c.2)) hs

theorem constructor (name : String) (n : Native) (arity : Nat) (proto : ObjectId) {own : List MethodEntry}
    (hown : Named (own.map (·.1))) (hs : P s) : P (constructor name n arity proto own s) := by
  have h₁ := h.addFunction Realm.functionPrototype name arity (.native n) rfl hs
  have h₂ := h.defineProperty s.objects.size (k := Key.prototype) rfl (by decide) (.obj proto) h₁
  have h₃ := h.defineProperty proto (k := Key.constructor) rfl (by decide) (.obj s.objects.size) h₂
  exact h.methods s.objects.size hown (h.builtin name (.obj s.objects.size) h₃)

theorem service (name : Text) (f : Service) (hs : P s) : P (service name f s).2 :=
  h.define Realm.core _ (.inl rfl) (Key.proper_ofText name)
    (h.addFunction Realm.functionPrototype name 0 (.service f) rfl hs)

theorem services (fs : List (Text × Service)) (hs : P s) :
    P (fs.foldl (fun s (name, f) => (Setup.service name f s).2) s) := foldl (fun _ f _ => h.service f.1 f.2) hs

theorem prototypes {host : Host} (hs : P (first host)) :
    P (prototypes { frames := #[{ role := .core }], host }) := by
  let root := some Realm.objectPrototype
  have h₁ := h.addFunction Realm.objectPrototype [] 0 (.native (.function .blank)) rfl hs
  have h₂ := h.add root .array h₁
  have h₃ := h.addPlain root (.number 0.0) rfl rfl rfl (h.addPlain root (.string []) rfl rfl rfl h₂)
  have h₄ := h.addPlain root (.date Number.nan) rfl rfl rfl (h.addPlain root (.boolean false) rfl rfl rfl h₃)
  have h₅ := h.addPlain root .plain rfl rfl rfl (h.addPlain root .plain rfl rfl rfl h₄)
  exact foldl (fun _ _ _ => h.addPlain (some (Realm.errorPrototype .error)) .plain rfl rfl rfl) h₅

theorem errorFamily (kind : ErrorKind) (hs : P s) : P (errorFamily s kind) := by
  have h₁ := h.defineProperty (Realm.errorPrototype kind) (k := Key.nameKey) rfl (by decide) (.str kind.label) hs
  have h₂ := h.defineProperty (Realm.errorPrototype kind) (k := Key.message) rfl (by decide) (.str []) h₁
  exact h.constructor kind.label (.error (.construct kind)) 1 (Realm.errorPrototype kind) nofun h₂

theorem numberConstants (hs : P s) : P (numberConstants s) := by
  unfold Setup.numberConstants
  split
  · exact h.constants _ (by decide +kernel) hs
  · exact hs

theorem mathObject (hs : P s) : P (mathObject s) := by
  have h₁ := h.addPlain (some Realm.objectPrototype) .math rfl rfl rfl hs
  have hnames : Named (mathConstants.map (·.1)) := by decide +kernel
  have h₂ := h.constants s.objects.size hnames h₁
  exact h.builtin "Math" (.obj s.objects.size) (h.methods s.objects.size (by decide +kernel) h₂)

theorem consoleObject (hs : P s) : P (consoleObject s) := by
  have h₁ := h.addPlain (some Realm.objectPrototype) .plain rfl rfl rfl hs
  exact h.builtin "console" (.obj s.objects.size) (h.methods s.objects.size (by decide +kernel) h₁)

theorem globals (hs : P s) : P (globals s) := by
  have h₁ := h.builtin "NaN" (.num Number.nan) (h.builtin "undefined" .undefined hs)
  have h₂ := h.builtin "Infinity" (.num Number.infinity) h₁
  have h₃ := h.addFunction Realm.functionPrototype "eval" 1 (.native .eval) rfl h₂
  simp only [Setup.globals]
  generalize Store.addFunction _ _ _ _ _ = r at h₃ ⊢
  exact foldl (fun _ f _ => h.service f.1 f.2) (h.builtin "eval" (.obj r.1) h₃)

/-- What the steps keep holds for the store of a new engine if it holds when the prototypes are there. -/
theorem initial_of_prototypes (host : Host) (hs : P (Setup.prototypes { frames := #[{ role := .core }], host })) :
    P (Store.initial host) := by
  simp only [Store.initial]
  -- The last steps come first.
  refine h.globals (h.consoleObject (h.mathObject (h.methods _ (by decide +kernel) ?_)))
  refine foldl (fun _ k _ => h.errorFamily k) ?_
  refine h.methods _ (by decide +kernel) (h.constructor _ _ _ _ (by decide +kernel) ?_)
  refine h.methods _ (by decide +kernel) (h.constructor _ _ _ _ (by decide +kernel) ?_)
  refine h.methods _ (by decide +kernel) (h.constructor _ _ _ _ (by decide +kernel) ?_)
  refine h.methods _ (by decide +kernel) (h.numberConstants (h.constructor _ _ _ _ (by decide +kernel) ?_))
  refine h.methods _ (by decide +kernel) (h.constructor _ _ _ _ (by decide +kernel) ?_)
  refine h.methods _ (by decide +kernel) (h.constructor _ _ _ _ (by decide +kernel) ?_)
  refine h.methods _ (by decide +kernel) (h.constructor _ _ _ _ (by decide +kernel) ?_)
  exact h.methods _ (by decide +kernel) (h.constructor _ _ _ _ (by decide +kernel) hs)

/-- What the steps keep holds for the store of a new engine if it holds after the first step. -/
theorem initial_of_first (host : Host) (hs : P (first host)) : P (Store.initial host) :=
  h.initial_of_prototypes host (h.prototypes hs)

/-- What the steps keep holds for the store of a new engine. -/
theorem initial (host : Host) (hs : P { frames := #[{ role := .core }], host }) : P (Store.initial host) :=
  h.initial_of_first host (h.addPlain none .plain rfl rfl rfl hs)

end Kept

end Setup

end ScriptEngine
