import ScriptEngine.Text.Case

/-!
# Documents of settings

A document is a list of lines. A line in square brackets starts a section, a line with `=` or `:` binds an
option of the section, and a line that is indented deeper than the option before it goes on with its value.
Lines that start with `#` or `;` are comments. The names of options are written small; an option can be
bound, and a section other than the common one can be started, only once.

The options of the section `DEFAULT` are common to all sections. A value refers to another option of its
section, or to a common one, by `%(name)s`; `%%` is a percent sign.

## Main definitions

* `Document`: sections with their options.
* `Document.read`: the document of a text, on top of options that are there before.
* `Document.value?`: the value of an option with its references filled in.
-/

namespace ScriptEngine

/-- The options of a section, by name. -/
abbrev Options := List (Text × Text)

/-- Sections with their options. -/
structure Document where
  /-- The options that are common to all sections. -/
  common : Options := []
  /-- The other sections by name. -/
  sections : List (Text × Options) := []
  deriving Inhabited

namespace Document

/-- Why a text is no document, or an option has no value. -/
inductive Flaw where
  /-- An option comes before the first section. -/
  | noSection
  /-- A section is started twice. -/
  | repeatedSection
  /-- An option is bound twice. -/
  | repeatedOption
  /-- A line is neither a section nor an option. -/
  | strangeLine
  /-- A percent sign starts no reference. -/
  | strangeReference
  /-- A reference to an option that is not there. -/
  | missingOption
  /-- References to references, too many levels of them. -/
  | tooManyLevels
  deriving DecidableEq, Repr, Inhabited

/-- The name of the section of common options. -/
def commonName : Text := "DEFAULT"

/-! ## Lines -/

/-- The lines of a text, ended by a line feed, a carriage return, or both. `line` is the part of the current
line that has been read, backwards. -/
def linesFrom (line : Text) : Text → List Text
  | [] => if line.isEmpty then [] else [line.reverse]
  | 13 :: 10 :: rest => line.reverse :: linesFrom [] rest
  | c :: rest => if c = 10 || c = 13 then line.reverse :: linesFrom [] rest else linesFrom (c :: line) rest

/-- The lines of a text. -/
def lines (t : Text) : List Text := linesFrom [] t

/-- What a line says. -/
inductive Line where
  | blank
  | comment
  /-- Something else, without the blanks around it, and how far it is indented. -/
  | content (indent : Nat) (t : Text)

/-- What a line says. -/
def Line.ofText (line : Text) : Line :=
  match Text.strip line with
  | [] => blank
  | c :: rest =>
    if c = 35 || c = 59 then comment
    else content (line.takeWhile Text.isBlank).length (c :: rest)

/-- The name of the section that a line starts: what is between the first character, an opening bracket, and
the last closing one. -/
def sectionName? : Text → Option Text
  | 91 :: rest =>
    let inside := ((rest.reverse.dropWhile (· ≠ 93)).drop 1).reverse
    if inside.isEmpty then none else some inside
  | _ => none

/-- The name and the value of the option that a line binds: what is before and after the first `=` or `:`. -/
def option? (t : Text) : Option (Text × Text) :=
  let name := t.takeWhile fun c => c ≠ 61 && c ≠ 58
  match t.drop name.length with
  | [] => none
  | _ :: value => some (Text.lower (Text.trimEnd Text.isBlank name), Text.strip value)

/-! ## Reading -/

/-- Options with one bound, in place of an older one of that name. -/
def bindOption (name value : Text) : Options → Options
  | [] => [(name, value)]
  | (n, v) :: rest => if n = name then (n, value) :: rest else (n, v) :: bindOption name value rest

/-- A document with an option of a section bound. -/
def bind (d : Document) (sec name value : Text) : Document :=
  if sec = commonName then { d with common := bindOption name value d.common }
  else
    let rec go : List (Text × Options) → List (Text × Options)
      | [] => [(sec, [(name, value)])]
      | (n, os) :: rest => if n = sec then (n, bindOption name value os) :: rest else (n, os) :: go rest
    { d with sections := go d.sections }

/-- An option whose value may go on in the next line: its name and the lines so far, the last one first. -/
structure Pending where
  name : Text
  lines : List Text

/-- How far the reading of a document has come. -/
structure Progress where
  /-- What has been read. -/
  document : Document
  /-- The name of the section, once there is one. -/
  sec : Option Text := none
  /-- The option whose value may go on. -/
  pending : Option Pending := none
  /-- How far the latest section or option is indented. -/
  indent : Nat := 0
  /-- The sections that have been started. -/
  started : List Text := []
  /-- The options that have been bound, with their sections. -/
  bound : List (Text × Text) := []
  /-- Whether a line was neither a section nor an option. -/
  strange : Bool := false

namespace Progress

/-- The value of a pending option: its lines, without blanks at the end. -/
def valueOf (p : Pending) : Text := Text.trimEnd Text.isBlank (Text.joinWith [10] p.lines.reverse)

/-- Binds the pending option. -/
def settle (p : Progress) : Progress :=
  match p.sec, p.pending with
  | some sec, some o => { p with document := p.document.bind sec o.name (valueOf o), pending := none }
  | _, _ => { p with pending := none }

/-- Goes on with the value of the pending option. -/
def extend (p : Progress) (t : Text) : Progress :=
  { p with pending := p.pending.map fun o => { o with lines := t :: o.lines } }

/-- Whether a line goes on with the pending option; one without a name cannot go on. -/
def continues (p : Progress) (indent : Nat) : Bool :=
  p.pending.any (!·.name.isEmpty) && p.indent < indent

/-- Starts a section. -/
def openSection (p : Progress) (name : Text) : Except Flaw Progress :=
  if name = commonName then .ok { p.settle with sec := some name }
  else if p.started.contains name then .error .repeatedSection
  else .ok { p.settle with sec := some name, started := name :: p.started }

/-- Starts an option; one without a name is a strange line beside. -/
def openOption (p : Progress) (sec name value : Text) : Except Flaw Progress :=
  if p.bound.contains (sec, name) then .error .repeatedOption
  else
    .ok { p.settle with
      pending := some ⟨name, [value]⟩, bound := (sec, name) :: p.bound, strange := p.strange || name.isEmpty }

/-- Reads one line. -/
def line (p : Progress) (l : Text) : Except Flaw Progress :=
  match Line.ofText l with
  | .comment => .ok p
  | .blank => .ok (if p.pending.any (!·.name.isEmpty) then p.extend [] else p)
  | .content indent t =>
    if p.continues indent then .ok (p.extend t)
    else
      let p := { p with indent }
      match sectionName? t with
      | some name => p.openSection name
      | none =>
        match p.sec with
        | none => .error .noSection
        | some sec =>
          match option? t with
          | some (name, value) => p.openOption sec name value
          | none => .ok { p with strange := true }

/-- Reads lines. -/
def run (p : Progress) : List Text → Except Flaw Progress
  | [] => .ok p
  | l :: rest =>
    match p.line l with
    | .ok p => run p rest
    | .error e => .error e

end Progress

/-- The document of a text, with the options of `base` where the text does not bind them. -/
def read (base : Document) (t : Text) : Except Flaw Document :=
  match Progress.run { document := base } (lines t) with
  | .error e => .error e
  | .ok p => if p.strange then .error .strangeLine else .ok p.settle.document

/-! ## Values -/

/-- The value of an option as it is written: of the section, or else a common one. -/
def written? (d : Document) (sec name : Text) : Option Text :=
  (((d.sections.lookup sec).getD []).lookup name).or (d.common.lookup name)

/-- A reference after its percent sign: the name in it, and the rest of the text. -/
def reference? : Text → Option (Text × Text)
  | 40 :: rest =>
    let name := rest.takeWhile (· ≠ 41)
    match rest.drop name.length with
    | 41 :: 115 :: rest => if name.isEmpty then none else some (name, rest)
    | _ => none
  | _ => none

theorem length_lt_of_reference? {t name rest : Text} (h : reference? t = some (name, rest)) :
    rest.length < t.length := by
  match t with
  | [] => simp [reference?] at h
  | c :: t' =>
    unfold reference? at h
    split at h
    · rename_i inner heq
      obtain ⟨_, rfl⟩ := List.cons.inj heq
      dsimp only at h
      split at h
      · rename_i rest' hdrop
        split at h
        · cases h
        · obtain ⟨_, rfl⟩ := Prod.mk.inj (Option.some.inj h)
          have hl := congrArg List.length hdrop
          simp only [List.length_drop, List.length_cons] at hl
          simp only [List.length_cons]
          omega
      · cases h
    · cases h

/-- How many levels references to references can have. -/
def mostLevels : Nat := 10

/-- A value with its references filled in; `levels` bounds the references to references. -/
def fill (lookup : Text → Option Text) (levels : Nat) (t : Text) : Except Flaw Text :=
  match levels with
  | 0 => .error .tooManyLevels
  | n + 1 =>
    match t with
    | [] => .ok []
    | 37 :: 37 :: rest => (fill lookup (n + 1) rest).map (37 :: ·)
    | 37 :: rest =>
      match h : reference? rest with
      | none => .error .strangeReference
      | some (name, after) =>
        match lookup (Text.lower name) with
        | none => .error .missingOption
        | some v =>
          have := length_lt_of_reference? h
          if List.contains v 37 then
            match fill lookup n v with
            | .ok inner => (fill lookup (n + 1) after).map (inner ++ ·)
            | .error e => .error e
          else (fill lookup (n + 1) after).map (v ++ ·)
    | c :: rest => (fill lookup (n + 1) rest).map (c :: ·)
termination_by (levels, t.length)
decreasing_by all_goals simp_wf; simp_all [Prod.lex_def]; try omega

/-- The value of an option with its references filled in. -/
def value? (d : Document) (sec name : Text) : Except Flaw (Option Text) :=
  match d.written? sec name with
  | none => .ok none
  | some t => (fill (d.written? sec) mostLevels t).map some

end Document

end ScriptEngine
