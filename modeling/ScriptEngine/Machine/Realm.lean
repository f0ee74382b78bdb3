import ScriptEngine.Heap.Store

/-!
# Fixed places of the store

The built-in prototypes and the scope of the built-in names are the first things a store holds, so their
numbers are known beforehand.
-/

namespace ScriptEngine

namespace Realm

/-- The scope of the built-in names. -/
def core : FrameId := 0

/-- The object from which all objects inherit. -/
def objectPrototype : ObjectId := 0

/-- The object from which functions inherit. -/
def functionPrototype : ObjectId := 1

/-- The object from which arrays inherit. -/
def arrayPrototype : ObjectId := 2

/-- The object from which strings inherit. -/
def stringPrototype : ObjectId := 3

/-- The object from which numbers inherit. -/
def numberPrototype : ObjectId := 4

/-- The object from which truth values inherit. -/
def booleanPrototype : ObjectId := 5

/-- The object from which dates inherit. -/
def datePrototype : ObjectId := 6

/-- The object from which patterns inherit. -/
def regexpPrototype : ObjectId := 7

/-- The families of errors in order. -/
def errorKinds : List ErrorKind :=
  [.error, .typeError, .syntaxError, .rangeError, .referenceError, .uriError, .evalError]

/-- The object from which the errors of a family inherit. -/
def errorPrototype : ErrorKind → ObjectId
  | .error => 8
  | .typeError => 9
  | .syntaxError => 10
  | .rangeError => 11
  | .referenceError => 12
  | .uriError => 13
  | .evalError => 14

end Realm

/-- The name of a family of errors. -/
def ErrorKind.label : ErrorKind → String
  | error => "Error"
  | typeError => "TypeError"
  | syntaxError => "SyntaxError"
  | rangeError => "RangeError"
  | referenceError => "ReferenceError"
  | uriError => "URIError"
  | evalError => "EvalError"

namespace Store

/-- Adds an error with or without a message. -/
def addError (s : Store) (kind : ErrorKind) (message : Option Text) : ObjectId × Store :=
  s.addWith (some (Realm.errorPrototype kind)) .error fun parent =>
    let f : Frame := { parent }
    match message with
    | some t => f.define Key.message (.str t)
    | none => f

/-- Adds a pattern; its search position starts at zero. -/
def addRegExp (s : Store) (source flags : Text) : ObjectId × Store :=
  s.addWith (some Realm.regexpPrototype) (.regexp source flags) fun parent =>
    ({ parent } : Frame).define Key.lastIndex (.ofNat 0)

/-- Adds the list of arguments of a call. -/
def addArguments (s : Store) (items : List Value) (callee : ObjectId) : ObjectId × Store :=
  s.addWith (some Realm.arrayPrototype) .array fun parent =>
    (Frame.ofItems parent items).define Key.callee (.obj callee)

/-- Adds a function of a script, and the object from which the objects it constructs inherit. -/
def addClosure (s : Store) (name : Text) (params : List Text) (body : List Stmt) (scope : FrameId)
    (runner : RunnerId) (selfBound : Bool) : ObjectId × Store :=
  let callable := .script params body scope runner (selfBound && !name.isEmpty)
  let (function, s) := s.addFunction Realm.functionPrototype name params.length callable
  let (proto, s) := s.addPlain (some Realm.objectPrototype) .plain
  (function, s.linkPrototype function proto)

/-- The fixed name of a function. -/
def functionName (s : Store) (o : ObjectId) : Text :=
  match s.body o with
  | .function name _ => name
  | _ => []

/-- Adds a function that calls another one with a fixed receiver and first arguments. -/
def addBound (s : Store) (target : ObjectId) (this : Value) (args : List Value) : ObjectId × Store :=
  s.addFunction Realm.functionPrototype ("bound " ++ s.functionName target) 0 (.bound target this args)

/-- Adds the scope of a program, together with the object that stands for it. -/
def addProgramScope (s : Store) : FrameId × Store :=
  let (f, s) := s.addFrame { parent := some Realm.core, role := .program }
  let (o, s) := s.addObject { proto := some Realm.objectPrototype, props := f, body := .plain }
  (f, s.modifyFrame f fun fr => (fr.define Key.this (.obj o)).define (.name "globalThis") (.obj o))

end Store

end ScriptEngine
