import ScriptEngine.Machine.Action

/-!
# The initial store

The scope of the built-in names and the objects in it, in the order in which they are made.

## Main definitions

* `Store.initial`: the store of a new engine.
-/

namespace ScriptEngine

/-- A method: its name, what it does, and the number of its parameters. -/
abbrev MethodEntry := String × Native × Nat

namespace Setup

/-- Binds a property, kept out of enumeration. -/
def property (o : ObjectId) (name : String) (v : Value) (s : Store) : Store :=
  s.defineProperty o (.ofText name) v

/-- Binds a built-in name. -/
def builtin (name : String) (v : Value) (s : Store) : Store :=
  s.modifyFrame Realm.core (·.define (.ofText name) v)

/-- Gives an object a method. -/
def method (o : ObjectId) (s : Store) (m : MethodEntry) : Store :=
  let (f, s) := s.addFunction Realm.functionPrototype m.1 m.2.2 (.native m.2.1)
  property o m.1 (.obj f) s

/-- Gives an object methods. -/
def methods (o : ObjectId) (ms : List MethodEntry) (s : Store) : Store := ms.foldl (method o) s

/-- Binds a constructor whose objects inherit from `proto`, with methods of its own. -/
def constructor (name : String) (n : Native) (arity : Nat) (proto : ObjectId) (own : List MethodEntry)
    (s : Store) : Store :=
  let (f, s) := s.addFunction Realm.functionPrototype name arity (.native n)
  let s := s.defineProperty f Key.prototype (.obj proto)
  let s := s.defineProperty proto Key.constructor (.obj f)
  methods f own (builtin name (.obj f) s)

/-! ## Tables -/

def objectMethods : List MethodEntry :=
  [("hasOwnProperty", .object .hasOwnProperty, 1), ("isPrototypeOf", .object .isPrototypeOf, 1),
    ("propertyIsEnumerable", .object .propertyIsEnumerable, 1), ("toString", .object .toText, 0),
    ("toLocaleString", .object .toLocaleText, 0), ("valueOf", .object .valueOf, 0)]

def functionMethods : List MethodEntry :=
  [("call", .function .call, 1), ("apply", .function .apply, 2), ("bind", .function .bind, 1),
    ("toString", .function .toText, 0)]

def arrayMethods : List MethodEntry :=
  [("concat", .array .concat, 1), ("join", .array .join, 1), ("pop", .array .pop, 0),
    ("push", .array .push, 1), ("reverse", .array .reverse, 0), ("shift", .array .shift, 0),
    ("slice", .array .slice, 2), ("sort", .array .sort, 1), ("splice", .array .splice, 2),
    ("unshift", .array .unshift, 1), ("indexOf", .array .indexOf, 1), ("lastIndexOf", .array .lastIndexOf, 1),
    ("toString", .array .toText, 0), ("toLocaleString", .array .toText, 0), ("forEach", .array .forEach, 1),
    ("map", .array .map, 1), ("filter", .array .filter, 1), ("every", .array .every, 1),
    ("some", .array .some, 1), ("reduce", .array .reduce, 1)]

def stringMethods : List MethodEntry :=
  [("charAt", .string .charAt, 1), ("charCodeAt", .string .charCodeAt, 1), ("concat", .string .concat, 1),
    ("indexOf", .string .indexOf, 1), ("lastIndexOf", .string .lastIndexOf, 1),
    ("localeCompare", .string .localeCompare, 1), ("match", .string .match, 1),
    ("replace", .string .replace, 2), ("search", .string .search, 1), ("slice", .string .slice, 2),
    ("split", .string .split, 2), ("substr", .string .substr, 2), ("substring", .string .substring, 2),
    ("toLowerCase", .string .toLowerCase, 0), ("toUpperCase", .string .toUpperCase, 0),
    ("toLocaleLowerCase", .string .toLowerCase, 0), ("toLocaleUpperCase", .string .toUpperCase, 0),
    ("toString", .string .valueOf, 0), ("valueOf", .string .valueOf, 0)]

def numberMethods : List MethodEntry :=
  [("toFixed", .number .toFixed, 1), ("toExponential", .number .toExponential, 1),
    ("toPrecision", .number .toPrecision, 1), ("toString", .number .toText, 1),
    ("toLocaleString", .number .toLocaleText, 0), ("valueOf", .number .valueOf, 0)]

def booleanMethods : List MethodEntry :=
  [("toString", .boolean .toText, 0), ("valueOf", .boolean .valueOf, 0)]

/-- The names of the fields of a date, in the order in which they are read. -/
def readFields : List (String × DateField) :=
  [("FullYear", .year), ("Month", .month), ("Date", .day), ("Hours", .hours), ("Minutes", .minutes),
    ("Seconds", .seconds), ("Milliseconds", .milliseconds)]

/-- The names of the fields of a date, in the order in which they are written, with the number of fields. -/
def writtenFields : List (String × DateField × Nat) :=
  [("Milliseconds", .milliseconds, 1), ("Seconds", .seconds, 2), ("Minutes", .minutes, 3),
    ("Hours", .hours, 4), ("Date", .day, 1), ("Month", .month, 2), ("FullYear", .year, 3)]

def dateMethods : List MethodEntry :=
  (readFields.flatMap fun (name, field) =>
    [("get" ++ name, .date (.get field), 0), ("getUTC" ++ name, .date (.get field), 0)]) ++
  (writtenFields.flatMap fun (name, field, count) =>
    [("set" ++ name, .date (.set field), count), ("setUTC" ++ name, .date (.set field), count)]) ++
  [("toString", .date (.format .full), 0), ("toDateString", .date (.format .dateOnly), 0),
    ("toTimeString", .date (.format .timeOnly), 0), ("toLocaleString", .date (.format .locale), 0),
    ("toLocaleDateString", .date (.format .localeDate), 0),
    ("toLocaleTimeString", .date (.format .localeTime), 0), ("toUTCString", .date (.format .utc), 0),
    ("toGMTString", .date (.format .utc), 0), ("getDay", .date .getDay, 0), ("getUTCDay", .date .getDay, 0),
    ("getTime", .date .getTime, 0), ("valueOf", .date .getTime, 0),
    ("getTimezoneOffset", .date .getTimezoneOffset, 0), ("getYear", .date .getYear, 0),
    ("setYear", .date .setYear, 1), ("setTime", .date .setTime, 1)]

def regexpMethods : List MethodEntry :=
  [("exec", .regexp .exec, 1), ("test", .regexp .test, 1), ("toString", .regexp .toText, 0)]

def mathConstants : List (String × Float) :=
  [("E", 2.718281828459045), ("LN10", 2.302585092994046), ("LN2", 0.6931471805599453),
    ("LOG10E", 1.0 / 2.302585092994046), ("LOG2E", 1.0 / 0.6931471805599453), ("PI", 3.141592653589793),
    ("SQRT1_2", 0.7071067811865476), ("SQRT2", 1.4142135623730951)]

def mathMethods : List MethodEntry :=
  [("abs", .math (.unary .abs), 1), ("acos", .math (.unary .acos), 1), ("asin", .math (.unary .asin), 1),
    ("atan", .math (.unary .atan), 1), ("ceil", .math (.unary .ceil), 1), ("cos", .math (.unary .cos), 1),
    ("exp", .math (.unary .exp), 1), ("floor", .math (.unary .floor), 1), ("log", .math (.unary .log), 1),
    ("round", .math (.unary .round), 1), ("sin", .math (.unary .sin), 1), ("sqrt", .math (.unary .sqrt), 1),
    ("tan", .math (.unary .tan), 1), ("atan2", .math .atan2, 2), ("pow", .math .pow, 2),
    ("max", .math .max, 2), ("min", .math .min, 2), ("random", .math .random, 0)]

def consoleMethods : List MethodEntry :=
  ["log", "info", "warn", "error", "debug"].map fun name => (name, .log, 0)

def services : List (String × Service) :=
  [("print", .print), ("isNaN", .isNaN), ("isFinite", .isFinite), ("parseInt", .parseInt),
    ("parseFloat", .parseFloat), ("escape", .escape), ("unescape", .unescape)]

/-! ## Steps -/

/-- The prototypes, still without properties. -/
def prototypes (s : Store) : Store :=
  let root := some Realm.objectPrototype
  let add (proto : Option ObjectId) (b : Body) (s : Store) : Store := (s.addPlain proto b).2
  let s := add none .plain s
  let s := (s.addFunction Realm.objectPrototype [] 0 (.native (.function .blank))).2
  let s := (s.addArray root []).2
  let s := add root (.string []) s
  let s := add root (.number 0.0) s
  let s := add root (.boolean false) s
  let s := add root (.date Number.nan) s
  let s := add root .plain s
  let s := add root .plain s
  (Realm.errorKinds.drop 1).foldl (fun s _ => add (some (Realm.errorPrototype .error)) .plain s) s

/-- The constructor and the prototype of a family of errors. -/
def errorFamily (s : Store) (kind : ErrorKind) : Store :=
  let proto := Realm.errorPrototype kind
  let s := s.defineProperty proto Key.nameKey (.str kind.label)
  let s := s.defineProperty proto Key.message (.str [])
  constructor kind.label (.error (.construct kind)) 1 proto [] s

/-- The constants of numbers, as properties of their constructor. -/
def numberConstants (s : Store) : Store :=
  match s.get Realm.core (.name "Number") with
  | .obj o =>
    [("MAX_VALUE", 1.7976931348623157e308), ("MIN_VALUE", 5e-324), ("NaN", Number.nan),
      ("NEGATIVE_INFINITY", -Number.infinity), ("POSITIVE_INFINITY", Number.infinity)].foldl
      (fun s (name, x) => property o name (.num x) s) s
  | _ => s

/-- The object with the functions of numbers. -/
def mathObject (s : Store) : Store :=
  let (o, s) := s.addPlain (some Realm.objectPrototype) .math
  let s := mathConstants.foldl (fun s (name, x) => property o name (.num x) s) s
  builtin "Math" (.obj o) (methods o mathMethods s)

/-- The object with the printing functions. -/
def consoleObject (s : Store) : Store :=
  let (o, s) := s.addPlain (some Realm.objectPrototype) .plain
  builtin "console" (.obj o) (methods o consoleMethods s)

/-- Binds a function of the host under a name. -/
def service (name : Text) (f : Service) (s : Store) : ObjectId × Store :=
  let (o, s) := s.addFunction Realm.functionPrototype name 0 (.service f)
  (o, s.modifyFrame Realm.core (·.define (.ofText name) (.obj o)))

/-- The names that are bound beside the constructors. -/
def globals (s : Store) : Store :=
  let s := builtin "undefined" .undefined s
  let s := builtin "NaN" (.num Number.nan) s
  let s := builtin "Infinity" (.num Number.infinity) s
  let (eval, s) := s.addFunction Realm.functionPrototype "eval" 1 (.native .eval)
  let s := builtin "eval" (.obj eval) s
  services.foldl (fun s (name, f) => (service name f s).2) s

end Setup

open Setup in
/-- The store of a new engine. -/
def Store.initial (host : Host) : Store :=
  let s : Store := { frames := #[{ role := .core }], host }
  let s := prototypes s
  let s := constructor "Object" (.object .construct) 1 Realm.objectPrototype
    [("keys", .object .keys, 1), ("create", .object .create, 2)] s
  let s := methods Realm.objectPrototype objectMethods s
  let s := constructor "Function" (.function .construct) 1 Realm.functionPrototype [] s
  let s := methods Realm.functionPrototype functionMethods s
  let s := constructor "Array" (.array .construct) 1 Realm.arrayPrototype [("isArray", .array .isArray, 1)] s
  let s := methods Realm.arrayPrototype arrayMethods s
  let s := constructor "String" (.string .construct) 1 Realm.stringPrototype
    [("fromCharCode", .string .fromCharCode, 1)] s
  let s := methods Realm.stringPrototype stringMethods s
  let s := constructor "Number" (.number .construct) 1 Realm.numberPrototype [] s
  let s := methods Realm.numberPrototype numberMethods (numberConstants s)
  let s := constructor "Boolean" (.boolean .construct) 1 Realm.booleanPrototype [] s
  let s := methods Realm.booleanPrototype booleanMethods s
  let s := constructor "Date" (.date .construct) 7 Realm.datePrototype
    [("now", .date .now, 0), ("parse", .date .parse, 1), ("UTC", .date .utc, 7)] s
  let s := methods Realm.datePrototype dateMethods s
  let s := constructor "RegExp" (.regexp .construct) 2 Realm.regexpPrototype [] s
  let s := methods Realm.regexpPrototype regexpMethods s
  let s := Realm.errorKinds.foldl errorFamily s
  let s := methods (Realm.errorPrototype .error) [("toString", .error .toText, 0)] s
  globals (consoleObject (mathObject s))

end ScriptEngine
