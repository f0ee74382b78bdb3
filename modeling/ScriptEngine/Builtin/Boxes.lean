import ScriptEngine.Builtin.Invocation

/-!
# Functions around numbers, truth values and errors
-/

namespace ScriptEngine

open Proc

/-- A new object for a primitive value. -/
def newBox (b : Boxed) : Proc Value := do return .obj (← perform (.newBoxed b))

namespace NumberFn

/-- The number of the receiver; `what` names the method. -/
def number (what : String) (this : Value) : Proc Float := do
  let wrong : Proc Float :=
    typeError ("Number.prototype." ++ Text.ofString what ++ " requires that 'this' be a Number")
  match this with
  | .num x => return x
  | .obj o =>
    match ← body o with
    | .number x => return x
    | _ => wrong
  | _ => wrong

/-- An argument that has to lie between two bounds. -/
def digits (what : String) (least most : Nat) (v : Value) : Proc Nat := do
  let d ← toInteger v
  if Number.ofNat least ≤ d && d ≤ Number.ofNat most then return (Number.truncate d).toNat
  else
    rangeError (Text.ofString what ++ "() argument must be between " ++ Text.ofNat least ++ " and " ++
      Text.ofNat most)

/-- The number of the first argument, zero if there is none. -/
def ofArgs (args : List Value) : Proc Float :=
  match args with
  | [] => return 0.0
  | v :: _ => toNumber v

/-- What a function around numbers does. -/
def invoke (f : NumberFn) (i : Invocation) : Proc Value := do
  match f with
  | construct => return .num (← ofArgs i.args)
  | toFixed =>
    let x ← number "toFixed" i.this
    match Number.toFixed? x (← digits "toFixed" 0 100 (i.arg 0)) with
    | some t => return .str t
    | none => fault .tooManyDigits
  | toExponential =>
    let x ← number "toExponential" i.this
    if (i.arg 0).isUndefined then return .str (Number.toExponential x none)
    else return .str (Number.toExponential x (some (← digits "toExponential" 0 100 (i.arg 0))))
  | toPrecision =>
    let x ← number "toPrecision" i.this
    if (i.arg 0).isUndefined then return .str (Number.toText x)
    else return .str (Number.toPrecision x (← digits "toPrecision" 1 100 (i.arg 0)))
  | toText =>
    let x ← number "toString" i.this
    let radix ← if (i.arg 0).isUndefined then pure 10.0 else toInteger (i.arg 0)
    if 2 ≤ radix && radix ≤ 36 then return .str (Number.toRadix x (Number.truncate radix).toNat)
    else rangeError "toString() radix must be between 2 and 36"
  | toLocaleText => return .str (Number.toText (← number "toLocaleString" i.this))
  | valueOf => return .num (← number "valueOf" i.this)

end NumberFn

namespace BooleanFn

/-- The truth value of the receiver. -/
def truth (this : Value) : Proc Bool := do
  let wrong : Proc Bool := typeError "Boolean.prototype method requires that 'this' be a Boolean"
  match this with
  | .bool b => return b
  | .obj o =>
    match ← body o with
    | .boolean b => return b
    | _ => wrong
  | _ => wrong

/-- What a function around truth values does. -/
def invoke (f : BooleanFn) (i : Invocation) : Proc Value := do
  match f with
  | construct => return .bool (i.arg 0).toBoolean
  | toText => return if ← truth i.this then "true" else "false"
  | valueOf => return .bool (← truth i.this)

end BooleanFn

namespace ErrorFn

/-- The text of a property of an error; `absent` if it is undefined. -/
def part (o : ObjectId) (k : Key) (absent : Text) : Proc Text := do
  let v ← read (·.getProperty o k)
  if v.isUndefined then return absent else Proc.toText v

/-- A new error with the given message. -/
def make (kind : ErrorKind) (message : Value) : Proc Value := do
  let text ← if message.isUndefined then pure none else do pure (some (← Proc.toText message))
  return .obj (← perform (.newError kind text))

/-- What a function around errors does. -/
def invoke (f : ErrorFn) (i : Invocation) : Proc Value := do
  match f with
  | construct kind => make kind (i.arg 0)
  | toText =>
    match i.this with
    | .obj o =>
      let name ← part o Key.nameKey "Error"
      let message ← part o Key.message []
      if name.isEmpty then return .str message
      else if message.isEmpty then return .str name
      else return .str (name ++ ": " ++ message)
    | _ => typeError "Error.prototype.toString called on non-object"

end ErrorFn

end ScriptEngine
