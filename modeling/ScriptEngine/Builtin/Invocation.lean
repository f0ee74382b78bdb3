import ScriptEngine.Machine.Convert

/-!
# Invocations

What a built-in function is told when it is called. A missing argument reads as `undefined`.
-/

namespace ScriptEngine

/-- A call of a built-in function. -/
structure Invocation where
  /-- The scope from which the call is made; there is none when the engine itself calls. -/
  invoker : Option FrameId
  /-- The receiver. -/
  this : Value
  /-- The arguments. -/
  args : List Value

namespace Invocation

/-- An argument by its position. -/
def arg (i : Invocation) (n : Nat) : Value := i.args.getD n .undefined

end Invocation

namespace Proc

/-- The elements of something like an array, for a list of arguments. -/
def listFrom (v : Value) : Proc (List Value) := do
  if v.isNullish then return []
  match v with
  | .obj o =>
    if (← body o).isArray then read (·.arrayItems o)
    else
      let n ← toUint32 (← read (·.getProperty o Key.length))
      read fun s => (List.range n).map fun i => s.getProperty o (.index i)
  | _ => typeError "argument list must be an array-like object"

/-- An argument that says where a part begins or ends: negative numbers count from the end, and the result
lies between zero and the length. -/
def relativeIndex (v : Value) (length default : Nat) : Proc Nat := do
  if v.isUndefined then return default
  match Number.whole (← toNumber v) with
  | .finite n => return if n < 0 then (length + n).toNat else min n.toNat length
  | .infinite negative => return if negative then 0 else length

/-- An argument that says how many or where: at least zero and at most `most`. -/
def boundedIndex (v : Value) (most : Nat) : Proc Nat := do
  match Number.whole (← toNumber v) with
  | .finite n => return min n.toNat most
  | .infinite negative => return if negative then 0 else most

end Proc

end ScriptEngine
