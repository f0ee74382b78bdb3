import ScriptEngine.Builtin.Array
import ScriptEngine.Builtin.Boxes
import ScriptEngine.Builtin.Date
import ScriptEngine.Builtin.Function
import ScriptEngine.Builtin.Math
import ScriptEngine.Builtin.Object
import ScriptEngine.Builtin.Service
import ScriptEngine.Builtin.String

/-!
# What built-in functions do

One function that finds the family of a built-in function, and one for those that construct objects in a
way of their own.
-/

namespace ScriptEngine

namespace Native

open Proc

/-- What a built-in function does when it is called. -/
def invoke (n : Native) (i : Invocation) : Proc Value :=
  match n with
  | object f => f.invoke i
  | function f => f.invoke i
  | array f => f.invoke i
  | string f => f.invoke i
  | number f => f.invoke i
  | boolean f => f.invoke i
  | date f => f.invoke i
  | regexp f => f.invoke i
  | error f => f.invoke i
  | math f => f.invoke i
  | log => Service.printLine i.args
  | eval => evalSource i

/-- What a built-in constructor does under `new`; the other functions construct like those of a script. -/
def construct? (n : Native) (i : Invocation) : Option (Proc Value) :=
  match n with
  | object .construct => some (ObjectFn.make (i.arg 0))
  | function .construct => some (functionFromTexts i)
  | array .construct => some (Arrays.make i.args)
  | string .construct => some do newBox (.string (← Strings.ofArgs i.args))
  | number .construct => some do newBox (.number (← NumberFn.ofArgs i.args))
  | boolean .construct => some (newBox (.boolean (i.arg 0).toBoolean))
  | date .construct => some do newBox (.date (Time.clip (← Dates.ofArgs i.args)))
  | regexp .construct => some (RegExpFn.make (i.arg 0) (i.arg 1))
  | error (.construct kind) => some (ErrorFn.make kind (i.arg 0))
  | _ => none

end Native

end ScriptEngine
