import ScriptEngine.Heap.Store
import ScriptEngine.Grammar.Escape

/-!
# Faults

What ends a run without the script being able to notice: neither a handler nor a last part of a `try`
statement runs after a fault. Each fault is named for its cause; the text of those that carry a message
stands in `Fault.message?`.
-/

namespace ScriptEngine

/-- The jumps that a statement can end with. -/
inductive JumpKind where
  | breaks
  | continues
  | returns
  deriving DecidableEq, Repr, Inhabited

/-- The word for a jump. -/
def JumpKind.label : JumpKind → String
  | breaks => "break"
  | continues => "continue"
  | returns => "return"

/-- Why a run ended before its time. -/
inductive Fault where
  /-- A change to a sealed frame. -/
  | sealed (key : Key)
  /-- A jump left the program. -/
  | strayJump (jump : JumpKind)
  /-- A jump other than `return` left the function of the given name. -/
  | strayJumpInFunction (jump : JumpKind) (function : Text)
  /-- The right operand of `instanceof` cannot be called; its type is given. -/
  | instanceOfTarget (typeName : Text)
  /-- More nested calls than the limit. -/
  | tooDeep (limit : Int)
  /-- More nested constructions than the stack of the host has room for. -/
  | stackFull
  /-- More statements than the limit. -/
  | tooLong (count : Nat)
  /-- A function of the host was called with a wrong number of arguments. -/
  | wrongArgumentCount
  /-- A literal denotes no value. -/
  | literal (e : LiteralError)
  /-- An integer is too large for a double. -/
  | integerTooLarge
  /-- An infinite number was used as a position. -/
  | infinitePosition
  /-- A repetition count of a pattern is too large. -/
  | repetitionTooLarge
  /-- A pattern asks for the letters of ASCII and for those of all scripts. -/
  | mixedAlphabets
  /-- Digits that a number was to be read from are not digits of its base. -/
  | unreadableDigits
  /-- A number with a fixed number of places would have too many digits. -/
  | tooManyDigits
  /-- A local time lies too early for the host. -/
  | timeTooEarly
  /-- A scope without built-in names was to run a program. -/
  | detachedScope
  /-- A tree is no program. -/
  | malformedTree
  deriving Inhabited

/-- The message of a fault that has one. -/
def Fault.message? : Fault → Option Text
  | sealed key => some ("cannot modify '" ++ key.text ++ "' of a read-only environment")
  | strayJump jump => some ("illegal " ++ Text.ofString jump.label ++ " statement outside of its target")
  | strayJumpInFunction jump function =>
    some ("illegal " ++ Text.ofString jump.label ++ " statement in function " ++
      if function.isEmpty then Text.ofString "<anon>" else function)
  | instanceOfTarget typeName => some ("right-hand side of 'instanceof' is not callable: " ++ typeName)
  | tooDeep limit => some ("maximum call depth " ++ Text.ofInt limit ++ " exceeded")
  | stackFull => some "host recursion limit exceeded"
  | tooLong count => some ("execution limit exceeded (" ++ Text.ofNat count ++ " statements)")
  | _ => none

end ScriptEngine
