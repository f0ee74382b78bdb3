import ScriptEngine.Machine.Proc

/-!
# Completions

How a statement ends: normally, with a jump that some construct around it takes, or with a thrown value. A
normal end and the jumps inside a function carry the value of the last expression statement, if there was
one.

## Main definitions

* `Completion`: the ways to end.
* `Completion.afterRound`: what the end of its body means for a loop.
-/

namespace ScriptEngine

/-- How a statement ends. -/
inductive Completion where
  | normal (v : Option Value)
  | breaks (v : Option Value) (label : Option Text)
  | continues (v : Option Value) (label : Option Text)
  | returns (v : Value)
  | throws (v : Value)
  deriving Inhabited

namespace Completion

/-- Whether a jump is meant for a loop with the given labels. -/
def isFor (labels : List Text) : Option Text → Bool
  | none => true
  | some l => labels.contains l

/-- What the end of its body means for a loop: another round with the latest value, or the end of the
loop. A jump that is not for this loop leaves it unchanged. -/
def afterRound (labels : List Text) (latest : Option Value) : Completion → Proc.Round (Option Value) Completion
  | normal v => .again (v.or latest)
  | breaks v l => if isFor labels l then .done (normal (v.or latest)) else .done (breaks v l)
  | continues v l => if isFor labels l then .again (v.or latest) else .done (continues v l)
  | returns v => .done (returns v)
  | throws v => .done (throws v)

/-- What the end of one of its statements means for a list of statements. A `break` or `continue` takes the
latest value along if it has none. -/
def afterStatement (latest : Option Value) : Completion → Proc.Round (Option Value) Completion
  | normal v => .again (v.or latest)
  | breaks v l => .done (breaks (v.or latest) l)
  | continues v l => .done (continues (v.or latest) l)
  | returns v => .done (returns v)
  | throws v => .done (throws v)

/-- The end of a statement with the given label: a `break` to that label ends here. -/
def afterLabel (label : Text) : Completion → Completion
  | breaks v (some l) => if l = label then normal v else breaks v (some l)
  | c => c

/-- The end of a `switch`: a `break` without a label ends here. -/
def afterSwitch : Completion → Completion
  | breaks v none => normal v
  | c => c

/-- A caught value as the end of a statement. -/
def ofAttempt : Except Value Completion → Completion
  | .ok c => c
  | .error v => throws v

end Completion

end ScriptEngine
