import ScriptEngine.Machine.Action

/-!
# Settings

What can be set about an engine before it starts.
-/

namespace ScriptEngine

/-- The settings of an engine. -/
structure Settings where
  /-- The greatest number of statements on one counter; zero for no limit. -/
  stepLimit : Int := 0
  /-- The greatest number of nested calls. -/
  maxCallDepth : Int := 500
  /-- The room that the host makes for nested calls; zero to derive it. -/
  recursionLimit : Int := 0
  /-- Whether the built-in names and what they lead to are sealed. -/
  readOnlyCore : Bool := false
  /-- The number of statements from one trace line to the next; zero for no trace. -/
  traceInterval : Int := 0
  deriving Inhabited, DecidableEq

namespace Settings

/-- The room that nested calls need: forty places for each call and a thousand beside. -/
def neededRoom (c : Settings) : Int := c.maxCallDepth * 40 + 1000

/-- The room that the host makes for nested calls: what they need, unless it is set. -/
def hostRecursionLimit (c : Settings) : Int :=
  if c.recursionLimit ≠ 0 then c.recursionLimit else c.neededRoom

/-- The places that a nested construction takes at least when it runs source text. -/
def placesPerConstruction : Nat := 12

/-- The limits of the runs of an engine. That on nested constructions stands for the limit of the host on recursion and
is an upper bound: the host raises its limit to the one of the settings, but does not lower it, and it may run out of
room before so many constructions are nested. -/
def limits (c : Settings) : Limits :=
  { steps := c.stepLimit, depth := c.maxCallDepth, trace := c.traceInterval
    stack := (max c.hostRecursionLimit c.neededRoom).toNat / placesPerConstruction }

/-- The settings on one line. -/
def text (c : Settings) : Text :=
  "EngineConfig(step_limit=" ++ Text.ofInt c.stepLimit ++ ", max_call_depth=" ++ Text.ofInt c.maxCallDepth ++
    ", recursion_limit=" ++ Text.ofInt c.recursionLimit ++ ", read_only_core=" ++
    (if c.readOnlyCore then Text.ofString "True" else "False") ++ ", trace_interval=" ++
    Text.ofInt c.traceInterval ++ ")"

end Settings

end ScriptEngine
