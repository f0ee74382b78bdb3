import ScriptEngine.Bench
import ScriptEngine.Builtin.Array
import ScriptEngine.Builtin.Boxes
import ScriptEngine.Builtin.Date
import ScriptEngine.Builtin.Function
import ScriptEngine.Builtin.Invocation
import ScriptEngine.Builtin.Math
import ScriptEngine.Builtin.Name
import ScriptEngine.Builtin.Native
import ScriptEngine.Builtin.Object
import ScriptEngine.Builtin.RegExp
import ScriptEngine.Builtin.Service
import ScriptEngine.Builtin.Setup
import ScriptEngine.Builtin.Sorting
import ScriptEngine.Builtin.String
import ScriptEngine.Calendar.Civil
import ScriptEngine.Calendar.Reader
import ScriptEngine.Calendar.Time
import ScriptEngine.Engine
import ScriptEngine.Eval.Call
import ScriptEngine.Eval.Completion
import ScriptEngine.Eval.Exec
import ScriptEngine.Grammar.Escape
import ScriptEngine.Grammar.Parser
import ScriptEngine.Grammar.Program
import ScriptEngine.Grammar.Token
import ScriptEngine.Grammar.Tree
import ScriptEngine.Heap.Frame
import ScriptEngine.Heap.Object
import ScriptEngine.Heap.Portrait
import ScriptEngine.Heap.Store
import ScriptEngine.Heap.Value
import ScriptEngine.Key
import ScriptEngine.Key.Interner
import ScriptEngine.Machine.Action
import ScriptEngine.Machine.Convert
import ScriptEngine.Machine.Fault
import ScriptEngine.Machine.Operator
import ScriptEngine.Machine.Place
import ScriptEngine.Machine.Proc
import ScriptEngine.Machine.Realm
import ScriptEngine.Machine.Run
import ScriptEngine.Number.Binary
import ScriptEngine.Number.Decimal
import ScriptEngine.Number.Integer
import ScriptEngine.Number.Layout
import ScriptEngine.Number.Word
import ScriptEngine.Pattern.Matcher
import ScriptEngine.Pattern.Parser
import ScriptEngine.Pattern.Regex
import ScriptEngine.Pattern.Search
import ScriptEngine.Pattern.Source
import ScriptEngine.Pattern.Template
import ScriptEngine.Proofs.Answers
import ScriptEngine.Proofs.Assignment
import ScriptEngine.Proofs.Atomicity
import ScriptEngine.Proofs.Binding
import ScriptEngine.Proofs.Builtins
import ScriptEngine.Proofs.Calendar
import ScriptEngine.Proofs.Carry
import ScriptEngine.Proofs.Comparison
import ScriptEngine.Proofs.Compound
import ScriptEngine.Proofs.Conduct
import ScriptEngine.Proofs.Cursor
import ScriptEngine.Proofs.Cutoff
import ScriptEngine.Proofs.DateText
import ScriptEngine.Proofs.Decimals
import ScriptEngine.Proofs.Decisions
import ScriptEngine.Proofs.Declarations
import ScriptEngine.Proofs.Depth
import ScriptEngine.Proofs.Doubles
import ScriptEngine.Proofs.Edits
import ScriptEngine.Proofs.Enumeration
import ScriptEngine.Proofs.Equality
import ScriptEngine.Proofs.ExponentForm
import ScriptEngine.Proofs.Finally
import ScriptEngine.Proofs.HeldKeys
import ScriptEngine.Proofs.HexEscapes
import ScriptEngine.Proofs.Holes
import ScriptEngine.Proofs.Instants
import ScriptEngine.Proofs.Jumps
import ScriptEngine.Proofs.Layout
import ScriptEngine.Proofs.Lengths
import ScriptEngine.Proofs.Links
import ScriptEngine.Proofs.ListMethods
import ScriptEngine.Proofs.Lossless
import ScriptEngine.Proofs.Lowered
import ScriptEngine.Proofs.Marks
import ScriptEngine.Proofs.Matches
import ScriptEngine.Proofs.Membership
import ScriptEngine.Proofs.Merging
import ScriptEngine.Proofs.Mirrors
import ScriptEngine.Proofs.Names
import ScriptEngine.Proofs.NumberKeys
import ScriptEngine.Proofs.NumberText
import ScriptEngine.Proofs.Numerals
import ScriptEngine.Proofs.Operations
import ScriptEngine.Proofs.OwnKeys
import ScriptEngine.Proofs.PatternSource
import ScriptEngine.Proofs.Places
import ScriptEngine.Proofs.Precedence
import ScriptEngine.Proofs.Precision
import ScriptEngine.Proofs.Programs
import ScriptEngine.Proofs.PushPop
import ScriptEngine.Proofs.Radix
import ScriptEngine.Proofs.Reach
import ScriptEngine.Proofs.Reading
import ScriptEngine.Proofs.Record
import ScriptEngine.Proofs.Replacement
import ScriptEngine.Proofs.Rounding
import ScriptEngine.Proofs.Run
import ScriptEngine.Proofs.Scopes
import ScriptEngine.Proofs.SealSpread
import ScriptEngine.Proofs.Sealing
import ScriptEngine.Proofs.Setters
import ScriptEngine.Proofs.Setup
import ScriptEngine.Proofs.Shortest
import ScriptEngine.Proofs.Shown
import ScriptEngine.Proofs.Slots
import ScriptEngine.Proofs.SortedArrays
import ScriptEngine.Proofs.Sorting
import ScriptEngine.Proofs.Splitting
import ScriptEngine.Proofs.Stepping
import ScriptEngine.Proofs.StringLiterals
import ScriptEngine.Proofs.Termination
import ScriptEngine.Proofs.TextFunctions
import ScriptEngine.Proofs.ThrowForms
import ScriptEngine.Proofs.Words
import ScriptEngine.Session
import ScriptEngine.Settings
import ScriptEngine.Settings.Document
import ScriptEngine.Settings.Reader
import ScriptEngine.Text.Basic
import ScriptEngine.Text.Case
import ScriptEngine.Text.Class
import ScriptEngine.Text.Name
import ScriptEngine.Text.Quoted
