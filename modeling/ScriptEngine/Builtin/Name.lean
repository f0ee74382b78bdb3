/-!
# Built-in functions by name

One constructor for each function that the engine provides. What a function does stands in the module of
its family; here are only the names, so that function objects in the store can say which one they are.

## Main definitions

* `Native`: the functions that know their receiver.
* `Service`: the functions of the host, which see the caller's scope and the arguments only.
-/

namespace ScriptEngine

/-- The families of errors. -/
inductive ErrorKind where
  | error
  | typeError
  | syntaxError
  | rangeError
  | referenceError
  | uriError
  | evalError
  deriving DecidableEq, Repr, Inhabited

/-- The fields of a date, from the year down to the milliseconds. -/
inductive DateField where
  | year
  | month
  | day
  | hours
  | minutes
  | seconds
  | milliseconds
  deriving DecidableEq, Repr, Inhabited

/-- The position of a field, counted from the year. -/
def DateField.position : DateField → Nat
  | year => 0
  | month => 1
  | day => 2
  | hours => 3
  | minutes => 4
  | seconds => 5
  | milliseconds => 6

/-- The written forms of a date. -/
inductive DateStyle where
  | full
  | dateOnly
  | timeOnly
  | locale
  | localeDate
  | localeTime
  | utc
  deriving DecidableEq, Repr, Inhabited

/-- The functions around `Object`. -/
inductive ObjectFn where
  | construct
  | keys
  | create
  | hasOwnProperty
  | isPrototypeOf
  | propertyIsEnumerable
  | toText
  | toLocaleText
  | valueOf
  deriving DecidableEq, Inhabited

/-- The functions around `Function`. -/
inductive FunctionFn where
  /-- The prototype of functions, itself a function that does nothing. -/
  | blank
  | construct
  | call
  | apply
  | bind
  | toText
  deriving DecidableEq, Inhabited

/-- The functions around `Array`. -/
inductive ArrayFn where
  | construct
  | isArray
  | concat
  | join
  | pop
  | push
  | reverse
  | shift
  | slice
  | sort
  | splice
  | unshift
  | indexOf
  | lastIndexOf
  | toText
  | forEach
  | map
  | filter
  | every
  | some
  | reduce
  deriving DecidableEq, Inhabited

/-- The functions around `String`. -/
inductive StringFn where
  | construct
  | fromCharCode
  | charAt
  | charCodeAt
  | concat
  | indexOf
  | lastIndexOf
  | localeCompare
  | match
  | replace
  | search
  | slice
  | split
  | substr
  | substring
  | toLowerCase
  | toUpperCase
  | valueOf
  deriving DecidableEq, Inhabited

/-- The functions around `Number`. -/
inductive NumberFn where
  | construct
  | toFixed
  | toExponential
  | toPrecision
  | toText
  | toLocaleText
  | valueOf
  deriving DecidableEq, Inhabited

/-- The functions around `Boolean`. -/
inductive BooleanFn where
  | construct
  | toText
  | valueOf
  deriving DecidableEq, Inhabited

/-- The functions around `Date`. -/
inductive DateFn where
  | construct
  | now
  | parse
  | utc
  | get (field : DateField)
  | set (field : DateField)
  | format (style : DateStyle)
  | getDay
  | getTime
  | getTimezoneOffset
  | getYear
  | setYear
  | setTime
  deriving DecidableEq, Inhabited

/-- The functions around `RegExp`. -/
inductive RegExpFn where
  | construct
  | exec
  | test
  | toText
  deriving DecidableEq, Inhabited

/-- The functions around the errors. -/
inductive ErrorFn where
  | construct (kind : ErrorKind)
  | toText
  deriving DecidableEq, Inhabited

/-- The functions of one number. -/
inductive UnaryMath where
  | abs
  | acos
  | asin
  | atan
  | ceil
  | cos
  | exp
  | floor
  | log
  | round
  | sin
  | sqrt
  | tan
  deriving DecidableEq, Inhabited

/-- The functions of `Math`. -/
inductive MathFn where
  | unary (f : UnaryMath)
  | atan2
  | pow
  | max
  | min
  | random
  deriving DecidableEq, Inhabited

/-- The functions that know their receiver. -/
inductive Native where
  | object (f : ObjectFn)
  | function (f : FunctionFn)
  | array (f : ArrayFn)
  | string (f : StringFn)
  | number (f : NumberFn)
  | boolean (f : BooleanFn)
  | date (f : DateFn)
  | regexp (f : RegExpFn)
  | error (f : ErrorFn)
  | math (f : MathFn)
  /-- The printing methods of `console`. -/
  | log
  /-- Running source text in the caller's scope. -/
  | eval
  deriving DecidableEq, Inhabited

/-- The functions of the host. The last five are there for a host to register under names of its own. -/
inductive Service where
  | print
  | isNaN
  | isFinite
  | parseInt
  | parseFloat
  | escape
  | unescape
  /-- The number of arguments. -/
  | argumentCount
  /-- Nothing at all. -/
  | nothing
  /-- The first argument. -/
  | firstArgument
  /-- The difference of exactly two arguments. -/
  | difference
  /-- The name of the function from which the call is made. -/
  | callerName
  deriving DecidableEq, Inhabited

end ScriptEngine
