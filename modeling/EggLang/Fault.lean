/-
  EggLang.Fault — what can go wrong in a program, and how it is told.

  A `Fault` is a cause. Its `kind` is one of the five `EggError` classes and its `message` one line
  of text; the two together are what a user is shown (`Fault.report`).

  A computation can also stop for a reason that is no fault of the program's text or values
  (`Stop`): an integer too long to be written stands in a message, the depth budget is used up, or a
  loop has used up its turns.
-/

import EggLang.Numeric
import EggLang.Text

namespace EggLang

open EggLang.Text EggLang.Numeric

/-! ## Operators -/

/-- The four builtins that compute with numbers; the first also joins texts. -/
inductive Arithmetic where
  | add
  | sub
  | mul
  | div
  deriving DecidableEq

def Arithmetic.symbol : Arithmetic → String
  | .add => "+"
  | .sub => "-"
  | .mul => "*"
  | .div => "/"

inductive Comparison where
  | less
  | greater
  deriving DecidableEq

def Comparison.symbol : Comparison → String
  | .less => "<"
  | .greater => ">"

/-! ## Faults -/

inductive FaultKind where
  | grammar
  | reference
  | typing
  | runtime
  | recursion
  deriving DecidableEq

def FaultKind.label : FaultKind → String
  | .grammar => "EggSyntaxError"
  | .reference => "EggReferenceError"
  | .typing => "EggTypeError"
  | .runtime => "EggRuntimeError"
  | .recursion => "EggRecursionError"

/-- Causes. A value in a cause stands in its display form, an expression in its written form. -/
inductive Fault where
  /-- No token begins the text. -/
  | noToken (rest : String)
  /-- A number is written with too many digits. -/
  | literalTooLong (digits : String)
  /-- The text ends inside an argument list. -/
  | unclosedList
  /-- An argument is followed by neither a comma nor the end of its list. -/
  | noSeparator (rest : String)
  /-- Text follows the expression that is the program. -/
  | trailingText (rest : String)
  | malformedDefine
  | malformedSet
  | malformedIf
  | malformedWhile
  | functionWithoutBody
  | parameterNotWord (written : String)
  | unbound (name : String)
  | settingUnbound (name : String)
  | notFunction (written : String)
  /-- A leaf of the tree is no expression. -/
  | notExpression (inspected : String)
  | argumentCount (callee : String) (expected got : Nat)
  | notNumbers (op : Arithmetic) (left right : String)
  | notOrdered (op : Comparison) (left right : String)
  | lengthOfNonSequence (shown : String)
  | elementOfNonSequence (shown : String)
  | indexNotInteger (shown : String)
  | outOfRange (op : Arithmetic) (cause : RangeFault)
  | divisionByZero
  | indexOutOfRange (index : Int) (length : Nat)
  | numberTooLong (bits : Nat)
  | depthExceeded
  deriving DecidableEq

namespace Fault

def kind : Fault → FaultKind
  | .noToken _ | .literalTooLong _ | .unclosedList | .noSeparator _ | .trailingText _ => .grammar
  | .malformedDefine | .malformedSet | .malformedIf | .malformedWhile => .grammar
  | .functionWithoutBody | .parameterNotWord _ => .grammar
  | .unbound _ | .settingUnbound _ => .reference
  | .notFunction _ | .notExpression _ | .argumentCount .. | .notNumbers .. | .notOrdered .. => .typing
  | .lengthOfNonSequence _ | .elementOfNonSequence _ | .indexNotInteger _ => .typing
  | .outOfRange .. | .divisionByZero | .indexOutOfRange .. | .numberTooLong _ => .runtime
  | .depthExceeded => .recursion

def excerpt (s : String) : String := String.ofList (s.toList.take 20)

def message : Fault → String
  | .noToken rest => "Unexpected syntax: " ++ quote rest
  | .literalTooLong digits => "Number literal too long: " ++ excerpt digits ++ "..."
  | .unclosedList => "Expected ')' before end of input"
  | .noSeparator rest => "Expected ',' or ')' at " ++ quote (excerpt rest)
  | .trailingText rest => "Unexpected text after program: " ++ quote (excerpt rest)
  | .malformedDefine => "Incorrect use of define"
  | .malformedSet => "Incorrect use of set: set(name, value)"
  | .malformedIf => "Wrong number of args to if"
  | .malformedWhile => "Wrong number of args to while"
  | .functionWithoutBody => "Incorrect use of fun: functions need a body"
  | .parameterNotWord e => "Incorrect use of fun: parameter names must be words, got " ++ e
  | .unbound x => "Undefined binding: " ++ x
  | .settingUnbound x => "Setting undefined binding: " ++ x
  | .notFunction e => "Applying a non-function: " ++ e
  | .notExpression v => "Cannot evaluate " ++ v
  | .argumentCount callee expected got =>
    "Wrong number of arguments to " ++ callee ++ ": expected " ++ naturalText expected ++ ", got " ++ naturalText got
  | .notNumbers op a b => "Arguments to " ++ op.symbol ++ " must be numbers, got " ++ a ++ " and " ++ b
  | .notOrdered op a b => "Cannot compare " ++ a ++ " " ++ op.symbol ++ " " ++ b
  | .lengthOfNonSequence v => "length expects an array or string, got " ++ v
  | .elementOfNonSequence v => "element expects an array or string, got " ++ v
  | .indexNotInteger v => "element index must be an integer, got " ++ v
  | .outOfRange op cause => "Result of " ++ op.symbol ++ " is out of range: " ++ cause.message
  | .divisionByZero => "Division by zero"
  | .indexOutOfRange i n => "Index " ++ integerText i ++ " out of range for length " ++ naturalText n
  | .numberTooLong bits => "Number too large to display (" ++ naturalText bits ++ " bits)"
  | .depthExceeded => "Maximum evaluation depth exceeded"

def report (f : Fault) : String := f.kind.label ++ ": " ++ f.message

end Fault

inductive Stop where
  | fault (f : Fault)
  /-- A message needs an integer that has more digits than may be written. -/
  | overlong
  /-- The depth budget is used up. -/
  | depth
  /-- A loop has used up its turns. -/
  | turns
  deriving DecidableEq

abbrev fail {α : Type} (f : Fault) : Except Stop α := .error (.fault f)

end EggLang
