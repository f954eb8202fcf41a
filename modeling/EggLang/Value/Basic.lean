/-
  EggLang.Value.Basic — what programs compute with, and how it is displayed.

  A value is a number, a text, one of the two flags, an array, or a function: a closure made by a
  program (`UserClosure`), or one of the eleven builtins (`BUILTINS`). A closure keeps its
  parameters, its body and the frame it was made in; it is told from other closures by its identity
  alone, which no two closures share.

  The text of a value is what `print` and the command line write (`to_display`). A double that is an
  integer is written as one, so equal numbers have one text; texts are written bare, but between
  quotes inside an array (`_to_element`); functions are written as `fun(a, b)` and `builtin(+)`. An
  integer with more digits than may be written is a fault that tells how many bits it has, wherever
  in an array it stands: the leftmost such integer is the one reported.

  Each level of arrays takes four steps of the depth budget: the display of the array, the joining
  of its items, the pass over them, and the item.
-/

import EggLang.Program.Expr

namespace EggLang

open EggLang.Numeric EggLang.Program

/-- The place of a frame among the frames of a store. -/
abbrev FrameId := Nat

structure Closure where
  identity : Nat
  params : List String
  body : Expr
  /-- The frame in which the closure was made. -/
  frame : FrameId
  deriving DecidableEq

inductive Builtin where
  | arithmetic (op : Arithmetic)
  | equal
  | compare (op : Comparison)
  | print
  | array
  | length
  | element
  deriving DecidableEq

namespace Builtin

/-- The builtins in the order in which a top frame holds them. -/
def all : List Builtin :=
  [.arithmetic .add, .arithmetic .sub, .arithmetic .mul, .arithmetic .div, .equal, .compare .less, .compare .greater,
   .print, .array, .length, .element]

def name : Builtin → String
  | .arithmetic op => op.symbol
  | .equal => "=="
  | .compare op => op.symbol
  | .print => "print"
  | .array => "array"
  | .length => "length"
  | .element => "element"

/-- The number of arguments a builtin takes; `array` takes any number. -/
def arity : Builtin → Option Nat
  | .arithmetic _ | .equal | .compare _ | .element => some 2
  | .print | .length => some 1
  | .array => none

end Builtin

inductive Value where
  | number (n : Number)
  | text (s : String)
  | flag (b : Bool)
  | array (items : List Value)
  | closure (c : Closure)
  | builtin (b : Builtin)
  deriving Inhabited

def Value.int (n : Int) : Value := .number (.int n)

/-- Only the flag false is false. -/
def Value.isFalse : Value → Bool
  | .flag false => true
  | _ => false

/-! ## Display -/

def displayInteger (n : Int) : Except Stop String :=
  if isOverlong n then .error (.fault (.numberTooLong (bitLength n.natAbs))) else .ok (integerText n)

def displayNumber : Number → Except Stop String
  | .int n => displayInteger n
  | .float x =>
    match x.integer? with
    | some n => displayInteger n
    | none => .ok x.text

def Closure.display (c : Closure) : String := "fun(" ++ ", ".intercalate c.params ++ ")"

def Builtin.display (b : Builtin) : String := "builtin(" ++ b.name ++ ")"

namespace Value

/-- The text of a value inside an array: a text keeps its quotes there. -/
def asItem (v : Value) (shown : String) : String :=
  match v with
  | .text _ => "\"" ++ shown ++ "\""
  | _ => shown

mutual

def display (depth : Nat) (v : Value) : Except Stop String :=
  if depth = 0 then .error .depth
  else
    match v with
    | .number n => displayNumber n
    | .text s => .ok s
    | .flag b => .ok (if b then "true" else "false")
    | .array items => do
      let parts ← displayItems (depth - 4) items
      return "[" ++ ", ".intercalate parts ++ "]"
    | .closure c => .ok c.display
    | .builtin b => .ok b.display

def displayItems (depth : Nat) (items : List Value) : Except Stop (List String) :=
  match items with
  | [] => .ok []
  | v :: rest => do
    let first ← display depth v
    let others ← displayItems depth rest
    return v.asItem first :: others

end

end Value

end EggLang
