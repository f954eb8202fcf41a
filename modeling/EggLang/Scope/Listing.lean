/-
  EggLang.Scope.Listing — values and frames in writing.

  A listing tells values apart that `print` does not: texts stand between quotes, doubles keep their
  point, flags begin with a capital letter, and a function is shown with all it is made of, but for
  the frame of a closure. An integer that is too long to be written makes the listing impossible.
  Each level of arrays takes one step of the depth budget.

  A frame is listed as its names with their values, in order, between braces. The short form of a
  frame (`summary`, the `__str__` of `Environment`) ends with an arrow when there is a frame outside
  it; the long form (`listing`, its `__repr__`) lists the whole chain outwards.
-/

import EggLang.Scope.Store

namespace EggLang

open EggLang.Numeric EggLang.Program EggLang.Text

/-! ## Values -/

def Builtin.label : Builtin → String
  | .arithmetic .add => "add"
  | .arithmetic .sub => "sub"
  | .arithmetic .mul => "mul"
  | .arithmetic .div => "div"
  | .equal => "equals"
  | .compare .less => "lt"
  | .compare .greater => "gt"
  | .print => "print_builtin"
  | .array => "array"
  | .length => "length"
  | .element => "element"

def Builtin.inspected (b : Builtin) : String :=
  let arity := match b.arity with
    | some n => naturalText n
    | none => "None"
  "Builtin(name=" ++ quote b.name ++ ", fn=<function " ++ b.label ++ ">, arity=" ++ arity ++ ")"

def Closure.inspected (c : Closure) : String :=
  "UserClosure(params=" ++ Expr.tuple (c.params.map quote) ++ ", body=" ++ c.body.inspected ++ ")"

namespace Value

mutual

def inspect (depth : Nat) (v : Value) : Except Stop String :=
  if depth = 0 then .error .depth
  else
    match v with
    | .number (.int n) => if isOverlong n then .error .overlong else .ok (integerText n)
    | .number (.float x) => .ok x.text
    | .text s => .ok (quote s)
    | .flag b => .ok (if b then "True" else "False")
    | .array items => do
      let parts ← inspectItems (depth - 1) items
      return "[" ++ ", ".intercalate parts ++ "]"
    | .closure c => if c.body.overlong then .error .overlong else .ok c.inspected
    | .builtin b => .ok b.inspected

def inspectItems (depth : Nat) (items : List Value) : Except Stop (List String) :=
  match items with
  | [] => .ok []
  | v :: rest => do
    let first ← inspect depth v
    let others ← inspectItems depth rest
    return first :: others

end

end Value

/-! ## Frames -/

namespace Scope

def Bindings.entries (depth : Nat) : Bindings → Except Stop (List String)
  | [] => .ok []
  | (x, v) :: rest => do
    let shown ← v.inspect depth
    let others ← entries depth rest
    return (x ++ ": " ++ shown) :: others

namespace Store

def listFrame (s : Store) (depth : Nat) (f : FrameId) : Except Stop String := do
  let entries ← (s.bindings f).entries depth
  return "\x7b" ++ ", ".intercalate entries ++ "\x7d"

def listFrames (s : Store) (depth : Nat) : List FrameId → Except Stop (List String)
  | [] => .ok []
  | f :: rest => do
    let first ← s.listFrame depth f
    let others ← s.listFrames depth rest
    return first :: others

def summary (s : Store) (depth : Nat) (f : FrameId) : Except Stop String := do
  let shown ← s.listFrame depth f
  return if (s.outer? f).isSome then shown ++ " -> ..." else shown

def listing (s : Store) (depth : Nat) (f : FrameId) : Except Stop String := do
  let shown ← s.listFrames depth (s.chain f)
  return "<Environment chain: " ++ " -> ".intercalate shown ++ ">"

end Store

end Scope

end EggLang
