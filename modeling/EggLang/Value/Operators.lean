/-
  EggLang.Value.Operators — the builtins that compute a value from values.

  Two numbers are equal when they are exactly so, whether integers or doubles. Arrays are equal when
  they have the same length and equal items, compared from the left until two differ; each level of
  arrays takes three steps of the depth budget. Texts and flags are equal when they are the same,
  closures when they have one identity, builtins when they are the same builtin. Values of different
  kinds are never equal (`equals`).

  Arithmetic (`add`, `sub`, `mul`, `div`) takes two numbers; `+` with a text on either side joins
  the display forms of both. A divisor that is zero, of either kind and sign, is a fault before
  anything else about the quotient. The orderings (`lt`, `gt`) take two numbers, or two texts, which
  are ordered by code points. An array or a text has a `length`, and elements counted from 0
  (`element`); an index is an integer.

  Operands of other kinds are faults that show the operands, so an operand that cannot be displayed
  makes a fault of its own instead.
-/

import EggLang.Value.Basic

namespace EggLang

open EggLang.Numeric

/-! ## Equality -/

namespace Value

mutual

def equal (depth : Nat) (a b : Value) : Except Stop Bool :=
  if depth = 0 then .error .depth
  else
    match a, b with
    | .number m, .number n => .ok (m.equal n)
    | .array xs, .array ys => if xs.length = ys.length then equalItems (depth - 3) xs ys else .ok false
    | .text s, .text t => .ok (s == t)
    | .flag p, .flag q => .ok (p == q)
    | .closure c, .closure d => .ok (c.identity == d.identity)
    | .builtin f, .builtin g => .ok (f == g)
    | _, _ => .ok false

/-- Two lists of values are equal, item by item as far as both reach. -/
def equalItems (depth : Nat) (xs ys : List Value) : Except Stop Bool :=
  match xs, ys with
  | x :: xs, y :: ys => do
    if ← equal depth x y then equalItems depth xs ys else return false
  | _, _ => .ok true

end

end Value

/-! ## Arithmetic and order -/

namespace Arithmetic

def compute : Arithmetic → Number → Number → Except RangeFault Number
  | .add, a, b => a.add b
  | .sub, a, b => a.sub b
  | .mul, a, b => a.mul b
  | .div, a, b => a.div b

def onNumbers (op : Arithmetic) (a b : Number) : Except Stop Value :=
  if op = .div ∧ b.isZero then fail .divisionByZero
  else
    match op.compute a b with
    | .ok n => .ok (.number n)
    | .error cause => fail (.outOfRange op cause)

/-- Neither operand is a text, or the operation is not `+`. -/
def onOthers (op : Arithmetic) (depth : Nat) (a b : Value) : Except Stop Value := do
  let left ← a.display depth
  let right ← b.display depth
  fail (.notNumbers op left right)

def join (depth : Nat) (a b : Value) : Except Stop Value := do
  let left ← a.display depth
  let right ← b.display depth
  return .text (left ++ right)

def apply (op : Arithmetic) (depth : Nat) (a b : Value) : Except Stop Value :=
  match op, a, b with
  | .add, .text _, _ => join depth a b
  | .add, _, .text _ => join depth a b
  | _, .number m, .number n => op.onNumbers m n
  | _, _, _ => op.onOthers depth a b

end Arithmetic

namespace Comparison

def onNumbers : Comparison → Number → Number → Bool
  | .less, a, b => a.less b
  | .greater, a, b => b.less a

def onTexts : Comparison → String → String → Bool
  | .less, s, t => decide (s < t)
  | .greater, s, t => decide (t < s)

def apply (op : Comparison) (depth : Nat) (a b : Value) : Except Stop Value :=
  match a, b with
  | .number m, .number n => .ok (.flag (op.onNumbers m n))
  | .text s, .text t => .ok (.flag (op.onTexts s t))
  | _, _ => do
    let left ← a.display depth
    let right ← b.display depth
    fail (.notOrdered op left right)

end Comparison

/-! ## Arrays and texts -/

namespace Value

/-- The items of an array, or the characters of a text as texts. -/
def items? : Value → Option (List Value)
  | .array items => some items
  | .text s => some (s.toList.map fun c => .text (String.singleton c))
  | _ => none

def length (depth : Nat) (v : Value) : Except Stop Value :=
  match v.items? with
  | some items => .ok (.int items.length)
  | none => do fail (.lengthOfNonSequence (← v.display depth))

def indexFault {α : Type} (i : Int) (length : Nat) : Except Stop α :=
  if isOverlong i then .error .overlong else fail (.indexOutOfRange i length)

def element (depth : Nat) (v index : Value) : Except Stop Value :=
  match v.items? with
  | none => do fail (.elementOfNonSequence (← v.display depth))
  | some items =>
    match index with
    | .number (.int i) =>
      if i < 0 then indexFault i items.length
      else
        match items[i.toNat]? with
        | some item => .ok item
        | none => indexFault i items.length
    | _ => do fail (.indexNotInteger (← index.display depth))

end Value

end EggLang
