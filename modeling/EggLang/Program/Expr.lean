/-
  EggLang.Program.Expr — expressions, the trees that programs are, and their written forms.

  An expression is a number or a text (`ValueLiteral`), a word (`WordRef`), or an operator applied
  to arguments (`Apply`). A tree put together by hand may also hold a leaf that is no expression at
  all: such a leaf is refused when it is evaluated, and all that is ever seen of it is how it is
  written.

  `Expr.source` is program text again: numbers in decimal, texts between plain quotes with nothing
  escaped, words as they are, and applications as `op(a, b)`. It exists for every tree. Where an
  expression is written into a message (`Expr.written`, the `__str__` of the nodes), an integer in
  it with more digits than may be written makes the message impossible, and so does a tree that is
  too deep: an operator takes three steps of the depth budget, and an argument four.

  `Expr.inspected` names each node, for listings. `DecidableEq Expr` compares trees node by node.
-/

import EggLang.Fault

namespace EggLang.Program

open EggLang.Numeric EggLang.Text

/-- What a message shows of a leaf that is no expression. -/
structure Foreign where
  /-- Its written form, inside an expression. -/
  written : String
  /-- Its listed form, in a message about the leaf itself. -/
  inspected : String
  /-- It holds an integer with more digits than may be written. -/
  overlong : Bool
  deriving DecidableEq

inductive Expr where
  | number (n : Int)
  | text (s : String)
  | word (name : String)
  | apply (operator : Expr) (args : List Expr)
  | foreign (leaf : Foreign)
  deriving Inhabited

namespace Expr

/-! ## Equal trees -/

mutual

def same : Expr → Expr → Bool
  | .number m, .number n => m == n
  | .text s, .text t => s == t
  | .word x, .word y => x == y
  | .apply f as, .apply g bs => same f g && sameAll as bs
  | .foreign l, .foreign m => l == m
  | _, _ => false

def sameAll : List Expr → List Expr → Bool
  | [], [] => true
  | a :: as, b :: bs => same a b && sameAll as bs
  | _, _ => false

end

mutual

theorem same_eq_true_iff : ∀ (a b : Expr), same a b = true ↔ a = b
  | .number m, b => by cases b <;> simp [same]
  | .text s, b => by cases b <;> simp [same]
  | .word x, b => by cases b <;> simp [same]
  | .foreign l, b => by cases b <;> simp [same]
  | .apply f as, b => by
    cases b with
    | apply g bs => simp [same, same_eq_true_iff f g, sameAll_eq_true_iff as bs]
    | _ => simp [same]

theorem sameAll_eq_true_iff : ∀ (as bs : List Expr), sameAll as bs = true ↔ as = bs
  | [], bs => by cases bs <;> simp [sameAll]
  | a :: as, bs => by
    cases bs with
    | nil => simp [sameAll]
    | cons b bs => simp [sameAll, same_eq_true_iff a b, sameAll_eq_true_iff as bs]

end

instance : DecidableEq Expr := fun a b => decidable_of_iff _ (same_eq_true_iff a b)

/-! ## Written forms -/

mutual

def source : Expr → String
  | .number n => integerText n
  | .text s => "\"" ++ s ++ "\""
  | .word x => x
  | .apply f args => source f ++ "(" ++ ", ".intercalate (sources args) ++ ")"
  | .foreign leaf => leaf.written

def sources : List Expr → List String
  | [] => []
  | a :: as => source a :: sources as

end

mutual

/-- An integer in the tree has more digits than may be written. -/
def overlong : Expr → Bool
  | .number n => isOverlong n
  | .text _ => false
  | .word _ => false
  | .apply f args => overlong f || anyOverlong args
  | .foreign leaf => leaf.overlong

def anyOverlong : List Expr → Bool
  | [] => false
  | a :: as => overlong a || anyOverlong as

end

mutual

/-- The written form as it stands in a message. -/
def written (depth : Nat) (e : Expr) : Except Stop String :=
  if depth = 0 then .error .depth
  else
    match e with
    | .number n => if isOverlong n then .error .overlong else .ok (integerText n)
    | .text s => .ok ("\"" ++ s ++ "\"")
    | .word x => .ok x
    | .apply f args => do
      let operator ← written (depth - 3) f
      let parts ← writtenAll (depth - 4) args
      return operator ++ "(" ++ ", ".intercalate parts ++ ")"
    | .foreign leaf => if leaf.overlong then .error .overlong else .ok leaf.written

def writtenAll (depth : Nat) (args : List Expr) : Except Stop (List String) :=
  match args with
  | [] => .ok []
  | a :: rest => do
    let first ← written depth a
    let others ← writtenAll depth rest
    return first :: others

end

/-- Items between round brackets; a single one is followed by a comma. -/
def tuple : List String → String
  | [] => "()"
  | [a] => "(" ++ a ++ ",)"
  | as => "(" ++ ", ".intercalate as ++ ")"

mutual

def inspected : Expr → String
  | .number n => "ValueLiteral(value=" ++ integerText n ++ ")"
  | .text s => "ValueLiteral(value=" ++ quote s ++ ")"
  | .word x => "WordRef(name=" ++ quote x ++ ")"
  | .apply f args => "Apply(operator=" ++ inspected f ++ ", args=" ++ tuple (inspectedAll args) ++ ")"
  | .foreign leaf => leaf.inspected

def inspectedAll : List Expr → List String
  | [] => []
  | a :: as => inspected a :: inspectedAll as

end

end Expr

end EggLang.Program
