/-
  EggLang.Eval.Evaluate — the value of an expression in a frame (`evaluate`).

  An action changes the store and gives a value or stops. What it has done to the store by the time
  it stops, printing included, stays done.

  Numbers and texts stand for themselves and words for what they are bound to. An application whose
  operator is one of six words is a form (`SPECIAL_FORMS`), whatever that word may be bound to:
  `define` binds in the frame at hand and `set` where a name is found, and both give the value
  bound. `if` and `while` take everything for true but the flag false; `while` gives false. `do`
  gives the value of its last argument, false without one. `fun` makes a closure of the frame at
  hand: its last argument is the body and the others, which are words, the parameters. The shape of
  a form is checked before anything in it is evaluated.

  Every other application is a call: the operator is evaluated first and has to be a function, then
  the arguments from left to right, then the function is called (`apply`). A closure is called in a
  new frame inside the frame it was made in, with its parameters bound to the arguments from left to
  right; its body is the result. A builtin computes its result, or prints. Both take a fixed number
  of arguments, apart from `array`.

  `depth` is the budget of nested steps: an expression takes one, its operator is evaluated with
  what is left, and the arguments of a call or form, and the body of a closure that is called, with
  one less still. When it is used up the evaluation stops. A loop takes no depth; `turns` bounds the
  turns of every single loop.
-/

import EggLang.Scope.Store
import EggLang.Value.Operators

namespace EggLang

open EggLang.Program EggLang.Scope

namespace Eval

/-! ## Actions -/

abbrev Action := EStateM Stop Store

namespace Action

/-- A result that does not depend on the store. -/
def ofResult {α : Type} : Except Stop α → Action α
  | .ok a => fun s => .ok a s
  | .error e => fun s => .error e s

def fault {α : Type} (f : Fault) : Action α := fun s => .error (.fault f) s

def lookup (f : FrameId) (x : String) : Action Value := fun s =>
  match s.lookup? f x with
  | some v => .ok v s
  | none => .error (.fault (.unbound x)) s

def define (f : FrameId) (x : String) (v : Value) : Action Unit := fun s => .ok () (s.define f x v)

def assign (f : FrameId) (x : String) (v : Value) : Action Unit := fun s =>
  match s.assign? f x v with
  | some s' => .ok () s'
  | none => .error (.fault (.settingUnbound x)) s

/-- A new frame inside `outer` with names bound one after the other. -/
def enter (outer : FrameId) (pairs : List (String × Value)) : Action FrameId := fun s =>
  let (f, s') := s.push (some outer)
  .ok f (s'.update f pairs)

def close (params : List String) (body : Program.Expr) (f : FrameId) : Action Value := fun s =>
  let (c, s') := s.close params body f
  .ok (.closure c) s'

def printLine (text : String) : Action Unit := fun s => .ok () (s.print (text ++ "\n"))

end Action

end Eval

/-! ## Calls -/

open EggLang.Eval

inductive Callee where
  | closure (c : Closure)
  | builtin (b : Builtin)

def Value.callee? : Value → Option Callee
  | .closure c => some (.closure c)
  | .builtin b => some (.builtin b)
  | _ => none

def Builtin.call (depth : Nat) : Builtin → List Value → Action Value
  | .arithmetic op, [a, b] => .ofResult (op.apply depth a b)
  | .equal, [a, b] => do
    let same ← Action.ofResult (a.equal depth b)
    return .flag same
  | .compare op, [a, b] => .ofResult (op.apply depth a b)
  | .print, [v] => do
    let text ← Action.ofResult (v.display depth)
    Action.printLine text
    return v
  | .array, args => return .array args
  | .length, [v] => .ofResult (v.length depth)
  | .element, [v, i] => .ofResult (v.element depth i)
  | b, args => .fault (.argumentCount b.name (b.arity.getD 0) args.length)

/-- Call a closure, its body being evaluated by `evaluate`. -/
def Closure.call (evaluate : Expr → FrameId → Action Value) (c : Closure) (args : List Value) : Action Value :=
  if args.length = c.params.length then do
    let f ← Action.enter c.frame (c.params.zip args)
    evaluate c.body f
  else .fault (.argumentCount c.display c.params.length args.length)

def Callee.call (depth : Nat) (evaluate : Expr → FrameId → Action Value) : Callee → List Value → Action Value
  | .closure c, args => c.call evaluate args
  | .builtin b, args => b.call depth args

namespace Eval

/-! ## Forms -/

inductive Form where
  | define
  | set
  | branch
  | loop
  | sequence
  | function
  deriving DecidableEq

namespace Form

def ofName? : String → Option Form
  | "define" => some .define
  | "set" => some .set
  | "if" => some .branch
  | "while" => some .loop
  | "do" => some .sequence
  | "fun" => some .function
  | _ => none

def ofOperator? : Expr → Option Form
  | .word x => ofName? x
  | _ => none

end Form

@[specialize] def evaluateAll (evaluate : Expr → Action Value) : List Expr → Action (List Value)
  | [] => return []
  | e :: rest => do
    let v ← evaluate e
    let vs ← evaluateAll evaluate rest
    return v :: vs

/-- The value of the last of several expressions, evaluated from left to right. -/
@[specialize] def evaluateLast (evaluate : Expr → Action Value) (last : Value) : List Expr → Action Value
  | [] => return last
  | e :: rest => do
    let v ← evaluate e
    evaluateLast evaluate v rest

/-- Evaluate a condition and a body in turn until the condition is false. -/
@[specialize] def repeatWhile (evaluate : Expr → Action Value) (condition body : Expr) :
    (turns : Nat) → Action Value
  | 0 => throw .turns
  | turns + 1 => do
    let c ← evaluate condition
    if c.isFalse then return .flag false
    else
      let _ ← evaluate body
      repeatWhile evaluate condition body turns

def paramNames (depth : Nat) : List Expr → Except Stop (List String)
  | [] => .ok []
  | .word x :: rest => do
    let names ← paramNames depth rest
    return x :: names
  | e :: _ => do fail (.parameterNotWord (← e.written depth))

def makeClosure (depth : Nat) (args : List Expr) (frame : FrameId) : Action Value :=
  match args.getLast? with
  | none => .fault .functionWithoutBody
  | some body => do
    let params ← Action.ofResult (paramNames depth args.dropLast)
    Action.close params body frame

/-- Evaluate a form in a frame; what it has to write itself is written with `depth`. -/
@[specialize] def Form.run (turns depth : Nat) (evaluate : Expr → Action Value) (frame : FrameId) :
    Form → List Expr → Action Value
  | .define, [.word x, e] => do
    let v ← evaluate e
    Action.define frame x v
    return v
  | .define, _ => .fault .malformedDefine
  | .set, [.word x, e] => do
    let v ← evaluate e
    Action.assign frame x v
    return v
  | .set, _ => .fault .malformedSet
  | .branch, [c, a, b] => do
    let v ← evaluate c
    if v.isFalse then evaluate b else evaluate a
  | .branch, _ => .fault .malformedIf
  | .loop, [c, body] => repeatWhile evaluate c body turns
  | .loop, _ => .fault .malformedWhile
  | .sequence, args => evaluateLast evaluate (.flag false) args
  | .function, args => makeClosure depth args frame

/-! ## Expressions -/

def refuse (leaf : Foreign) : Action Value :=
  if leaf.overlong then throw .overlong else .fault (.notExpression leaf.inspected)

def evaluate (turns : Nat) : (depth : Nat) → Expr → FrameId → Action Value
  | 0, _, _ => throw .depth
  | _ + 1, .number n, _ => return .int n
  | _ + 1, .text s, _ => return .text s
  | _ + 1, .word x, frame => Action.lookup frame x
  | _ + 1, .foreign leaf, _ => refuse leaf
  | 1, .apply .., _ => throw .depth
  | depth + 2, .apply operator args, frame =>
    match Form.ofOperator? operator with
    | some form => form.run turns depth (fun e => evaluate turns depth e frame) frame args
    | none => do
      let f ← evaluate turns (depth + 1) operator frame
      match f.callee? with
      | none => do
        let shown ← Action.ofResult (operator.written (depth + 1))
        .fault (.notFunction shown)
      | some callee => do
        let values ← evaluateAll (fun e => evaluate turns depth e frame) args
        callee.call depth (evaluate turns depth) values

end Eval

end EggLang
