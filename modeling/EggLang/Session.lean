/-
  EggLang.Session — running programs one after the other (`Interpreter`), and the depth limit that
  is set from outside.

  A session has a top frame, which owns the builtins and the two flags. Every program is run in a
  new frame inside it, so what one program defines the next does not see; what it sets in the top
  frame, the next does see. `run` reads the program and evaluates it, both with the depth that the
  limit of the session gives; a program that uses up its depth has a fault like any other.

  A setting is a text that may be missing (`int_from_env`). Blanks at its ends do not count; what is
  left is an integer when it is an optional sign and then digits, of any scripts, with single
  underscores allowed between two digits, and not more digits than may be read. A setting that is
  missing or empty is silently absent; one that is no integer, or not positive, is ignored, and the
  reason can be reported.

  The depth limit is such a setting. It can only raise the depth of nested steps above `baseDepth`,
  and one that is too large to be kept as a machine integer cannot be obeyed at all
  (`_recursion_limit`).
-/

import EggLang.Eval.Evaluate
import EggLang.Program.Reader

namespace EggLang

open EggLang.Eval EggLang.Numeric EggLang.Program EggLang.Scope EggLang.Text

namespace Session

/-! ## Settings -/

/-- The values of digits with single underscores between them, given whether the character in front
    of the text is a digit. -/
def groupedDigits? : (afterDigit : Bool) → List Char → Option (List Nat)
  | afterDigit, [] => if afterDigit then some [] else none
  | afterDigit, c :: rest =>
    if c = '_' then if afterDigit then groupedDigits? false rest else none
    else
      match digitValue? c with
      | some d => (groupedDigits? true rest).map (d :: ·)
      | none => none

def readNatural? (text : List Char) : Option Nat :=
  match groupedDigits? false text with
  | some ds => if ds.length ≤ digitLimit then some (valueOfDigits ds) else none
  | none => none

/-- The integer that a text without blanks at its ends writes. -/
def readInteger? : List Char → Option Int
  | '+' :: rest => (readNatural? rest).map fun n => (n : Int)
  | '-' :: rest => (readNatural? rest).map fun n => -(n : Int)
  | text => (readNatural? text).map fun n => (n : Int)

inductive Setting where
  /-- Missing or empty. -/
  | absent
  | notInteger (raw : String)
  | notPositive (raw : String)
  | value (n : Nat)
  deriving DecidableEq

namespace Setting

def read : Option String → Setting
  | none => .absent
  | some raw =>
    if raw.isEmpty then .absent
    else
      match readInteger? (trimBlanks raw.toList) with
      | none => .notInteger raw
      | some n => if 0 < n then .value n.toNat else .notPositive raw

def getD (s : Setting) (default : Option Int) : Option Int :=
  match s with
  | .value n => some n
  | _ => default

/-- Why the setting of that name is ignored, if it is. -/
def remark? (name : String) : Setting → Option String
  | .notInteger raw => some ("Ignoring " ++ name ++ "=" ++ quote raw ++ ": not an integer")
  | .notPositive raw => some ("Ignoring " ++ name ++ "=" ++ quote raw ++ ": must be positive")
  | _ => none

end Setting

/-! ## The depth limit -/

def limitSetting : String := "EGG_RECURSION_LIMIT"

/-- The depth of nested steps that there always is. -/
def baseDepth : Nat := 1000

def largestLimit : Nat := 2147483647

def depthUnder : (limit : Option Int) → Option Nat
  | none => some baseDepth
  | some n =>
    if n ≤ baseDepth then some baseDepth
    else if n ≤ largestLimit then some n.toNat
    else none

/-- The limit of a session: the one asked for, else the one set from outside. -/
def chooseLimit (asked : Option Int) (setting : Setting) : Option Int :=
  match asked with
  | some n => some n
  | none => setting.getD none

end Session

/-! ## Runs -/

structure Session where
  /-- The depth limit asked for. -/
  limit : Option Int
  top : FrameId
  store : Store

namespace Session

inductive Halt where
  | fault (f : Fault)
  /-- A message needs an integer that has more digits than may be written. -/
  | overlong
  /-- The limit of the session cannot be obeyed. -/
  | limitTooLarge
  /-- A loop has used up its turns. -/
  | unfinished
  deriving DecidableEq

/-- Why a run halts when it stops: using up the depth is a fault of the program. -/
def Halt.ofStop : Stop → Halt
  | .fault f => .fault f
  | .overlong => .overlong
  | .depth => .fault .depthExceeded
  | .turns => .unfinished

def start (limit : Option Int) : Session :=
  let (top, store) := Store.empty.pushTop
  ⟨limit, top, store⟩

/-- The expression that a program is, and the depth to evaluate it with. -/
def read (s : Session) (program : String) : Except Halt (Nat × Expr) :=
  match depthUnder s.limit with
  | none => .error .limitTooLarge
  | some depth =>
    match readProgram depth program.toList with
    | .ok expr => .ok (depth, expr)
    | .error stop => .error (.ofStop stop)

def evaluateIn (s : Session) (turns depth : Nat) (expr : Expr) : Except Halt Value × Session :=
  let (frame, store) := s.store.push (some s.top)
  match evaluate turns depth expr frame store with
  | .ok v store' => (.ok v, { s with store := store' })
  | .error stop store' => (.error (.ofStop stop), { s with store := store' })

def run (s : Session) (turns : Nat) (program : String) : Except Halt Value × Session :=
  match s.read program with
  | .ok (depth, expr) => s.evaluateIn turns depth expr
  | .error halt => (.error halt, s)

/-- What has been printed since it was last taken, and the session without it. -/
def takeOutput (s : Session) : String × Session := (s.store.output, { s with store := { s.store with output := "" } })

end Session

end EggLang
