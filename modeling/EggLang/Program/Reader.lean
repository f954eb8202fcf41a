/-
  EggLang.Program.Reader — from text to expressions.

  Filler is any run of blanks and comments, and may stand between any two tokens; `skipFiller`
  (`skip_space`) takes off the longest filler in front of a text. A comment begins with `#` and
  reaches up to the next line end, or the end of the text.

  A text token stands between two quotes and holds none. A number is a run of the digits 0 to 9 that
  is not followed by a letter, digit or underscore of ASCII; where it is, the digits begin a word
  instead. A word is a run of characters other than blanks and `( ) , # "`. What is no token at the
  front of a text is left for the reader to report.

  An expression is a token followed by any number of argument lists: `f(a)(b)` applies `f(a)` to `b`
  (`readFront` is `parse_expression`, `applyFront` is `parse_apply`). Arguments are separated by
  commas, and one more comma may stand behind the last of them. A program is one expression and
  nothing else (`readProgram`, which is `parse`).

  Reading has a depth budget: one step for an expression, one for each argument list that follows
  another or stands inside one (`readExpr`, `readCalls`). The loop over one argument list
  (`readArgs`) takes at least one character a turn, so `room`, which is one more than the length of
  the text, is always enough turns for it.
-/

import EggLang.Program.Expr

namespace EggLang.Program

open EggLang.Numeric EggLang.Text

/-! ## Filler -/

mutual

def skipFiller : List Char → List Char
  | [] => []
  | c :: rest => if isBlank c then skipFiller rest else if c = '#' then skipComment rest else c :: rest

/-- The text behind the comment that it begins inside of, and behind the filler after that; the line
    end that closes a comment is itself a blank. -/
def skipComment : List Char → List Char
  | [] => []
  | c :: rest => if isLineEnd c then skipFiller rest else skipComment rest

end

/-! ## Tokens -/

inductive Token where
  | text (s : List Char)
  | digits (ds : List Char)
  | word (name : List Char)
  deriving DecidableEq

def isAsciiWordChar (c : Char) : Bool := c.isAlphanum || c == '_'

def isWordChar (c : Char) : Bool :=
  !isBlank c && c != '(' && c != ')' && c != ',' && c != '#' && c != '"'

/-- A number may end in front of this text. -/
def endsNumber : List Char → Bool
  | [] => true
  | c :: _ => !isAsciiWordChar c

namespace Token

/-- A text token, when the text has a closing quote. -/
def text? : List Char → Option (Token × List Char)
  | '"' :: rest =>
    match rest.dropWhile (· != '"') with
    | _ :: after => some (.text (rest.takeWhile (· != '"')), after)
    | [] => none
  | _ => none

def digits? (s : List Char) : Option (Token × List Char) :=
  let ds := s.takeWhile isAsciiDigit
  let after := s.dropWhile isAsciiDigit
  if !ds.isEmpty && endsNumber after then some (.digits ds, after) else none

def word? (s : List Char) : Option (Token × List Char) :=
  let name := s.takeWhile isWordChar
  if name.isEmpty then none else some (.word name, s.dropWhile isWordChar)

def next? (s : List Char) : Option (Token × List Char) :=
  text? s <|> digits? s <|> word? s

end Token

def digitsValue (ds : List Char) : Nat := valueOfDigits (ds.map fun c => c.toNat - '0'.toNat)

/-! ## Expressions -/

abbrev Read := Except Stop (Expr × List Char)

def Token.expr : Token → Except Stop Expr
  | .text s => .ok (.text (String.ofList s))
  | .word name => .ok (.word (String.ofList name))
  | .digits ds =>
    if digitLimit < ds.length then .error (.fault (.literalTooLong (String.ofList ds)))
    else .ok (.number (digitsValue ds))

/-- The token expression at the front of a text that begins with no filler. -/
def readToken (text : List Char) : Read :=
  match Token.next? text with
  | some (token, rest) => do return (← token.expr, rest)
  | none => .error (.fault (.noToken (String.ofList text)))

/-- The arguments up to the end of their list, and the text behind its closing bracket. The text
    begins with no filler; `room` bounds the number of arguments. -/
def readArgs (read : List Char → Read) : (room : Nat) → (text : List Char) → Except Stop (List Expr × List Char)
  | _, ')' :: rest => .ok ([], rest)
  | _, [] => .error (.fault .unclosedList)
  | 0, _ => .error .depth
  | room + 1, text => do
    let (arg, rest) ← read text
    match skipFiller rest with
    | ',' :: after =>
      let (args, last) ← readArgs read room (skipFiller after)
      return (arg :: args, last)
    | ')' :: after => return ([arg], after)
    | other => .error (.fault (.noSeparator (String.ofList other)))

mutual

def readExpr (room : Nat) : (depth : Nat) → (text : List Char) → Read
  | 0, _ => .error .depth
  | depth + 1, text => do
    let (atom, rest) ← readToken (skipFiller text)
    readCalls room depth atom rest

/-- The argument lists at the front of a text, applied one after the other to an expression. -/
def readCalls (room : Nat) : (depth : Nat) → Expr → (text : List Char) → Read
  | 0, _, _ => .error .depth
  | depth + 1, expr, text =>
    match skipFiller text with
    | '(' :: rest => do
      let (args, after) ← readArgs (readExpr room depth) room (skipFiller rest)
      readCalls room depth (.apply expr args) after
    | other => .ok (expr, other)

end

def readFront (depth : Nat) (text : List Char) : Read := readExpr (text.length + 1) depth text

def applyFront (depth : Nat) (expr : Expr) (text : List Char) : Read := readCalls (text.length + 1) depth expr text

def readProgram (depth : Nat) (text : List Char) : Except Stop Expr := do
  let (expr, rest) ← readFront depth text
  match skipFiller rest with
  | [] => return expr
  | other => .error (.fault (.trailingText (String.ofList other)))

end EggLang.Program
