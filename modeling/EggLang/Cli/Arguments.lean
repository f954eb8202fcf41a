/-
  EggLang.Cli.Arguments — the words of a command line (`create_arg_parser`).

  There are three switches: one for help, one with a program as its value, one for debugging. A long
  spelling may be cut short while it stays unambiguous, and takes its value behind an `=`; a short
  one takes it directly, or behind an `=`. Without either, the value is the next word, as long as
  that is a plain word. What stands behind the short spelling of help is more short switches, one a
  letter, and anything else that stands behind a switch without a value is refused. Every other
  plain word is an operand: the first is the name of the script, the others are too many.

  A word is plain when it does not begin with `-`, or is `-` alone, or is a negative number, or
  holds a space; a word that begins with `-` and is neither plain nor a switch is unknown. All words
  behind the first `--` are plain. The `--` itself is taken away next to the script, and is one word
  too many otherwise. A `--` that stands in the word of a switch, as its value, is taken away too,
  and leaves the switch with nothing (`Code.dropped`).

  Words are sorted first, so an ambiguous word is refused before anything else happens; after that
  they are taken from left to right, and the first switch for help ends it all. Words too many are
  refused at the end.
-/

import EggLang.Text

namespace EggLang.Cli

open EggLang.Text

inductive Switch where
  | help
  | eval
  | debug
  deriving DecidableEq

/-- All spellings, in the order in which the switches are listed. -/
def spellings : List (String × Switch) :=
  [("-h", .help), ("--help", .help), ("-e", .eval), ("--eval", .eval), ("--debug", .debug)]

def Switch.spelled? (word : String) : Option Switch := List.lookup word spellings

/-- All spellings of a switch, as errors name it. -/
def Switch.label : Switch → String
  | .help => "-h/--help"
  | .eval => "-e/--eval"
  | .debug => "--debug"

inductive UsageFault where
  | ambiguous (word : String) (candidates : List String)
  | valueExpected (s : Switch)
  | valueIgnored (s : Switch) (value : String)
  | unrecognized (words : List String)
  deriving DecidableEq

def UsageFault.message : UsageFault → String
  | .ambiguous word candidates => "ambiguous option: " ++ word ++ " could match " ++ ", ".intercalate candidates
  | .valueExpected s => "argument " ++ s.label ++ ": expected one argument"
  | .valueIgnored s v => "argument " ++ s.label ++ ": ignored explicit argument " ++ quote v
  | .unrecognized words => "unrecognized arguments: " ++ " ".intercalate words

/-- The value that stands in the same word as a switch. -/
inductive Attached where
  | nothing
  /-- Behind a long spelling and an equals sign. -/
  | long (value : String)
  /-- Behind a short spelling, with an equals sign between them or not. -/
  | short (letters : List Char)
  deriving DecidableEq

inductive Word where
  | plain (s : String)
  /-- The first `--`. -/
  | dashes
  | switch (s : Switch) (value : Attached)
  | unknown (s : String)
  deriving DecidableEq

/-- Decimal digits, at least one, with at most one line feed behind them. -/
def isDigitRun (cs : List Char) : Bool :=
  let ds := cs.takeWhile fun c => (digitValue? c).isSome
  !ds.isEmpty && (cs.drop ds.length == [] || cs.drop ds.length == ['\n'])

/-- What follows the sign of a negative number: digits, or perhaps digits, a point, and digits. -/
def isUnsignedNumber (cs : List Char) : Bool :=
  isDigitRun cs ||
    match cs.dropWhile fun c => (digitValue? c).isSome with
    | '.' :: fraction => isDigitRun fraction
    | _ => false

/-- A text cut at its first equals sign, which belongs to neither part. -/
def cutAtEquals (cs : List Char) : String × Option String :=
  (String.ofList (cs.takeWhile (· != '=')),
    match cs.dropWhile (· != '=') with
    | _ :: value => some (String.ofList value)
    | [] => none)

def Attached.ofLong : Option String → Attached
  | some v => .long v
  | none => .nothing

def Attached.ofShort : List Char → Attached
  | [] => .nothing
  | '=' :: letters => .short letters
  | letters => .short letters

def candidates (start : String) : List (String × Switch) := spellings.filter fun p => start.toList.isPrefixOf p.1.toList

/-- A word that begins with `-` and spells no switch, not even in part. -/
def Word.unspelled (word : String) (afterDash : List Char) : Word :=
  if isUnsignedNumber afterDash || afterDash.contains ' ' then .plain word else .unknown word

def Word.sort (word : String) : Except UsageFault Word :=
  match word.toList with
  | '-' :: '-' :: rest =>
    let (start, value) := cutAtEquals ('-' :: '-' :: rest)
    match candidates start with
    | [] => .ok (.unspelled word ('-' :: rest))
    | [(_, s)] => .ok (.switch s (.ofLong value))
    | several => .error (.ambiguous word (several.map Prod.fst))
  | '-' :: c :: rest =>
    match Switch.spelled? (String.ofList ['-', c]) with
    | some s => .ok (.switch s (.ofShort rest))
    | none => .ok (.unspelled word (c :: rest))
  | _ => .ok (.plain word)

def Word.sortAll : List String → Except UsageFault (List Word)
  | [] => .ok []
  | "--" :: rest => .ok (.dashes :: rest.map .plain)
  | word :: rest => do
    let first ← Word.sort word
    let others ← sortAll rest
    return first :: others

/-- What the switch with a program is given. -/
inductive Code where
  | text (program : String)
  /-- A `--` in the same word, which is taken away. -/
  | dropped
  deriving DecidableEq

def Code.attached (value : String) : Code := if value = "--" then .dropped else .text value

structure Arguments where
  /-- The program given on the command line itself. -/
  code : Option Code
  /-- The name of the file that holds the program. -/
  script : Option String
  debug : Bool
  deriving DecidableEq

inductive Asked where
  | help
  | run (args : Arguments)
  deriving DecidableEq

/-- The short switch for help with something behind it: each letter is a short switch of its own,
    until one takes the rest of the word, or the next word, for its value. What begins with no such
    letter is a value that help does not take. -/
def helpWith (next : List Word) : List Char → Except UsageFault Asked
  | [] => .error (.valueIgnored .help "")
  | c :: rest =>
    match Switch.spelled? (String.ofList ['-', c]), rest with
    | some .help, [] => .ok .help
    | some .help, rest => helpWith next rest
    | some .eval, [] =>
      match next with
      | .plain _ :: _ => .ok .help
      | _ => .error (.valueExpected .eval)
    | some .eval, _ => .ok .help
    | _, rest => .error (.valueIgnored .help (String.ofList (c :: rest)))

/-- Take sorted words from left to right, given what the words before them settle and which of those
    are too many. -/
def takeWords (args : Arguments) (extra : List String) : List Word → Except UsageFault Asked
  | [] => if extra.isEmpty then .ok (.run args) else .error (.unrecognized extra)
  | .switch .eval .nothing :: .plain v :: rest => takeWords { args with code := some (.text v) } extra rest
  | .switch .eval .nothing :: _ => .error (.valueExpected .eval)
  | .switch .eval (.long v) :: rest => takeWords { args with code := some (.attached v) } extra rest
  | .switch .eval (.short v) :: rest => takeWords { args with code := some (.attached (String.ofList v)) } extra rest
  | .switch .debug .nothing :: rest => takeWords { args with debug := true } extra rest
  | .switch .help .nothing :: _ => .ok .help
  | .switch .help (.short letters) :: rest => helpWith rest letters
  | .switch s (.long v) :: _ => .error (.valueIgnored s v)
  | .switch .debug (.short v) :: _ => .error (.valueIgnored .debug (String.ofList v))
  | .unknown w :: rest => takeWords args (extra ++ [w]) rest
  | .plain w :: .dashes :: rest =>
    if args.script.isSome then takeWords args (extra ++ [w, "--"]) rest
    else takeWords { args with script := some w } extra rest
  | .plain w :: rest =>
    if args.script.isSome then takeWords args (extra ++ [w]) rest
    else takeWords { args with script := some w } extra rest
  | .dashes :: rest => if args.script.isSome then takeWords args (extra ++ ["--"]) rest else takeWords args extra rest

def parseArguments (words : List String) : Except UsageFault Asked := do
  let sorted ← Word.sortAll words
  takeWords ⟨none, none, false⟩ [] sorted

end EggLang.Cli
