/-
  EggLang.Cli.Report — what a command line run writes, and how it ends (`main`).

  A program given on the command line is taken as it is and wins over a script, even when it has
  been dropped and there is nothing to run; a script with an empty name is none; without either the
  program is read from the standard input. What is read from a file has to be UTF-8, and in what is
  read from a file or the standard input every line ends with a line feed alone, however it ended
  before.

  A program that gives a value ends with status 0 and writes what it prints, then the display of the
  value and a line feed. A fault, of the program or of the display of its value, ends with status 1
  and one line on the error output. A command line that is refused ends with status 2, help with
  status 0. Anything else breaks the run off (`Breakdown`) after what was written so far. When
  debugging, a line on the error output tells of each file read, of a setting that is ignored, and
  of the program as it was read.

  The value is displayed when the run is over, so it is no fault of the program when the depth is
  used up by that. `room` is the depth that the display has: `baseDepth`, whatever limit was set for
  the run, less the steps that are taken by then. How many these are depends on how the program was
  started; there are two of them at least (`resultDepth`).
-/

import EggLang.Cli.Arguments
import EggLang.Session

namespace EggLang.Cli

open EggLang.Program EggLang.Session

/-! ## The program -/

inductive Source where
  | inline (text : String)
  /-- The command line was to give the program, and has dropped it. -/
  | dropped
  | file (name : String)
  | standardInput
  deriving DecidableEq

def Arguments.source (a : Arguments) : Source :=
  match a.code, a.script with
  | some (.text text), _ => .inline text
  | some .dropped, _ => .dropped
  | none, some name => if name.isEmpty then .standardInput else .file name
  | none, none => .standardInput

inductive SourceFault where
  | dropped
  | missing
  | directory
  | notUtf8
  deriving DecidableEq

/-- Carriage returns, with a line feed behind them or not, as line feeds. -/
def unifyLineEnds : List Char → List Char
  | [] => []
  | '\r' :: '\n' :: rest => '\n' :: unifyLineEnds rest
  | '\r' :: rest => '\n' :: unifyLineEnds rest
  | c :: rest => c :: unifyLineEnds rest

def inputText (s : String) : String := String.ofList (unifyLineEnds s.toList)

def fileText (bytes : ByteArray) : Except SourceFault String :=
  match String.fromUTF8? bytes with
  | some s => .ok (inputText s)
  | none => .error .notUtf8

/-! ## Reports -/

inductive Breakdown where
  | source (f : SourceFault)
  /-- A message needs an integer that has more digits than may be written. -/
  | overlong
  /-- The depth limit cannot be obeyed. -/
  | limitTooLarge
  /-- The value is nested too deep to be displayed. -/
  | depth
  /-- A loop has used up its turns. -/
  | unfinished
  deriving DecidableEq

inductive Ending where
  | exit (status : Nat)
  | breakdown (b : Breakdown)
  deriving DecidableEq

structure Report where
  ending : Ending
  output : String
  errors : String
  deriving DecidableEq

def usageLine : String := "usage: egg [-h] [-e CODE] [--debug] [script]\n"

def helpText : String :=
  usageLine ++ "\n" ++
  "Run an Egg program\n" ++
  "\n" ++
  "positional arguments:\n" ++
  "  script                Egg program file to run\n" ++
  "\n" ++
  "options:\n" ++
  "  -h, --help            show this help message and exit\n" ++
  "  -e CODE, --eval CODE  Egg code to run instead of a file\n" ++
  "  --debug               Enable debug logging\n" ++
  "\n" ++
  "Egg command line runner\n" ++
  "\n" ++
  "Examples:\n" ++
  "  python -m egg program.egg          # Run a program file\n" ++
  "  python -m egg -e 'print(+(1, 2))'  # Run inline code\n" ++
  "  echo 'f(1)' | python -m egg        # Read the program from stdin\n"

def helpReport : Report := ⟨.exit 0, helpText, ""⟩

def usageReport (f : UsageFault) : Report := ⟨.exit 2, "", usageLine ++ "egg: error: " ++ f.message ++ "\n"⟩

/-- A line of the error output that is written only when debugging. -/
def remark (debug : Bool) (origin text : String) : String := if debug then origin ++ ": " ++ text ++ "\n" else ""

def faultReport (output errors : String) (f : Fault) : Report := ⟨.exit 1, output, errors ++ f.report ++ "\n"⟩

def haltReport (output errors : String) : Halt → Report
  | .fault f => faultReport output errors f
  | .overlong => ⟨.breakdown .overlong, output, errors⟩
  | .limitTooLarge => ⟨.breakdown .limitTooLarge, output, errors⟩
  | .unfinished => ⟨.breakdown .unfinished, output, errors⟩

def resultDepth : Nat := baseDepth - 2

def valueReport (room : Nat) (output errors : String) (v : Value) : Report :=
  match v.display room with
  | .ok shown => ⟨.exit 0, output ++ shown ++ "\n", errors⟩
  | .error .depth => ⟨.breakdown .depth, output, errors⟩
  | .error stop => haltReport output errors (.ofStop stop)

def settingRemark (debug : Bool) (limit : Setting) : String :=
  ((limit.remark? limitSetting).map (remark debug "egg.config")).getD ""

/-- Run a program, after `errors` has been written. -/
def programReport (turns room : Nat) (debug : Bool) (setting : Option String) (errors program : String) : Report :=
  let limit := Setting.read setting
  let errors := errors ++ settingRemark debug limit
  let session := Session.start (chooseLimit none limit)
  match session.read program with
  | .error halt => haltReport "" errors halt
  | .ok (depth, expr) =>
    -- a program that is told of is written inside the run, with the depth of the run
    match if debug then expr.written depth else .ok "" with
    | .error stop => haltReport "" errors (.ofStop stop)
    | .ok shown =>
      let errors := errors ++ remark debug "egg.interpreter" ("Parsed program: " ++ shown)
      let (result, session) := session.evaluateIn turns depth expr
      let output := session.store.output
      match result with
      | .ok v => valueReport room output errors v
      | .error halt => haltReport output errors halt

/-- A run without a program: the depth limit is tested before the lack of one shows. -/
def droppedReport (debug : Bool) (setting : Option String) : Report :=
  let limit := Setting.read setting
  let errors := settingRemark debug limit
  match depthUnder (chooseLimit none limit) with
  | none => haltReport "" errors .limitTooLarge
  | some _ => ⟨.breakdown (.source .dropped), "", errors⟩

/-- Run the program of a command line, as far as it could be read. -/
def runReport (turns : Nat) (args : Arguments) (setting : Option String) (program : Except SourceFault String)
    (room : Nat := resultDepth) : Report :=
  let errors := match args.source with
    | .file name => remark args.debug "egg.__main__" ("Reading " ++ name)
    | _ => ""
  match program with
  | .ok text => programReport turns room args.debug setting errors text
  | .error .dropped => droppedReport args.debug setting
  | .error f => ⟨.breakdown (.source f), "", errors⟩

end EggLang.Cli
