/-
  EggLang.Main — the command line program (`main`).

  Reads what a command line names, has it run, and writes what is reported.
-/

import EggLang.Cli.Report

namespace EggLang.Cli

/-- Turns enough for any loop that ends in a lifetime. -/
def loopTurns : Nat := Numeric.twoPow 62

def loadFile (name : String) : IO (Except SourceFault String) := do
  try
    return fileText (← IO.FS.readBinFile name)
  catch
    | .noFileOrDirectory .. => return .error .missing
    | _ => return .error .directory

def loadSource : Source → IO (Except SourceFault String)
  | .inline text => return .ok text
  | .dropped => return .error .dropped
  | .file name => loadFile name
  | .standardInput => do
    let input ← IO.getStdin
    return .ok (inputText (← input.readToEnd))

/-- What a user is told of a run that is broken off. -/
def Breakdown.line : Breakdown → String
  | .source .dropped => "no program is left to run"
  | .source .missing => "no such file"
  | .source .directory => "not a readable file"
  | .source .notUtf8 => "not a UTF-8 text"
  | .overlong => "an integer is too long to be written"
  | .limitTooLarge => "the depth limit is too large"
  | .depth => "the value is nested too deep to be displayed"
  | .unfinished => "a loop does not end"

def deliver (r : Report) : IO UInt32 := do
  IO.print r.output
  IO.eprint r.errors
  match r.ending with
  | .exit status => return status.toUInt32
  | .breakdown b => do
    IO.eprintln ("egg: " ++ b.line)
    return 1

end EggLang.Cli

open EggLang.Cli in
def main (words : List String) : IO UInt32 := do
  match parseArguments words with
  | .error f => deliver (usageReport f)
  | .ok .help => deliver helpReport
  | .ok (.run args) => do
    let setting ← IO.getEnv EggLang.Session.limitSetting
    let program ← loadSource args.source
    deliver (runReport loopTurns args setting program)
