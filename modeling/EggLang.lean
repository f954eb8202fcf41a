import EggLang.Text
import EggLang.Numeric
import EggLang.Fault
import EggLang.Program.Expr
import EggLang.Program.Reader
import EggLang.Value.Basic
import EggLang.Value.Operators
import EggLang.Scope.Listing
import EggLang.Scope.Store
import EggLang.Eval.Evaluate
import EggLang.Session
import EggLang.Cli.Arguments
import EggLang.Cli.Report
import EggLang.Main
import EggLang.Proofs.Outcome
import EggLang.Proofs.Program.Layout
import EggLang.Proofs.Program.Lexing
import EggLang.Proofs.Program.Reading
import EggLang.Proofs.Program.Written
import EggLang.Proofs.Program.RoundTrip
import EggLang.Proofs.Value.Alike
import EggLang.Proofs.Scope.Owned
import EggLang.Proofs.Scope.Held
import EggLang.Proofs.Scope.Chain
import EggLang.Proofs.Eval.Lasting
import EggLang.Proofs.Eval.Coupling
import EggLang.Proofs.Eval.Watch
import EggLang.Proofs.Eval.Frames
import EggLang.Proofs.Eval.Renaming
import EggLang.Proofs.Eval.Unmentioned
import EggLang.Proofs.Eval.Reachable
import EggLang.Proofs.Session.Runs
import EggLang.Proofs.Session.RaisedLimit
import EggLang.Proofs.Session.Isolation
import EggLang.Proofs.Scope.History
import EggLang.Proofs.Value.Stops
import EggLang.Proofs.Eval.Steps
import EggLang.Proofs.Eval.Sequences
import EggLang.Proofs.Eval.Loops
import EggLang.Proofs.Eval.Grown
import EggLang.Proofs.Session.Resolved
import EggLang.Proofs.Cli.Reporting
import EggLang.Proofs.Session.Halts
import EggLang.Proofs.Session.Formulas
import EggLang.Proofs.Numeric.Range
import EggLang.Proofs.Numeric.Line
import EggLang.Proofs.Value.Shown
import EggLang.Proofs.Value.Arithmetic
import EggLang.Proofs.Value.Equality
import EggLang.Proofs.Value.Ordering
import EggLang.Proofs.Eval.Indistinct
import EggLang.Proofs.Eval.Printing
import EggLang.Proofs.Value.Indexing
import EggLang.Proofs.Program.Separators
import EggLang.Proofs.Program.Appending
import EggLang.Proofs.Program.ArgumentLists
import EggLang.Proofs.Program.LongestFiller
import EggLang.Proofs.Scope.BulkBinding
import EggLang.Proofs.Session.SettingTexts
