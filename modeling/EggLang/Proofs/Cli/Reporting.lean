/-
  EggLang.Proofs.Cli.Reporting — what a command line tells of the program it is given (`main`).

  A program is given behind `--eval=`, and is run as it stands there (`parseArguments_eval`), unless
  it is the word `--`, which is taken away. What is told is the output of its run and then the
  display of its value, or else one line about the fault of the run or of the display
  (`programReport_eq`).

  The display has its own depth, outside of the run, and when that is used up there is no fault to
  tell of: the run is broken off. Each level of arrays takes four steps, so 250 of them take all the
  thousand that there can be.

  - `program_reported`: what is told of a program, for all programs but `--` and whatever depth is
    left for the display.
  - `unreported_programs`: a short program with a value that is nested too deep, and `--`.
-/

import EggLang.Cli.Report
import EggLang.Proofs.Session.Runs
import EggLang.Proofs.Value.Stops

namespace EggLang.Cli

open EggLang.Session

/-! ## Words -/

/-- The word of the switch is cut at the first equals sign, so those in the program do no harm. -/
theorem sort_eval (s : String) : Word.sort ("--eval=" ++ s) = .ok (.switch .eval (.long s)) := by
  have hword : ("--eval=" ++ s).toList = '-' :: '-' :: 'e' :: 'v' :: 'a' :: 'l' :: '=' :: s.toList := by
    simp
  have hcut : cutAtEquals ('-' :: '-' :: 'e' :: 'v' :: 'a' :: 'l' :: '=' :: s.toList) = ("--eval", some s) := by
    simp [cutAtEquals]
  have hcandidates : candidates "--eval" = [("--eval", .eval)] := by decide +kernel
  unfold Word.sort
  rw [hword]
  simp only [hcut, hcandidates]
  rfl

/-- A program behind `--eval=` is taken as it stands there. -/
theorem parseArguments_eval {s : String} (hs : s ≠ "--") :
    parseArguments ["--eval=" ++ s] = .ok (.run ⟨some (.text s), none, false⟩) := by
  have hne : "--eval=" ++ s ≠ "--" := by
    intro h
    simpa using congrArg String.toList h
  have hsorted : Word.sortAll ["--eval=" ++ s] = .ok [.switch .eval (.long s)] := by
    rw [Word.sortAll, sort_eval]
    · rfl
    · exact hne
  rw [parseArguments, hsorted]
  show takeWords ⟨some (.attached s), none, false⟩ [] [] = _
  rw [Code.attached, if_neg hs]
  rfl

/-! ## Reports -/

/-- What is told of a run, when nothing has been written before. -/
theorem programReport_eq (turns room : Nat) (s : String) :
    programReport turns room false none "" s =
      match (start none).run turns s with
      | (.ok v, t) => valueReport room t.store.output "" v
      | (.error halt, t) => haltReport t.store.output "" halt := by
  have hlimit : chooseLimit none (Setting.read none) = none := rfl
  have hsetting : settingRemark false (Setting.read none) = "" := rfl
  have hremark : ∀ text, remark false "egg.interpreter" text = "" := fun _ => rfl
  simp only [programReport, Session.run, hlimit, hsetting, hremark, String.append_empty]
  cases (start none).read s with
  | error halt => rfl
  | ok read =>
    obtain ⟨depth, expr⟩ := read
    simp only
    rcases (start none).evaluateIn turns depth expr with ⟨halt | v, t⟩
    · rfl
    · rfl

theorem faultReport_eq (output : String) (f : Fault) :
    faultReport output "" f = ⟨.exit 1, output, f.report ++ "\n"⟩ := by
  rw [faultReport, String.empty_append]

/-- What is told of a value: its display, or the fault of that, or nothing when the value is nested
    too deep. -/
theorem valueReport_cases (room : Nat) (output : String) (v : Value) :
    (∃ shown, v.display room = .ok shown ∧ valueReport room output "" v = ⟨.exit 0, output ++ shown ++ "\n", ""⟩) ∨
    (∃ f, v.display room = .error (.fault f) ∧ valueReport room output "" v = ⟨.exit 1, output, f.report ++ "\n"⟩) ∨
    (room ≤ 4 * v.nesting ∧ v.display room = .error .depth ∧
      valueReport room output "" v = ⟨.breakdown .depth, output, ""⟩) := by
  simp only [valueReport]
  cases hshown : v.display room with
  | ok shown => exact .inl ⟨shown, rfl, rfl⟩
  | error stop =>
    rcases Value.display_stops hshown with rfl | ⟨bits, rfl⟩
    · exact .inr (.inr ⟨Value.display_depth hshown, rfl, rfl⟩)
    · exact .inr (.inl ⟨_, rfl, faultReport_eq output _⟩)

/-- A program other than `--` that is given behind `--eval=` is run as it is. When its run ends in a
    fault, the output and the fault are told; when it gives a value, the output and its display, or
    the fault of the display. Only a value with a level of arrays for every four steps that are left
    for its display may break the report off. -/
theorem program_reported {s : String} (hs : s ≠ "--") :
    ∃ args, parseArguments ["--eval=" ++ s] = .ok (.run args) ∧ args.source = .inline s ∧
      ∀ turns room outcome t, (start none).run turns s = (outcome, t) →
        (∀ f, outcome = .error (.fault f) →
          runReport turns args none (.ok s) room = ⟨.exit 1, t.store.output, f.report ++ "\n"⟩) ∧
        ∀ v, outcome = .ok v →
          (∃ shown, v.display room = .ok shown ∧
            runReport turns args none (.ok s) room = ⟨.exit 0, t.store.output ++ shown ++ "\n", ""⟩) ∨
          (∃ f, v.display room = .error (.fault f) ∧
            runReport turns args none (.ok s) room = ⟨.exit 1, t.store.output, f.report ++ "\n"⟩) ∨
          (room ≤ 4 * v.nesting ∧ v.display room = .error .depth ∧
            runReport turns args none (.ok s) room = ⟨.breakdown .depth, t.store.output, ""⟩) := by
  refine ⟨_, parseArguments_eval hs, rfl, ?_⟩
  intro turns room outcome t hrun
  have hreport : runReport turns ⟨some (.text s), none, false⟩ none (.ok s) room =
      programReport turns room false none "" s := rfl
  rw [hreport, programReport_eq, hrun]
  constructor
  · intro f hf
    rw [hf]
    exact faultReport_eq t.store.output f
  · intro v hv
    rw [hv]
    exact valueReport_cases room t.store.output v

def printingProgram : String := "do(print(\"=\"), array(\"a=b\"))"

theorem printingProgram_reported :
    printingProgram ≠ "--" ∧
    ∃ args, parseArguments ["--eval=" ++ printingProgram] = .ok (.run args) ∧
      runReport 1 args none (.ok printingProgram) = ⟨.exit 0, "=\n[\"a=b\"]\n", ""⟩ := by
  have hne : printingProgram ≠ "--" := by decide +kernel
  have hvalue : ((start none).run 1 printingProgram).1 = .ok (.array [.text "a=b"]) := by decide +kernel
  have houtput : ((start none).run 1 printingProgram).2.store.output = "=\n" := by decide +kernel
  have hdisplay : (Value.array [.text "a=b"]).display resultDepth = .ok "[\"a=b\"]" := by decide +kernel
  obtain ⟨args, hargs, -, hreport⟩ := program_reported hne
  refine ⟨hne, args, hargs, ?_⟩
  cases hrun : (start none).run 1 printingProgram with
  | mk outcome t =>
    rw [hrun] at hvalue houtput
    rcases (hreport 1 resultDepth outcome t hrun).2 _ hvalue with ⟨shown, hok, hshown⟩ | ⟨f, hfault, -⟩ | ⟨-, hdepth, -⟩
    · rw [hdisplay] at hok
      cases hok
      rw [hshown, houtput]
      rfl
    · rw [hdisplay] at hfault
      cases hfault
    · rw [hdisplay] at hdepth
      cases hdepth

def undisplayed : Except Halt Value → Bool
  | .ok v => v.display baseDepth = .error .depth
  | .error _ => false

/-- A program that wraps a value up in eight arrays, and that ninety times. -/
def deepProgram : String :=
  "do(define(b, array), define(a, 1), define(i, 0), " ++
    "while(<(i, 90), do(set(a, b(b(b(b(b(b(b(b(a))))))))), set(i, +(i, 1)))), a)"

/-- A program whose value breaks the report off, with all the depth that there can be for its
    display; and the program `--`, a word that is bound to nothing, which is taken away before it
    can be run. -/
theorem unreported_programs :
    (parseArguments ["--eval=" ++ deepProgram] = .ok (.run ⟨some (.text deepProgram), none, false⟩) ∧
      ∃ v t, (start none).run 91 deepProgram = (.ok v, t) ∧
        ∀ room ≤ baseDepth, runReport 91 ⟨some (.text deepProgram), none, false⟩ none (.ok deepProgram) room =
          ⟨.breakdown .depth, t.store.output, ""⟩) ∧
    parseArguments ["--eval=" ++ "--"] = .ok (.run ⟨some .dropped, none, false⟩) ∧
    ((start none).run 1 "--").1 = .error (.fault (.unbound "--")) ∧
    runReport 1 ⟨some .dropped, none, false⟩ none (.error .dropped) = ⟨.breakdown (.source .dropped), "", ""⟩ := by
  have hne : deepProgram ≠ "--" := by decide +kernel
  have hdeep : undisplayed ((start none).run 91 deepProgram).1 = true := by decide +kernel
  refine ⟨⟨parseArguments_eval hne, ?_⟩, by decide +kernel, by decide +kernel, by decide +kernel⟩
  cases hrun : (start none).run 91 deepProgram with
  | mk outcome t =>
    rw [hrun] at hdeep
    cases outcome with
    | error halt => cases hdeep
    | ok v =>
      have hdisplay : v.display baseDepth = .error .depth := of_decide_eq_true hdeep
      refine ⟨v, t, rfl, ?_⟩
      intro room hroom
      show programReport 91 room false none "" deepProgram = _
      rw [programReport_eq, hrun]
      show valueReport room t.store.output "" v = _
      rw [valueReport, Value.display_depth_of_le hroom hdisplay]

end EggLang.Cli
