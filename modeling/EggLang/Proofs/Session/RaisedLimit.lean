/-
  EggLang.Proofs.Session.RaisedLimit — what a larger depth limit changes (`_recursion_limit`).

  A run spends its depth budget in reading the program and again in evaluating it. Nothing in a
  program can ask how much of it is left, so a limit is felt only when the budget is used up:

  - `readProgram_raised`: reading with more depth gives the same, unless the depth was used up.
  - `run_more_turns`: a run that has come to its end does not depend on the turns it may take.
  - `run_under_raised_limit`: a run that ends under a limit, other than for want of depth, ends the
    same under a larger one, down to the store. One that ends for want of depth has printed a part
    of what is printed under the larger one.

  A session that is asked for no limit takes the one that is set from outside
  (`get_recursion_limit`), which is any text. A text that is no positive integer sets no limit. One
  that is sets a limit, however large; and what can be read as an integer goes far beyond the
  largest limit that can be obeyed. So:

  - `run_with_setting`: a run that has depth enough without a setting comes to the same under one,
    exactly when that does not set more than the largest limit. Under one that does, nothing is run.
  - `one_under_oversized_setting`: the least such setting, and a program that it keeps from running.
-/

import EggLang.Proofs.Session.Runs

namespace EggLang

open EggLang.Eval EggLang.Program EggLang.Scope

/-! ## Reading -/

namespace Program

variable {early : Stop → Prop}

theorem readArgs_raised {read read' : List Char → Read} (h : ∀ text, Agrees early (· = ·) (read text) (read' text))
    (room : Nat) (text : List Char) :
    Agrees early (· = ·) (readArgs read room text) (readArgs read' room text) := by
  fun_induction readArgs read room text with
  | case1 _ rest =>
    rw [readArgs]
    exact .same _
  | case2 =>
    rw [readArgs]
    exact .same _
  | case3 text hclosing hend =>
    rw [readArgs]
    · exact .same _
    · exact hclosing
    · exact hend
  | case4 room text hclosing hend ih =>
    rw [readArgs.eq_4 _ _ _ hclosing hend]
    refine (h text).bind_same ?_
    intro ⟨arg, rest⟩
    dsimp only
    split
    · rename_i after _
      refine (ih after).bind_same ?_
      intro ⟨args, last⟩
      exact .same _
    · exact .same _
    · exact .same _

theorem readExpr_readCalls_raised (room : Nat) {depth depth' : Nat} (hD : Raised (early .depth) depth depth') :
    (∀ text, Agrees early (· = ·) (readExpr room depth text) (readExpr room depth' text)) ∧
      ∀ expr text, Agrees early (· = ·) (readCalls room depth expr text) (readCalls room depth' expr text) := by
  induction depth generalizing depth' with
  | zero =>
    by_cases h0 : depth' = 0
    · rw [h0]
      exact ⟨fun _ => .same _, fun _ _ => .same _⟩
    · have he := hD.noticed (by omega)
      unfold readExpr readCalls
      exact ⟨fun _ => .early _ he, fun _ _ => .early _ he⟩
  | succ depth ih =>
    obtain ⟨depth', rfl⟩ : ∃ n, depth' = n + 1 := ⟨depth' - 1, by have := hD.le; omega⟩
    obtain ⟨hexpr, hcalls⟩ := ih hD.pred
    constructor
    · intro text
      rw [readExpr, readExpr]
      refine (Agrees.same (readToken (skipFiller text))).bind_same ?_
      intro ⟨atom, rest⟩
      exact hcalls atom rest
    · intro expr text
      rw [readCalls, readCalls]
      split
      · rename_i rest _
        refine (readArgs_raised hexpr room (skipFiller rest)).bind_same ?_
        intro ⟨args, after⟩
        exact hcalls (.apply expr args) after
      · exact .same _

/-- Reading with more depth gives the same, unless the depth was used up. -/
theorem readProgram_raised (early : Stop → Prop) {depth depth' : Nat} (hD : Raised (early .depth) depth depth')
    (text : List Char) :
    Agrees early (· = ·) (readProgram depth text) (readProgram depth' text) := by
  unfold readProgram readFront
  refine ((readExpr_readCalls_raised (text.length + 1) hD).1 text).bind_same ?_
  intro ⟨expr, rest⟩
  exact .same _

end Program

namespace Session

/-! ## Ends of a run -/

def ended : Except Halt Value → Bool
  | .error .unfinished => false
  | _ => true

def exhausted : Except Halt Value → Bool
  | .error (.fault f) => f.kind = .recursion
  | _ => false

theorem exhausted_iff {outcome : Except Halt Value} :
    exhausted outcome ↔ outcome = .error (.fault .depthExceeded) := by
  constructor
  · intro h
    match outcome, h with
    | .error (.fault f), h =>
      cases f <;> simp [exhausted, Fault.kind] at h
      rfl
  · intro h
    rw [h]
    rfl

/-- A run that has come to its end does not depend on the turns that its loops may take. -/
theorem run_more_turns {s : Session} {turns turns' : Nat} (hle : turns ≤ turns') {program : String}
    (hend : ended (s.run turns program).1) : s.run turns' program = s.run turns program := by
  unfold run at hend ⊢
  cases hread : s.read program with
  | error halt => rfl
  | ok read =>
    obtain ⟨depth, expr⟩ := read
    simp only [hread, evaluateIn] at hend ⊢
    obtain hsame | ⟨_, t, rfl, herror, -⟩ := evaluate_raised (· = .turns) ⟨hle, fun _ => rfl⟩ (Raised.refl _ depth)
      expr (s.store.push (some s.top)).1 (s.store.push (some s.top)).2
    · rw [hsame]
    · rw [herror] at hend
      cases hend

/-! ## Limits -/

def under (s : Session) (limit : Option Int) : Session := { s with limit := limit }

/-- What a limit counts as: one that is absent or small counts as the depth that there always is. -/
def counted (limit : Option Int) : Int := max baseDepth (limit.getD baseDepth)

theorem depthUnder_of_counted {limit : Option Int} (h : counted limit ≤ largestLimit) :
    ∃ depth, depthUnder limit = some depth ∧ (depth : Int) = counted limit := by
  unfold counted at h ⊢
  cases limit with
  | none => exact ⟨baseDepth, rfl, by simp⟩
  | some n =>
    simp only [Option.getD_some, depthUnder] at h ⊢
    by_cases hbase : n ≤ baseDepth
    · exact ⟨baseDepth, by rw [if_pos hbase], by omega⟩
    · exact ⟨n.toNat, by rw [if_neg hbase, if_pos (by omega)], by omega⟩

theorem run_eq_evaluateIn {s : Session} {depth : Nat} (hdepth : depthUnder s.limit = some depth) {program : String}
    {expr : Expr} (hread : readProgram depth program.toList = .ok expr) (turns : Nat) :
    s.run turns program = s.evaluateIn turns depth expr := by
  simp only [run, read, hdepth, hread]

theorem run_eq_error {s : Session} {depth : Nat} (hdepth : depthUnder s.limit = some depth) {program : String}
    {stop : Stop} (hread : readProgram depth program.toList = .error stop) (turns : Nat) :
    s.run turns program = (.error (.ofStop stop), s) := by
  simp only [run, read, hdepth, hread]

def SameEnd (r r' : Except Halt Value × Session) : Prop := r.1 = r'.1 ∧ r.2.store = r'.2.store

/-- An expression evaluated with more depth comes to the same, unless the depth was used up. -/
theorem evaluateIn_raised (s : Session) (limit limit' : Option Int) {depth depth' : Nat} (hle : depth ≤ depth')
    (turns : Nat) (expr : Expr) :
    SameEnd ((s.under limit').evaluateIn turns depth' expr) ((s.under limit).evaluateIn turns depth expr) ∨
      ((s.under limit).evaluateIn turns depth expr).1 = .error (.fault .depthExceeded) ∧
      Printed ((s.under limit).evaluateIn turns depth expr).2.store
        ((s.under limit').evaluateIn turns depth' expr).2.store := by
  rcases evaluate_raised (· = .depth) (Raised.refl _ turns) ⟨hle, fun _ => rfl⟩ expr (s.store.push (some s.top)).1
    (s.store.push (some s.top)).2 with hsame | ⟨_, t, rfl, herror, hp⟩
  · left
    simp only [evaluateIn, under, hsame]
    cases evaluate turns depth expr (s.store.push (some s.top)).1 (s.store.push (some s.top)).2 with
    | ok v t => exact ⟨rfl, rfl⟩
    | error stop t => exact ⟨rfl, rfl⟩
  · right
    refine ⟨?_, ?_⟩
    · simp only [evaluateIn, under, herror]
      rfl
    · simp only [session_evaluateIn, under, herror]
      exact hp

/-- Raising the limit changes nothing in a run, unless it ended for want of depth. -/
theorem run_raised (s : Session) {limit limit' : Option Int} (hle : counted limit ≤ counted limit')
    (hlargest : counted limit' ≤ largestLimit) (turns : Nat) (program : String) :
    SameEnd ((s.under limit').run turns program) ((s.under limit).run turns program) ∨
      ((s.under limit).run turns program).1 = .error (.fault .depthExceeded) ∧
      Printed ((s.under limit).run turns program).2.store ((s.under limit').run turns program).2.store := by
  obtain ⟨depth, hdepth, hcount⟩ := depthUnder_of_counted (Int.le_trans hle hlargest)
  obtain ⟨depth', hdepth', hcount'⟩ := depthUnder_of_counted hlargest
  have hdepths : depth ≤ depth' := by omega
  obtain hsame | ⟨_, rfl, hstop⟩ := (readProgram_raised (· = .depth) ⟨hdepths, fun _ => rfl⟩ program.toList).eq_or_early
  · cases hread : readProgram depth program.toList with
    | ok expr =>
      rw [run_eq_evaluateIn (s := s.under limit) hdepth hread,
        run_eq_evaluateIn (s := s.under limit') hdepth' (hsame ▸ hread)]
      exact evaluateIn_raised s limit limit' hdepths turns expr
    | error stop =>
      rw [run_eq_error (s := s.under limit) hdepth hread, run_eq_error (s := s.under limit') hdepth' (hsame ▸ hread)]
      exact .inl ⟨rfl, rfl⟩
  · -- the program was not even read under the smaller limit, so nothing was printed
    rw [run_eq_error (s := s.under limit) hdepth hstop]
    exact .inr ⟨rfl, run_printed (s.under limit') turns program⟩

/-- A run that ends under a limit with a value, or with an error that is not for want of depth, ends
    the same under a larger limit. One that ends for want of depth has printed what the other prints
    first. -/
theorem run_under_raised_limit (s : Session) {limit limit' : Option Int} (hle : counted limit ≤ counted limit')
    (hlargest : counted limit' ≤ largestLimit) {turns turns' : Nat} {program : String}
    (hend : ended ((s.under limit).run turns program).1) (hend' : ended ((s.under limit').run turns' program).1) :
    (¬ exhausted ((s.under limit).run turns program).1 →
      ((s.under limit').run turns' program).1 = ((s.under limit).run turns program).1 ∧
      ((s.under limit').run turns' program).2.store = ((s.under limit).run turns program).2.store) ∧
    (exhausted ((s.under limit).run turns program).1 →
      ∃ printed more, ((s.under limit).run turns program).2.store.output = s.store.output ++ printed ∧
        ((s.under limit').run turns' program).2.store.output = s.store.output ++ (printed ++ more)) := by
  -- both runs have ended, so each may be given as many turns as the other
  rw [← run_more_turns (Nat.le_max_left turns turns') hend, ← run_more_turns (Nat.le_max_right turns turns') hend']
  obtain ⟨hsame, hstore⟩ | ⟨hdepth, more, hmore⟩ := run_raised s hle hlargest (max turns turns') program
  · refine ⟨fun _ => ⟨hsame, hstore⟩, fun _ => ?_⟩
    obtain ⟨printed, hprinted⟩ := run_printed (s.under limit) (max turns turns') program
    refine ⟨printed, "", hprinted, ?_⟩
    rw [hstore, hprinted, String.append_empty]
    rfl
  · refine ⟨fun h => absurd (exhausted_iff.mpr hdepth) h, fun _ => ?_⟩
    obtain ⟨printed, hprinted⟩ := run_printed (s.under limit) (max turns turns') program
    refine ⟨printed, more, hprinted, ?_⟩
    rw [hmore, hprinted, String.append_assoc]
    rfl

def nestedArray : Nat → Value
  | 0 => .array []
  | levels + 1 => .array [nestedArray levels]

/-- A session in whose top frame a name is bound to arrays too deep to be displayed without a
    limit. -/
def deepSession : Session :=
  let s := start none
  { s with store := s.store.define s.top "deep" (nestedArray 260) }

def printingDeep : String := "do(print(1), print(deep))"

def measuringDeep : String := "do(print(1), set(deep, length(deep)))"

/-- Without a limit the arrays cannot be printed, and what is printed before them is printed under
    the limit too; their length can be told, and set in their place, and under the limit that comes
    to the same. -/
theorem print_deep_under_raised_limit :
    (exhausted ((deepSession.under none).run 1 printingDeep).1 ∧
      ¬ exhausted ((deepSession.under (some 1100)).run 1 printingDeep).1 ∧
      ∃ printed more,
        ((deepSession.under none).run 1 printingDeep).2.store.output = deepSession.store.output ++ printed ∧
        ((deepSession.under (some 1100)).run 1 printingDeep).2.store.output =
          deepSession.store.output ++ (printed ++ more)) ∧
    ((deepSession.under (some 1100)).run 2 measuringDeep).1 = .ok (.int 1) ∧
    ((deepSession.under (some 1100)).run 2 measuringDeep).2.store =
      ((deepSession.under none).run 1 measuringDeep).2.store := by
  have hle : counted none ≤ counted (some 1100) := by
    simp only [counted, baseDepth, Option.getD]
    omega
  have hlargest : counted (some 1100) ≤ largestLimit := by
    simp only [counted, baseDepth, largestLimit, Option.getD]
    omega
  constructor
  · have hexhausted : exhausted ((deepSession.under none).run 1 printingDeep).1 := by decide +kernel
    have hend : ended ((deepSession.under none).run 1 printingDeep).1 := by decide +kernel
    have hend' : ended ((deepSession.under (some 1100)).run 1 printingDeep).1 := by decide +kernel
    refine ⟨hexhausted, by decide +kernel, ?_⟩
    exact (run_under_raised_limit deepSession hle hlargest hend hend').2 hexhausted
  · have hvalue : ((deepSession.under none).run 1 measuringDeep).1 = .ok (.int 1) := by decide +kernel
    have hend : ended ((deepSession.under none).run 1 measuringDeep).1 := by rw [hvalue]; rfl
    have hend' : ended ((deepSession.under (some 1100)).run 2 measuringDeep).1 := by decide +kernel
    have hfinished : ¬ exhausted ((deepSession.under none).run 1 measuringDeep).1 := by
      rw [hvalue]
      exact Bool.false_ne_true
    obtain ⟨hsame, hstore⟩ := (run_under_raised_limit deepSession hle hlargest hend hend').1 hfinished
    exact ⟨hsame.trans hvalue, hstore⟩

/-! ## A limit that is set from outside -/

def startWith (setting : Option String) : Session := start (chooseLimit none (Setting.read setting))

/-- A setting that is no positive integer is ignored. -/
theorem startWith_of_ignored {raw : String} (h : ∀ n, Setting.read (some raw) ≠ .value n) :
    startWith (some raw) = startWith none := by
  unfold startWith
  cases hread : Setting.read (some raw) with
  | value n => exact absurd hread (h n)
  | _ => rfl

theorem startWith_of_value {raw : String} {n : Nat} (h : Setting.read (some raw) = .value n) :
    startWith (some raw) = (startWith none).under (some n) := by
  rw [startWith, h]
  rfl

/-- A limit that can be obeyed changes nothing in a run that has depth enough without one. -/
theorem run_under_limit {n : Nat} (hn : n ≤ largestLimit) {turns : Nat} {program : String}
    (hdepth : ¬ exhausted ((startWith none).run turns program).1) :
    SameEnd (((startWith none).under (some n)).run turns program) ((startWith none).run turns program) := by
  have hle : counted none ≤ counted (some n) := by simp only [counted, Option.getD]; omega
  have hlargest : counted (some n) ≤ largestLimit := by
    simp only [counted, Option.getD, baseDepth, largestLimit] at hn ⊢
    omega
  obtain hsame | ⟨hexhausted, -⟩ := run_raised (startWith none) hle hlargest turns program
  · exact hsame
  · exact absurd (exhausted_iff.mpr hexhausted) hdepth

/-- A limit that cannot be obeyed keeps every program from running. -/
theorem run_under_oversized_limit (s : Session) {n : Nat} (hn : largestLimit < n) (turns : Nat) (program : String) :
    (s.under (some n)).run turns program = (.error .limitTooLarge, s.under (some n)) := by
  have hbase : ¬ (n : Int) ≤ baseDepth := by simp only [largestLimit, baseDepth] at hn ⊢; omega
  have hlargest : ¬ (n : Int) ≤ largestLimit := by omega
  have hdepth : depthUnder (some n) = none := by rw [depthUnder, if_neg hbase, if_neg hlargest]
  simp only [run, read, under, hdepth]

/-- Without a setting there is a limit that can be obeyed. -/
theorem run_without_setting_obeys (turns : Nat) (program : String) :
    ((startWith none).run turns program).1 ≠ .error .limitTooLarge := by
  intro h
  have hdepth : depthUnder (startWith none).limit = some baseDepth := rfl
  obtain hread | ⟨_, _, stop, _, -, hstop, -⟩ := run_halts h
  · simp only [read, hdepth] at hread
    split at hread
    · cases hread
    · rename_i stop _
      cases stop <;> cases hread
  · cases stop <;> cases hstop

/-- A run that has depth enough without a setting comes to the same under one, its value or its
    error and the store with all that was printed, if and only if the setting does not set more than
    the largest limit that can be obeyed. A setting that sets more keeps the program from being
    read. -/
theorem run_with_setting (raw program : String) {turns : Nat}
    (hdepth : ¬ exhausted ((startWith none).run turns program).1) :
    (SameEnd ((startWith (some raw)).run turns program) ((startWith none).run turns program) ↔
      ∀ n, Setting.read (some raw) = .value n → n ≤ largestLimit) ∧
    (∀ n, Setting.read (some raw) = .value n → largestLimit < n →
      (startWith (some raw)).run turns program = (.error .limitTooLarge, startWith (some raw))) := by
  have hoversized : ∀ n, Setting.read (some raw) = .value n → largestLimit < n →
      (startWith (some raw)).run turns program = (.error .limitTooLarge, startWith (some raw)) := by
    intro n hread hn
    rw [startWith_of_value hread]
    exact run_under_oversized_limit (startWith none) hn turns program
  refine ⟨⟨?_, ?_⟩, hoversized⟩
  · intro hsame n hread
    refine Nat.le_of_not_lt fun hn => run_without_setting_obeys turns program ?_
    rw [← hsame.1, hoversized n hread hn]
  · intro hobeyed
    by_cases hset : ∃ n, Setting.read (some raw) = .value n
    · obtain ⟨n, hread⟩ := hset
      rw [startWith_of_value hread]
      exact run_under_limit (hobeyed n hread) hdepth
    · rw [startWith_of_ignored (not_exists.mp hset)]
      exact ⟨rfl, rfl⟩

/-- A setting with blanks at its ends, a sign, digits of two scripts and an underscore sets the
    limit 1200. -/
theorem print_with_setting :
    Setting.read (some " +\uff11_\uff1200\n") = .value 1200 ∧
    ¬ exhausted ((startWith none).run 1 "do(print(1), x)").1 ∧
    SameEnd ((startWith (some " +\uff11_\uff1200\n")).run 1 "do(print(1), x)")
      ((startWith none).run 1 "do(print(1), x)") := by
  have hread : Setting.read (some " +\uff11_\uff1200\n") = .value 1200 := by decide +kernel
  have hdepth : ¬ exhausted ((startWith none).run 1 "do(print(1), x)").1 := by decide +kernel
  refine ⟨hread, hdepth, (run_with_setting " +\uff11_\uff1200\n" "do(print(1), x)" hdepth).1.mpr ?_⟩
  intro n hn
  rw [hread] at hn
  cases hn
  decide

/-- The least limit that cannot be obeyed is set, and a program that needs no depth at all gives no
    value. -/
theorem one_under_oversized_setting :
    ((startWith none).run 1 "1").1 = .ok (.int 1) ∧
    Setting.read (some "2147483648") = .value (largestLimit + 1) ∧
    ((startWith (some "2147483648")).run 1 "1").1 = .error .limitTooLarge := by
  decide +kernel

end Session

end EggLang
