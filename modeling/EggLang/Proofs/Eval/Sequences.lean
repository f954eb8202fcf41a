/-
  EggLang.Proofs.Eval.Sequences — expressions evaluated one after the other.

  A call evaluates its arguments to a list of values, and `do` (`do_form`) evaluates its arguments
  to the value of the last. In both, each argument is evaluated in the store that the ones before it
  have left, and the first one that stops is the last one that is evaluated. `Yields` tells what
  values expressions have in this order, without saying what is made of them.

  - `yields_or_stops`: expressions all have values, or there is a first one that stops.
  - `evaluateAll_of_yields` / `evaluateLast_of_yields`, `evaluateAll_of_stop` /
    `evaluateLast_of_stop`: both ways to evaluate expressions in order come to what that order
    gives.
  - `array_and_do_in_order`: `array` and `do` give the values of their arguments, or the last of
    them, with the same effects, or stop at the same argument.
-/

import EggLang.Proofs.Eval.Steps

namespace EggLang.Eval

open EggLang.Scope EggLang.Program

/-- The expressions, evaluated from the left in the store `s`, have the values `vs` and leave the
    store `t`. -/
inductive Yields (ev : Expr → Action Value) : List Expr → Store → List Value → Store → Prop
  | nil {s : Store} : Yields ev [] s [] s
  | cons {e : Expr} {rest : List Expr} {v : Value} {vs : List Value} {s t u : Store} :
      ev e s = .ok v t → Yields ev rest t vs u → Yields ev (e :: rest) s (v :: vs) u

section

variable {ev : Expr → Action Value}

/-! ## Values in order -/

theorem Yields.length_eq {args : List Expr} {s t : Store} {vs : List Value} (h : Yields ev args s vs t) :
    vs.length = args.length := by
  induction h with
  | nil => rfl
  | cons _ _ ih => rw [List.length_cons, List.length_cons, ih]

theorem Yields.concat {args : List Expr} {e : Expr} {s t u : Store} {vs : List Value} {v : Value}
    (h : Yields ev args s vs t) (he : ev e t = .ok v u) : Yields ev (args ++ [e]) s (vs ++ [v]) u := by
  induction h with
  | nil => exact .cons he .nil
  | cons ha _ ih => exact .cons ha (ih he)

/-- Expressions all have values, or there is a first one that stops. -/
theorem yields_or_stops (ev : Expr → Action Value) (args : List Expr) (s : Store) :
    (∃ vs t, Yields ev args s vs t) ∨
    ∃ before e after vs u stop t, args = before ++ e :: after ∧ Yields ev before s vs u ∧ ev e u = .error stop t := by
  induction args generalizing s with
  | nil => exact .inl ⟨[], s, .nil⟩
  | cons a rest ih =>
    cases ha : ev a s with
    | error stop t => exact .inr ⟨[], a, rest, [], s, stop, t, rfl, .nil, ha⟩
    | ok v t =>
      rcases ih t with ⟨vs, u, hvs⟩ | ⟨before, e, after, vs, u, stop, r, rfl, hvs, he⟩
      · exact .inl ⟨v :: vs, u, .cons ha hvs⟩
      · exact .inr ⟨a :: before, e, after, v :: vs, u, stop, r, rfl, .cons ha hvs, he⟩

/-! ## The two ways to evaluate in order -/

theorem evaluateAll_of_yields {args : List Expr} {s t : Store} {vs : List Value} (h : Yields ev args s vs t) :
    evaluateAll ev args s = .ok vs t := by
  induction h with
  | nil => rfl
  | cons he _ ih => rw [evaluateAll, bind_of_ok _ he, bind_of_ok _ ih]; rfl

theorem evaluateLast_of_yields {args : List Expr} {s t : Store} {vs : List Value} (h : Yields ev args s vs t)
    (last : Value) : evaluateLast ev last args s = .ok (vs.getLastD last) t := by
  induction h generalizing last with
  | nil => rfl
  | cons he _ ih => rw [evaluateLast, bind_of_ok _ he, ih, List.getLastD_cons]

/-- An expression that stops ends the evaluation, whatever comes after it. -/
theorem evaluateAll_of_stop {before : List Expr} {e : Expr} {s u t : Store} {vs : List Value} {stop : Stop}
    (h : Yields ev before s vs u) (he : ev e u = .error stop t) (after : List Expr) :
    evaluateAll ev (before ++ e :: after) s = .error stop t := by
  induction h with
  | nil => exact bind_of_error _ he
  | cons ha _ ih => rw [List.cons_append, evaluateAll, bind_of_ok _ ha, bind_of_error _ (ih he)]

theorem evaluateLast_of_stop {before : List Expr} {e : Expr} {s u t : Store} {vs : List Value} {stop : Stop}
    (h : Yields ev before s vs u) (he : ev e u = .error stop t) (last : Value) (after : List Expr) :
    evaluateLast ev last (before ++ e :: after) s = .error stop t := by
  induction h generalizing last with
  | nil => exact bind_of_error _ he
  | cons ha _ ih => rw [List.cons_append, evaluateLast, bind_of_ok _ ha, ih he]

end

/-! ## Arrays and sequences -/

def sequenceOf (args : List Expr) : Expr := .apply (.word "do") args

def arrayOf (args : List Expr) : Expr := .apply (.word "array") args

theorem evaluate_sequenceOf (turns depth : Nat) (args : List Expr) (f : FrameId) :
    evaluate turns (depth + 2) (sequenceOf args) f =
      evaluateLast (fun e => evaluate turns depth e f) (.flag false) args := by
  rfl

/-- Where its word is bound to it, `array` gives the values of its arguments: the word is looked up
    before any of them is evaluated. -/
theorem evaluate_arrayOf {f : FrameId} {s : Store} (harray : s.lookup? f "array" = some (.builtin .array))
    (turns depth : Nat) (args : List Expr) :
    evaluate turns (depth + 2) (arrayOf args) f s =
      (evaluateAll (fun e => evaluate turns depth e f) args >>= fun vs => pure (.array vs) : Action Value) s := by
  have hoperator : evaluate turns (depth + 1) (.word "array") f s = .ok (.builtin .array) s := by
    rw [evaluate, Action.lookup, harray]
  rw [arrayOf, evaluate]
  exact bind_of_ok _ hoperator

/-- From a frame in which `array` is bound to its builtin, `array` and `do` applied to the same
    expressions give the values that these have in order, and the last of them, and leave the same
    store; or both stop where the first of the expressions stops, as they would with any others
    behind it. -/
theorem array_and_do_in_order {f : FrameId} {s : Store} (harray : s.lookup? f "array" = some (.builtin .array))
    (turns depth : Nat) (args : List Expr) :
    (∃ vs t, Yields (fun e => evaluate turns depth e f) args s vs t ∧ vs.length = args.length ∧
      evaluate turns (depth + 2) (arrayOf args) f s = .ok (.array vs) t ∧
      evaluate turns (depth + 2) (sequenceOf args) f s = .ok (vs.getLastD (.flag false)) t) ∨
    (∃ before e after vs u stop t, args = before ++ e :: after ∧
      Yields (fun e => evaluate turns depth e f) before s vs u ∧ evaluate turns depth e f u = .error stop t ∧
      ∀ others, evaluate turns (depth + 2) (arrayOf (before ++ e :: others)) f s = .error stop t ∧
        evaluate turns (depth + 2) (sequenceOf (before ++ e :: others)) f s = .error stop t) := by
  rcases yields_or_stops (fun e => evaluate turns depth e f) args s with
    ⟨vs, t, hvs⟩ | ⟨before, e, after, vs, u, stop, t, hargs, hvs, he⟩
  · refine .inl ⟨vs, t, hvs, hvs.length_eq, ?_, ?_⟩
    · rw [evaluate_arrayOf harray, bind_of_ok _ (evaluateAll_of_yields hvs)]
      rfl
    · rw [evaluate_sequenceOf, evaluateLast_of_yields hvs]
  · refine .inr ⟨before, e, after, vs, u, stop, t, hargs, hvs, he, fun others => ⟨?_, ?_⟩⟩
    · rw [evaluate_arrayOf harray, bind_of_error _ (evaluateAll_of_stop hvs he others)]
    · rw [evaluate_sequenceOf, evaluateLast_of_stop hvs he]

def innerFrame : Store := (Store.empty.pushTop.2.push (some 0)).2

/-- The word `array` is bound to something else, a number is printed, a name is looked up that is
    bound to nothing, and another number would be printed. -/
def rebindingArgs : List Expr :=
  [.apply (.word "define") [.word "array", .number 1], .apply (.word "print") [.number 2], .word "y",
    .apply (.word "print") [.number 3]]

theorem array_and_do_at_unbound :
    innerFrame.lookup? 1 "array" = some (.builtin .array) ∧
    ∃ t, evaluate 1 9 (arrayOf rebindingArgs) 1 innerFrame = .error (.fault (.unbound "y")) t ∧
      evaluate 1 9 (sequenceOf rebindingArgs) 1 innerFrame = .error (.fault (.unbound "y")) t ∧ t.output = "2\n" := by
  have harray : innerFrame.lookup? 1 "array" = some (.builtin .array) := by rfl
  have hstop : stopOf? (evaluate 1 9 (arrayOf rebindingArgs) 1 innerFrame) = some (.fault (.unbound "y")) := by
    decide +kernel
  have hprinted : (storeOf (evaluate 1 9 (arrayOf rebindingArgs) 1 innerFrame)).output = "2\n" := by decide +kernel
  refine ⟨harray, ?_⟩
  rcases array_and_do_in_order harray 1 7 rebindingArgs with
    ⟨vs, t, -, -, hvalues, -⟩ | ⟨before, e, after, vs, u, stop, t, hargs, -, -, hothers⟩
  · rw [hvalues] at hstop
    cases hstop
  · obtain ⟨hall, hlast⟩ := hothers after
    rw [← hargs] at hall hlast
    rw [hall] at hstop hprinted
    cases hstop
    exact ⟨t, hall, hlast, hprinted⟩

end EggLang.Eval
