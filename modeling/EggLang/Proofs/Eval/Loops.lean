/-
  EggLang.Proofs.Eval.Loops — a loop (`while_form`) is its condition and its body in a row.

  A loop evaluates its condition, its body, its condition, and so on, in one frame, each in the
  store that the one before has left, and gives false when the condition does. The same row of
  expressions can be written under `do` (`alternating`), as far as the loop goes. How far that is
  nothing bounds, so it is told of evaluations that may take all the turns they need (`Ends`); the
  depth is the same for the loop and for the row.

  - `evaluate_more_turns`: an evaluation that has come to its end does not depend on the turns it
    may take.
  - `repeatWhile_turn`: one turn of a loop, from which `repeatWhile_of_false` and
    `repeatWhile_of_stop` tell where a loop ends.
  - `loop_as_sequence`: a loop ends as `do` does on its condition and body in turn, where no
    condition but the last is false.
-/

import EggLang.Proofs.Eval.Watch
import EggLang.Proofs.Eval.Sequences

namespace EggLang.Eval

open EggLang.Scope EggLang.Program

/-! ## As many turns as it takes -/

/-- Given turns enough, the evaluation ends with this result. -/
def Ends (depth : Nat) (e : Expr) (f : FrameId) (s : Store) (r : EStateM.Result Stop Store Value) : Prop :=
  stopOf? r ≠ some .turns ∧ ∃ turns, evaluate turns depth e f s = r

def EndInOrder (depth : Nat) (args : List Expr) (f : FrameId) (s : Store) (vs : List Value) (t : Store) : Prop :=
  ∃ turns, Yields (fun e => evaluate turns depth e f) args s vs t

/-- An evaluation that has come to its end does not depend on the turns that its loops may take. -/
theorem evaluate_more_turns {turns turns' : Nat} (hle : turns ≤ turns') {depth : Nat} {e : Expr} {f : FrameId}
    {s : Store} (h : stopOf? (evaluate turns depth e f s) ≠ some .turns) :
    evaluate turns' depth e f s = evaluate turns depth e f s := by
  obtain hsame | ⟨_, t, rfl, herror, -⟩ := evaluate_raised (· = .turns) ⟨hle, fun _ => rfl⟩ (Raised.refl _ depth) e f s
  · exact hsame
  · rw [herror] at h
    exact absurd rfl h

theorem Yields.more_turns {turns turns' : Nat} (hle : turns ≤ turns') {depth : Nat} {f : FrameId} {args : List Expr}
    {s t : Store} {vs : List Value} (h : Yields (fun e => evaluate turns depth e f) args s vs t) :
    Yields (fun e => evaluate turns' depth e f) args s vs t := by
  induction h with
  | nil => exact .nil
  | cons he _ ih =>
    refine .cons ?_ ih
    rw [evaluate_more_turns hle, he]
    simp [he, stopOf?]

/-- Expressions in order, and one more that ends behind them, can be given the same turns. -/
theorem EndInOrder.with_next {depth : Nat} {args : List Expr} {e : Expr} {f : FrameId} {s t : Store} {vs : List Value}
    {r : EStateM.Result Stop Store Value} (h : EndInOrder depth args f s vs t) (he : Ends depth e f t r)
    (atLeast : Nat) :
    ∃ turns, atLeast ≤ turns ∧ Yields (fun e => evaluate turns depth e f) args s vs t ∧
      evaluate turns depth e f t = r := by
  obtain ⟨turns, h⟩ := h
  obtain ⟨hr, turns', rfl⟩ := he
  refine ⟨max atLeast (max turns turns'), by omega, h.more_turns (by omega), ?_⟩
  exact evaluate_more_turns (by omega) hr

/-! ## The row of a loop -/

def alternating : Expr → Expr → Nat → List Expr
  | _, _, 0 => []
  | c, b, k + 1 => c :: alternating b c k

theorem alternating_even (c b : Expr) (n : Nat) : alternating c b (2 * n + 1) = alternating c b (2 * n) ++ [c] := by
  induction n with
  | zero => rfl
  | succ n ih =>
    show c :: b :: alternating c b (2 * n + 1) = c :: b :: (alternating c b (2 * n) ++ [c])
    rw [ih]

/-- None of the conditions, whose values stand at every other place, is false. -/
def ConditionsHold (vs : List Value) : Prop := ∀ i v, vs[2 * i]? = some v → v ≠ .flag false

theorem isFalse_eq_true_iff {v : Value} : v.isFalse = true ↔ v = .flag false := by
  cases v with
  | flag p => cases p <;> simp [Value.isFalse]
  | _ => simp [Value.isFalse]

theorem isFalse_eq_false_iff {v : Value} : v.isFalse = false ↔ v ≠ .flag false := by
  rw [Ne, ← isFalse_eq_true_iff, Bool.not_eq_true]

theorem conditionsHold_nil : ConditionsHold [] := by
  intro i v h
  cases h

theorem conditionsHold_cons_cons {v w : Value} {vs : List Value} :
    ConditionsHold (v :: w :: vs) ↔ v.isFalse = false ∧ ConditionsHold vs := by
  rw [isFalse_eq_false_iff]
  constructor
  · intro h
    exact ⟨h 0 v rfl, fun i u hu => h (i + 1) u hu⟩
  · rintro ⟨hv, hvs⟩ i u hu
    cases i with
    | zero =>
      cases hu
      exact hv
    | succ i => exact hvs i u hu

theorem conditionsHold_singleton {v : Value} : ConditionsHold [v] ↔ v.isFalse = false := by
  rw [isFalse_eq_false_iff]
  constructor
  · intro h
    exact h 0 v rfl
  · intro hv i u hu
    cases i with
    | zero =>
      cases hu
      exact hv
    | succ i => cases hu

section

variable {ev : Expr → Action Value} {c b : Expr}

/-- A turn of a loop whose condition holds takes two expressions off its row. -/
theorem repeatWhile_turn {s t u : Store} {v w : Value} (hc : ev c s = .ok v t) (hv : v.isFalse = false)
    (hb : ev b t = .ok w u) (turns : Nat) : repeatWhile ev c b (turns + 1) s = repeatWhile ev c b turns u := by
  rw [repeatWhile, bind_of_ok _ hc, hv]
  exact bind_of_ok _ hb

/-- A loop ends with false where its condition is false for the first time. -/
theorem repeatWhile_of_false {n : Nat} {s u t : Store} {vs : List Value}
    (h : Yields ev (alternating c b (2 * n)) s vs u) (hvs : ConditionsHold vs) (hc : ev c u = .ok (.flag false) t)
    {turns : Nat} (hturns : n < turns) : repeatWhile ev c b turns s = .ok (.flag false) t := by
  obtain ⟨turns, rfl⟩ : ∃ m, turns = m + 1 := ⟨turns - 1, by omega⟩
  induction n generalizing s vs turns with
  | zero =>
    cases h
    rw [repeatWhile, bind_of_ok _ hc]
    rfl
  | succ n ih =>
    obtain _ | ⟨hv, _ | ⟨hw, hrest⟩⟩ := h
    obtain ⟨hhold, hvs⟩ := conditionsHold_cons_cons.mp hvs
    obtain ⟨turns, rfl⟩ : ∃ m, turns = m + 1 := ⟨turns - 1, by omega⟩
    rw [repeatWhile_turn hv hhold hw]
    exact ih hrest hvs turns (by omega)

/-- A loop stops where the first expression of its row stops. -/
theorem repeatWhile_of_stop {e : Expr} {u t : Store} {stop : Stop} (he : ev e u = .error stop t) :
    ∀ {k : Nat} {s : Store} {vs : List Value}, alternating c b (k + 1) = alternating c b k ++ [e] →
      Yields ev (alternating c b k) s vs u → ConditionsHold vs → ∀ {turns : Nat}, k < turns →
      repeatWhile ev c b turns s = .error stop t
  | 0, s, vs, hrow, h, _, turns + 1, _ => by
    cases hrow
    cases h
    exact bind_of_error _ he
  | 1, s, vs, hrow, h, hvs, turns + 1, _ => by
    cases hrow
    obtain _ | ⟨hc, hnil⟩ := h
    cases hnil
    rw [repeatWhile, bind_of_ok _ hc, conditionsHold_singleton.mp hvs]
    exact bind_of_error _ he
  | k + 2, s, vs, hrow, h, hvs, turns + 1, hturns => by
    obtain _ | ⟨hc, _ | ⟨hb, hrest⟩⟩ := h
    obtain ⟨hv, hvs⟩ := conditionsHold_cons_cons.mp hvs
    simp only [alternating, List.cons_append, List.cons.injEq, true_and] at hrow
    rw [repeatWhile_turn hc hv hb]
    exact repeatWhile_of_stop he hrow hrest hvs (by omega)

/-- A loop that gives a value has gone through its condition and body up to a condition that is
    false. -/
theorem repeatWhile_gives {turns : Nat} {s t : Store} {v : Value} (h : repeatWhile ev c b turns s = .ok v t) :
    v = .flag false ∧ ∃ n vs u, Yields ev (alternating c b (2 * n)) s vs u ∧ ConditionsHold vs ∧
      ev c u = .ok (.flag false) t := by
  induction turns generalizing s with
  | zero => cases h
  | succ turns ih =>
    obtain ⟨w, s₁, hc, h⟩ := bind_gives h
    cases hw : w.isFalse with
    | true =>
      rw [hw] at h
      cases h
      rw [isFalse_eq_true_iff.mp hw] at hc
      exact ⟨rfl, 0, [], s, .nil, conditionsHold_nil, hc⟩
    | false =>
      rw [hw] at h
      obtain ⟨w', s₂, hb, h⟩ := bind_gives h
      obtain ⟨hv, n, vs, u, hvs, hhold, hlast⟩ := ih h
      exact ⟨hv, n + 1, w :: w' :: vs, u, .cons hc (.cons hb hvs), conditionsHold_cons_cons.mpr ⟨hw, hhold⟩, hlast⟩

/-- What a loop comes to stands in its row behind conditions that are not false. -/
theorem InLoop.yields {turns : Nat} {s u : Store} {e : Expr} (h : InLoop ev c b turns s e u) :
    ∃ k vs, alternating c b (k + 1) = alternating c b k ++ [e] ∧ Yields ev (alternating c b k) s vs u ∧
      ConditionsHold vs := by
  induction h with
  | condition => exact ⟨0, [], rfl, .nil, conditionsHold_nil⟩
  | body hc hv => exact ⟨1, [_], rfl, .cons hc .nil, conditionsHold_singleton.mpr hv⟩
  | again hc hv hb _ ih =>
    obtain ⟨k, vs, hrow, hvs, hhold⟩ := ih
    refine ⟨k + 2, _, ?_, .cons hc (.cons hb hvs), conditionsHold_cons_cons.mpr ⟨hv, hhold⟩⟩
    rw [alternating, alternating, hrow]
    rfl

end

/-! ## Loops and sequences -/

def loopOf (c b : Expr) : Expr := .apply (.word "while") [c, b]

theorem evaluate_loopOf (turns depth : Nat) (c b : Expr) (f : FrameId) :
    evaluate turns (depth + 2) (loopOf c b) f = repeatWhile (fun e => evaluate turns depth e f) c b turns := by
  rfl

/-- A loop gives false, and nothing else, where `do` on its condition and body in turn does, up to a
    condition that is false for the first time. It stops where `do` on them stops, at the last of
    them, no condition before being false. Either way it leaves the store that `do` leaves, with the
    same depth. -/
theorem loop_as_sequence (depth : Nat) (c b : Expr) (f : FrameId) (s : Store) :
    (∀ v t, Ends (depth + 2) (loopOf c b) f s (.ok v t) ↔
      v = .flag false ∧ ∃ n vs u,
        Ends (depth + 2) (sequenceOf (alternating c b (2 * n + 1))) f s (.ok (.flag false) t) ∧
        EndInOrder depth (alternating c b (2 * n)) f s vs u ∧ ConditionsHold vs ∧
        Ends depth c f u (.ok (.flag false) t)) ∧
    (∀ stop t, Ends (depth + 2) (loopOf c b) f s (.error stop t) ↔
      ∃ k e vs u, Ends (depth + 2) (sequenceOf (alternating c b (k + 1))) f s (.error stop t) ∧
        alternating c b (k + 1) = alternating c b k ++ [e] ∧
        EndInOrder depth (alternating c b k) f s vs u ∧ ConditionsHold vs ∧ Ends depth e f u (.error stop t)) := by
  refine ⟨fun v t => ⟨?_, ?_⟩, fun stop t => ⟨?_, ?_⟩⟩
  · rintro ⟨hend, turns, h⟩
    rw [evaluate_loopOf] at h
    obtain ⟨rfl, n, vs, u, hvs, hhold, hc⟩ := repeatWhile_gives h
    refine ⟨rfl, n, vs, u, ⟨hend, turns, ?_⟩, ⟨turns, hvs⟩, hhold, ⟨hend, turns, hc⟩⟩
    rw [evaluate_sequenceOf, alternating_even, evaluateLast_of_yields (hvs.concat hc), List.getLastD_concat]
  · rintro ⟨rfl, n, vs, u, ⟨hend, -⟩, hvs, hhold, hc⟩
    obtain ⟨turns, hturns, hvs, hc⟩ := hvs.with_next hc (n + 1)
    refine ⟨hend, turns, ?_⟩
    rw [evaluate_loopOf]
    exact repeatWhile_of_false hvs hhold hc hturns
  · rintro ⟨hend, turns, h⟩
    rw [evaluate_loopOf] at h
    obtain rfl | ⟨e, u, hin, he⟩ := repeatWhile_stops h
    · exact absurd rfl hend
    · obtain ⟨k, vs, hrow, hvs, hhold⟩ := hin.yields
      refine ⟨k, e, vs, u, ⟨hend, turns, ?_⟩, hrow, ⟨turns, hvs⟩, hhold, ⟨hend, turns, he⟩⟩
      rw [evaluate_sequenceOf, hrow, evaluateLast_of_stop hvs he]
  · rintro ⟨k, e, vs, u, ⟨hend, -⟩, hrow, hvs, hhold, he⟩
    obtain ⟨turns, hturns, hvs, he⟩ := hvs.with_next he (k + 1)
    refine ⟨hend, turns, ?_⟩
    rw [evaluate_loopOf]
    exact repeatWhile_of_stop he hrow hvs hhold hturns

def countingFrame : Store := innerFrame.define 1 "i" (.int 0)

def belowTwo : Expr := .apply (.word "<") [.word "i", .number 2]

def countUp : Expr :=
  .apply (.word "do")
    [.apply (.word "print") [.word "i"], .apply (.word "set") [.word "i", .apply (.word "+") [.word "i", .number 1]]]

theorem counting_loop_as_sequence :
    ∃ t, Ends 11 (loopOf belowTwo countUp) 1 countingFrame (.ok (.flag false) t) ∧ t.output = "0\n1\n" ∧
      ∃ n, Ends 11 (sequenceOf (alternating belowTwo countUp (2 * n + 1))) 1 countingFrame (.ok (.flag false) t) := by
  have hvalue : stopOf? (evaluate 3 11 (loopOf belowTwo countUp) 1 countingFrame) = none := by decide +kernel
  have hprinted : (storeOf (evaluate 3 11 (loopOf belowTwo countUp) 1 countingFrame)).output = "0\n1\n" := by
    decide +kernel
  cases hloop : evaluate 3 11 (loopOf belowTwo countUp) 1 countingFrame with
  | error stop t =>
    rw [hloop] at hvalue
    cases hvalue
  | ok v t =>
    rw [hloop] at hprinted
    have hends : Ends 11 (loopOf belowTwo countUp) 1 countingFrame (.ok v t) := ⟨by simp [stopOf?], 3, hloop⟩
    obtain ⟨rfl, n, _, _, hsequence, -⟩ := ((loop_as_sequence 9 belowTwo countUp 1 countingFrame).1 v t).mp hends
    exact ⟨t, hends, hprinted, n, hsequence⟩

end EggLang.Eval
