/-
  EggLang.Proofs.Session.Runs — what the runs of a session leave behind (`Interpreter.run`).

  What nothing undoes holds across a run too (`run_keeps`): what has been printed stays printed
  (`run_printed`).

  A session has been reached when it was started and any number of programs were run in it, whatever
  they came to (`Reached`). Every program is evaluated in a frame of its own, so the top frame never
  gets a name: it owns what it owned from the start, and there is nothing outside it
  (`Reached.grounded`). The values of its names may change, as programs can set them.

  - `names_except_at_hand`: neither an evaluation, but in the frame it is evaluated in, nor a call
    gives a frame that there was a name, and no run gives the top frame one.
  - `values_unless_set`: outside the frame it is evaluated in, an evaluation changes the values of
    no names but those that `set` is applied to, so a program without `set` leaves the top frame as
    it was.
-/

import EggLang.Proofs.Eval.Frames
import EggLang.Session

namespace EggLang.Session

open EggLang.Eval EggLang.Program EggLang.Scope

/-! ## One run -/

/-- The session that the evaluation of an expression leaves. -/
theorem session_evaluateIn (s : Session) (turns depth : Nat) (expr : Expr) :
    (s.evaluateIn turns depth expr).2 =
      { s with
        store := storeOf (evaluate turns depth expr (s.store.push (some s.top)).1 (s.store.push (some s.top)).2) } := by
  simp only [evaluateIn]
  cases evaluate turns depth expr (s.store.push (some s.top)).1 (s.store.push (some s.top)).2 with
  | ok v t => rfl
  | error stop t => rfl

/-- A program is not read, or its evaluation stops. -/
theorem run_halts {s : Session} {turns : Nat} {program : String} {halt : Halt}
    (h : (s.run turns program).1 = .error halt) :
    s.read program = .error halt ∨
      ∃ depth e stop t, s.read program = .ok (depth, e) ∧ halt = .ofStop stop ∧
        evaluate turns depth e (s.store.push (some s.top)).1 (s.store.push (some s.top)).2 = .error stop t := by
  unfold run at h
  cases hread : s.read program with
  | error halt' =>
    rw [hread] at h
    cases h
    exact .inl rfl
  | ok read =>
    obtain ⟨depth, e⟩ := read
    simp only [hread, evaluateIn] at h
    cases hev : evaluate turns depth e (s.store.push (some s.top)).1 (s.store.push (some s.top)).2 with
    | ok v t =>
      rw [hev] at h
      cases h
    | error stop t =>
      rw [hev] at h
      cases h
      exact .inr ⟨depth, e, stop, t, rfl, rfl, hev⟩

/-- A relation that every change of a store respects holds across a run. -/
theorem run_keeps {R : Store → Store → Prop} (hR : Lasting R) (s : Session) (turns : Nat) (program : String) :
    R s.store (s.run turns program).2.store := by
  unfold run
  cases s.read program with
  | error halt => exact hR.refl _
  | ok read =>
    obtain ⟨depth, expr⟩ := read
    simp only [session_evaluateIn]
    exact hR.trans (hR.push s.store (some s.top)) (evaluate_keeps hR turns depth expr _ _)

/-- What has been printed stays printed across a run. -/
theorem run_printed (s : Session) (turns : Nat) (program : String) : Printed s.store (s.run turns program).2.store :=
  run_keeps lasting_printed s turns program

/-! ## Any number of runs -/

inductive Reached (limit : Option Int) : Session → Prop
  | start : Reached limit (start limit)
  | run {s : Session} (turns : Nat) (program : String) : Reached limit s → Reached limit (s.run turns program).2

/-- The top frame is the first one, the outermost, and owns what every top frame does. -/
structure Grounded (limit : Option Int) (s : Session) : Prop where
  limit : s.limit = limit
  top : s.top = 0
  size : 0 < s.store.frames.size
  outer : s.store.outer? 0 = none
  names : s.store.names 0 = Bindings.names Store.topBindings

theorem start_bindings (limit : Option Int) : (start limit).store.bindings 0 = Store.topBindings := by
  rfl

theorem start_grounded (limit : Option Int) : Grounded limit (start limit) where
  limit := rfl
  top := rfl
  size := Nat.one_pos
  outer := rfl
  names := by rw [Store.names, start_bindings]

theorem run_grounded {limit : Option Int} {s : Session} (h : Grounded limit s) (turns : Nat) (program : String) :
    Grounded limit (s.run turns program).2 := by
  unfold run
  cases s.read program with
  | error halt => exact h
  | ok read =>
    obtain ⟨depth, expr⟩ := read
    -- the program has the newest frame, so the top frame is another one
    have hsince := evaluate_since turns depth expr (s.store.push (some s.top)).1 (s.store.push (some s.top)).2
    have hsize := h.size
    have htop : 0 < (s.store.push (some s.top)).2.frames.size := by
      simp [Store.push]
    simp only [session_evaluateIn]
    refine ⟨h.limit, h.top, Nat.lt_of_lt_of_le htop hsince.size, ?_, ?_⟩
    · rw [hsince.outer 0 htop, Store.outer?_push_of_lt hsize]
      exact h.outer
    · rw [hsince.names 0 htop (Nat.ne_of_lt hsize), Store.names, Store.bindings_push_of_lt hsize]
      exact h.names

/-- Whatever has been run in a session, its top frame owns the same names. -/
theorem Reached.grounded {limit : Option Int} {s : Session} (h : Reached limit s) : Grounded limit s := by
  induction h with
  | start => exact start_grounded limit
  | run turns program _ ih => exact run_grounded ih turns program

/-! ## Names -/

/-- Of the frames that there were, only the one an evaluation is evaluated in can own other names
    when it ends, and none after a call, whether they give a value or stop. So the top frame owns
    its names for good. -/
theorem names_except_at_hand :
    (∀ (turns depth : Nat) (e : Expr) (env : FrameId) (s : Store) (g : FrameId), g < s.frames.size → g ≠ env →
      (storeOf (evaluate turns depth e env s)).names g = s.names g) ∧
    (∀ (turns depth : Nat) (callee : Callee) (args : List Value) (s : Store) (g : FrameId), g < s.frames.size →
      (storeOf (callee.call depth (evaluate turns depth) args s)).names g = s.names g) ∧
    (∀ (limit : Option Int) (s : Session), Reached limit s →
      s.store.names s.top =
        ["+", "-", "*", "/", "==", "<", ">", "print", "array", "length", "element", "true", "false"]) := by
  refine ⟨?_, ?_, ?_⟩
  · intro turns depth e env s g hg hne
    exact (evaluate_since turns depth e env s).names g hg hne
  · intro turns depth callee args s g hg
    exact (call_since turns depth callee args s).names g hg (Nat.ne_of_lt hg)
  · intro limit s h
    have hs := h.grounded
    rw [hs.top, hs.names]
    rfl

/-- A function of the frame 1 that binds a name in its own frame and then stops, for want of another
    name. -/
def bindingFunction : Closure :=
  ⟨0, ["x"], .apply (.word "do") [.apply (.word "define") [.word "y", .word "x"], .word "z"], 1⟩

def nestedFrames : Store :=
  let s := ((start none).store.push (some 0)).2
  ((s.define 1 "f" (.closure bindingFunction)).push (some 1)).2

theorem names_beside_bindingFunction :
    (1 < nestedFrames.frames.size ∧
      (storeOf (evaluate 1 9 (.apply (.word "f") [.apply (.word "define") [.word "y", .number 1]]) 2 nestedFrames)).names 1 =
        nestedFrames.names 1) ∧
    (storeOf (Callee.call 9 (evaluate 1 9) (.closure bindingFunction) [.int 1] nestedFrames)).names 1 =
      nestedFrames.names 1 ∧
    Reached none ((start none).run 1 "set(+, define(+, -))").2 ∧
    ((start none).run 1 "set(+, define(+, -))").2.store.names ((start none).run 1 "set(+, define(+, -))").2.top =
      ["+", "-", "*", "/", "==", "<", ">", "print", "array", "length", "element", "true", "false"] := by
  obtain ⟨hevaluate, hcall, hrun⟩ := names_except_at_hand
  have hsize : 1 < nestedFrames.frames.size := by decide +kernel
  have hreached : Reached none ((start none).run 1 "set(+, define(+, -))").2 := .run 1 _ .start
  exact ⟨⟨hsize, hevaluate 1 9 _ 2 _ 1 hsize (by decide)⟩, hcall 1 9 _ _ _ 1 hsize, hreached, hrun none _ hreached⟩

/-! ## Values -/

/-- A new session holds no closures, so a program can set only what it names itself. -/
theorem start_setTargets (limit : Option Int) (expr : Expr) :
    ((start limit).store.push (some (start limit).top)).2.setTargets expr = expr.setTargets := by
  have hheld : ((start limit).store.push (some (start limit).top)).2.held = [] := rfl
  rw [Store.setTargets, hheld, List.flatMap_nil, List.append_nil]

/-- An expression in which `set` is applied to no name leaves the top frame of a new session as it
    was. -/
theorem evaluateIn_start_bindings (limit : Option Int) (turns depth : Nat) {expr : Expr} (hset : expr.setTargets = []) :
    ((start limit).evaluateIn turns depth expr).2.store.bindings 0 = Store.topBindings := by
  have hx : ∀ x, x ∉ ((start limit).store.push (some (start limit).top)).2.setTargets expr := by
    intro x
    rw [start_setTargets, hset]
    exact List.not_mem_nil
  have hkept := fun x => evaluate_unassigned turns depth (hx x) ((start limit).store.push (some (start limit).top)).1
  have hsize : 0 < ((start limit).store.push (some (start limit).top)).2.frames.size := Nat.succ_pos _
  have hne : 0 ≠ ((start limit).store.push (some (start limit).top)).1 := Nat.ne_of_lt (start_grounded limit).size
  rw [session_evaluateIn]
  refine (Bindings.eq_of_get? Store.nodup_topBindings ?_ ?_).symm
  · exact ((hkept "").names 0 hsize hne).symm
  · intro x
    exact ((hkept x).value 0 hsize hne).symm

/-- Outside the frame it is evaluated in, an evaluation gives a new value only to names that `set`
    is applied to, in the expression or in a closure that the store held, whether it gives a value
    or stops. So a program in which `set` is applied to no name leaves the top frame of a new
    session as it was. -/
theorem values_unless_set :
    (∀ (turns depth : Nat) (e : Expr) (env : FrameId) (s : Store) (g : FrameId) (x : String),
      g < s.frames.size → g ≠ env → x ∉ s.setTargets e →
      ((storeOf (evaluate turns depth e env s)).bindings g).get? x = (s.bindings g).get? x) ∧
    (∀ (limit : Option Int) (turns : Nat) (program : String),
      (∀ depth expr, (start limit).read program = .ok (depth, expr) → expr.setTargets = []) →
      ((start limit).run turns program).2.store.bindings ((start limit).run turns program).2.top =
        (start limit).store.bindings (start limit).top) := by
  refine ⟨?_, ?_⟩
  · intro turns depth e env s g x hg hne hx
    exact (evaluate_unassigned turns depth hx env).value g hg hne
  · intro limit turns program hset
    rw [((Reached.start).run turns program).grounded.top, (start_grounded limit).top]
    unfold run
    cases hread : (start limit).read program with
    | error halt => rfl
    | ok read =>
      obtain ⟨depth, expr⟩ := read
      exact evaluateIn_start_bindings limit turns depth (hset depth expr hread)

/-- Two frames inside the top frame, the outer of which has two names and a function that sets one
    of them. -/
def setterFrames : Store :=
  let s := ((start none).store.push (some 0)).2
  let setter : Closure := ⟨0, [], .apply (.word "set") [.word "y", .number 2], 1⟩
  ((s.update 1 [("x", .int 1), ("y", .int 1), ("f", .closure setter)]).push (some 1)).2

def setterCall : Expr := .apply (.word "do") [.apply (.word "f") [], .apply (.word "set") [.word "z", .number 0]]

theorem values_beside_setter :
    (1 < setterFrames.frames.size ∧ "x" ∉ setterFrames.setTargets setterCall ∧
      ((storeOf (evaluate 1 9 setterCall 2 setterFrames)).bindings 1).get? "x" = (setterFrames.bindings 1).get? "x") ∧
    (∀ depth expr, (start none).read "do(define(+, -), +(2, 1))" = .ok (depth, expr) → expr.setTargets = []) ∧
    ((start none).run 1 "do(define(+, -), +(2, 1))").2.store.bindings
        ((start none).run 1 "do(define(+, -), +(2, 1))").2.top =
      (start none).store.bindings (start none).top := by
  obtain ⟨hevaluate, hrun⟩ := values_unless_set
  have hsize : 1 < setterFrames.frames.size := by decide +kernel
  have hx : "x" ∉ setterFrames.setTargets setterCall := by decide +kernel
  have hread : (start none).read "do(define(+, -), +(2, 1))" =
      .ok (1000, .apply (.word "do") [.apply (.word "define") [.word "+", .word "-"],
        .apply (.word "+") [.number 2, .number 1]]) := by
    decide +kernel
  have hset : ∀ depth expr, (start none).read "do(define(+, -), +(2, 1))" = .ok (depth, expr) →
      expr.setTargets = [] := by
    intro depth expr h
    rw [hread] at h
    cases h
    decide +kernel
  exact ⟨⟨hsize, hx, hevaluate 1 9 _ 2 _ 1 "x" hsize (by decide) hx⟩, hset, hrun none 1 _ hset⟩

end EggLang.Session
