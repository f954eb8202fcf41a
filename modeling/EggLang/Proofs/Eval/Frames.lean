/-
  EggLang.Proofs.Eval.Frames — what an evaluation can change in the frames that it finds.

  A name can be new only in the frame at hand: `set` assigns to names that are owned already, and
  `apply` evaluates the body of a closure in a frame of its own, never in the one it was made in. So
  of the frames there are when an evaluation begins, all but the one it is evaluated in own the same
  names, in the same order, when it ends, and all of them have the same outer frame:

  - `Since`: what has been so since a store; `since_kept`: every change in an evaluation keeps it
    so.
  - `evaluate_since`: so it is after every evaluation, whether it gives a value or stops.
  - `call_since`: after a call, which has a frame of its own, no frame there was owns other names.

  Outside the frame at hand a name gets a new value only by `set` (`set_form`), which has the name
  written in it. What is evaluated is the expression at hand, or the body of a closure that the
  store held or that was made from a part of these. So the names in question are known beforehand:
  those that `set` is applied to in the expression and in the bodies of the closures held
  (`Store.setTargets`).

  - `unassigned_lawful`: no change in an evaluation gives any other name a new value in a frame that
    was there.
  - `evaluate_unassigned`: so none has one when the evaluation ends, with a value or without.
-/

import EggLang.Proofs.Eval.Watch
import EggLang.Proofs.Scope.Owned

namespace EggLang

open EggLang.Eval EggLang.Program EggLang.Scope

namespace Eval

/-! ## Since a store -/

/-- Of the frames there were, none has another outer frame, and none but `env` owns other names. -/
structure Since (base : Store) (env : FrameId) (s : Store) : Prop where
  size : base.frames.size ≤ s.frames.size
  outer : ∀ g, g < base.frames.size → s.outer? g = base.outer? g
  names : ∀ g, g < base.frames.size → g ≠ env → s.names g = base.names g

theorem Since.refl (s : Store) (env : FrameId) : Since s env s :=
  ⟨Nat.le_refl _, fun _ _ => rfl, fun _ _ _ => rfl⟩

variable {base s : Store} {env : FrameId}

/-- A frame that was there is neither the frame at hand nor one of those made since. -/
theorem ne_of_atHand {f g n : FrameId} (hf : f = env ∨ n ≤ f) (hg : g < n) (hne : g ≠ env) : g ≠ f := by
  rcases hf with rfl | hf
  · exact hne
  · exact Nat.ne_of_lt (Nat.lt_of_lt_of_le hg hf)

theorem Since.define (h : Since base env s) {f : FrameId} (hf : f = env ∨ base.frames.size ≤ f) (x : String)
    (v : Value) : Since base env (s.define f x v) := by
  refine ⟨?_, ?_, ?_⟩
  · rw [Store.size_define]
    exact h.size
  · intro g hg
    rw [Store.outer?_define]
    exact h.outer g hg
  · intro g hg hne
    rw [Store.names_define_of_ne (ne_of_atHand hf hg hne)]
    exact h.names g hg hne

theorem Since.assign (h : Since base env s) {g : FrameId} {x : String} (hg : s.owns g x = true) (v : Value) :
    Since base env (s.define g x v) := by
  refine ⟨?_, ?_, ?_⟩
  · rw [Store.size_define]
    exact h.size
  · intro f hf
    rw [Store.outer?_define]
    exact h.outer f hf
  · intro f hf hne
    rw [Store.names_define_of_owns hg]
    exact h.names f hf hne

theorem Since.push (h : Since base env s) (outer : Option FrameId) : Since base env (s.push outer).2 := by
  have hsize := h.size
  refine ⟨?_, ?_, ?_⟩
  · simp only [Store.push, Array.size_push]
    omega
  · intro g hg
    rw [Store.outer?_push_of_lt (Nat.lt_of_lt_of_le hg hsize)]
    exact h.outer g hg
  · intro g hg hne
    rw [Store.names, Store.bindings_push_of_lt (Nat.lt_of_lt_of_le hg hsize)]
    exact h.names g hg hne

theorem Since.update (h : Since base env s) {f : FrameId} (hf : f = env ∨ base.frames.size ≤ f)
    (pairs : List (String × Value)) : Since base env (s.update f pairs) :=
  Store.update_induction (fun _ ht p _ => ht.define hf p.1 p.2) h

/-- Names are bound in the frame at hand and in the frames of calls, all else is assigned where it
    is owned. -/
theorem since_kept (base : Store) (env : FrameId) :
    Kept (Since base env) (fun f => f = env ∨ base.frames.size ≤ f) where
  define x v hs hf := hs.define hf x v
  assign v hs _ hg := hs.assign (Store.owns_of_find? hg) v
  enter outer pairs hs := ⟨.inr hs.size, (hs.push (some outer)).update (.inr hs.size) pairs⟩
  close _ _ _ hs := ⟨hs.size, hs.outer, hs.names⟩
  print _ hs := ⟨hs.size, hs.outer, hs.names⟩

/-- Since an evaluation began, only the frame it is evaluated in may have got names. -/
theorem evaluate_since (turns depth : Nat) (e : Expr) (f : FrameId) (s : Store) :
    Since s f (storeOf (evaluate turns depth e f s)) :=
  (since_kept s f).across turns depth e (.inl rfl) (.refl s f)

/-- Since a call began, only its own frame, which is a new one, may have got names. -/
theorem call_since (turns depth : Nat) (callee : Callee) (args : List Value) (s : Store) :
    Since s s.frames.size (storeOf (callee.call depth (evaluate turns depth) args s)) :=
  (since_kept s s.frames.size).across_call turns depth callee args (.refl s _)

end Eval

/-! ## The names that are set -/

namespace Program.Expr

def firstWord? : List Expr → Option String
  | .word x :: _ => some x
  | _ => none

mutual

/-- The names that `set` is applied to, at any depth of an expression. -/
def setTargets : Expr → List String
  | .apply op args =>
    (if Form.ofOperator? op = some .set then (firstWord? args).toList else []) ++ (setTargets op ++ allSetTargets args)
  | _ => []

def allSetTargets : List Expr → List String
  | [] => []
  | e :: rest => setTargets e ++ allSetTargets rest

end

variable {x : String} {op : Expr} {args : List Expr}

theorem mem_allSetTargets {e : Expr} (he : e ∈ args) (h : x ∈ e.setTargets) : x ∈ allSetTargets args := by
  induction args with
  | nil => cases he
  | cons a rest ih =>
    rw [allSetTargets, List.mem_append]
    rcases List.mem_cons.mp he with rfl | he
    · exact .inl h
    · exact .inr (ih he)

theorem not_mem_setTargets_operator (h : x ∉ (apply op args).setTargets) : x ∉ op.setTargets := by
  intro hop
  rw [setTargets] at h
  exact h (List.mem_append_right _ (List.mem_append_left _ hop))

theorem not_mem_setTargets_arg (h : x ∉ (apply op args).setTargets) : ∀ a ∈ args, x ∉ a.setTargets := by
  intro a ha hx
  rw [setTargets] at h
  exact h (List.mem_append_right _ (List.mem_append_right _ (mem_allSetTargets ha hx)))

theorem mem_setTargets_of_set {e : Expr} (hop : Form.ofOperator? op = some .set) :
    x ∈ (apply op [.word x, e]).setTargets := by
  rw [setTargets, if_pos hop]
  exact List.mem_append_left _ (List.mem_singleton.mpr rfl)

end Program.Expr

/-- The names that `set` is applied to in an expression and in the bodies of the closures a store
    holds. -/
def Scope.Store.setTargets (s : Store) (e : Expr) : List String :=
  e.setTargets ++ s.held.flatMap fun q => q.2.body.setTargets

namespace Eval

/-- Since a store, `x` has kept its value in every frame there was but `env`, and no closure that is
    held has a `set` of it. -/
structure Unassigned (x : String) (base : Store) (env : FrameId) (s : Store) : Prop extends Since base env s where
  value : ∀ g, g < base.frames.size → g ≠ env → (s.bindings g).get? x = (base.bindings g).get? x
  held : s.HoldsOnly fun _ c => x ∉ c.body.setTargets

namespace Unassigned

variable {x : String} {base s : Store} {env : FrameId}

theorem define (h : Unassigned x base env s) {f : FrameId} (hf : f = env ∨ base.frames.size ≤ f) (y : String)
    {v : Value} (hv : ∀ c ∈ v.closures, x ∉ c.body.setTargets) : Unassigned x base env (s.define f y v) := by
  refine ⟨h.toSince.define hf y v, ?_, h.held.define f hv⟩
  intro g hg hne
  rw [Store.bindings_define_of_ne s (ne_of_atHand hf hg hne)]
  exact h.value g hg hne

theorem assign (h : Unassigned x base env s) {f g : FrameId} {y : String} (hy : x ≠ y) (hg : s.find? f y = some g)
    {v : Value} (hv : ∀ c ∈ v.closures, x ∉ c.body.setTargets) : Unassigned x base env (s.define g y v) := by
  refine ⟨h.toSince.assign (Store.owns_of_find? hg) v, ?_, h.held.define g hv⟩
  intro f' hf' hne
  rw [Store.get?_define_of_ne s g hy]
  exact h.value f' hf' hne

theorem push (h : Unassigned x base env s) (outer : Option FrameId) : Unassigned x base env (s.push outer).2 := by
  refine ⟨h.toSince.push outer, ?_, h.held.push outer⟩
  intro g hg hne
  rw [Store.bindings_push_of_lt (Nat.lt_of_lt_of_le hg h.size)]
  exact h.value g hg hne

end Unassigned

def Watch.unassigned (x : String) (base : Store) (env : FrameId) : Watch where
  World := Unit
  le _ _ := True
  store _ := Unassigned x base env
  scope _ f := f = env ∨ base.frames.size ≤ f
  closure _ c := x ∉ c.body.setTargets
  covered e := x ∉ e.setTargets

theorem unassigned_lawful (x : String) (base : Store) (env : FrameId) : (Watch.unassigned x base env).Lawful where
  le_refl _ := trivial
  le_trans _ _ := trivial
  scope_later _ h := h
  closure_later _ h := h
  body h := h
  operator h _ := Expr.not_mem_setTargets_operator h
  args h := Expr.not_mem_setTargets_arg h
  lookup hs _ hv := hs.held.lookup hv
  define hs hf hv := hs.define hf _ hv
  assign := by
    intro _ s f g op y e v hs _ hop hset hg hv
    have hy : x ≠ y := by
      rintro rfl
      exact hset (Expr.mem_setTargets_of_set hop)
    exact hs.assign hy hg hv
  push hs _ := ⟨(), trivial, .inr hs.size, hs.push _⟩
  close := by
    intro _ s f body params hs _ hbody
    exact ⟨(), trivial, hbody, ⟨hs.size, hs.outer, hs.names⟩, hs.value, hs.held⟩
  print _ hs := ⟨⟨hs.size, hs.outer, hs.names⟩, hs.value, hs.held⟩

/-- A name that nothing sets keeps its value in every frame there was but the one at hand, whether
    the evaluation gives a value or stops. -/
theorem evaluate_unassigned (turns depth : Nat) {e : Expr} {s : Store} {x : String} (hx : x ∉ s.setTargets e)
    (env : FrameId) : Unassigned x s env (storeOf (evaluate turns depth e env s)) := by
  rw [Store.setTargets, List.mem_append, not_or, List.mem_flatMap] at hx
  have hs : Unassigned x s env s :=
    ⟨.refl s env, fun _ _ _ => rfl, fun q hq hset => hx.2 ⟨q, hq, hset⟩⟩
  obtain ⟨_, _, hend, _⟩ := (unassigned_lawful x s env).evaluate (w := ()) turns depth hx.1 (.inl rfl) hs
  exact hend

end Eval

end EggLang
