/-
  EggLang.Proofs.Eval.Watch — one evaluation, watched as it goes on.

  A `Watch` says what is known of a run while it lasts: of its store, of the frames in which it
  evaluates, of the closures in its values, and of the expressions it comes upon, all at a world
  that may grow. Its laws (`Lawful`) speak of the single changes to a store. A run that is watched
  is coupled with itself (`beside`), so whatever holds when it begins holds when it ends:

  - `Lawful.evaluate`: after an evaluation, whether it gives a value or stops.
  - `Lawful.call`: after the call of a function.

  An invariant of the store may depend on where names are bound: evaluation binds a name in the
  frame at hand, or assigns to it where it is found, and every call has a frame of its own. What
  holds across each of these changes (`Kept`), whatever the values are, holds across every
  evaluation (`Kept.across`) and every call (`Kept.across_call`).

  Two evaluations that differ in nothing but their budgets are coupled with nothing to watch:

  - `evaluate_raised`: with more of a budget an evaluation ends the same, value and store, unless it
    was stopped for want of it; then it has printed no more than the evaluation with the larger
    budget prints.
-/

import EggLang.Proofs.Eval.Coupling
import EggLang.Proofs.Scope.Held

namespace EggLang.Eval

open EggLang.Scope EggLang.Program EggLang.Value

def valueOf? {α : Type} : EStateM.Result Stop Store α → Option α
  | .ok a _ => some a
  | .error _ _ => none

structure Watch where
  World : Type
  /-- The second world is the first, or comes after it. -/
  le : World → World → Prop
  store : World → Store → Prop
  /-- The frames in which the run evaluates. -/
  scope : World → FrameId → Prop
  closure : World → Closure → Prop
  covered : Expr → Prop

namespace Watch

variable (W : Watch)

def value (w : W.World) (v : Value) : Prop := ∀ c ∈ v.closures, W.closure w c

def values (w : W.World) (vs : List Value) : Prop := ∀ c ∈ allClosures vs, W.closure w c

structure Lawful : Prop where
  le_refl : ∀ w, W.le w w
  le_trans : ∀ {w w' w''}, W.le w w' → W.le w' w'' → W.le w w''
  scope_later : ∀ {w w' f}, W.le w w' → W.scope w f → W.scope w' f
  closure_later : ∀ {w w' c}, W.le w w' → W.closure w c → W.closure w' c
  body : ∀ {w c}, W.closure w c → W.covered c.body
  operator : ∀ {f args}, W.covered (.apply f args) → Form.ofOperator? f = none → W.covered f
  args : ∀ {f args}, W.covered (.apply f args) → ∀ a ∈ args, W.covered a
  lookup : ∀ {w s f x v}, W.store w s → W.scope w f → s.lookup? f x = some v → W.value w v
  define : ∀ {w s f x v}, W.store w s → W.scope w f → W.value w v → W.store w (s.define f x v)
  assign : ∀ {w s f g op x e v}, W.store w s → W.scope w f → Form.ofOperator? op = some .set →
    W.covered (.apply op [.word x, e]) → s.find? f x = some g → W.value w v → W.store w (s.define g x v)
  push : ∀ {w s c}, W.store w s → W.closure w c →
    ∃ w', W.le w w' ∧ W.scope w' s.frames.size ∧ W.store w' (s.push (some c.frame)).2
  close : ∀ {w s f body} (params : List String), W.store w s → W.scope w f → W.covered body →
    ∃ w', W.le w w' ∧ W.closure w' (s.close params body f).1 ∧ W.store w' (s.close params body f).2
  print : ∀ {w s} (text : String), W.store w s → W.store w (s.print text)

/-- The run, coupled with itself. -/
def beside (early : Stop → Prop) : Coupling where
  World := W.World
  le := W.le
  store w s t := s = t ∧ W.store w s
  scope w f g := f = g ∧ W.scope w f
  closure w c d := c = d ∧ W.closure w c
  covered := W.covered
  early := early

variable {W}

theorem beside_value {early : Stop → Prop} {w : W.World} {v v' : Value} :
    (W.beside early).value w v v' ↔ v = v' ∧ W.value w v :=
  alike_iff_of_closures

theorem beside_values {early : Stop → Prop} {w : W.World} {vs vs' : List Value} :
    (W.beside early).values w vs vs' ↔ vs = vs' ∧ W.values w vs :=
  allAlike_iff_of_closures

namespace Lawful

/-- The frame of a call: a new one, in which the parameters are bound one after the other. -/
theorem enter (hW : W.Lawful) {w : W.World} {s : Store} {c : Closure} {vs : List Value} (hs : W.store w s)
    (hc : W.closure w c) (hvs : W.values w vs) :
    ∃ w', W.le w w' ∧ W.scope w' s.frames.size ∧
      W.store w' ((s.push (some c.frame)).2.update s.frames.size (c.params.zip vs)) := by
  obtain ⟨w', hle, hf, hpush⟩ := hW.push hs hc
  refine ⟨w', hle, hf, Store.update_induction ?_ hpush⟩
  intro t ht p hp
  have hmem := (List.of_mem_zip hp).2
  exact hW.define ht hf fun d hd => hW.closure_later hle (hvs d (mem_allClosures.mpr ⟨p.2, hmem, hd⟩))

theorem beside_lawful (hW : W.Lawful) (early : Stop → Prop) : (W.beside early).Lawful where
  le_refl := hW.le_refl
  le_trans := hW.le_trans
  scope_later hle h := ⟨h.1, hW.scope_later hle h.2⟩
  closure_later hle h := ⟨h.1, hW.closure_later hle h.2⟩
  faithful _ := ⟨fun h => by rw [h.1], fun h h' => by rw [h.1, h'.1]⟩
  body h := ⟨by rw [h.1], hW.body h.2⟩
  operator := hW.operator
  args := hW.args
  behind := by
    intro w s t _ _ hst
    rcases hst with ⟨rfl, -⟩
    exact lasting_printed.refl s
  lookup := by
    intro w s t f g x hst hfg _
    rcases hst with ⟨rfl, hs⟩
    rcases hfg with ⟨rfl, hf⟩
    cases hx : s.lookup? f x with
    | none => exact .none
    | some v => exact .some (beside_value.mpr ⟨rfl, hW.lookup hs hf hx⟩)
  define := by
    intro w s t f g x v v' hst hfg _ hv
    rcases hst with ⟨rfl, hs⟩
    rcases hfg with ⟨rfl, hf⟩
    obtain ⟨rfl, hvalue⟩ := beside_value.mp hv
    exact ⟨rfl, hW.define hs hf hvalue⟩
  assign := by
    intro w s t f g op x e v v' hst hfg hop hset hv
    rcases hst with ⟨rfl, hs⟩
    rcases hfg with ⟨rfl, hf⟩
    obtain ⟨rfl, hvalue⟩ := beside_value.mp hv
    rw [Store.assign?]
    cases hg : s.find? f x with
    | none => exact .none
    | some g => exact .some ⟨rfl, hW.assign hs hf hop hset hg hvalue⟩
  enter := by
    intro w s t c d vs vs' hst hcd hvs
    rcases hst with ⟨rfl, hs⟩
    rcases hcd with ⟨rfl, hc⟩
    obtain ⟨rfl, hvalues⟩ := beside_values.mp hvs
    obtain ⟨w', hle, hf, hs'⟩ := hW.enter hs hc hvalues
    exact ⟨w', hle, ⟨rfl, hf⟩, rfl, hs'⟩
  close := by
    intro w s t f g body params hst hfg hbody
    rcases hst with ⟨rfl, hs⟩
    rcases hfg with ⟨rfl, hf⟩
    obtain ⟨w', hle, hc, hs'⟩ := hW.close params hs hf hbody
    exact ⟨w', hle, ⟨rfl, hc⟩, rfl, hs'⟩
  print := by
    intro w s t text hst
    rcases hst with ⟨rfl, hs⟩
    exact ⟨rfl, hW.print text hs⟩

/-! ## What is known at the end -/

variable {w : W.World}

/-- An action that is coupled with itself ends with what is known of its store and its value. -/
theorem of_coupled {c : Action Value} (h : Coupling.Coupled (C := W.beside fun _ => False) w (W.beside _).value c c)
    {s : Store} (hs : W.store w s) :
    ∃ w', W.le w w' ∧ W.store w' (storeOf (c s)) ∧ ∀ v, valueOf? (c s) = some v → W.value w' v := by
  have hfollows := h s s ⟨rfl, hs⟩
  generalize c s = r at hfollows
  cases hfollows with
  | ok hle hst hv =>
    refine ⟨_, hle, hst.2, ?_⟩
    rintro v ⟨⟩
    exact (beside_value.mp hv).2
  | error e hle hst => exact ⟨_, hle, hst.2, fun v hv => nomatch hv⟩
  | early he _ => exact he.elim

variable (hW : W.Lawful)

include hW

/-- What was known when an evaluation began is known when it ends, with a value or without. -/
theorem evaluate (turns depth : Nat) {e : Expr} {f : FrameId} {s : Store} (he : W.covered e) (hf : W.scope w f)
    (hs : W.store w s) :
    ∃ w', W.le w w' ∧ W.store w' (storeOf (evaluate turns depth e f s)) ∧
      ∀ v, valueOf? (evaluate turns depth e f s) = some v → W.value w' v :=
  of_coupled ((hW.beside_lawful _).evaluate_coupled (Raised.refl _ turns) (Raised.refl _ depth) he ⟨rfl, hf⟩) hs

/-- So it is with the call of a function. -/
theorem call (turns depth : Nat) (callee : Callee) (args : List Value) {s : Store}
    (hcallee : ∀ c, callee = .closure c → W.closure w c) (hargs : W.values w args) (hs : W.store w s) :
    ∃ w', W.le w w' ∧ W.store w' (storeOf (callee.call depth (Eval.evaluate turns depth) args s)) ∧
      ∀ v, valueOf? (callee.call depth (Eval.evaluate turns depth) args s) = some v → W.value w' v := by
  have hC := hW.beside_lawful fun _ => False
  have hvs : (W.beside fun _ => False).values w args args := beside_values.mpr ⟨rfl, hargs⟩
  refine of_coupled ?_ hs
  cases callee with
  | builtin b => exact hC.builtin_coupled (Raised.refl _ depth) b hvs
  | closure c =>
    refine hC.closure_call_coupled ⟨rfl, hcallee c rfl⟩ hvs ?_ (evaluate_printed turns depth)
    intro w' e f g _ he hfg
    exact hC.evaluate_coupled (Raised.refl _ turns) (Raised.refl _ depth) he hfg

end Lawful

end Watch

/-! ## Invariants of the store alone -/

/-- An invariant of the store that holds as long as names are bound only in the frames at hand, or
    where they are found. -/
structure Kept (I : Store → Prop) (atHand : FrameId → Prop) : Prop where
  define : ∀ {s f} (x v), I s → atHand f → I (s.define f x v)
  assign : ∀ {s f g x} (v), I s → atHand f → s.find? f x = some g → I (s.define g x v)
  enter : ∀ {s} (outer pairs), I s →
    atHand s.frames.size ∧ I ((s.push (some outer)).2.update s.frames.size pairs)
  close : ∀ {s} (params body f), I s → I (s.close params body f).2
  print : ∀ {s} (text), I s → I (s.print text)

def Watch.ofInvariant (I : Store → Prop) (atHand : FrameId → Prop) : Watch where
  World := Unit
  le _ _ := True
  store _ := I
  scope _ := atHand
  closure _ _ := True
  covered _ := True

section

variable {I : Store → Prop} {atHand : FrameId → Prop} (hI : Kept I atHand)

include hI

theorem Kept.lawful : (Watch.ofInvariant I atHand).Lawful where
  le_refl _ := trivial
  le_trans _ _ := trivial
  scope_later _ h := h
  closure_later _ _ := trivial
  body _ := trivial
  operator _ _ := trivial
  args _ _ _ := trivial
  lookup _ _ _ _ _ := trivial
  define hs hf _ := hI.define _ _ hs hf
  assign hs hf _ _ hg _ := hI.assign _ hs hf hg
  push := by
    intro _ s c hs _
    exact ⟨(), trivial, hI.enter c.frame [] hs⟩
  close := by
    intro _ s f body params hs _ _
    exact ⟨(), trivial, trivial, hI.close params body f hs⟩
  print text hs := hI.print text hs

/-- Across an evaluation the invariant is kept, whether it gives a value or stops. -/
theorem Kept.across (turns depth : Nat) (e : Expr) {f : FrameId} (hf : atHand f) {s : Store} (hs : I s) :
    I (storeOf (evaluate turns depth e f s)) := by
  obtain ⟨_, _, hend, _⟩ := hI.lawful.evaluate (w := ()) turns depth (e := e) trivial hf hs
  exact hend

/-- Across a call too, which has a frame of its own at hand. -/
theorem Kept.across_call (turns depth : Nat) (callee : Callee) (args : List Value) {s : Store} (hs : I s) :
    I (storeOf (callee.call depth (evaluate turns depth) args s)) := by
  obtain ⟨_, _, hend, _⟩ := hI.lawful.call (w := ()) turns depth callee args (fun _ _ => trivial)
    (fun _ _ => trivial) hs
  exact hend

end

/-- With more of the budgets whose end it may notice, an evaluation ends the same, unless it was
    stopped early. -/
theorem evaluate_raised (early : Stop → Prop) {turns turns' depth depth' : Nat}
    (hT : Raised (early .turns) turns turns') (hD : Raised (early .depth) depth depth') (e : Expr) (f : FrameId)
    (s : Store) :
    evaluate turns' depth' e f s = evaluate turns depth e f s ∨
      ∃ stop t, early stop ∧ evaluate turns depth e f s = .error stop t ∧
        Printed t (storeOf (evaluate turns' depth' e f s)) := by
  have hI : Kept (fun _ => True) (fun _ => True) := by
    constructor <;> simp
  have h := (hI.lawful.beside_lawful early).evaluate_coupled hT hD (e := e) (f := f) (w := ()) trivial
    ⟨rfl, trivial⟩ s s ⟨rfl, trivial⟩
  generalize evaluate turns depth e f s = r at h
  generalize evaluate turns' depth' e f s = r' at h
  cases h with
  | ok _ hst hv => exact .inl (by rw [(Watch.beside_value.mp hv).1, hst.1])
  | error e _ hst => exact .inl (by rw [hst.1])
  | early he hp => exact .inr ⟨_, _, he, rfl, hp⟩

end EggLang.Eval
