/-
  EggLang.Proofs.Eval.Steps — what an evaluation is made of, and where it stops.

  To evaluate an application is to evaluate its operator, then its arguments one after the other,
  then to call; a call of a closure is to evaluate its body; a form evaluates some of its arguments.
  Each of these is a step (`Step`), begun in the store that the steps before it have left (`Part`),
  and has such parts itself (`Within`).

  Nothing in the language catches a stop. So an evaluation that stops has come to a step which stops
  of itself, for a reason that lies in that step alone:

  - `Step.Raises`: what such a step must be like, for the reasons that are worth tracing.
  - `stops_within`: whatever stops has such a step within it.
  - `Lawful.within`: what a watch knows when a step begins, it knows when any step within it begins.
-/

import EggLang.Proofs.Eval.Watch
import EggLang.Proofs.Value.Stops

namespace EggLang.Eval

open EggLang.Scope EggLang.Program EggLang.Value

/-- Two actions in a row stop when the first does, or when the second does after it. -/
theorem bind_stops {α β : Type} {c : Action α} {k : α → Action β} {s t : Store} {stop : Stop}
    (h : (c >>= k) s = .error stop t) : c s = .error stop t ∨ ∃ a u, c s = .ok a u ∧ k a u = .error stop t := by
  cases hc : c s with
  | ok a u =>
    rw [bind_of_ok k hc] at h
    exact .inr ⟨a, u, rfl, h⟩
  | error e u =>
    rw [bind_of_error k hc] at h
    cases h
    exact .inl rfl

/-- Two actions in a row give what the second gives, got from what the first gives. -/
theorem bind_gives {α β : Type} {c : Action α} {k : α → Action β} {s t : Store} {b : β}
    (h : (c >>= k) s = .ok b t) : ∃ a u, c s = .ok a u ∧ k a u = .ok b t := by
  cases hc : c s with
  | ok a u =>
    rw [bind_of_ok k hc] at h
    exact ⟨a, u, rfl, h⟩
  | error e u =>
    rw [bind_of_error k hc] at h
    cases h

theorem ofResult_stops {α : Type} {r : Except Stop α} {s t : Store} {stop : Stop}
    (h : Action.ofResult r s = .error stop t) : r = .error stop := by
  cases r with
  | ok a => cases h
  | error e =>
    cases h
    rfl

def stopOf? {α : Type} : EStateM.Result Stop Store α → Option Stop
  | .ok _ _ => none
  | .error stop _ => some stop

theorem stopOf?_eq_some {α : Type} {r : EStateM.Result Stop Store α} {stop : Stop} (h : stopOf? r = some stop) :
    ∃ t, r = .error stop t := by
  cases r with
  | ok a t => cases h
  | error e t =>
    cases h
    exact ⟨t, rfl⟩

/-! ## Steps -/

inductive Step where
  | evaluate (depth : Nat) (e : Expr) (f : FrameId)
  | call (depth : Nat) (callee : Callee) (args : List Value)

def Step.run (turns : Nat) : Step → Action Value
  | .evaluate depth e f => Eval.evaluate turns depth e f
  | .call depth callee args => callee.call depth (Eval.evaluate turns depth) args

/-- Expressions that are evaluated one after the other: `e` is come to, in the store `t`. -/
inductive InTurn (ev : Expr → Action Value) : List Expr → Store → Expr → Store → Prop
  | head {e : Expr} {rest : List Expr} {s : Store} : InTurn ev (e :: rest) s e s
  | tail {a e : Expr} {rest : List Expr} {v : Value} {s t u : Store} :
      ev a s = .ok v t → InTurn ev rest t e u → InTurn ev (a :: rest) s e u

inductive InLoop (ev : Expr → Action Value) (condition body : Expr) : Nat → Store → Expr → Store → Prop
  | condition {turns : Nat} {s : Store} : InLoop ev condition body (turns + 1) s condition s
  | body {turns : Nat} {c : Value} {s t : Store} : ev condition s = .ok c t → c.isFalse = false →
      InLoop ev condition body (turns + 1) s body t
  | again {turns : Nat} {e : Expr} {c b : Value} {s t u r : Store} : ev condition s = .ok c t → c.isFalse = false →
      ev body t = .ok b u → InLoop ev condition body turns u e r → InLoop ev condition body (turns + 1) s e r

inductive FormPart (turns : Nat) (ev : Expr → Action Value) : Form → List Expr → Store → Expr → Store → Prop
  | define {x : String} {e : Expr} {s : Store} : FormPart turns ev .define [.word x, e] s e s
  | set {x : String} {e : Expr} {s : Store} : FormPart turns ev .set [.word x, e] s e s
  | condition {c a b : Expr} {s : Store} : FormPart turns ev .branch [c, a, b] s c s
  | chosen {c a b : Expr} {v : Value} {s t : Store} : ev c s = .ok v t →
      FormPart turns ev .branch [c, a, b] s (if v.isFalse then b else a) t
  | loop {c body e : Expr} {s t : Store} : InLoop ev c body turns s e t → FormPart turns ev .loop [c, body] s e t
  | sequence {args : List Expr} {e : Expr} {s t : Store} : InTurn ev args s e t → FormPart turns ev .sequence args s e t

/-- The first step, begun in the store `s`, comes to the second one, in the store `t`. -/
inductive Part (turns : Nat) : Step → Store → Step → Store → Prop
  | form {depth : Nat} {op e : Expr} {args : List Expr} {f : FrameId} {form : Form} {s t : Store} :
      Form.ofOperator? op = some form → FormPart turns (fun e => evaluate turns depth e f) form args s e t →
      Part turns (.evaluate (depth + 2) (.apply op args) f) s (.evaluate depth e f) t
  | operator {depth : Nat} {op : Expr} {args : List Expr} {f : FrameId} {s : Store} : Form.ofOperator? op = none →
      Part turns (.evaluate (depth + 2) (.apply op args) f) s (.evaluate (depth + 1) op f) s
  | argument {depth : Nat} {op e : Expr} {args : List Expr} {f : FrameId} {v : Value} {callee : Callee}
      {s t u : Store} : Form.ofOperator? op = none → evaluate turns (depth + 1) op f s = .ok v t →
      v.callee? = some callee → InTurn (fun e => evaluate turns depth e f) args t e u →
      Part turns (.evaluate (depth + 2) (.apply op args) f) s (.evaluate depth e f) u
  | call {depth : Nat} {op : Expr} {args : List Expr} {f : FrameId} {v : Value} {callee : Callee}
      {values : List Value} {s t u : Store} : Form.ofOperator? op = none →
      evaluate turns (depth + 1) op f s = .ok v t → v.callee? = some callee →
      evaluateAll (fun e => evaluate turns depth e f) args t = .ok values u →
      Part turns (.evaluate (depth + 2) (.apply op args) f) s (.call depth callee values) u
  | body {depth : Nat} {c : Closure} {args : List Value} {s : Store} : args.length = c.params.length →
      Part turns (.call depth (.closure c) args) s (.evaluate depth c.body s.frames.size)
        ((s.push (some c.frame)).2.update s.frames.size (c.params.zip args))

inductive Within (turns : Nat) : Step → Store → Step → Store → Prop
  | self {p : Step} {s : Store} : Within turns p s p s
  | part {p q r : Step} {s t u : Store} : Part turns p s q t → Within turns q t r u → Within turns p s r u

/-! ## Steps that stop of themselves -/

/-- The message that the step comes to needs an integer that is too long to be written. -/
inductive Step.Unwritable : Step → Prop
  | leaf {depth : Nat} {leaf : Foreign} {f : FrameId} : leaf.overlong = true →
      Step.Unwritable (.evaluate depth (.foreign leaf) f)
  /-- The operator is no function, or a parameter is no word. -/
  | inside {depth : Nat} {op e : Expr} {args : List Expr} {f : FrameId} : e ∈ op :: args → e.overlong = true →
      Step.Unwritable (.evaluate depth (.apply op args) f)
  | index {depth : Nat} {v : Value} {items : List Value} {i : Int} : v.items? = some items →
      UnwritableIndex i items.length → Step.Unwritable (.call depth (.builtin .element) [v, .int i])

/-- What is known of a step that stops of itself for such a reason. Of the reasons that are not
    listed, nothing is asked. -/
def Step.Raises (turns : Nat) (p : Step) (s : Store) : Stop → Prop
  | .fault (.unbound x) => ∃ depth f, p = .evaluate depth (.word x) f ∧ s.lookup? f x = none
  | .fault (.settingUnbound x) => ∃ depth op e f v t, p = .evaluate (depth + 2) (.apply op [.word x, e]) f ∧
      Eval.evaluate turns depth e f s = .ok v t ∧ t.find? f x = none
  | .fault (.notExpression _) => ∃ depth leaf f, p = .evaluate depth (.foreign leaf) f
  | .overlong => p.Unwritable
  | _ => True

theorem Step.raises_of_ofValues {turns : Nat} {p : Step} {s : Store} {stop : Stop} (h : stop.ofValues = true) :
    p.Raises turns s stop := by
  cases stop with
  | fault f => cases f <;> simp_all [Step.Raises, Stop.ofValues]
  | overlong => cases h
  | depth => trivial
  | turns => trivial

def Traced (turns : Nat) (p : Step) (s : Store) (stop : Stop) : Prop :=
  ∃ q u, Within turns p s q u ∧ q.Raises turns u stop

theorem Traced.self {turns : Nat} {p : Step} {s : Store} {stop : Stop} (h : p.Raises turns s stop) :
    Traced turns p s stop :=
  ⟨p, s, .self, h⟩

theorem Traced.part {turns : Nat} {p q : Step} {s t : Store} {stop : Stop} (hpart : Part turns p s q t)
    (h : Traced turns q t stop) : Traced turns p s stop := by
  obtain ⟨r, u, hwithin, hraises⟩ := h
  exact ⟨r, u, .part hpart hwithin, hraises⟩

/-! ## Where an evaluation stops -/

section

variable {ev : Expr → Action Value} {stop : Stop}

theorem evaluateAll_stops {args : List Expr} {s t : Store} (h : evaluateAll ev args s = .error stop t) :
    ∃ e u, InTurn ev args s e u ∧ ev e u = .error stop t := by
  induction args generalizing s with
  | nil => cases h
  | cons a rest ih =>
    rcases bind_stops h with ha | ⟨v, s', hv, h⟩
    · exact ⟨a, s, .head, ha⟩
    · rcases bind_stops h with hrest | ⟨vs, t', _, h⟩
      · obtain ⟨e, u, hin, he⟩ := ih hrest
        exact ⟨e, u, .tail hv hin, he⟩
      · cases h

theorem evaluateLast_stops {last : Value} {args : List Expr} {s t : Store}
    (h : evaluateLast ev last args s = .error stop t) : ∃ e u, InTurn ev args s e u ∧ ev e u = .error stop t := by
  induction args generalizing last s with
  | nil => cases h
  | cons a rest ih =>
    rcases bind_stops h with ha | ⟨v, s', hv, h⟩
    · exact ⟨a, s, .head, ha⟩
    · obtain ⟨e, u, hin, he⟩ := ih h
      exact ⟨e, u, .tail hv hin, he⟩

/-- A loop stops when its turns are used up, or where its condition or its body does. -/
theorem repeatWhile_stops {condition body : Expr} {turns : Nat} {s t : Store}
    (h : repeatWhile ev condition body turns s = .error stop t) :
    stop = .turns ∨ ∃ e u, InLoop ev condition body turns s e u ∧ ev e u = .error stop t := by
  induction turns generalizing s with
  | zero =>
    cases h
    exact .inl rfl
  | succ turns ih =>
    rcases bind_stops h with hc | ⟨c, s', hc, h⟩
    · exact .inr ⟨condition, s, .condition, hc⟩
    · cases hfalse : c.isFalse with
      | true =>
        rw [hfalse] at h
        cases h
      | false =>
        rw [hfalse] at h
        rcases bind_stops h with hb | ⟨b, s'', hb, h⟩
        · exact .inr ⟨body, s', .body hc hfalse, hb⟩
        · rcases ih h with hturns | ⟨e, u, hin, he⟩
          · exact .inl hturns
          · exact .inr ⟨e, u, .again hc hfalse hb hin, he⟩

end

/-- The parameters of a function stop at one that is no word, which has to be written. -/
theorem paramNames_stops {depth : Nat} {args : List Expr} {stop : Stop} (h : paramNames depth args = .error stop) :
    stop = .depth ∨ (∃ e ∈ args, e.overlong = true ∧ stop = .overlong) ∨
      ∃ written, stop = .fault (.parameterNotWord written) := by
  have hwritten : ∀ {e : Expr},
      (e.written depth >>= fun w => fail (.parameterNotWord w) : Except Stop (List String)) = .error stop →
      stop = .depth ∨ (e.overlong = true ∧ stop = .overlong) ∨ ∃ written, stop = .fault (.parameterNotWord written) := by
    intro e he
    rcases bind_eq_error he with he | ⟨w, _, he⟩
    · exact (Expr.written_stops he).imp_right .inl
    · cases he
      exact .inr (.inr ⟨w, rfl⟩)
  induction args with
  | nil => cases h
  | cons a rest ih =>
    cases a with
    | word x =>
      rcases bind_eq_error h with h | ⟨_, _, h⟩
      · rcases ih h with hdepth | ⟨e, he, hstop⟩ | hfault
        · exact .inl hdepth
        · exact .inr (.inl ⟨e, List.mem_cons_of_mem _ he, hstop⟩)
        · exact .inr (.inr hfault)
      · cases h
    | _ => exact (hwritten h).imp_right (Or.imp_left fun hlong => ⟨_, List.mem_cons_self, hlong⟩)

theorem makeClosure_stops {turns depth : Nat} {op : Expr} {args : List Expr} {f : FrameId} {s t : Store} {stop : Stop}
    (h : makeClosure depth args f s = .error stop t) :
    (Step.evaluate (depth + 2) (.apply op args) f).Raises turns s stop := by
  unfold makeClosure at h
  cases hlast : args.getLast? with
  | none =>
    rw [hlast] at h
    cases h
    trivial
  | some body =>
    rw [hlast] at h
    rcases bind_stops h with h | ⟨params, u, _, h⟩
    · rcases paramNames_stops (ofResult_stops h) with rfl | ⟨e, he, hlong, rfl⟩ | ⟨written, rfl⟩
      · trivial
      · exact .inside (List.mem_cons_of_mem _ ((List.dropLast_subset args) he)) hlong
      · trivial
    · cases h

/-- A form stops where one of its arguments does, or of itself. -/
theorem form_stops {turns depth : Nat} {op : Expr} {form : Form} {args : List Expr} {f : FrameId} {s t : Store}
    {stop : Stop} (h : form.run turns depth (fun e => evaluate turns depth e f) f args s = .error stop t) :
    (∃ e u, FormPart turns (fun e => evaluate turns depth e f) form args s e u ∧
      evaluate turns depth e f u = .error stop t) ∨
    (Step.evaluate (depth + 2) (.apply op args) f).Raises turns s stop := by
  unfold Form.run at h
  split at h
  · rename_i x e
    rcases bind_stops h with h | ⟨v, u, _, h⟩
    · exact .inl ⟨e, s, .define, h⟩
    · cases h
  · cases h
    exact .inr trivial
  · rename_i x e
    rcases bind_stops h with h | ⟨v, u, hv, h⟩
    · exact .inl ⟨e, s, .set, h⟩
    · rcases bind_stops h with h | ⟨_, _, _, h⟩
      · simp only [Action.assign, Store.assign?] at h
        cases hfind : u.find? f x with
        | some g =>
          rw [hfind] at h
          cases h
        | none =>
          rw [hfind] at h
          cases h
          exact .inr ⟨depth, op, e, f, v, _, rfl, hv, hfind⟩
      · cases h
  · cases h
    exact .inr trivial
  · rename_i c a b
    rcases bind_stops h with h | ⟨v, u, hv, h⟩
    · exact .inl ⟨c, s, .condition, h⟩
    · refine .inl ⟨_, u, .chosen hv, ?_⟩
      cases hfalse : v.isFalse with
      | true => rwa [hfalse] at h
      | false => rwa [hfalse] at h
  · cases h
    exact .inr trivial
  · rcases repeatWhile_stops h with rfl | ⟨e, u, hin, he⟩
    · exact .inr trivial
    · exact .inl ⟨e, u, .loop hin, he⟩
  · cases h
    exact .inr trivial
  · obtain ⟨e, u, hin, he⟩ := evaluateLast_stops h
    exact .inl ⟨e, u, .sequence hin, he⟩
  · exact .inr (makeClosure_stops h)

/-- A builtin stops for reasons that its arguments give. -/
theorem builtin_stops {turns depth : Nat} {b : Builtin} {args : List Value} {s t : Store} {stop : Stop}
    (h : b.call depth args s = .error stop t) : (Step.call depth (.builtin b) args).Raises turns s stop := by
  unfold Builtin.call at h
  split at h
  · exact Step.raises_of_ofValues (arithmetic_stops (ofResult_stops h))
  · rcases bind_stops h with h | ⟨_, _, _, h⟩
    · rw [equal_stops (ofResult_stops h)]
      trivial
    · cases h
  · exact Step.raises_of_ofValues (comparison_stops (ofResult_stops h))
  · rcases bind_stops h with h | ⟨_, _, _, h⟩
    · exact Step.raises_of_ofValues (ofValues_of_display (ofResult_stops h))
    · cases h
  · cases h
  · exact Step.raises_of_ofValues (length_stops (ofResult_stops h))
  · rcases element_stops (ofResult_stops h) with hstop | ⟨rfl, items, i, hitems, rfl, hindex⟩
    · exact Step.raises_of_ofValues hstop
    · exact .index hitems hindex
  · cases h
    trivial

/-- A call stops of itself, or where the body of the closure does. -/
theorem call_stops {turns depth : Nat}
    (hev : ∀ {e f s t stop}, evaluate turns depth e f s = .error stop t → Traced turns (.evaluate depth e f) s stop)
    {callee : Callee} {args : List Value} {s t : Store} {stop : Stop}
    (h : callee.call depth (evaluate turns depth) args s = .error stop t) :
    Traced turns (.call depth callee args) s stop := by
  cases callee with
  | builtin b => exact .self (builtin_stops h)
  | closure c =>
    simp only [Callee.call, Closure.call] at h
    by_cases hlength : args.length = c.params.length
    · rw [if_pos hlength] at h
      rcases bind_stops h with h | ⟨f, u, henter, h⟩
      · cases h
      · cases henter
        exact .part (.body hlength) (hev h)
    · rw [if_neg hlength] at h
      cases h
      exact .self trivial

/-- An evaluation that stops comes to a step that stops of itself. -/
theorem evaluate_stops {turns depth : Nat} {e : Expr} {f : FrameId} {s t : Store} {stop : Stop}
    (h : evaluate turns depth e f s = .error stop t) : Traced turns (.evaluate depth e f) s stop := by
  -- parts have less depth than the whole, so the step is found by going down
  induction depth using Nat.strongRecOn generalizing e f s t stop with
  | _ depth ih =>
    unfold evaluate at h
    split at h
    · cases h
      exact .self trivial
    · cases h
    · cases h
    · rename_i x
      rw [Action.lookup] at h
      split at h
      · cases h
      · rename_i hnone
        cases h
        exact .self ⟨_, f, rfl, hnone⟩
    · rename_i leaf
      rw [refuse] at h
      split at h
      · rename_i hlong
        cases h
        exact .self (.leaf hlong)
      · cases h
        exact .self ⟨_, leaf, f, rfl⟩
    · cases h
      exact .self trivial
    · rename_i depth operator args
      cases hop : Form.ofOperator? operator with
      | some form =>
        simp only [hop] at h
        rcases form_stops h with ⟨e, u, hpart, he⟩ | hraises
        · exact .part (.form hop hpart) (ih depth (by omega) he)
        · exact .self hraises
      | none =>
        simp only [hop] at h
        rcases bind_stops h with h | ⟨v, u, hv, h⟩
        · exact .part (.operator hop) (ih (depth + 1) (by omega) h)
        · cases hcallee : v.callee? with
          | none =>
            simp only [hcallee] at h
            rcases bind_stops h with h | ⟨shown, _, _, h⟩
            · rcases Expr.written_stops (ofResult_stops h) with rfl | ⟨hlong, rfl⟩
              · exact .self trivial
              · exact .self (.inside List.mem_cons_self hlong)
            · cases h
              exact .self trivial
          | some callee =>
            simp only [hcallee] at h
            rcases bind_stops h with h | ⟨values, u', hvalues, h⟩
            · obtain ⟨e, r, hin, he⟩ := evaluateAll_stops h
              exact .part (.argument hop hv hcallee hin) (ih depth (by omega) he)
            · exact .part (.call hop hv hcallee hvalues) (call_stops (fun he => ih depth (by omega) he) h)

/-- Whatever stops has within it a step that stops of itself. -/
theorem stops_within {turns : Nat} {p : Step} {s t : Store} {stop : Stop} (h : p.run turns s = .error stop t) :
    Traced turns p s stop := by
  cases p with
  | evaluate depth e f => exact evaluate_stops h
  | call depth callee args => exact call_stops evaluate_stops h

/-! ## What is known when a step begins -/

theorem mem_closures_of_callee? {v : Value} {c : Closure} (h : v.callee? = some (.closure c)) : c ∈ v.closures := by
  cases v with
  | closure d =>
    cases h
    exact List.mem_singleton.mpr rfl
  | _ => cases h

namespace Watch

variable {W : Watch} {turns depth : Nat} {f : FrameId}

def knows (W : Watch) (w : W.World) (s : Store) : Step → Prop
  | .evaluate _ e f => W.covered e ∧ W.scope w f ∧ W.store w s
  | .call _ callee args => (∀ c, callee = .closure c → W.closure w c) ∧ W.values w args ∧ W.store w s

namespace Lawful

variable (hW : W.Lawful)

include hW

theorem evaluate_ok {w : W.World} {e : Expr} {s t : Store} {v : Value} (he : W.covered e) (hf : W.scope w f)
    (hs : W.store w s) (h : Eval.evaluate turns depth e f s = .ok v t) :
    ∃ w', W.le w w' ∧ W.scope w' f ∧ W.store w' t ∧ W.value w' v := by
  obtain ⟨w', hle, hstore, hvalue⟩ := hW.evaluate turns depth he hf hs
  rw [h] at hstore hvalue
  exact ⟨w', hle, hW.scope_later hle hf, hstore, hvalue v rfl⟩

theorem evaluateAll_ok {w : W.World} {args : List Expr} {s t : Store} {vs : List Value}
    (hargs : ∀ a ∈ args, W.covered a) (hf : W.scope w f) (hs : W.store w s)
    (h : evaluateAll (fun e => Eval.evaluate turns depth e f) args s = .ok vs t) :
    ∃ w', W.le w w' ∧ W.store w' t ∧ W.values w' vs := by
  induction args generalizing w s vs with
  | nil =>
    cases h
    exact ⟨w, hW.le_refl w, hs, fun c hc => nomatch hc⟩
  | cons a rest ih =>
    obtain ⟨v, s₁, hv, h⟩ := bind_gives h
    obtain ⟨ws, s₂, hws, h⟩ := bind_gives h
    cases h
    obtain ⟨w₁, hle₁, hf₁, hs₁, hvalue⟩ := hW.evaluate_ok (hargs a List.mem_cons_self) hf hs hv
    obtain ⟨w₂, hle₂, hs₂, hvalues⟩ := ih (fun a ha => hargs a (List.mem_cons_of_mem _ ha)) hf₁ hs₁ hws
    refine ⟨w₂, hW.le_trans hle₁ hle₂, hs₂, ?_⟩
    intro c hc
    rcases List.mem_append.mp hc with hc | hc
    · exact hW.closure_later hle₂ (hvalue c hc)
    · exact hvalues c hc

theorem inTurn {w : W.World} {args : List Expr} {e : Expr} {s t : Store} (hargs : ∀ a ∈ args, W.covered a)
    (hf : W.scope w f) (hs : W.store w s) (h : InTurn (fun e => Eval.evaluate turns depth e f) args s e t) :
    ∃ w', W.le w w' ∧ W.knows w' t (.evaluate depth e f) := by
  induction h generalizing w with
  | head => exact ⟨w, hW.le_refl w, hargs _ List.mem_cons_self, hf, hs⟩
  | tail hv _ ih =>
    obtain ⟨w₁, hle₁, hf₁, hs₁, -⟩ := hW.evaluate_ok (hargs _ List.mem_cons_self) hf hs hv
    obtain ⟨w₂, hle₂, hknown⟩ := ih (fun a ha => hargs a (List.mem_cons_of_mem _ ha)) hf₁ hs₁
    exact ⟨w₂, hW.le_trans hle₁ hle₂, hknown⟩

theorem inLoop {w : W.World} {condition body e : Expr} {turns' : Nat} {s t : Store} (hc : W.covered condition)
    (hb : W.covered body) (hf : W.scope w f) (hs : W.store w s)
    (h : InLoop (fun e => Eval.evaluate turns depth e f) condition body turns' s e t) :
    ∃ w', W.le w w' ∧ W.knows w' t (.evaluate depth e f) := by
  induction h generalizing w with
  | condition => exact ⟨w, hW.le_refl w, hc, hf, hs⟩
  | body hv _ =>
    obtain ⟨w₁, hle₁, hf₁, hs₁, -⟩ := hW.evaluate_ok hc hf hs hv
    exact ⟨w₁, hle₁, hb, hf₁, hs₁⟩
  | again hv _ hv' _ ih =>
    obtain ⟨w₁, hle₁, hf₁, hs₁, -⟩ := hW.evaluate_ok hc hf hs hv
    obtain ⟨w₂, hle₂, hf₂, hs₂, -⟩ := hW.evaluate_ok hb hf₁ hs₁ hv'
    obtain ⟨w₃, hle₃, hknown⟩ := ih hf₂ hs₂
    exact ⟨w₃, hW.le_trans hle₁ (hW.le_trans hle₂ hle₃), hknown⟩

theorem formPart {w : W.World} {form : Form} {args : List Expr} {e : Expr} {s t : Store}
    (hargs : ∀ a ∈ args, W.covered a) (hf : W.scope w f) (hs : W.store w s)
    (h : FormPart turns (fun e => Eval.evaluate turns depth e f) form args s e t) :
    ∃ w', W.le w w' ∧ W.knows w' t (.evaluate depth e f) := by
  cases h with
  | define => exact ⟨w, hW.le_refl w, hargs e (by simp), hf, hs⟩
  | set => exact ⟨w, hW.le_refl w, hargs e (by simp), hf, hs⟩
  | condition => exact ⟨w, hW.le_refl w, hargs e (by simp), hf, hs⟩
  | chosen hv =>
    obtain ⟨w₁, hle₁, hf₁, hs₁, -⟩ := hW.evaluate_ok (hargs _ (by simp)) hf hs hv
    refine ⟨w₁, hle₁, ?_, hf₁, hs₁⟩
    split
    · exact hargs _ (by simp)
    · exact hargs _ (by simp)
  | loop hin => exact hW.inLoop (hargs _ (by simp)) (hargs _ (by simp)) hf hs hin
  | sequence hin => exact hW.inTurn hargs hf hs hin

/-- What is known when a step begins is known when a part of it begins. -/
theorem part {w : W.World} {p q : Step} {s t : Store} (hp : W.knows w s p) (h : Part turns p s q t) :
    ∃ w', W.le w w' ∧ W.knows w' t q := by
  cases h with
  | form hop hpart =>
    obtain ⟨he, hf, hs⟩ := hp
    exact hW.formPart (hW.args he) hf hs hpart
  | operator hop =>
    obtain ⟨he, hf, hs⟩ := hp
    exact ⟨w, hW.le_refl w, hW.operator he hop, hf, hs⟩
  | argument hop hv _ hin =>
    obtain ⟨he, hf, hs⟩ := hp
    obtain ⟨w₁, hle₁, hf₁, hs₁, -⟩ := hW.evaluate_ok (hW.operator he hop) hf hs hv
    obtain ⟨w₂, hle₂, hknown⟩ := hW.inTurn (hW.args he) hf₁ hs₁ hin
    exact ⟨w₂, hW.le_trans hle₁ hle₂, hknown⟩
  | call hop hv hcallee hvalues =>
    obtain ⟨he, hf, hs⟩ := hp
    obtain ⟨w₁, hle₁, hf₁, hs₁, hvalue⟩ := hW.evaluate_ok (hW.operator he hop) hf hs hv
    obtain ⟨w₂, hle₂, hs₂, hvs⟩ := hW.evaluateAll_ok (hW.args he) hf₁ hs₁ hvalues
    refine ⟨w₂, hW.le_trans hle₁ hle₂, ?_, hvs, hs₂⟩
    intro c hc
    exact hW.closure_later hle₂ (hvalue c (mem_closures_of_callee? (hc ▸ hcallee)))
  | body hlength =>
    obtain ⟨hc, hargs, hs⟩ := hp
    obtain ⟨w', hle, hf, hs'⟩ := hW.enter hs (hc _ rfl) hargs
    exact ⟨w', hle, hW.body (hc _ rfl), hf, hs'⟩

/-- What is known when a step begins is known when any step within it begins. -/
theorem within {w : W.World} {p q : Step} {s t : Store} (hp : W.knows w s p) (h : Within turns p s q t) :
    ∃ w', W.le w w' ∧ W.knows w' t q := by
  induction h generalizing w with
  | self => exact ⟨w, hW.le_refl w, hp⟩
  | part hpart _ ih =>
    obtain ⟨w₁, hle₁, hq⟩ := hW.part hp hpart
    obtain ⟨w₂, hle₂, hr⟩ := ih hq
    exact ⟨w₂, hW.le_trans hle₁ hle₂, hr⟩

end Lawful

end Watch

end EggLang.Eval
