/-
  EggLang.Proofs.Eval.Coupling — two evaluations side by side (`evaluate`, `apply`).

  Many things that hold of every program are told of two runs of it: with two budgets, from two
  stores, or of one run beside itself. A `Coupling` says what corresponds in the two runs: their
  stores, the frames at hand, their closures. What corresponds may grow as the runs go on, so all of
  it is told at a world, and worlds are ordered. The runs evaluate the same expressions, those the
  coupling covers, and the first of them may stop early for want of a budget.

  The laws of a coupling (`Lawful`) speak of single changes to corresponding stores. From them:

  - `evaluate_coupled`: the same expression, evaluated in corresponding frames of corresponding
    stores, gives corresponding values or stops for the same reason, and leaves corresponding
    stores; or the first run stops early, and what it printed the second has printed too.
-/

import EggLang.Proofs.Eval.Lasting
import EggLang.Proofs.Program.Written
import EggLang.Proofs.Value.Alike

namespace EggLang.Eval

open EggLang.Scope EggLang.Program EggLang.Value

structure Coupling where
  World : Type
  /-- The second world is the first, or comes after it. -/
  le : World → World → Prop
  store : World → Store → Store → Prop
  /-- The frames in which the two runs evaluate. -/
  scope : World → FrameId → FrameId → Prop
  closure : World → Closure → Closure → Prop
  covered : Expr → Prop
  /-- For this reason the first run may stop where the second goes on. -/
  early : Stop → Prop

namespace Coupling

variable (C : Coupling)

abbrev value (w : C.World) : Value → Value → Prop := Alike (C.closure w)

abbrev values (w : C.World) : List Value → List Value → Prop := AllAlike (C.closure w)

structure Lawful : Prop where
  le_refl : ∀ w, C.le w w
  le_trans : ∀ {w w' w''}, C.le w w' → C.le w' w'' → C.le w w''
  scope_later : ∀ {w w' f g}, C.le w w' → C.scope w f g → C.scope w' f g
  closure_later : ∀ {w w' c d}, C.le w w' → C.closure w c d → C.closure w' c d
  faithful : ∀ w, Faithful (C.closure w)
  body : ∀ {w c d}, C.closure w c d → c.body = d.body ∧ C.covered c.body
  operator : ∀ {f args}, C.covered (.apply f args) → Form.ofOperator? f = none → C.covered f
  args : ∀ {f args}, C.covered (.apply f args) → ∀ a ∈ args, C.covered a
  behind : ∀ {w s t e}, C.early e → C.store w s t → Printed s t
  lookup : ∀ {w s t f g x}, C.store w s t → C.scope w f g → C.covered (.word x) →
    Option.Rel (C.value w) (s.lookup? f x) (t.lookup? g x)
  define : ∀ {w s t f g x v v'}, C.store w s t → C.scope w f g → C.covered (.word x) → C.value w v v' →
    C.store w (s.define f x v) (t.define g x v')
  assign : ∀ {w s t f g op x e v v'}, C.store w s t → C.scope w f g → Form.ofOperator? op = some .set →
    C.covered (.apply op [.word x, e]) → C.value w v v' →
    Option.Rel (C.store w) (s.assign? f x v) (t.assign? g x v')
  enter : ∀ {w s t c d vs vs'}, C.store w s t → C.closure w c d → C.values w vs vs' →
    ∃ w', C.le w w' ∧ C.scope w' s.frames.size t.frames.size ∧
      C.store w' ((s.push (some c.frame)).2.update s.frames.size (c.params.zip vs))
        ((t.push (some d.frame)).2.update t.frames.size (d.params.zip vs'))
  close : ∀ {w s t f g body} (params : List String), C.store w s t → C.scope w f g → C.covered body →
    ∃ w', C.le w w' ∧ C.closure w' (s.close params body f).1 (t.close params body g).1 ∧
      C.store w' (s.close params body f).2 (t.close params body g).2
  print : ∀ {w s t} (text : String), C.store w s t → C.store w (s.print text) (t.print text)

variable {C} {α β γ δ : Type}

/-- The second run follows the first, from the world `w` on. -/
inductive Follows (w : C.World) (V : C.World → α → β → Prop) :
    EStateM.Result Stop Store α → EStateM.Result Stop Store β → Prop
  | ok {w' : C.World} {a : α} {b : β} {s t : Store} : C.le w w' → C.store w' s t → V w' a b →
      Follows w V (.ok a s) (.ok b t)
  | error {w' : C.World} (e : Stop) {s t : Store} : C.le w w' → C.store w' s t →
      Follows w V (.error e s) (.error e t)
  /-- The second run has printed all that the first has. -/
  | early {e : Stop} {s : Store} {r : EStateM.Result Stop Store β} : C.early e → Printed s (storeOf r) →
      Follows w V (.error e s) r

def Coupled (w : C.World) (V : C.World → α → β → Prop) (c : Action α) (d : Action β) : Prop :=
  ∀ s t, C.store w s t → Follows w V (c s) (d t)

namespace Lawful

variable (hC : C.Lawful)

include hC

theorem follows_later {w w' : C.World} {V : C.World → α → β → Prop} {r : EStateM.Result Stop Store α}
    {r' : EStateM.Result Stop Store β} (hw : C.le w w') (h : Follows w' V r r') : Follows w V r r' := by
  cases h with
  | ok hle hs hV => exact .ok (hC.le_trans hw hle) hs hV
  | error e hle hs => exact .error e (hC.le_trans hw hle) hs
  | early he hp => exact .early he hp

theorem value_later {w w' : C.World} {v v' : Value} (hw : C.le w w') (h : C.value w v v') : C.value w' v v' :=
  h.mono fun _ _ => hC.closure_later hw

/-! ## Single actions -/

theorem pure {w : C.World} {V : C.World → α → β → Prop} {a : α} {b : β} (h : V w a b) :
    Coupled w V (Pure.pure a : Action α) (Pure.pure b : Action β) :=
  fun _ _ hst => .ok (hC.le_refl w) hst h

theorem stop {w : C.World} {V : C.World → α → β → Prop} (e : Stop) :
    Coupled w V (throw e : Action α) (throw e : Action β) :=
  fun _ _ hst => .error e (hC.le_refl w) hst

/-- The first run may stop early whatever the second goes on to do. -/
theorem stop_early {w : C.World} {V : C.World → α → β → Prop} {e : Stop} {d : Action β} (he : C.early e)
    (hd : Keeps Printed d) : Coupled w V (throw e : Action α) d :=
  fun _ t hst => .early he (lasting_printed.trans (hC.behind he hst) (hd t))

theorem ofResult {w : C.World} {V : C.World → α → β → Prop} {r : Except Stop α} {r' : Except Stop β}
    (h : Agrees C.early (V w) r r') : Coupled w V (Action.ofResult r) (Action.ofResult r') := by
  intro s t hst
  cases h with
  | ok hV => exact .ok (hC.le_refl w) hst hV
  | error e => exact .error e (hC.le_refl w) hst
  | early _ he =>
    exact .early he (lasting_printed.trans (hC.behind he hst) (keeps_ofResult lasting_printed r' t))

/-- Actions in a row. Where the first run stops early, what follows in the second may only print
    more. -/
theorem bind {w : C.World} {V : C.World → α → β → Prop} {W : C.World → γ → δ → Prop} {c : Action α} {d : Action β}
    {k : α → Action γ} {l : β → Action δ} (h : Coupled w V c d) (hl : ∀ b, Keeps Printed (l b))
    (hk : ∀ w' a b, C.le w w' → V w' a b → Coupled w' W (k a) (l b)) : Coupled w W (c >>= k) (d >>= l) := by
  intro s t hst
  have hcd := h s t hst
  generalize hc : c s = r at hcd
  generalize hd : d t = r' at hcd
  cases hcd with
  | @ok w' a b s' t' hle hst' hV =>
    rw [bind_of_ok k hc, bind_of_ok l hd]
    exact hC.follows_later hle (hk w' a b hle hV s' t' hst')
  | error e hle hst' =>
    rw [bind_of_error k hc, bind_of_error l hd]
    exact .error e hle hst'
  | early he hp =>
    rw [bind_of_error k hc]
    refine .early he ?_
    cases r' with
    | ok b t' =>
      rw [bind_of_ok l hd]
      exact lasting_printed.trans hp (hl b t')
    | error e' t' =>
      rw [bind_of_error l hd]
      exact hp

/-- What follows an action whose two runs give the same. -/
theorem bind_same {w : C.World} {W : C.World → γ → δ → Prop} {c d : Action α} {k : α → Action γ} {l : α → Action δ}
    (h : Coupled w (fun _ => Eq) c d) (hl : ∀ a, Keeps Printed (l a))
    (hk : ∀ w' a, C.le w w' → Coupled w' W (k a) (l a)) : Coupled w W (c >>= k) (d >>= l) := by
  refine hC.bind h hl ?_
  intro w' a b hle hab
  rw [← hab]
  exact hk w' a hle

theorem lookup_coupled {w : C.World} {f g : FrameId} {x : String} (hfg : C.scope w f g) (hx : C.covered (.word x)) :
    Coupled w C.value (Action.lookup f x) (Action.lookup g x) := by
  intro s t hst
  have h := hC.lookup hst hfg hx
  rw [Action.lookup, Action.lookup]
  cases hs : s.lookup? f x <;> cases ht : t.lookup? g x <;> rw [hs, ht] at h <;> cases h
  · exact .error _ (hC.le_refl w) hst
  · rename_i hv
    exact .ok (hC.le_refl w) hst hv

theorem define_coupled {w : C.World} {f g : FrameId} {x : String} {v v' : Value} (hfg : C.scope w f g)
    (hx : C.covered (.word x)) (hv : C.value w v v') :
    Coupled w (fun _ => Eq) (Action.define f x v) (Action.define g x v') :=
  fun _ _ hst => .ok (hC.le_refl w) (hC.define hst hfg hx hv) rfl

theorem assign_coupled {w : C.World} {f g : FrameId} {op e : Expr} {x : String} {v v' : Value} (hfg : C.scope w f g)
    (hop : Form.ofOperator? op = some .set) (hx : C.covered (.apply op [.word x, e])) (hv : C.value w v v') :
    Coupled w (fun _ => Eq) (Action.assign f x v) (Action.assign g x v') := by
  intro s t hst
  have h := hC.assign hst hfg hop hx hv
  simp only [Action.assign]
  cases hs : s.assign? f x v <;> cases ht : t.assign? g x v' <;> rw [hs, ht] at h <;> cases h
  · exact .error _ (hC.le_refl w) hst
  · rename_i hst'
    exact .ok (hC.le_refl w) hst' rfl

theorem enter_coupled {w : C.World} {c d : Closure} {vs vs' : List Value} (hcd : C.closure w c d)
    (hvs : C.values w vs vs') :
    Coupled w C.scope (Action.enter c.frame (c.params.zip vs)) (Action.enter d.frame (d.params.zip vs')) := by
  intro s t hst
  obtain ⟨w', hle, hfg, hst'⟩ := hC.enter hst hcd hvs
  exact .ok hle hst' hfg

theorem printLine_coupled {w : C.World} (text : String) :
    Coupled w (fun _ => Eq) (Action.printLine text) (Action.printLine text) :=
  fun _ _ hst => .ok (hC.le_refl w) (hC.print _ hst) rfl

/-! ## Calls -/

theorem builtin_coupled {w : C.World} {depth depth' : Nat} (hd : Raised (C.early .depth) depth depth') (b : Builtin)
    {vs vs' : List Value} (h : C.values w vs vs') : Coupled w C.value (b.call depth vs) (b.call depth' vs') := by
  have hR := hC.faithful w
  have hlength := h.length_eq
  -- the two argument lists have the same length, so they run into the same row of the definition
  have hcount : Coupled w C.value (Action.fault (.argumentCount b.name (b.arity.getD 0) vs.length))
      (Action.fault (.argumentCount b.name (b.arity.getD 0) vs'.length)) := by
    rw [hlength]
    exact hC.stop _
  cases b with
  | arithmetic op =>
    rcases h with _ | ⟨ha, _ | ⟨hb, _ | ⟨_, _⟩⟩⟩
    · exact hcount
    · exact hcount
    · exact hC.ofResult (arithmetic_agrees hR hd op ha hb)
    · exact hcount
  | equal =>
    rcases h with _ | ⟨ha, _ | ⟨hb, _ | ⟨_, _⟩⟩⟩
    · exact hcount
    · exact hcount
    · refine hC.bind_same (hC.ofResult (equal_agrees hR hd ha hb)) (fun _ => keeps_pure lasting_printed _) ?_
      intro w' same _
      exact hC.pure (.flag same)
    · exact hcount
  | compare op =>
    rcases h with _ | ⟨ha, _ | ⟨hb, _ | ⟨_, _⟩⟩⟩
    · exact hcount
    · exact hcount
    · exact hC.ofResult (comparison_agrees hR hd op ha hb)
    · exact hcount
  | print =>
    rcases h with _ | ⟨ha, _ | ⟨_, _⟩⟩
    · exact hcount
    · refine hC.bind_same (hC.ofResult (display_agrees hR hd ha)) (fun text => ?_) ?_
      · exact keeps_bind lasting_printed (fun s => lasting_printed.print s _) fun _ => keeps_pure lasting_printed _
      intro w' text hle
      refine hC.bind_same (hC.printLine_coupled text) (fun _ => keeps_pure lasting_printed _) ?_
      intro w'' _ hle'
      exact hC.pure (hC.value_later (hC.le_trans hle hle') ha)
    · exact hcount
  | array => exact hC.pure (.array h)
  | length =>
    rcases h with _ | ⟨ha, _ | ⟨_, _⟩⟩
    · exact hcount
    · exact hC.ofResult (length_agrees hR hd ha)
    · exact hcount
  | element =>
    rcases h with _ | ⟨ha, _ | ⟨hb, _ | ⟨_, _⟩⟩⟩
    · exact hcount
    · exact hcount
    · exact hC.ofResult (element_agrees hR hd ha hb)
    · exact hcount

theorem closure_call_coupled {w : C.World} {ev ev' : Expr → FrameId → Action Value} {c d : Closure}
    {vs vs' : List Value} (hcd : C.closure w c d) (hvs : C.values w vs vs')
    (hev : ∀ w' e f g, C.le w w' → C.covered e → C.scope w' f g → Coupled w' C.value (ev e f) (ev' e g))
    (hpr : ∀ e g, Keeps Printed (ev' e g)) : Coupled w C.value (c.call ev vs) (d.call ev' vs') := by
  obtain ⟨hbody, hcovered⟩ := hC.body hcd
  have hparams := (hC.faithful w).params hcd
  have hlength := hvs.length_eq
  unfold Closure.call
  by_cases h : vs.length = c.params.length
  · rw [if_pos h, if_pos (by rw [← hlength, ← hparams, h])]
    refine hC.bind (hC.enter_coupled hcd hvs) (fun g => hpr d.body g) ?_
    intro w' f g hle hfg
    rw [← hbody]
    exact hev w' c.body f g hle hcovered hfg
  · rw [if_neg h, if_neg (by rw [← hlength, ← hparams]; exact h), (hC.faithful w).display_eq hcd, hlength, hparams]
    exact hC.stop _

/-- Of corresponding values both can be called, which gives corresponding values, or neither can. -/
theorem callee_coupled {w : C.World} {depth depth' : Nat} (hd : Raised (C.early .depth) depth depth')
    {ev ev' : Expr → FrameId → Action Value} {v v' : Value} (hv : C.value w v v')
    (hev : ∀ w' e f g, C.le w w' → C.covered e → C.scope w' f g → Coupled w' C.value (ev e f) (ev' e g))
    (hpr : ∀ e g, Keeps Printed (ev' e g)) :
    (v.callee? = none ∧ v'.callee? = none) ∨
      ∃ k k', v.callee? = some k ∧ v'.callee? = some k' ∧ ∀ w' vs vs', C.le w w' → C.values w' vs vs' →
        Coupled w' C.value (k.call depth ev vs) (k'.call depth' ev' vs') := by
  cases hv with
  | builtin b => exact .inr ⟨_, _, rfl, rfl, fun _ _ _ _ hvs => hC.builtin_coupled hd b hvs⟩
  | closure hcd =>
    refine .inr ⟨_, _, rfl, rfl, fun w' vs vs' hle hvs => ?_⟩
    exact hC.closure_call_coupled (hC.closure_later hle hcd) hvs
      (fun w'' e f g hle' => hev w'' e f g (hC.le_trans hle hle')) hpr
  | _ => exact .inl ⟨rfl, rfl⟩

omit hC in
theorem paramNames_agrees {depth depth' : Nat} (hd : Raised (C.early .depth) depth depth') (args : List Expr) :
    Agrees C.early (· = ·) (paramNames depth args) (paramNames depth' args) := by
  induction args with
  | nil => exact .ok rfl
  | cons e rest ih =>
    have hshown : Agrees C.early (· = ·) (do fail (.parameterNotWord (← e.written depth)) : Except Stop (List String))
        (do fail (.parameterNotWord (← e.written depth'))) := by
      refine (Expr.written_agrees hd e).bind_same ?_
      intro shown
      exact .error _
    cases e with
    | word x =>
      refine ih.bind_same ?_
      intro names
      exact .ok rfl
    | _ => exact hshown

theorem makeClosure_coupled {depth depth' : Nat} (hd : Raised (C.early .depth) depth depth') {w : C.World}
    {f g : FrameId} {op : Expr} {args : List Expr} (hfg : C.scope w f g) (hargs : C.covered (.apply op args)) :
    Coupled w C.value (makeClosure depth args f) (makeClosure depth' args g) := by
  unfold makeClosure
  cases hlast : args.getLast? with
  | none => exact hC.stop _
  | some body =>
    have hbody := hC.args hargs body (List.mem_of_getLast? hlast)
    refine hC.bind_same (hC.ofResult (paramNames_agrees hd _))
      (fun params s => lasting_printed.close s params body g) ?_
    intro w' params hle s t hst
    obtain ⟨w'', hle', hcd, hst'⟩ := hC.close params hst (hC.scope_later hle hfg) hbody
    exact .ok hle' hst' (.closure hcd)

/-! ## Forms -/

section

variable {w : C.World} {ev ev' : Expr → Action Value}
  (hev : ∀ w' e, C.le w w' → C.covered e → Coupled w' C.value (ev e) (ev' e)) (hpr : ∀ e, Keeps Printed (ev' e))

include hev hpr

theorem evaluateAll_coupled {args : List Expr} (hargs : ∀ e ∈ args, C.covered e) :
    Coupled w C.values (evaluateAll ev args) (evaluateAll ev' args) := by
  induction args generalizing w with
  | nil => exact hC.pure .nil
  | cons e rest ih =>
    have hrest := keeps_evaluateAll lasting_printed hpr rest
    refine hC.bind (hev w e (hC.le_refl w) (hargs e (by simp)))
      (fun _ => keeps_bind lasting_printed hrest fun _ => keeps_pure lasting_printed _) ?_
    intro w₁ v v' hle hv
    refine hC.bind (ih (fun w' e hle' => hev w' e (hC.le_trans hle hle')) fun e he => hargs e (by simp [he]))
      (fun _ => keeps_pure lasting_printed _) ?_
    intro w₂ vs vs' hle' hvs
    exact hC.pure (.cons (hC.value_later hle' hv) hvs)

theorem evaluateLast_coupled {args : List Expr} (hargs : ∀ e ∈ args, C.covered e) {v v' : Value}
    (hv : C.value w v v') : Coupled w C.value (evaluateLast ev v args) (evaluateLast ev' v' args) := by
  induction args generalizing w v v' with
  | nil => exact hC.pure hv
  | cons e rest ih =>
    refine hC.bind (hev w e (hC.le_refl w) (hargs e (by simp)))
      (fun u => keeps_evaluateLast lasting_printed hpr u rest) ?_
    intro w' u u' hle hu
    exact ih (fun w'' e hle' => hev w'' e (hC.le_trans hle hle')) (fun e he => hargs e (by simp [he])) hu

/-- Loops in step. The one with fewer turns may stop early. -/
theorem repeatWhile_coupled {condition body : Expr} (hc : C.covered condition) (hb : C.covered body)
    {turns turns' : Nat} (hT : Raised (C.early .turns) turns turns') :
    Coupled w C.value (repeatWhile ev condition body turns) (repeatWhile ev' condition body turns') := by
  induction turns generalizing w turns' with
  | zero =>
    by_cases h0 : turns' = 0
    · rw [h0]
      exact hC.stop _
    · exact hC.stop_early (hT.noticed (by omega)) (keeps_repeatWhile lasting_printed hpr condition body turns')
  | succ turns ih =>
    obtain ⟨turns', rfl⟩ : ∃ n, turns' = n + 1 := ⟨turns' - 1, by have := hT.le; omega⟩
    have hmore := keeps_repeatWhile lasting_printed hpr condition body turns'
    refine hC.bind (hev w condition (hC.le_refl w) hc) (fun v => ?_) ?_
    · split
      · exact keeps_pure lasting_printed _
      · exact keeps_bind lasting_printed (hpr body) fun _ => hmore
    intro w₁ v v' hle hv
    rw [hv.isFalse_eq]
    split
    · exact hC.pure (.flag false)
    · refine hC.bind (hev w₁ body hle hb) (fun _ => hmore) ?_
      intro w₂ _ _ hle' _
      exact ih (fun w' e hle'' => hev w' e (hC.le_trans hle (hC.le_trans hle' hle''))) hT.pred

theorem form_coupled {f g : FrameId} (hfg : C.scope w f g) {turns turns' : Nat}
    (hT : Raised (C.early .turns) turns turns') {depth depth' : Nat} (hd : Raised (C.early .depth) depth depth')
    {op : Expr} {form : Form} (hop : Form.ofOperator? op = some form) {args : List Expr}
    (hargs : C.covered (.apply op args)) :
    Coupled w C.value (form.run turns depth ev f args) (form.run turns' depth' ev' g args) := by
  have hle := hC.le_refl w
  have harg := hC.args hargs
  unfold Form.run
  split
  · rename_i x e
    refine hC.bind (hev w e hle (harg e (by simp))) (fun v => ?_) ?_
    · exact keeps_bind lasting_printed (fun s => lasting_printed.define s g x v) fun _ => keeps_pure lasting_printed v
    intro w₁ v v' hle₁ hv
    refine hC.bind_same (hC.define_coupled (hC.scope_later hle₁ hfg) (harg _ (by simp)) hv)
      (fun _ => keeps_pure lasting_printed v') ?_
    intro w₂ _ hle₂
    exact hC.pure (hC.value_later hle₂ hv)
  · exact hC.stop _
  · rename_i x e
    refine hC.bind (hev w e hle (harg e (by simp))) (fun v => ?_) ?_
    · exact keeps_bind lasting_printed (keeps_assign lasting_printed g x v) fun _ => keeps_pure lasting_printed v
    intro w₁ v v' hle₁ hv
    refine hC.bind_same (hC.assign_coupled (hC.scope_later hle₁ hfg) hop hargs hv)
      (fun _ => keeps_pure lasting_printed v') ?_
    intro w₂ _ hle₂
    exact hC.pure (hC.value_later hle₂ hv)
  · exact hC.stop _
  · rename_i c a b
    refine hC.bind (hev w c hle (harg c (by simp))) (fun v => ?_) ?_
    · split
      · exact hpr b
      · exact hpr a
    intro w₁ v v' hle₁ hv
    rw [hv.isFalse_eq]
    split
    · exact hev w₁ b hle₁ (harg b (by simp))
    · exact hev w₁ a hle₁ (harg a (by simp))
  · exact hC.stop _
  · rename_i c body
    exact hC.repeatWhile_coupled hev hpr (harg c (by simp)) (harg body (by simp)) hT
  · exact hC.stop _
  · exact hC.evaluateLast_coupled hev hpr harg (.flag false)
  · exact hC.makeClosure_coupled hd hfg hargs

end

/-! ## Evaluation -/

/-- An application, given that expressions are evaluated alike with what depth is left. -/
theorem apply_coupled {turns turns' : Nat} (hT : Raised (C.early .turns) turns turns') {depth depth' : Nat}
    (hD : Raised (C.early .depth) (depth + 1) (depth' + 1)) {w : C.World} {op : Expr} {args : List Expr} {f g : FrameId}
    (hoperator : C.covered op → Coupled w C.value (evaluate turns (depth + 1) op f) (evaluate turns' (depth' + 1) op g))
    (hinner : ∀ w' e f g, C.covered e → C.scope w' f g →
      Coupled w' C.value (evaluate turns depth e f) (evaluate turns' depth' e g))
    (he : C.covered (.apply op args)) (hfg : C.scope w f g) :
    Coupled w C.value (evaluate turns (depth + 2) (.apply op args) f)
      (evaluate turns' (depth' + 2) (.apply op args) g) := by
  have hpr := evaluate_printed turns' depth'
  have hargs : ∀ w' e, C.le w w' → C.covered e →
      Coupled w' C.value (evaluate turns depth e f) (evaluate turns' depth' e g) :=
    fun w' e hle hcov => hinner w' e f g hcov (hC.scope_later hle hfg)
  rw [evaluate, evaluate]
  cases hop : Form.ofOperator? op with
  | some form => exact hC.form_coupled hargs (fun e => hpr e g) hfg hT hD.pred hop he
  | none =>
    have hcall : ∀ k vs, Keeps Printed (Callee.call depth' (evaluate turns' depth') k vs) :=
      fun k vs => keeps_call lasting_printed hpr depth' k vs
    have hvalues := keeps_evaluateAll lasting_printed (fun e => hpr e g) args
    refine hC.bind (hoperator (hC.operator he hop)) (fun v => ?_) ?_
    · split
      · exact keeps_bind lasting_printed (keeps_ofResult lasting_printed _) fun _ => keeps_throw lasting_printed _
      · exact keeps_bind lasting_printed hvalues fun vs => hcall _ vs
    intro w₁ v v' hle hv
    rcases hC.callee_coupled hD.pred hv (fun w' e f g _ => hinner w' e f g) hpr with
      ⟨hk, hk'⟩ | ⟨k, k', hk, hk', hcoupled⟩
    · rw [hk, hk']
      refine hC.bind_same (hC.ofResult (Expr.written_agrees hD op)) (fun _ => keeps_throw lasting_printed _) ?_
      intro w₂ shown _
      exact hC.stop _
    · rw [hk, hk']
      refine hC.bind (hC.evaluateAll_coupled (fun w' e hle' => hargs w' e (hC.le_trans hle hle')) (fun e => hpr e g)
        (hC.args he)) (fun vs => hcall k' vs) ?_
      intro w₂ vs vs' hle' hvs
      exact hcoupled w₂ vs vs' hle' hvs

/-- Corresponding frames of corresponding stores give an expression corresponding values. The run
    with the smaller budgets may stop early. -/
theorem evaluate_coupled {turns turns' : Nat} (hT : Raised (C.early .turns) turns turns') {depth depth' : Nat}
    (hD : Raised (C.early .depth) depth depth') {w : C.World} {e : Expr} {f g : FrameId} (he : C.covered e)
    (hfg : C.scope w f g) : Coupled w C.value (evaluate turns depth e f) (evaluate turns' depth' e g) := by
  -- an operator has one step less to go than its application, and all else two
  induction depth using Nat.strongRecOn generalizing depth' w e f g with
  | _ depth ih =>
    have hpr := evaluate_printed turns'
    have hdepth := hD.le
    match depth, depth' with
    | 0, 0 => exact hC.stop _
    | 0, depth' + 1 => exact hC.stop_early (hD.noticed (by omega)) (hpr (depth' + 1) e g)
    | depth + 1, 0 => omega
    | depth + 1, depth' + 1 =>
      cases e with
      | number n =>
        rw [evaluate, evaluate]
        exact hC.pure (.number _)
      | text s =>
        rw [evaluate, evaluate]
        exact hC.pure (.text s)
      | word x =>
        rw [evaluate, evaluate]
        exact hC.lookup_coupled hfg he
      | foreign leaf =>
        rw [evaluate, evaluate, refuse]
        split
        · exact hC.stop _
        · exact hC.stop _
      | apply op args =>
        match depth, depth' with
        | 0, 0 => exact hC.stop _
        | 0, depth' + 1 => exact hC.stop_early (hD.noticed (by omega)) (hpr (depth' + 2) (.apply op args) g)
        | depth + 1, 0 => omega
        | depth + 1, depth' + 1 =>
          exact hC.apply_coupled hT hD.pred (fun hop => ih (depth + 1) (by omega) hD.pred hop hfg)
            (fun w' e f g hcov hfg => ih depth (by omega) hD.pred.pred hcov hfg) he hfg

end Lawful

end Coupling

end EggLang.Eval
