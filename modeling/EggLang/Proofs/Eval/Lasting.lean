/-
  EggLang.Proofs.Eval.Lasting — what no evaluation ever undoes.

  All that an evaluation does to a store is done by four changes: a name is bound in a frame, a
  frame is added, a closure is counted, a text is printed. A relation between an earlier and a later
  store that holds across each of the four (`Lasting`) holds across every evaluation, whether it
  gives a value or stops (`evaluate_keeps`).

  - `lasting_printed` / `evaluate_printed`: what has been printed stays printed.
-/

import EggLang.Eval.Evaluate

namespace EggLang.Eval

open EggLang.Scope EggLang.Program

def storeOf {α : Type} : EStateM.Result Stop Store α → Store
  | .ok _ s => s
  | .error _ s => s

theorem bind_of_ok {α β : Type} {c : Action α} {s t : Store} {a : α} (k : α → Action β) (h : c s = .ok a t) :
    (c >>= k) s = k a t := by
  show EStateM.bind c k s = k a t
  unfold EStateM.bind
  rw [h]

theorem bind_of_error {α β : Type} {c : Action α} {s t : Store} {e : Stop} (k : α → Action β)
    (h : c s = .error e t) : (c >>= k) s = .error e t := by
  show EStateM.bind c k s = .error e t
  unfold EStateM.bind
  rw [h]

/-- A relation between an earlier and a later store that every change of a store respects. -/
structure Lasting (R : Store → Store → Prop) : Prop where
  refl : ∀ s, R s s
  trans : ∀ {s t u}, R s t → R t u → R s u
  define : ∀ (s : Store) (f : FrameId) (x : String) (v : Value), R s (s.define f x v)
  push : ∀ (s : Store) (outer : Option FrameId), R s (s.push outer).2
  close : ∀ (s : Store) (params : List String) (body : Expr) (f : FrameId), R s (s.close params body f).2
  print : ∀ (s : Store) (text : String), R s (s.print text)

def Keeps (R : Store → Store → Prop) {α : Type} (c : Action α) : Prop := ∀ s, R s (storeOf (c s))

section

variable {R : Store → Store → Prop} (hR : Lasting R) {α β : Type}

include hR

/-! ## Single actions -/

theorem keeps_pure (a : α) : Keeps R (pure a : Action α) := fun s => hR.refl s

theorem keeps_throw (e : Stop) : Keeps R (throw e : Action α) := fun s => hR.refl s

theorem keeps_bind {c : Action α} {k : α → Action β} (hc : Keeps R c) (hk : ∀ a, Keeps R (k a)) :
    Keeps R (c >>= k) := by
  intro s
  have h := hc s
  cases hcs : c s with
  | ok a t =>
    rw [hcs] at h
    rw [bind_of_ok k hcs]
    exact hR.trans h (hk a t)
  | error e t =>
    rw [hcs] at h
    rw [bind_of_error k hcs]
    exact h

theorem keeps_ofResult (r : Except Stop α) : Keeps R (Action.ofResult r) := by
  intro s
  cases r <;> exact hR.refl s

theorem keeps_lookup (f : FrameId) (x : String) : Keeps R (Action.lookup f x) := by
  intro s
  rw [Action.lookup]
  split <;> exact hR.refl s

theorem keeps_assign (f : FrameId) (x : String) (v : Value) : Keeps R (Action.assign f x v) := by
  intro s
  simp only [Action.assign, Store.assign?]
  cases s.find? f x with
  | some g => exact hR.define s g x v
  | none => exact hR.refl s

theorem lasting_update (f : FrameId) (pairs : List (String × Value)) (s : Store) : R s (s.update f pairs) := by
  induction pairs generalizing s with
  | nil => exact hR.refl s
  | cons p pairs ih => exact hR.trans (hR.define s f p.1 p.2) (ih (s.define f p.1 p.2))

theorem keeps_enter (outer : FrameId) (pairs : List (String × Value)) : Keeps R (Action.enter outer pairs) := by
  intro s
  exact hR.trans (hR.push s (some outer)) (lasting_update hR _ pairs _)

/-! ## Calls and forms -/

theorem keeps_builtin (depth : Nat) (b : Builtin) (args : List Value) : Keeps R (b.call depth args) := by
  unfold Builtin.call
  split
  · exact keeps_ofResult hR _
  · exact keeps_bind hR (keeps_ofResult hR _) fun _ => keeps_pure hR _
  · exact keeps_ofResult hR _
  · exact keeps_bind hR (keeps_ofResult hR _) fun text =>
      keeps_bind hR (fun s => hR.print s (text ++ "\n")) fun _ => keeps_pure hR _
  · exact keeps_pure hR _
  · exact keeps_ofResult hR _
  · exact keeps_ofResult hR _
  · exact keeps_throw hR _

theorem keeps_call {evaluate : Expr → FrameId → Action Value} (hev : ∀ e f, Keeps R (evaluate e f)) (depth : Nat)
    (callee : Callee) (args : List Value) : Keeps R (callee.call depth evaluate args) := by
  cases callee with
  | builtin b => exact keeps_builtin hR depth b args
  | closure c =>
    simp only [Callee.call, Closure.call]
    split
    · exact keeps_bind hR (keeps_enter hR _ _) fun f => hev c.body f
    · exact keeps_throw hR _

variable {evaluate : Expr → Action Value} (hev : ∀ e, Keeps R (evaluate e))

include hev

theorem keeps_evaluateAll (args : List Expr) : Keeps R (evaluateAll evaluate args) := by
  induction args with
  | nil => exact keeps_pure hR []
  | cons e rest ih => exact keeps_bind hR (hev e) fun v => keeps_bind hR ih fun vs => keeps_pure hR _

theorem keeps_evaluateLast (last : Value) (args : List Expr) : Keeps R (evaluateLast evaluate last args) := by
  induction args generalizing last with
  | nil => exact keeps_pure hR last
  | cons e rest ih => exact keeps_bind hR (hev e) fun v => ih v

theorem keeps_repeatWhile (condition body : Expr) (turns : Nat) :
    Keeps R (repeatWhile evaluate condition body turns) := by
  induction turns with
  | zero => exact keeps_throw hR _
  | succ turns ih =>
    refine keeps_bind hR (hev condition) fun c => ?_
    split
    · exact keeps_pure hR _
    · exact keeps_bind hR (hev body) fun _ => ih

omit hev in
theorem keeps_makeClosure (depth : Nat) (args : List Expr) (frame : FrameId) :
    Keeps R (makeClosure depth args frame) := by
  unfold makeClosure
  split
  · exact keeps_throw hR _
  · rename_i body _
    exact keeps_bind hR (keeps_ofResult hR _) fun params s => hR.close s params body frame

theorem keeps_form (turns depth : Nat) (frame : FrameId) (form : Form) (args : List Expr) :
    Keeps R (form.run turns depth evaluate frame args) := by
  unfold Form.run
  split
  · exact keeps_bind hR (hev _) fun v => keeps_bind hR (fun s => hR.define s frame _ v) fun _ => keeps_pure hR v
  · exact keeps_throw hR _
  · exact keeps_bind hR (hev _) fun v => keeps_bind hR (keeps_assign hR frame _ v) fun _ => keeps_pure hR v
  · exact keeps_throw hR _
  · refine keeps_bind hR (hev _) fun v => ?_
    split
    · exact hev _
    · exact hev _
  · exact keeps_throw hR _
  · exact keeps_repeatWhile hR hev _ _ turns
  · exact keeps_throw hR _
  · exact keeps_evaluateLast hR hev _ _
  · exact keeps_makeClosure hR depth _ frame

end

/-! ## Evaluation -/

/-- A relation that every change of a store respects holds across every evaluation. -/
theorem evaluate_keeps {R : Store → Store → Prop} (hR : Lasting R) (turns depth : Nat) :
    ∀ e f, Keeps R (evaluate turns depth e f) := by
  induction depth using Nat.strongRecOn with
  | _ depth ih =>
    intro e f
    unfold evaluate
    split
    · exact keeps_throw hR _
    · exact keeps_pure hR _
    · exact keeps_pure hR _
    · exact keeps_lookup hR f _
    · unfold refuse
      split
      · exact keeps_throw hR _
      · exact keeps_throw hR _
    · exact keeps_throw hR _
    · rename_i depth operator args
      have hargs : ∀ e, Keeps R (evaluate turns depth e f) := fun e => ih depth (by omega) e f
      split
      · exact keeps_form hR hargs turns depth f _ args
      · refine keeps_bind hR (ih (depth + 1) (by omega) operator f) fun v => ?_
        split
        · exact keeps_bind hR (keeps_ofResult hR _) fun _ => keeps_throw hR _
        · exact keeps_bind hR (keeps_evaluateAll hR hargs args) fun values =>
            keeps_call hR (fun e f => ih depth (by omega) e f) depth _ values

/-! ## Output -/

def Printed (s t : Store) : Prop := ∃ more, t.output = s.output ++ more

theorem lasting_printed : Lasting Printed where
  refl s := ⟨"", by simp⟩
  trans := by
    rintro s t u ⟨more, h⟩ ⟨more', h'⟩
    exact ⟨more ++ more', by rw [h', h, String.append_assoc]⟩
  define s f x v := ⟨"", by simp [Store.define]⟩
  push s outer := ⟨"", by simp [Store.push]⟩
  close s params body f := ⟨"", by simp [Store.close]⟩
  print s text := ⟨text, rfl⟩

/-- What has been printed stays printed. -/
theorem evaluate_printed (turns depth : Nat) (e : Expr) (f : FrameId) : Keeps Printed (evaluate turns depth e f) :=
  evaluate_keeps lasting_printed turns depth e f

end EggLang.Eval
