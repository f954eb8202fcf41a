/-
  EggLang.Proofs.Eval.Reachable — the stores that can come about.

  A store is worked on from outside by operations: frames are made, names are bound and set,
  expressions are evaluated in frames that there are, functions are called. The values that an
  operation binds or passes are made from functions that there are: those the store holds, and those
  that were given out before (`State`, `Operation.Allowed`). Operations may fail, and evaluations
  stop halfway; what they did to the store by then stays done, and more operations may follow
  (`Reachable`).

  Each closure has a number that no other has. A ledger that lists the closures by their numbers
  (`Ledger`) is kept by every change of the store:

  - `sound_lawful`: so it is kept throughout an evaluation.
  - `perform_accounted`: so it is kept by every operation, whatever it comes to.
  - `reachable_wellFormed`: every state that comes about is well formed.
-/

import EggLang.Proofs.Eval.Watch
import EggLang.Proofs.Scope.Chain

namespace EggLang

open EggLang.Program EggLang.Scope EggLang.Value

def Callee.closures : Callee → List Closure
  | .closure c => [c]
  | .builtin _ => []

namespace Eval

/-! ## Operations -/

structure State where
  store : Store
  values : List Value

inductive Operation where
  /-- A new frame inside none. -/
  | new
  /-- A new frame inside another. -/
  | child (f : FrameId)
  /-- Bind all that a top frame owns. -/
  | register (f : FrameId)
  | define (f : FrameId) (x : String) (v : Value)
  | set (f : FrameId) (x : String) (v : Value)
  | update (f : FrameId) (pairs : List (String × Value))
  /-- Make a closure of a frame and give it out. -/
  | close (params : List String) (body : Expr) (f : FrameId)
  | evaluate (turns depth : Nat) (e : Expr) (f : FrameId)
  | call (turns depth : Nat) (callee : Callee) (args : List Value)

namespace State

def empty : State := ⟨Store.empty, []⟩

def closures (σ : State) : List Closure := σ.store.held.map Prod.snd ++ allClosures σ.values

/-- The store in which an action ends, and its value if it gives one. -/
def after (σ : State) (r : EStateM.Result Stop Store Value) : State := ⟨storeOf r, (valueOf? r).toList ++ σ.values⟩

/-- What an operation comes to. One that fails, or stops, leaves what it had done by then. -/
def perform (σ : State) : Operation → State
  | .new => { σ with store := (σ.store.push none).2 }
  | .child f => { σ with store := (σ.store.push (some f)).2 }
  | .register f => { σ with store := σ.store.register f }
  | .define f x v => { σ with store := σ.store.define f x v }
  | .set f x v => { σ with store := (σ.store.assign? f x v).getD σ.store }
  | .update f pairs => { σ with store := σ.store.update f pairs }
  | .close params body f => ⟨(σ.store.close params body f).2, .closure (σ.store.close params body f).1 :: σ.values⟩
  | .evaluate turns depth e f => σ.after (evaluate turns depth e f σ.store)
  | .call turns depth callee args => σ.after (callee.call depth (Eval.evaluate turns depth) args σ.store)

end State

def Operation.Allowed (σ : State) : Operation → Prop
  | .new => True
  | .child f | .register f | .close _ _ f | .evaluate _ _ _ f => f < σ.store.frames.size
  | .define f _ v | .set f _ v => f < σ.store.frames.size ∧ ∀ c ∈ v.closures, c ∈ σ.closures
  | .update f pairs => f < σ.store.frames.size ∧ ∀ p ∈ pairs, ∀ c ∈ p.2.closures, c ∈ σ.closures
  | .call _ _ callee args => ∀ c ∈ callee.closures ++ allClosures args, c ∈ σ.closures

instance decidableAllowed (σ : State) (op : Operation) : Decidable (op.Allowed σ) :=
  match op with
  | .new => inferInstanceAs (Decidable True)
  | .child f | .register f | .close _ _ f | .evaluate _ _ _ f => inferInstanceAs (Decidable (f < σ.store.frames.size))
  | .define f _ v | .set f _ v =>
    inferInstanceAs (Decidable (f < σ.store.frames.size ∧ ∀ c ∈ v.closures, c ∈ σ.closures))
  | .update f pairs =>
    inferInstanceAs (Decidable (f < σ.store.frames.size ∧ ∀ p ∈ pairs, ∀ c ∈ p.2.closures, c ∈ σ.closures))
  | .call _ _ callee args =>
    inferInstanceAs (Decidable (∀ c ∈ callee.closures ++ allClosures args, c ∈ σ.closures))

inductive Reachable : State → Prop
  | start : Reachable .empty
  | step {σ : State} (op : Operation) : Reachable σ → op.Allowed σ → Reachable (σ.perform op)

/-! ## The ledger -/

/-- How many frames there are, and the closures that have been made, in the order of their
    numbers. -/
structure Ledger where
  frames : Nat
  made : List Closure

namespace Ledger

def Known (w : Ledger) (c : Closure) : Prop := w.made[c.identity]? = some c ∧ c.frame < w.frames

def le (w w' : Ledger) : Prop := w.frames ≤ w'.frames ∧ w.made <+: w'.made

def addFrame (w : Ledger) : Ledger := { w with frames := w.frames + 1 }

def addClosure (w : Ledger) (c : Closure) : Ledger := { w with made := w.made ++ [c] }

theorem le_refl (w : Ledger) : w.le w := ⟨Nat.le_refl _, List.prefix_refl _⟩

theorem le_trans {w w' w'' : Ledger} (h : w.le w') (h' : w'.le w'') : w.le w'' :=
  ⟨Nat.le_trans h.1 h'.1, h.2.trans h'.2⟩

theorem le_addFrame (w : Ledger) : w.le w.addFrame := ⟨Nat.le_succ _, List.prefix_refl _⟩

theorem le_addClosure (w : Ledger) (c : Closure) : w.le (w.addClosure c) := ⟨Nat.le_refl _, List.prefix_append _ _⟩

theorem Known.later {w w' : Ledger} {c : Closure} (h : w.Known c) (hle : w.le w') : w'.Known c := by
  obtain ⟨hframes, more, hmade⟩ := hle
  refine ⟨?_, Nat.lt_of_lt_of_le h.2 hframes⟩
  rw [← hmade, List.getElem?_append_left (List.getElem?_eq_some_iff.mp h.1).1]
  exact h.1

end Ledger

structure Sound (w : Ledger) (s : Store) : Prop where
  size : s.frames.size = w.frames
  closures : s.closures = w.made.length
  older : s.Older
  names : ∀ f, (s.names f).Nodup
  held : s.HoldsOnly fun _ c => w.Known c

namespace Sound

variable {w : Ledger} {s : Store}

theorem define (h : Sound w s) (f : FrameId) (x : String) {v : Value} (hv : ∀ c ∈ v.closures, w.Known c) :
    Sound w (s.define f x v) := by
  refine ⟨by rw [Store.size_define, h.size], h.closures, h.older.define f x v, ?_, h.held.define f hv⟩
  intro g
  rw [Store.names, Store.bindings_define]
  split
  · exact Bindings.nodup_names_put (h.names g) x v
  · exact h.names g

theorem update (h : Sound w s) (f : FrameId) {pairs : List (String × Value)}
    (hp : ∀ p ∈ pairs, ∀ c ∈ p.2.closures, w.Known c) : Sound w (s.update f pairs) :=
  Store.update_induction (fun _ ht p hmem => ht.define f p.1 (hp p hmem)) h

/-- One frame more, inside one that there is or inside none. -/
theorem push (h : Sound w s) {outer : Option FrameId} (houter : ∀ g, outer = some g → g < w.frames) :
    Sound w.addFrame (s.push outer).2 := by
  refine ⟨by simp [Store.push, Ledger.addFrame, h.size], h.closures, h.older.push (by rw [h.size]; exact houter), ?_, ?_⟩
  · intro f
    by_cases hf : f = s.frames.size
    · rw [show f = (s.push outer).1 from hf, Store.names, Store.bindings_push_self]
      exact List.nodup_nil
    · rw [Store.names, Store.bindings_push_of_ne hf]
      exact h.names f
  · exact (h.held.push outer).mono fun _ _ hc => hc.later w.le_addFrame

/-- One closure more, of a frame that there is. -/
theorem close (h : Sound w s) (params : List String) (body : Expr) {f : FrameId} (hf : f < w.frames) :
    (w.addClosure (s.close params body f).1).Known (s.close params body f).1 ∧
      Sound (w.addClosure (s.close params body f).1) (s.close params body f).2 := by
  refine ⟨⟨?_, hf⟩, h.size, ?_, h.older, h.names, ?_⟩
  · simp [Store.close, Ledger.addClosure, h.closures]
  · simp [Store.close, Ledger.addClosure, h.closures]
  · exact h.held.mono fun _ _ hc => hc.later (w.le_addClosure _)

end Sound

def Watch.sound : Watch where
  World := Ledger
  le := Ledger.le
  store := Sound
  scope w f := f < w.frames
  closure := Ledger.Known
  covered _ := True

theorem sound_lawful : Watch.sound.Lawful where
  le_refl := Ledger.le_refl
  le_trans := Ledger.le_trans
  scope_later hle h := Nat.lt_of_lt_of_le h hle.1
  closure_later hle h := Ledger.Known.later h hle
  body _ := trivial
  operator _ _ := trivial
  args _ _ _ := trivial
  lookup hs _ hv := hs.held.lookup hv
  define hs _ hv := hs.define _ _ hv
  assign hs _ _ _ _ hv := hs.define _ _ hv
  push := by
    intro w s c hs hc
    have hpush : Sound w.addFrame (s.push (some c.frame)).2 := hs.push (by rintro g ⟨⟩; exact hc.2)
    exact ⟨w.addFrame, w.le_addFrame, hs.size ▸ Nat.lt_succ_self _, hpush⟩
  close := by
    intro w s f body params hs hf _
    obtain ⟨hc, hs'⟩ := hs.close params body hf
    exact ⟨_, Ledger.le_addClosure w _, hc, hs'⟩
  print _ hs := ⟨hs.size, hs.closures, hs.older, hs.names, hs.held⟩

/-! ## States -/

structure Accounted (w : Ledger) (σ : State) : Prop where
  store : Sound w σ.store
  values : ∀ c ∈ allClosures σ.values, w.Known c

namespace Accounted

variable {w : Ledger} {σ : State}

theorem known (h : Accounted w σ) : ∀ c ∈ σ.closures, w.Known c := by
  intro c hc
  rw [State.closures, List.mem_append, List.mem_map] at hc
  rcases hc with ⟨q, hq, rfl⟩ | hc
  · exact h.store.held q hq
  · exact h.values c hc

/-- No two closures have one number. -/
theorem eq_of_identity (h : Accounted w σ) {c d : Closure} (hc : c ∈ σ.closures) (hd : d ∈ σ.closures)
    (heq : c.identity = d.identity) : c = d := by
  have hcknown := (h.known c hc).1
  rw [heq, (h.known d hd).1] at hcknown
  exact (Option.some.inj hcknown).symm

theorem later (h : Accounted w σ) {w' : Ledger} (hle : w.le w') {s : Store} (hs : Sound w' s) :
    Accounted w' { σ with store := s } :=
  ⟨hs, fun c hc => (h.values c hc).later hle⟩

/-- After an action that keeps the ledger, its value is accounted for like those before. -/
theorem after (h : Accounted w σ) {r : EStateM.Result Stop Store Value}
    (hr : ∃ w', w.le w' ∧ Sound w' (storeOf r) ∧ ∀ v, valueOf? r = some v → ∀ c ∈ v.closures, w'.Known c) :
    ∃ w', Accounted w' (σ.after r) := by
  obtain ⟨w', hle, hs, hv⟩ := hr
  refine ⟨w', hs, ?_⟩
  intro c hc
  obtain ⟨v, hmem, hc⟩ := mem_allClosures.mp hc
  rcases List.mem_append.mp hmem with hmem | hmem
  · exact hv v (Option.mem_toList.mp hmem) c hc
  · exact (h.values c (mem_allClosures.mpr ⟨v, hmem, hc⟩)).later hle

end Accounted

/-- Nothing that a top frame owns from the start is a closure. -/
theorem closures_topBindings : ∀ p ∈ Store.topBindings, p.2.closures = [] := by
  decide +kernel

/-- Every operation that is allowed keeps the ledger, whatever it comes to. -/
theorem perform_accounted {w : Ledger} {σ : State} (h : Accounted w σ) (op : Operation) (hop : op.Allowed σ) :
    ∃ w', Accounted w' (σ.perform op) := by
  have hrefl := w.le_refl
  have hthere : ∀ {f}, f < σ.store.frames.size → f < w.frames := fun hf => h.store.size ▸ hf
  cases op with
  | new => exact ⟨_, h.later w.le_addFrame (h.store.push (by rintro g ⟨⟩))⟩
  | child f => exact ⟨_, h.later w.le_addFrame (h.store.push (by rintro g ⟨⟩; exact hthere hop))⟩
  | register f =>
    refine ⟨w, h.later hrefl (h.store.update f ?_)⟩
    intro p hp c hc
    rw [closures_topBindings p hp] at hc
    cases hc
  | define f x v => exact ⟨w, h.later hrefl (h.store.define f x fun c hc => h.known c (hop.2 c hc))⟩
  | set f x v =>
    refine ⟨w, h.later hrefl ?_⟩
    unfold Store.assign?
    cases σ.store.find? f x with
    | none => exact h.store
    | some g => exact h.store.define g x fun c hc => h.known c (hop.2 c hc)
  | update f pairs => exact ⟨w, h.later hrefl (h.store.update f fun p hp c hc => h.known c (hop.2 p hp c hc))⟩
  | close params body f =>
    obtain ⟨hc, hs⟩ := h.store.close params body (hthere hop)
    refine ⟨_, hs, ?_⟩
    intro d hd
    obtain ⟨v, hv, hd⟩ := mem_allClosures.mp hd
    rcases List.mem_cons.mp hv with rfl | hv
    · rw [List.mem_singleton.mp hd]
      exact hc
    · exact (h.values d (mem_allClosures.mpr ⟨v, hv, hd⟩)).later (w.le_addClosure _)
  | evaluate turns depth e f =>
    exact h.after (sound_lawful.evaluate (W := .sound) (w := w) turns depth trivial (hthere hop) h.store)
  | call turns depth callee args =>
    have hcallee : ∀ c, callee = .closure c → w.Known c := by
      rintro c rfl
      exact h.known c (hop c (by simp [Callee.closures]))
    have hargs : ∀ c ∈ allClosures args, w.Known c := fun c hc => h.known c (hop c (List.mem_append_right _ hc))
    exact h.after (sound_lawful.call (W := .sound) (w := w) turns depth callee args hcallee hargs h.store)

/-- A state that operations have led to has a ledger. -/
theorem Reachable.accounted {σ : State} (h : Reachable σ) : ∃ w, Accounted w σ := by
  induction h with
  | start =>
    refine ⟨⟨0, []⟩, ⟨rfl, rfl, ?_, fun _ => List.nodup_nil, fun q hq => nomatch hq⟩, fun c hc => nomatch hc⟩
    intro f g hg
    cases hg
  | step op _ hop ih =>
    obtain ⟨w, hw⟩ := ih
    exact perform_accounted hw op hop

/-! ## Well-formed states -/

/-- Chains go outwards to older frames and end, no frame lists a name twice, and closures have
    frames that are there and numbers of their own. -/
structure State.WellFormed (σ : State) : Prop where
  /-- Frames are numbered as they are made, so the frame outside a frame was made before it. -/
  outer : ∀ f g, σ.store.outer? f = some g → g < f ∧ f < σ.store.frames.size
  ends : WellFounded fun g f => σ.store.outer? f = some g
  /-- Going outwards meets every frame of the chain, and none of them twice. A frame is listed along
      its chain. -/
  chain : ∀ f, σ.store.chain f = f :: (σ.store.outer? f).elim [] σ.store.chain ∧ (σ.store.chain f).Pairwise (· > ·)
  /-- Looking a name up and setting it go to the first frame of the chain that owns it. -/
  find : ∀ f x, σ.store.find? f x = if σ.store.owns f x then some f else (σ.store.outer? f).bind (σ.store.find? · x)
  names : ∀ f, (σ.store.names f).Nodup
  frames : ∀ c ∈ σ.closures, c.frame < σ.store.frames.size
  identities : ∀ c ∈ σ.closures, ∀ d ∈ σ.closures, c.identity = d.identity → c = d
  /-- The number of the next closure is a new one. -/
  next : ∀ c ∈ σ.closures, c.identity < σ.store.closures

theorem lt_size_of_outer? {s : Store} {f g : FrameId} (h : s.outer? f = some g) : f < s.frames.size := by
  by_cases hf : f < s.frames.size
  · exact hf
  · rw [Store.outer?_of_le (Nat.le_of_not_lt hf)] at h
    cases h

/-- Whatever operations have led to, and wherever they stopped, the state is well formed. -/
theorem reachable_wellFormed {σ : State} (h : Reachable σ) : σ.WellFormed := by
  obtain ⟨w, hw⟩ := h.accounted
  have hs := hw.store
  refine ⟨?_, hs.older.outwards_ends, ?_, hs.older.find?_eq, hs.names, ?_, ?_, ?_⟩
  · intro f g hg
    exact ⟨hs.older f g hg, lt_size_of_outer? hg⟩
  · intro f
    exact ⟨hs.older.chain_eq f, hs.older.descending_chain f⟩
  · intro c hc
    rw [hs.size]
    exact (hw.known c hc).2
  · intro c hc d hd heq
    have hcknown := (hw.known c hc).1
    rw [heq, (hw.known d hd).1] at hcknown
    exact (Option.some.inj hcknown).symm
  · intro c hc
    rw [hs.closures]
    exact (List.getElem?_eq_some_iff.mp (hw.known c hc).1).1

def endlessFunction : Closure := ⟨0, ["x"], .apply (.word "f") [.word "x"], 1⟩

/-- The function has been made by an evaluation, has used up the depth of a call, and stands in an
    array that the top frame holds. -/
def exhaustedState : State :=
  State.empty
    |>.perform .new
    |>.perform (.register 0)
    |>.perform (.child 0)
    |>.perform (.evaluate 1 9
      (.apply (.word "define") [.word "f", .apply (.word "fun") [.word "x", endlessFunction.body]]) 1)
    |>.perform (.call 1 9 (.closure endlessFunction) [.closure endlessFunction])
    |>.perform (.set 1 "+" (.array [.array [.closure endlessFunction]]))

theorem exhaustedState_wellFormed :
    Reachable exhaustedState ∧ endlessFunction ∈ exhaustedState.closures ∧ exhaustedState.WellFormed := by
  have hreachable : Reachable exhaustedState := by
    unfold exhaustedState
    refine .step _ (.step _ (.step _ (.step _ (.step _ (.step _ .start ?_) ?_) ?_) ?_) ?_) ?_ <;> decide +kernel
  exact ⟨hreachable, by decide +kernel, reachable_wellFormed hreachable⟩

end Eval

end EggLang
