/-
  EggLang.Proofs.Session.Isolation — what one run can tell of the runs before it.

  Programs run in a session leave frames and closures behind, whether they came to a value or not. A
  later program can reach them only through the values of the top frame's names. So when each of
  these names has the value that it had at the start, the program runs as it does in a new session:

  - `start_shifted`: the store of such a session is that of a new one among frames left over.
  - `run_isolated`: the program comes to the same end and prints the same, and what it leaves is the
    same up to the numbers of frames and closures; what was left over before stays as it was.
-/

import EggLang.Proofs.Eval.Renaming
import EggLang.Proofs.Session.Runs

namespace EggLang

open EggLang.Eval EggLang.Program EggLang.Scope

namespace Scope

/-- No name in a top frame has a closure for its value at the start. -/
theorem Store.alike_of_mem_topBindings (R : Closure → Closure → Prop) {p : String × Value} (h : p ∈ topBindings) :
    Value.Alike R p.2 p.2 := by
  unfold topBindings at h
  rcases List.mem_append.mp h with h | h
  · obtain ⟨b, -, rfl⟩ := List.mem_map.mp h
    exact .builtin b
  · simp only [List.mem_cons, List.not_mem_nil, or_false] at h
    rcases h with rfl | rfl
    · exact .flag true
    · exact .flag false

end Scope

namespace Session

/-! ## The top frame as it was at the start -/

/-- Each name of the top frame has the value that it had at the start. -/
def TopRestored (s : Session) : Prop := ∀ p ∈ Store.topBindings, (s.store.bindings s.top).get? p.1 = some p.2

variable {limit : Option Int} {s : Session}

theorem TopRestored.alike (h : s.TopRestored) (hs : Grounded limit s) (R : Closure → Closure → Prop) :
    Bindings.Alike R Store.topBindings (s.store.bindings 0) := by
  refine ⟨hs.names.symm, fun x => ?_⟩
  by_cases hx : x ∈ Bindings.names Store.topBindings
  · obtain ⟨p, hp, rfl⟩ := List.mem_map.mp hx
    have hvalue := h p hp
    rw [hs.top] at hvalue
    rw [Bindings.get?_of_mem Store.nodup_topBindings hp, hvalue]
    exact .some (Store.alike_of_mem_topBindings R hp)
  · have hx' : x ∉ (s.store.bindings 0).names := by
      rw [show (s.store.bindings 0).names = _ from hs.names]
      exact hx
    rw [Bindings.get?_eq_none hx, Bindings.get?_eq_none hx']
    exact .none

/-- How much further on a session numbers the frames and closures that a new one would make. -/
def shift (s : Session) : Shift := ⟨s.store.frames.size - 1, s.store.closures⟩

theorem size_le_shift_frame (hs : Grounded limit s) {f : FrameId} (hf : f ≠ 0) :
    s.store.frames.size ≤ s.shift.frame f := by
  have hpos : 0 < f := Nat.pos_of_ne_zero hf
  have hsize := hs.size
  rw [Shift.frame_of_pos s.shift hpos]
  calc s.store.frames.size ≤ 1 + (s.store.frames.size - 1) := by omega
    _ ≤ f + (s.store.frames.size - 1) := Nat.add_le_add_right hpos _

theorem start_outer? (limit : Option Int) (f : FrameId) : (start limit).store.outer? f = none := by
  by_cases hf : f = 0
  · rw [hf]
    exact (start_grounded limit).outer
  · exact Store.outer?_of_le (Nat.pos_of_ne_zero hf)

/-- A session whose top frame is as at the start has the store of a new one, among frames left
    over. -/
theorem start_shifted (h : s.TopRestored) (hs : Grounded limit s) :
    Shifted s.shift s.store 1 (start limit).store s.store where
  size := rfl
  size' := by
    have hsize := hs.size
    simp only [shift]
    omega
  pos := Nat.one_pos
  bindings := by
    intro f
    by_cases hf : f = 0
    · rw [hf, start_bindings]
      exact h.alike hs _
    · rw [Store.bindings_of_le (Nat.pos_of_ne_zero hf : (start limit).store.frames.size ≤ f),
        Store.bindings_of_le (size_le_shift_frame hs hf)]
      exact .nil
  outer := by
    intro f
    rw [start_outer?]
    by_cases hf : f = 0
    · rw [hf]
      exact hs.outer
    · exact Store.outer?_of_le (size_le_shift_frame hs hf)
  older := by
    intro f g hg
    rw [start_outer?] at hg
    cases hg
  leftover := fun _ _ _ => ⟨rfl, rfl⟩
  closures := (Nat.zero_add _).symm
  output := by
    show s.store.output = s.store.output ++ ""
    rw [String.append_empty]

/-! ## Runs that are the same -/

inductive SameOutcome (R : Closure → Closure → Prop) : Except Halt Value → Except Halt Value → Prop
  | value {v v' : Value} : v.Alike R v' → (∀ depth, v.display depth = v'.display depth) → SameOutcome R (.ok v) (.ok v')
  | halt (h : Halt) : SameOutcome R (.error h) (.error h)

/-- A run in a new session and a run in a session whose store was `used` are the same, up to a
    renaming of frames and closures. -/
structure SameRun (frame : FrameId → FrameId) (identity : Nat → Nat) (used : Store)
    (r r' : Except Halt Value × Session) : Prop where
  outcome : SameOutcome (Closure.Renamed frame identity) r.1 r'.1
  output : r'.2.store.output = used.output ++ r.2.store.output
  frames : ∀ f, f < r.2.store.frames.size ↔ frame f < r'.2.store.frames.size
  bindings : ∀ f, (r.2.store.bindings f).Alike (Closure.Renamed frame identity) (r'.2.store.bindings (frame f))
  outer : ∀ f, r'.2.store.outer? (frame f) = (r.2.store.outer? f).map frame
  leftover : ∀ g, (∃ f, g = frame f) ∨ (r'.2.store.bindings g = used.bindings g ∧ r'.2.store.outer? g = used.outer? g)

theorem SameRun.of_shifted {d : Shift} {used : Store} {w : Nat} {r r' : Except Halt Value × Session}
    (h : Shifted d used w r.2.store r'.2.store) (ho : SameOutcome (Closure.Renamed d.frame d.identity) r.1 r'.1) :
    SameRun d.frame d.identity used r r' where
  outcome := ho
  output := h.output
  frames := by
    intro f
    rw [h.size, h.size', ← d.frame_of_pos h.pos]
    exact d.frame_lt_frame_iff.symm
  bindings := fun f => (h.bindings f).mono fun _ _ hc => hc.1
  outer := h.outer
  leftover := by
    intro g
    by_cases h0 : g = 0
    · exact .inl ⟨0, h0⟩
    by_cases hg : g ≤ d.frames
    · exact .inr (h.leftover g (Nat.pos_of_ne_zero h0) hg)
    · refine .inl ⟨g - d.frames, ?_⟩
      rw [d.frame_of_pos (Nat.sub_pos_of_lt (Nat.lt_of_not_le hg))]
      exact (Nat.sub_add_cancel (Nat.le_of_not_le hg)).symm

theorem SameOutcome.value_of_alike {d : Shift} {v v' : Value} (h : v.Alike (Closure.Renamed d.frame d.identity) v') :
    SameOutcome (Closure.Renamed d.frame d.identity) (.ok v) (.ok v') := by
  refine .value h fun depth => ?_
  have hagree : Agrees (fun _ => False) (· = ·) (v.display depth) (v'.display depth) :=
    Value.display_agrees d.faithful (Raised.refl _ depth) h
  rcases hagree.eq_or_early with heq | ⟨e, he, -⟩
  · exact heq
  · exact he.elim

/-- An expression evaluated in stores that correspond. -/
theorem evaluateIn_same {d : Shift} {used : Store} {w : Nat} {s' : Session}
    (h : Shifted d used w s.store s'.store) (htop : s.top = 0) (htop' : s'.top = 0) (turns depth : Nat) (expr : Expr) :
    SameRun d.frame d.identity used (s.evaluateIn turns depth expr) (s'.evaluateIn turns depth expr) := by
  have hpush : Shifted d used (w + 1) (s.store.push (some 0)).2 (s'.store.push (some 0)).2 := h.push h.pos
  have hscope : (Coupling.renaming d used).scope (w + 1) (s.store.push (some 0)).1 (s'.store.push (some 0)).1 :=
    ⟨h.size_eq_frame, h.size ▸ Nat.lt_succ_self w⟩
  have hfollows := (renaming_lawful d used).evaluate_coupled (Raised.refl _ turns) (Raised.refl _ depth)
    (e := expr) trivial hscope _ _ hpush
  simp only [evaluateIn, htop, htop']
  generalize evaluate turns depth expr (s.store.push (some 0)).1 (s.store.push (some 0)).2 = r at hfollows ⊢
  generalize evaluate turns depth expr (s'.store.push (some 0)).1 (s'.store.push (some 0)).2 = r' at hfollows ⊢
  cases hfollows with
  | ok _ hst hv => exact .of_shifted hst (.value_of_alike (hv.mono fun _ _ hc => hc.1))
  | error stop _ hst => exact .of_shifted hst (.halt _)
  | early he _ => exact he.elim

/-- In a session in which anything has been run, but whose top frame is as at the start, a program
    runs as it does in a new session with the same limit. -/
theorem run_isolated (h : Reached limit s) (hrestored : s.TopRestored) (turns : Nat) (program : String) :
    ∃ frame identity, Function.Injective frame ∧ Function.Injective identity ∧
      SameRun frame identity s.store ((start limit).run turns program) (s.run turns program) := by
  have hs := h.grounded
  have hshifted := start_shifted hrestored hs
  refine ⟨s.shift.frame, s.shift.identity, fun _ _ => s.shift.frame_injective, fun _ _ => s.shift.identity_injective, ?_⟩
  have hread : s.read program = (start limit).read program := by
    unfold read
    rw [hs.limit]
    rfl
  unfold run
  rw [hread]
  cases (start limit).read program with
  | error halt => exact .of_shifted hshifted (.halt halt)
  | ok read =>
    obtain ⟨depth, expr⟩ := read
    exact evaluateIn_same hshifted rfl hs.top turns depth expr

/-- A session in which a program has set a name of the top frame to a closure, set it back, printed,
    and then failed. -/
def restoredSession : Session :=
  ((start none).run 1 "do(set(true, fun(x, x)), print(true), set(true, ==(1, 1)), set(nothing, 0))").2

theorem closure_run_in_restoredSession :
    ∃ frame identity, Function.Injective frame ∧ Function.Injective identity ∧
      SameRun frame identity restoredSession.store
        ((start none).run 1 "do(define(f, fun(x, print(x))), f(f), f)")
        (restoredSession.run 1 "do(define(f, fun(x, print(x))), f(f), f)") := by
  have hreached : Reached none restoredSession := .run 1 _ .start
  have hrestored : ∀ p ∈ Store.topBindings, (restoredSession.store.bindings restoredSession.top).get? p.1 = some p.2 := by
    decide +kernel
  exact run_isolated hreached hrestored 1 _

end Session

end EggLang
