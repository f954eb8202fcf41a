/-
  EggLang.Proofs.Session.Resolved — names that can be counted on.

  Stores are worked on by operations and by runs of programs inside frames that there are, each to
  whatever end (`Leads`). A run is no more than a new frame and an evaluation in it (`run_eq`), so
  whatever lasts through operations lasts through runs: a name that could be resolved from a frame
  can always be resolved from it again.

  A session serves programs and gives out their values, among which may be functions that are called
  from outside (`Served`). All its frames are inside its top frame, so from wherever a program or a
  function is evaluated, the names of the top frame are found:

  - `stops_elsewhere`: no step that is evaluated below a top frame stops for want of such a name.
  - `resolvable_for_good`: both facts together.
-/

import EggLang.Proofs.Eval.Grown
import EggLang.Proofs.Session.Halts

namespace EggLang

open EggLang.Eval EggLang.Program EggLang.Scope EggLang.Value

/-- A program is run in a new frame inside `top`, and its value is given out. -/
def Eval.State.run (σ : State) (limit : Option Int) (top : FrameId) (turns : Nat) (program : String) : State :=
  let (outcome, session) := Session.run ⟨limit, top, σ.store⟩ turns program
  ⟨session.store, outcome.toOption.toList ++ σ.values⟩

namespace Session

/-! ## Operations and runs -/

/-- A program that is not read changes nothing. Another one has a new frame made for it and is
    evaluated there. -/
theorem run_eq (σ : State) (limit : Option Int) (top : FrameId) (turns : Nat) (program : String) :
    σ.run limit top turns program = σ ∨
      ∃ depth e, σ.run limit top turns program =
        (σ.perform (.child top)).perform (.evaluate turns depth e σ.store.frames.size) := by
  unfold State.run Session.run
  cases Session.read ⟨limit, top, σ.store⟩ program with
  | error halt => exact .inl rfl
  | ok read =>
    obtain ⟨depth, e⟩ := read
    refine .inr ⟨depth, e, ?_⟩
    show _ = (σ.perform (.child top)).after
      (evaluate turns depth e (σ.store.push (some top)).1 (σ.store.push (some top)).2)
    simp only [evaluateIn]
    cases evaluate turns depth e (σ.store.push (some top)).1 (σ.store.push (some top)).2 with
    | ok v t => rfl
    | error stop t => rfl

theorem reachable_run {σ : State} (h : Reachable σ) (limit : Option Int) {top : FrameId}
    (htop : top < σ.store.frames.size) (turns : Nat) (program : String) :
    Reachable (σ.run limit top turns program) := by
  rcases run_eq σ limit top turns program with heq | ⟨depth, e, heq⟩
  · rw [heq]
    exact h
  · rw [heq]
    refine .step _ (.step _ h htop) ?_
    show σ.store.frames.size < (σ.store.push (some top)).2.frames.size
    simp [Store.push]

inductive Leads (σ : State) : State → Prop
  | none : Leads σ σ
  | perform {τ : State} (op : Operation) : Leads σ τ → op.Allowed τ → Leads σ (τ.perform op)
  | run {τ : State} (limit : Option Int) (top : FrameId) (turns : Nat) (program : String) : Leads σ τ →
      top < τ.store.frames.size → Leads σ (τ.run limit top turns program)

theorem Leads.grown {σ τ : State} (h : Leads σ τ) : Grown σ.store τ.store := by
  induction h with
  | none => exact lasting_grown.refl _
  | perform op _ _ ih => exact lasting_grown.trans ih (perform_keeps lasting_grown _ op)
  | run limit top turns program _ _ ih =>
    exact lasting_grown.trans ih (run_keeps lasting_grown ⟨limit, top, _⟩ turns program)

theorem older_of_reachable {σ : State} (h : Reachable σ) : σ.store.Older := by
  obtain ⟨w, hw⟩ := h.accounted
  exact hw.store.older

/-! ## Below a top frame -/

/-- What stops below a top frame does not stop for want of a name that the top frame owns. -/
theorem stops_elsewhere {turns : Nat} {p : Step} {w : Ledger} {s t : Store} {stop : Stop}
    (hp : Watch.sound.knows w s p) (hroot : Rooted s) (h : p.run turns s = .error stop t) {x : String}
    (hx : x ∈ Bindings.names Store.topBindings) :
    stop ≠ .fault (.unbound x) ∧ stop ≠ .fault (.settingUnbound x) := by
  obtain ⟨q, u, hwithin, hraises⟩ := stops_within h
  obtain ⟨w', -, hq⟩ := sound_lawful.within hp hwithin
  have hknows : (Watch.ofInvariant Rooted fun _ => True).knows () s p := by
    cases p with
    | evaluate depth e f => exact ⟨trivial, trivial, hroot⟩
    | call depth callee args => exact ⟨fun _ _ => trivial, fun _ _ => trivial, hroot⟩
  obtain ⟨_, -, hrooted⟩ := rooted_kept.lawful.within hknows hwithin
  have hfound : ∀ {depth e f}, q = .evaluate depth e f → u.Older ∧ (u.find? f x).isSome = true := by
    intro depth e f he
    subst he
    obtain ⟨-, hf, hsound⟩ := hq
    have hthere : f < u.frames.size := hsound.size.symm ▸ hf
    exact ⟨hsound.older, hrooted.2.2.find?_isSome hsound.older hx hthere⟩
  constructor
  · intro hstop
    rw [hstop] at hraises
    obtain ⟨depth, f, hword, hnone⟩ := hraises
    have hsome := (hfound hword).2
    rw [Store.lookup?_eq_none_iff.mp hnone] at hsome
    cases hsome
  · intro hstop
    rw [hstop] at hraises
    obtain ⟨depth, op, e, f, v, r, happly, hv, hnone⟩ := hraises
    obtain ⟨holder, hsome⟩ := hfound happly
    -- the new value is evaluated first, which takes away no name
    have hgrown : Grown u r := by
      have hkeeps := evaluate_keeps lasting_grown turns depth e f u
      rwa [hv] at hkeeps
    have hlater := hgrown.find?_isSome holder hsome
    rw [hnone] at hlater
    cases hlater

/-! ## Sessions that are used from outside -/

/-- A session in which programs have been run and functions called, in any order and each to
    whatever end, and the values that it has given out. The functions are such as it holds or has
    given out. -/
inductive Served (limit : Option Int) : Session → List Value → Prop
  | start : Served limit (start limit) []
  | run {s : Session} {vs : List Value} (turns : Nat) (program : String) : Served limit s vs →
      Served limit (s.run turns program).2 ((s.run turns program).1.toOption.toList ++ vs)
  | call {s : Session} {vs : List Value} (turns depth : Nat) (callee : Callee) (args : List Value) :
      Served limit s vs → (Operation.call turns depth callee args).Allowed ⟨s.store, vs⟩ →
      Served limit { s with store := storeOf (callee.call depth (evaluate turns depth) args s.store) }
        ((valueOf? (callee.call depth (evaluate turns depth) args s.store)).toList ++ vs)

structure Serving (s : Session) (vs : List Value) : Prop where
  reachable : Reachable ⟨s.store, vs⟩
  top : s.top < s.store.frames.size
  rooted : Rooted s.store

theorem rooted_start (limit : Option Int) : Rooted (start limit).store := by
  constructor
  · intro f hpos hf
    have hsize : (start limit).store.frames.size = 1 := rfl
    rw [hsize] at hf
    exact absurd hpos (Nat.not_lt.mpr (Nat.le_of_lt_succ hf))
  · intro x hx
    rw [Store.owns_iff, Store.names, start_bindings]
    exact hx

theorem reachable_start (limit : Option Int) : Reachable ⟨(start limit).store, []⟩ := by
  have hstart : (⟨(start limit).store, []⟩ : State) = (State.empty.perform .new).perform (.register 0) := rfl
  rw [hstart]
  exact .step _ (.step _ .start trivial) Nat.one_pos

theorem Serving.run {s : Session} {vs : List Value} (h : Serving s vs) (turns : Nat) (program : String) :
    Serving (s.run turns program).2 ((s.run turns program).1.toOption.toList ++ vs) := by
  refine ⟨reachable_run h.reachable s.limit h.top turns program, ?_, ?_⟩
  · have hgrown := run_keeps lasting_grown s turns program
    have htop : (s.run turns program).2.top = s.top := by
      unfold Session.run
      cases s.read program with
      | error halt => rfl
      | ok read => simp only [session_evaluateIn]
    rw [htop]
    exact Nat.lt_of_lt_of_le h.top hgrown.size
  · unfold Session.run
    cases s.read program with
    | error halt => exact h.rooted
    | ok read =>
      simp only [session_evaluateIn]
      exact rooted_kept.across turns _ _ trivial (h.rooted.push s.top)

theorem Served.serving {limit : Option Int} {s : Session} {vs : List Value} (h : Served limit s vs) :
    Serving s vs := by
  induction h with
  | start => exact ⟨reachable_start limit, Nat.one_pos, rooted_start limit⟩
  | run turns program _ ih => exact ih.run turns program
  | @call s vs turns depth callee args _ hallowed ih =>
    have hgrown := perform_keeps lasting_grown ⟨s.store, vs⟩ (.call turns depth callee args)
    exact ⟨.step _ ih.reachable hallowed, Nat.lt_of_lt_of_le ih.top hgrown.size,
      rooted_kept.across_call turns depth callee args ih.rooted⟩

namespace Serving

variable {s : Session} {vs : List Value}

/-- From every frame the names of the top frame can be looked up and set. -/
theorem resolves (h : Serving s vs) {x : String} (hx : x ∈ Bindings.names Store.topBindings) {f : FrameId}
    (hf : f < s.store.frames.size) :
    (∃ v, Action.lookup f x s.store = .ok v s.store) ∧ ∀ v, ∃ t, Action.assign f x v s.store = .ok () t :=
  resolves_of_found (h.rooted.find?_isSome (older_of_reachable h.reachable) hx hf)

/-- No run ends for want of a name that the top frame owns. -/
theorem run_elsewhere (h : Serving s vs) {x : String} (hx : x ∈ Bindings.names Store.topBindings) {turns : Nat}
    {program : String} {f : Fault} (hrun : (s.run turns program).1 = .error (.fault f)) :
    f ≠ .unbound x ∧ f ≠ .settingUnbound x := by
  rcases run_halts hrun with hread | ⟨depth, e, stop, t, -, hstop, hev⟩
  · rcases read_halts hread with ⟨hhalt, -⟩ | ⟨stop, hstop, rfl | ⟨f', rfl, hgrammar⟩⟩
    · cases hhalt
    · cases hstop
      exact ⟨Fault.noConfusion, Fault.noConfusion⟩
    · cases hstop
      constructor
      · intro hf
        rw [hf] at hgrammar
        cases hgrammar
      · intro hf
        rw [hf] at hgrammar
        cases hgrammar
  · obtain ⟨w, hw⟩ := h.reachable.accounted
    have htop : s.top < w.frames := hw.store.size ▸ h.top
    have hpush : Sound w.addFrame (s.store.push (some s.top)).2 := by
      refine hw.store.push ?_
      intro g hg
      cases hg
      exact htop
    have hframe : (s.store.push (some s.top)).1 < w.addFrame.frames := by
      show s.store.frames.size < w.frames + 1
      rw [hw.store.size]
      exact Nat.lt_succ_self _
    have helsewhere := stops_elsewhere (p := .evaluate depth e _) ⟨trivial, hframe, hpush⟩ (h.rooted.push s.top) hev
      hx
    cases stop with
    | fault f' =>
      cases hstop
      exact ⟨fun hf => helsewhere.1 (by rw [hf]), fun hf => helsewhere.2 (by rw [hf])⟩
    | depth =>
      cases hstop
      exact ⟨Fault.noConfusion, Fault.noConfusion⟩
    | overlong => cases hstop
    | turns => cases hstop

/-- No call of a function that there is stops for want of such a name. -/
theorem call_elsewhere (h : Serving s vs) {x : String} (hx : x ∈ Bindings.names Store.topBindings)
    {turns depth : Nat} {callee : Callee} {args : List Value}
    (hallowed : (Operation.call turns depth callee args).Allowed ⟨s.store, vs⟩) {f : Fault}
    (hcall : stopOf? (callee.call depth (evaluate turns depth) args s.store) = some (.fault f)) :
    f ≠ .unbound x ∧ f ≠ .settingUnbound x := by
  obtain ⟨w, hw⟩ := h.reachable.accounted
  have hknown : ∀ c ∈ callee.closures ++ allClosures args, w.Known c := fun c hc => hw.known c (hallowed c hc)
  have hknows : Watch.sound.knows w s.store (.call depth callee args) := by
    refine ⟨?_, fun c hc => hknown c (List.mem_append_right _ hc), hw.store⟩
    intro c hc
    exact hknown c (by simp [hc, Callee.closures])
  obtain ⟨t, ht⟩ := stopOf?_eq_some hcall
  have helsewhere := stops_elsewhere (p := .call depth callee args) hknows h.rooted ht hx
  exact ⟨fun hf => helsewhere.1 (by rw [hf]), fun hf => helsewhere.2 (by rw [hf])⟩

end Serving

/-! ## Names that can be counted on -/

/-- The names that every top frame owns. -/
theorem names_topBindings : Bindings.names Store.topBindings =
    ["+", "-", "*", "/", "==", "<", ">", "print", "array", "length", "element", "true", "false"] := by
  decide +kernel

/-- A name that can be resolved from a frame can be resolved and set there after whatever is done
    later: frames stay inside the frames they are inside, and own the names they own. In a session
    the names of the top frame can be resolved and set from every frame, and neither a program nor a
    function that the session holds or has given out ever fails for want of one of them. -/
theorem resolvable_for_good :
    (∀ (σ τ : State), Reachable σ → Leads σ τ →
      (∀ f x v, Action.lookup f x σ.store = .ok v σ.store →
        (∃ w, Action.lookup f x τ.store = .ok w τ.store) ∧ ∀ w, ∃ t, Action.assign f x w τ.store = .ok () t) ∧
      ∀ g, g < σ.store.frames.size →
        τ.store.outer? g = σ.store.outer? g ∧ σ.store.names g <+: τ.store.names g) ∧
    (∀ (limit : Option Int) (s : Session) (vs : List Value), Served limit s vs →
      ∀ x ∈ ["+", "-", "*", "/", "==", "<", ">", "print", "array", "length", "element", "true", "false"],
        (∀ f, f < s.store.frames.size → (∃ v, Action.lookup f x s.store = .ok v s.store) ∧
          ∀ v, ∃ t, Action.assign f x v s.store = .ok () t) ∧
        (∀ turns program f, (s.run turns program).1 = .error (.fault f) → f ≠ .unbound x ∧ f ≠ .settingUnbound x) ∧
        ∀ turns depth callee args f, (Operation.call turns depth callee args).Allowed ⟨s.store, vs⟩ →
          stopOf? (callee.call depth (evaluate turns depth) args s.store) = some (.fault f) →
          f ≠ .unbound x ∧ f ≠ .settingUnbound x) := by
  refine ⟨?_, ?_⟩
  · intro σ τ hσ hleads
    have hgrown := hleads.grown
    refine ⟨?_, fun g hg => ⟨hgrown.outer g hg, hgrown.names g⟩⟩
    intro f x v hv
    exact resolves_of_found (hgrown.find?_isSome (older_of_reachable hσ) (found_of_lookup hv))
  · intro limit s vs hserved x hx
    rw [← names_topBindings] at hx
    have hserving := hserved.serving
    exact ⟨fun f hf => hserving.resolves hx hf, fun turns program f hrun => hserving.run_elsewhere hx hrun,
      fun turns depth callee args f hallowed hcall => hserving.call_elsewhere hx hallowed hcall⟩

def boundState : State :=
  State.empty |>.perform .new |>.perform (.register 0) |>.perform (.child 0) |>.perform (.define 1 "x" (.int 1))

/-- In that frame a builtin is hidden before the evaluation fails, and so does a program that is run
    inside it. -/
def failedState : State :=
  (boundState.perform (.evaluate 1 9
    (.apply (.word "do") [.apply (.word "define") [.word "+", .word "x"], .word "y"]) 1)).run none 1 1 "set(x, z)"

/-- A function that hides a builtin, sets another one, and then stops for want of a name. -/
def hidingProgram : String := "fun(x, do(define(+, x), set(*, +), y))"

def hidingFunction : Closure :=
  ⟨0, ["x"], .apply (.word "do") [.apply (.word "define") [.word "+", .word "x"],
    .apply (.word "set") [.word "*", .word "+"], .word "y"], 1⟩

def hidingSession : Session := ((start none).run 1 hidingProgram).2

theorem resolvable_after_failures :
    (Reachable boundState ∧ Leads boundState failedState ∧
      (∃ w, Action.lookup 1 "+" failedState.store = .ok w failedState.store) ∧
      ∀ w, ∃ t, Action.assign 1 "x" w failedState.store = .ok () t) ∧
    Served none hidingSession [.closure hidingFunction] ∧
    stopOf? (Callee.call 9 (evaluate 1 9) (.closure hidingFunction) [.int 1] hidingSession.store) =
      some (.fault (.unbound "y")) ∧
    Fault.unbound "y" ≠ .settingUnbound "*" := by
  obtain ⟨hlasting, hsession⟩ := resolvable_for_good
  have hreachable : Reachable boundState := by
    unfold boundState
    refine .step _ (.step _ (.step _ (.step _ .start ?_) ?_) ?_) ?_ <;> decide +kernel
  have hleads : Leads boundState failedState := by
    unfold failedState
    refine .run _ _ _ _ (.perform _ .none ?_) ?_ <;> decide +kernel
  have hresolved := (hlasting boundState failedState hreachable hleads).1
  have hvalue : ((start none).run 1 hidingProgram).1 = .ok (.closure hidingFunction) := by decide +kernel
  have hserved : Served none hidingSession [.closure hidingFunction] := by
    have hrun : Served none hidingSession _ := .run 1 hidingProgram .start
    rw [hvalue] at hrun
    exact hrun
  have hallowed : (Operation.call 1 9 (.closure hidingFunction) [.int 1]).Allowed
      ⟨hidingSession.store, [.closure hidingFunction]⟩ := by
    decide +kernel
  have hstop : stopOf? (Callee.call 9 (evaluate 1 9) (.closure hidingFunction) [.int 1] hidingSession.store) =
      some (.fault (.unbound "y")) := by
    decide +kernel
  refine ⟨⟨hreachable, hleads, (hresolved 1 "+" _ rfl).1, (hresolved 1 "x" _ rfl).2⟩, hserved, hstop, ?_⟩
  exact ((hsession none hidingSession _ hserved "*" (by decide)).2.2 1 9 _ _ _ hallowed hstop).2

end Session

end EggLang
