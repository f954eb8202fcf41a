/-
  EggLang.Proofs.Eval.Grown — what can be found stays found.

  Frames are only added, each keeps the frame outside it, and a frame that owns a name owns it for
  good: names are listed behind one another and never struck out (`Grown`). So the chain of a frame
  is what it was, and whoever has found a name on it finds one again, though maybe in a frame that
  is nearer.

  - `lasting_grown`: this lasts through every evaluation; `perform_keeps`: and through every
    operation.
  - `Grown.find?_isSome`: a name that was found is found later.

  Where one frame is the outermost of all, its names are found from every frame:

  - `Rooted`: every frame but the first is inside another, and the first owns what a top frame does.
  - `rooted_kept`: evaluations make frames inside others only, so it stays so.
  - `Rooted.find?_isSome`: from every frame the names of the top frame are found.
-/

import EggLang.Proofs.Eval.Watch
import EggLang.Proofs.Eval.Reachable

namespace EggLang.Eval

open EggLang.Program EggLang.Scope

/-! ## Growing stores -/

/-- Frames are added, inside the frames they are told, and names are added to frames. -/
structure Grown (s t : Store) : Prop where
  size : s.frames.size ≤ t.frames.size
  outer : ∀ f, f < s.frames.size → t.outer? f = s.outer? f
  names : ∀ f, s.names f <+: t.names f

theorem grown_refl (s : Store) : Grown s s :=
  ⟨Nat.le_refl _, fun _ _ => rfl, fun _ => List.prefix_refl _⟩

/-- Binding a name lists it behind the others, if it is not listed already. -/
theorem grown_define (s : Store) (f : FrameId) (x : String) (v : Value) : Grown s (s.define f x v) := by
  refine ⟨by simp, by simp, ?_⟩
  intro g
  simp only [Store.names, Store.bindings_define]
  split
  · rw [Bindings.names_put]
    split
    · exact List.prefix_refl _
    · exact List.prefix_append _ _
  · exact List.prefix_refl _

theorem lasting_grown : Lasting Grown where
  refl := grown_refl
  trans h h' :=
    ⟨Nat.le_trans h.size h'.size,
      fun f hf => (h'.outer f (Nat.lt_of_lt_of_le hf h.size)).trans (h.outer f hf),
      fun f => (h.names f).trans (h'.names f)⟩
  define := grown_define
  push s outer := by
    refine ⟨by simp [Store.push], fun f hf => Store.outer?_push_of_lt hf outer, ?_⟩
    intro f
    exact (Store.names_push s outer f) ▸ List.prefix_refl _
  close s _ _ _ := ⟨Nat.le_refl _, fun _ _ => rfl, fun f => List.prefix_refl (s.names f)⟩
  print s _ := ⟨Nat.le_refl _, fun _ _ => rfl, fun f => List.prefix_refl (s.names f)⟩

/-- The frames from a frame outwards are the same as before. -/
theorem Grown.chain {s t : Store} (h : Grown s t) (hs : s.Older) {f : FrameId} (hf : f < s.frames.size) :
    t.chain f = s.chain f :=
  hs.chain_of_outer? fun g hg => h.outer g (Nat.lt_of_le_of_lt hg hf)

/-- A name is found only from frames that there are. -/
theorem lt_size_of_find? {s : Store} (hs : s.Older) {f g : FrameId} {x : String} (h : s.find? f x = some g) :
    f < s.frames.size := by
  by_cases hf : f < s.frames.size
  · exact hf
  · have hle := Nat.le_of_not_lt hf
    have howns : s.owns f x = false := by rw [Store.owns, Store.bindings_of_le hle]; rfl
    rw [hs.find?_eq, howns, Store.outer?_of_le hle] at h
    cases h

/-- A name that could be found can be found. -/
theorem Grown.find?_isSome {s t : Store} (h : Grown s t) (hs : s.Older) {f : FrameId} {x : String}
    (hfind : (s.find? f x).isSome = true) : (t.find? f x).isSome = true := by
  obtain ⟨g, hg⟩ := Option.isSome_iff_exists.mp hfind
  have hchain := h.chain hs (lt_size_of_find? hs hg)
  rw [Store.find?, List.find?_isSome] at hfind ⊢
  obtain ⟨g', hmem, howns⟩ := hfind
  refine ⟨g', hchain ▸ hmem, ?_⟩
  exact Store.owns_iff.mpr ((h.names g').subset (Store.owns_iff.mp howns))

/-- What every change of a store respects holds across every operation, whatever it comes to. -/
theorem perform_keeps {R : Store → Store → Prop} (hR : Lasting R) (σ : State) (op : Operation) :
    R σ.store (σ.perform op).store := by
  cases op with
  | new => exact hR.push σ.store none
  | child f => exact hR.push σ.store (some f)
  | register f => exact lasting_update hR f _ σ.store
  | define f x v => exact hR.define σ.store f x v
  | set f x v =>
    show R σ.store ((σ.store.assign? f x v).getD σ.store)
    unfold Store.assign?
    cases σ.store.find? f x with
    | none => exact hR.refl σ.store
    | some g => exact hR.define σ.store g x v
  | update f pairs => exact lasting_update hR f pairs σ.store
  | close params body f => exact hR.close σ.store params body f
  | evaluate turns depth e f => exact evaluate_keeps hR turns depth e f σ.store
  | call turns depth callee args =>
    exact keeps_call hR (evaluate_keeps hR turns depth) depth callee args σ.store

/-! ## What a name that is found allows -/

/-- A name that is found can be looked up and set. -/
theorem resolves_of_found {s : Store} {f : FrameId} {x : String} (h : (s.find? f x).isSome = true) :
    (∃ v, Action.lookup f x s = .ok v s) ∧ ∀ v, ∃ t, Action.assign f x v s = .ok () t := by
  obtain ⟨g, hg⟩ := Option.isSome_iff_exists.mp h
  obtain ⟨v, -, hv⟩ := Store.lookup?_of_find? hg
  refine ⟨⟨v, by simp only [Action.lookup, hv]⟩, ?_⟩
  intro w
  exact ⟨s.define g x w, by simp only [Action.assign, Store.assign?, hg]⟩

theorem found_of_lookup {s t : Store} {f : FrameId} {x : String} {v : Value} (h : Action.lookup f x s = .ok v t) :
    (s.find? f x).isSome = true := by
  cases hfind : s.find? f x with
  | some g => rfl
  | none =>
    simp only [Action.lookup, Store.lookup?_eq_none_iff.mpr hfind] at h
    cases h

/-! ## The outermost frame -/

structure Rooted (s : Store) : Prop where
  inside : ∀ f, 0 < f → f < s.frames.size → ∃ g, s.outer? f = some g
  names : ∀ x ∈ Bindings.names Store.topBindings, s.owns 0 x = true

namespace Rooted

variable {s : Store}

theorem define (h : Rooted s) (f : FrameId) (x : String) (v : Value) : Rooted (s.define f x v) := by
  refine ⟨by simpa using h.inside, ?_⟩
  intro y hy
  exact Store.owns_iff.mpr (((grown_define s f x v).names 0).subset (Store.owns_iff.mp (h.names y hy)))

theorem push (h : Rooted s) (outer : FrameId) : Rooted (s.push (some outer)).2 := by
  refine ⟨?_, ?_⟩
  · intro f hpos hf
    by_cases hnew : f = s.frames.size
    · exact ⟨outer, by rw [show f = (s.push (some outer)).1 from hnew, Store.outer?_push_self]⟩
    · rw [Store.outer?_push_of_ne hnew]
      simp only [Store.push, Array.size_push] at hf
      exact h.inside f hpos (Nat.lt_of_le_of_ne (Nat.le_of_lt_succ hf) hnew)
  · intro x hx
    rw [Store.owns, Store.bindings_push]
    exact h.names x hx

/-- From every frame the names of the top frame are found. -/
theorem find?_isSome (h : Rooted s) (hs : s.Older) {x : String} (hx : x ∈ Bindings.names Store.topBindings)
    {f : FrameId} (hf : f < s.frames.size) : (s.find? f x).isSome = true := by
  -- outwards, to the first frame
  induction f using Nat.strongRecOn with
  | _ f ih =>
    rw [hs.find?_eq]
    by_cases howns : s.owns f x = true
    · rw [if_pos howns]
      rfl
    · rw [if_neg howns]
      have hpos : 0 < f := by
        refine Nat.pos_of_ne_zero ?_
        intro hzero
        exact howns (hzero ▸ h.names x hx)
      obtain ⟨g, hg⟩ := h.inside f hpos hf
      rw [hg]
      exact ih g (hs f g hg) (Nat.lt_trans (hs f g hg) hf)

end Rooted

/-- Whatever is evaluated, the first frame stays the outermost of all. -/
theorem rooted_kept : Kept Rooted fun _ => True where
  define x v hs _ := hs.define _ x v
  assign v hs _ _ := hs.define _ _ v
  enter outer _ hs :=
    ⟨trivial, Store.update_induction (fun _ ht p _ => ht.define _ p.1 p.2) (hs.push outer)⟩
  close _ _ _ hs := ⟨hs.inside, hs.names⟩
  print _ hs := ⟨hs.inside, hs.names⟩

end EggLang.Eval
