/-
  EggLang.Proofs.Eval.Renaming — an evaluation among frames that it cannot see.

  A store in use holds frames that nothing in it refers to any more but themselves. An evaluation
  that begins at its top frame goes as it would in a store that has the top frame alone: its frames
  and closures are only numbered further on (`Shift`), and the frames that were left over stay as
  they were. Frames and closures are renamed without ever meeting (`Shift.frame_injective`), so
  nothing in the program can tell the two evaluations apart.

  - `Shifted`: the two stores correspond, frame by frame.
  - `chainWithin_shifted` / `find?_shifted`: names are found in corresponding frames.
  - `renaming_lawful`: corresponding changes keep the stores corresponding.
-/

import EggLang.Proofs.Eval.Frames

namespace EggLang

open EggLang.Program EggLang.Scope

variable {R : Closure → Closure → Prop}

/-! ## Bindings -/

structure Scope.Bindings.Alike (R : Closure → Closure → Prop) (b c : Bindings) : Prop where
  names : b.names = c.names
  values : ∀ x, Option.Rel (Value.Alike R) (b.get? x) (c.get? x)

namespace Scope.Bindings.Alike

theorem nil : Bindings.Alike R [] [] := ⟨rfl, fun _ => .none⟩

theorem refl (b : Bindings) : b.Alike (· = ·) b := by
  refine ⟨rfl, fun x => ?_⟩
  cases b.get? x with
  | none => exact .none
  | some v => exact .some (Value.Alike.refl (fun _ => rfl) v)

theorem put {b c : Bindings} (h : b.Alike R c) (x : String) {v w : Value} (hv : Value.Alike R v w) :
    Bindings.Alike R (b.put x v) (c.put x w) := by
  refine ⟨?_, ?_⟩
  · rw [names_put, names_put, h.names]
  · intro y
    by_cases hy : y = x
    · rw [hy, get?_put_self, get?_put_self]
      exact .some hv
    · rw [get?_put_of_ne b v hy, get?_put_of_ne c w hy]
      exact h.values y

theorem mono {S : Closure → Closure → Prop} {b c : Bindings} (h : b.Alike R c) (hRS : ∀ c d, R c d → S c d) :
    b.Alike S c := by
  refine ⟨h.names, fun x => ?_⟩
  have hx := h.values x
  cases hb : b.get? x <;> cases hc : c.get? x <;> rw [hb, hc] at hx <;> cases hx
  · exact .none
  · rename_i hv
    exact .some (hv.mono hRS)

end Scope.Bindings.Alike

/-- What binding a name to values that are alike keeps of two stores, binding parameters to
    arguments that are alike keeps. -/
theorem Scope.Store.update_alike {Q : Store → Store → Prop} {f g : FrameId}
    (hdefine : ∀ s t x v w, Q s t → Value.Alike R v w → Q (s.define f x v) (t.define g x w)) (params : List String)
    {vs ws : List Value} (hvs : Value.AllAlike R vs ws) {s t : Store} (h : Q s t) :
    Q (s.update f (params.zip vs)) (t.update g (params.zip ws)) := by
  induction params generalizing s t vs ws with
  | nil => exact h
  | cons x params ih =>
    cases hvs with
    | nil => exact h
    | cons hv hvs => exact ih hvs (hdefine s t x _ _ h hv)

/-! ## Renaming -/

structure Closure.Renamed (frame : FrameId → FrameId) (identity : Nat → Nat) (c d : Closure) : Prop where
  identity : d.identity = identity c.identity
  params : d.params = c.params
  body : d.body = c.body
  frame : d.frame = frame c.frame

namespace Eval

/-- How much further on the frames and closures of an evaluation are numbered in another one. -/
structure Shift where
  frames : Nat
  closures : Nat

namespace Shift

variable (d : Shift)

/-- Where a frame of the one stands in the other. The top frame is the first in both. -/
def frame (f : FrameId) : FrameId := if f = 0 then 0 else f + d.frames

def identity (i : Nat) : Nat := i + d.closures

theorem frame_of_pos {f : FrameId} (h : 0 < f) : d.frame f = f + d.frames := if_neg (Nat.ne_of_gt h)

theorem frame_lt_frame {f g : FrameId} (h : f < g) : d.frame f < d.frame g := by
  rw [frame_of_pos d (Nat.zero_lt_of_lt h)]
  unfold frame
  split
  · exact Nat.lt_of_lt_of_le (Nat.zero_lt_of_lt h) (Nat.le_add_right ..)
  · exact Nat.add_lt_add_right h _

theorem frame_injective {f g : FrameId} (h : d.frame f = d.frame g) : f = g := by
  rcases Nat.lt_trichotomy f g with hlt | heq | hgt
  · exact absurd h (Nat.ne_of_lt (d.frame_lt_frame hlt))
  · exact heq
  · exact absurd h (Nat.ne_of_gt (d.frame_lt_frame hgt))

theorem frame_lt_frame_iff {f g : FrameId} : d.frame f < d.frame g ↔ f < g := by
  constructor
  · intro h
    rcases Nat.lt_or_ge f g with hlt | hge
    · exact hlt
    · rcases Nat.lt_or_eq_of_le hge with hgt | heq
      · exact absurd (d.frame_lt_frame hgt) (Nat.lt_asymm h)
      · rw [heq] at h
        exact absurd h (Nat.lt_irrefl _)
  · exact d.frame_lt_frame

theorem identity_injective {i j : Nat} (h : d.identity i = d.identity j) : i = j := Nat.add_right_cancel h

def Moved (w : Nat) (c c' : Closure) : Prop := c.Renamed d.frame d.identity c' ∧ c.frame < w

theorem Moved.later {w w' : Nat} (hle : w ≤ w') {c c' : Closure} (h : d.Moved w c c') : d.Moved w' c c' :=
  ⟨h.1, Nat.lt_of_lt_of_le h.2 hle⟩

end Shift

/-- Two stores correspond: the one has `w` frames and the other the same ones further on, and
    between them those that were left over in `old`. -/
structure Shifted (d : Shift) (old : Store) (w : Nat) (s t : Store) : Prop where
  size : s.frames.size = w
  size' : t.frames.size = w + d.frames
  pos : 0 < w
  bindings : ∀ f, (s.bindings f).Alike (d.Moved w) (t.bindings (d.frame f))
  outer : ∀ f, t.outer? (d.frame f) = (s.outer? f).map d.frame
  older : ∀ f g, s.outer? f = some g → g < f
  leftover : ∀ g, 0 < g → g ≤ d.frames → t.bindings g = old.bindings g ∧ t.outer? g = old.outer? g
  closures : t.closures = d.identity s.closures
  output : t.output = old.output ++ s.output

/-! ## Finding names -/

namespace Shifted

variable {d : Shift} {old s t : Store} {w : Nat}

/-- The chain of a frame is the same further on, given room for it. -/
theorem chainWithin_shifted (h : Shifted d old w s t) {links links' : Nat} {f : FrameId} (hf : f ≤ links)
    (hf' : d.frame f ≤ links') : t.chainWithin links' (d.frame f) = (s.chainWithin links f).map d.frame := by
  induction links generalizing f links' with
  | zero =>
    obtain rfl : f = 0 := Nat.le_zero.mp hf
    have hnone : s.outer? 0 = none := by
      cases ho : s.outer? 0 with
      | none => rfl
      | some g => exact absurd (h.older 0 g ho) (Nat.not_lt_zero g)
    have houter := h.outer 0
    rw [hnone] at houter
    cases links' with
    | zero => rfl
    | succ links' =>
      simp only [Store.chainWithin, houter]
      rfl
  | succ links ih =>
    have houter := h.outer f
    cases ho : s.outer? f with
    | none =>
      rw [ho] at houter
      cases links' with
      | zero => simp [Store.chainWithin, ho]
      | succ links' => simp [Store.chainWithin, ho, houter]
    | some g =>
      have hlt := h.older f g ho
      have hlt' := d.frame_lt_frame hlt
      rw [ho] at houter
      cases links' with
      | zero => exact absurd (Nat.lt_of_lt_of_le hlt' hf') (Nat.not_lt_zero _)
      | succ links' =>
        simp only [Store.chainWithin, ho, houter, Option.map_some, List.map_cons]
        rw [ih (Nat.le_of_lt_succ (Nat.lt_of_lt_of_le hlt hf)) (Nat.le_of_lt_succ (Nat.lt_of_lt_of_le hlt' hf'))]

theorem owns_shifted (h : Shifted d old w s t) (f : FrameId) (x : String) : t.owns (d.frame f) x = s.owns f x := by
  rw [Bool.eq_iff_iff, Store.owns_iff, Store.owns_iff, Store.names, Store.names, (h.bindings f).names]

/-- A name is found in corresponding frames. -/
theorem find?_shifted (h : Shifted d old w s t) (f : FrameId) (x : String) :
    t.find? (d.frame f) x = (s.find? f x).map d.frame := by
  have howns : (t.owns · x) ∘ d.frame = (s.owns · x) := funext fun g => h.owns_shifted g x
  unfold Store.find? Store.chain
  rw [h.chainWithin_shifted (Nat.le_refl f) (Nat.le_refl (d.frame f)), List.find?_map, howns]

theorem lookup?_shifted (h : Shifted d old w s t) (f : FrameId) (x : String) :
    Option.Rel (Value.Alike (d.Moved w)) (s.lookup? f x)
      (t.lookup? (d.frame f) x) := by
  unfold Store.lookup?
  rw [h.find?_shifted]
  cases s.find? f x with
  | none => exact .none
  | some g => exact (h.bindings g).values x

/-! ## Single changes -/

theorem ne_frame_of_leftover (d : Shift) {f g : FrameId} (hpos : 0 < g) (hg : g ≤ d.frames) : g ≠ d.frame f := by
  unfold Shift.frame
  split
  · exact Nat.ne_of_gt hpos
  · rename_i hf
    exact Nat.ne_of_lt (Nat.lt_of_le_of_lt hg (Nat.lt_add_of_pos_left (Nat.pos_of_ne_zero hf)))

theorem ne_size (h : Shifted d old w s t) {f : FrameId} (hf : f ≠ w) : f ≠ s.frames.size := by
  rw [h.size]
  exact hf

theorem frame_ne_size' (h : Shifted d old w s t) {f : FrameId} (hf : f ≠ w) : d.frame f ≠ t.frames.size := by
  rw [h.size', ← d.frame_of_pos h.pos]
  exact fun he => hf (d.frame_injective he)

theorem new_frame (h : Shifted d old w s t) (outer : Option FrameId) : w = (s.push outer).1 := h.size.symm

theorem new_frame' (h : Shifted d old w s t) (outer : Option FrameId) : d.frame w = (t.push outer).1 := by
  rw [d.frame_of_pos h.pos]
  exact h.size'.symm

theorem define (h : Shifted d old w s t) {f : FrameId} (hf : f < w) (x : String) {v v' : Value}
    (hv : Value.Alike (d.Moved w) v v') :
    Shifted d old w (s.define f x v) (t.define (d.frame f) x v') where
  size := by rw [Store.size_define, h.size]
  size' := by rw [Store.size_define, h.size']
  pos := h.pos
  bindings := by
    intro g
    by_cases hg : g = f
    · have hs : f < s.frames.size := by
        rw [h.size]
        exact hf
      have ht : d.frame f < t.frames.size := by
        rw [h.size', ← d.frame_of_pos h.pos]
        exact d.frame_lt_frame hf
      rw [hg, Store.bindings_define_self hs, Store.bindings_define_self ht]
      exact (h.bindings f).put x hv
    · have hg' : d.frame g ≠ d.frame f := fun he => hg (d.frame_injective he)
      rw [Store.bindings_define_of_ne s hg, Store.bindings_define_of_ne t hg']
      exact h.bindings g
  outer := by
    intro g
    rw [Store.outer?_define, Store.outer?_define]
    exact h.outer g
  older := by
    intro g g' hg
    rw [Store.outer?_define] at hg
    exact h.older g g' hg
  leftover := by
    intro g hpos hg
    rw [Store.bindings_define_of_ne t (ne_frame_of_leftover d hpos hg), Store.outer?_define]
    exact h.leftover g hpos hg
  closures := h.closures
  output := h.output

theorem size_eq_frame (h : Shifted d old w s t) : t.frames.size = d.frame s.frames.size := by
  rw [h.size, h.size', d.frame_of_pos h.pos]

/-- New frames inside corresponding frames. What corresponded before does so among one frame
    more. -/
theorem push (h : Shifted d old w s t) {g : FrameId} (hg : g < w) :
    Shifted d old (w + 1) (s.push (some g)).2 (t.push (some (d.frame g))).2 where
  size := by simp only [Store.push, Array.size_push, h.size]
  size' := by
    simp only [Store.push, Array.size_push, h.size']
    omega
  pos := Nat.succ_pos w
  bindings := by
    intro f
    by_cases hf : f = w
    · rw [hf, h.new_frame' (some (d.frame g)), Store.bindings_push_self, h.new_frame (some g), Store.bindings_push_self]
      exact .nil
    · rw [Store.bindings_push_of_ne (h.ne_size hf), Store.bindings_push_of_ne (h.frame_ne_size' hf)]
      exact (h.bindings f).mono fun _ _ => Shift.Moved.later d (Nat.le_succ w)
  outer := by
    intro f
    by_cases hf : f = w
    · rw [hf, h.new_frame' (some (d.frame g)), Store.outer?_push_self, h.new_frame (some g), Store.outer?_push_self]
      rfl
    · rw [Store.outer?_push_of_ne (h.frame_ne_size' hf), Store.outer?_push_of_ne (h.ne_size hf)]
      exact h.outer f
  older := by
    intro f g' hf'
    by_cases hf : f = w
    · rw [hf, h.new_frame (some g), Store.outer?_push_self] at hf'
      cases hf'
      rw [hf]
      exact hg
    · rw [Store.outer?_push_of_ne (h.ne_size hf)] at hf'
      exact h.older f g' hf'
  leftover := by
    intro f hpos hf
    have hlt : f < t.frames.size := by
      rw [h.size']
      exact Nat.lt_of_le_of_lt hf (Nat.lt_add_of_pos_left h.pos)
    rw [Store.bindings_push_of_lt hlt, Store.outer?_push_of_lt hlt]
    exact h.leftover f hpos hf
  closures := h.closures
  output := h.output

theorem update (h : Shifted d old w s t) {f : FrameId} (hf : f < w) (params : List String) {vs vs' : List Value}
    (hvs : Value.AllAlike (d.Moved w) vs vs') :
    Shifted d old w (s.update f (params.zip vs)) (t.update (d.frame f) (params.zip vs')) :=
  Store.update_alike (fun _ _ x _ _ hst hv => hst.define hf x hv) params hvs h

/-- The frames of corresponding calls. -/
theorem enter (h : Shifted d old w s t) {c c' : Closure} (hc : c.Renamed d.frame d.identity c') (hlt : c.frame < w)
    {vs vs' : List Value}
    (hvs : Value.AllAlike (d.Moved w) vs vs') :
    Shifted d old (w + 1) ((s.push (some c.frame)).2.update s.frames.size (c.params.zip vs))
      ((t.push (some c'.frame)).2.update t.frames.size (c'.params.zip vs')) := by
  have hvs' := hvs.mono fun _ _ => Shift.Moved.later d (Nat.le_succ w)
  have hupdate := (h.push hlt).update (Nat.lt_succ_self w) c.params hvs'
  rw [h.size_eq_frame, h.size, hc.frame, hc.params]
  exact hupdate

end Shifted

/-! ## Evaluation -/

/-- The frames and closures of the one run are those of the other, further on. Both runs see what
    they have made themselves, and the top frame. -/
def Coupling.renaming (d : Shift) (old : Store) : Coupling where
  World := Nat
  le w w' := w ≤ w'
  store w s t := Shifted d old w s t
  scope w f g := g = d.frame f ∧ f < w
  closure w := d.Moved w
  covered _ := True
  early _ := False

theorem Shift.faithful (d : Shift) : Value.Faithful (Closure.Renamed d.frame d.identity) where
  params h := h.params.symm
  identity := by
    intro c d' c' d'' h h'
    rw [h.identity, h'.identity]
    exact ⟨fun he => by rw [he], d.identity_injective⟩

theorem renaming_lawful (d : Shift) (old : Store) : (Coupling.renaming d old).Lawful where
  le_refl w := Nat.le_refl w
  le_trans h h' := Nat.le_trans h h'
  scope_later hle h := ⟨h.1, Nat.lt_of_lt_of_le h.2 hle⟩
  closure_later hle h := Shift.Moved.later d hle h
  faithful _ := ⟨fun h => d.faithful.params h.1, fun h h' => d.faithful.identity h.1 h'.1⟩
  body h := ⟨h.1.body.symm, trivial⟩
  operator _ _ := trivial
  args _ _ _ := trivial
  behind he := he.elim
  lookup := by
    intro w s t f g x hst hfg _
    rcases hfg with ⟨rfl, -⟩
    exact hst.lookup?_shifted f x
  define := by
    intro w s t f g x v v' hst hfg _ hv
    rcases hfg with ⟨rfl, hf⟩
    exact hst.define hf x hv
  assign := by
    intro w s t f g op x e v v' hst hfg _ _ hv
    rcases hfg with ⟨rfl, -⟩
    unfold Store.assign?
    rw [hst.find?_shifted]
    cases hg : s.find? f x with
    | none => exact .none
    | some g =>
      have hlt := Store.lt_size_of_owns (Store.owns_of_find? hg)
      rw [hst.size] at hlt
      exact .some (hst.define hlt x hv)
  enter := by
    intro w s t c c' vs vs' hst hcc hvs
    obtain ⟨hc, hlt⟩ := hcc
    exact ⟨Nat.succ w, Nat.le_succ w, ⟨hst.size_eq_frame, hst.size ▸ Nat.lt_succ_self w⟩, hst.enter hc hlt hvs⟩
  close := by
    intro w s t f g body params hst hfg _
    rcases hfg with ⟨rfl, hf⟩
    refine ⟨w, Nat.le_refl w, ⟨⟨hst.closures, rfl, rfl, rfl⟩, hf⟩, ?_⟩
    refine ⟨hst.size, hst.size', hst.pos, hst.bindings, hst.outer, hst.older, hst.leftover, ?_, hst.output⟩
    have hclosures := hst.closures
    simp only [Store.close, Shift.identity] at hclosures ⊢
    omega
  print := by
    intro w s t text hst
    refine ⟨hst.size, hst.size', hst.pos, hst.bindings, hst.outer, hst.older, hst.leftover, hst.closures, ?_⟩
    simp only [Store.print, hst.output, String.append_assoc]

end Eval

end EggLang
