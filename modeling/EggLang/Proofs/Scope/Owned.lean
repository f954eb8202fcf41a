/-
  EggLang.Proofs.Scope.Owned — the names that frames own, and where there are none.

  A name has a value in bindings exactly when it is listed there (`exists_get?_of_mem`,
  `get?_eq_none`), and bindings that list no name twice are known by their names and values
  (`eq_of_get?`). So a name that is found can be looked up (`lookup?_eq_none_iff`). A frame that
  owns a name is in the store (`lt_size_of_owns`), and binding that name again gives the frame no
  name (`names_define_of_owns`). Binding a name leaves the values of the others alone in every frame
  (`get?_define_of_ne`), and a new frame leaves every other one alone, those that are not there yet
  included (`bindings_push_of_ne`, `outer?_push_of_ne`); it owns nothing itself (`bindings_push`).
-/

import EggLang.Scope.Store

namespace EggLang.Scope

namespace Bindings

theorem get?_of_mem {b : Bindings} (hnodup : b.names.Nodup) {p : String × Value} (h : p ∈ b) :
    b.get? p.1 = some p.2 := by
  induction b with
  | nil => cases h
  | cons q rest ih =>
    obtain ⟨y, w⟩ := q
    simp only [names, List.map_cons, List.nodup_cons] at hnodup
    rcases List.mem_cons.mp h with rfl | h
    · exact if_pos rfl
    · have hne : p.1 ≠ y := by
        intro he
        exact hnodup.1 (he ▸ List.mem_map_of_mem h)
      rw [get?, if_neg hne]
      exact ih hnodup.2 h

theorem get?_eq_none {b : Bindings} {x : String} (h : x ∉ b.names) : b.get? x = none := by
  induction b with
  | nil => rfl
  | cons q rest ih =>
    obtain ⟨y, w⟩ := q
    simp only [names, List.map_cons, List.mem_cons, not_or] at h
    rw [get?, if_neg h.1]
    exact ih h.2

theorem exists_get?_of_mem {b : Bindings} {x : String} (h : x ∈ b.names) : ∃ v, b.get? x = some v := by
  induction b with
  | nil => cases h
  | cons q rest ih =>
    obtain ⟨y, w⟩ := q
    simp only [names, List.map_cons, List.mem_cons] at h
    by_cases hxy : x = y
    · exact ⟨w, by rw [get?, if_pos hxy]⟩
    · rw [get?, if_neg hxy]
      exact ih (h.resolve_left hxy)

/-- Bindings that list no name twice are the same when they list the same names with the same
    values. -/
theorem eq_of_get? {b c : Bindings} (hnodup : b.names.Nodup) (hnames : b.names = c.names)
    (hvalues : ∀ x, b.get? x = c.get? x) : b = c := by
  induction b generalizing c with
  | nil =>
    cases c with
    | nil => rfl
    | cons q rest => cases hnames
  | cons p rest ih =>
    cases c with
    | nil => cases hnames
    | cons q rest' =>
      obtain ⟨x, v⟩ := p
      obtain ⟨y, w⟩ := q
      simp only [names, List.map_cons, List.cons.injEq] at hnames
      simp only [names, List.map_cons, List.nodup_cons] at hnodup
      obtain ⟨rfl, hrest⟩ := hnames
      have hv : v = w := by simpa [get?] using hvalues x
      have hnot : x ∉ names rest' := fun h => hnodup.1 (hrest ▸ h)
      rw [hv, ih hnodup.2 hrest]
      intro z
      by_cases hz : z = x
      · rw [hz, get?_eq_none hnodup.1, get?_eq_none hnot]
      · simpa [get?, hz] using hvalues z

end Bindings

namespace Store

/-! ## Frames that are not there -/

theorem bindings_of_le {s : Store} {f : FrameId} (h : s.frames.size ≤ f) : s.bindings f = [] := by
  simp [bindings, Array.getElem?_eq_none h]

theorem outer?_of_le {s : Store} {f : FrameId} (h : s.frames.size ≤ f) : s.outer? f = none := by
  simp [outer?, Array.getElem?_eq_none h]

theorem bindings_push_of_ne {s : Store} {f : FrameId} (h : f ≠ s.frames.size) (outer : Option FrameId) :
    (s.push outer).2.bindings f = s.bindings f := by
  simp only [bindings, push, Array.getElem?_push, if_neg h]

theorem outer?_push_of_ne {s : Store} {f : FrameId} (h : f ≠ s.frames.size) (outer : Option FrameId) :
    (s.push outer).2.outer? f = s.outer? f := by
  simp only [outer?, push, Array.getElem?_push, if_neg h]

/-- A new frame owns as much as it did before it was there. -/
theorem bindings_push (s : Store) (outer : Option FrameId) (f : FrameId) :
    (s.push outer).2.bindings f = s.bindings f := by
  by_cases hf : f = s.frames.size
  · rw [show f = (s.push outer).1 from hf, bindings_push_self]
    exact (bindings_of_le (Nat.le_refl _)).symm
  · exact bindings_push_of_ne hf outer

theorem names_push (s : Store) (outer : Option FrameId) (f : FrameId) : (s.push outer).2.names f = s.names f := by
  rw [names, bindings_push, names]

/-! ## Binding several names -/

/-- What binding each of several names keeps, binding them all keeps. -/
theorem update_induction {P : Store → Prop} {f : FrameId} {pairs : List (String × Value)}
    (hdefine : ∀ s, P s → ∀ p ∈ pairs, P (s.define f p.1 p.2)) {s : Store} (h : P s) : P (s.update f pairs) := by
  induction pairs generalizing s with
  | nil => exact h
  | cons p pairs ih =>
    exact ih (fun t ht q hq => hdefine t ht q (List.mem_cons_of_mem _ hq)) (hdefine s h p List.mem_cons_self)

/-! ## Owned names -/

theorem owns_iff {s : Store} {f : FrameId} {x : String} : s.owns f x = true ↔ x ∈ s.names f := by
  simp [owns, names, Bindings.names]

theorem owns_of_find? {s : Store} {f g : FrameId} {x : String} (h : s.find? f x = some g) : s.owns g x = true := by
  unfold Store.find? at h
  exact List.find?_some (p := (s.owns · x)) h

/-- A name that is found has a value where it is found. -/
theorem lookup?_of_find? {s : Store} {f g : FrameId} {x : String} (h : s.find? f x = some g) :
    ∃ v, (s.bindings g).get? x = some v ∧ s.lookup? f x = some v := by
  obtain ⟨v, hv⟩ := Bindings.exists_get?_of_mem (owns_iff.mp (owns_of_find? h))
  exact ⟨v, hv, by rw [lookup?, h]; exact hv⟩

theorem lookup?_eq_none_iff {s : Store} {f : FrameId} {x : String} : s.lookup? f x = none ↔ s.find? f x = none := by
  constructor
  · intro h
    cases hfind : s.find? f x with
    | none => rfl
    | some g =>
      obtain ⟨v, -, hv⟩ := lookup?_of_find? hfind
      simp [h] at hv
  · intro h
    rw [lookup?, h]
    rfl

theorem lt_size_of_owns {s : Store} {f : FrameId} {x : String} (h : s.owns f x = true) : f < s.frames.size := by
  by_cases hf : f < s.frames.size
  · exact hf
  · rw [owns, bindings_of_le (Nat.le_of_not_lt hf)] at h
    cases h

/-- Binding a name binds it in the frame that is told, if that is there. -/
theorem bindings_define (s : Store) (f : FrameId) (x : String) (v : Value) (g : FrameId) :
    (s.define f x v).bindings g = if g = f ∧ f < s.frames.size then (s.bindings g).put x v else s.bindings g := by
  by_cases hg : g = f
  · subst hg
    by_cases hlt : g < s.frames.size
    · rw [if_pos ⟨rfl, hlt⟩, bindings_define_self hlt]
    · have hle := Nat.le_of_not_lt hlt
      rw [if_neg (fun h => hlt h.2), bindings_of_le hle, bindings_of_le (by rw [size_define]; exact hle)]
  · rw [if_neg (fun h => hg h.1), bindings_define_of_ne s hg]

/-- Binding a name leaves the values of the others alone, in every frame. -/
theorem get?_define_of_ne (s : Store) (f : FrameId) {x y : String} (h : y ≠ x) (v : Value) (g : FrameId) :
    ((s.define f x v).bindings g).get? y = (s.bindings g).get? y := by
  rw [bindings_define]
  split
  · exact Bindings.get?_put_of_ne _ v h
  · rfl

theorem names_define_of_ne {s : Store} {f g : FrameId} (h : g ≠ f) (x : String) (v : Value) :
    (s.define f x v).names g = s.names g := by
  rw [names, bindings_define_of_ne s h, names]

/-- Binding a name that a frame owns already gives the frame no name. -/
theorem names_define_of_owns {s : Store} {f : FrameId} {x : String} (h : s.owns f x = true) (v : Value) (g : FrameId) :
    (s.define f x v).names g = s.names g := by
  by_cases hg : g = f
  · rw [hg, names, bindings_define_self (lt_size_of_owns h), Bindings.names_put]
    exact if_pos (owns_iff.mp h)
  · exact names_define_of_ne hg x v

theorem nodup_topBindings : (Bindings.names topBindings).Nodup := by
  decide +kernel

end Store

end EggLang.Scope
