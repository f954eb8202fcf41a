/-
  EggLang.Proofs.Scope.Held — the closures that values and stores hold.

  A closure can be called from wherever a value holds it: it may be the value itself, or stand in
  arrays at any depth (`Value.closures`). A store holds it under the name that the value is bound to
  (`Store.held`). What holds of every closure in a store goes on holding as long as it holds of the
  closures in every value that is bound (`HoldsOnly`).

  - `alike_iff_of_closures`: one value beside itself, told by the closures in it.
  - `HoldsOnly.lookup`: so much is known of the closures in a value that is looked up.
-/

import EggLang.Proofs.Scope.Owned
import EggLang.Proofs.Value.Alike

namespace EggLang

open EggLang.Program EggLang.Scope

namespace Value

mutual

/-- The closures in a value, at any depth of its arrays. -/
def closures : Value → List Closure
  | .array items => allClosures items
  | .closure c => [c]
  | _ => []

def allClosures : List Value → List Closure
  | [] => []
  | v :: rest => closures v ++ allClosures rest

end

theorem mem_allClosures {c : Closure} {vs : List Value} : c ∈ allClosures vs ↔ ∃ v ∈ vs, c ∈ v.closures := by
  induction vs with
  | nil => simp [allClosures]
  | cons v rest ih => simp [allClosures, ih]

mutual

/-- Values that are alike hold closures that correspond, and each of the first is such a one. -/
theorem Alike.closures_left {R : Closure → Closure → Prop} {P : Closure → Prop} (hR : ∀ c d, R c d → P c) :
    ∀ {v w : Value}, Alike R v w → ∀ c ∈ v.closures, P c
  | _, _, .array hs, c, hc => AllAlike.closures_left hR hs c (by simpa only [closures] using hc)
  | _, _, .closure hcd, c, hc => by
    simp only [closures, List.mem_singleton] at hc
    rw [hc]
    exact hR _ _ hcd
  | _, _, .number _, c, hc | _, _, .text _, c, hc | _, _, .flag _, c, hc | _, _, .builtin _, c, hc => by
    simp only [closures, List.not_mem_nil] at hc

theorem AllAlike.closures_left {R : Closure → Closure → Prop} {P : Closure → Prop} (hR : ∀ c d, R c d → P c) :
    ∀ {vs ws : List Value}, AllAlike R vs ws → ∀ c ∈ allClosures vs, P c
  | _, _, .nil, c, hc => by simp only [allClosures, List.not_mem_nil] at hc
  | _, _, .cons hv hs, c, hc => by
    simp only [allClosures, List.mem_append] at hc
    rcases hc with hc | hc
    · exact Alike.closures_left hR hv c hc
    · exact AllAlike.closures_left hR hs c hc

end

mutual

/-- A value is like itself where the closures in it correspond to themselves. -/
theorem Alike.of_closures {R : Closure → Closure → Prop} : ∀ {v : Value}, (∀ c ∈ v.closures, R c c) → Alike R v v
  | .number n, _ => .number n
  | .text s, _ => .text s
  | .flag b, _ => .flag b
  | .builtin b, _ => .builtin b
  | .closure c, h => .closure (h c (by simp only [closures, List.mem_singleton]))
  | .array _, h => .array (AllAlike.of_closures fun c hc => h c (by simpa only [closures] using hc))

theorem AllAlike.of_closures {R : Closure → Closure → Prop} :
    ∀ {vs : List Value}, (∀ c ∈ allClosures vs, R c c) → AllAlike R vs vs
  | [], _ => .nil
  | _ :: _, h => by
    simp only [allClosures, List.mem_append] at h
    exact .cons (Alike.of_closures fun c hc => h c (.inl hc)) (AllAlike.of_closures fun c hc => h c (.inr hc))

end

/-- One value beside itself. -/
theorem alike_iff_of_closures {P : Closure → Prop} {v w : Value} :
    Alike (fun c d => c = d ∧ P c) v w ↔ v = w ∧ ∀ c ∈ v.closures, P c := by
  constructor
  · intro h
    exact ⟨(h.mono fun _ _ hcd => hcd.1).eq, h.closures_left fun _ _ hcd => hcd.2⟩
  · rintro ⟨rfl, h⟩
    exact .of_closures fun c hc => ⟨rfl, h c hc⟩

/-- Several values beside themselves. -/
theorem allAlike_iff_of_closures {P : Closure → Prop} {vs ws : List Value} :
    AllAlike (fun c d => c = d ∧ P c) vs ws ↔ vs = ws ∧ ∀ c ∈ allClosures vs, P c := by
  constructor
  · intro h
    exact ⟨(h.mono fun _ _ hcd => hcd.1).eq, h.closures_left fun _ _ hcd => hcd.2⟩
  · rintro ⟨rfl, h⟩
    exact .of_closures fun c hc => ⟨rfl, h c hc⟩

end Value

namespace Scope

/-! ## Bindings -/

def Bindings.held (b : Bindings) : List (String × Closure) := b.flatMap fun p => p.2.closures.map (p.1, ·)

namespace Bindings

theorem mem_held {b : Bindings} {x : String} {c : Closure} :
    (x, c) ∈ b.held ↔ ∃ v, (x, v) ∈ b ∧ c ∈ v.closures := by
  simp only [held, List.mem_flatMap, List.mem_map]
  constructor
  · rintro ⟨p, hp, d, hd, heq⟩
    cases heq
    exact ⟨p.2, hp, hd⟩
  · rintro ⟨v, hv, hc⟩
    exact ⟨(x, v), hv, c, hc, rfl⟩

theorem mem_of_get? {b : Bindings} {x : String} {v : Value} (h : b.get? x = some v) : (x, v) ∈ b := by
  induction b with
  | nil => cases h
  | cons p rest ih =>
    obtain ⟨y, w⟩ := p
    rw [get?] at h
    split at h
    · rename_i hxy
      cases h
      rw [hxy]
      exact List.mem_cons_self
    · exact List.mem_cons_of_mem _ (ih h)

theorem mem_put {b : Bindings} {x : String} {v : Value} {p : String × Value} (h : p ∈ b.put x v) :
    p = (x, v) ∨ p ∈ b := by
  induction b with
  | nil => exact .inl (List.mem_singleton.mp h)
  | cons q rest ih =>
    obtain ⟨y, w⟩ := q
    rw [put] at h
    split at h
    · rename_i hxy
      rcases List.mem_cons.mp h with h | h
      · exact .inl (by rw [h, hxy])
      · exact .inr (List.mem_cons_of_mem _ h)
    · rcases List.mem_cons.mp h with h | h
      · exact .inr (by rw [h]; exact List.mem_cons_self)
      · exact (ih h).imp_right (List.mem_cons_of_mem _)

end Bindings

/-! ## Stores -/

namespace Store

/-- The closures in a store, each with the name that holds it. -/
def held (s : Store) : List (String × Closure) := s.frames.toList.flatMap fun frame => frame.bindings.held

theorem mem_held {s : Store} {q : String × Closure} : q ∈ s.held ↔ ∃ f, q ∈ (s.bindings f).held := by
  simp only [held, List.mem_flatMap, Array.mem_toList_iff]
  constructor
  · rintro ⟨frame, hframe, hq⟩
    obtain ⟨f, hf, rfl⟩ := Array.mem_iff_getElem.mp hframe
    refine ⟨f, ?_⟩
    rw [bindings, Array.getElem?_eq_getElem hf]
    exact hq
  · rintro ⟨f, hq⟩
    by_cases hf : f < s.frames.size
    · rw [bindings, Array.getElem?_eq_getElem hf] at hq
      exact ⟨s.frames[f], Array.getElem_mem hf, hq⟩
    · rw [bindings_of_le (Nat.le_of_not_lt hf)] at hq
      cases hq

def HoldsOnly (P : String → Closure → Prop) (s : Store) : Prop := ∀ q ∈ s.held, P q.1 q.2

instance decidableHoldsOnly (P : String → Closure → Prop) [∀ x c, Decidable (P x c)] (s : Store) :
    Decidable (s.HoldsOnly P) :=
  inferInstanceAs (Decidable (∀ q ∈ s.held, P q.1 q.2))

variable {P : String → Closure → Prop} {s : Store}

theorem holdsOnly_iff :
    s.HoldsOnly P ↔ ∀ f x v, (x, v) ∈ s.bindings f → ∀ c ∈ v.closures, P x c := by
  constructor
  · intro h f x v hxv c hc
    exact h (x, c) (mem_held.mpr ⟨f, Bindings.mem_held.mpr ⟨v, hxv, hc⟩⟩)
  · rintro h ⟨x, c⟩ hq
    obtain ⟨f, hq⟩ := mem_held.mp hq
    obtain ⟨v, hxv, hc⟩ := Bindings.mem_held.mp hq
    exact h f x v hxv c hc

theorem HoldsOnly.mono {Q : String → Closure → Prop} (h : s.HoldsOnly P) (hPQ : ∀ x c, P x c → Q x c) :
    s.HoldsOnly Q :=
  fun q hq => hPQ _ _ (h q hq)

theorem HoldsOnly.lookup (h : s.HoldsOnly P) {f : FrameId} {x : String} {v : Value} (hv : s.lookup? f x = some v) :
    ∀ c ∈ v.closures, P x c := by
  obtain ⟨g, -, hg⟩ := Option.bind_eq_some_iff.mp hv
  exact holdsOnly_iff.mp h g x v (Bindings.mem_of_get? hg)

theorem HoldsOnly.define (h : s.HoldsOnly P) (f : FrameId) {x : String} {v : Value} (hv : ∀ c ∈ v.closures, P x c) :
    (s.define f x v).HoldsOnly P := by
  rw [holdsOnly_iff] at h ⊢
  intro g y w hyw
  rw [bindings_define] at hyw
  split at hyw
  · rcases Bindings.mem_put hyw with heq | hyw
    · cases heq
      exact hv
    · exact h g y w hyw
  · exact h g y w hyw

theorem HoldsOnly.push (h : s.HoldsOnly P) (outer : Option FrameId) : (s.push outer).2.HoldsOnly P := by
  rw [holdsOnly_iff] at h ⊢
  intro g x v hxv
  by_cases hg : g = s.frames.size
  · rw [show g = (s.push outer).1 from hg, bindings_push_self] at hxv
    cases hxv
  · rw [bindings_push_of_ne hg] at hxv
    exact h g x v hxv

end Store

end Scope

end EggLang
