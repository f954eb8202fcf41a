/-
  EggLang.Proofs.Scope.Chain — going outwards from frame to frame (`Environment.find`).

  Where the frame outside a frame is always an older one (`Older`), whoever goes outwards comes to
  an end (`Older.outwards_ends`), and no frame is met twice (`Older.descending_chain`). So the bound
  on the length of a chain cuts nothing off: a chain is a frame and the chain of the frame outside
  it (`Older.chain_eq`), and a name is found in the frame itself or else from the frame outside it
  (`Older.find?_eq`). Where the same frames are outside one another, chains are the same
  (`Older.chain_of_outer?`).
-/

import EggLang.Proofs.Scope.Owned

namespace EggLang.Scope.Store

def Older (s : Store) : Prop := ∀ f g : Nat, s.outer? f = some g → g < f

namespace Older

variable {s : Store}

theorem outwards_ends (h : s.Older) : WellFounded fun g f => s.outer? f = some g :=
  Subrelation.wf (h _ _) Nat.lt_wfRel.wf

/-- Any bound that is as large as the number of the frame leaves the chain whole. -/
theorem chainWithin_eq (h : s.Older) {links f : Nat} (hf : f ≤ links) :
    s.chainWithin links f = s.chain f := by
  unfold chain
  -- the links that are left for `f` and for `links` differ, so both are followed outwards together
  induction f using Nat.strongRecOn generalizing links with
  | _ f ih =>
    cases ho : s.outer? f with
    | none => cases links <;> cases f <;> simp [chainWithin, ho]
    | some g =>
      have hlt := h f g ho
      obtain ⟨links, rfl⟩ : ∃ n, links = n + 1 := ⟨links - 1, by omega⟩
      obtain ⟨f, rfl⟩ : ∃ n, f = n + 1 := ⟨f - 1, by omega⟩
      simp only [chainWithin, ho]
      rw [ih g hlt (Nat.le_of_lt_succ (Nat.lt_of_lt_of_le hlt hf)), ih g hlt (Nat.le_of_lt_succ hlt)]

/-- A chain is a frame and the chain of the frame outside it. -/
theorem chain_eq (h : s.Older) (f : Nat) : s.chain f = f :: (s.outer? f).elim [] s.chain := by
  cases ho : s.outer? f with
  | none => cases f <;> simp [chain, chainWithin, ho]
  | some g =>
    have hlt := h f g ho
    obtain ⟨n, rfl⟩ : ∃ n, f = n + 1 := ⟨f - 1, by omega⟩
    simp only [chain, chainWithin, ho, Option.elim_some]
    rw [h.chainWithin_eq (Nat.le_of_lt_succ hlt), chain]

/-- A name is found in the frame itself, or else from the frame outside it. -/
theorem find?_eq (h : s.Older) (f : FrameId) (x : String) :
    s.find? f x = if s.owns f x then some f else (s.outer? f).bind (s.find? · x) := by
  rw [find?, h.chain_eq, List.find?_cons]
  cases s.owns f x with
  | true => rfl
  | false =>
    cases s.outer? f with
    | none => rfl
    | some g => rfl

/-- Where the same frames are outside one another, the chains are the same. -/
theorem chain_of_outer? (h : s.Older) {t : Store} {f : Nat} (houter : ∀ g, g ≤ f → t.outer? g = s.outer? g) :
    t.chain f = s.chain f := by
  have hwithin : ∀ links g, g ≤ f → t.chainWithin links g = s.chainWithin links g := by
    intro links
    induction links with
    | zero =>
      intro g _
      rfl
    | succ links ih =>
      intro g hg
      simp only [chainWithin, houter g hg]
      cases ho : s.outer? g with
      | none => rfl
      | some g' =>
        have hlt := h g g' ho
        simp only [ih g' (by omega)]
  exact hwithin f f (Nat.le_refl f)

theorem le_of_mem_chain (h : s.Older) {f g : FrameId} (hg : g ∈ s.chain f) : g ≤ f := by
  induction f using Nat.strongRecOn with
  | _ f ih =>
    rw [h.chain_eq, List.mem_cons] at hg
    rcases hg with rfl | hg
    · exact Nat.le_refl g
    · cases ho : s.outer? f with
      | none =>
        rw [ho] at hg
        cases hg
      | some f' =>
        have hlt := h f f' ho
        rw [ho] at hg
        exact Nat.le_of_lt (Nat.lt_of_le_of_lt (ih f' hlt hg) hlt)

/-- Every frame of a chain is older than those before it. -/
theorem descending_chain (h : s.Older) (f : FrameId) : (s.chain f).Pairwise (· > ·) := by
  induction f using Nat.strongRecOn with
  | _ f ih =>
    rw [h.chain_eq]
    cases ho : s.outer? f with
    | none => exact List.pairwise_singleton _ f
    | some g =>
      have hlt := h f g ho
      exact List.pairwise_cons.mpr ⟨fun g' hg' => Nat.lt_of_le_of_lt (h.le_of_mem_chain hg') hlt, ih g hlt⟩

/-! ## Changes to a store -/

theorem define (h : s.Older) (f : FrameId) (x : String) (v : Value) : (s.define f x v).Older := by
  intro g g' hg
  rw [outer?_define] at hg
  exact h g g' hg

theorem push (h : s.Older) {outer : Option FrameId} (houter : ∀ g, outer = some g → g < s.frames.size) :
    (s.push outer).2.Older := by
  intro f g hf
  by_cases hself : f = s.frames.size
  · rw [show f = (s.push outer).1 from hself, outer?_push_self] at hf
    rw [hself]
    exact houter g hf
  · rw [outer?_push_of_ne hself] at hf
    exact h f g hf

end Older

end EggLang.Scope.Store
