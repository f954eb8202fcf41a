/-
  EggLang.Proofs.Outcome — results that may be missing, and two computations side by side.

  A computation that stops has no result, and whatever would follow it does not happen: so a result
  of two steps in a row is a result of the second, got from one of the first (`bind_eq_ok`), and if
  they stop, one of them does (`bind_eq_error`). Two outcomes can be compared, so single runs can be
  checked by evaluating them.

  Two computations that differ in their budgets, or in what they compute with, agree (`Agrees`) when
  they give results that correspond or stop for the same reason. The first of them may also stop
  early, for a reason of its own that says nothing about the second: it has used up a budget that
  the second has more of (`Raised`).
-/

import EggLang.Fault

namespace EggLang

instance decidableEqOutcome {ε α : Type} [DecidableEq ε] [DecidableEq α] : DecidableEq (Except ε α)
  | .ok a, .ok b => decidable_of_iff (a = b) (by simp)
  | .error e, .error f => decidable_of_iff (e = f) (by simp)
  | .ok _, .error _ => isFalse (by simp)
  | .error _, .ok _ => isFalse (by simp)

theorem bind_eq_ok {ε α β : Type} {x : Except ε α} {f : α → Except ε β} {b : β} (h : (x >>= f) = .ok b) :
    ∃ a, x = .ok a ∧ f a = .ok b := by
  cases x with
  | error e => cases h
  | ok a => exact ⟨a, rfl, h⟩

theorem bind_eq_error {ε α β : Type} {x : Except ε α} {f : α → Except ε β} {e : ε} (h : (x >>= f) = .error e) :
    x = .error e ∨ ∃ a, x = .ok a ∧ f a = .error e := by
  cases x with
  | error e' =>
    cases h
    exact .inl rfl
  | ok a => exact .inr ⟨a, rfl, h⟩

/-! ## Two computations side by side -/

variable {α β γ δ : Type} {early : Stop → Prop}

/-- Two outcomes correspond, unless the first computation stopped early. -/
inductive Agrees (early : Stop → Prop) (V : α → β → Prop) : Except Stop α → Except Stop β → Prop
  | ok {a : α} {b : β} : V a b → Agrees early V (.ok a) (.ok b)
  | error (e : Stop) : Agrees early V (.error e) (.error e)
  | early {e : Stop} (r : Except Stop β) : early e → Agrees early V (.error e) r

theorem Agrees.same (x : Except Stop α) : Agrees early (· = ·) x x := by
  cases x with
  | ok a => exact .ok rfl
  | error e => exact .error e

theorem Agrees.bind {V : α → β → Prop} {W : γ → δ → Prop} {x : Except Stop α} {y : Except Stop β}
    {f : α → Except Stop γ} {g : β → Except Stop δ} (h : Agrees early V x y)
    (hk : ∀ a b, V a b → Agrees early W (f a) (g b)) : Agrees early W (x >>= f) (y >>= g) := by
  cases h with
  | ok hab => exact hk _ _ hab
  | error e => exact .error e
  | early _ he => exact .early _ he

/-- Where the first steps agree in their results, what follows them is compared result by result. -/
theorem Agrees.bind_same {W : γ → δ → Prop} {x y : Except Stop α} {f : α → Except Stop γ} {g : α → Except Stop δ}
    (h : Agrees early (· = ·) x y) (hk : ∀ a, Agrees early W (f a) (g a)) : Agrees early W (x >>= f) (y >>= g) := by
  refine h.bind ?_
  intro a b hab
  rw [← hab]
  exact hk a

/-- Outcomes that agree in their results are the same, unless the first computation stopped
    early. -/
theorem Agrees.eq_or_early {x y : Except Stop α} (h : Agrees early (· = ·) x y) :
    x = y ∨ ∃ e, early e ∧ x = .error e := by
  cases h with
  | ok hab => exact .inl (by rw [hab])
  | error e => exact .inl rfl
  | early _ he => exact .inr ⟨_, he, rfl⟩

/-- A budget is raised, which only a computation that may stop early can notice. -/
structure Raised (noticed : Prop) (budget budget' : Nat) : Prop where
  le : budget ≤ budget'
  noticed : budget < budget' → noticed

theorem Raised.refl (noticed : Prop) (n : Nat) : Raised noticed n n :=
  ⟨Nat.le_refl n, fun h => absurd h (Nat.lt_irrefl n)⟩

theorem Raised.sub {noticed : Prop} {m n : Nat} (h : Raised noticed m n) (k : Nat) :
    Raised noticed (m - k) (n - k) :=
  ⟨Nat.sub_le_sub_right h.le k, fun hlt => h.noticed (by omega)⟩

theorem Raised.pred {noticed : Prop} {m n : Nat} (h : Raised noticed (m + 1) (n + 1)) : Raised noticed m n :=
  ⟨Nat.le_of_succ_le_succ h.le, fun hlt => h.noticed (by omega)⟩

/-- Computations that stop when their depth is used up agree when they do so with depth left. -/
theorem agrees_within_depth {V : α → β → Prop} {depth depth' : Nat} {x : Except Stop α} {y : Except Stop β}
    (hd : Raised (early .depth) depth depth') (h : Agrees early V x y) :
    Agrees early V (if depth = 0 then .error .depth else x) (if depth' = 0 then .error .depth else y) := by
  by_cases h0 : depth = 0
  · rw [if_pos h0]
    by_cases h0' : depth' = 0
    · rw [if_pos h0']
      exact .error .depth
    · exact .early _ (hd.noticed (by omega))
  · have hle := hd.le
    rw [if_neg h0, if_neg (by omega)]
    exact h

end EggLang
