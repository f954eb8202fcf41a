/-
  EggLang.Proofs.Value.Ordering — the laws of `<` and `>` (`lt`, `gt`), and of `==` beside them.

  Two numbers are compared by what they stand for, and two texts by their characters. Both are
  linear orders, so the laws are proved once, for values that a linear order ranks (`Ranking`):
  numbers have ranks on the extended real line, but for what is not a number, and texts are ranks
  themselves. Two values that are neither two numbers nor two texts have no order, which is a fault
  that shows them.

  - `ranking_numbers`, `ranking_texts`: all three comparisons come to what is the case between the
    ranks.
  - `Ranking.laws`: what follows from that.
  - `ordering_laws`: what the comparisons come to, for all values.
-/

import Mathlib.Data.String.Basic
import EggLang.Proofs.Value.Alike
import EggLang.Proofs.Value.Equality
import EggLang.Proofs.Value.Shown

namespace EggLang

open EggLang.Numeric EggLang.Value

namespace Comparison

structure OrderLaws (depth : Nat) (a b c : Value) : Prop where
  /-- All three comparisons of two values give an answer, and exactly one of the answers is yes. -/
  one : ∃ l e g, less.apply depth a b = .ok (.flag l) ∧ a.equal depth b = .ok e ∧
    greater.apply depth a b = .ok (.flag g) ∧ [l, e, g].count true = 1
  mirrored : less.apply depth a b = greater.apply depth b a
  trans : less.apply depth a b = .ok (.flag true) → less.apply depth b c = .ok (.flag true) →
    less.apply depth a c = .ok (.flag true)
  /-- Equal values stand in the same order to others. -/
  congr : a.equal depth b = .ok true →
    less.apply depth a c = less.apply depth b c ∧ less.apply depth c a = less.apply depth c b

/-! ## Ranks -/

variable {depth : Nat} {κ : Type} [LinearOrder κ] {rank : Value → Option κ}

/-- Values that have ranks are compared as their ranks are. -/
structure Ranking (depth : Nat) (rank : Value → Option κ) : Prop where
  less : ∀ {a b : Value} {x y : κ}, rank a = some x → rank b = some y →
    less.apply depth a b = .ok (.flag (decide (x < y)))
  greater : ∀ {a b : Value} {x y : κ}, rank a = some x → rank b = some y →
    greater.apply depth a b = .ok (.flag (decide (y < x)))
  equal : ∀ {a b : Value} {x y : κ}, rank a = some x → rank b = some y → a.equal depth b = .ok (decide (x = y))

theorem Ranking.laws (h : Ranking depth rank) {a b c : Value} {x y z : κ} (ha : rank a = some x) (hb : rank b = some y)
    (hc : rank c = some z) : OrderLaws depth a b c := by
  refine ⟨⟨_, _, _, h.less ha hb, h.equal ha hb, h.greater ha hb, ?_⟩, ?_, ?_, ?_⟩
  · rcases lt_trichotomy x y with hlt | heq | hgt
    · simp [hlt, hlt.ne, hlt.not_gt]
    · simp [heq]
    · simp [hgt, hgt.ne', hgt.not_gt]
  · rw [h.less ha hb, h.greater hb ha]
  · rw [h.less ha hb, h.less hb hc, h.less ha hc]
    intro hab hbc
    have hxy : x < y := by simpa using hab
    have hyz : y < z := by simpa using hbc
    simp [hxy.trans hyz]
  · rw [h.equal ha hb, h.less ha hc, h.less hb hc, h.less hc ha, h.less hc hb]
    intro hab
    have hxy : x = y := by simpa using hab
    rw [hxy]
    exact ⟨rfl, rfl⟩

noncomputable def numberRank (v : Value) : Option EReal := v.number?.bind Number.value?

def textRank : Value → Option String
  | .text s => some s
  | _ => none

theorem numberRank_eq_some {v : Value} {x : EReal} (h : numberRank v = some x) :
    ∃ n, v = .number n ∧ n.value? = some x := by
  cases v with
  | number n => exact ⟨n, rfl, h⟩
  | _ => cases h

theorem textRank_eq_some {v : Value} {s : String} (h : textRank v = some s) : v = .text s := by
  cases v with
  | text t => rw [Option.some.inj h]
  | _ => cases h

/-- Every number has a rank, but for what is not a number. -/
theorem exists_value? {n : Number} (h : n ≠ .float .nan) : ∃ x, n.value? = some x := by
  cases n with
  | int n => exact ⟨_, rfl⟩
  | float x =>
    cases x with
    | nan => exact absurd rfl h
    | _ => exact ⟨_, rfl⟩

theorem uncompared_of_nan {m n : Number} (h : m = .float .nan ∨ n = .float .nan) :
    m.less n = false ∧ m.equal n = false := by
  unfold Number.less Number.equal
  rcases h with rfl | rfl
  · exact ⟨rfl, rfl⟩
  · cases m.point? <;> exact ⟨rfl, rfl⟩

theorem ranking_numbers (h : 0 < depth) : Ranking depth numberRank := by
  have hless : ∀ {m n : Number} {x y : EReal}, m.value? = some x → n.value? = some y →
      m.less n = decide (x < y) := by
    intro m n x y hm hn
    rw [Bool.eq_iff_iff, Number.less_iff, hm, hn]
    simp
  refine ⟨?_, ?_, ?_⟩
  all_goals
    intro a b x y ha hb
    obtain ⟨m, rfl, hm⟩ := numberRank_eq_some ha
    obtain ⟨n, rfl, hn⟩ := numberRank_eq_some hb
  · rw [apply, onNumbers, hless hm hn]
  · rw [apply, onNumbers, hless hn hm]
  · rw [equal_numbers h, Except.ok.injEq, Bool.eq_iff_iff, Number.equal_iff, hm, hn]
    simp [eq_comm]

theorem ranking_texts (h : 0 < depth) : Ranking depth textRank := by
  refine ⟨?_, ?_, ?_⟩
  all_goals
    intro a b s t ha hb
    obtain rfl := textRank_eq_some ha
    obtain rfl := textRank_eq_some hb
  · rfl
  · rfl
  · rw [equal, if_neg (by omega)]
    rfl

/-! ## All values -/

theorem apply_others (op : Comparison) (depth : Nat) {a b : Value} (hnumbers : a.number? = none ∨ b.number? = none)
    (htexts : ¬ (a.isText ∧ b.isText)) :
    op.apply depth a b = (do
      let left ← a.display depth
      let right ← b.display depth
      fail (.notOrdered op left right)) := by
  cases a <;> cases b <;> simp [number?, isText] at hnumbers htexts <;> rfl

/-- Numbers other than what is not a number are ordered by `<` and `>` strictly and totally, in
    keeping with `==`, and so are texts. Two values that are neither two numbers nor two texts are a
    fault that shows them, or the fault of the first that cannot be shown. What is not a number is
    neither less than, equal to nor greater than any number. -/
theorem ordering_laws {depth : Nat} (hdepth : 0 < depth) :
    (∀ a b c : Value, (∀ v ∈ [a, b, c], ∃ n, v = .number n ∧ n ≠ .float .nan) ∨ (∀ v ∈ [a, b, c], ∃ s, v = .text s) →
      OrderLaws depth a b c) ∧
    (∀ (op : Comparison) (a b : Value), a.number? = none ∨ b.number? = none → ¬ (a.isText ∧ b.isText) →
      ShownBoth depth a b (fun left right => fail (.notOrdered op left right)) (op.apply depth a b)) ∧
    (∀ m n : Number, m = .float .nan ∨ n = .float .nan →
      less.apply depth (.number m) (.number n) = .ok (.flag false) ∧
      greater.apply depth (.number m) (.number n) = .ok (.flag false) ∧
      (Value.number m).equal depth (.number n) = .ok false) := by
  refine ⟨?_, ?_, ?_⟩
  · rintro a b c (hnumbers | htexts)
    · have hrank : ∀ v ∈ [a, b, c], ∃ x, numberRank v = some x := by
        intro v hv
        obtain ⟨n, rfl, hn⟩ := hnumbers v hv
        exact exists_value? hn
      obtain ⟨x, hx⟩ := hrank a (by simp)
      obtain ⟨y, hy⟩ := hrank b (by simp)
      obtain ⟨z, hz⟩ := hrank c (by simp)
      exact (ranking_numbers hdepth).laws hx hy hz
    · obtain ⟨s, rfl⟩ := htexts a (by simp)
      obtain ⟨t, rfl⟩ := htexts b (by simp)
      obtain ⟨u, rfl⟩ := htexts c (by simp)
      exact (ranking_texts hdepth).laws rfl rfl rfl
  · intro op a b hnumbers htexts
    rw [apply_others op depth hnumbers htexts]
    exact shownBoth depth a b _
  · intro m n hnan
    obtain ⟨hless, hequal⟩ := uncompared_of_nan hnan
    obtain ⟨hgreater, -⟩ := uncompared_of_nan hnan.symm
    refine ⟨?_, ?_, ?_⟩
    · rw [apply, onNumbers, hless]
    · rw [apply, onNumbers, hgreater]
    · rw [equal_numbers hdepth, hequal]

/-- The first integer that is not a double itself is ordered after the double before it and before
    infinity; texts are ordered; a flag and a number are not; and neither is what is not a
    number. -/
theorem ordering_past_exact_doubles :
    OrderLaws 9 (.number (.float (.ofBits 0x4340000000000000))) (.int (twoPow 53 + 1))
      (.number (.float (.infinite false))) ∧
    less.apply 9 (.number (.float (.ofBits 0x4340000000000000))) (.int (twoPow 53 + 1)) = .ok (.flag true) ∧
    OrderLaws 9 (.text "") (.text "a") (.text "a ") ∧
    (∃ stop, less.apply 9 (.flag true) (.int 2) = .error stop) ∧
    (Value.number (.float .nan)).equal 9 (.number (.float .nan)) = .ok false := by
  obtain ⟨hlaws, hothers, hnan⟩ := ordering_laws (show 0 < 9 by decide)
  refine ⟨hlaws _ _ _ (.inl ?_), by decide +kernel, hlaws _ _ _ (.inr ?_), ?_, (hnan _ _ (.inl rfl)).2.2⟩
  · have hdouble : Binary64.ofBits 0x4340000000000000 ≠ .nan := by decide +kernel
    simp [Value.int, hdouble]
  · simp
  · have hshown := hothers .less (.flag true) (.int 2) (.inl rfl) (by decide)
    generalize less.apply 9 _ _ = r at hshown
    cases hshown <;> exact ⟨_, rfl⟩

end Comparison

end EggLang
