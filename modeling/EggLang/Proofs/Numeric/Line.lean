/-
  EggLang.Proofs.Numeric.Line — what numbers stand for, and that they are compared by it.

  An integer stands for itself, and a double for the real number that its two fields give, for one
  of the two infinities, or for nothing (`Number.value?`). Numbers are compared by their places on a
  line that is counted in units of 2^-1074. Every number is a whole number of units, so nothing is
  rounded there:

  - `value?_eq`: the place of a number is the place of what it stands for.
  - `equal_iff`, `less_iff`: numbers are equal when they stand for the same, and ordered as what
    they stand for.
-/

import Mathlib.Data.EReal.Basic
import EggLang.Numeric
import EggLang.Proofs.Numeric.Range

namespace EggLang.Numeric

/-! ## What numbers stand for -/

/-- The real number of a pattern: the fraction field counts units of the exponent field, and has a
    bit in front of it unless the exponent field is zero. -/
noncomputable def magnitude (pattern : Nat) : ℝ :=
  if pattern / 2 ^ 52 = 0 then (pattern % 2 ^ 52 : ℕ) * 2 ^ (-1074 : ℤ)
  else (2 ^ 52 + pattern % 2 ^ 52 : ℕ) * 2 ^ (((pattern / 2 ^ 52 : ℕ) : ℤ) - 1075)

noncomputable def Binary64.value? : Binary64 → Option EReal
  | .finite s p => some ((if s then -magnitude p else magnitude p : ℝ) : EReal)
  | .infinite s => some (if s then ⊥ else ⊤)
  | .nan => none

noncomputable def Number.value? : Number → Option EReal
  | .int n => some ((n : ℝ) : EReal)
  | .float x => x.value?

/-! ## Units -/

theorem cast_twoPow (n : Nat) : (twoPow n : ℝ) = 2 ^ n := by
  simp [twoPow]

theorem cast_unitsPerOne_pos : (0 : ℝ) < unitsPerOne := Nat.cast_pos.mpr (twoPow_pos 1074)

theorem magnitude_mul_unitsPerOne (p : Nat) : magnitude p * unitsPerOne = unitsOf p := by
  have hzpow : (unitsPerOne : ℝ) = 2 ^ (1074 : ℤ) := by
    rw [unitsPerOne, cast_twoPow]
    exact (zpow_natCast (2 : ℝ) 1074).symm
  have hbinade : binade = 2 ^ 52 := rfl
  unfold magnitude unitsOf
  rw [hzpow, hbinade]
  by_cases hlow : p < 2 ^ 52
  · rw [if_pos hlow, if_pos (Nat.div_eq_of_lt hlow), Nat.mod_eq_of_lt hlow, mul_assoc, ← zpow_add₀ two_ne_zero]
    simp
  · have hpos : 1 ≤ p / 2 ^ 52 := Nat.div_pos (Nat.le_of_not_lt hlow) (by decide)
    rw [if_neg hlow, if_neg (by omega), Nat.cast_mul, cast_twoPow, mul_assoc, ← zpow_add₀ two_ne_zero,
      ← zpow_natCast (2 : ℝ) (p / 2 ^ 52 - 1), Nat.cast_sub hpos]
    congr 2
    push_cast
    ring

noncomputable def LinePoint.value : LinePoint → EReal
  | .minusInfinity => ⊥
  | .units u => ((u / unitsPerOne : ℝ) : EReal)
  | .plusInfinity => ⊤

theorem LinePoint.before_iff (p q : LinePoint) : p.before q = true ↔ p.value < q.value := by
  have hunits := cast_unitsPerOne_pos
  unfold LinePoint.before LinePoint.value
  -- only that the number of units is positive matters, and it is too large a number to be looked at
  generalize (unitsPerOne : ℝ) = perOne at hunits
  cases p <;> cases q <;> simp [EReal.coe_lt_coe_iff, div_lt_div_iff_of_pos_right hunits]

theorem LinePoint.value_inj {p q : LinePoint} : p.value = q.value ↔ p = q := by
  have hunits := cast_unitsPerOne_pos.ne'
  unfold LinePoint.value
  generalize (unitsPerOne : ℝ) = perOne at hunits
  cases p <;> cases q <;> simp [EReal.coe_eq_coe_iff, div_left_inj' hunits]

namespace Number

/-- The place of a number is the place of what it stands for. -/
theorem value?_eq (n : Number) : n.value? = n.point?.map LinePoint.value := by
  have hunits := cast_unitsPerOne_pos.ne'
  cases n with
  | int n =>
    simp only [value?, point?, Option.map_some, LinePoint.value, Int.cast_mul, Int.cast_natCast,
      mul_div_cancel_right₀ _ hunits]
  | float x =>
    cases x with
    | finite s p =>
      have hp : magnitude p = unitsOf p / unitsPerOne := by
        rw [eq_div_iff hunits, magnitude_mul_unitsPerOne]
      simp only [value?, Binary64.value?, point?, Option.map_some, LinePoint.value, Binary64.signed, hp]
      generalize (unitsPerOne : ℝ) = perOne
      cases s <;> simp [neg_div]
    | infinite s => cases s <;> rfl
    | nan => rfl

/-! ## Comparisons -/

/-- Numbers are equal when they have one place. -/
theorem equal_iff_point? (m n : Number) : m.equal n = true ↔ ∃ p, m.point? = some p ∧ n.point? = some p := by
  unfold equal
  cases m.point? with
  | none => simp
  | some p =>
    cases n.point? with
    | none => simp
    | some q => simpa using eq_comm

theorem equal_iff (m n : Number) : m.equal n = true ↔ ∃ x, m.value? = some x ∧ n.value? = some x := by
  rw [equal_iff_point?, value?_eq, value?_eq]
  constructor
  · rintro ⟨p, hm, hn⟩
    rw [hm, hn]
    exact ⟨_, rfl, rfl⟩
  · rintro ⟨x, hm, hn⟩
    obtain ⟨p, hp, rfl⟩ := Option.map_eq_some_iff.mp hm
    obtain ⟨q, hq, heq⟩ := Option.map_eq_some_iff.mp hn
    rw [LinePoint.value_inj.mp heq] at hq
    exact ⟨p, hp, hq⟩

theorem less_iff (m n : Number) :
    m.less n = true ↔ ∃ x y, m.value? = some x ∧ n.value? = some y ∧ x < y := by
  rw [value?_eq, value?_eq]
  unfold less
  cases m.point? <;> cases n.point? <;> simp [LinePoint.before_iff]

end Number

end EggLang.Numeric
