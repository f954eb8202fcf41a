/-
  EggLang.Proofs.Numeric.Range — the range of doubles, and what rounds past its end.

  Patterns number the doubles that are not negative in increasing order (`unitsOf_lt_unitsOf`), so a
  double is told by its units (`unitsOf_inj`), and all of them lie below 2^1024 (`unitsOf_lt`). No
  double is an integer that is too long to be written (`isOverlong_integer?`).

  Rounding takes off as many bits as leave 53 (`shift_spec`) and rounds the rest to the nearest
  whole number, a half to the even one (`lt_roundHalfEven_iff`). What it makes of a number lies past
  the largest double from 2^1024 - 2^970 on (`outOfRangeFrom`): there the largest double and 2^1024
  are equally near, and the pattern of the second is even.

  - `finitePatterns_le_nearestPattern_iff`: the fractions that round past the largest double.
  - `ofInt?_eq_none_iff`, `ofQuotient?_eq_none_iff`: the integers and the quotients that do.
-/

import EggLang.Numeric

namespace EggLang.Numeric

/-! ## Powers of two -/

theorem twoPow_pos (n : Nat) : 0 < twoPow n := Nat.two_pow_pos n

theorem twoPow_add (m n : Nat) : twoPow (m + n) = twoPow m * twoPow n := Nat.pow_add 2 m n

theorem mul_twoPow_add (d m n : Nat) : d * twoPow (m + n) = twoPow m * (d * twoPow n) := by
  rw [twoPow_add, Nat.mul_left_comm]

theorem twoPow_le_twoPow {m n : Nat} (h : m ≤ n) : twoPow m ≤ twoPow n := Nat.pow_le_pow_right (by decide) h

theorem lt_twoPow_bitLength (n : Nat) : n < twoPow (bitLength n) := by
  unfold bitLength
  by_cases h : n = 0
  · simp [h, twoPow]
  · rw [if_neg h]
    exact Nat.lt_log2_self

theorem twoPow_le_of_lt_bitLength {k n : Nat} (h : k < bitLength n) : twoPow k ≤ n := by
  unfold bitLength at h
  by_cases h0 : n = 0
  · simp [h0] at h
  · rw [if_neg h0] at h
    exact Nat.le_trans (twoPow_le_twoPow (by omega)) (Nat.log2_self_le h0)

/-- The bits of a number that is not zero are told by the powers of two that it lies between. -/
theorem bitLength_bounds {n : Nat} (h : n ≠ 0) : twoPow (bitLength n - 1) ≤ n ∧ n < twoPow (bitLength n) := by
  refine ⟨twoPow_le_of_lt_bitLength ?_, lt_twoPow_bitLength n⟩
  simp [bitLength, h]

/-! ## Patterns in order -/

theorem binade_eq : binade = 4503599627370496 := rfl

theorem unitsOf_lt_succ (p : Nat) : unitsOf p < unitsOf (p + 1) := by
  unfold unitsOf
  have hb := binade_eq
  by_cases hlow : p + 1 < binade
  · rw [if_pos (by omega), if_pos hlow]
    omega
  · rw [if_neg hlow]
    by_cases hlast : p < binade
    · -- the step from the last pattern that is its own number of units
      have hp : p + 1 = binade := by omega
      rw [if_pos hlast, hp, Nat.mod_self, Nat.div_self (by omega)]
      simp only [Nat.add_zero, Nat.sub_self, twoPow, Nat.pow_zero, Nat.mul_one, Nat.pow_eq]
      omega
    · rw [if_neg hlast]
      have hdiv := Nat.div_add_mod p binade
      have hmod := Nat.mod_lt p (show 0 < binade by omega)
      have hpos : 1 ≤ p / binade := Nat.div_pos (by omega) (by omega)
      by_cases hcarry : p % binade + 1 < binade
      · have hsame : (p + 1) / binade = p / binade ∧ (p + 1) % binade = p % binade + 1 := by
          rw [Nat.div_mod_unique (by omega)]
          omega
        rw [hsame.1, hsame.2]
        exact Nat.mul_lt_mul_of_pos_right (by omega) (twoPow_pos _)
      · have hnext : (p + 1) / binade = p / binade + 1 ∧ (p + 1) % binade = 0 := by
          rw [Nat.div_mod_unique (by omega), Nat.mul_add]
          omega
        have hdouble : twoPow (p / binade) = 2 * twoPow (p / binade - 1) := by
          rw [show 2 = twoPow 1 from rfl, ← twoPow_add]
          congr 1
          omega
        have hu := twoPow_pos (p / binade - 1)
        rw [hnext.1, hnext.2, Nat.add_sub_cancel, hdouble, Nat.add_zero, ← Nat.mul_assoc]
        exact Nat.mul_lt_mul_of_pos_right (by omega) hu

theorem unitsOf_lt_unitsOf {p q : Nat} (h : p < q) : unitsOf p < unitsOf q := by
  induction h with
  | refl => exact unitsOf_lt_succ p
  | step _ ih => exact Nat.lt_trans ih (unitsOf_lt_succ _)

theorem unitsOf_inj {p q : Nat} : unitsOf p = unitsOf q ↔ p = q := by
  constructor
  · intro h
    rcases Nat.lt_trichotomy p q with hlt | heq | hgt
    · exact absurd h (Nat.ne_of_lt (unitsOf_lt_unitsOf hlt))
    · exact heq
    · exact absurd h.symm (Nat.ne_of_lt (unitsOf_lt_unitsOf hgt))
  · intro h
    rw [h]

/-- All doubles lie below 2^1024. -/
theorem unitsOf_lt {p : Nat} (h : p < finitePatterns) : unitsOf p < twoPow 1024 * unitsPerOne := by
  have hend : unitsOf finitePatterns = twoPow 1024 * unitsPerOne := by
    have hb := binade_eq
    unfold unitsOf
    rw [if_neg (by unfold finitePatterns; omega)]
    simp only [finitePatterns, Nat.mul_mod_left, Nat.mul_div_cancel 2047 (show 0 < binade by omega), Nat.add_zero]
    rw [unitsPerOne, ← twoPow_add, binade, ← twoPow_add]
  rw [← hend]
  exact unitsOf_lt_unitsOf h

theorem natAbs_signed (s : Bool) (u : Nat) : (Binary64.signed s u).natAbs = u := by
  cases s <;> simp [Binary64.signed]

theorem tenPow_pos (n : Nat) : 0 < tenPow n := Nat.pow_pos (by decide)

theorem isOverlong_iff_le {n : Int} : isOverlong n = true ↔ tenPow 4300 ≤ n.natAbs := decide_eq_true_iff

/-- A double that is an integer can be written as one. -/
theorem isOverlong_integer? {x : Binary64} {n : Int} (h : x.integer? = some n) : isOverlong n = false := by
  have hlimit : twoPow 1024 ≤ tenPow digitLimit := by decide +kernel
  cases x with
  | finite s p =>
    simp only [Binary64.integer?] at h
    split at h
    · cases h
      have hlt : unitsOf p / unitsPerOne < twoPow 1024 := Nat.div_lt_of_lt_mul (by
        rw [Nat.mul_comm]
        exact unitsOf_lt p.isLt)
      rw [isOverlong, natAbs_signed]
      exact decide_eq_false (Nat.not_le_of_lt (Nat.lt_of_lt_of_le hlt hlimit))
    · cases h
  | infinite s => cases h
  | nan => cases h

/-! ## Rounding -/

/-- A fraction is rounded to more than `k` when it lies past `k` and a half, or on it and `k` is
    odd. -/
theorem lt_roundHalfEven_iff (k num : Nat) {den : Nat} (hden : 0 < den) :
    k < roundHalfEven num den ↔
      (2 * k + 1) * den < 2 * num ∨ ((2 * k + 1) * den = 2 * num ∧ k % 2 = 1) := by
  have hdiv := Nat.div_add_mod num den
  have hmod := Nat.mod_lt num hden
  unfold roundHalfEven
  simp only
  generalize num / den = q at *
  generalize num % den = r at *
  -- `k` against the whole part: below it, equal to it, above it
  rcases Nat.lt_trichotomy k q with hlt | rfl | hgt
  · have hle : (2 * k + 1) * den + den ≤ 2 * (den * q) := by
      calc (2 * k + 1) * den + den = 2 * (den * (k + 1)) := by grind
        _ ≤ 2 * (den * q) := Nat.mul_le_mul_left 2 (Nat.mul_le_mul_left den hlt)
    constructor
    · intro _
      omega
    · intro _
      split
      · exact hlt
      · split
        · omega
        · split <;> omega
  · have hk : (2 * k + 1) * den = 2 * (den * k) + den := by grind
    split
    · omega
    · split
      · omega
      · split <;> omega
  · have hle : 2 * (den * q) + 2 * den + den ≤ (2 * k + 1) * den := by
      calc 2 * (den * q) + 2 * den + den = 2 * (den * (q + 1)) + den := by grind
        _ ≤ 2 * (den * k) + den := Nat.add_le_add_right (Nat.mul_le_mul_left 2 (Nat.mul_le_mul_left den hgt)) den
        _ = (2 * k + 1) * den := by grind
    constructor
    · intro h
      split at h
      · omega
      · split at h
        · omega
        · split at h <;> omega
    · intro h
      omega

/-- A fraction on the half after an odd number is rounded up. -/
theorem odd_lt_roundHalfEven_iff {k : Nat} (hk : k % 2 = 1) (num : Nat) {den : Nat} (hden : 0 < den) :
    k < roundHalfEven num den ↔ (2 * k + 1) * den ≤ 2 * num := by
  rw [lt_roundHalfEven_iff k num hden, Nat.le_iff_lt_or_eq]
  simp only [hk, and_true]

/-- A fraction on the half after an even number is rounded down. -/
theorem even_lt_roundHalfEven_iff {k : Nat} (hk : k % 2 = 0) (num : Nat) {den : Nat} (hden : 0 < den) :
    k < roundHalfEven num den ↔ (2 * k + 1) * den < 2 * num := by
  rw [lt_roundHalfEven_iff k num hden]
  simp [hk]

def shiftOf (num den : Nat) : Nat := bitLength (num / den) - 53

theorem nearestPattern_eq (num den : Nat) :
    nearestPattern num den = shiftOf num den * binade + roundHalfEven num (den * twoPow (shiftOf num den)) := rfl

/-- When bits are taken off, 53 are left. -/
theorem shift_spec (num : Nat) {den : Nat} (hden : 0 < den) :
    num < 9007199254740992 * (den * twoPow (shiftOf num den)) ∧
      (shiftOf num den = 0 ∨ 4503599627370496 * (den * twoPow (shiftOf num den)) ≤ num) := by
  have hupper := lt_twoPow_bitLength (num / den)
  unfold shiftOf
  constructor
  · have hle : twoPow (bitLength (num / den)) ≤ twoPow (53 + (bitLength (num / den) - 53)) :=
      twoPow_le_twoPow (by omega)
    rw [twoPow_add] at hle
    have hlt := (Nat.div_lt_iff_lt_mul hden).mp (Nat.lt_of_lt_of_le hupper hle)
    rw [show twoPow 53 = 9007199254740992 from rfl] at hlt
    grind
  · by_cases hshort : bitLength (num / den) ≤ 53
    · exact .inl (by omega)
    · right
      have hlower : twoPow (52 + (bitLength (num / den) - 53)) ≤ num / den := twoPow_le_of_lt_bitLength (by omega)
      rw [twoPow_add, show twoPow 52 = 4503599627370496 from rfl, Nat.le_div_iff_mul_le hden] at hlower
      grind

/-- The least magnitude that rounds to 2^1024. -/
def outOfRangeFrom : Nat := twoPow 1024 - twoPow 970

theorem outOfRangeFrom_mul_unitsPerOne : outOfRangeFrom * unitsPerOne = 18014398509481983 * twoPow 2044 := by
  have hunits : twoPow 2044 = twoPow 970 * twoPow 1074 := twoPow_add 970 1074
  have hfrom : outOfRangeFrom = 18014398509481983 * twoPow 970 := by
    have hadd : twoPow 1024 = twoPow 54 * twoPow 970 := twoPow_add 54 970
    rw [outOfRangeFrom, hadd, show twoPow 54 = 18014398509481984 from rfl]
    generalize twoPow 970 = u
    omega
  rw [hfrom, unitsPerOne, hunits, Nat.mul_assoc]

/-- A number of 53 bits, the last of them standing for `unit`, is rounded past the largest pattern
    where it is at least so much of `highest`, the half of the last bit where doubles end. -/
theorem pastLargest_iff {num unit highest shift : Nat} (hunit : 0 < unit) (hupper : num < 9007199254740992 * unit)
    (hlower : shift = 0 ∨ 4503599627370496 * unit ≤ num) (hbelow : shift < 2045 → unit ≤ highest)
    (hend : shift = 2045 → unit = 2 * highest) (habove : 2045 < shift → 4 * highest ≤ unit) :
    finitePatterns ≤ shift * binade + roundHalfEven num unit ↔ 18014398509481983 * highest ≤ num := by
  have hmost : ¬ 9007199254740992 < roundHalfEven num unit := by
    rw [even_lt_roundHalfEven_iff (by decide) num hunit]
    omega
  rw [finitePatterns, binade_eq]
  rcases Nat.lt_trichotomy shift 2045 with hlt | heq | hgt
  · have hscale := hbelow hlt
    omega
  · have hscale := hend heq
    have hcarry := odd_lt_roundHalfEven_iff (k := 9007199254740991) (by decide) num hunit
    omega
  · have hscale := habove hgt
    have hnum := hlower.resolve_left (by omega)
    have hleast := odd_lt_roundHalfEven_iff (k := 4503599627370495) (by decide) num hunit
    omega

/-- The fractions that round past the largest double. -/
theorem finitePatterns_le_nearestPattern_iff (num : Nat) {den : Nat} (hden : 0 < den) :
    finitePatterns ≤ nearestPattern num den ↔ outOfRangeFrom * unitsPerOne * den ≤ num := by
  obtain ⟨hupper, hlower⟩ := shift_spec num hden
  have hunit : 0 < den * twoPow (shiftOf num den) := Nat.mul_pos hden (twoPow_pos _)
  have hthreshold : outOfRangeFrom * unitsPerOne * den = 18014398509481983 * (den * twoPow 2044) := by
    rw [outOfRangeFrom_mul_unitsPerOne, Nat.mul_assoc, Nat.mul_comm den]
  rw [nearestPattern_eq, hthreshold]
  refine pastLargest_iff hunit hupper hlower ?_ ?_ ?_
  · intro hlt
    exact Nat.mul_le_mul_left den (twoPow_le_twoPow (Nat.le_of_lt_succ hlt))
  · intro heq
    rw [heq]
    exact mul_twoPow_add den 1 2044
  · intro hgt
    exact Nat.le_trans (Nat.le_of_eq (mul_twoPow_add den 2 2044).symm) (Nat.mul_le_mul_left den (twoPow_le_twoPow hgt))

namespace Binary64

theorem nearest?_eq_none_iff (s : Bool) (num : Nat) {den : Nat} (hden : 0 < den) :
    nearest? s num den = none ↔ outOfRangeFrom * unitsPerOne * den ≤ num := by
  rw [← finitePatterns_le_nearestPattern_iff num hden]
  unfold nearest?
  by_cases h : nearestPattern num den < finitePatterns
  · simp [h]
  · simp [h, Nat.le_of_not_lt h]

/-- The integers that round past the largest double. -/
theorem ofInt?_eq_none_iff (n : Int) : ofInt? n = none ↔ outOfRangeFrom ≤ n.natAbs := by
  rw [ofInt?, nearest?_eq_none_iff _ _ Nat.one_pos, Nat.mul_one]
  exact Nat.mul_le_mul_right_iff (twoPow_pos 1074)

/-- The quotients that do. -/
theorem ofQuotient?_eq_none_iff (a : Int) {b : Int} (hb : b ≠ 0) :
    ofQuotient? a b = none ↔ outOfRangeFrom * b.natAbs ≤ a.natAbs := by
  rw [ofQuotient?, nearest?_eq_none_iff _ _ (Int.natAbs_pos.mpr hb), Nat.mul_right_comm]
  exact Nat.mul_le_mul_right_iff (twoPow_pos 1074)

end Binary64

end EggLang.Numeric
