/-
  EggLang.Proofs.Value.Arithmetic — when `add`, `sub`, `mul` and `div` fail.

  `+` joins the displays of its operands where one of them is a text, and fails as these displays
  do. Other operands that are not both numbers are a fault that shows them, or the fault of showing
  them. Between numbers there are two faults. A divisor that is zero, of either kind and sign, is
  one. Being out of range is the other: it is a matter of rounding past the largest double, which
  happens to an integer beside a double, or to the quotient of two integers that is not an integer
  itself, from 2^1024 - 2^970 on. Doubles among themselves never fail, and integers are exact.

  - `onNumbers_integer_double`, `onNumbers_double_integer`, `onNumbers_doubles`: operations with a
    double.
  - `onNumbers_quotient_exact`, `onNumbers_quotient_rounded`: the quotient of two integers.
  - `arithmetic_outcomes`: what the four operations come to, for all values.
-/

import EggLang.Proofs.Value.Alike
import EggLang.Proofs.Value.Shown

namespace EggLang

open EggLang.Numeric EggLang.Value

theorem Numeric.Number.isZero_iff (n : Number) : n.isZero = true ↔ n = .int 0 ∨ ∃ s, n = .float (.zero s) := by
  cases n with
  | int n => simp [Number.isZero]
  | float x =>
    cases x with
    | finite s p =>
      have hzero : p.val = 0 ↔ ∃ t, Binary64.finite s p = .zero t := by
        simp [Binary64.zero, Fin.ext_iff]
      simp [Number.isZero, Binary64.isZero, hzero]
    | infinite s => simp [Number.isZero, Binary64.isZero, Binary64.zero]
    | nan => simp [Number.isZero, Binary64.isZero, Binary64.zero]

theorem Numeric.Number.isZero_integer {n : Int} (h : n ≠ 0) : (Number.int n).isZero = false := by
  simp [Number.isZero, h]

/-- A double comes out, unless the result is out of range. -/
inductive DoubleUnless (past : Prop) (f : Fault) : Except Stop Value → Prop
  | past : past → DoubleUnless past f (fail f)
  | double (x : Binary64) : ¬ past → DoubleUnless past f (.ok (.number (.float x)))

theorem DoubleUnless.eq_fail {past : Prop} {f : Fault} {r : Except Stop Value} (h : DoubleUnless past f r)
    (hpast : past) : r = fail f := by
  cases h with
  | past => rfl
  | double x hwithin => exact absurd hpast hwithin

theorem DoubleUnless.eq_double {past : Prop} {f : Fault} {r : Except Stop Value} (h : DoubleUnless past f r)
    (hwithin : ¬ past) : ∃ x, r = .ok (.number (.float x)) := by
  cases h with
  | past hpast => exact absurd hpast hwithin
  | double x => exact ⟨x, rfl⟩

namespace Arithmetic

def rounded : Arithmetic → Binary64 → Binary64 → Binary64
  | .add => Binary64.add
  | .sub => Binary64.sub
  | .mul => Binary64.mul
  | .div => Binary64.div

theorem apply_numbers (op : Arithmetic) (depth : Nat) (m n : Number) :
    op.apply depth (.number m) (.number n) = op.onNumbers m n := by
  cases op <;> rfl

/-! ## Division by zero -/

theorem onNumbers_eq_divisionByZero_iff (op : Arithmetic) (m n : Number) :
    op.onNumbers m n = fail .divisionByZero ↔ op = .div ∧ n.isZero = true := by
  unfold onNumbers
  by_cases h : op = .div ∧ n.isZero = true
  · simp [h]
  · rw [if_neg h]
    cases op.compute m n <;> simp [h]

theorem onNumbers_of_ne_zero {op : Arithmetic} {n : Number} (h : op = .div → n.isZero = false) (m : Number) :
    op.onNumbers m n =
      match op.compute m n with
      | .ok r => .ok (.number r)
      | .error cause => fail (.outOfRange op cause) := by
  have hne : ¬ (op = .div ∧ n.isZero = true) := by
    rintro ⟨hop, hzero⟩
    rw [h hop] at hzero
    cases hzero
  unfold onNumbers
  exact if_neg hne

/-! ## Doubles -/

/-- An integer is rounded to a double, or is out of range. -/
theorem toBinary64_of_integer {a : Number} {n : Int} (ha : a = .int n) :
    a.toBinary64 = .error .integer ∧ outOfRangeFrom ≤ n.natAbs ∨
      ∃ x, a.toBinary64 = .ok x ∧ ¬ outOfRangeFrom ≤ n.natAbs := by
  have hrange := Binary64.ofInt?_eq_none_iff n
  -- `a` is kept apart from the integer until the cases are split: rounding an integer that is in place gets evaluated
  fun_cases Number.toBinary64 a with
  | case1 m x hx =>
    cases ha
    refine .inr ⟨x, rfl, ?_⟩
    rw [← hrange, hx]
    simp
  | case2 m hx =>
    cases ha
    exact .inl ⟨rfl, hrange.mp hx⟩
  | case3 x => cases ha

/-- With a double on either side, the operation is the one on doubles. -/
theorem compute_rounded (op : Arithmetic) {a b : Number} (h : ∀ m n, a = .int m → b ≠ .int n) :
    op.compute a b = (do return .float (op.rounded (← a.toBinary64) (← b.toBinary64))) := by
  cases a with
  | int m =>
    cases b with
    | int n => exact absurd rfl (h m n rfl)
    | float y =>
      cases op <;> simp only [compute, Number.add, Number.sub, Number.mul, Number.div, Number.combine, rounded]
  | float x =>
    cases op <;> simp only [compute, Number.add, Number.sub, Number.mul, Number.div, Number.combine, rounded]

theorem onNumbers_integer_double {op : Arithmetic} {x : Binary64} (hx : op = .div → x.isZero = false) (n : Int) :
    DoubleUnless (outOfRangeFrom ≤ n.natAbs) (.outOfRange op .integer) (op.onNumbers (.int n) (.float x)) := by
  rw [onNumbers_of_ne_zero hx, compute_rounded op (by simp)]
  rcases toBinary64_of_integer (n := n) rfl with ⟨hn, hpast⟩ | ⟨y, hn, hwithin⟩
  · rw [hn]
    exact .past hpast
  · rw [hn]
    exact .double _ hwithin

theorem onNumbers_double_integer {op : Arithmetic} {n : Int} (hn : op = .div → n ≠ 0) (x : Binary64) :
    DoubleUnless (outOfRangeFrom ≤ n.natAbs) (.outOfRange op .integer) (op.onNumbers (.float x) (.int n)) := by
  rw [onNumbers_of_ne_zero (fun hop => Number.isZero_integer (hn hop)), compute_rounded op (by simp)]
  rcases toBinary64_of_integer (n := n) rfl with ⟨hn, hpast⟩ | ⟨y, hn, hwithin⟩
  · rw [hn]
    exact .past hpast
  · rw [hn]
    exact .double _ hwithin

theorem onNumbers_doubles {op : Arithmetic} {y : Binary64} (hy : op = .div → y.isZero = false) (x : Binary64) :
    op.onNumbers (.float x) (.float y) = .ok (.number (.float (op.rounded x y))) := by
  rw [onNumbers_of_ne_zero hy, compute_rounded op (by simp)]
  rfl

/-! ## Quotients of integers -/

theorem div_integers (a b : Int) :
    Number.div (.int a) (.int b) =
      if a % b = 0 then .ok (.int (a / b))
      else
        match Binary64.ofQuotient? a b with
        | some x => .ok (.float x)
        | none => .error .quotient := by
  delta Number.div
  -- a rounding that is left in place here gets evaluated
  generalize Binary64.ofQuotient? = nearest?
  rfl

theorem onNumbers_quotient_exact {a b : Int} (hb : b ≠ 0) (h : b ∣ a) :
    ∃ q, a = b * q ∧ div.onNumbers (.int a) (.int b) = .ok (.int q) := by
  obtain ⟨q, rfl⟩ := h
  have hquotient : div.compute (.int (b * q)) (.int b) = .ok (.int q) := by
    rw [compute, div_integers, if_pos (Int.mul_emod_right b q), Int.mul_ediv_cancel_left q hb]
  refine ⟨q, rfl, ?_⟩
  rw [onNumbers_of_ne_zero (fun _ => Number.isZero_integer hb), hquotient]
  rfl

theorem onNumbers_quotient_rounded {a b : Int} (hb : b ≠ 0) (h : ¬ b ∣ a) :
    DoubleUnless (outOfRangeFrom * b.natAbs ≤ a.natAbs) (.outOfRange .div .quotient)
      (div.onNumbers (.int a) (.int b)) := by
  have hrange := Binary64.ofQuotient?_eq_none_iff a hb
  rw [onNumbers_of_ne_zero (fun _ => Number.isZero_integer hb), compute, div_integers,
    if_neg (fun hmod => h (Int.dvd_of_emod_eq_zero hmod))]
  cases hq : Binary64.ofQuotient? a b with
  | none => exact .past (hrange.mp hq)
  | some x =>
    refine .double x ?_
    rw [← hrange, hq]
    simp

/-! ## All values -/

/-- What the four operations come to. `+` with a text joins the displays of its operands, or fails
    as the first of them that cannot be displayed. Other operands that are not both numbers are a
    fault that shows them, or the fault of the first that cannot be shown. A number divided by zero
    is a fault. Apart from that, an integer beside a double is out of range where it rounds past the
    largest double, and two doubles give a double. Sums, differences and products of integers are
    exact, and so is a quotient where the divisor divides; any other quotient is a double, or out of
    range where it rounds past the largest. -/
theorem arithmetic_outcomes (depth : Nat) :
    (∀ a b : Value, a.isText ∨ b.isText →
      ShownBoth depth a b (fun left right => .ok (.text (left ++ right))) (add.apply depth a b)) ∧
    (∀ (op : Arithmetic) (a b : Value), ¬ (op = .add ∧ (a.isText ∨ b.isText)) → a.number? = none ∨ b.number? = none →
      ShownBoth depth a b (fun left right => fail (.notNumbers op left right)) (op.apply depth a b)) ∧
    (∀ m n : Number, div.apply depth (.number m) (.number n) = fail .divisionByZero ↔
      n = .int 0 ∨ ∃ s, n = .float (.zero s)) ∧
    (∀ (op : Arithmetic) (n : Int) (x : Binary64),
      ((op = .div → ∀ s, x ≠ .zero s) →
        DoubleUnless (outOfRangeFrom ≤ n.natAbs) (.outOfRange op .integer)
          (op.apply depth (.int n) (.number (.float x)))) ∧
      ((op = .div → n ≠ 0) →
        DoubleUnless (outOfRangeFrom ≤ n.natAbs) (.outOfRange op .integer)
          (op.apply depth (.number (.float x)) (.int n)))) ∧
    (∀ (op : Arithmetic) (x y : Binary64), (op = .div → ∀ s, y ≠ .zero s) →
      ∃ z, op.apply depth (.number (.float x)) (.number (.float y)) = .ok (.number (.float z))) ∧
    (∀ a b : Int, add.apply depth (.int a) (.int b) = .ok (.int (a + b)) ∧
      sub.apply depth (.int a) (.int b) = .ok (.int (a - b)) ∧
      mul.apply depth (.int a) (.int b) = .ok (.int (a * b))) ∧
    (∀ a b : Int, b ≠ 0 →
      (b ∣ a → ∃ q, a = b * q ∧ div.apply depth (.int a) (.int b) = .ok (.int q)) ∧
      (¬ b ∣ a → DoubleUnless (outOfRangeFrom * b.natAbs ≤ a.natAbs) (.outOfRange .div .quotient)
        (div.apply depth (.int a) (.int b)))) := by
  have hzero : ∀ {x : Binary64}, (∀ s, x ≠ .zero s) → x.isZero = false := by
    intro x hx
    have hiff := Number.isZero_iff (.float x)
    simpa [Number.isZero, hx] using hiff
  refine ⟨?_, ?_, ?_, ?_, ?_, ?_, ?_⟩
  · intro a b htext
    rw [arithmetic_eq, if_pos ⟨rfl, htext⟩]
    exact shownBoth depth a b _
  · intro op a b htext hnumber
    have hothers : op.apply depth a b = op.onOthers depth a b := by
      rw [arithmetic_eq, if_neg htext]
      rcases hnumber with h | h
      · rw [h]
      · cases a.number? <;> rw [h]
    rw [hothers]
    exact shownBoth depth a b _
  · intro m n
    rw [apply_numbers, onNumbers_eq_divisionByZero_iff, ← Number.isZero_iff]
    simp
  · intro op n x
    refine ⟨fun hx => ?_, fun hn => ?_⟩
    · exact apply_numbers op depth _ _ ▸ onNumbers_integer_double (fun hop => hzero (hx hop)) n
    · exact apply_numbers op depth _ _ ▸ onNumbers_double_integer hn x
  · intro op x y hy
    exact ⟨_, (apply_numbers op depth _ _).trans (onNumbers_doubles (fun hop => hzero (hy hop)) x)⟩
  · intro a b
    exact ⟨rfl, rfl, rfl⟩
  · intro a b hb
    refine ⟨fun h => ?_, fun h => ?_⟩
    · exact apply_numbers .div depth _ _ ▸ onNumbers_quotient_exact hb h
    · exact apply_numbers .div depth _ _ ▸ onNumbers_quotient_rounded hb h

/-- The least integers that are out of range and the largest that are not, beside a double and in a
    quotient; and a difference of an array and a text, where the integer in the array is too long to
    be shown. -/
theorem arithmetic_at_limits :
    add.apply 9 (.int outOfRangeFrom) (.number (.float (.zero true))) = fail (.outOfRange .add .integer) ∧
    (∃ x, mul.apply 9 (.number (.float .nan)) (.int (1 - outOfRangeFrom)) = .ok (.number (.float x))) ∧
    div.apply 9 (.int (-3 * outOfRangeFrom - 1)) (.int 3) = fail (.outOfRange .div .quotient) ∧
    (∃ q, (3 * outOfRangeFrom : Int) = 3 * q ∧ div.apply 9 (.int (3 * outOfRangeFrom)) (.int 3) = .ok (.int q)) ∧
    sub.apply 9 (.array [.flag true, .int (tenPow 4300)]) (.text "a") = fail (.numberTooLong 14285) := by
  obtain ⟨-, hothers, -, hdouble, -, -, hquotient⟩ := arithmetic_outcomes 9
  refine ⟨?_, ?_, ?_, ?_, ?_⟩
  · exact ((hdouble .add outOfRangeFrom (.zero true)).1 nofun).eq_fail (by decide +kernel)
  · exact ((hdouble .mul (1 - outOfRangeFrom) .nan).2 nofun).eq_double (by decide +kernel)
  · exact ((hquotient (-3 * outOfRangeFrom - 1) 3 (by decide)).2 (by decide +kernel)).eq_fail (by decide +kernel)
  · exact (hquotient (3 * outOfRangeFrom) 3 (by decide)).1 ⟨_, rfl⟩
  · have hlong : overlongAmong? [.array [.flag true, .int (tenPow 4300)], .text "a"] = some ↑(tenPow 4300) := by
      decide +kernel
    have hshown := hothers .sub (.array [.flag true, .int (tenPow 4300)]) (.text "a") nofun (.inl rfl)
    generalize sub.apply 9 _ _ = r at hshown
    cases hshown with
    | shown hnone => rw [hnone] at hlong; cases hlong
    | @tooLong n hsome =>
      have hbits : bitLength (tenPow 4300) = 14285 := by decide +kernel
      rw [← Option.some.inj (hlong.symm.trans hsome), Int.natAbs_natCast, hbits]
    | tooDeep hdeep => exact absurd hdeep (by decide)

end Arithmetic

end EggLang
