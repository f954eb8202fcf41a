/-
  EggLang.Proofs.Eval.Indistinct — equal values cannot be told apart by their texts.

  Equality (`equals`) and display (`to_display`) look at values each in its own way: the one
  compares places on the number line, the other writes integers digit by digit and other doubles by
  their shortest digits. They agree because a double at the place of an integer is written as that
  integer (`integer?_of_point?`), and because no two doubles share a place but the two zeros
  (`eq_or_zero_of_point?`). Closures that are equal have one identity, and among the closures that
  operations have led to only one has it.

  - `displayNumber_congr`, `Same.display_eq`: values that are the same are displayed alike, faults
    included.
  - `equal_values_shown_alike`: so `+` and `print` cannot tell equal values apart, in every state
    that comes about.
-/

import EggLang.Proofs.Eval.Reachable
import EggLang.Proofs.Value.Equality

namespace EggLang

open EggLang.Numeric

namespace Numeric.Binary64

/-! ## Numbers -/

theorem unitsPerOne_ne_zero : unitsPerOne ≠ 0 := Nat.ne_of_gt (twoPow_pos 1074)

theorem signed_mul (s : Bool) (k u : Nat) : signed s (k * u) = signed s k * u := by
  cases s <;> simp [signed]

/-- A double at the place of an integer is that integer. -/
theorem integer?_of_point? {x : Binary64} {n : Int}
    (h : (Number.float x).point? = some (.units (n * unitsPerOne))) : x.integer? = some n := by
  have hpos := unitsPerOne_ne_zero
  cases x with
  | finite s p =>
    have hplace : signed s (unitsOf p) = n * unitsPerOne := LinePoint.units.inj (Option.some.inj h)
    have hunits : unitsOf p = n.natAbs * unitsPerOne := by
      rw [← natAbs_signed s (unitsOf p), hplace, Int.natAbs_mul, Int.natAbs_natCast]
    have hsign : signed s n.natAbs = n := by
      rw [hunits, signed_mul] at hplace
      exact Int.eq_of_mul_eq_mul_right (Int.natCast_ne_zero.mpr hpos) hplace
    rw [integer?, hunits, if_pos (Nat.mul_mod_left _ _), Nat.mul_div_cancel _ (Nat.pos_of_ne_zero hpos), hsign]
  | infinite s => cases s <;> cases h
  | nan => cases h

theorem signed_eq_signed {s t : Bool} {u v : Nat} (h : signed s u = signed t v) : u = v ∧ (s = t ∨ u = 0) := by
  cases s <;> cases t <;> simp [signed] at h ⊢ <;> omega

/-- Two doubles at one place are the same, or are both zero. -/
theorem eq_or_zero_of_point? {x y : Binary64} {p : LinePoint} (hx : (Number.float x).point? = some p)
    (hy : (Number.float y).point? = some p) : x = y ∨ x.integer? = some 0 ∧ y.integer? = some 0 := by
  have hplace := hx.trans hy.symm
  cases x with
  | finite s q =>
    cases y with
    | finite t r =>
      have hzero : ∀ {s : Bool} {q : Fin finitePatterns}, unitsOf q = 0 → (finite s q).integer? = some 0 := by
        intro s q h
        cases s <;> simp [integer?, h, signed]
      -- one pattern, and one sign too unless it counts no units
      obtain ⟨hunits, hsign | hnone⟩ := signed_eq_signed (LinePoint.units.inj (Option.some.inj hplace))
      · rw [hsign, Fin.ext (unitsOf_inj.mp hunits)]
        exact .inl rfl
      · exact .inr ⟨hzero hnone, hzero (hunits ▸ hnone)⟩
    | infinite t => cases t <;> cases hplace
    | nan => cases hplace
  | infinite s =>
    cases y with
    | finite t r => cases s <;> cases hplace
    | infinite t =>
      cases s <;> cases t
      · exact .inl rfl
      · cases hplace
      · cases hplace
      · exact .inl rfl
    | nan => cases hplace
  | nan => cases hx

end Numeric.Binary64

theorem displayNumber_congr {m n : Number} (h : m.equal n = true) : displayNumber m = displayNumber n := by
  obtain ⟨p, hm, hn⟩ := (Number.equal_iff_point? m n).mp h
  cases m with
  | int i =>
    cases hm
    cases n with
    | int j =>
      have hpos := Int.natCast_ne_zero.mpr Binary64.unitsPerOne_ne_zero
      rw [Int.eq_of_mul_eq_mul_right hpos (LinePoint.units.inj (Option.some.inj hn))]
    | float y => simp only [displayNumber, Binary64.integer?_of_point? hn]
  | float x =>
    cases n with
    | int j =>
      cases hn
      simp only [displayNumber, Binary64.integer?_of_point? hm]
    | float y =>
      rcases Binary64.eq_or_zero_of_point? hm hn with rfl | ⟨hx, hy⟩
      · rfl
      · simp only [displayNumber, hx, hy]

namespace Value

/-! ## Values -/

theorem Same.asItem_eq {v w : Value} (h : Same v w) (shown : String) : v.asItem shown = w.asItem shown := by
  cases h <;> rfl

mutual

/-- Values that are the same are displayed alike, where closures of one identity are. -/
theorem Same.display_eq (depth : Nat) : ∀ {v w : Value}, Same v w →
    (∀ c ∈ v.closures, ∀ d ∈ w.closures, c.identity = d.identity → c = d) → v.display depth = w.display depth
  | _, _, .number h, _ => by
    simp only [display, displayNumber_congr h]
  | _, _, .array hs, hclosures => by
    simp only [closures] at hclosures
    simp only [display, AllSame.displayItems_eq (depth - 4) hs hclosures]
  | _, _, .closure h, hclosures => by
    simp only [closures, List.mem_singleton] at hclosures
    rw [hclosures _ rfl _ rfl h]
  | _, _, .text _, _ | _, _, .flag _, _ | _, _, .builtin _, _ => rfl

theorem AllSame.displayItems_eq (depth : Nat) : ∀ {xs ys : List Value}, AllSame xs ys →
    (∀ c ∈ allClosures xs, ∀ d ∈ allClosures ys, c.identity = d.identity → c = d) →
      displayItems depth xs = displayItems depth ys
  | _, _, .nil, _ => rfl
  | _, _, .cons hx hs, hclosures => by
    simp only [allClosures, List.mem_append] at hclosures
    have hfirst := Same.display_eq depth hx fun c hc d hd => hclosures c (.inl hc) d (.inl hd)
    have hothers := AllSame.displayItems_eq depth hs fun c hc d hd => hclosures c (.inr hc) d (.inr hd)
    simp only [displayItems, hfirst, hothers, hx.asItem_eq]

end

end Value

namespace Eval

open EggLang.Program EggLang.Value

/-- Equal values have one text, or one fault in place of it, so joining them to a text and printing
    them come to the same; this is about the values that can be made of the closures of any state
    that operations have led to. -/
theorem equal_values_shown_alike {σ : State} (hσ : Reachable σ) {a b : Value} (ha : ∀ c ∈ a.closures, c ∈ σ.closures)
    (hb : ∀ c ∈ b.closures, c ∈ σ.closures) {depth : Nat} (h : a.equal depth b = .ok true) (depth' : Nat) :
    a.display depth' = b.display depth' ∧
    (∀ s : String, Arithmetic.add.apply depth' a (.text s) = Arithmetic.add.apply depth' b (.text s) ∧
      Arithmetic.add.apply depth' (.text s) a = Arithmetic.add.apply depth' (.text s) b) ∧
    discard (Builtin.print.call depth' [a]) = discard (Builtin.print.call depth' [b]) := by
  obtain ⟨w, hw⟩ := hσ.accounted
  have hdisplay : a.display depth' = b.display depth' :=
    (same_of_equal h).display_eq depth' fun c hc d hd => hw.eq_of_identity (ha c hc) (hb d hd)
  refine ⟨hdisplay, fun s => ⟨?_, ?_⟩, ?_⟩
  · rw [arithmetic_eq, arithmetic_eq, if_pos ⟨rfl, .inr rfl⟩, if_pos ⟨rfl, .inr rfl⟩, Arithmetic.join, hdisplay]
    rfl
  · rw [arithmetic_eq, arithmetic_eq, if_pos ⟨rfl, .inl rfl⟩, if_pos ⟨rfl, .inl rfl⟩, Arithmetic.join, hdisplay]
    rfl
  · funext s
    simp only [Builtin.call, hdisplay]
    cases b.display depth' <;> rfl

/-- The function that gives its argument back, made in the first frame. -/
def givingFunction : Closure := ⟨0, ["x"], .word "x", 0⟩

def givingState : State := State.empty |>.perform .new |>.perform (.close ["x"] (.word "x") 0)

def arrayOfIntegers : Value := .array [.int (twoPow 60), .array [.int 0], .closure givingFunction]

def arrayOfDoubles : Value :=
  .array [.number (.float (.ofBits 0x43B0000000000000)), .array [.number (.float (.zero true))],
    .closure givingFunction]

theorem arrays_shown_alike :
    arrayOfIntegers.equal 9 arrayOfDoubles = .ok true ∧ arrayOfIntegers.display 9 = arrayOfDoubles.display 9 ∧
      arrayOfIntegers.display 9 = .ok "[1152921504606846976, [0], fun(x)]" := by
  have hreachable : Reachable givingState := by
    unfold givingState
    refine .step _ (.step _ .start ?_) ?_ <;> decide +kernel
  have hequal : arrayOfIntegers.equal 9 arrayOfDoubles = .ok true := by decide +kernel
  refine ⟨hequal, ?_, by decide +kernel⟩
  exact (equal_values_shown_alike hreachable (by decide +kernel) (by decide +kernel) hequal 9).1

end Eval

end EggLang
