/-
  EggLang.Proofs.Value.Shown — what the display of values comes to (`to_display`).

  A value can be displayed unless an integer is in it that is too long to be written: the first of
  them from the left, at any depth of its arrays, is the one that is told (`overlong?`). A double is
  never too long. The depth may be used up before such an integer is come to, but only where arrays
  stand inside one another (`DisplayEnds`).

  - `display_ends`: how the display of a value ends.
  - `shownBoth`: what comes of two values that are displayed one after the other, as operators do in
    their messages.
-/

import EggLang.Proofs.Numeric.Range
import EggLang.Proofs.Value.Stops

namespace EggLang

open EggLang.Numeric

namespace Value

mutual

/-- The first integer in a value, from the left, that is too long to be written. -/
def overlong? : Value → Option Int
  | .number (.int n) => if isOverlong n then some n else none
  | .array items => overlongAmong? items
  | _ => none

def overlongAmong? : List Value → Option Int
  | [] => none
  | v :: rest => (overlong? v).or (overlongAmong? rest)

end

/-- A display succeeds where no integer is too long, tells of the first one that is, or is broken
    off for want of depth, which happens only where `deep` holds. -/
inductive DisplayEnds {α : Type} (long : Option Int) (deep : Prop) : Except Stop α → Prop
  | shown (a : α) : long = none → DisplayEnds long deep (.ok a)
  | tooLong (n : Int) : long = some n → DisplayEnds long deep (fail (.numberTooLong (bitLength n.natAbs)))
  | tooDeep : deep → DisplayEnds long deep (.error .depth)

namespace DisplayEnds

variable {α β : Type} {long long' : Option Int} {deep deep' : Prop}

theorem mono {x : Except Stop α} (h : DisplayEnds long deep x) (hdeep : deep → deep') : DisplayEnds long deep' x := by
  cases h with
  | shown a hnone => exact .shown a hnone
  | tooLong n hsome => exact .tooLong n hsome
  | tooDeep hd => exact .tooDeep (hdeep hd)

/-- Of two displays in a row the first that fails is the one that is told. -/
theorem bind {x : Except Stop α} {f : α → Except Stop β} (h : DisplayEnds long deep x)
    (hf : ∀ a, DisplayEnds long' deep' (f a)) : DisplayEnds (long.or long') (deep ∨ deep') (x >>= f) := by
  cases h with
  | shown a hnone =>
    rw [hnone, Option.none_or]
    exact (hf a).mono .inr
  | tooLong n hsome => exact .tooLong n (by rw [hsome, Option.some_or])
  | tooDeep hd => exact .tooDeep (.inl hd)

theorem map {x : Except Stop α} (f : α → β) (h : DisplayEnds long deep x) :
    DisplayEnds long deep (x >>= fun a => .ok (f a)) := by
  cases h with
  | shown a hnone => exact .shown (f a) hnone
  | tooLong n hsome => exact .tooLong n hsome
  | tooDeep hd => exact .tooDeep hd

theorem within_depth {depth levels : Nat} {x : Except Stop α} (h : DisplayEnds long (depth ≤ 4 * levels) x) :
    DisplayEnds long (depth ≤ 4 * levels) (if depth = 0 then .error .depth else x) := by
  by_cases h0 : depth = 0
  · rw [if_pos h0]
    exact .tooDeep (by omega)
  · rw [if_neg h0]
    exact h

end DisplayEnds

/-! ## Values -/

theorem displayInteger_ends (n : Int) (deep : Prop) :
    DisplayEnds (if isOverlong n then some n else none) deep (displayInteger n) := by
  unfold displayInteger
  by_cases h : isOverlong n
  · rw [if_pos h, if_pos h]
    exact .tooLong n rfl
  · rw [if_neg h, if_neg h]
    exact .shown _ rfl

theorem displayFloat_ends (x : Binary64) (deep : Prop) : DisplayEnds none deep (displayNumber (.float x)) := by
  simp only [displayNumber]
  cases h : x.integer? with
  | none => exact .shown _ rfl
  | some n =>
    have hends := displayInteger_ends n deep
    rwa [isOverlong_integer? h] at hends

mutual

theorem display_ends (depth : Nat) :
    ∀ v : Value, DisplayEnds v.overlong? (depth ≤ 4 * v.nesting) (v.display depth)
  | .number (.int n) => by
    unfold display overlong?
    exact .within_depth (displayInteger_ends n _)
  | .number (.float x) => by
    unfold display overlong?
    exact .within_depth (displayFloat_ends x _)
  | .array items => by
    unfold display overlong? nesting
    exact .within_depth (((displayItems_ends (depth - 4) items).map _).mono (by omega))
  | .text _ | .flag _ | .closure _ | .builtin _ => by
    unfold display overlong?
    exact .within_depth (.shown _ rfl)

theorem displayItems_ends (depth : Nat) :
    ∀ items : List Value, DisplayEnds (overlongAmong? items) (depth ≤ 4 * nestingAll items) (displayItems depth items)
  | [] => by
    unfold displayItems overlongAmong?
    exact .shown [] rfl
  | v :: rest => by
    unfold displayItems overlongAmong? nestingAll
    refine ((display_ends depth v).bind fun first => (displayItems_ends depth rest).map _).mono ?_
    omega

end

/-! ## Two values -/

/-- Two values are displayed one after the other and something is made of their texts, unless one of
    them cannot be displayed: the first integer in them that is too long is told, or they are nested
    too deep for the depth. -/
inductive ShownBoth (depth : Nat) (a b : Value) (made : String → String → Except Stop Value) : Except Stop Value → Prop
  | shown {left right : String} : overlongAmong? [a, b] = none → a.display depth = .ok left →
      b.display depth = .ok right → ShownBoth depth a b made (made left right)
  | tooLong {n : Int} : overlongAmong? [a, b] = some n →
      ShownBoth depth a b made (fail (.numberTooLong (bitLength n.natAbs)))
  | tooDeep : depth ≤ 4 * max a.nesting b.nesting → ShownBoth depth a b made (.error .depth)

theorem overlongAmong?_pair (a b : Value) : overlongAmong? [a, b] = a.overlong?.or b.overlong? := by
  simp only [overlongAmong?, Option.or_none]

theorem shownBoth (depth : Nat) (a b : Value) (made : String → String → Except Stop Value) :
    ShownBoth depth a b made (do let left ← a.display depth; let right ← b.display depth; made left right) := by
  have hlong := overlongAmong?_pair a b
  have hleft := display_ends depth a
  have hright := display_ends depth b
  cases hl : a.display depth with
  | ok left =>
    rw [hl] at hleft
    cases hleft with
    | shown _ hnone =>
      rw [hnone, Option.none_or] at hlong
      cases hr : b.display depth with
      | ok right =>
        rw [hr] at hright
        cases hright with
        | shown _ hnone' => exact .shown (hlong.trans hnone') hl hr
      | error stop =>
        rw [hr] at hright
        cases hright with
        | tooLong n hsome => exact .tooLong (hlong.trans hsome)
        | tooDeep hdeep => exact .tooDeep (by omega)
  | error stop =>
    rw [hl] at hleft
    cases hleft with
    | tooLong n hsome => exact .tooLong (hlong.trans (by rw [hsome, Option.some_or]))
    | tooDeep hdeep => exact .tooDeep (by omega)

end Value

end EggLang
