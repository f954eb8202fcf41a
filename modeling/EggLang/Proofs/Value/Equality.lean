/-
  EggLang.Proofs.Value.Equality — the laws of equality (`equals`).

  Values are the same when they have one shape, and where it ends they hold numbers that stand for
  the same, the same text, flag or builtin, or closures of one identity (`Same`). Equality finds out
  whether they are, given depth enough. So it is symmetric and transitive, and every value equals
  itself but for those that hold what is not a number somewhere inside (`part?`).

  - `same_of_equal`, `equal_iff_same`: equality answers yes for values that are the same, and for no
    others.
  - `equal_comm`, `equal_congr`: the order of two values does not matter, nor which of two that are
    the same is taken.
  - `equal_answers`: depth is wanting only where arrays stand inside one another in both values.
  - `equality_laws`: what equality is, for all values.
-/

import EggLang.Proofs.Numeric.Line
import EggLang.Proofs.Value.Stops

namespace EggLang

open EggLang.Numeric

namespace Numeric.Number

theorem equal_comm (m n : Number) : m.equal n = n.equal m := by
  rw [Bool.eq_iff_iff, equal_iff_point?, equal_iff_point?]
  simp only [and_comm]

theorem equal_congr {m n : Number} (h : m.equal n = true) (k : Number) : k.equal m = k.equal n := by
  obtain ⟨p, hm, hn⟩ := (equal_iff_point? m n).mp h
  unfold equal
  rw [hm, hn]

theorem equal_self_iff (n : Number) : n.equal n = true ↔ n ≠ .float .nan := by
  rw [equal_iff_point?]
  cases n with
  | int n => exact iff_of_true ⟨_, rfl, rfl⟩ nofun
  | float x => cases x <;> simp [point?]

end Numeric.Number

namespace Value

/-! ## Parts -/

/-- The part of a value that is found by going down its arrays, from index to index. -/
def part? : Value → List Nat → Option Value
  | v, [] => some v
  | .array items, i :: path => items[i]?.bind (part? · path)
  | _, _ :: _ => none

/-! ## Being the same -/

mutual

inductive Same : Value → Value → Prop
  | number {m n : Number} : m.equal n = true → Same (.number m) (.number n)
  | text (s : String) : Same (.text s) (.text s)
  | flag (b : Bool) : Same (.flag b) (.flag b)
  | array {xs ys : List Value} : AllSame xs ys → Same (.array xs) (.array ys)
  | closure {c d : Closure} : c.identity = d.identity → Same (.closure c) (.closure d)
  | builtin (b : Builtin) : Same (.builtin b) (.builtin b)

inductive AllSame : List Value → List Value → Prop
  | nil : AllSame [] []
  | cons {x y : Value} {xs ys : List Value} : Same x y → AllSame xs ys → AllSame (x :: xs) (y :: ys)

end

theorem AllSame.length_eq : ∀ {xs ys : List Value}, AllSame xs ys → xs.length = ys.length
  | _, _, .nil => rfl
  | _, _, .cons _ hs => by rw [List.length_cons, List.length_cons, hs.length_eq]

theorem AllSame.getElem? : ∀ {xs ys : List Value} (i : Nat), AllSame xs ys → Option.Rel Same xs[i]? ys[i]?
  | _, _, _, .nil => .none
  | _, _, 0, .cons hx _ => .some hx
  | _, _, i + 1, .cons _ hs => hs.getElem? i

/-- Values that are the same have the same parts. -/
theorem Same.part? : ∀ {v w : Value} (path : List Nat), Same v w → Option.Rel Same (v.part? path) (w.part? path)
  | _, _, [], h => .some h
  | _, _, i :: path, h => by
    cases h with
    | @array xs ys hs =>
      have hitems := hs.getElem? i
      simp only [Value.part?]
      generalize xs[i]? = x, ys[i]? = y at hitems
      cases hitems with
      | none => exact .none
      | some hitem => exact hitem.part? path
    | _ => exact .none

mutual

theorem same_self : ∀ {v : Value}, (∀ path, v.part? path ≠ some (.number (.float .nan))) → Same v v
  | .number n, h => .number ((Number.equal_self_iff n).mpr fun hn => h [] (by rw [hn]; rfl))
  | .text s, _ => .text s
  | .flag b, _ => .flag b
  | .array items, h => .array (allSame_self fun i item hitem path => by
      have hpath := h (i :: path)
      rwa [part?, hitem] at hpath)
  | .closure _, _ => .closure rfl
  | .builtin b, _ => .builtin b

theorem allSame_self : ∀ {items : List Value},
    (∀ (i : Nat) (item : Value), items[i]? = some item → ∀ path, item.part? path ≠ some (.number (.float .nan))) →
      AllSame items items
  | [], _ => .nil
  | _ :: _, h => .cons (same_self (h 0 _ rfl)) (allSame_self fun i => h (i + 1))

end

/-- What is not a number is the only thing that is not the same as itself. -/
theorem same_self_iff (v : Value) : Same v v ↔ ∀ path, v.part? path ≠ some (.number (.float .nan)) := by
  refine ⟨fun h path hnan => ?_, same_self⟩
  have hpart := h.part? path
  rw [hnan] at hpart
  cases hpart with
  | some hsame =>
    cases hsame with
    | number hequal => exact (Number.equal_self_iff _).mp hequal rfl

/-! ## What equality answers -/

mutual

theorem same_of_equal : ∀ {depth : Nat} {a b : Value}, a.equal depth b = .ok true → Same a b
  | depth, a, b, h => by
    unfold equal at h
    split at h
    · cases h
    · split at h
      · exact .number (Except.ok.inj h)
      · split at h
        · exact .array (allSame_of_equal ‹_› h)
        · cases h
      · exact eq_of_beq (Except.ok.inj h) ▸ .text _
      · exact eq_of_beq (Except.ok.inj h) ▸ .flag _
      · exact .closure (eq_of_beq (Except.ok.inj h))
      · exact eq_of_beq (Except.ok.inj h) ▸ .builtin _
      · cases h

theorem allSame_of_equal : ∀ {depth : Nat} {xs ys : List Value}, xs.length = ys.length →
    equalItems depth xs ys = .ok true → AllSame xs ys
  | _, [], [], _, _ => .nil
  | depth, x :: xs, y :: ys, hlength, h => by
    rw [equalItems] at h
    obtain ⟨same, hx, h⟩ := bind_eq_ok h
    cases same with
    | false => cases h
    | true => exact .cons (same_of_equal hx) (allSame_of_equal (Nat.succ.inj hlength) h)

end

mutual

theorem equal_comm : ∀ (depth : Nat) (a b : Value), a.equal depth b = b.equal depth a
  | depth, .number m, b => by
    cases b <;> simp only [equal]
    rw [Number.equal_comm]
  | depth, .array xs, b => by
    cases b <;> simp only [equal]
    rw [equalItems_comm]
    simp only [eq_comm (a := xs.length)]
  | depth, .text s, b => by
    cases b <;> simp only [equal]
    rw [Bool.beq_comm]
  | depth, .flag p, b => by
    cases b <;> simp only [equal]
    rw [Bool.beq_comm]
  | depth, .closure c, b => by
    cases b <;> simp only [equal]
    rw [Bool.beq_comm]
  | depth, .builtin f, b => by
    cases b <;> simp only [equal]
    rw [Bool.beq_comm]

theorem equalItems_comm : ∀ (depth : Nat) (xs ys : List Value), equalItems depth xs ys = equalItems depth ys xs
  | _, [], ys => by cases ys <;> simp only [equalItems]
  | _, x :: xs, [] => by simp only [equalItems]
  | depth, x :: xs, y :: ys => by
    simp only [equalItems]
    rw [equal_comm depth x y, equalItems_comm depth xs ys]

end

mutual

/-- Which of two values that are the same is compared makes no difference. -/
theorem equal_congr : ∀ (depth : Nat) (a : Value) {b c : Value}, Same b c → a.equal depth b = a.equal depth c
  -- the recursion goes into arrays that stand beside arrays; all other kinds are told apart at once
  | depth, .array xs, _, _, .array hs => by
    simp only [equal]
    rw [hs.length_eq, equalItems_congr (depth - 3) xs hs]
  | depth, a, _, _, .number h => by
    cases a <;> simp only [equal]
    rw [Number.equal_congr h]
  | depth, a, _, _, .closure h => by
    cases a <;> simp only [equal]
    rw [h]
  | _, _, _, _, .text _ | _, _, _, _, .flag _ | _, _, _, _, .builtin _ => rfl
  | depth, .number _, _, _, .array _ | depth, .text _, _, _, .array _ | depth, .flag _, _, _, .array _ 
  | depth, .closure _, _, _, .array _ | depth, .builtin _, _, _, .array _ => by
    simp only [equal]

theorem equalItems_congr : ∀ (depth : Nat) (xs : List Value) {ys zs : List Value}, AllSame ys zs →
    equalItems depth xs ys = equalItems depth xs zs
  | _, _, _, _, .nil => rfl
  | _, [], _, _, .cons _ _ => by simp only [equalItems]
  | depth, x :: xs, _, _, .cons hy hs => by
    simp only [equalItems]
    rw [equal_congr depth x hy, equalItems_congr depth xs hs]

end

mutual

theorem Same.not_unequal : ∀ {depth : Nat} {a b : Value}, Same a b → a.equal depth b ≠ .ok false
  | depth, _, _, .array hs => by
    simp only [equal, if_pos hs.length_eq]
    split
    · simp
    · exact hs.not_unequal
  | depth, _, _, .number h => by
    simp only [equal, h]
    split <;> simp
  | depth, _, _, .closure h => by
    simp only [equal, h]
    split <;> simp
  | depth, _, _, .text s | depth, _, _, .flag s | depth, _, _, .builtin s => by
    simp only [equal]
    split <;> simp

theorem AllSame.not_unequal : ∀ {depth : Nat} {xs ys : List Value}, AllSame xs ys →
    equalItems depth xs ys ≠ .ok false
  | _, _, _, .nil => by simp [equalItems]
  | depth, _, _, .cons hx hs => by
    rw [equalItems]
    intro h
    obtain ⟨same, hsame, h⟩ := bind_eq_ok h
    cases same with
    | false => exact hx.not_unequal hsame
    | true => exact hs.not_unequal h

end

mutual

theorem equal_depth : ∀ {depth : Nat} {a b : Value}, a.equal depth b = .error .depth → depth ≤ 3 * a.nesting
  | depth, a, b, h => by
    unfold equal at h
    split at h
    · omega
    · split at h
      · cases h
      · split at h
        · have hitems := equalItems_depth h
          rw [nesting]
          omega
        · cases h
      all_goals cases h

theorem equalItems_depth : ∀ {depth : Nat} {xs ys : List Value}, equalItems depth xs ys = .error .depth →
    depth ≤ 3 * nestingAll xs
  | depth, x :: xs, y :: ys, h => by
    rw [equalItems] at h
    rw [nestingAll]
    rcases bind_eq_error h with h | ⟨same, _, h⟩
    · have hx := equal_depth h
      omega
    · split at h
      · have hxs := equalItems_depth h
        omega
      · cases h
  | depth, [], ys, h => by
    cases ys <;> simp [equalItems] at h
  | depth, x :: xs, [], h => by
    simp [equalItems] at h

end

/-- There is an answer unless arrays stand inside one another in both values, too many for the
    depth. -/
theorem equal_answers {depth : Nat} {a b : Value} (h : 3 * min a.nesting b.nesting < depth) :
    ∃ r, a.equal depth b = .ok r := by
  cases hab : a.equal depth b with
  | ok r => exact ⟨r, rfl⟩
  | error stop =>
    cases equal_stops hab
    have ha := equal_depth hab
    -- the other value by symmetry, as the depth that is wanting is the same from both sides
    rw [equal_comm] at hab
    have hb := equal_depth hab
    omega

theorem equal_numbers {depth : Nat} (h : 0 < depth) (m n : Number) :
    (number m).equal depth (number n) = .ok (m.equal n) := by
  rw [equal, if_neg (by omega)]

/-- With depth enough, equality finds out whether two values are the same. -/
theorem equal_iff_same {depth : Nat} {a b : Value} (h : 3 * min a.nesting b.nesting < depth) :
    a.equal depth b = .ok true ↔ Same a b := by
  refine ⟨same_of_equal, fun hsame => ?_⟩
  obtain ⟨r, hr⟩ := equal_answers h
  cases r with
  | true => exact hr
  | false => exact absurd hr hsame.not_unequal

theorem equalItems_iff {depth : Nat} : ∀ {xs ys : List Value}, equalItems depth xs ys = .ok true ↔
    ∀ (i : Nat) (x y : Value), xs[i]? = some x → ys[i]? = some y → x.equal depth y = .ok true
  | [], ys => by
    cases ys <;> simp [equalItems]
  | x :: xs, [] => by
    simp [equalItems]
  | x :: xs, y :: ys => by
    rw [equalItems]
    refine ⟨fun h => ?_, fun h => ?_⟩
    · obtain ⟨same, hx, h⟩ := bind_eq_ok h
      cases same with
      | false => cases h
      | true =>
        intro i x' y' hx' hy'
        cases i with
        | zero =>
          cases hx'
          cases hy'
          exact hx
        | succ i => exact equalItems_iff.mp h i x' y' hx' hy'
    · rw [h 0 x y rfl rfl]
      exact equalItems_iff.mpr fun i => h (i + 1)

theorem equal_array_iff {depth : Nat} (h : 0 < depth) (xs : List Value) (b : Value) :
    (array xs).equal depth b = .ok true ↔
      ∃ ys, b = .array ys ∧ xs.length = ys.length ∧
        ∀ (i : Nat) (x y : Value), xs[i]? = some x → ys[i]? = some y → x.equal (depth - 3) y = .ok true := by
  have hpos : depth ≠ 0 := by omega
  cases b with
  | array ys =>
    simp only [equal, if_neg hpos, ← equalItems_iff]
    by_cases hlength : xs.length = ys.length
    · simp [hlength]
    · simp [hlength]
  | _ => simp [equal, hpos]

/-! ## The laws -/

/-- Equality is symmetric, in its failures too, and transitive. It gives an answer where the depth
    is enough for one of the two values, and then a value equals itself unless what is not a number
    is somewhere inside it. Two numbers are equal when they stand for the same real number or
    infinity; a flag and a number never are, wherever they stand in arrays; an array equals the
    arrays of its length with equal items; and functions are told apart by identity. -/
theorem equality_laws (depth : Nat) :
    (∀ a b : Value, a.equal depth b = b.equal depth a) ∧
    (∀ a b c : Value, a.equal depth b = .ok true → b.equal depth c = .ok true → a.equal depth c = .ok true) ∧
    (∀ a b : Value, 3 * min a.nesting b.nesting < depth → ∃ r, a.equal depth b = .ok r) ∧
    (∀ v : Value, 3 * v.nesting < depth →
      (v.equal depth v = .ok true ↔ ∀ path, v.part? path ≠ some (.number (.float .nan)))) ∧
    (∀ m n : Number, 0 < depth →
      ((number m).equal depth (number n) = .ok true ↔ ∃ x : EReal, m.value? = some x ∧ n.value? = some x)) ∧
    (∀ (a b : Value) (path : List Nat) (p : Bool) (n : Number), a.equal depth b = .ok true →
      a.part? path = some (.flag p) → b.part? path ≠ some (.number n)) ∧
    (∀ (xs : List Value) (b : Value), 0 < depth →
      ((array xs).equal depth b = .ok true ↔
        ∃ ys, b = .array ys ∧ xs.length = ys.length ∧
          ∀ (i : Nat) (x y : Value), xs[i]? = some x → ys[i]? = some y → x.equal (depth - 3) y = .ok true)) ∧
    (∀ c d : Closure, 0 < depth → ((closure c).equal depth (closure d) = .ok true ↔ c.identity = d.identity)) ∧
    (∀ f g : Builtin, 0 < depth → ((builtin f).equal depth (builtin g) = .ok true ↔ f = g)) := by
  refine ⟨equal_comm depth, ?_, fun _ _ => equal_answers, ?_, ?_, ?_, fun xs b h => equal_array_iff h xs b, ?_, ?_⟩
  · intro a b c hab hbc
    rw [← equal_congr depth a (same_of_equal hbc), hab]
  · intro v hdepth
    rw [equal_iff_same (by omega), same_self_iff]
  · intro m n hpos
    rw [← Number.equal_iff, equal_numbers hpos, Except.ok.injEq]
  · intro a b path p n hab hflag hnumber
    have hparts := (same_of_equal hab).part? path
    rw [hflag, hnumber] at hparts
    cases hparts with
    | some hsame => cases hsame
  · intro c d hpos
    rw [equal, if_neg (by omega), Except.ok.injEq, beq_iff_eq]
  · intro f g hpos
    rw [equal, if_neg (by omega), Except.ok.injEq, beq_iff_eq]

/-- Two arrays of integers that equal one of doubles are equal, one that holds what is not a number
    does not equal itself, and neither do a flag and the number one inside arrays. -/
theorem equality_of_arrays :
    (array [.int (twoPow 60), .array [.int 0]]).equal 10
      (.array [.int (twoPow 60), .array [.number (.float (.zero false))]]) = .ok true ∧
    (array [.number (.float .nan)]).equal 10 (array [.number (.float .nan)]) ≠ .ok true ∧
    (array [.flag true]).equal 10 (.array [.int 1]) ≠ .ok true := by
  obtain ⟨-, htrans, -, hself, -, hflag, -⟩ := equality_laws 10
  refine ⟨?_, ?_, ?_⟩
  · exact htrans _ (.array [.number (.float (.ofBits 0x43B0000000000000)), .array [.number (.float (.zero true))]]) _
      (by decide +kernel) (by decide +kernel)
  · rw [Ne, hself _ (by decide)]
    exact fun h => h [0] rfl
  · exact fun h => hflag _ _ [0] true (.int 1) h rfl rfl

end Value

end EggLang
