/-
  EggLang.Proofs.Value.Stops — why an operation on values can stop.

  The display of a value stops when its depth is used up, which only arrays inside one another can
  bring about, or at an integer that is too long (`display_stops`, `display_depth`). Equality stops
  only for want of depth. The operators stop with faults of their own that show their operands, or
  with what the display of an operand stops with. All of these are told by values alone
  (`Stop.ofValues`): none of them speaks of a name or of an expression.

  One operation is different: the message about an index out of range writes the index as it is, so
  an index that is too long makes the message impossible (`element_stops`, `element_overlong`).
-/

import EggLang.Proofs.Outcome
import EggLang.Value.Operators

namespace EggLang

open EggLang.Numeric

/-- The reasons for an operation on values to stop, but for a message that cannot be written. -/
def Stop.ofValues : Stop → Bool
  | .depth => true
  | .fault (.argumentCount ..) | .fault (.notNumbers ..) | .fault (.notOrdered ..) => true
  | .fault (.lengthOfNonSequence _) | .fault (.elementOfNonSequence _) | .fault (.indexNotInteger _) => true
  | .fault (.outOfRange ..) | .fault .divisionByZero | .fault (.indexOutOfRange ..) | .fault (.numberTooLong _) => true
  | _ => false

structure UnwritableIndex (i : Int) (length : Nat) : Prop where
  outside : i < 0 ∨ (length : Int) ≤ i
  long : digitLimit < (Nat.toDigits 10 i.natAbs).length

namespace Value

variable {depth : Nat} {stop : Stop}

/-! ## Display -/

theorem displayNumber_stops {n : Number} (h : displayNumber n = .error stop) :
    ∃ bits, stop = .fault (.numberTooLong bits) := by
  have hinteger : ∀ {i : Int}, displayInteger i = .error stop → ∃ bits, stop = .fault (.numberTooLong bits) := by
    intro i hi
    rw [displayInteger] at hi
    split at hi
    · cases hi
      exact ⟨_, rfl⟩
    · cases hi
  cases n with
  | int i => exact hinteger h
  | float x =>
    simp only [displayNumber] at h
    split at h
    · exact hinteger h
    · cases h

mutual

theorem display_stops : ∀ {depth : Nat} {v : Value}, v.display depth = .error stop →
    stop = .depth ∨ ∃ bits, stop = .fault (.numberTooLong bits)
  | depth, v, h => by
    unfold display at h
    split at h
    · cases h
      exact .inl rfl
    · cases v with
      | number n => exact .inr (displayNumber_stops h)
      | array items =>
        rcases bind_eq_error h with h | ⟨_, _, h⟩
        · exact displayItems_stops h
        · cases h
      | text s => cases h
      | flag b => cases h
      | closure c => cases h
      | builtin b => cases h

theorem displayItems_stops : ∀ {depth : Nat} {items : List Value}, displayItems depth items = .error stop →
    stop = .depth ∨ ∃ bits, stop = .fault (.numberTooLong bits)
  | depth, [], h => by
    rw [displayItems] at h
    cases h
  | depth, v :: rest, h => by
    rw [displayItems] at h
    rcases bind_eq_error h with h | ⟨_, _, h⟩
    · exact display_stops h
    · rcases bind_eq_error h with h | ⟨_, _, h⟩
      · exact displayItems_stops h
      · cases h

end

mutual

def nesting : Value → Nat
  | .array items => nestingAll items + 1
  | _ => 0

def nestingAll : List Value → Nat
  | [] => 0
  | v :: rest => max (nesting v) (nestingAll rest)

end

mutual

/-- The display wants for depth only where arrays stand inside one another: each level takes four
    steps. -/
theorem display_depth : ∀ {depth : Nat} {v : Value}, v.display depth = .error .depth → depth ≤ 4 * v.nesting
  | depth, v, h => by
    unfold display at h
    split at h
    · omega
    · cases v with
      | number n =>
        obtain ⟨bits, hbits⟩ := displayNumber_stops h
        cases hbits
      | array items =>
        rcases bind_eq_error h with h | ⟨_, _, h⟩
        · have hitems := displayItems_depth h
          rw [nesting]
          omega
        · cases h
      | text s => cases h
      | flag b => cases h
      | closure c => cases h
      | builtin b => cases h

theorem displayItems_depth : ∀ {depth : Nat} {items : List Value}, displayItems depth items = .error .depth →
    depth ≤ 4 * nestingAll items
  | depth, [], h => by
    rw [displayItems] at h
    cases h
  | depth, v :: rest, h => by
    rw [displayItems] at h
    rw [nestingAll]
    rcases bind_eq_error h with h | ⟨_, _, h⟩
    · have hv := display_depth h
      omega
    · rcases bind_eq_error h with h | ⟨_, _, h⟩
      · have hrest := displayItems_depth h
        omega
      · cases h

end

theorem ofValues_of_display {v : Value} (h : v.display depth = .error stop) : stop.ofValues = true := by
  rcases display_stops h with rfl | ⟨bits, rfl⟩
  · rfl
  · rfl

/-- A fault that shows a value. -/
theorem ofValues_of_shown {α : Type} {v : Value} {f : String → Fault}
    (hf : ∀ shown, (Stop.fault (f shown)).ofValues = true)
    (h : (v.display depth >>= fun shown => fail (f shown) : Except Stop α) = .error stop) : stop.ofValues = true := by
  rcases bind_eq_error h with h | ⟨shown, _, h⟩
  · exact ofValues_of_display h
  · cases h
    exact hf shown

/-! ## Equality -/

mutual

theorem equal_stops : ∀ {depth : Nat} {v w : Value}, v.equal depth w = .error stop → stop = .depth
  | depth, v, w, h => by
    unfold equal at h
    split at h
    · cases h
      rfl
    · split at h
      · cases h
      · split at h
        · exact equalItems_stops h
        · cases h
      all_goals cases h

theorem equalItems_stops : ∀ {depth : Nat} {xs ys : List Value}, equalItems depth xs ys = .error stop → stop = .depth
  | depth, x :: xs, y :: ys, h => by
    rw [equalItems] at h
    rcases bind_eq_error h with h | ⟨same, _, h⟩
    · exact equal_stops h
    · split at h
      · exact equalItems_stops h
      · cases h
  | depth, [], ys, h => by
    cases ys <;> simp [equalItems] at h
  | depth, x :: xs, [], h => by
    simp [equalItems] at h

end

/-! ## Operators -/

theorem arithmetic_stops {op : Arithmetic} {a b : Value} (h : op.apply depth a b = .error stop) :
    stop.ofValues = true := by
  have htwo : ∀ {f : String → String → Fault}, (∀ l r, (Stop.fault (f l r)).ofValues = true) →
      (a.display depth >>= fun l => b.display depth >>= fun r => fail (f l r) : Except Stop Value) = .error stop →
      stop.ofValues = true := by
    intro f hf h
    rcases bind_eq_error h with h | ⟨l, _, h⟩
    · exact ofValues_of_display h
    · exact ofValues_of_shown (hf l) h
  have hjoin : Arithmetic.join depth a b = .error stop → stop.ofValues = true := by
    intro h
    rcases bind_eq_error h with h | ⟨_, _, h⟩
    · exact ofValues_of_display h
    · rcases bind_eq_error h with h | ⟨_, _, h⟩
      · exact ofValues_of_display h
      · cases h
  have hnumbers : ∀ {m n : Number}, op.onNumbers m n = .error stop → stop.ofValues = true := by
    intro m n h
    rw [Arithmetic.onNumbers] at h
    split at h
    · cases h
      rfl
    · split at h
      · cases h
      · cases h
        rfl
  unfold Arithmetic.apply at h
  split at h
  · exact hjoin h
  · exact hjoin h
  · exact hnumbers h
  · exact htwo (fun _ _ => rfl) h

theorem comparison_stops {op : Comparison} {a b : Value} (h : op.apply depth a b = .error stop) :
    stop.ofValues = true := by
  unfold Comparison.apply at h
  split at h
  · cases h
  · cases h
  · rcases bind_eq_error h with h | ⟨left, _, h⟩
    · exact ofValues_of_display h
    · exact ofValues_of_shown (fun _ => rfl) h

theorem length_stops {v : Value} (h : v.length depth = .error stop) : stop.ofValues = true := by
  unfold length at h
  split at h
  · cases h
  · exact ofValues_of_shown (fun _ => rfl) h

theorem element_of_nonSequence {v : Value} (h : v.items? = none) (index : Value) :
    v.element depth index = (do fail (.elementOfNonSequence (← v.display depth))) := by
  rw [element, h]

theorem element_of_nonInteger {v index : Value} {items : List Value} (h : v.items? = some items)
    (hindex : ∀ i, index ≠ .int i) :
    v.element depth index = (do fail (.indexNotInteger (← index.display depth))) := by
  simp only [element, h]
  split
  · exact absurd rfl (hindex _)
  · rfl

theorem element_inside {v : Value} {items : List Value} (h : v.items? = some items) {i : Int} (h0 : 0 ≤ i)
    (hi : i < items.length) : ∃ w, items[i.toNat]? = some w ∧ v.element depth (.int i) = .ok w := by
  have hget : items[i.toNat]? = some items[i.toNat] := List.getElem?_eq_getElem (by omega)
  refine ⟨_, hget, ?_⟩
  simp only [element, h, Value.int, hget]
  rw [if_neg (by omega)]

theorem element_outside {v : Value} {items : List Value} (h : v.items? = some items) {i : Int}
    (hi : i < 0 ∨ (items.length : Int) ≤ i) : v.element depth (.int i) = indexFault i items.length := by
  simp only [element, h, Value.int]
  by_cases hneg : i < 0
  · rw [if_pos hneg]
  · rw [if_neg hneg, List.getElem?_eq_none (by omega)]

/-- An index outside its sequence is a fault, unless the index is too long to be told. -/
theorem indexFault_stops {α : Type} {i : Int} {n : Nat} (houtside : i < 0 ∨ (n : Int) ≤ i)
    (h : (indexFault i n : Except Stop α) = .error stop) :
    stop.ofValues = true ∨ stop = .overlong ∧ UnwritableIndex i n := by
  unfold indexFault at h
  split at h
  · rename_i hlong
    cases h
    exact .inr ⟨rfl, houtside, isOverlong_iff.mp hlong⟩
  · cases h
    exact .inl rfl

theorem element_stops_int {v : Value} {items : List Value} (hitems : v.items? = some items) {i : Int}
    (h : v.element depth (.int i) = .error stop) :
    stop.ofValues = true ∨ stop = .overlong ∧ UnwritableIndex i items.length := by
  by_cases hinside : 0 ≤ i ∧ i < items.length
  · obtain ⟨w, -, hw⟩ := element_inside hitems hinside.1 hinside.2
    rw [hw] at h
    cases h
  · have houtside : i < 0 ∨ (items.length : Int) ≤ i := by omega
    rw [element_outside hitems houtside] at h
    exact indexFault_stops houtside h

theorem element_stops {v index : Value} (h : v.element depth index = .error stop) :
    stop.ofValues = true ∨
      stop = .overlong ∧ ∃ items i, v.items? = some items ∧ index = .int i ∧ UnwritableIndex i items.length := by
  cases hitems : v.items? with
  | none =>
    rw [element_of_nonSequence hitems] at h
    exact .inl (ofValues_of_shown (fun _ => rfl) h)
  | some items =>
    by_cases hindex : ∃ i, index = .int i
    · obtain ⟨i, rfl⟩ := hindex
      rcases element_stops_int hitems h with hstop | ⟨hstop, hunwritable⟩
      · exact .inl hstop
      · exact .inr ⟨hstop, items, i, rfl, rfl, hunwritable⟩
    · rw [element_of_nonInteger hitems (not_exists.mp hindex)] at h
      exact .inl (ofValues_of_shown (fun _ => rfl) h)

/-- Such an index does stop the operation. -/
theorem element_overlong {v : Value} {items : List Value} (hitems : v.items? = some items) {i : Int}
    (h : UnwritableIndex i items.length) : v.element depth (.int i) = .error .overlong := by
  rw [element_outside hitems h.outside, indexFault, isOverlong_iff.mpr h.long]
  rfl

end Value

end EggLang
