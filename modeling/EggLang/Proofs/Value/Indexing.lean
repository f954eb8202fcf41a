/-
  EggLang.Proofs.Value.Indexing — what `element` makes of a sequence and an index.

  Arrays and texts are sequences: an array of its items, a text of its characters, each of them a
  text again (`ItemAt`). An index from 0 up to the length gives what stands there. Any other integer
  is a fault that tells the index and the length, unless the index has more than 4300 digits: it
  cannot be told, and there is no fault, but the operation is broken off. What is no sequence, and
  an index that is no integer, are faults that show it, or the fault of showing it.

  - `indexFault_of_short`, `indexFault_of_long`: an integer outside the sequence.
  - `element_outcomes`: what `element` comes to, for all values.
  - `overlong_index_unreported`: an index that breaks the operation off.
-/

import EggLang.Proofs.Value.Shown

namespace EggLang.Value

open EggLang.Numeric

/-! ## Sequences -/

def size? : Value → Option Nat
  | .array items => some items.length
  | .text s => some s.length
  | _ => none

inductive ItemAt : Value → Nat → Value → Prop
  | item {items : List Value} {i : Nat} {v : Value} : items[i]? = some v → ItemAt (.array items) i v
  | character {s : String} {i : Nat} {c : Char} : s.toList[i]? = some c →
      ItemAt (.text s) i (.text (String.singleton c))

theorem items?_of_size? {v : Value} {n : Nat} (h : v.size? = some n) :
    ∃ items, v.items? = some items ∧ items.length = n ∧ ∀ i w, items[i]? = some w → ItemAt v i w := by
  cases v with
  | array items =>
    cases h
    exact ⟨items, rfl, rfl, fun i w hw => .item hw⟩
  | text s =>
    cases h
    refine ⟨_, rfl, by simp [String.length_toList], ?_⟩
    intro i w hw
    obtain ⟨c, hc, rfl⟩ := by simpa using hw
    exact .character hc
  | _ => cases h

theorem items?_eq_none_iff {v : Value} : v.items? = none ↔ v.size? = none := by
  cases v <;> simp [items?, size?]

/-! ## Integers -/

theorem indexFault_of_short {α : Type} {i : Int} (h : i.natAbs < tenPow 4300) (n : Nat) :
    (indexFault i n : Except Stop α) = fail (.indexOutOfRange i n) := by
  rw [← Nat.not_le, ← isOverlong_iff_le] at h
  exact if_neg h

theorem indexFault_of_long {α : Type} {i : Int} (h : tenPow 4300 ≤ i.natAbs) (n : Nat) :
    (indexFault i n : Except Stop α) = .error .overlong :=
  if_pos (isOverlong_iff_le.mpr h)

/-! ## All values -/

/-- A fault shows a value, unless the value cannot be displayed: then the first integer in it that
    is too long is told, or it is nested too deep for the depth. -/
inductive ShownIn (depth : Nat) (v : Value) (f : String → Fault) : Except Stop Value → Prop
  | shown {text : String} : v.display depth = .ok text → ShownIn depth v f (fail (f text))
  | tooLong {n : Int} : v.overlong? = some n → ShownIn depth v f (fail (.numberTooLong (bitLength n.natAbs)))
  | tooDeep : depth ≤ 4 * v.nesting → ShownIn depth v f (.error .depth)

theorem shownIn (depth : Nat) (v : Value) (f : String → Fault) :
    ShownIn depth v f (do fail (f (← v.display depth))) := by
  have hends := display_ends depth v
  cases hdisplay : v.display depth with
  | ok text => exact .shown hdisplay
  | error stop =>
    rw [hdisplay] at hends
    cases hends with
    | tooLong n hsome => exact .tooLong hsome
    | tooDeep hdeep => exact .tooDeep hdeep

/-- What `element` comes to. An integer from 0 up to the length of an array or a text gives what
    stands there; any other integer is a fault that tells it and the length, but with more than 4300
    digits it cannot be told, and is no fault. What is no array and no text is a fault that shows
    it, and so is an index that is no integer. -/
theorem element_outcomes (depth : Nat) (v index : Value) :
    (∀ n i, v.size? = some n → index = .int i →
      v.length depth = .ok (.int n) ∧
      (0 ≤ i ∧ i < n → ∃ w, ItemAt v i.toNat w ∧ v.element depth index = .ok w) ∧
      (¬ (0 ≤ i ∧ i < n) → i.natAbs < tenPow 4300 →
        ∃ f, v.element depth index = fail f ∧ f.kind = .runtime ∧
          f.message = "Index " ++ integerText i ++ " out of range for length " ++ naturalText n) ∧
      (¬ (0 ≤ i ∧ i < n) → tenPow 4300 ≤ i.natAbs → v.element depth index = .error .overlong)) ∧
    (v.size? = none → ShownIn depth v .elementOfNonSequence (v.element depth index)) ∧
    (v.size? ≠ none → (∀ i, index ≠ .int i) → ShownIn depth index .indexNotInteger (v.element depth index)) := by
  refine ⟨?_, ?_, ?_⟩
  · rintro n i hn rfl
    obtain ⟨items, hitems, rfl, hat⟩ := items?_of_size? hn
    have houtside : ¬ (0 ≤ i ∧ i < items.length) → v.element depth (.int i) = indexFault i items.length :=
      fun hi => element_outside hitems (by omega)
    refine ⟨by rw [length, hitems], ?_, ?_, ?_⟩
    · rintro ⟨h0, hi⟩
      obtain ⟨w, hw, helement⟩ := element_inside hitems h0 hi
      exact ⟨w, hat _ w hw, helement⟩
    · intro hi hshort
      rw [houtside hi, indexFault_of_short hshort]
      exact ⟨_, rfl, rfl, rfl⟩
    · intro hi hlong
      rw [houtside hi, indexFault_of_long hlong]
  · intro hnone
    rw [element_of_nonSequence (items?_eq_none_iff.mpr hnone)]
    exact shownIn depth v _
  · intro hsome hindex
    obtain ⟨items, hitems⟩ := Option.ne_none_iff_exists'.mp (mt items?_eq_none_iff.mp hsome)
    rw [element_of_nonInteger hitems hindex]
    exact shownIn depth index _

/-- The last character of a text and the last item of an array, the places around them, the largest
    and smallest index that are told when there is nothing at them, and operands of other kinds. -/
theorem elements_at_ends :
    (∃ w, ItemAt (.text "aé") 1 w ∧ (Value.text "aé").element 9 (.int 1) = .ok w) ∧
    (∃ f, (Value.text "aé").element 9 (.int 2) = fail f ∧ f.message = "Index 2 out of range for length 2") ∧
    (∃ f, (Value.array [.flag true]).element 9 (.int (-1)) = fail f ∧ f.message = "Index -1 out of range for length 1") ∧
    (∃ f, (Value.array []).element 9 (.int (tenPow 4300 - 1)) = fail f ∧ f.kind = .runtime) ∧
    (Value.array []).element 9 (.int (-tenPow 4300)) = .error .overlong ∧
    ShownIn 9 (.flag true) .elementOfNonSequence ((Value.flag true).element 9 (.int 0)) ∧
    ShownIn 9 (.flag true) .indexNotInteger ((Value.text "aé").element 9 (.flag true)) := by
  refine ⟨?_, ?_, ?_, ?_, ?_, ?_, ?_⟩
  · exact ((element_outcomes 9 (.text "aé") (.int 1)).1 2 1 rfl rfl).2.1 (by decide)
  · obtain ⟨f, hf, -, hmessage⟩ :=
      ((element_outcomes 9 (.text "aé") (.int 2)).1 2 2 rfl rfl).2.2.1 (by decide) (by decide +kernel)
    exact ⟨f, hf, hmessage.trans (by decide +kernel)⟩
  · obtain ⟨f, hf, -, hmessage⟩ :=
      ((element_outcomes 9 (.array [.flag true]) (.int (-1))).1 1 (-1) rfl rfl).2.2.1 (by decide) (by decide +kernel)
    exact ⟨f, hf, hmessage.trans (by decide +kernel)⟩
  · obtain ⟨f, hf, hkind, -⟩ :=
      ((element_outcomes 9 (.array []) (.int (tenPow 4300 - 1))).1 0 _ rfl rfl).2.2.1 (by decide +kernel)
        (by decide +kernel)
    exact ⟨f, hf, hkind⟩
  · exact ((element_outcomes 9 (.array []) (.int (-tenPow 4300))).1 0 _ rfl rfl).2.2.2 (by decide +kernel)
      (by decide +kernel)
  · exact (element_outcomes 9 (.flag true) (.int 0)).2.1 rfl
  · exact (element_outcomes 9 (.text "aé") (.flag true)).2.2 nofun nofun

/-- The integer 10^4300 is no index of a one-letter text, and yet asking for the element there is
    not answered with a fault. -/
theorem overlong_index_unreported :
    (Value.text "a").size? = some 1 ∧ ¬ ((tenPow 4300 : Int) < 1) ∧
    (Value.text "a").element 9 (.int (tenPow 4300)) = .error .overlong ∧
    ∀ f, (Value.text "a").element 9 (.int (tenPow 4300)) ≠ fail f := by
  have hstop : (Value.text "a").element 9 (.int (tenPow 4300)) = .error .overlong := by
    rw [element_outside rfl (.inr (by decide +kernel))]
    exact indexFault_of_long (by decide +kernel) _
  refine ⟨rfl, by decide +kernel, hstop, ?_⟩
  intro f hf
  rw [hstop] at hf
  cases hf

end EggLang.Value
