/-
  EggLang.Proofs.Eval.Printing — values that cannot be displayed, and that printing is all or
  nothing.

  Where something stands in a value is told by the indices that lead to it from array to array
  (`Value.part?`). Read from left to right, the parts of a value come in the order of these paths,
  as words do in a dictionary. A value can be displayed unless an integer of more than 4300 digits
  stands in it somewhere, and the fault then tells how many bits the first of them has
  (`FirstOverlong`). Texts of digits and doubles do no harm, however long or large.

  `print_builtin` has the display finished before it writes anything, so what precedes such an
  integer in an array is not printed either.

  - `firstOverlong_of_overlong?`, `writable_of_overlong?`: what `overlong?` finds is the first in
    the order of paths, and where it finds nothing there is nothing.
  - `shown_and_printed_unless_overlong`: when a value is displayed and printed, for all values.
-/

import EggLang.Eval.Evaluate
import EggLang.Proofs.Value.Equality
import EggLang.Proofs.Value.Shown

namespace EggLang

open EggLang.Numeric

namespace Value

/-- The integer at a path has more than 4300 digits, and none at an earlier path has. -/
structure FirstOverlong (v : Value) (path : List Nat) (n : Int) : Prop where
  found : v.part? path = some (.int n)
  long : tenPow 4300 ≤ n.natAbs
  first : ∀ path' m, path' < path → v.part? path' = some (.int m) → m.natAbs < tenPow 4300

def Writable (v : Value) : Prop := ∀ path n, v.part? path = some (.int n) → n.natAbs < tenPow 4300

theorem FirstOverlong.natAbs_ne_zero {v : Value} {path : List Nat} {n : Int} (h : FirstOverlong v path n) :
    n.natAbs ≠ 0 := by
  have hpos := tenPow_pos 4300
  have hlong := h.long
  omega

/-! ## Paths into an array -/

theorem writable_array_nil : (array []).Writable := by
  intro path n h
  cases path with
  | nil => cases h
  | cons i path => simp [part?] at h

theorem writable_array_cons {v : Value} {rest : List Value} (hv : v.Writable) (hrest : (array rest).Writable) :
    (array (v :: rest)).Writable := by
  intro path n h
  match path with
  | [] => cases h
  | 0 :: path => exact hv path n h
  | (i + 1) :: path => exact hrest (i :: path) n h

theorem FirstOverlong.head {v : Value} {path : List Nat} {n : Int} (h : FirstOverlong v path n) (rest : List Value) :
    FirstOverlong (array (v :: rest)) (0 :: path) n := by
  refine ⟨h.found, h.long, ?_⟩
  intro path' m hlt hm
  match path' with
  | [] => cases hm
  | 0 :: path' =>
    have hlt' : path' < path := by simpa using hlt
    exact h.first path' m hlt' hm
  | (i + 1) :: path' => simp [List.cons_lt_cons_iff] at hlt

theorem FirstOverlong.tail {v : Value} {rest : List Value} {i : Nat} {path : List Nat} {n : Int}
    (h : FirstOverlong (array rest) (i :: path) n) (hv : v.Writable) :
    FirstOverlong (array (v :: rest)) ((i + 1) :: path) n := by
  refine ⟨h.found, h.long, ?_⟩
  intro path' m hlt hm
  match path' with
  | [] => cases hm
  | 0 :: path' => exact hv path' m hm
  | (j + 1) :: path' =>
    have hlt' : j :: path' < i :: path := by simpa [List.cons_lt_cons_iff] using hlt
    exact h.first (j :: path') m hlt' hm

/-! ## What is found is the first -/

theorem overlong?_int_eq_some_iff {m n : Int} :
    (Value.int m).overlong? = some n ↔ m = n ∧ tenPow 4300 ≤ n.natAbs := by
  rw [Value.int, overlong?, Option.ite_none_right_eq_some, Option.some.injEq, isOverlong_iff_le, and_comm]
  exact and_congr_right fun h => by rw [h]

theorem overlong?_int_eq_none_iff {n : Int} : (Value.int n).overlong? = none ↔ n.natAbs < tenPow 4300 := by
  rw [Value.int, overlong?, ← Nat.not_le, ← isOverlong_iff_le]
  simp

mutual

theorem writable_of_overlong? : ∀ v : Value, v.overlong? = none → v.Writable
  | .number (.int m) => by
    intro h path n hn
    cases path with
    | nil =>
      cases hn
      exact overlong?_int_eq_none_iff.mp h
    | cons i path => cases hn
  | .array items => by
    intro h
    rw [overlong?] at h
    exact writable_of_overlongAmong? items h
  | .number (.float _) | .text _ | .flag _ | .closure _ | .builtin _ => by
    intro _ path n hn
    cases path <;> cases hn

theorem writable_of_overlongAmong? : ∀ items : List Value, overlongAmong? items = none → (array items).Writable
  | [] => fun _ => writable_array_nil
  | v :: rest => by
    intro h
    rw [overlongAmong?] at h
    obtain ⟨hv, hrest⟩ := Option.or_eq_none_iff.mp h
    exact writable_array_cons (writable_of_overlong? v hv) (writable_of_overlongAmong? rest hrest)

end

mutual

theorem firstOverlong_of_overlong? : ∀ (v : Value) (n : Int), v.overlong? = some n → ∃ path, FirstOverlong v path n
  | .number (.int m) => by
    intro n h
    obtain ⟨rfl, hlong⟩ := overlong?_int_eq_some_iff.mp h
    refine ⟨[], rfl, hlong, ?_⟩
    intro path' m hlt
    simp at hlt
  | .array items => by
    intro n h
    rw [overlong?] at h
    obtain ⟨i, path, hfirst⟩ := firstOverlong_of_overlongAmong? items n h
    exact ⟨i :: path, hfirst⟩
  | .number (.float _) | .text _ | .flag _ | .closure _ | .builtin _ => by
    intro n h
    cases h

theorem firstOverlong_of_overlongAmong? : ∀ (items : List Value) (n : Int), overlongAmong? items = some n →
    ∃ i path, FirstOverlong (array items) (i :: path) n
  | [] => by
    intro n h
    cases h
  | v :: rest => by
    intro n h
    rw [overlongAmong?] at h
    rcases Option.or_eq_some_iff.mp h with hv | ⟨hv, hrest⟩
    · obtain ⟨path, hfirst⟩ := firstOverlong_of_overlong? v n hv
      exact ⟨0, path, hfirst.head rest⟩
    · obtain ⟨i, path, hfirst⟩ := firstOverlong_of_overlongAmong? rest n hrest
      exact ⟨i + 1, path, hfirst.tail (writable_of_overlong? v hv)⟩

end

/-! ## Display -/

theorem writable_of_display {depth : Nat} {v : Value} {text : String} (h : v.display depth = .ok text) :
    v.Writable := by
  have hends := display_ends depth v
  rw [h] at hends
  cases hends with
  | shown _ hnone => exact writable_of_overlong? v hnone

theorem display_error {depth : Nat} {v : Value} {stop : Stop} (h : v.display depth = .error stop)
    (hdepth : v.display depth ≠ .error .depth) :
    ∃ path n, FirstOverlong v path n ∧ stop = .fault (.numberTooLong (bitLength n.natAbs)) := by
  have hends := display_ends depth v
  rw [h] at hends hdepth
  cases hends with
  | tooLong n hsome =>
    obtain ⟨path, hfirst⟩ := firstOverlong_of_overlong? v n hsome
    exact ⟨path, n, hfirst, rfl⟩
  | tooDeep => exact absurd rfl hdepth

end Value

/-! ## Printing -/

namespace Eval

open EggLang.Scope EggLang.Value

theorem print_of_shown {depth : Nat} {v : Value} {text : String} (h : v.display depth = .ok text) (s : Store) :
    Builtin.print.call depth [v] s = .ok v { s with output := s.output ++ (text ++ "\n") } := by
  rw [Builtin.call, h]
  rfl

theorem print_of_error {depth : Nat} {v : Value} {stop : Stop} (h : v.display depth = .error stop) (s : Store) :
    Builtin.print.call depth [v] s = .error stop s := by
  rw [Builtin.call, h]
  rfl

/-- Apart from values that are nested too deep for the depth, the display of a value fails exactly
    when an integer of more than 4300 digits stands in it; the fault tells how many bits the first
    of them has. To print a value is to add its display and a line end to the output and to give the
    value back; where there is no display, nothing is printed and printing fails in the same way. -/
theorem shown_and_printed_unless_overlong (depth : Nat) (v : Value) :
    (4 * v.nesting < depth → v.display depth ≠ .error .depth) ∧
    (v.display depth ≠ .error .depth →
      ((∃ stop, v.display depth = .error stop) ↔
        ∃ path n, v.part? path = some (.int n) ∧ tenPow 4300 ≤ n.natAbs) ∧
      ∀ stop, v.display depth = .error stop →
        ∃ path n bits f, FirstOverlong v path n ∧ twoPow (bits - 1) ≤ n.natAbs ∧ n.natAbs < twoPow bits ∧
          stop = .fault f ∧ f.kind = .runtime ∧
          f.message = "Number too large to display (" ++ naturalText bits ++ " bits)") ∧
    ∀ s : Store,
      (∀ text, v.display depth = .ok text →
        Builtin.print.call depth [v] s = .ok v { s with output := s.output ++ (text ++ "\n") }) ∧
      ∀ stop, v.display depth = .error stop → Builtin.print.call depth [v] s = .error stop s := by
  refine ⟨?_, ?_, fun s => ⟨fun text h => print_of_shown h s, fun stop h => print_of_error h s⟩⟩
  · intro hdepth h
    have hdeep := display_depth h
    omega
  · intro hdepth
    refine ⟨⟨?_, ?_⟩, ?_⟩
    · rintro ⟨stop, h⟩
      obtain ⟨path, n, hfirst, -⟩ := display_error h hdepth
      exact ⟨path, n, hfirst.found, hfirst.long⟩
    · rintro ⟨path, n, hn, hlong⟩
      cases h : v.display depth with
      | ok text => exact absurd (writable_of_display h path n hn) (Nat.not_lt.mpr hlong)
      | error stop => exact ⟨stop, rfl⟩
    · intro stop h
      obtain ⟨path, n, hfirst, rfl⟩ := display_error h hdepth
      obtain ⟨hlower, hupper⟩ := bitLength_bounds hfirst.natAbs_ne_zero
      exact ⟨path, n, _, _, hfirst, hlower, hupper, rfl, rfl, rfl⟩

/-- An array in which a text of 4301 digits and the largest double precede an array with an integer
    that is too long, and one that is longer still follows. -/
def overlongShelf : Value :=
  .array [.text (integerText (tenPow 4300)), .number (.float (.ofBits 0x7FEFFFFFFFFFFFFF)),
    .array [.int 1, .int (-tenPow 4300)], .int (tenPow 4301)]

theorem overlongShelf_not_printed :
    4 * overlongShelf.nesting < 9 ∧ overlongShelf.display 9 ≠ .error .depth ∧
    overlongShelf.part? [2, 1] = some (.int (-tenPow 4300)) ∧ (∃ path n, FirstOverlong overlongShelf path n) ∧
    overlongShelf.display 9 = .error (.fault (.numberTooLong 14285)) ∧
    Builtin.print.call 9 [overlongShelf] Store.empty = .error (.fault (.numberTooLong 14285)) Store.empty := by
  obtain ⟨hdepth, hshown, hprint⟩ := shown_and_printed_unless_overlong 9 overlongShelf
  have hnesting : 4 * overlongShelf.nesting < 9 := by decide +kernel
  have hdisplay : overlongShelf.display 9 = .error (.fault (.numberTooLong 14285)) := by decide +kernel
  obtain ⟨path, n, -, -, hfirst, -⟩ := (hshown (hdepth hnesting)).2 _ hdisplay
  exact ⟨hnesting, hdepth hnesting, rfl, ⟨path, n, hfirst⟩, hdisplay, (hprint Store.empty).2 _ hdisplay⟩

end Eval

end EggLang
