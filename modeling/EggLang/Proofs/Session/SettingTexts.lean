/-
  EggLang.Proofs.Session.SettingTexts — the texts that set a number (`int_from_env`).

  An integer is written with a sign or none and then digits, which may be of several scripts; one
  underscore may stand between two digits, and there may be blanks around all of it (`Signed`,
  `WritesInteger`). No more digits may be written than can be read; underscores do not count,
  leading zeros do.

  - `digitValue?_eq_some_iff`: the digits of different scripts do not overlap, so a digit has one
    value.
  - `readInteger?_trimBlanks_iff`: exactly these texts are read as integers.
  - `setting_of_positive_integer`: a text sets the number that it writes when that is positive, and
    nothing otherwise.
-/

import Mathlib.Data.List.Basic
import Mathlib.Data.Nat.Digits.Defs
import EggLang.Proofs.Program.RoundTrip
import EggLang.Session

namespace EggLang.Session

open EggLang.Numeric EggLang.Program EggLang.Text

/-! ## Digits of all scripts -/

/-- A character is a decimal digit of some script, of the value `d`. -/
def Digit (c : Char) (d : Nat) : Prop := d < 10 ∧ ∃ z ∈ zeroDigits, c.toNat = z + d

theorem zeroDigits_apart : ∀ z ∈ zeroDigits, ∀ z' ∈ zeroDigits, z = z' ∨ z + 10 ≤ z' ∨ z' + 10 ≤ z := by
  decide +kernel

theorem digitValue?_eq_some_iff {c : Char} {d : Nat} : digitValue? c = some d ↔ Digit c d := by
  constructor
  · intro h
    refine ⟨digitValue?_lt h, ?_⟩
    obtain ⟨z, hz, rfl⟩ := Option.map_eq_some_iff.mp h
    have hrange := List.find?_some hz
    simp only [Bool.and_eq_true, decide_eq_true_eq] at hrange
    exact ⟨z, List.mem_of_find?_eq_some hz, by omega⟩
  · rintro ⟨hd, z, hz, hc⟩
    cases hfind : zeroDigits.find? (fun z => z ≤ c.toNat && c.toNat < z + 10) with
    | none =>
      have hnot := List.find?_eq_none.mp hfind z hz
      simp only [Bool.and_eq_true, decide_eq_true_eq] at hnot
      omega
    | some z' =>
      have hrange := List.find?_some hfind
      simp only [Bool.and_eq_true, decide_eq_true_eq] at hrange
      have hsame := zeroDigits_apart z hz z' (List.mem_of_find?_eq_some hfind)
      rw [digitValue?, hfind, Option.map_some, show c.toNat - z' = d by omega]

theorem zeroDigits_not_blank : ∀ z ∈ zeroDigits, ∀ r ∈ blankRanges, r.last < z ∨ z + 10 ≤ r.first := by
  decide +kernel

theorem Digit.not_blank {c : Char} {d : Nat} (h : Digit c d) : isBlank c = false := by
  obtain ⟨hd, z, hz, hc⟩ := h
  simp only [isBlank, inRanges, List.any_eq_false, CodeRange.has, Bool.and_eq_true, decide_eq_true_eq]
  intro r hr
  have := zeroDigits_not_blank z hz r hr
  omega

/-- A character that is a digit is none of those that are not. -/
theorem Digit.ne {c e : Char} {d : Nat} (h : Digit c d) (he : digitValue? e = none) : c ≠ e := by
  rintro rfl
  rw [digitValue?_eq_some_iff.mpr h] at he
  cases he

theorem digit_of_ascii {c : Char} (h : isAsciiDigit c = true) : Digit c (c.toNat - '0'.toNat) := by
  simp only [isAsciiDigit, Bool.and_eq_true, decide_eq_true_eq] at h
  have h0 : 48 ≤ c.toNat := h.1
  have h9 : c.toNat ≤ 57 := h.2
  have hzero : '0'.toNat = 48 := rfl
  exact ⟨by omega, 0x30, by decide, by omega⟩

/-! ## Digits in a row -/

/-- Digits of the values `ds`, with an underscore at most between two of them. -/
inductive Grouped : List Char → (ds : List Nat) → Prop
  | last {c : Char} {d : Nat} : Digit c d → Grouped [c] [d]
  | next {c : Char} {d : Nat} {text : List Char} {ds : List Nat} : Digit c d → Grouped text ds →
      Grouped (c :: text) (d :: ds)
  | apart {c : Char} {d : Nat} {text : List Char} {ds : List Nat} : Digit c d → Grouped text ds →
      Grouped (c :: '_' :: text) (d :: ds)

theorem groupedDigits?_digit {c : Char} {d : Nat} (hc : Digit c d) (afterDigit : Bool) (text : List Char) :
    groupedDigits? afterDigit (c :: text) = (groupedDigits? true text).map (d :: ·) := by
  rw [groupedDigits?, if_neg (hc.ne (by decide +kernel)), digitValue?_eq_some_iff.mpr hc]

/-- What follows a digit is another digit, or an underscore with digits behind it, or nothing. -/
theorem grouped_of_read (text : List Char) :
    (∀ {ds}, groupedDigits? false text = some ds → Grouped text ds) ∧
    ∀ {c d ds}, Digit c d → groupedDigits? true text = some ds → Grouped (c :: text) (d :: ds) := by
  induction text with
  | nil =>
    refine ⟨?_, ?_⟩
    · intro ds h
      cases h
    · intro c d ds hc h
      cases h
      exact .last hc
  | cons e text ih =>
    obtain ⟨ihStart, ihBehind⟩ := ih
    -- a digit may be read wherever it stands
    have hdigit : ∀ {afterDigit ds}, e ≠ '_' → groupedDigits? afterDigit (e :: text) = some ds →
        Grouped (e :: text) ds := by
      intro afterDigit ds hne h
      rw [groupedDigits?, if_neg hne] at h
      split at h
      · rename_i d hd
        obtain ⟨ds', hds, rfl⟩ := Option.map_eq_some_iff.mp h
        exact ihBehind (digitValue?_eq_some_iff.mp hd) hds
      · cases h
    refine ⟨?_, ?_⟩
    · intro ds h
      refine hdigit ?_ h
      rintro rfl
      simp [groupedDigits?] at h
    · intro c d ds hc h
      by_cases he : e = '_'
      · subst he
        exact .apart hc (ihStart (by simpa [groupedDigits?] using h))
      · exact .next hc (hdigit he h)

theorem groupedDigits?_of_grouped {text : List Char} {ds : List Nat} (h : Grouped text ds) (afterDigit : Bool) :
    groupedDigits? afterDigit text = some ds := by
  induction h generalizing afterDigit with
  | last hc => rw [groupedDigits?_digit hc]; rfl
  | next hc _ ih => rw [groupedDigits?_digit hc, ih, Option.map_some]
  | apart hc _ ih =>
    rw [groupedDigits?_digit hc, groupedDigits?, if_pos rfl, if_pos rfl, ih, Option.map_some]

theorem Grouped.nonblank {text : List Char} {ds : List Nat} (h : Grouped text ds) :
    ∀ c ∈ text, isBlank c = false := by
  have hunderscore : isBlank '_' = false := by decide
  induction h with
  | last hc => simpa using hc.not_blank
  | next hc _ ih => simpa [hc.not_blank] using ih
  | apart hc _ ih => simpa [hc.not_blank, hunderscore] using ih

theorem grouped_of_ascii {text : List Char} (hne : text ≠ []) (h : ∀ c ∈ text, isAsciiDigit c = true) :
    Grouped text (text.map fun c => c.toNat - '0'.toNat) := by
  induction text with
  | nil => exact absurd rfl hne
  | cons c text ih =>
    have hc := digit_of_ascii (h c List.mem_cons_self)
    cases text with
    | nil => exact .last hc
    | cons e text => exact .next hc (ih (by simp) fun e he => h e (List.mem_cons_of_mem c he))

theorem valueOfDigits_eq (ds : List Nat) : valueOfDigits ds = Nat.ofDigits 10 ds.reverse := by
  rw [valueOfDigits, Nat.ofDigits_eq_foldr, List.foldr_reverse]
  simp only [Nat.cast_id, Nat.add_comm]

/-! ## Integers -/

/-- A text is a natural number in digits, no more of them than may be read. -/
def Numeral (text : List Char) (n : Nat) : Prop :=
  ∃ ds, Grouped text ds ∧ ds.length ≤ digitLimit ∧ n = Nat.ofDigits 10 ds.reverse

inductive Signed : List Char → Int → Prop
  | none {text : List Char} {n : Nat} : Numeral text n → Signed text n
  | plus {text : List Char} {n : Nat} : Numeral text n → Signed ('+' :: text) n
  | minus {text : List Char} {n : Nat} : Numeral text n → Signed ('-' :: text) (-n)

/-- A text is an integer with blanks around it. -/
def WritesInteger (raw : List Char) (n : Int) : Prop :=
  ∃ before text after, raw = before ++ (text ++ after) ∧ (∀ c ∈ before, isBlank c = true) ∧
    (∀ c ∈ after, isBlank c = true) ∧ Signed text n

theorem readNatural?_iff {text : List Char} {n : Nat} : readNatural? text = some n ↔ Numeral text n := by
  constructor
  · intro h
    rw [readNatural?] at h
    split at h
    · rename_i ds hds
      split at h
      · rename_i hlength
        cases h
        exact ⟨ds, (grouped_of_read text).1 hds, hlength, valueOfDigits_eq ds⟩
      · cases h
    · cases h
  · rintro ⟨ds, hds, hlength, rfl⟩
    rw [readNatural?, groupedDigits?_of_grouped hds]
    simp only [if_pos hlength, valueOfDigits_eq]

/-- A number without a sign begins with a digit. -/
theorem Numeral.no_sign {c : Char} {text : List Char} {n : Nat} (h : Numeral (c :: text) n) : c ≠ '+' ∧ c ≠ '-' := by
  obtain ⟨ds, hds, -⟩ := h
  have hc : ∃ d, Digit c d := by
    cases hds with
    | last hc | next hc _ | apart hc _ => exact ⟨_, hc⟩
  obtain ⟨d, hc⟩ := hc
  exact ⟨hc.ne (by decide +kernel), hc.ne (by decide +kernel)⟩

theorem readInteger?_iff {text : List Char} {n : Int} : readInteger? text = some n ↔ Signed text n := by
  constructor
  · intro h
    unfold readInteger? at h
    split at h
    all_goals
      obtain ⟨_, hread, rfl⟩ := Option.map_eq_some_iff.mp h
      obtain ⟨m, hm, hcast⟩ := Option.bind_eq_some_iff.mp hread
      cases hcast
    · exact .plus (readNatural?_iff.mp hm)
    · exact .minus (readNatural?_iff.mp hm)
    · exact .none (readNatural?_iff.mp hm)
  · intro h
    cases h with
    | plus hn => rw [readInteger?, readNatural?_iff.mpr hn]; rfl
    | minus hn => rw [readInteger?, readNatural?_iff.mpr hn]; rfl
    | none hn =>
      rw [readInteger?, readNatural?_iff.mpr hn]
      · rfl
      · rintro rest rfl
        exact hn.no_sign.1 rfl
      · rintro rest rfl
        exact hn.no_sign.2 rfl

theorem Signed.nonblank {text : List Char} {n : Int} (h : Signed text n) :
    text ≠ [] ∧ ∀ c ∈ text, isBlank c = false := by
  have hplus : isBlank '+' = false := by decide
  have hminus : isBlank '-' = false := by decide
  cases h with
  | none hn =>
    obtain ⟨ds, hds, -⟩ := hn
    refine ⟨?_, hds.nonblank⟩
    rintro rfl
    cases hds
  | plus hn =>
    obtain ⟨ds, hds, -⟩ := hn
    exact ⟨by simp, List.forall_mem_cons.mpr ⟨hplus, hds.nonblank⟩⟩
  | minus hn =>
    obtain ⟨ds, hds, -⟩ := hn
    exact ⟨by simp, List.forall_mem_cons.mpr ⟨hminus, hds.nonblank⟩⟩

/-! ## Blanks at the ends -/

theorem trimBlanks_split (raw : List Char) : ∃ before after, raw = before ++ (trimBlanks raw ++ after) ∧
    (∀ c ∈ before, isBlank c = true) ∧ ∀ c ∈ after, isBlank c = true := by
  obtain ⟨hbefore, -⟩ := run_split isBlank raw
  obtain ⟨hafter, -⟩ := run_split isBlank (raw.dropWhile isBlank).reverse
  refine ⟨raw.takeWhile isBlank, ((raw.dropWhile isBlank).reverse.takeWhile isBlank).reverse, ?_, hbefore, ?_⟩
  · rw [trimBlanks, ← List.reverse_append, List.takeWhile_append_dropWhile, List.reverse_reverse,
      List.takeWhile_append_dropWhile]
  · intro c hc
    exact hafter c (List.mem_reverse.mp hc)

theorem trimBlanks_around {before text after : List Char} (hne : text ≠ []) (htext : ∀ c ∈ text, isBlank c = false)
    (hbefore : ∀ c ∈ before, isBlank c = true) (hafter : ∀ c ∈ after, isBlank c = true) :
    trimBlanks (before ++ (text ++ after)) = text := by
  have hfront : (before ++ (text ++ after)).dropWhile isBlank = text ++ after := by
    refine (run_unique hbefore ?_).2
    intro c hc
    rw [List.head?_append_of_ne_nil _ hne] at hc
    exact htext c (List.mem_of_head? hc)
  have hback : (after.reverse ++ text.reverse).dropWhile isBlank = text.reverse := by
    refine (run_unique (fun c hc => hafter c (List.mem_reverse.mp hc)) ?_).2
    intro c hc
    exact htext c (List.mem_reverse.mp (List.mem_of_head? hc))
  rw [trimBlanks, hfront, List.reverse_append, hback, List.reverse_reverse]

theorem readInteger?_trimBlanks_iff {raw : List Char} {n : Int} :
    readInteger? (trimBlanks raw) = some n ↔ WritesInteger raw n := by
  constructor
  · intro h
    obtain ⟨before, after, hraw, hbefore, hafter⟩ := trimBlanks_split raw
    exact ⟨before, trimBlanks raw, after, hraw, hbefore, hafter, readInteger?_iff.mp h⟩
  · rintro ⟨before, text, after, rfl, hbefore, hafter, htext⟩
    obtain ⟨hne, hnonblank⟩ := htext.nonblank
    rw [trimBlanks_around hne hnonblank hbefore hafter]
    exact readInteger?_iff.mpr htext

/-! ## Settings -/

namespace Setting

theorem read_of_positive {raw : String} {n : Int} (hpos : 0 < n) (h : WritesInteger raw.toList n) :
    read (some raw) = .value n.toNat := by
  have hread := readInteger?_trimBlanks_iff.mpr h
  have hnonempty : raw.isEmpty = false := by
    cases hempty : raw.isEmpty with
    | false => rfl
    | true =>
      rw [String.isEmpty_iff.mp hempty] at hread
      cases hread
  simp only [read, hnonempty, hread, if_pos hpos, Bool.false_eq_true, if_false]

theorem positive_of_read {setting : Option String} {n : Nat} (h : read setting = .value n) :
    0 < n ∧ ∃ raw, setting = some raw ∧ WritesInteger raw.toList n := by
  cases setting with
  | none => cases h
  | some raw =>
    simp only [read] at h
    split at h
    · cases h
    split at h
    · cases h
    · rename_i m hm
      split at h
      · rename_i hpos
        cases h
        refine ⟨by omega, raw, rfl, ?_⟩
        rw [Int.toNat_of_nonneg (by omega)]
        exact readInteger?_trimBlanks_iff.mp hm
      · cases h

theorem getD_of_no_value {s : Setting} (h : ∀ n, s ≠ .value n) (default : Option Int) : s.getD default = default := by
  cases s with
  | value n => exact absurd rfl (h n)
  | _ => rfl

end Setting

/-- The decimal text of a number writes it. -/
theorem writesInteger_naturalText {n : Nat} (hlength : (Nat.toDigits 10 n).length ≤ digitLimit) :
    WritesInteger (naturalText n).toList n := by
  have hdigits : ∀ c ∈ Nat.toDigits 10 n, isAsciiDigit c = true := fun c => isAsciiDigit_of_mem_toDigits
  have hvalue : digitsValue (Nat.toDigits 10 n) = n := by rw [digitsValue_eq, Nat.ofDigitChars_ten_toDigits]
  refine ⟨[], Nat.toDigits 10 n, [], by simp [naturalText], by simp, by simp, .none ?_⟩
  refine ⟨_, grouped_of_ascii Nat.toDigits_ne_nil hdigits, by rwa [List.length_map], ?_⟩
  rw [← valueOfDigits_eq]
  exact hvalue.symm

/-- A setting is the number that its text writes, if that is positive. Any other text leaves the
    default, and so does a setting that is missing or empty. So every positive number that is not
    too long is set by its decimal text, and a limit that is set from outside is positive. -/
theorem setting_of_positive_integer (default : Option Int) :
    (∀ (raw : String) (n : Int), 0 < n → WritesInteger raw.toList n →
      (Setting.read (some raw)).getD default = some n) ∧
    (∀ raw : String, (∀ n, WritesInteger raw.toList n → n ≤ 0) → (Setting.read (some raw)).getD default = default) ∧
    (Setting.read none).getD default = default ∧ (Setting.read (some "")).getD default = default ∧
    (∀ n : Nat, 0 < n → (Nat.toDigits 10 n).length ≤ digitLimit →
      (Setting.read (some (naturalText n))).getD default = some n) ∧
    ∀ setting n, chooseLimit none (Setting.read setting) = some n → 0 < n := by
  have hset : ∀ (raw : String) (n : Int), 0 < n → WritesInteger raw.toList n →
      (Setting.read (some raw)).getD default = some n := by
    intro raw n hpos h
    rw [Setting.read_of_positive hpos h, Setting.getD, Int.toNat_of_nonneg (Int.le_of_lt hpos)]
  refine ⟨hset, ?_, rfl, rfl, ?_, ?_⟩
  · intro raw hnone
    refine Setting.getD_of_no_value ?_ default
    intro n hread
    obtain ⟨hpos, _, hraw, hwrites⟩ := Setting.positive_of_read hread
    cases hraw
    have := hnone n hwrites
    omega
  · intro n hpos hlength
    exact hset (naturalText n) n (by omega) (writesInteger_naturalText hlength)
  · intro setting n h
    rw [chooseLimit] at h
    cases hread : Setting.read setting with
    | value m =>
      rw [hread] at h
      cases h
      have := (Setting.positive_of_read hread).1
      omega
    | _ =>
      rw [hread] at h
      cases h

/-- Blanks of two kinds around a sign, digits of three scripts and an underscore; two underscores in
    a row; a negative number; and the decimal text of a number. -/
theorem setting_of_mixed_digits :
    WritesInteger "\u3000+\u0661_2\uff13\n".toList 123 ∧
    (Setting.read (some "\u3000+\u0661_2\uff13\n")).getD none = some 123 ∧
    (Setting.read (some "1__2")).getD (some 7) = some 7 ∧
    (Setting.read (some "-12")).getD (some 7) = some 7 ∧
    (Setting.read (some (naturalText 100))).getD none = some 100 := by
  have hwrites : WritesInteger "\u3000+\u0661_2\uff13\n".toList 123 :=
    readInteger?_trimBlanks_iff.mp (by decide +kernel)
  refine ⟨hwrites, (setting_of_positive_integer none).1 _ 123 (by decide) hwrites, ?_, ?_, ?_⟩
  · refine (setting_of_positive_integer (some 7)).2.1 "1__2" ?_
    intro n hn
    have hread := readInteger?_trimBlanks_iff.mpr hn
    rw [show readInteger? (trimBlanks "1__2".toList) = none by decide +kernel] at hread
    cases hread
  · refine (setting_of_positive_integer (some 7)).2.1 "-12" ?_
    intro n hn
    have hread := readInteger?_trimBlanks_iff.mpr hn
    rw [show readInteger? (trimBlanks "-12".toList) = some (-12) by decide +kernel] at hread
    cases hread
    decide
  · exact (setting_of_positive_integer none).2.2.2.2.1 100 (by decide) (by decide)

end EggLang.Session
