/-
  EggLang.Proofs.Program.Lexing — filler and tokens are found where they stand.

  - `filler_skipFiller` / `skipFiller_head`: what `skipFiller` (`skip_space`) takes off a text is
    filler, and no more filler follows it.
  - `skipFiller_append`: filler in front of a text is taken off whole.
  - `next?_sound` / `next?_complete`: the token taken off a text stands at its front, and one that
    stands there is taken.
  - `laid_unique`: a text lays out one row of lexemes at most.
-/

import EggLang.Program.Reader
import EggLang.Proofs.Program.Layout

namespace EggLang.Program

open EggLang.Text EggLang.Numeric

/-! ## Filler -/

def Bare (text : List Char) : Prop := ∀ c ∈ text.head?, isBlank c = false ∧ c ≠ '#'

theorem bare_cons {c : Char} {text : List Char} (hb : isBlank c = false) (hc : c ≠ '#') : Bare (c :: text) := by
  intro d hd
  cases hd
  exact ⟨hb, hc⟩

theorem skipFiller_bare {text : List Char} (h : Bare text) : skipFiller text = text := by
  cases text with
  | nil => rfl
  | cons c rest =>
    obtain ⟨hb, hc⟩ := h c rfl
    simp [skipFiller, hb, hc]

theorem skipFiller_blank {c : Char} {rest : List Char} (h : isBlank c = true) :
    skipFiller (c :: rest) = skipFiller rest := by
  simp [skipFiller, h]

theorem skipFiller_comment (rest : List Char) : skipFiller ('#' :: rest) = skipComment rest := by
  have hb : isBlank '#' = false := by decide
  simp [skipFiller, hb]

/-- A comment is left behind at a line end or at the end of the text. -/
theorem skipComment_stop {rest : List Char} (h : ∀ c ∈ rest.head?, isLineEnd c = true) :
    skipComment rest = skipFiller rest := by
  cases rest with
  | nil => rfl
  | cons c rest =>
    have hc : isLineEnd c = true := h c rfl
    rw [skipFiller_blank (isBlank_of_isLineEnd hc)]
    simp [skipComment, hc]

theorem skipComment_append {body rest : List Char} (h : ∀ c ∈ body, isLineEnd c = false) :
    skipComment (body ++ rest) = skipComment rest := by
  induction body with
  | nil => rfl
  | cons c body ih =>
    have hc : isLineEnd c = false := h c List.mem_cons_self
    rw [List.cons_append, skipComment, if_neg (by simp [hc])]
    exact ih fun d hd => h d (List.mem_cons_of_mem c hd)

theorem skipFiller_append {u rest : List Char} (h : Filler rest u) : skipFiller (u ++ rest) = skipFiller rest := by
  induction h with
  | none => rfl
  | blank hb _ ih => rw [List.cons_append, skipFiller_blank hb, ih]
  | comment hbody hstop _ ih =>
    rw [List.cons_append, skipFiller_comment, List.append_assoc, skipComment_append hbody, skipComment_stop hstop, ih]

mutual

/-- What `skipFiller` takes off is filler. -/
theorem filler_skipFiller : ∀ text, ∃ u, text = u ++ skipFiller text ∧ Filler (skipFiller text) u
  | [] => ⟨[], rfl, .none⟩
  | c :: rest => by
    by_cases hb : isBlank c = true
    · obtain ⟨u, hu, hf⟩ := filler_skipFiller rest
      rw [skipFiller_blank hb]
      exact ⟨c :: u, by rw [List.cons_append, ← hu], .blank hb hf⟩
    by_cases hc : c = '#'
    · subst hc
      obtain ⟨body, u, hu, hbody, hstop, hf⟩ := comment_skipComment rest
      rw [skipFiller_comment]
      exact ⟨'#' :: (body ++ u), by rw [List.cons_append, List.append_assoc, ← hu], .comment hbody hstop hf⟩
    · rw [skipFiller_bare (bare_cons (by simpa using hb) hc)]
      exact ⟨[], rfl, .none⟩

/-- What `skipComment` takes off is the rest of a comment and filler behind it. -/
theorem comment_skipComment : ∀ text, ∃ body u, text = body ++ (u ++ skipComment text) ∧
    (∀ c ∈ body, isLineEnd c = false) ∧ (∀ c ∈ (u ++ skipComment text).head?, isLineEnd c = true) ∧
    Filler (skipComment text) u
  | [] => ⟨[], [], rfl, by simp, by simp [skipComment], .none⟩
  | c :: rest => by
    by_cases hc : isLineEnd c = true
    · obtain ⟨u, hu, hf⟩ := filler_skipFiller rest
      have hskip : skipComment (c :: rest) = skipFiller rest := by simp [skipComment, hc]
      rw [hskip]
      refine ⟨[], c :: u, by rw [List.nil_append, List.cons_append, ← hu], by simp, ?_,
        .blank (isBlank_of_isLineEnd hc) hf⟩
      intro d hd
      cases hd
      exact hc
    · obtain ⟨body, u, hu, hbody, hstop, hf⟩ := comment_skipComment rest
      have hskip : skipComment (c :: rest) = skipComment rest := by simp [skipComment, hc]
      rw [hskip]
      refine ⟨c :: body, u, by rw [List.cons_append, ← hu], ?_, hstop, hf⟩
      intro d hd
      rcases List.mem_cons.mp hd with rfl | hd
      · simpa using hc
      · exact hbody d hd

end

mutual

/-- No filler follows what `skipFiller` takes off. -/
theorem skipFiller_head : ∀ text, Bare (skipFiller text)
  | [] => by intro c hc; cases hc
  | c :: rest => by
    by_cases hb : isBlank c = true
    · rw [skipFiller_blank hb]
      exact skipFiller_head rest
    by_cases hc : c = '#'
    · subst hc
      rw [skipFiller_comment]
      exact skipComment_head rest
    · have hbare : Bare (c :: rest) := bare_cons (by simpa using hb) hc
      rw [skipFiller_bare hbare]
      exact hbare

theorem skipComment_head : ∀ text, Bare (skipComment text)
  | [] => by intro c hc; cases hc
  | c :: rest => by
    rw [skipComment]
    split
    · exact skipFiller_head rest
    · exact skipComment_head rest

end

@[simp] theorem skipFiller_skipFiller (text : List Char) : skipFiller (skipFiller text) = skipFiller text :=
  skipFiller_bare (skipFiller_head text)

/-! ## Tokens -/

theorem run_split (p : Char → Bool) (s : List Char) :
    (∀ c ∈ s.takeWhile p, p c = true) ∧ ∀ c ∈ (s.dropWhile p).head?, p c = false := by
  refine ⟨List.all_eq_true.mp List.all_takeWhile, ?_⟩
  intro c hc
  have h := List.head?_dropWhile_not p s
  rw [hc] at h
  exact h

/-- A run that cannot go on is the one that is taken. -/
theorem run_unique {p : Char → Bool} {run rest : List Char} (hrun : ∀ c ∈ run, p c = true)
    (hrest : ∀ c ∈ rest.head?, p c = false) :
    (run ++ rest).takeWhile p = run ∧ (run ++ rest).dropWhile p = rest := by
  rw [List.takeWhile_append_of_pos hrun, List.dropWhile_append_of_pos hrun]
  cases rest with
  | nil => simp
  | cons c rest =>
    have hc : p c = false := hrest c rfl
    simp [hc]

theorem endsNumber_iff (rest : List Char) :
    endsNumber rest = true ↔ ∀ c ∈ rest.head?, isAsciiWordChar c = false := by
  cases rest <;> simp [endsNumber]

theorem isAsciiWordChar_of_digit {c : Char} (h : isAsciiDigit c = true) : isAsciiWordChar c = true := by
  have hd : c.isDigit = true := by
    simp only [isAsciiDigit, Bool.and_eq_true, decide_eq_true_eq] at h
    simp only [Char.isDigit, Bool.and_eq_true, decide_eq_true_eq]
    exact h
  simp [isAsciiWordChar, Char.isAlphanum, hd]

/-- A number is all the digits that a text begins with. -/
theorem NumberRun.unique {ds rest : List Char} (h : NumberRun ds rest) :
    (ds ++ rest).takeWhile isAsciiDigit = ds ∧ (ds ++ rest).dropWhile isAsciiDigit = rest := by
  refine run_unique h.digits ?_
  intro c hc
  cases hd : isAsciiDigit c
  · rfl
  · exact absurd (isAsciiWordChar_of_digit hd) (by simp [h.ends c hc])

namespace Token

theorem text?_eq_some_iff {s rest : List Char} {t : Token} :
    text? s = some (t, rest) ↔ ∃ u, t = .text u ∧ s = '"' :: (u ++ '"' :: rest) ∧ '"' ∉ u := by
  constructor
  · intro h
    unfold text? at h
    split at h
    · rename_i s'
      obtain ⟨hrun, hrest⟩ := run_split (· != '"') s'
      have hs := List.takeWhile_append_dropWhile (p := (· != '"')) (l := s')
      split at h
      · rename_i c after hdrop
        cases h
        rw [hdrop] at hs hrest
        have hc : c = '"' := by simpa using hrest c rfl
        subst hc
        exact ⟨_, rfl, by rw [hs], fun hq => by simpa using hrun _ hq⟩
      · cases h
    · cases h
  · rintro ⟨u, rfl, rfl, hu⟩
    have hrun : ∀ c ∈ u, (c != '"') = true := by
      intro c hc
      simp only [bne_iff_ne]
      rintro rfl
      exact hu hc
    have hrest : ∀ c ∈ ('"' :: rest).head?, (c != '"') = false := by simp
    obtain ⟨htake, hdrop⟩ := run_unique hrun hrest
    simp only [text?, htake, hdrop]

theorem digits?_eq_some_iff {s rest : List Char} {t : Token} :
    digits? s = some (t, rest) ↔ ∃ ds, t = .digits ds ∧ s = ds ++ rest ∧ NumberRun ds rest := by
  constructor
  · intro h
    obtain ⟨hrun, -⟩ := run_split isAsciiDigit s
    simp only [digits?] at h
    split at h
    · rename_i hc
      simp only [Bool.and_eq_true, Bool.not_eq_true', List.isEmpty_eq_false_iff] at hc
      cases h
      exact ⟨_, rfl, List.takeWhile_append_dropWhile.symm, hc.1, hrun, (endsNumber_iff _).mp hc.2⟩
    · cases h
  · rintro ⟨ds, rfl, rfl, hn⟩
    obtain ⟨htake, hdrop⟩ := hn.unique
    have hends := (endsNumber_iff rest).mpr hn.ends
    have hne := hn.nonempty
    simp [digits?, htake, hdrop, hends, hne]

theorem word?_eq_some_iff {s rest : List Char} {t : Token} :
    word? s = some (t, rest) ↔ ∃ name, t = .word name ∧ s = name ++ rest ∧ name ≠ [] ∧
      (∀ c ∈ name, isWordChar c = true) ∧ ∀ c ∈ rest.head?, isWordChar c = false := by
  constructor
  · intro h
    obtain ⟨hrun, hrest⟩ := run_split isWordChar s
    simp only [word?] at h
    split at h
    · cases h
    · rename_i hne
      cases h
      exact ⟨_, rfl, List.takeWhile_append_dropWhile.symm, by simpa using hne, hrun, hrest⟩
  · rintro ⟨name, rfl, rfl, hne, hrun, hrest⟩
    obtain ⟨htake, hdrop⟩ := run_unique hrun hrest
    simp [word?, htake, hdrop, hne]

theorem text?_eq_none {c : Char} {s : List Char} (hc : c ≠ '"') : text? (c :: s) = none := by
  unfold text?
  split
  · rename_i h
    cases h
    exact absurd rfl hc
  · rfl

theorem next?_sound {s rest : List Char} {t : Token} (h : next? s = some (t, rest)) :
    s = t.chars ++ rest ∧ t.Stands rest := by
  simp only [next?] at h
  cases htext : text? s with
  | some r =>
    rw [htext] at h
    cases h
    obtain ⟨u, rfl, rfl, hu⟩ := text?_eq_some_iff.mp htext
    exact ⟨by simp [chars], hu⟩
  | none =>
    rw [htext] at h
    cases hdigits : digits? s with
    | some r =>
      rw [hdigits] at h
      cases h
      obtain ⟨ds, rfl, rfl, hds⟩ := digits?_eq_some_iff.mp hdigits
      exact ⟨rfl, hds⟩
    | none =>
      rw [hdigits] at h
      obtain ⟨name, rfl, rfl, hne, hrun, hrest⟩ := word?_eq_some_iff.mp h
      refine ⟨rfl, hne, hrun, hrest, ?_⟩
      intro ds after heq hds
      have := digits?_eq_some_iff.mpr ⟨ds, rfl, heq, hds⟩
      rw [hdigits] at this
      cases this

theorem next?_complete {rest : List Char} {t : Token} (h : t.Stands rest) :
    next? (t.chars ++ rest) = some (t, rest) := by
  cases t with
  | text s =>
    have htext : text? ((Token.text s).chars ++ rest) = some (.text s, rest) :=
      text?_eq_some_iff.mpr ⟨s, rfl, by simp [chars], h⟩
    simp [next?, htext]
  | digits ds =>
    have hds : NumberRun ds rest := h
    have hdigits : digits? (ds ++ rest) = some (.digits ds, rest) := digits?_eq_some_iff.mpr ⟨ds, rfl, rfl, hds⟩
    have htext : text? (ds ++ rest) = none := by
      obtain ⟨c, ds', rfl⟩ := List.exists_cons_of_ne_nil hds.nonempty
      refine text?_eq_none ?_
      rintro rfl
      exact absurd (hds.digits _ List.mem_cons_self) (by decide)
    simp [next?, chars, htext, hdigits]
  | word name =>
    have hw : WordRun name rest := h
    have hword : word? (name ++ rest) = some (.word name, rest) :=
      word?_eq_some_iff.mpr ⟨name, rfl, rfl, hw.nonempty, hw.chars, hw.ends⟩
    have htext : text? (name ++ rest) = none := by
      obtain ⟨c, name', rfl⟩ := List.exists_cons_of_ne_nil hw.nonempty
      refine text?_eq_none ?_
      rintro rfl
      exact absurd (hw.chars _ List.mem_cons_self) (by decide)
    have hdigits : digits? (name ++ rest) = none := by
      cases hd : digits? (name ++ rest) with
      | none => rfl
      | some r =>
        obtain ⟨ds, -, heq, hds⟩ := digits?_eq_some_iff.mp hd
        exact absurd hds (hw.notNumber ds r.2 heq)
    simp [next?, chars, htext, hdigits, hword]

end Token

/-! ## Lexemes -/

/-- The letters, digits and the underscore of ASCII are all characters of words. -/
theorem isWordChar_of_ascii {c : Char} (h : isAsciiWordChar c = true) : isWordChar c = true := by
  have hrange : 48 ≤ c.toNat ∧ c.toNat ≤ 122 := by
    have hclass : (((c.isUpper || c.isLower) || c.isDigit) || c == '_') = true := h
    simp only [Bool.or_eq_true, beq_iff_eq] at hclass
    rcases hclass with ((h | h) | h) | rfl
    · have hr : c.val ≥ 'A'.val ∧ c.val ≤ 'Z'.val := of_decide_eq_true h
      have h1 : 65 ≤ c.toNat := hr.1
      have h2 : c.toNat ≤ 90 := hr.2
      omega
    · obtain ⟨ha, hz⟩ := Bool.and_eq_true_iff.mp h
      have h1 : 97 ≤ c.toNat := of_decide_eq_true ha
      have h2 : c.toNat ≤ 122 := of_decide_eq_true hz
      omega
    · obtain ⟨h0, h9⟩ := Bool.and_eq_true_iff.mp h
      have h1 : 48 ≤ c.toNat := of_decide_eq_true h0
      have h2 : c.toNat ≤ 57 := of_decide_eq_true h9
      omega
    · decide
  have hb : isBlank c = false := by
    simp only [isBlank, inRanges, blankRanges, CodeRange.has, List.any_cons, List.any_nil, Bool.or_eq_false_iff,
      Bool.and_eq_false_iff, decide_eq_false_iff_not, and_true]
    omega
  have hne : ∀ d : Char, d.toNat < 48 → c ≠ d := by
    rintro d hd rfl
    omega
  simp [isWordChar, hb, hne '(' (by decide), hne ')' (by decide), hne ',' (by decide), hne '#' (by decide),
    hne '"' (by decide)]

theorem isWordChar_of_digit {c : Char} (h : isAsciiDigit c = true) : isWordChar c = true :=
  isWordChar_of_ascii (isAsciiWordChar_of_digit h)

/-- The first character of a token is no filler, bracket or comma. -/
theorem Token.chars_head {t : Token} {rest : List Char} (h : t.Stands rest) :
    ∃ c cs, t.chars = c :: cs ∧ isBlank c = false ∧ c ≠ '#' ∧ c ≠ '(' ∧ c ≠ ')' ∧ c ≠ ',' := by
  have hword : ∀ c, isWordChar c = true → isBlank c = false ∧ c ≠ '#' ∧ c ≠ '(' ∧ c ≠ ')' ∧ c ≠ ',' := by
    intro c hc
    simp only [isWordChar, Bool.and_eq_true, Bool.not_eq_true', bne_iff_ne] at hc
    exact ⟨hc.1.1.1.1.1, hc.1.2, hc.1.1.1.1.2, hc.1.1.1.2, hc.1.1.2⟩
  cases t with
  | text s => exact ⟨'"', _, rfl, by decide⟩
  | digits ds =>
    have hds : NumberRun ds rest := h
    obtain ⟨c, cs, rfl⟩ := List.exists_cons_of_ne_nil hds.nonempty
    exact ⟨c, cs, rfl, hword c (isWordChar_of_digit (hds.digits c List.mem_cons_self))⟩
  | word name =>
    have hw : WordRun name rest := h
    obtain ⟨c, cs, rfl⟩ := List.exists_cons_of_ne_nil hw.nonempty
    exact ⟨c, cs, rfl, hword c (hw.chars c List.mem_cons_self)⟩

/-- Filler ends where a lexeme begins. -/
theorem bare_lexeme {p : Lexeme} {text : List Char} (h : p.Stands text) : Bare (p.chars ++ text) := by
  cases p with
  | token t =>
    obtain ⟨c, cs, hc, hb, hh, -⟩ := Token.chars_head h
    rw [Lexeme.chars, hc]
    exact bare_cons hb hh
  | opening => exact bare_cons (by decide) (by decide)
  | closing => exact bare_cons (by decide) (by decide)
  | comma => exact bare_cons (by decide) (by decide)

theorem length_chars_pos {p : Lexeme} {text : List Char} (h : p.Stands text) : 0 < p.chars.length := by
  cases p with
  | token t =>
    obtain ⟨c, cs, hc, -⟩ := Token.chars_head h
    rw [Lexeme.chars, hc]
    exact Nat.succ_pos _
  | _ => exact Nat.one_pos

/-- The text behind the filler in front of a row begins with the first lexeme of the row. -/
theorem Laid.cons_inv {p : Lexeme} {ps : List Lexeme} {text rest : List Char} (h : Laid (p :: ps) text rest) :
    ∃ after, skipFiller text = p.chars ++ after ∧ p.Stands after ∧ Laid ps after rest ∧
      after.length < text.length := by
  cases h with
  | @cons _ _ u after _ hu hs h =>
    refine ⟨after, by rw [skipFiller_append hu, skipFiller_bare (bare_lexeme hs)], hs, h, ?_⟩
    have := length_chars_pos hs
    simp only [List.length_append]
    omega

theorem Laid.of_skipFiller {p : Lexeme} {ps : List Lexeme} {text after rest : List Char}
    (hskip : skipFiller text = p.chars ++ after) (hs : p.Stands after) (h : Laid ps after rest) :
    Laid (p :: ps) text rest := by
  obtain ⟨u, hu, hf⟩ := filler_skipFiller text
  rw [hskip] at hu hf
  rw [hu]
  exact .cons hf hs h

theorem Laid.length_le {ps : List Lexeme} {text rest : List Char} (h : Laid ps text rest) :
    rest.length ≤ text.length := by
  induction h with
  | nil => exact Nat.le_refl _
  | cons _ _ _ ih => simp only [List.length_append]; omega

/-- One lexeme at most begins a text. -/
theorem lexeme_unique {p q : Lexeme} {text rest : List Char} (heq : p.chars ++ text = q.chars ++ rest)
    (hp : p.Stands text) (hq : q.Stands rest) : p = q ∧ text = rest := by
  -- a token is told from a bracket or comma by its first character
  have hmixed : ∀ {t : Token} {r : List Char} {c : Char} {r' : List Char}, t.Stands r → t.chars ++ r = c :: r' →
      c ≠ '(' ∧ c ≠ ')' ∧ c ≠ ',' := by
    intro t r c r' ht he
    obtain ⟨d, ds, hd, -, -, h⟩ := Token.chars_head ht
    rw [hd] at he
    cases he
    exact h
  cases p with
  | token s =>
    cases q with
    | token t =>
      have hs := Token.next?_complete hp
      have ht := Token.next?_complete hq
      rw [show s.chars ++ text = t.chars ++ rest from heq, ht] at hs
      cases hs
      exact ⟨rfl, rfl⟩
    | opening => exact absurd rfl (hmixed hp heq).1
    | closing => exact absurd rfl (hmixed hp heq).2.1
    | comma => exact absurd rfl (hmixed hp heq).2.2
  | opening =>
    cases q with
    | token t => exact absurd rfl (hmixed hq heq.symm).1
    | opening => cases heq; exact ⟨rfl, rfl⟩
    | _ => cases heq
  | closing =>
    cases q with
    | token t => exact absurd rfl (hmixed hq heq.symm).2.1
    | closing => cases heq; exact ⟨rfl, rfl⟩
    | _ => cases heq
  | comma =>
    cases q with
    | token t => exact absurd rfl (hmixed hq heq.symm).2.2
    | comma => cases heq; exact ⟨rfl, rfl⟩
    | _ => cases heq

/-- No lexeme stands in a text that is all filler. -/
theorem not_laid_of_filler {p : Lexeme} {ps : List Lexeme} {text rest : List Char} (hf : Filler [] text) :
    ¬Laid (p :: ps) text rest := by
  intro h
  obtain ⟨after, hskip, hs, -⟩ := h.cons_inv
  have hnil : skipFiller text = [] := by
    have := skipFiller_append hf
    rw [List.append_nil] at this
    exact this
  have := length_chars_pos hs
  rw [hnil] at hskip
  rw [List.append_eq_nil_iff.mp hskip.symm |>.1] at this
  exact absurd this (by simp)

/-- A text lays out one row of lexemes at most. -/
theorem laid_unique {ps qs : List Lexeme} {text : List Char} (hp : LaidOut ps text) (hq : LaidOut qs text) :
    ps = qs := by
  obtain ⟨u, hp, hu⟩ := hp
  obtain ⟨v, hq, hv⟩ := hq
  induction hp generalizing qs with
  | nil =>
    cases qs with
    | nil => rfl
    | cons q qs => exact absurd hq (not_laid_of_filler hu)
  | @cons p ps w text rest hw hs hl ih =>
    cases qs with
    | nil =>
      cases hq
      exact absurd (Laid.cons hw hs hl) (not_laid_of_filler hv)
    | cons q qs =>
      obtain ⟨after, hskip, hq', hlq, -⟩ := hq.cons_inv
      rw [skipFiller_append hw, skipFiller_bare (bare_lexeme hs)] at hskip
      obtain ⟨rfl, rfl⟩ := lexeme_unique hskip hs hq'
      rw [ih hu hlq]

end EggLang.Program
