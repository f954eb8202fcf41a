/-
  EggLang.Proofs.Program.RoundTrip — which expressions are read back from their written form.

  The written form (the `__str__` of an expression) escapes nothing, so it is not always read as
  what was written: a quote inside a text ends it, a word with a blank in it is two words, and a
  word that begins like a number is taken for one. `WellFormed` says what must not occur.

  - `wellFormed_of_spells`: whatever is spelled by lexemes that stand in some text is well formed.
  - `layout_source`: the written form of a well-formed expression is a layout of it.
  - `reread_eq_ok_iff_wellFormed`: everything that is read is well formed, and an expression is read
    back from its written form exactly when it is well formed.
-/

import EggLang.Proofs.Program.Reading
import EggLang.Proofs.Program.Written

namespace EggLang.Program

open EggLang.Text EggLang.Numeric

/-! ## Well-formed expressions -/

/-- A name that is read as a word: characters of words alone, and digits at its front are followed
    by a letter or an underscore of ASCII. -/
structure WordShaped (name : List Char) : Prop where
  nonempty : name ≠ []
  chars : ∀ c ∈ name, isWordChar c = true
  leading : ∀ c ∈ name.head?, isAsciiDigit c = true →
    ∃ d ∈ (name.dropWhile isAsciiDigit).head?, d.isAlpha = true ∨ d = '_'

namespace Expr

mutual

/-- All leaves of the tree are such as can be read. -/
def WellFormed : Expr → Prop
  | .number n => 0 ≤ n ∧ (Nat.toDigits 10 n.toNat).length ≤ digitLimit
  | .text s => '"' ∉ s.toList
  | .word x => WordShaped x.toList
  | .apply f args => WellFormed f ∧ AllWellFormed args
  | .foreign _ => False

def AllWellFormed : List Expr → Prop
  | [] => True
  | a :: as => WellFormed a ∧ AllWellFormed as

end

end Expr

/-! ## Words -/

theorem ends_ascii {rest : List Char} (h : ∀ c ∈ rest.head?, isWordChar c = false) :
    ∀ c ∈ rest.head?, isAsciiWordChar c = false := by
  intro c hc
  cases ha : isAsciiWordChar c
  · rfl
  · exact absurd (isWordChar_of_ascii ha) (by simp [h c hc])

theorem wordShaped_of_wordRun {name rest : List Char} (h : WordRun name rest) : WordShaped name := by
  refine ⟨h.nonempty, h.chars, ?_⟩
  intro c hc hdigit
  obtain ⟨hrun, hstop⟩ := run_split isAsciiDigit name
  have hname : name.takeWhile isAsciiDigit ++ name.dropWhile isAsciiDigit = name := List.takeWhile_append_dropWhile
  have hne : name.takeWhile isAsciiDigit ≠ [] := by
    obtain ⟨c', name', rfl⟩ := List.exists_cons_of_ne_nil h.nonempty
    cases hc
    simp [hdigit]
  -- were the digits not followed by such a character, they would be a number
  cases hafter : name.dropWhile isAsciiDigit with
  | nil =>
    rw [hafter, List.append_nil] at hname
    exact absurd ⟨hne, hrun, ends_ascii h.ends⟩ (h.notNumber _ rest (by rw [hname]))
  | cons d after =>
    refine ⟨d, rfl, ?_⟩
    rw [hafter] at hname hstop
    have hd : isAsciiWordChar d = true := by
      cases hd : isAsciiWordChar d
      · have hnum : NumberRun (name.takeWhile isAsciiDigit) (d :: after ++ rest) := by
          refine ⟨hne, hrun, ?_⟩
          intro c hc
          cases hc
          exact hd
        exact absurd hnum (h.notNumber _ _ (by rw [← List.append_assoc, hname]))
      · rfl
    have hdigit : d.isDigit = false := by
      have := hstop d rfl
      simpa [isAsciiDigit, Char.isDigit, Char.le_def] using this
    simpa [isAsciiWordChar, Char.isAlphanum, hdigit] using hd

theorem wordRun_of_wordShaped {name rest : List Char} (h : WordShaped name)
    (hrest : ∀ c ∈ rest.head?, isWordChar c = false) : WordRun name rest := by
  refine ⟨h.nonempty, h.chars, hrest, ?_⟩
  intro ds after heq hnum
  obtain ⟨c, name', hname⟩ := List.exists_cons_of_ne_nil h.nonempty
  have hdigit : isAsciiDigit c = true := by
    obtain ⟨d, ds', rfl⟩ := List.exists_cons_of_ne_nil hnum.nonempty
    rw [hname] at heq
    rw [(List.cons.inj heq).1]
    exact hnum.digits d List.mem_cons_self
  obtain ⟨d, hd, hletter⟩ := h.leading c (by simp [hname]) hdigit
  -- the digits of the number are those of the name, so what follows them is the same
  have hafter : after = name.dropWhile isAsciiDigit ++ rest := by
    rw [← hnum.unique.2, ← heq, List.dropWhile_append]
    cases hdrop : name.dropWhile isAsciiDigit with
    | nil => rw [hdrop] at hd; cases hd
    | cons e drop => rfl
  have hends := hnum.ends d (by rw [hafter, List.head?_append, hd]; rfl)
  have hword : isAsciiWordChar d = true := by
    rcases hletter with hletter | rfl
    · simp [isAsciiWordChar, Char.isAlphanum, hletter]
    · decide
  rw [hends] at hword
  cases hword

/-! ## Numbers -/

theorem digitsValue_eq (ds : List Char) : digitsValue ds = Nat.ofDigitChars 10 ds 0 := by
  rw [digitsValue, valueOfDigits, List.foldl_map, Nat.ofDigitChars_eq_foldl]

theorem digitsValue_lt {ds : List Char} (h : ∀ c ∈ ds, isAsciiDigit c = true) :
    digitsValue ds < tenPow ds.length := by
  rw [digitsValue_eq]
  induction ds with
  | nil => decide
  | cons c ds ih =>
    have hc := h c List.mem_cons_self
    simp only [isAsciiDigit, Bool.and_eq_true, decide_eq_true_eq] at hc
    have hdigit : c.toNat - 48 ≤ 9 := by
      have h9 : c.toNat ≤ 57 := hc.2
      omega
    have hrest : Nat.ofDigitChars 10 ds 0 < tenPow ds.length := ih fun d hd => h d (List.mem_cons_of_mem c hd)
    have hsucc : tenPow (c :: ds).length = tenPow ds.length * 10 := rfl
    have hmul : tenPow ds.length * (c.toNat - 48) ≤ tenPow ds.length * 9 := Nat.mul_le_mul_left _ hdigit
    have hcons : Nat.ofDigitChars 10 (c :: ds) 0 = tenPow ds.length * (c.toNat - 48) + Nat.ofDigitChars 10 ds 0 := by
      rw [Nat.ofDigitChars_cons, Nat.ofDigitChars_eq_ofDigitChars_zero, Nat.mul_zero, Nat.zero_add]
      rfl
    rw [hcons, hsucc]
    omega

/-- What is read from some digits can be written in as many. -/
theorem length_toDigits_digitsValue {ds : List Char} (h : ∀ c ∈ ds, isAsciiDigit c = true) {limit : Nat}
    (hpos : 0 < limit) (hlen : ds.length ≤ limit) : (Nat.toDigits 10 (digitsValue ds)).length ≤ limit := by
  refine (length_toDigits_le hpos).mpr ?_
  exact Nat.lt_of_lt_of_le (digitsValue_lt h) (Nat.pow_le_pow_right (by decide) hlen)

theorem isAsciiDigit_of_mem_toDigits {n : Nat} {c : Char} (h : c ∈ Nat.toDigits 10 n) : isAsciiDigit c = true := by
  have hd : c.isDigit = true := Nat.isDigit_of_mem_toDigits (by decide) (by decide) h
  simpa [isAsciiDigit, Char.isDigit, Char.le_def] using hd

/-! ## Everything that is read is well formed -/

mutual

theorem wellFormed_of_spells {e : Expr} {ps : List Lexeme} :
    Spells e ps → (∀ p ∈ ps, ∃ rest, p.Stands rest) → e.WellFormed
  | .text s, h => by
    obtain ⟨rest, hs⟩ := h _ List.mem_cons_self
    rw [Expr.WellFormed, String.toList_ofList]
    exact hs
  | .number ds hlen, h => by
    obtain ⟨rest, hs⟩ := h _ List.mem_cons_self
    have hs : NumberRun ds rest := hs
    exact ⟨Int.natCast_nonneg _, length_toDigits_digitsValue hs.digits (by decide) hlen⟩
  | .word name, h => by
    obtain ⟨rest, hs⟩ := h _ List.mem_cons_self
    rw [Expr.WellFormed, String.toList_ofList]
    exact wordShaped_of_wordRun hs
  | .apply hf hargs, h => by
    refine ⟨wellFormed_of_spells hf ?_, allWellFormed_of_spells hargs ?_⟩
    · intro p hp
      exact h p (List.mem_append_left _ hp)
    · intro p hp
      exact h p (List.mem_append_right _ (List.mem_cons_of_mem _ (List.mem_append_left _ hp)))

theorem allWellFormed_of_spells {args : List Expr} {qs : List Lexeme} :
    SpellsArgs args qs → (∀ p ∈ qs, ∃ rest, p.Stands rest) → Expr.AllWellFormed args
  | .none, _ => trivial
  | .last ha, h => ⟨wellFormed_of_spells ha h, trivial⟩
  | .trailing ha, h => ⟨wellFormed_of_spells ha fun p hp => h p (List.mem_append_left _ hp), trivial⟩
  | .more ha hm, h =>
    ⟨wellFormed_of_spells ha fun p hp => h p (List.mem_append_left _ hp),
      allWellFormed_of_spells hm fun p hp => h p (List.mem_append_right _ (List.mem_cons_of_mem _ hp))⟩

end

theorem wellFormed_of_read {depth : Nat} {text : List Char} {e : Expr} (h : readProgram depth text = .ok e) :
    e.WellFormed := by
  obtain ⟨ps, hs, u, hl, -⟩ := readProgram_sound h
  exact wellFormed_of_spells hs hl.stands

/-! ## The written form of a well-formed expression is a layout of it -/

def EndsWord (rest : List Char) : Prop := ∀ c ∈ rest.head?, isWordChar c = false

theorem laid_lexeme {p : Lexeme} {rest : List Char} (h : p.Stands rest) : Laid [p] (p.chars ++ rest) rest :=
  .cons (u := []) .none h .nil

theorem Laid.blank {ps : List Lexeme} {c : Char} {text rest : List Char} (hne : ps ≠ []) (hc : isBlank c = true)
    (h : Laid ps text rest) : Laid ps (c :: text) rest := by
  cases h with
  | nil => exact absurd rfl hne
  | cons hu hs h => exact .cons (.blank hc hu) hs h

theorem toList_sources_cons (a b : Expr) (rest : List Expr) :
    (", ".intercalate (Expr.sources (a :: b :: rest))).toList =
      a.source.toList ++ (',' :: ' ' :: (", ".intercalate (Expr.sources (b :: rest))).toList) := by
  rw [Expr.sources, Expr.sources, String.intercalate_cons_cons, String.toList_append, String.toList_append]
  simp

mutual

/-- The written form of a well-formed expression spells it in front of any text that ends words. -/
theorem laid_source : ∀ {e : Expr}, e.WellFormed → ∃ ps, Spells e ps ∧
    ∀ rest, EndsWord rest → Laid ps (e.source.toList ++ rest) rest
  | .number n, h => by
    obtain ⟨hn, hlen⟩ := h
    obtain ⟨n, rfl⟩ := Int.eq_ofNat_of_zero_le hn
    have hvalue : digitsValue (Nat.toDigits 10 n) = n := by
      rw [digitsValue_eq, Nat.ofDigitChars_ten_toDigits]
    have hspell := Spells.number (Nat.toDigits 10 n) hlen
    rw [hvalue] at hspell
    refine ⟨_, hspell, fun rest hrest => ?_⟩
    have hrun : NumberRun (Nat.toDigits 10 n) rest :=
      ⟨Nat.toDigits_ne_nil, fun c => isAsciiDigit_of_mem_toDigits, ends_ascii hrest⟩
    have htext : (Expr.number n).source.toList = Nat.toDigits 10 n := String.toList_ofList
    rw [htext]
    exact laid_lexeme (p := .token (.digits _)) hrun
  | .text s, h => by
    have hspell := Spells.text s.toList
    rw [String.ofList_toList] at hspell
    refine ⟨_, hspell, fun rest _ => ?_⟩
    have htext : (Expr.text s).source.toList = (Token.text s.toList).chars := by simp [Expr.source, Token.chars]
    rw [htext]
    exact laid_lexeme (p := .token (.text _)) h
  | .word x, h => by
    have hspell := Spells.word x.toList
    rw [String.ofList_toList] at hspell
    exact ⟨_, hspell, fun rest hrest => laid_lexeme (p := .token (.word _)) (wordRun_of_wordShaped h hrest)⟩
  | .apply f args, h => by
    obtain ⟨ps, hf, hlf⟩ := laid_source h.1
    obtain ⟨qs, hargs, hla⟩ := laid_sources h.2
    refine ⟨_, .apply hf hargs, fun rest hrest => ?_⟩
    have htext : (Expr.apply f args).source.toList ++ rest =
        f.source.toList ++ ('(' :: ((", ".intercalate (Expr.sources args)).toList ++ (')' :: rest))) := by
      simp [Expr.source]
    rw [htext]
    have hclose : EndsWord (')' :: rest) := by intro c hc; cases hc; decide
    have hopen : ∀ r, EndsWord ('(' :: r) := by intro r c hc; cases hc; decide
    exact (hlf _ (hopen _)).append (.cons (u := []) .none trivial ((hla _ hclose).append (laid_lexeme trivial)))

theorem laid_sources : ∀ {args : List Expr}, Expr.AllWellFormed args → ∃ qs, SpellsArgs args qs ∧
    ∀ rest, EndsWord rest → Laid qs ((", ".intercalate (Expr.sources args)).toList ++ rest) rest
  | [], _ => ⟨[], .none, fun rest _ => by simpa [Expr.sources] using Laid.nil⟩
  | [a], h => by
    obtain ⟨ps, ha, hl⟩ := laid_source h.1
    exact ⟨ps, .last ha, fun rest hrest => by simpa [Expr.sources] using hl rest hrest⟩
  | a :: b :: args, h => by
    obtain ⟨ps, ha, hl⟩ := laid_source h.1
    obtain ⟨qs, hargs, hlq⟩ := laid_sources h.2
    refine ⟨_, .more ha hargs, fun rest hrest => ?_⟩
    rw [toList_sources_cons, List.append_assoc]
    have hcomma : ∀ r, EndsWord (',' :: r) := by intro r c hc; cases hc; decide
    have hne : qs ≠ [] := by
      cases hargs with
      | last hb => obtain ⟨t, ps', rfl⟩ := hb.begins; simp
      | trailing hb => simp
      | more hb _ => simp
    exact (hl _ (hcomma _)).append (.cons (p := .comma) (u := []) .none trivial ((hlq _ hrest).blank hne (by decide)))

end

theorem layout_source {e : Expr} (h : e.WellFormed) : Layout e e.source.toList := by
  obtain ⟨ps, hs, hl⟩ := laid_source h
  refine ⟨ps, hs, [], ?_, .none⟩
  have := hl [] (by intro c hc; cases hc)
  rwa [List.append_nil] at this

/-! ## Reading back what was written -/

mutual

theorem overlong_eq_false : ∀ {e : Expr}, e.WellFormed → e.overlong = false
  | .number n, h => by
    obtain ⟨hn, hlen⟩ := h
    obtain ⟨n, rfl⟩ := Int.eq_ofNat_of_zero_le hn
    have hlt : n < tenPow digitLimit := (length_toDigits_le (by decide)).mp hlen
    simpa [Expr.overlong, isOverlong] using hlt
  | .text s, _ => rfl
  | .word x, _ => rfl
  | .apply f args, h => by rw [Expr.overlong, overlong_eq_false h.1, anyOverlong_eq_false h.2]; rfl

theorem anyOverlong_eq_false : ∀ {args : List Expr}, Expr.AllWellFormed args → Expr.anyOverlong args = false
  | [], _ => rfl
  | a :: as, h => by rw [Expr.anyOverlong, overlong_eq_false h.1, anyOverlong_eq_false h.2]; rfl

end

/-- Write an expression, with all the depth that this takes, and read what was written. -/
def reread (depth : Nat) (e : Expr) : Except Stop Expr := do
  let written ← e.written (4 * e.nesting + 1)
  readProgram depth written.toList

theorem wellFormed_of_reread {depth : Nat} {e e' : Expr} (h : reread depth e = .ok e') : e'.WellFormed := by
  obtain ⟨s, -, hread⟩ := bind_eq_ok h
  exact wellFormed_of_read hread

theorem reread_of_wellFormed {depth : Nat} {e : Expr} (h : e.WellFormed) (hd : e.source.length < depth) :
    reread depth e = .ok e := by
  have hwritten : e.written (4 * e.nesting + 1) = .ok e.source := by
    rw [Expr.written_eq (by omega), overlong_eq_false h]
    rfl
  rw [reread, hwritten]
  exact readProgram_complete (layout_source h) (by rwa [String.length_toList])

/-- Everything that is read is well formed. An expression is read back from its written form, given
    more depth than that has characters, exactly when it is well formed; so what was read once is
    read again from its written form. -/
theorem reread_eq_ok_iff_wellFormed :
    (∀ depth text e, readProgram depth text = .ok e → e.WellFormed) ∧
    (∀ depth e, e.source.length < depth → (reread depth e = .ok e ↔ e.WellFormed)) ∧
    ∀ depth depth' text e, readProgram depth text = .ok e → e.source.length < depth' → reread depth' e = .ok e :=
  ⟨fun _ _ _ h => wellFormed_of_read h,
    fun _ _ hd => ⟨wellFormed_of_reread, fun h => reread_of_wellFormed h hd⟩,
    fun _ _ _ _ h hd => reread_of_wellFormed (wellFormed_of_read h) hd⟩

/-- A word that begins with a digit is read back, and so is a number with its leading zeros gone. A
    word that is all digits is not well formed. -/
theorem reread_digits :
    readProgram 9 "1a(007)".toList = .ok (.apply (.word "1a") [.number 7]) ∧
    (Expr.apply (.word "1a") [.number 7]).WellFormed ∧
    reread 9 (.apply (.word "1a") [.number 7]) = .ok (.apply (.word "1a") [.number 7]) ∧
    ¬(Expr.word "12").WellFormed := by
  have hread : readProgram 9 "1a(007)".toList = .ok (.apply (.word "1a") [.number 7]) := by decide +kernel
  have hagain := reread_eq_ok_iff_wellFormed.2.2 9 9 _ _ hread (by decide +kernel)
  refine ⟨hread, reread_eq_ok_iff_wellFormed.1 9 _ _ hread, hagain, ?_⟩
  rw [← reread_eq_ok_iff_wellFormed.2.1 9 (.word "12") (by decide +kernel)]
  decide +kernel

end EggLang.Program
