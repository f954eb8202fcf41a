/-
  EggLang.Proofs.Program.Appending — what reading leaves of a text, and text that is put behind it.

  What is left when an expression has been read is the end of the text: it is shorter than the text,
  no filler begins it, and no argument list does either, as that would have been read too
  (`LeftOver`).

  Where something is left, reading was over before the end of the text. Filler, words and numbers go
  as far as they can, but all of them have ended in front of what is left; so nothing that was
  decided depends on the text behind it, and a text that is put there is left as well (`Extends`).

  - `readExpr_readCalls_leftOver`: what is left.
  - `readExpr_readCalls_extend`: text put behind what is left.
  - `reading_stable_under_append`: both, for expressions (`parse_expression`) and for argument lists
    at the front of a text (`parse_apply`).
-/

import Mathlib.Data.List.Basic
import EggLang.Proofs.Program.RoundTrip

namespace EggLang.Program

open EggLang.Text

/-! ## Turns of the loop over an argument list -/

section

variable {read : List Char → Read} {room : Nat} {text behind after rest : List Char} {arg : Expr} {args : List Expr}

/-- A turn of the loop over an argument list that comes to the end of the list. -/
theorem readArgs_last (hclosing : ∀ after, text ≠ ')' :: after) (hend : text ≠ []) (harg : read text = .ok (arg, behind))
    (hskip : skipFiller behind = ')' :: after) : readArgs read (room + 1) text = .ok ([arg], after) := by
  rw [readArgs.eq_4 _ _ _ hclosing hend, harg]
  simp only [bind, Except.bind, hskip]
  rfl

/-- A turn that comes to a comma. -/
theorem readArgs_next (hclosing : ∀ after, text ≠ ')' :: after) (hend : text ≠ []) (harg : read text = .ok (arg, behind))
    (hskip : skipFiller behind = ',' :: after) (hargs : readArgs read room (skipFiller after) = .ok (args, rest)) :
    readArgs read (room + 1) text = .ok (arg :: args, rest) := by
  rw [readArgs.eq_4 _ _ _ hclosing hend, harg]
  simp only [bind, Except.bind, hskip, hargs]
  rfl

theorem readArgs_ne_nil (h : readArgs read room text = .ok (args, rest)) : text ≠ [] := by
  rintro rfl
  rw [readArgs] at h
  cases h

end

/-! ## What is left -/

structure LeftOver (text rest : List Char) : Prop where
  ends : rest <:+ text
  bare : skipFiller rest = rest
  noList : ∀ after, rest ≠ '(' :: after

theorem skipFiller_suffix (text : List Char) : skipFiller text <:+ text := by
  obtain ⟨u, hu, -⟩ := filler_skipFiller text
  exact ⟨u, hu.symm⟩

theorem suffix_of_skipFiller {text rest : List Char} {c : Char} (h : skipFiller text = c :: rest) : rest <:+ text :=
  (h ▸ List.suffix_cons c rest).trans (skipFiller_suffix text)

theorem readArgs_suffix {read : List Char → Read}
    (hread : ∀ {text e rest}, read text = .ok (e, rest) → rest <:+ text) {room : Nat} :
    ∀ {text args rest}, readArgs read room text = .ok (args, rest) → rest <:+ text := by
  induction room with
  | zero =>
    intro text args rest h
    obtain ⟨rfl, -⟩ | ⟨_, _, _, hroom, -⟩ := readArgs_cases h
    · exact List.suffix_cons ')' rest
    · cases hroom
  | succ room ih =>
    intro text args rest h
    obtain ⟨rfl, -⟩ | ⟨room', arg, behind, hroom, harg, hnext⟩ := readArgs_cases h
    · exact List.suffix_cons ')' rest
    cases hroom
    obtain ⟨hskip, -⟩ | ⟨after, args', hskip, hargs, -⟩ := hnext
    · exact (suffix_of_skipFiller hskip).trans (hread harg)
    · have hafter := (suffix_of_skipFiller hskip).trans (hread harg)
      exact (ih hargs).trans ((skipFiller_suffix after).trans hafter)

theorem readExpr_readCalls_leftOver (room depth : Nat) :
    (∀ {text e rest}, readExpr room depth text = .ok (e, rest) →
      LeftOver text rest ∧ rest.length < text.length) ∧
    ∀ {f text e rest}, readCalls room depth f text = .ok (e, rest) → LeftOver text rest := by
  induction depth with
  | zero =>
    refine ⟨?_, ?_⟩
    · intro text e rest h
      cases h
    · intro f text e rest h
      cases h
  | succ depth ih =>
    obtain ⟨ihExpr, ihCalls⟩ := ih
    refine ⟨?_, ?_⟩
    · intro text e rest h
      obtain ⟨_, atom, behind, hdepth, hatom, hcalls⟩ := readExpr_cases h
      cases hdepth
      obtain ⟨t, htext, hstands, -⟩ := readToken_cases hatom
      have hleft := ihCalls hcalls
      have hbehind : behind <:+ text := (htext ▸ List.suffix_append t.chars behind).trans (skipFiller_suffix text)
      refine ⟨⟨hleft.ends.trans hbehind, hleft.bare, hleft.noList⟩, ?_⟩
      -- the token takes a character at least
      have hpos := length_chars_pos (p := .token t) hstands
      have hlength := congrArg List.length htext
      have hskip := (skipFiller_suffix text).length_le
      have hrest := hleft.ends.length_le
      simp only [List.length_append, Lexeme.chars] at hlength hpos
      omega
    · intro f text e rest h
      obtain ⟨_, hdepth, ⟨behind, args, after, hskip, hargs, hcalls⟩ | ⟨-, rfl, hother⟩⟩ := readCalls_cases h
      · cases hdepth
        have hleft := ihCalls hcalls
        have hafter : after <:+ text :=
          (readArgs_suffix (fun h => (ihExpr h).1.ends) hargs).trans
            ((skipFiller_suffix behind).trans (suffix_of_skipFiller hskip))
        exact ⟨hleft.ends.trans hafter, hleft.bare, hleft.noList⟩
      · exact ⟨skipFiller_suffix text, skipFiller_skipFiller text, hother⟩

/-! ## Text behind what is left -/

theorem Filler.extend {u rest : List Char} (h : Filler rest u) (hne : rest ≠ []) (s : List Char) :
    Filler (rest ++ s) u := by
  induction h with
  | none => exact .none
  | blank hb _ ih => exact .blank hb ih
  | comment hbody hstop _ ih =>
    refine .comment hbody ?_ ih
    rw [← List.append_assoc, List.head?_append_of_ne_nil _ (by simp [hne])]
    exact hstop

/-- Filler in front of something is the same with more text behind that. -/
theorem skipFiller_extend {text : List Char} (h : skipFiller text ≠ []) (s : List Char) :
    skipFiller (text ++ s) = skipFiller text ++ s := by
  obtain ⟨u, hu, hf⟩ := filler_skipFiller text
  have hbare : Bare (skipFiller text ++ s) := by
    intro c hc
    rw [List.head?_append_of_ne_nil _ h] at hc
    exact skipFiller_head text c hc
  calc skipFiller (text ++ s) = skipFiller (u ++ (skipFiller text ++ s)) := by rw [← List.append_assoc, ← hu]
    _ = skipFiller (skipFiller text ++ s) := skipFiller_append (hf.extend h s)
    _ = skipFiller text ++ s := skipFiller_bare hbare

theorem Token.Stands.extend {t : Token} {rest : List Char} (h : t.Stands rest) (hne : rest ≠ []) (s : List Char) :
    t.Stands (rest ++ s) := by
  cases t with
  | text u => exact h
  | digits ds =>
    obtain ⟨hds, hdigits, hends⟩ := h
    exact ⟨hds, hdigits, by rwa [List.head?_append_of_ne_nil _ hne]⟩
  | word name =>
    have hrun : WordRun name rest := h
    refine wordRun_of_wordShaped (wordShaped_of_wordRun hrun) ?_
    rw [List.head?_append_of_ne_nil _ hne]
    exact hrun.ends

theorem readToken_extend {text rest : List Char} {e : Expr} (h : readToken text = .ok (e, rest)) (hne : rest ≠ [])
    (s : List Char) : readToken (text ++ s) = .ok (e, rest ++ s) := by
  obtain ⟨t, rfl, hstands, he⟩ := readToken_cases h
  rw [List.append_assoc]
  exact readToken_complete (hstands.extend hne s) he

theorem append_ne_cons {text : List Char} {c : Char} (hne : text ≠ []) (h : ∀ after, text ≠ c :: after)
    (s : List Char) : ∀ after, text ++ s ≠ c :: after := by
  intro after heq
  obtain ⟨d, text', rfl⟩ := List.exists_cons_of_ne_nil hne
  cases heq
  exact h text' rfl

/-- What one reader reads from a text and leaves something of, the other reads from the text with
    `s` behind it, and leaves `s` too. -/
def Extends (s : List Char) (read read' : List Char → Read) : Prop :=
  ∀ {text e rest}, read text = .ok (e, rest) → rest ≠ [] → read' (text ++ s) = .ok (e, rest ++ s)

/-- A list ends with a bracket, so it does not matter whether anything is left behind it. -/
theorem readArgs_extend {s : List Char} {read read' : List Char → Read} (hread : Extends s read read')
    {room room' : Nat} (hroom : room ≤ room') {text rest : List Char} {args : List Expr}
    (h : readArgs read room text = .ok (args, rest)) : readArgs read' room' (text ++ s) = .ok (args, rest ++ s) := by
  fun_induction readArgs read room text generalizing room' args rest with
  | case1 _ behind =>
    cases h
    rw [List.cons_append, readArgs]
  | case2 => cases h
  | case3 => cases h
  | case4 room text hclosing hend ih =>
    obtain ⟨room', rfl⟩ : ∃ k, room' = k + 1 := ⟨room' - 1, by omega⟩
    obtain ⟨⟨arg, behind⟩, harg, h⟩ := bind_eq_ok h
    have hclosing' := append_ne_cons hend hclosing s
    have hend' : text ++ s ≠ [] := fun heq => hend (List.append_eq_nil_iff.mp heq).1
    have hextend : ∀ {c after}, skipFiller behind = c :: after → read' (text ++ s) = .ok (arg, behind ++ s) ∧
        skipFiller (behind ++ s) = c :: (after ++ s) := by
      intro c after hskip
      have hne : skipFiller behind ≠ [] := by simp [hskip]
      refine ⟨hread harg ?_, by rw [skipFiller_extend hne, hskip, List.cons_append]⟩
      rintro rfl
      exact hne rfl
    simp only at h
    split at h
    · rename_i after hskip
      obtain ⟨⟨args', last⟩, hargs, hok⟩ := bind_eq_ok h
      cases hok
      obtain ⟨harg', hskip'⟩ := hextend hskip
      refine readArgs_next hclosing' hend' harg' hskip' ?_
      rw [skipFiller_extend (readArgs_ne_nil hargs)]
      exact ih after (by omega) hargs
    · rename_i after hskip
      cases h
      obtain ⟨harg', hskip'⟩ := hextend hskip
      exact readArgs_last hclosing' hend' harg' hskip'
    · cases h

theorem readExpr_readCalls_extend (s : List Char) {room room' : Nat} (hroom : room ≤ room') {depth : Nat} :
    ∀ {depth'}, depth ≤ depth' → Extends s (readExpr room depth) (readExpr room' depth') ∧
      ∀ f, Extends s (readCalls room depth f) (readCalls room' depth' f) := by
  induction depth with
  | zero =>
    intro depth' _
    refine ⟨?_, ?_⟩
    · intro text e rest h
      cases h
    · intro f text e rest h
      cases h
  | succ depth ih =>
    intro depth' hdepth
    obtain ⟨depth', rfl⟩ : ∃ k, depth' = k + 1 := ⟨depth' - 1, by omega⟩
    obtain ⟨ihExpr, ihCalls⟩ := ih (Nat.le_of_succ_le_succ hdepth)
    refine ⟨?_, ?_⟩
    · intro text e rest h hne
      obtain ⟨_, atom, behind, hd, hatom, hcalls⟩ := readExpr_cases h
      cases hd
      have hbehind : behind ≠ [] := by
        rintro rfl
        exact hne (List.suffix_nil.mp ((readExpr_readCalls_leftOver room depth).2 hcalls).ends)
      have hskip : skipFiller text ≠ [] := by
        intro hnil
        rw [hnil] at hatom
        cases hatom
      rw [readExpr_of_token, ihCalls atom hcalls hne]
      rw [skipFiller_extend hskip]
      exact readToken_extend hatom hbehind s
    · intro f text e rest h hne
      obtain ⟨_, hd, ⟨behind, args, after, hskip, hargs, hcalls⟩ | ⟨rfl, rfl, hother⟩⟩ := readCalls_cases h
      · cases hd
        have hskip' : skipFiller (text ++ s) = '(' :: (behind ++ s) := by
          rw [skipFiller_extend (by simp [hskip]), hskip, List.cons_append]
        have hargs' : readArgs (readExpr room' depth') room' (skipFiller (behind ++ s)) = .ok (args, after ++ s) := by
          rw [skipFiller_extend (readArgs_ne_nil hargs)]
          exact readArgs_extend ihExpr hroom hargs
        rw [readCalls_list hskip' hargs']
        exact ihCalls (.apply f args) hcalls hne
      · rw [← skipFiller_extend hne]
        refine readCalls_stop (Nat.succ_pos depth') ?_
        rw [skipFiller_extend hne]
        exact append_ne_cons hne hother s

/-- What is left when an expression has been read off the front of a text is a proper end of it that
    begins with neither filler nor an argument list. If anything is left, then the same expression
    is read off the text with more text behind it, and that is left as well, with the same depth or
    more. With argument lists at the front of a text it is the same, whatever they are applied to,
    but that all of the text may be left. -/
theorem reading_stable_under_append :
    (∀ depth text e rest, readFront depth text = .ok (e, rest) →
      (rest <:+ text ∧ rest.length < text.length ∧ skipFiller rest = rest ∧ ∀ after, rest ≠ '(' :: after) ∧
      (rest ≠ [] → ∀ s depth', depth ≤ depth' → readFront depth' (text ++ s) = .ok (e, rest ++ s))) ∧
    ∀ depth f text e rest, applyFront depth f text = .ok (e, rest) →
      rest <:+ text ∧
      (rest ≠ [] → ∀ s depth', depth ≤ depth' → applyFront depth' f (text ++ s) = .ok (e, rest ++ s)) := by
  have hroom : ∀ text s : List Char, text.length + 1 ≤ (text ++ s).length + 1 := by
    intro text s
    rw [List.length_append]
    omega
  refine ⟨?_, ?_⟩
  · intro depth text e rest h
    obtain ⟨hleft, hshorter⟩ := (readExpr_readCalls_leftOver _ depth).1 h
    refine ⟨⟨hleft.ends, hshorter, hleft.bare, hleft.noList⟩, ?_⟩
    intro hne s depth' hdepth
    exact (readExpr_readCalls_extend s (hroom text s) hdepth).1 h hne
  · intro depth f text e rest h
    refine ⟨((readExpr_readCalls_leftOver _ depth).2 h).ends, ?_⟩
    intro hne s depth' hdepth
    exact (readExpr_readCalls_extend s (hroom text s) hdepth).2 f h hne

/-- A word in front of a quote, and a list behind a comment: what follows goes on like a number,
    closes the quote, or opens another list, and is left as it is. -/
theorem reading_stable_at_word_and_list :
    readFront 9 "1a(2,\"#\")#(\n\"".toList = .ok (.apply (.word "1a") [.number 2, .text "#"], ['"']) ∧
    readFront 9 ("1a(2,\"#\")#(\n\"".toList ++ "b\"(".toList) =
      .ok (.apply (.word "1a") [.number 2, .text "#"], ['"'] ++ "b\"(".toList) ∧
    applyFront 9 (.number 3) " ()1".toList = .ok (.apply (.number 3) [], ['1']) ∧
    applyFront 9 (.number 3) (" ()1".toList ++ "2(".toList) = .ok (.apply (.number 3) [], ['1'] ++ "2(".toList) := by
  have hread : readFront 9 "1a(2,\"#\")#(\n\"".toList = .ok (.apply (.word "1a") [.number 2, .text "#"], ['"']) := by
    decide +kernel
  have hcalls : applyFront 9 (.number 3) " ()1".toList = .ok (.apply (.number 3) [], ['1']) := by decide +kernel
  obtain ⟨hexpr, happly⟩ := reading_stable_under_append
  exact ⟨hread, (hexpr 9 _ _ _ hread).2 (by simp) _ 9 (Nat.le_refl 9),
    hcalls, (happly 9 _ _ _ _ hcalls).2 (by simp) _ 9 (Nat.le_refl 9)⟩

end EggLang.Program
