/-
  EggLang.Proofs.Program.ArgumentLists — argument lists in a row are read whatever they are applied
  to.

  `parse_apply` hands the expression that argument lists are applied to on from list to list, and it
  grows with each of them, but no choice is made on it. So the lists can be read without one
  (`readLists`), and applied afterwards, the first list first (`readCalls_eq_readLists`).

  - `readExpr_readCalls_enough`: reading never wants for depth that is more than the length of the
    text.
  - `argument_lists_uniform`: the lists at the front of a text are out of order in the same way for
    all expressions, or are the same for all of them, and so is the text behind them.
-/

import EggLang.Proofs.Program.Appending
import EggLang.Proofs.Session.RaisedLimit

namespace EggLang.Program

/-! ## Lists without an expression -/

def readLists (room : Nat) : (depth : Nat) → (text : List Char) → Except Stop (List (List Expr) × List Char)
  | 0, _ => .error .depth
  | depth + 1, text =>
    match skipFiller text with
    | '(' :: rest => do
      let (args, after) ← readArgs (readExpr room depth) room (skipFiller rest)
      let (lists, last) ← readLists room depth after
      return (args :: lists, last)
    | other => .ok ([], other)

theorem readLists_list {room depth : Nat} {text rest after : List Char} {args : List Expr}
    (hskip : skipFiller text = '(' :: rest)
    (hargs : readArgs (readExpr room depth) room (skipFiller rest) = .ok (args, after)) :
    readLists room (depth + 1) text =
      (readLists room depth after).map fun (lists, last) => (args :: lists, last) := by
  simp only [readLists, hskip, hargs]
  cases hlists : readLists room depth after <;> simp [bind, Except.bind, Except.map, hlists, pure, Except.pure]

theorem readCalls_eq_readLists (room depth : Nat) (f : Expr) (text : List Char) :
    readCalls room depth f text =
      (readLists room depth text).map fun (lists, rest) => (lists.foldl .apply f, rest) := by
  induction depth generalizing f text with
  | zero => rfl
  | succ depth ih =>
    by_cases hlist : ∃ rest, skipFiller text = '(' :: rest
    · obtain ⟨rest, hskip⟩ := hlist
      cases hargs : readArgs (readExpr room depth) room (skipFiller rest) with
      | error stop =>
        simp only [readCalls, readLists, hskip, hargs]
        rfl
      | ok read =>
        -- the lists behind this one are applied to an application
        obtain ⟨args, after⟩ := read
        rw [readCalls_list hskip hargs, ih (.apply f args) after, readLists_list hskip hargs]
        cases readLists room depth after <;> rfl
    · have hother : ∀ rest, skipFiller text ≠ '(' :: rest := not_exists.mp hlist
      rw [readCalls_stop (Nat.succ_pos depth) hother, readLists]
      split
      · rename_i rest hskip
        exact absurd hskip (hother rest)
      · rfl

/-! ## Depth enough -/

theorem readToken_ne_depth (text : List Char) : readToken text ≠ .error .depth := by
  intro h
  simp only [readToken] at h
  split at h
  · rename_i t _ _
    rcases bind_eq_error h with h | ⟨_, _, h⟩
    · cases t with
      | text s => cases h
      | word name => cases h
      | digits ds =>
        simp only [Token.expr] at h
        split at h <;> cases h
    · cases h
  · cases h

/-- Each turn of the loop takes a character at least, so the turns last as long as the text does. -/
theorem readArgs_enough {read : List Char → Read} (limit : Nat) {room : Nat} {text : List Char}
    (hread : ∀ t, t.length < limit → read t ≠ .error .depth)
    (hshorter : ∀ {t e rest}, read t = .ok (e, rest) → rest.length < t.length)
    (hlimit : text.length < limit) (hroom : text.length < room) : readArgs read room text ≠ .error .depth := by
  fun_induction readArgs read room text with
  | case1 _ rest =>
    intro h
    cases h
  | case2 =>
    intro h
    cases h
  | case3 => exact absurd hroom (Nat.not_lt_zero _)
  | case4 room text hclosing hend ih =>
    intro h
    rcases bind_eq_error h with h | ⟨⟨arg, behind⟩, harg, h⟩
    · exact hread text hlimit h
    simp only at h
    split at h
    · rename_i after hskip
      have hafter := (suffix_of_skipFiller hskip).length_le
      have hnext := (skipFiller_suffix after).length_le
      have hbehind := hshorter harg
      rcases bind_eq_error h with h | ⟨_, _, h⟩
      · exact ih after (by omega) (by omega) h
      · cases h
    · cases h
    · cases h

theorem readExpr_readCalls_enough (room depth : Nat) :
    (∀ text, text.length < depth → text.length < room → readExpr room depth text ≠ .error .depth) ∧
    ∀ f text, text.length < depth → text.length < room → readCalls room depth f text ≠ .error .depth := by
  induction depth with
  | zero => exact ⟨fun text hd => absurd hd (Nat.not_lt_zero _), fun f text hd => absurd hd (Nat.not_lt_zero _)⟩
  | succ depth ih =>
    obtain ⟨ihExpr, ihCalls⟩ := ih
    refine ⟨?_, ?_⟩
    · intro text hdepth hroom h
      rw [readExpr] at h
      rcases bind_eq_error h with h | ⟨⟨atom, behind⟩, hatom, h⟩
      · exact readToken_ne_depth _ h
      · obtain ⟨t, htext, hstands, -⟩ := readToken_cases hatom
        have hpos := length_chars_pos (p := .token t) hstands
        have hlength := congrArg List.length htext
        have hskip := (skipFiller_suffix text).length_le
        simp only [List.length_append, Lexeme.chars] at hlength hpos
        exact ihCalls atom behind (by omega) (by omega) h
    · intro f text hdepth hroom h
      rw [readCalls] at h
      split at h
      · rename_i rest hskip
        have hopening := congrArg List.length hskip
        have htext := (skipFiller_suffix text).length_le
        have hrest := (skipFiller_suffix rest).length_le
        simp only [List.length_cons] at hopening
        rcases bind_eq_error h with h | ⟨⟨args, after⟩, hargs, h⟩
        · refine readArgs_enough (min depth room) ?_ ?_ (by omega) (by omega) h
          · intro t ht
            exact ihExpr t (by omega) (by omega)
          · intro t e rest h
            exact ((readExpr_readCalls_leftOver room depth).1 h).2
        · have hends := readArgs_suffix (fun h => ((readExpr_readCalls_leftOver room depth).1 h).1.ends) hargs
          have hafter := hends.length_le
          exact ihCalls (.apply f args) after (by omega) (by omega) h
      · cases h

/-- With depth enough it does not matter how much it is. -/
theorem readCalls_same_depth {room depth depth' : Nat} (f : Expr) {text : List Char} (hroom : text.length < room)
    (hdepth : text.length < depth) (hle : depth ≤ depth') :
    readCalls room depth f text = readCalls room depth' f text := by
  have hraised : Agrees (Stop.depth = ·) (· = ·) (readCalls room depth f text) (readCalls room depth' f text) :=
    (readExpr_readCalls_raised room ⟨hle, fun _ => rfl⟩).2 f text
  obtain hsame | ⟨_, rfl, hdeep⟩ := hraised.eq_or_early
  · exact hsame
  · exact absurd hdeep ((readExpr_readCalls_enough room depth).2 f text hdepth hroom)

/-- Given more depth than the text has characters, the argument lists at its front are either out of
    order, for the same reason whatever they are to be applied to; or they are the same lists, up to
    the first place where no list follows, and are applied one after the other, the first one
    first. -/
theorem argument_lists_uniform (text : List Char) :
    (∃ fault : Fault, fault.kind = .grammar ∧
      ∀ depth f, text.length < depth → applyFront depth f text = .error (.fault fault)) ∨
    ∃ (lists : List (List Expr)) (rest : List Char), LeftOver text rest ∧
      ∀ depth f, text.length < depth → applyFront depth f text = .ok (lists.foldl .apply f, rest) := by
  have hroom : text.length < text.length + 1 := Nat.lt_succ_self _
  have hread : ∀ depth f, text.length < depth → applyFront depth f text =
      (readLists (text.length + 1) (text.length + 1) text).map fun (lists, rest) => (lists.foldl .apply f, rest) := by
    intro depth f hdepth
    rw [← readCalls_eq_readLists]
    exact (readCalls_same_depth f hroom hroom hdepth).symm
  cases hlists : readLists (text.length + 1) (text.length + 1) text with
  | ok read =>
    obtain ⟨lists, rest⟩ := read
    rw [hlists] at hread
    have hleft := (readExpr_readCalls_leftOver _ _).2 (hread (text.length + 1) (.number 0) hroom)
    exact .inr ⟨lists, rest, hleft, hread⟩
  | error stop =>
    rw [hlists] at hread
    have hstop : readCalls (text.length + 1) (text.length + 1) (.number 0) text = .error stop :=
      hread (text.length + 1) (.number 0) hroom
    obtain rfl | ⟨fault, rfl, hkind⟩ := (readExpr_readCalls_stops _ _).2 hstop
    · exact absurd hstop ((readExpr_readCalls_enough _ _).2 _ text hroom hroom)
    · exact .inl ⟨fault, hkind, hread⟩

/-- Two lists with a comment between them, and a list whose arguments are not separated. -/
theorem two_lists_and_unseparated_list :
    (∃ (lists : List (List Expr)) (rest : List Char), LeftOver "(1)#(\n(a, b())c".toList rest ∧
      ∀ f, applyFront 16 f "(1)#(\n(a, b())c".toList = .ok (lists.foldl .apply f, rest)) ∧
    ∀ f, applyFront 6 f "(1 2)".toList = .error (.fault (.noSeparator "2)")) := by
  refine ⟨?_, ?_⟩
  · have hread : applyFront 16 (.word "f") "(1)#(\n(a, b())c".toList =
        .ok (.apply (.apply (.word "f") [.number 1]) [.word "a", .apply (.word "b") []], ['c']) := by decide +kernel
    obtain ⟨fault, -, hfault⟩ | ⟨lists, rest, hleft, hlists⟩ := argument_lists_uniform "(1)#(\n(a, b())c".toList
    · cases hread.symm.trans (hfault 16 (.word "f") (by decide))
    · exact ⟨lists, rest, hleft, fun f => hlists 16 f (by decide)⟩
  · have hread : applyFront 6 (.word "f") "(1 2)".toList = .error (.fault (.noSeparator "2)")) := by decide +kernel
    obtain ⟨fault, -, hfault⟩ | ⟨lists, rest, -, hlists⟩ := argument_lists_uniform "(1 2)".toList
    · cases hread.symm.trans (hfault 6 (.word "f") (by decide))
      exact fun f => hfault 6 f (by decide)
    · cases hread.symm.trans (hlists 6 (.word "f") (by decide))

end EggLang.Program
