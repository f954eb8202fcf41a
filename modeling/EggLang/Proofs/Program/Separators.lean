/-
  EggLang.Proofs.Program.Separators — the commas of argument lists.

  An argument list stands between an opening bracket and the closing bracket that belongs to it
  (`bracketed`). The lists of a row of lexemes, in the order in which they are opened, are those of
  the expression that the row spells (`Expr.lists`). Its own commas are those outside of the lists
  inside it (`separators`). There is one between any two arguments, and there may be one more behind
  the last argument (`Separated`): the loop of `parse_apply` accepts a comma in front of a closing
  bracket.

  - `Spells.separated`: the commas of every list that is spelled.
  - `Spells.commasBefore_iff`: what follows a comma.
  - `commas_of_argument_lists`: the commas of every text that is read.
  - `trailing_comma_accepted`: a list with as many commas as arguments.
-/

import Mathlib.Data.List.Chain
import Mathlib.Data.List.Forall2
import EggLang.Proofs.Program.Reading

namespace EggLang.Program

/-! ## Lists in a tree and in a row -/

namespace Expr

mutual

/-- The argument lists of a tree, in the order in which they are opened when it is written. -/
def lists : Expr → List (List Expr)
  | .apply f args => lists f ++ args :: listsAll args
  | _ => []

def listsAll : List Expr → List (List Expr)
  | [] => []
  | a :: as => lists a ++ listsAll as

end

end Expr

/-- The lexemes up to the closing bracket of a list; `level` more lists have been opened inside
    it. -/
def upToClosing : (level : Nat) → List Lexeme → List Lexeme
  | _, [] => []
  | 0, .closing :: _ => []
  | level + 1, .closing :: ps => .closing :: upToClosing level ps
  | level, .opening :: ps => .opening :: upToClosing (level + 1) ps
  | level, p :: ps => p :: upToClosing level ps

/-- What stands between the brackets of each list, in the order in which the lists are opened. -/
def bracketed : List Lexeme → List (List Lexeme)
  | [] => []
  | .opening :: ps => upToClosing 0 ps :: bracketed ps
  | _ :: ps => bracketed ps

/-- How many commas stand outside of all lists, when `level` lists are open at the beginning. -/
def separators : (level : Nat) → List Lexeme → Nat
  | _, [] => 0
  | level, .opening :: ps => separators (level + 1) ps
  | level, .closing :: ps => separators (level - 1) ps
  | 0, .comma :: ps => separators 0 ps + 1
  | level, _ :: ps => separators level ps

/-- The commas between the brackets of a list with these arguments: one less than there are
    arguments, or as many, and then the last of them stands in front of the closing bracket. -/
inductive Separated (args : List Expr) (inside : List Lexeme) : Prop
  | between : separators 0 inside = args.length - 1 → inside.getLast? ≠ some .comma → Separated args inside
  | trailing : args ≠ [] → separators 0 inside = args.length → inside.getLast? = some .comma → Separated args inside

def CommasBefore (next : Lexeme → Prop) (ps : List Lexeme) : Prop := ps.IsChain fun p q => p = .comma → next q

/-! ## Matching brackets -/

inductive Matched : List Lexeme → Prop
  | nil : Matched []
  | token {ps : List Lexeme} (t : Token) : Matched ps → Matched (.token t :: ps)
  | comma {ps : List Lexeme} : Matched ps → Matched (.comma :: ps)
  | list {inside ps : List Lexeme} : Matched inside → Matched ps → Matched (.opening :: (inside ++ .closing :: ps))

namespace Matched

theorem append {ps qs : List Lexeme} (hp : Matched ps) (hq : Matched qs) : Matched (ps ++ qs) := by
  induction hp with
  | nil => exact hq
  | token t _ ih => exact .token t ih
  | comma _ ih => exact .comma ih
  | list hinside _ _ ih =>
    rw [List.cons_append, List.append_assoc]
    exact .list hinside ih

theorem upToClosing_append {ps : List Lexeme} (h : Matched ps) :
    ∀ level rest, upToClosing level (ps ++ rest) = ps ++ upToClosing level rest := by
  induction h with
  | nil => exact fun _ _ => rfl
  | token t _ ih => intro level rest; simp [upToClosing, ih]
  | comma _ ih => intro level rest; simp [upToClosing, ih]
  | list _ _ ihInside ih => intro level rest; simp [upToClosing, ihInside, ih]

theorem bracketed_append {ps : List Lexeme} (h : Matched ps) :
    ∀ rest, bracketed (ps ++ rest) = bracketed ps ++ bracketed rest := by
  induction h with
  | nil => exact fun _ => rfl
  | token t _ ih => intro rest; simp [bracketed, ih]
  | comma _ ih => intro rest; simp [bracketed, ih]
  | list hinside _ ihInside ih =>
    intro rest
    simp [bracketed, hinside.upToClosing_append, upToClosing, ihInside, ih]

/-- Inside a list that is still open, commas do not count. -/
theorem separators_append_inside {ps : List Lexeme} (h : Matched ps) :
    ∀ level rest, separators (level + 1) (ps ++ rest) = separators (level + 1) rest := by
  induction h with
  | nil => exact fun _ _ => rfl
  | token t _ ih => intro level rest; simp [separators, ih]
  | comma _ ih => intro level rest; simp [separators, ih]
  | list _ _ ihInside ih => intro level rest; simp [separators, ihInside, ih]

theorem separators_append {ps : List Lexeme} (h : Matched ps) :
    ∀ rest, separators 0 (ps ++ rest) = separators 0 ps + separators 0 rest := by
  induction h with
  | nil => intro rest; simp [separators]
  | token t _ ih => intro rest; simp [separators, ih]
  | comma _ ih => intro rest; simp [separators, ih]; omega
  | list hinside _ _ ih => intro rest; simp [separators, hinside.separators_append_inside, ih]

end Matched

mutual

theorem Spells.matched {e : Expr} {ps : List Lexeme} : Spells e ps → Matched ps
  | .text s => .token _ .nil
  | .number ds _ => .token _ .nil
  | .word name => .token _ .nil
  | .apply hf hargs => hf.matched.append (.list hargs.matched .nil)

theorem SpellsArgs.matched {args : List Expr} {qs : List Lexeme} : SpellsArgs args qs → Matched qs
  | .none => .nil
  | .last ha => ha.matched
  | .trailing ha => ha.matched.append (.comma .nil)
  | .more ha hm => ha.matched.append (.comma hm.matched)

end

theorem bracketed_apply {f : Expr} {args : List Expr} {ps qs : List Lexeme} (hf : Spells f ps)
    (hargs : SpellsArgs args qs) :
    bracketed (ps ++ .opening :: (qs ++ [.closing])) = bracketed ps ++ qs :: bracketed qs := by
  rw [hf.matched.bracketed_append, bracketed, hargs.matched.upToClosing_append, hargs.matched.bracketed_append]
  simp [upToClosing, bracketed]

/-! ## The commas of a list -/

/-- All commas in the spelling of an expression are inside its lists. -/
theorem Spells.separators_eq {e : Expr} {ps : List Lexeme} : Spells e ps → separators 0 ps = 0
  | .text s => rfl
  | .number ds _ => rfl
  | .word name => rfl
  | .apply hf hargs => by
    rw [hf.matched.separators_append, hf.separators_eq, separators, hargs.matched.separators_append_inside]
    rfl

theorem Spells.separators_comma {e : Expr} {ps : List Lexeme} (h : Spells e ps) (qs : List Lexeme) :
    separators 0 (ps ++ .comma :: qs) = separators 0 qs + 1 := by
  rw [h.matched.separators_append, h.separators_eq, separators, Nat.zero_add]

/-- The spelling of an expression ends with a token or a closing bracket. -/
theorem Spells.getLast?_ne {e : Expr} {ps : List Lexeme} (h : Spells e ps) : ps.getLast? ≠ some .comma := by
  cases h with
  | apply _ _ => simp [List.getLast?_append, List.getLast?_cons]
  | _ => simp

theorem SpellsArgs.begins {a : Expr} {args : List Expr} {qs : List Lexeme} (h : SpellsArgs (a :: args) qs) :
    ∃ t qs', qs = .token t :: qs' := by
  have hbegins : ∀ {ps}, Spells a ps → ∀ rest, ∃ t qs', ps ++ rest = .token t :: qs' := by
    intro ps ha rest
    obtain ⟨t, ps', rfl⟩ := ha.begins
    exact ⟨t, ps' ++ rest, rfl⟩
  cases h with
  | last ha => exact ha.begins
  | trailing ha => exact hbegins ha _
  | more ha _ => exact hbegins ha _

/-- Behind a comma, the last lexeme is that of the arguments that follow. -/
theorem SpellsArgs.getLast?_more {a : Expr} {args : List Expr} {ps qs : List Lexeme} (h : SpellsArgs (a :: args) qs) :
    (ps ++ .comma :: qs).getLast? = qs.getLast? := by
  obtain ⟨t, qs', rfl⟩ := h.begins
  simp [List.getLast?_append, List.getLast?_cons]

theorem SpellsArgs.separated {args : List Expr} {qs : List Lexeme} : SpellsArgs args qs → Separated args qs
  | .none => .between rfl (by simp)
  | .last ha => .between ha.separators_eq ha.getLast?_ne
  | .trailing ha => .trailing (by simp) (ha.separators_comma []) (by simp)
  | .more ha hm => by
    cases hm.separated with
    | between hcount hlast =>
      refine .between ?_ (by rwa [hm.getLast?_more])
      rw [ha.separators_comma, hcount]
      simp
    | trailing _ hcount hlast =>
      refine .trailing (by simp) ?_ (by rwa [hm.getLast?_more])
      rw [ha.separators_comma, hcount]
      rfl

mutual

/-- The lists of a spelling are those of the expression, and all of them are separated. -/
theorem Spells.separated {e : Expr} {ps : List Lexeme} : Spells e ps → List.Forall₂ Separated e.lists (bracketed ps)
  | .text s => .nil
  | .number ds _ => .nil
  | .word name => .nil
  | .apply hf hargs => by
    rw [bracketed_apply hf hargs, Expr.lists]
    exact List.rel_append hf.separated (.cons hargs.separated hargs.all_separated)

theorem SpellsArgs.all_separated {args : List Expr} {qs : List Lexeme} :
    SpellsArgs args qs → List.Forall₂ Separated (Expr.listsAll args) (bracketed qs)
  | .none => .nil
  | .last ha => by
    rw [Expr.listsAll, Expr.listsAll, List.append_nil]
    exact ha.separated
  | .trailing ha => by
    rw [Expr.listsAll, Expr.listsAll, ha.matched.bracketed_append]
    exact List.rel_append ha.separated .nil
  | .more ha hm => by
    rw [Expr.listsAll, ha.matched.bracketed_append]
    exact List.rel_append ha.separated hm.all_separated

end

/-! ## What follows a comma -/

variable {next : Lexeme → Prop}

theorem commasBefore_append {ps qs : List Lexeme} (h : ps.getLast? ≠ some .comma) :
    CommasBefore next (ps ++ qs) ↔ CommasBefore next ps ∧ CommasBefore next qs := by
  rw [CommasBefore, List.isChain_append]
  refine and_congr_right fun _ => and_iff_left ?_
  rintro p hp q - rfl
  exact absurd hp h

theorem commasBefore_cons {p : Lexeme} (h : p ≠ .comma) {qs : List Lexeme} :
    CommasBefore next (p :: qs) ↔ CommasBefore next qs := by
  rw [CommasBefore, List.isChain_cons]
  exact and_iff_right fun _ _ hp => absurd hp h

theorem commasBefore_comma {q : Lexeme} {qs : List Lexeme} :
    CommasBefore next (.comma :: q :: qs) ↔ next q ∧ CommasBefore next (q :: qs) := by
  simp [CommasBefore, List.isChain_cons_cons]

theorem SpellsArgs.commasBefore_comma (hnext : ∀ t, next (.token t)) {a : Expr} {args : List Expr} {qs : List Lexeme}
    (h : SpellsArgs (a :: args) qs) (rest : List Lexeme) :
    CommasBefore next (.comma :: (qs ++ rest)) ↔ CommasBefore next (qs ++ rest) := by
  obtain ⟨t, qs', rfl⟩ := h.begins
  exact Program.commasBefore_comma.trans (and_iff_right (hnext t))

mutual

/-- Where a token may follow a comma, commas are followed as told exactly if no list ends with a
    comma, or a closing bracket may follow it as well. -/
theorem Spells.commasBefore_iff (hnext : ∀ t, next (.token t)) {e : Expr} {ps : List Lexeme} :
    Spells e ps → (CommasBefore next ps ↔ ∀ inside ∈ bracketed ps, inside.getLast? = some .comma → next .closing)
  | .text s => by simp [CommasBefore, bracketed]
  | .number ds _ => by simp [CommasBefore, bracketed]
  | .word name => by simp [CommasBefore, bracketed]
  | .apply hf hargs => by
    rw [commasBefore_append hf.getLast?_ne, commasBefore_cons (by simp), hf.commasBefore_iff hnext,
      hargs.commasBefore_iff hnext, bracketed_apply hf hargs, List.forall_mem_append]

theorem SpellsArgs.commasBefore_iff (hnext : ∀ t, next (.token t)) {args : List Expr} {qs : List Lexeme} :
    SpellsArgs args qs → (CommasBefore next (qs ++ [.closing]) ↔
      ∀ inside ∈ qs :: bracketed qs, inside.getLast? = some .comma → next .closing)
  | .none => by simp [CommasBefore, bracketed]
  | .last ha => by
    rw [commasBefore_append ha.getLast?_ne, ha.commasBefore_iff hnext, List.forall_mem_cons]
    simp [CommasBefore, ha.getLast?_ne]
  | .trailing ha => by
    rw [List.append_assoc, commasBefore_append ha.getLast?_ne, ha.commasBefore_iff hnext, List.forall_mem_cons,
      ha.matched.bracketed_append, List.singleton_append, commasBefore_comma]
    simp [CommasBefore, bracketed, and_comm]
  | .more ha hm => by
    rw [List.append_assoc, commasBefore_append ha.getLast?_ne, List.cons_append, hm.commasBefore_comma hnext,
      ha.commasBefore_iff hnext, hm.commasBefore_iff hnext, List.forall_mem_cons, List.forall_mem_cons,
      hm.getLast?_more, ha.matched.bracketed_append, List.forall_mem_append]
    exact and_left_comm

end

/-! ## All texts -/

/-- The number of commas tells whether the last of them stands in front of the closing bracket. -/
theorem Separated.between_iff {args : List Expr} {inside : List Lexeme} (h : Separated args inside) :
    separators 0 inside = args.length - 1 ↔ inside.getLast? ≠ some .comma := by
  cases h with
  | between hcount hlast => exact iff_of_true hcount hlast
  | trailing hargs hcount hlast =>
    have hpos := List.length_pos_iff.mpr hargs
    exact iff_of_false (by omega) (not_not_intro hlast)

theorem all_between_iff {lists : List (List Expr)} {insides : List (List Lexeme)}
    (h : List.Forall₂ Separated lists insides) :
    List.Forall₂ (fun args inside => separators 0 inside = args.length - 1) lists insides ↔
      ∀ inside ∈ insides, inside.getLast? ≠ some .comma := by
  induction h with
  | nil => simp
  | cons hfirst _ ih => rw [List.forall₂_cons, List.forall_mem_cons, hfirst.between_iff, ih]

/-- Every text that is read is one row of lexemes. Each of its argument lists has one comma less
    than it has arguments, and none if there are no arguments; only behind the last argument there
    may be one more. So a comma is followed by an argument or by a closing bracket. All lists have
    one comma less exactly when no comma is followed by a closing bracket. -/
theorem commas_of_argument_lists {depth : Nat} {text : List Char} {e : Expr} (h : readProgram depth text = .ok e) :
    ∃ ps, LaidOut ps text ∧ (∀ qs, LaidOut qs text → qs = ps) ∧ Spells e ps ∧
      List.Forall₂ Separated e.lists (bracketed ps) ∧ ps.getLast? ≠ some .comma ∧
      CommasBefore (fun p => (∃ t, p = .token t) ∨ p = .closing) ps ∧
      (List.Forall₂ (fun args inside => separators 0 inside = args.length - 1) e.lists (bracketed ps) ↔
        CommasBefore (fun p => ∃ t, p = .token t) ps) := by
  obtain ⟨ps, hspells, hlaid⟩ := readProgram_sound h
  refine ⟨ps, hlaid, fun qs hqs => laid_unique hqs hlaid, hspells, hspells.separated, hspells.getLast?_ne, ?_, ?_⟩
  · rw [hspells.commasBefore_iff fun t => .inl ⟨t, rfl⟩]
    exact fun _ _ _ => .inr rfl
  · rw [all_between_iff hspells.separated, hspells.commasBefore_iff fun t => ⟨t, rfl⟩]
    simp

/-- Commas in a text and in a comment, in a list inside a list, and behind the last of two
    arguments. -/
theorem commas_of_nested_lists :
    ∃ ps, LaidOut ps "f(\"a,b\",g(1,2 #,,\n),)(x)()".toList ∧
      List.Forall₂ Separated
        [[.text "a,b", .apply (.word "g") [.number 1, .number 2]], [.number 1, .number 2], [.word "x"], []]
        (bracketed ps) := by
  have hread : readProgram 9 "f(\"a,b\",g(1,2 #,,\n),)(x)()".toList =
      .ok (.apply (.apply (.apply (.word "f") [.text "a,b", .apply (.word "g") [.number 1, .number 2]])
        [.word "x"]) []) := by decide +kernel
  obtain ⟨ps, hlaid, -, -, hseparated, -⟩ := commas_of_argument_lists hread
  exact ⟨ps, hlaid, hseparated⟩

def trailingRow : List Lexeme := [.token (.word ['f']), .opening, .token (.digits ['1']), .comma, .closing]

/-- A list with one argument and one comma, in front of its closing bracket, is read. -/
theorem trailing_comma_accepted :
    readProgram 9 "f(1,)".toList = .ok (.apply (.word "f") [.number 1]) ∧ LaidOut trailingRow "f(1,)".toList ∧
    ¬ List.Forall₂ (fun args inside => separators 0 inside = args.length - 1)
      (Expr.apply (.word "f") [.number 1]).lists (bracketed trailingRow) ∧
    ¬ CommasBefore (fun p => ∃ t, p = .token t) trailingRow := by
  have hword : Token.next? "f(1,)".toList = some (.word ['f'], "(1,)".toList) := by decide +kernel
  have hnumber : Token.next? "1,)".toList = some (.digits ['1'], ",)".toList) := by decide +kernel
  refine ⟨by decide +kernel, ⟨[], ?_, .none⟩, ?_, ?_⟩
  · exact .cons (u := []) .none (Token.next?_sound hword).2 (.cons (u := []) .none trivial
      (.cons (u := []) .none (Token.next?_sound hnumber).2 (.cons (u := []) .none trivial
        (.cons (u := []) .none trivial .nil))))
  · simp [trailingRow, Expr.lists, Expr.listsAll, bracketed, upToClosing, separators]
  · simp [trailingRow, CommasBefore]

end EggLang.Program
