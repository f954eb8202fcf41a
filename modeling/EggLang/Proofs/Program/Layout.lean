/-
  EggLang.Proofs.Program.Layout — the texts that are one and the same expression.

  An expression is spelled by a row of lexemes (`Spells`): a token for each of its leaves, and
  brackets and commas for its applications. The row is laid out in a text (`LaidOut`) with filler in
  front of each lexeme and behind the last one. A text that lays out a spelling of an expression is
  a layout of it (`Layout`).

  Whether some characters are a lexeme, or filler, depends on the text behind them: a comment runs
  up to a line end or the end of the text, a number is not followed by a letter, digit or underscore
  of ASCII, a word goes as far as it can. So both are told of characters in front of a text
  (`Filler`, `Lexeme.Stands`).

  Nothing here reads a text. That reading finds exactly the layouts is the subject of
  `EggLang.Proofs.Program.Reading`.
-/

import EggLang.Program.Expr
import EggLang.Program.Reader

namespace EggLang.Program

open EggLang.Text EggLang.Numeric

/-! ## Filler -/

/-- The characters `u`, in front of the text `rest`, are filler. -/
inductive Filler (rest : List Char) : (u : List Char) → Prop
  | none : Filler rest []
  | blank {c : Char} {u : List Char} : isBlank c = true → Filler rest u → Filler rest (c :: u)
  /-- A comment holds no line end, and one follows it unless the text ends. -/
  | comment {body u : List Char} : (∀ c ∈ body, isLineEnd c = false) →
      (∀ c ∈ (u ++ rest).head?, isLineEnd c = true) → Filler rest u → Filler rest ('#' :: (body ++ u))

/-! ## Lexemes -/

def Token.chars : Token → List Char
  | .text s => '"' :: (s ++ ['"'])
  | .digits ds => ds
  | .word name => name

/-- The characters `ds`, in front of the text `rest`, are a number, of whatever length. -/
structure NumberRun (ds rest : List Char) : Prop where
  nonempty : ds ≠ []
  digits : ∀ c ∈ ds, isAsciiDigit c = true
  ends : ∀ c ∈ rest.head?, isAsciiWordChar c = false

structure WordRun (name rest : List Char) : Prop where
  nonempty : name ≠ []
  chars : ∀ c ∈ name, isWordChar c = true
  ends : ∀ c ∈ rest.head?, isWordChar c = false
  notNumber : ∀ ds after, name ++ rest = ds ++ after → ¬NumberRun ds after

/-- A token is what its characters are in front of the text `rest`. -/
def Token.Stands : Token → (rest : List Char) → Prop
  | .text s, _ => '"' ∉ s
  | .digits ds, rest => NumberRun ds rest
  | .word name, rest => WordRun name rest

inductive Lexeme where
  | token (t : Token)
  | opening
  | closing
  | comma

def Lexeme.chars : Lexeme → List Char
  | .token t => t.chars
  | .opening => ['(']
  | .closing => [')']
  | .comma => [',']

def Lexeme.Stands : Lexeme → (rest : List Char) → Prop
  | .token t, rest => t.Stands rest
  | _, _ => True

/-- The lexemes stand in a text, each behind some filler; `rest` is the text behind the last. -/
inductive Laid : List Lexeme → (text rest : List Char) → Prop
  | nil {rest : List Char} : Laid [] rest rest
  | cons {p : Lexeme} {ps : List Lexeme} {u text rest : List Char} : Filler (p.chars ++ text) u → p.Stands text →
      Laid ps text rest → Laid (p :: ps) (u ++ (p.chars ++ text)) rest

def LaidOut (ps : List Lexeme) (text : List Char) : Prop := ∃ u, Laid ps text u ∧ Filler [] u

/-! ## Spellings -/

mutual

inductive Spells : Expr → List Lexeme → Prop
  | text (s : List Char) : Spells (.text (String.ofList s)) [.token (.text s)]
  | number (ds : List Char) : ds.length ≤ digitLimit → Spells (.number (digitsValue ds)) [.token (.digits ds)]
  | word (name : List Char) : Spells (.word (String.ofList name)) [.token (.word name)]
  | apply {f : Expr} {args : List Expr} {ps qs : List Lexeme} :
      Spells f ps → SpellsArgs args qs → Spells (.apply f args) (ps ++ .opening :: (qs ++ [.closing]))

/-- The lexemes are a way to write arguments between their brackets: one comma between any two, and
    at most one behind the last of them. -/
inductive SpellsArgs : List Expr → List Lexeme → Prop
  | none : SpellsArgs [] []
  | last {a : Expr} {ps : List Lexeme} : Spells a ps → SpellsArgs [a] ps
  | trailing {a : Expr} {ps : List Lexeme} : Spells a ps → SpellsArgs [a] (ps ++ [.comma])
  | more {a b : Expr} {rest : List Expr} {ps qs : List Lexeme} :
      Spells a ps → SpellsArgs (b :: rest) qs → SpellsArgs (a :: b :: rest) (ps ++ .comma :: qs)

end

/-- A text is the expression, with filler around its lexemes. -/
def Layout (e : Expr) (text : List Char) : Prop := ∃ ps, Spells e ps ∧ LaidOut ps text

/-! ## Rows of lexemes -/

theorem Laid.append {ps qs : List Lexeme} {text mid rest : List Char} (hp : Laid ps text mid)
    (hq : Laid qs mid rest) : Laid (ps ++ qs) text rest := by
  induction hp with
  | nil => exact hq
  | cons hu hs _ ih => exact .cons hu hs (ih hq)

theorem Laid.split {ps qs : List Lexeme} {text rest : List Char} (h : Laid (ps ++ qs) text rest) :
    ∃ mid, Laid ps text mid ∧ Laid qs mid rest := by
  induction ps generalizing text with
  | nil => exact ⟨text, .nil, h⟩
  | cons p ps ih =>
    cases h with
    | cons hu hs h =>
      obtain ⟨mid, hps, hqs⟩ := ih h
      exact ⟨mid, .cons hu hs hps, hqs⟩

/-- Every lexeme of a row that is laid out stands in front of some text. -/
theorem Laid.stands {ps : List Lexeme} {text rest : List Char} (h : Laid ps text rest) :
    ∀ p ∈ ps, ∃ after, p.Stands after := by
  induction h with
  | nil => intro p hp; cases hp
  | cons _ hs _ ih =>
    intro p hp
    rcases List.mem_cons.mp hp with rfl | hp
    · exact ⟨_, hs⟩
    · exact ih p hp

end EggLang.Program
