/-
  EggLang.Proofs.Program.LongestFiller — the filler that a text begins with is skipped whole
  (`skip_space`).

  Filler is put together from pieces: blanks, and comments that hold no line end (`Piece`). A
  comment takes in all that follows it up to a line end, blanks and further comments too, so one
  text can be cut into pieces in several ways. Of the pieces that have been passed it only matters
  whether one is inside a comment behind them (`leavesOpen`).

  - `skipFrom_allChars`: pieces of filler are passed, whatever follows them.
  - `closed_iff_leavesOpen`: one is outside of comments behind pieces whose last comment has a line
    end behind it.
  - `longest_filler_skipped`: what is skipped is filler, no text begins with more of it than that,
    and filler can be put in front of any text exactly when it is outside of comments at its end.
-/

import Mathlib.Data.List.Induction
import EggLang.Proofs.Program.Lexing

namespace EggLang.Program

open EggLang.Text

/-! ## Pieces of filler -/

inductive Piece where
  | blank (c : Char) (hblank : isBlank c = true)
  | comment (body : List Char) (hbody : ∀ c ∈ body, isLineEnd c = false)

namespace Piece

def chars : Piece → List Char
  | .blank c _ => [c]
  | .comment body _ => '#' :: body

def isComment : Piece → Bool
  | .blank _ _ => false
  | .comment _ _ => true

/-- A comment in front of the piece stops there. -/
def endsLine : Piece → Bool
  | .blank c _ => isLineEnd c
  | .comment _ _ => false

/-- One is inside a comment behind the piece, given whether one is in front of it. -/
def leaves (inside : Bool) (p : Piece) : Bool := p.isComment || (inside && !p.endsLine)

end Piece

def allChars (ps : List Piece) : List Char := ps.flatMap Piece.chars

/-- The last comment among the pieces, if there is one, has a line end behind it. -/
def Closed (ps : List Piece) : Prop :=
  ∀ before last after, ps = before ++ last :: after → last.isComment = true → (∀ p ∈ after, p.isComment = false) →
    ∃ p ∈ after, p.endsLine = true

def leavesOpen (inside : Bool) (ps : List Piece) : Bool := ps.foldl Piece.leaves inside

/-- Filler is made of pieces. -/
theorem Filler.pieces {rest u : List Char} (h : Filler rest u) : ∃ ps, u = allChars ps := by
  induction h with
  | none => exact ⟨[], rfl⟩
  | @blank c u hb _ ih =>
    obtain ⟨ps, rfl⟩ := ih
    exact ⟨.blank c hb :: ps, rfl⟩
  | @comment body u hbody _ _ ih =>
    obtain ⟨ps, rfl⟩ := ih
    exact ⟨.comment body hbody :: ps, rfl⟩

/-- One more piece opens a comment or ends the line, or else leaves the last comment as it was. -/
theorem closed_concat_iff (ps : List Piece) (q : Piece) :
    Closed (ps ++ [q]) ↔ q.isComment = false ∧ (q.endsLine = true ∨ Closed ps) := by
  constructor
  · intro h
    cases hq : q.isComment with
    | true =>
      obtain ⟨p, hp, -⟩ := h ps q [] rfl hq (by simp)
      cases hp
    | false =>
      refine ⟨rfl, Classical.or_iff_not_imp_left.mpr ?_⟩
      intro hline before last after heq hlast hafter
      have hafter' : ∀ p ∈ after ++ [q], p.isComment = false :=
        List.forall_mem_append.mpr ⟨hafter, List.forall_mem_singleton.mpr hq⟩
      obtain ⟨p, hp, hends⟩ := h before last (after ++ [q]) (by simp [heq]) hlast hafter'
      rcases List.mem_append.mp hp with hp | hp
      · exact ⟨p, hp, hends⟩
      · rw [List.mem_singleton.mp hp] at hends
        exact absurd hends hline
  · rintro ⟨hq, hcases⟩ before last after heq hlast hafter
    rcases List.eq_nil_or_concat after with rfl | ⟨after', q', rfl⟩
    · obtain ⟨-, hsame⟩ := List.append_inj' heq rfl
      cases hsame
      rw [hq] at hlast
      cases hlast
    · have hsplit : ps ++ [q] = (before ++ last :: after') ++ [q'] := by simpa using heq
      obtain ⟨rfl, hsame⟩ := List.append_inj' hsplit rfl
      cases hsame
      rcases hcases with hline | hclosed
      · exact ⟨q, by simp, hline⟩
      · obtain ⟨p, hp, hends⟩ := hclosed before last after' rfl hlast fun p hp => hafter p (by simp [hp])
        exact ⟨p, by simp [hp], hends⟩

theorem closed_iff_leavesOpen (ps : List Piece) : Closed ps ↔ leavesOpen false ps = false := by
  induction ps using List.reverseRecOn with
  | nil =>
    refine ⟨fun _ => rfl, ?_⟩
    intro _ before last after heq
    simp at heq
  | append_singleton ps q ih =>
    have hstep : leavesOpen false (ps ++ [q]) = q.leaves (leavesOpen false ps) := by simp [leavesOpen]
    rw [closed_concat_iff, hstep, Piece.leaves, ih]
    cases q.isComment <;> cases q.endsLine <;> simp

/-! ## Skipping pieces -/

def skipFrom (inside : Bool) (text : List Char) : List Char := if inside then skipComment text else skipFiller text

theorem skipFrom_suffix (inside : Bool) (text : List Char) : skipFrom inside text <:+ text := by
  cases inside with
  | false =>
    obtain ⟨u, hu, -⟩ := filler_skipFiller text
    exact ⟨u, hu.symm⟩
  | true =>
    obtain ⟨body, u, hu, -⟩ := comment_skipComment text
    exact ⟨body ++ u, by rw [List.append_assoc]; exact hu.symm⟩

theorem skipFrom_chars (inside : Bool) (p : Piece) (text : List Char) :
    skipFrom inside (p.chars ++ text) = skipFrom (p.leaves inside) text := by
  cases p with
  | blank c hb =>
    cases inside with
    | false => exact skipFiller_blank hb
    | true =>
      show skipComment (c :: text) = skipFrom (true && !isLineEnd c) text
      rw [skipComment]
      cases isLineEnd c <;> rfl
  | comment body hbody =>
    -- a comment inside another one is part of it
    have hhash : isLineEnd '#' = false := by decide
    cases inside with
    | false =>
      show skipFiller ('#' :: (body ++ text)) = skipComment text
      rw [skipFiller_comment, skipComment_append hbody]
    | true =>
      show skipComment ('#' :: body ++ text) = skipComment text
      exact skipComment_append (List.forall_mem_cons.mpr ⟨hhash, hbody⟩)

theorem skipFrom_allChars (inside : Bool) (ps : List Piece) (text : List Char) :
    skipFrom inside (allChars ps ++ text) = skipFrom (leavesOpen inside ps) text := by
  induction ps generalizing inside with
  | nil => rfl
  | cons p ps ih =>
    calc skipFrom inside (allChars (p :: ps) ++ text) = skipFrom inside (p.chars ++ (allChars ps ++ text)) := by
          simp [allChars]
      _ = skipFrom (p.leaves inside) (allChars ps ++ text) := skipFrom_chars inside p _
      _ = skipFrom (leavesOpen inside (p :: ps)) text := ih (p.leaves inside)

theorem skipFiller_allChars (ps : List Piece) (text : List Char) :
    skipFiller (allChars ps ++ text) = skipFrom (leavesOpen false ps) text :=
  skipFrom_allChars false ps text

/-- A comment that is left open takes in the text behind the filler. -/
theorem closed_iff_skipFiller (ps : List Piece) :
    Closed ps ↔ ∀ text, skipFiller (allChars ps ++ text) = skipFiller text := by
  rw [closed_iff_leavesOpen]
  constructor
  · intro hopen text
    rw [skipFiller_allChars, hopen]
    rfl
  · intro h
    have hword := h ['a']
    rw [skipFiller_allChars] at hword
    cases hopen : leavesOpen false ps with
    | false => rfl
    | true =>
      rw [hopen] at hword
      exact absurd hword (by decide)

/-- What is skipped at the front of a text is made of pieces of filler, and what is left is empty or
    begins with neither a blank nor a comment. No pieces that the text begins with go further than
    that, and nothing is skipped a second time. Filler in front of a text is skipped along with the
    filler of that text, whatever the text is, if and only if the last comment of the filler has a
    line end behind it. -/
theorem longest_filler_skipped (text : List Char) :
    (∃ ps, text = allChars ps ++ skipFiller text) ∧
    (∀ c ∈ (skipFiller text).head?, isBlank c = false ∧ c ≠ '#') ∧
    (∀ ps rest, text = allChars ps ++ rest → skipFiller text <:+ rest) ∧
    skipFiller (skipFiller text) = skipFiller text ∧
    ∀ ps, Closed ps ↔ ∀ rest, skipFiller (allChars ps ++ rest) = skipFiller rest := by
  refine ⟨?_, skipFiller_head text, ?_, skipFiller_skipFiller text, closed_iff_skipFiller⟩
  · obtain ⟨u, hu, hf⟩ := filler_skipFiller text
    obtain ⟨ps, rfl⟩ := hf.pieces
    exact ⟨ps, hu⟩
  · rintro ps rest rfl
    rw [skipFiller_allChars]
    exact skipFrom_suffix _ rest

/-- A comment with a next-line character and another `#` in it, and an empty one that a line
    separator ends. -/
def twoComments : List Piece :=
  [.comment ['a', '\u0085', '#'] (by simp [isLineEnd]), .blank '\n' (by decide), .comment [] (by simp),
    .blank '\u2028' (by decide), .blank '\t' (by decide)]

/-- The two comments are skipped, whatever follows them; and filler that is cut off inside a comment
    is passed too. -/
theorem twoComments_skipped :
    Closed twoComments ∧ skipFiller (allChars twoComments ++ "#b\rc".toList) = skipFiller "#b\rc".toList ∧
    skipFiller "#a #b\r(c".toList <:+ "\r(c".toList := by
  have hclosed : Closed twoComments := (closed_iff_leavesOpen _).mpr (by decide)
  refine ⟨hclosed, ((longest_filler_skipped []).2.2.2.2 _).mp hclosed _, ?_⟩
  exact (longest_filler_skipped _).2.2.1
    [.comment ['a'] (by simp [isLineEnd]), .blank ' ' (by decide), .comment ['b'] (by simp [isLineEnd])] _ rfl

end EggLang.Program
