/-
  EggLang.Proofs.Program.Written — when an expression can be written into a message.

  A message that holds an expression (`Applying a non-function`, `parameter names must be words`)
  writes it down to its leaves (`Apply.__str__`), so it can fail in two ways: the tree is too deep
  for what is left of the depth budget, or an integer in it is too long. The first only depends on
  the budget and the second only on the tree:

  - `written_agrees`: with more depth an expression is written the same, unless the depth was used
    up.
  - `written_eq`: four steps for each level of the tree are enough, and then it is written as its
    source unless it holds an integer that is too long.
  - `written_stops`, `writable_of_not_overlong`: the same for a budget of any size.
-/

import EggLang.Program.Expr
import EggLang.Proofs.Outcome

namespace EggLang.Program.Expr

variable {early : Stop → Prop}

mutual

def nesting : Expr → Nat
  | .apply f args => max (nesting f) (nestingAll args) + 1
  | _ => 0

def nestingAll : List Expr → Nat
  | [] => 0
  | a :: rest => max (nesting a) (nestingAll rest)

end

mutual

theorem written_agrees : ∀ {depth depth' : Nat} (_ : Raised (early .depth) depth depth') (e : Expr),
    Agrees early (· = ·) (e.written depth) (e.written depth')
  | _, _, hd, .number n => by
    simp only [written]
    exact agrees_within_depth hd (.same _)
  | _, _, hd, .text s => by
    simp only [written]
    exact agrees_within_depth hd (.ok rfl)
  | _, _, hd, .word x => by
    simp only [written]
    exact agrees_within_depth hd (.ok rfl)
  | _, _, hd, .apply f args => by
    simp only [written]
    refine agrees_within_depth hd ((written_agrees (hd.sub 3) f).bind_same ?_)
    intro operator
    refine (writtenAll_agrees (hd.sub 4) args).bind_same ?_
    intro parts
    exact .ok rfl
  | _, _, hd, .foreign leaf => by
    simp only [written]
    exact agrees_within_depth hd (.same _)

theorem writtenAll_agrees : ∀ {depth depth' : Nat} (_ : Raised (early .depth) depth depth') (args : List Expr),
    Agrees early (· = ·) (writtenAll depth args) (writtenAll depth' args)
  | _, _, _, [] => by
    simp only [writtenAll]
    exact .ok rfl
  | _, _, hd, a :: rest => by
    simp only [writtenAll]
    refine (written_agrees hd a).bind_same ?_
    intro first
    refine (writtenAll_agrees hd rest).bind_same ?_
    intro others
    exact .ok rfl

end

mutual

/-- An operator takes three steps and an argument four, so four for each level are enough. -/
theorem written_eq : ∀ {depth : Nat} {e : Expr}, 4 * e.nesting < depth →
    e.written depth = if e.overlong then .error .overlong else .ok e.source
  | depth, .number n, h => by rw [written, if_neg (by omega)]; rfl
  | depth, .text s, h => by rw [written, if_neg (by omega)]; rfl
  | depth, .word x, h => by rw [written, if_neg (by omega)]; rfl
  | depth, .foreign leaf, h => by rw [written, if_neg (by omega)]; rfl
  | depth, .apply f args, h => by
    rw [nesting] at h
    have hoperator : f.written (depth - 3) = if f.overlong then .error .overlong else .ok f.source :=
      written_eq (by omega)
    have hargs : writtenAll (depth - 4) args = if anyOverlong args then .error .overlong else .ok (sources args) :=
      writtenAll_eq (by omega)
    rw [written, if_neg (by omega), hoperator, overlong]
    cases f.overlong with
    | true => rfl
    | false =>
      rw [hargs]
      cases anyOverlong args with
      | true => rfl
      | false => rfl

theorem writtenAll_eq : ∀ {depth : Nat} {args : List Expr}, 4 * nestingAll args < depth →
    writtenAll depth args = if anyOverlong args then .error .overlong else .ok (sources args)
  | depth, [], _ => by rw [writtenAll]; rfl
  | depth, a :: rest, h => by
    rw [nestingAll] at h
    have hfirst : a.written depth = if a.overlong then .error .overlong else .ok a.source :=
      written_eq (by omega)
    have hothers : writtenAll depth rest = if anyOverlong rest then .error .overlong else .ok (sources rest) :=
      writtenAll_eq (by omega)
    rw [writtenAll, hfirst, anyOverlong]
    cases a.overlong with
    | true => rfl
    | false =>
      rw [hothers]
      cases anyOverlong rest with
      | true => rfl
      | false => rfl

end

/-- With too little depth an expression is written as it is with enough, or the depth is used up. -/
theorem written_cases (depth : Nat) (e : Expr) :
    (e.written depth = if e.overlong then .error .overlong else .ok e.source) ∨
      e.written depth = .error .depth ∧ depth ≤ 4 * e.nesting := by
  by_cases henough : 4 * e.nesting < depth
  · exact .inl (written_eq henough)
  · have hagrees : Agrees (· = .depth) (· = ·) (e.written depth) (e.written (4 * e.nesting + 1)) := by
      refine written_agrees ?_ e
      exact ⟨by omega, fun _ => rfl⟩
    rcases hagrees.eq_or_early with hsame | ⟨_, rfl, hdepth⟩
    · exact .inl (by rw [hsame, written_eq (by omega)])
    · exact .inr ⟨hdepth, by omega⟩

theorem written_stops {depth : Nat} {e : Expr} {stop : Stop} (h : e.written depth = .error stop) :
    stop = .depth ∨ e.overlong = true ∧ stop = .overlong := by
  rcases written_cases depth e with hwritten | ⟨hdepth, -⟩
  · rw [hwritten] at h
    split at h
    · rename_i hlong
      cases h
      exact .inr ⟨hlong, rfl⟩
    · cases h
  · rw [hdepth] at h
    cases h
    exact .inl rfl

/-- Whatever the depth, the expression is written as its source, or is too deep for it. -/
def Writable (e : Expr) : Prop :=
  ∀ depth, e.written depth = .ok e.source ∨ e.written depth = .error .depth ∧ depth ≤ 4 * e.nesting

theorem writable_of_not_overlong {e : Expr} (h : e.overlong = false) : e.Writable := by
  intro depth
  rcases written_cases depth e with hwritten | hdepth
  · rw [h] at hwritten
    exact .inl hwritten
  · exact .inr hdepth

end EggLang.Program.Expr
