/-
  EggLang.Proofs.Session.Formulas — written arithmetic on integers, run as a program.

  A formula is a tree of integers, as they can be written, and of sums, differences and products. It
  has a value, which is an integer of any size and sign, and it is an expression, which can be
  written and run. Its height bounds all the depth that this takes: two steps for each level, in
  reading and again in evaluating, whatever the length of the text.

  - `readProgram_formula`: a formula is read from its written form.
  - `evaluate_formula`: where the signs are bound to their builtins, it is evaluated to its value,
    and the store stays as it was.
  - `run_formula`: run in a new session, the written form of a formula gives its value and changes
    nothing else.
-/

import EggLang.Proofs.Eval.Sequences
import EggLang.Proofs.Session.Halts

namespace EggLang

open EggLang.Eval EggLang.Numeric EggLang.Program EggLang.Scope

inductive ExactOp where
  | add
  | sub
  | mul
  deriving DecidableEq

namespace ExactOp

def builtin : ExactOp → Arithmetic
  | .add => .add
  | .sub => .sub
  | .mul => .mul

def apply : ExactOp → Int → Int → Int
  | .add, a, b => a + b
  | .sub, a, b => a - b
  | .mul, a, b => a * b

end ExactOp

inductive Formula where
  | literal (n : Nat) (fits : (Nat.toDigits 10 n).length ≤ digitLimit)
  | binary (op : ExactOp) (left right : Formula)

namespace Formula

def value : Formula → Int
  | .literal n _ => n
  | .binary op l r => op.apply l.value r.value

def height : Formula → Nat
  | .literal _ _ => 0
  | .binary _ l r => max l.height r.height + 1

def expr : Formula → Expr
  | .literal n _ => .number n
  | .binary op l r => .apply (.word op.builtin.symbol) [l.expr, r.expr]

end Formula

/-! ## The written form -/

namespace Program

/-- A single character of words that is no digit is read as a word. -/
theorem wordShaped_singleton {c : Char} (hword : isWordChar c = true) (hdigit : Text.isAsciiDigit c = false) :
    WordShaped [c] where
  nonempty := List.cons_ne_nil c []
  chars d hd := by
    rw [List.mem_singleton.mp hd]
    exact hword
  leading d hd hleads := by
    cases hd
    rw [hdigit] at hleads
    cases hleads

theorem wordShaped_symbol (op : ExactOp) : WordShaped op.builtin.symbol.toList := by
  cases op with
  | add => exact wordShaped_singleton (c := '+') (by decide) (by decide)
  | sub => exact wordShaped_singleton (c := '-') (by decide) (by decide)
  | mul => exact wordShaped_singleton (c := '*') (by decide) (by decide)

theorem wellFormed_formula (t : Formula) : t.expr.WellFormed := by
  induction t with
  | literal n fits => exact ⟨Int.natCast_nonneg n, fits⟩
  | binary op l r ihl ihr => exact ⟨wordShaped_symbol op, ihl, ihr, trivial⟩

theorem nesting_formula (t : Formula) : t.expr.nesting = t.height := by
  induction t with
  | literal n fits => rfl
  | binary op l r ihl ihr => simp [Formula.expr, Formula.height, Expr.nesting, Expr.nestingAll, ihl, ihr]

/-- A formula has a written form, which takes four steps for each level. -/
theorem written_formula (t : Formula) {depth : Nat} (hdepth : 4 * t.height < depth) :
    t.expr.written depth = .ok t.expr.source := by
  rw [← nesting_formula] at hdepth
  rw [Expr.written_eq hdepth, overlong_eq_false (wellFormed_formula t)]
  rfl

/-- The written form of an operation, in front of a text. -/
theorem source_binary (op : ExactOp) (l r : Formula) (rest : List Char) :
    (Formula.binary op l r).expr.source.toList ++ rest =
      op.builtin.symbol.toList ++
        ('(' :: (l.expr.source.toList ++ (',' :: ' ' :: (r.expr.source.toList ++ (')' :: rest))))) := by
  simp [Formula.expr, Expr.source, Expr.sources]

/-- Brackets and commas are no filler, and end words. -/
theorem skipFiller_endsWord_punctuation {c : Char} (hc : c ∈ ['(', ')', ',']) (rest : List Char) :
    skipFiller (c :: rest) = c :: rest ∧ EndsWord (c :: rest) := by
  have hbare : Text.isBlank c = false ∧ c ≠ '#' ∧ isWordChar c = false := by
    simp only [List.mem_cons, List.not_mem_nil, or_false] at hc
    rcases hc with rfl | rfl | rfl <;> decide
  refine ⟨skipFiller_bare (bare_cons hbare.1 hbare.2.1), ?_⟩
  intro d hd
  cases hd
  exact hbare.2.2

theorem endsWord_nil : EndsWord [] := by
  intro c hc
  cases hc

theorem length_source_pos {e : Expr} (h : e.WellFormed) : 0 < e.source.toList.length := by
  obtain ⟨ps, hspell, hlaid⟩ := laid_source h
  obtain ⟨t, ps', rfl⟩ := hspell.begins
  obtain ⟨after, -, -, -, hlt⟩ := (hlaid [] endsWord_nil).cons_inv
  rw [List.append_nil] at hlt
  omega

/-- A number, a text or a word is read in one step from its written form. -/
theorem readExpr_leaf {e : Expr} (h : e.WellFormed) (hleaf : ∀ f args, e ≠ .apply f args) {rest : List Char}
    (hrest : EndsWord rest) (room depth : Nat) :
    readExpr room (depth + 1) (e.source.toList ++ rest) = readCalls room depth e rest := by
  obtain ⟨ps, hspell, hlaid⟩ := laid_source h
  cases hspell with
  | text s => exact readExpr_token (hlaid rest hrest) rfl
  | number ds hlen => exact readExpr_token (hlaid rest hrest) (by simp [Token.expr, Nat.not_lt.mpr hlen])
  | word name => exact readExpr_token (hlaid rest hrest) rfl
  | apply _ _ => exact absurd rfl (hleaf _ _)

/-- With this depth the written form of an expression is read, in front of any text that ends
    words. -/
def ReadBack (room depth : Nat) (e : Expr) : Prop :=
  ∀ rest, EndsWord rest → ∃ depth', 0 < depth' ∧
    readExpr room depth (e.source.toList ++ rest) = readCalls room depth' e rest

/-- Two arguments are read up to their closing bracket. -/
theorem readArgs_pair {inner depth : Nat} {a b : Expr} (ha : a.WellFormed) (hb : b.WellFormed)
    (hreada : ReadBack inner depth a) (hreadb : ReadBack inner depth b) (room : Nat) (rest : List Char) :
    readArgs (readExpr inner depth) (room + 2)
      (skipFiller (a.source.toList ++ (',' :: ' ' :: (b.source.toList ++ (')' :: rest))))) = .ok ([a, b], rest) := by
  obtain ⟨hclose, hcloses⟩ := skipFiller_endsWord_punctuation (c := ')') (by decide) rest
  obtain ⟨hcomma, hcommas⟩ := skipFiller_endsWord_punctuation (c := ',') (by decide)
    (' ' :: (b.source.toList ++ (')' :: rest)))
  have hsecond : readArgs (readExpr inner depth) (room + 1) (skipFiller (b.source.toList ++ (')' :: rest))) =
      .ok ([b], rest) := by
    obtain ⟨ps, hspell, hlaid⟩ := laid_source hb
    obtain ⟨depth', hpos, hread⟩ := hreadb _ hcloses
    rw [readArgs_turn hspell (hlaid _ hcloses) hread hpos (by simp [hclose]), hclose]
    rfl
  obtain ⟨ps, hspell, hlaid⟩ := laid_source ha
  obtain ⟨depth', hpos, hread⟩ := hreada _ hcommas
  rw [readArgs_turn hspell (hlaid _ hcommas) hread hpos (by simp [hcomma]), hcomma]
  simp only [skipFiller_blank (show Text.isBlank ' ' = true by decide), hsecond]
  rfl

/-- Reading a formula comes to its end with depth left, however long the text is. -/
theorem readBack_formula (room : Nat) (t : Formula) {depth : Nat} (hdepth : 2 * t.height + 2 ≤ depth) :
    ReadBack (room + 2) depth t.expr := by
  induction t generalizing depth with
  | literal n fits =>
    obtain ⟨depth, rfl⟩ : ∃ k, depth = k + 2 := ⟨depth - 2, by omega⟩
    intro rest hrest
    exact ⟨depth + 1, by omega, readExpr_leaf (wellFormed_formula (.literal n fits)) nofun hrest _ _⟩
  | binary op l r ihl ihr =>
    -- the sign takes one step and the list of its operands another
    obtain ⟨depth, rfl⟩ : ∃ k, depth = k + 2 := ⟨depth - 2, by omega⟩
    simp only [Formula.height] at hdepth
    have hl : ReadBack (room + 2) depth l.expr := ihl (by omega)
    have hr : ReadBack (room + 2) depth r.expr := ihr (by omega)
    intro rest hrest
    refine ⟨depth, by omega, ?_⟩
    obtain ⟨hopen, hopens⟩ := skipFiller_endsWord_punctuation (c := '(') (by decide)
      (l.expr.source.toList ++ (',' :: ' ' :: (r.expr.source.toList ++ (')' :: rest))))
    have hsign : (Expr.word op.builtin.symbol).WellFormed := wordShaped_symbol op
    have hlist := readArgs_pair (wellFormed_formula l) (wellFormed_formula r) hl hr room rest
    rw [source_binary]
    exact (readExpr_leaf hsign nofun hopens _ _).trans (readCalls_list hopen hlist)

/-- A formula is read from its written form, with depth for its height. -/
theorem readProgram_formula (t : Formula) {depth : Nat} (hdepth : 2 * t.height + 2 ≤ depth) :
    readProgram depth t.expr.source.toList = .ok t.expr := by
  obtain ⟨room, hroom⟩ : ∃ room, t.expr.source.toList.length = room + 1 :=
    Nat.exists_eq_add_one.mpr (length_source_pos (wellFormed_formula t))
  obtain ⟨depth', hpos, hread⟩ := readBack_formula room t hdepth [] endsWord_nil
  rw [List.append_nil] at hread
  have hfront : readFront depth t.expr.source.toList = .ok (t.expr, []) := by
    rw [readFront, hroom, hread, readCalls_stop hpos (by simp [skipFiller])]
    rfl
  rw [readProgram, hfront]
  rfl

end Program

/-! ## The value -/

namespace Eval

/-- From the frame, the signs of the exact operations are bound to their builtins. -/
def Computes (s : Store) (f : FrameId) : Prop :=
  ∀ op : ExactOp, s.lookup? f op.builtin.symbol = some (.builtin (.arithmetic op.builtin))

/-- On integers an operation is exact, whatever their size. -/
theorem call_exact (op : ExactOp) (depth : Nat) (a b : Int) (s : Store) :
    (Builtin.arithmetic op.builtin).call depth [.int a, .int b] s = .ok (.int (op.apply a b)) s := by
  cases op <;> rfl

theorem evaluate_binary {s t u : Store} {f : FrameId} (hs : Computes s f) {turns depth : Nat} {op : ExactOp}
    {a b : Expr} {m n : Int} (ha : evaluate turns depth a f s = .ok (.int m) t)
    (hb : evaluate turns depth b f t = .ok (.int n) u) :
    evaluate turns (depth + 2) (.apply (.word op.builtin.symbol) [a, b]) f s = .ok (.int (op.apply m n)) u := by
  have hform : Form.ofOperator? (.word op.builtin.symbol) = none := by cases op <;> rfl
  have hoperator : evaluate turns (depth + 1) (.word op.builtin.symbol) f s =
      .ok (.builtin (.arithmetic op.builtin)) s := by
    rw [evaluate, Action.lookup, hs op]
  have hargs : evaluateAll (fun e => evaluate turns depth e f) [a, b] s = .ok [.int m, .int n] u :=
    evaluateAll_of_yields (.cons ha (.cons hb .nil))
  rw [evaluate, hform]
  refine (bind_of_ok _ hoperator).trans ((bind_of_ok _ hargs).trans ?_)
  exact call_exact op depth m n u

/-- A formula is evaluated to its value, and nothing changes. -/
theorem evaluate_formula {s : Store} {f : FrameId} (hs : Computes s f) (turns : Nat) (t : Formula) {depth : Nat}
    (hdepth : 2 * t.height + 1 ≤ depth) : evaluate turns depth t.expr f s = .ok (.int t.value) s := by
  induction t generalizing depth with
  | literal n fits =>
    obtain ⟨depth, rfl⟩ : ∃ k, depth = k + 1 := ⟨depth - 1, by omega⟩
    rfl
  | binary op l r ihl ihr =>
    obtain ⟨depth, rfl⟩ : ∃ k, depth = k + 2 := ⟨depth - 2, by simp only [Formula.height] at hdepth; omega⟩
    simp only [Formula.height] at hdepth
    exact evaluate_binary hs (ihl (by omega)) (ihr (by omega))

end Eval

/-! ## The run -/

namespace Session

theorem start_computes (limit : Option Int) :
    Computes ((start limit).store.push (some (start limit).top)).2
      ((start limit).store.push (some (start limit).top)).1 := by
  intro op
  cases op <;> rfl

/-- The written form of a formula, run in a new session with depth for its height, gives the value
    of the formula. It prints nothing, and the top frame stays as it was. -/
theorem run_formula (t : Formula) {limit : Option Int} {depth : Nat} (hlimit : depthUnder limit = some depth)
    (hdepth : 2 * t.height + 2 ≤ depth) (turns : Nat) :
    (∀ room, 4 * t.height < room → t.expr.written room = .ok t.expr.source) ∧
    ((start limit).run turns t.expr.source).1 = .ok (.int t.value) ∧
    ((start limit).run turns t.expr.source).2.store.output = "" ∧
    ((start limit).run turns t.expr.source).2.top = (start limit).top ∧
    ((start limit).run turns t.expr.source).2.store.frames[(start limit).top]? =
      (start limit).store.frames[(start limit).top]? := by
  -- the run adds the frame that the program is evaluated in, and does nothing else
  have hrun : (start limit).run turns t.expr.source =
      (.ok (.int t.value), { start limit with store := ((start limit).store.push (some (start limit).top)).2 }) := by
    rw [run_eq_evaluateIn hlimit (readProgram_formula t hdepth), evaluateIn]
    simp only [evaluate_formula (start_computes limit) turns t (Nat.le_of_succ_le hdepth)]
  rw [hrun]
  exact ⟨fun _ => written_formula t, rfl, rfl, rfl, rfl⟩

def largeLiteral : Formula := .literal 99999999999999999999 (by decide +kernel)

/-- The square of a large number, subtracted from zero. -/
def largeDebt : Formula :=
  .binary .sub (.literal 0 (by decide +kernel)) (.binary .mul largeLiteral largeLiteral)

theorem run_largeDebt :
    depthUnder none = some 1000 ∧ 2 * largeDebt.height + 2 ≤ 1000 ∧
    largeDebt.expr.source = "-(0, *(99999999999999999999, 99999999999999999999))" ∧
    largeDebt.expr.written 1000 = .ok largeDebt.expr.source ∧
    ((start none).run 1 largeDebt.expr.source).1 = .ok (.int (-9999999999999999999800000000000000000001)) := by
  have hlimit : depthUnder none = some 1000 := rfl
  have hdepth : 2 * largeDebt.height + 2 ≤ 1000 := by decide
  have hvalue : largeDebt.value = -9999999999999999999800000000000000000001 := by decide +kernel
  obtain ⟨hwritten, hrun, -⟩ := run_formula largeDebt hlimit hdepth 1
  refine ⟨hlimit, hdepth, by decide +kernel, hwritten 1000 (by decide), ?_⟩
  rw [hrun, hvalue]

end Session

end EggLang
