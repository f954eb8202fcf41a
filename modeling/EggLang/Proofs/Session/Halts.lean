/-
  EggLang.Proofs.Session.Halts — how runs can end.

  A message may have to write an expression, and an expression that holds an integer with too many
  digits cannot be written. But no such expression is ever evaluated: what is read is well formed,
  so are its parts, and so are the bodies of the closures that a session holds, as these were parts
  of programs that were read before (`Reached.holdsWellFormed`). So the messages about expressions
  can always be written (`evaluates_wellFormed`), and there is one message left that cannot: the one
  about an index out of range, whose digits a program can compute.

  - `overlong_only_at_index`: a run that ends gives a value, or has a fault, or was stopped by such
    an index.
-/

import EggLang.Proofs.Eval.Steps
import EggLang.Proofs.Program.RoundTrip
import EggLang.Proofs.Session.RaisedLimit

namespace EggLang

open EggLang.Eval EggLang.Numeric EggLang.Program EggLang.Scope EggLang.Value

/-! ## Well-formed expressions -/

namespace Program.Expr

theorem allWellFormed_iff {args : List Expr} : AllWellFormed args ↔ ∀ a ∈ args, a.WellFormed := by
  induction args with
  | nil => simp [AllWellFormed]
  | cons a rest ih => simp [AllWellFormed, ih]

theorem WellFormed.parts {op : Expr} {args : List Expr} (h : (apply op args).WellFormed) :
    ∀ a ∈ op :: args, a.WellFormed := by
  intro a ha
  rcases List.mem_cons.mp ha with rfl | ha
  · exact h.1
  · exact allWellFormed_iff.mp h.2 a ha

theorem WellFormed.writable {e : Expr} (h : e.WellFormed) : e.Writable :=
  writable_of_not_overlong (overlong_eq_false h)

end Program.Expr

namespace Eval

structure HoldsWellFormed (s : Store) : Prop where
  bodies : s.HoldsOnly fun _ c => c.body.WellFormed

def Watch.wellFormed : Watch where
  World := Unit
  le _ _ := True
  store _ := HoldsWellFormed
  scope _ _ := True
  closure _ c := c.body.WellFormed
  covered := Expr.WellFormed

theorem wellFormed_lawful : Watch.wellFormed.Lawful where
  le_refl _ := trivial
  le_trans _ _ := trivial
  scope_later _ _ := trivial
  closure_later _ h := h
  body h := h
  operator h _ := h.1
  args h := Expr.allWellFormed_iff.mp h.2
  lookup hs _ hv := hs.bodies.lookup hv
  define hs _ hv := ⟨hs.bodies.define _ hv⟩
  assign hs _ _ _ _ hv := ⟨hs.bodies.define _ hv⟩
  push hs _ := ⟨(), trivial, trivial, HoldsWellFormed.mk (hs.bodies.push _)⟩
  close _ hs _ hbody := ⟨(), trivial, hbody, HoldsWellFormed.mk hs.bodies⟩
  print _ hs := ⟨hs.bodies⟩

end Eval

namespace Session

/-! ## What a run comes to -/

def ComesTo (s : Session) (turns : Nat) (program : String) (p : Step) (t : Store) : Prop :=
  ∃ depth e, s.read program = .ok (depth, e) ∧
    Within turns (.evaluate depth e (s.store.push (some s.top)).1) (s.store.push (some s.top)).2 p t

theorem wellFormed_of_session_read {s : Session} {program : String} {depth : Nat} {e : Expr}
    (h : s.read program = .ok (depth, e)) : e.WellFormed := by
  unfold read at h
  split at h
  · cases h
  · split at h
    · rename_i hread
      cases h
      exact wellFormed_of_read hread
    · cases h

/-- The closures that a run leaves in the store have well-formed bodies, if those that it found
    there have. -/
theorem run_holdsWellFormed {s : Session} (h : HoldsWellFormed s.store) (turns : Nat) (program : String) :
    HoldsWellFormed (s.run turns program).2.store := by
  unfold Session.run
  cases hread : s.read program with
  | error halt => exact h
  | ok read =>
    obtain ⟨depth, e⟩ := read
    have hpush : HoldsWellFormed (s.store.push (some s.top)).2 := ⟨h.bodies.push _⟩
    obtain ⟨_, -, hend, -⟩ := wellFormed_lawful.evaluate (w := ()) turns depth
      (f := (s.store.push (some s.top)).1) (wellFormed_of_session_read hread) trivial hpush
    simp only [session_evaluateIn]
    exact hend

theorem Reached.holdsWellFormed {limit : Option Int} {s : Session} (h : Reached limit s) :
    HoldsWellFormed s.store := by
  induction h with
  | start =>
    constructor
    intro q hq
    cases hq
  | run turns program _ ih => exact run_holdsWellFormed ih turns program

/-- Every expression that a run comes to is well formed. -/
theorem Reached.evaluates_wellFormed {limit : Option Int} {s : Session} (hs : Reached limit s) {turns : Nat}
    {program : String} {depth : Nat} {e : Expr} {f : FrameId} {t : Store}
    (h : s.ComesTo turns program (.evaluate depth e f) t) : e.WellFormed := by
  obtain ⟨depth, expr, hread, hwithin⟩ := h
  have hpush : HoldsWellFormed (s.store.push (some s.top)).2 := ⟨hs.holdsWellFormed.bodies.push _⟩
  have hknows : Watch.wellFormed.knows () (s.store.push (some s.top)).2
      (.evaluate depth expr (s.store.push (some s.top)).1) :=
    ⟨wellFormed_of_session_read hread, trivial, hpush⟩
  obtain ⟨_, -, hknown⟩ := wellFormed_lawful.within hknows hwithin
  exact hknown.1

/-! ## How runs end -/

/-- A program is not read because it is not in order, or because it cannot be given the depth that
    it wants. -/
theorem read_halts {s : Session} {program : String} {halt : Halt} (h : s.read program = .error halt) :
    (halt = .limitTooLarge ∧ depthUnder s.limit = none) ∨ ∃ stop, halt = .ofStop stop ∧ StopsReading stop := by
  unfold read at h
  split at h
  · rename_i hnone
    cases h
    exact .inl ⟨rfl, hnone⟩
  · split at h
    · cases h
    · rename_i hread
      cases h
      exact .inr ⟨_, rfl, readProgram_stops hread⟩

theorem limit_lt_of_depthUnder {limit : Option Int} (h : depthUnder limit = none) :
    ∃ n, limit = some n ∧ (largestLimit : Int) < n := by
  cases limit with
  | none => cases h
  | some n =>
    simp only [depthUnder] at h
    split at h
    · cases h
    · split at h
      · cases h
      · exact ⟨n, rfl, by omega⟩

/-- A run that stops because a message cannot be written has come to an index that lies outside its
    sequence and has too many digits. -/
theorem Reached.comesTo_index {limit : Option Int} {s : Session} (hs : Reached limit s) {turns : Nat}
    {program : String} {depth : Nat} {e : Expr} {t : Store} (hread : s.read program = .ok (depth, e))
    (h : evaluate turns depth e (s.store.push (some s.top)).1 (s.store.push (some s.top)).2 = .error .overlong t) :
    ∃ depth' v i items u, s.ComesTo turns program (.call depth' (.builtin .element) [v, .int i]) u ∧
      v.items? = some items ∧ UnwritableIndex i items.length := by
  obtain ⟨q, u, hwithin, hraises⟩ := evaluate_stops h
  have hcomes : s.ComesTo turns program q u := ⟨depth, e, hread, hwithin⟩
  cases hraises with
  | leaf _ => exact (hs.evaluates_wellFormed hcomes).elim
  | inside hmem hlong =>
    have hpart := (hs.evaluates_wellFormed hcomes).parts _ hmem
    rw [overlong_eq_false hpart] at hlong
    cases hlong
  | index hitems hindex => exact ⟨_, _, _, _, u, hcomes, hitems, hindex⟩

/-- A fault of a run is not about a leaf that is no expression: there is none. -/
theorem Reached.fault_of_expressions {limit : Option Int} {s : Session} (hs : Reached limit s) {turns : Nat}
    {program : String} {depth : Nat} {e : Expr} {f : Fault} {t : Store} (hread : s.read program = .ok (depth, e))
    (h : evaluate turns depth e (s.store.push (some s.top)).1 (s.store.push (some s.top)).2 = .error (.fault f) t)
    (inspected : String) : f ≠ .notExpression inspected := by
  intro hf
  rw [hf] at h
  obtain ⟨q, u, hwithin, depth', leaf, g, hleaf⟩ := evaluate_stops h
  rw [hleaf] at hwithin
  exact (hs.evaluates_wellFormed ⟨depth, e, hread, hwithin⟩).elim

/-- Under a limit that can be obeyed, a run that ends gives a value, or has a fault, or was stopped
    by the message about an index out of range that has more than 4300 digits. No expression that it
    comes to, and none that stands in one, is too long to be written, given depth enough, and none
    is a foreign leaf. -/
theorem overlong_only_at_index {limit : Option Int} (hlimit : ∀ n, limit = some n → n ≤ 2147483647) {s : Session}
    (hs : Reached limit s) {turns : Nat} {program : String} (hend : ended (s.run turns program).1) :
    ((∃ v, (s.run turns program).1 = .ok v) ∨
      (∃ f, (s.run turns program).1 = .error (.fault f) ∧ ∀ inspected, f ≠ .notExpression inspected) ∨
      ((s.run turns program).1 = .error .overlong ∧
        ∃ depth v i items t, s.ComesTo turns program (.call depth (.builtin .element) [v, .int i]) t ∧
          Builtin.element.call depth [v, .int i] t = .error .overlong t ∧ v.items? = some items ∧
          (i < 0 ∨ (items.length : Int) ≤ i) ∧ 4300 < (Nat.toDigits 10 i.natAbs).length)) ∧
    ∀ depth e f t, s.ComesTo turns program (.evaluate depth e f) t →
      (∀ leaf, e ≠ .foreign leaf) ∧ e.Writable ∧
        ∀ op args, e = .apply op args → ∀ a ∈ op :: args, a.Writable := by
  constructor
  · cases hrun : (s.run turns program).1 with
    | ok v => exact .inl ⟨v, rfl⟩
    | error halt =>
      rw [hrun] at hend
      refine .inr ?_
      rcases run_halts hrun with hread | ⟨depth, e, stop, t, hread, rfl, hev⟩
      · rcases read_halts hread with ⟨-, hnone⟩ | ⟨stop, rfl, rfl | ⟨f, rfl, hgrammar⟩⟩
        · rw [hs.grounded.limit] at hnone
          obtain ⟨n, hn, hlarge⟩ := limit_lt_of_depthUnder hnone
          have hle := hlimit n hn
          simp only [largestLimit] at hlarge
          omega
        · exact .inl ⟨_, rfl, fun _ => Fault.noConfusion⟩
        · refine .inl ⟨f, rfl, ?_⟩
          intro inspected hf
          rw [hf] at hgrammar
          cases hgrammar
      · cases stop with
        | fault f => exact .inl ⟨f, rfl, hs.fault_of_expressions hread hev⟩
        | depth => exact .inl ⟨_, rfl, fun _ => Fault.noConfusion⟩
        | turns => cases hend
        | overlong =>
          obtain ⟨depth', v, i, items, u, hcomes, hitems, hindex⟩ := hs.comesTo_index hread hev
          have hcall : Builtin.element.call depth' [v, .int i] u = .error .overlong u := by
            rw [Builtin.call, element_overlong hitems hindex]
            rfl
          exact .inr ⟨rfl, depth', v, i, items, u, hcomes, hcall, hitems, hindex.outside, hindex.long⟩
  · intro depth e f t hcomes
    have he := hs.evaluates_wellFormed hcomes
    refine ⟨?_, he.writable, ?_⟩
    · intro leaf hleaf
      rw [hleaf] at he
      exact he
    · intro op args happly a ha
      rw [happly] at he
      exact (he.parts a ha).writable

/-- A session in which a builtin was set to a function that takes an element of a text. -/
def pickingSession : Session := ((start (some 2147483647)).run 1 "set(print, fun(n, element(\"a\", n)))").2

/-- Ten, squared thirteen times, has 8193 digits. -/
def squaringProgram : String :=
  "do(define(n, 10), define(i, 0), while(<(i, 13), do(set(n, *(n, n)), set(i, +(i, 1)))), print(n))"

theorem squared_index_escapes :
    Reached (some 2147483647) pickingSession ∧
    (pickingSession.run 14 squaringProgram).1 = .error .overlong ∧
    ∃ depth v i items t,
      pickingSession.ComesTo 14 squaringProgram (.call depth (.builtin .element) [v, .int i]) t ∧
        Builtin.element.call depth [v, .int i] t = .error .overlong t ∧ v.items? = some items ∧
        (i < 0 ∨ (items.length : Int) ≤ i) ∧ 4300 < (Nat.toDigits 10 i.natAbs).length := by
  have hreached : Reached (some 2147483647) pickingSession := .run 1 _ .start
  have hrun : (pickingSession.run 14 squaringProgram).1 = .error .overlong := by decide +kernel
  have hlimit : ∀ n : Int, some 2147483647 = some n → n ≤ 2147483647 := by
    intro n hn
    cases hn
    exact Int.le_refl _
  have hend : ended (pickingSession.run 14 squaringProgram).1 := by rw [hrun]; rfl
  rcases (overlong_only_at_index hlimit hreached hend).1 with ⟨v, hv⟩ | ⟨f, hf, -⟩ | ⟨-, hindex⟩
  · rw [hrun] at hv
    cases hv
  · rw [hrun] at hf
    cases hf
  · exact ⟨hreached, hrun, hindex⟩

end Session

end EggLang
