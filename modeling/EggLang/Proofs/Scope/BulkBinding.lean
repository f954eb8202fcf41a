/-
  EggLang.Proofs.Scope.BulkBinding — binding many names at once (`Environment.update`).

  Names are bound one after the other, and a name that is bound again keeps its place (`put`). Two
  names can be bound in either order as soon as one of them has its place (`put_comm`). So it does
  not matter whether pairs are gathered into bindings of their own first, with repeated names in
  their first place and with their last value (`ofPairs`):

  - `putAll_ofPairs`: binding what was gathered is binding the pairs.
  - `updated_putAll`: where names end up, and which values they have.
  - `bulk_binding_in_order`: both for the frames of a store, and for the frame that a call of a
    closure begins in.
-/

import Mathlib.Data.List.Induction
import Mathlib.Data.List.Nodup
import EggLang.Eval.Evaluate
import EggLang.Proofs.Scope.History

namespace EggLang.Scope

open EggLang.Eval EggLang.Program

namespace Bindings

/-! ## Binding one name after another -/

theorem put_put (b : Bindings) (x : String) (v w : Value) : put x v (put x w b) = put x v b := by
  induction b with
  | nil => simp [put]
  | cons p rest ih =>
    obtain ⟨y, u⟩ := p
    by_cases h : x = y
    · simp [put, h]
    · simp [put, h, ih]

/-- Binding a name to the value that it has changes nothing. -/
theorem put_of_get? {b : Bindings} {x : String} {v : Value} (h : b.get? x = some v) : put x v b = b := by
  induction b with
  | nil => cases h
  | cons p rest ih =>
    obtain ⟨y, u⟩ := p
    rw [get?] at h
    split at h
    · rename_i hxy
      cases h
      rw [put, if_pos hxy]
    · rename_i hxy
      rw [put, if_neg hxy, ih h]

/-- The name that has its place keeps it, and the other one comes behind all that are there either
    way. -/
theorem put_comm {b : Bindings} {x y : String} (hne : x ≠ y) (hx : x ∈ b.names) (v w : Value) :
    put x v (put y w b) = put y w (put x v b) := by
  induction b with
  | nil => cases hx
  | cons p rest ih =>
    obtain ⟨z, u⟩ := p
    simp only [names, List.map_cons, List.mem_cons] at hx
    by_cases hxz : x = z
    · simp [put, ← hxz, hne.symm]
    by_cases hyz : y = z
    · simp [put, ← hyz, hne]
    · simp [put, hxz, hyz, ih (hx.resolve_left hxz)]

theorem put_putAll {b : Bindings} {x : String} (hx : x ∈ b.names) {pairs : List (String × Value)}
    (hpairs : x ∉ pairs.map Prod.fst) (v : Value) : put x v (b.putAll pairs) = (put x v b).putAll pairs := by
  induction pairs generalizing b with
  | nil => rfl
  | cons p pairs ih =>
    simp only [List.map_cons, List.mem_cons, not_or] at hpairs
    have hplace : x ∈ (put p.1 p.2 b).names := by
      rw [names_put]
      split
      · exact hx
      · exact List.mem_append_left _ hx
    show put x v ((put p.1 p.2 b).putAll pairs) = (put p.1 p.2 (put x v b)).putAll pairs
    rw [ih hplace hpairs.2, put_comm hpairs.1 hx]

/-- A name that is bound among pairs may as well be bound behind them. -/
theorem putAll_put {m : Bindings} (hm : m.names.Nodup) (b : Bindings) (x : String) (v : Value) :
    b.putAll (put x v m) = put x v (b.putAll m) := by
  induction m generalizing b with
  | nil => rfl
  | cons p rest ih =>
    obtain ⟨y, w⟩ := p
    simp only [names, List.map_cons, List.nodup_cons] at hm
    rw [put]
    split
    · rename_i hxy
      subst hxy
      have hplace : x ∈ (put x w b).names := by
        rw [names_put]
        split
        · assumption
        · exact List.mem_append_right _ List.mem_cons_self
      show (put x v b).putAll rest = put x v ((put x w b).putAll rest)
      rw [put_putAll hplace hm.1, put_put]
    · exact ih hm.2 (put y w b)

/-! ## Gathered pairs -/

theorem ofPairs_concat (pairs : List (String × Value)) (p : String × Value) :
    ofPairs (pairs ++ [p]) = put p.1 p.2 (ofPairs pairs) := by
  simp [ofPairs, putAll]

theorem nodup_names_ofPairs (pairs : List (String × Value)) : (ofPairs pairs).names.Nodup := by
  induction pairs using List.reverseRecOn with
  | nil => exact List.nodup_nil
  | append_singleton pairs p ih =>
    rw [ofPairs_concat]
    exact nodup_names_put ih p.1 p.2

theorem putAll_ofPairs (b : Bindings) (pairs : List (String × Value)) : b.putAll (ofPairs pairs) = b.putAll pairs := by
  induction pairs using List.reverseRecOn with
  | nil => rfl
  | append_singleton pairs p ih =>
    rw [ofPairs_concat, putAll_put (nodup_names_ofPairs pairs), ih]
    simp [putAll]

/-! ## Where names end up, and with which values -/

/-- What binding the pairs makes of bindings: the names that were there keep their places and the
    others follow in the order in which they are first listed; a listed name has its last value and
    the others have the value they had. -/
structure Updated (old : Bindings) (pairs : List (String × Value)) (new : Bindings) : Prop where
  names : new.names = old.names ++ ((pairs.map Prod.fst).filter (· ∉ old.names)).eraseDups
  listed : ∀ before x v after, pairs = before ++ (x, v) :: after → x ∉ after.map Prod.fst → new.get? x = some v
  unlisted : ∀ x, x ∉ pairs.map Prod.fst → new.get? x = old.get? x

theorem names_putAll (b : Bindings) (pairs : List (String × Value)) :
    (b.putAll pairs).names = b.names ++ ((pairs.map Prod.fst).filter (· ∉ b.names)).eraseDups := by
  induction pairs generalizing b with
  | nil => simp [putAll]
  | cons p pairs ih =>
    show ((put p.1 p.2 b).putAll pairs).names = _
    rw [ih, names_put]
    by_cases hp : p.1 ∈ b.names
    · simp [hp]
    · simp [hp, List.eraseDups_cons, List.filter_filter, beq_eq_decide, Bool.and_comm]

theorem get?_putAll (b : Bindings) (pairs : List (String × Value)) (x : String) :
    (b.putAll pairs).get? x = (get? pairs.reverse x).or (b.get? x) := by
  induction pairs generalizing b with
  | nil => rfl
  | cons p pairs ih =>
    calc ((put p.1 p.2 b).putAll pairs).get? x
        = (get? pairs.reverse x).or ((get? [p] x).or (b.get? x)) := by rw [ih, get?_put]
      _ = (get? (p :: pairs).reverse x).or (b.get? x) := by
        rw [List.reverse_cons, get?_append, Option.or_assoc]

theorem updated_putAll (b : Bindings) (pairs : List (String × Value)) : Updated b pairs (b.putAll pairs) where
  names := names_putAll b pairs
  listed before x v after hpairs hafter := by
    have hnone : get? after.reverse x = none := get?_eq_none (by simpa [names] using hafter)
    have hlast : get? pairs.reverse x = some v := by
      simp [hpairs, get?_append, hnone, get?]
    rw [get?_putAll, hlast, Option.some_or]
  unlisted x hx := by
    have hnone : get? pairs.reverse x = none := get?_eq_none (by simpa [names] using hx)
    rw [get?_putAll, hnone, Option.none_or]

/-- Pairs that are bound already can be bound once more. -/
theorem putAll_of_get? {b : Bindings} {pairs : List (String × Value)} (h : ∀ p ∈ pairs, b.get? p.1 = some p.2) :
    b.putAll pairs = b := by
  induction pairs with
  | nil => rfl
  | cons p pairs ih =>
    show (put p.1 p.2 b).putAll pairs = b
    rw [put_of_get? (h p List.mem_cons_self)]
    exact ih fun q hq => h q (List.mem_cons_of_mem p hq)

theorem putAll_putAll (b : Bindings) (pairs : List (String × Value)) :
    (b.putAll pairs).putAll pairs = b.putAll pairs := by
  -- the pairs themselves may bind a name twice, what is gathered from them does not
  rw [← putAll_ofPairs (b.putAll pairs), ← putAll_ofPairs b]
  refine putAll_of_get? ?_
  intro p hp
  have hnodup : (names (ofPairs pairs).reverse).Nodup := by
    rw [names, List.map_reverse]
    exact List.nodup_reverse.mpr (nodup_names_ofPairs pairs)
  rw [get?_putAll, get?_of_mem hnodup (List.mem_reverse.mpr hp), Option.some_or]

end Bindings

namespace Store

/-! ## The bindings of one frame -/

def rebind (s : Store) (f : FrameId) (change : Bindings → Bindings) : Store :=
  { s with frames := s.frames.modify f fun frame => { frame with bindings := change frame.bindings } }

theorem rebind_id (s : Store) (f : FrameId) : s.rebind f id = s := by
  have hframes : (s.rebind f id).frames = s.frames := by
    refine Array.ext_getElem? fun g => ?_
    simp only [rebind, Array.getElem?_modify]
    split
    · cases s.frames[g]? <;> rfl
    · rfl
  show (⟨(s.rebind f id).frames, s.closures, s.output⟩ : Store) = s
  rw [hframes]

theorem rebind_rebind (s : Store) (f : FrameId) (change change' : Bindings → Bindings) :
    (s.rebind f change).rebind f change' = s.rebind f (change' ∘ change) := by
  have hframes : ((s.rebind f change).rebind f change').frames = (s.rebind f (change' ∘ change)).frames := by
    refine Array.ext_getElem? fun g => ?_
    simp only [rebind, Array.getElem?_modify]
    split
    · cases s.frames[g]? <;> rfl
    · rfl
  show (⟨((s.rebind f change).rebind f change').frames, s.closures, s.output⟩ : Store) = _
  rw [hframes]
  rfl

theorem update_eq_rebind (s : Store) (f : FrameId) (pairs : List (String × Value)) :
    s.update f pairs = s.rebind f (·.putAll pairs) := by
  induction pairs generalizing s with
  | nil => exact (s.rebind_id f).symm
  | cons p pairs ih =>
    calc (s.rebind f (·.put p.1 p.2)).update f pairs
        = (s.rebind f (·.put p.1 p.2)).rebind f (·.putAll pairs) := ih _
      _ = s.rebind f (·.putAll (p :: pairs)) := s.rebind_rebind f _ _

theorem bindings_update {s : Store} {f : FrameId} (hf : f < s.frames.size) (pairs : List (String × Value)) :
    (s.update f pairs).bindings f = (s.bindings f).putAll pairs := by
  simp only [update_eq_rebind, rebind, bindings, Array.getElem?_modify, if_true, Array.getElem?_eq_getElem hf,
    Option.map_some]

theorem update_ofPairs (s : Store) (f : FrameId) (pairs : List (String × Value)) :
    s.update f (Bindings.ofPairs pairs) = s.update f pairs := by
  simp only [update_eq_rebind, Bindings.putAll_ofPairs]

theorem update_update (s : Store) (f : FrameId) (pairs : List (String × Value)) :
    (s.update f pairs).update f pairs = s.update f pairs := by
  simp only [update_eq_rebind, rebind_rebind, Function.comp_def, Bindings.putAll_putAll]

end Store

/-! ## The frame of a call -/

/-- Parameters side by side with arguments: behind its last place a parameter is not listed
    again. -/
theorem zip_at_last {params : List String} {args : List Value} (hlength : args.length = params.length)
    {before after : List String} {x : String} (hparams : params = before ++ x :: after) (hx : x ∉ after) :
    ∃ (v : Value) (pairs pairs' : List (String × Value)), args[before.length]? = some v ∧
      params.zip args = pairs ++ (x, v) :: pairs' ∧ x ∉ pairs'.map Prod.fst := by
  subst hparams
  simp only [List.length_append, List.length_cons] at hlength
  obtain ⟨values, others, rfl, hvalues⟩ : ∃ values others, args = values ++ others ∧ before.length = values.length :=
    ⟨args.take before.length, args.drop before.length, (List.take_append_drop ..).symm, by rw [List.length_take]; omega⟩
  cases others with
  | nil => simp only [List.append_nil] at hlength; omega
  | cons v rest =>
    refine ⟨v, before.zip values, after.zip rest, ?_, ?_, ?_⟩
    · rw [hvalues, List.getElem?_append_right (Nat.le_refl _), Nat.sub_self]
      rfl
    · rw [List.zip_append hvalues, List.zip_cons_cons]
    · intro h
      obtain ⟨p, hp, rfl⟩ := List.mem_map.mp h
      exact hx (List.of_mem_zip hp).1

/-- What a call of a closure with arguments makes of a store before the body is evaluated: there is
    one frame more, inside the frame of the closure, that owns each parameter once, in the order in
    which they are first listed, with the argument at its last place. -/
structure Entered (s : Store) (c : Closure) (args : List Value) (t : Store) : Prop where
  size : t.frames.size = s.frames.size + 1
  others : ∀ g, g < s.frames.size → t.bindings g = s.bindings g ∧ t.outer? g = s.outer? g
  outer : t.outer? s.frames.size = some c.frame
  names : t.names s.frames.size = c.params.eraseDups
  value : ∀ before x after, c.params = before ++ x :: after → x ∉ after →
    (t.bindings s.frames.size).get? x = args[before.length]?

theorem entered {s : Store} {c : Closure} {args : List Value} (hlength : args.length = c.params.length) :
    Entered s c args ((s.push (some c.frame)).2.update s.frames.size (c.params.zip args)) := by
  obtain ⟨hsize, houter, hbindings⟩ := (s.push (some c.frame)).2.update_elsewhere s.frames.size (c.params.zip args)
  have hnew : s.frames.size < (s.push (some c.frame)).2.frames.size := by simp [Store.push]
  have hupdated : Bindings.Updated [] (c.params.zip args)
      (((s.push (some c.frame)).2.update s.frames.size (c.params.zip args)).bindings s.frames.size) := by
    rw [Store.bindings_update hnew, Store.bindings_push, Store.bindings_of_le (Nat.le_refl _)]
    exact Bindings.updated_putAll [] _
  refine ⟨by rw [hsize]; simp [Store.push], ?_, ?_, ?_, ?_⟩
  · intro g hg
    rw [hbindings g (Nat.ne_of_lt hg), houter, Store.bindings_push, Store.outer?_push_of_lt hg]
    exact ⟨rfl, rfl⟩
  · rw [houter]
    exact Store.outer?_push_self s (some c.frame)
  · rw [Store.names, hupdated.names, List.map_fst_zip (Nat.le_of_eq hlength.symm)]
    simp [Bindings.names]
  · intro before x after hparams hx
    obtain ⟨v, pairs, pairs', harg, hzip, hlast⟩ := zip_at_last hlength hparams hx
    rw [harg, hupdated.listed pairs x v pairs' hzip hlast]

/-- Binding in a frame what has been gathered from pairs, where a repeated name keeps its first
    place and its last value, makes the store that binding the pairs one after the other makes; and
    to do it twice is to do it once. Names that the frame owns keep their places, the others follow
    in the order in which they are first listed, and every listed name has its last value. So a
    closure that is called with as many arguments as it has parameters evaluates its body in a new
    frame that owns each parameter once, with the argument at its last place. -/
theorem bulk_binding_in_order :
    (∀ (s : Store) (f : FrameId) (pairs : List (String × Value)),
      Bindings.Updated [] pairs (Bindings.ofPairs pairs) ∧
      s.update f (Bindings.ofPairs pairs) = pairs.foldl (fun t p => t.define f p.1 p.2) s ∧
      (s.update f (Bindings.ofPairs pairs)).update f (Bindings.ofPairs pairs) = s.update f (Bindings.ofPairs pairs) ∧
      (f < s.frames.size →
        Bindings.Updated (s.bindings f) pairs ((s.update f (Bindings.ofPairs pairs)).bindings f))) ∧
    ∀ (depth : Nat) (evaluate : Expr → FrameId → Action Value) (c : Closure) (args : List Value) (s : Store),
      args.length = c.params.length → ∃ t, Entered s c args t ∧
        (Callee.closure c).call depth evaluate args s = evaluate c.body s.frames.size t := by
  refine ⟨?_, ?_⟩
  · intro s f pairs
    refine ⟨Bindings.updated_putAll [] pairs, s.update_ofPairs f pairs, s.update_update f _, ?_⟩
    intro hf
    rw [Store.update_ofPairs, Store.bindings_update hf]
    exact Bindings.updated_putAll _ pairs
  · intro depth evaluate c args s hlength
    refine ⟨_, entered hlength, ?_⟩
    simp only [Callee.call, Closure.call, if_pos hlength]
    rfl

/-- A frame that owns `y` is given `x` twice with `y` in between; and a function is called that
    lists its first parameter again behind the second one. -/
theorem repeated_names_bound :
    Bindings.Updated [("y", .int 0)] [("x", .int 1), ("y", .int 2), ("x", .int 3)] [("y", .int 2), ("x", .int 3)] ∧
    ∃ t, Entered (Store.empty.push none).2 ⟨0, ["x", "y", "x"], .word "x", 0⟩ [.int 1, .int 2, .int 3] t ∧
      (Callee.closure ⟨0, ["x", "y", "x"], .word "x", 0⟩).call 9 (evaluate 1 9) [.int 1, .int 2, .int 3]
        (Store.empty.push none).2 = evaluate 1 9 (.word "x") 1 t ∧
      t.names 1 = ["x", "y"] ∧ (t.bindings 1).get? "x" = some (.int 3) := by
  obtain ⟨hupdate, hcall⟩ := bulk_binding_in_order
  refine ⟨(hupdate ((Store.empty.push none).2.define 0 "y" (.int 0)) 0 _).2.2.2 (by decide), ?_⟩
  obtain ⟨t, ht, hbody⟩ := hcall 9 (evaluate 1 9) ⟨0, ["x", "y", "x"], .word "x", 0⟩ [.int 1, .int 2, .int 3]
    (Store.empty.push none).2 rfl
  exact ⟨t, ht, hbody, ht.names, ht.value ["x", "y"] "x" [] rfl (by simp)⟩

end EggLang.Scope
