/-
  EggLang.Proofs.Scope.History — scopes told by what was done to them.

  Frames are made and names are bound and set, one change after the other (`Change`: the methods
  `child`, `define` and `set` of an `Environment`). What a name means afterwards can be told from
  the changes alone, without any store (`History`, newest change first): a frame owns the names that
  changes have defined in it (`definitions`), the frames outside it are those it was made inside
  (`chain`), a name belongs to the first of them that owns it (`owner?`), and its value is the last
  one written there (`value?`). A `set` writes to whichever frame was the owner at that moment,
  which later definitions may change.

  - `recorded`: a store that the changes have led to holds just what the history tells.
  - `store_follows_history`: so looking up, finding, listing and setting names all follow the
    history.
-/

import EggLang.Eval.Evaluate
import EggLang.Proofs.Scope.Chain

namespace EggLang.Scope

open EggLang.Eval

/-! ## Changes -/

inductive Change where
  /-- A new frame inside none. -/
  | new
  /-- A new frame inside another. -/
  | child (f : FrameId)
  | define (f : FrameId) (x : String) (v : Value)
  | set (f : FrameId) (x : String) (v : Value)
  | update (f : FrameId) (pairs : List (String × Value))

namespace Change

/-- What a change makes of a store. A name that is not found cannot be set: nothing changes. -/
def apply (s : Store) : Change → Store
  | .new => (s.push none).2
  | .child f => (s.push (some f)).2
  | .define f x v => s.define f x v
  | .set f x v => (s.assign? f x v).getD s
  | .update f pairs => s.update f pairs

def Among (n : Nat) : Change → Prop
  | .new => True
  | .child f | .define f _ _ | .set f _ _ | .update f _ => f < n

instance decidableAmong (n : Nat) (c : Change) : Decidable (c.Among n) :=
  match c with
  | .new => inferInstanceAs (Decidable True)
  | .child f | .define f _ _ | .set f _ _ | .update f _ => inferInstanceAs (Decidable (f < n))

def defined (g : FrameId) : Change → List (String × Value)
  | .define f x v => if f = g then [(x, v)] else []
  | .update f pairs => if f = g then pairs else []
  | .new | .child _ | .set _ _ _ => []

end Change

/-- Changes, the newest first. -/
abbrev History := List Change

namespace History

def store : History → Store
  | [] => .empty
  | c :: past => c.apply (store past)

def frames : History → Nat
  | [] => 0
  | .new :: past | .child _ :: past => frames past + 1
  | _ :: past => frames past

def Allowed : History → Prop
  | [] => True
  | c :: past => c.Among (frames past) ∧ Allowed past

instance decidableAllowed : (h : History) → Decidable (Allowed h)
  | [] => inferInstanceAs (Decidable True)
  | c :: past =>
    have := decidableAllowed past
    inferInstanceAs (Decidable (c.Among (frames past) ∧ Allowed past))

/-! ## What a history tells -/

/-- The names defined in a frame, oldest first, as often as they were defined. -/
def definitions (h : History) (f : FrameId) : List String := h.reverse.flatMap fun c => (c.defined f).map Prod.fst

/-- The frames from `f` outwards: what a frame was made inside of never changes. -/
def chain : History → FrameId → List FrameId
  | [], _ => []
  | .new :: past, f => if f = frames past then [f] else chain past f
  | .child g :: past, f => if f = frames past then f :: chain past g else chain past f
  | _ :: past, f => chain past f

def owner? (h : History) (f : FrameId) (x : String) : Option FrameId :=
  (chain h f).find? fun g => decide (x ∈ definitions h g)

/-- The value that a change writes to a name in a frame, after what has happened before. -/
def written? (past : History) (g : FrameId) (x : String) : Change → Option Value
  | .set f y v => if y = x ∧ owner? past f y = some g then some v else none
  | c => Bindings.get? (c.defined g).reverse x

def value? : History → FrameId → String → Option Value
  | [], _, _ => none
  | c :: past, g, x => (written? past g x c).or (value? past g x)

@[simp] theorem definitions_cons (c : Change) (past : History) (f : FrameId) :
    definitions (c :: past) f = definitions past f ++ (c.defined f).map Prod.fst := by
  simp [definitions]

theorem mem_definitions {h : History} {f : FrameId} {x : String} :
    x ∈ definitions h f ↔ ∃ c ∈ h, x ∈ (c.defined f).map Prod.fst := by
  simp [definitions]

end History

/-! ## Binding several names -/

theorem eraseDups_concat (l : List String) (x : String) :
    (l ++ [x]).eraseDups = if x ∈ l then l.eraseDups else l.eraseDups ++ [x] := by
  rw [List.eraseDups_append]
  by_cases h : x ∈ l
  · simp [List.removeAll, h]
  · simp [List.removeAll, h, List.eraseDups_cons]

theorem Bindings.get?_append (b c : Bindings) (x : String) :
    Bindings.get? (b ++ c) x = (Bindings.get? b x).or (Bindings.get? c x) := by
  induction b with
  | nil => rfl
  | cons p rest ih =>
    obtain ⟨y, w⟩ := p
    by_cases h : x = y
    · simp [Bindings.get?, h]
    · simpa [Bindings.get?, h] using ih

theorem Bindings.get?_put (b : Bindings) (p : String × Value) (x : String) :
    (b.put p.1 p.2).get? x = (Bindings.get? [p] x).or (b.get? x) := by
  by_cases h : x = p.1
  · simp [Bindings.get?, h]
  · simp [Bindings.get?, h, Bindings.get?_put_of_ne b p.2 h]

namespace Store

variable {s : Store} {f : FrameId}

/-- Binding names in one frame touches no other frame, and no link. -/
theorem update_elsewhere (s : Store) (f : FrameId) (pairs : List (String × Value)) :
    (s.update f pairs).frames.size = s.frames.size ∧ (∀ g, (s.update f pairs).outer? g = s.outer? g) ∧
      ∀ g, g ≠ f → (s.update f pairs).bindings g = s.bindings g := by
  refine update_induction (P := fun t => t.frames.size = s.frames.size ∧ (∀ g, t.outer? g = s.outer? g) ∧
    ∀ g, g ≠ f → t.bindings g = s.bindings g) ?_ ⟨rfl, fun _ => rfl, fun _ _ => rfl⟩
  intro t ⟨hsize, houter, hbindings⟩ p _
  refine ⟨by simp [hsize], by simp [houter], ?_⟩
  intro g hg
  rw [bindings_define_of_ne t hg, hbindings g hg]

/-- New names are listed behind the others, in the order in which they are bound. -/
theorem names_update (hf : f < s.frames.size) {defs : List String} (hs : s.names f = defs.eraseDups)
    (pairs : List (String × Value)) : (s.update f pairs).names f = (defs ++ pairs.map Prod.fst).eraseDups := by
  induction pairs generalizing s defs with
  | nil => simpa [update] using hs
  | cons p pairs ih =>
    have hdefine : (s.define f p.1 p.2).names f = (defs ++ [p.1]).eraseDups := by
      simp only [names] at hs
      rw [names, bindings_define_self hf, Bindings.names_put, eraseDups_concat, hs]
      simp only [List.mem_eraseDups]
    simpa [update] using ih (by rw [size_define]; exact hf) hdefine

/-- Of the values bound to a name the last one stays. -/
theorem get?_update (hf : f < s.frames.size) (pairs : List (String × Value)) (x : String) :
    ((s.update f pairs).bindings f).get? x = (Bindings.get? pairs.reverse x).or ((s.bindings f).get? x) := by
  induction pairs generalizing s with
  | nil => rfl
  | cons p pairs ih =>
    have hrest := ih (s := s.define f p.1 p.2) (by rw [size_define]; exact hf)
    rw [bindings_define_self hf, Bindings.get?_put, ← Option.or_assoc, ← Bindings.get?_append] at hrest
    rw [List.reverse_cons]
    exact hrest

end Store

/-! ## Stores as the history tells -/

open History

structure Recorded (h : History) (s : Store) : Prop where
  size : s.frames.size = frames h
  older : s.Older
  chain : ∀ f, f < frames h → s.chain f = History.chain h f
  names : ∀ f, s.names f = (definitions h f).eraseDups
  value : ∀ f x, (s.bindings f).get? x = value? h f x

namespace Recorded

variable {h : History} {s : Store}

theorem owns_iff (hs : Recorded h s) {f : FrameId} {x : String} : s.owns f x = true ↔ x ∈ definitions h f := by
  rw [Store.owns_iff, hs.names, List.mem_eraseDups]

theorem find?_eq (hs : Recorded h s) {f : FrameId} (hf : f < frames h) (x : String) :
    s.find? f x = owner? h f x := by
  have howns : (fun g => s.owns g x) = fun g => decide (x ∈ definitions h g) := by
    funext g
    rw [Bool.eq_iff_iff, decide_eq_true_iff]
    exact hs.owns_iff
  rw [Store.find?, hs.chain f hf, howns, owner?]

theorem empty : Recorded [] .empty where
  size := rfl
  older f g hg := by cases hg
  chain f hf := by cases hf
  names f := rfl
  value f x := rfl

/-- A new frame owns nothing, and those that there were are as before. -/
theorem push (hs : Recorded h s) (outer : Option FrameId) (houter : ∀ g, outer = some g → g < frames h) {c : Change}
    (hframes : frames (c :: h) = frames h + 1)
    (hchain : ∀ f, History.chain (c :: h) f =
      if f = frames h then f :: outer.elim [] (History.chain h) else History.chain h f)
    (hdefined : ∀ g, c.defined g = []) (hwritten : ∀ g x, written? h g x c = none) :
    Recorded (c :: h) (s.push outer).2 := by
  have holder : (s.push outer).2.Older := hs.older.push (by rw [hs.size]; exact houter)
  have hthere : ∀ f, f < frames h → (s.push outer).2.chain f = History.chain h f := by
    intro f hf
    rw [← hs.chain f hf]
    refine hs.older.chain_of_outer? ?_
    intro g hg
    exact Store.outer?_push_of_lt (by rw [hs.size]; exact Nat.lt_of_le_of_lt hg hf) outer
  refine ⟨by rw [hframes, ← hs.size]; simp [Store.push], holder, ?_, ?_, ?_⟩
  · intro f hf
    rw [hchain]
    by_cases hnew : f = frames h
    · rw [if_pos hnew, holder.chain_eq, show f = (s.push outer).1 from by rw [hnew, ← hs.size]; rfl,
        Store.outer?_push_self]
      cases outer with
      | none => rfl
      | some g => simp only [Option.elim_some, hthere g (houter g rfl)]
    · rw [if_neg hnew, hthere f (by omega)]
  · intro f
    rw [Store.names_push, definitions_cons, hdefined, List.map_nil, List.append_nil]
    exact hs.names f
  · intro f x
    rw [Store.bindings_push, value?, hwritten, Option.none_or]
    exact hs.value f x

/-- Names are bound one after the other in a frame that there is. -/
theorem update (hs : Recorded h s) {f : FrameId} (hf : f < frames h) (pairs : List (String × Value)) :
    Recorded (.update f pairs :: h) (s.update f pairs) := by
  obtain ⟨hsize, houter, helsewhere⟩ := s.update_elsewhere f pairs
  have hthere : f < s.frames.size := by rw [hs.size]; exact hf
  refine ⟨hsize.trans hs.size, ?_, ?_, ?_, ?_⟩
  · intro g g' hg
    rw [houter] at hg
    exact hs.older g g' hg
  · intro g hg
    show (s.update f pairs).chain g = History.chain h g
    rw [← hs.chain g hg]
    exact hs.older.chain_of_outer? fun g' _ => houter g'
  · intro g
    rw [definitions_cons, Change.defined]
    by_cases hg : f = g
    · rw [if_pos hg, ← hg]
      exact Store.names_update hthere (hs.names f) pairs
    · rw [if_neg hg, List.map_nil, List.append_nil, Store.names, helsewhere g (Ne.symm hg)]
      exact hs.names g
  · intro g x
    show _ = (Bindings.get? (if f = g then pairs else []).reverse x).or (value? h g x)
    by_cases hg : f = g
    · rw [if_pos hg, ← hg, ← hs.value]
      exact Store.get?_update hthere pairs x
    · rw [if_neg hg, helsewhere g (Ne.symm hg), hs.value]
      rfl

/-- A name is set where it is found, if it is. -/
theorem set (hs : Recorded h s) {f : FrameId} (hf : f < frames h) (x : String) (v : Value) :
    Recorded (.set f x v :: h) ((s.assign? f x v).getD s) := by
  have howner := hs.find?_eq hf x
  unfold Store.assign?
  cases hfind : s.find? f x with
  | none =>
    rw [hfind] at howner
    refine ⟨hs.size, hs.older, hs.chain, ?_, ?_⟩
    · intro g
      rw [definitions_cons, Change.defined, List.map_nil, List.append_nil]
      exact hs.names g
    · intro g y
      have hnone : written? h g y (.set f x v) = none := by simp [written?, ← howner]
      rw [value?, hnone, Option.none_or]
      exact hs.value g y
  | some g =>
    rw [hfind] at howner
    have howns := Store.owns_of_find? hfind
    refine ⟨(s.size_define g x v).trans hs.size, hs.older.define g x v, ?_, ?_, ?_⟩
    · intro f' hf'
      rw [Option.getD_some, Store.chain_define]
      exact hs.chain f' hf'
    · intro f'
      rw [definitions_cons, Change.defined, List.map_nil, List.append_nil, Option.getD_some,
        Store.names_define_of_owns howns]
      exact hs.names f'
    · intro f' y
      rw [Option.getD_some, value?, ← hs.value]
      by_cases hy : y = x
      · subst hy
        by_cases hf' : f' = g
        · subst hf'
          rw [Store.bindings_define_self (Store.lt_size_of_owns howns)]
          simp [written?, ← howner]
        · rw [Store.bindings_define_of_ne s hf']
          simp [written?, ← howner, Ne.symm hf']
      · rw [Store.get?_define_of_ne s g hy]
        simp [written?, Ne.symm hy]

end Recorded

/-- What the changes have led to is what their history tells. -/
theorem recorded {h : History} (hh : Allowed h) : Recorded h (store h) := by
  induction h with
  | nil => exact .empty
  | cons c past ih =>
    have hpast := ih hh.2
    have hc := hh.1
    cases c with
    | new => exact hpast.push none (by simp) rfl (fun _ => rfl) (fun _ => rfl) fun _ _ => rfl
    | child f =>
      refine hpast.push (some f) ?_ rfl (fun _ => rfl) (fun _ => rfl) fun _ _ => rfl
      intro g hg
      cases hg
      exact hc
    | define f x v =>
      -- one name is bound like several
      have hone := hpast.update hc [(x, v)]
      refine ⟨hone.size, hone.older, hone.chain, ?_, hone.value⟩
      intro g
      have hnames := hone.names g
      rw [definitions_cons] at hnames ⊢
      exact hnames
    | set f x v => exact hpast.set hc x v
    | update f pairs => exact hpast.update hc pairs

/-- After any changes to frames that there were, a frame owns the names that were defined in it and
    lists them in the order of their first definitions. A name is found in the first frame outwards
    that owns it, and has the value last written there. A name that no frame owns is a fault to look
    up and to set, and setting it changes nothing. -/
theorem store_follows_history {h : History} (hh : Allowed h) {f : FrameId} (hf : f < frames h) (x : String) :
    ((store h).owns f x = true ↔ ∃ c ∈ h, x ∈ (c.defined f).map Prod.fst) ∧
    (store h).names f = (definitions h f).eraseDups ∧
    (store h).find? f x = owner? h f x ∧
    (∀ g, owner? h f x = some g →
      (∃ v, value? h g x = some v ∧ Action.lookup f x (store h) = .ok v (store h)) ∧
      ∀ v, Action.assign f x v (store h) = .ok () (store (.set f x v :: h))) ∧
    (owner? h f x = none →
      Action.lookup f x (store h) = .error (.fault (.unbound x)) (store h) ∧
      ∀ v, Action.assign f x v (store h) = .error (.fault (.settingUnbound x)) (store h) ∧
        store (.set f x v :: h) = store h) := by
  have hs := recorded hh
  have hfind := hs.find?_eq hf x
  refine ⟨hs.owns_iff.trans mem_definitions, hs.names f, hfind, ?_, ?_⟩
  · intro g hg
    rw [hg] at hfind
    obtain ⟨v, hv, hlookup⟩ := Store.lookup?_of_find? hfind
    refine ⟨⟨v, by rw [← hs.value, hv], by simp only [Action.lookup, hlookup]⟩, ?_⟩
    intro w
    simp only [Action.assign, store, Change.apply, Store.assign?, hfind, Option.getD_some]
  · intro hnone
    rw [hnone] at hfind
    have hlookup := Store.lookup?_eq_none_iff.mpr hfind
    refine ⟨by simp only [Action.lookup, hlookup], ?_⟩
    intro v
    constructor
    · simp only [Action.assign, Store.assign?, hfind]
    · simp only [store, Change.apply, Store.assign?, hfind, Option.getD_none]

/-- Two frames inside one. The name `x` is set from the first of them, before and after it is
    defined there, and from the second, where `y` is not found. -/
def shadowingHistory : History :=
  [.set 2 "y" (.int 8), .set 2 "x" (.int 7), .set 1 "x" (.int 6),
    .update 1 [("y", .int 3), ("x", .int 4), ("y", .int 5)],
    .set 1 "x" (.int 2), .define 0 "x" (.int 1), .child 0, .child 0, .new]

theorem shadowingHistory_followed :
    (Allowed shadowingHistory ∧ 1 < frames shadowingHistory ∧ 2 < frames shadowingHistory) ∧
    (store shadowingHistory).names 1 = ["y", "x"] ∧
    Action.lookup 1 "x" (store shadowingHistory) = .ok (.int 6) (store shadowingHistory) ∧
    Action.lookup 2 "x" (store shadowingHistory) = .ok (.int 7) (store shadowingHistory) ∧
    Action.assign 2 "y" (.int 8) (store shadowingHistory) =
      .error (.fault (.settingUnbound "y")) (store shadowingHistory) := by
  have hh : Allowed shadowingHistory := by decide +kernel
  have hone : 1 < frames shadowingHistory := by decide +kernel
  have htwo : 2 < frames shadowingHistory := by decide +kernel
  obtain ⟨-, hnames, -, hinner, -⟩ := store_follows_history hh hone "x"
  obtain ⟨-, -, -, hsibling, -⟩ := store_follows_history hh htwo "x"
  obtain ⟨-, -, -, -, hmissing⟩ := store_follows_history hh htwo "y"
  have hdefinitions : (definitions shadowingHistory 1).eraseDups = ["y", "x"] := by decide +kernel
  obtain ⟨⟨v, hv, hlookup⟩, -⟩ := hinner 1 (by decide +kernel)
  obtain ⟨⟨w, hw, hlookup'⟩, -⟩ := hsibling 0 (by decide +kernel)
  have hsix : value? shadowingHistory 1 "x" = some (.int 6) := by cbv
  have hseven : value? shadowingHistory 0 "x" = some (.int 7) := by cbv
  rw [hsix] at hv
  rw [hseven] at hw
  cases hv
  cases hw
  exact ⟨⟨hh, hone, htwo⟩, hnames.trans hdefinitions, hlookup, hlookup',
    ((hmissing (by decide +kernel)).2 (.int 8)).1⟩

end EggLang.Scope
