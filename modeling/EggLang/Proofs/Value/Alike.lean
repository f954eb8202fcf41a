/-
  EggLang.Proofs.Value.Alike — values that differ in their closures only.

  Two values are alike, given which closures correspond, when they are the same but for that:
  numbers, texts, flags and builtins are equal, and arrays alike item by item. No builtin can tell
  such values apart, as long as corresponding closures have the same parameters (their display form)
  and none of them corresponds to two (closures are equal by identity):

  - `display_agrees`, `equal_agrees`: they are displayed and compared alike.
  - `arithmetic_agrees`, `comparison_agrees`, `length_agrees`, `element_agrees`: so are the results
    of the builtins that compute.

  All of it holds between two depth budgets as well: the run with the smaller one may stop early.
  Whether two values are equal, closures and all, can be decided (`decidableEqValue`).
-/

import EggLang.Proofs.Outcome
import EggLang.Value.Operators

namespace EggLang

open EggLang.Numeric

namespace Value

variable {R : Closure → Closure → Prop} {early : Stop → Prop}

mutual

/-- Two values are the same, but for closures, of which `R` tells those that correspond. -/
inductive Alike (R : Closure → Closure → Prop) : Value → Value → Prop
  | number (n : Number) : Alike R (.number n) (.number n)
  | text (s : String) : Alike R (.text s) (.text s)
  | flag (b : Bool) : Alike R (.flag b) (.flag b)
  | array {xs ys : List Value} : AllAlike R xs ys → Alike R (.array xs) (.array ys)
  | closure {c d : Closure} : R c d → Alike R (.closure c) (.closure d)
  | builtin (b : Builtin) : Alike R (.builtin b) (.builtin b)

inductive AllAlike (R : Closure → Closure → Prop) : List Value → List Value → Prop
  | nil : AllAlike R [] []
  | cons {x y : Value} {xs ys : List Value} : Alike R x y → AllAlike R xs ys → AllAlike R (x :: xs) (y :: ys)

end

mutual

theorem Alike.mono {S : Closure → Closure → Prop} (h : ∀ c d, R c d → S c d) :
    ∀ {v w : Value}, Alike R v w → Alike S v w
  | _, _, .number n => .number n
  | _, _, .text s => .text s
  | _, _, .flag b => .flag b
  | _, _, .array hs => .array (AllAlike.mono h hs)
  | _, _, .closure hc => .closure (h _ _ hc)
  | _, _, .builtin b => .builtin b

theorem AllAlike.mono {S : Closure → Closure → Prop} (h : ∀ c d, R c d → S c d) :
    ∀ {xs ys : List Value}, AllAlike R xs ys → AllAlike S xs ys
  | _, _, .nil => .nil
  | _, _, .cons hx hs => .cons (Alike.mono h hx) (AllAlike.mono h hs)

end

theorem AllAlike.length_eq : ∀ {xs ys : List Value}, AllAlike R xs ys → xs.length = ys.length
  | _, _, .nil => rfl
  | _, _, .cons _ hs => by rw [List.length_cons, List.length_cons, hs.length_eq]

/-- Items at the same place in lists that are alike. -/
theorem AllAlike.getElem? : ∀ {xs ys : List Value} (i : Nat), AllAlike R xs ys → Option.Rel (Alike R) xs[i]? ys[i]?
  | _, _, _, .nil => .none
  | _, _, 0, .cons hx _ => .some hx
  | _, _, i + 1, .cons _ hs => hs.getElem? i

mutual

/-- Where only equal closures correspond, values that are alike are equal. -/
theorem Alike.eq : ∀ {v w : Value}, Alike (· = ·) v w → v = w
  | _, _, .number n => rfl
  | _, _, .text s => rfl
  | _, _, .flag b => rfl
  | _, _, .array hs => by rw [AllAlike.eq hs]
  | _, _, .closure hc => by rw [show _ = _ from hc]
  | _, _, .builtin b => rfl

theorem AllAlike.eq : ∀ {xs ys : List Value}, AllAlike (· = ·) xs ys → xs = ys
  | _, _, .nil => rfl
  | _, _, .cons hx hs => by rw [Alike.eq hx, AllAlike.eq hs]

end

mutual

theorem Alike.refl (h : ∀ c, R c c) : ∀ v : Value, Alike R v v
  | .number n => .number n
  | .text s => .text s
  | .flag b => .flag b
  | .array xs => .array (AllAlike.refl h xs)
  | .closure c => .closure (h c)
  | .builtin b => .builtin b

theorem AllAlike.refl (h : ∀ c, R c c) : ∀ xs : List Value, AllAlike R xs xs
  | [] => .nil
  | x :: xs => .cons (Alike.refl h x) (AllAlike.refl h xs)

end

/-! ## Display -/

/-- Corresponding closures look the same, and no closure corresponds to two. -/
structure Faithful (R : Closure → Closure → Prop) : Prop where
  params : ∀ {c d}, R c d → c.params = d.params
  identity : ∀ {c d c' d'}, R c d → R c' d' → (c.identity = c'.identity ↔ d.identity = d'.identity)

theorem Faithful.display_eq (hR : Faithful R) {c d : Closure} (h : R c d) : c.display = d.display := by
  rw [Closure.display, Closure.display, hR.params h]

theorem Alike.asItem_eq {v w : Value} (h : Alike R v w) (shown : String) : v.asItem shown = w.asItem shown := by
  cases h <;> rfl

mutual

theorem display_agrees (hR : Faithful R) {depth depth' : Nat} (hd : Raised (early .depth) depth depth') :
    ∀ {v w : Value}, Alike R v w → Agrees early (· = ·) (v.display depth) (w.display depth')
  | _, _, .number n => by
    simp only [display]
    exact agrees_within_depth hd (by cases displayNumber n; exact .error _; exact .ok rfl)
  | _, _, .text s => by
    simp only [display]
    exact agrees_within_depth hd (.ok rfl)
  | _, _, .flag b => by
    simp only [display]
    exact agrees_within_depth hd (.ok rfl)
  | _, _, .array hs => by
    simp only [display]
    refine agrees_within_depth hd ((displayItems_agrees hR (hd.sub 4) hs).bind_same ?_)
    intro parts
    exact .ok rfl
  | _, _, .closure hc => by
    simp only [display]
    exact agrees_within_depth hd (.ok (hR.display_eq hc))
  | _, _, .builtin b => by
    simp only [display]
    exact agrees_within_depth hd (.ok rfl)

theorem displayItems_agrees (hR : Faithful R) {depth depth' : Nat} (hd : Raised (early .depth) depth depth') :
    ∀ {xs ys : List Value}, AllAlike R xs ys → Agrees early (· = ·) (displayItems depth xs) (displayItems depth' ys)
  | _, _, .nil => by
    simp only [displayItems]
    exact .ok rfl
  | _, _, .cons hx hs => by
    simp only [displayItems]
    refine (display_agrees hR hd hx).bind_same ?_
    intro first
    refine (displayItems_agrees hR hd hs).bind_same ?_
    intro others
    rw [hx.asItem_eq]
    exact .ok rfl

end

/-- A value that is nested too deep for some depth is nested too deep for less. -/
theorem display_depth_of_le {depth depth' : Nat} {v : Value} (hle : depth ≤ depth')
    (h : v.display depth' = .error .depth) : v.display depth = .error .depth := by
  have hsame : Faithful (· = ·) := by
    constructor
    · rintro c d rfl
      rfl
    · rintro c d c' d' rfl rfl
      rfl
  have hagrees : Agrees (· = .depth) (· = ·) (v.display depth) (v.display depth') := by
    refine display_agrees hsame ?_ (.refl (fun _ => rfl) v)
    exact ⟨hle, fun _ => rfl⟩
  rcases hagrees.eq_or_early with heq | ⟨_, rfl, hdepth⟩
  · rw [heq, h]
  · exact hdepth

/-! ## Equality -/

mutual

theorem equal_agrees (hR : Faithful R) {depth depth' : Nat} (hd : Raised (early .depth) depth depth') :
    ∀ {a a' b b' : Value}, Alike R a a' → Alike R b b' → Agrees early (· = ·) (a.equal depth b) (a'.equal depth' b')
  | _, _, _, _, .number m, hb => by
    cases hb <;> (simp only [equal]; exact agrees_within_depth hd (.ok rfl))
  | _, _, _, _, .text s, hb => by
    cases hb <;> (simp only [equal]; exact agrees_within_depth hd (.ok rfl))
  | _, _, _, _, .flag p, hb => by
    cases hb <;> (simp only [equal]; exact agrees_within_depth hd (.ok rfl))
  | _, _, _, _, .builtin f, hb => by
    cases hb <;> (simp only [equal]; exact agrees_within_depth hd (.ok rfl))
  | _, _, _, _, .closure hc, hb => by
    cases hb with
    | closure hc' =>
      simp only [equal]
      refine agrees_within_depth hd (.ok ?_)
      rw [Bool.eq_iff_iff, beq_iff_eq, beq_iff_eq]
      exact hR.identity hc hc'
    | _ => simp only [equal]; exact agrees_within_depth hd (.ok rfl)
  | _, _, _, _, .array hs, hb => by
    cases hb with
    | array hs' =>
      simp only [equal]
      refine agrees_within_depth hd ?_
      rw [hs.length_eq, hs'.length_eq]
      split
      · exact equalItems_agrees hR (hd.sub 3) hs hs'
      · exact .ok rfl
    | _ => simp only [equal]; exact agrees_within_depth hd (.ok rfl)

theorem equalItems_agrees (hR : Faithful R) {depth depth' : Nat} (hd : Raised (early .depth) depth depth') :
    ∀ {xs xs' ys ys' : List Value}, AllAlike R xs xs' → AllAlike R ys ys' →
      Agrees early (· = ·) (equalItems depth xs ys) (equalItems depth' xs' ys')
  | _, _, _, _, .nil, hs => by
    simp only [equalItems]
    exact .ok rfl
  | _, _, _, _, .cons hx hxs, hs => by
    cases hs with
    | nil => simp only [equalItems]; exact .ok rfl
    | cons hy hys =>
      simp only [equalItems]
      refine (equal_agrees hR hd hx hy).bind_same ?_
      intro same
      split
      · exact equalItems_agrees hR hd hxs hys
      · exact .ok rfl

end

/-! ## The builtins that compute -/

/-- A text on either side makes `+` join. -/
def isText : Value → Bool
  | .text _ => true
  | _ => false

def number? : Value → Option Number
  | .number n => some n
  | _ => none

theorem arithmetic_eq (op : Arithmetic) (depth : Nat) (a b : Value) :
    op.apply depth a b =
      if op = .add ∧ (a.isText ∨ b.isText) then Arithmetic.join depth a b
      else
        match a.number?, b.number? with
        | some m, some n => op.onNumbers m n
        | _, _ => op.onOthers depth a b := by
  cases op <;> cases a <;> cases b <;> rfl

theorem Alike.isText_eq {v w : Value} (h : Alike R v w) : v.isText = w.isText := by
  cases h <;> rfl

theorem Alike.number?_eq {v w : Value} (h : Alike R v w) : v.number? = w.number? := by
  cases h <;> rfl

theorem Alike.isFalse_eq {v w : Value} (h : Alike R v w) : v.isFalse = w.isFalse := by
  cases h <;> rfl

theorem join_agrees (hR : Faithful R) {depth depth' : Nat} (hd : Raised (early .depth) depth depth')
    {a a' b b' : Value} (ha : Alike R a a') (hb : Alike R b b') :
    Agrees early (Alike R) (Arithmetic.join depth a b) (Arithmetic.join depth' a' b') := by
  refine (display_agrees hR hd ha).bind_same ?_
  intro left
  refine (display_agrees hR hd hb).bind_same ?_
  intro right
  exact .ok (.text _)

/-- A fault that shows two values is the same for values that are alike. -/
theorem shown_agrees (hR : Faithful R) {depth depth' : Nat} (hd : Raised (early .depth) depth depth')
    {a a' b b' : Value} (ha : Alike R a a') (hb : Alike R b b') (f : String → String → Fault) :
    Agrees early (Alike R) (do let left ← a.display depth; let right ← b.display depth; fail (f left right))
      (do let left ← a'.display depth'; let right ← b'.display depth'; fail (f left right)) := by
  refine (display_agrees hR hd ha).bind_same ?_
  intro left
  refine (display_agrees hR hd hb).bind_same ?_
  intro right
  exact .error _

theorem arithmetic_agrees (hR : Faithful R) {depth depth' : Nat} (hd : Raised (early .depth) depth depth')
    (op : Arithmetic) {a a' b b' : Value} (ha : Alike R a a') (hb : Alike R b b') :
    Agrees early (Alike R) (op.apply depth a b) (op.apply depth' a' b') := by
  rw [arithmetic_eq, arithmetic_eq, ha.isText_eq, hb.isText_eq, ha.number?_eq, hb.number?_eq]
  split
  · exact join_agrees hR hd ha hb
  split
  · rename_i m n _ _
    rw [Arithmetic.onNumbers]
    split
    · exact .error _
    · cases op.compute m n with
      | ok n => exact .ok (.number n)
      | error cause => exact .error _
  · exact shown_agrees hR hd ha hb (.notNumbers op)

theorem comparison_agrees (hR : Faithful R) {depth depth' : Nat} (hd : Raised (early .depth) depth depth')
    (op : Comparison) {a a' b b' : Value} (ha : Alike R a a') (hb : Alike R b b') :
    Agrees early (Alike R) (op.apply depth a b) (op.apply depth' a' b') := by
  have hshown := shown_agrees hR hd ha hb (.notOrdered op)
  cases ha with
  | number m =>
    cases hb with
    | number n => exact .ok (.flag _)
    | _ => exact hshown
  | text s =>
    cases hb with
    | text t => exact .ok (.flag _)
    | _ => exact hshown
  | _ => exact hshown

/-- A fault that shows a value is the same for values that are alike. -/
theorem shown_one_agrees (hR : Faithful R) {depth depth' : Nat} (hd : Raised (early .depth) depth depth')
    {v w : Value} (h : Alike R v w) (f : String → Fault) :
    Agrees early (Alike R) (do fail (f (← v.display depth))) (do fail (f (← w.display depth'))) := by
  refine (display_agrees hR hd h).bind_same ?_
  intro shown
  exact .error _

/-- Both values have items, which are alike, or neither has any. -/
theorem Alike.items?_cases {v w : Value} (h : Alike R v w) :
    (v.items? = none ∧ w.items? = none) ∨ ∃ xs ys, v.items? = some xs ∧ w.items? = some ys ∧ AllAlike R xs ys := by
  cases h with
  | text s =>
    refine .inr ⟨_, _, rfl, rfl, ?_⟩
    induction s.toList with
    | nil => exact .nil
    | cons c cs ih => exact .cons (.text _) ih
  | array hs => exact .inr ⟨_, _, rfl, rfl, hs⟩
  | _ => exact .inl ⟨rfl, rfl⟩

theorem length_agrees (hR : Faithful R) {depth depth' : Nat} (hd : Raised (early .depth) depth depth')
    {v w : Value} (h : Alike R v w) : Agrees early (Alike R) (v.length depth) (w.length depth') := by
  rw [Value.length, Value.length]
  obtain ⟨hv, hw⟩ | ⟨xs, ys, hv, hw, hs⟩ := h.items?_cases
  · rw [hv, hw]
    exact shown_one_agrees hR hd h .lengthOfNonSequence
  · simp only [hv, hw, hs.length_eq]
    exact .ok (.number _)

theorem indexFault_agrees (i : Int) (length : Nat) :
    Agrees early (Alike R) (indexFault i length) (indexFault i length) := by
  rw [indexFault]
  split
  · exact .error _
  · exact .error _

theorem element_agrees (hR : Faithful R) {depth depth' : Nat} (hd : Raised (early .depth) depth depth')
    {v w i j : Value} (h : Alike R v w) (hij : Alike R i j) :
    Agrees early (Alike R) (v.element depth i) (w.element depth' j) := by
  rw [Value.element, Value.element]
  obtain ⟨hv, hw⟩ | ⟨xs, ys, hv, hw, hs⟩ := h.items?_cases
  · rw [hv, hw]
    exact shown_one_agrees hR hd h .elementOfNonSequence
  simp only [hv, hw]
  have hshown := shown_one_agrees hR hd hij .indexNotInteger
  cases hij with
  | number n =>
    cases n with
    | int n =>
      simp only [hs.length_eq]
      split
      · exact indexFault_agrees n ys.length
      · have hget := hs.getElem? n.toNat
        cases hx : xs[n.toNat]? <;> cases hy : ys[n.toNat]? <;> rw [hx, hy] at hget <;> cases hget
        · exact indexFault_agrees n ys.length
        · rename_i hxy
          exact .ok hxy
    | float x => exact hshown
  | _ => exact hshown

/-! ## Deciding equality -/

mutual

def same : Value → Value → Bool
  | .number m, .number n => m = n
  | .text s, .text t => s = t
  | .flag a, .flag b => a = b
  | .array xs, .array ys => sameAll xs ys
  | .closure c, .closure d => c = d
  | .builtin a, .builtin b => a = b
  | _, _ => false

def sameAll : List Value → List Value → Bool
  | [], [] => true
  | x :: xs, y :: ys => same x y && sameAll xs ys
  | _, _ => false

end

mutual

theorem same_iff : ∀ v w : Value, same v w = true ↔ v = w
  | .array xs, w => by cases w <;> simp [same, sameAll_iff xs]
  | .number _, w | .text _, w | .flag _, w | .closure _, w | .builtin _, w => by cases w <;> simp [same]

theorem sameAll_iff : ∀ xs ys : List Value, sameAll xs ys = true ↔ xs = ys
  | [], ys => by cases ys <;> simp [sameAll]
  | x :: xs, ys => by cases ys <;> simp [sameAll, same_iff x, sameAll_iff xs]

end

instance decidableEqValue : DecidableEq Value := fun v w => decidable_of_iff _ (same_iff v w)

end Value

end EggLang
