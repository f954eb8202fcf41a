/-
  EggLang.Proofs.Eval.Unmentioned — the bindings that an evaluation cannot see.

  A name is mentioned in an expression where it stands as a word, but not where it is the operator
  of a form: a form is told by its word alone (`SPECIAL_FORMS`), whatever that word is bound to. An
  evaluation looks up, binds and sets only names that are mentioned in what it evaluates. So it
  cannot tell two stores apart that differ only in how they bind a name that is mentioned nowhere in
  it (`SameBut`): it ends alike in both and leaves them differing in that name only (`SameEnd`).

  The two evaluations number the closures they make from wherever their stores had come to (`Twin`);
  where both had come to the same number, they give the very same values.

  - `find?_sameBut` / `lookup?_sameBut`: other names are found in the same frames, with the same
    values.
  - `blind_lawful`: corresponding changes leave the stores differing in the one name only.
  - `evaluate_blind_to_unmentioned`: so it is after every evaluation.
-/

import EggLang.Proofs.Eval.Renaming
import EggLang.Proofs.Scope.Held

namespace EggLang

open EggLang.Eval EggLang.Program EggLang.Scope

/-! ## Names that are mentioned -/

namespace Program.Expr

mutual

/-- The words in an expression, but for those that are the operators of forms. -/
def mentioned : Expr → List String
  | .word x => [x]
  | .apply op args => (if Form.ofOperator? op = none then mentioned op else []) ++ allMentioned args
  | _ => []

def allMentioned : List Expr → List String
  | [] => []
  | e :: rest => mentioned e ++ allMentioned rest

end

variable {z : String} {op : Expr} {args : List Expr}

theorem mem_allMentioned : z ∈ allMentioned args ↔ ∃ a ∈ args, z ∈ a.mentioned := by
  induction args with
  | nil => simp [allMentioned]
  | cons a rest ih => simp [allMentioned, ih]

theorem not_mem_mentioned_operator (h : z ∉ (apply op args).mentioned) (hop : Form.ofOperator? op = none) :
    z ∉ op.mentioned := by
  rw [mentioned, if_pos hop] at h
  exact fun hz => h (List.mem_append_left _ hz)

theorem not_mem_mentioned_arg (h : z ∉ (apply op args).mentioned) : ∀ a ∈ args, z ∉ a.mentioned := by
  intro a ha hz
  rw [mentioned] at h
  exact h (List.mem_append_right _ (mem_allMentioned.mpr ⟨a, ha, hz⟩))

/-- The operator of a form is not mentioned. -/
theorem not_mem_mentioned_form {form : Form} (hform : Form.ofName? z = some form) (h : ∀ a ∈ args, z ∉ a.mentioned) :
    z ∉ (apply (.word z) args).mentioned := by
  have hop : Form.ofOperator? (.word z) ≠ none := by
    rw [Form.ofOperator?, hform]
    exact Option.some_ne_none form
  rw [mentioned, if_neg hop, List.nil_append, mem_allMentioned]
  rintro ⟨a, ha, hz⟩
  exact h a ha hz

end Program.Expr

/-! ## Bindings without a name -/

namespace Scope.Bindings

def without (z : String) (b : Bindings) : Bindings := b.filter fun p => p.1 ≠ z

theorem without_cons (z y : String) (w : Value) (rest : Bindings) :
    without z ((y, w) :: rest) = if y = z then rest.without z else (y, w) :: rest.without z := by
  by_cases h : y = z
  · rw [if_pos h, without, List.filter_cons_of_neg (by simpa using h)]
    rfl
  · rw [if_neg h, without, List.filter_cons_of_pos (by simpa using h)]
    rfl

theorem without_put_self (b : Bindings) (z : String) (v : Value) : (b.put z v).without z = b.without z := by
  induction b with
  | nil => rw [put, without_cons, if_pos rfl]
  | cons p rest ih =>
    obtain ⟨y, w⟩ := p
    by_cases hz : z = y
    · rw [put, if_pos hz, without_cons, without_cons, if_pos hz.symm, if_pos hz.symm]
    · rw [put, if_neg hz, without_cons, without_cons, ih]

theorem without_put_of_ne (b : Bindings) {x z : String} (h : x ≠ z) (v : Value) :
    (b.put x v).without z = (b.without z).put x v := by
  induction b with
  | nil =>
    rw [put, without_cons, if_neg h]
    rfl
  | cons p rest ih =>
    obtain ⟨y, w⟩ := p
    by_cases hxy : x = y
    · subst hxy
      rw [put, if_pos rfl, without_cons, without_cons, if_neg h, if_neg h, put, if_pos rfl]
    · rw [put, if_neg hxy, without_cons, without_cons, ih]
      split
      · rfl
      · rw [put, if_neg hxy]

theorem get?_without_of_ne (b : Bindings) {x z : String} (h : x ≠ z) : (b.without z).get? x = b.get? x := by
  induction b with
  | nil => rfl
  | cons p rest ih =>
    obtain ⟨y, w⟩ := p
    by_cases hy : y = z
    · rw [without_cons, if_pos hy, ih, get?, if_neg (fun hxy => h (hxy.trans hy))]
    · rw [without_cons, if_neg hy, get?, get?, ih]

theorem mem_names_without {b : Bindings} {x z : String} : x ∈ (b.without z).names ↔ x ∈ b.names ∧ x ≠ z := by
  simp only [names, without, List.mem_map, List.mem_filter, decide_eq_true_eq]
  constructor
  · rintro ⟨p, ⟨hp, hne⟩, rfl⟩
    exact ⟨⟨p, hp, rfl⟩, hne⟩
  · rintro ⟨⟨p, hp, rfl⟩, hne⟩
    exact ⟨p, ⟨hp, hne⟩, rfl⟩

end Scope.Bindings

/-! ## Stores that differ in one name only -/

structure Scope.SameBut (z : String) (R : Closure → Closure → Prop) (s t : Store) : Prop where
  size : s.frames.size = t.frames.size
  outer : ∀ f, s.outer? f = t.outer? f
  bindings : ∀ f, ((s.bindings f).without z).Alike R ((t.bindings f).without z)

namespace Scope.SameBut

variable {z : String} {R : Closure → Closure → Prop} {s t : Store}

theorem refl (z : String) (s : Store) : SameBut z (· = ·) s s :=
  ⟨rfl, fun _ => rfl, fun _ => .refl _⟩

theorem mono {S : Closure → Closure → Prop} (h : SameBut z R s t) (hRS : ∀ c d, R c d → S c d) : SameBut z S s t :=
  ⟨h.size, h.outer, fun f => (h.bindings f).mono hRS⟩

theorem chainWithin_sameBut (h : SameBut z R s t) (links : Nat) (f : FrameId) :
    s.chainWithin links f = t.chainWithin links f := by
  induction links generalizing f with
  | zero => rfl
  | succ links ih => simp only [Store.chainWithin, h.outer f, ih]

theorem owns_sameBut (h : SameBut z R s t) {x : String} (hx : x ≠ z) (f : FrameId) : s.owns f x = t.owns f x := by
  have hnames := (h.bindings f).names
  have hmem : x ∈ (s.bindings f).names ↔ x ∈ (t.bindings f).names := by
    have hs : x ∈ ((s.bindings f).without z).names ↔ _ := Bindings.mem_names_without
    have ht : x ∈ ((t.bindings f).without z).names ↔ _ := Bindings.mem_names_without
    rw [hnames] at hs
    exact ⟨fun hm => (ht.mp (hs.mpr ⟨hm, hx⟩)).1, fun hm => (hs.mp (ht.mpr ⟨hm, hx⟩)).1⟩
  rw [Bool.eq_iff_iff, Store.owns_iff, Store.owns_iff]
  exact hmem

/-- Other names are found in the same frames. -/
theorem find?_sameBut (h : SameBut z R s t) {x : String} (hx : x ≠ z) (f : FrameId) : s.find? f x = t.find? f x := by
  have howns : (s.owns · x) = (t.owns · x) := funext (h.owns_sameBut hx)
  unfold Store.find? Store.chain
  rw [h.chainWithin_sameBut, howns]

theorem lookup?_sameBut (h : SameBut z R s t) {x : String} (hx : x ≠ z) (f : FrameId) :
    Option.Rel (Value.Alike R) (s.lookup? f x) (t.lookup? f x) := by
  unfold Store.lookup?
  rw [h.find?_sameBut hx]
  cases t.find? f x with
  | none => exact .none
  | some g =>
    have hvalue := (h.bindings g).values x
    rw [Bindings.get?_without_of_ne _ hx, Bindings.get?_without_of_ne _ hx] at hvalue
    exact hvalue

theorem define (h : SameBut z R s t) (f : FrameId) (x : String) {v v' : Value} (hv : v.Alike R v') :
    SameBut z R (s.define f x v) (t.define f x v') := by
  refine ⟨?_, ?_, ?_⟩
  · rw [Store.size_define, Store.size_define]
    exact h.size
  · intro g
    rw [Store.outer?_define, Store.outer?_define]
    exact h.outer g
  · intro g
    rw [Store.bindings_define, Store.bindings_define, h.size]
    split
    · by_cases hx : x = z
      · rw [hx, Bindings.without_put_self, Bindings.without_put_self]
        exact h.bindings g
      · rw [Bindings.without_put_of_ne _ hx, Bindings.without_put_of_ne _ hx]
        exact (h.bindings g).put x hv
    · exact h.bindings g

/-- Binding the name in one of the stores leaves them differing in it only. -/
theorem define_right (h : SameBut z R s t) (f : FrameId) (v : Value) : SameBut z R s (t.define f z v) := by
  refine ⟨?_, ?_, ?_⟩
  · rw [Store.size_define]
    exact h.size
  · intro g
    rw [Store.outer?_define]
    exact h.outer g
  · intro g
    rw [Store.bindings_define]
    split
    · rw [Bindings.without_put_self]
      exact h.bindings g
    · exact h.bindings g

theorem push (h : SameBut z R s t) (outer : Option FrameId) : SameBut z R (s.push outer).2 (t.push outer).2 := by
  have hself : (s.push outer).1 = (t.push outer).1 := h.size
  refine ⟨?_, ?_, ?_⟩
  · simp only [Store.push, Array.size_push, h.size]
  · intro g
    by_cases hg : g = s.frames.size
    · rw [show g = (s.push outer).1 from hg, Store.outer?_push_self, hself, Store.outer?_push_self]
    · rw [Store.outer?_push_of_ne hg, Store.outer?_push_of_ne (h.size ▸ hg)]
      exact h.outer g
  · intro g
    by_cases hg : g = s.frames.size
    · rw [show g = (s.push outer).1 from hg, Store.bindings_push_self, hself, Store.bindings_push_self]
      exact .nil
    · rw [Store.bindings_push_of_ne hg, Store.bindings_push_of_ne (h.size ▸ hg)]
      exact h.bindings g

end Scope.SameBut

namespace Eval

/-! ## Closures of the two evaluations -/

/-- A closure that was there when both evaluations began, or those that they made as their `k`th.
    Where the stores number new closures differently, the old ones have to have numbers that neither
    gives to a new one. -/
inductive Twin (s t : Store) : Closure → Closure → Prop
  | old {c : Closure} : (s.closures = t.closures ∨ c.identity < s.closures ∧ c.identity < t.closures) → Twin s t c c
  | new (k : Nat) (params : List String) (body : Expr) (f : FrameId) :
      Twin s t ⟨s.closures + k, params, body, f⟩ ⟨t.closures + k, params, body, f⟩

theorem Twin.eq {s t : Store} (h : s.closures = t.closures) {c d : Closure} (hcd : Twin s t c d) : c = d := by
  cases hcd with
  | old _ => rfl
  | new k params body f => rw [h]

theorem Twin.faithful (s t : Store) : Value.Faithful (Twin s t) where
  params := by
    intro c d hcd
    cases hcd <;> rfl
  identity := by
    intro c d c' d' hcd hcd'
    cases hcd <;> cases hcd' <;> simp only <;> omega

/-- Two evaluations that began in `s₀` and `t₀` have come to stores that differ in `z` only, and
    have made as many closures and printed the same. -/
structure SameSince (z : String) (R : Closure → Closure → Prop) (s₀ t₀ s t : Store) : Prop where
  same : SameBut z R s t
  made : ∃ k, s.closures = s₀.closures + k ∧ t.closures = t₀.closures + k
  printed : ∃ text, s.output = s₀.output ++ text ∧ t.output = t₀.output ++ text

theorem SameSince.mono {z : String} {R S : Closure → Closure → Prop} {s₀ t₀ s t : Store} (h : SameSince z R s₀ t₀ s t)
    (hRS : ∀ c d, R c d → S c d) : SameSince z S s₀ t₀ s t :=
  ⟨h.same.mono hRS, h.made, h.printed⟩

theorem SameSince.define {z : String} {R : Closure → Closure → Prop} {s₀ t₀ s t : Store} (h : SameSince z R s₀ t₀ s t)
    (f : FrameId) (x : String) {v v' : Value} (hv : v.Alike R v') :
    SameSince z R s₀ t₀ (s.define f x v) (t.define f x v') :=
  ⟨h.same.define f x hv, h.made, h.printed⟩

theorem SameSince.push {z : String} {R : Closure → Closure → Prop} {s₀ t₀ s t : Store} (h : SameSince z R s₀ t₀ s t)
    (outer : Option FrameId) : SameSince z R s₀ t₀ (s.push outer).2 (t.push outer).2 :=
  ⟨h.same.push outer, h.made, h.printed⟩

def SilentTwin (z : String) (s₀ t₀ : Store) (c d : Closure) : Prop := Twin s₀ t₀ c d ∧ z ∉ c.body.mentioned

def Coupling.blind (z : String) (s₀ t₀ : Store) : Coupling where
  World := Unit
  le _ _ := True
  store _ := SameSince z (SilentTwin z s₀ t₀) s₀ t₀
  scope _ f g := f = g
  closure _ := SilentTwin z s₀ t₀
  covered e := z ∉ e.mentioned
  early _ := False

theorem ne_of_not_mem_mentioned {x z : String} (h : z ∉ (Expr.word x).mentioned) : x ≠ z := by
  rw [Expr.mentioned, List.mem_singleton] at h
  exact fun he => h he.symm

theorem blind_lawful (z : String) (s₀ t₀ : Store) : (Coupling.blind z s₀ t₀).Lawful where
  le_refl _ := trivial
  le_trans _ _ := trivial
  scope_later _ h := h
  closure_later _ h := h
  faithful _ := ⟨fun h => (Twin.faithful s₀ t₀).params h.1, fun h h' => (Twin.faithful s₀ t₀).identity h.1 h'.1⟩
  body := by
    intro _ c d h
    refine ⟨?_, h.2⟩
    cases h.1 <;> rfl
  operator h hop := Expr.not_mem_mentioned_operator h hop
  args h := Expr.not_mem_mentioned_arg h
  behind he := he.elim
  lookup := by
    intro _ s t f g x hst hfg hx
    obtain rfl : f = g := hfg
    exact hst.same.lookup?_sameBut (ne_of_not_mem_mentioned hx) f
  define := by
    intro _ s t f g x v v' hst hfg _ hv
    obtain rfl : f = g := hfg
    exact hst.define f x hv
  assign := by
    intro _ s t f g op x e v v' hst hfg _ hset hv
    obtain rfl : f = g := hfg
    have hx := ne_of_not_mem_mentioned (Expr.not_mem_mentioned_arg hset (.word x) (by simp))
    unfold Store.assign?
    rw [hst.same.find?_sameBut hx]
    cases t.find? f x with
    | none => exact .none
    | some g => exact .some (hst.define g x hv)
  enter := by
    intro _ s t c d vs vs' hst hcd hvs
    have hframe : c.frame = d.frame := by cases hcd.1 <;> rfl
    have hparams := (Twin.faithful s₀ t₀).params hcd.1
    refine ⟨(), trivial, hst.same.size, ?_⟩
    rw [← hframe, ← hparams, ← hst.same.size]
    exact Store.update_alike (fun _ _ x _ _ h hv => h.define s.frames.size x hv) c.params hvs (hst.push (some c.frame))
  close := by
    intro _ s t f g body params hst hfg hbody
    obtain rfl : f = g := hfg
    obtain ⟨k, hs, ht⟩ := hst.made
    refine ⟨(), trivial, ⟨?_, hbody⟩, ⟨hst.same.size, hst.same.outer, hst.same.bindings⟩, ⟨k + 1, ?_, ?_⟩, hst.printed⟩
    · simp only [Store.close, hs, ht]
      exact .new k params body f
    · simp only [Store.close, hs, Nat.add_assoc]
    · simp only [Store.close, ht, Nat.add_assoc]
  print := by
    intro _ s t text hst
    obtain ⟨printed, hs, ht⟩ := hst.printed
    refine ⟨⟨hst.same.size, hst.same.outer, hst.same.bindings⟩, hst.made, printed ++ text, ?_, ?_⟩
    · simp only [Store.print, hs, String.append_assoc]
    · simp only [Store.print, ht, String.append_assoc]

/-! ## Two evaluations -/

inductive SameEnd (z : String) (R : Closure → Closure → Prop) (s t : Store) :
    EStateM.Result Stop Store Value → EStateM.Result Stop Store Value → Prop
  | value {v v' : Value} {s' t' : Store} : v.Alike R v' → SameSince z R s t s' t' → SameEnd z R s t (.ok v s') (.ok v' t')
  | stop (e : Stop) {s' t' : Store} : SameSince z R s t s' t' → SameEnd z R s t (.error e s') (.error e t')

theorem SameEnd.mono {z : String} {R S : Closure → Closure → Prop} {s t : Store}
    {r r' : EStateM.Result Stop Store Value} (h : SameEnd z R s t r r') (hRS : ∀ c d, R c d → S c d) :
    SameEnd z S s t r r' := by
  cases h with
  | value hv hend => exact .value (hv.mono hRS) (hend.mono hRS)
  | stop e hend => exact .stop e (hend.mono hRS)

/-- The closures that a store holds under names other than `z` have been made before, so their
    numbers are used up. -/
def Numbered (z : String) (s : Store) : Prop := s.HoldsOnly fun x c => x ≠ z → c.identity < s.closures

/-- Stores that differ in `z` only are so as two evaluations begin. -/
theorem sameSince_of_sameBut {z : String} {s t : Store} (h : SameBut z (· = ·) s t)
    (hheld : s.HoldsOnly fun x c => x ≠ z → z ∉ c.body.mentioned)
    (hnumbers : s.closures = t.closures ∨ Numbered z s ∧ Numbered z t) : SameSince z (SilentTwin z s t) s t s t := by
  refine ⟨⟨h.size, h.outer, fun f => ⟨(h.bindings f).names, fun x => ?_⟩⟩, ⟨0, rfl, rfl⟩, "", ?_, ?_⟩
  · by_cases hx : x = z
    · subst hx
      have hnone : ∀ b : Bindings, (b.without x).get? x = none := fun b =>
        Bindings.get?_eq_none fun hm => (Bindings.mem_names_without.mp hm).2 rfl
      rw [hnone, hnone]
      exact .none
    · have hvalue := (h.bindings f).values x
      rw [Bindings.get?_without_of_ne _ hx, Bindings.get?_without_of_ne _ hx] at hvalue ⊢
      cases hv : (s.bindings f).get? x <;> cases hv' : (t.bindings f).get? x <;> rw [hv, hv'] at hvalue <;> cases hvalue
      · exact .none
      · rename_i v v' halike
        obtain rfl := halike.eq
        have hs := Bindings.mem_of_get? hv
        have ht := Bindings.mem_of_get? hv'
        refine .some (.of_closures fun c hc => ⟨.old ?_, Store.holdsOnly_iff.mp hheld f x v hs c hc hx⟩)
        refine hnumbers.imp_right fun hnumbered => ⟨?_, ?_⟩
        · exact Store.holdsOnly_iff.mp hnumbered.1 f x v hs c hc hx
        · exact Store.holdsOnly_iff.mp hnumbered.2 f x v ht c hc hx
  · rw [String.append_empty]
  · rw [String.append_empty]

/-- An expression that does not mention `z`, evaluated in stores that differ in it only. -/
theorem evaluate_sameEnd {z : String} {s t : Store} (hst : SameSince z (SilentTwin z s t) s t s t) {e : Expr}
    (he : z ∉ e.mentioned) (turns depth : Nat) (env : FrameId) :
    SameEnd z (Twin s t) s t (evaluate turns depth e env s) (evaluate turns depth e env t) := by
  have hfollows := (blind_lawful z s t).evaluate_coupled (Raised.refl _ turns) (Raised.refl _ depth) (w := ()) he
    (show env = env from rfl) s t hst
  generalize evaluate turns depth e env s = r at hfollows
  generalize evaluate turns depth e env t = r' at hfollows
  cases hfollows with
  | ok _ hend hv => exact .value (hv.mono fun _ _ hcd => hcd.1) (hend.mono fun _ _ hcd => hcd.1)
  | error stop _ hend => exact .stop stop (hend.mono fun _ _ hcd => hcd.1)
  | early he _ => exact he.elim

theorem evaluate_sameEnd_eq {z : String} {s t : Store} (hst : SameBut z (· = ·) s t)
    (hheld : s.HoldsOnly fun x c => x ≠ z → z ∉ c.body.mentioned) (hclosures : s.closures = t.closures) {e : Expr}
    (he : z ∉ e.mentioned) (turns depth : Nat) (env : FrameId) :
    SameEnd z (· = ·) s t (evaluate turns depth e env s) (evaluate turns depth e env t) :=
  (evaluate_sameEnd (sameSince_of_sameBut hst hheld (.inl hclosures)) he turns depth env).mono fun _ _ => Twin.eq hclosures

/-- Two stores differ only in how they bind `z`, which nothing in the store mentions but under the
    name `z` itself. An expression that does not mention `z` either ends alike in both, with the
    same value where both number new closures alike, and up to these numbers where they do not. So
    it is with a form when its own word gets bound. -/
theorem evaluate_blind_to_unmentioned {z : String} {s t : Store} (hst : SameBut z (· = ·) s t)
    (hheld : s.HoldsOnly fun x c => x ≠ z → z ∉ c.body.mentioned) (turns depth : Nat) (env : FrameId) :
    (∀ e : Expr, z ∉ e.mentioned →
      (s.closures = t.closures →
        SameEnd z (· = ·) s t (evaluate turns depth e env s) (evaluate turns depth e env t)) ∧
      (Numbered z s → Numbered z t →
        SameEnd z (Twin s t) s t (evaluate turns depth e env s) (evaluate turns depth e env t))) ∧
    (∀ (form : Form) (args : List Expr) (g : FrameId) (v : Value), Form.ofName? z = some form →
      (∀ a ∈ args, z ∉ a.mentioned) →
      SameEnd z (· = ·) s (s.define g z v) (evaluate turns depth (.apply (.word z) args) env s)
        (evaluate turns depth (.apply (.word z) args) env (s.define g z v))) := by
  refine ⟨?_, ?_⟩
  · intro e he
    refine ⟨fun hclosures => ?_, fun hs ht => ?_⟩
    · exact evaluate_sameEnd_eq hst hheld hclosures he turns depth env
    · exact evaluate_sameEnd (sameSince_of_sameBut hst hheld (.inr ⟨hs, ht⟩)) he turns depth env
  · intro form args g v hform hargs
    have he := Expr.not_mem_mentioned_form hform hargs
    exact evaluate_sameEnd_eq ((SameBut.refl z s).define_right g v) hheld rfl he turns depth env

/-- A frame inside the top frame, with a function whose body is a form and makes another
    function. -/
def formFrames : Store :=
  let body : Expr := .apply (.word "do") [.apply (.word "print") [.word "x"], .apply (.word "fun") [.word "x"]]
  { (Store.empty.pushTop.2.push (some 0)).2.define 1 "f" (.closure ⟨0, ["x"], body, 1⟩) with closures := 1 }

def boundFormFrames : Store :=
  { formFrames.define 1 "do" (.closure ⟨1, [], .word "do", 1⟩) with closures := 2 }

theorem evaluate_blind_to_bound_form :
    SameBut "do" (· = ·) formFrames boundFormFrames ∧
    formFrames.HoldsOnly (fun x c => x ≠ "do" → "do" ∉ c.body.mentioned) ∧
    "do" ∉ (Expr.apply (.word "f") [.number 2]).mentioned ∧ Numbered "do" formFrames ∧ Numbered "do" boundFormFrames ∧
    SameEnd "do" (Twin formFrames boundFormFrames) formFrames boundFormFrames
      (evaluate 1 9 (.apply (.word "f") [.number 2]) 1 formFrames)
      (evaluate 1 9 (.apply (.word "f") [.number 2]) 1 boundFormFrames) ∧
    SameEnd "do" (· = ·) formFrames (formFrames.define 0 "do" (.int 5))
      (evaluate 1 9 (.apply (.word "do") [.apply (.word "f") [.number 2]]) 1 formFrames)
      (evaluate 1 9 (.apply (.word "do") [.apply (.word "f") [.number 2]]) 1 (formFrames.define 0 "do" (.int 5))) := by
  have hdefine := (SameBut.refl "do" formFrames).define_right 1 (.closure ⟨1, [], .word "do", 1⟩)
  have hst : SameBut "do" (· = ·) formFrames boundFormFrames := ⟨hdefine.size, hdefine.outer, hdefine.bindings⟩
  have hheld : formFrames.HoldsOnly (fun x c => x ≠ "do" → "do" ∉ c.body.mentioned) := by decide +kernel
  have he : "do" ∉ (Expr.apply (.word "f") [.number 2]).mentioned := by decide +kernel
  have hs : Numbered "do" formFrames := by
    unfold Numbered
    decide +kernel
  have ht : Numbered "do" boundFormFrames := by
    unfold Numbered
    decide +kernel
  obtain ⟨hexpr, hform⟩ := evaluate_blind_to_unmentioned hst hheld 1 9 1
  refine ⟨hst, hheld, he, hs, ht, (hexpr _ he).2 hs ht, ?_⟩
  exact hform .sequence _ 0 _ rfl (by decide +kernel)

end Eval

end EggLang
