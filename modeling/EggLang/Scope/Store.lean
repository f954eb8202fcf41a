/-
  EggLang.Scope.Store — frames, linked outwards, and the rest of a program's state.

  A frame (`Environment`) owns names with their values, in order, and may have an outer frame. A
  name is listed where it was first bound. Binding it again replaces its value and keeps its place
  (`names_put`), so no name is ever listed twice (`nodup_names_put`). Binding pairs that were first
  gathered into bindings of their own gives the same as binding them one after the other; `ofPairs`
  gathers them.

  Frames are numbered in the order in which they are made and are never removed; a frame's outer
  frame is older than itself, so the chain from a frame outwards (`chain`) has at most as many
  frames as there are older ones, and itself.

  A name is found in the first frame of the chain that owns it (`find?`). Looking a name up and
  assigning to it go to that frame (`lookup`, `set`); defining a name touches only the frame it is
  told to (`bindings_define_self`, `bindings_define_of_ne`) and no link (`chain_define`). The store
  also counts the closures made and holds what has been printed.
-/

import EggLang.Value.Basic

namespace EggLang.Scope

/-! ## Bindings -/

abbrev Bindings := List (String × Value)

namespace Bindings

def names (b : Bindings) : List String := b.map Prod.fst

def get? : Bindings → String → Option Value
  | [], _ => none
  | (y, w) :: rest, x => if x = y then some w else get? rest x

/-- Bind a name: in its place if it is listed, else behind the others. -/
def put (x : String) (v : Value) : Bindings → Bindings
  | [] => [(x, v)]
  | (y, w) :: rest => if x = y then (y, v) :: rest else (y, w) :: put x v rest

def putAll (b : Bindings) (pairs : List (String × Value)) : Bindings := pairs.foldl (fun b p => b.put p.1 p.2) b

/-- Pairs gathered into bindings: a repeated name keeps its first place and its last value. -/
def ofPairs (pairs : List (String × Value)) : Bindings := putAll [] pairs

@[simp] theorem names_put (b : Bindings) (x : String) (v : Value) :
    (put x v b).names = if x ∈ b.names then b.names else b.names ++ [x] := by
  induction b with
  | nil => simp [put, names]
  | cons p rest ih =>
    obtain ⟨y, w⟩ := p
    by_cases h : x = y
    · simp [put, names, h]
    · simp only [names] at ih
      by_cases hx : x ∈ rest.map Prod.fst
      · simp only [put, h, if_false, names, List.map_cons, ih, List.mem_cons, false_or, hx, if_true]
      · simp only [put, h, if_false, names, List.map_cons, ih, List.mem_cons, or_self, hx, List.cons_append]

theorem nodup_names_put {b : Bindings} (h : b.names.Nodup) (x : String) (v : Value) : (put x v b).names.Nodup := by
  rw [names_put]
  split
  · exact h
  · rename_i hx
    exact List.nodup_append.mpr ⟨h, by simp, fun a ha b hb => by simp at hb; subst hb; exact fun e => hx (e ▸ ha)⟩

@[simp] theorem get?_put_self (b : Bindings) (x : String) (v : Value) : (put x v b).get? x = some v := by
  induction b with
  | nil => simp [put, get?]
  | cons p rest ih =>
    obtain ⟨y, w⟩ := p
    by_cases h : x = y
    · simp [put, get?, h]
    · simp [put, get?, h, ih]

theorem get?_put_of_ne (b : Bindings) {x y : String} (v : Value) (h : y ≠ x) : (put x v b).get? y = b.get? y := by
  induction b with
  | nil => simp [put, get?, h]
  | cons p rest ih =>
    obtain ⟨z, w⟩ := p
    by_cases hz : x = z
    · subst hz
      simp [put, get?, h]
    · simp [put, get?, hz, ih]

end Bindings

/-! ## Frames -/

structure Frame where
  bindings : Bindings
  outer : Option FrameId

structure Store where
  frames : Array Frame
  /-- The identity of the next closure. -/
  closures : Nat
  /-- All that has been printed. -/
  output : String

namespace Store

def empty : Store := ⟨#[], 0, ""⟩

def bindings (s : Store) (f : FrameId) : Bindings :=
  match s.frames[f]? with
  | some frame => frame.bindings
  | none => []

def outer? (s : Store) (f : FrameId) : Option FrameId := s.frames[f]?.bind Frame.outer

def names (s : Store) (f : FrameId) : List String := (s.bindings f).names

def owns (s : Store) (f : FrameId) (x : String) : Bool := (s.bindings f).any (·.1 == x)

/-- The frames from `f` outwards, at most `links + 1` of them. -/
def chainWithin (s : Store) : (links : Nat) → (f : FrameId) → List FrameId
  | 0, f => [f]
  | links + 1, f =>
    match s.outer? f with
    | some g => f :: s.chainWithin links g
    | none => [f]

def chain (s : Store) (f : FrameId) : List FrameId := s.chainWithin f f

/-- The first frame from `f` outwards that owns a name. -/
def find? (s : Store) (f : FrameId) (x : String) : Option FrameId := (s.chain f).find? (s.owns · x)

def lookup? (s : Store) (f : FrameId) (x : String) : Option Value :=
  (s.find? f x).bind fun g => (s.bindings g).get? x

def push (s : Store) (outer : Option FrameId) : FrameId × Store :=
  (s.frames.size, { s with frames := s.frames.push ⟨[], outer⟩ })

def define (s : Store) (f : FrameId) (x : String) (v : Value) : Store :=
  { s with frames := s.frames.modify f fun frame => { frame with bindings := frame.bindings.put x v } }

def update (s : Store) (f : FrameId) (pairs : List (String × Value)) : Store :=
  pairs.foldl (fun s p => s.define f p.1 p.2) s

@[inline] def assign? (s : Store) (f : FrameId) (x : String) (v : Value) : Option Store :=
  match s.find? f x with
  | some g => some (s.define g x v)
  | none => none

def print (s : Store) (text : String) : Store := { s with output := s.output ++ text }

def close (s : Store) (params : List String) (body : Program.Expr) (f : FrameId) : Closure × Store :=
  (⟨s.closures, params, body, f⟩, { s with closures := s.closures + 1 })

/-- What every top frame owns: the builtins, then the two flags. -/
def topBindings : List (String × Value) :=
  Builtin.all.map (fun b => (b.name, Value.builtin b)) ++ [("true", .flag true), ("false", .flag false)]

def register (s : Store) (f : FrameId) : Store := s.update f topBindings

def pushTop (s : Store) : FrameId × Store :=
  let (f, s') := s.push none
  (f, s'.register f)

/-! ## What defining a name leaves alone -/

@[simp] theorem size_define (s : Store) (f : FrameId) (x : String) (v : Value) :
    (s.define f x v).frames.size = s.frames.size := by
  simp [define]

@[simp] theorem outer?_define (s : Store) (f : FrameId) (x : String) (v : Value) (g : FrameId) :
    (s.define f x v).outer? g = s.outer? g := by
  simp only [outer?, define, Array.getElem?_modify]
  split
  · cases s.frames[g]? <;> rfl
  · rfl

theorem bindings_define_self {s : Store} {f : FrameId} (h : f < s.frames.size) (x : String) (v : Value) :
    (s.define f x v).bindings f = (s.bindings f).put x v := by
  simp only [bindings, define, Array.getElem?_modify, if_true, Array.getElem?_eq_getElem h, Option.map_some]

theorem bindings_define_of_ne (s : Store) {f g : FrameId} (h : g ≠ f) (x : String) (v : Value) :
    (s.define f x v).bindings g = s.bindings g := by
  simp only [bindings, define, Array.getElem?_modify, if_neg (Ne.symm h)]

@[simp] theorem chainWithin_define (s : Store) (f : FrameId) (x : String) (v : Value) (links : Nat) (g : FrameId) :
    (s.define f x v).chainWithin links g = s.chainWithin links g := by
  induction links generalizing g with
  | zero => rfl
  | succ links ih => simp only [chainWithin, outer?_define, ih]

@[simp] theorem chain_define (s : Store) (f : FrameId) (x : String) (v : Value) (g : FrameId) :
    (s.define f x v).chain g = s.chain g :=
  chainWithin_define s f x v g g

/-! ## What a new frame leaves alone -/

theorem bindings_push_of_lt {s : Store} {g : FrameId} (h : g < s.frames.size) (outer : Option FrameId) :
    (s.push outer).2.bindings g = s.bindings g := by
  simp only [bindings, push, Array.getElem?_push, if_neg (Nat.ne_of_lt h)]

theorem outer?_push_of_lt {s : Store} {g : FrameId} (h : g < s.frames.size) (outer : Option FrameId) :
    (s.push outer).2.outer? g = s.outer? g := by
  simp only [outer?, push, Array.getElem?_push, if_neg (Nat.ne_of_lt h)]

@[simp] theorem bindings_push_self (s : Store) (outer : Option FrameId) :
    (s.push outer).2.bindings (s.push outer).1 = [] := by
  simp [bindings, push]

@[simp] theorem outer?_push_self (s : Store) (outer : Option FrameId) :
    (s.push outer).2.outer? (s.push outer).1 = outer := by
  simp [outer?, push]

end Store

end EggLang.Scope
