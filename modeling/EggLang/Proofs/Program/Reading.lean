/-
  EggLang.Proofs.Program.Reading — reading (`parse`) finds exactly the layouts.

  An expression is read off a text with some depth: if it is read at all, the text begins with a
  spelling of it, laid out (`readExpr_sound`). With more depth than the text has characters every
  layout is read (`readExpr_complete`): each step of depth is taken together with a character of the
  text.

  - `readProgram_eq_ok_iff_layout`: a text is read as an expression exactly when it is a layout of
    it, and texts with the same lexemes are read alike, whatever the filler in them.
  - `readProgram_stops`: a text that is not read is not in order, or wants for depth.
-/

import EggLang.Program.Reader
import EggLang.Proofs.Outcome
import EggLang.Proofs.Program.Lexing

namespace EggLang.Program

open EggLang.Text EggLang.Numeric

/-! ## Tokens -/

theorem spells_of_expr {t : Token} {e : Expr} (h : t.expr = .ok e) : Spells e [.token t] := by
  cases t with
  | text s => cases h; exact .text s
  | word name => cases h; exact .word name
  | digits ds =>
    simp only [Token.expr] at h
    split at h
    · cases h
    · cases h
      exact .number ds (by omega)

theorem readToken_cases {text rest : List Char} {e : Expr} (h : readToken text = .ok (e, rest)) :
    ∃ t : Token, text = t.chars ++ rest ∧ t.Stands rest ∧ t.expr = .ok e := by
  simp only [readToken] at h
  split at h
  · rename_i t after hnext
    obtain ⟨e', he, hok⟩ := bind_eq_ok h
    cases hok
    obtain ⟨htext, hstands⟩ := Token.next?_sound hnext
    exact ⟨t, htext, hstands, he⟩
  · cases h

theorem readToken_sound {text rest : List Char} {e : Expr} (h : readToken text = .ok (e, rest)) :
    ∃ t : Token, text = t.chars ++ rest ∧ t.Stands rest ∧ Spells e [.token t] := by
  obtain ⟨t, htext, hstands, he⟩ := readToken_cases h
  exact ⟨t, htext, hstands, spells_of_expr he⟩

theorem readToken_complete {t : Token} {rest : List Char} {e : Expr} (ht : t.Stands rest) (he : t.expr = .ok e) :
    readToken (t.chars ++ rest) = .ok (e, rest) := by
  simp only [readToken, Token.next?_complete ht, he]
  rfl

/-! ## What is read is laid out -/

/-- A reader takes a spelling of what it reads off the front of a text, and the filler behind it. -/
def ReadsSpelling (read : List Char → Read) : Prop :=
  ∀ {text e rest}, read text = .ok (e, rest) → ∃ ps mid, Spells e ps ∧ Laid ps text mid ∧ rest = skipFiller mid

theorem Laid.of_skipped {ps : List Lexeme} {text rest : List Char} (hne : ps ≠ [])
    (h : Laid ps (skipFiller text) rest) : Laid ps text rest := by
  obtain ⟨p, ps, rfl⟩ := List.exists_cons_of_ne_nil hne
  obtain ⟨after, hskip, hs, hl, -⟩ := h.cons_inv
  exact .of_skipFiller (by rw [← hskip, skipFiller_skipFiller]) hs hl

/-- What a turn of the loop over an argument list can do. -/
theorem readArgs_cases {read : List Char → Read} {room : Nat} {text rest : List Char} {args : List Expr}
    (h : readArgs read room text = .ok (args, rest)) :
    (text = ')' :: rest ∧ args = []) ∨
    ∃ room' arg behind, room = room' + 1 ∧ read text = .ok (arg, behind) ∧
      ((skipFiller behind = ')' :: rest ∧ args = [arg]) ∨
       ∃ after args', skipFiller behind = ',' :: after ∧ readArgs read room' (skipFiller after) = .ok (args', rest) ∧
         args = arg :: args') := by
  unfold readArgs at h
  split at h
  · cases h
    exact .inl ⟨rfl, rfl⟩
  · cases h
  · cases h
  · rename_i room' _ _
    obtain ⟨⟨arg, behind⟩, harg, h⟩ := bind_eq_ok h
    refine .inr ⟨room', arg, behind, rfl, harg, ?_⟩
    simp only at h
    split at h
    · rename_i after hskip
      obtain ⟨⟨args', last⟩, hargs, hok⟩ := bind_eq_ok h
      cases hok
      exact .inr ⟨after, args', hskip, hargs, rfl⟩
    · rename_i after hskip
      cases h
      exact .inl ⟨hskip, rfl⟩
    · cases h

theorem readExpr_cases {room depth : Nat} {text rest : List Char} {e : Expr}
    (h : readExpr room depth text = .ok (e, rest)) :
    ∃ depth' atom behind, depth = depth' + 1 ∧ readToken (skipFiller text) = .ok (atom, behind) ∧
      readCalls room depth' atom behind = .ok (e, rest) := by
  cases depth with
  | zero => cases h
  | succ depth =>
    rw [readExpr] at h
    obtain ⟨⟨atom, behind⟩, hatom, hcalls⟩ := bind_eq_ok h
    exact ⟨depth, atom, behind, rfl, hatom, hcalls⟩

/-- Argument lists are read one by one, until none follows. -/
theorem readCalls_cases {room depth : Nat} {f e : Expr} {text rest : List Char}
    (h : readCalls room depth f text = .ok (e, rest)) :
    ∃ depth', depth = depth' + 1 ∧
      ((∃ behind args after, skipFiller text = '(' :: behind ∧
          readArgs (readExpr room depth') room (skipFiller behind) = .ok (args, after) ∧
          readCalls room depth' (.apply f args) after = .ok (e, rest)) ∨
        (e = f ∧ rest = skipFiller text ∧ ∀ after, skipFiller text ≠ '(' :: after)) := by
  cases depth with
  | zero => cases h
  | succ depth =>
    refine ⟨depth, rfl, ?_⟩
    rw [readCalls] at h
    split at h
    · rename_i behind hskip
      obtain ⟨⟨args, after⟩, hargs, hcalls⟩ := bind_eq_ok h
      exact .inl ⟨behind, args, after, hskip, hargs, hcalls⟩
    · rename_i hother
      cases h
      exact .inr ⟨rfl, rfl, hother⟩

/-- One more argument in front of others, with a comma between. -/
theorem SpellsArgs.cons {a : Expr} {args : List Expr} {ps qs : List Lexeme} (ha : Spells a ps)
    (hargs : SpellsArgs args qs) : SpellsArgs (a :: args) (ps ++ .comma :: qs) := by
  cases args with
  | nil =>
    cases hargs
    exact .trailing ha
  | cons b args => exact .more ha hargs

theorem readArgs_sound {read : List Char → Read} (hread : ReadsSpelling read) {room : Nat} :
    ∀ {text args rest}, readArgs read room text = .ok (args, rest) →
      ∃ qs, SpellsArgs args qs ∧ Laid (qs ++ [.closing]) text rest := by
  induction room with
  | zero =>
    intro text args rest h
    obtain ⟨rfl, rfl⟩ | ⟨room', _, _, hroom, -⟩ := readArgs_cases h
    · exact ⟨[], .none, .cons .none trivial .nil⟩
    · cases hroom
  | succ room ih =>
    intro text args rest h
    obtain ⟨rfl, rfl⟩ | ⟨room', arg, behind, hroom, harg, hnext⟩ := readArgs_cases h
    · exact ⟨[], .none, .cons .none trivial .nil⟩
    cases hroom
    obtain ⟨ps, mid, hps, hlaid, rfl⟩ := hread harg
    rw [skipFiller_skipFiller] at hnext
    obtain ⟨hskip, rfl⟩ | ⟨after, args', hskip, hargs, rfl⟩ := hnext
    · exact ⟨ps, .last hps, hlaid.append (.of_skipFiller hskip trivial .nil)⟩
    · obtain ⟨qs, hqs, hlaid'⟩ := ih hargs
      have hcomma : Laid (.comma :: (qs ++ [.closing])) mid rest :=
        .of_skipFiller hskip trivial (hlaid'.of_skipped (by simp))
      refine ⟨ps ++ .comma :: qs, .cons hps hqs, ?_⟩
      rw [List.append_assoc]
      exact hlaid.append hcomma

/-- Reading goes on from a spelling to a longer one: the induction on depth takes the argument lists
    and the expressions inside them in turn. -/
theorem readExpr_readCalls_sound (room depth : Nat) : ReadsSpelling (readExpr room depth) ∧
    ∀ {start text e ps e' rest}, readCalls room depth e text = .ok (e', rest) → Spells e ps → Laid ps start text →
      ∃ qs mid, Spells e' qs ∧ Laid qs start mid ∧ rest = skipFiller mid := by
  induction depth with
  | zero =>
    refine ⟨?_, ?_⟩
    · intro text e rest h
      cases h
    · intro start text e ps e' rest h
      cases h
  | succ depth ih =>
    obtain ⟨ihExpr, ihCalls⟩ := ih
    refine ⟨?_, ?_⟩
    · intro text e rest h
      obtain ⟨_, atom, behind, hdepth, hatom, hcalls⟩ := readExpr_cases h
      cases hdepth
      obtain ⟨t, htext, hstands, hspell⟩ := readToken_sound hatom
      exact ihCalls hcalls hspell (.of_skipFiller htext hstands .nil)
    · intro start text e ps e' rest h hspell hlaid
      obtain ⟨_, hdepth, ⟨behind, args, after, hskip, hargs, hcalls⟩ | ⟨rfl, rfl, -⟩⟩ := readCalls_cases h
      · cases hdepth
        obtain ⟨qs, hqs, hlaid'⟩ := readArgs_sound ihExpr hargs
        have hlist : Laid (.opening :: (qs ++ [.closing])) text after :=
          .of_skipFiller hskip trivial (hlaid'.of_skipped (by simp))
        exact ihCalls hcalls (.apply hspell hqs) (hlaid.append hlist)
      · exact ⟨ps, text, hspell, hlaid, rfl⟩

theorem readExpr_sound (room depth : Nat) : ReadsSpelling (readExpr room depth) :=
  (readExpr_readCalls_sound room depth).1

theorem readProgram_sound {depth : Nat} {text : List Char} {e : Expr} (h : readProgram depth text = .ok e) :
    Layout e text := by
  obtain ⟨⟨e', rest⟩, hread, h⟩ := bind_eq_ok h
  obtain ⟨ps, mid, hspell, hlaid, rfl⟩ := readExpr_sound _ _ hread
  simp only [skipFiller_skipFiller] at h
  split at h
  · rename_i hnil
    cases h
    obtain ⟨u, hu, hf⟩ := filler_skipFiller mid
    rw [hnil] at hu hf
    rw [List.append_nil] at hu
    subst hu
    exact ⟨ps, hspell, mid, hlaid, hf⟩
  · cases h

/-! ## What is laid out is read -/

theorem readExpr_skipFiller (room depth : Nat) (text : List Char) :
    readExpr room depth (skipFiller text) = readExpr room depth text := by
  cases depth with
  | zero => rfl
  | succ depth => rw [readExpr, readExpr, skipFiller_skipFiller]

theorem readExpr_of_token {room depth : Nat} {text behind : List Char} {atom : Expr}
    (h : readToken (skipFiller text) = .ok (atom, behind)) :
    readExpr room (depth + 1) text = readCalls room depth atom behind := by
  rw [readExpr, h]
  rfl

theorem readExpr_token {room depth : Nat} {t : Token} {text rest : List Char} {e : Expr}
    (h : Laid [.token t] text rest) (he : t.expr = .ok e) :
    readExpr room (depth + 1) text = readCalls room depth e rest := by
  obtain ⟨after, hskip, hs, hnil, -⟩ := h.cons_inv
  cases hnil
  refine readExpr_of_token ?_
  rw [hskip]
  exact readToken_complete hs he

/-- A spelling begins with a token, so the text it is laid out in neither ends nor begins with a
    closing bracket. -/
theorem Spells.begins {e : Expr} {ps : List Lexeme} : Spells e ps → ∃ t ps', ps = .token t :: ps'
  | .text s => ⟨.text s, [], rfl⟩
  | .number ds _ => ⟨.digits ds, [], rfl⟩
  | .word name => ⟨.word name, [], rfl⟩
  | .apply hf _ => by
    obtain ⟨t, ps', rfl⟩ := hf.begins
    exact ⟨t, _, rfl⟩

theorem Spells.not_closing {e : Expr} {ps : List Lexeme} {text rest : List Char} (hs : Spells e ps)
    (hl : Laid ps text rest) : skipFiller text ≠ [] ∧ ∀ after, skipFiller text ≠ ')' :: after := by
  obtain ⟨t, ps', rfl⟩ := hs.begins
  obtain ⟨after, hskip, ht, -⟩ := hl.cons_inv
  obtain ⟨c, cs, hc, -, -, -, hclose, -⟩ := Token.chars_head ht
  rw [Lexeme.chars, hc] at hskip
  rw [hskip]
  refine ⟨by simp, ?_⟩
  intro after' heq
  cases heq
  exact hclose rfl

theorem readExpr_atom {room depth : Nat} {t : Token} {text rest : List Char} {e : Expr}
    (hl : Laid [.token t] text rest) (hd : text.length < depth) (he : t.expr = .ok e) :
    ∃ depth', rest.length < depth' ∧ readExpr room depth text = readCalls room depth' e rest := by
  obtain ⟨after, hskip, hs, hnil, hlt⟩ := hl.cons_inv
  cases hnil
  obtain ⟨depth, rfl⟩ : ∃ k, depth = k + 1 := ⟨depth - 1, by omega⟩
  exact ⟨depth, by omega, readExpr_token hl he⟩

theorem readCalls_stop {room depth : Nat} {e : Expr} {text : List Char} (hd : 0 < depth)
    (h : ∀ rest, skipFiller text ≠ '(' :: rest) : readCalls room depth e text = .ok (e, skipFiller text) := by
  obtain ⟨depth, rfl⟩ : ∃ k, depth = k + 1 := ⟨depth - 1, by omega⟩
  rw [readCalls]
  split
  · rename_i rest hskip
    exact absurd hskip (h rest)
  · rfl

theorem readCalls_list {room depth : Nat} {e : Expr} {args : List Expr} {text rest after : List Char}
    (hskip : skipFiller text = '(' :: rest)
    (hargs : readArgs (readExpr room depth) room (skipFiller rest) = .ok (args, after)) :
    readCalls room (depth + 1) e text = readCalls room depth (.apply e args) after := by
  simp only [readCalls, hskip, hargs]
  rfl

/-- A turn of the loop over an argument list, when the argument is spelled and no list follows
    it. -/
theorem readArgs_turn {inner room depth depth' : Nat} {a : Expr} {ps : List Lexeme} {text mid : List Char}
    (ha : Spells a ps) (hl : Laid ps text mid) (hread : readExpr inner depth text = readCalls inner depth' a mid)
    (hd : 0 < depth') (hmid : ∀ rest, skipFiller mid ≠ '(' :: rest) :
    readArgs (readExpr inner depth) (room + 1) (skipFiller text) =
      match skipFiller mid with
      | ',' :: after => do
        let (args, last) ← readArgs (readExpr inner depth) room (skipFiller after)
        return (a :: args, last)
      | ')' :: after => .ok ([a], after)
      | other => .error (.fault (.noSeparator (String.ofList other))) := by
  obtain ⟨hne, hclose⟩ := ha.not_closing hl
  have harg : readExpr inner depth (skipFiller text) = .ok (a, skipFiller mid) := by
    rw [readExpr_skipFiller, hread, readCalls_stop hd hmid]
  rw [readArgs, harg]
  · simp only [bind, Except.bind, skipFiller_skipFiller]
    rfl
  · exact hclose
  · exact hne

theorem readArgs_closing {read : List Char → Read} {room : Nat} {text rest : List Char}
    (h : Laid [.closing] text rest) : readArgs read room (skipFiller text) = .ok ([], rest) := by
  obtain ⟨after, hskip, -, hnil, -⟩ := h.cons_inv
  cases hnil
  rw [hskip]
  exact readArgs.eq_1 ..

/-- A turn that comes to a comma leaves the other arguments to the turns that follow. -/
theorem readArgs_comma {inner room depth depth' : Nat} {a : Expr} {args : List Expr} {ps : List Lexeme}
    {text mid after rest : List Char} (ha : Spells a ps) (hl : Laid ps text mid)
    (hread : readExpr inner depth text = readCalls inner depth' a mid) (hd : mid.length < depth')
    (hskip : skipFiller mid = Lexeme.comma.chars ++ after)
    (hargs : readArgs (readExpr inner depth) room (skipFiller after) = .ok (args, rest)) :
    readArgs (readExpr inner depth) (room + 1) (skipFiller text) = .ok (a :: args, rest) := by
  rw [readArgs_turn ha hl hread (by omega) (by simp [hskip, Lexeme.chars]), hskip]
  simp only [Lexeme.chars, List.singleton_append, hargs]
  rfl

mutual

/-- Reading a text that begins with a spelling comes to the end of the spelling, with more depth
    left than there are characters. -/
theorem readExpr_complete {room : Nat} {e : Expr} {ps : List Lexeme} :
    Spells e ps → ∀ depth text rest, Laid ps text rest → text.length < depth → text.length < room →
      ∃ depth', rest.length < depth' ∧ readExpr room depth text = readCalls room depth' e rest
  | .text s => fun _ _ _ hl hd _ => readExpr_atom hl hd rfl
  | .number ds hlen => fun _ _ _ hl hd _ => readExpr_atom hl hd (by simp [Token.expr, Nat.not_lt.mpr hlen])
  | .word name => fun _ _ _ hl hd _ => readExpr_atom hl hd rfl
  | .apply hf hargs => by
    intro depth text rest hl hd hr
    obtain ⟨mid, hlf, hll⟩ := hl.split
    obtain ⟨depth', hd', hread⟩ := readExpr_complete hf depth text mid hlf hd hr
    obtain ⟨after, hskip, -, hla, hlt⟩ := hll.cons_inv
    have hmid := hlf.length_le
    have hrest := hla.length_le
    obtain ⟨depth', rfl⟩ : ∃ k, depth' = k + 1 := ⟨depth' - 1, by omega⟩
    have hlist := readArgs_complete hargs room room depth' after rest hla (by omega) (by omega) (by omega)
    exact ⟨depth', by omega, by rw [hread, readCalls_list hskip hlist]⟩

/-- Every argument list is read up to its closing bracket; each turn of the loop leaves behind a
    text that is shorter than the turns left. -/
theorem readArgs_complete {args : List Expr} {qs : List Lexeme} :
    SpellsArgs args qs → ∀ inner room depth text rest, Laid (qs ++ [.closing]) text rest → text.length < depth →
      text.length < room → text.length < inner →
      readArgs (readExpr inner depth) room (skipFiller text) = .ok (args, rest)
  | .none => fun _ _ _ _ _ hl _ _ _ => readArgs_closing hl
  | .last ha => by
    intro inner room depth text rest hl hd hr hi
    obtain ⟨mid, hla, hlc⟩ := hl.split
    obtain ⟨depth', hd', hread⟩ := readExpr_complete ha depth text mid hla hd hi
    obtain ⟨after, hskip, -, hnil, -⟩ := hlc.cons_inv
    cases hnil
    obtain ⟨room, rfl⟩ : ∃ k, room = k + 1 := ⟨room - 1, by omega⟩
    rw [readArgs_turn ha hla hread (by omega) (by simp [hskip, Lexeme.chars]), hskip]
    rfl
  | .trailing ha => by
    intro inner room depth text rest hl hd hr hi
    rw [List.append_assoc] at hl
    obtain ⟨mid, hla, hlc⟩ := hl.split
    obtain ⟨depth', hd', hread⟩ := readExpr_complete ha depth text mid hla hd hi
    obtain ⟨after, hskip, -, hlast, -⟩ := hlc.cons_inv
    obtain ⟨room, rfl⟩ : ∃ k, room = k + 1 := ⟨room - 1, by omega⟩
    exact readArgs_comma ha hla hread hd' hskip (readArgs_closing hlast)
  | .more ha hm => by
    intro inner room depth text rest hl hd hr hi
    rw [List.append_assoc] at hl
    obtain ⟨mid, hla, hlc⟩ := hl.split
    obtain ⟨depth', hd', hread⟩ := readExpr_complete ha depth text mid hla hd hi
    obtain ⟨after, hskip, -, hlast, hlt⟩ := hlc.cons_inv
    have hmid := hla.length_le
    obtain ⟨room, rfl⟩ : ∃ k, room = k + 1 := ⟨room - 1, by omega⟩
    exact readArgs_comma ha hla hread hd' hskip
      (readArgs_complete hm inner room depth after rest hlast (by omega) (by omega) (by omega))

end

theorem readProgram_complete {depth : Nat} {text : List Char} {e : Expr} (h : Layout e text)
    (hd : text.length < depth) : readProgram depth text = .ok e := by
  obtain ⟨ps, hspell, rest, hlaid, hf⟩ := h
  obtain ⟨depth', hd', hread⟩ := readExpr_complete hspell depth text rest hlaid hd (Nat.lt_succ_self _)
  have hskip : skipFiller rest = [] := by
    have := skipFiller_append hf
    rw [List.append_nil] at this
    exact this
  have hfront : readFront depth text = .ok (e, []) := by
    rw [readFront, hread, readCalls_stop (by omega) (by simp [hskip]), hskip]
  rw [readProgram, hfront]
  rfl

/-- A text is read as an expression exactly when it is a layout of it, given more depth than the
    text has characters; with less depth nothing else is read. Two texts with the same lexemes are
    read as the same expressions, so filler can be changed at will. -/
theorem readProgram_eq_ok_iff_layout (text : List Char) (e : Expr) :
    (∀ depth, text.length < depth → (readProgram depth text = .ok e ↔ Layout e text)) ∧
    (∀ depth, readProgram depth text = .ok e → Layout e text) ∧
    ∀ ps text', LaidOut ps text → LaidOut ps text' → ∀ depth depth', text.length < depth → text'.length < depth' →
      (readProgram depth text = .ok e ↔ readProgram depth' text' = .ok e) := by
  have hread : ∀ {t depth}, List.length t < depth → (readProgram depth t = .ok e ↔ Layout e t) :=
    fun hd => ⟨readProgram_sound, fun h => readProgram_complete h hd⟩
  refine ⟨fun depth hd => hread hd, fun depth => readProgram_sound, ?_⟩
  intro ps text' hl hl' depth depth' hd hd'
  rw [hread hd, hread hd']
  constructor
  · rintro ⟨qs, hs, hq⟩
    rw [laid_unique hq hl] at hs
    exact ⟨ps, hs, hl'⟩
  · rintro ⟨qs, hs, hq⟩
    rw [laid_unique hq hl'] at hs
    exact ⟨ps, hs, hl⟩

/-- Leading zeros, a comment, a line end that is no line feed and a trailing comma in one layout;
    and a word that is read alike with and without filler around it. -/
theorem layout_of_spaced_call :
    Layout (.apply (.word "f") [.number 7, .text "a"]) "f ( 007,#c\u2028\"a\" , )".toList ∧
    LaidOut [.token (.word ['x'])] ['x'] ∧ LaidOut [.token (.word ['x'])] [' ', 'x', '#'] ∧
    (readProgram 2 ['x'] = .ok (.word "x") ↔ readProgram 4 [' ', 'x', '#'] = .ok (.word "x")) := by
  have hx : ∀ rest, Token.next? ('x' :: rest) = some (.word ['x'], rest) → (Token.word ['x']).Stands rest :=
    fun rest h => (Token.next?_sound h).2
  have hplain : LaidOut [.token (.word ['x'])] ['x'] :=
    ⟨[], .cons (p := .token (.word ['x'])) (u := []) .none (hx [] rfl) .nil, .none⟩
  have hspaced : LaidOut [.token (.word ['x'])] [' ', 'x', '#'] :=
    ⟨['#'], .cons (p := .token (.word ['x'])) (u := [' ']) (.blank rfl .none) (hx ['#'] rfl) .nil,
      @Filler.comment [] [] [] (by simp) (by simp) .none⟩
  exact ⟨((readProgram_eq_ok_iff_layout _ _).1 30 (by decide)).mp (by decide +kernel), hplain, hspaced,
    (readProgram_eq_ok_iff_layout _ _).2.2 _ _ hplain hspaced 2 4 (by decide) (by decide)⟩

/-! ## Why reading stops -/

def StopsReading (stop : Stop) : Prop := stop = .depth ∨ ∃ f, stop = .fault f ∧ f.kind = .grammar

theorem readToken_stops {text : List Char} {stop : Stop} (h : readToken text = .error stop) : StopsReading stop := by
  simp only [readToken] at h
  split at h
  · rename_i t rest _
    rcases bind_eq_error h with h | ⟨_, _, h⟩
    · cases t with
      | text s => cases h
      | word name => cases h
      | digits ds =>
        simp only [Token.expr] at h
        split at h
        · cases h
          exact .inr ⟨_, rfl, rfl⟩
        · cases h
    · cases h
  · cases h
    exact .inr ⟨_, rfl, rfl⟩

theorem readArgs_stops {read : List Char → Read}
    (hread : ∀ {text stop}, read text = .error stop → StopsReading stop) {room : Nat} {text : List Char} {stop : Stop}
    (h : readArgs read room text = .error stop) : StopsReading stop := by
  induction room generalizing text with
  | zero =>
    unfold readArgs at h
    split at h
    · cases h
    · cases h
      exact .inr ⟨_, rfl, rfl⟩
    · cases h
      exact .inl rfl
    · contradiction
  | succ room ih =>
    unfold readArgs at h
    split at h
    · cases h
    · cases h
      exact .inr ⟨_, rfl, rfl⟩
    · contradiction
    · rename_i hroom _ _
      cases hroom
      rcases bind_eq_error h with h | ⟨⟨arg, behind⟩, _, h⟩
      · exact hread h
      · simp only at h
        split at h
        · rcases bind_eq_error h with h | ⟨_, _, h⟩
          · exact ih h
          · cases h
        · cases h
        · cases h
          exact .inr ⟨_, rfl, rfl⟩

theorem readExpr_readCalls_stops (room depth : Nat) {stop : Stop} :
    (∀ {text}, readExpr room depth text = .error stop → StopsReading stop) ∧
    ∀ {e text}, readCalls room depth e text = .error stop → StopsReading stop := by
  induction depth generalizing stop with
  | zero =>
    constructor
    · intro text h
      rw [readExpr] at h
      cases h
      exact .inl rfl
    · intro e text h
      rw [readCalls] at h
      cases h
      exact .inl rfl
  | succ depth ih =>
    constructor
    · intro text h
      rw [readExpr] at h
      rcases bind_eq_error h with h | ⟨_, _, h⟩
      · exact readToken_stops h
      · exact ih.2 h
    · intro e text h
      rw [readCalls] at h
      split at h
      · rcases bind_eq_error h with h | ⟨_, _, h⟩
        · exact readArgs_stops (fun h => ih.1 h) h
        · exact ih.2 h
      · cases h

theorem readProgram_stops {depth : Nat} {text : List Char} {stop : Stop} (h : readProgram depth text = .error stop) :
    StopsReading stop := by
  rcases bind_eq_error h with h | ⟨_, _, h⟩
  · exact (readExpr_readCalls_stops _ depth).1 h
  · simp only at h
    split at h
    · cases h
    · cases h
      exact .inr ⟨_, rfl, rfl⟩

end EggLang.Program
